import PeridotSw.Bson.Document
import PeridotSw.Bson.DumpText

/-!
# What a dump prints

A document is printed element by element: its name, its value, and a document within it in the
same way, one step further to the right.
-/

namespace PeridotSw.Bson.DumpRendering

open PeridotSw.Machine.Memory
open PeridotSw.Machine.Word
open PeridotSw.Machine.Noted
open PeridotSw.Machine.Noted.Stopping
open PeridotSw.Bson.Document
open PeridotSw.Bson.Dump
open PeridotSw.Bson.DumpText

/-! ## The rendering -/

abbrev Output : Type := String × List Argument

def renderSubtype (subtype : UInt8) : List Output :=
  if subtype = 0x00 then []
  else if subtype = 0x01 then [(":Function", [])]
  else if subtype = 0x04 then [(":UUID", [])]
  else if subtype = 0x05 then [(":MD5", [])]
  else if subtype = 0x80 then [(":User", [])]
  else [(":0x%02x", [.char subtype])]

/-- What is printed for the bytes of a value of a type whose values all have one length. -/
def renderFixed (type : UInt8) (body : List UInt8) : Output :=
  if type = 0x01 then ("%lf", [.number body])
  else if type = 0x06 then ("undefined", [])
  else if type = 0x08 then (if body ≠ [0] then "true" else "false", [])
  else if type = 0x0a then ("null", [])
  else if type = 0x10 then ("%ld", [.number body])
  else if type = 0x11 then ("%llu", [.number body])
  else ("%lld", [.number body])

/-- The types of that kind that are printed. -/
def FixedPrinted (type : UInt8) : Prop :=
  type ∈ ([0x01, 0x06, 0x08, 0x09, 0x0a, 0x10, 0x11, 0x12] : List UInt8)

instance (type : UInt8) : Decidable (FixedPrinted type) :=
  inferInstanceAs (Decidable (_ ∈ _))

def separator : Elements → List UInt8
  | .empty => []
  | .append .. => [0x2c]

mutual

/-- What is printed for a value, the names beside it being so far to the right. -/
def renderValue (indent totalIndent : Nat) : Value → List Output
  | .string text => [("\"%s\"", [.string text.bytes])]
  | .int32 number => [("%ld", [.number (bytes32 (unsigned number.toInt))])]
  | .boolean number => [(if number ≠ 0 then "true" else "false", [])]
  | .double number => [("%lf", [.number number.bytes])]
  | .null => [("null", [])]
  | .binary subtype content =>
      ("<Binary", []) :: renderSubtype subtype ++
        content.map (fun byte => (" %02x", [.char byte])) ++ [(">", [])]
  | .subdocument content =>
      ("%c", [.char 0x7b]) :: renderElements indent (totalIndent + indent) content ++
        [(if indent ≠ 0 then "\n%c" else "%c", [.char 0x7d])]
  | .array content =>
      ("%c", [.char 0x5b]) :: renderElements indent (totalIndent + indent) content ++
        [(if indent ≠ 0 then "\n%c" else "%c", [.char 0x5d])]
  | .other type body _ _ => [renderFixed type body]

def renderElements (indent totalIndent : Nat) : Elements → List Output
  | .empty => []
  | .append front key value =>
      renderElements indent totalIndent front ++
        ("%s%s\"%s\":", [.string (separator front), .string (indentText indent totalIndent),
          .string key.bytes]) :: renderValue indent totalIndent value

end

mutual

/-- All types are ones that are printed. -/
def ValuePrintable : Value → Prop
  | .subdocument content => Printable content
  | .array content => Printable content
  | .other type _ _ _ => FixedPrinted type
  | _ => True

def Printable : Elements → Prop
  | .empty => True
  | .append front _ value => Printable front ∧ ValuePrintable value

end

/-! ## Bytes at a pointer -/

/-- The memory holds the bytes from a pointer on. -/
structure Lies (memory : List UInt8) (ptr : Int) (bytes : List UInt8) : Prop where
  nonneg : 0 ≤ ptr
  here : bytes <+: memory.drop ptr.toNat

variable {memory bytes more : List UInt8} {ptr : Int} {byte : UInt8}

theorem Lies.bytesFrom (lies : Lies memory ptr bytes) : bytes <+: bytesFrom memory ptr := by
  rw [Dump.bytesFrom, if_neg (Int.not_lt.mpr lies.nonneg)]
  exact lies.here

theorem Lies.left (lies : Lies memory ptr (bytes ++ more)) : Lies memory ptr bytes :=
  ⟨lies.nonneg, (List.prefix_append bytes more).trans lies.here⟩

theorem Lies.right (lies : Lies memory ptr (bytes ++ more)) :
    Lies memory (ptr + bytes.length) more := by
  obtain ⟨nonneg, rest, whole⟩ := lies
  refine ⟨by omega, rest, ?_⟩
  have place : (ptr + bytes.length).toNat = ptr.toNat + bytes.length := by omega
  rw [place, ← List.drop_drop, ← whole, List.append_assoc, List.drop_left]

theorem Lies.tail (lies : Lies memory ptr (byte :: more)) : Lies memory (ptr + 1) more :=
  @Lies.right memory [byte] more ptr lies

theorem Lies.byteAt (lies : Lies memory ptr (byte :: more)) : byteAt memory ptr = .ok byte := by
  obtain ⟨rest, whole⟩ := lies.bytesFrom
  rw [Dump.byteAt, ← whole]
  rfl

theorem Lies.bytesAt (lies : Lies memory ptr bytes) :
    bytesAt memory ptr bytes.length = .ok bytes := by
  obtain ⟨rest, whole⟩ := lies.bytesFrom
  rw [Dump.bytesAt, ← whole, if_pos (by simp), List.take_left]

theorem Lies.readUnalignedInt {count : Nat} (small : count < 2 ^ 31)
    (lies : Lies memory ptr (bytes32 count)) : readUnalignedInt memory ptr = .ok (count : Int) := by
  obtain ⟨rest, whole⟩ := lies.bytesFrom
  rw [Dump.readUnalignedInt, ← whole]
  change Except.ok (signed (le32 _ _ _ _)) = _
  rw [le32_byteAt (by omega), signed_eq_of_lt small]

theorem untilNul_text {text : List UInt8} (nulFree : ∀ byte ∈ text, byte ≠ 0) (rest : List UInt8) :
    untilNul (text ++ 0 :: rest) = some text := by
  induction text with
  | nil => rfl
  | cons byte text ih =>
      rw [List.cons_append, untilNul, if_neg (nulFree byte (.head _)),
        ih fun other listed => nulFree other (.tail _ listed)]
      rfl

theorem Lies.stringAt {text : CString} (lies : Lies memory ptr (text.bytes ++ 0 :: more)) :
    stringAt memory ptr = .ok text.bytes := by
  obtain ⟨rest, whole⟩ := lies.bytesFrom
  rw [Dump.stringAt, ← whole, List.append_assoc, List.cons_append, untilNul_text text.nulFree]

/-! ## What a computation shows -/

/-- A computation returns a value, and has called `output` as listed by then. -/
structure Shows {α : Type} (computation : Dumping α) (value : α) (shown : List Output) : Prop where
  returns : outcome computation = .ok value
  outputs : (notes computation).filterMap outputOf = shown

variable {α β : Type} {value : α} {other : β} {shown later : List Output}

theorem shows_pure : Shows (pure value) value [] := ⟨rfl, rfl⟩

theorem shows_output (format : String) (arguments : List Argument) :
    Shows (output format arguments) () [(format, arguments)] := ⟨rfl, rfl⟩

theorem shows_turn (before after : Int) : Shows (note (.turn before after)) () [] := ⟨rfl, rfl⟩

theorem shows_read {result : Except Cut α} (reads : result = .ok value) :
    Shows (liftM result) value [] := ⟨reads, rfl⟩

theorem Shows.bind {first : Dumping α} {rest : α → Dumping β} (here : Shows first value shown)
    (behind : Shows (rest value) other later) : Shows (first >>= rest) other (shown ++ later) := by
  refine ⟨(outcome_bind_ok here.returns rest).trans behind.returns, ?_⟩
  rw [notes_bind_ok here.returns, List.filterMap_append, here.outputs, behind.outputs]

theorem Shows.read {result : Except Cut α} {rest : α → Dumping β} (reads : result = .ok value)
    (behind : Shows (rest value) other later) : Shows (liftM result >>= rest) other later :=
  (shows_read reads).bind behind

theorem Shows.output {format : String} {arguments : List Argument} {rest : Unit → Dumping β}
    (behind : Shows (rest ()) other later) :
    Shows (Dump.output format arguments >>= rest) other ((format, arguments) :: later) :=
  (shows_output format arguments).bind behind

/-! ## Values -/

theorem shows_bytes {content : List UInt8} (lies : Lies memory ptr content) :
    Shows (dumpBytes memory content.length ptr) ()
      (content.map fun byte => (" %02x", [.char byte])) := by
  induction content generalizing ptr with
  | nil => exact shows_pure
  | cons byte content ih => exact .read lies.byteAt (.output (ih lies.tail))

theorem shows_subtype (subtype : UInt8) :
    Shows (dumpSubtype subtype) () (renderSubtype subtype) := by
  unfold dumpSubtype renderSubtype
  repeat' split
  · exact shows_pure
  all_goals exact shows_output _ _

variable {indent totalIndent : Nat}

theorem shows_binary {subtype : UInt8} {content : List UInt8} (small : content.length < 2 ^ 31)
    (lies : Lies memory ptr (bytes32 content.length ++ subtype :: content)) :
    Shows (dumpBinary memory ptr) (some (ptr + (content.length + 5 : Nat)))
      (renderValue indent totalIndent (.binary subtype content)) := by
  have behind : Lies memory (ptr + 4) (subtype :: content) := lies.right
  have whole : Shows (dumpBinary memory ptr) (some (ptr + 4 + 1 + (content.length : Int)))
      (("<Binary", []) :: (renderSubtype subtype ++
        (content.map (fun byte => (" %02x", [.char byte])) ++ ([(">", [])] ++ [])))) := by
    refine .read (lies.left.readUnalignedInt small) (.read behind.byteAt (.output ?_))
    rw [Int.toNat_natCast]
    exact (shows_subtype subtype).bind ((shows_bytes behind.tail).bind
      ((shows_output ">" []).bind shows_pure))
  rw [show ptr + (content.length + 5 : Nat) = ptr + 4 + 1 + (content.length : Int) by omega,
    renderValue, List.append_assoc, List.cons_append]
  exact whole

theorem shows_string {text : CString} (small : text.bytes.length + 1 < 2 ^ 31)
    (lies : Lies memory ptr (bytes32 (text.bytes.length + 1) ++ text.bytes ++ [0])) :
    Shows (dumpString memory ptr) (some (ptr + (text.bytes.length + 5 : Nat)))
      (renderValue indent totalIndent (.string text)) := by
  have behind : Lies memory (ptr + 4) (text.bytes ++ [0]) := by
    rw [List.append_assoc] at lies
    exact lies.right
  have last : byteAt memory (ptr + 4 + ((text.bytes.length + 1 : Nat) : Int) - 1) = .ok 0 := by
    rw [show ptr + 4 + ((text.bytes.length + 1 : Nat) : Int) - 1 = ptr + 4 + text.bytes.length by
      omega]
    exact behind.right.byteAt
  rw [show ptr + (text.bytes.length + 5 : Nat) = ptr + 4 + ((text.bytes.length + 1 : Nat) : Int) by
    omega]
  refine .read (lies.left.left.readUnalignedInt small) (.read behind.stringAt
    (.output (.read last ?_)))
  exact shows_pure

theorem shows_number {format : String} {size : Nat} {body : List UInt8}
    (shaped : body.length = size) (lies : Lies memory ptr body) :
    Shows (dumpNumber memory format size ptr) (some (ptr + (body.length : Int)))
      [(format, [.number body])] := by
  subst shaped
  exact .read lies.bytesAt (.output shows_pure)

theorem shows_word {word : String} {body : List UInt8} (shaped : body.length = 0) :
    Shows (dumpWord word ptr) (some (ptr + (body.length : Int))) [(word, [])] := by
  rw [shaped, show ptr + ((0 : Nat) : Int) = ptr from Int.add_zero ptr]
  exact .output shows_pure

theorem shows_boolean {body : List UInt8} (shaped : body.length = 1) (lies : Lies memory ptr body) :
    Shows (dumpBoolean memory ptr) (some (ptr + (body.length : Int)))
      [(if body ≠ [0] then "true" else "false", [])] := by
  obtain ⟨byte, rfl⟩ := List.length_eq_one_iff.mp shaped
  refine .read lies.byteAt ?_
  simp only [ne_eq, List.cons.injEq, and_true]
  exact .output shows_pure

/-- Values that are copied as a whole. -/
theorem shows_fixed {type : UInt8} {body : List UInt8} (printed : FixedPrinted type)
    (shaped : Shaped type body) (lies : Lies memory ptr body) :
    Shows (dumpValue memory type ptr) (some (ptr + (body.length : Int)))
      [renderFixed type body] := by
  simp only [FixedPrinted, List.mem_cons, List.not_mem_nil, or_false] at printed
  rcases printed with rfl | rfl | rfl | rfl | rfl | rfl | rfl | rfl
  · exact shows_number shaped lies
  · exact shows_word shaped
  · exact shows_boolean shaped lies
  · exact shows_number shaped lies
  · exact shows_word shaped
  · exact shows_number shaped lies
  · exact shows_number shaped lies
  · exact shows_number shaped lies

theorem renderFixed_boolean (number : Int32) :
    renderFixed 0x08 (Value.encode (.boolean number)) =
      (if number ≠ 0 then "true" else "false", []) := by
  by_cases zero : number = 0
  · subst zero
    rfl
  · have byte : Value.encode (.boolean number) = [1] := by
      rw [Value.encode, if_pos zero]
    rw [byte, if_pos zero]
    rfl

/-! ## Elements -/

/-- The `switch` over all types. -/
def dumpAny (memory : List UInt8) (indent bound : Nat) (type : UInt8) (data : Int)
    (totalIndent : Nat) : Dumping (Option Int) :=
  if type = 0x03 ∨ type = 0x04 then
    dumpHead memory indent data (type = 0x04) totalIndent
      (dumpElements memory indent bound (type = 0x04) [])
  else
    dumpValue memory type data

def nextTurn (memory : List UInt8) (indent bound : Nat) (isArray : Bool) (stop : Int)
    (totalIndent : Nat) (data : Int) : Option Int → Dumping (Option Int)
  | none => pure none
  | some next => do
      note (.turn data next)
      dumpElements memory indent bound isArray [0x2c] stop next totalIndent

theorem dumpAny_bind (memory : List UInt8) (indent bound : Nat) (type : UInt8) (data : Int)
    (totalIndent : Nat) (rest : Option Int → Dumping β) :
    dumpAny memory indent bound type data totalIndent >>= rest =
      if type = 0x03 ∨ type = 0x04 then
        dumpHead memory indent data (type = 0x04) totalIndent
          (dumpElements memory indent bound (type = 0x04) []) >>= rest
      else
        dumpValue memory type data >>= rest := by
  unfold dumpAny
  split <;> rfl

variable {bound : Nat} {isArray : Bool} {sep : List UInt8} {stop : Int} {result : Option Int}

def closing (indent : Nat) (isArray : Bool) : Output :=
  (if indent ≠ 0 then "\n%c" else "%c", [.char (if isArray then 0x5d else 0x7d)])

theorem shows_closing (lies : Lies memory ptr [0]) :
    Shows (dumpElements memory indent (bound + 1) isArray sep (ptr + 1) ptr totalIndent)
      (some (ptr + 1)) [closing indent isArray] := by
  rw [dumpElements, if_pos (by omega)]
  refine .read lies.byteAt ?_
  rw [if_pos rfl]
  refine .output ?_
  rw [if_neg (by omega)]
  exact shows_pure

theorem shows_element {element : Element} (typed : element.type ≠ 0)
    (lies : Lies memory ptr element.bytes) (inside : ptr + element.bytes.length < stop)
    (here : Shows (dumpAny memory indent bound element.type
        (ptr + 1 + (element.key.bytes.length + 1)) totalIndent)
      (some (ptr + element.bytes.length)) shown)
    (behind : Shows (dumpElements memory indent bound isArray [0x2c] stop
        (ptr + element.bytes.length) totalIndent) result later) :
    Shows (dumpElements memory indent (bound + 1) isArray sep stop ptr totalIndent) result
      (("%s%s\"%s\":", [.string sep, .string (indentText indent totalIndent),
        .string element.key.bytes]) :: shown ++ later) := by
  have size := length_element_bytes element
  rw [dumpElements, if_pos (by omega)]
  refine .read lies.byteAt ?_
  rw [if_neg typed]
  refine .read lies.tail.stringAt ?_
  dsimp only
  rw [if_neg (by omega)]
  have turn : Shows (nextTurn memory indent bound isArray stop totalIndent ptr
      (some (ptr + element.bytes.length))) result later := .bind (shows_turn _ _) behind
  have whole := here.bind turn
  rw [dumpAny_bind] at whole
  exact .output whole

/-- The elements of a document are printed, and what comes behind them. -/
def ElementsShown (memory : List UInt8) (indent : Nat) (content : Elements) : Prop :=
  ∀ {bound : Nat} {isArray : Bool} {stop ptr : Int} {totalIndent : Nat} {result : Option Int}
    {later : List Output}, content.encode.length < content.list.length + bound →
    Lies memory ptr content.encode → ptr + content.encode.length < stop →
    Shows (dumpElements memory indent bound isArray (separator content) stop
      (ptr + content.encode.length) totalIndent) result later →
    Shows (dumpElements memory indent (content.list.length + bound) isArray [] stop ptr totalIndent)
      result (renderElements indent totalIndent content ++ later)

theorem length_list_le (content : Elements) : content.list.length ≤ content.encode.length := by
  match content with
  | .empty => exact Nat.le_refl 0
  | .append front key value =>
      have ih := length_list_le front
      simp only [Elements.list, Elements.encode, List.length_append, List.length_singleton,
        length_element_bytes]
      omega

theorem shows_document {content : Elements} (elements : ElementsShown memory indent content)
    (small : content.encode.length + 5 < 2 ^ 31) (enough : content.encode.length < bound)
    (lies : Lies memory ptr (documentBytes content.encode)) :
    Shows (dumpHead memory indent ptr isArray totalIndent
        (dumpElements memory indent bound isArray []))
      (some (ptr + (documentBytes content.encode).length))
      (("%c", [.char (if isArray then 0x5b else 0x7b)]) ::
        renderElements indent (totalIndent + indent) content ++ [closing indent isArray]) := by
  have count := length_list_le content
  have inner : Lies memory (ptr + 4) (content.encode ++ [0]) := by
    rw [documentBytes, List.append_assoc] at lies
    exact lies.right
  obtain ⟨rest, rfl⟩ : ∃ rest, bound = content.list.length + (rest + 1) :=
    ⟨bound - content.list.length - 1, by omega⟩
  have stop : ptr + ((content.encode.length + 5 : Nat) : Int) =
      ptr + 4 + content.encode.length + 1 := by omega
  rw [length_documentBytes, stop]
  refine .read (lies.left.left.readUnalignedInt small) (.output ?_)
  rw [stop]
  exact elements enough inner.left (by omega) (shows_closing inner.right)

mutual

theorem shows_value (value : Value) {bound : Nat} {ptr : Int} {totalIndent : Nat}
    (printable : ValuePrintable value) (small : value.encode.length < 2 ^ 31)
    (enough : value.encode.length ≤ bound) (lies : Lies memory ptr value.encode) :
    Shows (dumpAny memory indent bound value.type ptr totalIndent)
      (some (ptr + value.encode.length)) (renderValue indent totalIndent value) := by
  match value with
  | .string text =>
      have size : (Value.encode (.string text)).length = text.bytes.length + 5 := by
        simp [Value.encode]
        omega
      rw [size] at small ⊢
      exact shows_string (by omega) lies
  | .int32 number =>
      have printed : FixedPrinted 0x10 := by decide
      exact shows_fixed printed (Value.int32 number).shaped lies
  | .boolean number =>
      have printed : FixedPrinted 0x08 := by decide
      have shown := @shows_fixed _ _ 0x08 _ printed (Value.boolean number).shaped lies
      rw [renderFixed_boolean] at shown
      exact shown
  | .double number =>
      have printed : FixedPrinted 0x01 := by decide
      exact shows_fixed printed (Value.double number).shaped lies
  | .null =>
      have printed : FixedPrinted 0x0a := by decide
      exact shows_fixed printed Value.null.shaped lies
  | .binary subtype content =>
      have size : (Value.encode (.binary subtype content)).length = content.length + 5 := by
        simp [Value.encode]
        omega
      rw [size] at small ⊢
      exact shows_binary (by omega) lies
  | .subdocument content =>
      have size : (Value.encode (.subdocument content)).length = content.encode.length + 5 :=
        length_documentBytes content.encode
      rw [size] at small enough
      exact shows_document (elements_shown content printable small) small (by omega) lies
  | .array content =>
      have size : (Value.encode (.array content)).length = content.encode.length + 5 :=
        length_documentBytes content.encode
      rw [size] at small enough
      exact shows_document (elements_shown content printable small) small (by omega) lies
  | .other type body shaped foreign =>
      have printed : FixedPrinted type := printable
      have plain : ¬(type = 0x03 ∨ type = 0x04) := by
        rintro (rfl | rfl)
        · exact absurd printed (by decide)
        · exact absurd printed (by decide)
      have shown := shows_fixed printed shaped lies
      change Shows (dumpAny memory indent bound type ptr totalIndent) _ _
      rw [dumpAny, if_neg plain]
      exact shown

theorem elements_shown (content : Elements) (printable : Printable content)
    (small : content.encode.length + 5 < 2 ^ 31) : ElementsShown memory indent content := by
  match content with
  | .empty =>
      intro bound isArray stop ptr totalIndent result later _ _ _ behind
      have start : ptr + ((Elements.encode .empty).length : Int) = ptr := Int.add_zero ptr
      have turns : (Elements.list .empty).length + bound = bound := Nat.zero_add bound
      rw [start] at behind
      rw [turns]
      exact behind
  | .append front key value =>
      intro bound isArray stop ptr totalIndent result later enough lies inside behind
      have count := length_list_le front
      have whole : (Elements.encode (.append front key value)).length =
          front.encode.length + (value.element key).bytes.length := List.length_append
      have turns : (Elements.list (.append front key value)).length = front.list.length + 1 :=
        List.length_append
      have size : (value.element key).bytes.length = key.bytes.length + value.encode.length + 2 :=
        length_element_bytes (value.element key)
      rw [whole] at small enough inside behind
      rw [Int.natCast_add, ← Int.add_assoc] at inside behind
      have both : Lies memory ptr (front.encode ++ (value.element key).bytes) := lies
      have body : Lies memory (ptr + front.encode.length + 1 + (key.bytes.length + 1))
          value.encode := by
        rw [← Int.add_assoc]
        exact both.right.tail.right.tail
      have here := @shows_value value bound _ totalIndent printable.2 (by omega) (by omega) body
      have behind' : ptr + front.encode.length + 1 + (key.bytes.length + 1) + value.encode.length =
          ptr + front.encode.length + (value.element key).bytes.length := by omega
      rw [behind'] at here
      have turn := @shows_element _ _ _ _ _ _ _ _ (separator front) _ _ _ value.shaped.type_ne_zero
        both.right inside here behind
      have shown := elements_shown front printable.1 (by omega) (by omega) both.left (by omega) turn
      rw [turns, Nat.add_assoc, Nat.add_comm 1 bound, renderElements, List.append_assoc]
      exact shown

end

/-! ## Documents made by the writers -/

def rendering (indent : Nat) (content : Elements) : List Output :=
  renderValue indent 0 (.subdocument content)

theorem shows_bsonDumpImpl {content : Elements} (printable : Printable content)
    (small : content.encode.length + 5 < 2 ^ 31) (enough : content.encode.length < bound)
    (lies : Lies memory ptr (documentBytes content.encode)) :
    Shows (bsonDumpImpl memory indent bound (some ptr) false 0)
      (some (ptr + (documentBytes content.encode).length)) (rendering indent content) :=
  shows_document (elements_shown content printable small) small enough lies

mutual

theorem printable_built {content : Elements} {doc : Mem} {sum : Int} :
    Built content doc sum → Printable content
  | .empty _ => trivial
  | .append built passes _ => ⟨printable_built built, printable_passes passes⟩

theorem printable_passes {value : Value} {call : Call} : Passes value call → ValuePrintable value
  | .string _ => trivial
  | .int32 _ => trivial
  | .boolean _ => trivial
  | .double _ => trivial
  | .null => trivial
  | .binary _ => trivial
  | .subdocument built => printable_built built
  | .array built => printable_built built

end

theorem lies_slice {mem : Mem} {size : Nat} (held : Holds mem 0 bytes)
    (room : bytes.length ≤ size) : Lies (slice mem 0 size) 0 bytes := by
  refine ⟨Int.le_refl 0, ?_⟩
  have front : bytes = (slice mem 0 size).take bytes.length := by
    rw [slice, ← List.map_take, List.take_range, Nat.min_eq_left room]
    exact (slice_eq_of_holds held).symm
  rw [front]
  exact List.take_prefix _ _

def shownText (print : String → List Argument → List UInt8) (shown : List Output) : List UInt8 :=
  shown.flatMap fun call => print call.1 call.2

theorem textOf_piecesOf (print : String → List Argument → List UInt8) (stale room : Nat → Mem)
    (notes : List Note) :
    textOf (piecesOf print stale room notes) = shownText print (notes.filterMap outputOf) := by
  have calls := List.zipIdx_map_fst 0 (notes.filterMap outputOf)
  rw [textOf, piecesOf, List.flatMap_map, shownText, ← calls, List.flatMap_map, calls]

theorem fits_piecesOf {print : String → List Argument → List UInt8} {notes : List Note}
    (stale room : Nat → Mem)
    (fits : ∀ call ∈ notes.filterMap outputOf, (print call.1 call.2).length ≤ 127) :
    ∀ piece ∈ piecesOf print stale room notes, piece.text.length ≤ 127 := by
  intro piece listed
  obtain ⟨call, numbered, rfl⟩ := List.mem_map.mp listed
  exact fits call.1 (List.fst_mem_of_mem_zipIdx numbered)

/-- Of a document made by the writers a dump prints the rendering, and `bson_dump` returns its
text as long as no piece of it is too long for the array. -/
theorem dump_built {content : Elements} {doc : Mem} {sum : Int} (built : Built content doc sum)
    (print : String → List Argument → List UInt8) (stale room : Nat → Mem) (indent : Nat)
    {size bound : Nat} (inside : content.encode.length + 5 ≤ size)
    (enough : content.encode.length < bound) :
    Shows (bsonDumpImpl (slice doc 0 size) indent bound (some 0) false 0)
        (some (content.encode.length + 5)) (rendering indent content) ∧
      ((∀ call ∈ rendering indent content, (print call.1 call.2).length ≤ 127) →
        (shownText print (rendering indent content)).length < 2 ^ 30 →
        ∃ buffer, bsonDump print stale room (slice doc 0 size) indent bound (some 0) = .ok buffer ∧
          buffer.take ((shownText print (rendering indent content)).length + 1) =
            shownText print (rendering indent content) ++ [0]) := by
  obtain ⟨held, small⟩ := built.holds.1
  have length := length_documentBytes content.encode
  have shown : Shows (bsonDumpImpl (slice doc 0 size) indent bound (some 0) false 0) _ _ :=
    shows_bsonDumpImpl (printable_built built) small enough
      (lies_slice held (length ▸ inside))
  rw [length, Int.zero_add] at shown
  refine ⟨shown, fun fits short => ?_⟩
  have calls := shown.outputs
  have whole := textOf_piecesOf print stale room
    (notes (bsonDumpImpl (slice doc 0 size) indent bound (some 0) false 0))
  rw [calls] at whole
  have nonempty : piecesOf print stale room
      (notes (bsonDumpImpl (slice doc 0 size) indent bound (some 0) false 0)) ≠ [] := by
    rw [piecesOf, calls]
    simp [rendering, renderValue]
  rw [← calls] at fits
  have returned := bsonDump_text print stale room (slice doc 0 size) indent bound (some 0) rfl nonempty
    (fits_piecesOf stale room fits) (by rw [whole]; exact short)
  rw [whole] at returned
  exact returned

def sample : Elements := .append .empty (.of [0x6e] (Eq.refl true)) (.int32 7)

/-- The formats that are used for it, with numbers of one digit. -/
def printSample (_ : String) : List Argument → List UInt8
  | [.char byte] => [byte]
  | [.string sep, .string indent, .string key] => sep ++ indent ++ 0x22 :: key ++ [0x22, 0x3a]
  | [.number bytes] => [0x30 + bytes.headD 0]
  | _ => []

theorem dump_built_sample : ∃ doc sum, Built sample doc sum ∧
    ∃ buffer, bsonDump printSample (fun _ _ => 0xaa) (fun _ _ => 0xbb) (slice doc 0 12) 0 8
        (some 0) = .ok buffer ∧
      buffer.take 8 = [0x7b, 0x22, 0x6e, 0x22, 0x3a, 0x37, 0x7d, 0] := by
  have built : Built sample _ _ := .append (.empty fun _ => 0xff) (.int32 7) (by decide)
  exact ⟨_, _, built, (dump_built built printSample (fun _ _ => 0xaa) (fun _ _ => 0xbb) 0
    (by decide) (by decide)).2 (by decide) (by decide)⟩

end PeridotSw.Bson.DumpRendering
