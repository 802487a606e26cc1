import PeridotSw.Bson.Footprint
import PeridotSw.Bson.RoundTrip

/-!
# Shrinking the last binary

A binary is made with room for its content, and gives back what was not needed, as long
as it is the last element.  What is left is a document as the writers make it, so that
everything said about these holds for it, further elements included.
-/

namespace PeridotSw.Bson.Shrink

open PeridotSw.Machine.Memory
open PeridotSw.Machine.Word
open PeridotSw.Bson.Read
open PeridotSw.Bson.Write
open PeridotSw.Bson.Walk
open PeridotSw.Bson.Document
open PeridotSw.Bson.Footprint

/-! ## Calls as stores -/

theorem length_bytes_element (key : CString) (value : Value) :
    (Element.bytes ⟨key, value.type, value.encode⟩).length =
      elementSize key value.encode.length := length_element_bytes _

/-- A writer stores its element, and changes nothing behind it. -/
theorem occupies_apply {value : Value} {call : Call} (passes : Passes value call)
    {garbage doc : Mem} {size : Nat} (occupies : Occupies garbage doc size) {key : CString}
    (room : size + elementSize key value.encode.length < 2 ^ 31) :
    Occupies garbage (call.apply doc key) (size + elementSize key value.encode.length) := by
  cases passes with
  | string text =>
      have size : (bytes32 (unsigned (stringSize text)) ++ text.bytes ++ [0]).length =
          (Value.string text).encode.length := by
        simp [Value.encode]
      have stored := @Occupies.append garbage doc _ occupies key
        (bytes32 (unsigned (stringSize text)) ++ text.bytes ++ [0]) (by rw [size]; exact room) 0x02
      rw [size] at stored
      exact stored
  | int32 number => exact occupies.append room 0x10
  | boolean number => exact occupies.append room 0x08
  | double number => exact occupies.append room 0x01
  | null => exact occupies.append room 0x0a
  | binary content =>
      have long := occupies.long
      have length : (Value.binary 0 content).encode.length = content.length + 5 := by
        simp [Value.encode]
        omega
      rw [length] at room ⊢
      obtain ⟨stored, place⟩ := occupies.binary room
      unfold elementSize at room
      change Occupies garbage (write _ _ content) _
      rw [place, Option.getD_some]
      exact stored.fill (by omega) (by rw [elementSize]; omega)
  | subdocument built =>
      have bytes := slice_document built.holds.1
      simp only [Value.encode] at room ⊢
      rw [← bytes] at room ⊢
      exact occupies.append room 0x03
  | array built =>
      have bytes := slice_document built.holds.1
      simp only [Value.encode] at room ⊢
      rw [← bytes] at room ⊢
      exact occupies.append room 0x04

theorem length_append (front : Elements) (key : CString) (value : Value) :
    (Elements.append front key value).encode.length =
      front.encode.length + elementSize key value.encode.length := by
  rw [Elements.encode, List.length_append, length_bytes_element]

theorem built_occupies {content : Elements} {doc : Mem} {sum : Int} (built : Built content doc sum) :
    Occupies doc doc (content.encode.length + 5) where
  declared := readUnalignedInt_document built.holds.1.1 built.holds.1.2
  long := Nat.le_add_left 5 _
  behind _ _ := rfl

/-- Memories that hold the same bytes and agree behind them are the same. -/
theorem eq_of_holds {first second : Mem} {bytes : List UInt8} (one : Holds first 0 bytes)
    (other : Holds second 0 bytes)
    (behind : ∀ index, bytes.length ≤ index → first index = second index) : first = second := by
  funext index
  by_cases inside : index < bytes.length
  · have left := one index inside
    have right := other index inside
    rw [Nat.zero_add] at left right
    rw [left, right]
  · exact behind index (Nat.not_lt.mp inside)

/-- What lies behind a document does not matter for how it was made. -/
theorem built_congr {content : Elements} {doc other : Mem} {sum : Int} :
    Built content doc sum →
      (∀ index < content.encode.length + 5, other index = doc index) → Built content other sum
  | .empty garbage, agree => by
      have held : Holds other 0 (documentBytes []) :=
        (holds_create garbage).congr fun index _ inside => agree index (by
          simpa [Elements.encode] using inside)
      have same : other = bsonCreateEmptyDocument other :=
        eq_of_holds held (holds_create other) fun index outside =>
          (write_outside (.inr (by simpa using outside))).symm
      rw [same]
      exact .empty other
  | @Built.append front before _ key value call built passes room, agree => by
      let fresh : Mem := fun index =>
        if index < front.encode.length + 5 then before index else other index
      have again : Built front fresh _ := built_congr built fun index inside => if_pos inside
      have whole := Built.append again passes room
      have held : Holds other 0 (documentBytes (Elements.append front key value).encode) :=
        (Built.append built passes room).holds.1.1.congr fun index _ inside => by
          rw [length_documentBytes, Nat.zero_add] at inside
          exact agree index inside
      have behind : ∀ index, (documentBytes (Elements.append front key value).encode).length ≤
          index → other index = call.apply fresh key index := by
        intro index outside
        rw [length_documentBytes, length_append] at outside
        rw [length_append] at room
        have stored := @occupies_apply value call passes fresh fresh _ (built_occupies again) key
          (by omega)
        rw [stored.behind index (by omega)]
        exact (if_neg (by omega)).symm
      rw [eq_of_holds held whole.holds.1.1 behind]
      exact whole

/-! ## Elements set later -/

/-- One more call of a writer. -/
structure Setting where
  key : CString
  value : Value
  call : Call
  passes : Passes value call

def setAll (doc : Mem) (settings : List Setting) : Mem :=
  settings.foldl (fun doc setting => setting.call.apply doc setting.key) doc

def addAll (content : Elements) (settings : List Setting) : Elements :=
  settings.foldl (fun content setting => .append content setting.key setting.value) content

/-- The bytes of the elements of some calls. -/
def settingBytes (settings : List Setting) : List UInt8 :=
  settings.flatMap fun setting =>
    Element.bytes ⟨setting.key, setting.value.type, setting.value.encode⟩

theorem encode_addAll (content : Elements) (settings : List Setting) :
    (addAll content settings).encode = content.encode ++ settingBytes settings := by
  induction settings generalizing content with
  | nil => simp [addAll, settingBytes]
  | cons setting rest ih =>
      have inner := ih (.append content setting.key setting.value)
      simp only [addAll, List.foldl_cons, settingBytes, List.flatMap_cons] at inner ⊢
      rw [inner, Elements.encode, List.append_assoc]

theorem built_setAll {content : Elements} {doc : Mem} {sum : Int} (built : Built content doc sum)
    {settings : List Setting} (room : (addAll content settings).encode.length + 5 < 2 ^ 31) :
    ∃ sum, Built (addAll content settings) (setAll doc settings) sum := by
  induction settings generalizing content doc sum with
  | nil => exact ⟨sum, built⟩
  | cons setting rest ih =>
      have short : (Elements.append content setting.key setting.value).encode.length + 5 <
          2 ^ 31 := by
        have whole : addAll content (setting :: rest) =
          addAll (.append content setting.key setting.value) rest := rfl
        rw [whole, encode_addAll, List.length_append] at room
        omega
      exact ih (.append built setting.passes short) room

/-! ## Shrinking -/

/-- What lies between the length of a document and that of a binary in it. -/
def lead (front : Elements) (key : CString) : List UInt8 :=
  front.encode ++ 0x05 :: key.bytes ++ [0]

theorem length_lead (front : Elements) (key : CString) :
    (lead front key).length = front.encode.length + key.bytes.length + 2 := by
  simp [lead]
  omega

theorem documentBytes_binary (front : Elements) (key : CString) (bytes : List UInt8)
    (back : List Setting) :
    documentBytes (addAll (.append front key (.binary 0 bytes)) back).encode =
      bytes32 ((addAll (.append front key (.binary 0 bytes)) back).encode.length + 5) ++
        (lead front key ++ (bytes32 bytes.length ++ 0 :: (bytes ++
          (settingBytes back ++ [0])))) := by
  rw [documentBytes, encode_addAll, Elements.encode]
  simp [Element.bytes, Value.type, Value.encode, lead]

theorem length_binary (front : Elements) (key : CString) (bytes : List UInt8)
    (back : List Setting) :
    (addAll (.append front key (.binary 0 bytes)) back).encode.length =
      (lead front key).length + bytes.length + 5 + (settingBytes back).length := by
  rw [encode_addAll, List.length_append, length_append, length_lead]
  simp only [Value.encode, elementSize, List.length_append, length_bytes32, List.length_cons]
  omega

section

variable {front : Elements} {key : CString} {bytes : List UInt8} {back : List Setting}
  {made : Mem} {buf : Nat} {binlen : Int}

/-- What `bson_shrink_binary` reads: the length of the binary and the byte behind it. -/
theorem shrink_reads
    (held : HoldsDocument made 0 (addAll (.append front key (.binary 0 bytes)) back))
    (place : buf = 4 + (lead front key).length + 5) :
    (readUnalignedInt (buf - 5)).eval made = (bytes.length : Int) ∧
      (made (buf + bytes.length) = 0 ↔ back = []) := by
  obtain ⟨whole, room⟩ := held
  rw [length_binary] at room
  rw [documentBytes_binary] at whole
  simp only [holds_append, holds_cons, length_bytes32, Nat.zero_add] at whole
  obtain ⟨-, -, length, -, -, later, terminator⟩ := whole
  have counted : word made (buf - 5) = bytes.length := by
    rw [place, Nat.add_sub_cancel]
    exact word_of_holds (by omega) length
  refine ⟨?_, ?_⟩
  · rw [eval_readUnalignedInt, counted, signed_eq_of_lt (by omega)]
  · rw [show buf + bytes.length = 4 + (lead front key).length + 4 + 1 + bytes.length by omega]
    cases back with
    | nil => exact ⟨fun _ => rfl, fun _ => terminator.1⟩
    | cons setting rest =>
        have parts : settingBytes (setting :: rest) = setting.value.type ::
            (setting.key.bytes ++ 0 :: setting.value.encode ++ settingBytes rest) := by
          simp [settingBytes, Element.bytes]
        rw [parts, holds_cons] at later
        rw [later.1]
        exact ⟨fun zero => absurd zero setting.value.shaped.type_ne_zero,
          fun none => absurd none (List.cons_ne_nil _ _)⟩

/-- The document after the new end and the new length of the binary are stored; it still
declares its old length. -/
theorem holds_counted (held : HoldsDocument made 0 (.append front key (.binary 0 bytes)))
    (place : buf = 4 + (lead front key).length + 5) {count : Nat} (less : count < bytes.length) :
    Holds (write (write made (buf + count) [0]) (buf - 5) (bytes32 count)) 0
      (bytes32 ((Elements.append front key (.binary 0 bytes)).encode.length + 5) ++
        (lead front key ++ (bytes32 count ++ (0 :: bytes.take count ++ [0])))) := by
  have whole := held.1
  have parts := documentBytes_binary front key bytes []
  simp only [addAll, List.foldl_nil, settingBytes, List.flatMap_nil, List.nil_append] at parts
  have shorter : (bytes.take count).length = count := List.length_take_of_le less.le
  obtain ⟨next, rest, dropped⟩ : ∃ next rest, bytes.drop count = next :: rest :=
    List.exists_cons_of_ne_nil fun nothing => by
      have long := List.drop_eq_nil_iff.mp nothing
      omega
  let total := bytes32 ((Elements.append front key (.binary 0 bytes)).encode.length + 5)
  let front1 := total ++ lead front key ++ bytes32 bytes.length ++ 0 :: bytes.take count
  have tail : bytes ++ [0] = bytes.take count ++ next :: (rest ++ [0]) := by
    rw [← List.cons_append, ← List.append_assoc, ← dropped, List.take_append_drop]
  have whole1 : Holds made 0 (front1 ++ [next] ++ (rest ++ [0])) := by
    rw [parts, tail] at whole
    simpa only [front1, total, List.append_assoc, List.cons_append, List.nil_append] using whole
  have place1 : buf + count = 0 + front1.length := by
    simp only [front1, total, List.length_append, length_bytes32, List.length_cons, shorter]
    omega
  have ended := ((holds_append ..).mp (@Holds.overwrite _ _ _ _ _ whole1 [0] rfl)).1
  rw [← place1] at ended
  let front2 := total ++ lead front key
  have place2 : buf - 5 = 0 + front2.length := by
    simp only [front2, total, List.length_append, length_bytes32]
    omega
  have whole2 : Holds (write made (buf + count) [0]) 0
      (front2 ++ bytes32 bytes.length ++ (0 :: bytes.take count ++ [0])) := by
    simpa only [front1, front2, List.append_assoc] using ended
  have counted := @Holds.overwrite _ _ _ _ _ whole2 (bytes32 count)
    ((length_bytes32 _).trans (length_bytes32 _).symm)
  rw [← place2] at counted
  simpa only [front2, total, List.append_assoc] using counted

/-- Shrinking the last binary leaves the document with the shorter one. -/
theorem holds_shrunk (held : HoldsDocument made 0 (.append front key (.binary 0 bytes)))
    (place : buf = 4 + (lead front key).length + 5) {count : Nat} (less : count < bytes.length) :
    (bsonShrinkBinary made buf count).2 = 0 ∧
      Holds (bsonShrinkBinary made buf count).1 0
        (documentBytes (Elements.append front key (.binary 0 (bytes.take count))).encode) := by
  obtain ⟨length, last⟩ := @shrink_reads front key bytes [] made buf held place
  have room := held.2
  have size := length_binary front key bytes []
  have size' := length_binary front key (bytes.take count) []
  have parts' := documentBytes_binary front key (bytes.take count) []
  simp only [addAll, List.foldl_nil, settingBytes, List.flatMap_nil, List.nil_append,
    List.length_nil, Nat.add_zero] at size size' parts'
  rw [List.length_take_of_le less.le] at size' parts'
  let total := (Elements.append front key (.binary 0 bytes)).encode.length + 5
  have counted := holds_counted held place less
  have declared : bsonMeasureDocument (write (write made (buf + count) [0]) (buf - 5)
      (bytes32 count)) = (total : Int) := by
    rw [bsonMeasureDocument, eval_readUnalignedInt, word_of_holds (by omega)
      ((holds_append ..).mp counted).1, signed_eq_of_lt room]
  have shrunk := @Holds.overwrite _ 0 [] _ _ counted (bytes32 ((lead front key).length + count + 10))
    ((length_bytes32 _).trans (length_bytes32 _).symm)
  have number : unsigned ((total : Int) - ((bytes.length : Int) - (count : Int))) =
      (lead front key).length + count + 10 := by
    rw [unsigned_of_nonneg (by omega) (by omega)]
    omega
  have unsigned' : unsigned (count : Int) = count := unsigned_natCast (by omega)
  have behind : ((buf : Int) + (bytes.length : Int)).toNat = buf + bytes.length := by omega
  have ended : ((buf : Int) + (count : Int)).toNat = buf + count := by omega
  simp only [bsonShrinkBinary, length, behind, ended, unsigned', declared, number]
  rw [if_neg (not_not_intro (last.mpr rfl)), if_neg (by omega), if_neg (by omega)]
  refine ⟨rfl, ?_⟩
  rw [parts', size']
  simpa only [List.nil_append, List.length_nil, Nat.add_zero, List.cons_append,
    List.append_assoc] using shrunk

/-- The pointer `bson_set_binary` gives. -/
theorem binary_pointer {doc : Mem} (held : HoldsDocument doc 0 front)
    (short : key.bytes.length + 1 < 2 ^ 31) {count : Nat}
    (pointer : (bsonSetBinaryGeneric (some doc) key count).2.2 = some buf) :
    buf = 4 + (lead front key).length + 5 := by
  have nonneg : ¬ (count : Int) < 0 := by omega
  have declared : bsonMeasureDocument doc = (front.encode.length : Int) + 5 :=
    readUnalignedInt_document held.1 held.2
  simp only [bsonSetBinaryGeneric, bsonSetBinary, if_neg nonneg, Option.map_some,
    Option.some.injEq, declared, stringSize_eq short] at pointer
  rw [length_lead]
  omega

/-- Only the last binary can be shrunk, and not to more bytes than it has. -/
theorem shrink_refused
    (held : HoldsDocument made 0 (addAll (.append front key (.binary 0 bytes)) back))
    (place : buf = 4 + (lead front key).length + 5)
    (other : ¬(back = [] ∧ binlen ≤ bytes.length)) :
    bsonShrinkBinary made buf binlen = (made, -1) := by
  obtain ⟨length, last⟩ := shrink_reads held place
  have behind : ((buf : Int) + (bytes.length : Int)).toNat = buf + bytes.length := by omega
  simp only [bsonShrinkBinary, length, behind]
  by_cases final : back = []
  · have longer : (bytes.length : Int) < binlen := Int.not_le.mp fun fits => other ⟨final, fits⟩
    rw [if_neg (not_not_intro (last.mpr final)), if_pos longer]
  · rw [if_pos fun zero => final (last.mp zero)]

/-- Shrinking to all bytes changes nothing. -/
theorem shrink_all (held : HoldsDocument made 0 (.append front key (.binary 0 bytes)))
    (place : buf = 4 + (lead front key).length + 5) :
    bsonShrinkBinary made buf bytes.length = (made, 0) := by
  obtain ⟨length, last⟩ := @shrink_reads front key bytes [] made buf held place
  have behind : ((buf : Int) + (bytes.length : Int)).toNat = buf + bytes.length := by omega
  simp only [bsonShrinkBinary, length, behind]
  rw [if_neg (not_not_intro (last.mpr rfl)), if_neg (by omega), if_pos trivial]

/-- The last binary, shrunk to its first bytes, is as if these had been set. -/
theorem built_shrunk {doc : Mem} {sum : Int} (built : Built front doc sum)
    (place : buf = 4 + (lead front key).length + 5)
    (room : (Elements.append front key (.binary 0 bytes)).encode.length + 5 < 2 ^ 31) {count : Nat}
    (fits : count ≤ bytes.length) :
    let shrunk := bsonShrinkBinary ((Call.binary bytes).apply doc key) buf count
    shrunk.2 = 0 ∧
      ∃ sum, Built (.append front key (.binary 0 (bytes.take count))) shrunk.1 sum := by
  have first := Built.append built (.binary bytes) room
  rcases Nat.lt_or_eq_of_le fits with less | same
  · obtain ⟨result, held⟩ := holds_shrunk first.holds.1 place less
    have size := length_binary front key bytes []
    have size' := length_binary front key (bytes.take count) []
    have shorter : (bytes.take count).length ≤ bytes.length := List.length_take_le' _ _
    have room' : (Elements.append front key (.binary 0 (bytes.take count))).encode.length + 5 <
        2 ^ 31 := by
      simp only [addAll, List.foldl_nil] at size size'
      omega
    have rebuilt := Built.append built (.binary (bytes.take count)) room'
    refine ⟨result, _, built_congr rebuilt fun index inside => ?_⟩
    have left := held index (by rwa [length_documentBytes])
    have right := rebuilt.holds.1.1 index (by rwa [length_documentBytes])
    rw [Nat.zero_add] at left right
    exact left.trans right.symm
  · have all : bytes.take count = bytes := by rw [same, List.take_length]
    subst same
    rw [shrink_all first.holds.1 place, all]
    exact ⟨rfl, _, first⟩

/-- `bson_shrink_binary` of a binary anywhere in a document that the writers made: the last one
is shrunk to the first bytes of its content, every other call changes nothing and fails. -/
theorem shrink_binary {doc : Mem} {sum : Int} (built : Built front doc sum)
    (pointer : (bsonSetBinaryGeneric (some doc) key bytes.length).2.2 = some buf)
    (room : (addAll (.append front key (.binary 0 bytes)) back).encode.length + 5 < 2 ^ 31)
    (nonneg : 0 ≤ binlen) :
    let made := setAll ((Call.binary bytes).apply doc key) back
    let again := (Call.binary (bytes.take binlen.toNat)).apply doc key
    let shrunk := bsonShrinkBinary made buf binlen
    if back = [] ∧ binlen ≤ bytes.length then
      shrunk.2 = 0 ∧
        slice shrunk.1 0 (unsigned (bsonMeasureDocument shrunk.1)) =
          slice again 0 (unsigned (bsonMeasureDocument again)) ∧
        ∀ more, (addAll (.append front key (.binary 0 (bytes.take binlen.toNat))) more).encode.length
            + 5 < 2 ^ 31 →
          ∃ sum, Built (addAll (.append front key (.binary 0 (bytes.take binlen.toNat))) more)
            (setAll shrunk.1 more) sum
    else shrunk = (made, -1) := by
  have size := length_binary front key bytes back
  have size' := length_binary front key (bytes.take binlen.toNat) []
  have shorter : (bytes.take binlen.toNat).length ≤ bytes.length := List.length_take_le' _ _
  rw [length_lead] at size size'
  have place := binary_pointer built.holds.1 (by omega) pointer
  have single : (Elements.append front key (.binary 0 bytes)).encode.length + 5 < 2 ^ 31 := by
    rw [encode_addAll, List.length_append] at room
    omega
  have single' : (Elements.append front key
      (.binary 0 (bytes.take binlen.toNat))).encode.length + 5 < 2 ^ 31 := by
    simp only [addAll, List.foldl_nil, settingBytes, List.flatMap_nil, List.length_nil] at size'
    omega
  have first := Built.append built (.binary bytes) single
  have rebuilt := Built.append built (.binary (bytes.take binlen.toNat)) single'
  obtain ⟨_, whole⟩ := built_setAll first room
  intro made again shrunk
  by_cases possible : back = [] ∧ binlen ≤ bytes.length
  · obtain ⟨rfl, fits⟩ := possible
    obtain ⟨count, rfl⟩ := Int.eq_ofNat_of_zero_le nonneg
    rw [if_pos ⟨rfl, fits⟩]
    obtain ⟨result, _, built'⟩ := built_shrunk built place single (show count ≤ _ by omega)
    exact ⟨result, (slice_document built'.holds.1).trans (slice_document rebuilt.holds.1).symm,
      fun more room => built_setAll built' room⟩
  · rw [if_neg possible]
    exact shrink_refused whole.holds.1 place possible

end

def keyD : CString := .of [0x64] rfl

def threeBytes : Mem := (Call.binary [1, 2, 3]).apply (bsonCreateEmptyDocument fun _ => 0xcc) keyD

def twoBytes : Mem := (Call.binary [1, 2]).apply (bsonCreateEmptyDocument fun _ => 0xcc) keyD

theorem shrink_binary_three :
    (bsonShrinkBinary threeBytes 12 2).2 = 0 ∧
      slice (bsonShrinkBinary threeBytes 12 2).1 0
          (unsigned (bsonMeasureDocument (bsonShrinkBinary threeBytes 12 2).1)) =
        slice twoBytes 0 (unsigned (bsonMeasureDocument twoBytes)) := by
  have law := @shrink_binary .empty keyD [1, 2, 3] [] 12 2 _ _ (.empty fun _ => 0xcc) rfl
    (by decide) (by decide)
  exact ⟨law.1, law.2.1⟩

end PeridotSw.Bson.Shrink
