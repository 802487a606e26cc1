import PeridotSw.Bson.Dump

/-!
# The turns of a dump

What one turn of the loop over the elements does: at a terminator it returns the end of the
document, at an element it moves the pointer behind the value or behind the document that a
call has dumped, and everywhere else the dump is over.
-/

namespace PeridotSw.Bson.DumpTurns

open PeridotSw.Machine.Noted.Stopping
open PeridotSw.Bson.Dump

/-! ## Turns -/

def turnOf : Note → Option (Int × Int)
  | .output _ _ => none
  | .turn before after => some (before, after)

section

variable {α β : Type}

def trace (dumping : Dumping α) : List (Int × Int) × Except Cut α :=
  ((notes dumping).filterMap turnOf, outcome dumping)

def Still (dumping : Dumping α) : Prop := All (fun note => turnOf note = none) dumping

variable {first : Dumping α} {rest : α → Dumping β}

theorem Still.trace_fst (still : Still first) : (trace first).1 = [] :=
  List.filterMap_eq_nil_iff.mpr still

theorem trace_bind_ok {value : α} (returns : outcome first = .ok value) :
    trace (first >>= rest) = ((trace first).1 ++ (trace (rest value)).1, (trace (rest value)).2) := by
  unfold trace
  rw [notes_bind_ok returns, outcome_bind_ok returns, List.filterMap_append]

theorem trace_bind_error {reason : Cut} (stops : outcome first = .error reason) :
    trace (first >>= rest) = ((trace first).1, .error reason) := by
  unfold trace
  rw [notes_bind_error stops, outcome_bind_error stops]

theorem Still.trace_bind (still : Still first) {value : α} (returns : outcome first = .ok value) :
    trace (first >>= rest) = trace (rest value) := by
  rw [trace_bind_ok returns, still.trace_fst]
  rfl

theorem still_output (format : String) (arguments : List Argument) :
    Still (output format arguments) := all_note rfl

theorem trace_output_bind (format : String) (arguments : List Argument)
    (next : Unit → Dumping β) : trace (output format arguments >>= next) = trace (next ()) :=
  (still_output format arguments).trace_bind rfl

end

/-! ## Elements -/

/-- The types whose values are dumped by a call. -/
def Nested (type : UInt8) : Prop := type = 0x03 ∨ type = 0x04

instance (type : UInt8) : Decidable (Nested type) := inferInstanceAs (Decidable (_ ∨ _))

/-- An element starts at `data` in front of the end, with its value at `value`. -/
structure Element (memory : List UInt8) (stop data : Int) (type : UInt8) (value : Int) : Prop where
  inside : data < stop
  read : byteAt memory data = .ok type
  proper : type ≠ 0
  named : ∃ key, stringAt memory (data + 1) = .ok key ∧ value = data + 1 + (key.length + 1)
  below : value < stop

/-- The dump of a value leaves the pointer at `next`. -/
def Passes (memory : List UInt8) (type : UInt8) (value next : Int) : Prop :=
  outcome (dumpValue memory type value) = .ok (some next)

variable {memory : List UInt8} {doc stop data value next declared : Int} {type : UInt8}
variable {indent bound totalIndent : Nat} {isArray : Bool} {sep : List UInt8}

theorem Element.unique {other : UInt8} {place : Int} (first : Element memory stop data type value)
    (second : Element memory stop data other place) : type = other ∧ value = place := by
  obtain ⟨key, text, rfl⟩ := first.named
  obtain ⟨key', text', rfl⟩ := second.named
  cases Except.ok.inj (first.read.symm.trans second.read)
  cases Except.ok.inj (text.symm.trans text')
  exact ⟨rfl, rfl⟩

theorem Element.after (element : Element memory stop data type value) : data + 1 < value := by
  obtain ⟨key, -, rfl⟩ := element.named
  omega

theorem byteAt_inside {byte : UInt8} (read : byteAt memory data = .ok byte) :
    0 ≤ data ∧ data < memory.length := by
  unfold byteAt bytesFrom at read
  by_cases negative : data < 0
  · rw [if_pos negative] at read
    cases read
  · refine ⟨by omega, ?_⟩
    by_contra beyond
    rw [if_neg negative, List.drop_eq_nil_of_le (by omega)] at read
    cases read

/-! ## Values -/

theorem still_dumpBytes (memory : List UInt8) (count : Nat) (data : Int) :
    Still (dumpBytes memory count data) := by
  induction count generalizing data with
  | zero => exact all_pure ()
  | succ count ih => exact (all_lift _).bind fun byte => (still_output _ _).bind fun _ => ih _

theorem still_dumpSubtype (subtype : UInt8) : Still (dumpSubtype subtype) := by
  unfold dumpSubtype
  split
  · exact all_pure ()
  · repeat' split
    all_goals exact still_output _ _

theorem still_dumpNumber (memory : List UInt8) (format : String) (size : Nat) (data : Int) :
    Still (dumpNumber memory format size data) :=
  (all_lift _).bind fun _ => (still_output _ _).bind fun _ => all_pure _

theorem still_dumpWord (word : String) (data : Int) : Still (dumpWord word data) :=
  (still_output _ _).bind fun _ => all_pure _

theorem still_dumpString (memory : List UInt8) (data : Int) : Still (dumpString memory data) := by
  refine (all_lift _).bind fun len => (all_lift _).bind fun string =>
    (still_output _ _).bind fun _ => (all_lift _).bind fun byte => ?_
  split
  · exact (still_output _ _).bind fun _ => all_pure _
  · exact all_pure _

theorem still_dumpBinary (memory : List UInt8) (data : Int) : Still (dumpBinary memory data) :=
  (all_lift _).bind fun _ => (all_lift _).bind fun _ => (still_output _ _).bind fun _ =>
    (still_dumpSubtype _).bind fun _ => (still_dumpBytes _ _ _).bind fun _ =>
      (still_output _ _).bind fun _ => all_pure _

theorem still_dumpBoolean (memory : List UInt8) (data : Int) : Still (dumpBoolean memory data) :=
  (all_lift _).bind fun _ => (still_output _ _).bind fun _ => all_pure _

theorem still_dumpUnsupported (type : UInt8) : Still (dumpUnsupported type) :=
  (still_output _ _).bind fun _ => all_pure _

theorem dumpValue_cases (memory : List UInt8) (type : UInt8) (data : Int) :
    (∃ format size, dumpValue memory type data = dumpNumber memory format size data) ∨
      (∃ word, dumpValue memory type data = dumpWord word data) ∨
      (type = 0x02 ∧ dumpValue memory type data = dumpString memory data) ∨
      (type = 0x05 ∧ dumpValue memory type data = dumpBinary memory data) ∨
      dumpValue memory type data = dumpBoolean memory data ∨
      dumpValue memory type data = dumpUnsupported type := by
  unfold dumpValue
  by_cases double : type = 0x01
  · rw [if_pos double]
    exact .inl ⟨_, _, rfl⟩
  by_cases string : type = 0x02
  · rw [if_neg double, if_pos string]
    exact .inr (.inr (.inl ⟨string, rfl⟩))
  by_cases binary : type = 0x05
  · rw [if_neg double, if_neg string, if_pos binary]
    exact .inr (.inr (.inr (.inl ⟨binary, rfl⟩)))
  rw [if_neg double, if_neg string, if_neg binary]
  split
  · exact .inr (.inl ⟨_, rfl⟩)
  split
  · exact .inr (.inr (.inr (.inr (.inl rfl))))
  split
  · exact .inl ⟨_, _, rfl⟩
  split
  · exact .inr (.inl ⟨_, rfl⟩)
  split
  · exact .inl ⟨_, _, rfl⟩
  split
  · exact .inl ⟨_, _, rfl⟩
  · exact .inr (.inr (.inr (.inr (.inr rfl))))

theorem still_dumpValue (memory : List UInt8) (type : UInt8) (data : Int) :
    Still (dumpValue memory type data) := by
  rcases dumpValue_cases memory type data with
    ⟨format, size, same⟩ | ⟨word, same⟩ | ⟨-, same⟩ | ⟨-, same⟩ | same | same <;> rw [same]
  · exact still_dumpNumber memory format size data
  · exact still_dumpWord word data
  · exact still_dumpString memory data
  · exact still_dumpBinary memory data
  · exact still_dumpBoolean memory data
  · exact still_dumpUnsupported type

theorem outcome_output_bind {β : Type} (format : String) (arguments : List Argument)
    (rest : Unit → Dumping β) : outcome (output format arguments >>= rest) = outcome (rest ()) :=
  outcome_bind_ok rfl rest

theorem outcome_lift_error {α β : Type} (reason : Cut) (rest : α → Dumping β) :
    outcome ((liftM (.error reason : Except Cut α) : Dumping α) >>= rest) = .error reason := rfl

theorem dumpNumber_passes {format : String} {size : Nat}
    (passes : outcome (dumpNumber memory format size value) = .ok (some next)) :
    next = value + size := by
  unfold dumpNumber at passes
  cases bytes : bytesAt memory value size with
  | error reason =>
      rw [bytes, outcome_lift_error] at passes
      cases passes
  | ok bytes' =>
      rw [bytes, lift_ok_bind, outcome_output_bind] at passes
      cases passes
      rfl

/-- A string that ends in a terminator is passed by its length. -/
theorem passes_string_iff : Passes memory 0x02 value next ↔
    ∃ declared, readUnalignedInt memory value = .ok declared ∧
      (∃ string, stringAt memory (value + 4) = .ok string) ∧
        byteAt memory (value + 4 + declared - 1) = .ok 0 ∧ next = value + 4 + declared := by
  change outcome (dumpString memory value) = _ ↔ _
  unfold dumpString
  cases length : readUnalignedInt memory value with
  | error reason =>
      rw [outcome_lift_error]
      exact iff_of_false nofun nofun
  | ok declared =>
      rw [lift_ok_bind]
      simp only []
      cases text : stringAt memory (value + 4) with
      | error reason =>
          rw [outcome_lift_error]
          exact iff_of_false nofun nofun
      | ok string =>
          rw [lift_ok_bind, outcome_output_bind]
          cases last : byteAt memory (value + 4 + declared - 1) with
          | error reason =>
              rw [outcome_lift_error]
              refine iff_of_false nofun ?_
              rintro ⟨other, same, -, zero, -⟩
              cases same
              cases last.symm.trans zero
          | ok byte =>
              rw [lift_ok_bind]
              by_cases terminator : byte = 0
              · rw [if_neg (not_not_intro terminator)]
                constructor
                · intro passes
                  cases passes
                  exact ⟨declared, rfl, ⟨string, rfl⟩, terminator ▸ last, rfl⟩
                · rintro ⟨other, same, -, -, rfl⟩
                  cases same
                  rfl
              · rw [if_pos terminator, outcome_output_bind]
                refine iff_of_false nofun ?_
                rintro ⟨other, same, -, zero, -⟩
                cases same
                exact terminator (Except.ok.inj (last.symm.trans zero))

theorem outcome_dumpSubtype (subtype : UInt8) : outcome (dumpSubtype subtype) = .ok () := by
  unfold dumpSubtype
  repeat' split
  all_goals rfl

/-- A binary is passed by its length. -/
theorem binary_passes (passes : Passes memory 0x05 value next) :
    ∃ declared, readUnalignedInt memory value = .ok declared ∧
      (∃ subtype, byteAt memory (value + 4) = .ok subtype) ∧ next = value + 4 + 1 + declared := by
  change outcome (dumpBinary memory value) = _ at passes
  unfold dumpBinary at passes
  cases length : readUnalignedInt memory value with
  | error reason =>
      rw [length, outcome_lift_error] at passes
      cases passes
  | ok declared =>
      rw [length, lift_ok_bind] at passes
      cases read : byteAt memory (value + 4) with
      | error reason =>
          rw [read, outcome_lift_error] at passes
          cases passes
      | ok subtype =>
          rw [read, lift_ok_bind, outcome_output_bind,
            outcome_bind_ok (outcome_dumpSubtype subtype)] at passes
          cases bytes : outcome (dumpBytes memory declared.toNat (value + 4 + 1)) with
          | error reason =>
              rw [outcome_bind_error bytes] at passes
              cases passes
          | ok done =>
              rw [outcome_bind_ok bytes, outcome_output_bind] at passes
              cases passes
              exact ⟨declared, rfl, ⟨subtype, rfl⟩, rfl⟩

/-- None of the bytes of a binary with a negative length are dumped. -/
theorem passes_binary (length : readUnalignedInt memory value = .ok declared)
    {subtype : UInt8} (read : byteAt memory (value + 4) = .ok subtype) (negative : declared ≤ 0) :
    Passes memory 0x05 value (value + 4 + 1 + declared) := by
  change outcome (dumpBinary memory value) = _
  rw [dumpBinary, length, lift_ok_bind, read, lift_ok_bind, outcome_output_bind,
    outcome_bind_ok (outcome_dumpSubtype subtype), Int.toNat_of_nonpos negative]
  rfl

/-- Values of all other types are passed forward. -/
theorem passes_forward (string : type ≠ 0x02) (binary : type ≠ 0x05)
    (passes : Passes memory type value next) : value ≤ next := by
  unfold Passes at passes
  rcases dumpValue_cases memory type value with
    ⟨format, size, same⟩ | ⟨word, same⟩ | ⟨other, -⟩ | ⟨other, -⟩ | same | same
  · have far := dumpNumber_passes (same ▸ passes)
    omega
  · rw [same] at passes
    cases passes
    exact Int.le_refl _
  · exact absurd other string
  · exact absurd other binary
  · rw [same, dumpBoolean] at passes
    cases read : byteAt memory value with
    | error reason =>
        rw [read, outcome_lift_error] at passes
        cases passes
    | ok byte =>
        rw [read, lift_ok_bind, outcome_output_bind] at passes
        cases passes
        omega
  · rw [same] at passes
    cases passes

/-! ## No value is dumped without end -/

theorem byteAt_avoids (memory : List UInt8) (ptr : Int) : byteAt memory ptr ≠ .error .endless := by
  unfold byteAt
  split <;> nofun

theorem bytesAt_avoids (memory : List UInt8) (ptr : Int) (count : Nat) :
    bytesAt memory ptr count ≠ .error .endless := by
  unfold bytesAt
  split <;> nofun

theorem readUnalignedInt_avoids (memory : List UInt8) (ptr : Int) :
    readUnalignedInt memory ptr ≠ .error .endless := by
  unfold readUnalignedInt
  split <;> nofun

theorem stringAt_avoids (memory : List UInt8) (ptr : Int) :
    stringAt memory ptr ≠ .error .endless := by
  unfold stringAt
  split <;> nofun

theorem output_avoids (format : String) (arguments : List Argument) :
    Avoids .endless (output format arguments) := avoids_note _

theorem dumpBytes_avoids (memory : List UInt8) (count : Nat) (data : Int) :
    Avoids .endless (dumpBytes memory count data) := by
  induction count generalizing data with
  | zero => exact avoids_pure ()
  | succ count ih =>
      exact (avoids_lift (byteAt_avoids _ _)).bind fun _ =>
        (output_avoids _ _).bind fun _ => ih _

theorem dumpNumber_avoids (memory : List UInt8) (format : String) (size : Nat) (data : Int) :
    Avoids .endless (dumpNumber memory format size data) :=
  (avoids_lift (bytesAt_avoids _ _ _)).bind fun _ => (output_avoids _ _).bind fun _ =>
    avoids_pure _

theorem dumpWord_avoids (word : String) (data : Int) : Avoids .endless (dumpWord word data) :=
  (output_avoids _ _).bind fun _ => avoids_pure _

theorem dumpString_avoids (memory : List UInt8) (data : Int) :
    Avoids .endless (dumpString memory data) := by
  refine (avoids_lift (readUnalignedInt_avoids _ _)).bind fun len =>
    (avoids_lift (stringAt_avoids _ _)).bind fun string => (output_avoids _ _).bind fun _ =>
      (avoids_lift (byteAt_avoids _ _)).bind fun byte => ?_
  split
  · exact (output_avoids _ _).bind fun _ => avoids_pure _
  · exact avoids_pure _

theorem dumpSubtype_avoids (subtype : UInt8) : Avoids .endless (dumpSubtype subtype) := by
  rw [Avoids, outcome_dumpSubtype]
  nofun

theorem dumpBinary_avoids (memory : List UInt8) (data : Int) :
    Avoids .endless (dumpBinary memory data) :=
  (avoids_lift (readUnalignedInt_avoids _ _)).bind fun _ =>
    (avoids_lift (byteAt_avoids _ _)).bind fun _ => (output_avoids _ _).bind fun _ =>
      (dumpSubtype_avoids _).bind fun _ => (dumpBytes_avoids _ _ _).bind fun _ =>
        (output_avoids _ _).bind fun _ => avoids_pure _

theorem dumpBoolean_avoids (memory : List UInt8) (data : Int) :
    Avoids .endless (dumpBoolean memory data) :=
  (avoids_lift (byteAt_avoids _ _)).bind fun _ => (output_avoids _ _).bind fun _ => avoids_pure _

theorem dumpUnsupported_avoids (type : UInt8) : Avoids .endless (dumpUnsupported type) :=
  (output_avoids _ _).bind fun _ => avoids_pure _

theorem dumpValue_avoids (memory : List UInt8) (type : UInt8) (data : Int) :
    Avoids .endless (dumpValue memory type data) := by
  rcases dumpValue_cases memory type data with
    ⟨format, size, same⟩ | ⟨word, same⟩ | ⟨-, same⟩ | ⟨-, same⟩ | same | same <;> rw [same]
  · exact dumpNumber_avoids memory format size data
  · exact dumpWord_avoids word data
  · exact dumpString_avoids memory data
  · exact dumpBinary_avoids memory data
  · exact dumpBoolean_avoids memory data
  · exact dumpUnsupported_avoids type

/-! ## What a turn of the loop does -/

/-- The loop ends here without a pointer to go on with, however many turns are allowed. -/
def Stuck (memory : List UInt8) (stop data : Int) : Prop :=
  ∃ result : Except Cut (Option Int), (∀ next, result ≠ .ok (some next)) ∧
    result ≠ .error .endless ∧ ∀ indent bound isArray sep totalIndent,
      trace (dumpElements memory indent (bound + 1) isArray sep stop data totalIndent) =
        ([], result)

theorem dumpHead_trace (length : readUnalignedInt memory doc = .ok declared)
    (elements : Int → Int → Nat → Dumping (Option Int)) :
    trace (dumpHead memory indent doc isArray totalIndent elements) =
      trace (elements (doc + declared) (doc + 4) (totalIndent + indent)) := by
  rw [dumpHead, length, lift_ok_bind, trace_output_bind]

theorem dumpHead_halts {reason : Cut} (fails : readUnalignedInt memory doc = .error reason)
    (elements : Int → Int → Nat → Dumping (Option Int)) :
    trace (dumpHead memory indent doc isArray totalIndent elements) = ([], .error reason) := by
  rw [dumpHead, fails]
  rfl

/-- The end of a turn, at the pointer behind the value. -/
def goOn (memory : List UInt8) (indent bound : Nat) (isArray : Bool) (stop data : Int)
    (totalIndent : Nat) (behind : Option Int) : Dumping (Option Int) :=
  match behind with
  | none => pure none
  | some next => do
      note (.turn data next)
      dumpElements memory indent bound isArray [0x2c] stop next totalIndent

/-- At an element the loop dumps its value, and goes on behind it. -/
theorem dumpElements_element (element : Element memory stop data type value) :
    trace (dumpElements memory indent (bound + 1) isArray sep stop data totalIndent) =
      if Nested type then
        trace (dumpHead memory indent value (type = 0x04) totalIndent
          (dumpElements memory indent bound (type = 0x04) []) >>=
            goOn memory indent bound isArray stop data totalIndent)
      else
        trace (dumpValue memory type value >>=
          goOn memory indent bound isArray stop data totalIndent) := by
  obtain ⟨key, text, place⟩ := element.named
  have below := element.below
  rw [place] at below
  rw [dumpElements, if_pos element.inside, element.read, lift_ok_bind, if_neg element.proper, text,
    lift_ok_bind]
  simp only []
  rw [if_neg (Int.not_le.mpr below), trace_output_bind, ← place]
  exact apply_ite trace (Nested type) _ _

/-- What follows a call that comes back with a pointer. -/
theorem trace_goOn {dumping : Dumping (Option Int)} (returns : (trace dumping).2 = .ok (some next)) :
    trace (dumping >>= goOn memory indent bound isArray stop data totalIndent) =
      ((trace dumping).1 ++ (data, next) ::
          (trace (dumpElements memory indent bound isArray [0x2c] stop next totalIndent)).1,
        (trace (dumpElements memory indent bound isArray [0x2c] stop next totalIndent)).2) := by
  rw [trace_bind_ok returns]
  rfl

/-- Nothing follows one that does not. -/
theorem trace_goOn_fails {dumping : Dumping (Option Int)}
    (fails : ∀ next, (trace dumping).2 ≠ .ok (some next)) :
    trace (dumping >>= goOn memory indent bound isArray stop data totalIndent) = trace dumping := by
  cases result : outcome dumping with
  | error reason =>
      rw [trace_bind_error result, trace, result]
  | ok behind =>
      cases behind with
      | some next => exact absurd result (fails next)
      | none =>
          rw [trace_bind_ok result, trace, result]
          exact congrArg (·, _) (List.append_nil _)

/-- Without an element the loop ends: at the terminator, or with a complaint. -/
theorem dumpElements_zero (inside : data < stop) (terminator : byteAt memory data = .ok 0) :
    trace (dumpElements memory indent (bound + 1) isArray sep stop data totalIndent) =
      ([], .ok (some stop)) := by
  rw [dumpElements, if_pos inside, terminator, lift_ok_bind, if_pos rfl, trace_output_bind]
  split <;> rfl

theorem stuck_of_none (other : ¬(data < stop ∧ byteAt memory data = .ok 0))
    (unreadable : ¬∃ type value, Element memory stop data type value) : Stuck memory stop data := by
  by_cases inside : data < stop
  swap
  · refine ⟨.ok none, nofun, nofun, fun indent bound isArray sep totalIndent => ?_⟩
    rw [dumpElements, if_neg inside, trace_output_bind]
    rfl
  cases read : byteAt memory data with
  | error reason =>
      have cut : (.error reason : Except Cut (Option Int)) ≠ .error .endless := by
        rintro ⟨⟩
        exact byteAt_avoids _ _ read
      refine ⟨.error reason, nofun, cut, fun indent bound isArray sep totalIndent => ?_⟩
      rw [dumpElements, if_pos inside, read]
      rfl
  | ok type =>
      by_cases zero : type = 0
      · exact absurd ⟨inside, zero ▸ read⟩ other
      cases text : stringAt memory (data + 1) with
      | error reason =>
          have cut : (.error reason : Except Cut (Option Int)) ≠ .error .endless := by
            rintro ⟨⟩
            exact stringAt_avoids _ _ text
          refine ⟨.error reason, nofun, cut, fun indent bound isArray sep totalIndent => ?_⟩
          rw [dumpElements, if_pos inside, read, lift_ok_bind, if_neg zero, text]
          rfl
      | ok key =>
          by_cases long : stop ≤ data + 1 + ((key.length : Int) + 1)
          · refine ⟨.ok none, nofun, nofun, fun indent bound isArray sep totalIndent => ?_⟩
            rw [dumpElements, if_pos inside, read, lift_ok_bind, if_neg zero, text, lift_ok_bind]
            simp only []
            rw [if_pos long, trace_output_bind]
            rfl
          · exact absurd ⟨type, _, inside, read, zero, ⟨key, text, rfl⟩, Int.not_le.mp long⟩ unreadable

theorem stuck_of_value (element : Element memory stop data type value) (plain : ¬Nested type)
    (stays : ¬∃ next, Passes memory type value next) : Stuck memory stop data := by
  refine ⟨outcome (dumpValue memory type value), fun next passes => stays ⟨next, passes⟩,
    dumpValue_avoids memory type value, fun indent bound isArray sep totalIndent => ?_⟩
  rw [dumpElements_element element, if_neg plain,
    trace_goOn_fails fun next passes => stays ⟨next, passes⟩]
  exact Prod.ext (still_dumpValue memory type value).trace_fst rfl

theorem stuck_of_nested (element : Element memory stop data type value) (nested : Nested type)
    {reason : Cut} (fails : readUnalignedInt memory value = .error reason) :
    Stuck memory stop data := by
  have cut : (.error reason : Except Cut (Option Int)) ≠ .error .endless := by
    rintro ⟨⟩
    exact readUnalignedInt_avoids _ _ fails
  refine ⟨.error reason, nofun, cut, fun indent bound isArray sep totalIndent => ?_⟩
  have halts := @dumpHead_halts memory value indent totalIndent (type = 0x04) reason fails
    (dumpElements memory indent bound (type = 0x04) [])
  rw [dumpElements_element element, if_pos nested, trace_goOn_fails, halts]
  rw [halts]
  nofun

/-- At the head of a loop there is the terminator, an element that is passed, a document, or
nothing to go on with. -/
theorem head_cases (memory : List UInt8) (stop data : Int) :
    (data < stop ∧ byteAt memory data = .ok 0) ∨
      (∃ type value next, Element memory stop data type value ∧ ¬Nested type ∧
        Passes memory type value next) ∨
      (∃ type value declared, Element memory stop data type value ∧ Nested type ∧
        readUnalignedInt memory value = .ok declared) ∨ Stuck memory stop data := by
  by_cases zero : data < stop ∧ byteAt memory data = .ok 0
  · exact .inl zero
  by_cases here : ∃ type value, Element memory stop data type value
  swap
  · exact .inr (.inr (.inr (stuck_of_none zero here)))
  obtain ⟨type, value, element⟩ := here
  by_cases nested : Nested type
  · cases length : readUnalignedInt memory value with
    | ok declared => exact .inr (.inr (.inl ⟨type, value, declared, element, nested, length⟩))
    | error reason => exact .inr (.inr (.inr (stuck_of_nested element nested length)))
  · by_cases passes : ∃ next, Passes memory type value next
    · obtain ⟨next, passes⟩ := passes
      exact .inr (.inl ⟨type, value, next, element, nested, passes⟩)
    · exact .inr (.inr (.inr (stuck_of_value element nested passes)))

/-- An element that is passed takes one turn. -/
theorem dumpElements_value (element : Element memory stop data type value)
    (plain : ¬Nested type) (passes : Passes memory type value next) :
    trace (dumpElements memory indent (bound + 1) isArray sep stop data totalIndent) =
      ((data, next) ::
          (trace (dumpElements memory indent bound isArray [0x2c] stop next totalIndent)).1,
        (trace (dumpElements memory indent bound isArray [0x2c] stop next totalIndent)).2) := by
  rw [dumpElements_element element, if_neg plain, trace_goOn passes,
    (still_dumpValue memory type value).trace_fst]
  rfl

def inner (memory : List UInt8) (indent bound : Nat) (type : UInt8) (value declared : Int)
    (totalIndent : Nat) : Dumping (Option Int) :=
  dumpElements memory indent bound (type = 0x04) [] (value + declared) (value + 4)
    (totalIndent + indent)

/-- A document that is dumped takes one turn more than its elements. -/
theorem dumpElements_nested (element : Element memory stop data type value)
    (nested : Nested type) (length : readUnalignedInt memory value = .ok declared)
    (returns : (trace (inner memory indent bound type value declared totalIndent)).2 =
      .ok (some next)) :
    trace (dumpElements memory indent (bound + 1) isArray sep stop data totalIndent) =
      ((trace (inner memory indent bound type value declared totalIndent)).1 ++ (data, next) ::
          (trace (dumpElements memory indent bound isArray [0x2c] stop next totalIndent)).1,
        (trace (dumpElements memory indent bound isArray [0x2c] stop next totalIndent)).2) := by
  have head := @dumpHead_trace memory value declared indent totalIndent (type = 0x04) length
    (dumpElements memory indent bound (type = 0x04) [])
  rw [dumpElements_element element, if_pos nested, trace_goOn (head ▸ returns), head]
  rfl

theorem dumpElements_nested_fails (element : Element memory stop data type value)
    (nested : Nested type) (length : readUnalignedInt memory value = .ok declared)
    (fails : ∀ next, (trace (inner memory indent bound type value declared totalIndent)).2 ≠
      .ok (some next)) :
    trace (dumpElements memory indent (bound + 1) isArray sep stop data totalIndent) =
      trace (inner memory indent bound type value declared totalIndent) := by
  have head := @dumpHead_trace memory value declared indent totalIndent (type = 0x04) length
    (dumpElements memory indent bound (type = 0x04) [])
  rw [dumpElements_element element, if_pos nested, trace_goOn_fails (head ▸ fails), head]
  rfl

end PeridotSw.Bson.DumpTurns
