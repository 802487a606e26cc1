import PeridotSw.Bson.DumpTurns

/-!
# Dumps that end

The pointer of a dump is moved back only by the negative length of a string or of a binary.
Where no length takes it back as far as the element's type, every turn makes progress, also
behind a document that a call has dumped, and the turns are bounded by the memory that lies
ahead; otherwise there is a turn without progress, and the dump may go round for ever.
-/

namespace PeridotSw.Bson.DumpTermination

open PeridotSw.Machine.Noted.Stopping
open PeridotSw.Bson.Dump
open PeridotSw.Bson.DumpTurns

variable {memory : List UInt8} {doc stop data value next declared : Int} {type : UInt8}
variable {indent bound totalIndent : Nat} {isArray : Bool} {sep : List UInt8}

/-! ## The places a dump comes to -/

/-- From `data` on there are elements up to a terminator, in front of the end of the document. -/
inductive Closes (memory : List UInt8) : Int → Int → Prop where
  | zero {stop data : Int} (inside : data < stop) (terminator : byteAt memory data = .ok 0) :
      Closes memory stop data
  | value {stop data value next : Int} {type : UInt8}
      (element : Element memory stop data type value) (plain : ¬Nested type)
      (passes : Passes memory type value next) (closes : Closes memory stop next) :
      Closes memory stop data
  | nested {stop data value declared : Int} {type : UInt8}
      (element : Element memory stop data type value) (nested : Nested type)
      (length : readUnalignedInt memory value = .ok declared)
      (inner : Closes memory (value + declared) (value + 4))
      (closes : Closes memory stop (value + declared)) : Closes memory stop data

/-- The dump of the document at `doc` comes to the head of a loop that runs up to `stop` with
the pointer at `data`. -/
inductive Reached (memory : List UInt8) (doc : Int) : Int → Int → Prop where
  | start {declared : Int} (length : readUnalignedInt memory doc = .ok declared) :
      Reached memory doc (doc + declared) (doc + 4)
  | value {stop data value next : Int} {type : UInt8} (reached : Reached memory doc stop data)
      (element : Element memory stop data type value) (plain : ¬Nested type)
      (passes : Passes memory type value next) : Reached memory doc stop next
  | enter {stop data value declared : Int} {type : UInt8} (reached : Reached memory doc stop data)
      (element : Element memory stop data type value) (nested : Nested type)
      (length : readUnalignedInt memory value = .ok declared) :
      Reached memory doc (value + declared) (value + 4)
  | leave {stop data value declared : Int} {type : UInt8} (reached : Reached memory doc stop data)
      (element : Element memory stop data type value) (nested : Nested type)
      (length : readUnalignedInt memory value = .ok declared)
      (inner : Closes memory (value + declared) (value + 4)) :
      Reached memory doc stop (value + declared)

theorem Closes.inside (closes : Closes memory stop data) : data < stop := by
  cases closes with
  | zero inside => exact inside
  | value element => exact element.inside
  | nested element => exact element.inside

/-- A loop returns the end of its document, when its elements are closed. -/
theorem closes_of_returns
    (returns : (trace (dumpElements memory indent bound isArray sep stop data totalIndent)).2 =
      .ok (some next)) : next = stop ∧ Closes memory stop data := by
  induction bound generalizing isArray sep stop data totalIndent next with
  | zero => cases returns
  | succ bound ih =>
      rcases head_cases memory stop data with
        ⟨inside, terminator⟩ | ⟨type, value, behind, element, plain, passes⟩ |
          ⟨type, value, declared, element, nested, length⟩ | ⟨result, fails, -, all⟩
      · rw [dumpElements_zero inside terminator] at returns
        cases returns
        exact ⟨rfl, .zero inside terminator⟩
      · rw [dumpElements_value element plain passes] at returns
        obtain ⟨same, closes⟩ := ih returns
        exact ⟨same, .value element plain passes closes⟩
      · by_cases inside : ∃ behind,
            (trace (inner memory indent bound type value declared totalIndent)).2 =
              .ok (some behind)
        · obtain ⟨behind, came⟩ := inside
          obtain ⟨rfl, within⟩ := ih came
          rw [dumpElements_nested element nested length came] at returns
          obtain ⟨same, closes⟩ := ih returns
          exact ⟨same, .nested element nested length within closes⟩
        · rw [dumpElements_nested_fails element nested length (not_exists.mp inside)] at returns
          exact absurd ⟨next, returns⟩ inside
      · rw [all] at returns
        exact absurd returns (fails next)

/-- The length of a string or of a binary takes the pointer back to the element's type or
further.  The string is dumped all the same if what lies there ends in a terminator. -/
inductive TurnsBack (memory : List UInt8) (data value : Int) : UInt8 → Prop where
  | string {declared : Int} (length : readUnalignedInt memory value = .ok declared)
      (text : ∃ string, stringAt memory (value + 4) = .ok string)
      (terminator : byteAt memory (value + 4 + declared - 1) = .ok 0)
      (back : value + 4 + declared ≤ data) : TurnsBack memory data value 0x02
  | binary {declared : Int} (length : readUnalignedInt memory value = .ok declared)
      (subtype : ∃ byte, byteAt memory (value + 4) = .ok byte)
      (back : value + 4 + 1 + declared ≤ data) : TurnsBack memory data value 0x05

/-- No length that the dump comes to turns back. -/
def NeverBack (memory : List UInt8) (doc : Int) : Prop :=
  ∀ stop data type value, Reached memory doc stop data → Element memory stop data type value →
    ¬TurnsBack memory data value type

/-- The values that turn back are those that are passed without progress. -/
theorem turnsBack_iff (element : Element memory stop data type value) :
    TurnsBack memory data value type ↔
      ¬Nested type ∧ ∃ next, Passes memory type value next ∧ next ≤ data := by
  have after := element.after
  constructor
  · intro turns
    cases turns with
    | string length text terminator back =>
        exact ⟨by decide, _, passes_string_iff.mpr ⟨_, length, text, terminator, rfl⟩, back⟩
    | binary length subtype back =>
        obtain ⟨byte, read⟩ := subtype
        exact ⟨by decide, _, passes_binary length read (by omega), back⟩
  · rintro ⟨-, next, passes, back⟩
    by_cases string : type = 0x02
    · subst string
      obtain ⟨declared, length, text, terminator, rfl⟩ := passes_string_iff.mp passes
      exact .string length text terminator back
    by_cases binary : type = 0x05
    · subst binary
      obtain ⟨declared, length, subtype, rfl⟩ := binary_passes passes
      exact .binary length subtype back
    · have forward := passes_forward string binary passes
      omega

/-! ## Progress -/

theorem NeverBack.forward (never : NeverBack memory doc) (reached : Reached memory doc stop data)
    (element : Element memory stop data type value) (plain : ¬Nested type)
    (passes : Passes memory type value next) : data < next := by
  by_contra back
  exact never stop data type value reached element
    ((turnsBack_iff element).mpr ⟨plain, next, passes, Int.not_lt.mp back⟩)

/-- A call comes back with a pointer in front of which its document's elements start. -/
theorem forward_of_closes (element : Element memory stop data type value)
    (inner : Closes memory (value + declared) (value + 4)) : data < value + declared := by
  have after := element.after
  have inside := inner.inside
  omega

/-- Every turn makes progress. -/
theorem NeverBack.turns (never : NeverBack memory doc) (reached : Reached memory doc stop data) :
    ∀ turn ∈ (trace (dumpElements memory indent bound isArray sep stop data totalIndent)).1,
      turn.1 < turn.2 := by
  induction bound generalizing isArray sep stop data totalIndent with
  | zero => nofun
  | succ bound ih =>
      rcases head_cases memory stop data with
        ⟨inside, terminator⟩ | ⟨type, value, behind, element, plain, passes⟩ |
          ⟨type, value, declared, element, nested, length⟩ | ⟨result, -, -, all⟩
      · rw [dumpElements_zero inside terminator]
        nofun
      · rw [dumpElements_value element plain passes]
        exact List.forall_mem_cons.mpr ⟨never.forward reached element plain passes,
          ih (reached.value element plain passes)⟩
      · have within : ∀ turn ∈ (trace
            (inner memory indent bound type value declared totalIndent)).1, turn.1 < turn.2 :=
          ih (reached.enter element nested length)
        by_cases inside : ∃ behind,
            (trace (inner memory indent bound type value declared totalIndent)).2 =
              .ok (some behind)
        · obtain ⟨behind, came⟩ := inside
          obtain ⟨rfl, closes⟩ := closes_of_returns came
          rw [dumpElements_nested element nested length came]
          exact List.forall_mem_append.mpr ⟨within, List.forall_mem_cons.mpr
            ⟨forward_of_closes element closes, ih (reached.leave element nested length closes)⟩⟩
        · rw [dumpElements_nested_fails element nested length (not_exists.mp inside)]
          exact within
      · rw [all]
        nofun

/-- The memory that lies ahead bounds the turns. -/
theorem NeverBack.ends (never : NeverBack memory doc) (reached : Reached memory doc stop data)
    (enough : (memory.length - data).toNat < bound) :
    (trace (dumpElements memory indent bound isArray sep stop data totalIndent)).2 ≠
      .error .endless := by
  induction bound generalizing isArray sep stop data totalIndent with
  | zero => cases enough
  | succ bound ih =>
      rcases head_cases memory stop data with
        ⟨inside, terminator⟩ | ⟨type, value, behind, element, plain, passes⟩ |
          ⟨type, value, declared, element, nested, length⟩ | ⟨result, -, avoids, all⟩
      · rw [dumpElements_zero inside terminator]
        nofun
      · have room := (byteAt_inside element.read).2
        have forward := never.forward reached element plain passes
        rw [dumpElements_value element plain passes]
        exact ih (reached.value element plain passes) (by omega)
      · have room := (byteAt_inside element.read).2
        have after := element.after
        have within : (trace (inner memory indent bound type value declared totalIndent)).2 ≠
            .error .endless := ih (reached.enter element nested length) (by omega)
        by_cases inside : ∃ behind,
            (trace (inner memory indent bound type value declared totalIndent)).2 =
              .ok (some behind)
        · obtain ⟨behind, came⟩ := inside
          obtain ⟨rfl, closes⟩ := closes_of_returns came
          have forward := forward_of_closes element closes
          rw [dumpElements_nested element nested length came]
          exact ih (reached.leave element nested length closes) (by omega)
        · rw [dumpElements_nested_fails element nested length (not_exists.mp inside)]
          exact within
      · rw [all]
        exact avoids

/-! ## Dumps as a whole -/

end PeridotSw.Bson.DumpTermination
