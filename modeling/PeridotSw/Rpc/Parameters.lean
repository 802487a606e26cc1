import PeridotSw.Rpc.ReplyLaw

/-!
# What a method reads of its parameters

A getter, given the variable of a key, answers from the first element with the key: with its
value if it is of the type of the getter, and otherwise as for no element.
-/

namespace PeridotSw.Rpc.Parameters

open PeridotSw.Machine.Memory
open PeridotSw.Bson.Read
open PeridotSw.Bson.Document
open PeridotSw.Bson.Lookup
open PeridotSw.Bson.RoundTrip
open PeridotSw.Rpc.ReplyLaw (first position position_cases seekData_absent)

variable {mem source : Mem} {doc : Nat} {content : Elements} {sum : Int} {value : Value}

/-! ## The variables of the keys -/

def positions (content : Elements) (keys : List CString) : List Param :=
  keys.map fun key => ⟨key, position content key⟩

/-- A search for different keys does not give a negative number, whatever the variables held. -/
theorem eval_props (held : HoldsDocument mem doc content) {params : List Param}
    (distinct : (params.map Param.key).Nodup) :
    ∃ count : Nat, (bsonGetProps doc params).eval mem =
      ((count : Int), positions content (params.map Param.key)) :=
  ⟨occurring content params, by
    rw [eval_bsonGetProps held distinct, positions, List.map_map]
    rfl⟩

/-! ## Values the writers have set -/

theorem passes_of_first {content : Elements} {source : Mem} {sum : Int}
    (built : Built content source sum) {key : CString} (found : first key content = some value) :
    ∃ call, Passes value call := by
  cases built with
  | empty _ => cases found
  | @append front _ _ other last call before passes _ =>
      rw [first] at found
      cases earlier : first key front with
      | some value' =>
          rw [earlier] at found
          cases found
          exact passes_of_first before earlier
      | none =>
          rw [earlier] at found
          by_cases same : other = key
          · rw [if_pos same] at found
            cases found
            exact ⟨call, passes⟩
          · rw [if_neg same] at found
            cases found

/-- Values of the type of numbers are numbers. -/
theorem int32_of_passes {call : Call} (passes : Passes value call) (type : value.type = 0x10) :
    ∃ number, value = .int32 number := by
  cases passes with
  | int32 number => exact ⟨number, rfl⟩
  | _ => cases type

/-- Values of the type of binaries are binaries. -/
theorem binary_of_type (type : value.type = 0x05) :
    ∃ subtype bytes, value = .binary subtype bytes := by
  cases value with
  | binary subtype bytes => exact ⟨subtype, bytes, rfl⟩
  | other type' body shaped foreign =>
      have same : type' = 0x05 := type
      simp [same] at foreign
  | _ => cases type

/-! ## What the getters give -/

def numberUnder (content : Elements) (key : CString) (default : Int) : Int :=
  match first key content with
  | some (.int32 number) => number.toInt
  | _ => default

section

variable {key : CString}

theorem numberUnder_of_place {offset default : Int}
    (place : ∃ number, first key content = some (.int32 number) ∧ number.toInt = offset) :
    numberUnder content key default = offset := by
  obtain ⟨number, found, same⟩ := place
  rw [numberUnder, found]
  exact same

theorem place_of_numberUnder (other : numberUnder content key (-1) ≠ -1) :
    ∃ number, first key content = some (.int32 number) ∧
      number.toInt = numberUnder content key (-1) := by
  unfold numberUnder at other ⊢
  split at other
  case h_1 number found => exact ⟨number, found, rfl⟩
  case h_2 => exact absurd rfl other

theorem numberUnder_lt (content : Elements) (key : CString) :
    numberUnder content key (-1) < 2 ^ 31 := by
  unfold numberUnder
  split
  case h_1 number _ => exact Int32.toInt_lt number
  case h_2 => decide

end

/-- `bson_get_int32` of the variable of a key. -/
theorem getInt32_eq (built : Built content source sum) (held : HoldsDocument mem doc content)
    (key : CString) (default : Int) :
    (bsonGetInt32 (some doc) (position content key) default).eval mem =
      numberUnder content key default := by
  rcases position_cases held key with ⟨absent, place⟩ | ⟨value, offset, found, -, place, lies⟩
  · simp [place, bsonGetInt32, seekData_absent, numberUnder, absent]
  · rw [place]
    by_cases type : value.type = 0x10
    · obtain ⟨call, passes⟩ := passes_of_first built found
      obtain ⟨number, rfl⟩ := int32_of_passes passes type
      rw [numberUnder, found]
      exact lies.int32 default
    · have refused := (lies.eval_seekData 0x10 0x10).trans (if_neg fun both => both.elim type type)
      simp only [bsonGetInt32, Access.eval_bind, refused, numberUnder, found]
      split
      case h_1 number same =>
        cases same
        exact absurd rfl type
      case h_2 => rfl

/-- `bson_get_binary` takes an empty binary for none. -/
theorem getBinary_nil {stop offset : Nat} {key : CString} {subtype : UInt8}
    (lies : Lies mem doc offset stop ((Value.binary subtype []).element key)) :
    (bsonGetBinary (some doc) offset).eval mem = none := by
  have type : (Value.binary subtype []).type = 0x05 ∨ (Value.binary subtype []).type = 0x05 :=
    .inl rfl
  obtain ⟨place, seek, body, -, -⟩ := lies.seek type
  simp only [Value.encode] at body
  rw [holds_append] at body
  have length : (readUnalignedInt place).eval mem = (([] : List UInt8).length : Int) :=
    readUnalignedInt_bytes32 body.1 (by decide)
  simp only [bsonGetBinary, Access.eval_bind, seek, length]
  rw [if_pos (.inl (Int.le_refl _))]
  rfl

/-- `bson_get_binary` of the variable of a key. -/
theorem getBinary_cases (held : HoldsDocument mem doc content) (key : CString) :
    (∃ subtype bytes place, first key content = some (.binary subtype bytes) ∧ bytes ≠ [] ∧
      (bsonGetBinary (some doc) (position content key)).eval mem =
        some (place, (bytes.length : Int)) ∧ Holds mem place bytes) ∨
      ((∀ subtype bytes, first key content = some (.binary subtype bytes) → bytes = []) ∧
        (bsonGetBinary (some doc) (position content key)).eval mem = none) := by
  rcases position_cases held key with ⟨absent, place⟩ | ⟨value, offset, found, -, place, lies⟩
  · exact .inr ⟨by simp [absent], by simp [place, bsonGetBinary, seekData_absent]⟩
  · rw [place, found]
    by_cases type : value.type = 0x05
    · obtain ⟨subtype, bytes, rfl⟩ := binary_of_type type
      by_cases empty : bytes = []
      · subst empty
        refine .inr ⟨?_, getBinary_nil lies⟩
        rintro subtype' bytes same
        cases same
        rfl
      · obtain ⟨start, got, bytes'⟩ := lies.binary empty
        exact .inl ⟨subtype, bytes, start, rfl, empty, got, bytes'⟩
    · refine .inr ⟨?_, ?_⟩
      · rintro subtype bytes same
        cases same
        exact absurd rfl type
      · have refused := (lies.eval_seekData 0x05 0x05).trans
          (if_neg fun both => both.elim type type)
        simp [bsonGetBinary, refused]

end PeridotSw.Rpc.Parameters
