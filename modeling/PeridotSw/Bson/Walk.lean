import PeridotSw.Bson.Write

/-!
# The elements that arbitrary bytes describe

Memory whose content is not known to be a document still makes the scan go from
element to element.  The positions it comes to are described here by the bytes alone:
names that end before the end of the document, and the extents that the types and the
length fields of values ask for.
-/

namespace PeridotSw.Bson.Walk

open PeridotSw.Machine.Memory
open PeridotSw.Machine.Word
open PeridotSw.Bson.Read
open PeridotSw.Bson.Write

/-- A string starts at `data`, and `behind` is the index behind its terminator, which
lies before the last byte of the document. -/
structure Name (mem : Mem) (data stop behind : Nat) : Prop where
  after : data < behind
  inside : behind < stop
  terminated : mem (behind - 1) = 0
  nulFree : ∀ index, data ≤ index → index < behind - 1 → mem index ≠ 0

/-- The number of bytes a value asks for. -/
def Extent (mem : Mem) (type : UInt8) (value stop length : Nat) : Prop :=
  match layout type with
  | .fixed size => length = size
  | .counted header => word mem value < 2 ^ 31 ∧ word mem value + header < 2 ^ 31 ∧
      length = word mem value + header
  | .regex => ∃ pattern options, Name mem value stop pattern ∧ Name mem pattern stop options ∧
      length = options - value
  | .unknown => False

/-- An element starts at `place`, with its value at `value`. -/
structure Item (mem : Mem) (stop place value : Nat) : Prop where
  inside : place < stop
  typed : mem place ≠ 0
  name : Name mem (place + 1) stop value

/-- Going from element to element over their values. -/
inductive Leads (mem : Mem) (stop : Nat) : Nat → Nat → Prop where
  | here (place : Nat) : Leads mem stop place place
  | on {place value length target : Nat} (item : Item mem stop place value)
      (extent : Extent mem (mem place) value stop length)
      (leads : Leads mem stop (value + length) target) : Leads mem stop place target

/-- A document starts at `doc` that has its end at `stop`, as far as its length and its
last byte tell. -/
structure Opens (mem : Mem) (doc stop : Nat) : Prop where
  declared : doc + word mem doc = stop
  long : 4 < word mem doc
  short : word mem doc < 2 ^ 31
  terminated : mem (stop - 1) = 0

def IsElement (mem : Mem) (doc place value : Nat) : Prop :=
  ∃ stop, Opens mem doc stop ∧ Leads mem stop (doc + 4) place ∧ Item mem stop place value

variable {mem : Mem} {limit : Nat}

theorem Leads.le {stop start place : Nat} (leads : Leads mem stop start place) :
    start ≤ place := by
  induction leads with
  | here place => exact Nat.le_refl place
  | on item _ _ ih =>
      have after := item.name.after
      omega

/-! ## Words and strings -/

theorem eval_readUnalignedInt (mem : Mem) (ptr : Nat) :
    (readUnalignedInt ptr).eval mem = signed (word mem ptr) := by
  simp [readUnalignedInt, or_shift_eq_le32, word]

theorem readUnalignedInt_within {place : Nat} (room : place + 4 ≤ limit) :
    (readUnalignedInt place).Within mem fun index => index < limit := by
  simp [readUnalignedInt]
  omega

theorem eval_strnlen_succ (base max : Nat) :
    (strnlen base (max + 1)).eval mem =
      if mem base = 0 then 0 else (strnlen (base + 1) max).eval mem + 1 := by
  by_cases terminator : mem base = 0 <;> simp [strnlen, terminator]

/-- The bytes `strnlen` counts are not NUL. -/
theorem strnlen_nulFree (base max : Nat) :
    ∀ index, base ≤ index → index < base + (strnlen base max).eval mem → mem index ≠ 0 := by
  induction max generalizing base with
  | zero =>
      intro index low high
      simp only [strnlen, Access.eval_pure] at high
      omega
  | succ max ih =>
      intro index low high
      rw [eval_strnlen_succ] at high
      split at high
      case isTrue => omega
      case isFalse positive =>
        rcases Nat.eq_or_lt_of_le low with rfl | later
        · exact positive
        · exact ih (base + 1) index later (by omega)

theorem strnlen_within (base max : Nat) :
    (strnlen base max).Within mem fun index => index < base + max := by
  induction max generalizing base with
  | zero => simp [strnlen]
  | succ max ih =>
      have rest : (strnlen (base + 1) max).Within mem fun index => index < base + (max + 1) := by
        intro index touched
        have bound := ih (base + 1) index touched
        omega
      by_cases terminator : mem base = 0 <;> simp [strnlen, terminator, rest]

theorem eval_skipString {data stop : Nat} {text : CString}
    (held : Holds mem data (text.bytes ++ [0]))
    (inside : data + text.bytes.length + 1 < stop) :
    (skipString data stop).eval mem = some (data + text.bytes.length + 1) := by
  have length : (strnlen data (stop - data)).eval mem = text.bytes.length :=
    eval_strnlen held (by omega)
  have terminator : mem (data + text.bytes.length) = 0 :=
    (holds_cons ..).mp ((holds_append ..).mp held).2 |>.1
  simp only [skipString, Access.eval_bind, length]
  rw [if_neg (Nat.not_le_of_lt inside)]
  simp [terminator]

def Name.text {data stop behind : Nat} (name : Name mem data stop behind) : CString where
  bytes := slice mem data (behind - 1 - data)
  nulFree := by
    intro byte listed
    obtain ⟨index, bound, rfl⟩ := List.mem_map.mp listed
    have short := List.mem_range.mp bound
    exact name.nulFree (data + index) (Nat.le_add_right _ _) (by omega)

theorem Name.length_text {data stop behind : Nat} (name : Name mem data stop behind) :
    data + name.text.bytes.length + 1 = behind := by
  have after := name.after
  simp only [Name.text, length_slice]
  omega

theorem Name.holds {data stop behind : Nat} (name : Name mem data stop behind) :
    Holds mem data (name.text.bytes ++ [0]) := by
  have length := name.length_text
  rw [holds_append, holds_cons]
  refine ⟨holds_slice mem data _, ?_, holds_nil _ _⟩
  rw [show data + name.text.bytes.length = behind - 1 by omega]
  exact name.terminated

/-- Skipping a string succeeds exactly at a name. -/
theorem skipString_eq_some_iff (data stop behind : Nat) :
    (skipString data stop).eval mem = some behind ↔ Name mem data stop behind := by
  constructor
  · intro skipped
    have counted := @strnlen_nulFree mem data (stop - data)
    simp only [skipString, Access.eval_bind] at skipped
    generalize (strnlen data (stop - data)).eval mem = count at counted skipped
    by_cases closed : stop ≤ data + count + 1
    · simp [closed] at skipped
    · rw [if_neg closed] at skipped
      by_cases terminator : mem (data + count) = 0
      · simp only [Access.eval_bind, Access.eval_byte, Nat.add_sub_cancel, terminator,
          ne_eq, not_true, if_false, Access.eval_pure, Option.some.injEq] at skipped
        subst skipped
        exact ⟨by omega, by omega, terminator, fun index low high => counted index low (by omega)⟩
      · simp [terminator] at skipped
  · intro name
    rw [← name.length_text]
    exact eval_skipString name.holds (by rw [name.length_text]; exact name.inside)

theorem skipString_eq_none_iff (data stop : Nat) :
    (skipString data stop).eval mem = none ↔ ∀ behind, ¬ Name mem data stop behind := by
  rw [Option.eq_none_iff_forall_ne_some]
  exact forall_congr' fun behind => not_congr (skipString_eq_some_iff data stop behind)

/-- Skipping a string stays before the end, if it starts there. -/
theorem skipString_within {data stop : Nat} (start : data ≤ stop) :
    (skipString data stop).Within mem fun index => index < stop := by
  have counting : (strnlen data (stop - data)).Within mem fun index => index < stop := by
    intro index touched
    have bound := strnlen_within data (stop - data) index touched
    omega
  simp only [skipString, Access.within_bind]
  refine ⟨counting, ?_⟩
  generalize (strnlen data (stop - data)).eval mem = count
  by_cases closed : stop ≤ data + count + 1
  · simp [closed]
  · rw [if_neg closed, Access.within_bind, Access.within_byte]
    refine ⟨by omega, ?_⟩
    by_cases terminator : mem (data + count) = 0 <;> simp [terminator]

theorem Name.unique {data stop behind other : Nat} (first : Name mem data stop behind)
    (second : Name mem data stop other) : behind = other :=
  Option.some.inj (((skipString_eq_some_iff data stop behind).mpr first).symm.trans
    ((skipString_eq_some_iff data stop other).mpr second))

/-! ## Measuring -/

/-- What a type adds to a length field, or the size it fixes. -/
def constantSize : Layout → Nat
  | .fixed length => length
  | .counted header => header
  | .regex => 0
  | .unknown => 0

theorem constantSize_ite_le {condition : Prop} [Decidable condition] {first second : Layout}
    (small : constantSize first ≤ 16) (other : constantSize second ≤ 16) :
    constantSize (if condition then first else second) ≤ 16 := by
  split
  · exact small
  · exact other

theorem constantSize_le (type : UInt8) : constantSize (layout type) ≤ 16 := by
  unfold layout
  repeat' apply constantSize_ite_le
  all_goals decide

/-- A measurement gives the extent of the value, or is negative where there is none. -/
theorem measureValue_cases {type : UInt8} {value stop : Nat} (near : stop ≤ value + 2 ^ 31) :
    (∃ length : Nat, (measureValue type value stop).eval mem = length ∧
      Extent mem type value stop length) ∨
      ((measureValue type value stop).eval mem < 0 ∧
        ∀ length, ¬ Extent mem type value stop length) := by
  cases form : layout type with
  | fixed size =>
      have small : size ≤ 16 := by
        have bound := constantSize_le type
        rwa [form] at bound
      refine .inl ⟨size, ?_, by simp only [Extent, form]⟩
      simp only [measureValue, form, Access.eval_pure, finishMeasure]
      rw [if_neg (by omega), wrap_of_range (by omega) (by omega)]
      simp
  | counted header =>
      have small : header ≤ 16 := by
        have bound := constantSize_le type
        rwa [form] at bound
      have bound := word_lt mem value
      simp only [measureValue, form, Access.eval_bind, Access.eval_pure, eval_readUnalignedInt,
        finishMeasure, Extent]
      by_cases positive : word mem value < 2 ^ 31
      · rw [signed_eq_of_lt positive, if_neg (by omega)]
        by_cases fits : word mem value + header < 2 ^ 31
        · refine .inl ⟨word mem value + header, ?_, positive, fits, rfl⟩
          rw [wrap_of_range (by omega) (by omega)]
          push_cast
          rfl
        · refine .inr ⟨?_, fun length extent => fits extent.2.1⟩
          unfold wrap signed unsigned
          split <;> omega
      · refine .inr ⟨?_, fun length extent => positive extent.1⟩
        have negative : signed (word mem value) < 0 := by
          unfold signed
          split <;> omega
        rw [if_pos negative]
        decide
  | regex =>
      simp only [measureValue, form, Access.eval_bind, Extent]
      cases first : (skipString value stop).eval mem with
      | none =>
          refine .inr ⟨by simp, ?_⟩
          rintro length ⟨pattern, options, name, -, -⟩
          exact (skipString_eq_none_iff value stop).mp first pattern name
      | some pattern =>
          have name := (skipString_eq_some_iff value stop pattern).mp first
          simp only [Access.eval_bind]
          cases second : (skipString pattern stop).eval mem with
          | none =>
              refine .inr ⟨by simp, ?_⟩
              rintro length ⟨other, options, again, following, -⟩
              have same : pattern = other := Option.some.inj
                (first.symm.trans ((skipString_eq_some_iff value stop other).mpr again))
              exact (skipString_eq_none_iff pattern stop).mp second options (same ▸ following)
          | some options =>
              have following := (skipString_eq_some_iff pattern stop options).mp second
              refine .inl ⟨options - value, ?_, pattern, options, name, following, rfl⟩
              have inside := following.inside
              have after := name.after
              have behind := following.after
              simp only [Access.eval_pure, finishMeasure]
              rw [if_neg (by omega), wrap_of_range (by omega) (by omega)]
              simp
  | unknown =>
      refine .inr ⟨?_, by simp [Extent, form]⟩
      simp [measureValue, form]

theorem Extent.unique {type : UInt8} {value stop length other : Nat}
    (first : Extent mem type value stop length) (second : Extent mem type value stop other) :
    length = other := by
  cases form : layout type with
  | fixed size =>
      simp only [Extent, form] at first second
      exact first.trans second.symm
  | counted header =>
      simp only [Extent, form] at first second
      exact first.2.2.trans second.2.2.symm
  | regex =>
      simp only [Extent, form] at first second
      obtain ⟨pattern, options, name, following, rfl⟩ := first
      obtain ⟨pattern', options', name', following', rfl⟩ := second
      obtain rfl := name.unique name'
      rw [following.unique following']
  | unknown => simp only [Extent, form] at first

theorem measureValue_of_extent {type : UInt8} {value stop length : Nat}
    (extent : Extent mem type value stop length) (near : stop ≤ value + 2 ^ 31) :
    (measureValue type value stop).eval mem = length := by
  rcases measureValue_cases near with ⟨other, measured, same⟩ | ⟨-, none⟩
  · rw [measured, extent.unique same]
  · exact absurd extent (none length)

/-- A measurement reads at most the length field, or the strings of the value. -/
theorem measureValue_within {type : UInt8} {value stop limit : Nat} (start : value < stop)
    (region : stop ≤ limit) (field : ∀ header, layout type = .counted header → value + 4 ≤ limit) :
    (measureValue type value stop).Within mem fun index => index < limit := by
  have widen {data : Nat} (low : data ≤ stop) :
      (skipString data stop).Within mem fun index => index < limit :=
    fun index touched => Nat.lt_of_lt_of_le (skipString_within low index touched) region
  unfold measureValue
  split
  case h_1 => simp
  case h_2 header form =>
    have room := field header form
    simp [readUnalignedInt]
    omega
  case h_3 =>
    rw [Access.within_bind]
    refine ⟨widen (Nat.le_of_lt start), ?_⟩
    split
    case h_1 => simp
    case h_2 pattern skipped =>
      have inside := ((skipString_eq_some_iff value stop pattern).mp skipped).inside
      rw [Access.within_bind]
      refine ⟨widen (Nat.le_of_lt inside), ?_⟩
      split <;> simp
  case h_4 => simp

/-! ## Getting to a value -/

/-- What `seek_data` and `bson_set_element` compute at an element before they look at it. -/
structure Seeks (mem : Mem) (doc stop place : Nat) (offset : Int) : Prop where
  data : doc + offset.toNat = place
  far : ¬ offset < 4
  ends : (doc : Int) + signed (word mem doc) = stop
  last : ((stop : Int) - 1).toNat = stop - 1

theorem seeks {doc place stop : Nat} (opens : Opens mem doc stop) (after : doc + 4 ≤ place)
    {offset : Int} (there : offset = (place : Int) - doc) : Seeks mem doc stop place offset := by
  have declared := opens.declared
  refine ⟨by omega, by omega, ?_, by omega⟩
  rw [signed_eq_of_lt opens.short]
  omega

/-- What `seek_data` finds at an element. -/
theorem eval_seekData {doc place value stop : Nat} (opens : Opens mem doc stop)
    (after : doc + 4 ≤ place) (item : Item mem stop place value) {offset : Int}
    (there : offset = (place : Int) - doc) (low high : UInt8) :
    (seekData (some doc) offset low high).eval mem =
      if mem place = low ∨ mem place = high then some (value, stop) else none := by
  obtain ⟨data, far, ends, last⟩ := seeks opens after there
  have inside := item.inside
  have skipped := (skipString_eq_some_iff (place + 1) stop value).mpr item.name
  simp only [seekData, if_neg far, Access.eval_bind, eval_readUnalignedInt, ends, data,
    Int.toNat_natCast]
  rw [if_neg (by omega), Access.eval_bind, Access.eval_byte, last,
    if_neg (not_not_intro opens.terminated), Access.eval_bind, Access.eval_byte]
  by_cases type : mem place = low ∨ mem place = high
  · have kept : ¬ (mem place ≠ low ∧ mem place ≠ high) := by
      rintro ⟨notLow, notHigh⟩
      exact type.elim notLow notHigh
    rw [if_neg kept, if_pos type, Access.eval_bind, skipped]
    rfl
  · rw [if_pos (not_or.mp type), if_neg type]
    rfl

/-- What `bson_set_element` finds at an element. -/
theorem eval_locateElement {doc place value stop : Nat} (opens : Opens mem doc stop)
    (after : doc + 4 ≤ place) (item : Item mem stop place value) {offset : Int}
    (there : offset = (place : Int) - doc) :
    (locateElement (some doc) offset).eval mem =
      if (measureValue (mem place) value stop).eval mem < 0 then none
      else some (mem place, value, ((measureValue (mem place) value stop).eval mem).toNat) := by
  obtain ⟨data, far, ends, last⟩ := seeks opens after there
  have inside := item.name.inside
  have further := item.name.after
  have skipped := (skipString_eq_some_iff (place + 1) stop value).mpr item.name
  simp only [locateElement, if_neg far, Access.eval_bind, eval_readUnalignedInt, ends, data,
    Int.toNat_natCast]
  rw [if_neg (by omega), Access.eval_bind, Access.eval_byte, last,
    if_neg (not_not_intro opens.terminated), Access.eval_bind, Access.eval_byte,
    Access.eval_bind, skipped]
  simp only [Access.eval_bind]
  split <;> rfl

/-- Where the element has an extent, that is what is copied. -/
theorem locateElement_of_extent {doc place value stop length : Nat} (opens : Opens mem doc stop)
    (after : doc + 4 ≤ place) (item : Item mem stop place value) {offset : Int}
    (there : offset = (place : Int) - doc)
    (extent : Extent mem (mem place) value stop length) :
    (locateElement (some doc) offset).eval mem = some (mem place, value, length) := by
  have declared := opens.declared
  have short := opens.short
  have further := item.name.after
  rw [eval_locateElement opens after item there, measureValue_of_extent extent (by omega),
    if_neg (by omega)]
  rfl

/-- Where it has none, nothing is copied. -/
theorem locateElement_eq_none {doc place value stop : Nat} (opens : Opens mem doc stop)
    (after : doc + 4 ≤ place) (item : Item mem stop place value) {offset : Int}
    (there : offset = (place : Int) - doc)
    (shapeless : ∀ length, ¬ Extent mem (mem place) value stop length) :
    (locateElement (some doc) offset).eval mem = none := by
  have declared := opens.declared
  have short := opens.short
  have further := item.name.after
  have near : stop ≤ value + 2 ^ 31 := by omega
  rcases measureValue_cases near with ⟨length, -, extent⟩ | ⟨negative, -⟩
  · exact absurd extent (shapeless length)
  · rw [eval_locateElement opens after item there, if_pos negative]

/-- Locating an element reads only the buffer, when its length field is there. -/
theorem locateElement_within {doc place value stop : Nat} (opens : Opens mem doc stop)
    (after : doc + 4 ≤ place) (item : Item mem stop place value) {offset : Int}
    (there : offset = (place : Int) - doc) (region : stop ≤ limit)
    (field : ∀ header, layout (mem place) = .counted header → value + 4 ≤ limit) :
    (locateElement (some doc) offset).Within mem fun index => index < limit := by
  obtain ⟨data, far, ends, last⟩ := seeks opens after there
  have inside := item.name.inside
  have further := item.name.after
  have skipped := (skipString_eq_some_iff (place + 1) stop value).mpr item.name
  simp only [locateElement, if_neg far, Access.within_bind, eval_readUnalignedInt, ends, data,
    Int.toNat_natCast]
  refine ⟨readUnalignedInt_within (by omega), ?_⟩
  rw [if_neg (by omega), Access.within_bind, Access.within_byte, Access.eval_byte, last,
    if_neg (not_not_intro opens.terminated), Access.within_bind, Access.within_byte,
    Access.eval_byte, Access.within_bind, skipped]
  refine ⟨by omega, by omega, fun index touched => ?_, ?_⟩
  · exact Nat.lt_of_lt_of_le (skipString_within (by omega) index touched) region
  simp only [Access.within_bind]
  refine ⟨measureValue_within inside region field, ?_⟩
  split <;> simp

/-! ## Numbers in thirty-two bits -/

theorem readUnalignedInt_lt (mem : Mem) (ptr : Nat) : (readUnalignedInt ptr).eval mem < 2 ^ 31 := by
  have bound := word_lt mem ptr
  rw [eval_readUnalignedInt]
  unfold signed
  split <;> omega

theorem getInt32_lt (mem : Mem) (doc : Option Nat) (offset : Int) {default : Int}
    (small : default < 2 ^ 31) : (bsonGetInt32 doc offset default).eval mem < 2 ^ 31 := by
  simp only [bsonGetInt32, Access.eval_bind]
  cases (seekData doc offset 0x10 0x10).eval mem with
  | none => exact small
  | some found => exact readUnalignedInt_lt mem found.1

theorem getBinary_lt {mem : Mem} {doc : Option Nat} {offset : Int} {binary : Nat × Int}
    (found : (bsonGetBinary doc offset).eval mem = some binary) :
    0 < binary.2 ∧ binary.2 < 2 ^ 31 := by
  simp only [bsonGetBinary, Access.eval_bind] at found
  cases sought : (seekData doc offset 0x05 0x05).eval mem with
  | none =>
      rw [sought] at found
      cases found
  | some place =>
      obtain ⟨data, stop⟩ := place
      rw [sought] at found
      simp only [Access.eval_bind] at found
      have bound := readUnalignedInt_lt mem data
      split at found
      case isTrue => cases found
      case isFalse fits =>
        cases found
        exact ⟨by omega, bound⟩

end PeridotSw.Bson.Walk
