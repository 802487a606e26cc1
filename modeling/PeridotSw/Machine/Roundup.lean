import Mathlib.Data.Nat.Bitwise
import Mathlib.Data.Nat.Log

/-!
# Rounding up to a power of two

Each bit of a 32-bit word is copied to all places below it, by five shifts whose
distances double; the successor of the result is a power of two.
-/

namespace PeridotSw.Machine.Roundup

/-- `x |= x >> 1; x |= x >> 2; x |= x >> 4; x |= x >> 8; x |= x >> 16`. -/
def smear (word : Nat) : Nat :=
  let word := word ||| word >>> 1
  let word := word ||| word >>> 2
  let word := word ||| word >>> 4
  let word := word ||| word >>> 8
  word ||| word >>> 16

/-- Every bit is that of the word or of one of the `reach - 1` places above. -/
def Reaches (reach word smeared : Nat) : Prop :=
  ∀ place, smeared.testBit place = true ↔ ∃ above < reach, word.testBit (place + above) = true

theorem reaches_self (word : Nat) : Reaches 1 word word := by
  intro place
  constructor
  · exact fun set => ⟨0, Nat.zero_lt_one, set⟩
  · rintro ⟨above, low, set⟩
    rwa [Nat.lt_one_iff.mp low] at set

/-- A shift by the distance reached so far doubles it. -/
theorem Reaches.double {reach word smeared : Nat} (reaches : Reaches reach word smeared) :
    Reaches (reach + reach) word (smeared ||| smeared >>> reach) := by
  intro place
  rw [Nat.testBit_or, Nat.testBit_shiftRight, Bool.or_eq_true, reaches place,
    reaches (reach + place)]
  constructor
  · rintro (⟨above, low, set⟩ | ⟨above, low, set⟩)
    · exact ⟨above, by omega, set⟩
    · refine ⟨reach + above, by omega, ?_⟩
      rwa [← Nat.add_assoc, Nat.add_comm place reach]
  · rintro ⟨above, low, set⟩
    by_cases near : above < reach
    · exact .inl ⟨above, near, set⟩
    · refine .inr ⟨above - reach, by omega, ?_⟩
      have same : reach + place + (above - reach) = place + above := by omega
      rwa [same]

theorem smear_reaches (word : Nat) : Reaches 32 word (smear word) :=
  (reaches_self word).double.double.double.double.double

/-- All bits up to the highest one are set. -/
theorem smear_eq {word : Nat} (positive : word ≠ 0) (bound : word < 2 ^ 32) :
    smear word = 2 ^ (word.log2 + 1) - 1 := by
  apply Nat.eq_of_testBit_eq
  intro place
  rw [Nat.testBit_two_pow_sub_one, Bool.eq_iff_iff, smear_reaches word place, decide_eq_true_iff]
  have short : word.log2 < 32 := (Nat.log2_lt positive).mpr bound
  constructor
  · rintro ⟨above, -, set⟩
    refine Nat.lt_of_not_le fun high => ?_
    have beyond : word < 2 ^ (place + above) :=
      Nat.lt_of_lt_of_le Nat.lt_log2_self
        (Nat.pow_le_pow_right (by decide) (by omega))
    rw [Nat.testBit_lt_two_pow beyond] at set
    cases set
  · intro low
    refine ⟨word.log2 - place, by omega, ?_⟩
    rw [Nat.add_sub_cancel' (by omega)]
    exact Nat.testBit_log2 positive

/-- The successor is the power of two above the word. -/
theorem smear_succ {word : Nat} (positive : word ≠ 0) (bound : word < 2 ^ 32) :
    smear word + 1 = 2 ^ (word.log2 + 1) := by
  rw [smear_eq positive bound]
  exact Nat.sub_add_cancel (Nat.one_le_two_pow)

/-- Decremented, smeared and incremented, a word is rounded up to a power of two. -/
theorem smear_pred {word : Nat} (positive : 0 < word) (bound : word ≤ 2 ^ 32) :
    smear (word - 1) + 1 = 2 ^ Nat.clog 2 word := by
  by_cases one : word = 1
  · rw [one]
    simp [smear]
  · have below : 2 ^ (word - 1).log2 ≤ word - 1 := Nat.log2_self_le (by omega)
    have above : word - 1 < 2 ^ ((word - 1).log2 + 1) := Nat.lt_log2_self
    have same : Nat.clog 2 word = (word - 1).log2 + 1 :=
      Nat.le_antisymm (Nat.clog_le_of_le_pow (by omega))
        ((Nat.lt_clog_iff_pow_lt Nat.one_lt_two).mpr (by omega))
    rw [smear_succ (by omega) (by omega), same]

/-- Half of the words are rounded up to `2 ^ 32`. -/
theorem clog_eq_top {word : Nat} (large : 2 ^ 31 < word) (bound : word ≤ 2 ^ 32) :
    Nat.clog 2 word = 32 :=
  Nat.le_antisymm (Nat.clog_le_of_le_pow bound) ((Nat.lt_clog_iff_pow_lt Nat.one_lt_two).mpr large)

end PeridotSw.Machine.Roundup
