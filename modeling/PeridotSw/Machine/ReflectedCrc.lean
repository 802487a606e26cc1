import Mathlib.Algebra.Group.Nat.Defs
import Mathlib.Logic.Function.Iterate

/-!
# Reflected cyclic redundancy checks

A register of any width is shifted down by one place for each message bit, and the
polynomial is added when the bit that leaves differs from the message bit.  Shifting is
linear, so a group of message bits may be added to the register first and shifted through
afterwards, and what lies above the group only moves down.
-/

namespace PeridotSw.Machine.ReflectedCrc

variable {w : Nat} (poly : BitVec w)

def shift (register : BitVec w) : BitVec w :=
  if register.getLsbD 0 then poly ^^^ (register >>> 1) else register >>> 1

def feed (register : BitVec w) (bit : Bool) : BitVec w :=
  if register.getLsbD 0 ^^ bit then poly ^^^ (register >>> 1) else register >>> 1

/-- Bits as a number, the first one lowest. -/
def ofBits : List Bool → BitVec w
  | [] => 0
  | bit :: rest => (BitVec.ofBool bit).setWidth w ^^^ (ofBits rest <<< 1)

theorem shift_xor (first second : BitVec w) :
    shift poly (first ^^^ second) = shift poly first ^^^ shift poly second := by
  unfold shift
  rw [BitVec.getLsbD_xor, BitVec.ushiftRight_xor_distrib]
  cases first.getLsbD 0 <;> cases second.getLsbD 0
  · rfl
  · simp only [Bool.false_bne, if_true, Bool.false_eq_true, if_false]
    ac_rfl
  · simp only [Bool.bne_false, if_true, Bool.false_eq_true, if_false]
    ac_rfl
  · simp only [bne_self_eq_false, Bool.false_eq_true, if_false, if_true]
    rw [BitVec.xor_comm poly (second >>> 1), ← BitVec.xor_assoc, BitVec.xor_assoc poly,
      BitVec.xor_comm poly, BitVec.xor_assoc, BitVec.xor_self, BitVec.xor_zero]

theorem shifts_xor (count : Nat) (first second : BitVec w) :
    (shift poly)^[count] (first ^^^ second) =
      (shift poly)^[count] first ^^^ (shift poly)^[count] second := by
  induction count generalizing first second with
  | zero => rfl
  | succ count ih =>
      rw [Function.iterate_succ_apply, Function.iterate_succ_apply, Function.iterate_succ_apply,
        shift_xor, ih]

/-- A register whose lowest bit is clear only moves down. -/
theorem shift_of_even {register : BitVec w} (even : register.getLsbD 0 = false) :
    shift poly register = register >>> 1 := by
  rw [shift, even]
  rfl

/-- A message bit may be added to the register before the shift. -/
theorem feed_eq_shift (wide : 0 < w) (register : BitVec w) (bit : Bool) :
    feed poly register bit = shift poly (register ^^^ (BitVec.ofBool bit).setWidth w) := by
  have low : ((BitVec.ofBool bit).setWidth w).getLsbD 0 = bit := by
    simp [wide]
  have gone : ((BitVec.ofBool bit).setWidth w) >>> 1 = 0#w := by
    apply BitVec.eq_of_getLsbD_eq
    intro index _
    simp
  rw [feed, shift, BitVec.getLsbD_xor, low, BitVec.ushiftRight_xor_distrib, gone,
    BitVec.xor_zero]

theorem ofBits_getLsbD (bits : List Bool) {index : Nat} (bound : index < w) :
    (ofBits bits : BitVec w).getLsbD index = bits.getD index false := by
  induction bits generalizing index with
  | nil => simp [ofBits]
  | cons bit rest ih =>
      rw [ofBits, BitVec.getLsbD_xor, BitVec.getLsbD_shiftLeft]
      cases index with
      | zero => simp [bound]
      | succ index => simp [bound, ih (Nat.lt_of_succ_lt bound)]

/-- Fewer bits than the register has places leave at the bottom as they were. -/
theorem ofBits_shift (bits : List Bool) (fits : bits.length < w) :
    ((ofBits bits : BitVec w) <<< 1) >>> 1 = ofBits bits := by
  apply BitVec.eq_of_getLsbD_eq
  intro index bound
  rw [BitVec.getLsbD_ushiftRight, BitVec.getLsbD_shiftLeft]
  by_cases last : 1 + index < w
  · simp [last]
  · have beyond : bits[index]? = none := List.getElem?_eq_none (by omega)
    rw [ofBits_getLsbD bits bound, List.getD_eq_getElem?_getD, beyond]
    simp [last]

/-- A group of message bits may be added to the register before all their shifts. -/
theorem feed_group (bits : List Bool) (fits : bits.length ≤ w) (register : BitVec w) :
    bits.foldl (feed poly) register = (shift poly)^[bits.length] (register ^^^ ofBits bits) := by
  induction bits generalizing register with
  | nil => simp [ofBits]
  | cons bit rest ih =>
      rw [List.length_cons] at fits
      have even : ((ofBits rest : BitVec w) <<< 1).getLsbD 0 = false := by simp
      rw [List.foldl_cons, ih (by omega), feed_eq_shift poly (by omega), List.length_cons,
        Function.iterate_succ_apply, ofBits, ← BitVec.xor_assoc, shift_xor poly (_ ^^^ _),
        shift_of_even poly even, ofBits_shift rest (by omega)]

/-- Through some shifts the places above only move down. -/
theorem shifts_of_clear {register : BitVec w} {count : Nat}
    (clear : ∀ index, index < count → register.getLsbD index = false) :
    (shift poly)^[count] register = register >>> count := by
  induction count with
  | zero => simp
  | succ count ih =>
      have even : (register >>> count).getLsbD 0 = false := by
        simpa using clear count (Nat.lt_succ_self count)
      rw [Function.iterate_succ_apply', ih fun index bound => clear index (by omega),
        shift_of_even poly even, BitVec.shiftRight_add]

/-- The lowest places of a register. -/
def low (count : Nat) (register : BitVec w) : BitVec w :=
  register &&& BitVec.ofNat w (2 ^ count - 1)

theorem low_getLsbD (count : Nat) (register : BitVec w) (index : Nat) :
    (low count register).getLsbD index =
      (register.getLsbD index && decide (index < count)) := by
  rw [low, BitVec.getLsbD_and, BitVec.getLsbD_ofNat, Nat.testBit_two_pow_sub_one]
  by_cases bound : index < w
  · simp [bound]
  · simp [BitVec.getLsbD_of_ge register index (by omega)]

/-- What the lowest places become, and the others moved down: a table of the first gives
any number of shifts at once. -/
theorem shifts_eq_table (count : Nat) (register : BitVec w) :
    (shift poly)^[count] register =
      (shift poly)^[count] (low count register) ^^^ (register >>> count) := by
  have split : register = low count register ^^^ (register ^^^ low count register) := by
    rw [BitVec.xor_comm register, ← BitVec.xor_assoc, BitVec.xor_self, BitVec.zero_xor]
  have clear (index : Nat) (bound : index < count) :
      (register ^^^ low count register).getLsbD index = false := by
    rw [BitVec.getLsbD_xor, low_getLsbD]
    simp [bound]
  have gone : (low count register) >>> count = 0#w := by
    apply BitVec.eq_of_getLsbD_eq
    intro index _
    rw [BitVec.getLsbD_ushiftRight, low_getLsbD]
    simp
  calc (shift poly)^[count] register
      = (shift poly)^[count] (low count register ^^^ (register ^^^ low count register)) := by
        rw [← split]
    _ = (shift poly)^[count] (low count register) ^^^
          ((register ^^^ low count register) >>> count) := by
        rw [shifts_xor, shifts_of_clear poly clear]
    _ = _ := by rw [BitVec.ushiftRight_xor_distrib, gone, BitVec.xor_zero]

end PeridotSw.Machine.ReflectedCrc
