import Mathlib.Data.Nat.Bitwise

/-!
# Thirty-two bit words as bytes

The conversions between four bytes in little-endian order, the unsigned word
they spell, and the signed number a two's complement machine reads from it.
Unsigned words are natural numbers below `2 ^ 32`; signed words are integers.
-/

namespace PeridotSw.Machine.Word

/-! ## Indices of small arrays -/

instance neZero_three : NeZero 3 := ⟨by decide⟩

instance neZero_four : NeZero 4 := ⟨by decide⟩

/-! ## Words -/

/-- The unsigned word spelled by four bytes, least significant byte first. -/
def le32 (b0 b1 b2 b3 : UInt8) : Nat :=
  b0.toNat + 2 ^ 8 * b1.toNat + 2 ^ 16 * b2.toNat + 2 ^ 24 * b3.toNat

/-- The two's complement reading of an unsigned word. -/
def signed (word : Nat) : Int :=
  if word < 2 ^ 31 then word else (word : Int) - 2 ^ 32

/-- The unsigned word of an integer, as a conversion to `size_t` computes it. -/
def unsigned (value : Int) : Nat := (value % 2 ^ 32).toNat

/-- Arithmetic on a 32-bit `int`: the exact result, reduced to the signed range. -/
def wrap (value : Int) : Int := signed (unsigned value)

def byteAt (word index : Nat) : UInt8 := UInt8.ofNat (word >>> (8 * index))

def bytes32 (word : Nat) : List UInt8 :=
  [byteAt word 0, byteAt word 1, byteAt word 2, byteAt word 3]

theorem le32_lt (b0 b1 b2 b3 : UInt8) : le32 b0 b1 b2 b3 < 2 ^ 32 := by
  have h0 := b0.toNat_lt
  have h1 := b1.toNat_lt
  have h2 := b2.toNat_lt
  have h3 := b3.toNat_lt
  unfold le32
  omega

theorem toNat_byteAt (word index : Nat) :
    (byteAt word index).toNat = word / 2 ^ (8 * index) % 2 ^ 8 := by
  simp [byteAt, Nat.shiftRight_eq_div_pow]

@[simp] theorem length_bytes32 (word : Nat) : (bytes32 word).length = 4 := rfl

/-- Writing a word and reading it back loses nothing below `2 ^ 32`. -/
theorem le32_byteAt {word : Nat} (bound : word < 2 ^ 32) :
    le32 (byteAt word 0) (byteAt word 1) (byteAt word 2) (byteAt word 3) = word := by
  unfold le32
  simp only [toNat_byteAt]
  omega

/-- The bytes of a word determine each byte it was spelled from. -/
theorem bytes32_le32 (b0 b1 b2 b3 : UInt8) :
    bytes32 (le32 b0 b1 b2 b3) = [b0, b1, b2, b3] := by
  have h0 := b0.toNat_lt
  have h1 := b1.toNat_lt
  have h2 := b2.toNat_lt
  have h3 := b3.toNat_lt
  have e0 : byteAt (le32 b0 b1 b2 b3) 0 = b0 := by
    apply UInt8.toNat_inj.mp
    rw [toNat_byteAt, le32]
    omega
  have e1 : byteAt (le32 b0 b1 b2 b3) 1 = b1 := by
    apply UInt8.toNat_inj.mp
    rw [toNat_byteAt, le32]
    omega
  have e2 : byteAt (le32 b0 b1 b2 b3) 2 = b2 := by
    apply UInt8.toNat_inj.mp
    rw [toNat_byteAt, le32]
    omega
  have e3 : byteAt (le32 b0 b1 b2 b3) 3 = b3 := by
    apply UInt8.toNat_inj.mp
    rw [toNat_byteAt, le32]
    omega
  simp only [bytes32, e0, e1, e2, e3]

/-- Disjoint bytes are joined by `|` exactly as they are added. -/
theorem or_shift_eq_le32 (b0 b1 b2 b3 : UInt8) :
    b0.toNat ||| b1.toNat <<< 8 ||| b2.toNat <<< 16 ||| b3.toNat <<< 24 =
      le32 b0 b1 b2 b3 := by
  have h0 := b0.toNat_lt
  have h1 := b1.toNat_lt
  have h2 := b2.toNat_lt
  have low : b0.toNat ||| b1.toNat <<< 8 = b1.toNat <<< 8 + b0.toNat := by
    rw [Nat.or_comm]
    exact (Nat.shiftLeft_add_eq_or_of_lt h0 _).symm
  have middle : b0.toNat ||| b1.toNat <<< 8 ||| b2.toNat <<< 16 =
      b2.toNat <<< 16 + (b1.toNat <<< 8 + b0.toNat) := by
    rw [low, Nat.or_comm]
    refine (Nat.shiftLeft_add_eq_or_of_lt ?_ _).symm
    rw [Nat.shiftLeft_eq]
    omega
  rw [middle, Nat.or_comm]
  rw [← Nat.shiftLeft_add_eq_or_of_lt (by simp only [Nat.shiftLeft_eq]; omega)]
  simp only [Nat.shiftLeft_eq, le32]
  omega

@[simp] theorem unsigned_signed {word : Nat} (bound : word < 2 ^ 32) :
    unsigned (signed word) = word := by
  unfold unsigned signed
  split <;> omega

theorem unsigned_lt (value : Int) : unsigned value < 2 ^ 32 := by
  unfold unsigned
  omega

theorem unsigned_of_nonneg {value : Int} (low : 0 ≤ value) (high : value < 2 ^ 32) :
    unsigned value = value.toNat := by
  unfold unsigned
  rw [Int.emod_eq_of_lt low high]

theorem unsigned_natCast {word : Nat} (bound : word < 2 ^ 32) : unsigned (word : Int) = word := by
  rw [unsigned_of_nonneg (by omega) (by omega), Int.toNat_natCast]

/-- Reducing to the signed range loses nothing of the unsigned word. -/
@[simp] theorem unsigned_wrap (value : Int) : unsigned (wrap value) = unsigned value :=
  unsigned_signed (unsigned_lt value)

theorem signed_eq_of_lt {word : Nat} (bound : word < 2 ^ 31) : signed word = word :=
  if_pos bound

/-- Arithmetic that stays in the range of `int` is exact. -/
theorem wrap_of_range {value : Int} (low : -(2 ^ 31) ≤ value) (high : value < 2 ^ 31) :
    wrap value = value := by
  unfold wrap signed unsigned
  split <;> omega

end PeridotSw.Machine.Word
