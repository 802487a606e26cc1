import Mathlib.Analysis.Complex.Trigonometric

/-!
# Sines of whole numbers by integer arithmetic

A pair of integers stands for the sine and the cosine of an angle, both multiplied by one
scale.  The addition theorem gives the pair of a sum and bounds its error by the errors of
the two pairs.  A very small angle doubled often enough is one radian, and one radian added
to itself is any whole number.
-/

namespace PeridotSw.Machine.Sine

/-- The sine and the cosine of an angle, scaled and approximate. -/
structure Pair where
  sin : Int
  cos : Int

/-- The pair is that of the angle up to an error. -/
structure Near (scale : Nat) (angle : ℝ) (pair : Pair) (error : Nat) : Prop where
  sin : |scale * Real.sin angle - pair.sin| ≤ error
  cos : |scale * Real.cos angle - pair.cos| ≤ error

variable {scale : Nat}

def Pair.add (scale : Nat) (first second : Pair) : Pair where
  sin := (first.sin * second.cos + first.cos * second.sin) / scale
  cos := (first.cos * second.cos - first.sin * second.sin) / scale

def addError (scale first second : Nat) : Nat :=
  2 * (first + second + (first * second / scale + 1)) + 1

theorem abs_sub_ediv_le (positive : 0 < scale) (value : Int) :
    |(value : ℝ) / scale - ((value / scale : Int) : ℝ)| ≤ 1 := by
  have real : (0 : ℝ) < scale := by exact_mod_cast positive
  have split : (value : ℝ) = scale * ((value / scale : Int) : ℝ) + ((value % scale : Int) : ℝ) := by
    exact_mod_cast (Int.mul_ediv_add_emod value scale).symm
  have low : (0 : ℝ) ≤ ((value % scale : Int) : ℝ) := by
    exact_mod_cast Int.emod_nonneg value (by omega)
  have high : ((value % scale : Int) : ℝ) ≤ scale := by
    exact_mod_cast (Int.emod_lt_of_pos value (by omega)).le
  have rest : (value : ℝ) / scale - ((value / scale : Int) : ℝ) =
      ((value % scale : Int) : ℝ) / scale := by
    rw [eq_div_iff real.ne', sub_mul, div_mul_cancel₀ _ real.ne']
    linarith
  rw [rest, abs_of_nonneg (div_nonneg low real.le)]
  exact (div_le_one real).mpr high

/-- A product of two approximate factors. -/
theorem abs_mul_sub_le {x y : ℝ} {a b : Int} {e f : Nat} (positive : 0 < scale)
    (unit : |x| ≤ 1) (unit' : |y| ≤ 1) (first : |scale * x - a| ≤ e)
    (second : |scale * y - b| ≤ f) :
    |scale * (x * y) - a * b / scale| ≤ e + f + ((e * f / scale : Nat) + 1) := by
  have real : (0 : ℝ) < scale := by exact_mod_cast positive
  have bound : |(b : ℝ)| ≤ scale + f := by
    calc |(b : ℝ)| = |scale * y - (scale * y - b)| := by ring_nf
      _ ≤ |scale * y| + |scale * y - b| := abs_sub _ _
      _ ≤ scale * 1 + f := by
        rw [abs_mul, abs_of_pos real]
        exact add_le_add (mul_le_mul_of_nonneg_left unit' real.le) second
      _ = scale + f := by rw [mul_one]
  have split : scale * (x * y) - a * b / scale =
      x * (scale * y - b) + (scale * x - a) * (b / scale) := by
    field_simp
    ring
  have ratio : |(b : ℝ) / scale| ≤ 1 + f / scale := by
    rw [abs_div, abs_of_pos real, div_le_iff₀ real, add_mul, div_mul_cancel₀ _ real.ne', one_mul]
    exact bound
  have product : (e : ℝ) * f / scale ≤ (e * f / scale : Nat) + 1 := by
    rw [div_le_iff₀' real]
    exact_mod_cast (Nat.lt_mul_div_succ (e * f) positive).le
  calc |scale * (x * y) - a * b / scale|
      ≤ |x * (scale * y - b)| + |(scale * x - a) * (b / scale)| := by
        rw [split]
        exact abs_add_le _ _
    _ ≤ 1 * f + e * (1 + f / scale) := by
        rw [abs_mul, abs_mul]
        exact add_le_add (mul_le_mul unit second (abs_nonneg _) zero_le_one)
          (mul_le_mul first ratio (abs_nonneg _) (Nat.cast_nonneg e))
    _ = e + f + e * f / scale := by ring
    _ ≤ e + f + ((e * f / scale : Nat) + 1) := by linarith

theorem Near.add {a b : ℝ} {first second : Pair} {e f : Nat} (positive : 0 < scale)
    (near : Near scale a first e) (near' : Near scale b second f) :
    Near scale (a + b) (first.add scale second) (addError scale e f) := by
  have sinCos := abs_mul_sub_le positive (Real.abs_sin_le_one a) (Real.abs_cos_le_one b)
    near.sin near'.cos
  have cosSin := abs_mul_sub_le positive (Real.abs_cos_le_one a) (Real.abs_sin_le_one b)
    near.cos near'.sin
  have cosCos := abs_mul_sub_le positive (Real.abs_cos_le_one a) (Real.abs_cos_le_one b)
    near.cos near'.cos
  have sinSin := abs_mul_sub_le positive (Real.abs_sin_le_one a) (Real.abs_sin_le_one b)
    near.sin near'.sin
  unfold addError
  generalize e * f / scale = small at sinCos cosSin cosCos sinSin ⊢
  constructor
  · have rounded := abs_sub_ediv_le positive (first.sin * second.cos + first.cos * second.sin)
    rw [Real.sin_add]
    simp only [Pair.add]
    push_cast at rounded ⊢
    rw [abs_le] at *
    rw [add_div] at rounded
    constructor <;> linarith [rounded.1, rounded.2, sinCos.1, sinCos.2, cosSin.1, cosSin.2]
  · have rounded := abs_sub_ediv_le positive (first.cos * second.cos - first.sin * second.sin)
    rw [Real.cos_add]
    simp only [Pair.add]
    push_cast at rounded ⊢
    rw [abs_le] at *
    rw [sub_div] at rounded
    constructor <;> linarith [rounded.1, rounded.2, cosCos.1, cosCos.2, sinSin.1, sinSin.2]

/-! ## Whole numbers -/

def fineScale : Nat := 2 ^ 240

def tiny : Pair where
  sin := 2 ^ 176 - 2 ^ 48 / 6
  cos := 2 ^ 240 - 2 ^ 111

/-- The pair of the tiny angle doubled a number of times. -/
def doubled : Nat → Pair
  | 0 => tiny
  | count + 1 => (doubled count).add fineScale (doubled count)

def doubledError : Nat → Nat
  | 0 => 1
  | count + 1 => addError fineScale (doubledError count) (doubledError count)

def whole : Nat → Pair
  | 0 => ⟨0, fineScale⟩
  | count + 1 => (whole count).add fineScale (doubled 64)

def wholeError : Nat → Nat
  | 0 => 0
  | count + 1 => addError fineScale (wholeError count) (doubledError 64)

theorem fineScale_pos : 0 < fineScale := by decide

theorem near_tiny : Near fineScale (1 / 2 ^ 64) tiny 1 := by
  have small : |(1 / 2 ^ 64 : ℝ)| ≤ 1 := by
    rw [abs_of_pos (by positivity)]
    norm_num
  constructor
  · have bound := Real.sin_bound small
    simp only [fineScale, tiny]
    rw [abs_of_pos (show (0 : ℝ) < 1 / 2 ^ 64 by positivity), abs_le] at bound
    rw [abs_le]
    push_cast
    constructor <;> norm_num at bound ⊢ <;> linarith [bound.1, bound.2]
  · have bound := Real.cos_bound small
    simp only [fineScale, tiny]
    rw [abs_of_pos (show (0 : ℝ) < 1 / 2 ^ 64 by positivity), abs_le] at bound
    rw [abs_le]
    push_cast
    constructor <;> norm_num at bound ⊢ <;> linarith [bound.1, bound.2]

theorem near_doubled (count : Nat) :
    Near fineScale (2 ^ count / 2 ^ 64) (doubled count) (doubledError count) := by
  induction count with
  | zero =>
      rw [pow_zero]
      exact near_tiny
  | succ count half =>
      have sum : (2 : ℝ) ^ (count + 1) / 2 ^ 64 = 2 ^ count / 2 ^ 64 + 2 ^ count / 2 ^ 64 := by
        ring
      rw [sum]
      exact half.add fineScale_pos half

theorem near_whole (number : Nat) :
    Near fineScale number (whole number) (wholeError number) := by
  induction number with
  | zero => constructor <;> simp [whole, wholeError]
  | succ number ih =>
      have one : Near fineScale 1 (doubled 64) (doubledError 64) := by
        have top := near_doubled 64
        rwa [div_self (by positivity)] at top
      rw [Nat.cast_succ]
      exact ih.add fineScale_pos one

/-- The integers show the first bits of a sine when the error leaves them alone. -/
theorem Near.floor_sin {angle : ℝ} {pair : Pair} {error factor value : Nat}
    (positive : 0 < scale) (near : Near scale angle pair error)
    (low : value * scale + factor * error ≤ factor * pair.sin.natAbs)
    (high : factor * pair.sin.natAbs + factor * error < (value + 1) * scale) :
    ⌊(factor : ℝ) * |Real.sin angle|⌋₊ = value := by
  have real : (0 : ℝ) < scale := by exact_mod_cast positive
  have size : ((pair.sin.natAbs : Nat) : ℝ) = |(pair.sin : ℝ)| := by
    rw [Nat.cast_natAbs, Int.cast_abs]
  have apart : abs (scale * |Real.sin angle| - |(pair.sin : ℝ)|) ≤ error := by
    have outer := abs_abs_sub_abs_le (scale * Real.sin angle) (pair.sin : ℝ)
    rw [abs_mul, abs_of_pos real] at outer
    exact outer.trans near.sin
  have above : (factor : ℝ) * (scale * |Real.sin angle| - |(pair.sin : ℝ)|) ≤ factor * error :=
    mul_le_mul_of_nonneg_left (abs_le.mp apart).2 (Nat.cast_nonneg factor)
  have below : (factor : ℝ) * -error ≤ factor * (scale * |Real.sin angle| - |(pair.sin : ℝ)|) :=
    mul_le_mul_of_nonneg_left (abs_le.mp apart).1 (Nat.cast_nonneg factor)
  have low' : (value : ℝ) * scale + factor * error ≤ factor * |(pair.sin : ℝ)| := by
    rw [← size]
    exact_mod_cast low
  have high' : factor * |(pair.sin : ℝ)| + factor * error < ((value : ℝ) + 1) * scale := by
    rw [← size]
    exact_mod_cast high
  rw [Nat.floor_eq_iff (by positivity)]
  constructor
  · refine le_of_mul_le_mul_right ?_ real
    linarith
  · refine lt_of_mul_lt_mul_right ?_ real.le
    linarith

end PeridotSw.Machine.Sine
