import Mathlib.Data.Int.Log
import Mathlib.Data.Rat.Floor
import Mathlib.Tactic

/-! # Doubles

A double of normal size is the rational that it stands for.  A value that is no double is
rounded to the nearest one, and where two are as near to the one whose last digit is even.
-/

namespace Double

/-- The nearest integer, the even one where two are as near. -/
def roundEven (value : ℚ) : ℤ :=
  if Int.fract value < 1 / 2 ∨ Int.fract value = 1 / 2 ∧ ⌊value⌋ % 2 = 0 then ⌊value⌋
  else ⌊value⌋ + 1

/-- The weight of the last of the 53 binary digits of a value. -/
def lastDigit (value : ℚ) : ℚ := 2 ^ (Int.log 2 |value| - 52)

/-- The double nearest to a value. -/
def nearest (value : ℚ) : ℚ := roundEven (value / lastDigit value) * lastDigit value

def ofNat (count : Nat) : ℚ := nearest count

def divide (numerator denominator : ℚ) : ℚ := nearest (numerator / denominator)

theorem abs_roundEven_sub_le (value : ℚ) : |roundEven value - value| ≤ 1 / 2 := by
  have split : (⌊value⌋ : ℚ) + Int.fract value = value := Int.floor_add_fract value
  have below := Int.fract_lt_one value
  have positive := Int.fract_nonneg value
  unfold roundEven
  rw [abs_le]
  split_ifs with down
  · have half : Int.fract value ≤ 1 / 2 := by
      rcases down with less | ⟨same, -⟩
      · exact less.le
      · exact same.le
    constructor <;> linarith
  · have half : 1 / 2 ≤ Int.fract value := by
      by_contra less
      exact down (.inl (not_le.mp less))
    push_cast
    constructor <;> linarith

theorem lastDigit_pos (value : ℚ) : 0 < lastDigit value := by
  unfold lastDigit
  positivity

/-- A value other than zero is at least 2 ^ 52 of its last digits. -/
theorem lastDigit_le {value : ℚ} (nonzero : value ≠ 0) : lastDigit value ≤ |value| / 2 ^ 52 := by
  have power : ((2 : Nat) : ℚ) ^ Int.log 2 |value| ≤ |value| :=
    Int.zpow_log_le_self (by norm_num) (abs_pos.mpr nonzero)
  rw [lastDigit, zpow_sub₀ two_ne_zero]
  exact div_le_div_of_nonneg_right power (by positivity)

/-- The rounding of a value loses less than its last digit. -/
theorem abs_nearest_sub_le (value : ℚ) : |nearest value - value| ≤ |value| / 2 ^ 53 := by
  by_cases zero : value = 0
  · simp [zero, nearest, roundEven]
  · have scale := lastDigit_pos value
    have scaled : nearest value - value =
        (roundEven (value / lastDigit value) - value / lastDigit value) * lastDigit value := by
      rw [nearest, sub_mul, div_mul_cancel₀ _ scale.ne']
    calc |nearest value - value|
        = |roundEven (value / lastDigit value) - value / lastDigit value| * lastDigit value := by
          rw [scaled, abs_mul, abs_of_pos scale]
      _ ≤ 1 / 2 * lastDigit value :=
          mul_le_mul_of_nonneg_right (abs_roundEven_sub_le _) scale.le
      _ ≤ 1 / 2 * (|value| / 2 ^ 52) :=
          mul_le_mul_of_nonneg_left (lastDigit_le zero) (by norm_num)
      _ = |value| / 2 ^ 53 := by ring

/-- A tenth. -/
example : nearest (1 / 10) = 3602879701896397 / 2 ^ 55 := by decide +kernel

/-- A quotient times its denominator is the numerator but for the rounding. -/
theorem abs_divide_mul_sub_le {numerator denominator : ℚ} (positive : 0 < denominator) :
    |divide numerator denominator * denominator - numerator| ≤ |numerator| / 2 ^ 53 := by
  have exact_quotient : numerator / denominator * denominator = numerator :=
    div_mul_cancel₀ _ positive.ne'
  calc |divide numerator denominator * denominator - numerator|
      = |nearest (numerator / denominator) - numerator / denominator| * denominator := by
        rw [← abs_of_pos positive, ← abs_mul, abs_of_pos positive, sub_mul, exact_quotient, divide]
    _ ≤ |numerator / denominator| / 2 ^ 53 * denominator :=
        mul_le_mul_of_nonneg_right (abs_nearest_sub_le _) positive.le
    _ = |numerator| / 2 ^ 53 := by
        rw [abs_div, abs_of_pos positive, div_right_comm, div_mul_cancel₀ _ positive.ne']

/-- A quotient of a count times its denominator is the count but for two roundings. -/
theorem abs_divide_ofNat_mul_sub_le (count : Nat) {denominator : ℚ} (positive : 0 < denominator) :
    |divide (ofNat count) denominator * denominator - count| ≤ count / 2 ^ 51 := by
  have converted : |ofNat count - count| ≤ count / 2 ^ 53 := by
    have rounded := abs_nearest_sub_le count
    rwa [abs_of_nonneg (Nat.cast_nonneg (α := ℚ) count)] at rounded
  have divided : |divide (ofNat count) denominator * denominator - ofNat count| ≤
      |ofNat count| / 2 ^ 53 := abs_divide_mul_sub_le positive
  have none_below : (0 : ℚ) ≤ count := Nat.cast_nonneg count
  have size : |ofNat count| ≤ 2 * count := by
    have bounds := abs_le.mp converted
    rw [abs_le]
    constructor <;> linarith
  have total := abs_sub_le (divide (ofNat count) denominator * denominator) (ofNat count) count
  linarith

end Double
