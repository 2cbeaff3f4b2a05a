import Hookclose.BinaryRounding
import Mathlib.Data.Int.Log

/-!
The doubles as a rounding of exact values: 53 binary digits, fewer below the normal range. Where
the range ends is left to the caller, since exact values have no bound.
-/
namespace Hookclose.Doubles
open Hookclose.Rounding Hookclose.BinaryRounding

/-- The binary places of the doubles around a value. -/
def scale (x : ℚ) : Int := max (Int.log 2 |x| - 52) (-1074)

/-- The distance between the doubles around a value. -/
def unit (x : ℚ) : ℚ := 2 ^ scale x

/-- The double nearest to a value, the even one of the two where it lies halfway. -/
def double (x : ℚ) : ℚ := roundHalfEven (x / unit x) * unit x

section
variable {x y : ℚ}

theorem unit_pos (x : ℚ) : 0 < unit x := zpow_pos two_pos _

theorem pow_scale {n : Int} (coarser : scale x ≤ n) : ∃ k : Nat, (2 : ℚ) ^ n = 2 ^ k * unit x := by
  obtain ⟨k,distance⟩ := Int.le.dest coarser
  refine ⟨k,?_⟩
  rw [unit,← distance,zpow_add₀ (by norm_num),zpow_natCast,mul_comm]

/-- No multiple of the unit is nearer than the double. -/
theorem double_nearest (x : ℚ) (n : Int) : |x - double x| ≤ |x - n * unit x| := by
  have positive := unit_pos x
  have scaled : ∀ m : ℚ, |x - m * unit x| = |x / unit x - m| * unit x := by
    intro m
    rw [← abs_of_pos positive,← abs_mul,abs_of_pos positive,sub_mul,div_mul_cancel₀ _ positive.ne']
  rw [double,scaled,scaled]
  exact mul_le_mul_of_nonneg_right (roundHalfEven_nearest _ n) positive.le

/-- A double that is at least as coarse is a multiple of the unit. -/
theorem multiple_of_scale_le (coarser : scale x ≤ scale y) : ∃ n : Int, double y = n * unit x := by
  obtain ⟨k,power⟩ := pow_scale coarser
  refine ⟨roundHalfEven (y / unit y) * 2 ^ k,?_⟩
  push_cast
  rw [double,unit,power,mul_assoc]

/-- A double is no larger than a power of two that its value is no larger than. -/
theorem double_le_pow {n : Int} (coarser : scale y ≤ n) (bounded : |y| ≤ 2 ^ n) : |double y| ≤ 2 ^ n := by
  have positive := unit_pos y
  obtain ⟨k,power⟩ := pow_scale coarser
  rw [power] at bounded ⊢
  obtain ⟨left,right⟩ := abs_le.mp bounded
  have below : roundHalfEven (y / unit y) ≤ roundHalfEven ((2 ^ k : Int) : ℚ) := by
    apply roundHalfEven_mono
    rw [div_le_iff₀ positive]
    exact_mod_cast right
  have above : roundHalfEven ((-2 ^ k : Int) : ℚ) ≤ roundHalfEven (y / unit y) := by
    apply roundHalfEven_mono
    rw [le_div_iff₀ positive]
    push_cast
    linarith
  rw [roundHalfEven_intCast] at below above
  rw [double,abs_mul,abs_of_pos positive]
  apply mul_le_mul_of_nonneg_right _ positive.le
  exact_mod_cast abs_le.mpr ⟨above,below⟩

/-- Around values of a finer unit the doubles are no larger than the leading digit. -/
theorem small_of_scale_lt (finer : scale y < scale x) : |double y| ≤ 2 ^ Int.log 2 |x| := by
  unfold scale at finer
  apply double_le_pow
  · unfold scale
    omega
  · have bound := Int.lt_zpow_succ_log_self one_lt_two |y|
    push_cast at bound
    exact bound.le.trans (zpow_le_zpow_right₀ one_le_two (by omega))

/-- The double is nearer than what is no larger than the leading digit. -/
theorem double_near_of_small (nonzero : x ≠ 0) (normal : -1074 ≤ Int.log 2 |x| - 52) {z : ℚ}
    (small : |z| ≤ 2 ^ Int.log 2 |x|) : |x - double x| ≤ |x - z| := by
  have leading : (2 : ℚ) ^ Int.log 2 |x| ≤ |x| := by
    exact_mod_cast Int.zpow_log_le_self one_lt_two (abs_pos.mpr nonzero)
  have coarser : scale x ≤ Int.log 2 |x| := by
    unfold scale
    omega
  obtain ⟨k,power⟩ := pow_scale coarser
  rw [power] at leading small
  obtain ⟨left,right⟩ := abs_le.mp small
  rcases le_total 0 x with positive | negative
  · rw [abs_of_nonneg positive] at leading
    have near := double_nearest x (2 ^ k)
    push_cast at near
    rw [abs_of_nonneg (by linarith : 0 ≤ x - 2 ^ k * unit x)] at near
    exact near.trans (by rw [abs_of_nonneg (by linarith)]; linarith)
  · rw [abs_of_nonpos negative] at leading
    have near := double_nearest x (-2 ^ k)
    push_cast at near
    rw [abs_of_nonpos (by linarith : x - -2 ^ k * unit x ≤ 0)] at near
    exact near.trans (by rw [abs_of_nonpos (by linarith)]; linarith)

/-- Doubles round. -/
theorem double_rounds : Rounds double where
  nearest x y := by
    rcases le_or_gt (scale x) (scale y) with coarser | finer
    · obtain ⟨n,multiple⟩ := multiple_of_scale_le coarser
      rw [multiple]
      exact double_nearest x n
    · by_cases zero : x = 0
      · subst zero
        simp [double,roundHalfEven]
      · have normal : -1074 ≤ Int.log 2 |x| - 52 := by
          unfold scale at finer
          omega
        exact double_near_of_small zero normal (small_of_scale_lt finer)
  binary x := by
    refine ⟨roundHalfEven (x / unit x) * 2 ^ (scale x).toNat,(-scale x).toNat,?_⟩
    have split : unit x * 2 ^ (-scale x).toNat = 2 ^ (scale x).toNat := by
      rw [unit,← zpow_natCast,← zpow_natCast,← zpow_add₀ (by norm_num)]
      congr 1
      omega
    push_cast
    rw [double,mul_assoc,split]
  zero := by decide +kernel
  one := by decide +kernel

end
end Hookclose.Doubles
