import Hookclose.Rounding
import Mathlib.Algebra.Order.Field.Rat
import Mathlib.Data.Nat.Prime.Int
import Mathlib.Tactic.FieldSimp
import Mathlib.Tactic.LinearCombination
import Mathlib.Tactic.Linarith
import Mathlib.Tactic.NormNum.Prime

/-!
Arithmetic that rounds each exact result to the nearest binary fraction of a format. What is
used of a format is that nothing it holds is nearer to the exact value, and that it holds 0 and
1 (`Rounds`). So rounding respects the order (`Steady`); and decimals to six places are held apart, since
no two binary fractions differ by just a millionth (`Rounds.millionths_lt`).
-/
namespace Hookclose.BinaryRounding
open Hookclose.Rounding

/-- A rounding that respects the order and holds 0 and 1. -/
structure Steady (fl : ℚ → ℚ) : Prop where
  monotone : Monotone fl
  zero : fl 0 = 0
  one : fl 1 = 1

/-- Exact arithmetic. -/
theorem steady_id : Steady id := ⟨monotone_id,rfl,rfl⟩

/-- The values of `fl` are binary fractions, 0 and 1 among them, and none of them is nearer to a
    number than what it is rounded to. -/
structure Rounds (fl : ℚ → ℚ) : Prop where
  nearest : ∀ x y, |x - fl x| ≤ |x - fl y|
  binary : ∀ x, ∃ (n : Int) (k : Nat), fl x * 2 ^ k = n
  zero : fl 0 = 0
  one : fl 1 = 1

section
variable {fl : ℚ → ℚ} {x y : ℚ}

theorem Rounds.monotone (rounds : Rounds fl) : Monotone fl := by
  intro x y ordered
  by_contra crossed
  rw [not_le] at crossed
  rcases ordered.lt_or_eq with less | same
  · -- each of the two is at least as near to its own value as to the other's
    have left := sq_le_sq.mpr (rounds.nearest x y)
    have right := sq_le_sq.mpr (rounds.nearest y x)
    nlinarith
  · rw [same] at crossed
    exact lt_irrefl _ crossed

theorem Rounds.steady (rounds : Rounds fl) : Steady fl := ⟨rounds.monotone,rounds.zero,rounds.one⟩

theorem Steady.nonneg (steady : Steady fl) (positive : 0 ≤ x) : 0 ≤ fl x := by
  rw [← steady.zero]
  exact steady.monotone positive

theorem Steady.le_one (steady : Steady fl) (small : x ≤ 1) : fl x ≤ 1 := by
  rw [← steady.one]
  exact steady.monotone small

/-- Binary fractions do not differ by a millionth. -/
theorem Rounds.gap (rounds : Rounds fl) (x y : ℚ) : fl x - fl y ≠ 1/1000000 := by
  intro gap
  obtain ⟨n,k,first⟩ := rounds.binary x
  obtain ⟨m,l,second⟩ := rounds.binary y
  have scaled : (1000000 * (n * 2 ^ l - m * 2 ^ k) : ℚ) = 2 ^ k * 2 ^ l := by
    rw [← first,← second]
    linear_combination 1000000 * 2 ^ k * 2 ^ l * gap
  have whole : (1000000 * (n * 2 ^ l - m * 2 ^ k) : Int) = 2 ^ (k + l) := by
    rw [pow_add]
    exact_mod_cast scaled
  have five : (5 : Int) ∣ 2 ^ (k + l) := by
    rw [← whole]
    exact Dvd.dvd.mul_right (by norm_num) _
  have prime : Prime (5 : Int) := Nat.prime_iff_prime_int.mp (by norm_num)
  have divides := prime.dvd_of_dvd_pow five
  omega

/-- Held values that are rounded to different millionths stay in order as held values. -/
theorem Rounds.millionths_lt (rounds : Rounds fl)
    (less : roundHalfEven (fl x * 1000000) < roundHalfEven (fl y * 1000000)) :
    fl (roundHalfEven (fl x * 1000000) / 1000000) < fl (roundHalfEven (fl y * 1000000) / 1000000) := by
  have xUpper := roundHalfEven_le_half (fl x * 1000000)
  have xLower := le_roundHalfEven_half (fl x * 1000000)
  have yUpper := roundHalfEven_le_half (fl y * 1000000)
  have yLower := le_roundHalfEven_half (fl y * 1000000)
  have below : fl x < fl y := by
    by_contra above
    exact absurd less (not_lt.mpr (roundHalfEven_mono (by linarith)))
  have step : (roundHalfEven (fl x * 1000000) : ℚ) + 1 ≤ roundHalfEven (fl y * 1000000) := by exact_mod_cast less
  generalize (roundHalfEven (fl x * 1000000) : ℚ) = m at *
  generalize (roundHalfEven (fl y * 1000000) : ℚ) = n at *
  by_contra merged
  have same : fl (n / 1000000) = fl (m / 1000000) :=
    le_antisymm (not_lt.mp merged) (rounds.monotone (by linarith))
  have first := rounds.nearest (m / 1000000) x
  have second := rounds.nearest (n / 1000000) y
  have low := rounds.gap (m / 1000000) x
  have high := rounds.gap y (n / 1000000)
  rw [same] at second high
  -- both decimals would be half a millionth from one value, and so would the values they round
  have near : |m / 1000000 - fl x| ≤ 1/2000000 := abs_le.mpr ⟨by linarith,by linarith⟩
  have far : |n / 1000000 - fl y| ≤ 1/2000000 := abs_le.mpr ⟨by linarith,by linarith⟩
  have left := (abs_le.mp (first.trans near)).1
  have right := (abs_le.mp (second.trans far)).2
  have middle : fl (m / 1000000) = m / 1000000 + 1/2000000 := by linarith
  have other : fl (m / 1000000) = n / 1000000 - 1/2000000 := by linarith
  rw [middle] at first
  rw [other] at second
  have apart : |m / 1000000 - (m / 1000000 + 1/2000000)| = 1/2000000 := by
    rw [sub_add_cancel_left,abs_neg,abs_of_pos (by norm_num)]
  have distant : |n / 1000000 - (n / 1000000 - 1/2000000)| = 1/2000000 := by
    rw [sub_sub_cancel,abs_of_pos (by norm_num)]
  rw [apart] at first
  rw [distant] at second
  rcases le_abs.mp first with under | above
  · exact low (by linarith)
  · rcases le_abs.mp second with below | beyond
    · linarith
    · exact high (by linarith)

end

end Hookclose.BinaryRounding
