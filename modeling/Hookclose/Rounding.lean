import Mathlib.Data.Rat.Floor
import Mathlib.Algebra.Ring.Int.Parity

/-!
Rounding to the nearest integer with ties to the even neighbour, the rounding
that the interpreter applies to exact values.
-/
namespace Hookclose.Rounding

/-- The integer nearest to `x`, the even one of the two where `x` lies halfway. -/
def roundHalfEven (x : ℚ) : Int :=
  let below := ⌊x⌋
  let part := x - below
  if part < 1/2 then below
  else if 1/2 < part then below + 1
  else if below % 2 = 0 then below else below + 1

@[simp] theorem roundHalfEven_intCast (n : Int) : roundHalfEven n = n := by
  simp [roundHalfEven]

/-- What the rounded value is at most: the boundary itself goes to the even side. -/
theorem roundHalfEven_le_iff (x : ℚ) (k : Int) :
    roundHalfEven x ≤ k ↔ x < k + 1/2 ∨ (x = k + 1/2 ∧ k % 2 = 0) := by
  have below := Int.floor_le x
  have above := Int.lt_floor_add_one x
  simp only [roundHalfEven]
  rcases lt_trichotomy ⌊x⌋ k with less | same | more
  · have further : (⌊x⌋ : ℚ) + 1 ≤ k := by exact_mod_cast less
    have left : x < k + 1/2 := by linarith
    simp only [left,true_or,iff_true]
    split_ifs <;> omega
  · rw [same] at below above ⊢
    split_ifs with low high even
    · simp only [le_refl,true_iff]
      exact .inl (by linarith)
    · constructor
      · intro contrary
        omega
      · rintro (left | ⟨boundary,_⟩) <;> linarith
    · have boundary : x = k + 1/2 := by linarith
      simp [boundary,even]
    · have boundary : x = k + 1/2 := by linarith
      simp [boundary,even]
  · have further : (k : ℚ) + 1 ≤ ⌊x⌋ := by exact_mod_cast more
    constructor
    · intro contrary
      exfalso
      split_ifs at contrary <;> omega
    · rintro (left | ⟨boundary,_⟩) <;> linarith

theorem roundHalfEven_mono {x y : ℚ} (ordered : x ≤ y) : roundHalfEven x ≤ roundHalfEven y := by
  rcases (roundHalfEven_le_iff y (roundHalfEven y)).mp le_rfl with left | ⟨boundary,even⟩
  · exact (roundHalfEven_le_iff x _).mpr (.inl (ordered.trans_lt left))
  · rw [roundHalfEven_le_iff]
    rcases ordered.lt_or_eq with less | same
    · exact .inl (boundary ▸ less)
    · exact .inr ⟨same.trans boundary,even⟩

/-- Two values are told apart by a boundary between them. -/
theorem roundHalfEven_lt_iff (x y : ℚ) : roundHalfEven x < roundHalfEven y ↔
    ∃ k : Int, (x < k + 1/2 ∨ (x = k + 1/2 ∧ k % 2 = 0)) ∧ (k + 1/2 < y ∨ (y = k + 1/2 ∧ k % 2 ≠ 0)) := by
  have beyond : ∀ k : Int, k < roundHalfEven y ↔ (k : ℚ) + 1/2 < y ∨ (y = k + 1/2 ∧ k % 2 ≠ 0) := by
    intro k
    rw [← not_le,roundHalfEven_le_iff,not_or,not_lt,not_and]
    constructor
    · rintro ⟨right,odd⟩
      rcases right.lt_or_eq with strict | same
      · exact .inl strict
      · exact .inr ⟨same.symm,odd same.symm⟩
    · rintro (strict | ⟨same,odd⟩)
      · exact ⟨strict.le,fun contrary => absurd contrary strict.ne'⟩
      · exact ⟨same.ge,fun _ => odd⟩
  constructor
  · intro less
    exact ⟨roundHalfEven x,(roundHalfEven_le_iff x _).mp le_rfl,(beyond _).mp less⟩
  · rintro ⟨k,left,right⟩
    exact ((roundHalfEven_le_iff x k).mpr left).trans_lt ((beyond k).mpr right)

theorem roundHalfEven_le_half (x : ℚ) : (roundHalfEven x : ℚ) ≤ x + 1/2 := by
  have right : ¬ roundHalfEven x ≤ roundHalfEven x - 1 := by omega
  rw [roundHalfEven_le_iff] at right
  push Not at right
  push_cast at right
  linarith [right.1]

theorem le_roundHalfEven_half (x : ℚ) : x ≤ roundHalfEven x + 1/2 := by
  rcases (roundHalfEven_le_iff x (roundHalfEven x)).mp le_rfl with left | ⟨boundary,_⟩
  · exact left.le
  · exact boundary.le

/-- No integer is nearer. -/
theorem roundHalfEven_nearest (x : ℚ) (n : Int) : |x - roundHalfEven x| ≤ |x - n| := by
  have upper := roundHalfEven_le_half x
  have lower := le_roundHalfEven_half x
  have half : |x - roundHalfEven x| ≤ 1/2 := abs_le.mpr ⟨by linarith,by linarith⟩
  rcases lt_trichotomy n (roundHalfEven x) with less | same | more
  · have apart : (n : ℚ) + 1 ≤ roundHalfEven x := by exact_mod_cast less
    exact half.trans ((by linarith : 1/2 ≤ x - n).trans (le_abs_self _))
  · rw [same]
  · have apart : (roundHalfEven x : ℚ) + 1 ≤ n := by exact_mod_cast more
    exact half.trans ((by linarith : 1/2 ≤ -(x - n)).trans (neg_le_abs _))

/-- Values more than one apart stay apart. -/
theorem roundHalfEven_lt {x y : ℚ} (apart : x + 1 < y) : roundHalfEven x < roundHalfEven y := by
  have lower := roundHalfEven_le_half x
  have upper := le_roundHalfEven_half y
  have rounded : (roundHalfEven x : ℚ) < roundHalfEven y := by linarith
  exact_mod_cast rounded

end Hookclose.Rounding
