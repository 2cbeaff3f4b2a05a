import Mathlib.Data.Finset.Card

/-!
How many things have a property, where only finitely many do. A property that is part of
a counted one is counted (`Counted.part`), and where a property changes at one thing only,
its count changes by one at most (`Counted.moved`).
-/
namespace Hookclose.Census
universe u
variable {α : Type u} {P Q : α → Prop} {count : Nat}

/-- Just so many things have the property. -/
def Counted (P : α → Prop) (count : Nat) : Prop :=
  ∃ members : Finset α, (∀ x, x ∈ members ↔ P x) ∧ members.card = count

theorem counted_none (none : ∀ x, ¬ P x) : Counted P 0 := by
  refine ⟨∅,?_,rfl⟩
  intro x
  simp [none x]

/-- A property that is part of a counted one is counted. -/
theorem Counted.part [DecidablePred Q] (counted : Counted P count) (within : ∀ x, Q x → P x) :
    ∃ part, Counted Q part ∧ part ≤ count := by
  obtain ⟨members,listed,rfl⟩ := counted
  refine ⟨_,⟨members.filter Q,?_,rfl⟩,Finset.card_filter_le members Q⟩
  intro x
  rw [Finset.mem_filter,listed]
  exact ⟨fun both => both.2,fun holds => ⟨within x holds,holds⟩⟩

/-- No more numbers than there are below a bound have a property that none beyond it has. -/
theorem counted_below {P : Nat → Prop} [DecidablePred P] {bound : Nat} (below : ∀ n, P n → n < bound) :
    ∃ count, Counted P count ∧ count ≤ bound := by
  have range : Counted (fun n => n < bound) bound := ⟨Finset.range bound,by simp,Finset.card_range bound⟩
  exact range.part below

/-- A property that changes at one thing only. -/
theorem Counted.moved [DecidableEq α] (counted : Counted P count) {x : α} [Decidable (P x)] [Decidable (Q x)]
    (others : ∀ y, y ≠ x → (Q y ↔ P y)) :
    ∃ after, Counted Q after ∧ after + (if P x then 1 else 0) = count + (if Q x then 1 else 0) := by
  obtain ⟨members,listed,rfl⟩ := counted
  by_cases before : P x
  · have member : x ∈ members := (listed x).mpr before
    by_cases after : Q x
    · refine ⟨members.card,⟨members,?_,rfl⟩,by simp [before,after]⟩
      intro y
      by_cases same : y = x
      · subst same
        exact iff_of_true member after
      · rw [listed,others y same]
    · refine ⟨_,⟨members.erase x,?_,rfl⟩,?_⟩
      · intro y
        by_cases same : y = x
        · subst same
          simp [after]
        · simp [same,listed,others y same]
      · simp only [if_pos before,if_neg after]
        exact Finset.card_erase_add_one member
  · have absent : x ∉ members := fun member => before ((listed x).mp member)
    by_cases after : Q x
    · refine ⟨_,⟨insert x members,?_,rfl⟩,?_⟩
      · intro y
        by_cases same : y = x
        · subst same
          simp [after]
        · simp [same,listed,others y same]
      · simp only [if_neg before,if_pos after]
        exact Finset.card_insert_of_notMem absent
    · refine ⟨members.card,⟨members,?_,rfl⟩,by simp [before,after]⟩
      intro y
      by_cases same : y = x
      · subst same
        exact iff_of_false absent after
      · rw [listed,others y same]

end Hookclose.Census
