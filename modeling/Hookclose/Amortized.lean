import Hookclose.Runs
import Mathlib.Algebra.BigOperators.Group.List.Basic
import Mathlib.Algebra.Ring.Nat
import Mathlib.Logic.Function.Basic

/-!
Amortized costs of a run. Each state has savings; a step is paid from them and from what its
input brings in, and the rest is left to the next state. So the steps of a run cost no more
than the first state had saved and the inputs brought in (`total_paid`). Savings are often a
bill over keys, of which a step changes one entry (`bill_update`) or adds one (`bill_concat`).
-/
namespace Hookclose.Amortized
open Hookclose.Runs
universe u v
variable {State : Type u} {Input : Type v} {step : State → Input → State}

/-! ### Runs -/

/-- What the steps of a run cost in all. -/
def total (step : State → Input → State) (cost : State → Input → Nat) : State → List Input → Nat
  | _,[] => 0
  | start,input :: inputs => cost start input + total step cost (step start input) inputs

/-- Where each step that is met is paid, the run is. -/
theorem total_paid {Saved : State → Nat → Prop} {Meets : State → Input → Prop} {cost : State → Input → Nat}
    {gain : Input → Nat}
    (pays : ∀ s input savings, Saved s savings → Meets s input →
      ∃ left, Saved (step s input) left ∧ cost s input + left ≤ gain input + savings)
    (inputs : List Input) {start : State} {savings : Nat} (saved : Saved start savings) (meets : Each step Meets start inputs) :
    ∃ left, Saved (run step start inputs) left ∧
      total step cost start inputs + left ≤ (inputs.map gain).sum + savings := by
  induction inputs generalizing start savings with
  | nil => exact ⟨savings,saved,by simp [total]⟩
  | cons input inputs ih =>
    obtain ⟨met,later⟩ := each_cons.mp meets
    obtain ⟨between,kept,paid⟩ := pays start input savings saved met
    obtain ⟨left,ends,rest⟩ := ih kept later
    refine ⟨left,ends,?_⟩
    simp only [total,List.map_cons,List.sum_cons]
    omega

/-! ### Bills -/

section
variable {Key : Type u} {costs : Key → Nat} {keys : List Key}

/-- What the keys cost in all. -/
def bill (costs : Key → Nat) (keys : List Key) : Nat := (keys.map costs).sum

theorem bill_congr {others : Key → Nat} (same : ∀ key ∈ keys, others key = costs key) : bill others keys = bill costs keys := by
  rw [bill,bill,List.map_congr_left same]

theorem bill_concat (key : Key) : bill costs (keys ++ [key]) = bill costs keys + costs key := by
  simp [bill]

/-- One entry of a bill is replaced. -/
theorem bill_update [DecidableEq Key] (distinct : keys.Nodup) {key : Key} (listed : key ∈ keys) (cost : Nat) :
    bill (Function.update costs key cost) keys + costs key = bill costs keys + cost := by
  induction keys with
  | nil => cases listed
  | cons first rest ih =>
    rw [List.nodup_cons] at distinct
    obtain ⟨absent,distinct⟩ := distinct
    by_cases same : first = key
    · subst same
      have kept : bill (Function.update costs first cost) rest = bill costs rest := by
        refine bill_congr ?_
        intro other member
        refine Function.update_of_ne ?_ _ _
        rintro rfl
        exact absent member
      simp only [bill,List.map_cons,List.sum_cons,Function.update_self] at kept ⊢
      omega
    · have later := ih distinct ((List.mem_cons.mp listed).resolve_left (Ne.symm same))
      simp only [bill,List.map_cons,List.sum_cons,Function.update_of_ne same] at later ⊢
      omega

end

end Hookclose.Amortized
