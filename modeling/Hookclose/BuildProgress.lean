import Hookclose.RuntimeStates
import Hookclose.Runs
import Mathlib.Data.List.Induction

/-!
The progress of a build. Completing a prompt clears its failure, but a failure that is
recorded later leaves the completion in place: the two lists stay apart exactly when no
prompt is marked as failed after it was marked as completed.
-/
namespace Hookclose.BuildProgress
open Hookclose.Rankings Hookclose.Runs Hookclose.RuntimeStates Hookclose.RuntimeStates.RuntimeState

/-- A call that changes the state. -/
inductive Mark
  | completed (prompt : Int)
  | failed (prompt : Int)
  | moved (phase : RuntimePhase)

def advance (state : RuntimeState) : Mark → RuntimeState
  | .completed prompt => state.markCompleted prompt
  | .failed prompt => state.markFailed prompt
  | .moved phase => state.transition phase

/-- Both lists are sets in order, no prompt is in both, and the pointer is beyond every
    completed prompt. -/
structure Consistent (state : RuntimeState) : Prop where
  completed : state.completedPrompts.Pairwise (fun first second => first < second)
  failed : state.failedPrompts.Pairwise (fun first second => first < second)
  apart : ∀ prompt ∈ state.completedPrompts, prompt ∉ state.failedPrompts
  ahead : ∀ prompt ∈ state.completedPrompts, prompt < state.currentPrompt

/-- The call does not move the pointer back, and the same call once more changes nothing. -/
def Settles (state : RuntimeState) (mark : Mark) : Prop :=
  state.currentPrompt ≤ (advance state mark).currentPrompt ∧ advance (advance state mark) mark = advance state mark

/-- The call is no failure of a completed prompt. -/
def KeepsCompleted (state : RuntimeState) (mark : Mark) : Prop :=
  ∀ prompt, mark = .failed prompt → prompt ∉ state.completedPrompts

/-- The call is no failure of a prompt that was marked as completed before. -/
def NotUndone (before : List Mark) (mark : Mark) : Prop := ∀ prompt, mark = .failed prompt → .completed prompt ∉ before

section
variable {state : RuntimeState} {mark : Mark}

theorem settles (state : RuntimeState) (mark : Mark) : Settles state mark := by
  cases mark with
  | completed prompt =>
    refine ⟨le_max_left _ _,?_⟩
    have again := sortedSet_concat (sortedSet_sorted (state.completedPrompts ++ [prompt]))
      (mem_sortedSet.mpr (List.mem_append_right _ (List.mem_singleton_self prompt)))
    simp [advance,markCompleted,again]
  | failed prompt =>
    refine ⟨le_refl _,?_⟩
    have again := sortedSet_concat (sortedSet_sorted (state.failedPrompts ++ [prompt]))
      (mem_sortedSet.mpr (List.mem_append_right _ (List.mem_singleton_self prompt)))
    simp [advance,markFailed,again]
  | moved phase => exact ⟨le_refl _,rfl⟩

/-- A call that undoes no completion keeps the state consistent. -/
theorem advance_consistent (consistent : Consistent state) (kept : KeepsCompleted state mark) :
    Consistent (advance state mark) := by
  cases mark with
  | completed prompt =>
    refine ⟨(sortedSet_sorted _).pairwise,consistent.failed.filter _,?_,?_⟩
    · intro other completed failed
      obtain ⟨earlier,differs⟩ := List.mem_filter.mp failed
      rcases List.mem_append.mp (mem_sortedSet.mp completed) with before | now
      · exact consistent.apart other before earlier
      · simp [List.mem_singleton.mp now] at differs
    · intro other completed
      rcases List.mem_append.mp (mem_sortedSet.mp completed) with before | now
      · exact lt_max_of_lt_left (consistent.ahead other before)
      · rw [List.mem_singleton.mp now]
        exact lt_max_of_lt_right (Int.lt_succ prompt)
  | failed prompt =>
    refine ⟨consistent.completed,(sortedSet_sorted _).pairwise,?_,consistent.ahead⟩
    intro other completed failed
    rcases List.mem_append.mp (mem_sortedSet.mp failed) with before | now
    · exact consistent.apart other completed before
    · exact kept prompt rfl (List.mem_singleton.mp now ▸ completed)
  | moved phase => exact ⟨consistent.completed,consistent.failed,consistent.apart,consistent.ahead⟩

/-- A completed prompt that is marked as failed is in both lists. -/
theorem advance_both {prompt : Int} (completed : prompt ∈ state.completedPrompts) :
    ¬ Consistent (advance state (.failed prompt)) := by
  intro consistent
  exact consistent.apart prompt completed (mem_sortedSet.mpr (List.mem_append_right _ (List.mem_singleton_self prompt)))

/-- The completed prompts are those that were marked. -/
theorem run_completed (marks : List Mark) (prompt : Int) :
    prompt ∈ (run advance ({} : RuntimeState) marks).completedPrompts ↔ .completed prompt ∈ marks := by
  induction marks using List.reverseRecOn with
  | nil => simp
  | append_singleton marks mark ih =>
    rw [run_concat,List.mem_append,List.mem_singleton,← ih]
    cases mark with
    | completed other => simp [advance,markCompleted,eq_comm]
    | failed other => simp [advance,markFailed]
    | moved phase => simp [advance,transition]

theorem default_consistent : Consistent {} := by
  refine ⟨.nil,.nil,?_,?_⟩
  · intro prompt member
    cases member
  · intro prompt member
    cases member

end

/-- The progress is consistent throughout, exactly when no prompt is marked as failed after
    it was marked as completed. -/
theorem progress_iff (marks : List Mark) :
    (Always advance Consistent {} marks ∧ Each advance Settles {} marks) ↔ Throughout NotUndone marks := by
  have agree : ∀ before mark, KeepsCompleted (run advance {} before) mark ↔ NotUndone before mark := by
    intro before mark
    unfold KeepsCompleted NotUndone
    simp only [run_completed]
  have settled : Each advance Settles {} marks := fun _ _ _ => settles _ _
  rw [← each_iff_throughout agree,and_iff_left settled]
  refine always_iff_each Consistent (fun _ consistent => consistent)
    (fun _ _ consistent kept => advance_consistent consistent kept) ?_ default_consistent
  intro state mark _ undone
  unfold KeepsCompleted at undone
  push Not at undone
  obtain ⟨prompt,rfl,completed⟩ := undone
  exact advance_both completed

theorem completed_then_failed :
    ¬ (Always advance Consistent {} [.completed 1,.failed 1] ∧ Each advance Settles {} [.completed 1,.failed 1]) := by
  rintro ⟨always,_⟩
  have completed : (1 : Int) ∈ (advance {} (.completed 1)).completedPrompts := by decide
  exact advance_both completed always.last

end Hookclose.BuildProgress
