import Hookclose.Runs
import Mathlib.Data.List.Induction
import Mathlib.Data.List.Nodup
import Mathlib.Data.List.Perm.Subperm

/-!
A line that waits on a stack. Items come in an order; each is put on top of those that
wait, and the one on top is served next. They are served in the order in which they come
as long as none is put on top of another (`shifts_inLine`); one that is overtakes the item
below it, and stays ahead of it whatever follows (`put_overtakes`, `shifts_overtaken`).
-/
namespace Hookclose.StackedLine
open Hookclose.Runs
universe u
variable {α : Type u}

/-- What has been served, what waits with the top first, and what is still to come. -/
structure Line (α : Type u) where
  served : List α
  waiting : List α
  coming : List α

inductive Shifts : Line α → Line α → Prop
  | stay (line : Line α) : Shifts line line
  | put (served waiting coming : List α) (item : α) :
      Shifts ⟨served,waiting,item :: coming⟩ ⟨served,item :: waiting,coming⟩
  | serve (served waiting coming : List α) (item : α) :
      Shifts ⟨served,item :: waiting,coming⟩ ⟨served ++ [item],waiting,coming⟩

/-- Each item that the order has before one is among the earlier. -/
def Precedes (order : List α) (earlier : List α) (item : α) : Prop :=
  ∀ first, [first,item].Sublist order → first ∈ earlier

/-- The items in the order in which they will be served if nothing else comes in between. -/
def Line.whole (line : Line α) : List α := line.served ++ line.waiting ++ line.coming

def InLine (order : List α) (line : Line α) : Prop := line.whole = order

/-- A later item has been served or waits above an earlier one. -/
def Overtaken (earlier later : α) (line : Line α) : Prop := [later,earlier].Sublist (line.served ++ line.waiting)

theorem shifts_perm {before after : Line α} (shifts : Shifts before after) : after.whole.Perm before.whole := by
  cases shifts with
  | stay => exact List.Perm.refl _
  | put served waiting coming item =>
    simp only [Line.whole,List.append_assoc]
    exact (List.perm_middle.symm).append_left served
  | serve served waiting coming item => simp [Line.whole]

/-- Putting an item where nothing waits keeps the line in order. -/
theorem shifts_inLine {order : List α} {before after : Line α} (shifts : Shifts before after)
    (inLine : InLine order before)
    (alone : after.coming ≠ before.coming → before.waiting = []) : InLine order after := by
  cases shifts with
  | stay => exact inLine
  | put served waiting coming item =>
    have free : waiting = [] := alone (by simp)
    subst free
    simpa [InLine,Line.whole] using inLine
  | serve served waiting coming item => simpa [InLine,Line.whole] using inLine

theorem shifts_overtaken {earlier later : α} {before after : Line α} (shifts : Shifts before after)
    (overtaken : Overtaken earlier later before) : Overtaken earlier later after := by
  cases shifts with
  | stay => exact overtaken
  | put served waiting coming item => exact overtaken.trans ((List.sublist_cons_self item waiting).append_left served)
  | serve served waiting coming item => simpa [Overtaken] using overtaken

/-- An item that is put on top of another overtakes it. -/
theorem put_overtakes {order served waiting coming : List α} {item : α}
    (inLine : InLine order ⟨served,waiting,item :: coming⟩) (occupied : waiting ≠ []) :
    ∃ first, [first,item].Sublist order ∧ Overtaken first item ⟨served,item :: waiting,coming⟩ := by
  obtain ⟨first,rest,rfl⟩ := List.exists_cons_of_ne_nil occupied
  refine ⟨first,?_,?_⟩
  · rw [← inLine]
    simp only [Line.whole,List.append_assoc,List.cons_append]
    refine List.Sublist.trans ?_ (List.sublist_append_right served _)
    exact List.Sublist.cons_cons first (by simp)
  · refine List.Sublist.trans ?_ (List.sublist_append_right served _)
    exact List.Sublist.cons_cons item (by simp)

/-! ### Histories of distinct items -/

/-- A sublist of distinct items is those of them that it has. -/
theorem filter_mem [DecidableEq α] {part whole : List α} (distinct : whole.Nodup) (within : part.Sublist whole) :
    whole.filter (fun item => item ∈ part) = part := by
  have kept : part.Sublist (whole.filter (fun item => item ∈ part)) := by
    have filtered := within.filter (fun item => decide (item ∈ part))
    have all : part.filter (fun item => decide (item ∈ part)) = part := List.filter_eq_self.mpr (by simp)
    rwa [all] at filtered
  refine (kept.eq_of_length_le ?_).symm
  refine ((distinct.filter _).subperm ?_).length_le
  intro item member
  simpa using (List.mem_filter.mp member).2

/-- Items outside the order do not matter. -/
theorem throughout_filter [DecidableEq α] {order items : List α} :
    Throughout (Precedes order) (items.filter (fun item => item ∈ order)) ↔ Throughout (Precedes order) items := by
  induction items using List.reverseRecOn with
  | nil => simp [throughout_nil]
  | append_singleton items item ih =>
    by_cases member : item ∈ order
    · have last : Precedes order (items.filter (fun item => item ∈ order)) item ↔ Precedes order items item := by
        refine forall_congr' fun first => forall_congr' fun pair => ?_
        have listed : first ∈ order := pair.subset List.mem_cons_self
        simp [listed]
      simp [List.filter_append,member,throughout_concat,ih,last]
    · have last : Precedes order items item := fun first pair => absurd (pair.subset (by simp)) member
      simp [List.filter_append,member,throughout_concat,ih,last]

theorem throughout_prefix {InOrder : List α → α → Prop} {done whole : List α} (within : done <+: whole)
    (all : Throughout InOrder whole) : Throughout InOrder done := by
  obtain ⟨more,rfl⟩ := within
  intro before item after split
  exact all before item (after ++ more) (by simp [split])

/-- Distinct items are in the order in which they are listed. -/
theorem precedes_self {order : List α} (distinct : order.Nodup) : Throughout (Precedes order) order := by
  rintro before item after rfl first pair
  have single : item ∉ after := (List.nodup_cons.mp (List.nodup_append.mp distinct).2.1).1
  obtain ⟨front,back,split,inBefore,inAfter⟩ := List.sublist_append_iff.mp pair
  cases front with
  | cons head tail =>
    obtain ⟨rfl,_⟩ := List.cons.inj split
    exact inBefore.subset List.mem_cons_self
  | nil =>
    -- the pair would lie after the items before, where its second is only at the front
    rw [List.nil_append] at split
    subst split
    cases inAfter with
    | cons _ later => exact absurd (later.subset (by simp)) single
    | cons_cons _ later => exact absurd (later.subset (by simp)) single

/-- What is served of a line in order is served in order. -/
theorem served_precedes {order done : List α} {line : Line α} (distinct : order.Nodup) (inLine : InLine order line)
    (within : done <+: line.served) : Throughout (Precedes order) done := by
  have whole : done <+: order := by
    rw [← inLine,Line.whole,List.append_assoc]
    exact within.trans (List.prefix_append _ _)
  exact throughout_prefix whole (precedes_self distinct)

/-- Where everything has been served and one item has overtaken another, the order is broken. -/
theorem overtaken_breaks {order done : List α} {line : Line α} {earlier later : α} (distinct : order.Nodup)
    (content : line.whole.Perm order) (within : done <+: line.served) (all : ∀ item ∈ order, item ∈ done)
    (listed : [earlier,later].Sublist order) (overtaken : Overtaken earlier later line) :
    ¬ Throughout (Precedes order) done := by
  have whole : done <+: line.whole := by
    rw [Line.whole,List.append_assoc]
    exact within.trans (List.prefix_append _ _)
  have complete : done = line.whole := by
    refine whole.eq_of_length_le ?_
    rw [content.length_eq]
    exact (distinct.subperm all).length_le
  have once : done.Nodup := by
    rw [complete]
    exact content.nodup_iff.mpr distinct
  have swapped : [later,earlier].Sublist done := by
    rw [complete]
    exact overtaken.trans (List.sublist_append_left _ _)
  obtain ⟨before,after,rfl⟩ := List.append_of_mem (swapped.subset (List.mem_cons_self : later ∈ [later,earlier]))
  intro inOrder
  -- the earlier item has to be before the later one, and is after it
  obtain ⟨front,back,rfl⟩ := List.append_of_mem (inOrder before later after rfl earlier listed)
  have ahead : later ∈ front := precedes_self once front earlier (back ++ later :: after) (by simp) later swapped
  exact (List.nodup_append.mp once).2.2 later (by simp [ahead]) later List.mem_cons_self rfl

end Hookclose.StackedLine
