import Mathlib.Data.List.Dedup
import Mathlib.Data.List.Sort

/-!
Rankings: lists sorted by a relation that puts any two different members in one order.
Such a list is determined by its members (`insertionSort_perm`), and the relation tells
which of two members comes first (`before_iff`). A set in order (`sortedSet`) is the
ranking that holds each of its members once.
-/
namespace Hookclose.Rankings
universe u v
variable {α : Type u} {β : Type v} {R : α → α → Prop}

/-- One member comes before another. -/
def Before (ranking : List α) (first second : α) : Prop := [first,second].Sublist ranking

instance [DecidableEq α] (ranking : List α) (first second : α) : Decidable (Before ranking first second) := by
  unfold Before
  infer_instance

theorem Before.members {ranking : List α} {first second : α} (before : Before ranking first second) :
    first ∈ ranking ∧ second ∈ ranking := by
  constructor
  · exact before.subset (by simp)
  · exact before.subset (by simp)

/-- What every other member comes before is last. -/
theorem last_of_before {ranking : List α} (distinct : ranking.Nodup) {last : α} (member : last ∈ ranking)
    (before : ∀ other ∈ ranking, other ≠ last → Before ranking other last) : ranking.getLast? = some last := by
  rcases List.eq_nil_or_concat' ranking with rfl | ⟨front,final,rfl⟩
  · cases member
  · rw [List.getLast?_concat,Option.some.injEq]
    by_contra differ
    have inside : [final,last].Sublist (front ++ [final]) := before final (by simp) differ
    have backward : [last,final].Sublist (final :: front.reverse) := by simpa using inside.reverse
    rw [List.nodup_append] at distinct
    cases backward with
    | cons _ within =>
      have earlier : final ∈ front := List.mem_reverse.mp (within.subset (by simp))
      exact distinct.2.2 final earlier final (by simp) rfl
    | cons_cons _ _ => exact differ rfl

/-- Two members without order between them are the same. -/
def Decides (R : α → α → Prop) (members : List α) : Prop :=
  ∀ first ∈ members, ∀ second ∈ members, R first second → R second first → first = second

/-- Of two members the first in the relation is the first in the ranking. -/
theorem before_iff {ranking : List α} (sorted : ranking.Pairwise R) (decides : Decides R ranking) {first second : α}
    (isFirst : first ∈ ranking) (isSecond : second ∈ ranking) (differ : first ≠ second) :
    Before ranking first second ↔ R first second := by
  constructor
  · intro before
    exact sorted.forall_sublist before
  · intro related
    induction ranking with
    | nil => cases isFirst
    | cons head rest ih =>
      rw [List.pairwise_cons] at sorted
      rcases List.mem_cons.mp isFirst with rfl | firstLater
      · have later : second ∈ rest := (List.mem_cons.mp isSecond).resolve_left (Ne.symm differ)
        exact (List.singleton_sublist.mpr later).cons_cons first
      · rcases List.mem_cons.mp isSecond with rfl | secondLater
        · -- the head is related to all later members, so both relations hold here
          exact absurd (decides first isFirst second isSecond related (sorted.1 first firstLater)) differ
        · have fewer : Decides R rest := fun a inA b inB =>
            decides a (List.mem_cons_of_mem head inA) b (List.mem_cons_of_mem head inB)
          exact (ih sorted.2 fewer firstLater secondLater).cons head

/-- A function that tells the members apart keeps their order. -/
theorem before_map {f : α → β} {ranking : List α} (distinct : (ranking.map f).Nodup) {first second : α}
    (isFirst : first ∈ ranking) (isSecond : second ∈ ranking) :
    Before (ranking.map f) (f first) (f second) ↔ Before ranking first second := by
  constructor
  · intro before
    obtain ⟨pair,within,mapped⟩ := List.sublist_map_iff.mp before
    obtain ⟨a,others,rfl,toFirst,mapped⟩ := List.map_eq_cons_iff.mp mapped.symm
    obtain ⟨b,rest,rfl,toSecond,mapped⟩ := List.map_eq_cons_iff.mp mapped
    rw [List.map_eq_nil_iff] at mapped
    subst mapped
    have sameFirst := List.inj_on_of_nodup_map distinct (within.subset (by simp)) isFirst toFirst
    have sameSecond := List.inj_on_of_nodup_map distinct (within.subset (by simp)) isSecond toSecond
    rw [← sameFirst,← sameSecond]
    exact within
  · intro before
    exact before.map f

section
variable [DecidableRel R] [Std.Total R] [IsTrans α R]

/-- The order in which the members were given does not matter. -/
theorem insertionSort_perm {first second : List α} (same : first.Perm second) (decides : Decides R first) :
    first.insertionSort R = second.insertionSort R := by
  refine List.Perm.eq_of_pairwise ?_ (List.pairwise_insertionSort R first) (List.pairwise_insertionSort R second) ?_
  · intro a b inFirst inSecond
    exact decides a ((List.mem_insertionSort R).mp inFirst) b (same.mem_iff.mpr ((List.mem_insertionSort R).mp inSecond))
  · exact (List.perm_insertionSort R first).trans (same.trans (List.perm_insertionSort R second).symm)

end

/-! ### Sets in order -/

section
variable [LinearOrder α] {members : List α} {member : α}

/-- The members, each once and in ascending order. -/
def sortedSet (members : List α) : List α := members.dedup.insertionSort (fun first second => first ≤ second)

@[simp] theorem mem_sortedSet : member ∈ sortedSet members ↔ member ∈ members := by
  rw [sortedSet,List.mem_insertionSort,List.mem_dedup]

theorem sortedSet_sorted (members : List α) : (sortedSet members).SortedLT := by
  have ascending : (sortedSet members).SortedLE := (List.pairwise_insertionSort _ members.dedup).sortedLE
  have distinct : (sortedSet members).Nodup :=
    (List.perm_insertionSort _ members.dedup).nodup_iff.mpr (List.nodup_dedup members)
  exact ascending.sortedLT_of_nodup distinct

/-- A set that has the member does not change when it is added. -/
theorem sortedSet_concat (sorted : members.SortedLT) (present : member ∈ members) :
    sortedSet (members ++ [member]) = members := by
  refine (sortedSet_sorted _).eq_of_mem_iff sorted ?_
  intro other
  rw [mem_sortedSet,List.mem_append,List.mem_singleton,or_iff_left_iff_imp]
  rintro rfl
  exact present

end

end Hookclose.Rankings
