import Hookclose.Chaining
import Mathlib.Order.Interval.Finset.Nat

/-!
Chains are well founded and bounded. The births of a run are a forest: every
generated task has one parent, which was reported before, so its root and its
generation are fixed by the births alone. The metadata that travels in the
payloads, the store and the graph, which are updated apart, all agree with it.
-/
namespace Hookclose.ChainBounds
open Hookclose.DependencyGraph Hookclose.Chaining Hookclose.Runs

/-! ### Lineage -/

/-- The births make a task the `n`-th generation from a root. -/
inductive Lineage (births : List Birth) : String → Nat → String → Prop
  | root (task : String) (unborn : ∀ birth ∈ births, birth.child.id ≠ task) : Lineage births task 0 task
  | child {root : String} {n : Nat} (birth : Birth) (member : birth ∈ births)
      (parent : Lineage births root n birth.parent) : Lineage births root (n + 1) birth.child.id

theorem birth_eq {births : List Birth} (distinct : (births.map (fun birth => birth.child.id)).Nodup)
    {first second : Birth} (left : first ∈ births) (right : second ∈ births) (same : first.child.id = second.child.id) :
    first = second :=
  List.inj_on_of_nodup_map distinct left right same

/-- A task has one root and one generation. -/
theorem lineage_unique {births : List Birth} (distinct : (births.map (fun birth => birth.child.id)).Nodup)
    {root : String} {n : Nat} {task : String} (lineage : Lineage births root n task) :
    ∀ {other : String} {m : Nat}, Lineage births other m task → other = root ∧ m = n := by
  induction lineage with
  | root unborn =>
    intro other m again
    cases again with
    | root _ => exact ⟨rfl,rfl⟩
    | child birth member _ => exact absurd rfl (unborn birth member)
  | child birth member _ ih =>
    intro other m again
    generalize named : birth.child.id = task at again
    cases again with
    | root unborn => exact absurd named (unborn birth member)
    | child second later parent =>
      have same := birth_eq distinct member later named
      rw [← same] at parent
      obtain ⟨roots,depths⟩ := ih parent
      exact ⟨roots,by rw [depths]⟩

/-- A birth of a new task changes the lineage of no other. -/
theorem lineage_later {births : List Birth} {born : Birth} (parents : ∀ birth ∈ births, birth.parent ≠ born.child.id)
    {root : String} {n : Nat} {task : String} (lineage : Lineage births root n task) (other : task ≠ born.child.id) :
    Lineage (births ++ [born]) root n task := by
  induction lineage with
  | root unborn =>
    refine .root root ?_
    intro birth member
    rcases List.mem_append.mp member with earlier | new
    · exact unborn birth earlier
    · rw [List.mem_singleton.mp new]
      exact other.symm
  | child birth member _ ih =>
    exact .child birth (List.mem_append_left _ member) (ih (parents birth member))

/-- Where no task has two children, each generation of a root has one task. -/
theorem lineage_single {births : List Birth} (single : (births.map Birth.parent).Nodup) {root : String} :
    ∀ {n : Nat} {first second : String}, Lineage births root n first → Lineage births root n second → first = second := by
  intro n
  induction n with
  | zero =>
    intro first second left right
    cases left with
    | root _ =>
      cases right with
      | root _ => rfl
  | succ n ih =>
    intro first second left right
    cases left with
    | child birth member parent =>
      cases right with
      | child other otherMember otherParent =>
        have parents := ih parent otherParent
        rw [List.inj_on_of_nodup_map single member otherMember parents]

/-! ### Legitimate reports -/

/-- A task without chain metadata that no call has returned. -/
def IsRoot (s : ChainRun) (task : Task) : Prop :=
  (∀ raw, Dictionaries.get chainKey task.payload ≠ some (.dict raw)) ∧ ∀ birth ∈ s.births, birth.child.id ≠ task.id

/-- A task that an earlier call returned; all but its identifier and its metadata
    may have changed since. -/
def IsReturned (s : ChainRun) (task : Task) : Prop :=
  ∃ birth ∈ s.births, birth.child.id = task.id ∧ Dictionaries.get chainKey task.payload = Dictionaries.get chainKey birth.child.payload

structure Legitimate (s : ChainRun) (given : Report) : Prop where
  fresh : Fresh s given
  known : IsRoot s given.task ∨ IsReturned s given.task
  store : given.faults.store = false
  bus : given.faults.bus = false

theorem chainMeta_root {task : Task} (unchained : ∀ raw, Dictionaries.get chainKey task.payload ≠ some (.dict raw)) :
    chainMeta task = .ok ⟨task.id,.null,0⟩ := by
  unfold chainMeta
  split
  · rename_i raw found
    exact absurd found (unchained raw)
  · rfl

theorem chainMeta_congr {first second : Task} (id : first.id = second.id)
    (payload : Dictionaries.get chainKey first.payload = Dictionaries.get chainKey second.payload) : chainMeta first = chainMeta second := by
  unfold chainMeta
  rw [id,payload]

/-! ### The invariant -/

/-- The root that the metadata of a task names. -/
def rootOf (task : Task) : Option String :=
  match chainMeta task with
  | .ok chain => some chain.root
  | .error _ => none

/-- A birth whose metadata says what the births say. -/
def Placed (policy : ChainPolicy) (births : List Birth) (birth : Birth) : Prop :=
  ∃ root, ∃ depth : Nat, chainMeta birth.child = .ok ⟨root,.str birth.parent,depth⟩ ∧
    1 ≤ depth ∧ (depth : Int) ≤ policy.maxDepth ∧ Lineage births root depth birth.child.id

structure Inductive (policy : ChainPolicy) (s : ChainRun) : Prop where
  listed : Listed s.chainer.graph
  nodes : ∀ birth ∈ s.births, birth.child.id ∈ s.chainer.graph.nodes ∧ birth.parent ∈ s.chainer.graph.nodes
  distinct : (s.births.map (fun birth => birth.child.id)).Nodup
  placed : ∀ birth ∈ s.births, Placed policy s.births birth
  store : ∀ root, s.chainer.store root = (s.births.map Birth.child).filter (fun task => rootOf task = some root)

theorem newChainer_inductive (policy : ChainPolicy) : Inductive policy newChainer := by
  refine ⟨empty_listed,?_,List.nodup_nil,?_,fun root => rfl⟩
  · intro birth member
    cases member
  · intro birth member
    cases member

/-- The metadata of a reported task agrees with its lineage. -/
theorem reported_lineage {policy : ChainPolicy} {s : ChainRun} (inv : Inductive policy s) {task : Task}
    (known : IsRoot s task ∨ IsReturned s task) :
    ∃ chain, ∃ depth : Nat, chainMeta task = .ok chain ∧ chain.depth = depth ∧
      Lineage s.births chain.root depth task.id := by
  rcases known with ⟨unchained,unborn⟩ | ⟨birth,member,named,payload⟩
  · exact ⟨_,0,chainMeta_root unchained,rfl,.root task.id unborn⟩
  · obtain ⟨root,depth,read,_,_,lineage⟩ := inv.placed birth member
    refine ⟨_,depth,(chainMeta_congr named.symm payload).trans read,rfl,?_⟩
    rwa [← named]

/-- A birth of a task that was not there leaves the earlier ones in their places. -/
theorem placed_later {policy : ChainPolicy} {births : List Birth} {birth new : Birth}
    (childless : ∀ other ∈ births, other.parent ≠ new.child.id) (differs : birth.child.id ≠ new.child.id)
    (placed : Placed policy births birth) : Placed policy (births ++ [new]) birth := by
  obtain ⟨root,depth,read,low,high,lineage⟩ := placed
  exact ⟨root,depth,read,low,high,lineage_later childless lineage differs⟩

theorem distinct_later {births : List Birth} {new : Birth} (distinct : (births.map (fun birth => birth.child.id)).Nodup)
    (unborn : ∀ birth ∈ births, birth.child.id ≠ new.child.id) :
    ((births ++ [new]).map (fun birth => birth.child.id)).Nodup := by
  rw [List.map_append,List.nodup_append]
  refine ⟨distinct,by simp,?_⟩
  intro first old second last same
  obtain ⟨birth,member,rfl⟩ := List.mem_map.mp old
  rw [List.map_singleton,List.mem_singleton] at last
  exact unborn birth member (same.trans last)

theorem step_inductive {policy : ChainPolicy} {s : ChainRun} (inv : Inductive policy s) {given : Report}
    (legitimate : Legitimate s given) : Inductive policy (step policy s given) := by
  have fresh := legitimate.fresh
  cases step_stepped policy inv.listed fresh with
  | lost asked raised linked failure last births =>
    rw [legitimate.store,legitimate.bus] at raised
    simp at raised
  | noted asked graph births store last =>
    refine ⟨step_listed policy inv.listed given,?_,?_,?_,?_⟩
    · intro birth member
      rw [births] at member
      rw [graph,mem_note,mem_note]
      exact ⟨.inr (inv.nodes birth member).1,.inr (inv.nodes birth member).2⟩
    · rw [births]
      exact inv.distinct
    · rw [births]
      exact inv.placed
    · rw [births,store]
      exact inv.store
  | generated chain child asked quiet linked last births store =>
    obtain ⟨read,within,named,childRead⟩ := followUp_child asked
    obtain ⟨own,depth,ownRead,ownDepth,lineage⟩ := reported_lineage inv legitimate.known
    rw [read] at ownRead
    cases ownRead
    have unborn : ∀ birth ∈ s.births, birth.child.id ≠ child.id := by
      intro birth member same
      rw [named] at same
      exact fresh.1 (same ▸ (inv.nodes birth member).1)
    have childless : ∀ birth ∈ s.births, birth.parent ≠ child.id := by
      intro birth member same
      rw [named] at same
      exact fresh.1 (same ▸ (inv.nodes birth member).2)
    have reportedOther : given.task.id ≠ child.id := by
      rw [named]
      exact fresh.2.symm
    refine ⟨step_listed policy inv.listed given,?_,?_,?_,?_⟩
    · intro birth member
      rw [births] at member
      rw [linked.nodes,linked.nodes]
      rcases List.mem_append.mp member with earlier | new
      · exact ⟨.inr (.inr (inv.nodes birth earlier).1),.inr (.inr (inv.nodes birth earlier).2)⟩
      · rw [List.mem_singleton.mp new]
        exact ⟨.inr (.inl named),.inl rfl⟩
    · rw [births]
      exact distinct_later inv.distinct unborn
    · intro birth member
      rw [births] at member ⊢
      rcases List.mem_append.mp member with earlier | new
      · exact placed_later childless (unborn birth earlier) (inv.placed birth earlier)
      · rw [List.mem_singleton.mp new]
        refine ⟨chain.root,depth + 1,?_,by omega,?_,?_⟩
        · rw [childRead,ownDepth]
          rfl
        · push_cast
          omega
        · exact .child ⟨child,given.task.id⟩ (by simp) (lineage_later childless lineage reportedOther)
    · intro root
      have childRoot : rootOf child = some chain.root := by
        simp only [rootOf,childRead]
      rw [births,store,List.map_append,List.filter_append,← inv.store root]
      by_cases same : root = chain.root
      · subst same
        simp [childRoot]
      · have other : ¬ chain.root = root := fun equal => same equal.symm
        simp [childRoot,same,other]

/-! ### What every report does -/

/-- A call that raises nothing and returns at most one task; the graph gains the
    edge from that task to the reported one, and no other. -/
def Answered (policy : ChainPolicy) (s : ChainRun) (given : Report) : Prop :=
  ∃ tasks, (step policy s given).last = .ok tasks ∧ tasks.length ≤ 1 ∧
    (step policy s given).births = s.births ++ tasks.map (fun task => ⟨task,given.task.id⟩) ∧
    ∀ task other, other ∈ (step policy s given).chainer.graph.prerequisites task ↔
      other ∈ s.chainer.graph.prerequisites task ∨ (other = given.task.id ∧ ∃ born ∈ tasks, born.id = task)

theorem step_answered {policy : ChainPolicy} {s : ChainRun} (inv : Inductive policy s) {given : Report}
    (legitimate : Legitimate s given) : Answered policy s given := by
  cases step_stepped policy inv.listed legitimate.fresh with
  | lost asked raised linked failure last births =>
    rw [legitimate.store,legitimate.bus] at raised
    simp at raised
  | generated chain child asked quiet linked last births store =>
    refine ⟨[child],last,by simp,births,?_⟩
    intro task other
    rw [linked.edges,← (followUp_child asked).2.2.1]
    simp [and_comm,eq_comm]
  | noted asked graph births store last =>
    have empty : (step policy s given).last = .ok [] := by
      rcases last with empty | ⟨error,unread,_⟩ | ⟨bus,_⟩
      · exact empty
      · obtain ⟨chain,_,read,_⟩ := reported_lineage inv legitimate.known
        rw [read] at unread
        cases unread
      · rw [legitimate.bus] at bus
        cases bus
    refine ⟨[],empty,by simp,by simpa using births,?_⟩
    intro task other
    rw [graph,note_prerequisites]
    simp

/-! ### The store -/

/-- A generated task names its parent, its root and its generation, within the
    bound, and is in the store once, under its root. -/
def WellBorn (policy : ChainPolicy) (s : ChainRun) (birth : Birth) : Prop :=
  ∃ root, ∃ depth : Nat, chainMeta birth.child = .ok ⟨root,.str birth.parent,depth⟩ ∧
    1 ≤ depth ∧ (depth : Int) ≤ policy.maxDepth ∧
    (∀ other n, Lineage s.births other n birth.child.id ↔ other = root ∧ n = depth) ∧
    birth.child ∈ s.chainer.store root ∧
    ∀ other, ((s.chainer.store other).filter (fun task => task.id = birth.child.id)).length = if other = root then 1 else 0

theorem rootOf_eq {task : Task} {chain : ChainMeta} (read : chainMeta task = .ok chain) : rootOf task = some chain.root := by
  simp only [rootOf,read]

theorem filter_id_singleton {tasks : List Task} {task : Task} (distinct : (tasks.map Task.id).Nodup)
    (member : task ∈ tasks) : tasks.filter (fun other => other.id = task.id) = [task] := by
  induction tasks with
  | nil => cases member
  | cons first rest ih =>
    rw [List.map_cons,List.nodup_cons] at distinct
    rcases List.mem_cons.mp member with rfl | later
    · have others : rest.filter (fun other => decide (other.id = task.id)) = [] := by
        rw [List.filter_eq_nil_iff]
        intro other present
        rw [decide_eq_true_iff]
        intro same
        exact distinct.1 (same ▸ List.mem_map_of_mem present)
      rw [List.filter_cons_of_pos (by simp),others]
    · have differs : first.id ≠ task.id := by
        intro same
        exact distinct.1 (same ▸ List.mem_map_of_mem later)
      rw [List.filter_cons_of_neg (by simpa using differs)]
      exact ih distinct.2 later

theorem wellBorn_of_inductive {policy : ChainPolicy} {s : ChainRun} (inv : Inductive policy s) {birth : Birth}
    (member : birth ∈ s.births) : WellBorn policy s birth := by
  obtain ⟨root,depth,read,low,high,lineage⟩ := inv.placed birth member
  have ids : ((s.births.map Birth.child).map Task.id).Nodup := by
    rw [List.map_map]
    exact inv.distinct
  have born : birth.child ∈ s.births.map Birth.child := List.mem_map_of_mem member
  have named : rootOf birth.child = some root := rootOf_eq read
  refine ⟨root,depth,read,low,high,?_,?_,?_⟩
  · intro other n
    constructor
    · intro again
      exact lineage_unique inv.distinct lineage again
    · rintro ⟨rfl,rfl⟩
      exact lineage
  · rw [inv.store root]
    exact List.mem_filter.mpr ⟨born,by simpa using named⟩
  · intro other
    have swapped : (s.chainer.store other).filter (fun task => decide (task.id = birth.child.id)) =
        [birth.child].filter (fun task => decide (rootOf task = some other)) := by
      rw [inv.store other,List.filter_filter,← filter_id_singleton ids born,List.filter_filter]
      simp only [Bool.and_comm]
    rw [swapped]
    by_cases same : other = root
    · subst same
      simp [named]
    · have differs : ¬ root = other := fun equal => same equal.symm
      simp [named,same,differs]

/-- Reports add at most one birth each, with the reported task as its parent. -/
theorem births_parents {policy : ChainPolicy} {s : ChainRun} {reports : List Report} (inv : Inductive policy s)
    (legitimate : Each (step policy) Legitimate s reports) :
    ∃ more, (run (step policy) s reports).births.map Birth.parent = s.births.map Birth.parent ++ more ∧
      more.Sublist (reports.map (fun given => given.task.id)) := by
  induction reports generalizing s with
  | nil => exact ⟨[],by simp,List.Sublist.refl []⟩
  | cons given rest ih =>
    obtain ⟨first,later⟩ := each_cons.mp legitimate
    obtain ⟨tasks,_,few,births,_⟩ := step_answered inv first
    obtain ⟨more,parents,sub⟩ := ih (step_inductive inv first) later
    rw [run_cons,parents,births,List.map_append,List.append_assoc]
    refine ⟨_,rfl,?_⟩
    cases tasks with
    | nil => exact sub.cons given.task.id
    | cons task others =>
      have none : others = [] := by
        apply List.eq_nil_of_length_eq_zero
        simp only [List.length_cons] at few
        omega
      subst none
      exact sub.cons_cons given.task.id

/-- The generation that the metadata of a task names. -/
def depthOf (task : Task) : Nat :=
  match chainMeta task with
  | .ok chain => chain.depth.toNat
  | .error _ => 0

/-- Where no task has two children, the generations under a root are all different
    and within the bound. -/
theorem store_bounded {policy : ChainPolicy} {s : ChainRun} (inv : Inductive policy s)
    (single : (s.births.map Birth.parent).Nodup) (root : String) :
    (s.chainer.store root).length ≤ (max 0 policy.maxDepth).toNat := by
  have stored : ∀ task ∈ s.chainer.store root, 1 ≤ depthOf task ∧ (depthOf task : Int) ≤ policy.maxDepth ∧
      Lineage s.births root (depthOf task) task.id := by
    intro task member
    rw [inv.store root,List.mem_filter,decide_eq_true_iff] at member
    obtain ⟨birth,listed,rfl⟩ := List.mem_map.mp member.1
    obtain ⟨own,depth,read,low,high,lineage⟩ := inv.placed birth listed
    have named := rootOf_eq read
    rw [member.2] at named
    cases named
    have generation : depthOf birth.child = depth := by
      simp only [depthOf,read,Int.toNat_natCast]
    rw [generation]
    exact ⟨low,high,lineage⟩
  have ids : ((s.chainer.store root).map Task.id).Nodup := by
    rw [inv.store root]
    have all : ((s.births.map Birth.child).map Task.id).Nodup := by
      rw [List.map_map]
      exact inv.distinct
    exact (List.filter_sublist.map Task.id).nodup all
  have generations : ((s.chainer.store root).map depthOf).Nodup := by
    refine List.Nodup.map_on ?_ (List.Nodup.of_map Task.id ids)
    intro first left second right same
    have lineage := (stored second right).2.2
    rw [← same] at lineage
    have named := lineage_single single (stored first left).2.2 lineage
    exact List.inj_on_of_nodup_map ids left right named
  have within : ((s.chainer.store root).map depthOf).toFinset ⊆ Finset.Icc 1 (max 0 policy.maxDepth).toNat := by
    intro depth member
    obtain ⟨task,listed,rfl⟩ := List.mem_map.mp (List.mem_toFinset.mp member)
    obtain ⟨low,high,_⟩ := stored task listed
    rw [Finset.mem_Icc]
    omega
  have counted := Finset.card_le_card within
  rw [List.toFinset_card_of_nodup generations,List.length_map,Nat.card_Icc] at counted
  omega

/-- Whatever the policy and the order of the reports: no call raises and each returns
    at most one task, which the graph links to its parent only; every generated task
    is well born in every later state; and if no task is reported twice, a root gives
    rise to no more tasks than the bound. -/
theorem chains_bounded (policy : ChainPolicy) (reports : List Report)
    (legitimate : Each (step policy) Legitimate newChainer reports) :
    Each (step policy) (Answered policy) newChainer reports ∧
    Always (step policy) (fun s => ∀ birth ∈ s.births, WellBorn policy s birth) newChainer reports ∧
    ((reports.map (fun given => given.task.id)).Nodup →
      ∀ root, ((run (step policy) newChainer reports).chainer.store root).length ≤ (max 0 policy.maxDepth).toNat) := by
  have always : Always (step policy) (Inductive policy) newChainer reports :=
    always_of_each (Inductive policy) Legitimate (fun _ _ inv given => step_inductive inv given)
      (newChainer_inductive policy) legitimate
  refine ⟨?_,?_,?_⟩
  · exact Each.mono (fun _ _ inv given => step_answered inv given) always legitimate
  · exact always.mono (fun _ inv birth member => wellBorn_of_inductive inv member)
  · intro once root
    obtain ⟨more,parents,sub⟩ := births_parents (newChainer_inductive policy) legitimate
    have single : ((run (step policy) newChainer reports).births.map Birth.parent).Nodup := by
      rw [parents]
      exact sub.nodup once
    exact store_bounded always.last single root

/-- A root that completes. -/
def rootReport : Report where
  failed := false
  task := { id := "a", taskType := "codegen.x" }
  newId := "b"

/-- A task of the chain of that root, as it is reported after one attempt. -/
def chained (id taskType parent : String) (depth : Int) : Task where
  id := id
  taskType := taskType
  payload := [(chainKey,.dict (ChainMeta.toPayload ⟨"a",.str parent,depth⟩))]
  attempts := 1

/-- The task of the tests completes. -/
def testsReport : Report where
  failed := false
  task := chained "b" "testing.auto" "a" 1
  newId := "c"

/-- The review that follows fails. -/
def reviewReport : Report where
  failed := true
  task := chained "c" "review.auto" "b" 2
  newId := "d"

/-- The chain grows to its third generation, the repair of the review. -/
theorem root_chain_bounded :
    let reports := [rootReport,testsReport,reviewReport]
    Each (step ChainPolicy.default) (Answered ChainPolicy.default) newChainer reports ∧
    Always (step ChainPolicy.default) (fun s => ∀ birth ∈ s.births, WellBorn ChainPolicy.default s birth) newChainer reports ∧
    (∀ root, ((run (step ChainPolicy.default) newChainer reports).chainer.store root).length ≤ 8) ∧
    (run (step ChainPolicy.default) newChainer reports).births.map (fun birth => (birth.parent,birth.child.id,birth.child.taskType)) =
      [("a","b","testing.auto"),("b","c","review.auto"),("c","d","repair.auto")] := by
  have isRoot : IsRoot newChainer rootReport.task := by
    refine ⟨?_,?_⟩
    · intro raw found
      cases found
    · intro birth member
      cases member
  have first : Fresh newChainer rootReport := ⟨by decide,by decide⟩
  obtain ⟨linked,born⟩ := @step_generated ChainPolicy.default newChainer rootReport _ _ empty_listed first rfl ⟨rfl,rfl⟩
  have listed : Listed (step ChainPolicy.default newChainer rootReport).chainer.graph :=
    step_listed ChainPolicy.default empty_listed rootReport
  have second : Fresh (step ChainPolicy.default newChainer rootReport) testsReport := by
    refine ⟨?_,by decide⟩
    rw [linked.nodes]
    simp [rootReport,testsReport,newChainer,TaskDependencyGraph.empty]
  obtain ⟨linked',born'⟩ := @step_generated ChainPolicy.default _ testsReport _ _ listed second rfl ⟨rfl,rfl⟩
  have third : Fresh (step ChainPolicy.default (step ChainPolicy.default newChainer rootReport) testsReport) reviewReport := by
    refine ⟨?_,by decide⟩
    rw [linked'.nodes,linked.nodes]
    simp [rootReport,testsReport,reviewReport,chained,newChainer,TaskDependencyGraph.empty]
  obtain ⟨_,born''⟩ := @step_generated ChainPolicy.default _ reviewReport _ _
    (step_listed ChainPolicy.default listed testsReport) third rfl ⟨rfl,rfl⟩
  have legitimate : Each (step ChainPolicy.default) Legitimate newChainer [rootReport,testsReport,reviewReport] := by
    refine each_cons.mpr ⟨⟨first,.inl isRoot,rfl,rfl⟩,each_cons.mpr ⟨⟨second,.inr ?_,rfl,rfl⟩,each_cons.mpr
      ⟨⟨third,.inr ?_,rfl,rfl⟩,each_nil⟩⟩⟩
    · rw [IsReturned,born]
      exact ⟨_,List.mem_append_right _ (List.mem_singleton_self _),rfl,rfl⟩
    · rw [IsReturned,born']
      exact ⟨_,List.mem_append_right _ (List.mem_singleton_self _),rfl,rfl⟩
  obtain ⟨answered,wellBorn,bounded⟩ := chains_bounded ChainPolicy.default _ legitimate
  refine ⟨answered,wellBorn,bounded (by decide),?_⟩
  rw [run_cons,run_cons,run_cons,run_nil,born'',born',born]
  rfl

end Hookclose.ChainBounds
