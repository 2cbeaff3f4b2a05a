import Hookclose.GeneratedReady

/-!
Tasks in the graph that nobody knows. A generated task is linked before it is recorded
and announced, and handed over only after both, so a store or a bus that raises leaves it
in the graph: it is ready to run once its parent is done, and no caller has it. A retry of
the report generates another.
-/
namespace Hookclose.GhostTasks
open Hookclose.DependencyGraph Hookclose.Chaining Hookclose.GeneratedReady Hookclose.Runs

/-- A run of a chainer, with the tasks that the caller has reported. -/
structure Handover where
  run : ChainRun := {}
  reported : List String := []

/-- A new chainer before any report. -/
def newHandover : Handover := {}

/-- A call counts as a report of its task whether or not it raises. -/
def handOver (policy : ChainPolicy) (s : Handover) (given : Report) : Handover where
  run := step policy s.run given
  reported := s.reported ++ [given.task.id]

/-- The caller has reported the task, or some call has returned it. -/
def Known (s : Handover) (taskId : String) : Prop :=
  taskId ∈ s.reported ∨ ∃ birth ∈ s.run.births, birth.child.id = taskId

/-- Every node of the graph is known to the caller. -/
def NoGhosts (s : Handover) : Prop := ∀ taskId ∈ s.run.chainer.graph.nodes, Known s taskId

/-- The report continues its chain: its metadata is readable, the chain may go deeper, and
    a failed task has an attempt left, a completed one a next stage. -/
def Continues (policy : ChainPolicy) (given : Report) : Prop :=
  ∃ chain, chainMeta given.task = .ok chain ∧ chain.depth + 1 ≤ policy.maxDepth ∧
    if given.failed then given.task.attempts < given.task.maxAttempts
    else (policy.nextHead given.task.taskType).isSome = true

/-- A report that continues its chain with a task under a new identifier gets it recorded
    and announced. -/
def Delivered (policy : ChainPolicy) (s : Handover) (given : Report) : Prop :=
  Continues policy given → given.newId ≠ given.task.id → ¬ Known s given.newId →
    given.faults.store = false ∧ given.faults.bus = false

section
variable {policy : ChainPolicy} {s : Handover} {given : Report}

theorem continues_iff : Continues policy given ↔ (followUp policy given).isSome = true := by
  unfold Continues followUp
  cases chainMeta given.task with
  | error error => simp
  | ok chain =>
    by_cases deep : policy.maxDepth < chain.depth + 1
    · simp only [if_pos deep,Option.isSome_none,Bool.false_eq_true,iff_false]
      rintro ⟨other,same,within,_⟩
      cases same
      exact absurd within (not_le.mpr deep)
    · simp only [if_neg deep,Except.ok.injEq,exists_eq_left',not_lt.mp deep,true_and]
      cases given.failed with
      | true =>
        by_cases usedUp : given.task.maxAttempts ≤ given.task.attempts
        · simp [usedUp]
        · simp [usedUp,not_le.mp usedUp]
      | false => simp

theorem handOver_known {taskId : String} : Known (handOver policy s given) taskId ↔
    taskId = given.task.id ∨ (∃ task ∈ returned (report policy given s.run.chainer).2, task.id = taskId) ∨
      Known s taskId := by
  unfold Known handOver
  rw [step_births]
  constructor
  · rintro (reported | ⟨birth,member,rfl⟩)
    · rcases List.mem_append.mp reported with earlier | now
      · exact .inr (.inr (.inl earlier))
      · exact .inl (List.mem_singleton.mp now)
    · rcases List.mem_append.mp member with earlier | now
      · exact .inr (.inr (.inr ⟨birth,earlier,rfl⟩))
      · obtain ⟨task,listed,rfl⟩ := List.mem_map.mp now
        exact .inr (.inl ⟨task,listed,rfl⟩)
  · rintro (rfl | ⟨task,listed,rfl⟩ | reported | ⟨birth,member,rfl⟩)
    · exact .inl (by simp)
    · exact .inr ⟨⟨task,given.task.id⟩,by simp [listed],rfl⟩
    · exact .inl (by simp [reported])
    · exact .inr ⟨birth,by simp [member],rfl⟩

/-- The nodes after a report: its task, the task that it asks for and those before. -/
theorem handOver_nodes {taskId : String} : taskId ∈ (handOver policy s given).run.chainer.graph.nodes ↔
    taskId = given.task.id ∨ (Continues policy given ∧ taskId = given.newId) ∨ taskId ∈ s.run.chainer.graph.nodes := by
  have chainer : (handOver policy s given).run.chainer = (report policy given s.run.chainer).1 := rfl
  rw [chainer,continues_iff]
  rcases report_cases policy given s.run.chainer with ⟨chain,child,event,asked,made⟩ | ⟨asked,graph,_⟩
  · obtain ⟨nodes,_⟩ := addDependency_cases child.id given.task.id (note given s.run.chainer.graph)
    rw [made,generate_graph,nodes,mem_note,(followUp_child asked).2.2.1,asked]
    simp only [Option.isSome_some,true_and]
    constructor
    · rintro (own | new | own | earlier)
      · exact .inl own
      · exact .inr (.inl new)
      · exact .inl own
      · exact .inr (.inr earlier)
    · rintro (own | new | earlier)
      · exact .inl own
      · exact .inr (.inl new)
      · exact .inr (.inr (.inr earlier))
  · rw [graph,mem_note,asked]
    simp

/-- A report that continues its chain while the store and the bus work returns the new
    task, unless the graph has it already. -/
theorem returned_or_listed (listed : Listed s.run.chainer.graph) (continues : Continues policy given)
    (store : given.faults.store = false) (bus : given.faults.bus = false) :
    given.newId = given.task.id ∨ given.newId ∈ s.run.chainer.graph.nodes ∨
      ∃ task ∈ returned (report policy given s.run.chainer).2, task.id = given.newId := by
  by_cases own : given.newId = given.task.id
  · exact .inl own
  by_cases earlier : given.newId ∈ s.run.chainer.graph.nodes
  · exact .inr (.inl earlier)
  cases step_stepped policy listed ⟨earlier,own⟩ with
  | generated chain child asked quiet linked last births _ =>
    rw [step_last] at last
    exact .inr (.inr ⟨child,by rw [last]; exact List.mem_cons_self,(followUp_child asked).2.2.1⟩)
  | lost asked raised linked failure last births =>
    rw [store,bus] at raised
    simp at raised
  | noted asked graph births _ last =>
    rw [continues_iff,asked] at continues
    cases continues

/-- A report that continues its chain returns no task when the store or the bus raises. -/
theorem nothing_returned (continues : Continues policy given)
    (raised : given.faults.store = true ∨ given.faults.bus = true) :
    returned (report policy given s.run.chainer).2 = [] := by
  rcases report_cases policy given s.run.chainer with ⟨chain,child,event,asked,made⟩ | ⟨asked,_⟩
  · rw [made]
    generalize { s.run.chainer with graph := note given s.run.chainer.graph } = noted
    cases refused : (noted.graph.addDependency child.id given.task.id).2 with
    | some message => simp [generate,linkAndRecord,refused,returned]
    | none =>
      rcases generate_accepted noted refused given.faults chain event with ⟨⟨store,bus⟩,_⟩ | ⟨_,failure,failed⟩
      · rw [store,bus] at raised
        simp at raised
      · rw [failed]
        rfl
  · rw [continues_iff,asked] at continues
    cases continues

/-- A continuation under a fresh identifier is ready as soon as its parent is done, whether
    it is handed over or lost. -/
theorem linked_ready (listed : Listed s.run.chainer.graph) (fresh : Fresh s.run given) (continues : Continues policy given) :
    given.newId ∈ (handOver policy s given).run.chainer.graph.ready ↔
      given.failed = false ∨ given.task.id ∈ s.run.chainer.graph.done := by
  cases step_stepped policy listed fresh with
  | generated _ _ _ _ linked _ _ _ => exact generated_ready listed fresh linked
  | lost _ _ linked _ _ _ => exact generated_ready listed fresh linked
  | noted asked _ _ _ _ =>
    rw [continues_iff,asked] at continues
    cases continues

structure Inductive (s : Handover) : Prop where
  listed : Listed s.run.chainer.graph
  known : NoGhosts s

theorem handOver_kept (inv : Inductive s) (delivered : Delivered policy s given) :
    Inductive (handOver policy s given) := by
  refine ⟨step_listed policy inv.listed given,?_⟩
  intro taskId node
  rw [handOver_known]
  rcases handOver_nodes.mp node with own | ⟨continues,rfl⟩ | earlier
  · exact .inl own
  · by_cases own : given.newId = given.task.id
    · exact .inl own
    by_cases known : Known s given.newId
    · exact .inr (.inr known)
    obtain ⟨store,bus⟩ := delivered continues own known
    rcases returned_or_listed inv.listed continues store bus with same | earlier | handed
    · exact absurd same own
    · exact absurd (inv.known given.newId earlier) known
    · exact .inr (.inl handed)
  · exact .inr (.inr (inv.known taskId earlier))

/-- A task that is linked and then lost is a ghost. -/
theorem handOver_ghost (undelivered : ¬ Delivered policy s given) : ¬ NoGhosts (handOver policy s given) := by
  intro known
  unfold Delivered at undelivered
  push Not at undelivered
  obtain ⟨continues,new,unknown,quiet⟩ := undelivered
  have raised : given.faults.store = true ∨ given.faults.bus = true := by
    cases store : given.faults.store with
    | true => exact .inl rfl
    | false => exact .inr (by simpa using quiet store)
  have node : given.newId ∈ (handOver policy s given).run.chainer.graph.nodes :=
    handOver_nodes.mpr (.inr (.inl ⟨continues,rfl⟩))
  rcases handOver_known.mp (known given.newId node) with own | ⟨task,handed,_⟩ | earlier
  · exact new own
  · rw [nothing_returned continues raised] at handed
    cases handed
  · exact unknown earlier

end

theorem newHandover_inductive : Inductive newHandover := by
  refine ⟨empty_listed,?_⟩
  intro taskId node
  cases node

/-- The graph holds no task that the caller does not know exactly when no report that
    continues its chain with a new task has its record or its event raise. -/
theorem no_ghosts_iff (policy : ChainPolicy) (reports : List Report) :
    Always (handOver policy) NoGhosts newHandover reports ↔
      Each (handOver policy) (Delivered policy) newHandover reports :=
  always_iff_each Inductive (fun _ inv => inv.known) (fun _ _ inv delivered => handOver_kept inv delivered)
    (fun _ _ _ undelivered => handOver_ghost undelivered) newHandover_inductive

/-- A completed task whose continuation is not recorded. -/
def lostReport : Report where
  failed := false
  task := { id := "a", taskType := "codegen.x" }
  newId := "b"
  faults := { store := true }

theorem record_lost : ¬ Always (handOver ChainPolicy.default) NoGhosts newHandover [lostReport] := by
  intro always
  have undelivered : ¬ Delivered ChainPolicy.default newHandover lostReport := by
    intro delivered
    have continues : Continues ChainPolicy.default lostReport := ⟨⟨"a",.null,0⟩,by rfl,by decide,by decide⟩
    have unknown : ¬ Known newHandover "b" := by
      rintro (reported | ⟨birth,member,_⟩)
      · cases reported
      · cases member
    have recorded := (delivered continues (by decide) unknown).1
    cases recorded
  exact handOver_ghost undelivered always.last

end Hookclose.GhostTasks
