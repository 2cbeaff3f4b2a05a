import Hookclose.Chaining

/-!
When generated work can run. The continuation of a completed task is ready at
once, since its only prerequisite is done. A repair waits for the task that it
repairs: it is ready only if that task has been marked done before it fails.
-/
namespace Hookclose.GeneratedReady
open Hookclose.DependencyGraph Hookclose.Chaining Hookclose.Runs

/-- The tasks that the last call returned are ready. -/
def ReturnedReady (s : ChainRun) : Prop := ∀ task ∈ returned s.last, task.id ∈ s.chainer.graph.ready

/-- The report is no failure that gets a repair, or it is about a task marked done. -/
def NoPendingRepair (policy : ChainPolicy) (s : ChainRun) (given : Report) : Prop :=
  given.failed = true → given.task.attempts < given.task.maxAttempts →
    ∀ chain, chainMeta given.task = .ok chain → chain.depth + 1 ≤ policy.maxDepth →
      given.faults.store = false → given.faults.bus = false → given.task.id ∈ s.chainer.graph.done

/-- A failure gets a repair when its metadata, its attempts and its depth allow one. -/
theorem followUp_failed {policy : ChainPolicy} {given : Report} (failed : given.failed = true) {chain : ChainMeta}
    {child : Task} : followUp policy given = some (chain,child) ↔
      chainMeta given.task = .ok chain ∧ given.task.attempts < given.task.maxAttempts ∧
        chain.depth + 1 ≤ policy.maxDepth ∧ child = repairTask given.task chain given.newId := by
  cases read : chainMeta given.task with
  | error error => simp [followUp,read]
  | ok own =>
    by_cases deep : policy.maxDepth < own.depth + 1
    · constructor
      · intro asked
        simp [followUp,read,deep] at asked
      · rintro ⟨same,_,within,_⟩
        cases same
        exact absurd within (not_le.mpr deep)
    · by_cases usedUp : given.task.maxAttempts ≤ given.task.attempts
      · constructor
        · intro asked
          simp [followUp,read,deep,failed,usedUp] at asked
        · rintro ⟨_,attempts,_⟩
          exact absurd usedUp (not_le.mpr attempts)
      · simp only [followUp,read,if_neg deep,if_neg usedUp,failed,if_true,Option.some.injEq,Prod.mk.injEq,Except.ok.injEq]
        constructor
        · rintro ⟨rfl,rfl⟩
          exact ⟨rfl,not_le.mp usedUp,not_lt.mp deep,rfl⟩
        · rintro ⟨rfl,_,_,rfl⟩
          exact ⟨rfl,rfl⟩

/-- A generated task is ready exactly when the reported one is done by then. -/
theorem generated_ready {s : ChainRun} (listed : Listed s.chainer.graph) {given : Report}
    (fresh : Fresh s given) {after : ChainRun} (linked : Linked given s.chainer.graph after.chainer.graph) :
    given.newId ∈ after.chainer.graph.ready ↔ given.failed = false ∨ given.task.id ∈ s.chainer.graph.done := by
  have undone : given.newId ∉ after.chainer.graph.done := by
    rw [linked.done,mem_note_done]
    rintro (⟨_,same⟩ | earlier)
    · exact fresh.2 same
    · exact fresh.1 (listed.done _ earlier)
  have none : s.chainer.graph.prerequisites given.newId = [] := s.chainer.graph.unlisted _ fresh.1
  have only : ∀ other, other ∈ after.chainer.graph.prerequisites given.newId ↔ other = given.task.id := by
    intro other
    rw [linked.edges,none]
    simp
  rw [mem_ready]
  constructor
  · rintro ⟨_,_,met⟩
    have done := met given.task.id ((only _).mpr rfl)
    rw [linked.done,mem_note_done] at done
    rcases done with ⟨completed,_⟩ | earlier
    · exact .inl completed
    · exact .inr earlier
  · intro done
    refine ⟨(linked.nodes _).mpr (.inr (.inl rfl)),undone,?_⟩
    intro other waits
    rw [(only other).mp waits,linked.done,mem_note_done]
    rcases done with completed | earlier
    · exact .inl ⟨completed,rfl⟩
    · exact .inr earlier

structure Inductive (s : ChainRun) : Prop where
  listed : Listed s.chainer.graph
  ready : ReturnedReady s

/-- A report with no pending repair returns only ready tasks. -/
theorem step_ready {policy : ChainPolicy} {s : ChainRun} (inv : Inductive s) {given : Report} (fresh : Fresh s given)
    (meets : NoPendingRepair policy s given) : Inductive (step policy s given) := by
  refine ⟨step_listed policy inv.listed given,?_⟩
  intro task member
  cases step_stepped policy inv.listed fresh with
  | generated chain child asked quiet linked last births store =>
    rw [last] at member
    obtain ⟨read,within,named,_⟩ := followUp_child asked
    rw [List.mem_singleton.mp member,named,generated_ready inv.listed fresh linked]
    cases failed : given.failed with
    | false => exact .inl rfl
    | true =>
      have attempts := ((followUp_failed failed).mp asked).2.1
      exact .inr (meets failed attempts chain read within quiet.1 quiet.2)
  | lost asked raised linked failure last births =>
    rw [last] at member
    cases member
  | noted asked graph births store last =>
    rcases last with empty | ⟨error,_,raised⟩ | ⟨_,raised⟩
    · rw [empty] at member
      cases member
    · rw [raised] at member
      cases member
    · rw [raised] at member
      cases member

/-- A repair of a task that is not done is returned but not ready. -/
theorem step_unready {policy : ChainPolicy} {s : ChainRun} (listed : Listed s.chainer.graph) {given : Report}
    (fresh : Fresh s given) (fails : ¬ NoPendingRepair policy s given) : ¬ ReturnedReady (step policy s given) := by
  unfold NoPendingRepair at fails
  push Not at fails
  obtain ⟨failed,attempts,chain,read,within,store,bus,undone⟩ := fails
  have repaired := (followUp_failed failed).mpr ⟨read,attempts,within,rfl⟩
  intro ready
  cases step_stepped policy listed fresh with
  | generated _ child asked quiet linked last births _ =>
    have now := ready child (by rw [last]; exact List.mem_cons_self)
    rw [(followUp_child asked).2.2.1,generated_ready listed fresh linked,failed] at now
    rcases now with completed | done
    · cases completed
    · exact undone done
  | lost asked raised linked failure last births =>
    rw [store,bus] at raised
    simp at raised
  | noted asked graph births _ last =>
    rw [repaired] at asked
    cases asked

theorem newChainer_inductive : Inductive newChainer := by
  refine ⟨empty_listed,?_⟩
  intro task member
  cases member

/-- Every returned task is ready as it is returned exactly when no report gets a
    repair for a task that is not done. -/
theorem returned_ready_iff (policy : ChainPolicy) (reports : List Report)
    (fresh : Each (step policy) Fresh newChainer reports) :
    Always (step policy) ReturnedReady newChainer reports ↔
      Each (step policy) (NoPendingRepair policy) newChainer reports :=
  always_iff_each_allowed Inductive Fresh (fun _ inv => inv.ready) (fun _ _ inv fresh meets => step_ready inv fresh meets)
    (fun _ _ inv fresh fails => step_unready inv.listed fresh fails) newChainer_inductive fresh

/-- A failed task with an attempt left. -/
def flakyReport : Report where
  failed := true
  task := { id := "a", taskType := "codegen.x", attempts := 1 }
  newId := "b"

theorem repair_waits : Each (step ChainPolicy.default) Fresh newChainer [flakyReport] ∧
    ¬ Always (step ChainPolicy.default) ReturnedReady newChainer [flakyReport] := by
  have fresh : Fresh newChainer flakyReport := ⟨by decide,by decide⟩
  refine ⟨each_cons.mpr ⟨fresh,each_nil⟩,?_⟩
  intro always
  have pending : ¬ NoPendingRepair ChainPolicy.default newChainer flakyReport := by
    intro meets
    have done := meets rfl (by decide) ⟨"a",.null,0⟩ (by rfl) (by decide) rfl rfl
    cases done
  exact step_unready empty_listed fresh pending always.last

/-- A completed task. -/
def doneReport : Report where
  failed := false
  task := { id := "a", taskType := "codegen.x" }
  newId := "b"

/-- The same task, reported as failed afterwards. -/
def lateFailure : Report where
  failed := true
  task := { id := "a", taskType := "codegen.x", attempts := 1 }
  newId := "c"

/-- The continuation of a completed task, and a repair of it once it is done. -/
theorem pipeline_ready : Always (step ChainPolicy.default) ReturnedReady newChainer [doneReport,lateFailure] ∧
    (run (step ChainPolicy.default) newChainer [doneReport,lateFailure]).births.map (fun birth => birth.child.taskType) =
      ["testing.auto","repair.auto"] := by
  have first : Fresh newChainer doneReport := ⟨by decide,by decide⟩
  obtain ⟨linked,born⟩ := @step_generated ChainPolicy.default newChainer doneReport _ _ empty_listed first rfl ⟨rfl,rfl⟩
  have second : Fresh (step ChainPolicy.default newChainer doneReport) lateFailure := by
    refine ⟨?_,by decide⟩
    rw [linked.nodes]
    simp [doneReport,lateFailure,newChainer,TaskDependencyGraph.empty]
  obtain ⟨_,both⟩ := @step_generated ChainPolicy.default _ lateFailure _ _
    (step_listed ChainPolicy.default empty_listed doneReport) second rfl ⟨rfl,rfl⟩
  have fresh : Each (step ChainPolicy.default) Fresh newChainer [doneReport,lateFailure] :=
    each_cons.mpr ⟨first,each_cons.mpr ⟨second,each_nil⟩⟩
  have settled : lateFailure.task.id ∈ (step ChainPolicy.default newChainer doneReport).chainer.graph.done := by
    rw [linked.done,mem_note_done]
    exact .inl ⟨rfl,rfl⟩
  constructor
  · rw [returned_ready_iff ChainPolicy.default _ fresh]
    refine each_cons.mpr ⟨?_,each_cons.mpr ⟨?_,each_nil⟩⟩
    · intro failed
      cases failed
    · intro _ _ _ _ _ _ _
      exact settled
  · rw [run_cons,run_cons,run_nil,both,born]
    rfl

end Hookclose.GeneratedReady
