import Hookclose.Chaining
import Mathlib.Data.List.Induction

/-!
The audit trail of chains. Whatever is reported and whatever raises, the store and the
events of a chainer are two views of one ledger of the tasks that it has recorded: the store
has them all, by the roots of their chains, and the events, like the callers, have those
whose announcement did not raise. From the default policy only the stages of the pipeline
come, each from the one before it, and repairs.
-/
namespace Hookclose.ChainAudit
open Hookclose.DependencyGraph Hookclose.DependencyGraph.TaskDependencyGraph Hookclose.Chaining Hookclose.Runs

/-! ### The ledger -/

/-- A task that has been recorded, with its chain and whether it was announced. -/
structure Entry where
  root : String
  birth : Birth
  depth : Int
  announced : Bool

/-- The task that an event announces: its parent, its identifier and its depth. -/
def generation : ChainEvent → Option (String × String × Int)
  | .nextTaskGenerated parent new _ _ depth => some (parent,new,depth)
  | .repairTaskCreated failed repair _ depth => some (failed,repair,depth)
  | _ => none

/-- What the ledger says of a birth. -/
def Entry.generation (entry : Entry) : String × String × Int :=
  (entry.birth.parent,entry.birth.child.id,entry.depth)

/-- The state of a chainer is what the ledger says. -/
structure Kept (s : ChainRun) (ledger : List Entry) : Prop where
  store : ∀ root, s.chainer.store root =
    (ledger.filter (fun entry => entry.root = root)).map (fun entry => entry.birth.child)
  births : s.births = (ledger.filter Entry.announced).map Entry.birth
  events : s.chainer.events.filterMap generation = (ledger.filter Entry.announced).map Entry.generation
  marked : ∀ entry ∈ ledger,
    chainMeta entry.birth.child = .ok ⟨entry.root,.str entry.birth.parent,entry.depth⟩

/-- A report generates a follow-up and announces it as such, or it records, returns and
    announces no task. -/
theorem report_generates (policy : ChainPolicy) (given : Report) (s : ChainerState) :
    (∃ chain child event, followUp policy given = some (chain,child) ∧
      generation event = some (given.task.id,child.id,chain.depth + 1) ∧
      report policy given s =
        generate given.faults given.task child chain event { s with graph := note given s.graph }) ∨
    ((report policy given s).1.store = s.store ∧ returned (report policy given s).2 = [] ∧
      (report policy given s).1.events.filterMap generation = s.events.filterMap generation) := by
  obtain ⟨failed,task,newId,faults⟩ := given
  have quiet : ∀ (event : ChainEvent) (t : ChainerState), generation event = none →
      (returning [] (Chaining.emit faults event t)).1.store = t.store ∧ returned (returning [] (Chaining.emit faults event t)).2 = [] ∧
        (returning [] (Chaining.emit faults event t)).1.events.filterMap generation = t.events.filterMap generation := by
    intro event t none
    cases bus : faults.bus <;> simp [returning,Chaining.emit,returned,bus,none]
  cases read : chainMeta task with
  | error error =>
    right
    cases failed <;> simp [report,onFailed,onCompleted,returned,read]
  | ok chain =>
    cases failed with
    | true =>
      by_cases usedUp : task.maxAttempts ≤ task.attempts
      · right
        simp only [report,onFailed,read,if_pos usedUp,if_true]
        exact quiet _ _ rfl
      · by_cases deep : policy.maxDepth < chain.depth + 1
        · right
          simp only [report,onFailed,read,if_neg usedUp,if_pos deep,if_true]
          exact quiet _ _ rfl
        · left
          simp only [followUp,report,onFailed,note,read,if_neg usedUp,if_neg deep,if_true]
          exact ⟨chain,_,_,rfl,rfl,rfl⟩
    | false =>
      cases next : policy.nextHead task.taskType with
      | none =>
        right
        simp [report,onCompleted,returned,read,next]
      | some head =>
        by_cases deep : policy.maxDepth < chain.depth + 1
        · right
          simp only [report,onCompleted,read,next,if_pos deep,Bool.false_eq_true,if_false]
          exact quiet _ _ rfl
        · left
          simp only [followUp,report,onCompleted,note,read,next,if_neg deep,Bool.false_eq_true,if_false]
          exact ⟨chain,_,_,rfl,rfl,rfl⟩

/-- What generating does: nothing that is seen, or a record, which the bus may leave
    unannounced. -/
theorem generate_cases (faults : Faults) (parent child : Task) (chain : ChainMeta) (event : ChainEvent) (s : ChainerState) :
    let done := generate faults parent child chain event s
    (done.1.store = s.store ∧ done.1.events = s.events ∧ returned done.2 = []) ∨
    (done.1.store = Function.update s.store chain.root (s.store chain.root ++ [child]) ∧
      ((faults.bus = true ∧ done.1.events = s.events ∧ returned done.2 = []) ∨
        (faults.bus = false ∧ done.1.events = s.events ++ [event] ∧ returned done.2 = [child]))) := by
  cases refused : (s.graph.addDependency child.id parent.id).2 with
  | some message =>
    left
    simp [generate,linkAndRecord,refused,returned]
  | none =>
    cases store : faults.store with
    | true =>
      left
      simp [generate,linkAndRecord,refused,store,returned]
    | false =>
      right
      cases bus : faults.bus <;> simp [generate,linkAndRecord,refused,store,bus,returning,Chaining.emit,returned]

/-! ### Keeping the ledger -/

section
variable {policy : ChainPolicy} {s : ChainRun} {ledger : List Entry}

/-- One more entry in the books of its root. -/
theorem update_filter {store : String → List Task} {root : String} {child : Task}
    (same : ∀ root, store root = (ledger.filter (fun entry => entry.root = root)).map (fun entry => entry.birth.child))
    (entry : Entry) (isRoot : entry.root = root) (isChild : entry.birth.child = child) (other : String) :
    Function.update store root (store root ++ [child]) other =
      ((ledger ++ [entry]).filter (fun entry => entry.root = other)).map (fun entry => entry.birth.child) := by
  subst isRoot isChild
  by_cases own : other = entry.root
  · subst own
    simp [same]
  · have differs : entry.root ≠ other := fun equal => own equal.symm
    simp [same,own,differs]

/-- A report leaves the ledger as it is, or adds one entry; an unannounced one only if the bus
    raises. -/
theorem step_kept (kept : Kept s ledger) (given : Report) :
    Kept (step policy s given) ledger ∨
      ∃ entry, Kept (step policy s given) (ledger ++ [entry]) ∧ (entry.announced = false → given.faults.bus = true) := by
  obtain ⟨store,births,events,marked⟩ := kept
  rcases report_generates policy given s.chainer with ⟨chain,child,event,asked,announces,made⟩ | ⟨stored,unborn,silent⟩
  · obtain ⟨read,_,_,placed⟩ := followUp_child asked
    rcases generate_cases given.faults given.task child chain event { s.chainer with graph := note given s.chainer.graph }
      with ⟨stored,silent,unborn⟩ | ⟨stored,outcome⟩
    · left
      refine ⟨?_,?_,?_,marked⟩
      · rw [step_chainer,made,stored]
        exact store
      · rw [step_births,made,unborn]
        simpa using births
      · rw [step_chainer,made,silent]
        exact events
    · right
      let entry : Entry := ⟨chain.root,⟨child,given.task.id⟩,chain.depth + 1,!given.faults.bus⟩
      have books : ∀ root, (step policy s given).chainer.store root =
          ((ledger ++ [entry]).filter (fun entry => entry.root = root)).map (fun entry => entry.birth.child) := by
        intro root
        rw [step_chainer,made,stored]
        exact update_filter store entry rfl rfl root
      have origins : ∀ entry' ∈ ledger ++ [entry],
          chainMeta entry'.birth.child = .ok ⟨entry'.root,.str entry'.birth.parent,entry'.depth⟩ :=
        List.forall_mem_append.mpr ⟨marked,by simpa using placed⟩
      refine ⟨entry,?_,by simp [entry]⟩
      rcases outcome with ⟨bus,silent,unborn⟩ | ⟨bus,announced,born⟩
      · refine ⟨books,?_,?_,origins⟩
        · rw [step_births,made,unborn]
          simp [entry,bus,births]
        · rw [step_chainer,made,silent]
          simp [entry,bus,events]
      · refine ⟨books,?_,?_,origins⟩
        · rw [step_births,made,born]
          simp [entry,bus,births]
        · rw [step_chainer,made,announced]
          simp [entry,bus,events,announces,Entry.generation]
  · left
    refine ⟨?_,?_,?_,marked⟩
    · rw [step_chainer,stored]
      exact store
    · rw [step_births,unborn]
      simpa using births
    · rw [step_chainer,silent]
      exact events

end

/-- Whatever is reported and whatever raises, there is one ledger that the store, the events
    and the returned tasks all agree with, and no more of its tasks are unannounced than
    reports whose bus raised. -/
theorem audit_trail (policy : ChainPolicy) (reports : List Report) : ∃ ledger,
    Kept (run (step policy) newChainer reports) ledger ∧
      (ledger.filter (fun entry => !entry.announced)).length ≤ reports.countP (fun given => given.faults.bus) := by
  induction reports using List.reverseRecOn with
  | nil => exact ⟨[],⟨fun root => rfl,rfl,rfl,by simp⟩,by simp⟩
  | append_singleton reports given ih =>
    obtain ⟨ledger,kept,few⟩ := ih
    rw [run_concat,List.countP_append]
    rcases step_kept kept given with same | ⟨entry,more,raised⟩
    · exact ⟨ledger,same,by omega⟩
    · refine ⟨ledger ++ [entry],more,?_⟩
      rw [List.filter_append,List.length_append]
      cases announced : entry.announced with
      | true =>
        simp [announced]
        omega
      | false =>
        simp [announced,raised announced]
        omega

/-! ### Stages -/

/-- A task of the second type may follow one of the first: as its next stage, or as its
    repair. -/
def Follows (policy : ChainPolicy) (before after : String) : Prop :=
  after = "repair.auto" ∨ ∃ head, policy.nextHead before = some head ∧ after = head ++ ".auto"

/-- The identifier of a generated task is new, and the type of one that was generated is that
    it was generated with. -/
def Faithful (s : ChainRun) (given : Report) : Prop :=
  Fresh s given ∧ ∀ birth ∈ s.births, birth.child.id = given.task.id → given.task.taskType = birth.child.taskType

/-- Each generated task follows the generated task that it came from. -/
structure Staged (policy : ChainPolicy) (s : ChainRun) : Prop where
  listed : Listed s.chainer.graph
  parents : ∀ birth ∈ s.births, birth.parent ∈ s.chainer.graph.nodes
  stages : ∀ birth ∈ s.births, ∀ earlier ∈ s.births, earlier.child.id = birth.parent →
    Follows policy earlier.child.taskType birth.child.taskType

section
variable {policy : ChainPolicy} {s : ChainRun} {given : Report}

theorem followUp_type {chain : ChainMeta} {child : Task} (asked : followUp policy given = some (chain,child)) :
    (given.failed = true ∧ child.taskType = "repair.auto") ∨
      (given.failed = false ∧ ∃ head, policy.nextHead given.task.taskType = some head ∧ child.taskType = head ++ ".auto") := by
  unfold followUp at asked
  split at asked
  · cases asked
  · split_ifs at asked with deep failed usedUp
    · cases asked
      exact .inl ⟨failed,rfl⟩
    · obtain ⟨head,next,made⟩ := Option.map_eq_some_iff.mp asked
      cases made
      exact .inr ⟨Bool.eq_false_iff.mpr failed,head,next,rfl⟩

theorem step_staged (staged : Staged policy s) (faithful : Faithful s given) : Staged policy (step policy s given) := by
  obtain ⟨listed,parents,stages⟩ := staged
  obtain ⟨fresh,kept⟩ := faithful
  have later := step_listed policy listed given
  cases step_stepped policy listed fresh with
  | generated chain child asked quiet linked last births store =>
    obtain ⟨_,_,named,_⟩ := followUp_child asked
    have known : ∀ birth ∈ s.births, birth.parent ∈ (step policy s given).chainer.graph.nodes := by
      intro birth member
      exact (linked.nodes _).mpr (.inr (.inr (parents birth member)))
    refine ⟨later,?_,?_⟩
    · rw [births]
      exact List.forall_mem_append.mpr ⟨known,by simpa using (linked.nodes _).mpr (.inl rfl)⟩
    · rw [births]
      intro birth member earlier origin same
      rcases List.mem_append.mp member with old | new
      · rcases List.mem_append.mp origin with before | now
        · exact stages birth old earlier before same
        · -- an earlier birth has no parent that is born now
          obtain rfl := List.mem_singleton.mp now
          have listed := parents birth old
          rw [← same,named] at listed
          exact absurd listed fresh.1
      · obtain rfl := List.mem_singleton.mp new
        rcases List.mem_append.mp origin with before | now
        · rw [← kept earlier before same]
          rcases followUp_type asked with ⟨_,repair⟩ | ⟨_,next⟩
          · exact .inl repair
          · exact .inr next
        · obtain rfl := List.mem_singleton.mp now
          exact absurd (named.symm.trans same) fresh.2
  | lost asked raised linked failure last births =>
    refine ⟨later,?_,by rw [births]; exact stages⟩
    rw [births]
    intro birth member
    exact (linked.nodes _).mpr (.inr (.inr (parents birth member)))
  | noted asked graph births store last =>
    refine ⟨later,?_,by rw [births]; exact stages⟩
    rw [births]
    intro birth member
    rw [graph,mem_note]
    exact .inr (parents birth member)

/-- What a report adds to the births. -/
theorem step_born (policy : ChainPolicy) (s : ChainRun) (given : Report) {birth : Birth}
    (member : birth ∈ (step policy s given).births) : birth ∈ s.births ∨
      ∃ chain, followUp policy given = some (chain,birth.child) := by
  rw [step_births] at member
  rcases List.mem_append.mp member with old | new
  · exact .inl old
  · obtain ⟨child,listed,rfl⟩ := List.mem_map.mp new
    rcases report_generates policy given s.chainer with ⟨chain,own,event,asked,_,made⟩ | ⟨_,unborn,_⟩
    · rw [made] at listed
      rcases generate_cases given.faults given.task own chain event { s.chainer with graph := note given s.chainer.graph }
        with ⟨_,_,unborn⟩ | ⟨_,⟨_,_,unborn⟩ | ⟨_,_,born⟩⟩
      · rw [unborn] at listed
        cases listed
      · rw [unborn] at listed
        cases listed
      · rw [born] at listed
        obtain rfl := List.mem_singleton.mp listed
        exact .inr ⟨chain,asked⟩
    · rw [unborn] at listed
      cases listed

end

/-! ### The default pipeline -/

/-- The stages that the default policy generates, each with the next. -/
def Next (before after : String) : Prop :=
  (before = "testing.auto" ∧ after = "review.auto") ∨ (before = "review.auto" ∧ after = "deploy.auto") ∨
    (before = "repair.auto" ∧ after = "testing.auto")

/-- The types that the default policy generates on completion. -/
theorem default_next {before head : String} (next : ChainPolicy.default.nextHead before = some head) :
    head = "testing" ∨ head = "review" ∨ head = "deploy" := by
  unfold ChainPolicy.nextHead at next
  simp only [ChainPolicy.default] at next
  split_ifs at next <;> cases next <;> simp

/-- The types that the default policy generates. -/
def isStage (taskType : String) : Bool :=
  taskType = "testing.auto" || taskType = "review.auto" || taskType = "deploy.auto" || taskType = "repair.auto"

theorem followUp_stage {given : Report} {chain : ChainMeta} {child : Task}
    (asked : followUp ChainPolicy.default given = some (chain,child)) :
    isStage child.taskType = true ∧ (child.taskType = "repair.auto" → given.failed = true) := by
  rcases followUp_type asked with ⟨failed,repair⟩ | ⟨_,head,next,made⟩
  · exact ⟨by rw [repair]; decide,fun _ => failed⟩
  · rw [made]
    rcases default_next next with rfl | rfl | rfl
    · exact ⟨by decide,fun same => absurd same (by decide)⟩
    · exact ⟨by decide,fun same => absurd same (by decide)⟩
    · exact ⟨by decide,fun same => absurd same (by decide)⟩

/-- Between generated tasks the default policy follows the pipeline, or repairs. -/
theorem follows_next {before after : String} (stage : isStage before = true)
    (follows : Follows ChainPolicy.default before after) : after = "repair.auto" ∨ Next before after := by
  rcases follows with repair | ⟨head,next,rfl⟩
  · exact .inl repair
  · right
    simp only [isStage,Bool.or_eq_true,decide_eq_true_eq] at stage
    have testing : ChainPolicy.default.nextHead "testing.auto" = some "review" := by decide
    have review : ChainPolicy.default.nextHead "review.auto" = some "deploy" := by decide
    have deploy : ChainPolicy.default.nextHead "deploy.auto" = none := by decide
    have repair : ChainPolicy.default.nextHead "repair.auto" = some "testing" := by decide
    rcases stage with ((rfl | rfl) | rfl) | rfl
    · rw [testing] at next
      cases next
      exact .inl ⟨rfl,rfl⟩
    · rw [review] at next
      cases next
      exact .inr (.inl ⟨rfl,rfl⟩)
    · rw [deploy] at next
      cases next
    · rw [repair] at next
      cases next
      exact .inr (.inr ⟨rfl,rfl⟩)

/-- Generated tasks, each from the one before it. -/
structure Path (s : ChainRun) (births : List Birth) : Prop where
  born : ∀ birth ∈ births, birth ∈ s.births
  linked : births.IsChain (fun earlier birth => earlier.child.id = birth.parent)

/-- Along every path the stages of the default pipeline follow each other, or a repair comes
    between; four tasks in a row have a repair among them. -/
theorem path_stages {s : ChainRun} (staged : Staged ChainPolicy.default s)
    (types : ∀ birth ∈ s.births, isStage birth.child.taskType = true) {births : List Birth} (path : Path s births) :
    births.IsChain (fun earlier birth => birth.child.taskType = "repair.auto" ∨
      Next earlier.child.taskType birth.child.taskType) := by
  obtain ⟨born,linked⟩ := path
  induction births with
  | nil => exact .nil
  | cons earlier rest ih =>
    cases rest with
    | nil => exact .singleton earlier
    | cons birth rest =>
      rw [List.isChain_cons_cons] at linked ⊢
      have first := born earlier List.mem_cons_self
      have second := born birth (by simp)
      exact ⟨follows_next (types earlier first) (staged.stages birth second earlier first linked.1),
        ih (fun other member => born other (List.mem_cons_of_mem _ member)) linked.2⟩

/-- Four tasks in a row have a repair among them: after a deployment nothing comes but one. -/
theorem path_repair {births : List Birth} (stages : births.IsChain (fun earlier birth =>
      birth.child.taskType = "repair.auto" ∨ Next earlier.child.taskType birth.child.taskType))
    (long : 4 ≤ births.length) : ∃ birth ∈ births, birth.child.taskType = "repair.auto" := by
  match births,long with
  | first :: second :: third :: fourth :: rest,_ =>
    simp only [List.isChain_cons_cons] at stages
    obtain ⟨one,two,three,_⟩ := stages
    by_contra none
    simp only [not_exists,not_and] at none
    have noFirst := none first (by simp)
    have noSecond := none second (by simp)
    have noThird := none third (by simp)
    have next := one.resolve_left noSecond
    have after := two.resolve_left noThird
    have last := three.resolve_left (none fourth (by simp))
    unfold Next at next after last
    grind

/-- In every run of the default policy whose generated tasks get new identifiers and keep
    their types, whatever raises: along a chain of generated tasks testing, review and
    deployment follow each other and repair is followed by testing, with a repair wherever
    that breaks off; of four in a row one is a repair, so a chain without a failure ends
    within three. -/
theorem pipeline_ordered (reports : List Report)
    (faithful : Each (step ChainPolicy.default) Faithful newChainer reports) {births : List Birth}
    (path : Path (run (step ChainPolicy.default) newChainer reports) births) :
    births.IsChain (fun earlier birth => birth.child.taskType = "repair.auto" ∨
      Next earlier.child.taskType birth.child.taskType) ∧
    (4 ≤ births.length → ∃ birth ∈ births, birth.child.taskType = "repair.auto") ∧
    ((∀ given ∈ reports, given.failed = false) → births.length ≤ 3) := by
  have staged : Always (step ChainPolicy.default) (Staged ChainPolicy.default) newChainer reports := by
    refine always_of_each _ Faithful (fun s given staged meets => step_staged staged meets) ?_ faithful
    exact ⟨empty_listed,by simp [newChainer],by simp [newChainer]⟩
  have types : Always (step ChainPolicy.default) (fun s => ∀ birth ∈ s.births, isStage birth.child.taskType = true)
      newChainer reports := by
    refine always_of_step _ ?_ (fun birth member => by cases member) reports
    intro s given types birth member
    rcases step_born ChainPolicy.default s given member with old | ⟨chain,asked⟩
    · exact types birth old
    · exact (followUp_stage asked).1
  have stages := path_stages staged.last types.last path
  refine ⟨stages,path_repair stages,?_⟩
  intro completed
  have unrepaired : Always (step ChainPolicy.default) (fun s => ∀ birth ∈ s.births, birth.child.taskType ≠ "repair.auto")
      newChainer reports := by
    refine always_of_each _ (fun _ given => given.failed = false) ?_ (fun birth member => by cases member)
      (each_of_forall completed)
    intro s given none completed birth member
    rcases step_born ChainPolicy.default s given member with old | ⟨chain,asked⟩
    · exact none birth old
    · intro repair
      rw [(followUp_stage asked).2 repair] at completed
      cases completed
  by_contra long
  obtain ⟨birth,member,repair⟩ := path_repair stages (by omega)
  exact unrepaired.last birth (path.born birth member) repair

/-- A completed task of code generation. -/
def generated : Report where
  failed := false
  task := { id := "t1", taskType := "codegen.run" }
  newId := "t2"

/-- The testing that it gave rise to, completed. -/
def tested : Report where
  failed := false
  task := { id := "t2", taskType := "testing.auto" }
  newId := "t3"

theorem tested_ordered :
    (run (step ChainPolicy.default) newChainer [generated,tested]).births.IsChain (fun earlier birth =>
      birth.child.taskType = "repair.auto" ∨ Next earlier.child.taskType birth.child.taskType) := by
  have first : Fresh newChainer generated := ⟨by decide,by decide⟩
  obtain ⟨linked,born⟩ := @step_generated ChainPolicy.default newChainer generated _ _ empty_listed first rfl ⟨rfl,rfl⟩
  have second : Fresh (step ChainPolicy.default newChainer generated) tested := by
    refine ⟨?_,by decide⟩
    rw [linked.nodes]
    simp [generated,tested,newChainer,empty]
  obtain ⟨_,both⟩ := @step_generated ChainPolicy.default _ tested _ _
    (step_listed ChainPolicy.default empty_listed generated) second rfl ⟨rfl,rfl⟩
  have faithful : Each (step ChainPolicy.default) Faithful newChainer [generated,tested] := by
    refine each_cons.mpr ⟨⟨first,by simp [newChainer]⟩,each_cons.mpr ⟨⟨second,?_⟩,each_nil⟩⟩
    rw [born]
    intro birth member _
    obtain rfl := List.mem_singleton.mp (show birth ∈ [_] from member)
    rfl
  have path : Path (run (step ChainPolicy.default) newChainer [generated,tested])
      (run (step ChainPolicy.default) newChainer [generated,tested]).births := by
    refine ⟨fun _ member => member,?_⟩
    rw [run_cons,run_cons,run_nil,both,born]
    simp [newChainer,generated,tested,makeChild]
  exact (pipeline_ordered [generated,tested] faithful path).1

end Hookclose.ChainAudit
