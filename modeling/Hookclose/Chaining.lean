import Hookclose.DependencyGraph
import Hookclose.Runs
import Hookclose.TaskModels
import Mathlib.Logic.Function.Basic

/-!
Follow-up work from task outcomes. A completed task gives rise to the next stage
of its pipeline, a failed one to a repair; the metadata that bounds a chain
travels in the payload of each generated task. The identifier of a generated task
is given with the report that asks for it, and so is which of the store and the
bus raise while it is handled.
-/
namespace Hookclose.Chaining
open Hookclose.DependencyGraph Hookclose.DependencyGraph.TaskDependencyGraph Hookclose.Runs

def chainKey : String := "_chain"

/-- The place of a task in its chain; the parent is whatever the payload holds. -/
structure ChainMeta where
  root : String
  parent : Json
  depth : Int

def ChainMeta.toPayload (chain : ChainMeta) : Dict :=
  [("root",.str chain.root),("parent",chain.parent),("depth",.int chain.depth)]

/-- Reads the metadata of a task; a task without any is a root. -/
def chainMeta (task : Task) : Except Json.ConversionError ChainMeta :=
  match Dictionaries.get chainKey task.payload with
  | some (.dict raw) =>
    match Json.toInt ((Dictionaries.get "depth" raw).getD (.int 0)) with
    | .ok depth =>
      .ok {
        root := Json.toText ((Dictionaries.get "root" raw).getD (.str task.id))
        parent := (Dictionaries.get "parent" raw).getD .null
        depth := depth }
    | .error error => .error error
  | _ => .ok ⟨task.id,.null,0⟩

/-- The continuation of each stage, and the bound on the depth of a chain. -/
structure ChainPolicy where
  continuation : String → Option String
  maxDepth : Int := 8

def ChainPolicy.default : ChainPolicy where
  continuation := fun head =>
    if head = "codegen" then some "testing"
    else if head = "testing" then some "review"
    else if head = "review" then some "deploy"
    else if head = "repair" then some "testing"
    else none

/-- The next stage after a task type, which its part before the first dot decides. -/
def ChainPolicy.nextHead (policy : ChainPolicy) (taskType : String) : Option String :=
  policy.continuation (String.ofList (taskType.toList.takeWhile (fun c => c ≠ '.')))

/-- The chaining events. -/
inductive ChainEvent
  | nextTaskGenerated (parentTaskId newTaskId newTaskType trigger : String) (depth : Int)
  | repairTaskCreated (failedTaskId repairTaskId : String) (attempt depth : Int)
  | escalationRaised (taskId reason : String) (depth : Int)
  | chainTerminated (rootTaskId reason : String) (depth : Int)

/-- What a call raises. -/
inductive ChainFailure
  | cycleError (message : String)
  | conversion (error : Json.ConversionError)
  | store
  | bus

/-- Which of the awaited calls raise. -/
structure Faults where
  store : Bool := false
  bus : Bool := false

structure ChainerState where
  graph : TaskDependencyGraph := TaskDependencyGraph.empty
  store : String → List Task := fun _ => []
  events : List ChainEvent := []

/-! ### The chainer -/

def makeChild (parent : Task) (taskType : String) (chain : ChainMeta) (newId : String) : Task where
  id := newId
  workflowId := parent.workflowId
  taskType := taskType
  provider := parent.provider
  payload := [(chainKey,.dict (ChainMeta.toPayload ⟨chain.root,.str parent.id,chain.depth + 1⟩))]
  maxAttempts := parent.maxAttempts

/-- The repair task of a failed one. -/
def repairTask (task : Task) (chain : ChainMeta) (newId : String) : Task :=
  let repair := makeChild task "repair.auto" chain newId
  { repair with
    payload := Dictionaries.assign "original_task_type" (.str task.taskType)
      (Dictionaries.assign "repairs_task_id" (.str task.id) repair.payload) }

def emit (faults : Faults) (event : ChainEvent) (s : ChainerState) : ChainerState × Option ChainFailure :=
  if faults.bus then (s,some .bus) else ({ s with events := s.events ++ [event] },none)

def terminate (faults : Faults) (root reason : String) (depth : Int) (s : ChainerState) :
    ChainerState × Option ChainFailure :=
  emit faults (.chainTerminated root reason depth) s

def linkAndRecord (faults : Faults) (parent child : Task) (chain : ChainMeta) (s : ChainerState) :
    ChainerState × Option ChainFailure :=
  let linked := s.graph.addDependency child.id parent.id
  let s := { s with graph := linked.1 }
  match linked.2 with
  | some message => (s,some (.cycleError message))
  | none =>
    if faults.store then (s,some .store)
    else ({ s with store := Function.update s.store chain.root (s.store chain.root ++ [child]) },none)

/-- The end of a call: its tasks, unless its last await raised. -/
def returning (tasks : List Task) (ended : ChainerState × Option ChainFailure) :
    ChainerState × Except ChainFailure (List Task) :=
  match ended.2 with
  | some failure => (ended.1,.error failure)
  | none => (ended.1,.ok tasks)

/-- Links and records a generated task, announces it and returns it. -/
def generate (faults : Faults) (parent child : Task) (chain : ChainMeta) (event : ChainEvent) (s : ChainerState) :
    ChainerState × Except ChainFailure (List Task) :=
  let linked := linkAndRecord faults parent child chain s
  match linked.2 with
  | some failure => (linked.1,.error failure)
  | none => returning [child] (emit faults event linked.1)

/-- Generates the continuation of a completed task. -/
def onCompleted (policy : ChainPolicy) (faults : Faults) (newId : String) (task : Task) (s : ChainerState) :
    ChainerState × Except ChainFailure (List Task) :=
  let s := { s with graph := s.graph.markDone task.id }
  match chainMeta task with
  | .error error => (s,.error (.conversion error))
  | .ok chain =>
    match policy.nextHead task.taskType with
    | none => (s,.ok [])
    | some head =>
      if policy.maxDepth < chain.depth + 1 then
        returning [] (terminate faults chain.root "max chain depth reached" chain.depth s)
      else
        let child := makeChild task (head ++ ".auto") chain newId
        generate faults task child chain
          (.nextTaskGenerated task.id child.id child.taskType (task.taskType ++ ":completed") (chain.depth + 1)) s

/-- Generates the repair of a failed task, or escalates once its attempts are used up. -/
def onFailed (policy : ChainPolicy) (faults : Faults) (newId : String) (task : Task) (s : ChainerState) :
    ChainerState × Except ChainFailure (List Task) :=
  let s := { s with graph := s.graph.addTask task.id }
  match chainMeta task with
  | .error error => (s,.error (.conversion error))
  | .ok chain =>
    if task.maxAttempts ≤ task.attempts then
      returning [] (emit faults (.escalationRaised task.id "retries exhausted" chain.depth) s)
    else if policy.maxDepth < chain.depth + 1 then
      returning [] (terminate faults chain.root "max chain depth reached" chain.depth s)
    else
      let repair := repairTask task chain newId
      generate faults task repair chain
        (.repairTaskCreated task.id repair.id (task.attempts + 1) (chain.depth + 1)) s

/-! ### Reports -/

/-- A call on the chainer: the task it is about, the identifier a generated task
    would get, and what raises. -/
structure Report where
  failed : Bool
  task : Task
  newId : String
  faults : Faults := {}

def report (policy : ChainPolicy) (given : Report) (s : ChainerState) : ChainerState × Except ChainFailure (List Task) :=
  if given.failed then onFailed policy given.faults given.newId given.task s
  else onCompleted policy given.faults given.newId given.task s

/-- The graph once the reported task is noted in it. -/
def note (given : Report) (graph : TaskDependencyGraph) : TaskDependencyGraph :=
  if given.failed then graph.addTask given.task.id else graph.markDone given.task.id

/-- The task that a report asks for, with the metadata of the reported one. -/
def followUp (policy : ChainPolicy) (given : Report) : Option (ChainMeta × Task) :=
  match chainMeta given.task with
  | .error _ => none
  | .ok chain =>
    if policy.maxDepth < chain.depth + 1 then none
    else if given.failed then
      if given.task.maxAttempts ≤ given.task.attempts then none
      else some (chain,repairTask given.task chain given.newId)
    else (policy.nextHead given.task.taskType).map
      (fun head => (chain,makeChild given.task (head ++ ".auto") chain given.newId))

/-- An announcement that ends a call without a task. -/
theorem announce_cases (faults : Faults) (event : ChainEvent) (s : ChainerState) :
    (returning [] (emit faults event s)).1.graph = s.graph ∧ (returning [] (emit faults event s)).1.store = s.store ∧
      ((returning [] (emit faults event s)).2 = .ok [] ∨
        (faults.bus = true ∧ (returning [] (emit faults event s)).2 = .error .bus)) := by
  cases bus : faults.bus with
  | true => simp [returning,emit,bus]
  | false => simp [returning,emit,bus]

/-- A report generates the follow-up it asks for, or it notes the task and does no more. -/
theorem report_cases (policy : ChainPolicy) (given : Report) (s : ChainerState) :
    (∃ chain child event, followUp policy given = some (chain,child) ∧
      report policy given s =
        generate given.faults given.task child chain event { s with graph := note given s.graph }) ∨
    (followUp policy given = none ∧ (report policy given s).1.graph = note given s.graph ∧
      (report policy given s).1.store = s.store ∧
      ((report policy given s).2 = .ok [] ∨
        (∃ error, chainMeta given.task = .error error ∧ (report policy given s).2 = .error (.conversion error)) ∨
        (given.faults.bus = true ∧ (report policy given s).2 = .error .bus))) := by
  obtain ⟨failed,task,newId,faults⟩ := given
  cases read : chainMeta task with
  | error error =>
    right
    cases failed <;> simp [followUp,report,onFailed,onCompleted,note,read]
  | ok chain =>
    cases failed with
    | true =>
      by_cases usedUp : task.maxAttempts ≤ task.attempts
      · obtain ⟨graph,store,result⟩ := announce_cases faults
          (.escalationRaised task.id "retries exhausted" chain.depth) { s with graph := s.graph.addTask task.id }
        right
        simp only [followUp,report,onFailed,note,read,if_pos usedUp,ite_self,if_true]
        exact ⟨trivial,graph,store,result.imp_right (fun bus => .inr bus)⟩
      · by_cases deep : policy.maxDepth < chain.depth + 1
        · obtain ⟨graph,store,result⟩ := announce_cases faults
            (.chainTerminated chain.root "max chain depth reached" chain.depth)
            { s with graph := s.graph.addTask task.id }
          right
          simp only [followUp,report,onFailed,note,read,if_neg usedUp,if_pos deep,if_true]
          exact ⟨trivial,graph,store,result.imp_right (fun bus => .inr bus)⟩
        · left
          simp only [followUp,report,onFailed,note,read,if_neg usedUp,if_neg deep,if_true]
          exact ⟨chain,_,_,rfl,rfl⟩
    | false =>
      cases next : policy.nextHead task.taskType with
      | none =>
        right
        simp [followUp,report,onCompleted,note,read,next]
      | some head =>
        by_cases deep : policy.maxDepth < chain.depth + 1
        · obtain ⟨graph,store,result⟩ := announce_cases faults
            (.chainTerminated chain.root "max chain depth reached" chain.depth)
            { s with graph := s.graph.markDone task.id }
          right
          simp only [followUp,report,onCompleted,note,read,next,if_pos deep,Bool.false_eq_true,if_false]
          exact ⟨trivial,graph,store,result.imp_right (fun bus => .inr bus)⟩
        · left
          simp only [followUp,report,onCompleted,note,read,next,if_neg deep,Bool.false_eq_true,if_false]
          exact ⟨chain,_,_,rfl,rfl⟩

/-- The metadata that a child is given is what is read from it. -/
theorem chainMeta_of_payload {child : Task} {chain : ChainMeta}
    (stored : Dictionaries.get chainKey child.payload = some (.dict chain.toPayload)) (parent : String)
    (given : chain.parent = .str parent) : chainMeta child = .ok chain := by
  obtain ⟨root,_,depth⟩ := chain
  cases given
  simp [chainMeta,stored,ChainMeta.toPayload,Dictionaries.get,Json.toInt,Json.toText]

theorem chainMeta_makeChild (parent : Task) (taskType : String) (chain : ChainMeta) (newId : String) :
    chainMeta (makeChild parent taskType chain newId) = .ok ⟨chain.root,.str parent.id,chain.depth + 1⟩ := by
  apply chainMeta_of_payload _ parent.id
  · rfl
  · rfl

theorem chainMeta_repairTask (task : Task) (chain : ChainMeta) (newId : String) :
    chainMeta (repairTask task chain newId) = .ok ⟨chain.root,.str task.id,chain.depth + 1⟩ := by
  apply chainMeta_of_payload _ task.id
  · rfl
  · rfl

/-- What a follow-up is: one level below the reported task, within the bound. -/
theorem followUp_child {policy : ChainPolicy} {given : Report} {chain : ChainMeta} {child : Task}
    (asked : followUp policy given = some (chain,child)) :
    chainMeta given.task = .ok chain ∧ chain.depth + 1 ≤ policy.maxDepth ∧ child.id = given.newId ∧
      chainMeta child = .ok ⟨chain.root,.str given.task.id,chain.depth + 1⟩ := by
  unfold followUp at asked
  split at asked
  · cases asked
  · rename_i read
    split_ifs at asked with deep failed usedUp
    · cases asked
      exact ⟨read,not_lt.mp deep,rfl,chainMeta_repairTask ..⟩
    · obtain ⟨head,_,made⟩ := Option.map_eq_some_iff.mp asked
      cases made
      exact ⟨read,not_lt.mp deep,rfl,chainMeta_makeChild ..⟩

theorem note_listed {graph : TaskDependencyGraph} (listed : Listed graph) (given : Report) : Listed (note given graph) := by
  unfold note
  split_ifs
  · exact addTask_listed listed given.task.id
  · exact markDone_listed listed given.task.id

@[simp] theorem mem_note {given : Report} {graph : TaskDependencyGraph} {task : String} :
    task ∈ (note given graph).nodes ↔ task = given.task.id ∨ task ∈ graph.nodes := by
  unfold note
  split_ifs <;> simp

@[simp] theorem note_prerequisites (given : Report) (graph : TaskDependencyGraph) :
    (note given graph).prerequisites = graph.prerequisites := by
  unfold note
  split_ifs <;> rfl

theorem mem_note_done {given : Report} {graph : TaskDependencyGraph} {task : String} :
    task ∈ (note given graph).done ↔ (given.failed = false ∧ task = given.task.id) ∨ task ∈ graph.done := by
  unfold note
  split_ifs with failed <;> simp [failed]

theorem generate_graph (faults : Faults) (parent child : Task) (chain : ChainMeta) (event : ChainEvent)
    (s : ChainerState) :
    (generate faults parent child chain event s).1.graph = (s.graph.addDependency child.id parent.id).1 := by
  cases refused : (s.graph.addDependency child.id parent.id).2 with
  | some message => simp [generate,linkAndRecord,refused]
  | none =>
    cases store : faults.store <;> cases bus : faults.bus <;>
      simp [generate,linkAndRecord,refused,store,bus,returning,emit]

/-- A child that the graph accepts is recorded and returned, unless the store or the
    bus raises. -/
theorem generate_accepted (s : ChainerState) {parent child : Task}
    (accepted : (s.graph.addDependency child.id parent.id).2 = none) (faults : Faults) (chain : ChainMeta)
    (event : ChainEvent) :
    ((faults.store = false ∧ faults.bus = false) ∧ (generate faults parent child chain event s).2 = .ok [child] ∧
      (generate faults parent child chain event s).1.store =
        Function.update s.store chain.root (s.store chain.root ++ [child])) ∨
    ((faults.store = true ∨ faults.bus = true) ∧
      ∃ failure, (generate faults parent child chain event s).2 = .error failure) := by
  cases store : faults.store <;> cases bus : faults.bus <;>
    simp [generate,linkAndRecord,accepted,store,bus,returning,emit]

/-! ### Runs of reports -/

/-- A task that a call returned, and the task whose report asked for it. -/
structure Birth where
  child : Task
  parent : String

/-- A chainer during a run, with the births so far and the result of the last call. -/
structure ChainRun where
  chainer : ChainerState := {}
  births : List Birth := []
  last : Except ChainFailure (List Task) := .ok []

/-- A chainer that has just been constructed. -/
def newChainer : ChainRun := {}

def returned : Except ChainFailure (List Task) → List Task
  | .ok tasks => tasks
  | .error _ => []

def step (policy : ChainPolicy) (s : ChainRun) (given : Report) : ChainRun :=
  let done := report policy given s.chainer
  { chainer := done.1
    births := s.births ++ (returned done.2).map (fun child => ⟨child,given.task.id⟩)
    last := done.2 }

theorem step_chainer (policy : ChainPolicy) (s : ChainRun) (given : Report) :
    (step policy s given).chainer = (report policy given s.chainer).1 := rfl

theorem step_births (policy : ChainPolicy) (s : ChainRun) (given : Report) :
    (step policy s given).births =
      s.births ++ (returned (report policy given s.chainer).2).map (fun child => ⟨child,given.task.id⟩) := rfl

theorem step_last (policy : ChainPolicy) (s : ChainRun) (given : Report) :
    (step policy s given).last = (report policy given s.chainer).2 := rfl

/-- The identifier set aside for a generated task is that of no task seen so far. -/
def Fresh (s : ChainRun) (given : Report) : Prop :=
  given.newId ∉ s.chainer.graph.nodes ∧ given.newId ≠ given.task.id

/-- The graph after a report that links its follow-up: it gains one edge. -/
structure Linked (given : Report) (before after : TaskDependencyGraph) : Prop where
  nodes : ∀ task, task ∈ after.nodes ↔ task = given.task.id ∨ task = given.newId ∨ task ∈ before.nodes
  done : after.done = (note given before).done
  edges : ∀ task other, other ∈ after.prerequisites task ↔
    other ∈ before.prerequisites task ∨ (task = given.newId ∧ other = given.task.id)

/-- What one report with a fresh identifier can do. -/
inductive Stepped (policy : ChainPolicy) (s : ChainRun) (given : Report) (after : ChainRun) : Prop
  | generated (chain : ChainMeta) (child : Task) (asked : followUp policy given = some (chain,child))
      (quiet : given.faults.store = false ∧ given.faults.bus = false)
      (linked : Linked given s.chainer.graph after.chainer.graph) (last : after.last = .ok [child])
      (births : after.births = s.births ++ [⟨child,given.task.id⟩])
      (store : after.chainer.store =
        Function.update s.chainer.store chain.root (s.chainer.store chain.root ++ [child]))
  | lost (asked : (followUp policy given).isSome) (raised : given.faults.store = true ∨ given.faults.bus = true)
      (linked : Linked given s.chainer.graph after.chainer.graph) (failure : ChainFailure)
      (last : after.last = .error failure) (births : after.births = s.births)
  | noted (asked : followUp policy given = none) (graph : after.chainer.graph = note given s.chainer.graph)
      (births : after.births = s.births) (store : after.chainer.store = s.chainer.store)
      (last : after.last = .ok [] ∨ (∃ error, chainMeta given.task = .error error ∧ after.last = .error (.conversion error)) ∨
        (given.faults.bus = true ∧ after.last = .error .bus))

theorem step_stepped (policy : ChainPolicy) {s : ChainRun} (listed : Listed s.chainer.graph) {given : Report}
    (fresh : Fresh s given) : Stepped policy s given (step policy s given) := by
  rcases report_cases policy given s.chainer with ⟨chain,child,event,asked,made⟩ | ⟨asked,graph,store,last⟩
  · obtain ⟨_,_,named,_⟩ := followUp_child asked
    have unlisted : child.id ∉ (note given s.chainer.graph).nodes := by
      rw [named,mem_note,not_or]
      exact ⟨fresh.2,fresh.1⟩
    obtain ⟨accepted,edges⟩ := addDependency_fresh (note_listed listed given) unlisted (named ▸ fresh.2)
    obtain ⟨nodes,done,_⟩ := addDependency_cases child.id given.task.id (note given s.chainer.graph)
    have linked : Linked given s.chainer.graph (step policy s given).chainer.graph := by
      have graph : (step policy s given).chainer.graph =
          ((note given s.chainer.graph).addDependency child.id given.task.id).1 := by
        rw [step_chainer,made,generate_graph]
      refine ⟨?_,?_,?_⟩
      · intro task
        rw [graph,nodes,mem_note,named]
        constructor
        · rintro (same | same | same | listed)
          · exact .inl same
          · exact .inr (.inl same)
          · exact .inl same
          · exact .inr (.inr listed)
        · rintro (same | same | listed)
          · exact .inl same
          · exact .inr (.inl same)
          · exact .inr (.inr (.inr listed))
      · rw [graph,done]
      · intro task other
        rw [graph,edges,note_prerequisites,named]
    rcases generate_accepted { s.chainer with graph := note given s.chainer.graph } accepted given.faults chain event
      with ⟨quiet,last,store⟩ | ⟨raised,failure,last⟩
    · refine .generated chain child asked quiet linked ?_ ?_ ?_
      · rw [step_last,made,last]
      · rw [step_births,made,last]
        rfl
      · rw [step_chainer,made]
        exact store
    · refine .lost (by rw [asked]; rfl) raised linked failure ?_ ?_
      · rw [step_last,made,last]
      · rw [step_births,made,last]
        exact List.append_nil s.births
  · refine .noted asked graph ?_ store last
    rw [step_births]
    rcases last with empty | ⟨error,_,raised⟩ | ⟨_,raised⟩
    · rw [empty]
      exact List.append_nil s.births
    · rw [raised]
      exact List.append_nil s.births
    · rw [raised]
      exact List.append_nil s.births

/-- A report that asks for a follow-up gets it where nothing raises. -/
theorem step_generated {policy : ChainPolicy} {s : ChainRun} {given : Report} {chain : ChainMeta} {child : Task}
    (listed : Listed s.chainer.graph) (fresh : Fresh s given) (asked : followUp policy given = some (chain,child))
    (quiet : given.faults.store = false ∧ given.faults.bus = false) :
    Linked given s.chainer.graph (step policy s given).chainer.graph ∧
      (step policy s given).births = s.births ++ [⟨child,given.task.id⟩] := by
  cases step_stepped policy listed fresh with
  | generated _ other same _ linked _ births _ =>
    rw [asked] at same
    cases same
    exact ⟨linked,births⟩
  | lost _ raised _ _ _ _ => simp [quiet.1,quiet.2] at raised
  | noted none _ _ _ _ =>
    rw [asked] at none
    cases none

/-- A graph stays well listed whatever is reported. -/
theorem step_listed (policy : ChainPolicy) {s : ChainRun} (listed : Listed s.chainer.graph) (given : Report) :
    Listed (step policy s given).chainer.graph := by
  rcases report_cases policy given s.chainer with ⟨chain,child,event,_,made⟩ | ⟨_,graph,_⟩
  · have graph : (step policy s given).chainer.graph =
        ((note given s.chainer.graph).addDependency child.id given.task.id).1 := by
      rw [step_chainer,made,generate_graph]
    rw [graph]
    exact addDependency_listed (note_listed listed given) child.id given.task.id
  · have same : (step policy s given).chainer.graph = note given s.chainer.graph := graph
    rw [same]
    exact note_listed listed given

end Hookclose.Chaining
