import Hookclose.Acyclicity
import Hookclose.DependencyGraph
import Hookclose.Runs

/-!
Runs of the dependency graph from the empty one. Refused or not, no insertion closes
a cycle; so as long as tasks are marked done only when they are ready, something is
ready until everything is done, and marking ready tasks in any order completes the
graph in an order that respects the prerequisites.
-/
namespace Hookclose.GraphRuns
open Hookclose.Worklist Hookclose.Acyclicity Hookclose.DependencyGraph Hookclose.DependencyGraph.TaskDependencyGraph
open Hookclose.Runs

/-- The calls that change a graph. -/
inductive Operation
  | addTask (taskId : String)
  | addDependency (taskId dependsOn : String)
  | markDone (taskId : String)

/-- The graph after a call, whether or not it raises. -/
def step (graph : TaskDependencyGraph) : Operation → TaskDependencyGraph
  | .addTask taskId => graph.addTask taskId
  | .addDependency taskId dependsOn => (graph.addDependency taskId dependsOn).1
  | .markDone taskId => graph.markDone taskId

/-- The recorded dependency relation. -/
def DependsOn (graph : TaskDependencyGraph) (task other : String) : Prop := other ∈ graph.prerequisites task

/-! ### Cycles -/

/-- An insertion is refused exactly when it would close a cycle, and adds exactly its
    edge when it is not. -/
structure Exact (graph : TaskDependencyGraph) (taskId dependsOn : String) : Prop where
  raises : (graph.addDependency taskId dependsOn).2 ≠ none ↔
    taskId = dependsOn ∨ Relation.ReflTransGen (DependsOn graph) dependsOn taskId
  adds : (graph.addDependency taskId dependsOn).2 = none → ∀ task other,
    DependsOn (graph.addDependency taskId dependsOn).1 task other ↔
      DependsOn graph task other ∨ (task = taskId ∧ other = dependsOn)

theorem addDependency_exact (graph : TaskDependencyGraph) (taskId dependsOn : String) : Exact graph taskId dependsOn := by
  obtain ⟨_,_,refused | added⟩ := addDependency_cases taskId dependsOn graph
  · obtain ⟨cyclic,raised,_⟩ := refused
    have failed : (graph.addDependency taskId dependsOn).2 ≠ none := Option.isSome_iff_ne_none.mp raised
    exact ⟨⟨fun _ => cyclic,fun _ => failed⟩,fun accepted => absurd accepted failed⟩
  · obtain ⟨differs,apart,accepted,edges⟩ := added
    refine ⟨⟨fun raised => absurd accepted raised,?_⟩,fun _ => edges⟩
    rintro (same | path)
    · exact absurd same differs
    · exact absurd path apart

/-- What every call keeps: no cycle, and only nodes as prerequisites. -/
structure Sound (graph : TaskDependencyGraph) : Prop where
  acyclic : Acyclic (DependsOn graph)
  listed : Listed graph

theorem addDependency_acyclic {graph : TaskDependencyGraph} (acyclic : Acyclic (DependsOn graph))
    (taskId dependsOn : String) : Acyclic (DependsOn (graph.addDependency taskId dependsOn).1) := by
  obtain ⟨_,_,refused | added⟩ := addDependency_cases taskId dependsOn graph
  · obtain ⟨_,_,same⟩ := refused
    have unchanged : DependsOn (graph.addDependency taskId dependsOn).1 = DependsOn graph := by
      funext task other
      rw [DependsOn,same]
      rfl
    rwa [unchanged]
  · obtain ⟨_,apart,_,edges⟩ := added
    have inserted : DependsOn (graph.addDependency taskId dependsOn).1 =
        insertEdge (DependsOn graph) taskId dependsOn := by
      funext task other
      exact propext (edges task other)
    rw [inserted]
    exact acyclic_insertEdge acyclic apart

theorem empty_sound : Sound TaskDependencyGraph.empty := by
  refine ⟨?_,empty_listed⟩
  intro task cycle
  obtain ⟨next,edge,_⟩ := Relation.TransGen.head'_iff.mp cycle
  cases edge

theorem step_sound {graph : TaskDependencyGraph} (sound : Sound graph) (operation : Operation) :
    Sound (step graph operation) := by
  cases operation with
  | addTask taskId => exact ⟨sound.acyclic,addTask_listed sound.listed taskId⟩
  | addDependency taskId dependsOn =>
    exact ⟨addDependency_acyclic sound.acyclic taskId dependsOn,addDependency_listed sound.listed taskId dependsOn⟩
  | markDone taskId => exact ⟨sound.acyclic,markDone_listed sound.listed taskId⟩

/-- In every run from the empty graph there is never a cycle, every prerequisite is a
    node, and every insertion is exact; and the search that decides it ends on every
    graph, in whatever order the prerequisites of a task are pushed. -/
theorem cycles_prevented (operations : List Operation) :
    Always step (fun graph => Acyclic (DependsOn graph) ∧
      (∀ task other, DependsOn graph task other → other ∈ graph.nodes) ∧
      ∀ taskId dependsOn, Exact graph taskId dependsOn) TaskDependencyGraph.empty operations ∧
    ∀ (graph : TaskDependencyGraph) (target : String),
      WellFounded (fun after before => Turn graph.prerequisites target before after) := by
  constructor
  · refine (always_of_step Sound (fun graph operation sound => step_sound sound operation) empty_sound operations).mono ?_
    intro graph sound
    exact ⟨sound.acyclic,sound.listed.prerequisites,addDependency_exact graph⟩
  · intro graph target
    exact turns_end graph.unlisted target

/-! ### Readiness -/

/-- The calls of a scheduler that keeps to the protocol: a dependency is added to a
    task only before it is done, and a task is marked done only when it is ready. -/
def Disciplined (graph : TaskDependencyGraph) : Operation → Prop
  | .addTask _ => True
  | .addDependency taskId _ => taskId ∉ graph.done
  | .markDone taskId => taskId ∈ graph.ready

/-- Every done task was ready: its prerequisites are done. -/
def DoneClosed (graph : TaskDependencyGraph) : Prop :=
  ∀ task ∈ graph.done, ∀ other, DependsOn graph task other → other ∈ graph.done

/-- What disciplined calls keep. -/
structure Scheduled (graph : TaskDependencyGraph) : Prop where
  sound : Sound graph
  closed : DoneClosed graph

theorem step_closed {graph : TaskDependencyGraph} (closed : DoneClosed graph) {operation : Operation}
    (disciplined : Disciplined graph operation) : DoneClosed (step graph operation) := by
  intro task finished other edge
  cases operation with
  | addTask taskId => exact closed task finished other edge
  | addDependency taskId dependsOn =>
    obtain ⟨_,done,refused | added⟩ := addDependency_cases taskId dependsOn graph
    · obtain ⟨_,_,same⟩ := refused
      simp only [step,DependsOn,same,done] at finished edge ⊢
      exact closed task finished other edge
    · obtain ⟨_,_,_,edges⟩ := added
      simp only [step,done] at finished ⊢
      rcases (edges task other).mp edge with earlier | ⟨rfl,_⟩
      · exact closed task finished other earlier
      · exact absurd finished disciplined
  | markDone taskId =>
    obtain ⟨_,_,met⟩ := mem_ready.mp disciplined
    rcases mem_markDone.mp finished with rfl | before
    · exact mem_markDone.mpr (.inr (met other edge))
    · exact mem_markDone.mpr (.inr (closed task before other edge))

theorem empty_scheduled : Scheduled TaskDependencyGraph.empty := by
  refine ⟨empty_sound,?_⟩
  intro task finished
  cases finished

theorem step_scheduled (graph : TaskDependencyGraph) (operation : Operation) (scheduled : Scheduled graph)
    (disciplined : Disciplined graph operation) : Scheduled (step graph operation) :=
  ⟨step_sound scheduled.sound operation,step_closed scheduled.closed disciplined⟩

/-- The nodes that are not done. -/
def unfinished (graph : TaskDependencyGraph) : List String := graph.nodes.filter (fun task => !graph.isDone task)

@[simp] theorem mem_unfinished {graph : TaskDependencyGraph} {task : String} :
    task ∈ unfinished graph ↔ task ∈ graph.nodes ∧ task ∉ graph.done := by
  simp [unfinished,isDone]

theorem isComplete_iff (graph : TaskDependencyGraph) : graph.isComplete = true ↔ unfinished graph = [] := by
  simp [isComplete,unfinished,isDone]

/-- A graph is never stuck: of the unfinished tasks, one that requires no other is ready. -/
theorem ready_of_incomplete {graph : TaskDependencyGraph} (sound : Sound graph) (incomplete : graph.isComplete ≠ true) :
    graph.ready ≠ [] := by
  rw [Ne,isComplete_iff] at incomplete
  obtain ⟨task,waiting,last⟩ := exists_last sound.acyclic incomplete
  obtain ⟨node,undone⟩ := mem_unfinished.mp waiting
  have met : ∀ other ∈ graph.prerequisites task, other ∈ graph.done := by
    intro other edge
    by_contra missing
    exact last other (mem_unfinished.mpr ⟨sound.listed.prerequisites task other edge,missing⟩) edge
  exact List.ne_nil_of_mem (mem_ready.mpr ⟨node,undone,met⟩)

/-- Marking a ready task leaves one task fewer to finish. -/
theorem markDone_unfinished {graph : TaskDependencyGraph} {task : String} (ready : task ∈ graph.ready) :
    (unfinished (graph.markDone task)).length + 1 = (unfinished graph).length := by
  obtain ⟨node,waiting,_⟩ := mem_ready.mp ready
  have nodes : (graph.markDone task).nodes = graph.nodes := List.insert_of_mem node
  have fewer : unfinished (graph.markDone task) = (unfinished graph).erase task := by
    rw [unfinished,unfinished,nodes,(graph.distinct.filter _).erase_eq_filter,List.filter_filter]
    refine List.filter_congr ?_
    intro other _
    by_cases same : other = task <;> simp [isDone,same]
  rw [fewer,List.length_erase_of_mem (mem_unfinished.mpr ⟨node,waiting⟩)]
  exact Nat.sub_add_cancel (List.length_pos_of_mem (mem_unfinished.mpr ⟨node,waiting⟩))

/-- An order in which tasks are marked done, each of them when it is ready. -/
def ReadyOrder (graph : TaskDependencyGraph) (order : List String) : Prop :=
  Each step Disciplined graph (order.map .markDone)

/-- The graph once the tasks of an order are marked done. -/
def finish (graph : TaskDependencyGraph) (order : List String) : TaskDependencyGraph :=
  run step graph (order.map .markDone)

theorem finish_concat (graph : TaskDependencyGraph) (order : List String) (task : String) :
    finish graph (order ++ [task]) = (finish graph order).markDone task := by
  rw [finish,List.map_append,List.map_singleton,run_concat]
  rfl

theorem finish_edges (graph : TaskDependencyGraph) (order : List String) :
    DependsOn (finish graph order) = DependsOn graph := by
  induction order using List.reverseRecOn with
  | nil => rfl
  | append_singleton order task ih =>
    rw [finish_concat,← ih]
    rfl

theorem mem_finish {graph : TaskDependencyGraph} {order : List String} {task : String} :
    task ∈ (finish graph order).done ↔ task ∈ graph.done ∨ task ∈ order := by
  induction order using List.reverseRecOn with
  | nil => simp [finish]
  | append_singleton order last ih => grind [finish_concat,mem_markDone]

theorem readyOrder_concat {graph : TaskDependencyGraph} {order : List String} {task : String} :
    ReadyOrder graph (order ++ [task]) ↔ ReadyOrder graph order ∧ task ∈ (finish graph order).ready := by
  rw [ReadyOrder,List.map_append,List.map_singleton,each_concat]
  rfl

theorem finish_scheduled {graph : TaskDependencyGraph} (scheduled : Scheduled graph) {order : List String}
    (ready : ReadyOrder graph order) : Scheduled (finish graph order) :=
  (always_of_each Scheduled Disciplined step_scheduled scheduled ready).last

/-- Each task of an order takes one from the unfinished ones. -/
theorem finish_unfinished {graph : TaskDependencyGraph} {order : List String} (ready : ReadyOrder graph order) :
    (unfinished (finish graph order)).length + order.length = (unfinished graph).length := by
  induction order using List.reverseRecOn with
  | nil => rfl
  | append_singleton order task ih =>
    obtain ⟨earlier,now⟩ := readyOrder_concat.mp ready
    have before := ih earlier
    have fewer := markDone_unfinished now
    rw [finish_concat,List.length_append,List.length_singleton]
    omega

/-- Each task of an order comes after all its prerequisites that were not done before. -/
theorem readyOrder_follows {graph : TaskDependencyGraph} {order : List String} (ready : ReadyOrder graph order) :
    Throughout (fun before task => ∀ other, DependsOn graph task other → other ∈ graph.done ∨ other ∈ before) order := by
  induction order using List.reverseRecOn with
  | nil => exact throughout_nil
  | append_singleton order task ih =>
    obtain ⟨earlier,now⟩ := readyOrder_concat.mp ready
    refine throughout_concat.mpr ⟨ih earlier,?_⟩
    intro other edge
    obtain ⟨_,_,met⟩ := mem_ready.mp now
    rw [← finish_edges graph order] at edge
    exact mem_finish.mp (met other edge)

/-- How a graph is completed by marking ready tasks, whichever are chosen: no choice
    gets stuck, it is complete after exactly as many steps as there were unfinished
    tasks, and each task comes after all its prerequisites. -/
structure Completes (graph : TaskDependencyGraph) (order : List String) : Prop where
  progress : (finish graph order).isComplete ≠ true → (finish graph order).ready ≠ []
  bounded : order.length ≤ (unfinished graph).length
  complete : (finish graph order).isComplete = true ↔ order.length = (unfinished graph).length
  follows : Throughout (fun before task => ∀ other, DependsOn graph task other → other ∈ graph.done ∨ other ∈ before)
    order

theorem completes {graph : TaskDependencyGraph} (scheduled : Scheduled graph) {order : List String}
    (ready : ReadyOrder graph order) : Completes graph order := by
  have count := finish_unfinished ready
  refine ⟨ready_of_incomplete (finish_scheduled scheduled ready).sound,by omega,?_,readyOrder_follows ready⟩
  rw [isComplete_iff,← List.length_eq_zero_iff]
  omega

/-- In every disciplined run from the empty graph the prerequisites of every done task
    are done, and something is ready unless the graph is complete; so marking ready
    tasks completes it, in as many steps as there are unfinished tasks. -/
theorem readiness_sound {operations : List Operation}
    (disciplined : Each step Disciplined TaskDependencyGraph.empty operations) :
    Always step (fun graph => DoneClosed graph ∧ (graph.isComplete ≠ true → graph.ready ≠ []) ∧
      ∀ order, ReadyOrder graph order → Completes graph order) TaskDependencyGraph.empty operations := by
  have scheduled := always_of_each Scheduled Disciplined step_scheduled empty_scheduled disciplined
  refine scheduled.mono ?_
  intro graph scheduled
  exact ⟨scheduled.closed,ready_of_incomplete scheduled.sound,fun order ready => completes scheduled ready⟩

/-- A diamond: two tasks that share a prerequisite, and one that requires both. -/
def diamond : List Operation :=
  [.addDependency "left" "base",.addDependency "right" "base",.addDependency "top" "left",.markDone "base",
    .addDependency "top" "right"]

theorem diamond_completes : Completes (run step TaskDependencyGraph.empty diamond) ["right","left","top"] := by
  have disciplined : Each step Disciplined TaskDependencyGraph.empty diamond := by
    simp [diamond,each_cons,each_nil,Disciplined,step,TaskDependencyGraph.empty,addDependency,reaches,search,link,
      ready,isDone,addTask,markDone]
  have order : ReadyOrder (run step TaskDependencyGraph.empty diamond) ["right","left","top"] := by
    simp [ReadyOrder,diamond,each_cons,each_nil,Disciplined,step,TaskDependencyGraph.empty,addDependency,reaches,search,
      link,ready,isDone,addTask,markDone]
  exact (readiness_sound disciplined).last.2.2 _ order

/-! ### Refused edges -/

/-- A refused edge leaves the graph as it was, and so what is ready and whether all is done. -/
def Untraced (graph : TaskDependencyGraph) (taskId dependsOn : String) : Prop :=
  let after := (graph.addDependency taskId dependsOn).1
  (graph.addDependency taskId dependsOn).2 ≠ none →
    (∀ task, task ∈ after.nodes ↔ task ∈ graph.nodes) ∧ DependsOn after = DependsOn graph ∧ after.done = graph.done ∧
    (∀ task, task ∈ after.ready ↔ task ∈ graph.ready) ∧ after.isComplete = graph.isComplete

/-- A path of at least one edge joins two nodes. -/
theorem requires_nodes {graph : TaskDependencyGraph} (listed : Listed graph) {start target : String}
    (differ : start ≠ target) (path : Requires graph start target) : start ∈ graph.nodes ∧ target ∈ graph.nodes := by
  constructor
  · by_contra fresh
    rcases Relation.ReflTransGen.cases_head path with same | ⟨next,edge,_⟩
    · exact differ same
    · have edge : next ∈ graph.prerequisites start := edge
      rw [graph.unlisted start fresh] at edge
      cases edge
  · by_contra fresh
    exact fresh_unreachable listed fresh differ.symm path

/-- The endpoints are inserted before the check: where both are nodes that does nothing. -/
theorem addTask_present {graph : TaskDependencyGraph} {taskId : String} (present : taskId ∈ graph.nodes) :
    graph.addTask taskId = graph := by
  have same : graph.nodes.insert taskId = graph.nodes := List.insert_of_mem present
  cases graph
  simp only [addTask,same]

theorem refused_present {graph : TaskDependencyGraph} {taskId dependsOn : String} (first : taskId ∈ graph.nodes)
    (second : dependsOn ∈ graph.nodes) (refused : (graph.addDependency taskId dependsOn).2 ≠ none) :
    (graph.addDependency taskId dependsOn).1 = graph := by
  unfold addDependency at refused ⊢
  simp only [addTask_present first,addTask_present second] at refused ⊢
  split_ifs at refused ⊢ with cyclic
  · rfl
  · exact absurd rfl refused

/-- In every graph that calls lead to, a refused edge leaves no trace unless it joins a task
    that was no node to itself. -/
theorem untraced_iff (operations : List Operation) :
    Always step (fun graph => ∀ taskId dependsOn, Untraced graph taskId dependsOn ↔
      (taskId = dependsOn → taskId ∈ graph.nodes)) TaskDependencyGraph.empty operations := by
  refine (always_of_step Sound (fun graph operation sound => step_sound sound operation) empty_sound operations).mono ?_
  intro graph sound taskId dependsOn
  have exact := addDependency_exact graph taskId dependsOn
  constructor
  · rintro untraced rfl
    obtain ⟨nodes,_⟩ := untraced (exact.raises.mpr (.inl rfl))
    obtain ⟨inserted,_⟩ := addDependency_cases taskId taskId graph
    exact (nodes taskId).mp ((inserted taskId).mpr (.inl rfl))
  · intro known refused
    have present : taskId ∈ graph.nodes ∧ dependsOn ∈ graph.nodes := by
      by_cases same : taskId = dependsOn
      · exact ⟨known same,same ▸ known same⟩
      · have path := (exact.raises.mp refused).resolve_left same
        exact (requires_nodes sound.listed (Ne.symm same) path).symm
    rw [refused_present present.1 present.2 refused]
    simp

/-- A first task that requires itself is refused and stays behind, ready to run. -/
theorem self_edge_traced : (TaskDependencyGraph.empty.addDependency "a" "a").2 ≠ none ∧
    ¬ Untraced TaskDependencyGraph.empty "a" "a" ∧
    "a" ∈ (TaskDependencyGraph.empty.addDependency "a" "a").1.ready := by
  have refused : (TaskDependencyGraph.empty.addDependency "a" "a").2 ≠ none := by simp [addDependency]
  refine ⟨refused,?_,by decide⟩
  intro untraced
  have nodes := (untraced refused).1 "a"
  exact absurd (nodes.mp (by decide)) (by simp [TaskDependencyGraph.empty])

end Hookclose.GraphRuns
