import Hookclose.Worklist
import Mathlib.Data.List.Nodup

/-!
The task dependency graph: which tasks wait for which prerequisites, and which
are done. An edge that would close a cycle is refused.
-/
namespace Hookclose.DependencyGraph
open Hookclose.Worklist

/-- A dictionary from tasks to their prerequisites, and the set of done tasks. A
    task that is not a key has no prerequisites. -/
structure TaskDependencyGraph where
  nodes : List String
  prerequisites : String → List String
  done : List String
  distinct : nodes.Nodup
  unlisted : ∀ task, task ∉ nodes → prerequisites task = []

namespace TaskDependencyGraph

def empty : TaskDependencyGraph := ⟨[],fun _ => [],[],List.nodup_nil,fun _ _ => rfl⟩

def addTask (taskId : String) (graph : TaskDependencyGraph) : TaskDependencyGraph where
  nodes := graph.nodes.insert taskId
  prerequisites := graph.prerequisites
  done := graph.done
  distinct := graph.distinct.insert
  unlisted := by
    intro task absent
    exact graph.unlisted task (fun member => absent (List.mem_insert_of_mem member))

/-- Whether `target` can be reached from `start` along prerequisites. -/
def reaches (start target : String) (graph : TaskDependencyGraph) : Bool := search graph.unlisted target [start] []

/-- The edge itself, once it has been checked; the dependent task is a node. -/
def link (taskId dependsOn : String) (graph : TaskDependencyGraph) (listed : taskId ∈ graph.nodes) :
    TaskDependencyGraph where
  nodes := graph.nodes
  prerequisites := fun task =>
    if task = taskId then (graph.prerequisites task).insert dependsOn else graph.prerequisites task
  done := graph.done
  distinct := graph.distinct
  unlisted := by
    intro task absent
    have differs : task ≠ taskId := by
      intro same
      exact absent (same ▸ listed)
    rw [if_neg differs]
    exact graph.unlisted task absent

/-- Records that `taskId` requires `dependsOn` first; with the text of the
    `CycleError` it raises, if it does. -/
def addDependency (taskId dependsOn : String) (graph : TaskDependencyGraph) :
    TaskDependencyGraph × Option String :=
  let both := (graph.addTask taskId).addTask dependsOn
  if decide (taskId = dependsOn) || both.reaches dependsOn taskId then
    (both,some (taskId ++ " -> " ++ dependsOn ++ " would create a cycle"))
  else
    (both.link taskId dependsOn (List.mem_insert_of_mem List.mem_insert_self),none)

def markDone (taskId : String) (graph : TaskDependencyGraph) : TaskDependencyGraph :=
  let graph := graph.addTask taskId
  { graph with done := graph.done.insert taskId }

def isDone (taskId : String) (graph : TaskDependencyGraph) : Bool := decide (taskId ∈ graph.done)

/-- Tasks not yet done whose prerequisites are all done. -/
def ready (graph : TaskDependencyGraph) : List String :=
  graph.nodes.filter (fun task => !graph.isDone task && (graph.prerequisites task).all graph.isDone)

def isComplete (graph : TaskDependencyGraph) : Bool := graph.nodes.all graph.isDone

end TaskDependencyGraph

open TaskDependencyGraph

/-! ### What each operation does -/

@[simp] theorem mem_addTask {task taskId : String} {graph : TaskDependencyGraph} :
    task ∈ (graph.addTask taskId).nodes ↔ task = taskId ∨ task ∈ graph.nodes :=
  List.mem_insert_iff

@[simp] theorem addTask_prerequisites (taskId : String) (graph : TaskDependencyGraph) :
    (graph.addTask taskId).prerequisites = graph.prerequisites := rfl

@[simp] theorem addTask_done (taskId : String) (graph : TaskDependencyGraph) :
    (graph.addTask taskId).done = graph.done := rfl

@[simp] theorem markDone_nodes (taskId : String) (graph : TaskDependencyGraph) :
    (graph.markDone taskId).nodes = (graph.addTask taskId).nodes := rfl

@[simp] theorem mem_markDone {task taskId : String} {graph : TaskDependencyGraph} :
    task ∈ (graph.markDone taskId).done ↔ task = taskId ∨ task ∈ graph.done :=
  List.mem_insert_iff

theorem mem_ready {task : String} {graph : TaskDependencyGraph} :
    task ∈ graph.ready ↔ task ∈ graph.nodes ∧ task ∉ graph.done ∧ ∀ other ∈ graph.prerequisites task, other ∈ graph.done := by
  simp [ready,isDone]

/-- The edges of a graph, followed from a task to its prerequisites. -/
def Requires (graph : TaskDependencyGraph) : String → String → Prop := Reaches graph.prerequisites

theorem reaches_iff (graph : TaskDependencyGraph) (start target : String) :
    graph.reaches start target = true ↔ Requires graph start target :=
  search_iff graph.unlisted start target

/-- An edge is refused exactly when it would close a cycle; otherwise it is the
    only one that is added. -/
theorem addDependency_cases (taskId dependsOn : String) (graph : TaskDependencyGraph) :
    let added := graph.addDependency taskId dependsOn
    (∀ task, task ∈ added.1.nodes ↔ task = dependsOn ∨ task = taskId ∨ task ∈ graph.nodes) ∧
    added.1.done = graph.done ∧
    (((taskId = dependsOn ∨ Requires graph dependsOn taskId) ∧ added.2.isSome = true ∧
        added.1.prerequisites = graph.prerequisites) ∨
      (taskId ≠ dependsOn ∧ ¬ Requires graph dependsOn taskId ∧ added.2 = none ∧
        ∀ task other, other ∈ added.1.prerequisites task ↔
          other ∈ graph.prerequisites task ∨ (task = taskId ∧ other = dependsOn))) := by
  have path : ((graph.addTask taskId).addTask dependsOn).reaches dependsOn taskId = true ↔
      Requires graph dependsOn taskId := by
    rw [reaches_iff]
    rfl
  by_cases refused : taskId = dependsOn ∨ Requires graph dependsOn taskId
  · have condition : (decide (taskId = dependsOn) ||
        ((graph.addTask taskId).addTask dependsOn).reaches dependsOn taskId) = true := by
      rw [Bool.or_eq_true,decide_eq_true_iff,path]
      exact refused
    simp only [addDependency,condition,if_true]
    refine ⟨fun task => by simp,by simp,.inl ⟨refused,rfl,rfl⟩⟩
  · have condition : ¬ (decide (taskId = dependsOn) ||
        ((graph.addTask taskId).addTask dependsOn).reaches dependsOn taskId) = true := by
      rw [Bool.or_eq_true,decide_eq_true_iff,path]
      exact refused
    rw [not_or] at refused
    simp only [addDependency,if_neg condition]
    refine ⟨fun task => by simp [link],by simp [link],.inr ⟨refused.1,refused.2,trivial,?_⟩⟩
    intro task other
    by_cases same : task = taskId
    · subst same
      simp [link,or_comm]
    · simp [link,same]

/-! ### Well-listed graphs -/

/-- Every prerequisite and every done task is a node. -/
structure Listed (graph : TaskDependencyGraph) : Prop where
  prerequisites : ∀ task other, other ∈ graph.prerequisites task → other ∈ graph.nodes
  done : ∀ task ∈ graph.done, task ∈ graph.nodes

theorem empty_listed : Listed TaskDependencyGraph.empty := by
  constructor
  · intro task other edge
    cases edge
  · intro task member
    cases member

theorem addTask_listed {graph : TaskDependencyGraph} (listed : Listed graph) (taskId : String) :
    Listed (graph.addTask taskId) := by
  constructor
  · intro task other edge
    exact mem_addTask.mpr (.inr (listed.prerequisites task other edge))
  · intro task member
    exact mem_addTask.mpr (.inr (listed.done task member))

theorem markDone_listed {graph : TaskDependencyGraph} (listed : Listed graph) (taskId : String) :
    Listed (graph.markDone taskId) := by
  refine ⟨(addTask_listed listed taskId).prerequisites,?_⟩
  intro task member
  rw [markDone_nodes,mem_addTask]
  exact (mem_markDone.mp member).imp_right (listed.done task)

theorem addDependency_listed {graph : TaskDependencyGraph} (listed : Listed graph) (taskId dependsOn : String) :
    Listed (graph.addDependency taskId dependsOn).1 := by
  obtain ⟨nodes,done,refused | added⟩ := addDependency_cases taskId dependsOn graph
  · obtain ⟨_,_,same⟩ := refused
    constructor
    · intro task other edge
      rw [same] at edge
      exact (nodes other).mpr (.inr (.inr (listed.prerequisites task other edge)))
    · intro task member
      rw [done] at member
      exact (nodes task).mpr (.inr (.inr (listed.done task member)))
  · obtain ⟨_,_,_,edges⟩ := added
    constructor
    · intro task other edge
      rcases (edges task other).mp edge with earlier | ⟨_,new⟩
      · exact (nodes other).mpr (.inr (.inr (listed.prerequisites task other earlier)))
      · exact (nodes other).mpr (.inl new)
    · intro task member
      rw [done] at member
      exact (nodes task).mpr (.inr (.inr (listed.done task member)))

/-- Nothing requires a task that is not a node. -/
theorem fresh_unreachable {graph : TaskDependencyGraph} (listed : Listed graph) {start target : String}
    (fresh : target ∉ graph.nodes) (differs : target ≠ start) : ¬ Requires graph start target := by
  intro path
  rcases Relation.ReflTransGen.cases_tail path with same | ⟨between,_,edge⟩
  · exact differs same
  · exact fresh (listed.prerequisites between target edge)

/-- The first edge of a fresh task is accepted. -/
theorem addDependency_fresh {graph : TaskDependencyGraph} (listed : Listed graph) {taskId dependsOn : String}
    (fresh : taskId ∉ graph.nodes) (differs : taskId ≠ dependsOn) :
    (graph.addDependency taskId dependsOn).2 = none ∧
      ∀ task other, other ∈ (graph.addDependency taskId dependsOn).1.prerequisites task ↔
        other ∈ graph.prerequisites task ∨ (task = taskId ∧ other = dependsOn) := by
  obtain ⟨_,_,refused | added⟩ := addDependency_cases taskId dependsOn graph
  · obtain ⟨cyclic,_⟩ := refused
    rcases cyclic with same | path
    · exact absurd same differs
    · exact absurd path (fresh_unreachable listed fresh differs)
  · obtain ⟨_,_,accepted,edges⟩ := added
    exact ⟨accepted,edges⟩

end Hookclose.DependencyGraph
