import Hookclose.Runs
import Hookclose.TaskRepository

/-!
The dispatch loop: one scheduler that moves pending tasks from the table to the
queues of their providers, and workers that take tasks from a queue, execute them
and write the outcome back. Every await is a step of its own, which succeeds or
raises without effect; a process that is between awaits is described by the await
that it is about to make. Queue entries survive their JSON encoding.
-/
namespace Hookclose.Dispatch
open Hookclose.TaskRepository Hookclose.TaskRepository.TaskTable Hookclose.Runs

/-- A queue entry: what a worker is told of a task. -/
structure TaskData where
  id : String
  taskType : String
  payload : Dict
  provider : String
  maxAttempts : Int

def TaskData.ofTask (task : Task) : TaskData := ⟨task.id,task.taskType,task.payload,task.provider,task.maxAttempts⟩

/-! ### Execution -/

/-- Whether `asyncio.sleep` takes a value, however large. -/
def isDuration : Json → Bool
  | .bool _ => true
  | .int _ => true
  | .float _ _ => true
  | _ => false

/-- `execute_task`: a result or an error, or nothing if it raises. -/
def executeTask (data : TaskData) : Option (Option Dict × Option String) :=
  if data.taskType = "echo" then
    let message := (Dictionaries.get "message" data.payload).getD (.str "")
    some (some [("echo",message),("output",.str ("processed: " ++ message.toText))],none)
  else if data.taskType = "sleep" then
    let duration := (Dictionaries.get "duration" data.payload).getD (.int 1)
    if isDuration duration then some (some [("slept",duration)],none) else none
  else if data.taskType = "fail" then some (none,some "simulated failure for task type 'fail'")
  else some (some [("processed",.bool true),("task_type",.str data.taskType),("input",.dict data.payload)],none)

/-! ### Processes -/

/-- The await that the scheduler is about to make. -/
inductive SchedulerAt
  | polling
  | marking (task : Task) (rest : List Task)
  | pushing (task : Task) (rest : List Task)
  | publishing (task : Task) (rest : List Task)

/-- A message on the channel `workflow:events`. -/
inductive Publication
  | taskScheduled (taskId provider : String)
  | taskFailed (taskId error : String)
  | taskCompleted (taskId : String) (result : Option Dict)

/-- The await that a worker is about to make. -/
inductive WorkerAt
  | popping
  | marking (data : TaskData)
  | executing (data : TaskData)
  | reading (data : TaskData) (error : String)
  | retrying (data : TaskData) (error : String) (attempts : Int)
  | requeueing (data : TaskData)
  | failing (data : TaskData) (error : String) (attempts : Int)
  | completing (data : TaskData) (result : Option Dict)
  | announcing (publication : Publication)

/-- The table, the Redis lists by key, and the processes; with them the tasks that
    `execute_task` has been called for. -/
structure DispatchState where
  table : TaskTable := TaskTable.empty
  queues : String → List TaskData := fun _ => []
  scheduler : SchedulerAt := .polling
  workers : Nat → WorkerAt := fun _ => .popping
  executed : List String := []
  published : List Publication := []

/-- An empty table, empty queues and idle processes. -/
def idle : DispatchState := {}

def queueKey (provider : String) : String := "tasks:" ++ provider

/-- `LPUSH`. -/
def push (key : String) (data : TaskData) (queues : String → List TaskData) : String → List TaskData :=
  Function.update queues key (data :: queues key)

theorem mem_push {key other : String} {data entry : TaskData} {queues : String → List TaskData} :
    entry ∈ push key data queues other ↔ (other = key ∧ entry = data) ∨ entry ∈ queues other := by
  by_cases same : other = key
  · subst same
    simp [push]
  · simp [push,same]

/-- The next iteration of the scheduler's loop over the pending tasks. -/
def nextTask : List Task → SchedulerAt
  | [] => .polling
  | task :: rest => .marking { task with provider := if task.provider = "" then "opencode" else task.provider } rest

/-- One await of `poll_pg`. An exception ends the pass over the pending tasks. -/
def schedulerStep (raises : Bool) (s : DispatchState) : DispatchState :=
  if raises then { s with scheduler := .polling }
  else
    match s.scheduler with
    | .polling => { s with scheduler := nextTask (s.table.getPending 10) }
    | .marking task rest =>
      -- the dispatch itself is counted as the first attempt
      { s with table := s.table.updateStatus task.id .scheduled none none (some 1), scheduler := .pushing task rest }
    | .pushing task rest =>
      { s with
        queues := push (queueKey task.provider) (TaskData.ofTask task) s.queues
        scheduler := .publishing task rest }
    | .publishing task rest =>
      { s with published := s.published ++ [.taskScheduled task.id task.provider], scheduler := nextTask rest }

/-- The await after `execute_task`. -/
def afterExecution (data : TaskData) : Option (Option Dict × Option String) → WorkerAt
  | none => .popping
  | some (result,error) =>
    match error with
    | none => .completing data result
    | some text => if text = "" then .completing data result else .reading data text

/-- The await after the row of a failed task has been read. -/
def afterReading (data : TaskData) (error : String) (row : Option Task) : WorkerAt :=
  match row with
  | some task =>
    if task.attempts + 1 < task.maxAttempts then .retrying data error (task.attempts + 1)
    else .failing data error (task.attempts + 1)
  | none => .failing data error 1

def moveTo (worker : Nat) (next : WorkerAt) (s : DispatchState) : DispatchState :=
  { s with workers := Function.update s.workers worker next }

@[simp] theorem moveTo_self (worker : Nat) (next : WorkerAt) (s : DispatchState) :
    (moveTo worker next s).workers worker = next := by
  simp [moveTo]

@[simp] theorem moveTo_table (worker : Nat) (next : WorkerAt) (s : DispatchState) :
    (moveTo worker next s).table = s.table := rfl

@[simp] theorem moveTo_queues (worker : Nat) (next : WorkerAt) (s : DispatchState) :
    (moveTo worker next s).queues = s.queues := rfl

@[simp] theorem moveTo_other {worker other : Nat} (differs : other ≠ worker) (next : WorkerAt) (s : DispatchState) :
    (moveTo worker next s).workers other = s.workers other := by
  simp [moveTo,differs]

/-- One await of `consume` by a worker of the queue `key`. An exception ends the
    iteration, but `publish_event` lets none out. -/
def workerStep (key : String) (worker : Nat) (raises : Bool) (s : DispatchState) : DispatchState :=
  match s.workers worker with
  | .popping =>
    match s.queues key with
    | [] => s
    | data :: rest =>
      if raises then s
      else moveTo worker (.marking data) { s with queues := Function.update s.queues key rest }
  | .marking data =>
    -- from here on an exception finds the entry gone from the queue
    if raises then moveTo worker .popping s
    else moveTo worker (.executing data) { s with table := s.table.updateStatus data.id .running none none none }
  | .executing data =>
    let s := { s with executed := s.executed ++ [data.id] }
    moveTo worker (afterExecution data (if raises then none else executeTask data)) s
  | .reading data error =>
    if raises then moveTo worker .popping s
    else moveTo worker (afterReading data error (s.table.get data.id)) s
  | .retrying data error attempts =>
    if raises then moveTo worker .popping s
    else moveTo worker (.requeueing data)
      { s with table := s.table.updateStatus data.id .retrying none (some error) (some attempts) }
  | .requeueing data =>
    if raises then moveTo worker .popping s
    else moveTo worker .popping { s with queues := push key data s.queues }
  | .failing data error attempts =>
    if raises then moveTo worker .popping s
    else moveTo worker (.announcing (.taskFailed data.id error))
      { s with table := s.table.updateStatus data.id .failed none (some error) (some attempts) }
  | .completing data result =>
    if raises then moveTo worker .popping s
    else moveTo worker (.announcing (.taskCompleted data.id result))
      { s with table := s.table.updateStatus data.id .completed result none (some 0) }
  | .announcing publication =>
    moveTo worker .popping (if raises then s else { s with published := s.published ++ [publication] })

/-- A step of the system: a client creates a pending task, or a process makes its
    next await. -/
inductive Label
  | create (task : Task)
  | scheduler (raises : Bool)
  | worker (index : Nat) (raises : Bool)

/-- One step; `taskQueue` is the queue that each worker serves. -/
def step (taskQueue : Nat → String) (s : DispatchState) : Label → DispatchState
  | .create task => { s with table := s.table.create { task with status := .pending } }
  | .scheduler raises => schedulerStep raises s
  | .worker index raises => workerStep (taskQueue index) index raises s

/-- The task that the scheduler has marked and not yet pushed. -/
def SchedulerAt.handing : SchedulerAt → Option TaskData
  | .pushing task _ => some (TaskData.ofTask task)
  | _ => none

/-- The task that the scheduler's pass is at. -/
def SchedulerAt.current : SchedulerAt → Option String
  | .polling => none
  | .marking task _ => some task.id
  | .pushing task _ => some task.id
  | .publishing task _ => some task.id

/-- The pending tasks that the scheduler has read and not yet marked. -/
def SchedulerAt.upcoming : SchedulerAt → List Task
  | .polling => []
  | .marking task rest => task :: rest
  | .pushing _ rest => rest
  | .publishing _ rest => rest

/-- The task that a worker has popped and not yet settled or pushed back. -/
def WorkerAt.carried : WorkerAt → Option TaskData
  | .popping => none
  | .marking data => some data
  | .executing data => some data
  | .reading data _ => some data
  | .retrying data _ _ => some data
  | .requeueing data => some data
  | .failing data _ _ => some data
  | .completing data _ => some data
  | .announcing _ => none

end Hookclose.Dispatch
