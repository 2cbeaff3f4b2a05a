import Hookclose.TaskStages

/-!
How often a failing task is executed. The scheduler counts the dispatch as the first
attempt and a worker counts each failed execution as one more, so that the stored
attempts run one ahead of the executions; the worker gives up when they reach the
maximum, one execution early, but never before the first.
-/
namespace Hookclose.RetryBudget
open Hookclose.TaskRepository Hookclose.TaskRepository.TaskTable Hookclose.Dispatch Hookclose.Custody Hookclose.TaskLoss
open Hookclose.LiveCopies Hookclose.TaskStages Hookclose.Runs

/-- The await of the step succeeds. -/
def Succeeds : Label → Prop
  | .create _ => True
  | .scheduler raises => raises = false
  | .worker _ raises => raises = false

/-- How often `execute_task` has been called for a task. -/
def executions (id : String) (s : DispatchState) : Nat := s.executed.count id

/-- A row of the type whose executions all yield an error, with at least one attempt. -/
def Failing (row : Task) : Prop := row.taskType = "fail" ∧ 1 ≤ row.maxAttempts

/-- The stored attempts of a task stay within its maximum, and when it has failed it has
    been executed, and counted, that many times. -/
def WithinBudget (id : String) (s : DispatchState) : Prop :=
  ∀ row, s.table.row id = some row → row.attempts ≤ row.maxAttempts ∧
    (row.status = .failed → (executions id s : Int) = row.maxAttempts ∧ row.attempts = row.maxAttempts)

/-! ### Stages of a failing task -/

/-- Dispatched, or put back after an execution that was not the last. -/
def Waiting (row : Task) (executed : Nat) : Prop :=
  (row.status = .scheduled ∧ row.attempts = 1 ∧ executed = 0) ∨
    (row.status = .retrying ∧ row.attempts = executed + 1 ∧ 1 ≤ executed ∧ executed + 1 < row.maxAttempts)

/-- Executed, and the row not yet written. -/
def Tried (row : Task) (executed : Nat) : Prop :=
  row.status = .running ∧ row.attempts = executed ∧ 1 ≤ executed ∧ (executed = 1 ∨ executed < row.maxAttempts)

/-- The row of the task that a worker is at, at each of its awaits. -/
def AtWork (row : Task) (executed : Nat) : WorkerAt → Prop
  | .popping => True
  | .marking _ => Waiting row executed
  | .executing _ =>
    row.status = .running ∧ row.attempts = executed + 1 ∧ (executed = 0 ∨ executed + 1 < row.maxAttempts)
  | .reading _ _ => Tried row executed
  | .retrying _ _ attempts => Tried row executed ∧ attempts = executed + 1 ∧ attempts < row.maxAttempts
  | .requeueing _ => Waiting row executed
  | .failing _ _ attempts => Tried row executed ∧ attempts = executed + 1 ∧ row.maxAttempts ≤ attempts
  | .completing _ _ => False
  | .announcing _ => True

/-- What the row says wherever the task is. -/
structure Recorded (row : Task) (executed : Nat) : Prop where
  pending : row.status = .pending → row.attempts = 0 ∧ executed = 0
  failed : row.status = .failed → row.attempts = executed + 1 ∧ 1 ≤ executed ∧
    (executed = 1 ∨ executed < row.maxAttempts) ∧ row.maxAttempts ≤ executed + 1
  completed : row.status ≠ .completed
  bounded : row.attempts ≤ max 2 row.maxAttempts

/-- The stage of a failing task, by the place that it is in. -/
structure Progress (s : DispatchState) (id : String) (row : Task) : Prop where
  recorded : Recorded row (executions id s)
  stationed : Stationed s id (Waiting row (executions id s)) (AtWork row (executions id s))

/-- Every failing task is in a stage, and only tasks with a row have been executed. -/
structure Budgeted (s : DispatchState) : Prop where
  known : ∀ id, s.table.row id = none → executions id s = 0
  progress : ∀ id row, s.table.row id = some row → Failing row → Progress s id row

theorem Waiting.bounded {row : Task} {executed : Nat} (waiting : Waiting row executed) :
    row.attempts ≤ max 2 row.maxAttempts := by
  rcases waiting with ⟨_,first,_⟩ | ⟨_,counted,_,below⟩
  · omega
  · omega

theorem atWork_announced {row : Task} {executed : Nat} {place : WorkerAt} {id : String} (announces : announced place = some id) :
    AtWork row executed place := by
  cases place with
  | announcing publication => trivial
  | _ => cases announces

section
variable {taskQueue : Nat → String} {s : DispatchState} {holder : String → Option Place}

/-- What a worker is told of its task is what the row says. -/
theorem carried_row (accounted : Accounted taskQueue (view s) holder) {index : Nat} {data : TaskData}
    (carried : (s.workers index).carried = some data) :
    ∃ row, s.table.row data.id = some row ∧ data.taskType = row.taskType := by
  obtain ⟨⟨row,found,same⟩,_⟩ := accounted.consistent.carried index data carried
  refine ⟨row,found,?_⟩
  rw [same]
  rfl

/-- A worker goes on with the task that it carries: nothing changes but that task. -/
theorem worker_goes_on (accounted : Accounted taskQueue (view s) holder) (budgeted : Budgeted s) {index : Nat}
    {data : TaskData} (carried : (s.workers index).carried = some data) (next : WorkerAt) (table : TaskTable)
    (executed : List String) (nexts : ∀ id, subject next = some id → id = data.id)
    (rows : ∀ other, other ≠ data.id → table.row other = s.table.row other)
    (counts : ∀ other, other ≠ data.id → executed.count other = s.executed.count other)
    (present : table.row data.id ≠ none)
    (own : ∀ row, table.row data.id = some row → Failing row →
      Recorded row (executed.count data.id) ∧ AtWork row (executed.count data.id) next) :
    Budgeted (moveTo index next { s with table := table, executed := executed }) := by
  obtain ⟨queues,handing,workers⟩ := carried_alone accounted carried
  constructor
  · intro id absent
    by_cases same : id = data.id
    · subst same
      exact absurd absent present
    · have before := budgeted.known id (by rw [← rows id same]; exact absent)
      exact (counts id same).trans before
  · intro id row found failing
    by_cases same : id = data.id
    · subst same
      obtain ⟨recorded,atWork⟩ := own row found failing
      refine ⟨recorded,stationed_moveTo queues handing (fun _ => atWork) ?_⟩
      intro other elsewhere at_
      rcases subject_cases at_ with ⟨entry,carries,equal⟩ | announcing
      · exact absurd (workers other entry carries equal) elsewhere
      · exact atWork_announced announcing
    · obtain ⟨recorded,stationed⟩ := budgeted.progress id row (by rw [← rows id same]; exact found) failing
      have unchanged : executed.count id = executions id s := counts id same
      constructor
      · show Recorded row (executed.count id)
        rw [unchanged]
        exact recorded
      · show Stationed _ id (Waiting row (executed.count id)) (AtWork row (executed.count id))
        rw [unchanged]
        refine stationed.stays (fun _ _ member _ => member) (fun _ handed _ => handed) ?_
        intro other at_
        rcases subject_moveTo at_ with ⟨_,moved⟩ | ⟨elsewhere,_⟩
        · exact absurd (nexts id moved) same
        · rw [moveTo_other elsewhere]

/-! ### Awaits of a worker -/

theorem pop_budgeted (budgeted : Budgeted s) {index : Nat} {key : String} {data : TaskData} {rest : List TaskData}
    (queue : s.queues key = data :: rest) :
    Budgeted (moveTo index (.marking data) { s with queues := Function.update s.queues key rest }) := by
  refine ⟨budgeted.known,?_⟩
  intro id row found failing
  obtain ⟨recorded,stationed⟩ := budgeted.progress id row found failing
  exact ⟨recorded,stationed.popped queue (fun waiting => waiting)⟩

theorem requeue_budgeted (budgeted : Budgeted s) {index : Nat} {key : String} {data : TaskData}
    (place : s.workers index = .requeueing data) :
    Budgeted (moveTo index .popping { s with queues := push key data s.queues }) := by
  refine ⟨budgeted.known,?_⟩
  intro id row found failing
  obtain ⟨recorded,stationed⟩ := budgeted.progress id row found failing
  exact ⟨recorded,stationed.requeued place (fun waiting => waiting)⟩

/-- The stage of the task that a worker carries. -/
theorem carried_stage (budgeted : Budgeted s) {index : Nat} {data : TaskData}
    (place : (s.workers index).carried = some data) {row : Task} (found : s.table.row data.id = some row)
    (failing : Failing row) :
    Recorded row (executions data.id s) ∧ AtWork row (executions data.id s) (s.workers index) :=
  ⟨(budgeted.progress data.id row found failing).recorded,
    (budgeted.progress data.id row found failing).stationed.worked index (subject_of_carried place)⟩

/-- A worker writes the row of its task. -/
theorem write_budgeted (accounted : Accounted taskQueue (view s) holder) (budgeted : Budgeted s) {index : Nat}
    {data : TaskData} (carried : (s.workers index).carried = some data) (next : WorkerAt) (status : TaskStatus)
    (result : Option Dict) (error : Option String) (attempts : Option Int)
    (nexts : ∀ id, subject next = some id → id = data.id)
    (own : ∀ row after : Task, row.taskType = data.taskType → Failing row → Recorded row (executions data.id s) →
      AtWork row (executions data.id s) (s.workers index) → after.status = status →
      after.attempts = attempts.getD row.attempts → after.maxAttempts = row.maxAttempts →
      Recorded after (executions data.id s) ∧ AtWork after (executions data.id s) next) :
    Budgeted (moveTo index next { s with table := s.table.updateStatus data.id status result error attempts }) := by
  obtain ⟨row,found,sameType⟩ := carried_row accounted carried
  have written := updateStatus_self found status result error attempts
  refine worker_goes_on accounted budgeted carried next _ s.executed nexts ?_ (fun _ _ => rfl) ?_ ?_
  · intro other differs
    exact updateStatus_other differs status result error attempts s.table
  · rw [written]
    exact Option.some_ne_none _
  · intro after foundAfter failing
    rw [written] at foundAfter
    cases foundAfter
    obtain ⟨recorded,atWork⟩ := carried_stage budgeted carried found failing
    exact own row _ sameType.symm failing recorded atWork rfl rfl rfl

/-- A row on its way is recorded as soon as its attempts are in bounds. -/
theorem recorded_live {row : Task} {executed : Nat} (live : Live row.status)
    (bounded : row.attempts ≤ max 2 row.maxAttempts) : Recorded row executed := by
  refine ⟨?_,?_,?_,bounded⟩
  · intro pending
    exact absurd pending (live_not_pending live)
  · intro failed
    exact absurd failed (live_not_settled live).2
  · exact (live_not_settled live).1

theorem mark_budgeted (accounted : Accounted taskQueue (view s) holder) (budgeted : Budgeted s) {index : Nat}
    {data : TaskData} (place : s.workers index = .marking data) :
    Budgeted (moveTo index (.executing data) { s with
      table := s.table.updateStatus data.id .running none none none }) := by
  have carried : (s.workers index).carried = some data := by rw [place]; rfl
  refine write_budgeted accounted budgeted carried (.executing data) .running none none none ?_ ?_
  · rintro id ⟨⟩
    rfl
  · intro row after _ _ recorded working running same unchanged
    rw [place] at working
    simp only [Option.getD_none] at same
    refine ⟨recorded_live (.inr (.inl running)) ?_,running,?_,?_⟩
    · rw [same,unchanged]
      exact recorded.bounded
    · rcases working with ⟨_,first,none⟩ | ⟨_,counted,_⟩ <;> omega
    · rcases working with ⟨_,_,none⟩ | ⟨_,_,_,below⟩ <;> omega

theorem retry_budgeted (accounted : Accounted taskQueue (view s) holder) (budgeted : Budgeted s) {index : Nat}
    {data : TaskData} {error : String} {attempts : Int} (place : s.workers index = .retrying data error attempts) :
    Budgeted (moveTo index (.requeueing data) { s with
      table := s.table.updateStatus data.id .retrying none (some error) (some attempts) }) := by
  have carried : (s.workers index).carried = some data := by rw [place]; rfl
  refine write_budgeted accounted budgeted carried (.requeueing data) .retrying none (some error) (some attempts) ?_ ?_
  · rintro id ⟨⟩
    rfl
  · intro row after _ _ _ working retrying same unchanged
    rw [place] at working
    obtain ⟨⟨_,_,once,_⟩,counted,below⟩ := working
    simp only [Option.getD_some] at same
    have waiting : Waiting after (executions data.id s) := .inr ⟨retrying,by omega,once,by omega⟩
    exact ⟨recorded_live (.inr (.inr retrying)) waiting.bounded,waiting⟩

theorem fail_budgeted (accounted : Accounted taskQueue (view s) holder) (budgeted : Budgeted s) {index : Nat}
    {data : TaskData} {error : String} {attempts : Int} (place : s.workers index = .failing data error attempts) :
    Budgeted (moveTo index (.announcing (.taskFailed data.id error)) { s with
      table := s.table.updateStatus data.id .failed none (some error) (some attempts) }) := by
  have carried : (s.workers index).carried = some data := by rw [place]; rfl
  refine write_budgeted accounted budgeted carried _ .failed none (some error) (some attempts) ?_ ?_
  · rintro id ⟨⟩
    rfl
  · intro row after _ _ _ working failed same unchanged
    rw [place] at working
    obtain ⟨⟨_,_,once,early⟩,counted,reached⟩ := working
    simp only [Option.getD_some] at same
    refine ⟨⟨?_,?_,?_,?_⟩,trivial⟩
    · intro pending
      rw [failed] at pending
      cases pending
    · intro _
      exact ⟨by omega,once,by omega,by omega⟩
    · rw [failed]
      intro contrary
      cases contrary
    · omega

theorem complete_budgeted (accounted : Accounted taskQueue (view s) holder) (budgeted : Budgeted s) {index : Nat}
    {data : TaskData} {result : Option Dict} (place : s.workers index = .completing data result) :
    Budgeted (moveTo index (.announcing (.taskCompleted data.id result)) { s with
      table := s.table.updateStatus data.id .completed result none (some 0) }) := by
  have carried : (s.workers index).carried = some data := by rw [place]; rfl
  refine write_budgeted accounted budgeted carried _ .completed result none (some 0) ?_ ?_
  · rintro id ⟨⟩
    rfl
  · intro row after _ _ _ working _ _ _
    rw [place] at working
    exact working.elim

/-- The executions that yield an error are those of the type `fail`, and they always do. -/
theorem execution_fails_iff {data : TaskData} {error : String} :
    afterExecution data (executeTask data) = .reading data error ↔
      data.taskType = "fail" ∧ error = "simulated failure for task type 'fail'" := by
  constructor
  · intro reads
    unfold executeTask at reads
    split_ifs at reads with echo sleep fails
    · cases reads
    · by_cases duration : isDuration ((Dictionaries.get "duration" data.payload).getD (.int 1)) = true
      · simp [duration,afterExecution] at reads
      · simp [duration,afterExecution] at reads
    · cases reads
      exact ⟨fails,rfl⟩
    · cases reads
  · rintro ⟨fails,rfl⟩
    simp [executeTask,fails,afterExecution]

theorem execute_budgeted (accounted : Accounted taskQueue (view s) holder) (budgeted : Budgeted s) {index : Nat}
    {data : TaskData} (place : s.workers index = .executing data) :
    Budgeted (moveTo index (afterExecution data (executeTask data)) { s with executed := s.executed ++ [data.id] }) := by
  have carried : (s.workers index).carried = some data := by rw [place]; rfl
  obtain ⟨row,found,sameType⟩ := carried_row accounted carried
  have once : (s.executed ++ [data.id]).count data.id = executions data.id s + 1 := by simp [executions]
  refine worker_goes_on accounted budgeted carried _ s.table _ ?_ (fun _ _ => rfl) ?_ ?_ ?_
  · intro id at_
    cases outcome : executeTask data with
    | none =>
      rw [outcome] at at_
      cases at_
    | some result =>
      rw [outcome,subject_of_carried (afterExecution_carried (Option.some_ne_none result))] at at_
      exact (Option.some.inj at_).symm
  · intro other differs
    simp [List.count_append,Ne.symm differs]
  · rw [found]
    exact Option.some_ne_none row
  · intro other foundOther failing
    obtain ⟨recorded,working⟩ := carried_stage budgeted carried foundOther failing
    rw [place] at working
    obtain ⟨running,counted,early⟩ := working
    have same : other = row := Option.some.inj (foundOther.symm.trans found)
    subst same
    rw [execution_fails_iff.mpr ⟨sameType.trans failing.1,rfl⟩,once]
    refine ⟨recorded_live (.inr (.inl running)) recorded.bounded,running,?_,?_,?_⟩ <;> omega

theorem read_budgeted (accounted : Accounted taskQueue (view s) holder) (budgeted : Budgeted s) {index : Nat}
    {data : TaskData} {error : String} (place : s.workers index = .reading data error) :
    Budgeted (moveTo index (afterReading data error (s.table.get data.id)) s) := by
  have carried : (s.workers index).carried = some data := by rw [place]; rfl
  obtain ⟨row,found,_⟩ := carried_row accounted carried
  refine worker_goes_on accounted budgeted carried _ s.table s.executed ?_ (fun _ _ => rfl) (fun _ _ => rfl) ?_ ?_
  · intro id at_
    rw [subject_of_carried (afterReading_carried ..)] at at_
    exact (Option.some.inj at_).symm
  · rw [found]
    exact Option.some_ne_none row
  · intro other foundOther failing
    obtain ⟨recorded,working⟩ := carried_stage budgeted carried foundOther failing
    rw [place] at working
    obtain ⟨running,counted,once,early⟩ := working
    refine ⟨recorded,?_⟩
    have read : s.table.get data.id = some (rowToTask other) := by simp [TaskTable.get,foundOther]
    show AtWork other (executions data.id s) (afterReading data error (s.table.get data.id))
    simp only [read,afterReading,rowToTask]
    split_ifs with below
    · exact ⟨⟨running,counted,once,early⟩,by omega,below⟩
    · exact ⟨⟨running,counted,once,early⟩,by omega,by omega⟩

theorem worker_budgeted (accounted : Accounted taskQueue (view s) holder) (budgeted : Budgeted s) (index : Nat) :
    Budgeted (workerStep (taskQueue index) index false s) := by
  unfold workerStep
  cases place : s.workers index with
  | popping =>
    cases queue : s.queues (taskQueue index) with
    | nil => exact budgeted
    | cons data rest => exact pop_budgeted budgeted queue
  | marking data => exact mark_budgeted accounted budgeted place
  | executing data => exact execute_budgeted accounted budgeted place
  | reading data error => exact read_budgeted accounted budgeted place
  | retrying data error attempts => exact retry_budgeted accounted budgeted place
  | requeueing data => exact requeue_budgeted budgeted place
  | failing data error attempts => exact fail_budgeted accounted budgeted place
  | completing data result => exact complete_budgeted accounted budgeted place
  | announcing publication =>
    refine ⟨budgeted.known,?_⟩
    intro id row found failing
    obtain ⟨recorded,stationed⟩ := budgeted.progress id row found failing
    exact ⟨recorded,stationed.dropped index _⟩

/-! ### Awaits of the scheduler, and new tasks -/

/-- Without a task in hand and without a change to rows, queues and workers, the stages stay. -/
theorem pass_budgeted (budgeted : Budgeted s) {next : SchedulerAt} (free : next.handing = none)
    (published : List Publication) : Budgeted { s with scheduler := next, published := published } := by
  refine ⟨budgeted.known,?_⟩
  intro id row found failing
  obtain ⟨recorded,stationed⟩ := budgeted.progress id row found failing
  exact ⟨recorded,stationed.passed free published⟩

theorem nextTask_free (tasks : List Task) : (nextTask tasks).handing = none := by
  cases tasks <;> rfl

theorem push_budgeted (budgeted : Budgeted s) {task : Task} {rest : List Task}
    (place : s.scheduler = .pushing task rest) :
    Budgeted { s with
      queues := push (queueKey task.provider) (TaskData.ofTask task) s.queues
      scheduler := .publishing task rest } := by
  refine ⟨budgeted.known,?_⟩
  intro id row found failing
  obtain ⟨recorded,stationed⟩ := budgeted.progress id row found failing
  exact ⟨recorded,stationed.pushed place⟩

theorem dispatch_budgeted (accounted : Accounted taskQueue (view s) holder) (budgeted : Budgeted s) {task : Task}
    {rest : List Task} (place : s.scheduler = .marking task rest) :
    Budgeted { s with
      table := s.table.updateStatus task.id .scheduled none none (some 1)
      scheduler := .pushing task rest } := by
  have listed : task ∈ (view s).upcoming := by
    simp only [view,place,SchedulerAt.upcoming]
    exact List.mem_cons_self
  obtain ⟨row,found,pending,_⟩ := accounted.consistent.upcoming task listed
  have nowhere : ∀ place, ¬ Holds (view s) place task.id := by
    intro place
    rw [accounted.located.agrees,pending_free accounted.located found pending]
    intro contrary
    cases contrary
  have listedRow : s.table.row task.id = some row := found
  have written := updateStatus_self listedRow .scheduled none none (some 1)
  constructor
  · intro id absent
    by_cases same : id = task.id
    · subst same
      cases written.symm.trans absent
    · have before : s.table.row id = none := (updateStatus_other same _ _ _ _ s.table).symm.trans absent
      exact budgeted.known id before
  · intro id after foundAfter failing
    by_cases same : id = task.id
    · subst same
      cases written.symm.trans foundAfter
      have zero : executions task.id s = 0 := ((budgeted.progress task.id row found failing).recorded.pending pending).2
      have waiting : Waiting { row with status := .scheduled, result := row.result, error := row.error, attempts := 1 }
          (executions task.id s) := .inl ⟨rfl,rfl,zero⟩
      refine ⟨recorded_live (.inl rfl) waiting.bounded,?_,fun _ _ _ => waiting,?_⟩
      · intro key entry member equal
        exact absurd equal ((nowhere_waits nowhere).1 key entry member)
      · intro index at_
        have announcing := announced_of_nowhere nowhere (show subject (s.workers index) = some task.id from at_)
        exact atWork_announced announcing
    · have unchanged : s.table.row id = some after := (updateStatus_other same _ _ _ _ s.table).symm.trans foundAfter
      obtain ⟨recorded,stationed⟩ := budgeted.progress id after unchanged failing
      exact ⟨recorded,stationed.marked _ same⟩

theorem scheduler_budgeted (accounted : Accounted taskQueue (view s) holder) (budgeted : Budgeted s) :
    Budgeted (schedulerStep false s) := by
  cases place : s.scheduler with
  | polling =>
    simp only [schedulerStep,place]
    exact pass_budgeted budgeted (nextTask_free _) s.published
  | marking task rest =>
    simp only [schedulerStep,place]
    exact dispatch_budgeted accounted budgeted place
  | pushing task rest =>
    simp only [schedulerStep,place]
    exact push_budgeted budgeted place
  | publishing task rest =>
    simp only [schedulerStep,place]
    exact pass_budgeted budgeted (nextTask_free rest) _

theorem create_budgeted (accounted : Accounted taskQueue (view s) holder) (budgeted : Budgeted s) (task : Task) :
    Budgeted { s with table := s.table.create { task with status := .pending } } := by
  constructor
  · intro id absent
    cases found : s.table.row id with
    | none => exact budgeted.known id found
    | some row =>
      rw [create_kept found] at absent
      cases absent
  · intro id row found failing
    rcases create_row found with old | ⟨same,absent,rfl⟩
    · obtain ⟨recorded,stationed⟩ := budgeted.progress id row old failing
      exact ⟨recorded,⟨stationed.queued,stationed.handed,stationed.worked⟩⟩
    · have nowhere : ∀ place, ¬ Holds (view s) place id := by
        intro place holds
        obtain ⟨other,listed,_⟩ := accounted.located.live id place ((accounted.located.agrees place id).mp holds)
        rw [show (view s).table.row id = none from absent] at listed
        cases listed
      have zero : executions id s = 0 := budgeted.known id absent
      obtain ⟨queues,handing⟩ := nowhere_waits nowhere
      refine ⟨⟨fun _ => ⟨rfl,zero⟩,?_,?_,?_⟩,?_,?_,?_⟩
      · intro contrary
        cases contrary
      · intro contrary
        cases contrary
      · show (0 : Int) ≤ max 2 task.maxAttempts
        omega
      · intro key entry member equal
        exact absurd equal (queues key entry member)
      · intro data handed equal
        exact absurd equal (handing data handed)
      · intro index at_
        have announcing := announced_of_nowhere nowhere (show subject (s.workers index) = some id from at_)
        exact atWork_announced announcing

/-- Awaits that succeed keep every failing task in a stage. -/
theorem step_budgeted (accounted : Accounted taskQueue (view s) holder) (budgeted : Budgeted s) {label : Label}
    (succeeds : Succeeds label) : Budgeted (step taskQueue s label) := by
  cases label with
  | create task => exact create_budgeted accounted budgeted task
  | scheduler raises =>
    cases succeeds
    exact scheduler_budgeted accounted budgeted
  | worker index raises =>
    cases succeeds
    exact worker_budgeted accounted budgeted index

end

theorem idle_budgeted : Budgeted idle := by
  refine ⟨fun _ _ => rfl,?_⟩
  intro id row found
  cases found

/-- A failing task ends after one execution too few, except that it is executed once
    at least; its attempts then say two at least. -/
theorem failed_values {row : Task} {executed : Nat} (recorded : Recorded row executed) (failing : Failing row)
    (failed : row.status = .failed) :
    (executed : Int) = max 1 (row.maxAttempts - 1) ∧ row.attempts = max 2 row.maxAttempts := by
  obtain ⟨counted,once,early,reached⟩ := recorded.failed failed
  have positive := failing.2
  constructor
  · omega
  · omega

theorem run_budgeted (taskQueue : Nat → String) {labels : List Label} (succeed : ∀ label ∈ labels, Succeeds label) :
    Always (step taskQueue) Budgeted idle labels := by
  have always : Always (step taskQueue) (fun s => (∃ holder, Accounted taskQueue (view s) holder) ∧ Budgeted s) idle
      labels := by
    refine always_of_each _ (fun _ => Succeeds) ?_ ⟨⟨_,idle_accounted taskQueue⟩,idle_budgeted⟩ (each_of_forall succeed)
    rintro s label ⟨⟨_,accounted⟩,budgeted⟩ succeeds
    exact ⟨step_accounted accounted label,step_budgeted accounted budgeted succeeds⟩
  exact always.mono (fun _ both => both.2)

/-! ### Runs in which a failing task ends -/

/-- A row says of its task what the entry says. -/
def Tells (row : Task) (data : TaskData) : Prop := row.taskType = data.taskType ∧ row.maxAttempts = data.maxAttempts

/-- The task waits alone in the queue of an idle worker. -/
structure Ready (worker : Nat) (key : String) (data : TaskData) (attempts : Int) (s : DispatchState) : Prop where
  row : ∃ row, s.table.row data.id = some row ∧ row.attempts = attempts ∧ Tells row data
  queue : s.queues key = [data]
  popping : s.workers worker = .popping

/-- Awaits of one worker that all succeed. -/
def turns (worker : Nat) (count : Nat) : List Label := List.replicate count (.worker worker false)

theorem turns_add (taskQueue : Nat → String) (worker first second : Nat) (s : DispatchState) :
    run (step taskQueue) s (turns worker (first + second)) =
      run (step taskQueue) (run (step taskQueue) s (turns worker first)) (turns worker second) := by
  rw [turns,List.replicate_add,run_append]
  rfl

section
variable {taskQueue : Nat → String} {worker : Nat} {data : TaskData} {attempts : Int} {s : DispatchState}

/-- The failed execution of a task that is ready: the worker is about to read its row. -/
theorem ready_executed (fails : data.taskType = "fail") (ready : Ready worker (taskQueue worker) data attempts s) :
    ∃ t error, run (step taskQueue) s (turns worker 3) = moveTo worker (.reading data error) t ∧
      t.queues (taskQueue worker) = [] ∧
      ∃ row, t.table.row data.id = some row ∧ row.attempts = attempts ∧ Tells row data := by
  obtain ⟨⟨row,found,counted,tells⟩,queue,popping⟩ := ready
  have popped : workerStep (taskQueue worker) worker false s =
      moveTo worker (.marking data) { s with queues := Function.update s.queues (taskQueue worker) [] } := by
    simp [workerStep,popping,queue]
  simp only [turns,List.replicate,run_cons,run_nil,step,popped]
  simp only [workerStep,moveTo_self,Bool.false_eq_true,if_false,
    execution_fails_iff.mpr ⟨fails,rfl⟩]
  refine ⟨_,_,rfl,?_,?_⟩
  · simp
  · exact ⟨_,updateStatus_self found .running none none none,counted,tells⟩

/-- The row is read, and says whether the task is tried again. -/
theorem ready_read (fails : data.taskType = "fail") (ready : Ready worker (taskQueue worker) data attempts s) :
    ∃ t error, run (step taskQueue) s (turns worker 4) =
        moveTo worker (if attempts + 1 < data.maxAttempts then .retrying data error (attempts + 1)
          else .failing data error (attempts + 1)) t ∧
      t.queues (taskQueue worker) = [] ∧
      ∃ row, t.table.row data.id = some row ∧ row.attempts = attempts ∧ Tells row data := by
  obtain ⟨t,error,executed,queue,row,found,counted,tells⟩ := ready_executed fails ready
  have read : t.table.get data.id = some (rowToTask row) := by simp [TaskTable.get,found]
  refine ⟨moveTo worker (.reading data error) t,error,?_,queue,row,found,counted,tells⟩
  rw [turns_add taskQueue worker 3 1,executed]
  simp [turns,step,workerStep,read,afterReading,rowToTask,counted,tells.2]

/-- Below the maximum the task is ready again, with one attempt more. -/
theorem ready_again (fails : data.taskType = "fail") (ready : Ready worker (taskQueue worker) data attempts s)
    (below : attempts + 1 < data.maxAttempts) :
    Ready worker (taskQueue worker) data (attempts + 1) (run (step taskQueue) s (turns worker 6)) := by
  obtain ⟨t,error,read,queue,row,found,_,tells⟩ := ready_read fails ready
  rw [turns_add taskQueue worker 4 2,read,if_pos below]
  simp only [turns,List.replicate,run_cons,run_nil,step,workerStep,moveTo_self,Bool.false_eq_true,if_false]
  refine ⟨⟨_,updateStatus_self found .retrying none (some error) (some (attempts + 1)),rfl,tells⟩,?_,?_⟩
  · simp [push,queue]
  · simp

/-- At the maximum it has failed. -/
theorem ready_ends (fails : data.taskType = "fail") (ready : Ready worker (taskQueue worker) data attempts s)
    (reached : ¬ attempts + 1 < data.maxAttempts) :
    ∃ row, (run (step taskQueue) s (turns worker 5)).table.row data.id = some row ∧ row.status = .failed ∧
      Tells row data := by
  obtain ⟨t,error,read,_,row,found,_,tells⟩ := ready_read fails ready
  rw [turns_add taskQueue worker 4 1,read,if_neg reached]
  simp only [turns,List.replicate,run_cons,run_nil,step,workerStep,moveTo_self,Bool.false_eq_true,if_false]
  exact ⟨_,updateStatus_self found .failed none (some error) (some (attempts + 1)),rfl,tells⟩

/-- However many attempts are left, the worker comes to the end. -/
theorem ready_fails (fails : data.taskType = "fail") (left : Nat)
    (ready : Ready worker (taskQueue worker) data attempts s) (most : data.maxAttempts ≤ attempts + 1 + left) :
    ∃ count row, (run (step taskQueue) s (turns worker count)).table.row data.id = some row ∧ row.status = .failed ∧
      Tells row data := by
  -- `left` bounds the rounds in which the task is put back
  induction left generalizing attempts s with
  | zero =>
    obtain ⟨row,ended⟩ := ready_ends fails ready (by omega)
    exact ⟨5,row,ended⟩
  | succ left ih =>
    by_cases below : attempts + 1 < data.maxAttempts
    · obtain ⟨count,row,ended⟩ := ih (ready_again fails ready below) (by omega)
      exact ⟨6 + count,row,by rwa [turns_add]⟩
    · obtain ⟨row,ended⟩ := ready_ends fails ready below
      exact ⟨5,row,ended⟩

end

/-- Created, polled, marked and pushed. -/
def dispatched (task : Task) : List Label := [.create task,.scheduler false,.scheduler false,.scheduler false]

theorem dispatched_succeed (task : Task) (worker count : Nat) :
    ∀ label ∈ dispatched task ++ turns worker count, Succeeds label := by
  intro label member
  rcases List.mem_append.mp member with early | late
  · simp only [dispatched,List.mem_cons,List.not_mem_nil,or_false] at early
    rcases early with rfl | rfl | rfl | rfl
    · trivial
    · rfl
    · rfl
    · rfl
  · rw [List.eq_of_mem_replicate late]
    rfl

theorem created_pending (task : Task) :
    (TaskTable.empty.create { task with status := .pending }).row task.id = some (inserted { task with status := .pending }) ∧
    (TaskTable.empty.create { task with status := .pending }).getPending 10 =
      [rowToTask (inserted { task with status := .pending })] := by
  constructor
  · simp [TaskTable.create]
  · simp [getPending,TaskTable.create,TaskTable.empty,inserted]

theorem dispatched_ready {taskQueue : Nat → String} {worker : Nat} {task : Task}
    (serves : taskQueue worker = queueKey (rowToTask task).provider) :
    Ready worker (taskQueue worker) (TaskData.ofTask (rowToTask task)) 1 (run (step taskQueue) idle (dispatched task)) := by
  obtain ⟨found,listed⟩ := created_pending task
  have named : (rowToTask task).provider ≠ "" := by
    unfold rowToTask
    by_cases blank : task.provider = "" <;> simp [blank]
  have next : nextTask ((TaskTable.empty.create { task with status := .pending }).getPending 10) =
      .marking (rowToTask (inserted { task with status := .pending })) [] := by
    rw [listed]
    have same : (rowToTask (inserted { task with status := .pending })).provider ≠ "" := named
    simp only [nextTask,if_neg same]
  simp only [dispatched,run_cons,run_nil,step,schedulerStep,idle,next,Bool.false_eq_true,if_false]
  have key : (rowToTask (inserted { task with status := .pending })).provider = (rowToTask task).provider := rfl
  refine ⟨⟨_,updateStatus_self found .scheduled none none (some 1),rfl,rfl,rfl⟩,?_,rfl⟩
  simp only [push,serves,key,Function.update_self]
  rfl

theorem failed_over_budget {id : String} {s : DispatchState} {row : Task} (found : s.table.row id = some row)
    (failing : Failing row) (failed : row.status = .failed)
    (values : (executions id s : Int) = max 1 (row.maxAttempts - 1) ∧ row.attempts = max 2 row.maxAttempts) :
    ¬ WithinBudget id s := by
  intro within
  obtain ⟨executed,counted⟩ := (within row found).2 failed
  have positive := failing.2
  omega

/-- No failing task keeps its budget. In every run in which all operations succeed, one
    that has failed has been executed once less than its maximum, but at least once, and
    its attempts say its maximum, but at least two; and each one whose provider's queue
    a worker serves has such a run. -/
theorem failing_task_misses_budget (taskQueue : Nat → String) :
    (∀ labels, (∀ label ∈ labels, Succeeds label) → ∀ id row,
      (run (step taskQueue) idle labels).table.row id = some row → Failing row → row.status = .failed →
        (executions id (run (step taskQueue) idle labels) : Int) = max 1 (row.maxAttempts - 1) ∧
        row.attempts = max 2 row.maxAttempts ∧ ¬ WithinBudget id (run (step taskQueue) idle labels)) ∧
    ∀ worker task, Failing task → taskQueue worker = queueKey (rowToTask task).provider →
      ∃ labels row, (∀ label ∈ labels, Succeeds label) ∧ .create task ∈ labels ∧
        (run (step taskQueue) idle labels).table.row task.id = some row ∧ Failing row ∧
        row.maxAttempts = task.maxAttempts ∧ row.status = .failed := by
  constructor
  · intro labels succeed id row found failing failed
    have budgeted := (run_budgeted taskQueue succeed).last
    have values := failed_values (budgeted.progress id row found failing).recorded failing failed
    exact ⟨values.1,values.2,failed_over_budget found failing failed values⟩
  · intro worker task failing serves
    have ready := dispatched_ready serves
    have most : task.maxAttempts ≤ 1 + 1 + ((task.maxAttempts - 2).toNat : Int) := by omega
    obtain ⟨count,row,found,failed,sameType,maximum⟩ := ready_fails failing.1 (task.maxAttempts - 2).toNat ready most
    refine ⟨dispatched task ++ turns worker count,row,dispatched_succeed task worker count,?_,?_,⟨?_,?_⟩,maximum,failed⟩
    · simp [dispatched]
    · rw [run_append]
      exact found
    · exact sameType.trans failing.1
    · rw [maximum]
      exact failing.2

/-- A task that may be tried three times, and always fails. -/
def threeTries : Task := { id := "task-1", taskType := "fail", maxAttempts := 3 }

/-- Executed, put back, executed, and given up. -/
def twoExecutions : List Label := dispatched threeTries ++ turns 0 11

theorem three_tries_two_executions :
    (∀ label ∈ twoExecutions, Succeeds label) ∧ Failing threeTries ∧
      ¬ Always (step (fun _ => "tasks:opencode")) (WithinBudget "task-1") idle twoExecutions := by
  refine ⟨?_,⟨rfl,by decide⟩,?_⟩
  · exact dispatched_succeed threeTries 0 11
  · intro always
    have ends : ((run (step (fun _ => "tasks:opencode")) idle twoExecutions).table.row "task-1").map
        (fun row => (row.status,row.maxAttempts)) = some (.failed,3) := by decide +kernel
    have executed : executions "task-1" (run (step (fun _ => "tasks:opencode")) idle twoExecutions) = 2 := by decide +kernel
    obtain ⟨row,found,facts⟩ := Option.map_eq_some_iff.mp ends
    obtain ⟨failed,maximum⟩ := Prod.mk.inj facts
    obtain ⟨spent,_⟩ := (always.last row found).2 failed
    rw [executed,maximum] at spent
    cases spent

end Hookclose.RetryBudget
