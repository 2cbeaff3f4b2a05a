import Hookclose.RetryBudget

/-!
The life of one task in the dispatch loop, whatever raises and however the processes
interleave. The row of a task, the calls of `execute_task` for it and the outcomes
published of it are kept in step by the place that its only copy is in: each await of
a process moves the task along its life cycle or leaves it where it is, and a process
that lets go of it only takes the place away.
-/
namespace Hookclose.TaskLifecycle
open Hookclose.TaskRepository Hookclose.TaskRepository.TaskTable Hookclose.Dispatch Hookclose.Custody Hookclose.TaskLoss
open Hookclose.LiveCopies Hookclose.TaskStages Hookclose.Runs
open Hookclose.RetryBudget (executions Waiting Tried nextTask_free)

/-- The statuses that a task can be given next. -/
inductive Follows : TaskStatus → TaskStatus → Prop
  | dispatched : Follows .pending .scheduled
  | begun {status : TaskStatus} (waiting : status = .scheduled ∨ status = .retrying) : Follows status .running
  | putBack : Follows .running .retrying
  | failed : Follows .running .failed
  | completed : Follows .running .completed

/-- A publication that tells how a task has ended. -/
def isOutcomeOf (id : String) : Publication → Bool
  | .taskScheduled _ _ => false
  | .taskFailed taskId _ => taskId = id
  | .taskCompleted taskId _ => taskId = id

/-- The outcomes published of a task. -/
def outcomes (id : String) (s : DispatchState) : List Publication := s.published.filter (isOutcomeOf id)

/-- A row that says what an outcome tells. -/
def Tells (row : Task) : Publication → Prop
  | .taskScheduled _ _ => False
  | .taskFailed _ error => row.status = .failed ∧ row.error = some error
  | .taskCompleted _ result => row.status = .completed ∧ row.result = result

/-! ### Stages -/

/-- The row of the task that a worker is at, at each of its awaits. -/
def AtStage (row : Task) (executed : Nat) (told : List Publication) : WorkerAt → Prop
  | .popping => True
  | .marking _ => Waiting row executed
  | .executing _ =>
    row.status = .running ∧ row.attempts = executed + 1 ∧ (executed = 0 ∨ executed + 1 < row.maxAttempts)
  | .reading _ _ => Tried row executed
  | .retrying _ _ attempts => Tried row executed ∧ attempts = executed + 1 ∧ attempts < row.maxAttempts
  | .requeueing _ => Waiting row executed
  | .failing _ _ _ => Tried row executed
  | .completing _ _ => row.status = .running ∧ 1 ≤ executed
  | .announcing publication => told = [] ∧ isOutcomeOf row.id publication = true ∧ Tells row publication

/-- What the row, the executions and the outcomes of a task say wherever it is. -/
structure Noted (row : Task) (executed : Nat) (told : List Publication) : Prop where
  within : (executed : Int) ≤ max 1 (row.maxAttempts - 1)
  pending : row.status = .pending → executed = 0
  settled : Settled row.status → 1 ≤ executed
  result : row.status ≠ .completed → row.result = none
  told : told = [] ∨ ∃ publication, told = [publication] ∧ Tells row publication

/-- The stage of a task, by the place that it is in. -/
structure Living (s : DispatchState) (id : String) (row : Task) : Prop where
  noted : Noted row (executions id s) (outcomes id s)
  stationed : Stationed s id (Waiting row (executions id s)) (AtStage row (executions id s) (outcomes id s))

/-- Every task is in a stage, and only tasks with a row have been executed or told of. -/
structure Alive (s : DispatchState) : Prop where
  known : ∀ id, s.table.row id = none → executions id s = 0 ∧ outcomes id s = []
  living : ∀ id row, s.table.row id = some row → Living s id row

theorem tells_settled {row : Task} {publication : Publication} (tells : Tells row publication) : Settled row.status := by
  cases publication with
  | taskScheduled taskId provider => exact tells.elim
  | taskFailed taskId error => exact .inr tells.1
  | taskCompleted taskId result => exact .inl tells.1

/-- Nothing has been told of a task that has not ended. -/
theorem Noted.untold {row : Task} {executed : Nat} {told : List Publication} (noted : Noted row executed told)
    (unsettled : ¬ Settled row.status) : told = [] := by
  rcases noted.told with nothing | ⟨publication,_,tells⟩
  · exact nothing
  · exact absurd (tells_settled tells) unsettled

theorem waiting_live {row : Task} {executed : Nat} (waiting : Waiting row executed) : Live row.status := by
  rcases waiting with ⟨scheduled,_⟩ | ⟨retrying,_⟩
  · exact .inl scheduled
  · exact .inr (.inr retrying)

/-- A row on its way is noted as soon as its executions are in bounds. -/
theorem noted_live {row : Task} {executed : Nat} (live : Live row.status)
    (within : (executed : Int) ≤ max 1 (row.maxAttempts - 1)) (result : row.result = none) : Noted row executed [] := by
  refine ⟨within,?_,?_,fun _ => result,.inl rfl⟩
  · intro pending
    exact absurd pending (live_not_pending live)
  · intro settled
    exact absurd settled (not_or.mpr (live_not_settled live))

/-- Where nothing is noted anew of a task and it enters no place, its stage stays. -/
theorem Living.stays {s t : DispatchState} {id : String} {row : Task} (living : Living s id row)
    (executed : executions id t = executions id s) (told : outcomes id t = outcomes id s)
    (stays : ∀ {waits works}, Stationed s id waits works → Stationed t id waits works) : Living t id row := by
  constructor
  · rw [executed,told]
    exact living.noted
  · rw [executed,told]
    exact stays living.stationed

section
variable {taskQueue : Nat → String} {s : DispatchState} {holder : String → Option Place}

/-- The task that a worker is at is nowhere else. -/
theorem subject_alone (accounted : Accounted taskQueue (view s) holder) (announces : Announces s) {index : Nat}
    {id : String} (at_ : subject (s.workers index) = some id) :
    (∀ key, ∀ entry ∈ s.queues key, entry.id ≠ id) ∧ (∀ entry, s.scheduler.handing = some entry → entry.id ≠ id) ∧
      ∀ other, subject (s.workers other) = some id → other = index := by
  have free : ∀ {other}, announced (s.workers other) = some id → holder id = none :=
    fun announcing => settled_free accounted.located (announces.settled _ _ announcing)
  have held : ∀ {other data}, (s.workers other).carried = some data → data.id = id → holder id = some (.worker other) :=
    fun carries same => (accounted.located.agrees (.worker _) id).mp ⟨_,carries,same⟩
  rcases subject_cases at_ with ⟨data,carries,rfl⟩ | announcing
  · obtain ⟨queues,handing,workers⟩ := carried_alone accounted carries
    refine ⟨queues,handing,?_⟩
    intro other again
    rcases subject_cases again with ⟨entry,carried,same⟩ | announcing
    · exact workers other entry carried same
    · cases (free announcing).symm.trans (held carries rfl)
  · have nowhere : ∀ place, ¬ Holds (view s) place id := by
      intro place
      rw [accounted.located.agrees,free announcing]
      simp
    refine ⟨fun key entry member same => nowhere (.queue key) ⟨entry,member,same⟩,
      fun entry handing same => nowhere .scheduler ⟨entry,handing,same⟩,?_⟩
    intro other again
    rcases subject_cases again with ⟨entry,carried,same⟩ | announcingToo
    · exact absurd ⟨entry,carried,same⟩ (nowhere (.worker other))
    · exact announces.single other index id announcingToo announcing

/-- The row and the stage of the task that a worker carries. -/
theorem carried_living (accounted : Accounted taskQueue (view s) holder) (alive : Alive s) {index : Nat}
    {data : TaskData} (carried : (s.workers index).carried = some data) :
    ∃ row, s.table.row data.id = some row ∧ Live row.status ∧ Noted row (executions data.id s) (outcomes data.id s) ∧
      AtStage row (executions data.id s) (outcomes data.id s) (s.workers index) := by
  have held := (accounted.located.agrees (.worker index) data.id).mp ⟨data,carried,rfl⟩
  obtain ⟨row,found,live⟩ := accounted.located.live data.id _ held
  have living := alive.living data.id row found
  exact ⟨row,found,live,living.noted,
    living.stationed.worked index (subject_of_carried carried)⟩

/-! ### Awaits of a worker -/

/-- A worker goes on with the task that it carries, or lets go of it: nothing changes but that task. -/
theorem worker_alive (accounted : Accounted taskQueue (view s) holder) (announces : Announces s) (alive : Alive s)
    {index : Nat} {data : TaskData} (carried : (s.workers index).carried = some data) (next : WorkerAt)
    (table : TaskTable) (executed : List String) (at_ : ∀ id, subject next = some id → id = data.id)
    (rows : ∀ other, other ≠ data.id → table.row other = s.table.row other)
    (counts : ∀ other, other ≠ data.id → executed.count other = s.executed.count other)
    (own : ∃ row, table.row data.id = some row ∧ Noted row (executed.count data.id) (outcomes data.id s) ∧
      AtStage row (executed.count data.id) (outcomes data.id s) next) :
    Alive (moveTo index next { s with table := table, executed := executed }) := by
  obtain ⟨queues,handing,workers⟩ := subject_alone accounted announces (subject_of_carried carried)
  obtain ⟨row,written,noted,stage⟩ := own
  constructor
  · intro id absent
    have differs : id ≠ data.id := by
      rintro rfl
      cases written.symm.trans absent
    obtain ⟨unexecuted,untold⟩ := alive.known id (by rw [← rows id differs]; exact absent)
    exact ⟨(counts id differs).trans unexecuted,untold⟩
  · intro id other found
    by_cases same : id = data.id
    · subst same
      cases written.symm.trans found
      refine ⟨noted,stationed_moveTo queues handing (fun _ => stage) ?_⟩
      intro another elsewhere before
      exact absurd (workers another before) elsewhere
    · have before := alive.living id other (by rw [← rows id same]; exact found)
      refine before.stays (counts id same) rfl (fun stationed => stationed.stays (fun _ _ member _ => member)
        (fun _ handed _ => handed) ?_)
      intro another after
      rcases subject_moveTo after with ⟨_,moved⟩ | ⟨elsewhere,_⟩
      · exact absurd (at_ id moved) same
      · rw [moveTo_other elsewhere]

/-- A worker writes the row of its task. -/
theorem write_alive (accounted : Accounted taskQueue (view s) holder) (announces : Announces s) (alive : Alive s)
    {index : Nat} {data : TaskData} (carried : (s.workers index).carried = some data) (next : WorkerAt)
    (status : TaskStatus) (result : Option Dict) (error : Option String) (attempts : Option Int)
    (at_ : ∀ id, subject next = some id → id = data.id)
    (own : ∀ row after : Task, row.id = data.id → Live row.status → Noted row (executions data.id s) [] →
      AtStage row (executions data.id s) [] (s.workers index) →
      after = { row with
        status := status
        result := result.or row.result
        error := error.or row.error
        attempts := attempts.getD row.attempts } →
      Noted after (executions data.id s) [] ∧ AtStage after (executions data.id s) [] next) :
    Alive (moveTo index next { s with table := s.table.updateStatus data.id status result error attempts }) := by
  obtain ⟨row,found,live,noted,stage⟩ := carried_living accounted alive carried
  have untold := noted.untold (not_or.mpr (live_not_settled live))
  have named := s.table.named data.id row found
  rw [untold] at noted stage
  refine worker_alive accounted announces alive carried next _ s.executed at_ ?_ (fun _ _ => rfl)
    ⟨_,updateStatus_self found status result error attempts,?_⟩
  · intro other differs
    exact updateStatus_other differs status result error attempts s.table
  · rw [untold]
    exact own row _ named live noted stage rfl

theorem pop_alive (alive : Alive s) {index : Nat} {key : String} {data : TaskData} {rest : List TaskData}
    (queue : s.queues key = data :: rest) :
    Alive (moveTo index (.marking data) { s with queues := Function.update s.queues key rest }) := by
  refine ⟨alive.known,?_⟩
  intro id row found
  obtain ⟨noted,stationed⟩ := alive.living id row found
  exact ⟨noted,stationed.popped queue (fun waiting => waiting)⟩

theorem requeue_alive (alive : Alive s) {index : Nat} {key : String} {data : TaskData}
    (place : s.workers index = .requeueing data) :
    Alive (moveTo index .popping { s with queues := push key data s.queues }) := by
  refine ⟨alive.known,?_⟩
  intro id row found
  obtain ⟨noted,stationed⟩ := alive.living id row found
  exact ⟨noted,stationed.requeued place (fun waiting => waiting)⟩

theorem mark_alive (accounted : Accounted taskQueue (view s) holder) (announces : Announces s) (alive : Alive s)
    {index : Nat} {data : TaskData} (place : s.workers index = .marking data) :
    Alive (moveTo index (.executing data) { s with
      table := s.table.updateStatus data.id .running none none none }) := by
  have carried : (s.workers index).carried = some data := by rw [place]; rfl
  refine write_alive accounted announces alive carried (.executing data) .running none none none ?_ ?_
  · rintro id ⟨⟩
    rfl
  · rintro row after _ live noted waiting rfl
    rw [place] at waiting
    have unfinished : row.status ≠ .completed := (live_not_settled live).1
    refine ⟨noted_live (.inr (.inl rfl)) noted.within ?_,rfl,?_,?_⟩
    · exact noted.result unfinished
    · simp only [Option.getD_none]
      rcases waiting with ⟨_,first,none⟩ | ⟨_,counted,_⟩ <;> omega
    · show executions data.id s = 0 ∨ ((executions data.id s : Nat) : Int) + 1 < row.maxAttempts
      rcases waiting with ⟨_,_,none⟩ | ⟨_,_,_,below⟩
      · exact .inl none
      · exact .inr below

theorem retry_alive (accounted : Accounted taskQueue (view s) holder) (announces : Announces s) (alive : Alive s)
    {index : Nat} {data : TaskData} {error : String} {attempts : Int}
    (place : s.workers index = .retrying data error attempts) :
    Alive (moveTo index (.requeueing data) { s with
      table := s.table.updateStatus data.id .retrying none (some error) (some attempts) }) := by
  have carried : (s.workers index).carried = some data := by rw [place]; rfl
  refine write_alive accounted announces alive carried (.requeueing data) .retrying none (some error) (some attempts)
    ?_ ?_
  · rintro id ⟨⟩
    rfl
  · rintro row after _ live noted stage rfl
    rw [place] at stage
    obtain ⟨⟨_,_,once,_⟩,counted,below⟩ := stage
    have unfinished : row.status ≠ .completed := (live_not_settled live).1
    refine ⟨noted_live (.inr (.inr rfl)) noted.within (noted.result unfinished),.inr ⟨rfl,?_,once,?_⟩⟩
    · exact counted
    · show ((executions data.id s : Nat) : Int) + 1 < row.maxAttempts
      omega

theorem fail_alive (accounted : Accounted taskQueue (view s) holder) (announces : Announces s) (alive : Alive s)
    {index : Nat} {data : TaskData} {error : String} {attempts : Int}
    (place : s.workers index = .failing data error attempts) :
    Alive (moveTo index (.announcing (.taskFailed data.id error)) { s with
      table := s.table.updateStatus data.id .failed none (some error) (some attempts) }) := by
  have carried : (s.workers index).carried = some data := by rw [place]; rfl
  refine write_alive accounted announces alive carried _ .failed none (some error) (some attempts) ?_ ?_
  · rintro id ⟨⟩
    rfl
  · rintro row after named live noted stage rfl
    rw [place] at stage
    have unfinished : row.status ≠ .completed := (live_not_settled live).1
    refine ⟨⟨noted.within,?_,fun _ => stage.2.2.1,fun _ => noted.result unfinished,.inl rfl⟩,rfl,?_,rfl,rfl⟩
    · intro contrary
      cases contrary
    · simp [isOutcomeOf,named]

theorem complete_alive (accounted : Accounted taskQueue (view s) holder) (announces : Announces s) (alive : Alive s)
    {index : Nat} {data : TaskData} {result : Option Dict} (place : s.workers index = .completing data result) :
    Alive (moveTo index (.announcing (.taskCompleted data.id result)) { s with
      table := s.table.updateStatus data.id .completed result none (some 0) }) := by
  have carried : (s.workers index).carried = some data := by rw [place]; rfl
  refine write_alive accounted announces alive carried _ .completed result none (some 0) ?_ ?_
  · rintro id ⟨⟩
    rfl
  · rintro row after named live noted stage rfl
    rw [place] at stage
    have unfinished : row.status ≠ .completed := (live_not_settled live).1
    refine ⟨⟨noted.within,?_,fun _ => stage.2,?_,.inl rfl⟩,rfl,?_,rfl,?_⟩
    · intro contrary
      cases contrary
    · intro contrary
      exact absurd rfl contrary
    · simp [isOutcomeOf,named]
    · simp [noted.result unfinished]

/-- After `execute_task` the worker has counted the task, and reads or completes it, or lets go of it. -/
theorem execute_alive (accounted : Accounted taskQueue (view s) holder) (announces : Announces s) (alive : Alive s)
    {index : Nat} {data : TaskData} (place : s.workers index = .executing data)
    (outcome : Option (Option Dict × Option String)) :
    Alive (moveTo index (afterExecution data outcome) { s with executed := s.executed ++ [data.id] }) := by
  have carried : (s.workers index).carried = some data := by rw [place]; rfl
  obtain ⟨row,found,live,noted,stage⟩ := carried_living accounted alive carried
  have untold := noted.untold (not_or.mpr (live_not_settled live))
  have once : (s.executed ++ [data.id]).count data.id = executions data.id s + 1 := by simp [executions]
  rw [place] at stage
  obtain ⟨running,counted,early⟩ := stage
  refine worker_alive accounted announces alive carried _ s.table _ ?_ (fun _ _ => rfl) ?_ ⟨row,found,?_,?_⟩
  · intro id at_
    cases outcome with
    | none => cases at_
    | some result =>
      rw [subject_of_carried (afterExecution_carried (Option.some_ne_none result))] at at_
      exact (Option.some.inj at_).symm
  · intro other differs
    simp [List.count_append,Ne.symm differs]
  · rw [once,untold]
    have within : ((executions data.id s + 1 : Nat) : Int) ≤ max 1 (row.maxAttempts - 1) := by omega
    exact noted_live live within (noted.result (live_not_settled live).1)
  · rw [once]
    have tried : Tried row (executions data.id s + 1) := ⟨running,by omega,by omega,by omega⟩
    unfold afterExecution
    split
    · trivial
    · split
      · exact ⟨running,by omega⟩
      · split_ifs
        · exact ⟨running,by omega⟩
        · exact tried

theorem read_alive (accounted : Accounted taskQueue (view s) holder) (announces : Announces s) (alive : Alive s)
    {index : Nat} {data : TaskData} {error : String} (place : s.workers index = .reading data error) :
    Alive (moveTo index (afterReading data error (s.table.get data.id)) s) := by
  have carried : (s.workers index).carried = some data := by rw [place]; rfl
  obtain ⟨row,found,live,noted,stage⟩ := carried_living accounted alive carried
  rw [place] at stage
  refine worker_alive accounted announces alive carried _ s.table s.executed ?_ (fun _ _ => rfl) (fun _ _ => rfl)
    ⟨row,found,noted,?_⟩
  · intro id at_
    rw [subject_of_carried (afterReading_carried ..)] at at_
    exact (Option.some.inj at_).symm
  · have read : s.table.get data.id = some (rowToTask row) := by simp [TaskTable.get,found]
    have counted : row.attempts = (executions data.id s : Int) := stage.2.1
    simp only [read,afterReading,rowToTask]
    split_ifs with below
    · exact ⟨stage,by simp [counted,executions],below⟩
    · exact stage

/-- The outcome that a worker announces is the first of its task. -/
theorem announce_alive (accounted : Accounted taskQueue (view s) holder) (announces : Announces s) (alive : Alive s)
    {index : Nat} {publication : Publication} (place : s.workers index = .announcing publication) :
    Alive (moveTo index .popping { s with published := s.published ++ [publication] }) := by
  have at_ : subject (s.workers index) = some (Publication.taskId publication) := by rw [place]; rfl
  obtain ⟨queues,handing,workers⟩ := subject_alone accounted announces at_
  have announcing : announced (s.workers index) = some (Publication.taskId publication) := by rw [place]; rfl
  obtain ⟨row,found,_⟩ := announces.settled index _ announcing
  have living := alive.living _ row found
  have stage := living.stationed.worked index at_
  rw [place] at stage
  obtain ⟨untold,ownOutcome,tells⟩ := stage
  have named : row.id = Publication.taskId publication := s.table.named _ row found
  rw [named] at ownOutcome
  -- an outcome of one task is none of another
  have bystander : ∀ id, id ≠ Publication.taskId publication → isOutcomeOf id publication = false := by
    intro id differs
    cases publication with
    | taskScheduled taskId provider => rfl
    | taskFailed taskId error => exact decide_eq_false (Ne.symm differs)
    | taskCompleted taskId result => exact decide_eq_false (Ne.symm differs)
  have unchanged : ∀ id, id ≠ Publication.taskId publication →
      (s.published ++ [publication]).filter (isOutcomeOf id) = s.published.filter (isOutcomeOf id) := by
    intro id differs
    simp [List.filter_append,bystander id differs]
  constructor
  · intro id absent
    have differs : id ≠ Publication.taskId publication := by
      rintro rfl
      cases found.symm.trans absent
    obtain ⟨unexecuted,nothing⟩ := alive.known id absent
    exact ⟨unexecuted,(unchanged id differs).trans nothing⟩
  · intro id other foundOther
    by_cases same : id = Publication.taskId publication
    · subst same
      cases found.symm.trans foundOther
      have told : (s.published ++ [publication]).filter (isOutcomeOf (Publication.taskId publication)) = [publication] := by
        rw [List.filter_append]
        have before : s.published.filter (isOutcomeOf (Publication.taskId publication)) = [] := untold
        simp [before,ownOutcome]
      have noted := living.noted
      refine ⟨⟨noted.within,noted.pending,noted.settled,noted.result,.inr ⟨publication,told,tells⟩⟩,
        stationed_moveTo queues handing (fun _ => trivial) ?_⟩
      intro another elsewhere before
      exact absurd (workers another before) elsewhere
    · exact (alive.living id other foundOther).stays rfl (unchanged id same) (fun stationed => stationed.dropped index _)

/-- A worker that raises lets go of what it is at, and the row stays. -/
theorem hush_alive (alive : Alive s) {index : Nat} : Alive (moveTo index .popping s) := by
  refine ⟨alive.known,?_⟩
  intro id row found
  exact (alive.living id row found).stays rfl rfl (fun stationed => stationed.dropped index s.published)

theorem workerStep_alive (accounted : Accounted taskQueue (view s) holder) (announces : Announces s) (alive : Alive s)
    (index : Nat) (raises : Bool) : Alive (workerStep (taskQueue index) index raises s) := by
  unfold workerStep
  cases place : s.workers index with
  | popping =>
    cases queue : s.queues (taskQueue index) with
    | nil => exact alive
    | cons data rest =>
      cases raises with
      | true => exact alive
      | false => exact pop_alive alive queue
  | marking data =>
    cases raises with
    | true => exact hush_alive alive
    | false => exact mark_alive accounted announces alive place
  | executing data => exact execute_alive accounted announces alive place _
  | reading data error =>
    cases raises with
    | true => exact hush_alive alive
    | false => exact read_alive accounted announces alive place
  | retrying data error attempts =>
    cases raises with
    | true => exact hush_alive alive
    | false => exact retry_alive accounted announces alive place
  | requeueing data =>
    cases raises with
    | true => exact hush_alive alive
    | false => exact requeue_alive alive place
  | failing data error attempts =>
    cases raises with
    | true => exact hush_alive alive
    | false => exact fail_alive accounted announces alive place
  | completing data result =>
    cases raises with
    | true => exact hush_alive alive
    | false => exact complete_alive accounted announces alive place
  | announcing publication =>
    cases raises with
    | true => exact hush_alive alive
    | false => exact announce_alive accounted announces alive place

/-! ### Awaits of the scheduler, and new tasks -/

/-- Without a task in hand and without a change to rows, queues and outcomes, the stages stay. -/
theorem pass_alive (alive : Alive s) {next : SchedulerAt} (free : next.handing = none) {published : List Publication}
    (untold : ∀ id, published.filter (isOutcomeOf id) = s.published.filter (isOutcomeOf id)) :
    Alive { s with scheduler := next, published := published } := by
  constructor
  · intro id absent
    obtain ⟨unexecuted,nothing⟩ := alive.known id absent
    exact ⟨unexecuted,(untold id).trans nothing⟩
  · intro id row found
    exact (alive.living id row found).stays rfl (untold id) (fun stationed => stationed.passed free published)

theorem push_alive (alive : Alive s) {task : Task} {rest : List Task} (place : s.scheduler = .pushing task rest) :
    Alive { s with
      queues := push (queueKey task.provider) (TaskData.ofTask task) s.queues
      scheduler := .publishing task rest } := by
  refine ⟨alive.known,?_⟩
  intro id row found
  obtain ⟨noted,stationed⟩ := alive.living id row found
  exact ⟨noted,stationed.pushed place⟩

/-- A task that the scheduler is about to mark is pending, in no place and at no worker. -/
theorem upcoming_alone (accounted : Accounted taskQueue (view s) holder) (announces : Announces s) {task : Task}
    {rest : List Task} (place : s.scheduler = .marking task rest) :
    ∃ row, s.table.row task.id = some row ∧ row.status = .pending ∧ (∀ place, ¬ Holds (view s) place task.id) ∧
      ∀ index, subject (s.workers index) ≠ some task.id := by
  have listed : task ∈ (view s).upcoming := by
    simp only [view,place,SchedulerAt.upcoming]
    exact List.mem_cons_self
  obtain ⟨row,found,pending,_⟩ := accounted.consistent.upcoming task listed
  have nowhere : ∀ place, ¬ Holds (view s) place task.id := by
    intro place
    rw [accounted.located.agrees,pending_free accounted.located found pending]
    simp
  refine ⟨row,found,pending,nowhere,?_⟩
  intro index at_
  obtain ⟨other,same,settled⟩ := announces.settled index _ (announced_of_nowhere nowhere at_)
  have equal : other = row := Option.some.inj (same.symm.trans found)
  rw [equal,pending] at settled
  rcases settled with contrary | contrary <;> cases contrary

theorem dispatch_alive (accounted : Accounted taskQueue (view s) holder) (announces : Announces s) (alive : Alive s)
    {task : Task} {rest : List Task} (place : s.scheduler = .marking task rest) :
    Alive { s with
      table := s.table.updateStatus task.id .scheduled none none (some 1)
      scheduler := .pushing task rest } := by
  obtain ⟨row,found,pending,nowhere,idle⟩ := upcoming_alone accounted announces place
  have written := updateStatus_self found .scheduled none none (some 1)
  constructor
  · intro id absent
    by_cases same : id = task.id
    · subst same
      cases written.symm.trans absent
    · exact alive.known id ((updateStatus_other same _ _ _ _ s.table).symm.trans absent)
  · intro id after foundAfter
    by_cases same : id = task.id
    · subst same
      cases written.symm.trans foundAfter
      have noted := (alive.living task.id row found).noted
      have zero : executions task.id s = 0 := noted.pending pending
      have unsettled : ¬ Settled row.status := by
        rw [pending]
        rintro (contrary | contrary) <;> cases contrary
      have untold : outcomes task.id s = [] := noted.untold unsettled
      have waiting : Waiting { row with status := .scheduled, result := row.result, error := row.error, attempts := 1 }
          (executions task.id s) := .inl ⟨rfl,rfl,zero⟩
      have unfinished : row.status ≠ .completed := fun completed => unsettled (.inl completed)
      refine ⟨?_,⟨?_,fun _ _ _ => waiting,?_⟩⟩
      · show Noted _ (executions task.id s) (outcomes task.id s)
        rw [untold]
        exact noted_live (waiting_live waiting) noted.within (noted.result unfinished)
      · intro key entry member equal
        exact absurd equal ((nowhere_waits nowhere).1 key entry member)
      · intro index at_
        exact absurd at_ (idle index)
    · have unchanged : s.table.row id = some after := (updateStatus_other same _ _ _ _ s.table).symm.trans foundAfter
      exact (alive.living id after unchanged).stays rfl rfl (fun stationed => stationed.marked _ same)

theorem schedulerStep_alive (accounted : Accounted taskQueue (view s) holder) (announces : Announces s)
    (alive : Alive s) (raises : Bool) : Alive (schedulerStep raises s) := by
  cases raises with
  | true => exact pass_alive alive rfl (fun _ => rfl)
  | false =>
    cases place : s.scheduler with
    | polling =>
      simp only [schedulerStep,place]
      exact pass_alive alive (nextTask_free _) (fun _ => rfl)
    | marking task rest =>
      simp only [schedulerStep,place]
      exact dispatch_alive accounted announces alive place
    | pushing task rest =>
      simp only [schedulerStep,place]
      exact push_alive alive place
    | publishing task rest =>
      simp only [schedulerStep,place]
      exact pass_alive alive (nextTask_free rest) (fun id => by simp [List.filter_append,isOutcomeOf])

theorem create_alive (accounted : Accounted taskQueue (view s) holder) (announces : Announces s) (alive : Alive s)
    (task : Task) : Alive { s with table := s.table.create { task with status := .pending } } := by
  constructor
  · intro id absent
    cases found : s.table.row id with
    | none => exact alive.known id found
    | some row => cases (create_kept found).symm.trans absent
  · intro id row found
    rcases create_row found with old | ⟨same,absent,rfl⟩
    · exact (alive.living id row old).stays rfl rfl
        (fun stationed => stationed.stays (fun _ _ member _ => member) (fun _ handed _ => handed) (fun _ _ => rfl))
    · have nowhere : ∀ place, ¬ Holds (view s) place id := by
        intro place holds
        obtain ⟨other,listed,_⟩ := accounted.located.live id place ((accounted.located.agrees place id).mp holds)
        cases (show s.table.row id = some other from listed).symm.trans absent
      obtain ⟨unexecuted,untold⟩ := alive.known id absent
      obtain ⟨queues,handing⟩ := nowhere_waits nowhere
      refine ⟨⟨?_,fun _ => unexecuted,?_,fun _ => rfl,.inl untold⟩,?_,?_,?_⟩
      · show ((executions id s : Nat) : Int) ≤ _
        omega
      · rintro (contrary | contrary) <;> cases contrary
      · intro key entry member equal
        exact absurd equal (queues key entry member)
      · intro data handed equal
        exact absurd equal (handing data handed)
      · intro index at_
        have announcing := announced_of_nowhere nowhere (show subject (s.workers index) = some id from at_)
        obtain ⟨other,listed,_⟩ := announces.settled index id announcing
        cases listed.symm.trans absent

/-! ### Runs -/

/-- Whatever raises, every task stays in a stage. -/
theorem step_alive (accounted : Accounted taskQueue (view s) holder) (announces : Announces s) (alive : Alive s)
    (label : Label) : Alive (step taskQueue s label) := by
  cases label with
  | create task => exact create_alive accounted announces alive task
  | scheduler raises => exact schedulerStep_alive accounted announces alive raises
  | worker index raises => exact workerStep_alive accounted announces alive index raises

theorem idle_alive : Alive idle := by
  refine ⟨fun _ _ => ⟨rfl,rfl⟩,?_⟩
  intro id row found
  cases found

end

/-- The account of the tasks, their announcements and their stages. -/
def Sound (taskQueue : Nat → String) (s : DispatchState) : Prop :=
  (∃ holder, Accounted taskQueue (view s) holder) ∧ Announces s ∧ Alive s

theorem idle_sound (taskQueue : Nat → String) : Sound taskQueue idle :=
  ⟨⟨_,idle_accounted taskQueue⟩,idle_announces,idle_alive⟩

theorem step_sound {taskQueue : Nat → String} {s : DispatchState} (sound : Sound taskQueue s) (label : Label) :
    Sound taskQueue (step taskQueue s label) := by
  obtain ⟨⟨_,accounted⟩,announces,alive⟩ := sound
  exact ⟨step_accounted accounted label,step_announces accounted announces label,
    step_alive accounted announces alive label⟩

theorem run_sound (taskQueue : Nat → String) (labels : List Label) :
    Always (step taskQueue) (Sound taskQueue) idle labels :=
  always_of_step (Sound taskQueue) (fun _ label sound => step_sound sound label) (idle_sound taskQueue) labels

/-! ### The life cycle -/

/-- A change of the table: none, a new row, or a row that is given a status it can be given next. -/
def Advances (before after : TaskTable) : Prop :=
  after = before ∨ (∃ task, after = before.create task) ∨
    ∃ id row status result error attempts, before.row id = some row ∧ Follows row.status status ∧
      after = before.updateStatus id status result error attempts

section
variable {taskQueue : Nat → String} {s : DispatchState} {holder : String → Option Place}

/-- A worker that writes its row gives it a status that follows. -/
theorem carried_advances (accounted : Accounted taskQueue (view s) holder) (alive : Alive s) {index : Nat}
    {data : TaskData} (carried : (s.workers index).carried = some data) {status : TaskStatus}
    (follows : ∀ row, AtStage row (executions data.id s) (outcomes data.id s) (s.workers index) →
      Follows row.status status) (result : Option Dict) (error : Option String) (attempts : Option Int) :
    Advances s.table (s.table.updateStatus data.id status result error attempts) := by
  obtain ⟨row,found,_,_,stage⟩ := carried_living accounted alive carried
  exact .inr (.inr ⟨data.id,row,status,result,error,attempts,found,follows row stage,rfl⟩)

theorem workerStep_advances (accounted : Accounted taskQueue (view s) holder) (alive : Alive s) (index : Nat)
    (raises : Bool) : Advances s.table (workerStep (taskQueue index) index raises s).table := by
  unfold workerStep
  cases place : s.workers index with
  | popping =>
    cases s.queues (taskQueue index) with
    | nil => exact .inl rfl
    | cons data rest => cases raises <;> exact .inl rfl
  | marking data =>
    cases raises with
    | true => exact .inl rfl
    | false =>
      refine carried_advances accounted alive (by rw [place]; rfl) ?_ none none none
      intro row stage
      rw [place] at stage
      exact .begun (stage.imp (fun first => first.1) (fun again => again.1))
  | retrying data error attempts =>
    cases raises with
    | true => exact .inl rfl
    | false =>
      refine carried_advances accounted alive (by rw [place]; rfl) ?_ none (some error) (some attempts)
      intro row stage
      rw [place] at stage
      rw [stage.1.1]
      exact .putBack
  | failing data error attempts =>
    cases raises with
    | true => exact .inl rfl
    | false =>
      refine carried_advances accounted alive (by rw [place]; rfl) ?_ none (some error) (some attempts)
      intro row stage
      rw [place] at stage
      rw [stage.1]
      exact .failed
  | completing data result =>
    cases raises with
    | true => exact .inl rfl
    | false =>
      refine carried_advances accounted alive (by rw [place]; rfl) ?_ result none (some 0)
      intro row stage
      rw [place] at stage
      rw [stage.1]
      exact .completed
  | executing data => exact .inl rfl
  | _ => cases raises <;> exact .inl rfl

theorem schedulerStep_advances (accounted : Accounted taskQueue (view s) holder) (announces : Announces s)
    (raises : Bool) : Advances s.table (schedulerStep raises s).table := by
  cases raises with
  | true => exact .inl rfl
  | false =>
    cases place : s.scheduler with
    | marking task rest =>
      obtain ⟨row,found,pending,_⟩ := upcoming_alone accounted announces place
      simp only [schedulerStep,place]
      refine .inr (.inr ⟨task.id,row,.scheduled,none,none,some 1,found,?_,rfl⟩)
      rw [pending]
      exact .dispatched
    | _ =>
      simp only [schedulerStep,place]
      exact .inl rfl

theorem step_advances (sound : Sound taskQueue s) (label : Label) : Advances s.table (step taskQueue s label).table := by
  obtain ⟨⟨_,accounted⟩,announces,alive⟩ := sound
  cases label with
  | create task => exact .inr (.inl ⟨_,rfl⟩)
  | scheduler raises => exact schedulerStep_advances accounted announces raises
  | worker index raises => exact workerStep_advances accounted alive index raises

/-- In a table that advances every row stays, and its status stays or is followed by the next. -/
theorem Advances.row {before after : TaskTable} (advances : Advances before after) {id : String} {row : Task}
    (found : before.row id = some row) :
    ∃ later, after.row id = some later ∧ (later = row ∨ Follows row.status later.status) := by
  rcases advances with rfl | ⟨task,rfl⟩ | ⟨changed,old,status,result,error,attempts,listed,follows,rfl⟩
  · exact ⟨row,found,.inl rfl⟩
  · exact ⟨row,create_kept found,.inl rfl⟩
  · by_cases same : id = changed
    · subst same
      cases found.symm.trans listed
      exact ⟨_,updateStatus_self found status result error attempts,.inr follows⟩
    · exact ⟨row,by rwa [updateStatus_other same],.inl rfl⟩

end

/-- In every run from idle processes, whatever raises and however the processes interleave,
    no row disappears, and a step leaves a row as it was or gives it the next status of its
    life cycle. -/
theorem statuses_follow (taskQueue : Nat → String) (labels : List Label) :
    Each (step taskQueue) (fun s label => ∀ id row, s.table.row id = some row →
      ∃ later, (step taskQueue s label).table.row id = some later ∧ (later = row ∨ Follows row.status later.status))
      idle labels := by
  have each : Each (step taskQueue) (fun _ _ => True) idle labels := fun _ _ _ => trivial
  refine Each.mono ?_ (run_sound taskQueue labels) each
  intro s label sound _ id row found
  exact (step_advances sound label).row found

/-- In every run from idle processes, whatever raises, a task is executed once less than its
    maximum of attempts at most, or once; it has not been executed while it is pending, and
    at least once when it has ended. -/
theorem executions_within (taskQueue : Nat → String) (labels : List Label) :
    Always (step taskQueue) (fun s => ∀ id,
      (s.table.row id = none → executions id s = 0) ∧
      ∀ row, s.table.row id = some row → (executions id s : Int) ≤ max 1 (row.maxAttempts - 1) ∧
        (row.status = .pending → executions id s = 0) ∧ (Settled row.status → 1 ≤ executions id s)) idle labels := by
  refine (run_sound taskQueue labels).mono ?_
  rintro s ⟨_,_,alive⟩ id
  refine ⟨fun absent => (alive.known id absent).1,?_⟩
  intro row found
  have noted := (alive.living id row found).noted
  exact ⟨noted.within,noted.pending,noted.settled⟩

/-- In every run from idle processes, whatever raises, at most one outcome of each task is
    published, and from then on the row says what it tells: that the task has failed, with
    the error, or that it is completed, with the result. -/
theorem outcomes_told (taskQueue : Nat → String) (labels : List Label) :
    Always (step taskQueue) (fun s => ∀ id, outcomes id s = [] ∨
      ∃ publication row, outcomes id s = [publication] ∧ s.table.row id = some row ∧ Tells row publication)
      idle labels := by
  refine (run_sound taskQueue labels).mono ?_
  rintro s ⟨_,_,alive⟩ id
  cases found : s.table.row id with
  | none => exact .inl (alive.known id found).2
  | some row =>
    rcases (alive.living id row found).noted.told with nothing | ⟨publication,told,tells⟩
    · exact .inl nothing
    · exact .inr ⟨publication,row,told,rfl,tells⟩

end Hookclose.TaskLifecycle
