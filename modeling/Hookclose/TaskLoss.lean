import Hookclose.Custody

/-!
When the dispatch loop loses a task. Each await is a move of the account of who has
which task (`step_keeps`, `step_loses`): a task is lost exactly when a process that has
its only copy raises, between the mark and the push of the scheduler, or between the
pop of a worker and the write or the push that ends its turn. Nothing picks the task
up again, since only pending tasks are polled.
-/
namespace Hookclose.TaskLoss
open Hookclose.TaskRepository Hookclose.TaskRepository.TaskTable Hookclose.Dispatch Hookclose.Custody Hookclose.Runs

/-- A worker processes a task from its pop to the await that settles it or pushes it back. -/
def BeingProcessed (s : DispatchState) (id : String) : Prop :=
  s.scheduler.current = some id ∨ ∃ index data, (s.workers index).carried = some data ∧ data.id = id

/-- The queue of a task's provider has an entry for it. -/
def Queued (s : DispatchState) (task : Task) : Prop :=
  ∃ data ∈ s.queues (queueKey (rowToTask task).provider), data.id = task.id

/-- A task that is neither completed nor failed is pending, queued or being processed. -/
def NoTaskLost (s : DispatchState) : Prop :=
  ∀ id task, s.table.row id = some task → task.status ≠ .completed → task.status ≠ .failed →
    task.status = .pending ∨ Queued s task ∨ BeingProcessed s id

/-- The process that makes the step does not raise while it has the only copy of a task:
    the scheduler between its mark and its push, a worker while it carries the task. An
    execution raises also by itself, on a duration that is not a number. -/
def Safe (s : DispatchState) : Label → Prop
  | .create _ => True
  | .scheduler raises => raises = true → s.scheduler.handing = none
  | .worker index raises => ∀ data, (s.workers index).carried = some data →
      raises = false ∧ (s.workers index = .executing data → executeTask data ≠ none)

/-! ### The account of a state -/

/-- Who has which task. -/
def view (s : DispatchState) : Holdings where
  table := s.table
  queues := s.queues
  handing := s.scheduler.handing
  upcoming := s.scheduler.upcoming
  carried := fun index => (s.workers index).carried

theorem view_moveTo (worker : Nat) (next : WorkerAt) (s : DispatchState) :
    view (moveTo worker next s) = { view s with carried := Function.update (view s).carried worker next.carried } := by
  unfold view
  congr 1
  funext index
  by_cases same : index = worker
  · subst same
    simp
  · simp [same]

theorem view_stays (worker : Nat) (next : WorkerAt) (s : DispatchState)
    (same : next.carried = (s.workers worker).carried) : view (moveTo worker next s) = view s := by
  have unchanged : Function.update (view s).carried worker next.carried = (view s).carried := by
    rw [same]
    exact Function.update_eq_self worker (view s).carried
  rw [view_moveTo,unchanged]

/-- What the scheduler has read already names the provider, so that the next
    iteration has the first of its tasks as it was read. -/
theorem view_pass {tasks : List Task} (read : ∀ task ∈ tasks, ∃ row, task = rowToTask row) (s : DispatchState) :
    view { s with scheduler := nextTask tasks } = { view s with handing := none, upcoming := tasks } := by
  cases tasks with
  | nil => rfl
  | cons task rest =>
    obtain ⟨row,rfl⟩ := read task List.mem_cons_self
    have named : (rowToTask row).provider ≠ "" := by
      unfold rowToTask
      by_cases blank : row.provider = "" <;> simp [blank]
    simp [view,nextTask,SchedulerAt.handing,SchedulerAt.upcoming,named]

theorem getPending_read (table : TaskTable) : ∀ task ∈ table.getPending 10, ∃ row, task = rowToTask row := by
  intro task member
  obtain ⟨row,_,_,read⟩ := getPending_mem member
  exact ⟨row,read⟩

section
variable {taskQueue : Nat → String} {s : DispatchState} {holder : String → Option Place}

theorem upcoming_read (accounted : Accounted taskQueue (view s) holder) :
    ∀ task ∈ s.scheduler.upcoming, ∃ row, task = rowToTask row := by
  intro task member
  obtain ⟨row,_,_,read⟩ := accounted.consistent.upcoming task member
  exact ⟨row,read⟩

/-! ### Awaits as moves -/

theorem scheduler_keeps (accounted : Accounted taskQueue (view s) holder) {raises : Bool}
    (safe : Safe s (.scheduler raises)) : Keeps taskQueue (view s) (view (schedulerStep raises s)) := by
  have read := upcoming_read accounted
  cases raises with
  | true =>
    have free : (view s).handing = none := safe rfl
    have next : view (schedulerStep true s) = { view s with upcoming := [] } := by
      rw [show (view (schedulerStep true s)) = { view s with handing := none, upcoming := [] } from rfl,← free]
    rw [next]
    exact .abandon free
  | false =>
    obtain ⟨table,queues,scheduler,workers,executed,published⟩ := s
    cases scheduler with
    | polling =>
      have next := view_pass (getPending_read table) ⟨table,queues,.polling,workers,executed,published⟩
      exact next ▸ Keeps.poll rfl
    | marking task rest => exact .mark task rest rfl rfl
    | pushing task rest => exact .hand (TaskData.ofTask task) rfl
    | publishing task rest =>
      have next := view_pass read ⟨table,queues,.publishing task rest,workers,executed,
        published ++ [.taskScheduled task.id task.provider]⟩
      exact next ▸ Keeps.stay

/-- A raise of the scheduler between its mark and its push. -/
theorem scheduler_loses {raises : Bool} (careless : ¬ Safe s (.scheduler raises)) :
    Loses (view s) (view (schedulerStep raises s)) := by
  cases raises with
  | true =>
    cases handing : s.scheduler.handing with
    | none => exact absurd (fun _ => handing) careless
    | some data => exact .scheduler data handing
  | false =>
    refine absurd ?_ careless
    intro contrary
    cases contrary

theorem afterExecution_carried {data : TaskData} {outcome : Option (Option Dict × Option String)}
    (returns : outcome ≠ none) : (afterExecution data outcome).carried = some data := by
  obtain ⟨⟨result,error⟩,rfl⟩ := Option.ne_none_iff_exists'.mp returns
  cases error with
  | none => rfl
  | some text =>
    simp only [afterExecution]
    split_ifs <;> rfl

theorem afterReading_carried (data : TaskData) (error : String) (row : Option Task) :
    (afterReading data error row).carried = some data := by
  unfold afterReading
  cases row with
  | none => rfl
  | some task =>
    dsimp only
    split_ifs <;> rfl

theorem worker_keeps {index : Nat} {raises : Bool} (safe : Safe s (.worker index raises)) :
    Keeps taskQueue (view s) (view (workerStep (taskQueue index) index raises s)) := by
  have carried : (view s).carried index = (s.workers index).carried := rfl
  unfold workerStep
  cases place : s.workers index with
  | popping =>
    rw [place] at carried
    cases queue : s.queues (taskQueue index) with
    | nil => exact .stay
    | cons data rest =>
      cases raises with
      | true => exact .stay
      | false =>
        have next := view_moveTo index (.marking data)
          { s with queues := Function.update s.queues (taskQueue index) rest }
        exact next ▸ .take index data rest carried queue
  | marking data =>
    rw [place] at carried
    obtain ⟨rfl,_⟩ := safe data carried
    have next := view_stays index (.executing data)
      { s with table := s.table.updateStatus data.id .running none none none } carried.symm
    exact next ▸ .work index data carried .running (.inr (.inl rfl)) none none
  | executing data =>
    rw [place] at carried
    obtain ⟨rfl,returns⟩ := safe data carried
    have same := (afterExecution_carried (returns place)).trans carried.symm
    have next := view_stays index _ { s with executed := s.executed ++ [data.id] } same
    exact next ▸ Keeps.stay
  | reading data error =>
    rw [place] at carried
    obtain ⟨rfl,_⟩ := safe data carried
    have same := (afterReading_carried data error (s.table.get data.id)).trans carried.symm
    exact view_stays index _ s same ▸ Keeps.stay
  | retrying data error attempts =>
    rw [place] at carried
    obtain ⟨rfl,_⟩ := safe data carried
    have next := view_stays index (.requeueing data)
      { s with table := s.table.updateStatus data.id .retrying none (some error) (some attempts) } carried.symm
    exact next ▸ .work index data carried .retrying (.inr (.inr rfl)) (some error) (some attempts)
  | requeueing data =>
    rw [place] at carried
    obtain ⟨rfl,_⟩ := safe data carried
    have next := view_moveTo index .popping { s with queues := push (taskQueue index) data s.queues }
    exact next ▸ .requeue index data carried
  | failing data error attempts =>
    rw [place] at carried
    obtain ⟨rfl,_⟩ := safe data carried
    have next := view_moveTo index (.announcing (.taskFailed data.id error)) { s with
      table := s.table.updateStatus data.id .failed none (some error) (some attempts) }
    exact next ▸ .settle index data carried .failed (.inr rfl) none (some error) (some attempts)
  | completing data result =>
    rw [place] at carried
    obtain ⟨rfl,_⟩ := safe data carried
    have next := view_moveTo index (.announcing (.taskCompleted data.id result)) { s with
      table := s.table.updateStatus data.id .completed result none (some 0) }
    exact next ▸ .settle index data carried .completed (.inl rfl) result none (some 0)
  | announcing publication =>
    rw [place] at carried
    cases raises with
    | true => exact view_stays index .popping s carried.symm ▸ Keeps.stay
    | false =>
      have next := view_stays index .popping { s with published := s.published ++ [publication] } carried.symm
      exact next ▸ Keeps.stay

/-- A worker that raises while it carries a task. -/
theorem worker_loses {index : Nat} {raises : Bool} (careless : ¬ Safe s (.worker index raises)) :
    Loses (view s) (view (workerStep (taskQueue index) index raises s)) := by
  simp only [Safe,not_forall] at careless
  obtain ⟨data,carried,fails⟩ := careless
  have lost : ∀ t : DispatchState, view t = view s → Loses (view s) (view (moveTo index .popping t)) := by
    intro t same
    rw [view_moveTo,same]
    exact .worker index data carried
  unfold workerStep
  cases place : s.workers index with
  | popping =>
    rw [place] at carried
    cases carried
  | announcing publication =>
    rw [place] at carried
    cases carried
  | executing other =>
    rw [place] at carried
    cases carried
    have nothing : (if raises then none else executeTask data) = none := by
      cases raises with
      | true => rfl
      | false => simpa [place] using fails
    dsimp only
    rw [nothing]
    exact lost { s with executed := s.executed ++ [data.id] } rfl
  | _ =>
    have raised : raises = true := by simpa [place] using fails
    subst raised
    exact lost s rfl

/-- Where no process raises with the only copy of a task, no task is let go of. -/
theorem step_keeps (accounted : Accounted taskQueue (view s) holder) {label : Label} (safe : Safe s label) :
    Keeps taskQueue (view s) (view (step taskQueue s label)) := by
  cases label with
  | create task => exact .create { task with status := .pending } rfl
  | scheduler raises => exact scheduler_keeps accounted safe
  | worker index raises => exact worker_keeps safe

theorem step_loses {label : Label} (careless : ¬ Safe s label) : Loses (view s) (view (step taskQueue s label)) := by
  cases label with
  | create task => exact absurd trivial careless
  | scheduler raises => exact scheduler_loses careless
  | worker index raises => exact worker_loses careless

/-! ### Runs -/

theorem idle_accounted (taskQueue : Nat → String) : Accounted taskQueue (view idle) (fun _ => none) := by
  refine ⟨⟨?_,?_,?_,?_,List.nodup_nil,fun _ => List.nodup_nil⟩,?_,?_⟩
  · intro key data member
    cases member
  · intro index data carries
    cases carries
  · intro data handing
    cases handing
  · intro task member
    cases member
  · rintro (_ | key | index) id <;> simp [Holds,view,idle,SchedulerAt.handing,WorkerAt.carried]
  · intro id place held
    cases held

/-- Whatever raises, the account stays right. -/
theorem step_accounted (accounted : Accounted taskQueue (view s) holder) (label : Label) :
    ∃ next, Accounted taskQueue (view (step taskQueue s label)) next := by
  by_cases safe : Safe s label
  · obtain ⟨next,after,_⟩ := keeps_good accounted (step_keeps accounted safe)
    exact ⟨next,after⟩
  · exact (loses_lost accounted (step_loses safe)).1

/-- A lost task stays lost. -/
theorem step_lost (accounted : Accounted taskQueue (view s) holder) {id : String} (lost : Lost (view s) id)
    (label : Label) : Lost (view (step taskQueue s label)) id := by
  by_cases safe : Safe s label
  · obtain ⟨_,_,_,later⟩ := keeps_good accounted (step_keeps accounted safe)
    exact later id lost
  · exact lost_loses lost (step_loses safe)

theorem step_kept (accounted : Accounted taskQueue (view s) holder) (kept : Kept (view s) holder) {label : Label}
    (safe : Safe s label) :
    ∃ next, Accounted taskQueue (view (step taskQueue s label)) next ∧ Kept (view (step taskQueue s label)) next := by
  obtain ⟨next,after,keeps,_⟩ := keeps_good accounted (step_keeps accounted safe)
  exact ⟨next,after,keeps kept⟩

/-- Where every task has a place none is lost. -/
theorem kept_noTaskLost (accounted : Accounted taskQueue (view s) holder) (kept : Kept (view s) holder) :
    NoTaskLost s := by
  intro id task found notCompleted notFailed
  have named : task.id = id := s.table.named id task found
  rcases kept id task found with (completed | failed) | pending | placed
  · exact absurd completed notCompleted
  · exact absurd failed notFailed
  · exact .inl pending
  · right
    obtain ⟨place,held⟩ := Option.isSome_iff_exists.mp placed
    have holds := (accounted.located.agrees place id).mpr held
    cases place with
    | scheduler =>
      obtain ⟨data,handing,same⟩ := holds
      right
      left
      cases position : s.scheduler with
      | pushing current rest =>
        simp only [view,position,SchedulerAt.handing,Option.some.injEq] at handing
        subst handing
        exact congrArg some same
      | _ => simp [view,position,SchedulerAt.handing] at handing
    | queue key =>
      obtain ⟨data,queued,same⟩ := holds
      obtain ⟨⟨row,listed,equal⟩,own⟩ := accounted.consistent.queued key data queued
      rw [same] at listed
      have row_eq : row = task := Option.some.inj (listed.symm.trans found)
      subst row_eq
      left
      refine ⟨data,?_,same.trans named.symm⟩
      have provider : data.provider = (rowToTask row).provider := by rw [equal]; rfl
      rw [← provider,← own]
      exact queued
    | worker index =>
      obtain ⟨data,carried,same⟩ := holds
      exact .inr (.inr ⟨index,data,carried,same⟩)

theorem nextTask_current {tasks : List Task} {id : String} (current : (nextTask tasks).current = some id) :
    ∃ task ∈ tasks, task.id = id := by
  cases tasks with
  | nil => cases current
  | cons task rest =>
    refine ⟨task,List.mem_cons_self,?_⟩
    simpa [nextTask,SchedulerAt.current] using current

/-- After its next await the scheduler is not at a lost task. -/
theorem scheduler_leaves (accounted : Accounted taskQueue (view s) holder) {id : String} (lost : Lost (view s) id) :
    (schedulerStep false s).scheduler.current ≠ some id := by
  obtain ⟨⟨row,found,live⟩,absent⟩ := lost
  have notPending : ∀ task : Task,
      (∃ row, s.table.row task.id = some row ∧ row.status = .pending ∧ task = rowToTask row) → task.id ≠ id := by
    rintro task ⟨other,listed,pending,_⟩ rfl
    have same : other = row := Option.some.inj (listed.symm.trans found)
    subst same
    exact live_not_pending live pending
  have upcoming : ∀ task ∈ s.scheduler.upcoming, task.id ≠ id :=
    fun task member => notPending task (accounted.consistent.upcoming task member)
  intro current
  cases position : s.scheduler with
  | polling =>
    simp only [schedulerStep,position] at current
    obtain ⟨task,member,same⟩ := nextTask_current current
    exact notPending task (getPending_mem member) same
  | marking task rest =>
    simp only [schedulerStep,position,SchedulerAt.current] at current
    have first : task ∈ s.scheduler.upcoming := by
      rw [position]
      exact List.mem_cons_self
    exact upcoming task first (Option.some.inj current)
  | pushing task rest =>
    simp only [schedulerStep,position,SchedulerAt.current] at current
    have handing : (view s).handing = some (TaskData.ofTask task) := by
      simp only [view,position,SchedulerAt.handing]
    exact absent .scheduler ⟨_,handing,Option.some.inj current⟩
  | publishing task rest =>
    simp only [schedulerStep,position] at current
    obtain ⟨next,member,same⟩ := nextTask_current current
    have listed : next ∈ s.scheduler.upcoming := by
      rw [position]
      exact member
    exact upcoming next listed same

/-- A lost task is missed once the scheduler has made its next await. -/
theorem lost_missed (accounted : Accounted taskQueue (view s) holder) {id : String} (lost : Lost (view s) id) :
    ¬ NoTaskLost (step taskQueue s (.scheduler false)) := by
  intro noneLost
  have leaves := scheduler_leaves accounted lost
  obtain ⟨⟨row,found,live⟩,absent⟩ := step_lost accounted lost (.scheduler false)
  have named : row.id = id := (step taskQueue s (.scheduler false)).table.named id row found
  obtain ⟨notCompleted,notFailed⟩ := live_not_settled live
  rcases noneLost id row found notCompleted notFailed with
    pending | ⟨data,queued,same⟩ | current | ⟨index,data,carried,same⟩
  · exact live_not_pending live pending
  · exact absent (.queue _) ⟨data,queued,same.trans named⟩
  · exact leaves current
  · exact absent (.worker index) ⟨data,carried,same⟩

/-- After a careless step a task is lost, however the run goes on. -/
theorem careless_loses {start : DispatchState} {labels : List Label}
    (accounted : Accounted taskQueue (view start) holder) (careless : ¬ Each (step taskQueue) Safe start labels) :
    ∃ next id, Accounted taskQueue (view (run (step taskQueue) start labels)) next ∧
      Lost (view (run (step taskQueue) start labels)) id := by
  induction labels generalizing start holder with
  | nil => exact absurd each_nil careless
  | cons label labels ih =>
    obtain ⟨next,after⟩ := step_accounted accounted label
    by_cases safe : Safe start label
    · have later : ¬ Each (step taskQueue) Safe (step taskQueue start label) labels :=
        fun each => careless (each_cons.mpr ⟨safe,each⟩)
      exact ih after later
    · -- the first careless step loses a task, and the rest of the run does not find it again
      have loses : Loses (view start) (view (step taskQueue start label)) := step_loses safe
      obtain ⟨_,id,lost⟩ := loses_lost accounted loses
      have always : Always (step taskQueue)
          (fun s => (∃ holder, Accounted taskQueue (view s) holder) ∧ Lost (view s) id) (step taskQueue start label)
          labels := by
        refine always_of_step _ ?_ ⟨⟨next,after⟩,lost⟩ labels
        rintro s label ⟨⟨_,accounted⟩,lost⟩
        exact ⟨step_accounted accounted label,step_lost accounted lost label⟩
      obtain ⟨⟨last,right⟩,still⟩ := always.last
      exact ⟨last,id,right,still⟩

end

/-- In every run from idle processes in which no process raises while it has the only
    copy of a task, no state has lost one; in every other run a task is lost, and
    missed at the latest after the next await of the scheduler, whose pass may still be
    at that task. -/
theorem noTaskLost_iff_safe (taskQueue : Nat → String) (labels : List Label) :
    (Each (step taskQueue) Safe idle labels → Always (step taskQueue) NoTaskLost idle labels) ∧
      (¬ Each (step taskQueue) Safe idle labels →
        ¬ Always (step taskQueue) NoTaskLost idle (labels ++ [.scheduler false])) := by
  constructor
  · intro safe
    have kept : Kept (view idle) (fun _ => none) := by
      intro id row found
      cases found
    have always : Always (step taskQueue)
        (fun s => ∃ holder, Accounted taskQueue (view s) holder ∧ Kept (view s) holder) idle labels := by
      refine always_of_each _ Safe ?_ ⟨_,idle_accounted taskQueue,kept⟩ safe
      rintro s label ⟨_,accounted,kept⟩ safe
      exact step_kept accounted kept safe
    refine always.mono ?_
    rintro s ⟨_,accounted,kept⟩
    exact kept_noTaskLost accounted kept
  · intro careless always
    obtain ⟨_,id,accounted,lost⟩ := careless_loses (idle_accounted taskQueue) careless
    have last := always.last
    rw [run_concat] at last
    exact lost_missed accounted lost last

/-- An echo task for the default provider. -/
def echoTask : Task :=
  { id := "task-1", workflowId := none, status := .pending, taskType := "echo", payload := [], result := none,
    provider := "opencode", attempts := 0, maxAttempts := 3, error := none }

/-- A worker pops a dispatched task, and the write that would mark it as running fails. -/
def failingWrite : List Label :=
  [.create echoTask,.scheduler false,.scheduler false,.scheduler false,.scheduler false,.worker 0 false,.worker 0 true]

theorem failing_write_loses : ¬ Always (step (fun _ => "tasks:opencode")) NoTaskLost idle failingWrite := by
  intro always
  have status : ((run (step (fun _ => "tasks:opencode")) idle failingWrite).table.row "task-1").map
      (fun task => (task.status,task.provider)) = some (.scheduled,"opencode") := by decide +kernel
  have queue : (run (step (fun _ => "tasks:opencode")) idle failingWrite).queues "tasks:opencode" = [] := rfl
  have scheduler : (run (step (fun _ => "tasks:opencode")) idle failingWrite).scheduler.current = none := rfl
  have workers : ∀ index, ((run (step (fun _ => "tasks:opencode")) idle failingWrite).workers index).carried = none := by
    intro index
    cases index with
    | zero => rfl
    | succ n => rfl
  obtain ⟨task,found,facts⟩ := Option.map_eq_some_iff.mp status
  obtain ⟨scheduled,provider⟩ := Prod.mk.inj facts
  have key : queueKey (rowToTask task).provider = "tasks:opencode" := by
    simp only [rowToTask,provider]
    decide +kernel
  rcases always.last "task-1" task found (by simp [scheduled]) (by simp [scheduled]) with
    pending | ⟨data,queued,_⟩ | current | ⟨index,data,carried,_⟩
  · rw [scheduled] at pending
    cases pending
  · rw [key,queue] at queued
    cases queued
  · rw [scheduler] at current
    cases current
  · rw [workers] at carried
    cases carried

end Hookclose.TaskLoss
