import Hookclose.TaskLoss

/-!
One live copy of each task. Whatever raises, a task has at most one entry in all
queues or one worker that is at it, a pending task has none, and a settled row never
changes its status again, so that no entry for it comes back. A worker is at a task
from its pop to the end of its iteration, the announcement of the outcome included.
-/
namespace Hookclose.LiveCopies
open Hookclose.TaskRepository Hookclose.TaskRepository.TaskTable Hookclose.Dispatch Hookclose.Custody Hookclose.TaskLoss
open Hookclose.Runs

def Publication.taskId : Publication → String
  | .taskScheduled taskId _ => taskId
  | .taskFailed taskId _ => taskId
  | .taskCompleted taskId _ => taskId

/-- The task whose outcome a worker announces. -/
def announced : WorkerAt → Option String
  | .announcing publication => some (Publication.taskId publication)
  | _ => none

/-- Where a copy of a task can be: at a position of a queue, or with a worker. -/
inductive Site
  | queue (key : String) (position : Nat)
  | worker (index : Nat)

def Occurs (s : DispatchState) : Site → String → Prop
  | .queue key position,id => ((s.queues key).map TaskData.id)[position]? = some id
  | .worker index,id => (∃ data, (s.workers index).carried = some data ∧ data.id = id) ∨
      announced (s.workers index) = some id

/-- The row of a task has its final status. -/
def SettledRow (table : TaskTable) (id : String) : Prop := ∃ row, table.row id = some row ∧ Settled row.status

/-- Outcomes are announced of settled tasks, each by one worker. -/
structure Announces (s : DispatchState) : Prop where
  settled : ∀ index id, announced (s.workers index) = some id → SettledRow s.table id
  single : ∀ first second id, announced (s.workers first) = some id → announced (s.workers second) = some id → first = second

/-- A settled row has no place in the account. -/
theorem settled_free {c : Holdings} {holder : String → Option Place} (located : Located c holder) {id : String}
    (settled : SettledRow c.table id) : holder id = none := by
  cases held : holder id with
  | none => rfl
  | some place =>
    obtain ⟨row,found,final⟩ := settled
    obtain ⟨other,listed,live⟩ := located.live id place held
    rw [found] at listed
    cases listed
    obtain ⟨notCompleted,notFailed⟩ := live_not_settled live
    rcases final with completed | failed
    · exact absurd completed notCompleted
    · exact absurd failed notFailed

/-! ### Settled rows -/

section
variable {taskQueue : Nat → String} {c : Holdings} {holder : String → Option Place}

/-- A row with a final status keeps it. -/
def Final (before after : TaskTable) : Prop :=
  ∀ id row, before.row id = some row → Settled row.status → ∃ later, after.row id = some later ∧ later.status = row.status

theorem final_refl (table : TaskTable) : Final table table := fun _ row found _ => ⟨row,found,rfl⟩

/-- Writing a row that is not settled leaves the settled ones alone. -/
theorem final_updateStatus {table : TaskTable} {id : String} (unsettled : ¬ SettledRow table id) (status : TaskStatus)
    (result : Option Dict) (error : Option String) (attempts : Option Int) :
    Final table (table.updateStatus id status result error attempts) := by
  intro other row found settled
  have differs : other ≠ id := by
    rintro rfl
    exact unsettled ⟨row,found,settled⟩
  exact ⟨row,by rwa [updateStatus_other differs],rfl⟩

/-- No move touches a settled row: the scheduler writes pending ones, a worker those it carries. -/
theorem keeps_final (accounted : Accounted taskQueue c holder) {after : Holdings} (keeps : Keeps taskQueue c after) :
    Final c.table after.table := by
  have carriedOpen : ∀ index data, c.carried index = some data → ¬ SettledRow c.table data.id := by
    intro index data carries settled
    have held := (accounted.located.agrees (.worker index) data.id).mp ⟨data,carries,rfl⟩
    rw [settled_free accounted.located settled] at held
    cases held
  cases keeps with
  | create task pending => exact fun _ row found _ => ⟨row,create_kept found,rfl⟩
  | mark task rest next free =>
    refine final_updateStatus ?_ _ _ _ _
    rintro ⟨row,found,settled⟩
    obtain ⟨other,listed,pending,_⟩ := accounted.consistent.upcoming task (by simp [next])
    rw [found] at listed
    cases listed
    rw [pending] at settled
    rcases settled with contrary | contrary <;> cases contrary
  | work index data carries status live error attempts => exact final_updateStatus (carriedOpen index data carries) _ _ _ _
  | settle index data carries status settled result error attempts =>
    exact final_updateStatus (carriedOpen index data carries) _ _ _ _
  | _ => exact final_refl _

theorem loses_final {after : Holdings} (loses : Loses c after) : Final c.table after.table := by
  cases loses with
  | scheduler data handing => exact final_refl _
  | worker index data carries => exact final_refl _

end

section
variable {taskQueue : Nat → String} {s : DispatchState} {holder : String → Option Place}

theorem step_final (accounted : Accounted taskQueue (view s) holder) (label : Label) :
    Final s.table (step taskQueue s label).table := by
  by_cases safe : Safe s label
  · exact keeps_final accounted (step_keeps accounted safe)
  · exact loses_final (step_loses safe)

theorem step_settledRow (accounted : Accounted taskQueue (view s) holder) (label : Label) {id : String}
    (settled : SettledRow s.table id) : SettledRow (step taskQueue s label).table id := by
  obtain ⟨row,found,final⟩ := settled
  obtain ⟨later,kept,same⟩ := step_final accounted label id row found final
  exact ⟨later,kept,same ▸ final⟩

/-! ### Announcements -/

theorem schedulerStep_workers (raises : Bool) (s : DispatchState) : (schedulerStep raises s).workers = s.workers := by
  unfold schedulerStep
  split_ifs
  · rfl
  · cases s.scheduler <;> rfl

theorem announced_moveTo {worker index : Nat} {next : WorkerAt} {t : DispatchState} {id : String}
    (announces : announced ((moveTo worker next t).workers index) = some id) :
    (index = worker ∧ announced next = some id) ∨ announced (t.workers index) = some id := by
  by_cases same : index = worker
  · subst same
    rw [moveTo_self] at announces
    exact .inl ⟨rfl,announces⟩
  · rw [moveTo_other same] at announces
    exact .inr announces

theorem afterExecution_silent (data : TaskData) (outcome : Option (Option Dict × Option String)) :
    announced (afterExecution data outcome) = none := by
  unfold afterExecution
  split
  · rfl
  · split
    · rfl
    · split_ifs <;> rfl

theorem afterReading_silent (data : TaskData) (error : String) (row : Option Task) :
    announced (afterReading data error row) = none := by
  unfold afterReading
  split
  · split_ifs <;> rfl
  · rfl

/-- A worker begins to announce the outcome of the task that it carried and has settled. -/
theorem worker_announces {key : String} {worker index : Nat} {raises : Bool} {id : String}
    (announces : announced ((workerStep key worker raises s).workers index) = some id) :
    announced (s.workers index) = some id ∨
      ∃ data, (s.workers index).carried = some data ∧ data.id = id ∧ ∃ status result error attempts, Settled status ∧
        (workerStep key worker raises s).table = s.table.updateStatus id status result error attempts := by
  have silent : ∀ {next : WorkerAt} {t : DispatchState}, announced next = none → t.workers = s.workers →
      announced ((moveTo worker next t).workers index) = some id → announced (s.workers index) = some id := by
    intro next t nothing same moved
    rcases announced_moveTo moved with ⟨_,contrary⟩ | before
    · rw [nothing] at contrary
      cases contrary
    · rwa [same] at before
  unfold workerStep at announces ⊢
  cases place : s.workers worker with
  | popping =>
    simp only [place] at announces
    cases queue : s.queues key with
    | nil =>
      simp only [queue] at announces
      exact .inl announces
    | cons data rest =>
      simp only [queue] at announces
      split_ifs at announces with raised
      · exact .inl announces
      · exact .inl (silent rfl rfl announces)
  | executing data =>
    simp only [place] at announces
    exact .inl (silent (afterExecution_silent data _) rfl announces)
  | reading data error =>
    simp only [place] at announces
    split_ifs at announces with raised
    · exact .inl (silent rfl rfl announces)
    · exact .inl (silent (afterReading_silent data error _) rfl announces)
  | failing data error attempts =>
    simp only [place] at announces ⊢
    split_ifs at announces with raised
    · exact .inl (silent rfl rfl announces)
    · rcases announced_moveTo announces with ⟨rfl,same⟩ | before
      · cases same
        rw [if_neg raised,place]
        exact .inr ⟨data,rfl,rfl,.failed,none,some error,some attempts,.inr rfl,rfl⟩
      · exact .inl before
  | completing data result =>
    simp only [place] at announces ⊢
    split_ifs at announces with raised
    · exact .inl (silent rfl rfl announces)
    · rcases announced_moveTo announces with ⟨rfl,same⟩ | before
      · cases same
        rw [if_neg raised,place]
        exact .inr ⟨data,rfl,rfl,.completed,result,none,some 0,.inl rfl,rfl⟩
      · exact .inl before
  | announcing publication =>
    simp only [place] at announces
    refine .inl (silent rfl ?_ announces)
    split_ifs <;> rfl
  | _ =>
    simp only [place] at announces
    split_ifs at announces with raised
    · exact .inl (silent rfl rfl announces)
    · exact .inl (silent rfl rfl announces)

/-- Whoever announces after a step announced before, or has just settled a task that nobody announced. -/
theorem step_announces_settled (accounted : Accounted taskQueue (view s) holder) (announces : Announces s)
    {label : Label} {index : Nat} {id : String}
    (announcing : announced ((step taskQueue s label).workers index) = some id) :
    SettledRow (step taskQueue s label).table id ∧
      (announced (s.workers index) = some id ∨ ∃ data, (s.workers index).carried = some data ∧ data.id = id) := by
  have before : announced (s.workers index) = some id → SettledRow (step taskQueue s label).table id ∧
      (announced (s.workers index) = some id ∨ ∃ data, (s.workers index).carried = some data ∧ data.id = id) :=
    fun same => ⟨step_settledRow accounted label (announces.settled index id same),.inl same⟩
  cases label with
  | create task => exact before announcing
  | scheduler raises =>
    refine before ?_
    have same : (schedulerStep raises s).workers = s.workers := schedulerStep_workers raises s
    rw [← same]
    exact announcing
  | worker worker raises =>
    rcases worker_announces announcing with old | ⟨data,carries,rfl,status,result,error,attempts,final,table⟩
    · exact before old
    · have held := (accounted.located.agrees (.worker index) data.id).mp ⟨data,carries,rfl⟩
      obtain ⟨row,found,_⟩ := accounted.located.live data.id _ held
      have listed : s.table.row data.id = some row := found
      have written := updateStatus_self listed status result error attempts
      rw [← table] at written
      exact ⟨⟨_,written,final⟩,.inr ⟨data,carries,rfl⟩⟩

theorem idle_announces : Announces idle := by
  constructor
  · intro index id contrary
    cases contrary
  · intro first second id contrary
    cases contrary

theorem step_announces (accounted : Accounted taskQueue (view s) holder) (announces : Announces s) (label : Label) :
    Announces (step taskQueue s label) := by
  -- a carried task is live, so nobody announces it, and nobody else carries it
  have unannounced : ∀ {carrier other data}, (s.workers carrier).carried = some data →
      announced (s.workers other) ≠ some data.id := by
    intro carrier other data carries announcing
    have held := (accounted.located.agrees (.worker carrier) data.id).mp ⟨data,carries,rfl⟩
    rw [settled_free accounted.located (announces.settled other data.id announcing)] at held
    cases held
  constructor
  · intro index id announcing
    exact (step_announces_settled accounted announces announcing).1
  · intro first second id announcesFirst announcesSecond
    obtain ⟨_,before | ⟨data,carries,same⟩⟩ := step_announces_settled accounted announces announcesFirst
    · obtain ⟨_,earlier | ⟨data,carries,rfl⟩⟩ := step_announces_settled accounted announces announcesSecond
      · exact announces.single first second id before earlier
      · exact absurd before (unannounced carries)
    · obtain ⟨_,earlier | ⟨other,carried,equal⟩⟩ := step_announces_settled accounted announces announcesSecond
      · exact absurd (same ▸ earlier) (unannounced carries)
      · have held := (accounted.located.agrees (.worker first) id).mp ⟨data,carries,same⟩
        have place := (accounted.located.agrees (.worker second) id).mp ⟨other,carried,equal⟩
        rw [held] at place
        cases place
        rfl

/-! ### One live copy -/

/-- Of each task there is at most one copy, none of a pending one, and no queue entry of
    a settled one. -/
structure OneCopy (s : DispatchState) : Prop where
  single : ∀ first second id, Occurs s first id → Occurs s second id → first = second
  pending : ∀ id row, s.table.row id = some row → row.status = .pending → ∀ site, ¬ Occurs s site id
  settled : ∀ id, SettledRow s.table id → ∀ key position, ¬ Occurs s (.queue key position) id

theorem queue_holds {key : String} {position : Nat} {id : String} (occurs : Occurs s (.queue key position) id) :
    Holds (view s) (.queue key) id := by
  obtain ⟨data,queued,same⟩ := List.mem_map.mp (List.mem_of_getElem? occurs)
  exact ⟨data,queued,same⟩

theorem oneCopy (accounted : Accounted taskQueue (view s) holder) (announces : Announces s) : OneCopy s := by
  have queued : ∀ {key position id}, Occurs s (.queue key position) id → holder id = some (.queue key) :=
    fun occurs => (accounted.located.agrees _ _).mp (queue_holds occurs)
  have carried : ∀ {index id}, Occurs s (.worker index) id →
      holder id = some (.worker index) ∨ (holder id = none ∧ announced (s.workers index) = some id) := by
    rintro index id (carries | announcing)
    · exact .inl ((accounted.located.agrees (.worker index) id).mp carries)
    · exact .inr ⟨settled_free accounted.located (announces.settled index id announcing),announcing⟩
  constructor
  · rintro (⟨key,position⟩ | first) (⟨other,place⟩ | second) id occursFirst occursSecond
    · have same := (queued occursFirst).symm.trans (queued occursSecond)
      cases same
      have distinct := accounted.consistent.single key
      have equal := occursFirst.trans occursSecond.symm
      obtain ⟨within,_⟩ := List.getElem?_eq_some_iff.mp occursFirst
      rw [(List.getElem?_inj within distinct).mp equal]
    · rcases carried occursSecond with held | ⟨free,_⟩
      · cases (queued occursFirst).symm.trans held
      · cases (queued occursFirst).symm.trans free
    · rcases carried occursFirst with held | ⟨free,_⟩
      · cases (queued occursSecond).symm.trans held
      · cases (queued occursSecond).symm.trans free
    · rcases carried occursFirst with held | ⟨free,announcing⟩
      · rcases carried occursSecond with place | ⟨free,_⟩
        · cases held.symm.trans place
          rfl
        · cases held.symm.trans free
      · rcases carried occursSecond with place | ⟨_,again⟩
        · cases free.symm.trans place
        · rw [announces.single first second id announcing again]
  · intro id row found pending site occurs
    have free := pending_free accounted.located found pending
    cases site with
    | queue key position => cases free.symm.trans (queued occurs)
    | worker index =>
      rcases carried occurs with held | ⟨_,announcing⟩
      · cases free.symm.trans held
      · obtain ⟨other,listed,final⟩ := announces.settled index id announcing
        cases found.symm.trans listed
        rw [pending] at final
        rcases final with contrary | contrary <;> cases contrary
  · intro id settled key position occurs
    cases (settled_free accounted.located settled).symm.trans (queued occurs)

/-- A settled row keeps its status however the run goes on. -/
theorem run_final {start : DispatchState} (accounted : Accounted taskQueue (view start) holder) {id : String} {row : Task}
    (found : start.table.row id = some row) (settled : Settled row.status) (labels : List Label) :
    ∃ later, (run (step taskQueue) start labels).table.row id = some later ∧ later.status = row.status := by
  have always : Always (step taskQueue) (fun s => (∃ holder, Accounted taskQueue (view s) holder) ∧
      ∃ later, s.table.row id = some later ∧ later.status = row.status) start labels := by
    refine always_of_step _ ?_ ⟨⟨holder,accounted⟩,row,found,rfl⟩ labels
    rintro s label ⟨⟨_,accounted⟩,later,listed,same⟩
    obtain ⟨next,kept,equal⟩ := step_final accounted label id later listed (same ▸ settled)
    exact ⟨step_accounted accounted label,next,kept,equal.trans same⟩
  exact always.last.2

end

/-- In every run from idle processes, whatever raises, there is at most one copy of each
    task, and none of a pending one; a settled task is in no queue again, and its status
    never changes. -/
theorem one_live_copy (taskQueue : Nat → String) (labels : List Label) :
    Always (step taskQueue) (fun s => OneCopy s ∧
      ∀ id row, s.table.row id = some row → Settled row.status → ∀ later,
        ∃ last, (run (step taskQueue) s later).table.row id = some last ∧ last.status = row.status) idle labels := by
  have invariant : Always (step taskQueue) (fun s => (∃ holder, Accounted taskQueue (view s) holder) ∧ Announces s)
      idle labels := by
    refine always_of_step _ ?_ ⟨⟨_,idle_accounted taskQueue⟩,idle_announces⟩ labels
    rintro s label ⟨⟨_,accounted⟩,announces⟩
    exact ⟨step_accounted accounted label,step_announces accounted announces label⟩
  refine invariant.mono ?_
  rintro s ⟨⟨_,accounted⟩,announces⟩
  refine ⟨oneCopy accounted announces,?_⟩
  intro id row found settled later
  exact run_final accounted found settled later

end Hookclose.LiveCopies
