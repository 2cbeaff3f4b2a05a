import Hookclose.RetryBudget
import Hookclose.StackedLine
import Hookclose.WorkerMoves

/-!
In which order the tasks of a provider are executed. The scheduler reads them in order of
creation and pushes each at the end of the queue that the worker pops from, so that the
queue is a stack: of two tasks that wait there the later is executed first. The dispatch
loop moves the line of the tasks that are followed as a stack moves a line (`step_follows`).
-/
namespace Hookclose.DispatchOrder
open Hookclose.TaskRepository Hookclose.TaskRepository.TaskTable Hookclose.Dispatch Hookclose.Custody Hookclose.TaskLoss
open Hookclose.WorkerMoves Hookclose.StackedLine Hookclose.Runs
open Hookclose.RetryBudget (nextTask_free)

/-! ### Orders of execution -/

def isPending (table : TaskTable) (id : String) : Bool :=
  (table.row id).any (fun row => row.status = .pending)

/-- The pending tasks of a provider in order of creation. -/
def pendingOf (provider : String) (table : TaskTable) : List String :=
  table.ids.filter (fun id => (table.row id).any (fun row =>
    row.status = .pending && (rowToTask row).provider = provider))

/-- Of the tasks that are followed, no one is executed before one that was created earlier. -/
def Ordered (tracked : List String) (s : DispatchState) : Prop := Throughout (Precedes tracked) s.executed

def isRetrying : WorkerAt → Bool
  | .retrying _ _ _ => true
  | _ => false

/-- A step of the scheduler or of the one worker that does not raise, and no retry. -/
def Calm (s : DispatchState) : Label → Prop
  | .create _ => True
  | .scheduler raises => raises = false
  | .worker index raises => index = 0 ∧ raises = false ∧ isRetrying (s.workers 0) = false

instance (s : DispatchState) : ∀ label, Decidable (Calm s label)
  | .create _ => .isTrue trivial
  | .scheduler raises => inferInstanceAs (Decidable (raises = false))
  | .worker index raises => inferInstanceAs (Decidable (index = 0 ∧ raises = false ∧ isRetrying (s.workers 0) = false))

/-- The scheduler pushes a followed task. -/
def Pushing (tracked : List String) (s : DispatchState) (label : Label) : Prop :=
  label = .scheduler false ∧ ∃ task rest, s.scheduler = .pushing task rest ∧ task.id ∈ tracked

/-- A followed task is pushed when no other waits in the queue. -/
def Alone (provider : String) (tracked : List String) (s : DispatchState) (label : Label) : Prop :=
  Pushing tracked s label → ∀ entry ∈ s.queues (queueKey provider), entry.id ∉ tracked

/-! ### The line of the followed tasks -/

/-- The task that a worker has popped and not yet executed. -/
def started : WorkerAt → List String
  | .marking data => [data.id]
  | .executing data => [data.id]
  | _ => []

def followed (tracked ids : List String) : List String := ids.filter (fun id => id ∈ tracked)

/-- The followed tasks that are still pending. -/
def left (tracked : List String) (table : TaskTable) : List String :=
  followed tracked (table.ids.filter (isPending table))

def line (provider : String) (tracked : List String) (s : DispatchState) : Line String where
  served := followed tracked (s.executed ++ started (s.workers 0))
  waiting := followed tracked ((s.queues (queueKey provider)).map TaskData.id)
  coming := followed tracked (s.scheduler.handing.toList.map TaskData.id) ++ left tracked s.table

/-- What a calm run keeps of the tasks that it is about. -/
structure Follows (taskQueue : Nat → String) (provider : String) (tracked : List String)
    (s : DispatchState) : Prop where
  accounted : ∃ holder, Accounted taskQueue (view s) holder
  rows : ∀ id ∈ tracked, ∃ row, s.table.row id = some row ∧ (rowToTask row).provider = provider
  upcoming : followed tracked (s.scheduler.upcoming.map Task.id) <+: left tracked s.table
  requeueing : ∀ data, s.workers 0 = .requeueing data → data.id ∉ tracked

theorem isPending_iff {table : TaskTable} {id : String} :
    isPending table id = true ↔ ∃ row, table.row id = some row ∧ row.status = .pending := by
  unfold isPending
  cases table.row id <;> simp

section
variable {taskQueue : Nat → String} {provider : String} {tracked : List String} {s : DispatchState}

theorem followed_append (first second : List String) :
    followed tracked (first ++ second) = followed tracked first ++ followed tracked second := List.filter_append ..

theorem followed_cons_of_mem {id : String} (member : id ∈ tracked) (ids : List String) :
    followed tracked (id :: ids) = id :: followed tracked ids := List.filter_cons_of_pos (by simpa using member)

theorem followed_cons_of_not_mem {id : String} (absent : id ∉ tracked) (ids : List String) :
    followed tracked (id :: ids) = followed tracked ids := List.filter_cons_of_neg (by simpa using absent)

@[simp] theorem followed_nil : followed tracked [] = [] := rfl

theorem started_carried {place : WorkerAt} {id : String} (popped : id ∈ started place) :
    ∃ data, place.carried = some data ∧ data.id = id := by
  cases place with
  | marking data => exact ⟨data,rfl,(List.mem_singleton.mp popped).symm⟩
  | executing data => exact ⟨data,rfl,(List.mem_singleton.mp popped).symm⟩
  | _ => cases popped

/-! ### Pending tasks -/

theorem left_create {table : TaskTable} {task : Task} (fresh : table.row task.id = none → task.id ∉ tracked) :
    left tracked (table.create task) = left tracked table := by
  unfold create
  split_ifs with absent
  · have unchanged : ∀ id ∈ table.ids, Function.update table.row task.id (some (inserted task)) id = table.row id := by
      intro id member
      have known := (table.listed id).mp member
      refine Function.update_of_ne ?_ _ _
      rintro rfl
      rw [absent] at known
      cases known
    have last : ∀ pending : String → Bool, followed tracked ([task.id].filter pending) = [] := by
      intro pending
      refine List.filter_eq_nil_iff.mpr ?_
      intro id member
      rw [List.mem_singleton.mp (List.mem_of_mem_filter member)]
      simp [fresh absent]
    simp only [left,List.filter_append,followed_append,last,List.append_nil]
    refine congrArg (followed tracked) (List.filter_congr fun id member => ?_)
    simp only [isPending,unchanged id member]
  · rfl

theorem isPending_updateStatus {status : TaskStatus} (written : status ≠ .pending) (id : String)
    (result : Option Dict) (error : Option String) (attempts : Option Int) (table : TaskTable) (other : String) :
    isPending (table.updateStatus id status result error attempts) other =
      (decide (other ≠ id) && isPending table other) := by
  by_cases same : other = id
  · subst same
    cases found : table.row other with
    | none => simp [isPending,updateStatus,found]
    | some row => simp [isPending,updateStatus_self found,written]
  · simp [isPending,same]

/-- A row that is written with another status is no longer pending. -/
theorem left_updateStatus {status : TaskStatus} (written : status ≠ .pending) (id : String) (result : Option Dict)
    (error : Option String) (attempts : Option Int) (table : TaskTable) :
    left tracked (table.updateStatus id status result error attempts) =
      (left tracked table).filter (fun other => other ≠ id) := by
  simp only [left,followed,List.filter_filter]
  refine List.filter_congr fun other _ => ?_
  rw [isPending_updateStatus written]
  by_cases same : other = id <;> simp [same]

/-- Writing a row that is not pending leaves the pending ones. -/
theorem left_kept {status : TaskStatus} (written : status ≠ .pending) {id : String} {table : TaskTable}
    (idle : isPending table id = false) (result : Option Dict) (error : Option String) (attempts : Option Int) :
    left tracked (table.updateStatus id status result error attempts) = left tracked table := by
  rw [left_updateStatus written]
  refine List.filter_eq_self.mpr ?_
  intro other member
  have pending := (List.mem_filter.mp (List.mem_of_mem_filter member)).2
  have differs : other ≠ id := by
    rintro rfl
    rw [idle] at pending
    cases pending
  simpa using differs

theorem pending_ids (table : TaskTable) (ids : List String) :
    ((ids.filterMap table.row).filter (fun row => row.status = .pending)).map Task.id =
      ids.filter (isPending table) := by
  induction ids with
  | nil => rfl
  | cons id rest ih =>
    cases found : table.row id with
    | none =>
      have idle : ¬ isPending table id = true := by simp [isPending,found]
      rw [List.filterMap_cons_none found,List.filter_cons_of_neg idle,ih]
    | some row =>
      have named := table.named id row found
      by_cases pending : row.status = .pending
      · have listed : isPending table id = true := by simp [isPending,found,pending]
        rw [List.filterMap_cons_some found,List.filter_cons_of_pos (by simpa using pending),
          List.filter_cons_of_pos listed,List.map_cons,ih,named]
      · have idle : ¬ isPending table id = true := by simp [isPending,found,pending]
        rw [List.filterMap_cons_some found,List.filter_cons_of_neg (by simpa using pending),
          List.filter_cons_of_neg idle,ih]

theorem getPending_ids (table : TaskTable) (limit : Nat) :
    (table.getPending limit).map Task.id = (table.ids.filter (isPending table)).take limit := by
  have kept : Task.id ∘ rowToTask = Task.id := rfl
  rw [getPending,List.map_map,kept,List.map_take,pending_ids]

/-- What a poll reads of the followed tasks are the first that are left. -/
theorem followed_getPending (table : TaskTable) (limit : Nat) :
    followed tracked ((table.getPending limit).map Task.id) <+: left tracked table := by
  rw [getPending_ids]
  exact (List.take_prefix limit _).filter _

theorem nextTask_upcoming (tasks : List Task) : (nextTask tasks).upcoming.map Task.id = tasks.map Task.id := by
  cases tasks <;> rfl

theorem left_distinct (tracked : List String) (table : TaskTable) : (left tracked table).Nodup :=
  (table.distinct.filter _).filter _

/-! ### The start -/

/-- An executed task has a row that is not pending. -/
def Begun (s : DispatchState) : Prop :=
  ∀ id ∈ s.executed, ∃ row, s.table.row id = some row ∧ row.status ≠ .pending

theorem begun_updateStatus {table : TaskTable} {id : String}
    (begun : ∃ row, table.row id = some row ∧ row.status ≠ .pending) (other : String) {status : TaskStatus}
    (written : status ≠ .pending) (result : Option Dict) (error : Option String) (attempts : Option Int) :
    ∃ row, (table.updateStatus other status result error attempts).row id = some row ∧ row.status ≠ .pending := by
  obtain ⟨row,found,started⟩ := begun
  by_cases same : id = other
  · subst same
    exact ⟨_,updateStatus_self found status result error attempts,written⟩
  · exact ⟨row,by rwa [updateStatus_other same],started⟩

theorem step_begun {holder : String → Option Place} (accounted : Accounted taskQueue (view s) holder) (begun : Begun s)
    (label : Label) : Begun (step taskQueue s label) := by
  cases label with
  | create task =>
    intro id member
    obtain ⟨row,found,started⟩ := begun id member
    exact ⟨row,create_kept found,started⟩
  | scheduler raises =>
    cases raises with
    | true => exact begun
    | false =>
      intro id member
      cases place : s.scheduler with
      | marking task rest =>
        simp only [step,schedulerStep,place] at member ⊢
        exact begun_updateStatus (begun id member) task.id (by decide) _ _ _
      | _ =>
        simp only [step,schedulerStep,place] at member ⊢
        exact begun id member
  | worker index raises =>
    rw [step]
    rcases workerStep_moves (taskQueue index) index raises s with same | ⟨next,t,moved,moves⟩
    · rw [same]
      exact begun
    · rw [moved]
      have kept : ∀ id, (∃ row, s.table.row id = some row ∧ row.status ≠ .pending) →
          ∃ row, t.table.row id = some row ∧ row.status ≠ .pending := by
        intro id started
        rcases moves.table with same | ⟨other,status,result,error,attempts,differs,written⟩
        · rwa [same]
        · rw [written]
          exact begun_updateStatus started other differs result error attempts
      intro id member
      refine kept id ?_
      have either : id ∈ s.executed ∨ ∃ data, s.workers index = .executing data ∧ id = data.id := by
        rcases moves.executed with same | ⟨data,place,same⟩
        · exact .inl (same ▸ member)
        · rcases List.mem_append.mp (same ▸ member : id ∈ s.executed ++ [data.id]) with old | new
          · exact .inl old
          · exact .inr ⟨data,place,List.mem_singleton.mp new⟩
      rcases either with old | ⟨data,place,rfl⟩
      · exact begun id old
      · -- a carried task is live
        have carries : (view s).carried index = some data := by simp [view,place,WorkerAt.carried]
        have held := (accounted.located.agrees (.worker index) data.id).mp ⟨data,carries,rfl⟩
        obtain ⟨row,found,live⟩ := accounted.located.live data.id _ held
        exact ⟨row,found,live_not_pending live⟩

/-- A run begins with all followed tasks to come. -/
theorem start_follows {holder : String → Option Place} (accounted : Accounted taskQueue (view s) holder) (begun : Begun s)
    (poll : s.scheduler = .polling) (pending : tracked.Sublist (pendingOf provider s.table)) :
    Follows taskQueue provider tracked s ∧ line provider tracked s = ⟨[],[],tracked⟩ := by
  have rows : ∀ id ∈ tracked, ∃ row, s.table.row id = some row ∧ row.status = .pending ∧
      (rowToTask row).provider = provider := by
    intro id member
    obtain ⟨row,found,listed⟩ := (Option.any_eq_true ..).mp (List.mem_filter.mp (pending.subset member)).2
    simp only [Bool.and_eq_true,decide_eq_true_eq] at listed
    exact ⟨row,found,listed⟩
  have nowhere : ∀ place, ∀ id ∈ tracked, ¬ Holds (view s) place id := by
    intro place id member holds
    obtain ⟨row,found,waits,_⟩ := rows id member
    have held := (accounted.located.agrees place id).mp holds
    rw [pending_free accounted.located found waits] at held
    cases held
  have absent : ∀ {ids : List String}, (∀ id ∈ ids, id ∉ tracked) → followed tracked ids = [] :=
    fun outside => List.filter_eq_nil_iff.mpr (by simpa using outside)
  constructor
  · refine ⟨⟨holder,accounted⟩,?_,?_,?_⟩
    · intro id member
      obtain ⟨row,found,_,own⟩ := rows id member
      exact ⟨row,found,own⟩
    · rw [poll]
      exact List.nil_prefix
    · intro data place member
      refine nowhere (.worker 0) data.id member ⟨data,?_,rfl⟩
      simp [view,place,WorkerAt.carried]
  · have servedNone : followed tracked (s.executed ++ started (s.workers 0)) = [] := by
      refine absent ?_
      intro id member tracks
      rcases List.mem_append.mp member with executed | popped
      · obtain ⟨row,found,started⟩ := begun id executed
        obtain ⟨other,listed,waits,_⟩ := rows id tracks
        rw [found] at listed
        cases listed
        exact started waits
      · exact nowhere (.worker 0) id tracks (started_carried popped)
    have waitingNone : followed tracked ((s.queues (queueKey provider)).map TaskData.id) = [] := by
      refine absent ?_
      intro id member tracks
      obtain ⟨data,queued,same⟩ := List.mem_map.mp member
      exact nowhere (.queue (queueKey provider)) id tracks ⟨data,queued,same⟩
    have all : left tracked s.table = tracked := by
      have kept : tracked.Sublist (s.table.ids.filter (isPending s.table)) := by
        have filtered := (pending.trans List.filter_sublist).filter (isPending s.table)
        have whole : tracked.filter (isPending s.table) = tracked := by
          refine List.filter_eq_self.mpr ?_
          intro id member
          obtain ⟨row,found,waits,_⟩ := rows id member
          exact isPending_iff.mpr ⟨row,found,waits⟩
        rwa [whole] at filtered
      exact filter_mem (s.table.distinct.filter _) kept
    simp [line,servedNone,waitingNone,all,poll,SchedulerAt.handing]

/-! ### Steps of the scheduler -/

theorem Follows.step_rows (follows : Follows taskQueue provider tracked s) (label : Label) :
    ∀ id ∈ tracked, ∃ row, (step taskQueue s label).table.row id = some row ∧ (rowToTask row).provider = provider := by
  intro id member
  obtain ⟨row,found,own⟩ := follows.rows id member
  obtain ⟨later,kept,same⟩ := step_later taskQueue s label id row found
  exact ⟨later,kept,(congrArg TaskData.provider same).trans own⟩

theorem Follows.step_accounted (follows : Follows taskQueue provider tracked s) (label : Label) :
    ∃ holder, Accounted taskQueue (view (step taskQueue s label)) holder := by
  obtain ⟨_,accounted⟩ := follows.accounted
  exact TaskLoss.step_accounted accounted label

theorem create_follows (follows : Follows taskQueue provider tracked s) (task : Task) :
    Follows taskQueue provider tracked (step taskQueue s (.create task)) ∧
      line provider tracked (step taskQueue s (.create task)) = line provider tracked s := by
  have same : left tracked (step taskQueue s (.create task)).table = left tracked s.table := by
    refine left_create ?_
    intro absent member
    obtain ⟨row,found,_⟩ := follows.rows _ member
    have missing : s.table.row task.id = none := absent
    rw [missing] at found
    cases found
  refine ⟨⟨follows.step_accounted _,follows.step_rows _,?_,follows.requeueing⟩,?_⟩
  · rw [same]
    exact follows.upcoming
  · simp only [line,same]
    rfl

/-- The scheduler goes on to the next of the tasks that it has read. -/
theorem pass_follows (follows : Follows taskQueue provider tracked s) {tasks : List Task} (published : List Publication)
    (free : s.scheduler.handing = none) (read : followed tracked (tasks.map Task.id) <+: left tracked s.table)
    (taken : step taskQueue s (.scheduler false) = { s with scheduler := nextTask tasks, published := published }) :
    Follows taskQueue provider tracked (step taskQueue s (.scheduler false)) ∧
      line provider tracked (step taskQueue s (.scheduler false)) = line provider tracked s := by
  have accounted := follows.step_accounted (.scheduler false)
  rw [taken] at accounted ⊢
  refine ⟨⟨accounted,follows.rows,?_,follows.requeueing⟩,?_⟩
  · rw [nextTask_upcoming]
    exact read
  · simp only [line,nextTask_free,free]

/-- The scheduler marks the first of the followed tasks that are left, or another task. -/
theorem mark_follows (follows : Follows taskQueue provider tracked s) {task : Task} {rest : List Task}
    (place : s.scheduler = .marking task rest) :
    Follows taskQueue provider tracked (step taskQueue s (.scheduler false)) ∧
      line provider tracked (step taskQueue s (.scheduler false)) = line provider tracked s := by
  have taken : step taskQueue s (.scheduler false) =
      { s with
        table := s.table.updateStatus task.id .scheduled none none (some 1)
        scheduler := .pushing task rest } := by
    simp [step,schedulerStep,place]
  have accounted := follows.step_accounted (.scheduler false)
  have rows := follows.step_rows (.scheduler false)
  rw [taken] at accounted rows ⊢
  have marked : left tracked (s.table.updateStatus task.id .scheduled none none (some 1)) =
      (left tracked s.table).filter (fun other => other ≠ task.id) := left_updateStatus (by decide) _ _ _ _ _
  have upcoming := follows.upcoming
  simp only [place,SchedulerAt.upcoming,List.map_cons] at upcoming
  -- what comes after the task that is marked, and the same with it in front
  have after : followed tracked (rest.map Task.id) <+:
        left tracked (s.table.updateStatus task.id .scheduled none none (some 1)) ∧
      followed tracked [task.id] ++ left tracked (s.table.updateStatus task.id .scheduled none none (some 1)) =
        left tracked s.table := by
    rw [marked]
    by_cases member : task.id ∈ tracked
    · rw [followed_cons_of_mem member] at upcoming ⊢
      obtain ⟨more,split⟩ := upcoming
      have distinct := left_distinct tracked s.table
      rw [← split] at distinct ⊢
      have others : ∀ other ∈ followed tracked (rest.map Task.id) ++ more, other ≠ task.id := by
        rintro other listed rfl
        exact (List.nodup_cons.mp distinct).1 listed
      have kept : (followed tracked (rest.map Task.id) ++ more).filter (fun other => other ≠ task.id) =
          followed tracked (rest.map Task.id) ++ more := List.filter_eq_self.mpr (by simpa using others)
      rw [List.cons_append,List.filter_cons_of_neg (by simp),kept]
      exact ⟨List.prefix_append _ _,rfl⟩
    · rw [followed_cons_of_not_mem member] at upcoming ⊢
      have kept : (left tracked s.table).filter (fun other => other ≠ task.id) = left tracked s.table := by
        refine List.filter_eq_self.mpr ?_
        intro other listed
        have tracks := (List.mem_filter.mp listed).2
        have differs : other ≠ task.id := by
          rintro rfl
          exact member (by simpa using tracks)
        simpa using differs
      rw [kept]
      exact ⟨upcoming,rfl⟩
  refine ⟨⟨accounted,rows,after.1,follows.requeueing⟩,?_⟩
  simp only [line,place,SchedulerAt.handing,TaskData.ofTask,Option.toList_some,Option.toList_none,List.map_cons,
    List.map_nil,followed_nil,List.nil_append,after.2]

theorem push_step {task : Task} {rest : List Task} (place : s.scheduler = .pushing task rest) :
    step taskQueue s (.scheduler false) =
      { s with
        queues := push (queueKey task.provider) (TaskData.ofTask task) s.queues
        scheduler := .publishing task rest } := by
  simp [step,schedulerStep,place]

theorem push_follows (follows : Follows taskQueue provider tracked s) {task : Task} {rest : List Task}
    (place : s.scheduler = .pushing task rest) :
    Follows taskQueue provider tracked (step taskQueue s (.scheduler false)) := by
  have accounted := follows.step_accounted (.scheduler false)
  have upcoming := follows.upcoming
  rw [push_step place] at accounted ⊢
  rw [place] at upcoming
  exact ⟨accounted,follows.rows,upcoming,follows.requeueing⟩

/-- Pushing a task that is not followed leaves the line. -/
theorem push_other {task : Task} {rest : List Task} (place : s.scheduler = .pushing task rest)
    (other : task.id ∉ tracked) :
    line provider tracked (step taskQueue s (.scheduler false)) = line provider tracked s := by
  have waiting : followed tracked
      ((push (queueKey task.provider) (TaskData.ofTask task) s.queues (queueKey provider)).map TaskData.id) =
      followed tracked ((s.queues (queueKey provider)).map TaskData.id) := by
    by_cases own : queueKey provider = queueKey task.provider
    · rw [← own,push,Function.update_self,List.map_cons]
      exact followed_cons_of_not_mem other _
    · rw [push,Function.update_of_ne own]
  have handed : followed tracked [(TaskData.ofTask task).id] = [] := followed_cons_of_not_mem other []
  rw [push_step place]
  simp only [line,waiting,place,SchedulerAt.handing,Option.toList_some,Option.toList_none,List.map_cons,
    List.map_nil,handed,followed_nil]

/-- Pushing a followed task puts it on top of those that wait. -/
theorem push_followed (follows : Follows taskQueue provider tracked s) {task : Task} {rest : List Task}
    (place : s.scheduler = .pushing task rest) (member : task.id ∈ tracked) :
    line provider tracked s = ⟨(line provider tracked s).served,(line provider tracked s).waiting,
        task.id :: left tracked s.table⟩ ∧
      line provider tracked (step taskQueue s (.scheduler false)) =
        ⟨(line provider tracked s).served,task.id :: (line provider tracked s).waiting,left tracked s.table⟩ := by
  obtain ⟨holder,accounted⟩ := follows.accounted
  have handing : (view s).handing = some (TaskData.ofTask task) := by simp [view,place,SchedulerAt.handing]
  have own : task.provider = provider := by
    obtain ⟨row,found,same⟩ := accounted.consistent.handing _ handing
    obtain ⟨other,listed,served⟩ := follows.rows task.id member
    have equal : some other = some row := listed.symm.trans found
    cases equal
    exact (congrArg TaskData.provider same).trans served
  have first : followed tracked [task.id] = [task.id] := followed_cons_of_mem member []
  constructor
  · simp only [line,place,SchedulerAt.handing,TaskData.ofTask,Option.toList_some,List.map_cons,List.map_nil,first,
      List.cons_append,List.nil_append]
  · rw [push_step place]
    simp only [line,own,push,Function.update_self,List.map_cons,SchedulerAt.handing,Option.toList_none,List.map_nil,
      followed_nil,List.nil_append]
    exact congrArg (fun waiting => Line.mk _ waiting _) (followed_cons_of_mem member _)

/-! ### Steps of the worker -/

theorem started_afterExecution (data : TaskData) (outcome : Option (Option Dict × Option String)) :
    started (afterExecution data outcome) = [] ∧ ∀ other, afterExecution data outcome ≠ .requeueing other := by
  unfold afterExecution
  split
  · exact ⟨rfl,by simp⟩
  · split
    · exact ⟨rfl,by simp⟩
    · split_ifs
      · exact ⟨rfl,by simp⟩
      · exact ⟨rfl,by simp⟩

theorem started_afterReading (data : TaskData) (error : String) (row : Option Task) :
    started (afterReading data error row) = [] ∧ ∀ other, afterReading data error row ≠ .requeueing other := by
  rcases afterReading_place data error row with ⟨attempts,same⟩ | ⟨attempts,same⟩
  · rw [same]
    exact ⟨rfl,by simp⟩
  · rw [same]
    exact ⟨rfl,by simp⟩

/-- A worker that carries a task writes no row that is pending. -/
theorem left_carried (follows : Follows taskQueue provider tracked s) {index : Nat} {data : TaskData}
    (carried : (s.workers index).carried = some data) {status : TaskStatus} (written : status ≠ .pending)
    (result : Option Dict) (error : Option String) (attempts : Option Int) :
    left tracked (s.table.updateStatus data.id status result error attempts) = left tracked s.table := by
  obtain ⟨holder,accounted⟩ := follows.accounted
  have held := (accounted.located.agrees (.worker index) data.id).mp ⟨data,carried,rfl⟩
  obtain ⟨row,found,live⟩ := accounted.located.live data.id _ held
  have idle : isPending s.table data.id = false := by
    refine Bool.eq_false_iff.mpr ?_
    intro pending
    obtain ⟨other,listed,waits⟩ := isPending_iff.mp pending
    have equal : some other = some row := listed.symm.trans found
    cases equal
    exact live_not_pending live waits
  exact left_kept written idle result error attempts

/-- The worker moves on, and does not put its task back. -/
theorem moved_follows (follows : Follows taskQueue provider tracked s) {next : WorkerAt} {t : DispatchState}
    (taken : step taskQueue s (.worker 0 false) = moveTo 0 next t) (scheduler : t.scheduler = s.scheduler)
    (kept : left tracked t.table = left tracked s.table) (ends : ∀ data, next ≠ .requeueing data) :
    Follows taskQueue provider tracked (step taskQueue s (.worker 0 false)) := by
  have accounted := follows.step_accounted (.worker 0 false)
  have rows := follows.step_rows (.worker 0 false)
  rw [taken] at accounted rows ⊢
  refine ⟨accounted,rows,?_,?_⟩
  · show followed tracked (t.scheduler.upcoming.map Task.id) <+: left tracked t.table
    rw [scheduler,kept]
    exact follows.upcoming
  · intro data place
    rw [moveTo_self] at place
    exact absurd place (ends data)

theorem moved_line {next : WorkerAt} {t : DispatchState}
    (taken : step taskQueue s (.worker 0 false) = moveTo 0 next t) (scheduler : t.scheduler = s.scheduler)
    (kept : left tracked t.table = left tracked s.table) :
    line provider tracked (step taskQueue s (.worker 0 false)) =
      ⟨followed tracked (t.executed ++ started next),followed tracked ((t.queues (queueKey provider)).map TaskData.id),
        (line provider tracked s).coming⟩ := by
  rw [taken]
  have place : (moveTo 0 next t).scheduler = s.scheduler := scheduler
  simp only [line,moveTo_self,moveTo_table,moveTo_queues,place,kept]
  rfl

/-- The worker moves on with the same task, or from one that it has executed. -/
theorem moved_stays (follows : Follows taskQueue provider tracked s) {next : WorkerAt} {t : DispatchState}
    (taken : step taskQueue s (.worker 0 false) = moveTo 0 next t) (scheduler : t.scheduler = s.scheduler)
    (kept : left tracked t.table = left tracked s.table) (ends : ∀ data, next ≠ .requeueing data)
    (served : followed tracked (t.executed ++ started next) = followed tracked (s.executed ++ started (s.workers 0)))
    (waiting : followed tracked ((t.queues (queueKey provider)).map TaskData.id) =
      followed tracked ((s.queues (queueKey provider)).map TaskData.id)) :
    Follows taskQueue provider tracked (step taskQueue s (.worker 0 false)) ∧
      Shifts (line provider tracked s) (line provider tracked (step taskQueue s (.worker 0 false))) ∧
      (line provider tracked (step taskQueue s (.worker 0 false))).coming = (line provider tracked s).coming := by
  have same : line provider tracked (step taskQueue s (.worker 0 false)) = line provider tracked s := by
    rw [moved_line taken scheduler kept,served,waiting]
    rfl
  refine ⟨moved_follows follows taken scheduler kept ends,?_,?_⟩
  · rw [same]
    exact .stay _
  · rw [same]

/-- A worker that pops a followed task is about to execute it. -/
theorem pop_follows (serves : taskQueue 0 = queueKey provider) (follows : Follows taskQueue provider tracked s)
    (place : s.workers 0 = .popping) {data : TaskData} {rest : List TaskData}
    (queue : s.queues (queueKey provider) = data :: rest) :
    Follows taskQueue provider tracked (step taskQueue s (.worker 0 false)) ∧
      Shifts (line provider tracked s) (line provider tracked (step taskQueue s (.worker 0 false))) ∧
      (line provider tracked (step taskQueue s (.worker 0 false))).coming = (line provider tracked s).coming := by
  have taken : step taskQueue s (.worker 0 false) =
      moveTo 0 (.marking data) { s with queues := Function.update s.queues (queueKey provider) rest } := by
    simp [step,workerStep,place,serves,queue]
  by_cases member : data.id ∈ tracked
  · have before : line provider tracked s = ⟨followed tracked s.executed,
        data.id :: followed tracked (rest.map TaskData.id),(line provider tracked s).coming⟩ := by
      simp only [line,place,started,List.append_nil,queue,List.map_cons,followed_cons_of_mem member]
    have after : line provider tracked (step taskQueue s (.worker 0 false)) =
        ⟨followed tracked s.executed ++ [data.id],followed tracked (rest.map TaskData.id),
          (line provider tracked s).coming⟩ := by
      have next := @moved_line taskQueue provider tracked s _ _ taken rfl rfl
      simpa only [started,followed_append,followed_cons_of_mem member,followed_nil,Function.update_self] using next
    refine ⟨moved_follows follows taken rfl rfl (by simp),?_,by rw [after]⟩
    rw [after,before]
    exact .serve _ _ _ _
  · refine moved_stays follows taken rfl rfl (by simp) ?_ ?_
    · rw [place,followed_append,followed_append]
      exact congrArg _ (followed_cons_of_not_mem member [])
    · simp only [Function.update_self,queue,List.map_cons,followed_cons_of_not_mem member]

/-- A worker that writes the row of its task changes nobody's turn. -/
theorem write_follows (follows : Follows taskQueue provider tracked s) {data : TaskData}
    (carried : (s.workers 0).carried = some data) {next : WorkerAt} {status : TaskStatus} {result : Option Dict}
    {error : Option String} {attempts : Option Int}
    (taken : step taskQueue s (.worker 0 false) =
      moveTo 0 next { s with table := s.table.updateStatus data.id status result error attempts })
    (written : status ≠ .pending) (ends : ∀ data, next ≠ .requeueing data) (same : started next = started (s.workers 0)) :
    Follows taskQueue provider tracked (step taskQueue s (.worker 0 false)) ∧
      Shifts (line provider tracked s) (line provider tracked (step taskQueue s (.worker 0 false))) ∧
      (line provider tracked (step taskQueue s (.worker 0 false))).coming = (line provider tracked s).coming := by
  refine moved_stays follows taken rfl (left_carried follows carried written result error attempts) ends ?_ rfl
  rw [same]

theorem worker_follows (serves : taskQueue 0 = queueKey provider) (follows : Follows taskQueue provider tracked s)
    (calm : isRetrying (s.workers 0) = false) :
    Follows taskQueue provider tracked (step taskQueue s (.worker 0 false)) ∧
      Shifts (line provider tracked s) (line provider tracked (step taskQueue s (.worker 0 false))) ∧
      (line provider tracked (step taskQueue s (.worker 0 false))).coming = (line provider tracked s).coming := by
  cases place : s.workers 0 with
  | popping =>
    cases queue : s.queues (queueKey provider) with
    | nil =>
      have taken : step taskQueue s (.worker 0 false) = s := by
        simp [step,workerStep,place,serves,queue]
      rw [taken]
      exact ⟨follows,.stay _,rfl⟩
    | cons data rest => exact pop_follows serves follows place queue
  | marking data =>
    have taken : step taskQueue s (.worker 0 false) =
        moveTo 0 (.executing data) { s with table := s.table.updateStatus data.id .running none none none } := by
      simp [step,workerStep,place]
    exact write_follows follows (by rw [place]; rfl) taken (by decide) (by simp) (by rw [place]; rfl)
  | executing data =>
    have taken : step taskQueue s (.worker 0 false) =
        moveTo 0 (afterExecution data (executeTask data)) { s with executed := s.executed ++ [data.id] } := by
      simp [step,workerStep,place]
    obtain ⟨ended,ends⟩ := started_afterExecution data (executeTask data)
    exact moved_stays follows taken rfl rfl ends (by rw [ended,place]; simp [started]) rfl
  | reading data error =>
    have taken : step taskQueue s (.worker 0 false) = moveTo 0 (afterReading data error (s.table.get data.id)) s := by
      simp [step,workerStep,place]
    obtain ⟨ended,ends⟩ := started_afterReading data error (s.table.get data.id)
    exact moved_stays follows taken rfl rfl ends (by rw [ended,place]; rfl) rfl
  | retrying data error attempts =>
    rw [place] at calm
    cases calm
  | requeueing data =>
    have taken : step taskQueue s (.worker 0 false) =
        moveTo 0 .popping { s with queues := push (queueKey provider) data s.queues } := by
      simp [step,workerStep,place,serves]
    refine moved_stays follows taken rfl rfl (by simp) (by rw [place]; rfl) ?_
    simp only [push,Function.update_self,List.map_cons]
    exact followed_cons_of_not_mem (follows.requeueing data place) _
  | failing data error attempts =>
    have taken : step taskQueue s (.worker 0 false) = moveTo 0 (.announcing (.taskFailed data.id error))
        { s with table := s.table.updateStatus data.id .failed none (some error) (some attempts) } := by
      simp [step,workerStep,place]
    exact write_follows follows (by rw [place]; rfl) taken (by decide) (by simp) (by rw [place]; rfl)
  | completing data result =>
    have taken : step taskQueue s (.worker 0 false) = moveTo 0 (.announcing (.taskCompleted data.id result))
        { s with table := s.table.updateStatus data.id .completed result none (some 0) } := by
      simp [step,workerStep,place]
    exact write_follows follows (by rw [place]; rfl) taken (by decide) (by simp) (by rw [place]; rfl)
  | announcing publication =>
    have taken : step taskQueue s (.worker 0 false) =
        moveTo 0 .popping { s with published := s.published ++ [publication] } := by
      simp [step,workerStep,place]
    exact moved_stays follows taken rfl rfl (by simp) (by rw [place]; rfl) rfl

/-! ### Runs -/

/-- What a step does to the followed tasks: it moves their line as a stack does, and only
    a push takes one from those to come. -/
structure Advances (taskQueue : Nat → String) (provider : String) (tracked : List String) (s : DispatchState)
    (label : Label) : Prop where
  follows : Follows taskQueue provider tracked (step taskQueue s label)
  shifts : Shifts (line provider tracked s) (line provider tracked (step taskQueue s label))
  pushing : (line provider tracked (step taskQueue s label)).coming ≠ (line provider tracked s).coming →
    Pushing tracked s label

theorem advances_same {label : Label} (after : Follows taskQueue provider tracked (step taskQueue s label) ∧
    line provider tracked (step taskQueue s label) = line provider tracked s) :
    Advances taskQueue provider tracked s label := by
  obtain ⟨follows,same⟩ := after
  refine ⟨follows,?_,?_⟩
  · rw [same]
    exact .stay _
  · rw [same]
    exact fun differs => absurd rfl differs

theorem scheduler_advances (follows : Follows taskQueue provider tracked s) :
    Advances taskQueue provider tracked s (.scheduler false) := by
  have read := follows.upcoming
  cases place : s.scheduler with
  | polling =>
    have taken : step taskQueue s (.scheduler false) =
        { s with scheduler := nextTask (s.table.getPending 10), published := s.published } := by
      simp [step,schedulerStep,place]
    exact advances_same (pass_follows follows s.published (by rw [place]; rfl) (followed_getPending s.table 10) taken)
  | marking task rest => exact advances_same (mark_follows follows place)
  | pushing task rest =>
    by_cases member : task.id ∈ tracked
    · obtain ⟨before,after⟩ := push_followed follows place member
      refine ⟨push_follows follows place,?_,fun _ => ⟨rfl,task,rest,place,member⟩⟩
      rw [after,before]
      exact .put _ _ _ _
    · exact advances_same ⟨push_follows follows place,push_other place member⟩
  | publishing task rest =>
    have taken : step taskQueue s (.scheduler false) =
        { s with scheduler := nextTask rest, published := s.published ++ [.taskScheduled task.id task.provider] } := by
      simp [step,schedulerStep,place]
    rw [place] at read
    exact advances_same (pass_follows follows _ (by rw [place]; rfl) read taken)

theorem step_advances (serves : taskQueue 0 = queueKey provider) (follows : Follows taskQueue provider tracked s)
    {label : Label} (calm : Calm s label) : Advances taskQueue provider tracked s label := by
  cases label with
  | create task => exact advances_same (create_follows follows task)
  | scheduler raises =>
    have quiet : raises = false := calm
    subst quiet
    exact scheduler_advances follows
  | worker index raises =>
    obtain ⟨rfl,rfl,busy⟩ := calm
    obtain ⟨after,shifts,coming⟩ := worker_follows serves follows busy
    exact ⟨after,shifts,fun differs => absurd coming differs⟩

theorem waiting_nil_iff : (line provider tracked s).waiting = [] ↔
    ∀ entry ∈ s.queues (queueKey provider), entry.id ∉ tracked := by
  simp [line,followed,List.filter_eq_nil_iff]

/-- While each followed task is pushed alone the line stays in order. -/
theorem alone_inLine {label : Label} (advances : Advances taskQueue provider tracked s label)
    (alone : Alone provider tracked s label) (inLine : InLine tracked (line provider tracked s)) :
    InLine tracked (line provider tracked (step taskQueue s label)) := by
  refine shifts_inLine advances.shifts inLine ?_
  intro differs
  exact waiting_nil_iff.mpr (alone (advances.pushing differs))

/-- A followed task that is pushed onto another overtakes it. -/
theorem stacked_overtakes (follows : Follows taskQueue provider tracked s) {label : Label}
    (stacked : ¬ Alone provider tracked s label) (inLine : InLine tracked (line provider tracked s)) :
    ∃ earlier later, [earlier,later].Sublist tracked ∧
      Overtaken earlier later (line provider tracked (step taskQueue s label)) := by
  rw [Alone,Classical.not_imp,← waiting_nil_iff] at stacked
  obtain ⟨⟨rfl,task,rest,place,member⟩,occupied⟩ := stacked
  obtain ⟨before,after⟩ := push_followed follows place member
  rw [before] at inLine
  obtain ⟨earlier,listed,overtaken⟩ := put_overtakes inLine occupied
  rw [after]
  exact ⟨earlier,task.id,listed,overtaken⟩

/-- What is executed of the followed tasks is the first of what the line has served. -/
theorem executed_served : followed tracked s.executed <+: (line provider tracked s).served := by
  rw [line,followed_append]
  exact List.prefix_append _ _

/-- Where the line is not in order, a task has overtaken another. -/
theorem stacked_breaks (serves : taskQueue 0 = queueKey provider) {labels : List Label} :
    ∀ {s : DispatchState}, Follows taskQueue provider tracked s → InLine tracked (line provider tracked s) →
      Each (step taskQueue) Calm s labels → ¬ Each (step taskQueue) (Alone provider tracked) s labels →
      ∃ earlier later, [earlier,later].Sublist tracked ∧
        Overtaken earlier later (line provider tracked (run (step taskQueue) s labels)) := by
  induction labels with
  | nil => exact fun _ _ _ stacked => absurd each_nil stacked
  | cons label labels ih =>
    intro s follows inLine calm stacked
    obtain ⟨now,later⟩ := each_cons.mp calm
    have advances := step_advances serves follows now
    by_cases alone : Alone provider tracked s label
    · have rest : ¬ Each (step taskQueue) (Alone provider tracked) (step taskQueue s label) labels :=
        fun each => stacked (each_cons.mpr ⟨alone,each⟩)
      exact ih advances.follows (alone_inLine advances alone inLine) later rest
    · -- the first task that is pushed onto another stays ahead of it
      obtain ⟨earlier,item,listed,overtaken⟩ := stacked_overtakes follows alone inLine
      have always : Always (step taskQueue) (fun s => Follows taskQueue provider tracked s ∧
          Overtaken earlier item (line provider tracked s)) (step taskQueue s label) labels := by
        refine always_of_each _ Calm ?_ ⟨advances.follows,overtaken⟩ later
        rintro s label ⟨follows,overtaken⟩ calm
        have next := step_advances serves follows calm
        exact ⟨next.follows,shifts_overtaken next.shifts overtaken⟩
      exact ⟨earlier,item,listed,always.last.2⟩

theorem reached_begun (taskQueue : Nat → String) (labels : List Label) :
    (∃ holder, Accounted taskQueue (view (run (step taskQueue) idle labels)) holder) ∧
      Begun (run (step taskQueue) idle labels) := by
  have always : Always (step taskQueue) (fun s => (∃ holder, Accounted taskQueue (view s) holder) ∧ Begun s)
      idle labels := by
    refine always_of_step _ ?_ ⟨⟨_,idle_accounted taskQueue⟩,by intro id member; cases member⟩ labels
    rintro s label ⟨⟨_,accounted⟩,begun⟩
    exact ⟨step_accounted accounted label,step_begun accounted begun label⟩
  exact always.last

end

/-- From any state in which the scheduler is about to poll, in every run in which nothing
    raises and nothing is retried: if each of the followed pending tasks of a provider is
    pushed when no other of them waits, they are executed in order of creation; and if they
    all are executed in that order, each was pushed so. -/
theorem ordered_iff_alone (taskQueue : Nat → String) (provider : String) (serves : taskQueue 0 = queueKey provider)
    (before : List Label) (start : DispatchState) (reached : run (step taskQueue) idle before = start)
    (poll : start.scheduler = .polling) (tracked : List String)
    (pending : tracked.Sublist (pendingOf provider start.table))
    (after : List Label) (calm : Each (step taskQueue) Calm start after) :
    (Each (step taskQueue) (Alone provider tracked) start after →
      Always (step taskQueue) (Ordered tracked) start after) ∧
    ((∀ id ∈ tracked, id ∈ (run (step taskQueue) start after).executed) →
      Ordered tracked (run (step taskQueue) start after) →
      Each (step taskQueue) (Alone provider tracked) start after) := by
  subst reached
  obtain ⟨⟨holder,accounted⟩,begun⟩ := reached_begun taskQueue before
  obtain ⟨follows,first⟩ := start_follows accounted begun poll pending
  have distinct : tracked.Nodup := (pending.trans List.filter_sublist).nodup (TaskTable.distinct _)
  have inLine : InLine tracked (line provider tracked (run (step taskQueue) idle before)) := by
    rw [first]
    rfl
  constructor
  · intro alone
    have both : Each (step taskQueue) (fun s label => Calm s label ∧ Alone provider tracked s label)
        (run (step taskQueue) idle before) after :=
      fun done label within => ⟨calm done label within,alone done label within⟩
    have always : Always (step taskQueue) (fun s => Follows taskQueue provider tracked s ∧
        InLine tracked (line provider tracked s)) (run (step taskQueue) idle before) after := by
      refine always_of_each _ _ ?_ ⟨follows,inLine⟩ both
      rintro s label ⟨follows,inLine⟩ ⟨calm,alone⟩
      have next := step_advances serves follows calm
      exact ⟨next.follows,alone_inLine next alone inLine⟩
    refine always.mono ?_
    rintro s ⟨_,inLine⟩
    exact throughout_filter.mp (served_precedes distinct inLine executed_served)
  · intro complete ordered
    by_contra stacked
    obtain ⟨earlier,later,listed,overtaken⟩ := stacked_breaks serves follows inLine calm stacked
    have content : Always (step taskQueue) (fun s => Follows taskQueue provider tracked s ∧
        (line provider tracked s).whole.Perm tracked) (run (step taskQueue) idle before) after := by
      refine always_of_each _ Calm ?_ ⟨follows,by rw [inLine]⟩ calm
      rintro s label ⟨follows,content⟩ calm
      have next := step_advances serves follows calm
      exact ⟨next.follows,(shifts_perm next.shifts).trans content⟩
    refine overtaken_breaks distinct content.last.2 executed_served ?_ listed overtaken (throughout_filter.mpr ordered)
    intro id member
    exact List.mem_filter.mpr ⟨complete id member,by simpa using member⟩

/-! ### Two tasks -/

def twoCreated : List Label := [.create { id := "task-1" },.create { id := "task-2" }]

/-- A poll that hands both tasks over before the worker begins. -/
def handedTogether : List Label := List.replicate 7 (.scheduler false) ++ List.replicate 10 (.worker 0 false)

/-- The worker begins with the first task before the second is handed over. -/
def handedInTurn : List Label :=
  List.replicate 4 (.scheduler false) ++ List.replicate 5 (.worker 0 false) ++
    List.replicate 3 (.scheduler false) ++ List.replicate 5 (.worker 0 false)

/-- Of two tasks that are handed over together the second is executed first. -/
theorem later_first :
    (run (step (fun _ => "tasks:opencode")) idle twoCreated).scheduler = .polling ∧
      ["task-1","task-2"].Sublist (pendingOf "opencode" (run (step (fun _ => "tasks:opencode")) idle twoCreated).table) ∧
      Each (step (fun _ => "tasks:opencode")) Calm (run (step (fun _ => "tasks:opencode")) idle twoCreated)
        handedTogether ∧
      ¬ Ordered ["task-1","task-2"] (run (step (fun _ => "tasks:opencode")) idle (twoCreated ++ handedTogether)) := by
  refine ⟨rfl,by decide +kernel,by decide +kernel,?_⟩
  have executed : (run (step (fun _ => "tasks:opencode")) idle (twoCreated ++ handedTogether)).executed =
      ["task-2","task-1"] := by decide +kernel
  rw [Ordered,executed]
  intro inOrder
  have first := inOrder [] "task-2" ["task-1"] rfl "task-1" (List.Sublist.refl _)
  cases first

/-- The run in which the tasks are handed over in turn. -/
theorem in_turn_ordered :
    Each (step (fun _ => "tasks:opencode")) (Alone "opencode" ["task-1","task-2"])
        (run (step (fun _ => "tasks:opencode")) idle twoCreated) handedInTurn ∧
      Always (step (fun _ => "tasks:opencode")) (Ordered ["task-1","task-2"])
        (run (step (fun _ => "tasks:opencode")) idle twoCreated) handedInTurn := by
  obtain ⟨enough,needed⟩ := ordered_iff_alone (fun _ => "tasks:opencode") "opencode" (by decide +kernel) twoCreated
    _ rfl rfl ["task-1","task-2"] (by decide +kernel) handedInTurn (by decide +kernel)
  have executed : (run (step (fun _ => "tasks:opencode"))
      (run (step (fun _ => "tasks:opencode")) idle twoCreated) handedInTurn).executed = ["task-1","task-2"] := by
    decide +kernel
  have alone := needed (by rw [executed]; simp) (by rw [Ordered,executed]; exact precedes_self (by decide +kernel))
  exact ⟨alone,enough alone⟩

end Hookclose.DispatchOrder
