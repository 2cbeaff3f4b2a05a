import Hookclose.LiveCopies

/-!
What one await of a worker does. It moves the worker to its next place and, apart from
the queues, either changes nothing or writes one row that is not pending afterwards,
executes the task at hand, or sends the message that is due.
-/
namespace Hookclose.WorkerMoves
open Hookclose.TaskRepository Hookclose.TaskRepository.TaskTable Hookclose.Dispatch Hookclose.Custody Hookclose.LiveCopies

/-- What an await of a worker can do to the table, the channel and its own place. -/
structure Moves (s : DispatchState) (worker : Nat) (next : WorkerAt) (t : DispatchState) : Prop where
  workers : t.workers = s.workers
  scheduler : t.scheduler = s.scheduler
  table : t.table = s.table ∨
    ∃ id status result error attempts, status ≠ .pending ∧ t.table = s.table.updateStatus id status result error attempts
  executed : t.executed = s.executed ∨
    ∃ data, s.workers worker = .executing data ∧ t.executed = s.executed ++ [data.id]
  published : t.published = s.published ∨
    ∃ publication, s.workers worker = .announcing publication ∧ t.published = s.published ++ [publication]
  completing : ∀ data result, next = .completing data result →
    s.workers worker = .executing data ∧ ∃ error, executeTask data = some (result,error)
  announcing : ∀ publication, next = .announcing publication →
    (∃ data result, s.workers worker = .completing data result ∧ publication = .taskCompleted data.id result) ∨
      ∃ id error, publication = .taskFailed id error

theorem afterExecution_completing {data other : TaskData} {outcome : Option (Option Dict × Option String)}
    {result : Option Dict} (completing : afterExecution data outcome = .completing other result) :
    other = data ∧ ∃ error, outcome = some (result,error) := by
  unfold afterExecution at completing
  split at completing
  · cases completing
  · rename_i given error
    split at completing
    · cases completing
      exact ⟨rfl,_,rfl⟩
    · split_ifs at completing
      cases completing
      exact ⟨rfl,_,rfl⟩

theorem afterReading_place (data : TaskData) (error : String) (row : Option Task) :
    (∃ attempts, afterReading data error row = .retrying data error attempts) ∨
      ∃ attempts, afterReading data error row = .failing data error attempts := by
  unfold afterReading
  split
  · split_ifs
    · exact .inl ⟨_,rfl⟩
    · exact .inr ⟨_,rfl⟩
  · exact .inr ⟨_,rfl⟩

/-- A move to a place that neither completes nor announces. -/
theorem moves_quietly {s t : DispatchState} {worker : Nat} {next : WorkerAt} (workers : t.workers = s.workers)
    (scheduler : t.scheduler = s.scheduler) (table : t.table = s.table ∨
      ∃ id status result error attempts, status ≠ .pending ∧
        t.table = s.table.updateStatus id status result error attempts)
    (executed : t.executed = s.executed) (published : t.published = s.published)
    (busy : ∀ data result, next ≠ .completing data result)
    (silent : ∀ publication, next ≠ .announcing publication) : Moves s worker next t :=
  ⟨workers,scheduler,table,.inl executed,.inl published,fun data result same => absurd same (busy data result),
    fun publication same => absurd same (silent publication)⟩

theorem workerStep_moves (key : String) (worker : Nat) (raises : Bool) (s : DispatchState) :
    workerStep key worker raises s = s ∨
      ∃ next t, workerStep key worker raises s = moveTo worker next t ∧ Moves s worker next t := by
  have gives_up : Moves s worker .popping s :=
    moves_quietly rfl rfl (.inl rfl) rfl rfl (by simp) (by simp)
  unfold workerStep
  cases place : s.workers worker with
  | popping =>
    simp only
    split
    · exact .inl rfl
    · split_ifs
      · exact .inl rfl
      · exact .inr ⟨_,_,rfl,moves_quietly rfl rfl (.inl rfl) rfl rfl (by simp) (by simp)⟩
  | marking data =>
    simp only
    split_ifs
    · exact .inr ⟨_,_,rfl,gives_up⟩
    · exact .inr ⟨_,_,rfl,moves_quietly rfl rfl (.inr ⟨_,.running,_,_,_,by decide,rfl⟩) rfl rfl (by simp) (by simp)⟩
  | executing data =>
    refine .inr ⟨_,_,rfl,rfl,rfl,.inl rfl,.inr ⟨data,place,rfl⟩,.inl rfl,?_,?_⟩
    · intro other result completing
      obtain ⟨rfl,error,executed⟩ := afterExecution_completing completing
      cases raises
      · exact ⟨place,error,executed⟩
      · cases executed
    · intro publication announcing
      have silent := afterExecution_silent data (if raises then none else executeTask data)
      rw [announcing] at silent
      cases silent
  | reading data error =>
    simp only
    split_ifs
    · exact .inr ⟨_,_,rfl,gives_up⟩
    · rcases afterReading_place data error (s.table.get data.id) with ⟨attempts,same⟩ | ⟨attempts,same⟩
      · rw [same]
        exact .inr ⟨_,_,rfl,moves_quietly rfl rfl (.inl rfl) rfl rfl (by simp) (by simp)⟩
      · rw [same]
        exact .inr ⟨_,_,rfl,moves_quietly rfl rfl (.inl rfl) rfl rfl (by simp) (by simp)⟩
  | retrying data error attempts =>
    simp only
    split_ifs
    · exact .inr ⟨_,_,rfl,gives_up⟩
    · exact .inr ⟨_,_,rfl,moves_quietly rfl rfl (.inr ⟨_,.retrying,_,_,_,by decide,rfl⟩) rfl rfl (by simp) (by simp)⟩
  | requeueing data =>
    simp only
    split_ifs
    · exact .inr ⟨_,_,rfl,gives_up⟩
    · exact .inr ⟨_,_,rfl,moves_quietly rfl rfl (.inl rfl) rfl rfl (by simp) (by simp)⟩
  | failing data error attempts =>
    simp only
    split_ifs
    · exact .inr ⟨_,_,rfl,gives_up⟩
    · refine .inr ⟨_,_,rfl,rfl,rfl,.inr ⟨_,.failed,_,_,_,by decide,rfl⟩,.inl rfl,.inl rfl,by simp,?_⟩
      intro publication same
      cases same
      exact .inr ⟨_,_,rfl⟩
  | completing data result =>
    simp only
    split_ifs
    · exact .inr ⟨_,_,rfl,gives_up⟩
    · refine .inr ⟨_,_,rfl,rfl,rfl,.inr ⟨_,.completed,_,_,_,by decide,rfl⟩,.inl rfl,.inl rfl,by simp,?_⟩
      intro publication same
      cases same
      exact .inl ⟨data,result,place,rfl⟩
  | announcing publication =>
    simp only
    cases raises with
    | true => exact .inr ⟨_,_,rfl,gives_up⟩
    | false => exact .inr ⟨_,_,rfl,rfl,rfl,.inl rfl,.inl rfl,.inr ⟨publication,place,rfl⟩,by simp,by simp⟩

theorem later_refl (table : TaskTable) : Later table table := fun _ row found => ⟨row,found,rfl⟩

theorem Moves.later {s t : DispatchState} {worker : Nat} {next : WorkerAt} (moves : Moves s worker next t) :
    Later s.table t.table := by
  rcases moves.table with same | ⟨id,status,result,error,attempts,_,written⟩
  · rw [same]
    exact later_refl s.table
  · rw [written]
    exact later_updateStatus id status result error attempts s.table

/-- No step takes a row away or changes what its entries say. -/
theorem step_later (taskQueue : Nat → String) (s : DispatchState) (label : Label) :
    Later s.table (step taskQueue s label).table := by
  cases label with
  | create task => exact later_create { task with status := .pending } s.table
  | scheduler raises =>
    simp only [step,schedulerStep]
    split_ifs
    · exact later_refl s.table
    · cases s.scheduler with
      | marking task rest => exact later_updateStatus task.id .scheduled none none (some 1) s.table
      | _ => exact later_refl s.table
  | worker index raises =>
    rw [step]
    rcases workerStep_moves (taskQueue index) index raises s with same | ⟨next,t,moved,moves⟩
    · rw [same]
      exact later_refl s.table
    · rw [moved]
      exact moves.later

end Hookclose.WorkerMoves
