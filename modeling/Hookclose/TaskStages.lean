import Hookclose.LiveCopies

/-!
What holds of a task by the place that it is in: one condition while it waits, in a queue or
in the scheduler's hand, and one for each await of a worker that is at it. Awaits that take the
task from place to place keep such conditions, whatever they are, as long as those of the
places agree.
-/
namespace Hookclose.TaskStages
open Hookclose.TaskRepository Hookclose.Dispatch Hookclose.Custody Hookclose.TaskLoss Hookclose.LiveCopies

/-! ### Subjects -/

/-- The task that a worker is at, until the end of its iteration. -/
def subject : WorkerAt → Option String
  | .announcing publication => some (Publication.taskId publication)
  | place => place.carried.map TaskData.id

theorem subject_of_carried {place : WorkerAt} {data : TaskData} (carried : place.carried = some data) :
    subject place = some data.id := by
  cases place with
  | announcing publication => cases carried
  | _ => simp [subject,carried]

theorem subject_of_announced {place : WorkerAt} {id : String} (announces : announced place = some id) :
    subject place = some id := by
  cases place with
  | announcing publication => exact announces
  | _ => cases announces

theorem subject_cases {place : WorkerAt} {id : String} (at_ : subject place = some id) :
    (∃ data, place.carried = some data ∧ data.id = id) ∨ announced place = some id := by
  cases place with
  | announcing publication => exact .inr at_
  | _ => exact .inl (Option.map_eq_some_iff.mp at_)

theorem subject_moveTo {worker other : Nat} {next : WorkerAt} {s : DispatchState} {id : String}
    (at_ : subject ((moveTo worker next s).workers other) = some id) :
    (other = worker ∧ subject next = some id) ∨ (other ≠ worker ∧ subject (s.workers other) = some id) := by
  by_cases same : other = worker
  · subst same
    rw [moveTo_self] at at_
    exact .inl ⟨rfl,at_⟩
  · rw [moveTo_other same] at at_
    exact .inr ⟨same,at_⟩

/-- The task that a worker carries is nowhere else. -/
theorem carried_alone {taskQueue : Nat → String} {s : DispatchState} {holder : String → Option Place}
    (accounted : Accounted taskQueue (view s) holder) {index : Nat} {data : TaskData}
    (carried : (s.workers index).carried = some data) :
    (∀ key, ∀ entry ∈ s.queues key, entry.id ≠ data.id) ∧
      (∀ entry, s.scheduler.handing = some entry → entry.id ≠ data.id) ∧
      ∀ other entry, (s.workers other).carried = some entry → entry.id = data.id → other = index := by
  have held : holder data.id = some (.worker index) :=
    (accounted.located.agrees (.worker index) data.id).mp ⟨data,carried,rfl⟩
  have elsewhere : ∀ place, place ≠ .worker index → ¬ Holds (view s) place data.id :=
    fun _ => accounted.located.absent held
  refine ⟨?_,?_,?_⟩
  · intro key entry member same
    exact elsewhere (.queue key) (by simp) ⟨entry,member,same⟩
  · intro entry handing same
    exact elsewhere .scheduler (by simp) ⟨entry,handing,same⟩
  · intro other entry carries same
    by_contra differs
    exact elsewhere (.worker other) (by simpa using differs) ⟨entry,carries,same⟩

/-- A task that is in no place waits nowhere. -/
theorem nowhere_waits {s : DispatchState} {id : String} (nowhere : ∀ place, ¬ Holds (view s) place id) :
    (∀ key, ∀ entry ∈ s.queues key, entry.id ≠ id) ∧ ∀ entry, s.scheduler.handing = some entry → entry.id ≠ id :=
  ⟨fun key entry member same => nowhere (.queue key) ⟨entry,member,same⟩,
    fun entry handing same => nowhere .scheduler ⟨entry,handing,same⟩⟩

/-- A worker at a task that is in no place only announces its outcome. -/
theorem announced_of_nowhere {s : DispatchState} {id : String} (nowhere : ∀ place, ¬ Holds (view s) place id) {index : Nat}
    (at_ : subject (s.workers index) = some id) : announced (s.workers index) = some id := by
  rcases subject_cases at_ with ⟨data,carries,equal⟩ | announcing
  · exact absurd ⟨data,carries,equal⟩ (nowhere (.worker index))
  · exact announcing

/-! ### Stations -/

/-- The conditions hold of a task wherever it is. -/
structure Stationed (s : DispatchState) (id : String) (waits : Prop) (works : WorkerAt → Prop) : Prop where
  queued : ∀ key, ∀ data ∈ s.queues key, data.id = id → waits
  handed : ∀ data, s.scheduler.handing = some data → data.id = id → waits
  worked : ∀ index, subject (s.workers index) = some id → works (s.workers index)

section
variable {s t : DispatchState} {id : String} {waits : Prop} {works : WorkerAt → Prop}

/-- Where a task enters no place, the conditions stay. -/
theorem Stationed.stays (stationed : Stationed s id waits works)
    (queues : ∀ key, ∀ data ∈ t.queues key, data.id = id → data ∈ s.queues key)
    (handing : ∀ data, t.scheduler.handing = some data → data.id = id → s.scheduler.handing = some data)
    (workers : ∀ index, subject (t.workers index) = some id → t.workers index = s.workers index) :
    Stationed t id waits works := by
  refine ⟨?_,?_,?_⟩
  · intro key data member same
    exact stationed.queued key data (queues key data member same) same
  · intro data handed same
    exact stationed.handed data (handing data handed same) same
  · intro index at_
    have unchanged := workers index at_
    rw [unchanged] at at_
    rw [unchanged]
    exact stationed.worked index at_

/-- A task that waits in no queue and that no other worker is at. -/
theorem stationed_moveTo {index : Nat} {next : WorkerAt} (queues : ∀ key, ∀ data ∈ s.queues key, data.id ≠ id)
    (handing : ∀ data, s.scheduler.handing = some data → data.id ≠ id) (own : subject next = some id → works next)
    (others : ∀ other ≠ index, subject (s.workers other) = some id → works (s.workers other)) :
    Stationed (moveTo index next s) id waits works := by
  refine ⟨?_,?_,?_⟩
  · intro key data member same
    exact absurd same (queues key data member)
  · intro data handed same
    exact absurd same (handing data handed)
  · intro other at_
    rcases subject_moveTo at_ with ⟨rfl,moved⟩ | ⟨elsewhere,before⟩
    · rw [moveTo_self]
      exact own moved
    · rw [moveTo_other elsewhere]
      exact others other elsewhere before

/-- A worker that moves on without a task changes nothing for any. -/
theorem Stationed.dropped (stationed : Stationed s id waits works) (index : Nat) (published : List Publication) :
    Stationed (moveTo index .popping { s with published := published }) id waits works := by
  refine stationed.stays (fun _ _ member _ => member) (fun _ handed _ => handed) ?_
  intro other after
  rcases subject_moveTo after with ⟨_,nothing⟩ | ⟨elsewhere,_⟩
  · cases nothing
  · rw [moveTo_other elsewhere]

theorem Stationed.popped (stationed : Stationed s id waits works) {index : Nat} {key : String} {data : TaskData}
    {rest : List TaskData} (queue : s.queues key = data :: rest) (begins : waits → works (.marking data)) :
    Stationed (moveTo index (.marking data) { s with queues := Function.update s.queues key rest }) id waits works := by
  refine ⟨?_,stationed.handed,?_⟩
  · intro other entry member same
    by_cases here : other = key
    · subst here
      simp only [moveTo,Function.update_self] at member
      refine stationed.queued other entry ?_ same
      rw [queue]
      exact List.mem_cons_of_mem _ member
    · simp only [moveTo,Function.update_of_ne here] at member
      exact stationed.queued other entry member same
  · intro other after
    rcases subject_moveTo after with ⟨rfl,popped⟩ | ⟨elsewhere,old⟩
    · rw [moveTo_self]
      refine begins (stationed.queued key data ?_ (Option.some.inj popped))
      rw [queue]
      exact List.mem_cons_self
    · rw [moveTo_other elsewhere]
      exact stationed.worked other old

theorem Stationed.requeued (stationed : Stationed s id waits works) {index : Nat} {key : String} {data : TaskData}
    (place : s.workers index = .requeueing data) (ends : works (.requeueing data) → waits) :
    Stationed (moveTo index .popping { s with queues := push key data s.queues }) id waits works := by
  refine ⟨?_,stationed.handed,(stationed.dropped index s.published).worked⟩
  intro other entry member same
  rcases mem_push.mp member with ⟨rfl,rfl⟩ | old
  · have working := stationed.worked index (by rw [place]; exact congrArg some same)
    rw [place] at working
    exact ends working
  · exact stationed.queued other entry old same

/-- The scheduler moves on without a task in hand. -/
theorem Stationed.passed (stationed : Stationed s id waits works) {next : SchedulerAt} (free : next.handing = none)
    (published : List Publication) : Stationed { s with scheduler := next, published := published } id waits works := by
  refine stationed.stays (fun _ _ member _ => member) ?_ (fun _ _ => rfl)
  intro data handed
  cases free.symm.trans handed

theorem Stationed.pushed (stationed : Stationed s id waits works) {task : Task} {rest : List Task}
    (place : s.scheduler = .pushing task rest) :
    Stationed { s with
      queues := push (queueKey task.provider) (TaskData.ofTask task) s.queues
      scheduler := .publishing task rest } id waits works := by
  refine ⟨?_,?_,stationed.worked⟩
  · intro key entry member same
    rcases mem_push.mp member with ⟨rfl,rfl⟩ | old
    · exact stationed.handed _ (by rw [place]; rfl) same
    · exact stationed.queued key entry old same
  · intro data handed
    cases handed

/-- The scheduler takes another task in hand. -/
theorem Stationed.marked (stationed : Stationed s id waits works) {task : Task} {rest : List Task} (table : TaskTable)
    (differs : id ≠ task.id) :
    Stationed { s with table := table, scheduler := .pushing task rest } id waits works := by
  refine stationed.stays (fun _ _ member _ => member) ?_ (fun _ _ => rfl)
  intro data handed equal
  simp only [SchedulerAt.handing,Option.some.injEq] at handed
  subst handed
  exact absurd equal.symm differs

end

end Hookclose.TaskStages
