import Hookclose.Dispatch
import Mathlib.Data.List.Perm.Basic

/-!
Who has a task. Of the dispatch loop it keeps only the table, the queues and the
tasks that processes have in hand; awaits become moves of single tasks between
these places. A task is in one place at most, and it is lost exactly when the
process that has it lets go of it: on every other move a task that is neither
pending nor settled is in some place, and its queue is that of its provider.
-/
namespace Hookclose.Custody
open Hookclose.TaskRepository Hookclose.TaskRepository.TaskTable Hookclose.Dispatch

/-- What matters of a state for who has which task. -/
structure Holdings where
  table : TaskTable
  queues : String → List TaskData
  handing : Option TaskData
  upcoming : List Task
  carried : Nat → Option TaskData

def Live (status : TaskStatus) : Prop := status = .scheduled ∨ status = .running ∨ status = .retrying

def Settled (status : TaskStatus) : Prop := status = .completed ∨ status = .failed

inductive Place
  | scheduler
  | queue (key : String)
  | worker (index : Nat)
  deriving DecidableEq

def Holds (c : Holdings) : Place → String → Prop
  | .scheduler,id => ∃ data, c.handing = some data ∧ data.id = id
  | .queue key,id => ∃ data ∈ c.queues key, data.id = id
  | .worker index,id => ∃ data, c.carried index = some data ∧ data.id = id

/-- The moves on which no task is let go of. -/
inductive Keeps (taskQueue : Nat → String) (c : Holdings) : Holdings → Prop
  | stay : Keeps taskQueue c c
  | create (task : Task) (pending : task.status = .pending) : Keeps taskQueue c { c with table := c.table.create task }
  | poll (free : c.handing = none) : Keeps taskQueue c { c with upcoming := c.table.getPending 10 }
  | abandon (free : c.handing = none) : Keeps taskQueue c { c with upcoming := [] }
  | mark (task : Task) (rest : List Task) (next : c.upcoming = task :: rest) (free : c.handing = none) :
      Keeps taskQueue c { c with
        table := c.table.updateStatus task.id .scheduled none none (some 1)
        handing := some (TaskData.ofTask task)
        upcoming := rest }
  | hand (data : TaskData) (handing : c.handing = some data) :
      Keeps taskQueue c { c with queues := push (queueKey data.provider) data c.queues, handing := none }
  | take (index : Nat) (data : TaskData) (rest : List TaskData) (free : c.carried index = none)
      (queue : c.queues (taskQueue index) = data :: rest) :
      Keeps taskQueue c { c with
        queues := Function.update c.queues (taskQueue index) rest
        carried := Function.update c.carried index (some data) }
  | work (index : Nat) (data : TaskData) (carries : c.carried index = some data) (status : TaskStatus)
      (live : Live status) (error : Option String) (attempts : Option Int) :
      Keeps taskQueue c { c with table := c.table.updateStatus data.id status none error attempts }
  | requeue (index : Nat) (data : TaskData) (carries : c.carried index = some data) :
      Keeps taskQueue c { c with
        queues := push (taskQueue index) data c.queues
        carried := Function.update c.carried index none }
  | settle (index : Nat) (data : TaskData) (carries : c.carried index = some data) (status : TaskStatus)
      (settled : Settled status) (result : Option Dict) (error : Option String) (attempts : Option Int) :
      Keeps taskQueue c { c with
        table := c.table.updateStatus data.id status result error attempts
        carried := Function.update c.carried index none }

/-- The moves on which a process lets go of the task that it has. -/
inductive Loses (c : Holdings) : Holdings → Prop
  | scheduler (data : TaskData) (handing : c.handing = some data) : Loses c { c with handing := none, upcoming := [] }
  | worker (index : Nat) (data : TaskData) (carries : c.carried index = some data) :
      Loses c { c with carried := Function.update c.carried index none }

/-! ### Rows and entries -/

/-- An entry that says of its task what the row says. -/
def Matches (table : TaskTable) (data : TaskData) : Prop :=
  ∃ row, table.row data.id = some row ∧ data = TaskData.ofTask (rowToTask row)

/-- No row goes away or changes what its entries say. -/
def Later (before after : TaskTable) : Prop :=
  ∀ id row, before.row id = some row → ∃ later, after.row id = some later ∧
    TaskData.ofTask (rowToTask later) = TaskData.ofTask (rowToTask row)

theorem later_create (task : Task) (table : TaskTable) : Later table (table.create task) :=
  fun _ row found => ⟨row,create_kept found,rfl⟩

theorem later_updateStatus (id : String) (status : TaskStatus) (result : Option Dict) (error : Option String)
    (attempts : Option Int) (table : TaskTable) : Later table (table.updateStatus id status result error attempts) := by
  intro other row found
  by_cases same : other = id
  · subst same
    exact ⟨_,updateStatus_self found status result error attempts,rfl⟩
  · exact ⟨row,by rwa [updateStatus_other same],rfl⟩

theorem Matches.later {before after : TaskTable} {data : TaskData} (matched : Matches before data)
    (later : Later before after) : Matches after data := by
  obtain ⟨row,found,same⟩ := matched
  obtain ⟨next,kept,equal⟩ := later data.id row found
  exact ⟨next,kept,by rw [equal]; exact same⟩

/-! ### Accounts -/

/-- The entries agree with the rows, and the scheduler's list with the pending ones. -/
structure Consistent (taskQueue : Nat → String) (c : Holdings) : Prop where
  queued : ∀ key, ∀ data ∈ c.queues key, Matches c.table data ∧ key = queueKey data.provider
  carried : ∀ index data, c.carried index = some data → Matches c.table data ∧ taskQueue index = queueKey data.provider
  handing : ∀ data, c.handing = some data → Matches c.table data
  upcoming : ∀ task ∈ c.upcoming, ∃ row, c.table.row task.id = some row ∧ row.status = .pending ∧ task = rowToTask row
  distinct : (c.upcoming.map Task.id).Nodup
  single : ∀ key, ((c.queues key).map TaskData.id).Nodup

/-- One place at most for each task, and only for a task that is neither pending nor
    settled. -/
structure Located (c : Holdings) (holder : String → Option Place) : Prop where
  agrees : ∀ place id, Holds c place id ↔ holder id = some place
  live : ∀ id place, holder id = some place → ∃ row, c.table.row id = some row ∧ Live row.status

/-- Every task that is neither pending nor settled has a place. -/
def Kept (c : Holdings) (holder : String → Option Place) : Prop :=
  ∀ id row, c.table.row id = some row → Settled row.status ∨ row.status = .pending ∨ (holder id).isSome = true

/-- A task changes its place, and no other does. -/
def Relocates (before after : Holdings) (id : String) (target : Option Place) : Prop :=
  ∀ place other, Holds after place other ↔ (Holds before place other ∧ other ≠ id) ∨ (target = some place ∧ other = id)

/-- A move of one task: its row may change, the other rows stay. -/
theorem located_relocates {before after : Holdings} {holder : String → Option Place} {id : String}
    {target : Option Place} (located : Located before holder) (relocates : Relocates before after id target)
    (others : ∀ other, other ≠ id → after.table.row other = before.table.row other)
    (live : ∀ place, target = some place → ∃ row, after.table.row id = some row ∧ Live row.status) :
    Located after (Function.update holder id target) := by
  constructor
  · intro place other
    rw [relocates place other,located.agrees]
    by_cases same : other = id
    · subst same
      simp
    · simp [same]
  · intro other place held
    by_cases same : other = id
    · subst same
      rw [Function.update_self] at held
      exact live place held
    · rw [Function.update_of_ne same] at held
      rw [others other same]
      exact located.live other place held

theorem kept_relocates {before after : Holdings} {holder : String → Option Place} {id : String} {target : Option Place}
    (kept : Kept before holder) (others : ∀ other, other ≠ id → after.table.row other = before.table.row other)
    (placed : target.isSome = true ∨ ∀ row, after.table.row id = some row → Settled row.status) :
    Kept after (Function.update holder id target) := by
  intro other row found
  by_cases same : other = id
  · subst same
    rw [Function.update_self]
    rcases placed with somewhere | settled
    · exact .inr (.inr somewhere)
    · exact .inl (settled row found)
  · rw [Function.update_of_ne same]
    rw [others other same] at found
    exact kept other row found

structure Accounted (taskQueue : Nat → String) (c : Holdings) (holder : String → Option Place) : Prop where
  consistent : Consistent taskQueue c
  located : Located c holder

/-- A task that is in no place, and neither pending nor settled. -/
def Lost (c : Holdings) (id : String) : Prop :=
  (∃ row, c.table.row id = some row ∧ Live row.status) ∧ ∀ place, ¬ Holds c place id

/-- What a move on which no task is let go of gives: the account can be kept up, no
    task drops out of it, and one that has dropped out does not come back. -/
def Good (taskQueue : Nat → String) (c : Holdings) (holder : String → Option Place) (after : Holdings) : Prop :=
  ∃ next, Accounted taskQueue after next ∧ (Kept c holder → Kept after next) ∧ ∀ id, Lost c id → Lost after id

theorem live_not_pending {status : TaskStatus} (live : Live status) : status ≠ .pending := by
  rintro rfl
  rcases live with contrary | contrary | contrary <;> cases contrary

theorem live_not_settled {status : TaskStatus} (live : Live status) : status ≠ .completed ∧ status ≠ .failed := by
  constructor
  · rintro rfl
    rcases live with contrary | contrary | contrary <;> cases contrary
  · rintro rfl
    rcases live with contrary | contrary | contrary <;> cases contrary

theorem held_not_lost {c : Holdings} {place : Place} {id : String} (holds : Holds c place id) : ¬ Lost c id :=
  fun lost => lost.2 place holds

theorem pending_free {c : Holdings} {holder : String → Option Place} (located : Located c holder) {id : String} {row : Task}
    (found : c.table.row id = some row) (pending : row.status = .pending) : holder id = none := by
  cases held : holder id with
  | none => rfl
  | some place =>
    obtain ⟨same,other,live⟩ := located.live id place held
    rw [found] at other
    cases other
    exact absurd pending (live_not_pending live)

/-- A task is in no place but its own. -/
theorem Located.absent {c : Holdings} {holder : String → Option Place} (located : Located c holder) {id : String}
    {own place : Place} (held : holder id = some own) (differs : place ≠ own) : ¬ Holds c place id := by
  rw [located.agrees,held]
  intro same
  cases same
  exact differs rfl

/-- What a move of a task means at a place that it neither leaves nor enters. -/
theorem stays {before after : Holdings} {place : Place} {id other : String} {target : Option Place}
    (same : Holds after place other ↔ Holds before place other) (absent : ¬ Holds before place id)
    (bystander : target ≠ some place) :
    Holds after place other ↔ (Holds before place other ∧ other ≠ id) ∨ (target = some place ∧ other = id) := by
  rw [same]
  constructor
  · intro held
    exact .inl ⟨held,fun contrary => absent (contrary ▸ held)⟩
  · rintro (⟨held,_⟩ | ⟨contrary,_⟩)
    · exact held
    · exact absurd contrary bystander

/-- The entries stay consistent under a later table in which the scheduler's tasks are
    still pending. -/
theorem consistent_later {taskQueue : Nat → String} {c : Holdings} (consistent : Consistent taskQueue c)
    {table : TaskTable} (later : Later c.table table)
    (upcoming : ∀ task ∈ c.upcoming, table.row task.id = c.table.row task.id) :
    Consistent taskQueue { c with table := table } := by
  refine ⟨?_,?_,?_,?_,consistent.distinct,consistent.single⟩
  · intro key data member
    exact ⟨(consistent.queued key data member).1.later later,(consistent.queued key data member).2⟩
  · intro index data carries
    exact ⟨(consistent.carried index data carries).1.later later,(consistent.carried index data carries).2⟩
  · intro data handing
    exact (consistent.handing data handing).later later
  · intro task member
    obtain ⟨row,found,rest⟩ := consistent.upcoming task member
    exact ⟨row,(upcoming task member).trans found,rest⟩

/-- Writing the row of a task that has a place leaves the pending rows alone. -/
theorem upcoming_updateStatus {taskQueue : Nat → String} {c : Holdings} {holder : String → Option Place}
    (accounted : Accounted taskQueue c holder) {id : String} {place : Place} (held : holder id = some place)
    (status : TaskStatus) (result : Option Dict) (error : Option String) (attempts : Option Int) (task : Task)
    (member : task ∈ c.upcoming) :
    (c.table.updateStatus id status result error attempts).row task.id = c.table.row task.id := by
  obtain ⟨row,found,pending,_⟩ := accounted.consistent.upcoming task member
  have differs : task.id ≠ id := by
    intro same
    have free := pending_free accounted.located found pending
    rw [same,held] at free
    cases free
  exact updateStatus_other differs status result error attempts c.table

/-! ### Moves on which no task is let go of -/

section
variable {taskQueue : Nat → String} {c : Holdings} {holder : String → Option Place}

/-- A move of one task that is not lost. -/
theorem relocated_good (located : Located c holder) {after : Holdings} (id : String) (target : Option Place)
    (consistent : Consistent taskQueue after) (present : ¬ Lost c id) (relocates : Relocates c after id target)
    (others : ∀ other, other ≠ id → after.table.row other = c.table.row other)
    (live : ∀ place, target = some place → ∃ row, after.table.row id = some row ∧ Live row.status)
    (placed : target.isSome = true ∨ ∀ row, after.table.row id = some row → Settled row.status) :
    Good taskQueue c holder after := by
  refine ⟨Function.update holder id target,⟨consistent,located_relocates located relocates others live⟩,?_,?_⟩
  · intro kept
    exact kept_relocates kept others placed
  · intro other lost
    have differs : other ≠ id := by
      intro same
      exact present (same ▸ lost)
    obtain ⟨row,absent⟩ := lost
    refine ⟨by rwa [others other differs],?_⟩
    intro place holds
    rcases (relocates place other).mp holds with ⟨before,_⟩ | ⟨_,same⟩
    · exact absent place before
    · exact differs same

theorem create_good (accounted : Accounted taskQueue c holder) {task : Task} (pending : task.status = .pending) :
    Good taskQueue c holder { c with table := c.table.create task } := by
  obtain ⟨consistent,located⟩ := accounted
  have listed : ∀ other ∈ c.upcoming, (c.table.create task).row other.id = c.table.row other.id := by
    intro other member
    obtain ⟨row,found,_⟩ := consistent.upcoming other member
    rw [create_kept found,found]
  refine ⟨holder,⟨consistent_later consistent (later_create task c.table) listed,located.agrees,?_⟩,?_,?_⟩
  · intro id place held
    obtain ⟨row,found,live⟩ := located.live id place held
    exact ⟨row,create_kept found,live⟩
  · intro kept id row found
    rcases create_row found with old | ⟨_,_,rfl⟩
    · exact kept id row old
    · exact .inr (.inl pending)
  · rintro id ⟨⟨row,found,live⟩,absent⟩
    exact ⟨⟨row,create_kept found,live⟩,absent⟩

theorem getPending_mem {table : TaskTable} {limit : Nat} {task : Task} (member : task ∈ table.getPending limit) :
    ∃ row, table.row task.id = some row ∧ row.status = .pending ∧ task = rowToTask row := by
  obtain ⟨row,taken,rfl⟩ := List.mem_map.mp member
  obtain ⟨listed,pending⟩ := List.mem_filter.mp (List.mem_of_mem_take taken)
  obtain ⟨id,_,found⟩ := List.mem_filterMap.mp listed
  have named : (rowToTask row).id = id := table.named id row found
  exact ⟨row,by rwa [named],by simpa using pending,rfl⟩

theorem rows_ids (table : TaskTable) (ids : List String) :
    ((ids.filterMap table.row).map Task.id).Sublist ids := by
  induction ids with
  | nil => exact List.Sublist.refl []
  | cons id rest ih =>
    rw [List.filterMap_cons]
    cases found : table.row id with
    | none => exact ih.cons id
    | some row =>
      have named := table.named id row found
      simp only [List.map_cons,named]
      exact ih.cons_cons id

theorem getPending_distinct (table : TaskTable) (limit : Nat) : ((table.getPending limit).map Task.id).Nodup := by
  have ids : (table.getPending limit).map Task.id = (((table.ids.filterMap table.row).filter
      (fun row => row.status = .pending)).take limit).map Task.id := by
    simp [getPending,rowToTask,Function.comp_def]
  have kept := ((List.take_sublist limit _).trans
    (List.filter_sublist (l := table.ids.filterMap table.row) (p := fun row => decide (row.status = .pending)))).map Task.id
  rw [ids]
  exact (kept.trans (rows_ids table table.ids)).nodup table.distinct

theorem poll_good (accounted : Accounted taskQueue c holder) :
    Good taskQueue c holder { c with upcoming := c.table.getPending 10 } := by
  obtain ⟨consistent,located⟩ := accounted
  exact ⟨holder,⟨⟨consistent.queued,consistent.carried,consistent.handing,fun _ member => getPending_mem member,
    getPending_distinct c.table 10,consistent.single⟩,located.agrees,located.live⟩,fun kept => kept,fun _ lost => lost⟩

theorem abandon_good (accounted : Accounted taskQueue c holder) : Good taskQueue c holder { c with upcoming := [] } := by
  obtain ⟨consistent,located⟩ := accounted
  refine ⟨holder,⟨⟨consistent.queued,consistent.carried,consistent.handing,?_,List.nodup_nil,consistent.single⟩,
    located.agrees,located.live⟩,fun kept => kept,fun _ lost => lost⟩
  intro task member
  cases member

theorem mark_good (accounted : Accounted taskQueue c holder) {task : Task} {rest : List Task}
    (next : c.upcoming = task :: rest) (free : c.handing = none) :
    Good taskQueue c holder { c with
      table := c.table.updateStatus task.id .scheduled none none (some 1)
      handing := some (TaskData.ofTask task)
      upcoming := rest } := by
  obtain ⟨consistent,located⟩ := accounted
  obtain ⟨row,found,pending,read⟩ := consistent.upcoming task (by rw [next]; exact List.mem_cons_self)
  have later := later_updateStatus task.id .scheduled none none (some 1) c.table
  -- no later task of the pass is this one, so that all of them stay pending
  have distinct := consistent.distinct
  rw [next,List.map_cons,List.nodup_cons] at distinct
  have nowhere := pending_free located found pending
  have others : ∀ other, other ≠ task.id →
      (c.table.updateStatus task.id .scheduled none none (some 1)).row other = c.table.row other :=
    fun other differs => updateStatus_other differs _ _ _ _ _
  have absent : ∀ place, ¬ Holds c place task.id := by
    intro place
    rw [located.agrees,nowhere]
    intro contrary
    cases contrary
  have present : ¬ Lost c task.id := by
    rintro ⟨⟨other,same,live⟩,_⟩
    rw [found] at same
    cases same
    exact live_not_pending live pending
  refine relocated_good located task.id (some .scheduler) ⟨?_,?_,?_,?_,distinct.2,consistent.single⟩ present
    ?_ others ?_ (.inl rfl)
  · intro key data member
    exact ⟨(consistent.queued key data member).1.later later,(consistent.queued key data member).2⟩
  · intro index data carries
    exact ⟨(consistent.carried index data carries).1.later later,(consistent.carried index data carries).2⟩
  · intro data handing
    cases handing
    have same : Matches c.table (TaskData.ofTask task) := ⟨row,found,by rw [read]⟩
    exact same.later later
  · intro other member
    have differs : other.id ≠ task.id := by
      intro same
      exact distinct.1 (same ▸ List.mem_map_of_mem member)
    obtain ⟨otherRow,otherFound,facts⟩ := consistent.upcoming other (by rw [next]; exact List.mem_cons_of_mem _ member)
    exact ⟨otherRow,by rw [others other.id differs]; exact otherFound,facts⟩
  · intro place other
    cases place with
    | scheduler => simp [Holds,free,TaskData.ofTask,eq_comm]
    | queue key => exact stays Iff.rfl (absent _) (by simp)
    | worker index => exact stays Iff.rfl (absent _) (by simp)
  · intro place _
    exact ⟨_,updateStatus_self found _ _ _ _,.inl rfl⟩

/-- A matching entry on its provider's queue. -/
theorem queued_push (consistent : Consistent taskQueue c) {key : String} {data : TaskData}
    (matched : Matches c.table data) (own : key = queueKey data.provider) (other : String) (entry : TaskData)
    (member : entry ∈ push key data c.queues other) : Matches c.table entry ∧ other = queueKey entry.provider := by
  rcases mem_push.mp member with ⟨rfl,rfl⟩ | old
  · exact ⟨matched,own⟩
  · exact consistent.queued other entry old

theorem single_push (consistent : Consistent taskQueue c) {key : String} {data : TaskData}
    (absent : ¬ Holds c (.queue key) data.id) (other : String) :
    ((push key data c.queues other).map TaskData.id).Nodup := by
  by_cases same : other = key
  · subst same
    simp only [push,Function.update_self,List.map_cons,List.nodup_cons]
    refine ⟨?_,consistent.single other⟩
    intro member
    obtain ⟨entry,queued,equal⟩ := List.mem_map.mp member
    exact absent ⟨entry,queued,equal⟩
  · simp only [push,Function.update_of_ne same]
    exact consistent.single other

theorem hand_good (accounted : Accounted taskQueue c holder) {data : TaskData} (handing : c.handing = some data) :
    Good taskQueue c holder { c with queues := push (queueKey data.provider) data c.queues, handing := none } := by
  obtain ⟨consistent,located⟩ := accounted
  have holds : Holds c .scheduler data.id := ⟨data,handing,rfl⟩
  have held := (located.agrees _ _).mp holds
  have absent : ∀ place, place ≠ .scheduler → ¬ Holds c place data.id := fun _ => located.absent held
  refine relocated_good located data.id (some (.queue (queueKey data.provider)))
    ⟨?_,consistent.carried,?_,consistent.upcoming,consistent.distinct,?_⟩ (held_not_lost holds) ?_ (fun _ _ => rfl)
    (fun place _ => located.live data.id _ held) (.inl rfl)
  · exact queued_push consistent (consistent.handing data handing) rfl
  · intro entry contrary
    cases contrary
  · exact single_push consistent (absent _ (by simp))
  · intro place other
    cases place with
    | scheduler =>
      simp only [Holds,handing]
      grind
    | queue key =>
      by_cases same : key = queueKey data.provider
      · subst same
        simp only [Holds,push,Function.update_self,List.mem_cons]
        grind
      · exact stays (by simp [Holds,push,same]) (absent _ (by simp)) (by simpa using Ne.symm same)
    | worker index => exact stays Iff.rfl (absent _ (by simp)) (by simp)

theorem take_good (accounted : Accounted taskQueue c holder) {index : Nat} {data : TaskData} {rest : List TaskData}
    (free : c.carried index = none) (queue : c.queues (taskQueue index) = data :: rest) :
    Good taskQueue c holder { c with
      queues := Function.update c.queues (taskQueue index) rest
      carried := Function.update c.carried index (some data) } := by
  obtain ⟨consistent,located⟩ := accounted
  have first : data ∈ c.queues (taskQueue index) := by
    rw [queue]
    exact List.mem_cons_self
  have holds : Holds c (.queue (taskQueue index)) data.id := ⟨data,first,rfl⟩
  have held := (located.agrees _ _).mp holds
  have absent : ∀ place, place ≠ .queue (taskQueue index) → ¬ Holds c place data.id := fun _ => located.absent held
  have single := consistent.single (taskQueue index)
  rw [queue,List.map_cons,List.nodup_cons] at single
  refine relocated_good located data.id (some (.worker index))
    ⟨?_,?_,consistent.handing,consistent.upcoming,consistent.distinct,?_⟩ (held_not_lost holds) ?_ (fun _ _ => rfl)
    (fun place _ => located.live data.id _ held) (.inl rfl)
  · intro key entry member
    by_cases same : key = taskQueue index
    · subst same
      simp only [Function.update_self] at member
      exact consistent.queued _ entry (by rw [queue]; exact List.mem_cons_of_mem _ member)
    · simp only [Function.update_of_ne same] at member
      exact consistent.queued key entry member
  · intro other entry carries
    by_cases same : other = index
    · subst same
      simp only [Function.update_self] at carries
      cases carries
      exact consistent.queued _ data first
    · simp only [Function.update_of_ne same] at carries
      exact consistent.carried other entry carries
  · intro key
    by_cases same : key = taskQueue index
    · subst same
      simp only [Function.update_self]
      exact single.2
    · simp only [Function.update_of_ne same]
      exact consistent.single key
  · intro place other
    cases place with
    | scheduler => exact stays Iff.rfl (absent _ (by simp)) (by simp)
    | queue key =>
      by_cases same : key = taskQueue index
      · subst same
        have others : ∀ entry ∈ rest, entry.id ≠ data.id :=
          fun entry member equal => single.1 (equal ▸ List.mem_map_of_mem member)
        simp only [Holds,Function.update_self,queue,List.mem_cons]
        grind
      · exact stays (by simp [Holds,same]) (absent _ (by simpa using same)) (by simp)
    | worker other =>
      by_cases same : other = index
      · subst same
        simp only [Holds,Function.update_self,free]
        grind
      · exact stays (by simp [Holds,same]) (absent _ (by simp)) (by simpa using Ne.symm same)

theorem work_good (accounted : Accounted taskQueue c holder) {index : Nat} {data : TaskData}
    (carries : c.carried index = some data) {status : TaskStatus} (live : Live status) (error : Option String)
    (attempts : Option Int) :
    Good taskQueue c holder { c with table := c.table.updateStatus data.id status none error attempts } := by
  obtain ⟨consistent,located⟩ := accounted
  have held : holder data.id = some (.worker index) := (located.agrees _ _).mp ⟨data,carries,rfl⟩
  have listed := upcoming_updateStatus ⟨consistent,located⟩ held status none error attempts
  refine ⟨holder,⟨consistent_later consistent (later_updateStatus _ _ _ _ _ _) listed,located.agrees,?_⟩,?_,?_⟩
  · intro id place other
    obtain ⟨row,found,before⟩ := located.live id place other
    by_cases same : id = data.id
    · subst same
      exact ⟨_,updateStatus_self found _ _ _ _,live⟩
    · exact ⟨row,by rwa [updateStatus_other same],before⟩
  · intro kept id row found
    by_cases same : id = data.id
    · subst same
      rw [held]
      exact .inr (.inr rfl)
    · rw [updateStatus_other same] at found
      exact kept id row found
  · rintro id ⟨⟨row,found,before⟩,absent⟩
    have differs : id ≠ data.id := by
      rintro rfl
      exact absent (.worker index) ⟨data,carries,rfl⟩
    exact ⟨⟨row,by rwa [updateStatus_other differs],before⟩,absent⟩

/-- A worker gives up its task: what it carried is where the move says. -/
theorem given_up (located : Located c holder) {index : Nat} {data : TaskData} (carries : c.carried index = some data)
    (table : TaskTable) :
    Relocates c { c with table := table, carried := Function.update c.carried index none } data.id none := by
  have held : holder data.id = some (.worker index) := (located.agrees _ _).mp ⟨data,carries,rfl⟩
  have absent : ∀ place, place ≠ .worker index → ¬ Holds c place data.id := fun _ => located.absent held
  intro place other
  cases place with
  | scheduler => exact stays Iff.rfl (absent _ (by simp)) (by simp)
  | queue key => exact stays Iff.rfl (absent _ (by simp)) (by simp)
  | worker another =>
    by_cases same : another = index
    · subst same
      simp only [Holds,Function.update_self,carries]
      grind
    · exact stays (by simp [Holds,same]) (absent _ (by simpa using same)) (by simp)

/-- Without its task a worker leaves the entries consistent. -/
theorem consistent_given_up (consistent : Consistent taskQueue c) (index : Nat) :
    Consistent taskQueue { c with carried := Function.update c.carried index none } := by
  refine ⟨consistent.queued,?_,consistent.handing,consistent.upcoming,consistent.distinct,consistent.single⟩
  intro other entry carried
  by_cases same : other = index
  · subst same
    simp only [Function.update_self] at carried
    cases carried
  · simp only [Function.update_of_ne same] at carried
    exact consistent.carried other entry carried

theorem requeue_good (accounted : Accounted taskQueue c holder) {index : Nat} {data : TaskData}
    (carries : c.carried index = some data) :
    Good taskQueue c holder { c with
      queues := push (taskQueue index) data c.queues
      carried := Function.update c.carried index none } := by
  obtain ⟨consistent,located⟩ := accounted
  have holds : Holds c (.worker index) data.id := ⟨data,carries,rfl⟩
  have held := (located.agrees _ _).mp holds
  have absent : ∀ key, ¬ Holds c (.queue key) data.id := fun key => located.absent held (by simp)
  refine relocated_good located data.id (some (.queue (taskQueue index)))
    ⟨?_,?_,consistent.handing,consistent.upcoming,consistent.distinct,?_⟩ (held_not_lost holds) ?_ (fun _ _ => rfl)
    (fun place _ => located.live data.id _ held) (.inl rfl)
  · exact queued_push consistent (consistent.carried index data carries).1 (consistent.carried index data carries).2
  · exact (consistent_given_up consistent index).carried
  · exact single_push consistent (absent _)
  · intro place other
    have given := given_up located carries c.table place other
    cases place with
    | scheduler => exact given.trans (by simp)
    | queue key =>
      by_cases same : key = taskQueue index
      · subst same
        simp only [Holds,push,Function.update_self,List.mem_cons]
        grind
      · exact stays (by simp [Holds,push,same]) (absent key) (by simpa using Ne.symm same)
    | worker another => exact given.trans (by simp)

theorem settle_good (accounted : Accounted taskQueue c holder) {index : Nat} {data : TaskData}
    (carries : c.carried index = some data) {status : TaskStatus} (settled : Settled status) (result : Option Dict)
    (error : Option String) (attempts : Option Int) :
    Good taskQueue c holder { c with
      table := c.table.updateStatus data.id status result error attempts
      carried := Function.update c.carried index none } := by
  obtain ⟨consistent,located⟩ := accounted
  have holds : Holds c (.worker index) data.id := ⟨data,carries,rfl⟩
  have held := (located.agrees _ _).mp holds
  obtain ⟨row,found,_⟩ := located.live data.id _ held
  have others : ∀ other, other ≠ data.id →
      (c.table.updateStatus data.id status result error attempts).row other = c.table.row other :=
    fun other differs => updateStatus_other differs _ _ _ _ _
  have listed := upcoming_updateStatus ⟨consistent,located⟩ held status result error attempts
  have written := consistent_later consistent (later_updateStatus data.id status result error attempts c.table) listed
  refine relocated_good located data.id none (consistent_given_up written index) (held_not_lost holds)
    (given_up located carries _) others ?_ (.inr ?_)
  · intro place contrary
    cases contrary
  · intro after same
    rw [updateStatus_self found] at same
    cases same
    exact settled

theorem keeps_good (accounted : Accounted taskQueue c holder) {after : Holdings} (keeps : Keeps taskQueue c after) :
    Good taskQueue c holder after := by
  cases keeps with
  | stay => exact ⟨holder,accounted,fun kept => kept,fun _ lost => lost⟩
  | create task pending => exact create_good accounted pending
  | poll free => exact poll_good accounted
  | abandon free => exact abandon_good accounted
  | mark task rest next free => exact mark_good accounted next free
  | hand data handing => exact hand_good accounted handing
  | take index data rest free queue => exact take_good accounted free queue
  | work index data carries status live error attempts => exact work_good accounted carries live error attempts
  | requeue index data carries => exact requeue_good accounted carries
  | settle index data carries status settled result error attempts =>
    exact settle_good accounted carries settled result error attempts

/-! ### Moves on which a process lets go of its task -/

/-- The scheduler gives up its task and its list. -/
theorem handing_given_up (located : Located c holder) {data : TaskData} (handing : c.handing = some data) :
    Relocates c { c with handing := none, upcoming := [] } data.id none := by
  have held : holder data.id = some .scheduler := (located.agrees _ _).mp ⟨data,handing,rfl⟩
  have absent : ∀ place, place ≠ .scheduler → ¬ Holds c place data.id := fun _ => located.absent held
  intro place other
  cases place with
  | scheduler =>
    simp only [Holds,handing]
    grind
  | queue key => exact stays Iff.rfl (absent _ (by simp)) (by simp)
  | worker index => exact stays Iff.rfl (absent _ (by simp)) (by simp)

/-- A process that lets go of its task leaves the account right and the task lost. -/
theorem loses_lost (accounted : Accounted taskQueue c holder) {after : Holdings} (loses : Loses c after) :
    (∃ next, Accounted taskQueue after next) ∧ ∃ id, Lost after id := by
  obtain ⟨consistent,located⟩ := accounted
  have lost : ∀ {id place}, holder id = some place → after.table = c.table → Relocates c after id none →
      Located after (Function.update holder id none) ∧ Lost after id := by
    intro id place held table relocates
    refine ⟨located_relocates located relocates (fun _ _ => by rw [table]) ?_,?_,?_⟩
    · intro _ contrary
      cases contrary
    · rw [table]
      exact located.live id place held
    · intro other holds
      rcases (relocates other id).mp holds with ⟨_,differs⟩ | ⟨nowhere,_⟩
      · exact differs rfl
      · cases nowhere
  cases loses with
  | scheduler data handing =>
    have held := (located.agrees .scheduler data.id).mp ⟨data,handing,rfl⟩
    obtain ⟨next,gone⟩ := lost held rfl (handing_given_up located handing)
    refine ⟨⟨_,⟨⟨consistent.queued,consistent.carried,?_,?_,List.nodup_nil,consistent.single⟩,next⟩⟩,_,gone⟩
    · intro entry contrary
      cases contrary
    · intro task member
      cases member
  | worker index data carries =>
    have held := (located.agrees (.worker index) data.id).mp ⟨data,carries,rfl⟩
    obtain ⟨next,gone⟩ := lost held rfl (given_up located carries c.table)
    exact ⟨⟨_,⟨consistent_given_up consistent index,next⟩⟩,_,gone⟩

/-- A lost task is not found again when another is let go of. -/
theorem lost_loses {id : String} (lost : Lost c id) {after : Holdings} (loses : Loses c after) : Lost after id := by
  obtain ⟨row,absent⟩ := lost
  cases loses with
  | scheduler data handing =>
    refine ⟨row,?_⟩
    rintro (_ | key | index) holds
    · obtain ⟨_,contrary,_⟩ := holds
      cases contrary
    · exact absent (.queue key) holds
    · exact absent (.worker index) holds
  | worker index data carries =>
    refine ⟨row,?_⟩
    rintro (_ | key | other) holds
    · exact absent .scheduler holds
    · exact absent (.queue key) holds
    · obtain ⟨entry,carried,equal⟩ := holds
      by_cases same : other = index
      · subst same
        simp only [Function.update_self] at carried
        cases carried
      · simp only [Function.update_of_ne same] at carried
        exact absent (.worker other) ⟨entry,carried,equal⟩

end

end Hookclose.Custody
