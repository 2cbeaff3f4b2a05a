import Hookclose.Amortized
import Hookclose.TaskLifecycle

/-!
The dispatch loop comes to rest. Each place of a task says how many awaits it may still
take: every await moves a task to a place that owes less, and a retry uses up one of the
attempts that are left. So the awaits of any run are bounded by what its tasks brought in,
whatever the workers raise and however the processes interleave; and where nothing was lost,
a system in which every process waits has ended every task and told of it.
-/
namespace Hookclose.TaskProgress
open Hookclose.TaskRepository Hookclose.TaskRepository.TaskTable Hookclose.Dispatch Hookclose.Custody Hookclose.TaskLoss
open Hookclose.LiveCopies Hookclose.TaskStages Hookclose.TaskLifecycle Hookclose.Runs Hookclose.Amortized
open Hookclose.RetryBudget (executions Waiting Tried nextTask_free Succeeds)

/-- The process finds nothing to do, or does nothing: a poll without pending tasks, a pop
    from an empty queue or one that raises. -/
def waits (taskQueue : Nat → String) (s : DispatchState) : Label → Bool
  | .create _ => true
  | .scheduler _ =>
    match s.scheduler with
    | .polling => (s.table.getPending 10).isEmpty
    | _ => false
  | .worker index raises =>
    match s.workers index with
    | .popping => raises || (s.queues (taskQueue index)).isEmpty
    | _ => false

/-- An await that is not waiting. -/
def busy (taskQueue : Nat → String) (s : DispatchState) (label : Label) : Nat := if waits taskQueue s label then 0 else 1

/-- The awaits that a new task may take. -/
def brings : Label → Nat
  | .create task => 10 + 6 * (task.maxAttempts - 1).toNat
  | _ => 0

/-! ### What is owed -/

/-- The attempts that a row has left. -/
def left (row : Task) : Nat := (row.maxAttempts - row.attempts).toNat

/-- The awaits that a worker owes the task that it is at, up to the next pop of it. -/
def duty (attempts : Nat) : WorkerAt → Nat
  | .popping => 0
  | .marking _ => 5 + 6 * attempts
  | .executing _ => 4 + 6 * attempts
  | .reading _ _ => 3 + 6 * attempts
  | .retrying _ _ _ => 2 + 6 * attempts
  | .requeueing _ => 7 + 6 * attempts
  | .failing _ _ _ => 2
  | .completing _ _ => 2
  | .announcing _ => 1

/-- The awaits that the scheduler owes besides. -/
def pass : SchedulerAt → Nat
  | .polling => 1
  | .marking _ _ => 0
  | .pushing _ _ => 3
  | .publishing _ _ => 2

/-- What a task is owed, by the place that it is in. -/
inductive Due (s : DispatchState) (id : String) (row : Task) : Nat → Prop
  | pending (unmarked : row.status = .pending) : Due s id row (10 + 6 * (row.maxAttempts - 1).toNat)
  | queued (key : String) (data : TaskData) (member : data ∈ s.queues key) (same : data.id = id) :
      Due s id row (6 + 6 * left row)
  | handed (data : TaskData) (handing : s.scheduler.handing = some data) (same : data.id = id) :
      Due s id row (6 + 6 * left row)
  | worked (index : Nat) (at_ : subject (s.workers index) = some id) : Due s id row (duty (left row) (s.workers index))

/-- The costs cover what every task is owed. -/
def Covers (s : DispatchState) (costs : String → Nat) : Prop :=
  ∀ id row, s.table.row id = some row → ∀ amount, Due s id row amount → amount ≤ costs id

/-- The awaits that are left, at most. -/
def Owes (s : DispatchState) (savings : Nat) : Prop :=
  ∃ costs, Covers s costs ∧ pass s.scheduler + bill costs s.table.ids ≤ savings

theorem duty_pos {place : WorkerAt} {id : String} (at_ : subject place = some id) (attempts : Nat) :
    1 ≤ duty attempts place := by
  cases place with
  | popping => cases at_
  | announcing publication => exact Nat.le_refl 1
  | _ => simp only [duty]; omega

section
variable {s t : DispatchState} {costs : String → Nat}

/-- What is due to a task stays where it enters no place anew. -/
theorem Due.stays {id : String} {row : Task} {amount : Nat} (due : Due t id row amount)
    (queues : ∀ key, ∀ data ∈ t.queues key, data.id = id → data ∈ s.queues key)
    (handing : ∀ data, t.scheduler.handing = some data → data.id = id → s.scheduler.handing = some data)
    (workers : ∀ index, subject (t.workers index) = some id → t.workers index = s.workers index) : Due s id row amount := by
  cases due with
  | pending unmarked => exact .pending unmarked
  | queued key data member same => exact .queued key data (queues key data member same) same
  | handed data handed same => exact .handed data (handing data handed same) same
  | worked index at_ =>
    have unchanged := workers index at_
    rw [unchanged] at at_ ⊢
    exact .worked index at_

/-- One task is owed less than before, and no other is owed more. -/
theorem Covers.moved (covers : Covers s costs) {id : String} {row after : Task} {old fall : Nat}
    (found : s.table.row id = some row) (due : Due s id row old) (enough : fall ≤ old)
    (written : t.table.row id = some after) (ids : t.table.ids = s.table.ids)
    (rows : ∀ other, other ≠ id → t.table.row other = s.table.row other)
    (others : ∀ other, other ≠ id → ∀ row amount, Due t other row amount → Due s other row amount)
    (own : ∀ amount, Due t id after amount → amount + fall ≤ old) :
    ∃ later, Covers t later ∧ bill later t.table.ids + fall ≤ bill costs s.table.ids := by
  have covered := covers id row found old due
  have listed : id ∈ s.table.ids := (s.table.listed id).mpr (by rw [found]; rfl)
  refine ⟨Function.update costs id (costs id - fall),?_,?_⟩
  · intro other otherRow foundOther amount owed
    by_cases same : other = id
    · subst same
      cases written.symm.trans foundOther
      have less := own amount owed
      rw [Function.update_self]
      omega
    · rw [Function.update_of_ne same]
      rw [rows other same] at foundOther
      exact covers other otherRow foundOther amount (others other same otherRow amount owed)
  · have replaced := @bill_update _ costs s.table.ids _ s.table.distinct id listed (costs id - fall)
    rw [ids]
    omega

/-- Where nothing is due anew, the costs cover the same. -/
theorem Covers.stays (covers : Covers s costs) (rows : t.table = s.table)
    (less : ∀ id row amount, Due t id row amount → Due s id row amount) : Covers t costs := by
  intro id row found amount due
  rw [rows] at found
  exact covers id row found amount (less id row amount due)

end

section
variable {taskQueue : Nat → String} {s : DispatchState} {holder : String → Option Place} {costs : String → Nat}

/-! ### Awaits of a worker -/

/-- The row of the task that a worker is at has been marked. -/
theorem subject_row (accounted : Accounted taskQueue (view s) holder) (announces : Announces s) (alive : Alive s)
    {index : Nat} {id : String} (at_ : subject (s.workers index) = some id) :
    ∃ row, s.table.row id = some row ∧ row.status ≠ .pending ∧
      AtStage row (executions id s) (outcomes id s) (s.workers index) := by
  rcases subject_cases at_ with ⟨data,carried,rfl⟩ | announcing
  · obtain ⟨row,found,live,_,stage⟩ := carried_living accounted alive carried
    exact ⟨row,found,live_not_pending live,stage⟩
  · obtain ⟨row,found,settled⟩ := announces.settled index id announcing
    refine ⟨row,found,?_,(alive.living id row found).stationed.worked index at_⟩
    intro pending
    rw [pending] at settled
    rcases settled with contrary | contrary <;> cases contrary

/-- A worker moves on with its task, or lets go of it. -/
theorem worker_moves (accounted : Accounted taskQueue (view s) holder) (announces : Announces s) (covers : Covers s costs)
    {index : Nat} {id : String} (at_ : subject (s.workers index) = some id) (next : WorkerAt) {table : TaskTable}
    (executed : List String) (published : List Publication) (nexts : ∀ other, subject next = some other → other = id)
    (ids : table.ids = s.table.ids) (rows : ∀ other, other ≠ id → table.row other = s.table.row other)
    {row after : Task} (found : s.table.row id = some row) (written : table.row id = some after)
    (marked : after.status ≠ .pending)
    (less : subject next = some id → duty (left after) next + 1 ≤ duty (left row) (s.workers index)) :
    ∃ later, Covers (moveTo index next { s with table := table, executed := executed, published := published }) later ∧
      bill later table.ids + 1 ≤ bill costs s.table.ids := by
  obtain ⟨queues,handing,workers⟩ := subject_alone accounted announces at_
  refine covers.moved found (.worked index at_) (duty_pos at_ _) written ids rows ?_ ?_
  · intro other differs otherRow amount due
    refine due.stays (fun _ _ member _ => member) (fun _ handed _ => handed) ?_
    intro another after
    rcases subject_moveTo after with ⟨_,moved⟩ | ⟨elsewhere,_⟩
    · exact absurd (nexts other moved) differs
    · rw [moveTo_other elsewhere]
  · intro amount due
    cases due with
    | pending unmarked => exact absurd unmarked marked
    | queued key data member same => exact absurd same (queues key data member)
    | handed data handed same => exact absurd same (handing data handed)
    | worked another after =>
      rcases subject_moveTo after with ⟨rfl,moved⟩ | ⟨elsewhere,before⟩
      · rw [moveTo_self]
        exact less moved
      · exact absurd (workers another before) elsewhere

/-- A worker writes the row of its task. -/
theorem worker_writes (accounted : Accounted taskQueue (view s) holder) (announces : Announces s) (alive : Alive s)
    (covers : Covers s costs) {index : Nat} {data : TaskData} (carried : (s.workers index).carried = some data)
    (next : WorkerAt) {status : TaskStatus} (result : Option Dict) (error : Option String) (attempts : Option Int)
    (nexts : ∀ other, subject next = some other → other = data.id) (marked : status ≠ .pending)
    (less : ∀ row, AtStage row (executions data.id s) (outcomes data.id s) (s.workers index) →
      duty (row.maxAttempts - attempts.getD row.attempts).toNat next + 1 ≤ duty (left row) (s.workers index)) :
    ∃ later, Covers (moveTo index next { s with table := s.table.updateStatus data.id status result error attempts }) later ∧
      bill later s.table.ids + 1 ≤ bill costs s.table.ids := by
  obtain ⟨row,found,_,stage⟩ := subject_row accounted announces alive (subject_of_carried carried)
  refine worker_moves accounted announces covers (subject_of_carried carried) next s.executed s.published nexts rfl ?_ found
    (updateStatus_self found status result error attempts) marked (fun _ => less row stage)
  intro other differs
  exact updateStatus_other differs status result error attempts s.table

/-- A worker that raises owes its task nothing any more. -/
theorem worker_hushes (accounted : Accounted taskQueue (view s) holder) (announces : Announces s) (alive : Alive s)
    (covers : Covers s costs) {index : Nat} {id : String} (at_ : subject (s.workers index) = some id)
    (executed : List String) (published : List Publication) :
    ∃ later, Covers (moveTo index .popping { s with executed := executed, published := published }) later ∧
      bill later s.table.ids + 1 ≤ bill costs s.table.ids := by
  obtain ⟨row,found,marked,_⟩ := subject_row accounted announces alive at_
  refine worker_moves accounted announces covers at_ .popping executed published ?_ rfl (fun _ _ => rfl) found found marked ?_
  · intro other nothing
    cases nothing
  · intro nothing
    cases nothing

/-- A worker pops a task. -/
theorem pop_moves (accounted : Accounted taskQueue (view s) holder) (announces : Announces s) (covers : Covers s costs)
    {index : Nat} {data : TaskData} {rest : List TaskData} (queue : s.queues (taskQueue index) = data :: rest) :
    ∃ later, Covers (moveTo index (.marking data) { s with
        queues := Function.update s.queues (taskQueue index) rest }) later ∧
      bill later s.table.ids + 1 ≤ bill costs s.table.ids := by
  have first : data ∈ s.queues (taskQueue index) := by
    rw [queue]
    exact List.mem_cons_self
  have held : holder data.id = some (.queue (taskQueue index)) :=
    (accounted.located.agrees (.queue _) data.id).mp ⟨data,first,rfl⟩
  obtain ⟨row,found,live⟩ := accounted.located.live data.id _ held
  have elsewhere : ∀ place, place ≠ .queue (taskQueue index) → ¬ Holds (view s) place data.id :=
    fun _ => accounted.located.absent held
  have shorter : ∀ key, ∀ entry ∈ Function.update s.queues (taskQueue index) rest key, entry ∈ s.queues key := by
    intro key entry member
    by_cases same : key = taskQueue index
    · subst same
      rw [Function.update_self] at member
      rw [queue]
      exact List.mem_cons_of_mem _ member
    · rwa [Function.update_of_ne same] at member
  refine covers.moved found (.queued _ data first rfl) (by omega : 1 ≤ 6 + 6 * left row) found rfl (fun _ _ => rfl) ?_ ?_
  · intro other differs otherRow amount due
    refine due.stays (fun key entry member _ => shorter key entry member) (fun _ handed _ => handed) ?_
    intro another after
    rcases subject_moveTo after with ⟨_,popped⟩ | ⟨apart,_⟩
    · cases popped
      exact absurd rfl differs
    · rw [moveTo_other apart]
  · intro amount due
    cases due with
    | pending unmarked => exact absurd unmarked (live_not_pending live)
    | queued key entry member same =>
      by_cases here : key = taskQueue index
      · -- the queue has one entry for the task
        subst here
        have single := accounted.consistent.single (taskQueue index)
        simp only [view,queue,List.map_cons,List.nodup_cons] at single
        simp only [moveTo_queues,Function.update_self] at member
        exact absurd (same ▸ List.mem_map_of_mem member) single.1
      · exact absurd ⟨entry,shorter key entry member,same⟩ (elsewhere (.queue key) (by simpa using here))
    | handed entry handed same => exact absurd ⟨entry,handed,same⟩ (elsewhere .scheduler (by simp))
    | worked another after =>
      rcases subject_moveTo after with ⟨rfl,_⟩ | ⟨_,before⟩
      · rw [moveTo_self]
        simp only [duty]
        omega
      · rcases subject_cases before with ⟨entry,carried,same⟩ | announcing
        · exact absurd ⟨entry,carried,same⟩ (elsewhere (.worker another) (by simp))
        · obtain ⟨other,same,settled⟩ := announces.settled another _ announcing
          cases same.symm.trans found
          have unsettled := live_not_settled live
          rcases settled with completed | failed
          · exact absurd completed unsettled.1
          · exact absurd failed unsettled.2

/-- A worker puts its task back. -/
theorem requeue_moves (accounted : Accounted taskQueue (view s) holder) (announces : Announces s) (alive : Alive s)
    (covers : Covers s costs) {index : Nat} {key : String} {data : TaskData} (place : s.workers index = .requeueing data) :
    ∃ later, Covers (moveTo index .popping { s with queues := push key data s.queues }) later ∧
      bill later s.table.ids + 1 ≤ bill costs s.table.ids := by
  have at_ : subject (s.workers index) = some data.id := by rw [place]; rfl
  obtain ⟨row,found,marked,_⟩ := subject_row accounted announces alive at_
  obtain ⟨_,handing,workers⟩ := subject_alone accounted announces at_
  have old : duty (left row) (s.workers index) = 7 + 6 * left row := by rw [place]; rfl
  refine covers.moved found (.worked index at_) (duty_pos at_ _) found rfl (fun _ _ => rfl) ?_ ?_
  · intro other differs otherRow amount due
    refine due.stays ?_ (fun _ handed _ => handed) ?_
    · intro another entry member same
      rcases mem_push.mp member with ⟨_,rfl⟩ | before
      · exact absurd same.symm differs
      · exact before
    · intro another after
      rcases subject_moveTo after with ⟨_,nothing⟩ | ⟨apart,_⟩
      · cases nothing
      · rw [moveTo_other apart]
  · intro amount due
    rw [old]
    cases due with
    | pending unmarked => exact absurd unmarked marked
    | queued another entry member same => omega
    | handed entry handed same => exact absurd same (handing entry handed)
    | worked another after =>
      rcases subject_moveTo after with ⟨_,nothing⟩ | ⟨apart,before⟩
      · cases nothing
      · exact absurd (workers another before) apart

/-- After `execute_task` a worker owes its task one await less, at least. -/
theorem duty_afterExecution (data : TaskData) (outcome : Option (Option Dict × Option String)) (attempts : Nat) :
    duty attempts (afterExecution data outcome) ≤ 3 + 6 * attempts := by
  unfold afterExecution
  split
  · exact Nat.zero_le _
  · split
    · simp only [duty]
      omega
    · split_ifs <;> simp only [duty] <;> omega

theorem afterExecution_subject {data : TaskData} {outcome : Option (Option Dict × Option String)} {id : String}
    (at_ : subject (afterExecution data outcome) = some id) : id = data.id := by
  cases outcome with
  | none => cases at_
  | some result =>
    rw [subject_of_carried (afterExecution_carried (Option.some_ne_none result))] at at_
    exact (Option.some.inj at_).symm

theorem begin_moves (accounted : Accounted taskQueue (view s) holder) (announces : Announces s) (alive : Alive s)
    (covers : Covers s costs) {index : Nat} {data : TaskData} (place : s.workers index = .marking data) :
    ∃ later, Covers (moveTo index (.executing data) { s with
        table := s.table.updateStatus data.id .running none none none }) later ∧
      bill later s.table.ids + 1 ≤ bill costs s.table.ids := by
  refine worker_writes accounted announces alive covers (by rw [place]; rfl) (.executing data) none none none ?_
    (by simp) ?_
  · rintro other ⟨⟩
    rfl
  · intro row _
    rw [place]
    simp only [duty,Option.getD_none,left]
    omega

theorem execute_moves (accounted : Accounted taskQueue (view s) holder) (announces : Announces s) (alive : Alive s)
    (covers : Covers s costs) {index : Nat} {data : TaskData} (place : s.workers index = .executing data)
    (outcome : Option (Option Dict × Option String)) :
    ∃ later, Covers (moveTo index (afterExecution data outcome) { s with executed := s.executed ++ [data.id] }) later ∧
      bill later s.table.ids + 1 ≤ bill costs s.table.ids := by
  have at_ : subject (s.workers index) = some data.id := by rw [place]; rfl
  obtain ⟨row,found,marked,_⟩ := subject_row accounted announces alive at_
  refine worker_moves accounted announces covers at_ _ (s.executed ++ [data.id]) s.published
    (fun _ moved => afterExecution_subject moved) rfl (fun _ _ => rfl) found found marked ?_
  intro _
  rw [place]
  have less := duty_afterExecution data outcome (left row)
  have own : duty (left row) (.executing data) = 4 + 6 * left row := rfl
  omega

theorem read_moves (accounted : Accounted taskQueue (view s) holder) (announces : Announces s) (alive : Alive s)
    (covers : Covers s costs) {index : Nat} {data : TaskData} {error : String} (place : s.workers index = .reading data error) :
    ∃ later, Covers (moveTo index (afterReading data error (s.table.get data.id)) s) later ∧
      bill later s.table.ids + 1 ≤ bill costs s.table.ids := by
  have at_ : subject (s.workers index) = some data.id := by rw [place]; rfl
  obtain ⟨row,found,marked,_⟩ := subject_row accounted announces alive at_
  refine worker_moves accounted announces covers at_ _ s.executed s.published ?_ rfl (fun _ _ => rfl) found found marked ?_
  · intro other moved
    rw [subject_of_carried (afterReading_carried ..)] at moved
    exact (Option.some.inj moved).symm
  · intro _
    rw [place]
    unfold afterReading
    split
    · split_ifs <;> simp only [duty] <;> omega
    · simp only [duty]
      omega

/-- A retry uses up an attempt. -/
theorem retry_moves (accounted : Accounted taskQueue (view s) holder) (announces : Announces s) (alive : Alive s)
    (covers : Covers s costs) {index : Nat} {data : TaskData} {error : String} {attempts : Int}
    (place : s.workers index = .retrying data error attempts) :
    ∃ later, Covers (moveTo index (.requeueing data) { s with
        table := s.table.updateStatus data.id .retrying none (some error) (some attempts) }) later ∧
      bill later s.table.ids + 1 ≤ bill costs s.table.ids := by
  refine worker_writes accounted announces alive covers (by rw [place]; rfl) (.requeueing data) none (some error)
    (some attempts) ?_ (by simp) ?_
  · rintro other ⟨⟩
    rfl
  · intro row stage
    rw [place] at stage ⊢
    obtain ⟨⟨_,counted,_⟩,again,below⟩ := stage
    simp only [duty,Option.getD_some,left]
    omega

/-- A worker settles its task, and announces what has become of it. -/
theorem settle_moves (accounted : Accounted taskQueue (view s) holder) (announces : Announces s) (alive : Alive s)
    (covers : Covers s costs) {index : Nat} {data : TaskData} (carried : (s.workers index).carried = some data)
    (last : ∀ attempts, duty attempts (s.workers index) = 2) {publication : Publication}
    (own : Publication.taskId publication = data.id) {status : TaskStatus} (marked : status ≠ .pending)
    (result : Option Dict) (error : Option String) (attempts : Option Int) :
    ∃ later, Covers (moveTo index (.announcing publication) { s with
        table := s.table.updateStatus data.id status result error attempts }) later ∧
      bill later s.table.ids + 1 ≤ bill costs s.table.ids := by
  refine worker_writes accounted announces alive covers carried _ result error attempts ?_ marked ?_
  · rintro other ⟨⟩
    exact own
  · intro row _
    rw [last]
    exact Nat.le_refl 2

/-- Every await of a worker that is not waiting takes one off the bill. -/
theorem workerStep_moves (accounted : Accounted taskQueue (view s) holder) (announces : Announces s) (alive : Alive s)
    (covers : Covers s costs) {index : Nat} {raises : Bool} (acts : waits taskQueue s (.worker index raises) = false) :
    ∃ later, Covers (workerStep (taskQueue index) index raises s) later ∧
      bill later (workerStep (taskQueue index) index raises s).table.ids + 1 ≤ bill costs s.table.ids := by
  have raised : (s.workers index).carried.isSome = true →
      ∃ later, Covers (moveTo index .popping s) later ∧ bill later s.table.ids + 1 ≤ bill costs s.table.ids := by
    intro carries
    obtain ⟨data,carried⟩ := Option.isSome_iff_exists.mp carries
    exact worker_hushes accounted announces alive covers (subject_of_carried carried) s.executed s.published
  unfold workerStep
  cases place : s.workers index with
  | popping =>
    simp only [waits,place,Bool.or_eq_false_iff] at acts
    cases queue : s.queues (taskQueue index) with
    | nil =>
      rw [queue] at acts
      exact absurd acts.2 (by simp)
    | cons data rest =>
      rw [acts.1]
      exact pop_moves accounted announces covers queue
  | marking data =>
    rw [place] at raised
    cases raises with
    | true => exact raised rfl
    | false => exact begin_moves accounted announces alive covers place
  | executing data => exact execute_moves accounted announces alive covers place _
  | reading data error =>
    rw [place] at raised
    cases raises with
    | true => exact raised rfl
    | false => exact read_moves accounted announces alive covers place
  | retrying data error attempts =>
    rw [place] at raised
    cases raises with
    | true => exact raised rfl
    | false => exact retry_moves accounted announces alive covers place
  | requeueing data =>
    rw [place] at raised
    cases raises with
    | true => exact raised rfl
    | false => exact requeue_moves accounted announces alive covers place
  | failing data error attempts =>
    rw [place] at raised
    cases raises with
    | true => exact raised rfl
    | false =>
      exact settle_moves accounted announces alive covers (by rw [place]; rfl) (fun _ => by rw [place]; rfl) rfl (by simp)
        none (some error) (some attempts)
  | completing data result =>
    rw [place] at raised
    cases raises with
    | true => exact raised rfl
    | false =>
      exact settle_moves accounted announces alive covers (by rw [place]; rfl) (fun _ => by rw [place]; rfl) rfl (by simp)
        result none (some 0)
  | announcing publication =>
    have at_ : subject (s.workers index) = some (Publication.taskId publication) := by rw [place]; rfl
    cases raises with
    | true => exact worker_hushes accounted announces alive covers at_ s.executed s.published
    | false => exact worker_hushes accounted announces alive covers at_ s.executed (s.published ++ [publication])

/-- A worker that waits leaves everything as it is. -/
theorem workerStep_waits {index : Nat} {raises : Bool} (waiting : waits taskQueue s (.worker index raises) = true) :
    workerStep (taskQueue index) index raises s = s := by
  cases place : s.workers index with
  | popping =>
    simp only [waits,place,Bool.or_eq_true] at waiting
    simp only [workerStep,place]
    cases queue : s.queues (taskQueue index) with
    | nil => rfl
    | cons data rest =>
      rw [queue] at waiting
      simp only [waiting.resolve_right (by simp),if_true]
  | _ => simp [waits,place] at waiting

/-! ### Awaits of the scheduler, and new tasks -/

/-- The scheduler marks a pending task. -/
theorem mark_moves (accounted : Accounted taskQueue (view s) holder) (announces : Announces s) (covers : Covers s costs)
    {task : Task} {rest : List Task} (place : s.scheduler = .marking task rest) :
    ∃ later, Covers { s with
        table := s.table.updateStatus task.id .scheduled none none (some 1)
        scheduler := .pushing task rest } later ∧ bill later s.table.ids + 4 ≤ bill costs s.table.ids := by
  obtain ⟨row,found,pending,nowhere,idle⟩ := upcoming_alone accounted announces place
  have free : s.scheduler.handing = none := by rw [place]; rfl
  refine covers.moved found (.pending pending) (by omega) (updateStatus_self found .scheduled none none (some 1)) rfl ?_ ?_ ?_
  · intro other differs
    exact updateStatus_other differs _ _ _ _ s.table
  · intro other differs otherRow amount due
    refine due.stays (fun _ _ member _ => member) ?_ (fun _ _ => rfl)
    intro data handed same
    cases handed
    exact absurd same.symm differs
  · intro amount due
    cases due with
    | pending unmarked => cases unmarked
    | queued key data member same => exact absurd ⟨data,member,same⟩ (nowhere (.queue key))
    | handed data handed same =>
      simp only [left,Option.getD_some]
      omega
    | worked index at_ => exact absurd at_ (idle index)

/-- A pass of the scheduler that goes on to the next task, or ends. -/
theorem pass_covers (covers : Covers s costs) {next : SchedulerAt} (free : next.handing = none)
    (published : List Publication) : Covers { s with scheduler := next, published := published } costs := by
  refine covers.stays rfl ?_
  intro id row amount due
  refine due.stays (fun _ _ member _ => member) ?_ (fun _ _ => rfl)
  intro data handed
  cases free.symm.trans handed

theorem pass_nextTask (tasks : List Task) : pass (nextTask tasks) ≤ 1 := by
  cases tasks with
  | nil => exact Nat.le_refl 1
  | cons task rest => exact Nat.zero_le 1

/-- Every await of the scheduler that succeeds and is not waiting takes one off what is owed. -/
theorem schedulerStep_moves (accounted : Accounted taskQueue (view s) holder) (announces : Announces s)
    (covers : Covers s costs) (acts : waits taskQueue s (.scheduler false) = false) :
    ∃ later, Covers (schedulerStep false s) later ∧
      pass (schedulerStep false s).scheduler + bill later (schedulerStep false s).table.ids + 1 ≤
        pass s.scheduler + bill costs s.table.ids := by
  cases place : s.scheduler with
  | polling =>
    simp only [schedulerStep,place,Bool.false_eq_true,if_false]
    refine ⟨costs,pass_covers covers (nextTask_free _) s.published,?_⟩
    simp only [waits,place] at acts
    cases pending : s.table.getPending 10 with
    | nil =>
      rw [pending] at acts
      exact absurd acts (by simp)
    | cons task rest =>
      simp only [nextTask,pass]
      omega
  | marking task rest =>
    obtain ⟨later,covered,less⟩ := mark_moves accounted announces covers place
    simp only [schedulerStep,place,Bool.false_eq_true,if_false]
    refine ⟨later,covered,?_⟩
    have ids : (s.table.updateStatus task.id .scheduled none none (some 1)).ids = s.table.ids := rfl
    rw [ids]
    simp only [pass]
    omega
  | pushing task rest =>
    simp only [schedulerStep,place,Bool.false_eq_true,if_false]
    refine ⟨costs,covers.stays rfl ?_,?_⟩
    · intro id row amount due
      cases due with
      | pending unmarked => exact .pending unmarked
      | queued key data member same =>
        rcases mem_push.mp member with ⟨_,rfl⟩ | old
        · exact .handed _ (by rw [place]; rfl) same
        · exact .queued key data old same
      | handed data handed same => cases handed
      | worked index at_ => exact .worked index at_
    · simp only [pass]
      omega
  | publishing task rest =>
    simp only [schedulerStep,place,Bool.false_eq_true,if_false]
    refine ⟨costs,pass_covers covers (nextTask_free _) _,?_⟩
    have next := pass_nextTask rest
    have own : pass (.publishing task rest) = 2 := rfl
    omega

/-- A new task brings in what it is owed. -/
theorem create_covers (accounted : Accounted taskQueue (view s) holder) (announces : Announces s) (covers : Covers s costs)
    (task : Task) :
    ∃ later, Covers { s with table := s.table.create { task with status := .pending } } later ∧
      bill later (s.table.create { task with status := .pending }).ids ≤ bill costs s.table.ids + brings (.create task) := by
  by_cases absent : s.table.row task.id = none
  · have new : task.id ∉ s.table.ids := by
      rw [s.table.listed,absent]
      simp
    refine ⟨Function.update costs task.id (brings (.create task)),?_,?_⟩
    · intro id row found amount due
      rcases create_row found with old | ⟨rfl,_,rfl⟩
      · have differs : id ≠ task.id := by
          rintro rfl
          cases absent.symm.trans old
        rw [Function.update_of_ne differs]
        exact covers id row old amount
          (due.stays (fun _ _ member _ => member) (fun _ handed _ => handed) (fun _ _ => rfl))
      · rw [Function.update_self]
        have nowhere : ∀ place, ¬ Holds (view s) place task.id := by
          intro place holds
          obtain ⟨other,listed,_⟩ := accounted.located.live _ place ((accounted.located.agrees place _).mp holds)
          cases (show s.table.row task.id = some other from listed).symm.trans absent
        cases due with
        | pending unmarked => exact Nat.le_refl _
        | queued key data member same => exact absurd ⟨data,member,same⟩ (nowhere (.queue key))
        | handed data handed same => exact absurd ⟨data,handed,same⟩ (nowhere .scheduler)
        | worked index at_ =>
          rcases subject_cases at_ with ⟨data,carries,same⟩ | announcing
          · exact absurd ⟨data,carries,same⟩ (nowhere (.worker index))
          · obtain ⟨other,listed,_⟩ := announces.settled index _ announcing
            cases listed.symm.trans absent
    · have ids : (s.table.create { task with status := .pending }).ids = s.table.ids ++ [task.id] := by
        simp [TaskTable.create,absent]
      rw [ids,bill_concat,Function.update_self]
      have kept : bill (Function.update costs task.id (brings (.create task))) s.table.ids = bill costs s.table.ids := by
        refine bill_congr ?_
        intro id member
        refine Function.update_of_ne ?_ _ _
        rintro rfl
        exact new member
      omega
  · have same : s.table.create { task with status := .pending } = s.table := by
      simp [TaskTable.create,absent]
    rw [same]
    exact ⟨costs,covers,Nat.le_add_right _ _⟩

/-- A scheduler that waits leaves everything as it is. -/
theorem schedulerStep_waits (waiting : waits taskQueue s (.scheduler false) = true) : schedulerStep false s = s := by
  obtain ⟨table,queues,scheduler,workers,executed,published⟩ := s
  cases scheduler with
  | polling =>
    have none : table.getPending 10 = [] := by simpa [waits] using waiting
    simp [schedulerStep,none,nextTask]
  | _ => simp [waits] at waiting

theorem workerStep_scheduler (key : String) (worker : Nat) (raises : Bool) (s : DispatchState) :
    (workerStep key worker raises s).scheduler = s.scheduler := by
  unfold workerStep
  cases s.workers worker with
  | popping => cases s.queues key <;> cases raises <;> rfl
  | _ => cases raises <;> rfl

/-! ### Runs -/

/-- The await is not one of the scheduler that raises. -/
def Steady : Label → Prop
  | .scheduler raises => raises = false
  | _ => True

theorem step_pays {savings : Nat} {label : Label} (sound : Sound taskQueue s) (owes : Owes s savings) (steady : Steady label) :
    ∃ rest, Owes (step taskQueue s label) rest ∧ busy taskQueue s label + rest ≤ brings label + savings := by
  obtain ⟨⟨_,accounted⟩,announces,alive⟩ := sound
  obtain ⟨costs,covers,enough⟩ := owes
  cases label with
  | create task =>
    obtain ⟨later,covered,more⟩ := create_covers accounted announces covers task
    refine ⟨_,⟨later,covered,Nat.le_refl _⟩,?_⟩
    simp only [busy,waits,if_true,step]
    omega
  | scheduler raises =>
    obtain rfl : raises = false := steady
    cases acts : waits taskQueue s (.scheduler false) with
    | true =>
      have same : step taskQueue s (.scheduler false) = s := schedulerStep_waits acts
      rw [same]
      refine ⟨savings,⟨costs,covers,enough⟩,?_⟩
      simp [busy,acts]
    | false =>
      obtain ⟨later,covered,less⟩ := schedulerStep_moves accounted announces covers acts
      refine ⟨_,⟨later,covered,Nat.le_refl _⟩,?_⟩
      simp only [busy,acts,Bool.false_eq_true,if_false,step]
      omega
  | worker index raises =>
    cases acts : waits taskQueue s (.worker index raises) with
    | true =>
      have same : step taskQueue s (.worker index raises) = s := workerStep_waits acts
      rw [same]
      refine ⟨savings,⟨costs,covers,enough⟩,?_⟩
      simp [busy,acts]
    | false =>
      obtain ⟨later,covered,less⟩ := workerStep_moves accounted announces alive covers acts
      have scheduler := workerStep_scheduler (taskQueue index) index raises s
      refine ⟨_,⟨later,covered,Nat.le_refl _⟩,?_⟩
      simp only [busy,acts,Bool.false_eq_true,if_false,step,scheduler]
      omega

end

/-- In every run in which the awaits of the scheduler succeed, whatever the workers raise and
    however the processes interleave, the awaits that are not waiting are bounded: for each
    task there are ten, and six for each further attempt. -/
theorem awaits_bounded (taskQueue : Nat → String) (labels : List Label) (steady : ∀ label ∈ labels, Steady label) :
    total (step taskQueue) (busy taskQueue) idle labels ≤ 1 + (labels.map brings).sum := by
  have owes : Owes idle 1 := by
    refine ⟨fun _ => 0,?_,Nat.le_refl 1⟩
    intro id row found
    cases found
  have pays : ∀ s label savings, (Sound taskQueue s ∧ Owes s savings) → Steady label →
      ∃ rest, (Sound taskQueue (step taskQueue s label) ∧ Owes (step taskQueue s label) rest) ∧
        busy taskQueue s label + rest ≤ brings label + savings := by
    rintro s label savings ⟨sound,owes⟩ steady
    obtain ⟨rest,later,paid⟩ := step_pays sound owes steady
    exact ⟨rest,⟨step_sound sound label,later⟩,paid⟩
  obtain ⟨rest,_,paid⟩ := total_paid pays labels ⟨idle_sound taskQueue,owes⟩ (each_of_forall steady)
  omega

/-! ### Rest -/

/-- Every process waits. -/
def Resting (taskQueue : Nat → String) (s : DispatchState) : Prop :=
  waits taskQueue s (.scheduler false) = true ∧ ∀ index, waits taskQueue s (.worker index false) = true

/-- Of every task that has ended the outcome has been published, or a worker is about to. -/
def Telling (s : DispatchState) : Prop :=
  ∀ id row, s.table.row id = some row → Settled row.status →
    outcomes id s ≠ [] ∨ ∃ index, announced (s.workers index) = some id

/-- Nothing raises: neither an await nor an execution. -/
def Faultless (s : DispatchState) (label : Label) : Prop := Succeeds label ∧ Safe s label

section
variable {taskQueue : Nat → String} {s : DispatchState}

/-- A worker's await keeps the outcomes told: what ends is announced, what was announced is
    published. -/
theorem Telling.worker (telling : Telling s) {index : Nat} {next : WorkerAt} {table : TaskTable}
    {queues : String → List TaskData} {executed : List String} {published : List Publication}
    (ends : ∀ id row, table.row id = some row → Settled row.status →
      (∃ before, s.table.row id = some before ∧ Settled before.status) ∨ announced next = some id)
    (kept : s.published <+: published)
    (told : ∀ id, announced (s.workers index) = some id → published.filter (isOutcomeOf id) ≠ []) :
    Telling (moveTo index next { s with
      table := table
      queues := queues
      executed := executed
      published := published }) := by
  intro id row found settled
  rcases ends id row found settled with ⟨before,old,ended⟩ | announcing
  · rcases telling id before old ended with already | ⟨other,announcing⟩
    · left
      obtain ⟨more,rfl⟩ := kept
      show (s.published ++ more).filter (isOutcomeOf id) ≠ []
      rw [List.filter_append]
      exact fun nothing => already (List.append_eq_nil_iff.mp nothing).1
    · by_cases same : other = index
      · subst same
        exact .inl (told id announcing)
      · refine .inr ⟨other,?_⟩
        rw [moveTo_other same]
        exact announcing
  · refine .inr ⟨index,?_⟩
    rw [moveTo_self]
    exact announcing

/-- A row that is given a status settles only with that status. -/
theorem written_settled {table : TaskTable} {id other : String} {status : TaskStatus} {result : Option Dict}
    {error : Option String} {attempts : Option Int} {row : Task}
    (found : (table.updateStatus id status result error attempts).row other = some row) (settled : Settled row.status) :
    (∃ before, table.row other = some before ∧ Settled before.status) ∨ (other = id ∧ Settled status) := by
  by_cases same : other = id
  · subst same
    simp only [TaskTable.updateStatus,Function.update_self,Option.map_eq_some_iff] at found
    obtain ⟨before,_,rfl⟩ := found
    exact .inr ⟨rfl,settled⟩
  · rw [updateStatus_other same] at found
    exact .inl ⟨row,found,settled⟩

theorem workerStep_telling (sound : Sound taskQueue s) (telling : Telling s) (index : Nat) :
    Telling (workerStep (taskQueue index) index false s) := by
  obtain ⟨⟨_,accounted⟩,announces,alive⟩ := sound
  -- an await that writes no row of a task that has ended
  have silent : announced (s.workers index) = none → ∀ (next : WorkerAt) (queues : String → List TaskData) (executed : List String),
      Telling (moveTo index next { s with queues := queues, executed := executed }) := by
    intro nothing next queues executed
    refine telling.worker (fun id row found settled => .inl ⟨row,found,settled⟩) (List.prefix_refl _) ?_
    intro id announcing
    cases nothing.symm.trans announcing
  have writes : announced (s.workers index) = none → ∀ (next : WorkerAt) (id : String) (status : TaskStatus)
      (result : Option Dict) (error : Option String) (attempts : Option Int),
      (Settled status → announced next = some id) →
      Telling (moveTo index next { s with table := s.table.updateStatus id status result error attempts }) := by
    intro nothing next id status result error attempts ends
    refine telling.worker ?_ (List.prefix_refl _) ?_
    · intro other row found settled
      rcases written_settled found settled with old | ⟨rfl,ended⟩
      · exact .inl old
      · exact .inr (ends ended)
    · intro other announcing
      cases nothing.symm.trans announcing
  have unsettled : ∀ {status : TaskStatus}, Live status → ¬ Settled status :=
    fun live => not_or.mpr (live_not_settled live)
  unfold workerStep
  cases place : s.workers index with
  | popping =>
    cases queue : s.queues (taskQueue index) with
    | nil => exact telling
    | cons data rest => exact silent (by rw [place]; rfl) _ _ s.executed
  | marking data =>
    refine writes (by rw [place]; rfl) _ _ .running none none none ?_
    exact fun ended => absurd ended (unsettled (.inr (.inl rfl)))
  | executing data => exact silent (by rw [place]; rfl) _ s.queues _
  | reading data error => exact silent (by rw [place]; rfl) _ s.queues s.executed
  | retrying data error attempts =>
    refine writes (by rw [place]; rfl) _ _ .retrying none _ _ ?_
    exact fun ended => absurd ended (unsettled (.inr (.inr rfl)))
  | requeueing data => exact silent (by rw [place]; rfl) _ _ s.executed
  | failing data error attempts => exact writes (by rw [place]; rfl) _ _ .failed none _ _ (fun _ => rfl)
  | completing data result => exact writes (by rw [place]; rfl) _ _ .completed _ none _ (fun _ => rfl)
  | announcing publication =>
    refine telling.worker (fun id row found settled => .inl ⟨row,found,settled⟩) (List.prefix_append _ _) ?_
    intro id announcing
    have at_ : subject (s.workers index) = some id := subject_of_announced announcing
    obtain ⟨row,found,_,stage⟩ := subject_row accounted announces alive at_
    rw [place] at stage
    have own : isOutcomeOf id publication = true := s.table.named id row found ▸ stage.2.1
    simp [List.filter_append,own]

theorem schedulerStep_telling (telling : Telling s) : Telling (schedulerStep false s) := by
  intro id row found settled
  have workers := schedulerStep_workers false s
  rw [workers]
  have kept : outcomes id s ≠ [] → outcomes id (schedulerStep false s) ≠ [] := by
    intro already
    cases place : s.scheduler with
    | publishing task rest =>
      have same : outcomes id (schedulerStep false s) = outcomes id s := by
        simp [outcomes,schedulerStep,place,List.filter_append,isOutcomeOf]
      rw [same]
      exact already
    | _ =>
      have same : (schedulerStep false s).published = s.published := by simp [schedulerStep,place]
      rw [outcomes,same]
      exact already
  have before : ∃ old, s.table.row id = some old ∧ Settled old.status := by
    cases place : s.scheduler with
    | marking task rest =>
      simp only [schedulerStep,place,Bool.false_eq_true,if_false] at found
      rcases written_settled found settled with old | ⟨_,ended⟩
      · exact old
      · exact absurd ended (not_or.mpr (live_not_settled (.inl rfl)))
    | _ =>
      have same : (schedulerStep false s).table = s.table := by simp [schedulerStep,place]
      rw [same] at found
      exact ⟨row,found,settled⟩
  obtain ⟨old,listed,ended⟩ := before
  exact (telling id old listed ended).imp_left kept

theorem step_telling (sound : Sound taskQueue s) (telling : Telling s) {label : Label} (succeeds : Succeeds label) :
    Telling (step taskQueue s label) := by
  cases label with
  | create task =>
    intro id row found settled
    rcases create_row found with old | ⟨_,_,rfl⟩
    · exact telling id row old settled
    · rcases settled with contrary | contrary <;> cases contrary
  | scheduler raises =>
    obtain rfl : raises = false := succeeds
    exact schedulerStep_telling telling
  | worker index raises =>
    obtain rfl : raises = false := succeeds
    exact workerStep_telling sound telling index

/-- Where every process waits no task is on its way. -/
theorem resting_settled {holder : String → Option Place} (accounted : Accounted taskQueue (view s) holder)
    (kept : Kept (view s) holder) (resting : Resting taskQueue s) {id : String} {row : Task}
    (found : s.table.row id = some row) (served : ∃ index, taskQueue index = queueKey (rowToTask row).provider) :
    Settled row.status := by
  obtain ⟨scheduler,workers⟩ := resting
  have idle : ∀ index, s.workers index = .popping ∧ s.queues (taskQueue index) = [] := by
    intro index
    have waiting := workers index
    cases place : s.workers index with
    | popping =>
      simp only [waits,place] at waiting
      exact ⟨rfl,by simpa using waiting⟩
    | _ => simp [waits,place] at waiting
  have polls : s.scheduler = .polling ∧ s.table.getPending 10 = [] := by
    cases place : s.scheduler with
    | polling =>
      simp only [waits,place] at scheduler
      exact ⟨rfl,by simpa using scheduler⟩
    | _ => simp [waits,place] at scheduler
  rcases kept id row found with settled | pending | placed
  · exact settled
  · -- a poll would find the task, or another one
    have listed : row ∈ (s.table.ids.filterMap s.table.row).filter (fun row => row.status = .pending) := by
      rw [List.mem_filter,List.mem_filterMap]
      exact ⟨⟨id,(s.table.listed id).mpr (by rw [show s.table.row id = some row from found]; rfl),found⟩,by simpa using pending⟩
    have none := polls.2
    unfold TaskTable.getPending at none
    cases pendings : (s.table.ids.filterMap s.table.row).filter (fun row => row.status = .pending) with
    | nil =>
      rw [pendings] at listed
      cases listed
    | cons first rest =>
      rw [pendings] at none
      cases none
  · obtain ⟨place,held⟩ := Option.isSome_iff_exists.mp placed
    have holds := (accounted.located.agrees place id).mpr held
    cases place with
    | scheduler =>
      obtain ⟨data,handing,_⟩ := holds
      simp [view,polls.1,SchedulerAt.handing] at handing
    | queue key =>
      obtain ⟨data,member,rfl⟩ := holds
      obtain ⟨⟨other,listed,same⟩,own⟩ := accounted.consistent.queued key data member
      cases listed.symm.trans found
      obtain ⟨index,serves⟩ := served
      have provider : data.provider = (rowToTask row).provider := by rw [same]; rfl
      have queue : s.queues key = [] := by
        rw [own,provider,← serves]
        exact (idle index).2
      rw [show (view s).queues key = s.queues key from rfl,queue] at member
      cases member
    | worker index =>
      obtain ⟨data,carried,_⟩ := holds
      simp [view,(idle index).1,WorkerAt.carried] at carried

/-- Where every process waits the outcome of each task that has ended has been published. -/
theorem Telling.told (telling : Telling s) (resting : Resting taskQueue s) {id : String} {row : Task}
    (found : s.table.row id = some row) (settled : Settled row.status) : outcomes id s ≠ [] := by
  rcases telling id row found settled with already | ⟨index,announcing⟩
  · exact already
  · -- no worker is announcing
    have waiting := resting.2 index
    cases place : s.workers index with
    | announcing publication => simp [waits,place] at waiting
    | _ =>
      rw [place] at announcing
      cases announcing

end

/-- In every run in which nothing raises, once every process waits, each task whose queue a
    worker serves has been executed, has ended, and of it just one outcome has been
    published, which its row confirms. -/
theorem rest_settled (taskQueue : Nat → String) (labels : List Label) (faultless : Each (step taskQueue) Faultless idle labels)
    (resting : Resting taskQueue (run (step taskQueue) idle labels)) :
    ∀ id row, (run (step taskQueue) idle labels).table.row id = some row →
      (∃ index, taskQueue index = queueKey (rowToTask row).provider) →
      Settled row.status ∧ 1 ≤ executions id (run (step taskQueue) idle labels) ∧
        ∃ publication, outcomes id (run (step taskQueue) idle labels) = [publication] ∧ Tells row publication := by
  have always : Always (step taskQueue) (fun s => (∃ holder, Accounted taskQueue (view s) holder ∧ Kept (view s) holder) ∧
      Sound taskQueue s ∧ Telling s) idle labels := by
    refine always_of_each _ Faultless ?_ ⟨⟨_,idle_accounted taskQueue,?_⟩,idle_sound taskQueue,?_⟩ faultless
    · rintro s label ⟨⟨_,accounted,kept⟩,sound,telling⟩ ⟨succeeds,safe⟩
      exact ⟨step_kept accounted kept safe,step_sound sound label,step_telling sound telling succeeds⟩
    · intro id row found
      cases found
    · intro id row found
      cases found
  intro id row found served
  obtain ⟨⟨_,accounted,kept⟩,⟨_,_,alive⟩,telling⟩ := always.last
  have settled := resting_settled accounted kept resting found served
  have noted := (alive.living id row found).noted
  refine ⟨settled,noted.settled settled,?_⟩
  exact noted.told.resolve_left (telling.told resting found settled)

/-- An echo task from its creation to the publication of its outcome. -/
def oneEcho : List Label :=
  .create echoTask :: (List.replicate 4 (.scheduler false) ++ List.replicate 5 (.worker 0 false))

theorem oneEcho_faultless : Each (step (fun _ => "tasks:opencode")) Faultless idle oneEcho := by
  have polls : ∀ s, Faultless s (.scheduler false) := fun s => ⟨rfl,fun contrary => by cases contrary⟩
  have works : ∀ (s : DispatchState) (place : WorkerAt), s.workers 0 = place →
      (∀ data, place = .executing data → executeTask data ≠ none) → Faultless s (.worker 0 false) := by
    intro s place at_ returns
    refine ⟨rfl,?_⟩
    intro data _
    exact ⟨rfl,fun executes => returns data (at_.symm.trans executes)⟩
  let data := TaskData.ofTask echoTask
  simp only [oneEcho,List.replicate,List.cons_append,List.nil_append,each_cons]
  refine ⟨⟨trivial,trivial⟩,polls _,polls _,polls _,polls _,works _ .popping rfl (by simp),
    works _ (.marking data) rfl (by simp),works _ (.executing data) rfl ?_,
    works _ (.completing data (some [("echo",.str ""),("output",.str "processed: ")])) rfl (by simp),
    works _ (.announcing (.taskCompleted "task-1" (some [("echo",.str ""),("output",.str "processed: ")]))) rfl (by simp),each_nil⟩
  rintro _ ⟨⟩
  simp [executeTask,data,TaskData.ofTask,echoTask]

/-- Its ten awaits are within the bound. -/
theorem one_echo_bounded :
    total (step (fun _ => "tasks:opencode")) (busy (fun _ => "tasks:opencode")) idle oneEcho ≤ 23 := by
  have steady : ∀ label ∈ oneEcho, Steady label := by simp [oneEcho,Steady]
  exact awaits_bounded (fun _ => "tasks:opencode") oneEcho steady

theorem one_echo_settled : ∃ row, (run (step (fun _ => "tasks:opencode")) idle oneEcho).table.row "task-1" = some row ∧
    Settled row.status := by
  have resting : Resting (fun _ => "tasks:opencode") (run (step (fun _ => "tasks:opencode")) idle oneEcho) := by
    refine ⟨rfl,?_⟩
    intro index
    cases index with
    | zero => rfl
    | succ index => rfl
  have stored : ((run (step (fun _ => "tasks:opencode")) idle oneEcho).table.row "task-1").map
      (fun row => (rowToTask row).provider) = some "opencode" := rfl
  obtain ⟨row,found,provider⟩ := Option.map_eq_some_iff.mp stored
  refine ⟨row,found,(rest_settled (fun _ => "tasks:opencode") oneEcho oneEcho_faultless resting "task-1" row found ⟨0,?_⟩).1⟩
  rw [provider]
  decide +kernel

end Hookclose.TaskProgress
