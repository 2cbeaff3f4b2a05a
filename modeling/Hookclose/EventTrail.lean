import Hookclose.EventListener
import Hookclose.WorkerMoves

/-!
Which messages leave an event of the task's workflow. Every message is about a task that
has a row, and carries the identifier of the task where the listener looks for that of a
workflow; so it is stored as it should be exactly for a task that is its own workflow.
-/
namespace Hookclose.EventTrail
open Hookclose.TaskRepository Hookclose.TaskRepository.TaskTable Hookclose.Dispatch Hookclose.Custody Hookclose.TaskLoss
open Hookclose.LiveCopies Hookclose.EventListener Hookclose.WorkerMoves Hookclose.Runs
open Hookclose.TaskSql (Database Uuid isUuid canonical)
open Hookclose.JsonText (dumps Carried)

/-! ### What is known of rows and messages -/

section
variable (float : String → String × FloatValue)

/-- A row as the table takes it: its identifier is a UUID, its workflow is there and its
    payload a JSON value. -/
structure Registered (workflows : List String) (task : Task) : Prop where
  uuid : isUuid task.id = true
  plain : canonical task.id = task.id
  workflow : ∀ workflow, task.workflowId = some workflow → workflow ∈ workflows
  payload : Carried float (.dict task.payload)

/-- A message about a task that has a row. -/
def Told (table : TaskTable) (publication : Publication) : Prop :=
  (table.row (Publication.taskId publication)).isSome = true ∧ CarriedPublication float publication

/-- Every row is registered, and every message that has been sent or is about to be sent is
    about one. -/
structure Sound (taskQueue : Nat → String) (workflows : List String) (s : DispatchState) : Prop where
  accounted : ∃ holder, Accounted taskQueue (view s) holder
  announces : Announces s
  rows : ∀ id task, s.table.row id = some task → Registered float workflows task
  publishing : ∀ task rest, s.scheduler = .publishing task rest → (s.table.row task.id).isSome = true
  completing : ∀ index data result, s.workers index = .completing data result → CarriedResult float result
  announcing : ∀ index publication, s.workers index = .announcing publication → CarriedPublication float publication
  published : ∀ publication ∈ s.published, Told float s.table publication

end

section
variable {float : String → String × FloatValue} {taskQueue : Nat → String} {workflows : List String} {s : DispatchState}

theorem idle_sound : Sound float taskQueue workflows idle := by
  refine ⟨⟨_,idle_accounted taskQueue⟩,idle_announces,?_,?_,?_,?_,?_⟩
  · intro id task found
    cases found
  · intro task rest place
    cases place
  · intro index data result place
    cases place
  · intro index publication place
    cases place
  · intro publication member
    cases member

theorem Registered.later {task : Task} {more : List String} (registered : Registered float workflows task)
    (grown : workflows ⊆ more) : Registered float more task :=
  ⟨registered.uuid,registered.plain,fun workflow named => grown (registered.workflow workflow named),registered.payload⟩

theorem Sound.later {more : List String} (sound : Sound float taskQueue workflows s) (grown : workflows ⊆ more) :
    Sound float taskQueue more s :=
  { sound with rows := fun id task found => (sound.rows id task found).later grown }

/-- An UPDATE keeps what the trail relies on. -/
theorem registered_updateStatus {table : TaskTable}
    (rows : ∀ id task, table.row id = some task → Registered float workflows task)
    (id : String) (status : TaskStatus) (result : Option Dict) (error : Option String) (attempts : Option Int) :
    ∀ other task, (table.updateStatus id status result error attempts).row other = some task →
      Registered float workflows task := by
  intro other task found
  by_cases same : other = id
  · subst same
    cases before : table.row other with
    | none => simp [updateStatus,before] at found
    | some row =>
      rw [updateStatus_self before] at found
      cases found
      exact ⟨(rows other row before).uuid,(rows other row before).plain,(rows other row before).workflow,
        (rows other row before).payload⟩
  · rw [updateStatus_other same] at found
    exact rows other task found

theorem isSome_later {before after : TaskTable} (later : Later before after) {id : String}
    (found : (before.row id).isSome = true) : (after.row id).isSome = true := by
  obtain ⟨row,found⟩ := Option.isSome_iff_exists.mp found
  obtain ⟨next,kept,_⟩ := later id row found
  rw [kept]
  rfl

theorem Told.later {before after : TaskTable} {publication : Publication} (told : Told float before publication)
    (later : Later before after) : Told float after publication := ⟨isSome_later later told.1,told.2⟩

/-- The row of a task that an entry matches, and its payload. -/
theorem matches_payload (sound : Sound float taskQueue workflows s) {data : TaskData} (matched : Matches s.table data) :
    (s.table.row data.id).isSome = true ∧ Carried float (.dict data.payload) := by
  obtain ⟨row,found,same⟩ := matched
  refine ⟨by rw [found]; rfl,?_⟩
  rw [same]
  exact (sound.rows data.id row found).payload

theorem create_sound (sound : Sound float taskQueue workflows s) {task : Task}
    (registered : Registered float workflows task) :
    Sound float taskQueue workflows (Dispatch.step taskQueue s (.create task)) := by
  obtain ⟨holder,accounted⟩ := sound.accounted
  have later := later_create { task with status := .pending } s.table
  refine ⟨step_accounted accounted _,step_announces accounted sound.announces _,?_,?_,sound.completing,sound.announcing,?_⟩
  · intro id row found
    rcases create_row found with old | ⟨_,_,rfl⟩
    · exact sound.rows id row old
    · exact ⟨registered.uuid,registered.plain,registered.workflow,registered.payload⟩
  · intro other rest place
    exact isSome_later later (sound.publishing other rest place)
  · intro publication member
    exact (sound.published publication member).later later

theorem nextTask_unpublished (tasks : List Task) (task : Task) (rest : List Task) :
    nextTask tasks ≠ .publishing task rest := by
  cases tasks <;> simp [nextTask]

theorem scheduler_sound (sound : Sound float taskQueue workflows s) (raises : Bool) :
    Sound float taskQueue workflows (Dispatch.step taskQueue s (.scheduler raises)) := by
  obtain ⟨holder,accounted⟩ := sound.accounted
  have next := step_accounted accounted (.scheduler raises)
  have announces := step_announces accounted sound.announces (.scheduler raises)
  cases raises with
  | true =>
    exact ⟨next,announces,sound.rows,by simp [Dispatch.step,schedulerStep],sound.completing,sound.announcing,
      sound.published⟩
  | false =>
    cases place : s.scheduler with
    | polling =>
      have after : Dispatch.step taskQueue s (.scheduler false) =
          { s with scheduler := nextTask (s.table.getPending 10) } := by
        simp [Dispatch.step,schedulerStep,place]
      rw [after] at next announces ⊢
      exact ⟨next,announces,sound.rows,fun task rest same => absurd same (nextTask_unpublished _ task rest),
        sound.completing,sound.announcing,sound.published⟩
    | marking task rest =>
      have after : Dispatch.step taskQueue s (.scheduler false) =
          { s with
            table := s.table.updateStatus task.id .scheduled none none (some 1)
            scheduler := .pushing task rest } := by
        simp [Dispatch.step,schedulerStep,place]
      have later := later_updateStatus task.id .scheduled none none (some 1) s.table
      rw [after] at next announces ⊢
      refine ⟨next,announces,registered_updateStatus sound.rows _ _ _ _ _,by simp,sound.completing,
        sound.announcing,?_⟩
      intro publication member
      exact (sound.published publication member).later later
    | pushing task rest =>
      have after : Dispatch.step taskQueue s (.scheduler false) =
          { s with
            queues := push (queueKey task.provider) (TaskData.ofTask task) s.queues
            scheduler := .publishing task rest } := by
        simp [Dispatch.step,schedulerStep,place]
      have handing : (view s).handing = some (TaskData.ofTask task) := by simp [view,place,SchedulerAt.handing]
      have known := (matches_payload sound (accounted.consistent.handing _ handing)).1
      rw [after] at next announces ⊢
      refine ⟨next,announces,sound.rows,?_,sound.completing,sound.announcing,sound.published⟩
      intro other more same
      cases same
      exact known
    | publishing task rest =>
      have after : Dispatch.step taskQueue s (.scheduler false) =
          { s with published := s.published ++ [.taskScheduled task.id task.provider], scheduler := nextTask rest } := by
        simp [Dispatch.step,schedulerStep,place]
      rw [after] at next announces ⊢
      refine ⟨next,announces,sound.rows,fun task rest same => absurd same (nextTask_unpublished _ task rest),
        sound.completing,sound.announcing,?_⟩
      intro publication member
      rcases List.mem_append.mp member with old | new
      · exact sound.published publication old
      · rw [List.mem_singleton.mp new]
        exact ⟨sound.publishing task rest place,trivial⟩

theorem worker_sound (sound : Sound float taskQueue workflows s) (index : Nat) (raises : Bool) :
    Sound float taskQueue workflows (Dispatch.step taskQueue s (.worker index raises)) := by
  obtain ⟨holder,accounted⟩ := sound.accounted
  have next := step_accounted accounted (.worker index raises)
  have announces := step_announces accounted sound.announces (.worker index raises)
  rw [Dispatch.step] at next announces ⊢
  rcases workerStep_moves (taskQueue index) index raises s with same | ⟨place,t,moved,moves⟩
  · rw [same]
    exact sound
  · rw [moved] at next announces ⊢
    have later := moves.later
    refine ⟨next,announces,?_,?_,?_,?_,?_⟩
    · rw [moveTo_table]
      rcases moves.table with same | ⟨id,status,result,error,attempts,_,written⟩
      · rw [same]
        exact sound.rows
      · rw [written]
        exact registered_updateStatus sound.rows id status result error attempts
    · intro task rest publishing
      have before : t.scheduler = .publishing task rest := publishing
      rw [moves.scheduler] at before
      exact isSome_later later (sound.publishing task rest before)
    · intro other data result completing
      by_cases same : other = index
      · subst same
        rw [moveTo_self] at completing
        obtain ⟨executing,error,executed⟩ := moves.completing data result completing
        have carries : (view s).carried other = some data := by simp [view,executing,WorkerAt.carried]
        have matched := (accounted.consistent.carried other data carries).1
        exact executeTask_carried (matches_payload sound matched).2 executed
      · rw [moveTo_other same,moves.workers] at completing
        exact sound.completing other data result completing
    · intro other publication announcing
      by_cases same : other = index
      · subst same
        rw [moveTo_self] at announcing
        rcases moves.announcing publication announcing with ⟨data,result,completing,rfl⟩ | ⟨id,error,rfl⟩
        · exact sound.completing other data result completing
        · trivial
      · rw [moveTo_other same,moves.workers] at announcing
        exact sound.announcing other publication announcing
    · have told : ∀ publication ∈ s.published, Told float t.table publication :=
        fun publication member => (sound.published publication member).later later
      show ∀ publication ∈ t.published, Told float t.table publication
      rcases moves.published with same | ⟨publication,announcing,sent⟩
      · rw [same]
        exact told
      · rw [sent]
        intro other member
        rcases List.mem_append.mp member with old | new
        · exact told other old
        · rw [List.mem_singleton.mp new]
          obtain ⟨row,found,_⟩ := sound.announces.settled index (Publication.taskId publication) (by rw [announcing]; rfl)
          exact ⟨isSome_later later (by rw [found]; rfl),sound.announcing index publication announcing⟩

end

/-! ### Runs of the system -/

section
variable (float : String → String × FloatValue) (db : Database) (timestamps : Nat → String) (taskQueue : Nat → String)

/-- Hearing a message adds one event, of the message's kind and of the task's workflow. -/
def Records (s : Engine) (action : EventListener.Action float) : Prop :=
  action = .listen → ∀ publication, s.dispatch.published[s.heard]? = some publication →
    ∃ task event, s.dispatch.table.row (Publication.taskId publication) = some task ∧
      (EventListener.step float db timestamps taskQueue s action).events = s.events ++ [event] ∧
      event.eventType = Publication.event publication ∧ event.workflowId = task.workflowId

/-- The message that is heard is about a task that names itself as its workflow, and
    `jsonb` takes the message. -/
def OwnWorkflow (s : Engine) (action : EventListener.Action float) : Prop :=
  action = .listen → ∀ publication, s.dispatch.published[s.heard]? = some publication →
    ∃ task, s.dispatch.table.row (Publication.taskId publication) = some task ∧ task.workflowId = some task.id ∧
      (db.jsonb (message (timestamps s.heard) publication)).isSome = true

variable {float db timestamps taskQueue}

/-- A row that the table takes is registered. -/
theorem registered_stored {workflows : List String} {task : NewTask float}
    (accepted : accepts db workflows task.task = true) : Registered float workflows (stored task.task) := by
  simp only [accepts,Bool.and_eq_true] at accepted
  obtain ⟨⟨⟨⟨⟨uuid,workflow⟩,_⟩,_⟩,_⟩,_⟩ := accepted
  obtain ⟨valid,plain⟩ := canonical_uuid uuid
  refine ⟨valid,plain,?_,by rw [stored_payload]; exact task.carried⟩
  intro name named
  rw [stored,Option.map_eq_some_iff] at named
  obtain ⟨given,same,rfl⟩ := named
  simp only [same,Bool.and_eq_true,List.contains_iff_mem] at workflow
  exact workflow.2

theorem step_sound {s : Engine} (sound : Sound float taskQueue s.workflows s.dispatch)
    (action : EventListener.Action float) :
    Sound float taskQueue (EventListener.step float db timestamps taskQueue s action).workflows
      (EventListener.step float db timestamps taskQueue s action).dispatch := by
  cases action with
  | workflow id =>
    simp only [EventListener.step]
    split_ifs
    · exact sound
    · exact sound.later (List.subset_append_left _ _)
  | create task =>
    simp only [EventListener.step]
    split_ifs with accepted
    · exact create_sound sound (registered_stored accepted)
    · exact sound
  | scheduler raises => exact scheduler_sound sound raises
  | worker index raises => exact worker_sound sound index raises
  | listen =>
    simp only [EventListener.step]
    split <;> exact sound

theorem run_sound (actions : List (EventListener.Action float)) :
    Sound float taskQueue (run (EventListener.step float db timestamps taskQueue) {} actions).workflows
      (run (EventListener.step float db timestamps taskQueue) {} actions).dispatch := by
  have always : Always (EventListener.step float db timestamps taskQueue)
      (fun s => Sound float taskQueue s.workflows s.dispatch) {} actions := by
    refine @always_of_step Engine _ _ (fun s => Sound float taskQueue s.workflows s.dispatch) ?_ {} idle_sound actions
    intro s action sound
    exact step_sound sound action
  exact always.last

/-- What hearing a message about a registered task adds. -/
theorem listen_adds {s : Engine} (sound : Sound float taskQueue s.workflows s.dispatch) {publication : Publication}
    (next : s.dispatch.published[s.heard]? = some publication) :
    ∃ task, s.dispatch.table.row (Publication.taskId publication) = some task ∧
      Registered float s.workflows task ∧ task.id = Publication.taskId publication ∧
      (EventListener.step float db timestamps taskQueue s .listen).events = s.events ++
        (if Publication.taskId publication ∈ s.workflows then
          (db.jsonb (message (timestamps s.heard) publication)).map
            (fun payload => ⟨some (Publication.taskId publication),Publication.event publication,payload⟩)
        else none).toList := by
  obtain ⟨known,carried⟩ := sound.published publication (List.mem_of_getElem? next)
  obtain ⟨task,found⟩ := Option.isSome_iff_exists.mp known
  have registered := sound.rows _ task found
  have named := s.dispatch.table.named _ task found
  refine ⟨task,found,registered,named,?_⟩
  have uuid := registered.uuid
  have plain := registered.plain
  rw [named] at uuid plain
  have read := formatMsg_dumps (carried_message carried (timestamps s.heard))
  simp only [EventListener.step,next,read,listen_message uuid plain]

/-- A message is recorded exactly when its task is its own workflow. -/
theorem records_iff {s : Engine} (sound : Sound float taskQueue s.workflows s.dispatch)
    (action : EventListener.Action float) :
    Records float db timestamps taskQueue s action ↔ OwnWorkflow float db timestamps s action := by
  refine forall_congr' fun listening => forall_congr' fun publication => forall_congr' fun next => ?_
  subst listening
  obtain ⟨task,found,registered,named,added⟩ := @listen_adds float db timestamps taskQueue s sound publication next
  rw [added]
  constructor
  · rintro ⟨other,event,same,adds,_,workflow⟩
    rw [found] at same
    cases same
    have one := List.append_cancel_left adds
    rw [Option.toList_eq_singleton_iff] at one
    split_ifs at one with known
    obtain ⟨payload,stored,rfl⟩ := Option.map_eq_some_iff.mp one
    exact ⟨task,found,by rw [← workflow,named],by rw [stored]; rfl⟩
  · rintro ⟨other,same,own,accepted⟩
    rw [found] at same
    cases same
    obtain ⟨payload,stored⟩ := Option.isSome_iff_exists.mp accepted
    have known : Publication.taskId publication ∈ s.workflows := by
      rw [← named]
      exact registered.workflow task.id own
    rw [if_pos known,stored]
    exact ⟨task,_,found,rfl,rfl,by rw [own,named]⟩

end

/-- In every run, every message that is heard is recorded exactly when each is about a task
    that names itself as its workflow, and is taken as JSON. -/
theorem recorded_iff_own (float : String → String × FloatValue) (db : Database) (timestamps : Nat → String)
    (taskQueue : Nat → String) (actions : List (EventListener.Action float)) :
    Each (EventListener.step float db timestamps taskQueue) (Records float db timestamps taskQueue) {} actions ↔
      Each (EventListener.step float db timestamps taskQueue) (OwnWorkflow float db timestamps) {} actions := by
  refine each_iff_each (fun s => Sound float taskQueue s.workflows s.dispatch) ?_ ?_ idle_sound
  · intro s action sound
    exact records_iff sound action
  · intro s action sound _
    exact step_sound sound action

/-! ### A task without a workflow -/

/-- A database that keeps a JSON value as the text it was sent as. -/
def verbatim : Database where
  jsonb value := some (dumps (.dict value))
  object := by
    intro value text stored
    rw [← Option.some.inj stored]
    simp [dumps,JsonText.encode]

def unassigned : NewTask (fun text => (text,.nan)) where
  task := { id := "00000000-0000-4000-8000-000000000001" }
  carried := by simp [Carried,JsonText.CarriedEntries]

/-- A poll that schedules the task. -/
def scheduling : List (EventListener.Action (fun text => (text,.nan))) :=
  [.create unassigned,.scheduler false,.scheduler false,.scheduler false,.scheduler false]

/-- The message that the task is scheduled leaves no event. -/
theorem unassigned_unrecorded :
    ¬ Each (EventListener.step (fun text => (text,.nan)) verbatim (fun _ => "2026-01-01T00:00:00+00:00")
        (fun _ => "tasks:opencode"))
      (Records (fun text => (text,.nan)) verbatim (fun _ => "2026-01-01T00:00:00+00:00") (fun _ => "tasks:opencode")) {}
      (scheduling ++ [.listen]) := by
  intro each
  obtain ⟨_,last⟩ := each_concat.mp each
  obtain ⟨task,event,_,adds,_⟩ := last rfl (.taskScheduled "00000000-0000-4000-8000-000000000001" "opencode") rfl
  have sound := @run_sound _ verbatim (fun _ => "2026-01-01T00:00:00+00:00") (fun _ => "tasks:opencode") scheduling
  obtain ⟨_,_,_,_,silent⟩ := @listen_adds _ verbatim (fun _ => "2026-01-01T00:00:00+00:00") (fun _ => "tasks:opencode") _
    sound (.taskScheduled "00000000-0000-4000-8000-000000000001" "opencode") rfl
  have none_there : (run (EventListener.step (fun text => (text,.nan)) verbatim (fun _ => "2026-01-01T00:00:00+00:00")
      (fun _ => "tasks:opencode")) {} scheduling).workflows = [] := rfl
  rw [silent,none_there] at adds
  simp at adds

end Hookclose.EventTrail
