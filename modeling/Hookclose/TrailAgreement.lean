import Hookclose.EventTrail
import Hookclose.TaskProgress
import Mathlib.Data.List.Forall2

/-!
The audit trail and the table of tasks agree. The rows of the trail are records of messages
that have been sent, in the order in which they were sent; so of each task there is one row
at most that tells how it has ended, and the row of the task says the same. Where each task
is its own workflow and nothing raises, there is just one such row for each task once the
system is at rest and the listener has heard everything.
-/
namespace Hookclose.TrailAgreement
open Hookclose.TaskRepository Hookclose.TaskRepository.TaskTable Hookclose.Dispatch Hookclose.Custody Hookclose.TaskLoss
open Hookclose.LiveCopies Hookclose.EventListener Hookclose.EventTrail Hookclose.Runs Hookclose.TaskProgress
open Hookclose.TaskLifecycle (isOutcomeOf outcomes Tells)
open Hookclose.TaskSql (Database)

/-! ### Records -/

/-- A row of the trail is what was stored of a message, at some time. -/
structure RecordOf (db : Database) (publication : Publication) (event : EventRow) : Prop where
  workflow : event.workflowId = some (Publication.taskId publication)
  eventType : event.eventType = Publication.event publication
  payload : ∃ timestamp, db.jsonb (message timestamp publication) = some event.payload

/-- A row that tells how a task has ended. -/
def isEnding (id : String) (event : EventRow) : Bool :=
  event.workflowId = some id && (event.eventType = "task_failed" || event.eventType = "task_completed")

theorem isEnding_record {db : Database} {publication : Publication} {event : EventRow}
    (record : RecordOf db publication event) (id : String) : isOutcomeOf id publication = isEnding id event := by
  unfold isEnding
  rw [record.workflow,record.eventType]
  cases publication <;> simp [isOutcomeOf,Publication.event,Publication.taskId]

/-- The records of some messages, those of the endings of a task. -/
theorem endings_recorded {db : Database} {published : List Publication} {events : List EventRow}
    (records : List.Forall₂ (RecordOf db) published events) (id : String) :
    List.Forall₂ (RecordOf db) (published.filter (isOutcomeOf id)) (events.filter (isEnding id)) := by
  induction records with
  | nil => exact .nil
  | @cons publication event published events record _ ih =>
    have same := isEnding_record record id
    by_cases ends : isEnding id event = true
    · rw [ends] at same
      rw [List.filter_cons_of_pos same,List.filter_cons_of_pos ends]
      exact .cons record ih
    · rw [Bool.not_eq_true] at ends
      rw [ends] at same
      rw [List.filter_cons_of_neg (by simp [same]),List.filter_cons_of_neg (by simp [ends])]
      exact ih

/-! ### The trail of a run -/

section
variable {float : String → String × FloatValue} {db : Database} {timestamps : Nat → String} {taskQueue : Nat → String}
  {s : Engine}

/-- What an action of the system is for the dispatch loop. -/
def labelOf (db : Database) (workflows : List String) : EventListener.Action float → Option Label
  | .workflow _ => none
  | .create task => if accepts db workflows task.task then some (.create (stored task.task)) else none
  | .scheduler raises => some (.scheduler raises)
  | .worker index raises => some (.worker index raises)
  | .listen => none

theorem step_dispatch (action : EventListener.Action float) :
    (EventListener.step float db timestamps taskQueue s action).dispatch =
      (labelOf db s.workflows action).elim s.dispatch (Dispatch.step taskQueue s.dispatch) := by
  cases action with
  | workflow id =>
    simp only [EventListener.step,labelOf]
    split_ifs <;> rfl
  | create task =>
    simp only [EventListener.step,labelOf]
    split_ifs <;> rfl
  | listen =>
    simp only [EventListener.step,labelOf]
    split <;> rfl
  | _ => rfl

/-- What has been sent stays sent. -/
theorem step_published (t : DispatchState) (label : Label) : t.published <+: (Dispatch.step taskQueue t label).published := by
  cases label with
  | create task => exact List.prefix_refl _
  | scheduler raises =>
    simp only [Dispatch.step]
    unfold schedulerStep
    cases t.scheduler <;> cases raises <;> simp
  | worker index raises =>
    simp only [Dispatch.step]
    unfold workerStep
    cases t.workers index with
    | popping => cases t.queues (taskQueue index) <;> cases raises <;> simp [moveTo]
    | _ => cases raises <;> simp [moveTo]

/-- The messages that have been heard. -/
def heardSoFar (s : Engine) : List Publication := s.dispatch.published.take s.heard

/-- The trail so far: the records of messages that have been heard, in order. -/
structure Trail (db : Database) (s : Engine) (recorded : List Publication) : Prop where
  within : s.heard ≤ s.dispatch.published.length
  heard : recorded.Sublist (heardSoFar s)
  records : List.Forall₂ (RecordOf db) recorded s.events

theorem take_grown {sent later : List Publication} {heard : Nat} (within : heard ≤ sent.length) (grown : sent <+: later) :
    later.take heard = sent.take heard ∧ heard ≤ later.length := by
  obtain ⟨more,rfl⟩ := grown
  exact ⟨List.take_append_of_le_length within,by simp; omega⟩

/-- An action other than hearing a message leaves the trail as it is. -/
theorem step_unheard {action : EventListener.Action float} (other : action ≠ .listen) :
    (EventListener.step float db timestamps taskQueue s action).events = s.events ∧
      (EventListener.step float db timestamps taskQueue s action).heard = s.heard ∧
      s.dispatch.published <+: (EventListener.step float db timestamps taskQueue s action).dispatch.published := by
  have grown : s.dispatch.published <+: (EventListener.step float db timestamps taskQueue s action).dispatch.published := by
    rw [step_dispatch]
    cases labelOf db s.workflows action with
    | none => exact List.prefix_refl _
    | some label => exact step_published s.dispatch label
  cases action with
  | listen => exact absurd rfl other
  | workflow id =>
    refine ⟨?_,?_,grown⟩ <;> simp only [EventListener.step] <;> split_ifs <;> rfl
  | create task =>
    refine ⟨?_,?_,grown⟩ <;> simp only [EventListener.step] <;> split_ifs <;> rfl
  | _ => exact ⟨rfl,rfl,grown⟩

/-- Hearing a message: nothing new, or the next message and what is stored of it. -/
theorem step_heard (sound : EventTrail.Sound float taskQueue s.workflows s.dispatch) :
    EventListener.step float db timestamps taskQueue s .listen = s ∨
      ∃ publication, s.dispatch.published[s.heard]? = some publication ∧
        (EventListener.step float db timestamps taskQueue s .listen).dispatch = s.dispatch ∧
        (EventListener.step float db timestamps taskQueue s .listen).heard = s.heard + 1 ∧
        ∃ added : Option EventRow, (EventListener.step float db timestamps taskQueue s .listen).events =
          s.events ++ added.toList ∧ ∀ event, added = some event → RecordOf db publication event := by
  cases next : s.dispatch.published[s.heard]? with
  | none => exact .inl (by simp only [EventListener.step,next])
  | some publication =>
    refine .inr ⟨publication,rfl,by simp only [EventListener.step,next],by simp only [EventListener.step,next],?_⟩
    obtain ⟨task,_,_,_,added⟩ := @listen_adds float db timestamps taskQueue s sound publication next
    refine ⟨_,added,?_⟩
    intro event stored
    split_ifs at stored with known
    obtain ⟨payload,accepted,rfl⟩ := Option.map_eq_some_iff.mp stored
    exact ⟨rfl,rfl,_,accepted⟩

/-- Each action keeps a trail; where every message that is heard is about a task that is its
    own workflow, it keeps a trail of all that have been heard. -/
theorem step_trail (sound : EventTrail.Sound float taskQueue s.workflows s.dispatch) {recorded : List Publication}
    (trail : Trail db s recorded) (action : EventListener.Action float) :
    ∃ later, Trail db (EventListener.step float db timestamps taskQueue s action) later ∧
      (OwnWorkflow float db timestamps s action → recorded = heardSoFar s →
        later = heardSoFar (EventListener.step float db timestamps taskQueue s action)) := by
  obtain ⟨within,sublist,records⟩ := trail
  by_cases listens : action = .listen
  · subst listens
    rcases @step_heard float db timestamps taskQueue s sound with same | ⟨publication,next,dispatch,heard,added,events,stored⟩
    · rw [same]
      exact ⟨recorded,⟨within,sublist,records⟩,fun _ all => all⟩
    · have more : s.heard < s.dispatch.published.length := (List.getElem?_eq_some_iff.mp next).1
      have grown : heardSoFar (EventListener.step float db timestamps taskQueue s .listen) = heardSoFar s ++ [publication] := by
        rw [heardSoFar,dispatch,heard,List.take_add_one,next]
        rfl
      have longer : s.heard + 1 ≤ s.dispatch.published.length := more
      rw [← heard,← dispatch] at longer
      cases added with
      | none =>
        refine ⟨recorded,⟨longer,?_,?_⟩,?_⟩
        · rw [grown]
          exact sublist.trans (List.sublist_append_left _ _)
        · simpa [events] using records
        · -- a message about a task that is its own workflow is stored
          intro own
          obtain ⟨_,event,_,one,_⟩ := (@records_iff float db timestamps taskQueue s sound .listen).mpr own rfl publication next
          rw [events] at one
          cases List.append_cancel_left one
      | some event =>
        refine ⟨recorded ++ [publication],⟨longer,?_,?_⟩,?_⟩
        · rw [grown]
          exact sublist.append (List.Sublist.refl _)
        · rw [events]
          exact List.rel_append records (.cons (stored event rfl) .nil)
        · intro _ all
          rw [grown,all]
  · obtain ⟨events,heard,grown⟩ := @step_unheard float db timestamps taskQueue s action listens
    obtain ⟨kept,longer⟩ := take_grown within grown
    have same : heardSoFar (EventListener.step float db timestamps taskQueue s action) = heardSoFar s := by
      rw [heardSoFar,heard,kept]
      rfl
    refine ⟨recorded,⟨by rwa [heard],by rwa [same],by rwa [events]⟩,?_⟩
    intro _ all
    rw [same,all]

theorem step_life (life : TaskLifecycle.Sound taskQueue s.dispatch) (action : EventListener.Action float) :
    TaskLifecycle.Sound taskQueue (EventListener.step float db timestamps taskQueue s action).dispatch := by
  rw [step_dispatch]
  cases labelOf db s.workflows action with
  | none => exact life
  | some label => exact TaskLifecycle.step_sound life label

/-- What is known of the whole system. -/
structure Sound (float : String → String × FloatValue) (db : Database) (taskQueue : Nat → String) (s : Engine) : Prop where
  told : EventTrail.Sound float taskQueue s.workflows s.dispatch
  life : TaskLifecycle.Sound taskQueue s.dispatch
  trail : ∃ recorded, Trail db s recorded

theorem start_sound (float : String → String × FloatValue) (db : Database) (taskQueue : Nat → String) :
    Sound float db taskQueue {} :=
  ⟨EventTrail.idle_sound,TaskLifecycle.idle_sound taskQueue,[],Nat.le_refl 0,List.Sublist.refl [],.nil⟩

theorem Sound.step (sound : Sound float db taskQueue s) (action : EventListener.Action float) :
    Sound float db taskQueue (EventListener.step float db timestamps taskQueue s action) := by
  obtain ⟨told,life,recorded,trail⟩ := sound
  obtain ⟨later,kept,_⟩ := @step_trail float db timestamps taskQueue s told recorded trail action
  exact ⟨EventTrail.step_sound told action,step_life life action,later,kept⟩

/-- The outcomes published of a task, by its row. -/
theorem outcomes_cases (life : TaskLifecycle.Sound taskQueue s.dispatch) (id : String) :
    outcomes id s.dispatch = [] ∨ ∃ publication row, outcomes id s.dispatch = [publication] ∧
      s.dispatch.table.row id = some row ∧ Tells row publication := by
  obtain ⟨_,_,alive⟩ := life
  cases found : s.dispatch.table.row id with
  | none => exact .inl (alive.known id found).2
  | some row =>
    rcases (alive.living id row found).noted.told with nothing | ⟨publication,told,tells⟩
    · exact .inl nothing
    · exact .inr ⟨publication,row,told,rfl,tells⟩

/-- One message at most tells the ending of a task, so one row of the trail does. -/
theorem endings_cases (sound : Sound float db taskQueue s) (id : String) :
    s.events.filter (isEnding id) = [] ∨
      ∃ event row publication, s.events.filter (isEnding id) = [event] ∧ s.dispatch.table.row id = some row ∧
        Tells row publication ∧ RecordOf db publication event := by
  obtain ⟨_,life,recorded,trail⟩ := sound
  have endings := endings_recorded trail.records id
  have part : (recorded.filter (isOutcomeOf id)).Sublist (outcomes id s.dispatch) :=
    (trail.heard.trans (List.take_sublist _ _)).filter _
  rcases outcomes_cases life id with nothing | ⟨publication,row,told,found,tells⟩
  · rw [nothing,List.sublist_nil] at part
    rw [part] at endings
    exact .inl (List.forall₂_nil_left_iff.mp endings)
  · rw [told] at part
    rcases List.sublist_singleton.mp part with none | one
    · rw [none] at endings
      exact .inl (List.forall₂_nil_left_iff.mp endings)
    · rw [one] at endings
      obtain ⟨event,rest,record,done,same⟩ := List.forall₂_cons_left_iff.mp endings
      rw [List.forall₂_nil_left_iff.mp done] at same
      exact .inr ⟨event,row,publication,same,found,tells,record⟩

end

/-! ### Runs -/

/-- In every run of the dispatch loop, the engine and its clients, whatever raises and however
    they interleave, the rows of the trail are records of messages that have been heard, in
    order, and of each task at most one row tells an ending: the one that the row of the task
    has, with its result or its error. -/
theorem trail_agrees (float : String → String × FloatValue) (db : Database) (timestamps : Nat → String)
    (taskQueue : Nat → String) (actions : List (EventListener.Action float)) :
    Always (EventListener.step float db timestamps taskQueue) (fun s =>
      (∃ recorded, recorded.Sublist (heardSoFar s) ∧ List.Forall₂ (RecordOf db) recorded s.events) ∧
        ∀ id, s.events.filter (isEnding id) = [] ∨
          ∃ event row publication, s.events.filter (isEnding id) = [event] ∧ s.dispatch.table.row id = some row ∧
            Tells row publication ∧ RecordOf db publication event) {} actions := by
  have always : Always (EventListener.step float db timestamps taskQueue) (Sound float db taskQueue) {} actions :=
    always_of_step (Sound float db taskQueue) (fun _ action sound => sound.step action) (start_sound float db taskQueue) actions
  refine always.mono ?_
  intro s sound
  obtain ⟨recorded,trail⟩ := sound.trail
  exact ⟨⟨recorded,trail.heard,trail.records⟩,endings_cases sound⟩

/-- An action that nothing raises in, and a message about a task that is its own workflow. -/
def Smooth (float : String → String × FloatValue) (db : Database) (timestamps : Nat → String) (s : Engine)
    (action : EventListener.Action float) : Prop :=
  OwnWorkflow float db timestamps s action ∧ ∀ label, labelOf db s.workflows action = some label → Faultless s.dispatch label

/-- Every process of the dispatch loop waits, and the listener has heard everything. -/
structure AtRest (taskQueue : Nat → String) (s : Engine) : Prop where
  dispatch : Resting taskQueue s.dispatch
  heard : s.dispatch.published.length ≤ s.heard

/-- What is known of a smooth run. -/
structure SmoothSo (float : String → String × FloatValue) (db : Database) (taskQueue : Nat → String) (s : Engine) : Prop where
  told : EventTrail.Sound float taskQueue s.workflows s.dispatch
  life : TaskLifecycle.Sound taskQueue s.dispatch
  kept : ∃ holder, Accounted taskQueue (view s.dispatch) holder ∧ Kept (view s.dispatch) holder
  telling : Telling s.dispatch
  trail : Trail db s (heardSoFar s)

section
variable {float : String → String × FloatValue} {db : Database} {timestamps : Nat → String} {taskQueue : Nat → String}
  {s : Engine}

theorem SmoothSo.step (so : SmoothSo float db taskQueue s) {action : EventListener.Action float}
    (smooth : Smooth float db timestamps s action) :
    SmoothSo float db taskQueue (EventListener.step float db timestamps taskQueue s action) := by
  obtain ⟨told,life,⟨holder,accounted,kept⟩,telling,trail⟩ := so
  obtain ⟨own,faultless⟩ := smooth
  obtain ⟨later,full,all⟩ := @step_trail float db timestamps taskQueue s told _ trail action
  rw [all own rfl] at full
  refine ⟨EventTrail.step_sound told action,step_life life action,?_,?_,full⟩
  · rw [step_dispatch]
    cases acts : labelOf db s.workflows action with
    | none => exact ⟨holder,accounted,kept⟩
    | some label => exact step_kept accounted kept (faultless label acts).2
  · rw [step_dispatch]
    cases acts : labelOf db s.workflows action with
    | none => exact telling
    | some label => exact step_telling life telling (faultless label acts).1

end

/-- In every run in which nothing raises and each message that is heard is about a task that is
    its own workflow, once the system is at rest the trail has a record of every message, and
    just one row for the ending of each task whose queue a worker serves. -/
theorem trail_complete (float : String → String × FloatValue) (db : Database) (timestamps : Nat → String)
    (taskQueue : Nat → String) (actions : List (EventListener.Action float))
    (smooth : Each (EventListener.step float db timestamps taskQueue) (Smooth float db timestamps) {} actions)
    (rest : AtRest taskQueue (run (EventListener.step float db timestamps taskQueue) {} actions)) :
    let s := run (EventListener.step float db timestamps taskQueue) {} actions
    List.Forall₂ (RecordOf db) s.dispatch.published s.events ∧
      ∀ id row, s.dispatch.table.row id = some row → (∃ index, taskQueue index = queueKey (rowToTask row).provider) →
        Settled row.status ∧ ∃ event publication, s.events.filter (isEnding id) = [event] ∧
          Tells row publication ∧ RecordOf db publication event := by
  intro s
  have start : SmoothSo float db taskQueue ({} : Engine) := by
    refine ⟨EventTrail.idle_sound,TaskLifecycle.idle_sound taskQueue,⟨_,idle_accounted taskQueue,?_⟩,?_,
      Nat.le_refl 0,List.Sublist.refl [],.nil⟩
    · intro id row found
      cases found
    · intro id row found
      cases found
  have so : SmoothSo float db taskQueue s :=
    (always_of_each (SmoothSo float db taskQueue) (Smooth float db timestamps) (fun _ _ so smooth => so.step smooth)
      start smooth).last
  have everything : heardSoFar s = s.dispatch.published := List.take_of_length_le rest.heard
  have records := so.trail.records
  rw [everything] at records
  refine ⟨records,?_⟩
  intro id row found served
  obtain ⟨_,life,⟨_,accounted,kept⟩,telling,_⟩ := so
  have settled := resting_settled accounted kept rest.dispatch found served
  refine ⟨settled,?_⟩
  have endings := endings_recorded records id
  rcases outcomes_cases life id with nothing | ⟨publication,other,told,listed,tells⟩
  · exact absurd nothing (telling.told rest.dispatch found settled)
  · cases listed.symm.trans found
    rw [show s.dispatch.published.filter (isOutcomeOf id) = [publication] from told] at endings
    obtain ⟨event,_,record,done,same⟩ := List.forall₂_cons_left_iff.mp endings
    rw [List.forall₂_nil_left_iff.mp done] at same
    exact ⟨event,publication,same,tells,record⟩

/-- A task that is its own workflow. -/
def assigned : NewTask (fun text => (text,.nan)) where
  task := { id := "00000000-0000-4000-8000-000000000001"
            workflowId := some "00000000-0000-4000-8000-000000000001"
            taskType := "echo" }
  carried := by simp [JsonText.Carried,JsonText.CarriedEntries]

/-- From the creation of the task to the last row of the trail. -/
def assignedRun : List (EventListener.Action (fun text => (text,.nan))) :=
  [.workflow ⟨"00000000-0000-4000-8000-000000000001",by decide⟩,.create assigned] ++ List.replicate 4 (.scheduler false) ++
    List.replicate 5 (.worker 0 false) ++ [.listen,.listen]

/-- The system with one worker, on a database that keeps its texts. -/
abbrev step : Engine → EventListener.Action (fun text => (text,.nan)) → Engine :=
  EventListener.step (fun text => (text,.nan)) verbatim (fun _ => "2026-01-01T00:00:00+00:00") (fun _ => "tasks:opencode")

theorem assigned_smooth :
    Each step (Smooth (fun text => (text,.nan)) verbatim (fun _ => "2026-01-01T00:00:00+00:00")) {} assignedRun := by
  let id := "00000000-0000-4000-8000-000000000001"
  let data := TaskData.ofTask (stored assigned.task)
  let result : Option Dict := some [("echo",.str ""),("output",.str "processed: ")]
  have enters : ∀ (s : Engine) (action : EventListener.Action (fun text => (text,.nan))), action ≠ .listen →
      (∀ label, labelOf verbatim s.workflows action = some label → Faultless s.dispatch label) →
      Smooth (fun text => (text,.nan)) verbatim (fun _ => "2026-01-01T00:00:00+00:00") s action :=
    fun s action other faultless => ⟨fun listens => absurd listens other,faultless⟩
  have polls : ∀ s, Smooth (fun text => (text,.nan)) verbatim (fun _ => "2026-01-01T00:00:00+00:00") s (.scheduler false) := by
    intro s
    refine enters s _ (by simp) ?_
    rintro _ ⟨⟩
    exact ⟨rfl,fun contrary => by cases contrary⟩
  have works : ∀ (s : Engine) (place : WorkerAt), s.dispatch.workers 0 = place →
      (∀ data, place = .executing data → executeTask data ≠ none) →
      Smooth (fun text => (text,.nan)) verbatim (fun _ => "2026-01-01T00:00:00+00:00") s (.worker 0 false) := by
    intro s place at_ returns
    refine enters s _ (by simp) ?_
    rintro _ ⟨⟩
    refine ⟨rfl,?_⟩
    intro data _
    exact ⟨rfl,fun executes => returns data (at_.symm.trans executes)⟩
  have hears : ∀ (s : Engine) (publication : Publication), s.dispatch.published[s.heard]? = some publication →
      (s.dispatch.table.row (Publication.taskId publication)).map (fun row => (row.workflowId,row.id)) = some (some id,id) →
      Smooth (fun text => (text,.nan)) verbatim (fun _ => "2026-01-01T00:00:00+00:00") s .listen := by
    intro s publication next known
    refine ⟨?_,fun label acts => by cases acts⟩
    intro _ other same
    cases next.symm.trans same
    obtain ⟨row,found,named⟩ := Option.map_eq_some_iff.mp known
    obtain ⟨own,same⟩ := Prod.mk.inj named
    exact ⟨row,found,by rw [own,same],rfl⟩
  simp only [assignedRun,List.replicate,List.cons_append,List.nil_append,each_cons]
  refine ⟨enters _ _ (by simp) (by simp [labelOf]),enters _ _ (by simp) ?_,polls _,polls _,polls _,polls _,
    works _ .popping rfl (by simp),works _ (.marking data) rfl (by simp),works _ (.executing data) rfl ?_,
    works _ (.completing data result) rfl (by simp),works _ (.announcing (.taskCompleted id result)) rfl (by simp),
    hears _ (.taskScheduled id "opencode") rfl rfl,hears _ (.taskCompleted id result) rfl rfl,each_nil⟩
  · intro label acts
    simp only [labelOf] at acts
    split_ifs at acts
    cases acts
    exact ⟨trivial,trivial⟩
  · rintro _ ⟨⟩
    simp [executeTask,data,TaskData.ofTask,assigned,stored]

theorem assigned_complete :
    ∃ event, (run step {} assignedRun).events.filter (isEnding "00000000-0000-4000-8000-000000000001") = [event] ∧
      event.eventType = "task_completed" := by
  have resting : AtRest (fun _ => "tasks:opencode") (run step {} assignedRun) := by
    refine ⟨⟨rfl,?_⟩,by decide⟩
    intro index
    cases index with
    | zero => rfl
    | succ index => rfl
  have stored : ((run step {} assignedRun).dispatch.table.row "00000000-0000-4000-8000-000000000001").map
      (fun row => ((rowToTask row).provider,row.status)) = some ("opencode",.completed) := rfl
  obtain ⟨row,found,named⟩ := Option.map_eq_some_iff.mp stored
  obtain ⟨provider,status⟩ := Prod.mk.inj named
  have complete := trail_complete (fun text => (text,.nan)) verbatim (fun _ => "2026-01-01T00:00:00+00:00")
    (fun _ => "tasks:opencode") assignedRun assigned_smooth resting
  obtain ⟨_,event,publication,one,tells,record⟩ := complete.2 _ row found ⟨0,by rw [provider]; decide +kernel⟩
  refine ⟨event,one,?_⟩
  rw [record.eventType]
  cases publication with
  | taskScheduled taskId provider => exact absurd tells id
  | taskFailed taskId error => cases status.symm.trans tells.1
  | taskCompleted taskId result => rfl

end Hookclose.TrailAgreement
