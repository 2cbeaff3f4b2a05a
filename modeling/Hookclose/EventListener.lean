import Hookclose.JsonText
import Hookclose.LiveCopies
import Hookclose.TaskSql

/-!
The audit trail. The dispatch loop publishes messages about its tasks, and the workflow
engine, which listens to them, stores each in the table `events`. A row of that table may
name a row of `workflows`; an INSERT that names another is refused, and the engine logs
the error and goes on. Redis delivers every message once, in order.
-/
namespace Hookclose.EventListener
open Hookclose.TaskRepository Hookclose.TaskRepository.TaskTable Hookclose.Dispatch Hookclose.LiveCopies
open Hookclose.TaskSql (Database Uuid isUuid canonical digits isHex isText isInt4)
open Hookclose.JsonText (dumps loads Carried)

/-! ### Identifiers -/

/-- A hexadecimal digit is a lower case ASCII character other than the hyphen. -/
theorem isHex_plain {c : Char} (hex : isHex c = true) : c.toLower = c ∧ c ≠ '-' ∧ c.utf8Size = 1 := by
  have bound : c.toNat < 103 := by
    simp only [isHex,Bool.or_eq_true,List.contains_iff_mem] at hex
    rcases hex with digit | letter
    · have range := JsonText.digit_range digit
      omega
    · have letters : c ∈ ['a','b','c','d','e','f'] := letter
      simp only [List.mem_cons,List.not_mem_nil,or_false] at letters
      rcases letters with rfl | rfl | rfl | rfl | rfl | rfl <;> decide
  have all : ∀ n < 103, isHex (Char.ofNat n) = true → (Char.ofNat n).toLower = Char.ofNat n ∧ Char.ofNat n ≠ '-' ∧
      (Char.ofNat n).utf8Size = 1 := by decide
  have given := all c.toNat bound
  rw [Char.ofNat_toNat] at given
  exact given hex

theorem size_ascii {text : List Char} (ascii : ∀ c ∈ text, c.utf8Size = 1) :
    (String.ofList text).utf8ByteSize = text.length := by
  induction text with
  | nil => rfl
  | cons c text ih =>
    rw [String.ofList_cons,String.utf8ByteSize_append,String.utf8ByteSize_singleton,ascii c (by simp),
      ih (fun d member => ascii d (by simp [member])),List.length_cons]
    omega

theorem digits_plain {text : List Char} (plain : ∀ c ∈ text, c = '-' ∨ isHex c = true) :
    digits (String.ofList text) = text.filter (fun c => c ≠ '-') := by
  have kept : ∀ c ∈ text.filter (fun c => c ≠ '-'), c.toLower = c := by
    intro c member
    rw [List.mem_filter] at member
    rcases plain c member.1 with hyphen | hex
    · simp [hyphen] at member
    · exact (isHex_plain hex).1
  rw [digits,String.toList_ofList]
  exact (List.map_congr_left kept).trans (List.map_id _)

/-- The five groups of the digits of a UUID. -/
def groups (text : String) : List (List Char) :=
  [(digits text).take 8,((digits text).drop 8).take 4,((digits text).drop 12).take 4,((digits text).drop 16).take 4,
   (digits text).drop 20]

theorem canonical_groups (text : String) : canonical text = String.ofList (List.intercalate ['-'] (groups text)) := by
  simp [canonical,groups,List.intercalate,List.intersperse]

theorem groups_flatten (text : String) : (groups text).flatten = digits text := by
  have last := List.take_append_drop 4 ((digits text).drop 16)
  have third := List.take_append_drop 4 ((digits text).drop 12)
  have second := List.take_append_drop 4 ((digits text).drop 8)
  have first := List.take_append_drop 8 (digits text)
  simp only [List.drop_drop] at last third second
  simp only [groups,List.flatten_cons,List.flatten_nil,List.append_nil]
  rw [last,third,second,first]

theorem mem_intercalate {parts : List (List Char)} {c : Char} (member : c ∈ List.intercalate ['-'] parts) :
    c = '-' ∨ c ∈ parts.flatten := by
  induction parts with
  | nil => simp at member
  | cons part rest ih =>
    cases rest with
    | nil => simpa using Or.inr member
    | cons next rest =>
      rw [List.intercalate_cons_cons,List.mem_append,List.mem_append,List.mem_singleton] at member
      rcases member with (here | hyphen) | later
      · exact .inr (by simp [here])
      · exact .inl hyphen
      · rcases ih later with hyphen | inside
        · exact .inl hyphen
        · exact .inr (by rw [List.flatten_cons]; exact List.mem_append_right _ inside)

theorem filter_intercalate {parts : List (List Char)} (plain : ∀ c ∈ parts.flatten, c ≠ '-') :
    (List.intercalate ['-'] parts).filter (fun c => c ≠ '-') = parts.flatten := by
  induction parts with
  | nil => rfl
  | cons part rest ih =>
    rw [List.flatten_cons] at plain
    have own : part.filter (fun c => c ≠ '-') = part := by
      rw [List.filter_eq_self]
      intro c member
      simpa using plain c (List.mem_append_left _ member)
    cases rest with
    | nil =>
      rw [List.intercalate_singleton,own]
      simp
    | cons next rest =>
      have later := ih (fun c member => plain c (List.mem_append_right _ member))
      rw [List.intercalate_cons_cons,List.filter_append,List.filter_append,own,later,List.flatten_cons (l := part)]
      simp

/-- A UUID comes back as the text of the same UUID. -/
theorem canonical_uuid {text : String} (uuid : isUuid text = true) :
    isUuid (canonical text) = true ∧ canonical (canonical text) = canonical text := by
  simp only [isUuid,Bool.and_eq_true,decide_eq_true_eq,List.all_eq_true] at uuid
  obtain ⟨⟨_,length⟩,hex⟩ := uuid
  have plain : ∀ c ∈ List.intercalate ['-'] (groups text), c = '-' ∨ isHex c = true := by
    intro c member
    rcases mem_intercalate member with hyphen | inside
    · exact .inl hyphen
    · rw [groups_flatten] at inside
      exact .inr (hex c inside)
  have same : digits (canonical text) = digits text := by
    rw [canonical_groups,digits_plain plain,filter_intercalate,groups_flatten]
    intro c member
    rw [groups_flatten] at member
    exact (isHex_plain (hex c member)).2.1
  have size : (canonical text).utf8ByteSize = 36 := by
    rw [canonical_groups,size_ascii]
    · simp [groups,length]
    · intro c member
      rcases plain c member with rfl | digit
      · rfl
      · exact (isHex_plain digit).2.2
  constructor
  · simp only [isUuid,same,size,Bool.and_eq_true,decide_eq_true_eq,List.all_eq_true]
    exact ⟨⟨le_refl 36,length⟩,hex⟩
  · rw [canonical,same]
    rfl

/-! ### Messages -/

def Publication.event : Publication → String
  | .taskScheduled _ _ => "task_scheduled"
  | .taskFailed _ _ => "task_failed"
  | .taskCompleted _ _ => "task_completed"

/-- The dictionary that `poll_pg` or `publish_event` sends. -/
def message (timestamp : String) : Publication → Dict
  | .taskScheduled taskId provider =>
    [("event",.str "task_scheduled"),("task_id",.str taskId),("provider",.str provider),("timestamp",.str timestamp)]
  | .taskFailed taskId error =>
    [("event",.str "task_failed"),("task_id",.str taskId),("timestamp",.str timestamp),("error",.str error)]
  | .taskCompleted taskId result =>
    [("event",.str "task_completed"),("task_id",.str taskId),("timestamp",.str timestamp),
     ("result",match result with | some result => .dict result | none => .null)]

/-! ### The listener -/

/-- A row of the table `events`; its `id` and `created_at` take their defaults. -/
structure EventRow where
  workflowId : Option String
  eventType : String
  payload : String

/-- Whether a value counts as true. -/
def truthy : Json → Bool
  | .null => false
  | .bool value => value
  | .int value => decide (value ≠ 0)
  | .float _ (.finite value) => decide (value ≠ 0)
  | .float _ _ => true
  | .str value => decide (value ≠ "")
  | .list items => !items.isEmpty
  | .dict entries => !entries.isEmpty

/-- `task_id[:8] if len(task_id) > 8 else task_id` does not raise. -/
def sliceable : Json → Bool
  | .str _ => true
  | .list _ => true
  | .dict entries => decide (entries.length ≤ 8)
  | _ => false

/-- The reference that a nullable UUID column takes, if the row that it names is there. -/
def reference (workflows : List String) : Json → Option (Option String)
  | .null => some none
  | .str text => if isUuid text && workflows.contains (canonical text) then some (some (canonical text)) else none
  | _ => none

/-- `INSERT INTO events`; `none` where it is refused. -/
def insertEvent (db : Database) (workflows : List String) (workflowId eventType : Json) (payload : Dict) :
    Option EventRow :=
  match reference workflows workflowId, eventType, db.jsonb payload with
  | some workflowId, .str eventType, some payload => if isText eventType then some ⟨workflowId,eventType,payload⟩ else none
  | _, _, _ => none

section
variable (float : String → String × FloatValue)

/-- `format_msg` of a decoded message. -/
def formatMsg (data : Option String) : Option Json :=
  data.map (fun text => (loads float text).getD (.dict [("raw",.str text)]))

/-- What one message makes `listen_events` store; an exception is only logged. -/
def listen (db : Database) (workflows : List String) (data : Option Json) : Option EventRow :=
  match data with
  | some (.dict entries) =>
    if entries.isEmpty then none
    else
      let event := (Dictionaries.get "event" entries).getD (.str "unknown")
      let taskId := (Dictionaries.get "task_id" entries).getD (.str "?")
      let workflowId := (Dictionaries.get "workflow_id" entries).getD .null
      if sliceable taskId then insertEvent db workflows (if truthy workflowId then workflowId else taskId) event entries
      else none
  | _ => none

/-! ### The system -/

/-- A task whose payload is a JSON value. -/
structure NewTask where
  task : Task
  carried : Carried float (.dict task.payload)

/-- The dispatch loop, the tables of the engine, and how many messages it has heard. -/
structure Engine where
  dispatch : DispatchState := idle
  workflows : List String := []
  events : List EventRow := []
  heard : Nat := 0

inductive Action
  | workflow (id : Uuid)
  | create (task : NewTask float)
  | scheduler (raises : Bool)
  | worker (index : Nat) (raises : Bool)
  | listen

/-- Whether the table `tasks` takes a row: its columns take the values, and the workflow
    that it names, if any, is there. -/
def accepts (db : Database) (workflows : List String) (task : Task) : Bool :=
  isUuid task.id &&
    (match task.workflowId with
      | none => true
      | some workflow => isUuid workflow && workflows.contains (canonical workflow)) &&
    (db.jsonb task.payload).isSome && isText task.taskType && isText task.provider && isInt4 task.maxAttempts

/-- A task as its row has it. -/
def stored (task : Task) : Task :=
  { task with id := canonical task.id, workflowId := task.workflowId.map canonical }

theorem stored_payload (task : Task) : (stored task).payload = task.payload := by
  cases task
  rfl

/-- One step; `timestamps` has the time of each message. -/
def step (db : Database) (timestamps : Nat → String) (taskQueue : Nat → String) (s : Engine) : Action float → Engine
  | .workflow id =>
    if s.workflows.contains (canonical id.text) then s else { s with workflows := s.workflows ++ [canonical id.text] }
  | .create task =>
    if accepts db s.workflows task.task then
      { s with dispatch := Dispatch.step taskQueue s.dispatch (.create (stored task.task)) }
    else s
  | .scheduler raises => { s with dispatch := Dispatch.step taskQueue s.dispatch (.scheduler raises) }
  | .worker index raises => { s with dispatch := Dispatch.step taskQueue s.dispatch (.worker index raises) }
  | .listen =>
    match s.dispatch.published[s.heard]? with
    | none => s
    | some publication =>
      let text := dumps (.dict (message (timestamps s.heard) publication))
      { s with
        events := s.events ++ (listen db s.workflows (formatMsg float (some text))).toList
        heard := s.heard + 1 }

end

/-! ### One message -/

section
variable {float : String → String × FloatValue}

theorem formatMsg_dumps {value : Json} (carried : Carried float value) :
    formatMsg float (some (dumps value)) = some value := by
  simp [formatMsg,JsonText.loads_dumps float carried]

/-- A result that JSON text carries. -/
def CarriedResult (float : String → String × FloatValue) : Option Dict → Prop
  | none => True
  | some result => Carried float (.dict result)

def CarriedPublication (float : String → String × FloatValue) : Publication → Prop
  | .taskCompleted _ result => CarriedResult float result
  | _ => True

theorem carried_message {publication : Publication} (carried : CarriedPublication float publication)
    (timestamp : String) : Carried float (.dict (message timestamp publication)) := by
  rw [Carried]
  cases publication with
  | taskScheduled taskId provider => exact ⟨by simp [message],by simp [message,JsonText.CarriedEntries,Carried]⟩
  | taskFailed taskId error => exact ⟨by simp [message],by simp [message,JsonText.CarriedEntries,Carried]⟩
  | taskCompleted taskId result =>
    refine ⟨by simp [message],?_⟩
    cases result with
    | none => simp [message,JsonText.CarriedEntries,Carried]
    | some result =>
      have inner : Carried float (.dict result) := carried
      simp [message,JsonText.CarriedEntries,Carried] at inner ⊢
      exact inner

theorem get_carried {entries : Dict} (carried : JsonText.CarriedEntries float entries) {key : String} {value : Json}
    (found : Dictionaries.get key entries = some value) : Carried float value := by
  induction entries with
  | nil => cases found
  | cons entry rest ih =>
    obtain ⟨other,first⟩ := entry
    obtain ⟨here,later⟩ := carried
    rw [Dictionaries.get] at found
    split_ifs at found
    · cases found
      exact here
    · exact ih later found

/-- Whatever a task of a JSON payload returns is a JSON value. -/
theorem executeTask_carried {data : TaskData} {result : Option Dict} {error : Option String}
    (payload : Carried float (.dict data.payload)) (executed : executeTask data = some (result,error)) :
    CarriedResult float result := by
  have field : ∀ key fallback, Carried float fallback → Carried float ((Dictionaries.get key data.payload).getD fallback) := by
    intro key fallback default_
    rw [Carried] at payload
    cases found : Dictionaries.get key data.payload with
    | none => exact default_
    | some value => exact get_carried payload.2 found
  unfold executeTask at executed
  split_ifs at executed
  · cases executed
    have value := field "message" (.str "") (by simp [Carried])
    simp [CarriedResult,Carried,JsonText.CarriedEntries,value]
  · dsimp only at executed
    split_ifs at executed
    cases executed
    have value := field "duration" (.int 1) (by simp [Carried])
    simp [CarriedResult,Carried,JsonText.CarriedEntries,value]
  · cases executed
    trivial
  · cases executed
    simp only [CarriedResult]
    rw [Carried]
    exact ⟨by simp,by simp [JsonText.CarriedEntries,Carried] at payload ⊢; exact payload⟩

/-- A message about a task is stored when a workflow has the identifier of the task, and as
    an event of that workflow. -/
theorem listen_message {publication : Publication} (uuid : isUuid (Publication.taskId publication) = true)
    (plain : canonical (Publication.taskId publication) = Publication.taskId publication) (db : Database)
    (workflows : List String) (timestamp : String) :
    listen db workflows (some (.dict (message timestamp publication))) =
      if Publication.taskId publication ∈ workflows then
        (db.jsonb (message timestamp publication)).map
          (fun payload => ⟨some (Publication.taskId publication),Publication.event publication,payload⟩)
      else none := by
  have named : (Dictionaries.get "task_id" (message timestamp publication)).getD (.str "?") =
      .str (Publication.taskId publication) := by
    cases publication <;> simp [message,Dictionaries.get,Publication.taskId]
  have kind : (Dictionaries.get "event" (message timestamp publication)).getD (.str "unknown") =
      .str (Publication.event publication) := by
    cases publication <;> simp [message,Dictionaries.get,Publication.event]
  have unassigned : (Dictionaries.get "workflow_id" (message timestamp publication)).getD .null = .null := by
    cases publication <;> simp [message,Dictionaries.get]
  have filled : (message timestamp publication).isEmpty = false := by cases publication <;> rfl
  have text : isText (Publication.event publication) = true := by cases publication <;> simp [Publication.event,isText]
  have referred : reference workflows (.str (Publication.taskId publication)) =
      if Publication.taskId publication ∈ workflows then some (some (Publication.taskId publication)) else none := by
    simp [reference,uuid,plain]
  have falsy : truthy .null = false := rfl
  have sized : sliceable (.str (Publication.taskId publication)) = true := rfl
  simp only [listen,named,kind,unassigned,filled,sized,falsy,if_true,Bool.false_eq_true,if_false,insertEvent,referred]
  split_ifs with known
  · cases stored : db.jsonb (message timestamp publication) with
    | none => rfl
    | some payload => simp only [text,if_true,Option.map_some]
  · rfl

end

end Hookclose.EventListener
