import Hookclose.Floats
import Hookclose.Programs
import Hookclose.TaskModels

/-!
What the worker shares with its ports: commands and their results, file patches,
reports and events; the operations on payload values that may raise; and the history of
what the worker has done, on which the answers of everything outside it depend.
-/
namespace Hookclose

/-- The exceptions that an execution raises. -/
inductive Raised
  | keyError (key : String)
  | typeError (message : String)
  | valueError (message : String)
  | overflowError (message : String)
  | osError (message : String)
  | runtimeError (message : String)

/-! ### Operations on payload values -/

namespace Json

/-- The name of a value's type. -/
def typeName : Json → String
  | .null => "NoneType"
  | .bool _ => "bool"
  | .int _ => "int"
  | .float _ _ => "float"
  | .str _ => "str"
  | .list _ => "list"
  | .dict _ => "dict"

/-- `value[key]` with a text key. -/
def item (key : String) : Json → Except Raised Json
  | .dict entries =>
    match Dictionaries.get key entries with
    | some value => .ok value
    | none => .error (.keyError key)
  | .list _ => .error (.typeError "list indices must be integers or slices, not str")
  | .str _ => .error (.typeError "string indices must be integers, not 'str'")
  | other => .error (.typeError ("'" ++ other.typeName ++ "' object is not subscriptable"))

/-- What a loop over the value goes through. -/
def iterate : Json → Except Raised (List Json)
  | .list items => .ok items
  | .str value => .ok (value.toList.map (fun c => .str (String.singleton c)))
  | .dict entries => .ok (entries.map (fun entry => .str entry.1))
  | other => .error (.typeError ("'" ++ other.typeName ++ "' object is not iterable"))

/-- `float` of a value. -/
def toFloat : Json → Except Raised FloatValue
  | .bool value => .ok (.finite (if value then 1 else 0))
  | .int value =>
    match Floats.nearest value with
    | .finite value => .ok (.finite value)
    | _ => .error (.overflowError "int too large to convert to float")
  | .float _ value => .ok value
  | .str value =>
    match Floats.parse value with
    | some value => .ok value
    | none => .error (.valueError ("could not convert string to float: " ++ Text.repr value))
  | other => .error (.typeError ("float() argument must be a string or a real number, not '" ++ other.typeName ++ "'"))

end Json

/-! ### Contracts -/

structure CommandResult where
  exitCode : Int
  stdout : String
  stderr : String
  durationMs : Int
  timedOut : Bool := false

def CommandResult.success (result : CommandResult) : Bool := result.exitCode = 0 && !result.timedOut

/-- The arguments of `CommandRunner.run`. -/
structure CommandCall where
  command : List String
  cwd : String
  timeout : FloatValue

/-- A file to write; the fields are what the payload has under the two keys. -/
structure FilePatch where
  path : Json
  content : Json

structure StepResult where
  name : String
  command : List String
  exitCode : Int
  success : Bool
  durationMs : Int
  stdoutTail : String := ""
  stderrTail : String := ""

structure ExecutionReport where
  taskId : String
  worker : String
  branch : String
  success : Bool
  attempts : Nat
  steps : List StepResult := []
  artifacts : List String := []
  error : Option String := none
  failedStep : Option String := none

/-- A text or `None`, as a payload value. -/
def Json.ofText : Option String → Json
  | some text => .str text
  | none => .null

/-- An entry of the steps in `to_dict`. -/
def StepResult.toDict (step : StepResult) : Dict :=
  [("name",.str step.name),
    ("command",.list (step.command.map .str)),
    ("exit_code",.int step.exitCode),
    ("success",.bool step.success),
    ("duration_ms",.int step.durationMs),
    ("stdout_tail",.str step.stdoutTail),
    ("stderr_tail",.str step.stderrTail)]

def ExecutionReport.toDict (report : ExecutionReport) : Dict :=
  [("task_id",.str report.taskId),
    ("worker",.str report.worker),
    ("branch",.str report.branch),
    ("success",.bool report.success),
    ("attempts",.int report.attempts),
    ("error",.ofText report.error),
    ("failed_step",.ofText report.failedStep),
    ("steps",.list (report.steps.map (fun step => .dict step.toDict))),
    ("artifacts",.list (report.artifacts.map .str))]

/-- What a provider has made of a goal. -/
structure GenerationResult where
  provider : String
  patches : List FilePatch
  notes : String
  totalTokens : Int
  degraded : Bool := false

/-- The generator returns a result or raises `NoProviderAvailable` with a text. -/
abbrev Reply := Except String GenerationResult

/-! ### Events -/

inductive WorkerEvent
  | started (taskId taskType worker branch : String) (attempt : Nat)
  | codeGenerated (taskId provider : String) (files : Nat) (totalTokens : Int)
  | stepCompleted (taskId step : String) (exitCode : Int) (success : Bool) (durationMs : Int)
  | succeeded (taskId worker branch : String) (attempts : Nat) (artifacts : List String)
  | failed (taskId worker failedStep : String) (attempts : Nat) (error : String)
  | retryScheduled (taskId : String) (attempt maxAttempts : Nat) (reason : String)

namespace WorkerEvent

def isStarted : WorkerEvent → Bool
  | started .. => true
  | _ => false

def isStepCompleted : WorkerEvent → Bool
  | stepCompleted .. => true
  | _ => false

/-- The end of an attempt. -/
def isFinished : WorkerEvent → Bool
  | succeeded .. => true
  | failed .. => true
  | _ => false

def isRetry : WorkerEvent → Bool
  | retryScheduled .. => true
  | _ => false

def taskId : WorkerEvent → String
  | started id .. => id
  | codeGenerated id .. => id
  | stepCompleted id .. => id
  | succeeded id .. => id
  | failed id .. => id
  | retryScheduled id .. => id

end WorkerEvent

/-! ### Histories -/

/-- Something the worker has done, with the answer it got. -/
inductive Action
  | directory (path : String)
  | git (call : CommandCall) (result : CommandResult)
  | ran (call : CommandCall) (result : CommandResult)
  | file (path content : String)
  | asked (goal context : String) (reply : Reply)
  | stored (taskId name payload : String)
  | emitted (event : WorkerEvent)

abbrev History := List Action

/-- A part of the worker. -/
abbrev Program := EStateM Raised History

namespace History

/-- The emitted event stream. -/
def events (history : History) : List WorkerEvent :=
  history.filterMap (fun action => match action with | .emitted event => some event | _ => none)

/-- The commands of steps, with their results. -/
def ran (history : History) : List (CommandCall × CommandResult) :=
  history.filterMap (fun action => match action with | .ran call result => some (call,result) | _ => none)

/-- The files written. -/
def written (history : History) : List (String × String) :=
  history.filterMap (fun action => match action with | .file path content => some (path,content) | _ => none)

/-- The replies of the generator. -/
def replies (history : History) : List Reply :=
  history.filterMap (fun action => match action with | .asked _ _ reply => some reply | _ => none)

/-- The artifacts stored: of which task, under which name, and the text. -/
def stored (history : History) : List (String × String × String) :=
  history.filterMap (fun action =>
    match action with | .stored taskId name payload => some (taskId,name,payload) | _ => none)

@[simp] theorem events_append (first second : History) : events (first ++ second) = events first ++ events second :=
  List.filterMap_append

@[simp] theorem ran_append (first second : History) : ran (first ++ second) = ran first ++ ran second :=
  List.filterMap_append

@[simp] theorem written_append (first second : History) : written (first ++ second) = written first ++ written second :=
  List.filterMap_append

@[simp] theorem replies_append (first second : History) : replies (first ++ second) = replies first ++ replies second :=
  List.filterMap_append

@[simp] theorem stored_append (first second : History) : stored (first ++ second) = stored first ++ stored second :=
  List.filterMap_append

end History

/-- `_emit`: an event joins the history. -/
def emit (event : WorkerEvent) : Program Unit := fun history => .ok () (history ++ [.emitted event])

@[simp] theorem emit_ok {event : WorkerEvent} {history after : History} :
    emit event history = .ok () after ↔ history ++ [.emitted event] = after := by
  simp [emit]

end Hookclose
