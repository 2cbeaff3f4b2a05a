import Hookclose.JsonText
import Hookclose.Workspaces

/-!
The worker: an attempt at a task generates patches where the task asks for it, writes
them with the task's own into its workspace, and runs the task's steps until one fails;
a failed attempt is made again up to a bound; a drain executes the tasks of a source one
after the other.
-/
namespace Hookclose.OpenClaw
open Hookclose.Programs Hookclose.Workspaces

/-- The worker with its ports. A generator answers with a result or no provider; the store
    and the event bus do not fail. -/
structure Worker where
  host : Host
  base : String
  generator : Option (History → String → String → Reply) := none
  artifacts : Option (History → String → String → String → String) := none

def name : String := "openclaw"

/-- The first characters of a text. -/
def head (count : Nat) (text : String) : String := String.ofList (text.toList.take count)

/-- The last characters of a text. -/
def tail (count : Nat) (text : String) : String := String.ofList (text.toList.drop (text.toList.length - count))

/-! ### What the payload asks for -/

/-- `_patches` -/
def patches (task : Task) : List Json :=
  match Dictionaries.get "patches" task.payload with
  | some (.list items) => items
  | _ => []

/-- `_steps` -/
def steps (task : Task) : List Json :=
  match Dictionaries.get "steps" task.payload with
  | some (.list items) => items
  | _ => []

def filePatch (value : Json) : Except Raised FilePatch := do
  let path ← value.item "path"
  let content ← value.item "content"
  pure ⟨path,content⟩

def timeoutOf (task : Task) : Json := (Dictionaries.get "timeout" task.payload).getD (.float "120.0" (.finite 120))

def commandOf (spec : Json) : Except Raised (List String) := do
  let command ← spec.item "command"
  let parts ← command.iterate
  pure (parts.map Json.toText)

def nameOf (spec : Json) : Except Raised String := (spec.item "name").map Json.toText

/-! ### Generation -/

def genStep : String := "generate"

/-- `_failed_gen_step` -/
def failedGenStep (reason : String) : StepResult where
  name := genStep
  command := ["<llm:generate>"]
  exitCode := 1
  success := false
  durationMs := 0
  stderrTail := head 600 reason

/-- The step of a generation that succeeded. -/
def madeGenStep (result : GenerationResult) : StepResult where
  name := genStep
  command := ["<llm:generate>"]
  exitCode := 0
  success := true
  durationMs := 0
  stdoutTail := toString result.patches.length ++ " file(s) via " ++ result.provider

/-- The `generate` entry, if it is a dictionary. -/
def generationSpec (task : Task) : Option Dict :=
  match Dictionaries.get "generate" task.payload with
  | some (.dict spec) => some spec
  | _ => none

def ask (generator : History → String → String → Reply) (goal context : String) : Program Reply := fun history =>
  .ok (generator history goal context) (history ++ [.asked goal context (generator history goal context)])

/-- `_generate` -/
def generate (worker : Worker) (task : Task) : Program (List FilePatch × Option StepResult) :=
  match generationSpec task,worker.generator with
  | some spec,some generator => do
    let goal := Json.toText ((Dictionaries.get "goal" spec).getD (.str ""))
    let context := Json.toText ((Dictionaries.get "context" spec).getD (.str ""))
    let reply ← ask generator goal context
    match reply with
    | .error message => pure ([],some (failedGenStep ("no provider available: " ++ message)))
    | .ok result =>
      if result.degraded || result.patches.isEmpty then
        pure ([],some (failedGenStep "provider returned no usable files"))
      else do
        emit (.codeGenerated task.id result.provider result.patches.length result.totalTokens)
        emit (.stepCompleted task.id genStep 0 true 0)
        pure (result.patches,some (madeGenStep result))
  | _,_ => pure ([],none)

/-! ### Steps -/

def run (host : Host) (call : CommandCall) : Program CommandResult := fun history =>
  .ok (host.run history call) (history ++ [.ran call (host.run history call)])

def stepResult (name : String) (command : List String) (result : CommandResult) : StepResult where
  name := name
  command := command
  exitCode := result.exitCode
  success := result.success
  durationMs := result.durationMs
  stdoutTail := tail 600 result.stdout
  stderrTail := tail 600 result.stderr

/-- A turn of the loop over the steps. -/
def runStep (worker : Worker) (task : Task) (root : String) (timeout : FloatValue) (spec : Json) :
    Program StepResult := do
  let command ← lift (commandOf spec)
  let result ← run worker.host ⟨command,root,timeout⟩
  let name ← lift (nameOf spec)
  let step := stepResult name command result
  emit (.stepCompleted task.id step.name step.exitCode step.success step.durationMs)
  pure step

/-- The results of the steps up to the first that fails, with its name. -/
def runSteps (worker : Worker) (task : Task) (root : String) (timeout : FloatValue) :
    List Json → Program (List StepResult × Option String)
  | [] => pure ([],none)
  | spec :: rest => do
    let step ← runStep worker task root timeout spec
    if step.success then do
      let (later,failed) ← runSteps worker task root timeout rest
      pure (step :: later,failed)
    else pure ([step],some step.name)

/-! ### Attempts -/

def reportFile (attempt : Nat) : String := "report-attempt-" ++ toString attempt ++ ".json"

/-- `_persist_report` -/
def persistReport (worker : Worker) (task : Task) (branch : String) (success : Bool) (attempt : Nat)
    (steps : List StepResult) (failedStep : Option String) : Program (List String) := fun history =>
  match worker.artifacts with
  | none => .ok [] history
  | some put =>
    let report : ExecutionReport :=
      { taskId := task.id
        worker := name
        branch := branch
        success := success
        attempts := attempt
        steps := steps
        failedStep := failedStep }
    let payload := JsonText.dumpsSorted 2 (.dict report.toDict)
    .ok [put history task.id (reportFile attempt) payload]
      (history ++ [.stored task.id (reportFile attempt) payload])

/-- `text or other` -/
def orElse (text : Option String) (other : String) : String :=
  match text with
  | some text => if text = "" then other else text
  | none => other

/-- The event that begins an attempt. -/
def started (task : Task) (attempt : Nat) (branch : String) : WorkerEvent :=
  .started task.id task.taskType name branch attempt

/-- The event that ends an attempt. -/
def finished (report : ExecutionReport) : WorkerEvent :=
  if report.success then .succeeded report.taskId name report.branch report.attempts report.artifacts
  else
    .failed report.taskId name (orElse report.failedStep "unknown") report.attempts
      (orElse report.error "execution failed")

/-- The step that a generation failed in. -/
def ungenerated (step : Option StepResult) : Option String :=
  (step.filter (fun step => !step.success)).map StepResult.name

def reportOf (task : Task) (attempt : Nat) (branch : String) (results : List StepResult) (failedStep : Option String)
    (artifacts : List String) : ExecutionReport where
  taskId := task.id
  worker := name
  branch := branch
  success := failedStep.isNone
  attempts := attempt
  steps := results
  artifacts := artifacts
  failedStep := failedStep
  error := failedStep.map (fun step => "step " ++ Text.repr step ++ " failed")

/-- The end of `_execute_once`: the report of what was run. -/
def conclude (worker : Worker) (task : Task) (attempt : Nat) (branch : String) (results : List StepResult)
    (failedStep : Option String) : Program ExecutionReport := do
  let artifacts ← persistReport worker task branch failedStep.isNone attempt results failedStep
  let report := reportOf task attempt branch results failedStep artifacts
  emit (finished report)
  pure report

/-- `_execute_once` after generation: the patches, those generated before those of the
    payload, and the steps. -/
def complete (worker : Worker) (task : Task) (attempt : Nat) (workspace : Workspace) (files : List FilePatch)
    (step : Option StepResult) : Program ExecutionReport := do
  let _ ← if (ungenerated step).isNone then writePatches worker.host workspace.root files else pure []
  let timeout ← lift (timeoutOf task).toFloat
  let toRun := if (ungenerated step).isNone then steps task else []
  let (ran,stopped) ← runSteps worker task workspace.root timeout toRun
  conclude worker task attempt workspace.branch (step.toList ++ ran) ((ungenerated step).or stopped)

/-- `_execute_once` -/
def executeOnce (worker : Worker) (task : Task) (attempt : Nat) : Program ExecutionReport := do
  let workspace ← create worker.host worker.base task.id
  emit (started task attempt workspace.branch)
  let static ← lift ((patches task).mapM filePatch)
  let (generated,step) ← generate worker task
  complete worker task attempt workspace (generated ++ static) step

def maxAttempts (task : Task) : Nat := (max 1 task.maxAttempts).toNat

def retry (task : Task) (report : ExecutionReport) : WorkerEvent :=
  .retryScheduled task.id report.attempts (maxAttempts task) (orElse report.failedStep "execution failed")

/-- The loop of `execute` from an attempt on, with the report of the attempt before. -/
def executeFrom (worker : Worker) (task : Task) : Nat → Nat → Option ExecutionReport → Program ExecutionReport
  | 0,_,some report => pure report
  | 0,_,none => throw (.runtimeError "no execution attempt was made")
  | rounds + 1,attempt,_ => do
    let report ← executeOnce worker task attempt
    if report.success then pure report
    else if attempt < maxAttempts task then do
      emit (retry task report)
      executeFrom worker task rounds (attempt + 1) (some report)
    else executeFrom worker task rounds (attempt + 1) (some report)

def execute (worker : Worker) (task : Task) : Program ExecutionReport :=
  executeFrom worker task (maxAttempts task) 1 none

/-! ### Sources -/

/-- `InMemoryTaskSource.claim` -/
def claim : List Task → Option Task × List Task
  | [] => (none,[])
  | task :: rest => (some task,rest)

/-- The report of the task that is claimed, with what is left in the source. -/
def consumeOnce (worker : Worker) (source : List Task) : Program (Option ExecutionReport × List Task) :=
  match claim source with
  | (none,rest) => pure (none,rest)
  | (some task,rest) => do
    let report ← execute worker task
    pure (some report,rest)

/-- What is left in the source when the drain returns. -/
def runForever (worker : Worker) (stop : Option (History → Bool)) (source : List Task) :
    Program (List Task) := fun history =>
  if (stop.map (fun stop => stop history)).getD false then .ok source history
  else
    match source with
    | [] => .ok [] history
    | task :: rest => (execute worker task >>= fun _ => runForever worker stop rest) history

end Hookclose.OpenClaw
