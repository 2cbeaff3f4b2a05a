import Hookclose.OpenClaw

/-!
One attempt at a task: the exact condition for it to come to its end (`Attemptable`), and
what it then has added to the history (`Attempted`).
-/
namespace Hookclose.Attempts
open Hookclose.Programs Hookclose.Workspaces Hookclose.OpenClaw

/-! ### Payloads -/

/-- An entry of the patches has what a patch is made of. -/
def Keyed (value : Json) : Prop :=
  ∃ entries path content, value = .dict entries ∧ Dictionaries.get "path" entries = some path ∧
    Dictionaries.get "content" entries = some content

/-- A value that a loop can go through. -/
def Iterable : Json → Prop
  | .list _ => True
  | .str _ => True
  | .dict _ => True
  | _ => False

/-- An entry of the steps has a command and a name. -/
def Runnable (spec : Json) : Prop :=
  ∃ entries command name, spec = .dict entries ∧ Dictionaries.get "command" entries = some command ∧ Iterable command ∧
    Dictionaries.get "name" entries = some name

/-- A value that `float` takes: a number not too large, or the text of one. -/
def Numeric : Json → Prop
  | .bool _ => True
  | .int value => ∃ rounded, Floats.nearest value = .finite rounded
  | .float _ _ => True
  | .str value => (Floats.parse value).isSome = true
  | _ => False

theorem iterate_ok (value : Json) : (∃ items, value.iterate = .ok items) ↔ Iterable value := by
  cases value <;> simp [Json.iterate,Iterable]

theorem toFloat_ok {value : Json} : (∃ timeout, value.toFloat = .ok timeout) ↔ Numeric value := by
  cases value with
  | int value =>
    rw [Json.toFloat,Numeric]
    cases Floats.nearest value <;> simp
  | str value => cases parsed : Floats.parse value <;> simp [Json.toFloat,Numeric,parsed]
  | _ => simp [Json.toFloat,Numeric]

theorem filePatch_ok {value : Json} : (∃ patch, filePatch value = .ok patch) ↔ Keyed value := by
  cases value with
  | dict entries =>
    cases path : Dictionaries.get "path" entries <;> cases content : Dictionaries.get "content" entries <;>
      simp [filePatch,Keyed,Json.item,path,content,bind,Except.bind,pure,Except.pure]
  | _ => simp [filePatch,Keyed,Json.item,bind,Except.bind]

/-- A step can be run exactly when its command and its name are there. -/
theorem runnable_iff {spec : Json} :
    Runnable spec ↔ (∃ command, commandOf spec = .ok command) ∧ ∃ name, nameOf spec = .ok name := by
  cases spec with
  | dict entries =>
    cases found : Dictionaries.get "command" entries with
    | none => simp [Runnable,commandOf,Json.item,found,bind,Except.bind]
    | some command =>
      have loops := iterate_ok command
      cases iterated : command.iterate with
      | error exception =>
        rw [iterated] at loops
        have stuck : ¬ Iterable command := by simpa using loops
        simp [Runnable,commandOf,Json.item,found,iterated,stuck,bind,Except.bind]
      | ok items =>
        have goes : Iterable command := loops.mp ⟨items,iterated⟩
        cases named : Dictionaries.get "name" entries <;>
          simp [Runnable,commandOf,nameOf,Json.item,found,named,iterated,goes,bind,Except.bind,pure,Except.pure,
            Except.map]
  | _ => simp [Runnable,commandOf,Json.item,bind,Except.bind]

/-! ### Steps -/

section
variable {worker : Worker} {task : Task} {root : String} {timeout : FloatValue} {history after : History}

/-- The event of a step that has run. -/
def completed (task : Task) (step : StepResult) : WorkerEvent :=
  .stepCompleted task.id step.name step.exitCode step.success step.durationMs

theorem runStep_ok {spec : Json} {step : StepResult} : runStep worker task root timeout spec history = .ok step after ↔
    ∃ command name, commandOf spec = .ok command ∧ nameOf spec = .ok name ∧
      step = stepResult name command (worker.host.run history ⟨command,root,timeout⟩) ∧
      after = history ++ [.ran ⟨command,root,timeout⟩ (worker.host.run history ⟨command,root,timeout⟩),
        .emitted (completed task step)] := by
  unfold runStep
  constructor
  · intro returned
    obtain ⟨command,_,first,returned⟩ := bind_ok.mp returned
    obtain ⟨commanded,rfl⟩ := lift_ok.mp first
    rw [bind_of_ok (show run worker.host _ history = .ok _ _ from rfl)] at returned
    obtain ⟨name,_,second,returned⟩ := bind_ok.mp returned
    obtain ⟨named,rfl⟩ := lift_ok.mp second
    obtain ⟨_,_,third,returned⟩ := bind_ok.mp returned
    obtain rfl := emit_ok.mp third
    obtain ⟨rfl,rfl⟩ := pure_ok.mp returned
    refine ⟨command,name,commanded,named,rfl,?_⟩
    rw [List.append_assoc]
    rfl
  · rintro ⟨command,name,commanded,named,rfl,rfl⟩
    rw [bind_of_ok (lift_ok.mpr ⟨commanded,rfl⟩),bind_of_ok (show run worker.host _ history = .ok _ _ from rfl),
      bind_of_ok (lift_ok.mpr ⟨named,rfl⟩),bind_of_ok (emit_ok.mpr rfl),List.append_assoc]
    rfl

theorem runStep_returns {spec : Json} : Returns (runStep worker task root timeout spec) history ↔ Runnable spec := by
  rw [runnable_iff]
  constructor
  · rintro ⟨step,_,returned⟩
    obtain ⟨command,name,commanded,named,_⟩ := runStep_ok.mp returned
    exact ⟨⟨command,commanded⟩,name,named⟩
  · rintro ⟨⟨command,commanded⟩,name,named⟩
    exact ⟨_,_,runStep_ok.mpr ⟨command,name,commanded,named,rfl,rfl⟩⟩

/-- Every step that is come to can be run: the steps before it have succeeded. -/
def StepsRunnable (worker : Worker) (task : Task) (root : String) (timeout : FloatValue) : List Json → History → Prop
  | [],_ => True
  | spec :: rest,history => Runnable spec ∧
      ∀ step after, runStep worker task root timeout spec history = .ok step after → step.success = true →
        StepsRunnable worker task root timeout rest after

theorem runSteps_returns {specs : List Json} :
    Returns (runSteps worker task root timeout specs) history ↔
      StepsRunnable worker task root timeout specs history := by
  induction specs generalizing history with
  | nil => simp [runSteps,StepsRunnable]
  | cons spec rest ih =>
    have own : Returns (runStep worker task root timeout spec) history ↔ Runnable spec := runStep_returns
    rw [runSteps,StepsRunnable,← own]
    constructor
    · intro returns
      obtain ⟨step,after,ran,returns⟩ := returns_bind.mp returns
      refine ⟨⟨step,after,ran⟩,?_⟩
      intro other later again success
      rw [ran] at again
      cases again
      rw [if_pos success] at returns
      obtain ⟨_,_,others,_⟩ := returns_bind.mp returns
      exact ih.mp ⟨_,_,others⟩
    · rintro ⟨⟨step,after,ran⟩,others⟩
      rw [returns_after ran]
      by_cases success : step.success = true
      · rw [if_pos success]
        obtain ⟨_,_,later⟩ := ih.mpr (others step after ran success)
        exact (returns_after later).mpr returns_pure
      · rw [if_neg success]
        exact returns_pure

/-- The commands of steps, with their results, as they were run. -/
def Performs (root : String) (timeout : FloatValue) : List Json → List (CommandCall × CommandResult) → Prop :=
  List.Forall₂ (fun spec entry => ∃ command, commandOf spec = .ok command ∧ entry.1 = ⟨command,root,timeout⟩)

/-- The steps have been run up to the first that fails, which is named, or all. -/
inductive StepsEnd (root : String) (timeout : FloatValue) (specs : List Json) :
    List (CommandCall × CommandResult) → Option String → Prop
  | passed {ran : List (CommandCall × CommandResult)} (performed : Performs root timeout specs ran)
      (succeeded : ∀ entry ∈ ran, entry.2.success = true) : StepsEnd root timeout specs ran none
  | stopped {done rest : List Json} {spec : Json} {ran : List (CommandCall × CommandResult)}
      {last : CommandCall × CommandResult} {name : String} (split : specs = done ++ spec :: rest)
      (performed : Performs root timeout (done ++ [spec]) (ran ++ [last]))
      (succeeded : ∀ entry ∈ ran, entry.2.success = true) (fails : last.2.success = false) (named : nameOf spec = .ok name) :
      StepsEnd root timeout specs (ran ++ [last]) (some name)

theorem StepsEnd.cons {specs : List Json} {ran : List (CommandCall × CommandResult)} {failed : Option String}
    {spec : Json} {entry : CommandCall × CommandResult} (ends : StepsEnd root timeout specs ran failed)
    (first : ∃ command, commandOf spec = .ok command ∧ entry.1 = ⟨command,root,timeout⟩)
    (succeeds : entry.2.success = true) :
    StepsEnd root timeout (spec :: specs) (entry :: ran) failed := by
  cases ends with
  | passed performed succeeded => exact .passed (.cons first performed) (List.forall_mem_cons.mpr ⟨succeeds,succeeded⟩)
  | @stopped done rest other before last name split performed succeeded fails named =>
    have longer : spec :: specs = (spec :: done) ++ other :: rest := by rw [split,List.cons_append]
    have performs : Performs root timeout ((spec :: done) ++ [other]) ((entry :: before) ++ [last]) :=
      .cons first performed
    exact .stopped longer performs (List.forall_mem_cons.mpr ⟨succeeds,succeeded⟩) fails named

/-- What running steps adds to the history. -/
structure StepsAdd (task : Task) (root : String) (timeout : FloatValue) (specs : List Json) (added : History)
    (failed : Option String) : Prop where
  events : ∀ event ∈ History.events added, ∃ step, event = completed task step
  ends : StepsEnd root timeout specs (History.ran added) failed
  replies : History.replies added = []
  written : History.written added = []

theorem runSteps_adds {specs : List Json} {results : List StepResult} {failed : Option String}
    (returned : runSteps worker task root timeout specs history = .ok (results,failed) after) :
    ∃ added, after = history ++ added ∧ StepsAdd task root timeout specs added failed := by
  induction specs generalizing history results with
  | nil =>
    obtain ⟨same,rfl⟩ := pure_ok.mp returned
    cases same
    exact ⟨[],by simp,⟨by simp [History.events],.passed .nil (by simp [History.ran]),rfl,rfl⟩⟩
  | cons spec rest ih =>
    obtain ⟨step,_,first,returned⟩ := bind_ok.mp returned
    obtain ⟨command,name,commanded,named,same,rfl⟩ := runStep_ok.mp first
    have outcome : step.success = (worker.host.run history ⟨command,root,timeout⟩).success := by rw [same]; rfl
    by_cases success : step.success = true
    · rw [if_pos success] at returned
      obtain ⟨⟨later,failedLater⟩,_,others,returned⟩ := bind_ok.mp returned
      obtain ⟨pair,rfl⟩ := pure_ok.mp returned
      cases pair
      obtain ⟨added,rfl,adds⟩ := ih others
      refine ⟨_,List.append_assoc _ _ _,?_,?_,?_,?_⟩
      · rw [History.events_append]
        exact List.forall_mem_append.mpr ⟨by simp [History.events],adds.events⟩
      · exact adds.ends.cons ⟨command,commanded,rfl⟩ (outcome ▸ success)
      · exact adds.replies
      · exact adds.written
    · rw [if_neg success] at returned
      obtain ⟨pair,rfl⟩ := pure_ok.mp returned
      cases pair
      refine ⟨_,rfl,by simp [History.events],?_,rfl,rfl⟩
      have fails : (worker.host.run history ⟨command,root,timeout⟩).success = false := by
        rw [← outcome]
        exact Bool.eq_false_iff.mpr success
      have own : step.name = name := by rw [same]; rfl
      have performs : Performs root timeout ([] ++ [spec])
          ([] ++ [(⟨command,root,timeout⟩,worker.host.run history ⟨command,root,timeout⟩)]) :=
        .cons ⟨command,commanded,rfl⟩ .nil
      exact .stopped rfl performs (by simp) fails (own ▸ named)

end

/-! ### Generation -/

/-- The task asks for generated patches and the worker has a generator. -/
def requests (worker : Worker) (task : Task) : Bool := (generationSpec task).isSome && worker.generator.isSome

/-- A reply that generation succeeds with. -/
def usable : Reply → Bool
  | .ok result => !(result.degraded || result.patches.isEmpty)
  | .error _ => false

/-- The ways of the generation phase: its patches, its step and what it adds. -/
inductive Generated (worker : Worker) (task : Task) (history : History) :
    List FilePatch → Option StepResult → History → Prop
  | skipped (unasked : requests worker task = false) : Generated worker task history [] none []
  | refused {goal context : String} {reply : Reply} {reason : String} (asked : requests worker task = true)
      (unusable : usable reply = false) :
      Generated worker task history [] (some (failedGenStep reason)) [.asked goal context reply]
  | made {generator : History → String → String → Reply} {goal context : String} {result : GenerationResult}
      (asked : requests worker task = true) (configured : worker.generator = some generator)
      (answered : generator history goal context = .ok result) (accepted : usable (.ok result) = true) :
      Generated worker task history result.patches (some (madeGenStep result))
        [.asked goal context (.ok result),
          .emitted (.codeGenerated task.id result.provider result.patches.length result.totalTokens),
          .emitted (.stepCompleted task.id genStep 0 true 0)]

theorem generate_generated (worker : Worker) (task : Task) (history : History) : ∃ files step added,
    generate worker task history = .ok (files,step) (history ++ added) ∧
      Generated worker task history files step added := by
  unfold generate
  cases goal : generationSpec task with
  | none => exact ⟨[],none,[],by rw [List.append_nil]; rfl,.skipped (by simp [requests,goal])⟩
  | some spec =>
    cases configured : worker.generator with
    | none => exact ⟨[],none,[],by rw [List.append_nil]; rfl,.skipped (by simp [requests,configured])⟩
    | some generator =>
      have asked : requests worker task = true := by simp [requests,goal,configured]
      simp only
      rw [bind_of_ok (show ask generator _ _ history = .ok _ _ from rfl)]
      cases answered : generator history _ _ with
      | error message => exact ⟨[],_,_,rfl,.refused asked rfl⟩
      | ok result =>
        by_cases unusable : (result.degraded || result.patches.isEmpty) = true
        · simp only [if_pos unusable]
          exact ⟨[],_,_,rfl,.refused asked (by simp [usable,unusable])⟩
        · simp only [if_neg unusable]
          refine ⟨result.patches,_,_,?_,.made asked configured answered (by simp [usable,unusable])⟩
          rw [bind_of_ok (emit_ok.mpr rfl),bind_of_ok (emit_ok.mpr rfl),List.append_assoc,List.append_assoc]
          rfl

/-! ### Attempts -/

section
variable {worker : Worker} {task : Task} {attempt : Nat} {workspace : Workspace} {files : List FilePatch}
  {step : Option StepResult} {history after : History} {report : ExecutionReport}

theorem persistReport_ok (worker : Worker) (task : Task) (attempt : Nat) (history : History) (branch : String)
    (success : Bool) (results : List StepResult) (failed : Option String) : ∃ artifacts added,
      persistReport worker task branch success attempt results failed history = .ok artifacts (history ++ added) ∧
        Quiet added ∧ History.written added = [] := by
  unfold persistReport
  cases worker.artifacts with
  | none => exact ⟨[],[],by simp,⟨rfl,rfl,rfl⟩,rfl⟩
  | some put => exact ⟨_,_,rfl,⟨rfl,rfl,rfl⟩,rfl⟩

/-- What the end of an attempt adds to the history. -/
structure Concluded (task : Task) (attempt : Nat) (failed : Option String) (added : History)
    (report : ExecutionReport) : Prop where
  taskId : report.taskId = task.id
  attempts : report.attempts = attempt
  failedStep : report.failedStep = failed
  success : report.success = failed.isNone
  events : History.events added = [finished report]
  ran : History.ran added = []
  replies : History.replies added = []
  written : History.written added = []

theorem conclude_ok (worker : Worker) (task : Task) (attempt : Nat) (history : History) (branch : String)
    (results : List StepResult) (failed : Option String) : ∃ report added,
    conclude worker task attempt branch results failed history = .ok report (history ++ added) ∧
      Concluded task attempt failed added report := by
  obtain ⟨artifacts,added,persisted,quiet,written⟩ := persistReport_ok worker task attempt history branch
    failed.isNone results failed
  unfold conclude
  let report := reportOf task attempt branch results failed artifacts
  refine ⟨report,added ++ [.emitted (finished report)],?_,?_⟩
  · rw [bind_of_ok persisted,bind_of_ok (emit_ok.mpr rfl),List.append_assoc]
    rfl
  · constructor
    · rfl
    · rfl
    · rfl
    · rfl
    · exact (quiet.skip _).1
    · exact (quiet.skip _).2.1
    · exact (quiet.skip _).2.2
    · rw [History.written_append,written]
      rfl

/-- After generation an attempt comes to its end: the timeout is a number, and unless
    generation failed all patches can be written and the steps run. -/
structure Completable (worker : Worker) (task : Task) (workspace : Workspace) (files : List FilePatch)
    (step : Option StepResult) (history : History) : Prop where
  numeric : Numeric (timeoutOf task)
  writable : ungenerated step = none → AllWritable worker.host workspace.root files history
  runnable : ungenerated step = none → ∀ paths placed timeout,
    writePatches worker.host workspace.root files history = .ok paths placed → (timeoutOf task).toFloat = .ok timeout →
      StepsRunnable worker task workspace.root timeout (steps task) placed

theorem complete_returns : Returns (complete worker task attempt workspace files step) history ↔
    Completable worker task workspace files step history := by
  unfold complete
  have concludes : ∀ results failed history,
      Returns (conclude worker task attempt workspace.branch results failed) history := by
    intro results failed history
    obtain ⟨report,added,concluded,_⟩ := conclude_ok worker task attempt history workspace.branch results failed
    exact ⟨report,_,concluded⟩
  cases failed : ungenerated step with
  | some name =>
    simp only [Option.isNone_some,Bool.false_eq_true,if_false]
    rw [returns_after (pure_ok.mpr ⟨rfl,rfl⟩),returns_lift]
    constructor
    · rintro ⟨timeout,converted,_⟩
      exact ⟨toFloat_ok.mp ⟨timeout,converted⟩,by simp [failed],by simp [failed]⟩
    · intro completable
      obtain ⟨timeout,converted⟩ := toFloat_ok.mpr completable.numeric
      exact ⟨timeout,converted,(returns_after (pure_ok.mpr ⟨rfl,rfl⟩)).mpr (concludes _ _ _)⟩
  | none =>
    simp only [Option.isNone_none,if_true]
    constructor
    · intro returns
      obtain ⟨paths,placed,wrote,returns⟩ := returns_bind.mp returns
      obtain ⟨timeout,converted,returns⟩ := returns_lift.mp returns
      refine ⟨toFloat_ok.mp ⟨timeout,converted⟩,fun _ => writePatches_returns.mp ⟨_,_,wrote⟩,?_⟩
      intro _ _ _ _ again same
      rw [wrote] at again
      rw [converted] at same
      cases again
      cases same
      obtain ⟨_,_,ran,_⟩ := returns_bind.mp returns
      exact runSteps_returns.mp ⟨_,_,ran⟩
    · intro completable
      obtain ⟨paths,placed,wrote⟩ := writePatches_returns.mpr (completable.writable failed)
      obtain ⟨timeout,converted⟩ := toFloat_ok.mpr completable.numeric
      have runs := completable.runnable failed paths placed timeout wrote converted
      obtain ⟨_,_,ran⟩ := runSteps_returns.mpr runs
      rw [returns_after wrote,returns_after (lift_ok.mpr ⟨converted,rfl⟩),returns_after ran]
      exact concludes _ _ _

/-- An attempt comes to its end: its directory can be made, its patches have their keys,
    and what follows generation comes to its end. -/
structure Attemptable (worker : Worker) (task : Task) (attempt : Nat) (history : History) : Prop where
  directory : worker.host.mkdir history (join worker.base task.id) = .ok ()
  keyed : ∀ value ∈ patches task, Keyed value
  completable : ∀ workspace created static files step asked,
    create worker.host worker.base task.id history = .ok workspace created → (patches task).mapM filePatch = .ok static →
      generate worker task (created ++ [.emitted (started task attempt workspace.branch)]) = .ok (files,step) asked →
        Completable worker task workspace (files ++ static) step asked

theorem executeOnce_returns :
    Returns (executeOnce worker task attempt) history ↔ Attemptable worker task attempt history := by
  unfold executeOnce
  constructor
  · intro returns
    obtain ⟨workspace,created,opened,returns⟩ := returns_bind.mp returns
    rw [returns_after (emit_ok.mpr rfl)] at returns
    obtain ⟨static,parsed,returns⟩ := returns_lift.mp returns
    obtain ⟨⟨files,step⟩,asked,generated,returns⟩ := returns_bind.mp returns
    refine ⟨create_returns opened,fun value member => filePatch_ok.mp (mapM_ok.mp ⟨static,parsed⟩ value member),?_⟩
    intro _ _ _ _ _ _ sameOpened sameParsed sameGenerated
    rw [opened] at sameOpened
    cases sameOpened
    rw [parsed] at sameParsed
    cases sameParsed
    rw [generated] at sameGenerated
    cases sameGenerated
    exact complete_returns.mp returns
  · intro attemptable
    obtain ⟨enabled,made,opened,_⟩ := create_ok attemptable.directory
    obtain ⟨static,parsed⟩ := mapM_ok.mpr (fun value member => filePatch_ok.mpr (attemptable.keyed value member))
    obtain ⟨files,step,added,generated,_⟩ := generate_generated worker task
      (history ++ made ++ [.emitted (started task attempt (branchName task.id))])
    rw [returns_after opened,returns_after (emit_ok.mpr rfl),returns_after (lift_ok.mpr ⟨parsed,rfl⟩),
      returns_after generated]
    exact complete_returns.mpr (attemptable.completable _ _ _ _ _ _ opened parsed generated)

/-! ### What an attempt adds -/

/-- Generation was not asked for, or gave patches. -/
def GenerationSucceeds (worker : Worker) (task : Task) (added : History) : Prop :=
  (requests worker task = false ∧ History.replies added = []) ∨
    (requests worker task = true ∧ ∃ reply, History.replies added = [reply] ∧ usable reply = true)

/-- How the work of an attempt ends: in generation, before any patch or command, or in the
    steps. -/
inductive WorkEnds (worker : Worker) (task : Task) (added : History) : Option String → Prop
  | ungenerated {reply : Reply} (asked : requests worker task = true) (replied : History.replies added = [reply])
      (unusable : usable reply = false) (written : History.written added = []) (ran : History.ran added = []) :
      WorkEnds worker task added (some genStep)
  | worked {timeout : FloatValue} {failed : Option String} (generated : GenerationSucceeds worker task added)
      (converted : (timeoutOf task).toFloat = .ok timeout)
      (ends : StepsEnd (join worker.base task.id) timeout (steps task) (History.ran added) failed) :
      WorkEnds worker task added failed

/-- An event in the middle of an attempt. -/
def Inner (event : WorkerEvent) : Prop := event.isStarted = false ∧ event.isFinished = false ∧ event.isRetry = false

/-- What an attempt adds to the history, with its report. -/
structure Attempted (worker : Worker) (task : Task) (attempt : Nat) (added : History) (report : ExecutionReport) :
    Prop where
  attempts : report.attempts = attempt
  success : report.success = report.failedStep.isNone
  taskId : report.taskId = task.id
  events : ∃ middle, History.events added =
    started task attempt (branchName task.id) :: middle ++ [finished report] ∧ ∀ event ∈ middle, Inner event
  ends : WorkEnds worker task added report.failedStep

/-- What the part of an attempt after generation adds. -/
structure Completed (task : Task) (attempt : Nat) (root : String) (step : Option StepResult) (added : History)
    (report : ExecutionReport) : Prop where
  attempts : report.attempts = attempt
  success : report.success = report.failedStep.isNone
  taskId : report.taskId = task.id
  replies : History.replies added = []
  events : ∃ middle, History.events added = middle ++ [finished report] ∧ ∀ event ∈ middle, Inner event
  ungenerated : ∀ name, ungenerated step = some name →
    report.failedStep = some name ∧ History.written added = [] ∧ History.ran added = []
  worked : OpenClaw.ungenerated step = none → ∃ timeout, (timeoutOf task).toFloat = .ok timeout ∧
    StepsEnd root timeout (steps task) (History.ran added) report.failedStep

theorem complete_adds (returned : complete worker task attempt workspace files step history = .ok report after) :
    ∃ added, after = history ++ added ∧ Completed task attempt workspace.root step added report := by
  unfold complete at returned
  cases failed : ungenerated step with
  | some name =>
    simp only [failed,Option.isNone_some,Bool.false_eq_true,if_false] at returned
    rw [bind_of_ok (pure_ok.mpr ⟨rfl,rfl⟩)] at returned
    obtain ⟨timeout,_,converted,returned⟩ := bind_ok.mp returned
    obtain ⟨_,rfl⟩ := lift_ok.mp converted
    rw [runSteps,bind_of_ok (pure_ok.mpr ⟨rfl,rfl⟩)] at returned
    obtain ⟨own,added,concluded,ends⟩ := conclude_ok worker task attempt history workspace.branch
      (step.toList ++ []) ((some name).or none)
    rw [concluded] at returned
    cases returned
    refine ⟨added,rfl,ends.attempts,?_,ends.taskId,ends.replies,⟨[],ends.events,by simp⟩,?_,by simp [failed]⟩
    · rw [ends.success,ends.failedStep]
    · intro other same
      rw [failed] at same
      cases same
      exact ⟨ends.failedStep,ends.written,ends.ran⟩
  | none =>
    simp only [failed,Option.isNone_none,if_true] at returned
    obtain ⟨paths,_,wrote,returned⟩ := bind_ok.mp returned
    obtain ⟨placed,rfl,quiet⟩ := writePatches_quiet wrote
    obtain ⟨timeout,_,lifted,returned⟩ := bind_ok.mp returned
    obtain ⟨converted,rfl⟩ := lift_ok.mp lifted
    obtain ⟨⟨results,stopped⟩,_,ran,returned⟩ := bind_ok.mp returned
    obtain ⟨stepped,rfl,adds⟩ := runSteps_adds ran
    obtain ⟨own,last,concluded,ends⟩ := conclude_ok worker task attempt (history ++ placed ++ stepped)
      workspace.branch (step.toList ++ results) (Option.none.or stopped)
    simp only at returned
    rw [concluded] at returned
    cases returned
    refine ⟨placed ++ stepped ++ last,by simp only [List.append_assoc],ends.attempts,?_,ends.taskId,?_,?_,
      by simp [failed],?_⟩
    · rw [ends.success,ends.failedStep]
    · simp only [History.replies_append,quiet.replies,adds.replies,ends.replies,List.append_nil]
    · refine ⟨History.events stepped,?_,?_⟩
      · rw [History.events_append,History.events_append,quiet.events,ends.events,List.nil_append]
      · intro event member
        obtain ⟨result,rfl⟩ := adds.events event member
        exact ⟨rfl,rfl,rfl⟩
    · intro _
      refine ⟨timeout,converted,?_⟩
      have stops : report.failedStep = stopped := ends.failedStep
      rw [stops,History.ran_append,History.ran_append,quiet.ran,ends.ran,List.nil_append,List.append_nil]
      exact adds.ends

/-- The events of the generation phase are in the middle of an attempt. -/
theorem Generated.inner {added : History} (generated : Generated worker task history files step added) :
    (∀ event ∈ History.events added, Inner event) ∧ History.written added = [] ∧ History.ran added = [] := by
  cases generated with
  | skipped _ => exact ⟨by simp [History.events],rfl,rfl⟩
  | refused _ _ => exact ⟨by simp [History.events],rfl,rfl⟩
  | made _ _ _ _ =>
    refine ⟨?_,rfl,rfl⟩
    intro event member
    simp only [History.events,List.filterMap_cons,List.filterMap_nil,List.mem_cons,List.not_mem_nil,or_false] at member
    rcases member with rfl | rfl
    · exact ⟨rfl,rfl,rfl⟩
    · exact ⟨rfl,rfl,rfl⟩

/-- Making the workspace and announcing the attempt adds one event. -/
theorem opened_adds {made : History} (quiet : Quiet made) (unwritten : History.written made = []) (event : WorkerEvent)
    (later : History) :
    History.events (made ++ ([.emitted event] ++ later)) = event :: History.events later ∧
      History.ran (made ++ ([.emitted event] ++ later)) = History.ran later ∧
      History.replies (made ++ ([.emitted event] ++ later)) = History.replies later ∧
      History.written (made ++ ([.emitted event] ++ later)) = History.written later := by
  obtain ⟨events,ran,replies⟩ := quiet.skip ([.emitted event] ++ later)
  refine ⟨events,ran,replies,?_⟩
  rw [History.written_append,unwritten]
  rfl

theorem executeOnce_adds (returned : executeOnce worker task attempt history = .ok report after) :
    ∃ added, after = history ++ added ∧ Attempted worker task attempt added report := by
  unfold executeOnce at returned
  obtain ⟨workspace,_,opened,returned⟩ := bind_ok.mp returned
  obtain ⟨enabled,made,again,quiet,unwritten⟩ := create_ok (create_returns opened)
  rw [opened] at again
  cases again
  rw [bind_of_ok (emit_ok.mpr rfl)] at returned
  obtain ⟨static,_,parsed,returned⟩ := bind_ok.mp returned
  obtain ⟨_,rfl⟩ := lift_ok.mp parsed
  obtain ⟨files,step,asked,generates,generated⟩ := generate_generated worker task
    (history ++ made ++ [.emitted (started task attempt (branchName task.id))])
  rw [bind_of_ok generates] at returned
  obtain ⟨rest,rfl,completed⟩ := complete_adds returned
  obtain ⟨inner,noFiles,noCommands⟩ := generated.inner
  obtain ⟨events,ran,replies,written⟩ := opened_adds quiet unwritten (started task attempt (branchName task.id))
    (asked ++ rest)
  refine ⟨made ++ ([.emitted (started task attempt (branchName task.id))] ++ (asked ++ rest)),
    by simp only [List.append_assoc],completed.attempts,completed.success,completed.taskId,?_,?_⟩
  · obtain ⟨middle,last,later⟩ := completed.events
    refine ⟨History.events asked ++ middle,?_,List.forall_mem_append.mpr ⟨inner,later⟩⟩
    rw [events,History.events_append,last,← List.append_assoc]
    rfl
  · rw [History.ran_append asked,noCommands,List.nil_append] at ran
    rw [History.replies_append asked,completed.replies,List.append_nil] at replies
    rw [History.written_append asked,noFiles,List.nil_append] at written
    cases generated with
    | skipped unasked =>
      obtain ⟨timeout,converted,ends⟩ := completed.worked rfl
      exact .worked (.inl ⟨unasked,replies⟩) converted (ran ▸ ends)
    | refused wanted unusable =>
      obtain ⟨failed,noWrites,noRuns⟩ := completed.ungenerated genStep rfl
      rw [failed]
      exact .ungenerated wanted replies unusable (written.trans noWrites) (ran.trans noRuns)
    | made wanted _ _ accepted =>
      obtain ⟨timeout,converted,ends⟩ := completed.worked rfl
      exact .worked (.inr ⟨wanted,_,replies,accepted⟩) converted (ran ▸ ends)

end

end Hookclose.Attempts
