import Hookclose.Attempts

/-!
What is left of an attempt besides its report: the events of its steps and the artifact
in the store. A generation that failed has a step in the report and no event, and the
stored report of an attempt that failed does not say why.
-/
namespace Hookclose.AttemptReports
open Hookclose.Programs Hookclose.Workspaces Hookclose.OpenClaw Hookclose.Attempts

/-! ### Silent parts -/

/-- Neither an event, nor a question to the generator, nor an artifact. -/
def Silent : Action → Prop
  | .emitted _ => False
  | .asked _ _ _ => False
  | .stored _ _ _ => False
  | _ => True

/-- The events of steps. -/
def completions (history : History) : List WorkerEvent := (History.events history).filter WorkerEvent.isStepCompleted

@[simp] theorem completions_append (first second : History) :
    completions (first ++ second) = completions first ++ completions second := by
  simp [completions]

/-- What the record of an attempt is read for. -/
structure Reads (added : History) (steps : List WorkerEvent) (replies : List Reply)
    (stored : List (String × String × String)) : Prop where
  steps : completions added = steps
  replies : History.replies added = replies
  stored : History.stored added = stored

theorem Reads.append {first second : History} {steps later : List WorkerEvent} {replies others : List Reply}
    {stored rest : List (String × String × String)} (begins : Reads first steps replies stored)
    (goesOn : Reads second later others rest) :
    Reads (first ++ second) (steps ++ later) (replies ++ others) (stored ++ rest) := by
  constructor
  · rw [completions_append,begins.steps,goesOn.steps]
  · rw [History.replies_append,begins.replies,goesOn.replies]
  · rw [History.stored_append,begins.stored,goesOn.stored]

theorem reads_silent {added : History} (silent : ∀ action ∈ added, Silent action) : Reads added [] [] [] := by
  induction added with
  | nil => exact ⟨rfl,rfl,rfl⟩
  | cons action rest ih =>
    obtain ⟨first,others⟩ := List.forall_mem_cons.mp silent
    have single : Reads [action] [] [] [] := by
      cases action with
      | emitted event => exact absurd first id
      | asked goal context reply => exact absurd first id
      | stored taskId name payload => exact absurd first id
      | _ => exact ⟨rfl,rfl,rfl⟩
    exact single.append (ih others)

section
variable {host : Host}

theorem runGit_silent (command : List String) (cwd : String) : Appends Silent (runGit host command cwd) := by
  intro history result after returned
  cases returned
  exact ⟨_,rfl,by simp [Silent]⟩

theorem mkdir_silent (path : String) : Appends Silent (mkdir host path) := by
  intro history _ after returned
  obtain ⟨_,rfl⟩ := mkdir_ok.mp returned
  exact ⟨_,rfl,by simp [Silent]⟩

theorem initBranch_silent (root branch : String) : Appends Silent (initBranch host root branch) := by
  refine (runGit_silent _ _).bind (fun init => ?_)
  split_ifs
  · exact (runGit_silent _ _).bind (fun _ => appends_pure true)
  · exact appends_pure false

theorem create_silent (base taskId : String) : Appends Silent (create host base taskId) :=
  (mkdir_silent _).bind (fun _ => (initBranch_silent _ _).bind (fun _ => appends_pure _))

theorem writeText_silent (path : String) (content : Json) : Appends Silent (writeText host path content) := by
  intro history _ after returned
  obtain ⟨_,_,_,rfl⟩ := writeText_ok.mp returned
  exact ⟨_,rfl,by simp [Silent]⟩

theorem resolve_silent (path : String) : Appends Silent (resolve host path) := by
  intro history _ after returned
  obtain ⟨_,rfl⟩ := resolve_ok.mp returned
  exact ⟨[],by simp,by simp⟩

theorem writePatch_silent (root : String) (patch : FilePatch) : Appends Silent (writePatch host root patch) := by
  refine (appends_lift _).bind (fun path => (resolve_silent _).bind (fun target => (resolve_silent _).bind (fun top => ?_)))
  split_ifs
  · exact (mkdir_silent _).bind (fun _ => (writeText_silent _ _).bind (fun _ => appends_pure path))
  · exact appends_throw _

theorem writePatches_silent (root : String) (patches : List FilePatch) : Appends Silent (writePatches host root patches) := by
  induction patches with
  | nil => exact appends_pure []
  | cons patch rest ih => exact (writePatch_silent root patch).bind (fun _ => ih.bind (fun _ => appends_pure _))

end

/-! ### The record of an attempt -/

section
variable {worker : Worker} {task : Task} {attempt : Nat} {workspace : Workspace} {files : List FilePatch}
  {step : Option StepResult} {history after : History} {report : ExecutionReport}

/-- The steps of the plan have an event each. -/
theorem runSteps_reads {root : String} {timeout : FloatValue} {specs : List Json} {results : List StepResult}
    {failed : Option String} (returned : runSteps worker task root timeout specs history = .ok (results,failed) after) :
    ∃ added, after = history ++ added ∧ Reads added (results.map (completed task)) [] [] := by
  induction specs generalizing history results with
  | nil =>
    obtain ⟨same,rfl⟩ := pure_ok.mp returned
    cases same
    exact ⟨[],by simp,⟨rfl,rfl,rfl⟩⟩
  | cons spec rest ih =>
    obtain ⟨first,_,ran,returned⟩ := bind_ok.mp returned
    obtain ⟨command,name,_,_,_,rfl⟩ := runStep_ok.mp ran
    have single : ∀ call result, Reads [.ran call result,.emitted (completed task first)] [completed task first] [] [] :=
      fun call result => ⟨rfl,rfl,rfl⟩
    by_cases success : first.success = true
    · rw [if_pos success] at returned
      obtain ⟨⟨later,failedLater⟩,_,others,returned⟩ := bind_ok.mp returned
      obtain ⟨pair,rfl⟩ := pure_ok.mp returned
      cases pair
      obtain ⟨added,rfl,reads⟩ := ih others
      exact ⟨_,List.append_assoc _ _ _,(single _ _).append reads⟩
    · rw [if_neg success] at returned
      obtain ⟨pair,rfl⟩ := pure_ok.mp returned
      cases pair
      exact ⟨_,rfl,single _ _⟩

/-- The report as it is stored. -/
def storedReport (report : ExecutionReport) : ExecutionReport := { report with artifacts := [], error := none }

/-- The artifact of a report. -/
def artifactOf (report : ExecutionReport) : String × String × String :=
  (report.taskId,reportFile report.attempts,JsonText.dumpsSorted 2 (.dict (storedReport report).toDict))

theorem conclude_reads {branch : String} {results : List StepResult} {failed : Option String}
    (returned : conclude worker task attempt branch results failed history = .ok report after) :
    ∃ added artifacts, after = history ++ added ∧ report = reportOf task attempt branch results failed artifacts ∧
      Reads added [] [] (if worker.artifacts.isSome then [artifactOf report] else []) := by
  have unnoticed : ∀ report, WorkerEvent.isStepCompleted (finished report) = false := by
    intro report
    unfold finished
    split_ifs
    · rfl
    · rfl
  unfold conclude at returned
  obtain ⟨artifacts,_,persisted,returned⟩ := bind_ok.mp returned
  obtain ⟨_,_,emitted,returned⟩ := bind_ok.mp returned
  obtain rfl := emit_ok.mp emitted
  obtain ⟨rfl,rfl⟩ := pure_ok.mp returned
  unfold persistReport at persisted
  cases configured : worker.artifacts with
  | none =>
    rw [configured] at persisted
    cases persisted
    refine ⟨_,_,rfl,rfl,?_,rfl,rfl⟩
    simp [completions,History.events,unnoticed]
  | some put =>
    rw [configured] at persisted
    cases persisted
    refine ⟨_,_,List.append_assoc _ _ _,rfl,?_,rfl,rfl⟩
    simp [completions,History.events,unnoticed]

/-- What the report of an attempt and its record have in common. -/
structure Recorded (worker : Worker) (task : Task) (attempt : Nat) (step : Option StepResult) (asked added : History)
    (report : ExecutionReport) : Prop where
  reported : ∃ branch results failed artifacts, report = reportOf task attempt branch (step.toList ++ results) failed artifacts ∧
    Reads added (completions asked ++ results.map (completed task)) (History.replies asked)
      (if worker.artifacts.isSome then [artifactOf report] else [])
  generated : ∃ origin files, Generated worker task origin files step asked

/-- The patches are placed before the rest in either case. -/
theorem complete_eq : complete worker task attempt workspace files step =
    (if (ungenerated step).isNone = true then writePatches worker.host workspace.root files else pure []) >>= fun _ =>
      lift (timeoutOf task).toFloat >>= fun timeout =>
        runSteps worker task workspace.root timeout (if (ungenerated step).isNone = true then steps task else []) >>= fun ran =>
          conclude worker task attempt workspace.branch (step.toList ++ ran.1) ((ungenerated step).or ran.2) := by
  unfold complete
  split_ifs
  · rfl
  · rfl

theorem complete_reads (returned : complete worker task attempt workspace files step history = .ok report after) :
    ∃ added results failed artifacts, after = history ++ added ∧
      report = reportOf task attempt workspace.branch (step.toList ++ results) failed artifacts ∧
      Reads added (results.map (completed task)) [] (if worker.artifacts.isSome then [artifactOf report] else []) := by
  have placing : Appends Silent
      (if (ungenerated step).isNone = true then writePatches worker.host workspace.root files else pure []) := by
    split_ifs
    · exact writePatches_silent _ _
    · exact appends_pure []
  rw [complete_eq] at returned
  obtain ⟨_,_,wrote,returned⟩ := bind_ok.mp returned
  obtain ⟨placed,rfl,silent⟩ := placing _ _ _ wrote
  obtain ⟨timeout,_,lifted,returned⟩ := bind_ok.mp returned
  obtain ⟨_,rfl⟩ := lift_ok.mp lifted
  obtain ⟨⟨results,stopped⟩,_,ran,returned⟩ := bind_ok.mp returned
  obtain ⟨stepped,rfl,own⟩ := runSteps_reads ran
  obtain ⟨last,artifacts,rfl,reported,ends⟩ := conclude_reads returned
  refine ⟨placed ++ stepped ++ last,results,_,artifacts,by simp only [List.append_assoc],reported,?_⟩
  have reads := ((reads_silent silent).append own).append ends
  rwa [List.nil_append,List.append_nil] at reads

theorem executeOnce_recorded (returned : executeOnce worker task attempt history = .ok report after) :
    ∃ added step asked, after = history ++ added ∧ Recorded worker task attempt step asked added report := by
  unfold executeOnce at returned
  obtain ⟨workspace,_,opened,returned⟩ := bind_ok.mp returned
  obtain ⟨made,rfl,silent⟩ := create_silent _ _ _ _ _ opened
  rw [bind_of_ok (emit_ok.mpr rfl)] at returned
  obtain ⟨static,_,parsed,returned⟩ := bind_ok.mp returned
  obtain ⟨_,rfl⟩ := lift_ok.mp parsed
  obtain ⟨files,step,asked,generates,generated⟩ := generate_generated worker task
    (history ++ made ++ [.emitted (started task attempt workspace.branch)])
  rw [bind_of_ok generates] at returned
  obtain ⟨rest,results,failed,artifacts,rfl,reported,ends⟩ := complete_reads returned
  refine ⟨made ++ [.emitted (started task attempt workspace.branch)] ++ asked ++ rest,step,asked,
    by simp only [List.append_assoc],⟨_,results,failed,artifacts,reported,?_⟩,⟨_,files,generated⟩⟩
  have begins : Reads [.emitted (started task attempt workspace.branch)] [] [] [] := ⟨rfl,rfl,rfl⟩
  have unstored : History.stored asked = [] := by cases generated <;> rfl
  have asks : Reads asked (completions asked) (History.replies asked) [] := ⟨rfl,rfl,unstored⟩
  have reads := (((reads_silent silent).append begins).append asks).append ends
  simpa only [List.nil_append,List.append_nil] using reads

end

/-! ### Events of steps -/

section
variable {worker : Worker} {task : Task} {attempt : Nat} {step : Option StepResult} {history after asked added : History}
  {report : ExecutionReport}

/-- The events of steps are the steps of the report, in order. -/
def Mirrored (task : Task) (added : History) (report : ExecutionReport) : Prop :=
  completions added = report.steps.map (completed task)

/-- Generation fails exactly when its step has no event. -/
theorem Recorded.generation (recorded : Recorded worker task attempt step asked added report) :
    GenerationSucceeds worker task added ↔ completions asked = step.toList.map (completed task) := by
  obtain ⟨_,_,_,_,_,reads⟩ := recorded.reported
  obtain ⟨_,_,generated⟩ := recorded.generated
  unfold GenerationSucceeds
  rw [reads.replies]
  cases generated with
  | skipped unasked => simp [unasked,History.replies,completions,History.events]
  | refused wanted unusable => simp [wanted,unusable,History.replies,completions,History.events]
  | made wanted configured answered accepted =>
    simp [wanted,accepted,History.replies,completions,History.events,WorkerEvent.isStepCompleted,completed,madeGenStep]

theorem Recorded.mirrored (recorded : Recorded worker task attempt step asked added report) :
    Mirrored task added report ↔ GenerationSucceeds worker task added := by
  obtain ⟨_,results,_,_,reported,reads⟩ := recorded.reported
  have steps : report.steps = step.toList ++ results := by rw [reported]; rfl
  rw [recorded.generation,Mirrored,reads.steps,steps,List.map_append,List.append_left_inj]

/-- The events of an attempt's steps are the steps of its report exactly when generation was
    not asked for or gave patches. -/
theorem mirrored_iff (returned : executeOnce worker task attempt history = .ok report after) : ∃ added,
    after = history ++ added ∧ (Mirrored task added report ↔ GenerationSucceeds worker task added) := by
  obtain ⟨added,step,asked,rfl,recorded⟩ := executeOnce_recorded returned
  exact ⟨added,rfl,recorded.mirrored⟩

/-! ### Outcomes -/

/-- Generation was not asked for or gave patches, and every command that was run succeeded. -/
structure Succeeds (worker : Worker) (task : Task) (added : History) : Prop where
  generated : GenerationSucceeds worker task added
  passed : ∀ entry ∈ History.ran added, entry.2.success = true

theorem ungenerated_fails {reply : Reply} (wanted : requests worker task = true)
    (replied : History.replies added = [reply]) (unusable : usable reply = false) :
    ¬ GenerationSucceeds worker task added := by
  rintro (⟨unasked,_⟩ | ⟨_,other,same,accepted⟩)
  · rw [wanted] at unasked
    cases unasked
  · rw [replied] at same
    cases same
    rw [unusable] at accepted
    cases accepted

/-- The steps end without a failed one when every command that was run succeeded. -/
theorem stepsEnd_passes {root : String} {timeout : FloatValue} {specs : List Json}
    {ran : List (CommandCall × CommandResult)} {failed : Option String} (ends : StepsEnd root timeout specs ran failed) :
    failed = none ↔ ∀ entry ∈ ran, entry.2.success = true := by
  cases ends with
  | passed _ succeeded => exact ⟨fun _ => succeeded,fun _ => rfl⟩
  | @stopped _ _ _ before last _ _ _ _ fails _ =>
    constructor
    · intro passed
      cases passed
    · intro succeeded
      have passes := succeeded last (by simp)
      rw [fails] at passes
      cases passes

/-- What an attempt's report says of its outcome. -/
theorem succeeds_iff (attempted : Attempted worker task attempt added report) :
    report.failedStep = none ↔ Succeeds worker task added := by
  have ends := attempted.ends
  generalize report.failedStep = failed at ends ⊢
  cases ends with
  | ungenerated wanted replied unusable _ _ =>
    have fails := ungenerated_fails wanted replied unusable
    simp only [reduceCtorEq,false_iff]
    exact fun succeeds => fails succeeds.generated
  | worked generated _ ends =>
    rw [stepsEnd_passes ends]
    exact ⟨fun passed => ⟨generated,passed⟩,fun succeeds => succeeds.passed⟩

/-! ### Stored reports -/

/-- One artifact is stored for the attempt, and what is read back under each key is what the
    report has there, up to the order of keys; the paths of the artifacts are left out. -/
def StoredAs (float : String → String × FloatValue) (task : Task) (attempt : Nat) (added : History)
    (report : ExecutionReport) : Prop :=
  ∃ text decoded, History.stored added = [(task.id,reportFile attempt,text)] ∧
    JsonText.loads float text = some (.dict decoded) ∧
    ∀ key ≠ "artifacts", Dictionaries.get key decoded = (Dictionaries.get key report.toDict).map JsonText.sorted

/-- The two reports differ at most in the paths and the error. -/
theorem get_storedReport {key : String} (other : key ≠ "artifacts") (kept : key ≠ "error") :
    Dictionaries.get key (storedReport report).toDict = Dictionaries.get key report.toDict := by
  open Dictionaries in
  unfold ExecutionReport.toDict
  refine get_cons_congr (get_cons_congr (get_cons_congr (get_cons_congr (get_cons_congr ?_))))
  rw [get_other kept.symm,get_other kept.symm]
  refine get_cons_congr (get_cons_congr ?_)
  rw [get_other other.symm,get_other other.symm]

/-- A report has the keys of `to_dict` once each, and no floats. -/
theorem toDict_carried (float : String → String × FloatValue) (report : ExecutionReport) :
    JsonText.Carried float (.dict report.toDict) := by
  have texts : ∀ texts : List String, JsonText.CarriedItems float (texts.map .str) := by
    intro texts
    induction texts with
    | nil => trivial
    | cons text rest ih => exact ⟨trivial,ih⟩
  have optional : ∀ text, JsonText.Carried float (.ofText text) := by
    intro text
    cases text <;> trivial
  have single : ∀ step : StepResult, JsonText.Carried float (.dict step.toDict) :=
    fun step => ⟨by simp [StepResult.toDict],trivial,texts step.command,trivial,trivial,trivial,trivial,trivial,trivial⟩
  have steps : ∀ steps : List StepResult, JsonText.CarriedItems float (steps.map (fun step => .dict step.toDict)) := by
    intro steps
    induction steps with
    | nil => trivial
    | cons step rest ih => exact ⟨single step,ih⟩
  exact ⟨by simp [ExecutionReport.toDict],trivial,trivial,trivial,trivial,trivial,optional _,optional _,steps _,texts _,trivial⟩

/-- The artifact stands for the report exactly when the report has no error. -/
theorem Recorded.storedAs (recorded : Recorded worker task attempt step asked added report)
    (configured : worker.artifacts.isSome = true) (float : String → String × FloatValue) :
    StoredAs float task attempt added report ↔ report.error = none := by
  obtain ⟨_,_,_,_,reported,reads⟩ := recorded.reported
  have named : artifactOf report =
      (task.id,reportFile attempt,JsonText.dumpsSorted 2 (.dict (storedReport report).toDict)) := by
    rw [reported]
    rfl
  have carried := toDict_carried float (storedReport report)
  have read := JsonText.loads_dumpsSorted float 2 carried
  have fields := JsonText.get_sorted carried.1
  have stored := reads.stored
  rw [if_pos configured,named] at stored
  unfold StoredAs
  rw [stored]
  constructor
  · rintro ⟨text,decoded,same,loaded,alike⟩
    simp only [List.cons.injEq,Prod.mk.injEq,and_true,true_and] at same
    rw [← same,read,JsonText.sorted] at loaded
    have error := alike "error" (by decide)
    rw [← Json.dict.inj (Option.some.inj loaded),fields] at error
    have unexplained : Dictionaries.get "error" (storedReport report).toDict = some .null := rfl
    have explained : Dictionaries.get "error" report.toDict = some (.ofText report.error) := rfl
    rw [unexplained,explained] at error
    cases found : report.error with
    | none => rfl
    | some message =>
      rw [found] at error
      cases error
  · intro unexplained
    refine ⟨_,_,rfl,read,?_⟩
    intro key other
    rw [fields]
    by_cases error : key = "error"
    · subst error
      have explained : Dictionaries.get "error" report.toDict = some (.ofText report.error) := rfl
      rw [explained,unexplained]
      rfl
    · rw [get_storedReport other error]

/-- A report has an error when a step failed. -/
theorem Recorded.error (recorded : Recorded worker task attempt step asked added report) :
    report.error = none ↔ report.failedStep = none := by
  obtain ⟨_,_,failed,_,reported,_⟩ := recorded.reported
  rw [reported]
  cases failed <;> simp [reportOf]

/-- The artifact stored for an attempt stands for its report exactly when the attempt
    succeeds. -/
theorem storedAs_iff (float : String → String × FloatValue) (configured : worker.artifacts.isSome = true)
    (returned : executeOnce worker task attempt history = .ok report after) : ∃ added,
    after = history ++ added ∧ (StoredAs float task attempt added report ↔ Succeeds worker task added) := by
  obtain ⟨added,step,asked,rfl,recorded⟩ := executeOnce_recorded returned
  obtain ⟨same,extended,attempted⟩ := executeOnce_adds returned
  rw [List.append_cancel_left extended.symm] at attempted
  exact ⟨added,rfl,by rw [recorded.storedAs configured float,recorded.error,succeeds_iff attempted]⟩

end

/-! ### Attempts that fail -/

/-- A worker with a store, whose provider does not answer and whose commands fail. -/
def unlucky : Worker where
  host := { machine with run := fun _ _ => { exitCode := 1, stdout := "", stderr := "1 failed", durationMs := 2 } }
  base := "/ws"
  generator := some (fun _ _ _ => .error "all providers failed")
  artifacts := some (fun _ taskId file _ => taskId ++ "/" ++ file)

/-- A task with a goal. -/
def goalTask : Task where
  id := "t1"
  payload := [("generate",.dict [("goal",.str "an app")])]

/-- A task with a step. -/
def stepTask : Task where
  id := "t1"
  payload := [("steps",.list [.dict [("name",.str "test"),("command",.list [.str "pytest"])]])]

theorem goalTask_unmirrored : ∃ report added,
    executeOnce unlucky goalTask 1 [] = .ok report added ∧ ¬ Mirrored goalTask added report := by
  refine ⟨_,_,rfl,?_⟩
  intro mirrored
  cases mirrored

theorem goalTask_mirrored_iff : ∃ report added, executeOnce unlucky goalTask 1 [] = .ok report added ∧
    (Mirrored goalTask added report ↔ GenerationSucceeds unlucky goalTask added) := by
  have returned : ∃ report after, executeOnce unlucky goalTask 1 [] = .ok report after := ⟨_,_,rfl⟩
  obtain ⟨report,after,returned⟩ := returned
  obtain ⟨added,same,mirrored⟩ := mirrored_iff returned
  rw [List.nil_append] at same
  exact ⟨report,added,same ▸ returned,mirrored⟩

theorem stepTask_unexplained : ∃ report added, executeOnce unlucky stepTask 1 [] = .ok report added ∧
    ∀ float, ¬ StoredAs float stepTask 1 added report := by
  have returned : ∃ report after, executeOnce unlucky stepTask 1 [] = .ok report after ∧ report.error ≠ none :=
    ⟨_,_,rfl,by decide⟩
  obtain ⟨report,after,returned,explained⟩ := returned
  obtain ⟨added,step,asked,same,recorded⟩ := executeOnce_recorded returned
  rw [List.nil_append] at same
  subst same
  exact ⟨report,after,returned,fun float stored => explained ((recorded.storedAs rfl float).mp stored)⟩

theorem stepTask_storedAs_iff : ∃ report added, executeOnce unlucky stepTask 1 [] = .ok report added ∧
    ∀ float, StoredAs float stepTask 1 added report ↔ Succeeds unlucky stepTask added := by
  have returned : ∃ report after, executeOnce unlucky stepTask 1 [] = .ok report after := ⟨_,_,rfl⟩
  obtain ⟨report,after,returned⟩ := returned
  refine ⟨report,after,returned,?_⟩
  intro float
  obtain ⟨added,same,stored⟩ := storedAs_iff float rfl returned
  rw [List.nil_append] at same
  exact same ▸ stored

end Hookclose.AttemptReports
