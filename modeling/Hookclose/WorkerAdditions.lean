import Hookclose.Attempts

/-!
What a worker adds to the history, however its programs end. Each part of an attempt is
followed to the patches that it writes and the steps that it runs: a patch comes from the
payload of the task or from a usable reply that the attempt was given, and it is written
where its path resolved just before; everything else that is added is ordinary. In
particular all that an execution notes is what the machine and the generator answered to
the history before it (`execute_answers`).
-/
namespace Hookclose.WorkerAdditions
open Hookclose.Programs Hookclose.Workspaces Hookclose.OpenClaw Hookclose.Attempts

/-! ### Parts of an attempt -/

/-- What an attempt does besides writing patches and running steps, with the answers that it
    gets. -/
structure Ordinary (worker : Worker) (task : Task) (kind : History → Action → Prop) : Prop where
  directory : ∀ before path, worker.host.mkdir before path = .ok () → kind before (.directory path)
  git : ∀ before call, call.cwd = join worker.base task.id → kind before (.git call (worker.host.run before call))
  asked : ∀ before generator spec, worker.generator = some generator → generationSpec task = some spec →
    kind before (.asked (Json.toText ((Dictionaries.get "goal" spec).getD (.str "")))
      (Json.toText ((Dictionaries.get "context" spec).getD (.str "")))
      (generator before (Json.toText ((Dictionaries.get "goal" spec).getD (.str "")))
        (Json.toText ((Dictionaries.get "context" spec).getD (.str "")))))
  stored : ∀ before name payload, worker.artifacts.isSome = true → kind before (.stored task.id name payload)
  emitted : ∀ before event, kind before (.emitted event)

/-- Where a path is placed after a history, as the guard of `write_patches` tells it: the text of
    what it resolves to begins with that of the resolved workspace. -/
def Placed (host : Host) (root : String) (history : History) (path target : String) : Prop :=
  host.resolve history (join root path) = .ok target ∧
    ∃ top, host.resolve history root = .ok top ∧ top.toList <+: target.toList

/-- What the generation phase has given by now: a failed step, no patch unasked, or the patches
    of a usable reply that the task's goal was answered with since the start. -/
inductive Given (worker : Worker) (task : Task) (start history : History) : List FilePatch → Option StepResult → Prop
  | failed (reason : String) : Given worker task start history [] (some (failedGenStep reason))
  | unasked (missing : worker.generator = none ∨ generationSpec task = none) : Given worker task start history [] none
  | made {generator : History → String → String → Reply} {spec : Dict} {goal context : String} {earlier : History}
      {result : GenerationResult} (configured : worker.generator = some generator) (asks : generationSpec task = some spec)
      (isGoal : goal = Json.toText ((Dictionaries.get "goal" spec).getD (.str "")))
      (isContext : context = Json.toText ((Dictionaries.get "context" spec).getD (.str ""))) (since : start <+: earlier)
      (told : generator earlier goal context = .ok result)
      (noted : earlier ++ [.asked goal context (.ok result)] <+: history)
      (accepted : usable (.ok result) = true) : Given worker task start history result.patches (some (madeGenStep result))

section
variable {kind : History → Action → Prop} {fact : History → Prop} {worker : Worker} {task : Task} {start : History}

theorem given_stable (files : List FilePatch) (step : Option StepResult) :
    Stable (fun history => Given worker task start history files step) := by
  intro history more given
  cases given with
  | failed reason => exact .failed reason
  | unasked missing => exact .unasked missing
  | made configured asks isGoal isContext since told noted accepted =>
    exact .made configured asks isGoal isContext since told (noted.trans (List.prefix_append history more)) accepted

theorem since_stable (start : History) : Stable (fun history => start <+: history) :=
  fun history more since => since.trans (List.prefix_append history more)

theorem emit_adds (ordinary : Ordinary worker task kind) (stable : Stable fact) (event : WorkerEvent) :
    Adds kind fact (fun _ => fact) (emit event) := by
  apply adds_note
  intro history holds
  exact .inr ⟨(),.emitted event,rfl,ordinary.emitted history event,stable _ _ holds⟩

theorem mkdir_adds (ordinary : Ordinary worker task kind) (stable : Stable fact) (path : String) :
    Adds kind fact (fun _ => fact) (mkdir worker.host path) := by
  apply adds_note
  intro history holds
  unfold mkdir
  cases made : worker.host.mkdir history path with
  | ok _ => exact .inr ⟨(),.directory path,rfl,ordinary.directory history path made,stable _ _ holds⟩
  | error exception => exact .inl ⟨exception,rfl⟩

theorem initBranch_adds (ordinary : Ordinary worker task kind) (stable : Stable fact) (branch : String) :
    Adds kind fact (fun _ => fact) (initBranch worker.host (join worker.base task.id) branch) := by
  have git : ∀ command, Adds kind fact (fun _ => fact) (runGit worker.host command (join worker.base task.id)) := by
    intro command
    apply adds_note
    intro history holds
    exact .inr ⟨_,_,runGit_run,ordinary.git history _ rfl,stable _ _ holds⟩
  unfold initBranch
  apply (git _).bind
  intro init
  split_ifs
  · exact (git _).bind (fun _ => adds_pure (fun _ holds => holds))
  · exact adds_pure (fun _ holds => holds)

theorem create_adds (ordinary : Ordinary worker task kind) (stable : Stable fact) :
    Adds kind fact (fun workspace history => workspace.root = join worker.base task.id ∧ fact history)
      (create worker.host worker.base task.id) := by
  unfold create
  apply (mkdir_adds ordinary stable _).bind
  intro _
  apply (initBranch_adds ordinary stable _).bind
  intro _
  exact adds_pure (fun _ holds => ⟨rfl,holds⟩)

theorem generate_adds (ordinary : Ordinary worker task kind) (stable : Stable fact)
    (since : ∀ history, fact history → start <+: history) :
    Adds kind fact (fun made history => Given worker task start history made.1 made.2 ∧ fact history)
      (generate worker task) := by
  unfold generate
  split
  · rename_i spec generator asks configured
    have asked : Adds kind fact (fun reply history => (∃ earlier, start <+: earlier ∧
        generator earlier (Json.toText ((Dictionaries.get "goal" spec).getD (.str "")))
          (Json.toText ((Dictionaries.get "context" spec).getD (.str ""))) = reply ∧
        earlier ++ [.asked (Json.toText ((Dictionaries.get "goal" spec).getD (.str "")))
          (Json.toText ((Dictionaries.get "context" spec).getD (.str ""))) reply] <+: history) ∧ fact history)
        (ask generator (Json.toText ((Dictionaries.get "goal" spec).getD (.str "")))
          (Json.toText ((Dictionaries.get "context" spec).getD (.str "")))) := by
      apply adds_note
      intro history holds
      exact .inr ⟨_,_,rfl,ordinary.asked history generator spec configured asks,
        ⟨history,since history holds,rfl,List.prefix_rfl⟩,stable _ _ holds⟩
    apply asked.bind
    intro reply
    cases reply with
    | error message => exact adds_pure (fun _ holds => ⟨.failed _,holds.2⟩)
    | ok result =>
      by_cases unusable : (result.degraded || result.patches.isEmpty) = true
      · simp only [if_pos unusable]
        exact adds_pure (fun _ holds => ⟨.failed _,holds.2⟩)
      · simp only [if_neg unusable]
        have both : Stable (fun history => Given worker task start history result.patches (some (madeGenStep result)) ∧
            fact history) := fun history more holds => ⟨given_stable _ _ _ _ holds.1,stable _ _ holds.2⟩
        have told : Adds kind (fun history => Given worker task start history result.patches (some (madeGenStep result)) ∧
            fact history) (fun made history => Given worker task start history made.1 made.2 ∧ fact history) (do
              emit (.codeGenerated task.id result.provider result.patches.length result.totalTokens)
              emit (.stepCompleted task.id genStep 0 true 0)
              pure (result.patches,some (madeGenStep result))) := by
          apply (emit_adds ordinary both _).bind
          intro _
          apply (emit_adds ordinary both _).bind
          intro _
          exact adds_pure (fun _ holds => holds)
        refine told.mono ?_ (fun _ _ holds => holds)
        rintro history ⟨⟨earlier,before,answered,noted⟩,holds⟩
        exact ⟨.made configured asks rfl rfl before answered noted (by simpa [usable] using unusable),holds⟩
  · rename_i unasked
    refine adds_pure (fun _ holds => ⟨.unasked ?_,holds⟩)
    cases configured : worker.generator with
    | none => exact .inl rfl
    | some generator =>
      cases asks : generationSpec task with
      | none => exact .inr rfl
      | some spec => exact absurd configured (unasked spec generator asks)

/-! ### Patches and steps -/

/-- A patch is written where its path resolved, or not at all. -/
theorem writePatch_adds (ordinary : Ordinary worker task kind) (stable : Stable fact) {root : String} {patch : FilePatch}
    (writes : ∀ before path target content, fact before → Writes worker.host root before patch path target content →
      kind (before ++ [.directory (parent target)]) (.file target content)) :
    Adds kind fact (fun _ => fact) (writePatch worker.host root patch) := by
  unfold writePatch
  have named : Adds kind fact (fun path history => patch.path = .str path ∧ fact history) (lift (pathText patch.path)) :=
    adds_lift (fun _ _ holds isPath => ⟨pathText_ok.mp isPath,holds⟩)
  apply named.bind
  intro path
  have resolves : Adds kind (fun history => patch.path = .str path ∧ fact history)
      (fun target history => worker.host.resolve history (join root path) = .ok target ∧ patch.path = .str path ∧ fact history)
      (resolve worker.host (join root path)) :=
    adds_read (fun _ => rfl) (fun _ _ holds resolved => ⟨resolved,holds⟩)
  apply resolves.bind
  intro target
  have tops : Adds kind
      (fun history => worker.host.resolve history (join root path) = .ok target ∧ patch.path = .str path ∧ fact history)
      (fun top history => worker.host.resolve history root = .ok top ∧
        worker.host.resolve history (join root path) = .ok target ∧ patch.path = .str path ∧ fact history)
      (resolve worker.host root) :=
    adds_read (fun _ => rfl) (fun _ _ holds resolved => ⟨resolved,holds⟩)
  apply tops.bind
  intro top
  by_cases inside : top.toList.isPrefixOf target.toList = true
  · rw [if_pos inside]
    -- the directory is made in the history that the path was resolved in
    have made : Adds kind
        (fun history => worker.host.resolve history root = .ok top ∧
          worker.host.resolve history (join root path) = .ok target ∧ patch.path = .str path ∧ fact history)
        (fun _ history => ∃ before, history = before ++ [.directory (parent target)] ∧
          worker.host.mkdir before (parent target) = .ok () ∧ worker.host.resolve before root = .ok top ∧
          worker.host.resolve before (join root path) = .ok target ∧ patch.path = .str path ∧ fact before)
        (mkdir worker.host (parent target)) := by
      apply adds_note
      intro history holds
      unfold mkdir
      cases made : worker.host.mkdir history (parent target) with
      | ok _ => exact .inr ⟨(),_,rfl,ordinary.directory history _ made,history,rfl,made,holds⟩
      | error exception => exact .inl ⟨exception,rfl⟩
    apply made.bind
    intro _
    have writing : Adds kind
        (fun history => ∃ before, history = before ++ [.directory (parent target)] ∧
          worker.host.mkdir before (parent target) = .ok () ∧ worker.host.resolve before root = .ok top ∧
          worker.host.resolve before (join root path) = .ok target ∧ patch.path = .str path ∧ fact before)
        (fun _ => fact) (writeText worker.host target patch.content) := by
      apply adds_note
      rintro _ ⟨before,rfl,made,topped,resolved,isPath,holds⟩
      unfold writeText
      cases isContent : patch.content with
      | str content =>
        simp only
        cases written : worker.host.writeText (before ++ [.directory (parent target)]) target content with
        | ok _ =>
          have fits := writes before path target content holds
            ⟨isPath,resolved,⟨top,topped,List.isPrefixOf_iff_prefix.mp inside⟩,made,isContent,written⟩
          exact .inr ⟨(),_,rfl,fits,stable _ _ (stable _ _ holds)⟩
        | error exception => exact .inl ⟨exception,rfl⟩
      | _ => exact .inl ⟨_,rfl⟩
    apply writing.bind
    intro _
    exact adds_pure (fun _ holds => holds)
  · rw [if_neg inside]
    exact adds_throw _

theorem writePatches_adds (ordinary : Ordinary worker task kind) (stable : Stable fact) {root : String}
    {files : List FilePatch}
    (writes : ∀ patch ∈ files, ∀ before path target content, fact before →
      Writes worker.host root before patch path target content →
        kind (before ++ [.directory (parent target)]) (.file target content)) :
    Adds kind fact (fun _ => fact) (writePatches worker.host root files) := by
  induction files with
  | nil => exact adds_pure (fun _ holds => holds)
  | cons patch rest ih =>
    rw [List.forall_mem_cons] at writes
    rw [writePatches]
    apply (writePatch_adds ordinary stable writes.1).bind
    intro _
    apply (ih writes.2).bind
    intro _
    exact adds_pure (fun _ holds => holds)

theorem runSteps_adds (ordinary : Ordinary worker task kind) (stable : Stable fact) {root : String}
    (runs : ∀ before call, fact before → call.cwd = root → kind before (.ran call (worker.host.run before call)))
    (timeout : FloatValue) (specs : List Json) :
    Adds kind fact (fun _ => fact) (runSteps worker task root timeout specs) := by
  have one : ∀ spec, Adds kind fact (fun _ => fact) (runStep worker task root timeout spec) := by
    intro spec
    unfold runStep
    have commanded : Adds kind fact (fun _ => fact) (lift (commandOf spec)) := adds_lift (fun _ _ holds _ => holds)
    apply commanded.bind
    intro command
    have ran : Adds kind fact (fun _ => fact) (run worker.host ⟨command,root,timeout⟩) := by
      apply adds_note
      intro history holds
      exact .inr ⟨_,_,rfl,runs history _ holds rfl,stable _ _ holds⟩
    apply ran.bind
    intro result
    have named : Adds kind fact (fun _ => fact) (lift (nameOf spec)) := adds_lift (fun _ _ holds _ => holds)
    apply named.bind
    intro name
    apply (emit_adds ordinary stable _).bind
    intro _
    exact adds_pure (fun _ holds => holds)
  induction specs with
  | nil => exact adds_pure (fun _ holds => holds)
  | cons spec rest ih =>
    rw [runSteps]
    apply (one spec).bind
    intro step
    split_ifs
    · apply ih.bind
      intro _
      exact adds_pure (fun _ holds => holds)
    · exact adds_pure (fun _ holds => holds)

/-! ### Attempts -/

theorem conclude_adds (ordinary : Ordinary worker task kind) (stable : Stable fact) (attempt : Nat) (branch : String)
    (results : List StepResult) (failed : Option String) :
    Adds kind fact (fun report history => (report.failedStep = failed ∧ report.success = failed.isNone ∧
      report.attempts = attempt) ∧ fact history) (conclude worker task attempt branch results failed) := by
  have persists : Adds kind fact (fun _ => fact)
      (persistReport worker task branch failed.isNone attempt results failed) := by
    unfold persistReport
    cases configured : worker.artifacts with
    | none => exact adds_pure (fun _ holds => holds)
    | some put =>
      apply adds_note
      intro history holds
      exact .inr ⟨_,_,rfl,ordinary.stored history _ _ (by simp [configured]),stable _ _ holds⟩
  unfold conclude
  apply persists.bind
  intro artifacts
  apply (emit_adds ordinary stable _).bind
  intro _
  exact adds_pure (fun _ holds => ⟨⟨rfl,rfl,rfl⟩,holds⟩)

/-- What comes after generation writes the patches and runs the steps, unless generation has
    failed. -/
theorem complete_adds (ordinary : Ordinary worker task kind) (stable : Stable fact) {attempt : Nat}
    {workspace : Workspace} {files : List FilePatch} {step : Option StepResult}
    (writes : ungenerated step = none → ∀ patch ∈ files, ∀ before path target content, fact before →
      Writes worker.host workspace.root before patch path target content →
        kind (before ++ [.directory (parent target)]) (.file target content))
    (runs : ungenerated step = none → ∀ before call, fact before → call.cwd = workspace.root →
      kind before (.ran call (worker.host.run before call))) :
    Adds kind fact (fun report _ => report.attempts = attempt ∧ ∀ name, ungenerated step = some name →
      report.failedStep = some name ∧ report.success = false)
      (OpenClaw.complete worker task attempt workspace files step) := by
  have converted : Adds kind fact (fun _ => fact) (lift (timeoutOf task).toFloat) := adds_lift (fun _ _ holds _ => holds)
  unfold OpenClaw.complete
  cases failed : ungenerated step with
  | some name =>
    simp only [Option.isNone_some,Bool.false_eq_true,if_false]
    have unwritten : Adds kind fact (fun _ => fact) (pure [] : Program (List String)) := adds_pure (fun _ holds => holds)
    apply unwritten.bind
    intro _
    apply converted.bind
    intro timeout
    have unrun : Adds kind fact (fun ran history => ran = ([],none) ∧ fact history)
        (runSteps worker task workspace.root timeout []) := adds_pure (fun _ holds => ⟨rfl,holds⟩)
    apply unrun.bind
    rintro ⟨results,stopped⟩
    refine (conclude_adds ordinary stable attempt workspace.branch (step.toList ++ results)
      ((some name).or stopped)).mono (fun _ holds => holds.2) ?_
    rintro report _ ⟨⟨stopped,success,attempts⟩,_⟩
    refine ⟨attempts,?_⟩
    rintro _ ⟨⟩
    exact ⟨stopped,success⟩
  | none =>
    simp only [Option.isNone_none,if_true]
    apply (writePatches_adds ordinary stable (writes failed)).bind
    intro _
    apply converted.bind
    intro timeout
    apply (runSteps_adds ordinary stable (runs failed) timeout (steps task)).bind
    rintro ⟨results,stopped⟩
    refine (conclude_adds ordinary stable attempt workspace.branch (step.toList ++ results)
      (Option.none.or stopped)).mono (fun _ holds => holds) ?_
    rintro report _ ⟨⟨_,_,attempts⟩,_⟩
    exact ⟨attempts,by simp⟩

/-- An attempt writes a patch of the payload, or of a usable reply that it was given, where its
    path resolved. -/
theorem executeOnce_adds (ordinary : Ordinary worker task kind)
    (writes : ∀ before files step, Given worker task start before files step → ungenerated step = none →
      ∀ patch, patch ∈ files ∨ (∃ value ∈ patches task, filePatch value = .ok patch) → ∀ path target content,
        Writes worker.host (join worker.base task.id) before patch path target content →
          kind (before ++ [.directory (parent target)]) (.file target content))
    (runs : ∀ before files step, Given worker task start before files step → ungenerated step = none →
      ∀ call, call.cwd = join worker.base task.id → kind before (.ran call (worker.host.run before call)))
    (attempt : Nat) :
    Adds kind (fun history => start <+: history) (fun report history => (report.attempts = attempt ∧
      ((∀ before files step, Given worker task start before files step → ungenerated step = some genStep) →
        report.failedStep = some genStep ∧ report.success = false)) ∧ start <+: history)
      (executeOnce worker task attempt) := by
  have going := since_stable start
  unfold executeOnce
  apply (create_adds ordinary going).bind
  intro workspace
  have located : Stable (fun history : History => workspace.root = join worker.base task.id ∧ start <+: history) :=
    fun history more holds => ⟨holds.1,going history more holds.2⟩
  apply (emit_adds ordinary located _).bind
  intro _
  have parses : Adds kind (fun history => workspace.root = join worker.base task.id ∧ start <+: history)
      (fun static history => (∀ patch ∈ static, ∃ value ∈ patches task, filePatch value = .ok patch) ∧
        workspace.root = join worker.base task.id ∧ start <+: history) (lift ((patches task).mapM filePatch)) :=
    adds_lift (fun _ _ holds parsed => ⟨fun patch member => mapM_member parsed member,holds⟩)
  apply parses.bind
  intro static
  have parsed : Stable (fun history : History => (∀ patch ∈ static, ∃ value ∈ patches task, filePatch value = .ok patch) ∧
      workspace.root = join worker.base task.id ∧ start <+: history) :=
    fun history more holds => ⟨holds.1,located history more holds.2⟩
  apply (generate_adds ordinary parsed (fun _ holds => holds.2.2)).bind
  rintro ⟨files,step⟩
  have known : Stable (fun history => Given worker task start history files step ∧
      (∀ patch ∈ static, ∃ value ∈ patches task, filePatch value = .ok patch) ∧
      workspace.root = join worker.base task.id ∧ start <+: history) :=
    fun history more holds => ⟨given_stable _ _ _ _ holds.1,parsed history more holds.2⟩
  have kept := (@complete_adds kind _ worker task ordinary known attempt workspace (files ++ static) step ?_ ?_).frame known
  · refine kept.mono (fun history holds => ⟨holds,holds⟩) ?_
    rintro report history ⟨⟨attempts,stops⟩,given,_,_,since⟩
    exact ⟨⟨attempts,fun fails => stops genStep (fails history files step given)⟩,since⟩
  · rintro generated patch member before path target content ⟨given,own,located,_⟩ written
    rw [located] at written
    refine writes before files step given generated patch ?_ path target content written
    rcases List.mem_append.mp member with theirs | ours
    · exact .inl theirs
    · exact .inr (own patch ours)
  · rintro generated before call ⟨given,_,located,_⟩ directed
    exact runs before files step given generated call (directed.trans located)

/-- What every attempt adds an execution adds, and the report of the last comes back. -/
theorem execute_adds (ordinary : Ordinary worker task kind) {shown : ExecutionReport → Prop}
    (each : ∀ attempt, Adds kind (fun history => start <+: history)
      (fun report history => (report.attempts = attempt ∧ shown report) ∧ start <+: history)
      (executeOnce worker task attempt)) :
    Adds kind (fun history => start <+: history)
      (fun report history => (shown report ∧ (report.success = false → report.attempts = maxAttempts task)) ∧
        start <+: history) (execute worker task) := by
  have later : ∀ rounds attempt previous, rounds + attempt = maxAttempts task + 1 →
      (∀ report, previous = some report → report.attempts + 1 = attempt ∧ shown report) →
      Adds kind (fun history => start <+: history)
        (fun report history => (shown report ∧ (report.success = false → report.attempts = maxAttempts task)) ∧
          start <+: history) (executeFrom worker task rounds attempt previous) := by
    intro rounds
    induction rounds with
    | zero =>
      intro attempt previous bound made
      cases previous with
      | none => exact adds_throw _
      | some report =>
        obtain ⟨attempts,own⟩ := made report rfl
        exact adds_pure (fun _ since => ⟨⟨own,fun _ => by omega⟩,since⟩)
    | succ rounds ih =>
      intro attempt previous bound _
      rw [executeFrom]
      apply (each attempt).bind
      rintro report history ⟨⟨attempts,own⟩,since⟩
      by_cases success : report.success = true
      · have ends : Adds kind (fun history => start <+: history)
            (fun report history => (shown report ∧ (report.success = false → report.attempts = maxAttempts task)) ∧
              start <+: history) (pure report : Program ExecutionReport) :=
          adds_pure (fun _ since => ⟨⟨own,by simp [success]⟩,since⟩)
        rw [if_pos success]
        exact ends history since
      · have next : ∀ other, some report = some other → other.attempts + 1 = attempt + 1 ∧ shown other := by
          rintro _ ⟨⟩
          exact ⟨by omega,own⟩
        have rest := ih (attempt + 1) (some report) (by omega) next
        rw [if_neg success]
        split_ifs
        · exact ((emit_adds ordinary (since_stable start) _).bind (fun _ => rest)) history since
        · exact rest history since
  exact later (maxAttempts task) 1 none rfl (by simp)

/-- A drain adds what the executions of its tasks add. -/
theorem runForever_adds {stop : Option (History → Bool)} {source : List Task}
    (each : ∀ task ∈ source, Adds kind (fun history => start <+: history) (fun _ history => start <+: history)
      (execute worker task)) :
    Adds kind (fun history => start <+: history) (fun _ _ => True) (runForever worker stop source) := by
  induction source with
  | nil =>
    intro history _
    refine ⟨[],?_,trivial,by simp⟩
    unfold runForever
    split_ifs <;> simp
  | cons task rest ih =>
    rw [List.forall_mem_cons] at each
    intro history since
    unfold runForever
    split_ifs
    · exact ⟨[],by simp,trivial,by simp⟩
    · have both : Adds kind (fun history => start <+: history) (fun _ _ => True)
          (execute worker task >>= fun _ => runForever worker stop rest) := each.1.bind (fun _ => ih each.2)
      exact both history since

end

/-! ### Answers -/

/-- What the history notes is what came back from the outside for the history before it. -/
def Answers (worker : Worker) (task : Task) (before : History) : Action → Prop
  | .directory path => worker.host.mkdir before path = .ok ()
  | .git call result => result = worker.host.run before call
  | .ran call result => result = worker.host.run before call
  | .file path content => worker.host.writeText before path content = .ok ()
  | .asked goal context reply => ∃ generator spec, worker.generator = some generator ∧ generationSpec task = some spec ∧
      goal = Json.toText ((Dictionaries.get "goal" spec).getD (.str "")) ∧
      context = Json.toText ((Dictionaries.get "context" spec).getD (.str "")) ∧ reply = generator before goal context
  | .stored taskId _ _ => taskId = task.id ∧ worker.artifacts.isSome = true
  | .emitted _ => True

/-- However an execution ends, each result and each reply that it has noted is what the machine
    and the generator answered just then. -/
theorem execute_answers (worker : Worker) (task : Task) (history : History) : ∃ added,
    stateOf (execute worker task history) = history ++ added ∧ Along (Answers worker task) history added := by
  have ordinary : Ordinary worker task (Answers worker task) :=
    ⟨fun _ _ made => made,fun _ _ _ => rfl,fun _ generator spec configured asks =>
      ⟨generator,spec,configured,asks,rfl,rfl,rfl⟩,fun _ _ _ configured => ⟨rfl,configured⟩,fun _ _ => trivial⟩
  have each : ∀ attempt, Adds (Answers worker task) (fun after => history <+: after)
      (fun report after => (report.attempts = attempt ∧ True) ∧ history <+: after) (executeOnce worker task attempt) := by
    intro attempt
    refine (executeOnce_adds ordinary ?_ ?_ attempt).mono (fun _ since => since)
      (fun _ _ holds => ⟨⟨holds.1.1,trivial⟩,holds.2⟩)
    · intro before files step _ _ patch _ path target content writes
      exact writes.written
    · intro before files step _ _ call _
      rfl
  obtain ⟨added,reached,along,_⟩ := execute_adds ordinary each history List.prefix_rfl
  exact ⟨added,reached,along⟩

end Hookclose.WorkerAdditions
