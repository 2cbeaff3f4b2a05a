import Hookclose.WorkerAdditions

/-!
Executions: attempts up to the first that succeeds, and no more than the bound. Where the
payload is well formed and whatever is to be written can be, an execution comes to its
end and reports the attempt that decided it, as the runner and the generator have answered.
-/
namespace Hookclose.BoundedRetries
open Hookclose.Programs Hookclose.Workspaces Hookclose.OpenClaw Hookclose.Attempts
open Hookclose.WorkerAdditions (Answers execute_answers)

/-! ### When an execution returns -/

/-- Every attempt that is made from a number on comes to its end. -/
def EachAttemptable (worker : Worker) (task : Task) : Nat → Nat → History → Prop
  | 0,_,_ => True
  | rounds + 1,attempt,history => Attemptable worker task attempt history ∧
      ∀ report after, executeOnce worker task attempt history = .ok report after → report.success = false →
        attempt < maxAttempts task →
          EachAttemptable worker task rounds (attempt + 1) (after ++ [.emitted (retry task report)])

section
variable {worker : Worker} {task : Task} {history after : History} {report : ExecutionReport}

theorem maxAttempts_pos (task : Task) : 0 < maxAttempts task := by
  unfold maxAttempts
  omega

theorem executeFrom_returns {rounds attempt : Nat} {previous : Option ExecutionReport}
    (bound : rounds + attempt = maxAttempts task + 1) (made : 0 < rounds ∨ previous.isSome = true) :
    Returns (executeFrom worker task rounds attempt previous) history ↔
      EachAttemptable worker task rounds attempt history := by
  induction rounds generalizing attempt previous history with
  | zero =>
    obtain ⟨report,rfl⟩ := Option.isSome_iff_exists.mp (made.resolve_left (lt_irrefl 0))
    simp [executeFrom,EachAttemptable]
  | succ rounds ih =>
    rw [executeFrom,EachAttemptable,← executeOnce_returns]
    constructor
    · intro returns
      obtain ⟨report,after,attempted,returns⟩ := returns_bind.mp returns
      refine ⟨⟨report,after,attempted⟩,?_⟩
      intro _ _ again fails less
      rw [attempted] at again
      cases again
      rw [fails,if_neg Bool.false_ne_true,if_pos less,returns_after (emit_ok.mpr rfl)] at returns
      exact (ih (by omega) (.inr rfl)).mp returns
    · rintro ⟨⟨report,after,attempted⟩,others⟩
      rw [returns_after attempted]
      by_cases success : report.success = true
      · rw [if_pos success]
        exact returns_pure
      · rw [if_neg success]
        by_cases less : attempt < maxAttempts task
        · rw [if_pos less,returns_after (emit_ok.mpr rfl),ih (by omega) (.inr rfl)]
          exact others report after attempted (Bool.eq_false_iff.mpr success) less
        · rw [if_neg less]
          have last : rounds = 0 := by omega
          subst last
          exact returns_pure

theorem execute_returns :
    Returns (execute worker task) history ↔ EachAttemptable worker task (maxAttempts task) 1 history :=
  executeFrom_returns rfl (.inl (maxAttempts_pos task))

/-! ### What an execution has done -/

/-- What the attempts of an execution add, with the event of a retry between two. -/
def joined (task : Task) : List (History × ExecutionReport) → History
  | [] => []
  | [(added,_)] => added
  | (added,report) :: next :: rest => added ++ .emitted (retry task report) :: joined task (next :: rest)

/-- The attempts from a number on, all but the last failed, the last with the report. -/
structure Tried (worker : Worker) (task : Task) (first : Nat) (tries : List (History × ExecutionReport))
    (report : ExecutionReport) : Prop where
  attempted : ∀ i entry, tries[i]? = some entry → Attempted worker task (first + i) entry.1 entry.2
  last : ∃ added, tries.getLast? = some (added,report)
  retried : ∀ entry ∈ tries.dropLast, entry.2.success = false
  bounded : first + tries.length ≤ maxAttempts task + 1
  exhausted : report.success = false → first + tries.length = maxAttempts task + 1

theorem tried_once {first : Nat} {added : History} (attempted : Attempted worker task first added report)
    (bounded : first ≤ maxAttempts task) (ends : report.success = false → first = maxAttempts task) :
    Tried worker task first [(added,report)] report := by
  refine ⟨?_,⟨added,rfl⟩,by simp,?_,?_⟩
  · intro i entry found
    cases i with
    | zero =>
      cases found
      exact attempted
    | succ i => cases found
  · simpa using bounded
  · intro fails
    simpa using ends fails

theorem tried_again {first : Nat} {added : History} {failed : ExecutionReport} {tries : List (History × ExecutionReport)}
    (attempted : Attempted worker task first added failed) (fails : failed.success = false)
    (later : Tried worker task (first + 1) tries report) : Tried worker task first ((added,failed) :: tries) report := by
  obtain ⟨own,last⟩ := later.last
  have some : tries ≠ [] := by
    rintro rfl
    cases last
  refine ⟨?_,⟨own,?_⟩,?_,?_,?_⟩
  · intro i entry found
    cases i with
    | zero =>
      cases found
      exact attempted
    | succ i =>
      have follows := later.attempted i entry found
      rwa [Nat.add_right_comm] at follows
  · rw [List.getLast?_cons,last]
    rfl
  · rw [List.dropLast_cons_of_ne_nil some]
    exact List.forall_mem_cons.mpr ⟨fails,later.retried⟩
  · have bounded := later.bounded
    rw [List.length_cons]
    omega
  · intro failure
    have exhausted := later.exhausted failure
    rw [List.length_cons]
    omega

theorem executeFrom_tried {rounds attempt : Nat} {previous : Option ExecutionReport}
    (bound : rounds + attempt = maxAttempts task + 1) (made : 0 < rounds)
    (returned : executeFrom worker task rounds attempt previous history = .ok report after) :
    ∃ tries, after = history ++ joined task tries ∧ Tried worker task attempt tries report := by
  induction rounds generalizing attempt previous history with
  | zero => cases made
  | succ rounds ih =>
    rw [executeFrom] at returned
    obtain ⟨own,_,once,returned⟩ := bind_ok.mp returned
    obtain ⟨added,rfl,attempted⟩ := executeOnce_adds once
    by_cases success : own.success = true
    · rw [if_pos success] at returned
      obtain ⟨rfl,rfl⟩ := pure_ok.mp returned
      exact ⟨[(added,own)],rfl,tried_once attempted (by omega) (by simp [success])⟩
    · have fails := Bool.eq_false_iff.mpr success
      rw [if_neg success] at returned
      by_cases less : attempt < maxAttempts task
      · rw [if_pos less,bind_of_ok (emit_ok.mpr rfl)] at returned
        obtain ⟨tries,rfl,tried⟩ := ih (by omega) (by omega) returned
        refine ⟨(added,own) :: tries,?_,tried_again attempted fails tried⟩
        obtain ⟨_,last⟩ := tried.last
        cases tries with
        | nil => cases last
        | cons next rest => simp only [joined,List.append_assoc,List.singleton_append]
      · rw [if_neg less] at returned
        have spent : rounds = 0 := by omega
        subst spent
        obtain ⟨rfl,rfl⟩ := pure_ok.mp returned
        exact ⟨[(added,own)],rfl,tried_once attempted (by omega) (fun _ => by omega)⟩

end

/-! ### Executions that cannot raise -/

/-- A patch stays inside the workspace, and the file system takes it at any time. -/
def Placeable (host : Host) (root : String) (patch : FilePatch) : Prop :=
  ∀ history, ∃ path target content, Writes host root history patch path target content

/-- The payload has steps with names and commands, patches that can be placed and a
    numeric timeout. -/
structure WellFormed (worker : Worker) (task : Task) : Prop where
  steps : ∀ spec ∈ steps task, Runnable spec
  patches : ∀ value ∈ patches task, ∃ patch, filePatch value = .ok patch ∧
    Placeable worker.host (join worker.base task.id) patch
  timeout : Numeric (timeoutOf task)

/-- The workspace can be made, and the patches of every usable reply can be placed in it. -/
structure Accommodates (worker : Worker) (task : Task) : Prop where
  directory : ∀ history, worker.host.mkdir history (join worker.base task.id) = .ok ()
  generated : ∀ generator history goal context result, worker.generator = some generator →
    generator history goal context = .ok result → usable (.ok result) = true →
      ∀ patch ∈ result.patches, Placeable worker.host (join worker.base task.id) patch

/-- The report of an execution, and the attempts that led to it. Every result of a command
    and every reply that they note is what the runner and the generator answered to the
    history before it. -/
structure Retried (worker : Worker) (task : Task) (history : History) (tries : List (History × ExecutionReport))
    (report : ExecutionReport) : Prop where
  answered : Along (Answers worker task) history (joined task tries)
  attempts : report.attempts = tries.length
  attempted : ∀ i entry, tries[i]? = some entry → Attempted worker task (i + 1) entry.1 entry.2
  last : ∃ added, tries.getLast? = some (added,report)
  retried : ∀ entry ∈ tries.dropLast, entry.2.success = false
  bounded : report.attempts ≤ maxAttempts task
  exhausted : report.success = false → report.attempts = maxAttempts task

section
variable {worker : Worker} {task : Task} {history : History}

theorem placeable_writable {host : Host} {root : String} {files : List FilePatch}
    (placeable : ∀ patch ∈ files, Placeable host root patch) : AllWritable host root files history := by
  induction files generalizing history with
  | nil => trivial
  | cons patch rest ih =>
    obtain ⟨path,target,content,writes⟩ := placeable patch List.mem_cons_self history
    exact ⟨path,target,content,writes,ih (fun other member => placeable other (List.mem_cons_of_mem _ member))⟩

theorem runnable_steps {root : String} {timeout : FloatValue} {specs : List Json}
    (runnable : ∀ spec ∈ specs, Runnable spec) : StepsRunnable worker task root timeout specs history := by
  induction specs generalizing history with
  | nil => trivial
  | cons spec rest ih =>
    refine ⟨runnable spec List.mem_cons_self,?_⟩
    intro _ _ _ _
    exact ih (fun other member => runnable other (List.mem_cons_of_mem _ member))

theorem wellFormed_attemptable (wellFormed : WellFormed worker task) (accommodates : Accommodates worker task)
    (attempt : Nat) : Attemptable worker task attempt history := by
  refine ⟨accommodates.directory history,?_,?_⟩
  · intro value member
    obtain ⟨patch,parsed,_⟩ := wellFormed.patches value member
    exact filePatch_ok.mp ⟨patch,parsed⟩
  · intro workspace created static files step asked opened parsed generates
    obtain ⟨enabled,made,again,_⟩ := create_ok (accommodates.directory history)
    rw [opened] at again
    cases again
    have own : ∀ patch ∈ static, Placeable worker.host (join worker.base task.id) patch := by
      intro patch member
      obtain ⟨value,listed,origin⟩ := mapM_member parsed member
      obtain ⟨other,same,placeable⟩ := wellFormed.patches value listed
      rw [origin] at same
      cases same
      exact placeable
    have theirs : ∀ patch ∈ files, Placeable worker.host (join worker.base task.id) patch := by
      obtain ⟨others,_,_,same,generated⟩ := generate_generated worker task
        (history ++ made ++ [.emitted (started task attempt (branchName task.id))])
      rw [generates] at same
      cases same
      cases generated with
      | skipped _ => simp
      | refused _ _ => simp
      | made _ configured answered accepted => exact accommodates.generated _ _ _ _ _ configured answered accepted
    refine ⟨wellFormed.timeout,fun _ => placeable_writable (List.forall_mem_append.mpr ⟨theirs,own⟩),?_⟩
    intro _ _ _ _ _ _
    exact runnable_steps wellFormed.steps

theorem each_attemptable (attemptable : ∀ attempt history, Attemptable worker task attempt history)
    (rounds attempt : Nat) : EachAttemptable worker task rounds attempt history := by
  induction rounds generalizing attempt history with
  | zero => trivial
  | succ rounds ih =>
    refine ⟨attemptable attempt history,?_⟩
    intro _ _ _ _ _
    exact ih (attempt + 1)

theorem tried_retried {tries : List (History × ExecutionReport)} {report : ExecutionReport}
    (tried : Tried worker task 1 tries report) (answered : Along (Answers worker task) history (joined task tries)) :
    Retried worker task history tries report := by
  obtain ⟨added,last⟩ := tried.last
  have place : tries[tries.length - 1]? = some (added,report) := by rw [← List.getLast?_eq_getElem?,last]
  have nonempty : 0 < tries.length := List.length_pos_of_mem (List.mem_of_getElem? place)
  have attempts : report.attempts = tries.length := by
    have number : report.attempts = 1 + (tries.length - 1) := (tried.attempted _ _ place).attempts
    omega
  have bounded := tried.bounded
  refine ⟨answered,attempts,?_,tried.last,tried.retried,by omega,?_⟩
  · intro i entry found
    rw [Nat.add_comm]
    exact tried.attempted i entry found
  · intro fails
    have exhausted := tried.exhausted fails
    omega

end

/-- An execution whose payload is well formed and whose patches can be placed returns the
    report of its last attempt: the first that succeeds, as the runner and the generator have
    answered, or that at the bound. -/
theorem execute_retried (worker : Worker) (task : Task) (history : History) (wellFormed : WellFormed worker task)
    (accommodates : Accommodates worker task) : ∃ report tries,
      execute worker task history = .ok report (history ++ joined task tries) ∧ Retried worker task history tries report := by
  have attemptable : ∀ attempt history, Attemptable worker task attempt history := by
    intro attempt history
    exact wellFormed_attemptable wellFormed accommodates attempt
  obtain ⟨report,after,returned⟩ := execute_returns.mpr (each_attemptable attemptable (maxAttempts task) 1)
  obtain ⟨tries,rfl,tried⟩ := executeFrom_tried rfl (maxAttempts_pos task) returned
  obtain ⟨added,reached,answered⟩ := execute_answers worker task history
  rw [returned,stateOf_ok,List.append_cancel_left_eq] at reached
  subst reached
  exact ⟨report,tries,returned,tried_retried tried answered⟩

/-! ### Replies that leave the workspace -/

/-- A worker whose provider makes one file. -/
def generating (path : String) : Worker where
  host := machine
  base := "/ws"
  generator := some (fun _ _ _ => .ok ⟨"claude",[⟨.str path,.str "x"⟩],"",7,false⟩)

/-- A task with a goal and a step. -/
def goalTask : Task where
  id := "t1"
  payload := [("generate",.dict [("goal",.str "an app")]),
    ("steps",.list [.dict [("name",.str "test"),("command",.list [.str "pytest"])]])]
  maxAttempts := 3

theorem goalTask_wellFormed (worker : Worker) : WellFormed worker goalTask := by
  refine ⟨?_,?_,trivial⟩
  · intro spec member
    obtain rfl := List.mem_singleton.mp (show spec ∈ [_] from member)
    exact ⟨_,_,_,rfl,rfl,trivial,rfl⟩
  · intro value member
    cases (show value ∈ [] from member)

/-- There is no provider at first; then the first run of the tests fails. -/
def unsteady : Worker where
  host := { machine with
    run := fun history call =>
      if call.command = ["pytest"] ∧ History.ran history = [] then
        { exitCode := 1, stdout := "", stderr := "1 failed", durationMs := 5 }
      else { exitCode := 0, stdout := "ok", stderr := "", durationMs := 2 } }
  base := "/ws"
  generator := some (fun history _ _ =>
    if History.replies history = [] then .error "outage" else .ok ⟨"claude",[⟨.str "app.py",.str "x"⟩],"",7,false⟩)

/-- The third attempt succeeds, after one without a provider and one whose tests have failed. -/
theorem unsteady_retried : ∃ report tries,
    execute unsteady goalTask [] = .ok report ([] ++ joined goalTask tries) ∧ Retried unsteady goalTask [] tries report ∧
      report.attempts = 3 ∧ report.success = true ∧
      (History.replies (joined goalTask tries)).map usable = [false,true,true] ∧
      (History.ran (joined goalTask tries)).map (fun entry => entry.2.success) = [false,true] := by
  have placeable : Accommodates unsteady goalTask := by
    refine ⟨fun _ => rfl,?_⟩
    intro generator history goal context result configured answered _ patch member
    cases configured
    simp only at answered
    split_ifs at answered
    · cases answered
      obtain rfl := List.mem_singleton.mp member
      intro history
      refine ⟨"app.py","/ws/t1/app.py","x",rfl,?_,⟨"/ws/t1",?_,?_⟩,rfl,rfl,rfl⟩
      · exact congrArg Except.ok (show normalize "/ws/t1/app.py" = "/ws/t1/app.py" by decide +kernel)
      · exact congrArg Except.ok (show normalize "/ws/t1" = "/ws/t1" by decide +kernel)
      · decide +kernel
  obtain ⟨report,tries,returned,retried⟩ := execute_retried unsteady goalTask [] (goalTask_wellFormed unsteady) placeable
  have ends : (match execute unsteady goalTask [] with
      | .ok report after => report.attempts = 3 && report.success &&
          (History.replies after).map usable = [false,true,true] &&
          (History.ran after).map (fun entry => entry.2.success) = [false,true]
      | .error _ _ => false) = true := by decide +kernel
  rw [returned] at ends
  simp only [Bool.and_eq_true,decide_eq_true_eq,List.nil_append] at ends
  obtain ⟨⟨⟨attempts,success⟩,replies⟩,ran⟩ := ends
  exact ⟨report,tries,returned,retried,attempts,success,replies,ran⟩

/-- A usable reply with a path out of the workspace is raised, not reported. -/
theorem escape_raised : WellFormed (generating "../escape.py") goalTask ∧
    ¬ ∃ report after, execute (generating "../escape.py") goalTask [] = .ok report after := by
  refine ⟨goalTask_wellFormed _,?_⟩
  have raises : ¬ Returns (execute (generating "../escape.py") goalTask) [] := by decide +kernel
  exact raises

end Hookclose.BoundedRetries
