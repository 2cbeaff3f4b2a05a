import Hookclose.BoundedRetries

/-!
Drains: a source is executed task by task, with no handler for what an execution raises.
A drain empties its source exactly when every attempt that it makes comes to its end, and
then every attempt is answered in the event stream.
-/
namespace Hookclose.WorkerDrain
open Hookclose.Programs Hookclose.Workspaces Hookclose.OpenClaw Hookclose.Attempts Hookclose.BoundedRetries

/-! ### The event stream -/

/-- The ends of attempts before the next beginning. -/
def window (events : List WorkerEvent) : List WorkerEvent :=
  (events.takeWhile (fun event => !event.isStarted)).filter WorkerEvent.isFinished

/-- Every beginning of an attempt is followed by one end, for the same task, before the
    next beginning. -/
def Answered : List WorkerEvent → Prop
  | [] => True
  | event :: rest =>
    (event.isStarted = true → ∃ finish, window rest = [finish] ∧ finish.taskId = event.taskId) ∧ Answered rest

/-- Events that can follow others: nothing ends before something begins. -/
structure Orderly (events : List WorkerEvent) : Prop where
  answered : Answered events
  unfinished : window events = []

theorem window_append {first second : List WorkerEvent} (unfinished : window second = []) :
    window (first ++ second) = window first := by
  induction first with
  | nil => exact unfinished
  | cons event rest ih =>
    unfold window at ih ⊢
    rw [List.cons_append,List.takeWhile_cons,List.takeWhile_cons]
    cases event.isStarted with
    | true => rfl
    | false => simp only [Bool.not_false,if_true,List.filter_cons,ih]

theorem window_inner {middle rest : List WorkerEvent} (inner : ∀ event ∈ middle, Inner event) :
    window (middle ++ rest) = window rest := by
  induction middle with
  | nil => rfl
  | cons event later ih =>
    obtain ⟨⟨unstarted,unended,_⟩,others⟩ := List.forall_mem_cons.mp inner
    have shorter := ih others
    unfold window at shorter ⊢
    rw [List.cons_append,List.takeWhile_cons,unstarted]
    simp only [Bool.not_false,if_true,List.filter_cons,unended,Bool.false_eq_true,if_false,shorter]

theorem answered_quiet {events : List WorkerEvent} (quiet : ∀ event ∈ events, event.isStarted = false) :
    Answered events := by
  induction events with
  | nil => trivial
  | cons event rest ih =>
    obtain ⟨unstarted,others⟩ := List.forall_mem_cons.mp quiet
    exact ⟨fun begins => absurd begins (by simp [unstarted]),ih others⟩

theorem answered_append {first second : List WorkerEvent} (before : Answered first) (later : Orderly second) :
    Answered (first ++ second) := by
  induction first with
  | nil => exact later.answered
  | cons event rest ih =>
    refine ⟨?_,ih before.2⟩
    intro begins
    show ∃ finish, window (rest ++ second) = [finish] ∧ _
    rw [window_append later.unfinished]
    exact before.1 begins

theorem Orderly.append {first second : List WorkerEvent} (before : Orderly first) (later : Orderly second) :
    Orderly (first ++ second) :=
  ⟨answered_append before.answered later,(window_append later.unfinished).trans before.unfinished⟩

@[simp] theorem finished_started (report : ExecutionReport) : (finished report).isStarted = false := by
  unfold finished
  split_ifs <;> rfl

@[simp] theorem finished_finished (report : ExecutionReport) : (finished report).isFinished = true := by
  unfold finished
  split_ifs <;> rfl

@[simp] theorem finished_taskId (report : ExecutionReport) : (finished report).taskId = report.taskId := by
  unfold finished
  split_ifs <;> rfl

section
variable {worker : Worker} {task : Task} {history after : History} {report : ExecutionReport}

theorem attempted_orderly {attempt : Nat} {added : History} (attempted : Attempted worker task attempt added report) :
    Orderly (History.events added) := by
  obtain ⟨middle,events,inner⟩ := attempted.events
  rw [events,List.cons_append]
  have ends : window (middle ++ [finished report]) = [finished report] := by
    rw [window_inner inner]
    simp [window]
  have quiet : ∀ event ∈ middle ++ [finished report], event.isStarted = false := by
    rw [List.forall_mem_append]
    exact ⟨fun event member => (inner event member).1,by simp⟩
  refine ⟨⟨?_,answered_quiet quiet⟩,by simp [window,started,WorkerEvent.isStarted]⟩
  intro _
  refine ⟨finished report,ends,?_⟩
  rw [finished_taskId,attempted.taskId]
  rfl

/-- The attempts of an execution follow each other in order. -/
theorem joined_orderly {first : Nat} {tries : List (History × ExecutionReport)}
    (attempted : ∀ i entry, tries[i]? = some entry → Attempted worker task (first + i) entry.1 entry.2) :
    Orderly (History.events (joined task tries)) := by
  induction tries generalizing first with
  | nil => exact ⟨trivial,rfl⟩
  | cons entry rest ih =>
    have own := attempted_orderly (attempted 0 entry rfl)
    cases rest with
    | nil => exact own
    | cons next others =>
      have follows : ∀ i later, (next :: others)[i]? = some later →
          Attempted worker task (first + 1 + i) later.1 later.2 := by
        intro i later found
        have later := attempted (i + 1) later found
        rwa [← Nat.add_assoc,Nat.add_right_comm] at later
      have retries : Orderly [retry task entry.2] := ⟨answered_quiet (by simp [retry,WorkerEvent.isStarted]),rfl⟩
      have rejoined := retries.append (ih follows)
      rw [joined,History.events_append]
      exact own.append rejoined

theorem execute_orderly (returned : execute worker task history = .ok report after) :
    ∃ added, after = history ++ added ∧ Orderly (History.events added) := by
  obtain ⟨tries,rfl,tried⟩ := executeFrom_tried rfl (maxAttempts_pos task) returned
  exact ⟨_,rfl,joined_orderly tried.attempted⟩

end

/-! ### Drains -/

/-- The source is emptied, and every attempt answered. -/
def Drains (worker : Worker) (tasks : List Task) : Prop :=
  ∃ history, runForever worker none tasks [] = .ok [] history ∧ Answered (History.events history)

/-- Every attempt that is made at a task, when the tasks before it have been executed,
    comes to its end. -/
def Survivable (worker : Worker) : List Task → History → Prop
  | [],_ => True
  | task :: rest,history => EachAttemptable worker task (maxAttempts task) 1 history ∧
      ∀ report after, execute worker task history = .ok report after → Survivable worker rest after

section
variable {worker : Worker} {tasks left : List Task} {history after : History}

/-- A turn of the drain claims a task and executes it. -/
theorem runForever_turn (stop : Option (History → Bool)) : runForever worker stop tasks history =
    if (stop.map (fun stop => stop history)).getD false then .ok tasks history
    else (consumeOnce worker tasks >>= fun turn =>
      if turn.1.isNone then pure turn.2 else runForever worker stop turn.2) history := by
  cases tasks with
  | nil => rfl
  | cons task rest =>
    rw [runForever]
    split_ifs
    · rfl
    · unfold consumeOnce claim
      rw [bind_assoc]
      rfl

theorem runForever_returns : Returns (runForever worker none tasks) history ↔ Survivable worker tasks history := by
  induction tasks generalizing history with
  | nil => exact iff_of_true ⟨_,_,rfl⟩ trivial
  | cons task rest ih =>
    have turn : Returns (runForever worker none (task :: rest)) history ↔
        Returns (execute worker task >>= fun _ => runForever worker none rest) history := Iff.rfl
    rw [turn,returns_bind,Survivable,← execute_returns]
    constructor
    · rintro ⟨report,after,executed,others⟩
      refine ⟨⟨report,after,executed⟩,?_⟩
      intro _ _ again
      rw [executed] at again
      cases again
      exact ih.mp others
    · rintro ⟨⟨report,after,executed⟩,others⟩
      exact ⟨report,after,executed,ih.mpr (others report after executed)⟩

theorem runForever_empties (returned : runForever worker none tasks history = .ok left after) :
    left = [] ∧ ∃ added, after = history ++ added ∧ Orderly (History.events added) := by
  induction tasks generalizing history with
  | nil =>
    cases returned
    exact ⟨rfl,[],by simp,trivial,rfl⟩
  | cons task rest ih =>
    have turn : (execute worker task >>= fun _ => runForever worker none rest) history = .ok left after := returned
    obtain ⟨report,_,executed,others⟩ := bind_ok.mp turn
    obtain ⟨added,rfl,orderly⟩ := execute_orderly executed
    obtain ⟨empty,more,rfl,later⟩ := ih others
    refine ⟨empty,added ++ more,List.append_assoc _ _ _,?_⟩
    rw [History.events_append]
    exact orderly.append later

end

/-- The source is emptied, with every attempt answered in the event stream, exactly when
    every attempt that is made comes to its end. -/
theorem drains_iff_survivable (worker : Worker) (tasks : List Task) :
    Drains worker tasks ↔ Survivable worker tasks [] := by
  rw [← runForever_returns]
  constructor
  · rintro ⟨history,returned,_⟩
    exact ⟨[],history,returned⟩
  · rintro ⟨left,history,returned⟩
    obtain ⟨rfl,added,rfl,orderly⟩ := runForever_empties returned
    exact ⟨_,returned,orderly.answered⟩

/-! ### A payload that raises -/

/-- A task whose timeout is no number. -/
def malformedTask : Task where
  id := "t0"
  payload := [("timeout",.str "soon")]

/-- The exception of the malformed task leaves the drain, with the other task unexecuted. -/
theorem malformed_stops : ¬ Drains (generating "app.py") [malformedTask,goalTask] := by
  have raises : ¬ Returns (runForever (generating "app.py") none [malformedTask,goalTask]) [] := by decide +kernel
  rintro ⟨history,returned,_⟩
  exact raises ⟨[],history,returned⟩

end Hookclose.WorkerDrain
