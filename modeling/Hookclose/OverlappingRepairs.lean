import Hookclose.Census
import Hookclose.SelfHealing

/-!
Overlapping repairs. `handle_failure` counts a failure and reads how often it has been
repaired before it awaits the announcement, and decides after it. So calls that overlap
decide on readings of the past, and a signature may be repaired more often than the policy
says: once more for each further call that is between its reading and its decision at the
same time. Every await may raise, which ends the call; the counters and the log stay in
step all the same.
-/
namespace Hookclose.OverlappingRepairs
open Hookclose.FailureAnalyzer Hookclose.SelfHealing Hookclose.Runs Hookclose.Census

/-- Where a call of `handle_failure` is: at an await, with the variables that outlive it, or
    at an end. A call that has raised keeps what it had decided by then. -/
inductive CallAt
  | idle
  | analyzed (report : FailureReport) (occurrences priorAttempts : Nat)
  | decided (report : FailureReport) (decision : RepairDecision) (priorAttempts : Nat)
  | rollingBack (report : FailureReport) (decision : RepairDecision) (priorAttempts : Nat)
  | announcing (report : FailureReport) (decision : RepairDecision) (priorAttempts : Nat)
  | returned (decision : RepairDecision)
  | raised (report : FailureReport) (decision : Option RepairDecision)

structure HealingSystem where
  runtime : HealingState := {}
  calls : Nat → CallAt := fun _ => .idle

/-- A call is made, or the await that it is in ends. -/
inductive Turn
  | enter (call : Nat) (report : FailureReport)
  | resume (call : Nat) (raises : Bool)

/-- A call up to its first await, the announcement of the analysis. -/
def beginCall (table : WordTable) (report : FailureReport) (runtime : HealingState) : HealingState × CallAt :=
  let signature := (analyze table report.output).signature
  let seen := runtime.memory.record signature
  ({ runtime with memory := seen.1 },.analyzed report seen.2 (runtime.history.attempts signature.key))

/-- What follows the announcement of an analysis, up to that of the decision. -/
def decideCall (table : WordTable) (policy : RepairPolicy) (report : FailureReport) (occurrences priorAttempts : Nat)
    (runtime : HealingState) : HealingState × CallAt :=
  let analysis := analyze table report.output
  let key := analysis.signature.key
  let decided := decideRepair policy analysis priorAttempts occurrences
  let history := runtime.history.record key decided.1
  let decision : RepairDecision := ⟨decided.1,analysis.signature.category,key,history.attempts key,decided.2⟩
  ({ runtime with
      history := history
      events := runtime.events ++ [.failureAnalyzed report.taskId analysis.signature.category.value key
        analysis.deterministicFixable occurrences] },
    .decided report decision priorAttempts)

/-- The event that a rollback or an escalation ends with. -/
def conclusion (report : FailureReport) (decision : RepairDecision) (priorAttempts : Nat) : HealingEvent :=
  if decision.action = .rollback then .rolledBack report.taskId report.rollbackRef decision.reason
  else .repairEscalated report.taskId decision.reason priorAttempts

/-- What follows the end of an await, up to the next. -/
def proceed (table : WordTable) (policy : RepairPolicy) (configured : Bool) (place : CallAt) (runtime : HealingState) :
    HealingState × CallAt :=
  match place with
  | .analyzed report occurrences priorAttempts => decideCall table policy report occurrences priorAttempts runtime
  | .decided report decision priorAttempts =>
    let runtime := { runtime with
      events := runtime.events ++
        [.repairDecisionMade report.taskId decision.action.value decision.attempt decision.reason] }
    match decision.action with
    | .rollback =>
      if configured then (runtime,.rollingBack report decision priorAttempts)
      else (runtime,.announcing report decision priorAttempts)
    | .escalate => (runtime,.announcing report decision priorAttempts)
    | _ => (runtime,.returned decision)
  | .rollingBack report decision priorAttempts =>
    ({ runtime with rollbacks := runtime.rollbacks ++ [(report.taskId,report.rollbackRef)] },
      .announcing report decision priorAttempts)
  | .announcing report decision priorAttempts =>
    ({ runtime with events := runtime.events ++ [conclusion report decision priorAttempts] },.returned decision)
  | ended => (runtime,ended)

/-- An await that raises ends the call. -/
def broken : CallAt → CallAt
  | .analyzed report _ _ => .raised report none
  | .decided report decision _ => .raised report (some decision)
  | .rollingBack report decision _ => .raised report (some decision)
  | .announcing report decision _ => .raised report (some decision)
  | ended => ended

/-- The state in which a call has come to its next place. -/
def settle (call : Nat) (next : HealingState × CallAt) (s : HealingSystem) : HealingSystem where
  runtime := next.1
  calls := Function.update s.calls call next.2

def step (table : WordTable) (policy : RepairPolicy) (configured : Bool) (s : HealingSystem) : Turn → HealingSystem
  | .enter call report =>
    match s.calls call with
    | .idle => settle call (beginCall table report s.runtime) s
    | _ => s
  | .resume call raises =>
    if raises then settle call (s.runtime,broken (s.calls call)) s
    else settle call (proceed table policy configured (s.calls call) s.runtime) s

@[simp] theorem settle_runtime (call : Nat) (next : HealingState × CallAt) (s : HealingSystem) :
    (settle call next s).runtime = next.1 := rfl

@[simp] theorem settle_self (call : Nat) (next : HealingState × CallAt) (s : HealingSystem) :
    (settle call next s).calls call = next.2 := by
  simp [settle]

theorem settle_other {call other : Nat} (differs : other ≠ call) (next : HealingState × CallAt) (s : HealingSystem) :
    (settle call next s).calls other = s.calls other := by
  simp [settle,differs]

/-! ### A call on its own -/

section
variable {table : WordTable} {policy : RepairPolicy} {configured : Bool}

@[simp] theorem settle_settle (call : Nat) (first second : HealingState × CallAt) (s : HealingSystem) :
    settle call second (settle call first s) = settle call second s := by
  simp [settle]

/-- The ends of so many awaits in a row. -/
def proceeds (table : WordTable) (policy : RepairPolicy) (configured : Bool) : Nat → HealingState × CallAt →
    HealingState × CallAt
  | 0,next => next
  | awaits + 1,next => proceeds table policy configured awaits (proceed table policy configured next.2 next.1)

theorem run_resumes (call awaits : Nat) (next : HealingState × CallAt) (s : HealingSystem) :
    run (step table policy configured) (settle call next s) (List.replicate awaits (.resume call false)) =
      settle call (proceeds table policy configured awaits next) s := by
  induction awaits generalizing next with
  | zero => rfl
  | succ awaits ih =>
    have resumed : step table policy configured (settle call next s) (.resume call false) =
        settle call (proceed table policy configured next.2 next.1) s := by
      simp [step]
    rw [List.replicate_succ,run_cons,resumed,ih,proceeds]

/-- What is left to do after a decision. -/
theorem proceeds_decided (report : FailureReport) (decision : RepairDecision) (priorAttempts : Nat)
    (runtime : HealingState) :
    proceeds table policy configured 3 (runtime,.decided report decision priorAttempts) =
      (carryOut configured report decision priorAttempts { runtime with
        events := runtime.events ++
          [.repairDecisionMade report.taskId decision.action.value decision.attempt decision.reason] },
        .returned decision) := by
  cases action : decision.action with
  | rollback => cases configured <;> simp [proceeds,proceed,carryOut,conclusion,action]
  | _ => simp [proceeds,proceed,carryOut,conclusion,action]

/-- A call that nothing interrupts and whose awaits do not raise does what `handleFailure`
    does: it ends within four awaits. -/
theorem alone_handles {s : HealingSystem} {call : Nat} (idle : s.calls call = .idle) (report : FailureReport) :
    run (step table policy configured) s (.enter call report :: List.replicate 4 (.resume call false)) =
      settle call ((handleFailure table policy configured report s.runtime).1,
        .returned (handleFailure table policy configured report s.runtime).2) s := by
  have entered : step table policy configured s (.enter call report) = settle call (beginCall table report s.runtime) s := by
    simp [step,idle]
  rw [run_cons,entered,run_resumes,proceeds]
  simp only [beginCall,proceed,decideCall]
  rw [proceeds_decided]
  simp [handleFailure]

end

/-! ### What a turn can do -/

/-- The call has counted a failure of the signature and not decided yet. -/
def Undecided (table : WordTable) (key : String) : CallAt → Prop
  | .analyzed report _ _ => keyOf table report = key
  | _ => False

/-- It has read, besides, that the signature may still be repaired. -/
def Claims (table : WordTable) (policy : RepairPolicy) (key : String) : CallAt → Prop
  | .analyzed report _ priorAttempts => keyOf table report = key ∧ (priorAttempts : Int) < policy.maxRepairAttempts
  | _ => False

/-- The call has counted a failure of the signature, and has not decided or never will. -/
def Open (table : WordTable) (key : String) : CallAt → Prop
  | .analyzed report _ _ => keyOf table report = key
  | .raised report none => keyOf table report = key
  | _ => False

instance (table : WordTable) (key : String) : DecidablePred (Open table key)
  | .analyzed report _ _ => inferInstanceAs (Decidable (keyOf table report = key))
  | .raised report none => inferInstanceAs (Decidable (keyOf table report = key))
  | .raised _ (some _) => .isFalse id
  | .idle => .isFalse id
  | .decided _ _ _ => .isFalse id
  | .rollingBack _ _ _ => .isFalse id
  | .announcing _ _ _ => .isFalse id
  | .returned _ => .isFalse id

theorem broken_claims {table : WordTable} {policy : RepairPolicy} {key : String} {place : CallAt} :
    ¬ Claims table policy key (broken place) := by
  cases place <;> simp [broken,Claims]

theorem broken_open {table : WordTable} {key : String} {place : CallAt} :
    Open table key (broken place) ↔ Open table key place := by
  cases place <;> simp [broken,Open]

/-- Only the decision writes the history. -/
theorem proceed_later {table : WordTable} {policy : RepairPolicy} {configured : Bool} {place : CallAt}
    (made : ∀ report occurrences priorAttempts, place ≠ .analyzed report occurrences priorAttempts)
    (runtime : HealingState) :
    (proceed table policy configured place runtime).1.memory = runtime.memory ∧
      (proceed table policy configured place runtime).1.history = runtime.history ∧
      ∀ key, (Open table key (proceed table policy configured place runtime).2 ↔ Open table key place) ∧
        ¬ Claims table policy key (proceed table policy configured place runtime).2 := by
  cases place with
  | analyzed report occurrences priorAttempts => exact absurd rfl (made report occurrences priorAttempts)
  | decided report decision priorAttempts =>
    cases action : decision.action <;> cases configured <;> simp [proceed,action,Open,Claims]
  | raised report decision => cases decision <;> simp [proceed,Open,Claims]
  | _ => simp [proceed,Open,Claims]

/-- The repairs among the decisions for a signature. -/
def isRepairOf (key : String) (entry : String × String) : Bool :=
  entry.1 = key && (entry.2 = "deterministic_fix" || entry.2 = "llm_repair" || entry.2 = "retry")

/-- The announced analyses of a signature. -/
def isAnalysisOf (key : String) : HealingEvent → Bool
  | .failureAnalyzed _ _ signatureKey _ _ => signatureKey = key
  | _ => false

theorem isRepairOf_value (key other : String) (action : RepairAction) :
    isRepairOf key (other,action.value) = (decide (other = key) && action.isRepair) := by
  cases action <;> simp [isRepairOf,RepairAction.value,RepairAction.isRepair]

/-! ### The books of a signature -/

/-- The counters of a signature with so many open calls: each failure that was counted has
    one entry in the log or an open call, each repair of the log was counted as an attempt,
    and each entry was announced. -/
structure Balanced (key : String) (runtime : HealingState) (opened : Nat) : Prop where
  occurrences : runtime.memory.counts key = runtime.history.log.countP (fun entry => entry.1 = key) + opened
  attempts : runtime.history.attempts key = runtime.history.log.countP (isRepairOf key)
  analyses : runtime.events.countP (isAnalysisOf key) = runtime.history.log.countP (fun entry => entry.1 = key)

/-- The books of a signature in a state. -/
def Books (table : WordTable) (key : String) (s : HealingSystem) : Prop :=
  ∃ opened, Counted (fun call => Open table key (s.calls call)) opened ∧ Balanced key s.runtime opened

section
variable {table : WordTable} {policy : RepairPolicy} {configured : Bool} {key : String} {s : HealingSystem}

/-- A turn of one call keeps the books if they balance with the change at that call. -/
theorem settle_books {call : Nat} {next : HealingState × CallAt} (books : Books table key s)
    (balances : ∀ opened after, Balanced key s.runtime opened →
      after + (if Open table key (s.calls call) then 1 else 0) = opened + (if Open table key next.2 then 1 else 0) →
        Balanced key next.1 after) : Books table key (settle call next s) := by
  obtain ⟨opened,counted,balanced⟩ := books
  obtain ⟨after,recounted,change⟩ := counted.moved (x := call)
    (Q := fun other => Open table key ((settle call next s).calls other)) (by
      intro other differs
      rw [settle_other differs])
  simp only [settle_self] at change
  exact ⟨after,recounted,balances opened after balanced change⟩

theorem begin_balanced {call : Nat} (idle : s.calls call = .idle) (report : FailureReport) {opened after : Nat}
    (balanced : Balanced key s.runtime opened)
    (change : after + (if Open table key (s.calls call) then 1 else 0) =
      opened + (if Open table key (beginCall table report s.runtime).2 then 1 else 0)) :
    Balanced key (beginCall table report s.runtime).1 after := by
  obtain ⟨occurrences,attempts,analyses⟩ := balanced
  refine ⟨?_,attempts,analyses⟩
  rw [idle] at change
  by_cases same : keyOf table report = key
  · have counted : (beginCall table report s.runtime).1.memory.counts key = s.runtime.memory.counts key + 1 := by
      subst same
      simp [beginCall,FailureMemory.record,keyOf]
    rw [counted,occurrences]
    simp [beginCall,Open,same] at change ⊢
    omega
  · have kept : (beginCall table report s.runtime).1.memory.counts key = s.runtime.memory.counts key := by
      have differs : key ≠ (analyze table report.output).signature.key := fun equal => same equal.symm
      simp [beginCall,FailureMemory.record,differs]
    rw [kept,occurrences]
    simp [beginCall,Open,same] at change ⊢
    omega

theorem decide_balanced {call occurrences priorAttempts : Nat} {report : FailureReport}
    (analyzed : s.calls call = .analyzed report occurrences priorAttempts) {opened after : Nat}
    (balanced : Balanced key s.runtime opened)
    (change : after + (if Open table key (s.calls call) then 1 else 0) =
      opened + (if Open table key (decideCall table policy report occurrences priorAttempts s.runtime).2 then 1 else 0)) :
    Balanced key (decideCall table policy report occurrences priorAttempts s.runtime).1 after := by
  obtain ⟨counted,attempts,analyses⟩ := balanced
  have closed : ¬ Open table key (decideCall table policy report occurrences priorAttempts s.runtime).2 := fun opened => opened
  rw [analyzed,if_neg closed] at change
  have own : (analyze table report.output).signature.key = keyOf table report := rfl
  generalize decided : decideRepair policy (analyze table report.output) priorAttempts occurrences = verdict
  obtain ⟨action,reason⟩ := verdict
  by_cases same : keyOf table report = key
  · have before : Open table key (.analyzed report occurrences priorAttempts) := same
    rw [if_pos before] at change
    refine ⟨?_,?_,?_⟩
    · simp only [decideCall,RepairHistory.record,List.countP_append,decided,own]
      simp [same,counted]
      omega
    · simp only [decideCall,RepairHistory.record,List.countP_append,decided,own,List.countP_cons,List.countP_nil,
        isRepairOf_value]
      subst same
      cases action.isRepair <;> simp [attempts]
    · simp only [decideCall,RepairHistory.record,List.countP_append,decided,own]
      simp [same,isAnalysisOf,analyses]
  · have before : ¬ Open table key (.analyzed report occurrences priorAttempts) := same
    rw [if_neg before] at change
    refine ⟨?_,?_,?_⟩
    · simp only [decideCall,RepairHistory.record,List.countP_append,decided,own]
      simp [same,counted]
      omega
    · simp only [decideCall,RepairHistory.record,List.countP_append,decided,own,List.countP_cons,List.countP_nil,
        isRepairOf_value]
      have differs : key ≠ keyOf table report := fun equal => same equal.symm
      cases action.isRepair <;> simp [attempts,same,differs]
    · simp only [decideCall,RepairHistory.record,List.countP_append,decided,own]
      simp [same,isAnalysisOf,analyses]

/-- What follows the decision announces no analysis. -/
theorem proceed_events {place : CallAt}
    (made : ∀ report occurrences priorAttempts, place ≠ .analyzed report occurrences priorAttempts)
    (runtime : HealingState) :
    (proceed table policy configured place runtime).1.events.countP (isAnalysisOf key) =
      runtime.events.countP (isAnalysisOf key) := by
  cases place with
  | analyzed report occurrences priorAttempts => exact absurd rfl (made report occurrences priorAttempts)
  | decided report decision priorAttempts =>
    cases action : decision.action <;> cases configured <;> simp [proceed,action,isAnalysisOf]
  | announcing report decision priorAttempts =>
    by_cases rolled : decision.action = .rollback <;> simp [proceed,conclusion,rolled,isAnalysisOf]
  | _ => simp [proceed]

theorem step_books (books : Books table key s) (turn : Turn) : Books table key (step table policy configured s turn) := by
  cases turn with
  | enter call report =>
    cases place : s.calls call with
    | idle =>
      simp only [step,place]
      exact settle_books books (fun opened after balanced change => begin_balanced place report balanced change)
    | _ => simpa [step,place] using books
  | resume call raises =>
    cases raises with
    | true =>
      refine settle_books books ?_
      intro opened after balanced change
      have same : after = opened := by simpa [broken_open] using change
      rwa [same]
    | false =>
      refine settle_books books ?_
      by_cases made : ∃ report occurrences priorAttempts, s.calls call = .analyzed report occurrences priorAttempts
      · obtain ⟨report,occurrences,priorAttempts,analyzed⟩ := made
        intro opened after balanced change
        rw [analyzed] at change ⊢
        exact decide_balanced analyzed balanced (analyzed ▸ change)
      · simp only [not_exists] at made
        intro opened after balanced change
        obtain ⟨memory,history,places⟩ := @proceed_later table policy configured _ made s.runtime
        have same : after = opened := by simpa [(places key).1] using change
        subst same
        refine ⟨?_,?_,?_⟩
        · rw [memory,history]
          exact balanced.occurrences
        · rw [history]
          exact balanced.attempts
        · rw [proceed_events made,history]
          exact balanced.analyses

end

/-- So many calls, at most, have counted a failure of the signature and not decided yet. -/
def Concurrent (table : WordTable) (key : String) (most : Nat) (s : HealingSystem) : Prop :=
  ∃ undecided, Counted (fun call => Undecided table key (s.calls call)) undecided ∧ undecided ≤ most

/-- The attempts, with one for each call that may still repair, are within the limit. -/
def Bounded (table : WordTable) (policy : RepairPolicy) (key : String) (limit : Int) (s : HealingSystem) : Prop :=
  ∃ claims, Counted (fun call => Claims table policy key (s.calls call)) claims ∧
    (s.runtime.history.attempts key : Int) + claims ≤ limit

instance (table : WordTable) (policy : RepairPolicy) (key : String) : DecidablePred (Claims table policy key)
  | .analyzed report _ priorAttempts =>
    inferInstanceAs (Decidable (keyOf table report = key ∧ (priorAttempts : Int) < policy.maxRepairAttempts))
  | .raised _ _ => .isFalse id
  | .idle => .isFalse id
  | .decided _ _ _ => .isFalse id
  | .rollingBack _ _ _ => .isFalse id
  | .announcing _ _ _ => .isFalse id
  | .returned _ => .isFalse id

section
variable {table : WordTable} {policy : RepairPolicy} {configured : Bool} {key : String} {limit : Int} {s : HealingSystem}

/-- A turn of a call that claims nothing new and repairs only what it has claimed. -/
theorem settle_bounded {call : Nat} {next : HealingState × CallAt} (bounded : Bounded table policy key limit s)
    (kept : ¬ Claims table policy key next.2)
    (repairs : next.1.history.attempts key = s.runtime.history.attempts key ∨
      (Claims table policy key (s.calls call) ∧
        next.1.history.attempts key = s.runtime.history.attempts key + 1)) :
    Bounded table policy key limit (settle call next s) := by
  obtain ⟨claims,counted,within⟩ := bounded
  obtain ⟨after,recounted,change⟩ := counted.moved (x := call)
    (Q := fun other => Claims table policy key ((settle call next s).calls other)) (by
      intro other differs
      rw [settle_other differs])
  simp only [settle_self,if_neg kept] at change
  refine ⟨after,recounted,?_⟩
  rw [settle_runtime]
  rcases repairs with same | ⟨claimed,more⟩
  · split_ifs at change <;> omega
  · rw [if_pos claimed] at change
    omega

/-- A new call that may repair finds the attempts below the policy's maximum. -/
theorem begin_bounded {call most : Nat} (bounded : Bounded table policy key limit s)
    (room : policy.maxRepairAttempts - 1 + most ≤ limit) (report : FailureReport)
    (few : Concurrent table key most (settle call (beginCall table report s.runtime) s)) :
    Bounded table policy key limit (settle call (beginCall table report s.runtime) s) := by
  by_cases claims : Claims table policy key (beginCall table report s.runtime).2
  · obtain ⟨same,below⟩ := claims
    obtain ⟨undecided,counted,within⟩ := few
    obtain ⟨after,recounted,fewer⟩ := counted.part
      (Q := fun other => Claims table policy key ((settle call (beginCall table report s.runtime) s).calls other)) (by
        intro other claimed
        cases place : (settle call (beginCall table report s.runtime) s).calls other with
        | analyzed _ _ _ => rw [place] at claimed; exact claimed.1
        | _ => rw [place] at claimed; exact claimed.elim)
    refine ⟨after,recounted,?_⟩
    subst same
    have reading : (s.runtime.history.attempts (keyOf table report) : Int) < policy.maxRepairAttempts := below
    show (s.runtime.history.attempts (keyOf table report) : Int) + after ≤ limit
    omega
  · exact settle_bounded bounded claims (.inl rfl)

/-- A decision repairs only where the reading was below the policy's maximum. -/
theorem decide_attempts (report : FailureReport) (occurrences priorAttempts : Nat) (runtime : HealingState) :
    (decideCall table policy report occurrences priorAttempts runtime).1.history.attempts key =
        runtime.history.attempts key ∨
      (Claims table policy key (.analyzed report occurrences priorAttempts) ∧
        (decideCall table policy report occurrences priorAttempts runtime).1.history.attempts key =
          runtime.history.attempts key + 1) := by
  have own : (analyze table report.output).signature.key = keyOf table report := rfl
  have cases := decide_cases policy (analyze table report.output) priorAttempts occurrences
  by_cases same : keyOf table report = key
  · subst same
    rcases cases with ⟨_,escalates⟩ | ⟨below,_⟩
    · left
      simp [decideCall,RepairHistory.record,escalates,RepairAction.isRepair]
    · cases repair : (decideRepair policy (analyze table report.output) priorAttempts occurrences).1.isRepair with
      | false => exact .inl (by simp [decideCall,RepairHistory.record,repair])
      | true => exact .inr ⟨⟨rfl,below⟩,by simp [decideCall,RepairHistory.record,repair,own]⟩
  · left
    have differs : key ≠ keyOf table report := fun equal => same equal.symm
    cases repair : (decideRepair policy (analyze table report.output) priorAttempts occurrences).1.isRepair <;>
      simp [decideCall,RepairHistory.record,repair,own,differs]

theorem step_bounded {most : Nat} (room : policy.maxRepairAttempts - 1 + most ≤ limit)
    (bounded : Bounded table policy key limit s) (turn : Turn)
    (few : Concurrent table key most (step table policy configured s turn)) :
    Bounded table policy key limit (step table policy configured s turn) := by
  cases turn with
  | enter call report =>
    cases place : s.calls call with
    | idle =>
      simp only [step,place] at few ⊢
      exact begin_bounded bounded room report few
    | _ => simpa [step,place] using bounded
  | resume call raises =>
    cases raises with
    | true => exact settle_bounded bounded broken_claims (.inl rfl)
    | false =>
      by_cases made : ∃ report occurrences priorAttempts, s.calls call = .analyzed report occurrences priorAttempts
      · obtain ⟨report,occurrences,priorAttempts,analyzed⟩ := made
        refine settle_bounded bounded ?_ ?_
        · rw [analyzed]
          exact fun claimed => claimed
        · rw [analyzed]
          exact decide_attempts report occurrences priorAttempts s.runtime
      · simp only [not_exists] at made
        obtain ⟨_,history,places⟩ := @proceed_later table policy configured _ made s.runtime
        exact settle_bounded bounded (places key).2 (.inl (by rw [history]))

end

/-- Where at most so many calls on a signature are between their reading and their decision at
    a time, it is repaired no more often than the policy says, and once more for each of them
    but one, whatever raises. -/
theorem repairs_overrun {table : WordTable} {policy : RepairPolicy} {configured : Bool} {key : String} {most : Nat}
    (runtime : HealingState) (turns : List Turn)
    (few : Always (step table policy configured) (Concurrent table key most) { runtime := runtime } turns) :
    Always (step table policy configured) (fun s => (s.runtime.history.attempts key : Int) ≤
      max (runtime.history.attempts key : Int) (policy.maxRepairAttempts - 1 + most)) { runtime := runtime } turns := by
  have made := le_max_left (runtime.history.attempts key : Int) (policy.maxRepairAttempts - 1 + most)
  have room := le_max_right (runtime.history.attempts key : Int) (policy.maxRepairAttempts - 1 + most)
  generalize max (runtime.history.attempts key : Int) (policy.maxRepairAttempts - 1 + most) = limit at made room
  have each : Each (step table policy configured) (fun s turn => Concurrent table key most (step table policy configured s turn))
      { runtime := runtime } turns := by
    intro done turn within
    have after := few _ within
    rwa [run_concat] at after
  have initial : Bounded table policy key limit { runtime := runtime } :=
    ⟨0,counted_none (fun _ claimed => claimed),by simpa using made⟩
  have always := always_of_each (Bounded table policy key limit) _
    (fun s turn bounded few => step_bounded room bounded turn few) initial each
  refine always.mono ?_
  rintro s ⟨claims,_,within⟩
  omega

/-- The call that a turn belongs to. -/
def callOf : Turn → Nat
  | .enter call _ => call
  | .resume call _ => call

/-- Where all turns belong to the first calls, no more than those overlap. -/
theorem concurrent_calls (table : WordTable) (policy : RepairPolicy) (configured : Bool) (key : String)
    (runtime : HealingState) {bound : Nat} {turns : List Turn} (first : ∀ turn ∈ turns, callOf turn < bound) :
    Always (step table policy configured) (Concurrent table key bound) { runtime := runtime } turns := by
  classical
  have idle : Always (step table policy configured) (fun s => ∀ call, bound ≤ call → s.calls call = .idle)
      { runtime := runtime } turns := by
    refine always_of_each _ (fun _ turn => callOf turn < bound) ?_ (fun _ _ => rfl) (each_of_forall first)
    intro s turn rest early call late
    have differs : call ≠ callOf turn := by omega
    cases turn with
    | enter own report =>
      cases place : s.calls own with
      | idle =>
        simp only [step,place]
        exact (settle_other differs _ s).trans (rest call late)
      | _ => simpa [step,place] using rest call late
    | resume own raises =>
      cases raises
      · exact (settle_other differs _ s).trans (rest call late)
      · exact (settle_other differs _ s).trans (rest call late)
  refine idle.mono ?_
  intro s rest
  apply counted_below
  intro call undecided
  by_contra late
  rw [rest call (not_lt.mp late)] at undecided
  exact undecided

/-- Two calls on one failure, of which the policy allows one repair. -/
theorem two_repairs_overrun :
    Always (step asciiWords ⟨1,true,3⟩ false) (fun s => (s.runtime.history.attempts (keyOf asciiWords ⟨"t1","boom","last-good"⟩) : Int) ≤
        max (0 : Nat) (1 - 1 + (2 : Nat))) { runtime := {} }
      [.enter 0 ⟨"t1","boom","last-good"⟩,.enter 1 ⟨"t2","boom","last-good"⟩,.resume 0 false,.resume 1 false] :=
  repairs_overrun {} _ (concurrent_calls asciiWords ⟨1,true,3⟩ false _ {} (by simp [callOf]))

end Hookclose.OverlappingRepairs
