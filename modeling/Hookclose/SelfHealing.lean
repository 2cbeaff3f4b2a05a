import Hookclose.FailureAnalyzer
import Hookclose.Runs
import Mathlib.Logic.Function.Basic

/-!
Bounded, deterministic-first failure repair. A failure is analysed, counted under
the key of its signature and answered with a decision, which depends on the
policy and on two counters of that key: how often it has occurred, and how often
it has been repaired. A run keeps the failures with the decisions they got.
-/
namespace Hookclose.SelfHealing
open Hookclose.FailureAnalyzer Hookclose.Runs

inductive RepairAction
  | retry
  | deterministicFix
  | llmRepair
  | rollback
  | escalate
  deriving DecidableEq, Repr

def RepairAction.value : RepairAction → String
  | .retry => "retry"
  | .deterministicFix => "deterministic_fix"
  | .llmRepair => "llm_repair"
  | .rollback => "rollback"
  | .escalate => "escalate"

/-- The actions that use up a repair attempt. -/
def RepairAction.isRepair (action : RepairAction) : Bool :=
  action = .deterministicFix || action = .llmRepair || action = .retry

structure RepairPolicy where
  maxRepairAttempts : Int := 3
  deterministicFirst : Bool := true
  rollbackAfterRepeats : Int := 3

structure RepairDecision where
  action : RepairAction
  category : FailureCategory
  signatureKey : String
  attempt : Nat
  reason : String
  deriving DecidableEq, Repr

/-- The healing events. -/
inductive HealingEvent
  | failureAnalyzed (taskId category signatureKey : String) (deterministicFixable : Bool) (occurrences : Nat)
  | repairDecisionMade (taskId action : String) (attempt : Nat) (reason : String)
  | rolledBack (taskId toRef reason : String)
  | repairEscalated (taskId reason : String) (attempts : Nat)
  deriving DecidableEq, Repr

/-- How often each signature has been seen. -/
structure FailureMemory where
  counts : String → Nat := fun _ => 0

/-- Counts one more occurrence of a signature, and tells how many there are now. -/
def FailureMemory.record (signature : FailureSignature) (memory : FailureMemory) : FailureMemory × Nat :=
  let count := memory.counts signature.key + 1
  (⟨Function.update memory.counts signature.key count⟩,count)

/-- How often each signature has been repaired, and the log of all actions. -/
structure RepairHistory where
  attempts : String → Nat := fun _ => 0
  log : List (String × String) := []

def RepairHistory.record (key : String) (action : RepairAction) (history : RepairHistory) : RepairHistory where
  attempts := if action.isRepair then Function.update history.attempts key (history.attempts key + 1) else history.attempts
  log := history.log ++ [(key,action.value)]

/-- The runtime; `rollbacks` holds the calls of the rollback function. -/
structure HealingState where
  memory : FailureMemory := {}
  history : RepairHistory := {}
  events : List HealingEvent := []
  rollbacks : List (String × String) := []

/-- The arguments of `handle_failure`. -/
structure FailureReport where
  taskId : String
  output : String
  rollbackRef : String := "last-good"

def decideRepair (policy : RepairPolicy) (analysis : FailureAnalysis) (priorAttempts occurrences : Nat) :
    RepairAction × String :=
  if policy.maxRepairAttempts ≤ priorAttempts then (.escalate,"repair attempts exhausted")
  else if analysis.signature.category = .timeout ∧ priorAttempts = 0 then (.retry,"transient timeout — retry once")
  else if analysis.deterministicFixable = true ∧ policy.deterministicFirst = true then
    (.deterministicFix,analysis.signature.category.value ++ " is mechanically fixable")
  else if policy.rollbackAfterRepeats ≤ occurrences then (.rollback,"recurring regression — rolling back")
  else (.llmRepair,"needs reasoning-based repair")

/-- What follows a decision: a rollback, if a function for it is configured, or an escalation. -/
def carryOut (configured : Bool) (report : FailureReport) (decision : RepairDecision) (priorAttempts : Nat)
    (s : HealingState) : HealingState :=
  match decision.action with
  | .rollback =>
    let s := if configured then { s with rollbacks := s.rollbacks ++ [(report.taskId,report.rollbackRef)] } else s
    { s with events := s.events ++ [.rolledBack report.taskId report.rollbackRef decision.reason] }
  | .escalate => { s with events := s.events ++ [.repairEscalated report.taskId decision.reason priorAttempts] }
  | _ => s

def handleFailure (table : WordTable) (policy : RepairPolicy) (configured : Bool) (report : FailureReport)
    (s : HealingState) : HealingState × RepairDecision :=
  let analysis := analyze table report.output
  let key := analysis.signature.key
  let seen := s.memory.record analysis.signature
  let priorAttempts := s.history.attempts key
  let decided := decideRepair policy analysis priorAttempts seen.2
  let history := s.history.record key decided.1
  let attempt := history.attempts key
  let decision : RepairDecision := ⟨decided.1,analysis.signature.category,key,attempt,decided.2⟩
  let s := { s with
    memory := seen.1
    history := history
    events := s.events ++
      [.failureAnalyzed report.taskId analysis.signature.category.value key analysis.deterministicFixable seen.2,
        .repairDecisionMade report.taskId decided.1.value attempt decided.2] }
  (carryOut configured report decision priorAttempts s,decision)

/-! ### Runs -/

/-- A runtime during a run, with the failures handled so far and their decisions. -/
structure HealingRun where
  runtime : HealingState := {}
  handled : List (FailureReport × RepairDecision) := []

/-- Empty memory and history. -/
def newRuntime : HealingRun := {}

def step (table : WordTable) (policy : RepairPolicy) (configured : Bool) (s : HealingRun) (report : FailureReport) :
    HealingRun :=
  let done := handleFailure table policy configured report s.runtime
  { runtime := done.1, handled := s.handled ++ [(report,done.2)] }

/-- The key under which a failure is counted. -/
def keyOf (table : WordTable) (report : FailureReport) : String := (analyze table report.output).signature.key

/-- The decision that a failure gets in a state of the runtime. -/
def decisionFor (table : WordTable) (policy : RepairPolicy) (report : FailureReport) (s : HealingState) :
    RepairAction × String :=
  decideRepair policy (analyze table report.output) (s.history.attempts (keyOf table report))
    (s.memory.counts (keyOf table report) + 1)

/-- Five ways to decide, each with the guards that lead to it. -/
theorem decide_cases (policy : RepairPolicy) (analysis : FailureAnalysis) (priorAttempts occurrences : Nat) :
    let action := (decideRepair policy analysis priorAttempts occurrences).1
    (policy.maxRepairAttempts ≤ priorAttempts ∧ action = .escalate) ∨
    ((priorAttempts : Int) < policy.maxRepairAttempts ∧
      ((action = .retry ∧ analysis.signature.category = .timeout ∧ priorAttempts = 0) ∨
        (action = .deterministicFix ∧ analysis.deterministicFixable = true ∧ policy.deterministicFirst = true) ∨
        ((analysis.deterministicFixable = false ∨ policy.deterministicFirst = false) ∧
          ((action = .rollback ∧ policy.rollbackAfterRepeats ≤ occurrences) ∨
            (action = .llmRepair ∧ (occurrences : Int) < policy.rollbackAfterRepeats))))) := by
  intro action
  by_cases exhausted : policy.maxRepairAttempts ≤ priorAttempts
  · exact .inl ⟨exhausted,by simp only [action,decideRepair,if_pos exhausted]⟩
  · right
    refine ⟨Int.not_le.mp exhausted,?_⟩
    by_cases transient : analysis.signature.category = .timeout ∧ priorAttempts = 0
    · exact .inl ⟨by simp only [action,decideRepair,if_neg exhausted,if_pos transient],transient⟩
    · right
      by_cases mechanical : analysis.deterministicFixable = true ∧ policy.deterministicFirst = true
      · exact .inl ⟨by simp only [action,decideRepair,if_neg exhausted,if_neg transient,if_pos mechanical],mechanical⟩
      · right
        constructor
        · rw [not_and_or,Bool.not_eq_true,Bool.not_eq_true] at mechanical
          exact mechanical
        · by_cases recurring : policy.rollbackAfterRepeats ≤ occurrences
          · exact .inl ⟨by
              simp only [action,decideRepair,if_neg exhausted,if_neg transient,if_neg mechanical,if_pos recurring],recurring⟩
          · exact .inr ⟨by
              simp only [action,decideRepair,if_neg exhausted,if_neg transient,if_neg mechanical,if_neg recurring],
              Int.not_le.mp recurring⟩

@[simp] theorem carryOut_memory (configured : Bool) (report : FailureReport) (decision : RepairDecision)
    (priorAttempts : Nat) (s : HealingState) : (carryOut configured report decision priorAttempts s).memory = s.memory := by
  unfold carryOut
  split <;> (try split_ifs) <;> rfl

@[simp] theorem carryOut_history (configured : Bool) (report : FailureReport) (decision : RepairDecision)
    (priorAttempts : Nat) (s : HealingState) : (carryOut configured report decision priorAttempts s).history = s.history := by
  unfold carryOut
  split <;> (try split_ifs) <;> rfl

/-- The rollback function is called for a rollback only. -/
theorem carryOut_rollbacks (configured : Bool) (report : FailureReport) (decision : RepairDecision)
    (priorAttempts : Nat) (s : HealingState) :
    (carryOut configured report decision priorAttempts s).rollbacks =
      s.rollbacks ++ if configured = true ∧ decision.action = .rollback then [(report.taskId,report.rollbackRef)] else [] := by
  unfold carryOut
  cases configured <;> cases decision.action <;> simp

/-- The decision that a run gives to its next failure. -/
def nextDecision (table : WordTable) (policy : RepairPolicy) (s : HealingRun) (report : FailureReport) : RepairDecision :=
  let decided := decisionFor table policy report s.runtime
  let prior := s.runtime.history.attempts (keyOf table report)
  { action := decided.1
    category := (analyze table report.output).signature.category
    signatureKey := keyOf table report
    attempt := if decided.1.isRepair then prior + 1 else prior
    reason := decided.2 }

/-- The decision for a failure, from the counters of its key. -/
theorem nextDecision_cases (table : WordTable) (policy : RepairPolicy) (s : HealingRun) (report : FailureReport) :
    let action := (nextDecision table policy s report).action
    let attempts := s.runtime.history.attempts (keyOf table report)
    let occurrences := s.runtime.memory.counts (keyOf table report) + 1
    (policy.maxRepairAttempts ≤ attempts ∧ action = .escalate) ∨
    ((attempts : Int) < policy.maxRepairAttempts ∧
      ((action = .retry ∧ (analyze table report.output).signature.category = .timeout ∧ attempts = 0) ∨
        (action = .deterministicFix ∧ (analyze table report.output).deterministicFixable = true ∧
          policy.deterministicFirst = true) ∨
        (((analyze table report.output).deterministicFixable = false ∨ policy.deterministicFirst = false) ∧
          ((action = .rollback ∧ policy.rollbackAfterRepeats ≤ (occurrences : Nat)) ∨
            (action = .llmRepair ∧ ((occurrences : Nat) : Int) < policy.rollbackAfterRepeats))))) :=
  decide_cases policy (analyze table report.output) (s.runtime.history.attempts (keyOf table report))
    (s.runtime.memory.counts (keyOf table report) + 1)

theorem step_handled (table : WordTable) (policy : RepairPolicy) (configured : Bool) (s : HealingRun)
    (report : FailureReport) :
    (step table policy configured s report).handled = s.handled ++ [(report,nextDecision table policy s report)] := by
  have attempt : (s.runtime.history.record (keyOf table report)
      (decisionFor table policy report s.runtime).1).attempts (keyOf table report) =
      (nextDecision table policy s report).attempt := by
    simp only [RepairHistory.record,nextDecision]
    split_ifs <;> simp
  have handled : (step table policy configured s report).handled = s.handled ++ [(report,
      { nextDecision table policy s report with
        attempt := (s.runtime.history.record (keyOf table report)
          (decisionFor table policy report s.runtime).1).attempts (keyOf table report) })] := rfl
  rw [handled,attempt]

theorem step_counts (table : WordTable) (policy : RepairPolicy) (configured : Bool) (s : HealingRun)
    (report : FailureReport) (key : String) :
    (step table policy configured s report).runtime.memory.counts key =
      s.runtime.memory.counts key + if keyOf table report = key then 1 else 0 := by
  have memory : (step table policy configured s report).runtime.memory =
      (s.runtime.memory.record (analyze table report.output).signature).1 :=
    carryOut_memory configured report _ _ _
  rw [memory]
  by_cases same : keyOf table report = key
  · subst same
    simp [FailureMemory.record,keyOf]
  · have other : key ≠ (analyze table report.output).signature.key := fun equal => same equal.symm
    simp [FailureMemory.record,same,other]

theorem step_attempts (table : WordTable) (policy : RepairPolicy) (configured : Bool) (s : HealingRun)
    (report : FailureReport) (key : String) :
    (step table policy configured s report).runtime.history.attempts key =
      s.runtime.history.attempts key +
        if keyOf table report = key ∧ (nextDecision table policy s report).action.isRepair = true then 1 else 0 := by
  have history : (step table policy configured s report).runtime.history =
      s.runtime.history.record (keyOf table report) (nextDecision table policy s report).action :=
    carryOut_history configured report _ _ _
  rw [history]
  cases repair : (nextDecision table policy s report).action.isRepair with
  | false => simp [RepairHistory.record,repair]
  | true =>
    by_cases same : keyOf table report = key
    · subst same
      simp [RepairHistory.record,repair]
    · have other : key ≠ keyOf table report := fun equal => same equal.symm
      simp [RepairHistory.record,repair,same,other]

theorem step_log (table : WordTable) (policy : RepairPolicy) (configured : Bool) (s : HealingRun)
    (report : FailureReport) :
    (step table policy configured s report).runtime.history.log =
      s.runtime.history.log ++ [(keyOf table report,(nextDecision table policy s report).action.value)] := by
  have history : (step table policy configured s report).runtime.history =
      s.runtime.history.record (keyOf table report) (nextDecision table policy s report).action :=
    carryOut_history configured report _ _ _
  rw [history]
  rfl

theorem step_rollbacks (table : WordTable) (policy : RepairPolicy) (configured : Bool) (s : HealingRun)
    (report : FailureReport) :
    (step table policy configured s report).runtime.rollbacks =
      s.runtime.rollbacks ++ if configured = true ∧ (nextDecision table policy s report).action = .rollback then
        [(report.taskId,report.rollbackRef)] else [] :=
  carryOut_rollbacks configured report _ _ _

/-! ### Counting decisions -/

/-- The repairs among the decisions for a key. -/
def repairs (key : String) (handled : List (FailureReport × RepairDecision)) : Nat :=
  handled.countP (fun item => item.2.signatureKey = key && item.2.action.isRepair)

/-- The decisions for a key that are anything but an escalation. -/
def nonEscalations (key : String) (handled : List (FailureReport × RepairDecision)) : Nat :=
  handled.countP (fun item => item.2.signatureKey = key && item.2.action != .escalate)

/-- One decision more, counted by a test of its action. -/
theorem counted_concat (test : RepairAction → Bool) (key : String) (handled : List (FailureReport × RepairDecision))
    (item : FailureReport × RepairDecision) :
    (handled ++ [item]).countP (fun item => item.2.signatureKey = key && test item.2.action) =
      handled.countP (fun item => item.2.signatureKey = key && test item.2.action) +
        if item.2.signatureKey = key ∧ test item.2.action = true then 1 else 0 := by
  rw [List.countP_append,List.countP_singleton]
  simp only [Bool.and_eq_true,decide_eq_true_iff]

theorem repairs_concat (key : String) (handled : List (FailureReport × RepairDecision))
    (item : FailureReport × RepairDecision) :
    repairs key (handled ++ [item]) =
      repairs key handled + if item.2.signatureKey = key ∧ item.2.action.isRepair = true then 1 else 0 :=
  counted_concat RepairAction.isRepair key handled item

theorem nonEscalations_concat (key : String) (handled : List (FailureReport × RepairDecision))
    (item : FailureReport × RepairDecision) :
    nonEscalations key (handled ++ [item]) =
      nonEscalations key handled + if item.2.signatureKey = key ∧ item.2.action ≠ .escalate then 1 else 0 := by
  have counted := counted_concat (fun action => action != .escalate) key handled item
  simp only [bne_iff_ne] at counted
  exact counted

/-- The attempts of a key are the repairs decided for it. -/
def Tallied (s : HealingRun) : Prop := ∀ key, s.runtime.history.attempts key = repairs key s.handled

theorem step_tallied (table : WordTable) (policy : RepairPolicy) (configured : Bool) {s : HealingRun}
    (tallied : Tallied s) (report : FailureReport) : Tallied (step table policy configured s report) := by
  intro key
  rw [step_attempts,step_handled,repairs_concat,tallied key]
  rfl

end Hookclose.SelfHealing
