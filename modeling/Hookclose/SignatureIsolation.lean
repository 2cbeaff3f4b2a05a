import Hookclose.SelfHealing

/-!
Failures with different signatures do not interfere. The decision for a failure
depends on two counters of its own key, which no failure with another key touches; so
the decisions for a key are those of a runtime that sees only its failures, whatever
the tasks are called and wherever they would be rolled back to.
-/
namespace Hookclose.SignatureIsolation
open Hookclose.FailureAnalyzer Hookclose.SelfHealing Hookclose.Runs

/-- What a failure is told: the action, the number of the attempt and the reason. -/
def verdict (decision : RepairDecision) : RepairAction × Nat × String := (decision.action,decision.attempt,decision.reason)

/-- A failure has the key. -/
def hasKey (table : WordTable) (key : String) (report : FailureReport) : Bool := decide (keyOf table report = key)

/-- The verdicts on the failures with a key, in order. -/
def verdictsOn (table : WordTable) (key : String) (s : HealingRun) : List (RepairAction × Nat × String) :=
  (s.handled.filter (fun item => hasKey table key item.1)).map (fun item => verdict item.2)

/-- A run that sees all failures, and one that sees those with the key only. -/
structure Agree (table : WordTable) (key : String) (s t : HealingRun) : Prop where
  counts : s.runtime.memory.counts key = t.runtime.memory.counts key
  attempts : s.runtime.history.attempts key = t.runtime.history.attempts key
  verdicts : verdictsOn table key s = t.handled.map (fun item => verdict item.2)

theorem agree_new (table : WordTable) (key : String) : Agree table key newRuntime newRuntime := ⟨rfl,rfl,rfl⟩

section
variable {table : WordTable} {policy : RepairPolicy} {configured : Bool} {key : String} {s t : HealingRun}
  {report other : FailureReport}

/-- The next decision for the output of a failure is a matter of the counters of its key. -/
theorem nextDecision_agree (agree : Agree table (keyOf table report) s t) (same : other.output = report.output) :
    nextDecision table policy s report = nextDecision table policy t other := by
  have analysis : analyze table other.output = analyze table report.output := by rw [same]
  have key : keyOf table other = keyOf table report := by rw [keyOf,keyOf,same]
  have decided : decisionFor table policy report s.runtime = decisionFor table policy other t.runtime := by
    rw [decisionFor,decisionFor,analysis,key,agree.counts,agree.attempts]
  simp only [nextDecision,decided,analysis,key,agree.attempts]

theorem verdictsOn_step (taken : Bool) (selected : hasKey table key report = taken) :
    verdictsOn table key (step table policy configured s report) =
      verdictsOn table key s ++ if taken then [verdict (nextDecision table policy s report)] else [] := by
  subst selected
  rw [verdictsOn,step_handled,List.filter_append,List.map_append,verdictsOn]
  cases matched : hasKey table key report <;> simp [matched]

/-- A failure with the key keeps the two runs in agreement. -/
theorem step_taken {another : Bool} (agree : Agree table key s t) (same : other.output = report.output)
    (selected : hasKey table key report = true) :
    Agree table key (step table policy configured s report) (step table policy another t other) := by
  have own : keyOf table report = key := of_decide_eq_true selected
  have theirs : keyOf table other = key := by rw [← own,keyOf,keyOf,same]
  subst own
  have decisions : nextDecision table policy s report = nextDecision table policy t other := nextDecision_agree agree same
  constructor
  · rw [step_counts,step_counts,agree.counts,theirs]
  · rw [step_attempts,step_attempts,agree.attempts,theirs,decisions]
  · rw [verdictsOn_step true selected,step_handled,List.map_append,agree.verdicts,decisions]
    rfl

/-- A failure with another key leaves them in agreement. -/
theorem step_skipped (agree : Agree table key s t) (selected : hasKey table key report = false) :
    Agree table key (step table policy configured s report) t := by
  have apart : keyOf table report ≠ key := of_decide_eq_false selected
  constructor
  · rw [step_counts,if_neg apart]
    exact agree.counts
  · rw [step_attempts,if_neg (fun both => apart both.1)]
    exact agree.attempts
  · rw [verdictsOn_step false selected]
    simpa using agree.verdicts

end

/-- The failures with the key, without their tasks and rollback targets. -/
def anonymous (report : FailureReport) : FailureReport := ⟨"",report.output,""⟩

/-- The verdicts on the failures with a key are those that a fresh runtime gives when it
    sees only these failures, and also when it is not told their tasks and rollback
    targets, and whether or not it can roll back. -/
theorem signatures_isolated (table : WordTable) (policy : RepairPolicy) (configured another : Bool)
    (reports : List FailureReport) (key : String) :
    let alone := reports.filter (hasKey table key)
    let verdicts := verdictsOn table key (run (step table policy configured) newRuntime reports)
    verdicts = (run (step table policy configured) newRuntime alone).handled.map (fun item => verdict item.2) ∧
      verdicts = (run (step table policy another) newRuntime (alone.map anonymous)).handled.map
        (fun item => verdict item.2) := by
  have follows : ∀ (other : Bool) (translate : FailureReport → FailureReport),
      (∀ report, (translate report).output = report.output) →
      Agree table key (run (step table policy configured) newRuntime reports)
        (run (step table policy other) newRuntime ((reports.filter (hasKey table key)).map translate)) :=
    fun other translate same => run_selected (Agree table key) (hasKey table key) translate
      (fun _ _ report agree selected => step_taken agree (same report) selected)
      (fun _ _ _ agree selected => step_skipped agree selected) reports (agree_new table key)
  have alone := (follows configured id (fun _ => rfl)).verdicts
  rw [List.map_id] at alone
  exact ⟨alone,(follows another anonymous (fun _ => rfl)).verdicts⟩

end Hookclose.SignatureIsolation
