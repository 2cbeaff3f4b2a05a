import Hookclose.SelfHealing

/-!
When healing is bounded. A rollback uses up no repair attempt, so a failure that
recurs is rolled back without end once it has recurred often enough and attempts
are left. It never comes to that exactly when the attempts run out first.
-/
namespace Hookclose.RepairBounds
open Hookclose.FailureAnalyzer Hookclose.SelfHealing Hookclose.Runs

/-- A step adds one to what its own key was answered with, unless it escalates. -/
theorem step_nonEscalations (table : WordTable) (policy : RepairPolicy) (configured : Bool) (s : HealingRun)
    (report : FailureReport) (key : String) :
    nonEscalations key (step table policy configured s report).handled = nonEscalations key s.handled +
      if keyOf table report = key ∧ (nextDecision table policy s report).action ≠ .escalate then 1 else 0 := by
  rw [step_handled]
  exact nonEscalations_concat key s.handled (report,nextDecision table policy s report)

/-! ### Attempts that run out first -/

/-- The counters of a key while attempts run out before recurrences do: they agree
    until the attempts are used up, and only repairs have been decided. -/
structure Paced (policy : RepairPolicy) (s : HealingRun) (key : String) : Prop where
  decided : nonEscalations key s.handled = s.runtime.history.attempts key
  agree : s.runtime.memory.counts key = s.runtime.history.attempts key ∨
    policy.maxRepairAttempts ≤ s.runtime.history.attempts key
  within : (s.runtime.history.attempts key : Int) ≤ policy.maxRepairAttempts

theorem step_paced {policy : RepairPolicy} (room : policy.maxRepairAttempts < policy.rollbackAfterRepeats)
    (table : WordTable) (configured : Bool) {s : HealingRun} {key : String} (paced : Paced policy s key)
    (report : FailureReport) : Paced policy (step table policy configured s report) key := by
  by_cases same : keyOf table report = key
  · subst same
    have decided := nextDecision_cases table policy s report
    have handled := step_nonEscalations table policy configured s report (keyOf table report)
    have attempts := step_attempts table policy configured s report (keyOf table report)
    have counts := step_counts table policy configured s report (keyOf table report)
    rw [if_pos rfl] at counts
    have before := paced.decided
    rcases decided with ⟨used,escalated⟩ | ⟨left,repaired⟩
    · have idle : ¬ (keyOf table report = keyOf table report ∧
          (nextDecision table policy s report).action.isRepair = true) := by
        rw [escalated]
        rintro ⟨_,repair⟩
        cases repair
      have silent : ¬ (keyOf table report = keyOf table report ∧
          (nextDecision table policy s report).action ≠ .escalate) := fun both => both.2 escalated
      rw [if_neg idle] at attempts
      rw [if_neg silent] at handled
      exact ⟨by omega,.inr (by omega),by have := paced.within; omega⟩
    · have agree : s.runtime.memory.counts (keyOf table report) =
          s.runtime.history.attempts (keyOf table report) := by
        rcases paced.agree with agree | used
        · exact agree
        · omega
      have repair : (nextDecision table policy s report).action.isRepair = true := by
        rcases repaired with ⟨retry,_⟩ | ⟨fix,_⟩ | ⟨_,⟨_,recurring⟩ | ⟨llm,_⟩⟩
        · rw [retry]; rfl
        · rw [fix]; rfl
        · omega
        · rw [llm]; rfl
      have active : keyOf table report = keyOf table report ∧ (nextDecision table policy s report).action ≠ .escalate := by
        refine ⟨rfl,?_⟩
        intro escalated
        rw [escalated] at repair
        cases repair
      rw [if_pos ⟨rfl,repair⟩] at attempts
      rw [if_pos active] at handled
      exact ⟨by omega,.inl (by omega),by omega⟩
  · have attempts := step_attempts table policy configured s report key
    have counts := step_counts table policy configured s report key
    have handled := step_nonEscalations table policy configured s report key
    rw [if_neg (fun both => same both.1)] at attempts
    rw [if_neg same] at counts
    rw [if_neg (fun both => same both.1)] at handled
    refine ⟨?_,?_,?_⟩
    · rw [handled,attempts]
      exact paced.decided
    · rw [counts,attempts]
      exact paced.agree
    · rw [attempts]
      exact paced.within

/-- Where the attempts run out first, a key gets no more than the attempts. -/
theorem nonEscalations_bounded (policy : RepairPolicy) (nonneg : 0 ≤ policy.maxRepairAttempts)
    (room : policy.maxRepairAttempts < policy.rollbackAfterRepeats) (table : WordTable) (configured : Bool)
    (reports : List FailureReport) (key : String) :
    nonEscalations key (run (step table policy configured) newRuntime reports).handled ≤ policy.maxRepairAttempts.toNat := by
  have fresh : Paced policy newRuntime key := ⟨rfl,.inl rfl,nonneg⟩
  have always := always_of_step (fun s => Paced policy s key)
    (fun s report paced => step_paced room table configured paced report) fresh reports
  have last := always.last
  rw [last.decided]
  have within := last.within
  omega

/-! ### Recurrences that come first -/

/-- A failure that is neither transient nor mechanically fixable. -/
def Stubborn (table : WordTable) (report : FailureReport) : Prop :=
  (analyze table report.output).signature.category ≠ .timeout ∧ (analyze table report.output).deterministicFixable = false

/-- The counters once such a failure has recurred `n` times: all its decisions were
    repairs, then rollbacks. -/
structure Recurred (table : WordTable) (policy : RepairPolicy) (report : FailureReport) (n : Nat) (s : HealingRun) :
    Prop where
  counts : s.runtime.memory.counts (keyOf table report) = n
  attempts : (s.runtime.history.attempts (keyOf table report) : Int) = min (n : Int) (policy.rollbackAfterRepeats - 1)
  decided : nonEscalations (keyOf table report) s.handled = n

theorem step_recurred {table : WordTable} {policy : RepairPolicy} {report : FailureReport}
    (stubborn : Stubborn table report) (first : policy.rollbackAfterRepeats ≤ policy.maxRepairAttempts)
    (configured : Bool) {n : Nat} {s : HealingRun} (recurred : Recurred table policy report n s) :
    Recurred table policy report (n + 1) (step table policy configured s report) := by
  have decided := nextDecision_cases table policy s report
  have handled := step_nonEscalations table policy configured s report (keyOf table report)
  have attempts := step_attempts table policy configured s report (keyOf table report)
  have counts := step_counts table policy configured s report (keyOf table report)
  rw [if_pos rfl] at counts
  have countsBefore := recurred.counts
  have attemptsBefore := recurred.attempts
  have decidedBefore := recurred.decided
  have active : (nextDecision table policy s report).action ≠ .escalate → keyOf table report = keyOf table report ∧
      (nextDecision table policy s report).action ≠ .escalate := fun other => ⟨rfl,other⟩
  rcases decided with ⟨used,_⟩ | ⟨_,⟨_,timeout,_⟩ | ⟨_,fixable,_⟩ | ⟨_,⟨rolled,recurring⟩ | ⟨llm,early⟩⟩⟩
  · omega
  · exact absurd timeout stubborn.1
  · rw [stubborn.2] at fixable
    cases fixable
  · have idle : ¬ (keyOf table report = keyOf table report ∧
        (nextDecision table policy s report).action.isRepair = true) := by
      rw [rolled]
      rintro ⟨_,repair⟩
      cases repair
    rw [if_neg idle] at attempts
    rw [if_pos (active (by rw [rolled]; decide))] at handled
    refine ⟨by omega,?_,by omega⟩
    rw [attempts]
    omega
  · have repair : (nextDecision table policy s report).action.isRepair = true := by
      rw [llm]
      rfl
    rw [if_pos ⟨rfl,repair⟩] at attempts
    rw [if_pos (active (by rw [llm]; decide))] at handled
    refine ⟨by omega,?_,by omega⟩
    rw [attempts]
    omega

/-- Every recurrence is answered by something other than an escalation. -/
theorem run_recurred {table : WordTable} {policy : RepairPolicy} {report : FailureReport}
    (stubborn : Stubborn table report) (positive : 1 ≤ policy.rollbackAfterRepeats)
    (first : policy.rollbackAfterRepeats ≤ policy.maxRepairAttempts) (configured : Bool) (n : Nat) :
    Recurred table policy report n (run (step table policy configured) newRuntime (List.replicate n report)) := by
  induction n with
  | zero =>
    refine ⟨rfl,?_,rfl⟩
    simp only [List.replicate_zero,run_nil,newRuntime]
    omega
  | succ n ih =>
    rw [List.replicate_succ',run_concat]
    exact step_recurred stubborn first configured ih

/-- Output that says nothing is of no known category. -/
theorem silent_stubborn (table : WordTable) : Stubborn table { taskId := "t", output := "" } := by
  have category : (analyze table "").signature.category = .unknown := by
    simp only [analyze]
    rfl
  constructor
  · rw [category]
    decide
  · have fixable := analyze_fixable table ""
    rw [category] at fixable
    simpa using fixable

theorem unbounded_of_recurring (policy : RepairPolicy) (positive : 1 ≤ policy.rollbackAfterRepeats)
    (first : policy.rollbackAfterRepeats ≤ policy.maxRepairAttempts) (bound : Nat) :
    ∃ reports key, bound < nonEscalations key (run (step asciiWords policy false) newRuntime reports).handled := by
  refine ⟨List.replicate (bound + 1) { taskId := "t", output := "" },keyOf asciiWords { taskId := "t", output := "" },?_⟩
  have recurred := run_recurred (silent_stubborn asciiWords) positive first false (bound + 1)
  rw [recurred.decided]
  exact Nat.lt_succ_self bound

/-! ### The exact condition -/

/-- A bound on the decisions other than escalations, for all keys and all runs. -/
def Bounded (maxRepairAttempts rollbackAfterRepeats : Int) : Prop :=
  ∃ bound : Nat, ∀ table deterministicFirst configured reports key,
    nonEscalations key (run (step table ⟨maxRepairAttempts,deterministicFirst,rollbackAfterRepeats⟩ configured)
      newRuntime reports).handled ≤ bound

/-- Healing is bounded exactly when the attempts run out before a rollback is due. -/
theorem healing_bounded_iff (maxRepairAttempts rollbackAfterRepeats : Int) (nonneg : 0 ≤ maxRepairAttempts)
    (positive : 1 ≤ rollbackAfterRepeats) :
    Bounded maxRepairAttempts rollbackAfterRepeats ↔ maxRepairAttempts < rollbackAfterRepeats := by
  constructor
  · rintro ⟨bound,bounded⟩
    by_contra late
    obtain ⟨reports,key,more⟩ := unbounded_of_recurring ⟨maxRepairAttempts,true,rollbackAfterRepeats⟩ positive
      (Int.not_lt.mp late) bound
    exact absurd (bounded asciiWords true false reports key) (Nat.not_le.mpr more)
  · intro room
    refine ⟨maxRepairAttempts.toNat,?_⟩
    intro table deterministicFirst configured reports key
    exact nonEscalations_bounded ⟨maxRepairAttempts,deterministicFirst,rollbackAfterRepeats⟩ nonneg room table configured
      reports key

/-- The default policy lets a failure without output be rolled back for ever. -/
theorem default_unbounded : ¬ Bounded 3 3 := by
  rintro ⟨bound,bounded⟩
  obtain ⟨reports,key,more⟩ := unbounded_of_recurring ⟨3,true,3⟩ (by decide) (by decide) bound
  exact absurd (bounded asciiWords true false reports key) (Nat.not_le.mpr more)

theorem two_three_bounded : Bounded 2 3 :=
  (healing_bounded_iff 2 3 (by decide) (by decide)).mpr (by decide)

end Hookclose.RepairBounds
