import Hookclose.SelfHealing
import Mathlib.Data.List.Induction

/-!
Repair safety per signature. Whatever fails and in whatever order, each decision is
in order with the decisions made before it for its key; so a key gets a bounded
number of repairs, a retry at most once, and rollbacks only where they were decided.
-/
namespace Hookclose.RepairSafety
open Hookclose.FailureAnalyzer Hookclose.SelfHealing Hookclose.Runs

/-- A decision in order with those before it. -/
structure InOrder (table : WordTable) (policy : RepairPolicy) (before : List (FailureReport × RepairDecision))
    (item : FailureReport × RepairDecision) : Prop where
  key : item.2.signatureKey = keyOf table item.1
  category : item.2.category = (analyze table item.1.output).signature.category
  exhausted : (max 0 policy.maxRepairAttempts).toNat ≤ repairs item.2.signatureKey before → item.2.action = .escalate
  retry : item.2.action = .retry → item.2.category = .timeout ∧ repairs item.2.signatureKey before = 0
  deterministic : policy.deterministicFirst = true → item.2.category = .lint ∨ item.2.category = .dependency →
    item.2.action ≠ .llmRepair ∧ item.2.action ≠ .rollback
  attempt : item.2.attempt = repairs item.2.signatureKey (before ++ [item])

/-- What has been decided by the end of a run over `reports`. -/
structure Safe (table : WordTable) (policy : RepairPolicy) (configured : Bool) (reports : List FailureReport)
    (s : HealingRun) : Prop where
  answered : s.handled.map Prod.fst = reports
  inOrder : Throughout (InOrder table policy) s.handled
  bounded : ∀ key, repairs key s.handled ≤ (max 0 policy.maxRepairAttempts).toNat
  retriedOnce : ∀ key, s.handled.countP (fun item => item.2.signatureKey = key && item.2.action == .retry) ≤ 1
  rollbacks : s.runtime.rollbacks = if configured = true then
    (s.handled.filter (fun item => item.2.action == .rollback)).map (fun item => (item.1.taskId,item.1.rollbackRef)) else []
  log : s.runtime.history.log = s.handled.map (fun item => (item.2.signatureKey,item.2.action.value))

/-- The next decision is in order with those that the tallies count. -/
theorem nextDecision_inOrder (table : WordTable) (policy : RepairPolicy) {s : HealingRun} (tallied : Tallied s)
    (report : FailureReport) : InOrder table policy s.handled (report,nextDecision table policy s report) := by
  have prior : s.runtime.history.attempts (keyOf table report) = repairs (keyOf table report) s.handled :=
    tallied (keyOf table report)
  have decided := nextDecision_cases table policy s report
  simp only [prior] at decided
  refine ⟨rfl,rfl,?_,?_,?_,?_⟩
  · intro used
    have used : (max 0 policy.maxRepairAttempts).toNat ≤ repairs (keyOf table report) s.handled := used
    rcases decided with ⟨_,escalated⟩ | ⟨room,_⟩
    · exact escalated
    · omega
  · intro retried
    have retried : (nextDecision table policy s report).action = .retry := retried
    rw [retried] at decided
    rcases decided with ⟨_,other⟩ | ⟨_,⟨_,timeout,first⟩ | ⟨other,_⟩ | ⟨_,⟨other,_⟩ | ⟨other,_⟩⟩⟩
    · cases other
    · exact ⟨timeout,first⟩
    · cases other
    · cases other
    · cases other
  · intro first kind
    have fixable := (analyze_fixable table report.output).mpr kind
    have llm : (nextDecision table policy s report).action = .llmRepair ∨
        (nextDecision table policy s report).action = .rollback → False := by
      intro chosen
      rcases decided with ⟨_,other⟩ | ⟨_,⟨other,_⟩ | ⟨other,_⟩ | ⟨unfit,_⟩⟩
      · rw [other] at chosen
        simp at chosen
      · rw [other] at chosen
        simp at chosen
      · rw [other] at chosen
        simp at chosen
      · rw [fixable,first] at unfit
        simp at unfit
    exact ⟨fun same => llm (.inl same),fun same => llm (.inr same)⟩
  · rw [repairs_concat]
    have attempt : (nextDecision table policy s report).attempt =
        if (nextDecision table policy s report).action.isRepair then
          s.runtime.history.attempts (keyOf table report) + 1
        else s.runtime.history.attempts (keyOf table report) := rfl
    rw [attempt,prior]
    cases (nextDecision table policy s report).action.isRepair <;> simp [nextDecision]

/-- A decision in order leaves a key within its bound. -/
theorem bounded_concat {table : WordTable} {policy : RepairPolicy} {handled : List (FailureReport × RepairDecision)}
    {item : FailureReport × RepairDecision} (inOrder : InOrder table policy handled item) {key : String}
    (bounded : repairs key handled ≤ (max 0 policy.maxRepairAttempts).toNat) :
    repairs key (handled ++ [item]) ≤ (max 0 policy.maxRepairAttempts).toNat := by
  rw [repairs_concat]
  split_ifs with counted
  · obtain ⟨rfl,repair⟩ := counted
    by_cases used : (max 0 policy.maxRepairAttempts).toNat ≤ repairs item.2.signatureKey handled
    · rw [inOrder.exhausted used] at repair
      cases repair
    · omega
  · exact bounded

/-- The retries of a key are among its repairs. -/
theorem retries_le_repairs (key : String) (handled : List (FailureReport × RepairDecision)) :
    handled.countP (fun item => item.2.signatureKey = key && item.2.action == .retry) ≤ repairs key handled := by
  apply List.countP_mono_left
  intro item _ retried
  rw [Bool.and_eq_true,beq_iff_eq] at retried
  rw [Bool.and_eq_true,retried.2]
  exact ⟨retried.1,rfl⟩

theorem retriedOnce_concat {table : WordTable} {policy : RepairPolicy} {handled : List (FailureReport × RepairDecision)}
    {item : FailureReport × RepairDecision} (inOrder : InOrder table policy handled item) {key : String}
    (once : handled.countP (fun item => item.2.signatureKey = key && item.2.action == .retry) ≤ 1) :
    (handled ++ [item]).countP (fun item => item.2.signatureKey = key && item.2.action == .retry) ≤ 1 := by
  rw [counted_concat (fun action => action == .retry)]
  split_ifs with counted
  · obtain ⟨rfl,retried⟩ := counted
    have first := (inOrder.retry (beq_iff_eq.mp retried)).2
    have none := retries_le_repairs item.2.signatureKey handled
    omega
  · exact once

structure Inductive (table : WordTable) (policy : RepairPolicy) (configured : Bool) (reports : List FailureReport)
    (s : HealingRun) : Prop where
  safe : Safe table policy configured reports s
  tallied : Tallied s

theorem step_inductive {table : WordTable} {policy : RepairPolicy} {configured : Bool} {reports : List FailureReport}
    {s : HealingRun} (inv : Inductive table policy configured reports s) (report : FailureReport) :
    Inductive table policy configured (reports ++ [report]) (step table policy configured s report) := by
  have inOrder := nextDecision_inOrder table policy inv.tallied report
  refine ⟨⟨?_,?_,?_,?_,?_,?_⟩,step_tallied table policy configured inv.tallied report⟩
  · rw [step_handled,List.map_append,inv.safe.answered]
    rfl
  · rw [step_handled]
    exact throughout_concat.mpr ⟨inv.safe.inOrder,inOrder⟩
  · intro key
    rw [step_handled]
    exact bounded_concat inOrder (inv.safe.bounded key)
  · intro key
    rw [step_handled]
    exact retriedOnce_concat inOrder (inv.safe.retriedOnce key)
  · rw [step_rollbacks,step_handled,inv.safe.rollbacks]
    cases configured with
    | false => simp
    | true =>
      by_cases rolled : (nextDecision table policy s report).action = .rollback
      · simp [rolled]
      · simp [rolled]
  · rw [step_log,step_handled,inv.safe.log,List.map_append]
    rfl

/-- Every run from empty memory and history is safe, whatever fails in it. -/
theorem repairs_safe (table : WordTable) (policy : RepairPolicy) (configured : Bool) (reports : List FailureReport) :
    Safe table policy configured reports (run (step table policy configured) newRuntime reports) := by
  have inv : Inductive table policy configured reports (run (step table policy configured) newRuntime reports) := by
    induction reports using List.reverseRecOn with
    | nil =>
      refine ⟨⟨rfl,throughout_nil,?_,?_,?_,rfl⟩,fun key => rfl⟩
      · intro key
        exact Nat.zero_le _
      · intro key
        exact Nat.zero_le _
      · cases configured <;> rfl
    | append_singleton reports report ih =>
      rw [run_concat]
      exact step_inductive ih report
  exact inv.safe

end Hookclose.RepairSafety
