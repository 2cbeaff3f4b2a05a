import Hookclose.BaseProvider

/-!
Whether a provider always comes back once its cooldown is over. `refresh` expires
the cooldowns of three statuses, and `recordFailure` sets a fourth one together
with a cooldown when the failure threshold is reached. A run of calls keeps every
provider recoverable exactly when no call trips that threshold.
-/
namespace Hookclose.ProviderRecovery
open Hookclose.ProviderState Hookclose.BaseProvider Hookclose.Runs

/-- Unless it is available, the provider has a deadline, and from that deadline on
    `is_available` brings it back with a clean record. -/
def Recovers (health : ProviderHealth) : Prop :=
  health.status ≠ .available →
    ∃ deadline, health.cooldownUntil = some deadline ∧
      ∀ now, deadline ≤ now →
        (isAvailable health now).2 = true ∧
        (isAvailable health now).1.status = .available ∧
        (isAvailable health now).1.consecutiveFailures = 0 ∧
        (isAvailable health now).1.cooldownUntil = none

/-- The call reaches the vendor, and the vendor's failure is a generic one that
    brings the consecutive failures to the threshold. -/
def Trips (profile : ProviderProfile) (clock : Nat → Instant) (s : ProviderRun) (call : Call) : Prop :=
  ∃ exc, call = .complete (.error exc) ∧ exc.isGeneric = true ∧
    (refresh s.health (clock s.reads)).1.status = .available ∧
    profile.maxConsecutiveFailures ≤ (refresh s.health (clock s.reads)).1.consecutiveFailures + 1

/-- Available, or in a cooldown that `refresh` can expire. -/
def Cooling (health : ProviderHealth) : Prop :=
  health.status = .available ∨ (Expirable health.status ∧ ∃ deadline, health.cooldownUntil = some deadline)

theorem recovers_of_cooling {health : ProviderHealth} (cooling : Cooling health) : Recovers health := by
  intro unavailable
  rcases cooling with available | ⟨expirable,deadline,until_⟩
  · exact absurd available unavailable
  · refine ⟨deadline,until_,?_⟩
    intro now elapsed
    have expired := refresh_elapsed until_ expirable elapsed
    simp [isAvailable,expired]

/-- A failed provider never serves again, whatever the time. -/
theorem not_recovers_of_failed {health : ProviderHealth} (failed : health.status = .failed) : ¬ Recovers health := by
  intro recovers
  obtain ⟨deadline,_,back⟩ := recovers (by simp [failed])
  have served := (back deadline le_rfl).1
  rw [isAvailable_iff,refresh_failed deadline failed,failed] at served
  contradiction

theorem touch_cooling {clock : Nat → Instant} {s : ProviderRun} (cooling : Cooling s.health) :
    Cooling (touch clock s).health := by
  rcases touch_cases clock s with same | ⟨_,_,_,_,expired⟩
  · rw [same]; exact cooling
  · rw [expired]; exact .inl rfl

/-- A reply keeps the provider recoverable unless it is a generic failure at the
    threshold. -/
theorem record_cooling {profile : ProviderProfile} {health : ProviderHealth} {reply : Reply} (now : Instant)
    (available : health.status = .available)
    (below : ∀ exc, reply = .error exc → exc.isGeneric = true →
      health.consecutiveFailures + 1 < profile.maxConsecutiveFailures) :
    Cooling (record profile health reply now) := by
  cases reply with
  | response response => exact .inl rfl
  | error exc =>
    simp only [record]
    rcases error_cases exc with limited | ⟨limited,exhausted⟩ | generic
    · rw [recordFailure_rateLimited limited]
      exact .inr ⟨.inr (.inl rfl),_,rfl⟩
    · rw [recordFailure_creditExhausted limited exhausted]
      exact .inr ⟨.inr (.inr rfl),_,rfl⟩
    · rw [recordFailure_counts generic (below exc rfl generic)]
      exact .inl available

/-- A call that trips the threshold leaves the provider failed. -/
theorem perform_trips {profile : ProviderProfile} {clock : Nat → Instant} {s : ProviderRun} {call : Call}
    (trips : Trips profile clock s call) : (perform profile clock s call).health.status = .failed := by
  obtain ⟨exc,rfl,generic,available,reached⟩ := trips
  rcases perform_cases profile clock s (.complete (.error exc)) with ⟨_,refused⟩ | ⟨reply,isReply,_,served⟩
  · exact absurd available (refused _ rfl)
  · cases isReply
    rw [served]
    refine (congrArg ProviderHealth.status (recordFailure_trips generic ?_)).trans rfl
    exact reached

theorem perform_cooling {profile : ProviderProfile} {clock : Nat → Instant} {s : ProviderRun} {call : Call}
    (cooling : Cooling s.health) (below : ¬ Trips profile clock s call) :
    Cooling (perform profile clock s call).health := by
  rcases perform_cases profile clock s call with ⟨touched,_⟩ | ⟨reply,isReply,available,served⟩
  · rw [touched]
    exact touch_cooling cooling
  · rw [served]
    refine record_cooling _ available ?_
    intro exc isError generic
    by_contra reached
    exact below ⟨exc,by rw [isReply,isError],generic,available,not_lt.mp reached⟩

/-- From a fresh record, every state a run passes through is recoverable exactly
    when no call of the run trips the failure threshold. -/
theorem recovers_always_iff (profile : ProviderProfile) (clock : Nat → Instant) (calls : List Call) :
    Always (perform profile clock) (fun s => Recovers s.health) fresh calls ↔
      Each (perform profile clock) (fun s call => ¬ Trips profile clock s call) fresh calls := by
  refine always_iff_each (fun s => Cooling s.health) ?_ ?_ ?_ (.inl rfl)
  · intro s cooling
    exact recovers_of_cooling cooling
  · intro s call cooling below
    exact perform_cooling cooling below
  · intro s call _ trips
    exact not_recovers_of_failed (perform_trips (not_not.mp trips))

/-- A provider that may fail twice in a row. -/
def flaky : ProviderProfile where
  name := "flaky"
  capabilities := {.codeGeneration}
  costPer1kTokens := 1
  contextWindow := 100000
  maxConsecutiveFailures := 2

/-- After two generic failures in a row the provider is lost, on any clock that
    stands still or advances: here one reading a second. -/
theorem flaky_lost :
    ¬ Always (perform flaky (fun reading => reading * 1000000)) (fun s => Recovers s.health) fresh
      [.complete (.error (providerError "e1")),.complete (.error (providerError "e2"))] := by
  intro always
  exact not_recovers_of_failed rfl always.last

end Hookclose.ProviderRecovery
