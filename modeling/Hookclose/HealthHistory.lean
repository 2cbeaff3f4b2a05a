import Hookclose.BaseProvider

/-!
What the health record says about the calls that produced it. The counters, the
status and the cooldown of a provider are read off the history of its vendor
calls and expired cooldowns, and no vendor call starts before the deadline that
the latest rate limit, credit exhaustion or threshold trip has set.
-/
namespace Hookclose.HealthHistory
open Hookclose.ProviderState Hookclose.BaseProvider Hookclose.Runs

/-! ### Reading a history, latest event first -/

/-- An event after which consecutive failures are counted anew. -/
def isReset : HealthEvent → Bool
  | .recovered _ => true
  | .invoked _ _ (.response _) => true
  | .invoked _ _ (.error _) => false

/-- A vendor call that failed by neither a rate limit nor credit exhaustion. -/
def isGenericFailure : HealthEvent → Bool
  | .invoked _ _ (.error exc) => exc.isGeneric
  | _ => false

def isInvocation : HealthEvent → Bool
  | .invoked _ _ _ => true
  | .recovered _ => false

def isFailure : HealthEvent → Bool
  | .invoked _ _ (.error _) => true
  | _ => false

/-- The tokens of the response, if the event is a successful vendor call. -/
def tokens : HealthEvent → Int
  | .invoked _ _ (.response response) => response.usage.totalTokens
  | _ => 0

/-- The generic failures since the latest success or cooldown expiry. -/
def failuresSinceReset (history : List HealthEvent) : Nat :=
  (history.takeWhile (fun event => !isReset event)).countP isGenericFailure

/-- The deadline that an event sets: a rate limit, credit exhaustion, or a generic
    failure that brings the failures since the latest reset to the threshold. -/
def deadlineSet (profile : ProviderProfile) (older : List HealthEvent) : HealthEvent → Option Instant
  | .invoked started finished (.error exc) =>
    if exc.isRateLimited then some (finished + timedelta profile.cooldownSeconds)
    else if exc.isCreditExhausted then some (finished + timedelta profile.creditExhaustedCooldownSeconds)
    else if profile.maxConsecutiveFailures ≤ failuresSinceReset (.invoked started finished (.error exc) :: older) then
      some (finished + timedelta profile.cooldownSeconds)
    else none
  | _ => none

/-- The deadline set by the latest event that sets one. -/
def latestDeadline (profile : ProviderProfile) : List HealthEvent → Option Instant
  | [] => none
  | event :: older => (deadlineSet profile older event).or (latestDeadline profile older)

/-- No vendor call started strictly before the deadline in force when it started. -/
def Respected (profile : ProviderProfile) (history : List HealthEvent) : Prop :=
  ∀ newer started finished reply older, history = newer ++ .invoked started finished reply :: older →
    ∀ deadline, latestDeadline profile older = some deadline → deadline ≤ started

/-- The health record agrees with the history, and every deadline was respected. -/
structure HealthInvariant (profile : ProviderProfile) (s : ProviderRun) : Prop where
  available_iff : s.health.status = .available ↔ s.health.cooldownUntil = none
  failed_iff : s.health.status = .failed ↔ profile.maxConsecutiveFailures ≤ s.health.consecutiveFailures
  consecutive : s.health.consecutiveFailures = failuresSinceReset s.history
  requests : s.health.totalRequests = s.history.countP isInvocation
  failures : s.health.totalFailures = s.history.countP isFailure
  tokensUsed : s.health.tokensUsed = (s.history.map tokens).sum
  respected : Respected profile s.history

/-! ### Histories that grow by one event -/

theorem failuresSinceReset_reset {event : HealthEvent} (reset : isReset event = true) (older : List HealthEvent) :
    failuresSinceReset (event :: older) = 0 := by
  simp [failuresSinceReset,reset]

theorem failuresSinceReset_failure (started finished : Instant) (exc : ProviderError) (older : List HealthEvent) :
    failuresSinceReset (.invoked started finished (.error exc) :: older) =
      failuresSinceReset older + if exc.isGeneric then 1 else 0 := by
  cases generic : exc.isGeneric <;> simp [failuresSinceReset,isReset,isGenericFailure,generic]

theorem respected_recovered {profile : ProviderProfile} {history : List HealthEvent} (now : Instant)
    (respected : Respected profile history) : Respected profile (.recovered now :: history) := by
  intro newer started finished reply older split
  cases newer with
  | nil => simp at split
  | cons _ newer =>
    have rest := (List.cons.inj split).2
    exact respected newer started finished reply older rest

theorem respected_invoked {profile : ProviderProfile} {history : List HealthEvent} {started finished : Instant}
    {reply : Reply} (respected : Respected profile history)
    (due : ∀ deadline, latestDeadline profile history = some deadline → deadline ≤ started) :
    Respected profile (.invoked started finished reply :: history) := by
  intro newer started' finished' reply' older split
  cases newer with
  | nil =>
    obtain ⟨same,rfl⟩ := List.cons.inj split
    cases same
    exact due
  | cons _ newer =>
    have rest := (List.cons.inj split).2
    exact respected newer started' finished' reply' older rest

/-! ### The invariant -/

/-- `HealthInvariant` with what makes it inductive: an expirable cooldown ends at the
    latest deadline, and an available provider had the latest deadline behind it
    at the last reading made. -/
structure Inductive (profile : ProviderProfile) (clock : Nat → Instant) (s : ProviderRun) : Prop
    extends HealthInvariant profile s where
  waiting : Expirable s.health.status → s.health.cooldownUntil = latestDeadline profile s.history
  passed : s.health.status = .available → ∀ deadline, latestDeadline profile s.history = some deadline →
    ∀ reading, s.reads ≤ reading + 1 → deadline ≤ clock reading

theorem fresh_inductive (profile : ProviderProfile) (clock : Nat → Instant)
    (threshold : 1 ≤ profile.maxConsecutiveFailures) : Inductive profile clock fresh where
  available_iff := by simp [fresh]
  failed_iff := by simp [fresh]; omega
  consecutive := by simp [fresh,failuresSinceReset]
  requests := by simp [fresh]
  failures := by simp [fresh]
  tokensUsed := by simp [fresh]
  respected := by intro newer started finished reply older split; simp [fresh] at split
  waiting := by simp [fresh,Expirable]
  passed := by simp [fresh,latestDeadline]

theorem touch_inductive {profile : ProviderProfile} {clock : Nat → Instant} (monotone : Monotone clock)
    (threshold : 1 ≤ profile.maxConsecutiveFailures) {s : ProviderRun} (inv : Inductive profile clock s) :
    Inductive profile clock (touch clock s) := by
  rcases touch_cases clock s with same | ⟨deadline,until_,expirable,elapsed,expired⟩
  · rw [same]
    exact { inv with passed := fun available deadline set reading later =>
              inv.passed available deadline set reading (by simp at later; omega) }
  · rw [expired]
    have latest : latestDeadline profile s.history = some deadline := by rw [← inv.waiting expirable,until_]
    exact {
      available_iff := by simp
      failed_iff := by simp; omega
      consecutive := by rw [failuresSinceReset_reset rfl]; rfl
      requests := by simpa [isInvocation] using inv.requests
      failures := by simpa [isFailure] using inv.failures
      tokensUsed := by simpa [tokens] using inv.tokensUsed
      respected := respected_recovered _ inv.respected
      waiting := by simp [Expirable]
      passed := by
        intro _ other set reading later
        have same : deadline = other := by simpa [latestDeadline,deadlineSet,latest] using set
        rw [← same]
        exact elapsed.trans (monotone (by simp at later; omega)) }

/-- A vendor call on an available provider starts after the latest deadline. -/
theorem serve_respected {profile : ProviderProfile} {clock : Nat → Instant} {s : ProviderRun}
    (inv : Inductive profile clock s) (available : s.health.status = .available) (reply : Reply) :
    Respected profile (serve profile clock s reply).history := by
  refine respected_invoked inv.respected ?_
  intro deadline set
  exact inv.passed available deadline set (s.reads - 1) (by omega)

theorem serve_response_inductive {profile : ProviderProfile} {clock : Nat → Instant}
    (threshold : 1 ≤ profile.maxConsecutiveFailures) {s : ProviderRun} (inv : Inductive profile clock s)
    (available : s.health.status = .available) (response : LLMResponse) :
    Inductive profile clock (serve profile clock s (.response response)) where
  available_iff := by simp [serve,record,recordSuccess]
  failed_iff := by simp [serve,record,recordSuccess]; omega
  consecutive := by
    simp only [serve]
    rw [failuresSinceReset_reset rfl]
    rfl
  requests := by simp [serve,record,recordSuccess,List.countP_cons,isInvocation,inv.requests]
  failures := by simp [serve,record,recordSuccess,isFailure,inv.failures]
  tokensUsed := by simp [serve,record,recordSuccess,tokens,inv.tokensUsed,add_comm]
  respected := serve_respected inv available _
  waiting := by simp [serve,record,recordSuccess,Expirable]
  passed := by
    intro _ deadline set reading later
    have older : latestDeadline profile s.history = some deadline := by
      simpa [serve,latestDeadline,deadlineSet] using set
    exact inv.passed available deadline older reading (by simp [serve] at later; omega)

/-- A failed call sets the deadline of the history, as a cooldown that expires or
    with the failed status, or it is a generic failure below the threshold. -/
theorem serve_error_cases {profile : ProviderProfile} {clock : Nat → Instant} {s : ProviderRun}
    (inv : Inductive profile clock s) (exc : ProviderError) :
    let after := serve profile clock s (.error exc)
    let event := HealthEvent.invoked (clock (s.reads - 1)) (clock s.reads) (.error exc)
    (∃ deadline, deadlineSet profile s.history event = some deadline ∧ after.health.cooldownUntil = some deadline ∧
      (Expirable after.health.status ∧ exc.isGeneric = false ∨
        after.health.status = .failed ∧ exc.isGeneric = true ∧
          profile.maxConsecutiveFailures ≤ s.health.consecutiveFailures + 1)) ∨
    (deadlineSet profile s.history event = none ∧ after.health.status = s.health.status ∧
      after.health.cooldownUntil = s.health.cooldownUntil ∧ exc.isGeneric = true ∧
      s.health.consecutiveFailures + 1 < profile.maxConsecutiveFailures) := by
  simp only [serve,record,deadlineSet,failuresSinceReset_failure]
  rcases error_cases exc with limited | ⟨limited,exhausted⟩ | generic
  · have special : exc.isGeneric = false := by simp [ProviderError.isGeneric,limited]
    simp [recordFailure_rateLimited limited,limited,special,Expirable]
  · have special : exc.isGeneric = false := by simp [ProviderError.isGeneric,exhausted]
    simp [recordFailure_creditExhausted limited exhausted,limited,exhausted,special,Expirable]
  · obtain ⟨limited,exhausted⟩ := isGeneric_iff.mp generic
    have counted := inv.consecutive
    rcases le_or_gt profile.maxConsecutiveFailures (s.health.consecutiveFailures + 1) with reached | below
    · left
      simp [recordFailure,limited,exhausted,generic,reached,← counted]
    · right
      have notReached := not_le.mpr below
      simp [recordFailure,limited,exhausted,generic,below,notReached,← counted]

/-- The counters follow the history after every failure, whatever its kind; the status,
    the cooldown and the deadline are left to each kind. -/
theorem serve_error_of {profile : ProviderProfile} {clock : Nat → Instant} {s : ProviderRun}
    (inv : Inductive profile clock s) (available : s.health.status = .available) {exc : ProviderError}
    {after : ProviderRun} (served : after = serve profile clock s (.error exc))
    (available_iff : after.health.status = .available ↔ after.health.cooldownUntil = none)
    (failed_iff : after.health.status = .failed ↔ profile.maxConsecutiveFailures ≤ after.health.consecutiveFailures)
    (waiting : Expirable after.health.status → after.health.cooldownUntil = latestDeadline profile after.history)
    (passed : after.health.status = .available → latestDeadline profile after.history = latestDeadline profile s.history) :
    Inductive profile clock after where
  available_iff := available_iff
  failed_iff := failed_iff
  consecutive := by simp [served,serve,record,failuresSinceReset_failure,inv.consecutive]
  requests := by simp [served,serve,record,List.countP_cons,isInvocation,inv.requests]
  failures := by simp [served,serve,record,List.countP_cons,isFailure,inv.failures]
  tokensUsed := by simp [served,serve,record,tokens,inv.tokensUsed]
  respected := by rw [served]; exact serve_respected inv available _
  waiting := waiting
  passed := by
    intro still deadline set reading later
    rw [passed still] at set
    exact inv.passed available deadline set reading (by simp [served,serve] at later; omega)

theorem serve_error_inductive {profile : ProviderProfile} {clock : Nat → Instant} {s : ProviderRun}
    (inv : Inductive profile clock s) (available : s.health.status = .available) (exc : ProviderError) :
    Inductive profile clock (serve profile clock s (.error exc)) := by
  have below : s.health.consecutiveFailures < profile.maxConsecutiveFailures :=
    not_le.mp (mt inv.failed_iff.mpr (by simp [available]))
  have unset := inv.available_iff.mp available
  have counted : (serve profile clock s (.error exc)).health.consecutiveFailures =
      s.health.consecutiveFailures + if exc.isGeneric then 1 else 0 := by simp [serve,record]
  have latest : latestDeadline profile (serve profile clock s (.error exc)).history =
      (deadlineSet profile s.history (.invoked (clock (s.reads - 1)) (clock s.reads) (.error exc))).or
        (latestDeadline profile s.history) := rfl
  rcases serve_error_cases inv exc with ⟨deadline,set,until_,kind⟩ | ⟨none_,sameStatus,sameUntil,generic,under⟩
  · rcases kind with ⟨expirable,special⟩ | ⟨failed,generic,reached⟩
    · have notAvailable : (serve profile clock s (.error exc)).health.status ≠ .available := by
        rcases expirable with h | h | h <;> simp [h]
      have notFailed : (serve profile clock s (.error exc)).health.status ≠ .failed := by
        rcases expirable with h | h | h <;> simp [h]
      refine serve_error_of inv available rfl ?_ ?_ ?_ ?_
      · simp [notAvailable,until_]
      · simp [notFailed,counted,special,below]
      · intro _; simp [until_,latest,set]
      · intro still; exact absurd still notAvailable
    · refine serve_error_of inv available rfl ?_ ?_ ?_ ?_
      · simp [failed,until_]
      · simp [failed,counted,generic,reached]
      · intro expirable; simp [Expirable,failed] at expirable
      · intro still; simp [failed] at still
  · refine serve_error_of inv available rfl ?_ ?_ ?_ ?_
    · simp [sameStatus,sameUntil,available,unset]
    · simp [sameStatus,available,counted,generic,under]
    · intro expirable; simp [Expirable,sameStatus,available] at expirable
    · intro _; simp [latest,none_]

theorem perform_inductive {profile : ProviderProfile} {clock : Nat → Instant} (monotone : Monotone clock)
    (threshold : 1 ≤ profile.maxConsecutiveFailures) {s : ProviderRun} (inv : Inductive profile clock s) (call : Call) :
    Inductive profile clock (perform profile clock s call) := by
  have touched := touch_inductive monotone threshold inv
  rcases perform_cases profile clock s call with ⟨same,_⟩ | ⟨reply,_,available,served⟩
  · rw [same]
    exact touched
  · rw [served]
    cases reply with
    | response response => exact serve_response_inductive threshold touched available response
    | error exc => exact serve_error_inductive touched available exc

/-- From a fresh record, in every state that calls on a monotone clock reach, the
    status, the counters and the cooldown are what the history of the calls says,
    and no vendor call has started before the deadline in force. -/
theorem health_invariant (profile : ProviderProfile) (threshold : 1 ≤ profile.maxConsecutiveFailures)
    (clock : Nat → Instant) (monotone : Monotone clock) (calls : List Call) :
    Always (perform profile clock) (HealthInvariant profile) fresh calls := by
  have always := always_of_step (Inductive profile clock)
    (fun _ call inv => perform_inductive monotone threshold inv call) (fresh_inductive profile clock threshold) calls
  exact always.mono (fun _ inv => inv.toHealthInvariant)

/-- A profile with every default. -/
def plain : ProviderProfile where
  name := "plain"
  capabilities := {.codeGeneration}
  costPer1kTokens := 1
  contextWindow := 100000

/-- A rate limit, a refused call a second later, and a call after the cooldown. -/
theorem plain_health_invariant :
    1 ≤ plain.maxConsecutiveFailures ∧ Monotone (fun reading : Nat => (reading : Int) * 40000000) ∧
      Always (perform plain (fun reading => reading * 40000000)) (HealthInvariant plain) fresh
        [.complete (.error (providerRateLimited "429")),.isAvailable,
          .complete (.response ⟨"m","ok","stop",⟨1,1,2⟩⟩)] := by
  have monotone : Monotone (fun reading : Nat => (reading : Int) * 40000000) := by
    intro i j le
    have cast : (i : Int) ≤ j := by exact_mod_cast le
    dsimp only
    omega
  exact ⟨by decide,monotone,health_invariant plain (by decide) _ monotone _⟩

end Hookclose.HealthHistory
