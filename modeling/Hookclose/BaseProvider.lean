import Hookclose.ProviderState
import Hookclose.Runs
import Hookclose.Text

/-!
A vendor wrapped with health, cooldown and budget logic. `complete` is cut at its
one await: `beginComplete` runs up to the vendor call, `record` is what follows
it. Each function takes the clock reading that the source makes in it; `perform`
supplies the readings of a provider's clock to a run of calls on one provider and
keeps the history of vendor calls and expired cooldowns beside the health record.
-/
namespace Hookclose.BaseProvider
open Hookclose.ProviderState Hookclose.Runs

/-- Expires a cooldown that has elapsed; `true` if the provider recovered. -/
def refresh (health : ProviderHealth) (now : Instant) : ProviderHealth × Bool :=
  match health.cooldownUntil with
  | none => (health,false)
  | some deadline =>
    if (health.status = .cooldown ∨ health.status = .rateLimited ∨ health.status = .offline) ∧ deadline ≤ now then
      ({ health with status := .available, consecutiveFailures := 0, cooldownUntil := none, lastError := none },true)
    else (health,false)

/-- Whether the provider can serve now, once an expired cooldown is resolved. -/
def isAvailable (health : ProviderHealth) (now : Instant) : ProviderHealth × Bool :=
  let health := (refresh health now).1
  (health,decide (health.status = .available))

def hasBudget (profile : ProviderProfile) (health : ProviderHealth) (estimatedTokens : Int := 0) : Bool :=
  match health.remainingBudget profile.dailyTokenBudget with
  | none => true
  | some remaining => if remaining ≤ 0 then false else decide (estimatedTokens ≤ remaining)

def recordSuccess (health : ProviderHealth) (response : LLMResponse) (now : Instant) : ProviderHealth :=
  { health with
    status := .available
    consecutiveFailures := 0
    cooldownUntil := none
    lastError := none
    lastUsedAt := some now
    tokensUsed := health.tokensUsed + response.usage.totalTokens }

def recordFailure (profile : ProviderProfile) (health : ProviderHealth) (exc : ProviderError) (now : Instant) :
    ProviderHealth :=
  let health := { health with
    totalFailures := health.totalFailures + 1
    lastError := some (exc.code ++ ": " ++ exc.message) }
  if exc.isRateLimited then
    { health with status := .rateLimited, cooldownUntil := some (now + timedelta profile.cooldownSeconds) }
  else if exc.isCreditExhausted then
    { health with
      status := .offline
      cooldownUntil := some (now + timedelta profile.creditExhaustedCooldownSeconds) }
  else
    let health := { health with consecutiveFailures := health.consecutiveFailures + 1 }
    if profile.maxConsecutiveFailures ≤ health.consecutiveFailures then
      { health with status := .failed, cooldownUntil := some (now + timedelta profile.cooldownSeconds) }
    else health

/-- `complete` up to the vendor call: the exception it raises instead, if the
    provider is not available. -/
def beginComplete (profile : ProviderProfile) (health : ProviderHealth) (now : Instant) :
    ProviderHealth × Option ProviderError :=
  let checked := isAvailable health now
  if checked.2 then ({ checked.1 with totalRequests := checked.1.totalRequests + 1 },none)
  else
    (checked.1,some (providerUnavailable
      ("provider " ++ Text.repr profile.name ++ " is " ++ checked.1.status.value ++ " (not available)")))

/-- `complete` from the vendor's reply on. -/
def record (profile : ProviderProfile) (health : ProviderHealth) (reply : Reply) (now : Instant) : ProviderHealth :=
  match reply with
  | .response response => recordSuccess health response now
  | .error exc => recordFailure profile health exc now

/-! ### What each function does -/

/-- The statuses whose cooldown `refresh` can expire. -/
def Expirable (status : ProviderStatus) : Prop :=
  status = .cooldown ∨ status = .rateLimited ∨ status = .offline

theorem refresh_none {health : ProviderHealth} (now : Instant) (unset : health.cooldownUntil = none) :
    refresh health now = (health,false) := by
  simp [refresh,unset]

theorem refresh_elapsed {health : ProviderHealth} {deadline now : Instant} (until_ : health.cooldownUntil = some deadline)
    (expirable : Expirable health.status) (elapsed : deadline ≤ now) :
    refresh health now =
      ({ health with status := .available, consecutiveFailures := 0, cooldownUntil := none, lastError := none },true) := by
  have condition : (health.status = .cooldown ∨ health.status = .rateLimited ∨ health.status = .offline) ∧
      deadline ≤ now := ⟨expirable,elapsed⟩
  simp only [refresh,until_,if_pos condition]

theorem refresh_available {health : ProviderHealth} (now : Instant) (available : health.status = .available) :
    refresh health now = (health,false) := by
  unfold refresh
  split <;> simp [available]

theorem refresh_failed {health : ProviderHealth} (now : Instant) (failed : health.status = .failed) :
    refresh health now = (health,false) := by
  unfold refresh
  split <;> simp [failed]

/-- `refresh` leaves the record alone or expires a cooldown whose deadline has passed. -/
theorem refresh_cases (health : ProviderHealth) (now : Instant) :
    refresh health now = (health,false) ∨
    ∃ deadline, health.cooldownUntil = some deadline ∧ Expirable health.status ∧ deadline ≤ now ∧
      refresh health now =
        ({ health with status := .available, consecutiveFailures := 0, cooldownUntil := none, lastError := none },true) := by
  cases unset : health.cooldownUntil with
  | none => exact .inl (refresh_none now unset)
  | some deadline =>
    by_cases condition : Expirable health.status ∧ deadline ≤ now
    · exact .inr ⟨deadline,rfl,condition.1,condition.2,refresh_elapsed unset condition.1 condition.2⟩
    · left
      have kept : ¬ ((health.status = .cooldown ∨ health.status = .rateLimited ∨ health.status = .offline) ∧
        deadline ≤ now) := condition
      simp only [refresh,unset,if_neg kept]

@[simp] theorem refresh_tokensUsed (health : ProviderHealth) (now : Instant) :
    (refresh health now).1.tokensUsed = health.tokensUsed := by
  rcases refresh_cases health now with same | ⟨_,_,_,_,same⟩ <;> rw [same]

@[simp] theorem refresh_totalRequests (health : ProviderHealth) (now : Instant) :
    (refresh health now).1.totalRequests = health.totalRequests := by
  rcases refresh_cases health now with same | ⟨_,_,_,_,same⟩ <;> rw [same]

/-- Availability is decided on the refreshed record. -/
theorem isAvailable_iff (health : ProviderHealth) (now : Instant) :
    (isAvailable health now).2 = true ↔ (refresh health now).1.status = .available := by
  simp [isAvailable]

theorem hasBudget_iff (profile : ProviderProfile) (health : ProviderHealth) :
    hasBudget profile health = true ↔ ∀ budget, profile.dailyTokenBudget = some budget → health.tokensUsed < budget := by
  cases limit : profile.dailyTokenBudget with
  | none => simp [hasBudget,ProviderHealth.remainingBudget,limit]
  | some budget =>
    by_cases spent : budget - health.tokensUsed ≤ 0
    · simp [hasBudget,ProviderHealth.remainingBudget,limit,max_eq_left spent]
      omega
    · have left : 0 ≤ budget - health.tokensUsed := by omega
      simp [hasBudget,ProviderHealth.remainingBudget,limit,max_eq_right left]
      omega

theorem recordFailure_rateLimited {profile : ProviderProfile} {health : ProviderHealth} {exc : ProviderError}
    {now : Instant} (limited : exc.isRateLimited = true) :
    recordFailure profile health exc now =
      { health with
        totalFailures := health.totalFailures + 1
        lastError := some (exc.code ++ ": " ++ exc.message)
        status := .rateLimited
        cooldownUntil := some (now + timedelta profile.cooldownSeconds) } := by
  simp [recordFailure,limited]

theorem recordFailure_creditExhausted {profile : ProviderProfile} {health : ProviderHealth} {exc : ProviderError}
    {now : Instant} (limited : exc.isRateLimited = false) (exhausted : exc.isCreditExhausted = true) :
    recordFailure profile health exc now =
      { health with
        totalFailures := health.totalFailures + 1
        lastError := some (exc.code ++ ": " ++ exc.message)
        status := .offline
        cooldownUntil := some (now + timedelta profile.creditExhaustedCooldownSeconds) } := by
  simp [recordFailure,limited,exhausted]

theorem isGeneric_iff {exc : ProviderError} :
    exc.isGeneric = true ↔ exc.isRateLimited = false ∧ exc.isCreditExhausted = false := by
  simp [ProviderError.isGeneric]

/-- The three kinds of failure that `recordFailure` tells apart. -/
theorem error_cases (exc : ProviderError) :
    exc.isRateLimited = true ∨ (exc.isRateLimited = false ∧ exc.isCreditExhausted = true) ∨ exc.isGeneric = true := by
  cases limited : exc.isRateLimited <;> cases exhausted : exc.isCreditExhausted <;>
    simp [isGeneric_iff,limited,exhausted]

/-- A generic failure that reaches the threshold. -/
theorem recordFailure_trips {profile : ProviderProfile} {health : ProviderHealth} {exc : ProviderError}
    {now : Instant} (generic : exc.isGeneric = true)
    (reached : profile.maxConsecutiveFailures ≤ health.consecutiveFailures + 1) :
    recordFailure profile health exc now =
      { health with
        totalFailures := health.totalFailures + 1
        lastError := some (exc.code ++ ": " ++ exc.message)
        consecutiveFailures := health.consecutiveFailures + 1
        status := .failed
        cooldownUntil := some (now + timedelta profile.cooldownSeconds) } := by
  obtain ⟨limited,exhausted⟩ := isGeneric_iff.mp generic
  simp [recordFailure,limited,exhausted,reached]

/-- A generic failure below the threshold. -/
theorem recordFailure_counts {profile : ProviderProfile} {health : ProviderHealth} {exc : ProviderError}
    {now : Instant} (generic : exc.isGeneric = true)
    (below : health.consecutiveFailures + 1 < profile.maxConsecutiveFailures) :
    recordFailure profile health exc now =
      { health with
        totalFailures := health.totalFailures + 1
        lastError := some (exc.code ++ ": " ++ exc.message)
        consecutiveFailures := health.consecutiveFailures + 1 } := by
  obtain ⟨limited,exhausted⟩ := isGeneric_iff.mp generic
  simp [recordFailure,limited,exhausted,not_le.mpr below]

@[simp] theorem recordFailure_totalRequests (profile : ProviderProfile) (health : ProviderHealth) (exc : ProviderError)
    (now : Instant) : (recordFailure profile health exc now).totalRequests = health.totalRequests := by
  simp only [recordFailure]
  split_ifs <;> rfl

@[simp] theorem recordFailure_totalFailures (profile : ProviderProfile) (health : ProviderHealth) (exc : ProviderError)
    (now : Instant) : (recordFailure profile health exc now).totalFailures = health.totalFailures + 1 := by
  simp only [recordFailure]
  split_ifs <;> rfl

@[simp] theorem recordFailure_tokensUsed (profile : ProviderProfile) (health : ProviderHealth) (exc : ProviderError)
    (now : Instant) : (recordFailure profile health exc now).tokensUsed = health.tokensUsed := by
  simp only [recordFailure]
  split_ifs <;> rfl

/-- Only generic failures are counted. -/
@[simp] theorem recordFailure_consecutiveFailures (profile : ProviderProfile) (health : ProviderHealth)
    (exc : ProviderError) (now : Instant) :
    (recordFailure profile health exc now).consecutiveFailures =
      health.consecutiveFailures + if exc.isGeneric then 1 else 0 := by
  simp only [recordFailure,ProviderError.isGeneric]
  split_ifs <;> simp_all

/-- `complete` calls the vendor exactly when the refreshed record is available. -/
theorem beginComplete_available (profile : ProviderProfile) {health : ProviderHealth} {now : Instant}
    (available : (refresh health now).1.status = .available) :
    beginComplete profile health now =
      ({ (refresh health now).1 with totalRequests := health.totalRequests + 1 },none) := by
  simp [beginComplete,isAvailable,available]

theorem beginComplete_refused (profile : ProviderProfile) {health : ProviderHealth} {now : Instant}
    (unavailable : (refresh health now).1.status ≠ .available) :
    ∃ exc, beginComplete profile health now = ((refresh health now).1,some exc) ∧ exc.isGeneric = true := by
  refine ⟨_,by simp [beginComplete,isAvailable,unavailable]; rfl,rfl⟩

/-! ### Runs of calls on one provider -/

/-- A call on a provider; `complete` comes with the vendor's reply to it. -/
inductive Call
  | complete (reply : Reply)
  | isAvailable
  | refresh

/-- What happened to a provider: a cooldown expired, or the vendor was called. -/
inductive HealthEvent
  | recovered (now : Instant)
  | invoked (started finished : Instant) (reply : Reply)

/-- A provider during a run: its health, the number of clock readings made so
    far, and the latest events first. -/
structure ProviderRun where
  health : ProviderHealth := {}
  reads : Nat := 0
  history : List HealthEvent := []

/-- A provider that has just been constructed. -/
def fresh : ProviderRun := {}

/-- The history once `refresh` has run at `now`. -/
def noteRefresh (health : ProviderHealth) (now : Instant) (history : List HealthEvent) : List HealthEvent :=
  if (refresh health now).2 then .recovered now :: history else history

/-- One call, with the readings of the provider's clock. -/
def perform (profile : ProviderProfile) (clock : Nat → Instant) (s : ProviderRun) : Call → ProviderRun
  | .isAvailable =>
    { health := (isAvailable s.health (clock s.reads)).1
      reads := s.reads + 1
      history := noteRefresh s.health (clock s.reads) s.history }
  | .refresh =>
    { health := (refresh s.health (clock s.reads)).1
      reads := s.reads + 1
      history := noteRefresh s.health (clock s.reads) s.history }
  | .complete reply =>
    let begun := beginComplete profile s.health (clock s.reads)
    let history := noteRefresh s.health (clock s.reads) s.history
    match begun.2 with
    | some _ => { health := begun.1, reads := s.reads + 1, history := history }
    | none =>
      { health := record profile begun.1 reply (clock (s.reads + 1))
        reads := s.reads + 2
        history := .invoked (clock s.reads) (clock (s.reads + 1)) reply :: history }

/-- The run once `refresh` has been applied at the next reading. -/
def touch (clock : Nat → Instant) (s : ProviderRun) : ProviderRun where
  health := (refresh s.health (clock s.reads)).1
  reads := s.reads + 1
  history := noteRefresh s.health (clock s.reads) s.history

/-- The run once an available provider has been called and has replied. -/
def serve (profile : ProviderProfile) (clock : Nat → Instant) (s : ProviderRun) (reply : Reply) : ProviderRun where
  health := record profile { s.health with totalRequests := s.health.totalRequests + 1 } reply (clock s.reads)
  reads := s.reads + 1
  history := .invoked (clock (s.reads - 1)) (clock s.reads) reply :: s.history

/-- Every call refreshes the record; only a `complete` on a provider that is then
    available does more. -/
theorem perform_cases (profile : ProviderProfile) (clock : Nat → Instant) (s : ProviderRun) (call : Call) :
    (perform profile clock s call = touch clock s ∧
      ∀ reply, call = .complete reply → (touch clock s).health.status ≠ .available) ∨
    ∃ reply, call = .complete reply ∧ (touch clock s).health.status = .available ∧
      perform profile clock s call = serve profile clock (touch clock s) reply := by
  cases call with
  | isAvailable => exact .inl ⟨rfl,by simp⟩
  | refresh => exact .inl ⟨rfl,by simp⟩
  | complete reply =>
    by_cases available : (refresh s.health (clock s.reads)).1.status = .available
    · refine .inr ⟨reply,rfl,available,?_⟩
      simp [perform,beginComplete_available profile available,serve,touch]
    · refine .inl ⟨?_,fun _ _ => available⟩
      obtain ⟨exc,refused,_⟩ := beginComplete_refused profile available
      simp [perform,refused,touch]

theorem touch_cases (clock : Nat → Instant) (s : ProviderRun) :
    touch clock s = { s with reads := s.reads + 1 } ∨
    ∃ deadline, s.health.cooldownUntil = some deadline ∧ Expirable s.health.status ∧ deadline ≤ clock s.reads ∧
      touch clock s =
        { health := { s.health with
            status := .available
            consecutiveFailures := 0
            cooldownUntil := none
            lastError := none }
          reads := s.reads + 1
          history := .recovered (clock s.reads) :: s.history } := by
  rcases refresh_cases s.health (clock s.reads) with same | ⟨deadline,until_,expirable,elapsed,expired⟩
  · left
    simp [touch,noteRefresh,same]
  · right
    exact ⟨deadline,until_,expirable,elapsed,by simp [touch,noteRefresh,expired]⟩

end Hookclose.BaseProvider
