import Hookclose.Rounding
import Mathlib.Data.Finset.Basic
import Mathlib.Data.Int.ConditionallyCompleteOrder

/-!
The value objects of the provider subsystem: capabilities, status, profile and
health of a provider, the requests and responses of a vendor call, and the error
hierarchy. Instants are microseconds on an unbounded line, as `datetime` counts
them inside its calendar. Floats are their exact rational values.
-/
namespace Hookclose.ProviderState
open Hookclose.Rounding

/-- A point in time, in microseconds. -/
abbrev Instant := Int

/-- `timedelta(seconds=..)`: microseconds, rounded half to even; there is no last instant. -/
def timedelta (seconds : ℚ) : Int := roundHalfEven (seconds * 1000000)

/-- What a provider is good for. -/
inductive Capability
  | architecture
  | codeGeneration
  | review
  | analysis
  | extraction
  | embedding
  deriving DecidableEq, Repr

def Capability.value : Capability → String
  | .architecture => "architecture"
  | .codeGeneration => "code_generation"
  | .review => "review"
  | .analysis => "analysis"
  | .extraction => "extraction"
  | .embedding => "embedding"

/-- Operational status of a provider. -/
inductive ProviderStatus
  | available
  | rateLimited
  | offline
  | cooldown
  | failed
  deriving DecidableEq, Repr

def ProviderStatus.value : ProviderStatus → String
  | .available => "AVAILABLE"
  | .rateLimited => "RATE_LIMITED"
  | .offline => "OFFLINE"
  | .cooldown => "COOLDOWN"
  | .failed => "FAILED"

/-- Static configuration of a provider; its numbers are finite. -/
structure ProviderProfile where
  name : String
  capabilities : Finset Capability
  costPer1kTokens : ℚ
  contextWindow : Int
  weight : ℚ := 1
  maxConsecutiveFailures : Int := 3
  cooldownSeconds : ℚ := 60
  creditExhaustedCooldownSeconds : ℚ := 1800
  dailyTokenBudget : Option Int := none

def ProviderProfile.supports (profile : ProviderProfile) (capability : Capability) : Bool :=
  decide (capability ∈ profile.capabilities)

/-- Mutable runtime health of a provider; the defaults are a fresh record. -/
structure ProviderHealth where
  status : ProviderStatus := .available
  consecutiveFailures : Int := 0
  cooldownUntil : Option Instant := none
  tokensUsed : Int := 0
  totalRequests : Int := 0
  totalFailures : Int := 0
  lastError : Option String := none
  lastUsedAt : Option Instant := none
  deriving DecidableEq, Repr

def ProviderHealth.remainingBudget (health : ProviderHealth) (dailyTokenBudget : Option Int) : Option Int :=
  match dailyTokenBudget with
  | none => none
  | some budget => some (max 0 (budget - health.tokensUsed))

/-- Result of a successful managed invocation. -/
structure ProviderInvocation where
  provider : String
  content : String
  totalTokens : Int
  attempts : Nat
  failedOverFrom : List String := []
  deriving DecidableEq, Repr

/-! ### Vendor calls -/

inductive Role
  | system
  | user
  | assistant
  | tool
  deriving DecidableEq, Repr

structure LLMMessage where
  role : Role
  content : String

structure LLMRequest where
  model : String
  messages : List LLMMessage

structure LLMUsage where
  promptTokens : Int
  completionTokens : Int
  totalTokens : Int

structure LLMResponse where
  model : String
  content : String
  finishReason : String
  usage : LLMUsage

/-! ### Errors -/

/-- An exception of class `ProviderError`: which of the two classes that
    `BaseProvider` asks about it is an instance of, its code and its text. A
    class outside the hierarchy below may be an instance of both. -/
structure ProviderError where
  isRateLimited : Bool := false
  isCreditExhausted : Bool := false
  code : String
  message : String

/-- Generic, retryable provider failure. -/
def providerError (message : String) : ProviderError where
  code := "aine.provider.error"
  message := message

/-- Vendor returned a rate limit. -/
def providerRateLimited (message : String) : ProviderError where
  isRateLimited := true
  code := "aine.provider.rate_limited"
  message := message

/-- Vendor credit or quota is exhausted. -/
def providerCreditExhausted (message : String) : ProviderError where
  isCreditExhausted := true
  code := "aine.provider.credit_exhausted"
  message := message

/-- The invocation exceeded its deadline. -/
def providerTimeout (message : String) : ProviderError where
  code := "aine.provider.timeout"
  message := message

/-- The provider was asked to serve while not available. -/
def providerUnavailable (message : String) : ProviderError where
  code := "aine.provider.unavailable"
  message := message

/-- A failure that counts toward the threshold: neither a rate limit nor credit
    exhaustion. -/
def ProviderError.isGeneric (exc : ProviderError) : Bool := !exc.isRateLimited && !exc.isCreditExhausted

/-- What `_invoke` may do across the provider boundary: return a response or
    raise a `ProviderError`. -/
inductive Reply
  | response (response : LLMResponse)
  | error (exc : ProviderError)

/-- How one `_invoke` really ends: also with an exception of another class. -/
inductive Outcome
  | reply (reply : Reply)
  | exception (text : String)

end Hookclose.ProviderState
