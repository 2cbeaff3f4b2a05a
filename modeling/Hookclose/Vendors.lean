import Hookclose.ProviderState
import Hookclose.Text

/-!
The concrete providers. All but a subclass with an `_invoke` of its own delegate
the call to an injected adapter and turn whatever it raises into a
`ProviderError`; the local provider without an adapter answers with a stub.
-/
namespace Hookclose.Vendors
open Hookclose.ProviderState

/-- Where the `_invoke` of a provider comes from. -/
inductive Vendor
  | custom
  | adapter
  | localModel (adapter : Bool)
  deriving DecidableEq, Repr

/-- The unchanging part of a provider; its health belongs to the run. -/
structure Provider where
  profile : ProviderProfile
  vendor : Vendor

def Provider.name (provider : Provider) : String := provider.profile.name

/-! ### Default profiles -/

def claudeProfile : ProviderProfile where
  name := "claude"
  capabilities := {.architecture,.review,.analysis,.codeGeneration}
  costPer1kTokens := 15
  contextWindow := 200000

def openCodeProfile : ProviderProfile where
  name := "opencode"
  capabilities := {.codeGeneration,.review}
  costPer1kTokens := 2
  contextWindow := 128000

def openAIProfile : ProviderProfile where
  name := "openai"
  capabilities := {.codeGeneration,.review,.analysis,.extraction}
  costPer1kTokens := 1
  contextWindow := 128000

def geminiProfile : ProviderProfile where
  name := "gemini"
  capabilities := {.extraction,.codeGeneration,.analysis,.embedding}
  costPer1kTokens := 1/2
  contextWindow := 1000000

/-- The last resort: the lowest weight, no cost and no token budget. -/
def localProfile : ProviderProfile where
  name := "local"
  capabilities := {.extraction,.codeGeneration}
  costPer1kTokens := 0
  contextWindow := 32000
  weight := 1/10

def claudeProvider (profile : Option ProviderProfile) : Provider := ⟨profile.getD claudeProfile,.adapter⟩

def openCodeProvider (profile : Option ProviderProfile) : Provider := ⟨profile.getD openCodeProfile,.adapter⟩

def openAIProvider (profile : Option ProviderProfile) : Provider := ⟨profile.getD openAIProfile,.adapter⟩

def geminiProvider (profile : Option ProviderProfile) : Provider := ⟨profile.getD geminiProfile,.adapter⟩

def localProvider (adapter : Bool) (profile : Option ProviderProfile) : Provider :=
  ⟨profile.getD localProfile,.localModel adapter⟩

/-! ### Vendor calls -/

/-- An adapter's outcome with any exception that is not a `ProviderError` wrapped in one. -/
def wrapped (label : String) : Outcome → Outcome
  | .reply reply => .reply reply
  | .exception text => .reply (.error (providerError (label ++ " invocation failed: " ++ text)))

/-- The content of the last user message, or nothing. -/
def lastUser (request : LLMRequest) : String :=
  match request.messages.reverse.find? (fun message => message.role = .user) with
  | some message => message.content
  | none => ""

/-- The deterministic answer of a local provider without an adapter. -/
def degradedResponse (request : LLMRequest) : LLMResponse :=
  let content := String.ofList (Text.strip ("[local-fallback] " ++ lastUser request).toList)
  let approx : Int := max 1 (content.length / 4)
  { model := "local-fallback"
    content := content
    finishReason := "stop"
    usage := { promptTokens := approx, completionTokens := approx, totalTokens := 2 * approx } }

/-- `_invoke`, given what the adapter or the subclass does with the request. -/
def invoke (provider : Provider) (request : LLMRequest) (answer : Outcome) : Outcome :=
  match provider.vendor with
  | .custom => answer
  | .adapter => wrapped provider.name answer
  | .localModel true => wrapped "local" answer
  | .localModel false => .reply (.response (degradedResponse request))

theorem wrapped_reply (label : String) (answer : Outcome) : ∃ reply, wrapped label answer = .reply reply := by
  cases answer with
  | reply reply => exact ⟨reply,rfl⟩
  | exception text => exact ⟨_,rfl⟩

/-- Only a subclass with its own `_invoke` can break the provider boundary. -/
theorem invoke_reply {provider : Provider} {answer : Outcome}
    (contract : provider.vendor = .custom → ∃ reply, answer = .reply reply) (request : LLMRequest) :
    ∃ reply, invoke provider request answer = .reply reply := by
  cases kind : provider.vendor with
  | custom =>
    obtain ⟨reply,given⟩ := contract kind
    exact ⟨reply,by simp [invoke,kind,given]⟩
  | adapter =>
    obtain ⟨reply,given⟩ := wrapped_reply provider.name answer
    exact ⟨reply,by simp [invoke,kind,given]⟩
  | localModel adapter =>
    cases adapter with
    | false => exact ⟨_,by simp only [invoke,kind]; rfl⟩
    | true =>
      obtain ⟨reply,given⟩ := wrapped_reply "local" answer
      exact ⟨reply,by simp [invoke,kind,given]⟩

end Hookclose.Vendors
