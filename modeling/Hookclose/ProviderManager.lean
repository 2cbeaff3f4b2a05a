import Hookclose.BaseProvider
import Hookclose.ProviderRegistry
import Mathlib.Logic.Function.Basic

/-!
Capability-aware invocation with failover. The state of a manager is the live
health of the registered providers, what the state store holds, and the events
published so far; with it run the count of clock readings and the names of the
providers whose `_invoke` has started, in order. What lies outside is fixed by a
`World`: each provider's clock, and what its adapter does at each invocation.
-/
namespace Hookclose.ProviderManager
open Hookclose.ProviderState Hookclose.BaseProvider Hookclose.Vendors Hookclose.ProviderRegistry

/-- A provider event, with the payload that the manager gives it. -/
inductive ProviderEvent
  | selected (provider : String) (capability : String) (attempt : Nat)
  | invocationSucceeded (provider : String) (capability : String) (totalTokens : Int)
  | failedOver (provider : String) (capability : String) (reason : String) (errorCode : String)
  | cooldownEntered (provider : String) (status : String) (cooldownUntil : Option Instant) (reason : String)
  | creditExhausted (provider : String)
  | allExhausted (capability : String) (tried : List String)
  deriving DecidableEq

/-- The registry, the clocks by provider and number of readings made, and the
    adapters by number of invocations made and provider. -/
structure World where
  registry : Registry
  clock : String → Nat → Instant
  answers : Nat → String → Outcome

structure ManagerState where
  health : String → ProviderHealth := fun _ => {}
  store : String → Option ProviderHealth := fun _ => none
  events : List ProviderEvent := []
  reads : Nat := 0
  invoked : List String := []

/-- What `complete` raises: `NoProviderAvailable`, or an exception that escapes a
    provider. -/
inductive Failure
  | noProviderAvailable (message : String)
  | escaped (text : String)
  deriving DecidableEq

def emit (event : ProviderEvent) (s : ManagerState) : ManagerState := { s with events := s.events ++ [event] }

/-- `store.save` keeps a copy of the live record. -/
def save (provider : Provider) (s : ManagerState) : ManagerState :=
  { s with store := Function.update s.store provider.name (some (s.health provider.name)) }

/-- The live record of a provider is replaced, after one reading of its clock. -/
def setHealth (provider : Provider) (health : ProviderHealth) (s : ManagerState) : ManagerState :=
  { s with health := Function.update s.health provider.name health, reads := s.reads + 1 }

/-- The reading that a provider's clock gives next. -/
def now (world : World) (provider : Provider) (s : ManagerState) : Instant := world.clock provider.name s.reads

/-! ### Candidates -/

/-- The supporting providers in failover order, or those that `order` names. -/
def inOrder (registry : Registry) (capability : Capability) (order : Option (List String)) : List Provider :=
  let supporting := registry.forCapability capability
  match order with
  | none => supporting
  | some names => names.filterMap (fun name => supporting.find? (fun provider => provider.name = name))

/-- The available providers with budget, each checked in turn. -/
def keepServing (world : World) : List Provider → ManagerState → ManagerState × List Provider
  | [],s => (s,[])
  | provider :: rest,s =>
    let checked := isAvailable (s.health provider.name) (now world provider s)
    let kept := keepServing world rest (setHealth provider checked.1 s)
    if checked.2 && hasBudget provider.profile checked.1 then (kept.1,provider :: kept.2) else kept

def candidates (world : World) (capability : Capability) (order : Option (List String)) (s : ManagerState) :
    ManagerState × List Provider :=
  keepServing world (inOrder world.registry capability order) s

/-! ### Failover -/

/-- `_on_failure`. -/
def onFailure (provider : Provider) (capability : Capability) (exc : ProviderError) (s : ManagerState) :
    ManagerState :=
  let s := save provider s
  let s := emit (.failedOver provider.name capability.value exc.message exc.code) s
  let s := if exc.isCreditExhausted then emit (.creditExhausted provider.name) s else s
  let health := s.health provider.name
  if health.status = .cooldown ∨ health.status = .rateLimited ∨ health.status = .offline ∨ health.status = .failed then
    emit (.cooldownEntered provider.name health.status.value health.cooldownUntil exc.code) s
  else s

/-- One pass of the failover loop up to the vendor call: the provider is announced,
    and `complete` either raises or starts `_invoke`. -/
def attempt (world : World) (provider : Provider) (capability : Capability) (number : Nat) (s : ManagerState) :
    ManagerState × Option ProviderError :=
  let s := emit (.selected provider.name capability.value number) s
  let begun := beginComplete provider.profile (s.health provider.name) (now world provider s)
  let s := setHealth provider begun.1 s
  match begun.2 with
  | some exc => (s,some exc)
  | none => ({ s with invoked := s.invoked ++ [provider.name] },none)

/-- The provider records the reply that ends its `_invoke`. -/
def recordReply (world : World) (provider : Provider) (reply : Reply) (s : ManagerState) : ManagerState :=
  setHealth provider (record provider.profile (s.health provider.name) reply (now world provider s)) s

/-- The manager's answer once the provider has responded. -/
def served (provider : Provider) (response : LLMResponse) (number : Nat) (failedOver : List String) :
    ProviderInvocation where
  provider := provider.name
  content := response.content
  totalTokens := response.usage.totalTokens
  attempts := number
  failedOverFrom := failedOver

/-- What follows a response: the record is saved and the success announced. -/
def onSuccess (provider : Provider) (capability : Capability) (response : LLMResponse) (s : ManagerState) :
    ManagerState :=
  emit (.invocationSucceeded provider.name capability.value response.usage.totalTokens) (save provider s)

def exhausted (capability : Capability) (total : Nat) : Failure :=
  .noProviderAvailable ("all " ++ toString total ++ " provider(s) failed for capability " ++ Text.repr capability.value)

/-- The failover loop from its `number`-th pass on. -/
def failover (world : World) (request : LLMRequest) (capability : Capability) (total : Nat) :
    List Provider → Nat → List String → ManagerState → ManagerState × Except Failure ProviderInvocation
  | [],_,failedOver,s => (emit (.allExhausted capability.value failedOver) s,.error (exhausted capability total))
  | provider :: rest,number,failedOver,s =>
    let begun := attempt world provider capability number s
    match begun.2 with
    | some exc =>
      failover world request capability total rest (number + 1) (failedOver ++ [provider.name])
        (onFailure provider capability exc begun.1)
    | none =>
      match invoke provider request (world.answers s.invoked.length provider.name) with
      | .exception text => (begun.1,.error (.escaped text))
      | .reply (.response response) =>
        let s := recordReply world provider (.response response) begun.1
        (onSuccess provider capability response s,.ok (served provider response number failedOver))
      | .reply (.error exc) =>
        let s := recordReply world provider (.error exc) begun.1
        failover world request capability total rest (number + 1) (failedOver ++ [provider.name])
          (onFailure provider capability exc s)

def complete (world : World) (request : LLMRequest) (capability : Capability) (order : Option (List String))
    (s : ManagerState) : ManagerState × Except Failure ProviderInvocation :=
  let chosen := candidates world capability order s
  if chosen.2 = [] then
    (emit (.allExhausted capability.value []) chosen.1,
      .error (.noProviderAvailable ("no available provider supports capability " ++ Text.repr capability.value)))
  else failover world request capability chosen.2.length chosen.2 1 [] chosen.1

/-! ### What each function leaves alone -/

@[simp] theorem emit_health (event : ProviderEvent) (s : ManagerState) : (emit event s).health = s.health := rfl

@[simp] theorem emit_invoked (event : ProviderEvent) (s : ManagerState) : (emit event s).invoked = s.invoked := rfl

@[simp] theorem setHealth_invoked (provider : Provider) (health : ProviderHealth) (s : ManagerState) :
    (setHealth provider health s).invoked = s.invoked := rfl

@[simp] theorem setHealth_self (provider : Provider) (health : ProviderHealth) (s : ManagerState) :
    (setHealth provider health s).health provider.name = health := by
  simp [setHealth]

theorem setHealth_other {provider : Provider} {name : String} (other : name ≠ provider.name) (health : ProviderHealth)
    (s : ManagerState) : (setHealth provider health s).health name = s.health name := by
  simp [setHealth,other]

theorem rest_names {provider : Provider} {rest : List Provider} (distinct : ((provider :: rest).map Provider.name).Nodup) :
    ∀ other ∈ rest, other.name ≠ provider.name := by
  intro other member same
  rw [List.map_cons,List.nodup_cons] at distinct
  exact distinct.1 (same ▸ List.mem_map_of_mem member)

/-- A check of one provider leaves those after it. -/
theorem setHealth_rest {provider : Provider} {rest : List Provider} {s t : ManagerState}
    (distinct : ((provider :: rest).map Provider.name).Nodup) (health : ProviderHealth)
    (same : ∀ other ∈ provider :: rest, t.health other.name = s.health other.name) :
    ∀ other ∈ rest, (setHealth provider health t).health other.name = s.health other.name := by
  intro other member
  rw [setHealth_other (rest_names distinct other member)]
  exact same other (List.mem_cons_of_mem _ member)

@[simp] theorem recordReply_invoked (world : World) (provider : Provider) (reply : Reply) (s : ManagerState) :
    (recordReply world provider reply s).invoked = s.invoked := rfl

@[simp] theorem recordReply_reads (world : World) (provider : Provider) (reply : Reply) (s : ManagerState) :
    (recordReply world provider reply s).reads = s.reads + 1 := rfl

@[simp] theorem recordReply_self (world : World) (provider : Provider) (reply : Reply) (s : ManagerState) :
    (recordReply world provider reply s).health provider.name =
      record provider.profile (s.health provider.name) reply (now world provider s) :=
  setHealth_self provider _ s

theorem recordReply_other (world : World) {provider : Provider} {name : String} (other : name ≠ provider.name)
    (reply : Reply) (s : ManagerState) : (recordReply world provider reply s).health name = s.health name :=
  setHealth_other other _ s

@[simp] theorem onFailure_health (provider : Provider) (capability : Capability) (exc : ProviderError)
    (s : ManagerState) : (onFailure provider capability exc s).health = s.health := by
  simp only [onFailure]
  split_ifs <;> rfl

@[simp] theorem onFailure_reads (provider : Provider) (capability : Capability) (exc : ProviderError)
    (s : ManagerState) : (onFailure provider capability exc s).reads = s.reads := by
  simp only [onFailure]
  split_ifs <;> rfl

@[simp] theorem onFailure_invoked (provider : Provider) (capability : Capability) (exc : ProviderError)
    (s : ManagerState) : (onFailure provider capability exc s).invoked = s.invoked := by
  simp only [onFailure]
  split_ifs <;> rfl

@[simp] theorem onSuccess_invoked (provider : Provider) (capability : Capability) (response : LLMResponse)
    (s : ManagerState) : (onSuccess provider capability response s).invoked = s.invoked := rfl

/-- A pass touches one record: it is refreshed if the provider refuses, and the
    invocation is noted if it does not. -/
theorem attempt_cases (world : World) (provider : Provider) (capability : Capability) (number : Nat) (s : ManagerState) :
    let begun := attempt world provider capability number s
    (∀ name, name ≠ provider.name → begun.1.health name = s.health name) ∧ begun.1.reads = s.reads + 1 ∧
    ((∃ exc, begun.2 = some exc ∧ begun.1.invoked = s.invoked ∧
        begun.1.health provider.name = (refresh (s.health provider.name) (now world provider s)).1 ∧
        (refresh (s.health provider.name) (now world provider s)).1.status ≠ .available) ∨
      (begun.2 = none ∧ begun.1.invoked = s.invoked ++ [provider.name] ∧
        begun.1.health provider.name =
          { (refresh (s.health provider.name) (now world provider s)).1 with
            totalRequests := (s.health provider.name).totalRequests + 1 } ∧
        (refresh (s.health provider.name) (now world provider s)).1.status = .available)) := by
  have sameReading : now world provider (emit (.selected provider.name capability.value number) s) =
      now world provider s := rfl
  by_cases available : (refresh (s.health provider.name) (now world provider s)).1.status = .available
  · have begun := beginComplete_available provider.profile available
    simp only [attempt,emit_health,sameReading,begun]
    refine ⟨fun name other => ?_,rfl,.inr ⟨trivial,rfl,?_,available⟩⟩
    · exact setHealth_other other _ _
    · exact setHealth_self provider _ _
  · obtain ⟨exc,begun,_⟩ := beginComplete_refused provider.profile available
    simp only [attempt,emit_health,sameReading,begun]
    refine ⟨fun name other => ?_,rfl,.inl ⟨exc,rfl,rfl,?_,available⟩⟩
    · exact setHealth_other other _ _
    · exact setHealth_self provider _ _

end Hookclose.ProviderManager
