import Hookclose.Failover
import Hookclose.Routing

/-!
Routing and failover agree on the candidates. The engine and the manager select and order
providers apart and share only names: the manager finds a provider for every name of a
decision, keeps the order, and drops only providers that fail its own checks.
-/
namespace Hookclose.RoutedCalls
open Hookclose.ProviderState Hookclose.BaseProvider Hookclose.Vendors Hookclose.ProviderRegistry
open Hookclose.ProviderManager Hookclose.Failover Hookclose.Routing Hookclose.Rankings

/-! ### The manager's candidates -/

/-- A provider is available and has budget at a reading of its clock. -/
def serves (world : World) (s : ManagerState) (provider : Provider) (reading : Nat) : Bool :=
  let checked := isAvailable (s.health provider.name) (world.clock provider.name reading)
  checked.2 && hasBudget provider.profile checked.1

/-- The providers that serve, each checked at a reading of its own. -/
def serving (world : World) (s : ManagerState) (providers : List Provider) : List Provider :=
  ((providers.zipIdx s.reads).filter (fun entry => serves world s entry.1 entry.2)).map Prod.fst

/-- The checks leave the records of the other providers alone, so that each sees its provider
    as it was at the beginning. -/
theorem keepServing_serving {world : World} {providers : List Provider} (distinct : (providers.map Provider.name).Nodup)
    {s t : ManagerState} (same : ∀ provider ∈ providers, t.health provider.name = s.health provider.name) :
    (keepServing world providers t).2 =
      ((providers.zipIdx t.reads).filter (fun entry => serves world s entry.1 entry.2)).map Prod.fst := by
  induction providers generalizing t with
  | nil => rfl
  | cons provider rest ih =>
    have still := setHealth_rest distinct (isAvailable (t.health provider.name) (now world provider t)).1 same
    have later := ih (List.nodup_cons.mp distinct).2 still
    have checked : serves world s provider t.reads =
        ((isAvailable (t.health provider.name) (now world provider t)).2 &&
          hasBudget provider.profile (isAvailable (t.health provider.name) (now world provider t)).1) := by
      rw [serves,← same provider List.mem_cons_self]
      rfl
    simp only [keepServing,List.zipIdx_cons,List.filter_cons,checked]
    split_ifs
    · rw [later]
      rfl
    · exact later

/-- Each name finds its provider. -/
theorem inOrder_named {registry : Registry} {capability : Capability} {names : List String}
    (known : ∀ name ∈ names, ∃ provider ∈ registry.forCapability capability, provider.name = name) :
    (inOrder registry capability (some names)).map Provider.name = names := by
  simp only [inOrder]
  induction names with
  | nil => rfl
  | cons name rest ih =>
    rw [List.filterMap_cons]
    cases found : (registry.forCapability capability).find? (fun provider => provider.name = name) with
    | none =>
      obtain ⟨provider,supporting,named⟩ := known name List.mem_cons_self
      have missing := List.find?_eq_none.mp found provider supporting
      simp [named] at missing
    | some provider =>
      have named : provider.name = name := by simpa using List.find?_some found
      rw [List.map_cons,named,ih (fun other member => known other (List.mem_cons_of_mem _ member))]

/-- The failover loop invokes candidates, in order. -/
theorem failover_called (world : World) (request : LLMRequest) (capability : Capability) (total : Nat)
    (cs : List Provider) (number : Nat) (failedOver : List String) (s : ManagerState) :
    ∃ called, (failover world request capability total cs number failedOver s).1.invoked = s.invoked ++ called ∧
      called.Sublist (cs.map Provider.name) := by
  induction cs generalizing number failedOver s with
  | nil => exact ⟨[],by simp [failover],by simp⟩
  | cons provider rest ih =>
    obtain ⟨_,_,refused | started⟩ := attempt_cases world provider capability number s
    · obtain ⟨exc,raised,invoked,_,_⟩ := refused
      simp only [failover,raised]
      obtain ⟨called,added,within⟩ := ih (number + 1) (failedOver ++ [provider.name])
        (onFailure provider capability exc (attempt world provider capability number s).1)
      exact ⟨called,by rw [added,onFailure_invoked,invoked],within.cons provider.name⟩
    · obtain ⟨started,invoked,_,_⟩ := started
      simp only [failover,started]
      have alone : [provider.name].Sublist ((provider :: rest).map Provider.name) := by simp
      cases invoke provider request (world.answers s.invoked.length provider.name) with
      | exception text => exact ⟨[provider.name],invoked,alone⟩
      | reply reply =>
        cases reply with
        | response response => exact ⟨[provider.name],by simp [invoked],alone⟩
        | error exc =>
          obtain ⟨called,added,within⟩ := ih (number + 1) (failedOver ++ [provider.name])
            (onFailure provider capability exc
              (recordReply world provider (.error exc) (attempt world provider capability number s).1))
          exact ⟨provider.name :: called,by simp [added,invoked],within.cons_cons provider.name⟩

/-- A call invokes providers of its order. -/
theorem complete_called (world : World) (request : LLMRequest) (capability : Capability) (order : Option (List String))
    (s : ManagerState) : ∃ called, (complete world request capability order s).1.invoked = s.invoked ++ called ∧
      called.Sublist ((inOrder world.registry capability order).map Provider.name) := by
  have invoked := candidates_invoked world capability order s
  by_cases none : (candidates world capability order s).2 = []
  · exact ⟨[],by simp [complete,none,invoked],by simp⟩
  · simp only [complete,if_neg none]
    obtain ⟨called,added,within⟩ := failover_called world request capability (candidates world capability order s).2.length
      (candidates world capability order s).2 1 [] (candidates world capability order s).1
    exact ⟨called,by rw [added,invoked],within.trans ((keepServing_sublist world _ s).map Provider.name)⟩

/-! ### Decisions and candidates -/

/-- The order that a decision gives: the eligible providers, each once, by score and name. -/
structure Ordered (registry : Registry) (request : RoutingRequest) (decision : RoutingDecision) : Prop where
  distinct : decision.orderedProviders.Nodup
  exact : ∀ name, name ∈ decision.orderedProviders ↔
    ∃ provider ∈ registry.providers, provider.name = name ∧ Eligible registry request provider
  scored : decision.orderedProviders = decision.providerScores.map Prod.fst
  sorted : decision.providerScores.Pairwise (fun first second =>
    second.2 < first.2 ∨ (first.2 = second.2 ∧ first.1 < second.1))

/-- A manager finds a provider for each name and drops those that do not serve. -/
def Followed (world : World) (capability : Capability) (names : List String) (s : ManagerState) : Prop :=
  ∃ providers, providers.map Provider.name = names ∧ (∀ provider ∈ providers, provider ∈ world.registry.providers) ∧
    (candidates world capability (some names) s).2 = serving world s providers

section
variable (fl : ℚ → ℚ) (policy : RoutingPolicy)

theorem decide_order (registry : Registry) (request : RoutingRequest) :
    Ordered registry request (Routing.decide fl policy registry request) := by
  have distinct : (Routing.decide fl policy registry request).orderedProviders.Nodup :=
    ordered_names.nodup_iff.mpr eligible_distinct
  refine ⟨distinct,?_,decide_ordered,?_⟩
  · intro name
    rw [ordered_names.mem_iff,List.mem_map]
    constructor
    · rintro ⟨provider,member,named⟩
      obtain ⟨registered,isEligible⟩ := mem_eligible.mp member
      exact ⟨provider,registered,named,isEligible⟩
    · rintro ⟨provider,registered,named,isEligible⟩
      exact ⟨provider,mem_eligible.mpr ⟨registered,isEligible⟩,named⟩
  · rw [decide_ordered,List.Nodup,List.pairwise_map] at distinct
    have sorted : (Routing.decide fl policy registry request).providerScores.Pairwise Outranks := by
      rw [decide_scores]
      exact rank_sorted
    apply (sorted.and distinct).imp
    rintro first second ⟨higher | ⟨same,names⟩,differ⟩
    · exact .inl higher
    · exact .inr ⟨same,lt_of_le_of_ne names differ⟩

/-- The manager knows every name of a decision. -/
theorem decide_named (registry : Registry) (request : RoutingRequest) :
    (inOrder registry request.capability (some (Routing.decide fl policy registry request).orderedProviders)).map
      Provider.name = (Routing.decide fl policy registry request).orderedProviders := by
  apply inOrder_named
  intro name member
  obtain ⟨provider,registered,named,supports,_⟩ := ((decide_order fl policy registry request).exact name).mp member
  exact ⟨provider,mem_forCapability.mpr ⟨registered,supports⟩,named⟩

theorem decide_followed (world : World) (request : RoutingRequest) (s : ManagerState) :
    Followed world request.capability (Routing.decide fl policy world.registry request).orderedProviders s := by
  have named := decide_named fl policy world.registry request
  refine ⟨_,named,fun provider member => inOrder_registered member,?_⟩
  apply keepServing_serving _ (fun provider _ => rfl)
  rw [named]
  exact (decide_order fl policy world.registry request).distinct

/-- Routing and failover agree on the candidates, so that a routed call invokes eligible
    providers only. -/
theorem routing_agrees (world : World) (request : RoutingRequest) (s : ManagerState) :
    let decision := Routing.decide fl policy world.registry request
    Ordered world.registry request decision ∧ Followed world request.capability decision.orderedProviders s ∧
    ∀ llmRequest, ∃ called,
      (complete world llmRequest request.capability (some decision.orderedProviders) s).1.invoked = s.invoked ++ called ∧
      ∀ name ∈ called, ∃ provider ∈ world.registry.providers, provider.name = name ∧
        Eligible world.registry request provider := by
  have order := decide_order fl policy world.registry request
  refine ⟨order,decide_followed fl policy world request s,?_⟩
  intro llmRequest
  obtain ⟨called,added,within⟩ := complete_called world llmRequest request.capability
    (some (Routing.decide fl policy world.registry request).orderedProviders) s
  rw [decide_named] at within
  exact ⟨called,added,fun name member => (order.exact name).mp (within.subset member)⟩

end

end Hookclose.RoutedCalls
