import Hookclose.Vendors
import Mathlib.Data.List.Sort
import Mathlib.Data.String.Basic

/-!
The catalog of providers by name, and the order in which they are tried by
default: higher weight first, then lower cost, then name.
-/
namespace Hookclose.ProviderRegistry
open Hookclose.ProviderState Hookclose.Vendors

/-- The providers in the order of registration; no name occurs twice. -/
structure Registry where
  providers : List Provider
  distinct : (providers.map Provider.name).Nodup

def Registry.empty : Registry := ⟨[],by simp⟩

def Registry.names (registry : Registry) : List String := registry.providers.map Provider.name

/-- A dictionary assignment under the provider's name: it keeps the place of a key
    that is already there. -/
def assign (provider : Provider) (providers : List Provider) : List Provider :=
  if provider.name ∈ providers.map Provider.name then
    providers.map (fun other => if other.name = provider.name then provider else other)
  else providers ++ [provider]

theorem assign_distinct {provider : Provider} {providers : List Provider}
    (distinct : (providers.map Provider.name).Nodup) : ((assign provider providers).map Provider.name).Nodup := by
  unfold assign
  split_ifs with present
  · have names : (providers.map (fun other => if other.name = provider.name then provider else other)).map
        Provider.name = providers.map Provider.name := by
      rw [List.map_map]
      apply List.map_congr_left
      intro other _
      by_cases same : other.name = provider.name
      · simp [same]
      · simp [same]
    rw [names]
    exact distinct
  · rw [List.map_append,List.nodup_append]
    refine ⟨distinct,by simp,?_⟩
    intro name member other isNew same
    rw [List.map_singleton,List.mem_singleton] at isNew
    rw [same,isNew] at member
    exact present member

/-- A name that is taken is an error unless `replace` is given. -/
def Registry.register (registry : Registry) (provider : Provider) (replace : Bool) : Except String Registry :=
  if !replace && decide (provider.name ∈ registry.names) then
    .error ("provider already registered: " ++ Text.repr provider.name)
  else .ok ⟨assign provider registry.providers,assign_distinct registry.distinct⟩

def Registry.get (registry : Registry) (name : String) : Except String Provider :=
  match registry.providers.find? (fun provider => provider.name = name) with
  | some provider => .ok provider
  | none => .error ("no provider registered: " ++ Text.repr name)

/-- The sort key `(-weight, cost_per_1k_tokens, name)`, compared lexicographically. -/
def Precedes (p q : Provider) : Prop :=
  q.profile.weight < p.profile.weight ∨
  (p.profile.weight = q.profile.weight ∧
    (p.profile.costPer1kTokens < q.profile.costPer1kTokens ∨
    (p.profile.costPer1kTokens = q.profile.costPer1kTokens ∧ p.name ≤ q.name)))

instance : DecidableRel Precedes := fun p q => by unfold Precedes; infer_instance

def ordered (providers : List Provider) : List Provider := providers.insertionSort Precedes

def Registry.all (registry : Registry) : List Provider := ordered registry.providers

/-- All providers that declare the capability, in default failover order. -/
def Registry.forCapability (registry : Registry) (capability : Capability) : List Provider :=
  ordered (registry.providers.filter (fun provider => provider.profile.supports capability))

theorem mem_forCapability {registry : Registry} {capability : Capability} {provider : Provider} :
    provider ∈ registry.forCapability capability ↔
      provider ∈ registry.providers ∧ provider.profile.supports capability = true := by
  rw [Registry.forCapability,ordered,List.mem_insertionSort,List.mem_filter]

theorem forCapability_distinct (registry : Registry) (capability : Capability) :
    ((registry.forCapability capability).map Provider.name).Nodup := by
  have sorted := (List.perm_insertionSort Precedes
    (registry.providers.filter (fun provider => provider.profile.supports capability))).map Provider.name
  have sub : ((registry.providers.filter (fun provider => provider.profile.supports capability)).map
      Provider.name).Sublist (registry.providers.map Provider.name) :=
    List.filter_sublist.map Provider.name
  exact sorted.nodup_iff.mpr (sub.nodup registry.distinct)

end Hookclose.ProviderRegistry
