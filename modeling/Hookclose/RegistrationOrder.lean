import Hookclose.RoutedCalls

/-!
The order of registration does not matter. Both sort keys order any two providers of
different names one way, and nothing else of a registry's order reaches a decision or a
call: the engine and the manager see the supporting providers sorted.
-/
namespace Hookclose.RegistrationOrder
open Hookclose.ProviderState Hookclose.Vendors Hookclose.ProviderRegistry Hookclose.ProviderManager
open Hookclose.Routing Hookclose.Rankings

/-! ### The order of a registry -/

instance : Std.Total Precedes where
  total p q := by
    unfold Precedes
    rcases lt_trichotomy p.profile.weight q.profile.weight with lighter | same | heavier
    · exact .inr (.inl lighter)
    · rcases lt_trichotomy p.profile.costPer1kTokens q.profile.costPer1kTokens with cheaper | equal | dearer
      · exact .inl (.inr ⟨same,.inl cheaper⟩)
      · rcases le_total p.name q.name with names | names
        · exact .inl (.inr ⟨same,.inr ⟨equal,names⟩⟩)
        · exact .inr (.inr ⟨same.symm,.inr ⟨equal.symm,names⟩⟩)
      · exact .inr (.inr ⟨same.symm,.inl dearer⟩)
    · exact .inl (.inl heavier)

instance : IsTrans Provider Precedes where
  trans p q r := by
    rintro (heavier | ⟨same,costs⟩) (heavierStill | ⟨equal,later⟩)
    · exact .inl (heavierStill.trans heavier)
    · exact .inl (equal ▸ heavier)
    · exact .inl (same ▸ heavierStill)
    · refine .inr ⟨same.trans equal,?_⟩
      rcases costs with cheaper | ⟨sameCost,names⟩
      · rcases later with cheaperStill | ⟨equalCost,_⟩
        · exact .inl (cheaper.trans cheaperStill)
        · exact .inl (equalCost ▸ cheaper)
      · rcases later with cheaperStill | ⟨equalCost,laterNames⟩
        · exact .inl (sameCost ▸ cheaperStill)
        · exact .inr ⟨sameCost.trans equalCost,names.trans laterNames⟩

/-- Providers that precede each other have one name. -/
theorem precedes_name {p q : Provider} (forward : Precedes p q) (backward : Precedes q p) : p.name = q.name := by
  unfold Precedes at forward backward
  rcases forward with heavier | ⟨same,costs⟩
  · rcases backward with lighter | ⟨equal,_⟩
    · exact absurd heavier lighter.asymm
    · exact absurd heavier (by simp [equal])
  · rcases backward with lighter | ⟨equal,reverse⟩
    · exact absurd lighter (by simp [same])
    · rcases costs with cheaper | ⟨sameCost,names⟩
      · rcases reverse with dearer | ⟨equalCost,_⟩
        · exact absurd cheaper dearer.asymm
        · exact absurd cheaper (by simp [equalCost])
      · rcases reverse with dearer | ⟨_,reverseNames⟩
        · exact absurd dearer (by simp [sameCost])
        · exact names.antisymm reverseNames

theorem precedes_decides {providers : List Provider} (distinct : (providers.map Provider.name).Nodup) :
    Decides Precedes providers := by
  intro p isFirst q isSecond forward backward
  exact List.inj_on_of_nodup_map distinct isFirst isSecond (precedes_name forward backward)

theorem forCapability_perm {one two : Registry} (same : one.providers.Perm two.providers) (capability : Capability) :
    one.forCapability capability = two.forCapability capability := by
  have kept := same.filter (fun provider => provider.profile.supports capability)
  have distinct : ((one.providers.filter (fun provider => provider.profile.supports capability)).map
      Provider.name).Nodup :=
    (List.filter_sublist.map Provider.name).nodup one.distinct
  exact insertionSort_perm kept (precedes_decides distinct)

/-! ### Registration -/

/-- One registration after the other, none with `replace`. -/
def registerAll (providers : List Provider) : Except String Registry :=
  providers.foldlM (fun registry provider => registry.register provider false) .empty

theorem registerAll_from {providers : List Provider} {registry : Registry}
    (distinct : ((registry.providers ++ providers).map Provider.name).Nodup) :
    ∃ filled, providers.foldlM (fun registry provider => Registry.register registry provider false) registry =
      .ok filled ∧ filled.providers = registry.providers ++ providers := by
  induction providers generalizing registry with
  | nil => exact ⟨registry,rfl,by simp⟩
  | cons provider rest ih =>
    have fresh : provider.name ∉ registry.names := by
      rw [List.map_append,List.map_cons] at distinct
      intro taken
      exact (List.nodup_append.mp distinct).2.2 provider.name taken provider.name List.mem_cons_self rfl
    have assigned : assign provider registry.providers = registry.providers ++ [provider] := if_neg fresh
    have registered : registry.register provider false =
        .ok ⟨assign provider registry.providers,assign_distinct registry.distinct⟩ := by
      simp [Registry.register,fresh]
    obtain ⟨filled,rest,providers⟩ :=
      @ih ⟨assign provider registry.providers,assign_distinct registry.distinct⟩ (by simpa [assigned] using distinct)
    refine ⟨filled,?_,by simpa [assigned] using providers⟩
    rw [List.foldlM_cons,registered]
    exact rest

theorem registerAll_providers {providers : List Provider} (distinct : (providers.map Provider.name).Nodup) :
    ∃ registry, registerAll providers = .ok registry ∧ registry.providers = providers := by
  obtain ⟨registry,registered,filled⟩ := @registerAll_from providers .empty (by simpa [Registry.empty] using distinct)
  exact ⟨registry,registered,by simpa [Registry.empty] using filled⟩

/-! ### Decisions and calls -/

/-- Two registries that nothing tells apart: neither a lookup nor a decision, nor a call of
    managers over them, in any state and with any outcomes. -/
structure Alike (one two : Registry) : Prop where
  supporting : ∀ capability, one.forCapability capability = two.forCapability capability
  decisions : ∀ fl policy request, Routing.decide fl policy one request = Routing.decide fl policy two request
  calls : ∀ clock answers request capability order s,
    complete ⟨one,clock,answers⟩ request capability order s = complete ⟨two,clock,answers⟩ request capability order s

section
variable {one two : Registry} {clock : String → Nat → Instant} {answers : Nat → String → Outcome}

theorem keepServing_registry (providers : List Provider) (s : ManagerState) :
    keepServing ⟨one,clock,answers⟩ providers s = keepServing ⟨two,clock,answers⟩ providers s := by
  induction providers generalizing s with
  | nil => rfl
  | cons provider rest ih =>
    simp only [keepServing,ih]
    rfl

theorem failover_registry (request : LLMRequest) (capability : Capability) (total : Nat) (cs : List Provider)
    (number : Nat) (failedOver : List String) (s : ManagerState) :
    failover ⟨one,clock,answers⟩ request capability total cs number failedOver s =
      failover ⟨two,clock,answers⟩ request capability total cs number failedOver s := by
  induction cs generalizing number failedOver s with
  | nil => rfl
  | cons provider rest ih =>
    simp only [failover,ih]
    rfl

theorem alike_of_supporting (supporting : ∀ capability, one.forCapability capability = two.forCapability capability) :
    Alike one two := by
  refine ⟨supporting,?_,?_⟩
  · intro fl policy request
    simp only [Routing.decide,eligible,supporting]
  · intro clock answers request capability order s
    have ordered : inOrder one capability order = inOrder two capability order := by
      simp only [inOrder,supporting]
    have chosen : candidates ⟨one,clock,answers⟩ capability order s = candidates ⟨two,clock,answers⟩ capability order s := by
      simp only [candidates,ordered]
      exact keepServing_registry _ s
    simp only [complete,chosen,@failover_registry one two]

end

/-- Providers of distinct names can be registered in any order: the registries are alike. -/
theorem registration_order {first second : List Provider} (same : first.Perm second)
    (distinct : (first.map Provider.name).Nodup) :
    ∃ one two, registerAll first = .ok one ∧ registerAll second = .ok two ∧ Alike one two := by
  obtain ⟨one,registeredOne,filledOne⟩ := registerAll_providers distinct
  obtain ⟨two,registeredTwo,filledTwo⟩ := registerAll_providers ((same.map Provider.name).nodup_iff.mp distinct)
  have providers : one.providers.Perm two.providers := by
    rw [filledOne,filledTwo]
    exact same
  exact ⟨one,two,registeredOne,registeredTwo,alike_of_supporting (forCapability_perm providers)⟩

/-- The vendors' default providers, in two orders. -/
theorem vendors_any_order : ∃ one two,
    registerAll [claudeProvider none,openCodeProvider none,localProvider false none] = .ok one ∧
    registerAll [localProvider false none,claudeProvider none,openCodeProvider none] = .ok two ∧ Alike one two := by
  apply registration_order
  · exact @List.perm_append_comm _ [claudeProvider none,openCodeProvider none] [localProvider false none]
  · decide

end Hookclose.RegistrationOrder
