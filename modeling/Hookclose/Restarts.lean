import Hookclose.SavedHealth

/-!
The composition root, and what of a manager's health a second runtime over the same
store gets to see. A manager writes its store and nothing reads it: the second runtime
starts from fresh records. So it agrees with the first on the candidates exactly when
at the restart every provider of the first is available, and it respects the saved
cooldowns exactly when they are all over.
-/
namespace Hookclose.Restarts
open Hookclose.ProviderState Hookclose.BaseProvider Hookclose.Vendors Hookclose.ProviderRegistry
open Hookclose.ProviderManager Hookclose.Failover Hookclose.SavedHealth Hookclose.Runs

/-! ### The composition root -/

/-- Which providers to wire; what else a configuration says goes to the adapters. -/
structure ProvidersConfig where
  openrouterApiKey : Option String := none
  openaiApiKey : Option String := none
  enableLocalFallback : Bool := true

def generalCaps : Finset Capability := {.codeGeneration,.review,.analysis,.extraction}

def openrouterProfile : ProviderProfile where
  name := "openrouter"
  capabilities := generalCaps
  costPer1kTokens := 3/10
  contextWindow := 128000

/-- A key is there and not empty. -/
def isSet : Option String → Bool
  | none => false
  | some key => key ≠ ""

/-- Registers the configured providers; always includes a fallback to serve. -/
def buildProviderRegistry (config : ProvidersConfig) : Except String Registry := do
  let registry := Registry.empty
  let registry ← if isSet config.openrouterApiKey then
      registry.register (openAIProvider (some openrouterProfile)) false
    else pure registry
  let registry ← if isSet config.openaiApiKey then registry.register (openAIProvider none) false else pure registry
  if config.enableLocalFallback || registry.names.isEmpty then registry.register (localProvider false none) false
  else pure registry

/-- The parts of an assembled runtime that serve providers. -/
structure Runtime where
  registry : Registry
  providers : ManagerState
  providerNames : List String

/-- The manager gets the store and keeps it; the providers are new. -/
def buildRuntime (config : ProvidersConfig) (stateStore : String → Option ProviderHealth) : Except String Runtime := do
  let registry ← buildProviderRegistry config
  pure { registry := registry, providers := { store := stateStore }, providerNames := registry.names }

/-- The providers that a configuration wires, in the order of registration. -/
def wired (config : ProvidersConfig) : List Provider :=
  (if isSet config.openrouterApiKey then [openAIProvider (some openrouterProfile)] else []) ++
    (if isSet config.openaiApiKey then [openAIProvider none] else []) ++
    (if config.enableLocalFallback || !(isSet config.openrouterApiKey || isSet config.openaiApiKey) then
      [localProvider false none] else [])

/-- No two of them have one name, so that no registration is refused. -/
theorem buildProviderRegistry_wired (config : ProvidersConfig) :
    ∃ registry, buildProviderRegistry config = .ok registry ∧ registry.providers = wired config := by
  unfold buildProviderRegistry wired
  cases isSet config.openrouterApiKey <;> cases isSet config.openaiApiKey <;> cases config.enableLocalFallback <;>
    exact ⟨_,rfl,rfl⟩

/-- Every wired provider has an adapter or a stub, some capability and no token budget. -/
theorem wired_profile {config : ProvidersConfig} {provider : Provider} (member : provider ∈ wired config) :
    provider.vendor ≠ .custom ∧ (∃ capability, provider.profile.supports capability = true) ∧
      provider.profile.dailyTokenBudget = none := by
  have kinds : provider = openAIProvider (some openrouterProfile) ∨ provider = openAIProvider none ∨
      provider = localProvider false none := by
    unfold wired at member
    grind
  rcases kinds with rfl | rfl | rfl
  · exact ⟨by decide,⟨.review,by decide⟩,rfl⟩
  · exact ⟨by decide,⟨.review,by decide⟩,rfl⟩
  · exact ⟨by decide,⟨.extraction,by decide⟩,rfl⟩

/-! ### Candidates at an instant -/

/-- The names of the candidates for a capability, all checked at one instant. -/
def candidateNames (world : World) (capability : Capability) (now : Instant) (s : ManagerState) : List String :=
  (candidates { world with clock := fun _ _ => now } capability none s).2.map Provider.name

/-- A provider that would pass the check at an instant. -/
def Available (s : ManagerState) (now : Instant) (provider : Provider) : Prop :=
  (refresh (s.health provider.name) now).1.status = .available

instance (s : ManagerState) (now : Instant) : DecidablePred (Available s now) :=
  fun provider => by unfold Available; infer_instance

/-- Without budgets the check keeps the available providers. -/
theorem keepServing_filter {world : World} {now : Instant} (clock : world.clock = fun _ _ => now) {providers : List Provider}
    (distinct : (providers.map Provider.name).Nodup)
    (unlimited : ∀ provider ∈ providers, provider.profile.dailyTokenBudget = none)
    {s t : ManagerState} (same : ∀ provider ∈ providers, t.health provider.name = s.health provider.name) :
    (keepServing world providers t).2 = providers.filter (Available s now) := by
  induction providers generalizing t with
  | nil => rfl
  | cons provider rest ih =>
    have checked : isAvailable (t.health provider.name) (ProviderManager.now world provider t) =
        isAvailable (s.health provider.name) now := by
      rw [same provider List.mem_cons_self,ProviderManager.now,clock]
    have budget : ∀ health, hasBudget provider.profile health = true := by
      intro health
      rw [hasBudget_iff,unlimited provider List.mem_cons_self]
      intro limit contrary
      cases contrary
    have still := setHealth_rest distinct (isAvailable (s.health provider.name) now).1 same
    have later := ih (List.nodup_cons.mp distinct).2 (fun other member => unlimited other (List.mem_cons_of_mem _ member))
      still
    have decides : (isAvailable (s.health provider.name) now).2 = decide (Available s now provider) := rfl
    simp only [keepServing,checked,budget,Bool.and_true,decides,decide_eq_true_eq,List.filter_cons]
    split_ifs
    · rw [later]
    · exact later

section
variable {config : ProvidersConfig} {world : World}

theorem candidateNames_wired (providers : world.registry.providers = wired config) (capability : Capability) (now : Instant)
    (s : ManagerState) : candidateNames world capability now s =
      ((world.registry.forCapability capability).filter (Available s now)).map Provider.name := by
  have unlimited : ∀ provider ∈ world.registry.forCapability capability, provider.profile.dailyTokenBudget = none := by
    intro provider member
    have registered := (mem_forCapability.mp member).1
    rw [providers] at registered
    exact (wired_profile registered).2.2
  have clock : ({ world with clock := fun _ _ => now } : World).clock = fun _ _ => now := rfl
  have kept := keepServing_filter clock (forCapability_distinct world.registry capability) unlimited
    (fun provider _ => rfl (a := s.health provider.name))
  exact congrArg (List.map Provider.name) kept

/-- A manager with fresh providers can call them all. -/
theorem candidateNames_fresh (providers : world.registry.providers = wired config) (capability : Capability) (now : Instant)
    (store : String → Option ProviderHealth) :
    candidateNames world capability now { store := store } =
      (world.registry.forCapability capability).map Provider.name := by
  rw [candidateNames_wired providers,List.filter_eq_self.mpr]
  intro provider _
  exact decide_eq_true (show Available { store := store } now provider from rfl)

/-- An available provider stays available, a waiting one may become so. -/
theorem available_later {s : ManagerState} {now later : Instant} (passes : now ≤ later) {provider : Provider}
    (available : Available s now provider) : Available s later provider := by
  unfold Available at available ⊢
  rcases refresh_cases (s.health provider.name) now with same | ⟨deadline,until_,expirable,elapsed,_⟩
  · rw [same] at available
    rw [refresh_available later available]
    exact available
  · rw [refresh_elapsed until_ expirable (elapsed.trans passes)]

/-! ### Restarts -/

/-- What of a manager's health survives a restart: at every later time the second manager
    has the candidates that the first would have, and a provider that the store has as
    offline or rate limited is none of them before its saved cooldown is over. -/
structure Survives (world : World) (first second : ManagerState) (restart : Instant) : Prop where
  same : ∀ capability now, restart ≤ now → candidateNames world capability now second = candidateNames world capability now first
  waits : ∀ name saved deadline, second.store name = some saved →
    saved.status = .offline ∨ saved.status = .rateLimited → saved.cooldownUntil = some deadline →
    ∀ capability now, restart ≤ now → now < deadline → name ∉ candidateNames world capability now second

/-- Nothing has to survive: every provider is available, and no saved cooldown is still running. -/
structure NothingPending (world : World) (s : ManagerState) (restart : Instant) : Prop where
  available : ∀ provider ∈ world.registry.providers, Available s restart provider
  elapsed : ∀ provider ∈ world.registry.providers, ∀ saved deadline, s.store provider.name = some saved →
    saved.status = .offline ∨ saved.status = .rateLimited → saved.cooldownUntil = some deadline → deadline ≤ restart

theorem available_of_same (providers : world.registry.providers = wired config) {s : ManagerState} {restart : Instant}
    (same : ∀ capability, candidateNames world capability restart { store := s.store } =
      candidateNames world capability restart s) {provider : Provider} (registered : provider ∈ world.registry.providers) :
    Available s restart provider := by
  have wiredHere := registered
  rw [providers] at wiredHere
  obtain ⟨_,⟨capability,supports⟩,_⟩ := wired_profile wiredHere
  have listed := mem_forCapability.mpr ⟨registered,supports⟩
  have member : provider.name ∈ candidateNames world capability restart s := by
    rw [← same capability,candidateNames_fresh providers]
    exact List.mem_map_of_mem listed
  rw [candidateNames_wired providers] at member
  obtain ⟨other,kept,named⟩ := List.mem_map.mp member
  obtain ⟨supporting,available⟩ := List.mem_filter.mp kept
  have distinct := forCapability_distinct world.registry capability
  have equal : other = provider := List.inj_on_of_nodup_map distinct supporting listed named
  rw [← equal]
  exact of_decide_eq_true available

theorem survives_iff (providers : world.registry.providers = wired config) (s : ManagerState) (restart : Instant) :
    Survives world s { store := s.store } restart ↔ NothingPending world s restart := by
  constructor
  · intro survives
    refine ⟨?_,?_⟩
    · intro provider registered
      exact available_of_same providers (fun capability => survives.same capability restart le_rfl) registered
    · intro provider registered saved deadline stored status until_
      by_contra running
      have wiredHere := registered
      rw [providers] at wiredHere
      obtain ⟨_,⟨capability,supports⟩,_⟩ := wired_profile wiredHere
      refine survives.waits provider.name saved deadline stored status until_ capability restart le_rfl (not_le.mp running) ?_
      rw [candidateNames_fresh providers]
      exact List.mem_map_of_mem (mem_forCapability.mpr ⟨registered,supports⟩)
  · intro nothing
    constructor
    · intro capability now later
      rw [candidateNames_fresh providers,candidateNames_wired providers,List.filter_eq_self.mpr]
      intro provider member
      exact decide_eq_true (available_later later (nothing.available provider (mem_forCapability.mp member).1))
    · intro name saved deadline stored status until_ capability now later before member
      rw [candidateNames_fresh providers] at member
      obtain ⟨provider,listed,rfl⟩ := List.mem_map.mp member
      have ended := nothing.elapsed provider (mem_forCapability.mp listed).1 saved deadline stored status until_
      exact absurd (ended.trans later) (not_le.mpr before)

end

/-- A second runtime over the store of the first, after any calls: health survives exactly
    when at the restart all providers of the first are available and all cooldowns that
    the store has are over. -/
theorem health_survives_iff (config : ProvidersConfig) (store : String → Option ProviderHealth) (clock : Nat → Instant)
    (answers : Nat → String → Outcome) (calls : List ManagerCall) (restart : Instant) :
    ∃ first, buildRuntime config store = .ok first ∧
      let world : World := ⟨first.registry,fun _ => clock,answers⟩
      let s := run (step world) first.providers calls
      ∃ second, buildRuntime config s.store = .ok second ∧ second.registry = first.registry ∧
        (Survives world s second.providers restart ↔ NothingPending world s restart) := by
  obtain ⟨registry,built,providers⟩ := buildProviderRegistry_wired config
  have runtime : ∀ store, buildRuntime config store = .ok ⟨registry,{ store := store },registry.names⟩ := by
    intro store
    simp only [buildRuntime,built]
    rfl
  refine ⟨_,runtime store,_,runtime _,rfl,?_⟩
  let world : World := ⟨registry,fun _ => clock,answers⟩
  have wiredRegistry : world.registry.providers = wired config := providers
  exact survives_iff wiredRegistry _ restart

/-! ### A store that began empty -/

/-- A cooldown in the store is that of the live record, or some check has found it over. -/
def Recalled (world : World) (s : ManagerState) : Prop :=
  ∀ name saved deadline, s.store name = some saved → Expirable saved.status → saved.cooldownUntil = some deadline →
    s.health name = saved ∨ ∃ reading, reading < s.reads ∧ deadline ≤ world.clock name reading

theorem keepServing_reads (world : World) (providers : List Provider) (s : ManagerState) :
    (keepServing world providers s).1.reads = s.reads + providers.length := by
  induction providers generalizing s with
  | nil => rfl
  | cons provider rest ih =>
    have next := ih (setHealth provider (isAvailable (s.health provider.name) (ProviderManager.now world provider s)).1 s)
    have same : (keepServing world (provider :: rest) s).1 = (keepServing world rest
        (setHealth provider (isAvailable (s.health provider.name) (ProviderManager.now world provider s)).1 s)).1 := by
      simp only [keepServing]
      split_ifs <;> rfl
    rw [same,next,List.length_cons]
    show s.reads + 1 + rest.length = s.reads + (rest.length + 1)
    omega

theorem failover_reads (world : World) (request : LLMRequest) (capability : Capability) (total : Nat) (cs : List Provider)
    (number : Nat) (failedOver : List String) (s : ManagerState) :
    s.reads ≤ (failover world request capability total cs number failedOver s).1.reads := by
  induction cs generalizing number failedOver s with
  | nil => exact le_rfl
  | cons provider rest ih =>
    obtain ⟨_,reads,_⟩ := attempt_cases world provider capability number s
    simp only [failover]
    split
    · refine le_trans ?_ (ih _ _ _)
      rw [onFailure_reads,reads]
      exact Nat.le_succ _
    · split
      · exact reads ▸ Nat.le_succ _
      · rw [onSuccess_reads,recordReply_reads,reads]
        omega
      · refine le_trans ?_ (ih _ _ _)
        rw [onFailure_reads,recordReply_reads,reads]
        omega

theorem step_reads (world : World) (s : ManagerState) (call : ManagerCall) :
    s.reads + (inOrder world.registry call.capability call.order).length ≤ (step world s call).reads := by
  have drawn : (candidates world call.capability call.order s).1.reads =
      s.reads + (inOrder world.registry call.capability call.order).length := keepServing_reads world _ s
  unfold step
  rw [← drawn]
  by_cases none : (candidates world call.capability call.order s).2 = []
  · simp only [complete,if_pos none]
    exact le_rfl
  · simp only [complete,if_neg none]
    exact failover_reads world _ _ _ _ 1 [] _

theorem step_recalled {world : World} {s : ManagerState} {call : ManagerCall} (recalled : Recalled world s)
    (ends : Ends world s call) : Recalled world (step world s call) := by
  intro name saved deadline stored expirable until_
  have later := step_reads world s call
  have saves := step_saved ends name
  by_cases visited : Visited world s call name
  · rw [saves.saves visited,Option.some.injEq] at stored
    exact .inl stored
  · obtain ⟨store,health⟩ := saves.untouched visited
    rw [store,candidates_store] at stored
    rw [health]
    rcases recalled name saved deadline stored expirable until_ with live | ⟨reading,earlier,ended⟩
    · rcases keepServing_expires world (inOrder world.registry call.capability call.order) s name with
        ⟨⟨position,found,_,other,set,passed⟩,_⟩ | ⟨_,same⟩
      · obtain ⟨within,_⟩ := List.getElem?_eq_some_iff.mp found
        rw [List.length_map] at within
        rw [live,until_] at set
        cases set
        exact .inr ⟨_,by omega,passed⟩
      · exact .inl (same.trans live)
    · exact .inr ⟨reading,by omega,ended⟩

/-- After calls on a store that began empty only the live health matters: a saved cooldown
    that is still running belongs to a provider that is not available. -/
theorem nothingPending_iff_available {config : ProvidersConfig} {world : World}
    (providers : world.registry.providers = wired config) {calls : List ManagerCall} {restart : Instant}
    (later : ∀ name reading, reading < (run (step world) {} calls).reads → world.clock name reading ≤ restart) :
    NothingPending world (run (step world) {} calls) restart ↔
      ∀ provider ∈ world.registry.providers, Available (run (step world) {} calls) restart provider := by
  have contract : Contract world world.registry.providers := by
    intro provider registered custom
    rw [providers] at registered
    exact absurd custom (wired_profile registered).1
  have recalled : Always (step world) (Recalled world) {} calls := by
    refine always_of_step _ (fun s call recalled => step_recalled recalled (ends_of_contract contract)) ?_ calls
    intro name saved deadline stored
    cases stored
  refine ⟨NothingPending.available,fun available => ⟨available,?_⟩⟩
  intro provider registered saved deadline stored status until_
  have expirable : Expirable saved.status := by
    rcases status with offline | limited
    · exact .inr (.inr offline)
    · exact .inr (.inl limited)
  rcases recalled.last provider.name saved deadline stored expirable until_ with live | ⟨reading,earlier,ended⟩
  · have serving := available provider registered
    unfold Available at serving
    rw [live] at serving
    by_contra running
    rcases refresh_cases saved restart with same | ⟨other,set,_,passed,_⟩
    · rw [same] at serving
      rcases status with offline | limited
      · rw [offline] at serving
        cases serving
      · rw [limited] at serving
        cases serving
    · rw [until_] at set
      cases set
      exact running passed
  · exact ended.trans (later provider.name reading earlier)

/-- OpenAI with a local fallback. -/
def openAIConfig : ProvidersConfig := { openaiApiKey := some "sk-1" }

/-- Whatever is asked is rate limited; the local provider has nothing to ask. -/
def limitedAnswers (_ : Nat) (_ : String) : Outcome := .reply (.error (providerRateLimited "429"))

/-- Seconds after OpenAI has been rate limited it is a candidate of the second runtime,
    and not of the first. -/
theorem openai_forgotten : ∃ first, buildRuntime openAIConfig (fun _ => none) = .ok first ∧
    let world : World := ⟨first.registry,fun _ reading => reading * 1000000,limitedAnswers⟩
    let s := run (step world) first.providers [⟨⟨"m",[]⟩,.extraction,none⟩]
    ∃ second, buildRuntime openAIConfig s.store = .ok second ∧ ¬ Survives world s second.providers 6000000 := by
  refine ⟨⟨⟨[openAIProvider none,localProvider false none],by decide⟩,{},["openai","local"]⟩,rfl,?_⟩
  intro world s
  refine ⟨⟨⟨[openAIProvider none,localProvider false none],by decide⟩,{ store := s.store },["openai","local"]⟩,rfl,?_⟩
  intro survives
  have first : candidateNames world .extraction 6000000 s = ["local"] := by decide +kernel
  have second : candidateNames world .extraction 6000000 { store := s.store } = ["openai","local"] := by decide +kernel
  have same := survives.same .extraction 6000000 le_rfl
  rw [first,second] at same
  exact absurd same (by decide)

end Hookclose.Restarts
