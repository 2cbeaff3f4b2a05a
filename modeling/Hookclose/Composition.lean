import Hookclose.Architect
import Hookclose.FailureAnalyzer
import Hookclose.Restarts
import Hookclose.StatusCauses

/-!
The assembled runtime: which providers a configuration registers, and the adapter through
which the real ones call the vendor's client. The adapter turns whatever the client raises
into the errors that a provider knows, so in every run of the runtime a status has its cause
in the client, and only there.
-/
namespace Hookclose.Composition
open Hookclose.ProviderState Hookclose.BaseProvider Hookclose.Vendors Hookclose.ProviderRegistry
open Hookclose.ProviderManager Hookclose.Failover Hookclose.SavedHealth Hookclose.GracefulDegradation
open Hookclose.Restarts Hookclose.StatusCauses Hookclose.Architect Hookclose.Runs

/-! ### The adapter -/

/-- An exception of the client: its `status_code`, if it has one, its class and its text. -/
structure ClientException where
  status : Option Int := none
  name : String
  message : String

/-- The counts of a response: integers, or missing. (One that is there and `None` would make
    `_record_success` raise; the client's own types do not allow it.) -/
structure ClientUsage where
  promptTokens : Option Int
  completionTokens : Option Int
  totalTokens : Option Int

structure ClientChoice where
  content : Option String
  finishReason : Option String

/-- What the client answers with; a field that is missing counts as its default. -/
structure ClientResponse where
  model : Option String
  choices : List ClientChoice
  usage : Option ClientUsage

/-- How a call of the client ends. -/
inductive ClientOutcome
  | response (response : ClientResponse)
  | raised (exc : ClientException)

/-- The exception says that the rate is limited. -/
def ClientException.limited (exc : ClientException) : Bool := exc.status = some 429 || exc.name = "RateLimitError"

/-- Its text says that the quota is used up. -/
def ClientException.outOfQuota (exc : ClientException) : Bool :=
  FailureAnalyzer.mentions exc.message.toList "insufficient_quota" ||
    FailureAnalyzer.mentions exc.message.toList "exceeded your current quota"

/-- `_map_error` -/
def mapError (exc : ClientException) : ProviderError :=
  if exc.limited then
    if exc.outOfQuota then providerCreditExhausted exc.message else providerRateLimited exc.message
  else if exc.name = "APITimeoutError" ∨ exc.name = "TimeoutError" ∨ exc.status = some 408 ∨
      FailureAnalyzer.mentions exc.message.toList "timed out" = true then
    providerTimeout exc.message
  else if exc.status = some 401 ∨ exc.status = some 403 then
    providerError ("openai auth/permission error: " ++ exc.message)
  else providerError ("openai error: " ++ exc.message)

/-- `text or default` -/
def orDefault (text : Option String) (default : String) : String :=
  match text with
  | some text => if text = "" then default else text
  | none => default

/-- The response of the adapter, from the first choice. -/
def responseOf (defaultModel : String) (response : ClientResponse) (choice : ClientChoice) : LLMResponse where
  model := response.model.getD defaultModel
  content := orDefault choice.content ""
  finishReason := orDefault choice.finishReason "stop"
  usage :=
    { promptTokens := ((response.usage.bind ClientUsage.promptTokens)).getD 0
      completionTokens := ((response.usage.bind ClientUsage.completionTokens)).getD 0
      totalTokens := ((response.usage.bind ClientUsage.totalTokens)).getD 0 }

/-- `OpenAIAdapter.complete`; only a response without a choice gets past the error mapping. -/
def adapterComplete (defaultModel : String) : ClientOutcome → Outcome
  | .raised exc => .reply (.error (mapError exc))
  | .response response =>
    match response.choices with
    | [] => .exception "list index out of range"
    | choice :: _ => .reply (.response (responseOf defaultModel response choice))

/-! ### The composition root -/

/-- What a configuration says of the adapters: the models that they ask for by default. -/
structure AdapterModels where
  openrouterModel : String := "qwen/qwen-2.5-coder-32b-instruct"
  openaiModel : String := "gpt-4o-mini"

/-- The model that the adapter of a provider falls back to. -/
def defaultModel (models : AdapterModels) (name : String) : String :=
  if name = "openrouter" then models.openrouterModel else models.openaiModel

/-- The world of the runtime's manager. What lies outside is the clock and, for each call of a
    client, how it ends. -/
def runtimeWorld (models : AdapterModels) (clock : Nat → Instant) (client : Nat → String → ClientOutcome)
    (registry : Registry) : World where
  registry := registry
  clock _ := clock
  answers number name := adapterComplete (defaultModel models name) (client number name)

/-! ### What is registered -/

/-- The local model is registered: it is enabled, or there is nothing else. -/
def fallsBack (config : ProvidersConfig) : Bool :=
  config.enableLocalFallback || !(isSet config.openrouterApiKey || isSet config.openaiApiKey)

theorem mem_wired {config : ProvidersConfig} {provider : Provider} : provider ∈ wired config ↔
    (isSet config.openrouterApiKey = true ∧ provider = openAIProvider (some openrouterProfile)) ∨
    (isSet config.openaiApiKey = true ∧ provider = openAIProvider none) ∨ (fallsBack config = true ∧ provider = fallback) := by
  have listed : ∀ (wanted : Bool) (other : Provider),
      provider ∈ (if wanted then [other] else []) ↔ wanted = true ∧ provider = other := by
    intro wanted other
    cases wanted <;> simp
  rw [wired,List.mem_append,List.mem_append,listed,listed,listed,or_assoc]
  rfl

/-- The runtime is assembled from every configuration, over any store. -/
theorem runtime_assembled (config : ProvidersConfig) (store : String → Option ProviderHealth) :
    ∃ runtime, buildRuntime config store = .ok runtime ∧ runtime.registry.providers = wired config ∧
      runtime.providers = { store := store } := by
  obtain ⟨registry,built,providers⟩ := buildProviderRegistry_wired config
  refine ⟨⟨registry,{ store := store },registry.names⟩,?_,providers,rfl⟩
  rw [buildRuntime,built]
  rfl

/-! ### Statuses and what the client raised -/

def ClientOutcome.limits : ClientOutcome → Bool
  | .raised exc => exc.limited && !exc.outOfQuota
  | .response _ => false

def ClientOutcome.exhausts : ClientOutcome → Bool
  | .raised exc => exc.limited && exc.outOfQuota
  | .response _ => false

/-- Any other failure: also a response without a choice. -/
def ClientOutcome.fails : ClientOutcome → Bool
  | .raised exc => !exc.limited
  | .response answer => answer.choices.isEmpty

/-- How many of a provider's calls of the client have ended in a certain way. -/
def clientTally (client : Nat → String → ClientOutcome) (name : String) (ends : ClientOutcome → Bool)
    (invoked : List String) : Nat :=
  invoked.zipIdx.countP (fun call => decide (call.1 = name) && ends (client call.2 name))

/-- The cause of a status among the calls of the client. -/
def CausedBy (client : Nat → String → ClientOutcome) (name : String) (invoked : List String) : ProviderStatus → Prop
  | .available => True
  | .rateLimited => 1 ≤ clientTally client name ClientOutcome.limits invoked
  | .offline => 1 ≤ clientTally client name ClientOutcome.exhausts invoked
  | .failed => 3 ≤ clientTally client name ClientOutcome.fails invoked
  | .cooldown => False

/-- The adapter keeps apart what the client keeps apart. -/
theorem mapError_class (exc : ClientException) :
    (mapError exc).isRateLimited = (exc.limited && !exc.outOfQuota) ∧
    (mapError exc).isCreditExhausted = (exc.limited && exc.outOfQuota) ∧ (mapError exc).isGeneric = !exc.limited := by
  unfold mapError
  cases limited : exc.limited with
  | true => cases quota : exc.outOfQuota <;> exact ⟨rfl,rfl,rfl⟩
  | false =>
    simp only [Bool.false_eq_true,if_false]
    split_ifs <;> exact ⟨rfl,rfl,rfl⟩

theorem limits_complete (model : String) (outcome : ClientOutcome) :
    limits (adapterComplete model outcome) = outcome.limits := by
  cases outcome with
  | raised exc => exact (mapError_class exc).1
  | response response => cases chosen : response.choices <;> simp [adapterComplete,limits,ClientOutcome.limits,chosen]

theorem exhausts_complete (model : String) (outcome : ClientOutcome) :
    exhausts (adapterComplete model outcome) = outcome.exhausts := by
  cases outcome with
  | raised exc => exact (mapError_class exc).2.1
  | response response => cases chosen : response.choices <;> simp [adapterComplete,exhausts,ClientOutcome.exhausts,chosen]

theorem counts_complete (model : String) (outcome : ClientOutcome) :
    counts (adapterComplete model outcome) = outcome.fails := by
  cases outcome with
  | raised exc => exact (mapError_class exc).2.2
  | response response => cases chosen : response.choices <;> simp [adapterComplete,counts,ClientOutcome.fails,chosen]

/-- Every provider of the runtime has the threshold of its class. -/
theorem wired_threshold {config : ProvidersConfig} {provider : Provider} (listed : provider ∈ wired config) :
    provider.profile.maxConsecutiveFailures = 3 := by
  rcases mem_wired.mp listed with ⟨_,rfl⟩ | ⟨_,rfl⟩ | ⟨_,rfl⟩ <;> rfl

/-- In every run of calls on the assembled runtime a status has its cause in the client: a
    provider is rate limited or offline only after a call that was limited, or out of quota;
    it has failed only after three calls that ended badly in other ways; none is ever in
    cooldown, and the local model is always available. -/
theorem runtime_statuses (config : ProvidersConfig) (models : AdapterModels) (store : String → Option ProviderHealth)
    (clock : Nat → Instant) (client : Nat → String → ClientOutcome) (calls : List ManagerCall) :
    ∃ runtime, buildRuntime config store = .ok runtime ∧
      Always (step (runtimeWorld models clock client runtime.registry)) (fun s => ∀ provider ∈ wired config,
        CausedBy client provider.name s.invoked (s.health provider.name).status ∧
        (provider.name = "local" → (s.health provider.name).status = .available)) runtime.providers calls := by
  obtain ⟨runtime,built,providers,start⟩ := runtime_assembled config store
  refine ⟨runtime,built,?_⟩
  rw [start]
  let world := runtimeWorld models clock client runtime.registry
  have accounted : Always (step world) (Accounted world) { store := store } calls :=
    always_of_step _ (fun _ call account => step_accounted account call) (fun _ _ => explained_fresh) calls
  have tallies : ∀ name invoked {ends : Outcome → Bool} {endsIn : ClientOutcome → Bool},
      (∀ model outcome, ends (adapterComplete model outcome) = endsIn outcome) →
        tally world name ends invoked = clientTally client name endsIn invoked := by
    intro name invoked ends endsIn same
    simp only [tally,clientTally,world,runtimeWorld,same]
  have fresh : Standing { store := store } := rfl
  have standing : fallback ∈ world.registry.providers → Always (step world) Standing { store := store } calls := fun registered =>
    always_of_step Standing (fun _ call stands => (step_fallback registered stands call).1) fresh calls
  intro done within provider listed
  have registered : provider ∈ world.registry.providers := providers ▸ listed
  constructor
  · have caused := (accounted done within provider registered).caused
    revert caused
    rw [Provider.name]
    cases (Runs.run (step world) { store := store } done).health provider.profile.name |>.status with
    | available => exact fun _ => trivial
    | rateLimited =>
      simp only [Caused,CausedBy]
      rw [tallies _ _ limits_complete]
      exact id
    | offline =>
      simp only [Caused,CausedBy]
      rw [tallies _ _ exhausts_complete]
      exact id
    | failed =>
      simp only [Caused,CausedBy]
      rw [tallies _ _ counts_complete,wired_threshold listed]
      intro many
      exact Int.ofNat_le.mp many
    | cooldown => exact id
  · intro isLocal
    have same : provider = fallback := by
      rcases mem_wired.mp listed with ⟨_,rfl⟩ | ⟨_,rfl⟩ | ⟨_,rfl⟩
      · exact absurd isLocal (by decide)
      · exact absurd isLocal (by decide)
      · rfl
    rw [same]
    exact standing (same ▸ registered) done within

/-! ### Whom the runtime serves -/

/-- No provider that this configuration asks for has the capability. -/
def Unstaffed (config : ProvidersConfig) (capability : Capability) : Prop :=
  capability = .architecture ∨ capability = .embedding ∨
    ((capability = .review ∨ capability = .analysis) ∧ isSet config.openrouterApiKey = false ∧ isSet config.openaiApiKey = false)

theorem unstaffed_unsupported {config : ProvidersConfig} {capability : Capability} (unstaffed : Unstaffed config capability) :
    ∀ provider ∈ wired config, provider.profile.supports capability = false := by
  intro provider listed
  have kinds := mem_wired.mp listed
  rcases unstaffed with rfl | rfl | ⟨which,router,openai⟩
  · rcases kinds with ⟨_,rfl⟩ | ⟨_,rfl⟩ | ⟨_,rfl⟩ <;> decide
  · rcases kinds with ⟨_,rfl⟩ | ⟨_,rfl⟩ | ⟨_,rfl⟩ <;> decide
  · simp only [router,openai,Bool.false_eq_true,false_and,false_or] at kinds
    rw [kinds.2]
    rcases which with rfl | rfl <;> decide

/-- How a call is refused that nobody could serve. -/
def refusal (capability : Capability) : Failure :=
  .noProviderAvailable ("no available provider supports capability " ++ Text.repr capability.value)

/-- A capability that no registered provider has leaves a call without candidates; only the
    refusal is announced. -/
theorem complete_unsupported {world : World} {capability : Capability}
    (unsupported : ∀ provider ∈ world.registry.providers, provider.profile.supports capability = false)
    (request : LLMRequest) (order : Option (List String)) (s : ManagerState) :
    complete world request capability order s =
      (emit (.allExhausted capability.value []) s,.error (refusal capability)) := by
  have nobody : world.registry.forCapability capability = [] := by
    rw [List.eq_nil_iff_forall_not_mem]
    intro provider member
    obtain ⟨registered,supports⟩ := mem_forCapability.mp member
    rw [unsupported provider registered] at supports
    cases supports
  have chosen : inOrder world.registry capability order = [] := by
    cases order with
    | none => exact nobody
    | some names => simp [inOrder,nobody]
  have none : candidates world capability order s = (s,[]) := by
    rw [candidates,chosen]
    rfl
  simp only [complete,none,if_true]
  rfl

/-- In every run of calls on the assembled runtime, however its clients fare: a call that
    admits the local model returns an answer, where that model is registered; a call for
    architecture or embeddings, and without keys one for reviews or analyses, is refused
    without an invocation, whatever the configuration and the state. -/
theorem runtime_service (config : ProvidersConfig) (models : AdapterModels) (store : String → Option ProviderHealth)
    (clock : Nat → Instant) (client : Nat → String → ClientOutcome) (calls : List ManagerCall) :
    ∃ runtime, buildRuntime config store = .ok runtime ∧
      Each (step (runtimeWorld models clock client runtime.registry)) (fun s call =>
        (fallsBack config = true → Admits call → ∃ invocation,
          (complete (runtimeWorld models clock client runtime.registry) call.request call.capability call.order s).2 =
            .ok invocation) ∧
        (Unstaffed config call.capability →
          complete (runtimeWorld models clock client runtime.registry) call.request call.capability call.order s =
            (emit (.allExhausted call.capability.value []) s,.error (refusal call.capability)))) runtime.providers calls := by
  obtain ⟨runtime,built,providers,start⟩ := runtime_assembled config store
  refine ⟨runtime,built,?_⟩
  rw [start]
  let world := runtimeWorld models clock client runtime.registry
  have served : fallsBack config = true → Each (step world) (fun s call => Admits call →
      ∃ invocation, (complete world call.request call.capability call.order s).2 = .ok invocation) { store := store } calls := by
    intro falls
    have registered : fallback ∈ world.registry.providers := by
      show fallback ∈ runtime.registry.providers
      rw [providers]
      exact mem_wired.mpr (.inr (.inr ⟨falls,rfl⟩))
    have fresh : Standing { store := store } := rfl
    have standing : Always (step world) Standing { store := store } calls :=
      always_of_step Standing (fun _ call stands => (step_fallback registered stands call).1) fresh calls
    intro done call within admits
    rcases (step_fallback registered (standing done ((List.prefix_append _ _).trans within)) call).2 admits with
      returned | ⟨provider,member,_,_,custom,_⟩
    · exact returned
    · exact absurd custom (wired_profile (providers ▸ member)).1
  intro done call within
  refine ⟨fun falls => served falls done call within,?_⟩
  intro unstaffed
  exact complete_unsupported (providers ▸ unstaffed_unsupported unstaffed) _ _ _

/-! ### The architect -/

/-- A piece of material that is handed to the architect. -/
structure Material where
  kind : ReviewKind
  target : String
  content : String

def review (world : World) (loads : String → Except Json.DecodeError Json) (s : ArchitectState) (material : Material) : ArchitectState :=
  (runReview world loads material.kind material.target material.content s).1

/-- The review kinds that need the capability of an architect. -/
def isDesign (kind : ReviewKind) : Bool := decide (kind.capability = .architecture)

/-- An event tells of a review of one of these kinds. -/
def ofDesign : ReviewEvent → Prop
  | .reviewed _ kind _ _ _ => ∃ design, isDesign design = true ∧ kind = design.value
  | .specGenerated .. => True
  | .driftDetected .. => False

/-- No such review was ever made: what is saved stands for outages, and no event tells of one. -/
structure Undesigned (s : ArchitectState) : Prop where
  saved : ∀ target kind, isDesign kind = true → ∀ result ∈ s.history (target,kind.value), result = unavailable kind target
  silent : ∀ event ∈ s.events, ¬ ofDesign event

theorem value_injective {kind other : ReviewKind} (same : kind.value = other.value) : kind = other := by
  cases kind <;> cases other <;> first | rfl | exact absurd same (by decide)

theorem emitted_design {result : ReviewResult} (other : isDesign result.kind = false) (previous : Option Int) :
    ∀ event ∈ emitted result previous, ¬ ofDesign event := by
  intro event member
  unfold emitted at member
  rcases List.mem_append.mp member with early | late
  · rcases List.mem_append.mp early with reviewed | generated
    · rw [List.mem_singleton.mp reviewed]
      rintro ⟨design,isOne,named⟩
      rw [value_injective named,isOne] at other
      cases other
    · by_cases spec : result.kind = .specGeneration
      · rw [spec] at other
        exact absurd other (by decide)
      · rw [if_neg spec] at generated
        cases generated
  · split at late
    · rw [List.mem_singleton.mp late]
      exact id
    · cases late

/-- A design review in a runtime without an architect. -/
theorem runReview_unstaffed {world : World} {kind : ReviewKind} (design : isDesign kind = true)
    (unsupported : ∀ provider ∈ world.registry.providers, provider.profile.supports .architecture = false)
    (loads : String → Except Json.DecodeError Json) (target content : String) (s : ArchitectState) :
    runReview world loads kind target content s =
      ({ s with
          manager := emit (.allExhausted Capability.architecture.value []) s.manager
          history := Architect.save (unavailable kind target) s.history },.ok (unavailable kind target)) := by
  have needs : kind.capability = .architecture := by simpa [isDesign] using design
  rw [runReview,needs,complete_unsupported unsupported]
  simp [conclude,verdict,refusal]

theorem review_undesigned {world : World} {loads : String → Except Json.DecodeError Json} {s : ArchitectState}
    (unsupported : ∀ provider ∈ world.registry.providers, provider.profile.supports .architecture = false)
    (undesigned : Undesigned s) (material : Material) : Undesigned (review world loads s material) := by
  obtain ⟨kind,target,content⟩ := material
  cases design : isDesign kind with
  | true =>
    rw [review,runReview_unstaffed design unsupported]
    refine ⟨?_,undesigned.silent⟩
    intro place other isOne result member
    change result ∈ Architect.save (unavailable kind target) s.history (place,other.value) at member
    by_cases same : (place,other.value) = (target,kind.value)
    · obtain ⟨rfl,named⟩ := Prod.mk.inj same
      cases value_injective named
      have saved : Architect.save (unavailable kind place) s.history (place,kind.value) =
          s.history (place,kind.value) ++ [unavailable kind place] := Function.update_self _ _ _
      rw [saved] at member
      rcases List.mem_append.mp member with old | new
      · exact undesigned.saved place kind isOne result old
      · exact List.mem_singleton.mp new
    · have old : Architect.save (unavailable kind target) s.history (place,other.value) = s.history (place,other.value) :=
        Function.update_of_ne same _ _
      rw [old] at member
      exact undesigned.saved place other isOne result member
  | false =>
    unfold review runReview conclude
    cases returned : verdict loads kind target (latestScore target kind s.history)
        (complete world (buildRequest kind target content) kind.capability none s.manager).2 with
    | error error =>
      simp only [returned]
      exact ⟨undesigned.saved,undesigned.silent⟩
    | ok reviewed =>
      obtain ⟨result,events⟩ := reviewed
      simp only [returned]
      obtain ⟨_,ownKind,emits⟩ := verdict_ok returned
      constructor
      · intro place other isOne saved member
        have apart : (place,other.value) ≠ (result.target,result.kind.value) := by
          intro same
          rw [ownKind] at same
          rw [value_injective (Prod.mk.inj same).2,design] at isOne
          cases isOne
        have old : Architect.save result s.history (place,other.value) = s.history (place,other.value) :=
          Function.update_of_ne apart _ _
        change saved ∈ Architect.save result s.history (place,other.value) at member
        rw [old] at member
        exact undesigned.saved place other isOne saved member
      · intro event member
        rcases List.mem_append.mp member with old | new
        · exact undesigned.silent event old
        · rcases emits with none | own
          · rw [none] at new
            cases new
          · rw [own] at new
            exact emitted_design (ownKind ▸ design) _ event new

/-- The assembled runtime has no architect, under any configuration: in every run of reviews
    each design review and each generated spec comes back as the one that stands for an
    outage, with no invocation and no event of the worker's, and nothing else is ever saved
    for them. -/
theorem architect_missing (config : ProvidersConfig) (models : AdapterModels) (store : String → Option ProviderHealth)
    (clock : Nat → Instant) (client : Nat → String → ClientOutcome) (loads : String → Except Json.DecodeError Json)
    (materials : List Material) : ∃ runtime, buildRuntime config store = .ok runtime ∧
      let world := runtimeWorld models clock client runtime.registry
      Always (review world loads) Undesigned { manager := runtime.providers } materials ∧
      Each (review world loads) (fun s material => isDesign material.kind = true →
        (runReview world loads material.kind material.target material.content s).2 =
          .ok (unavailable material.kind material.target) ∧
        (review world loads s material).manager.invoked = s.manager.invoked ∧
        (review world loads s material).events = s.events) { manager := runtime.providers } materials := by
  obtain ⟨runtime,built,providers,_⟩ := runtime_assembled config store
  have unsupported : ∀ provider ∈ runtime.registry.providers, provider.profile.supports .architecture = false :=
    providers ▸ unstaffed_unsupported (.inl rfl)
  refine ⟨runtime,built,?_,?_⟩
  · refine always_of_step Undesigned (fun _ material undesigned => review_undesigned unsupported undesigned material) ?_ materials
    refine ⟨?_,?_⟩
    · intro target kind _ result member
      cases member
    · intro event member
      cases member
  · intro done material _ design
    rw [review,runReview_unstaffed design unsupported]
    exact ⟨rfl,rfl,rfl⟩

end Hookclose.Composition
