import Hookclose.ProviderManager

/-!
Failover serves from the first working candidate and only that one. The list of
candidates is computed once; no record of an untried candidate moves while the
earlier ones fail, so the second check that each provider makes of its own
availability never disagrees with the first.
-/
namespace Hookclose.Failover
open Hookclose.ProviderState Hookclose.BaseProvider Hookclose.Vendors Hookclose.ProviderRegistry
open Hookclose.ProviderManager

/-! ### The candidate list -/

/-- Between two states of a call the record of a provider is as it was, or its cooldown had
    expired by a reading made between them and has been resolved. -/
structure Refreshed (world : World) (name : String) (s t : ManagerState) : Prop where
  reads : s.reads ≤ t.reads
  resolved : t.health name = s.health name ∨ ∃ reading, s.reads ≤ reading ∧ reading < t.reads ∧
    t.health name = (refresh (s.health name) (world.clock name reading)).1

theorem refreshed_of_same {world : World} {name : String} {s t : ManagerState} (reads : s.reads ≤ t.reads)
    (same : t.health name = s.health name) : Refreshed world name s t :=
  ⟨reads,.inl same⟩

theorem refreshed_trans {world : World} {name : String} {s t u : ManagerState} (early : Refreshed world name s t)
    (late : Refreshed world name t u) : Refreshed world name s u := by
  refine ⟨early.reads.trans late.reads,?_⟩
  rcases early.resolved with same | ⟨reading,since,within,resolved⟩
  · rcases late.resolved with still | ⟨again,later,before,resolved⟩
    · exact .inl (still.trans same)
    · rw [same] at resolved
      exact .inr ⟨again,early.reads.trans later,before,resolved⟩
  · rcases late.resolved with still | ⟨again,later,before,twice⟩
    · exact .inr ⟨reading,since,within.trans_le late.reads,still.trans resolved⟩
    · rw [resolved] at twice
      rcases refresh_cases (s.health name) (world.clock name reading) with waits | ⟨_,_,_,_,expired⟩
      · rw [waits] at twice
        exact .inr ⟨again,early.reads.trans later,before,twice⟩
      · have available : (refresh (s.health name) (world.clock name reading)).1.status = .available := by rw [expired]
        rw [refresh_available _ available] at twice
        exact .inr ⟨reading,since,within.trans_le late.reads,twice⟩

theorem refreshed_available {world : World} {name : String} {s t : ManagerState}
    (available : (s.health name).status = .available) (refreshed : Refreshed world name s t) :
    t.health name = s.health name := by
  rcases refreshed.resolved with same | ⟨reading,_,_,same⟩
  · exact same
  · rw [same,refresh_available _ available]

theorem keepServing_invoked (world : World) (providers : List Provider) (s : ManagerState) :
    (keepServing world providers s).1.invoked = s.invoked := by
  induction providers generalizing s with
  | nil => rfl
  | cons provider rest ih =>
    simp only [keepServing]
    split_ifs <;> rw [ih,setHealth_invoked]

theorem keepServing_sublist (world : World) (providers : List Provider) (s : ManagerState) :
    (keepServing world providers s).2.Sublist providers := by
  induction providers generalizing s with
  | nil => exact List.Sublist.refl []
  | cons provider rest ih =>
    simp only [keepServing]
    split_ifs
    · exact (ih _).cons_cons provider
    · exact (ih _).cons provider

/-- Filtering the candidates only resolves expired cooldowns. -/
theorem keepServing_refreshed (world : World) (providers : List Provider) (s : ManagerState) (name : String) :
    Refreshed world name s (keepServing world providers s).1 := by
  induction providers generalizing s with
  | nil => exact refreshed_of_same le_rfl rfl
  | cons provider rest ih =>
    have checked : Refreshed world name s
        (setHealth provider (isAvailable (s.health provider.name) (now world provider s)).1 s) := by
      by_cases same : name = provider.name
      · subst same
        exact ⟨Nat.le_succ _,.inr ⟨s.reads,le_rfl,Nat.lt_succ_self _,setHealth_self provider _ s⟩⟩
      · exact refreshed_of_same (Nat.le_succ _) (setHealth_other same _ s)
    simp only [keepServing]
    split_ifs <;> exact refreshed_trans checked (ih _)

/-- What the check of a candidate shows holds once the list has been drawn up, where the rest
    of the list leaves it as it is. -/
theorem keepServing_checked {world : World} {P : Provider → ProviderHealth → Prop}
    (shown : ∀ provider s, (isAvailable (s.health provider.name) (now world provider s)).2 = true →
      hasBudget provider.profile (isAvailable (s.health provider.name) (now world provider s)).1 = true →
      P provider (isAvailable (s.health provider.name) (now world provider s)).1)
    (kept : ∀ (provider : Provider) rest (s : ManagerState), P provider (s.health provider.name) →
      P provider ((keepServing world rest s).1.health provider.name)) (providers : List Provider) (s : ManagerState) :
    ∀ provider ∈ (keepServing world providers s).2,
      P provider ((keepServing world providers s).1.health provider.name) := by
  induction providers generalizing s with
  | nil => intro provider member; simp [keepServing] at member
  | cons provider rest ih =>
    simp only [keepServing]
    split_ifs with serving
    · rw [Bool.and_eq_true] at serving
      intro other member
      rcases List.mem_cons.mp member with rfl | later
      · apply kept
        rw [setHealth_self]
        exact shown other s serving.1 serving.2
      · exact ih _ other later
    · exact ih _

/-- Every candidate is available once the list has been drawn up. -/
theorem keepServing_available (world : World) (providers : List Provider) (s : ManagerState) :
    ∀ provider ∈ (keepServing world providers s).2,
      ((keepServing world providers s).1.health provider.name).status = .available := by
  refine @keepServing_checked world (fun _ health => health.status = .available) ?_ ?_ providers s
  · intro provider s available _
    exact (isAvailable_iff _ _).mp available
  · intro provider rest s available
    rw [refreshed_available available (keepServing_refreshed world rest s provider.name)]
    exact available

theorem inOrder_distinct (registry : Registry) (capability : Capability) {order : Option (List String)}
    (distinct : ∀ names, order = some names → names.Nodup) :
    ((inOrder registry capability order).map Provider.name).Nodup := by
  cases order with
  | none => exact forCapability_distinct registry capability
  | some names =>
    have found : ∀ names : List String, ((names.filterMap (fun name =>
        (registry.forCapability capability).find? (fun provider => provider.name = name))).map Provider.name).Sublist
        names := by
      intro names
      induction names with
      | nil => simp
      | cons name rest ih =>
        rw [List.filterMap_cons]
        cases search : (registry.forCapability capability).find? (fun provider => provider.name = name) with
        | none => exact ih.cons name
        | some provider =>
          have named : provider.name = name := by simpa using List.find?_some search
          simp only [List.map_cons,named]
          exact ih.cons_cons name
    exact (found names).nodup (distinct names rfl)

theorem candidates_distinct (world : World) (capability : Capability) {order : Option (List String)}
    (distinct : ∀ names, order = some names → names.Nodup) (s : ManagerState) :
    ((candidates world capability order s).2.map Provider.name).Nodup :=
  ((keepServing_sublist world _ s).map Provider.name).nodup (inOrder_distinct world.registry capability distinct)

/-! ### The failover loop -/

/-- How the `number`-th invocation of a run ends, if it is one of this provider. -/
def outcomeAt (world : World) (request : LLMRequest) (number : Nat) (provider : Provider) : Outcome :=
  invoke provider request (world.answers number provider.name)

/-- Invoked one after the other from the `number`-th invocation on, all fail. -/
def AllFail (world : World) (request : LLMRequest) (number : Nat) (providers : List Provider) : Prop :=
  ∀ k provider, providers[k]? = some provider →
    ∃ exc, outcomeAt world request (number + k) provider = .reply (.error exc)

theorem allFail_nil (world : World) (request : LLMRequest) (number : Nat) : AllFail world request number [] := by
  intro k provider found
  simp at found

theorem allFail_cons {world : World} {request : LLMRequest} {number : Nat} {provider : Provider} {rest : List Provider} :
    AllFail world request number (provider :: rest) ↔
      (∃ exc, outcomeAt world request number provider = .reply (.error exc)) ∧ AllFail world request (number + 1) rest := by
  constructor
  · intro fail
    refine ⟨by simpa using fail 0 provider rfl,?_⟩
    intro k other found
    have later := fail (k + 1) other (by simpa using found)
    rwa [show number + 1 + k = number + (k + 1) by omega]
  · rintro ⟨first,later⟩ k other found
    cases k with
    | zero =>
      have same : provider = other := by simpa using found
      rw [← same]
      exact first
    | succ k =>
      have further := later k other (by simpa using found)
      rwa [show number + (k + 1) = number + 1 + k by omega]

/-- The custom providers of a list keep to the provider boundary. -/
def Contract (world : World) (providers : List Provider) : Prop :=
  ∀ provider ∈ providers, provider.vendor = .custom → ∀ number, ∃ reply, world.answers number provider.name = .reply reply

/-- What a failover loop that starts in `s` does with the candidates: it stops at the
    first that responds, or all of them fail. -/
inductive Outcomes (world : World) (request : LLMRequest) (s : ManagerState) (cs : List Provider) (number : Nat)
    (failedOver : List String) (ended : ManagerState) : Except Failure ProviderInvocation → Prop
  | served (before : List Provider) (provider : Provider) (after : List Provider) (response : LLMResponse)
      (split : cs = before ++ provider :: after) (failed : AllFail world request s.invoked.length before)
      (responded : outcomeAt world request (s.invoked.length + before.length) provider = .reply (.response response))
      (invoked : ended.invoked = s.invoked ++ (before ++ [provider]).map Provider.name) :
      Outcomes world request s cs number failedOver ended
        (.ok (ProviderManager.served provider response (number + before.length) (failedOver ++ before.map Provider.name)))
  | exhausted (message : String) (failed : AllFail world request s.invoked.length cs)
      (invoked : ended.invoked = s.invoked ++ cs.map Provider.name) :
      Outcomes world request s cs number failedOver ended (.error (.noProviderAvailable message))

theorem attempt_refreshed (world : World) (provider : Provider) (capability : Capability) (number : Nat)
    (s : ManagerState) (name : String) :
    name ∉ (attempt world provider capability number s).1.invoked.drop s.invoked.length →
      Refreshed world name s (attempt world provider capability number s).1 := by
  intro untried
  obtain ⟨others,reads,refused | started⟩ := attempt_cases world provider capability number s
  · obtain ⟨exc,_,_,record,_⟩ := refused
    by_cases same : name = provider.name
    · subst same
      exact ⟨reads ▸ Nat.le_succ _,.inr ⟨s.reads,le_rfl,reads ▸ Nat.lt_succ_self _,record⟩⟩
    · exact refreshed_of_same (reads ▸ Nat.le_succ _) (others name same)
  · obtain ⟨_,invoked,_,_⟩ := started
    have other : name ≠ provider.name := by simpa [invoked] using untried
    exact refreshed_of_same (reads ▸ Nat.le_succ _) (others name other)

/-- Failing over only ever adds invocations, and leaves the providers that it does
    not invoke as they were. -/
theorem failover_untried (world : World) (request : LLMRequest) (capability : Capability) (total : Nat)
    (cs : List Provider) (number : Nat) (failedOver : List String) (s : ManagerState) :
    ∃ more, (failover world request capability total cs number failedOver s).1.invoked = s.invoked ++ more ∧
      ∀ name, name ∉ more → Refreshed world name s (failover world request capability total cs number failedOver s).1 := by
  induction cs generalizing number failedOver s with
  | nil => exact ⟨[],by simp [failover],fun name _ => refreshed_of_same le_rfl rfl⟩
  | cons provider rest ih =>
    have begunRefreshed := attempt_refreshed world provider capability number s
    obtain ⟨others,reads,refused | started⟩ := attempt_cases world provider capability number s
    · obtain ⟨exc,raised,invoked,_,_⟩ := refused
      simp only [failover,raised]
      obtain ⟨more,added,later⟩ := ih (number + 1) (failedOver ++ [provider.name])
        (onFailure provider capability exc (attempt world provider capability number s).1)
      refine ⟨more,by rw [added,onFailure_invoked,invoked],?_⟩
      intro name untried
      have early := begunRefreshed name (by simp [invoked])
      have told : Refreshed world name (attempt world provider capability number s).1
          (onFailure provider capability exc (attempt world provider capability number s).1) :=
        refreshed_of_same (by rw [onFailure_reads]) (by rw [onFailure_health])
      exact refreshed_trans (refreshed_trans early told) (later name untried)
    · obtain ⟨started,invoked,_,_⟩ := started
      simp only [failover,started]
      cases invoke provider request (world.answers s.invoked.length provider.name) with
      | exception text =>
        refine ⟨[provider.name],invoked,?_⟩
        intro name untried
        exact refreshed_of_same (reads ▸ Nat.le_succ _) (others name (by simpa using untried))
      | reply reply =>
        have recorded : ∀ name, name ≠ provider.name →
            (recordReply world provider reply (attempt world provider capability number s).1).health name =
              s.health name := by
          intro name other
          rw [recordReply_other world other]
          exact others name other
        have counted : s.reads ≤ (recordReply world provider reply (attempt world provider capability number s).1).reads := by
          rw [recordReply_reads,reads]
          omega
        cases reply with
        | response response =>
          refine ⟨[provider.name],by simp [invoked],?_⟩
          intro name untried
          exact refreshed_of_same counted (recorded name (by simpa using untried))
        | error exc =>
          obtain ⟨more,added,later⟩ := ih (number + 1) (failedOver ++ [provider.name])
            (onFailure provider capability exc
              (recordReply world provider (.error exc) (attempt world provider capability number s).1))
          refine ⟨provider.name :: more,by simp [added,invoked],?_⟩
          intro name untried
          rw [List.mem_cons,not_or] at untried
          have early : Refreshed world name s (onFailure provider capability exc
              (recordReply world provider (.error exc) (attempt world provider capability number s).1)) :=
            refreshed_of_same (by rw [onFailure_reads]; exact counted) (by rw [onFailure_health,recorded name untried.1])
          exact refreshed_trans early (later name untried.2)

/-- A first candidate that responds is the only one invoked. -/
theorem outcomes_first {world : World} {request : LLMRequest} {s ended : ManagerState} {provider : Provider}
    {rest : List Provider} {number : Nat} {failedOver : List String} {response : LLMResponse}
    (responded : outcomeAt world request s.invoked.length provider = .reply (.response response))
    (invoked : ended.invoked = s.invoked ++ [provider.name]) :
    Outcomes world request s (provider :: rest) number failedOver ended
      (.ok (ProviderManager.served provider response number failedOver)) := by
  have same : ProviderManager.served provider response number failedOver =
      ProviderManager.served provider response (number + ([] : List Provider).length)
        (failedOver ++ ([] : List Provider).map Provider.name) := by
    simp
  rw [same]
  exact .served [] provider rest response rfl (allFail_nil world request _) responded (by simpa using invoked)

/-- A candidate that fails is passed over. -/
theorem outcomes_cons {world : World} {request : LLMRequest} {s later ended : ManagerState} {provider : Provider}
    {rest : List Provider} {number : Nat} {failedOver : List String} {result : Except Failure ProviderInvocation}
    {exc : ProviderError} (failed : outcomeAt world request s.invoked.length provider = .reply (.error exc))
    (invoked : later.invoked = s.invoked ++ [provider.name])
    (outcomes : Outcomes world request later rest (number + 1) (failedOver ++ [provider.name]) ended result) :
    Outcomes world request s (provider :: rest) number failedOver ended result := by
  have length : later.invoked.length = s.invoked.length + 1 := by simp [invoked]
  cases outcomes with
  | served before other after response split allFail responded invokedAll =>
    rw [length] at allFail responded
    have same : ProviderManager.served other response (number + 1 + before.length)
          (failedOver ++ [provider.name] ++ before.map Provider.name) =
        ProviderManager.served other response (number + (provider :: before).length)
          (failedOver ++ (provider :: before).map Provider.name) := by
      simp [show number + 1 + before.length = number + (before.length + 1) by omega]
    rw [same]
    refine .served (provider :: before) other after response (by simp [split])
      (allFail_cons.mpr ⟨⟨exc,failed⟩,allFail⟩) ?_ (by simp [invokedAll,invoked])
    rwa [List.length_cons,show s.invoked.length + (before.length + 1) = s.invoked.length + 1 + before.length by omega]
  | exhausted message allFail invokedAll =>
    rw [length] at allFail
    exact .exhausted message (allFail_cons.mpr ⟨⟨exc,failed⟩,allFail⟩) (by simp [invokedAll,invoked])

/-- With every candidate available, the loop stops at the first that responds. -/
theorem failover_outcomes (world : World) (request : LLMRequest) (capability : Capability) (total : Nat)
    (cs : List Provider) (number : Nat) (failedOver : List String) (s : ManagerState)
    (contract : Contract world cs) (distinct : (cs.map Provider.name).Nodup)
    (available : ∀ provider ∈ cs, (s.health provider.name).status = .available) :
    Outcomes world request s cs number failedOver
      (failover world request capability total cs number failedOver s).1
      (failover world request capability total cs number failedOver s).2 := by
  induction cs generalizing number failedOver s with
  | nil => exact .exhausted _ (allFail_nil world request _) (by simp [failover])
  | cons provider rest ih =>
    have apart := rest_names distinct
    rw [List.map_cons,List.nodup_cons] at distinct
    have serving := available provider List.mem_cons_self
    obtain ⟨others,_,refused | started⟩ := attempt_cases world provider capability number s
    · obtain ⟨_,_,_,_,unavailable⟩ := refused
      rw [refresh_available _ serving] at unavailable
      exact absurd serving unavailable
    · obtain ⟨started,invoked,_,_⟩ := started
      obtain ⟨reply,replied⟩ := invoke_reply (contract provider List.mem_cons_self · s.invoked.length) request
      simp only [failover,started,replied]
      cases reply with
      | response response =>
        exact outcomes_first replied (by rw [onSuccess_invoked,recordReply_invoked,invoked])
      | error exc =>
        refine outcomes_cons replied ?_ (ih (number + 1) (failedOver ++ [provider.name]) _ ?_ distinct.2 ?_)
        · rw [onFailure_invoked,recordReply_invoked,invoked]
        · intro other member
          exact contract other (List.mem_cons_of_mem _ member)
        · intro other member
          have differs := apart other member
          rw [onFailure_health,recordReply_other world differs,others _ differs]
          exact available other (List.mem_cons_of_mem _ member)

/-! ### The manager call -/

theorem inOrder_registered {registry : Registry} {capability : Capability} {order : Option (List String)}
    {provider : Provider} (member : provider ∈ inOrder registry capability order) : provider ∈ registry.providers := by
  have supporting : provider ∈ registry.forCapability capability := by
    cases order with
    | none => exact member
    | some names =>
      obtain ⟨name,_,found⟩ := List.mem_filterMap.mp member
      exact List.mem_of_find?_eq_some found
  exact (mem_forCapability.mp supporting).1

theorem candidates_invoked (world : World) (capability : Capability) (order : Option (List String))
    (s : ManagerState) : (candidates world capability order s).1.invoked = s.invoked :=
  keepServing_invoked world _ s

/-- What a call does with its candidates, whether or not there are any. -/
theorem complete_outcomes (world : World) (request : LLMRequest) (capability : Capability)
    (order : Option (List String)) (s : ManagerState) (distinct : ∀ names, order = some names → names.Nodup)
    (contract : Contract world world.registry.providers) :
    Outcomes world request s (candidates world capability order s).2 1 []
      (complete world request capability order s).1 (complete world request capability order s).2 := by
  have invoked := candidates_invoked world capability order s
  by_cases none : (candidates world capability order s).2 = []
  · simp only [complete,if_pos none]
    rw [none]
    exact .exhausted _ (allFail_nil world request _) (by simp [invoked])
  · simp only [complete,if_neg none]
    have outcomes := failover_outcomes world request capability (candidates world capability order s).2.length
      (candidates world capability order s).2 1 [] (candidates world capability order s).1
      (fun provider member => contract provider
        (inOrder_registered ((keepServing_sublist world _ s).subset member)))
      (candidates_distinct world capability distinct s) (keepServing_available world _ s)
    generalize failover world request capability (candidates world capability order s).2.length
      (candidates world capability order s).2 1 [] (candidates world capability order s).1 = done at outcomes ⊢
    obtain ⟨ended,result⟩ := done
    cases outcomes with
    | served before provider after response split failed responded invokedAll =>
      rw [invoked] at failed responded invokedAll
      exact .served before provider after response split failed responded invokedAll
    | exhausted message failed invokedAll =>
      rw [invoked] at failed invokedAll
      exact .exhausted message failed invokedAll

/-- The providers that a call does not invoke are as they were, up to a cooldown that has
    expired by one of the call's own readings. -/
theorem complete_untried (world : World) (request : LLMRequest) (capability : Capability)
    (order : Option (List String)) (s : ManagerState) :
    ∀ name, name ∉ (complete world request capability order s).1.invoked.drop s.invoked.length →
      Refreshed world name s (complete world request capability order s).1 := by
  intro name untried
  have invoked := candidates_invoked world capability order s
  have early : Refreshed world name s (candidates world capability order s).1 := keepServing_refreshed world _ s name
  by_cases none : (candidates world capability order s).2 = []
  · simp only [complete,if_pos none]
    exact refreshed_trans early (refreshed_of_same le_rfl rfl)
  · simp only [complete,if_neg none] at untried ⊢
    obtain ⟨more,added,later⟩ := failover_untried world request capability
      (candidates world capability order s).2.length (candidates world capability order s).2 1 []
      (candidates world capability order s).1
    rw [added,invoked,List.drop_left] at untried
    exact refreshed_trans early (later name untried)

theorem not_allFail {world : World} {request : LLMRequest} {number : Nat} {before after : List Provider}
    {provider : Provider} {response : LLMResponse}
    (responded : outcomeAt world request (number + before.length) provider = .reply (.response response)) :
    ¬ AllFail world request number (before ++ provider :: after) := by
  intro fail
  obtain ⟨exc,failed⟩ := fail before.length provider (by simp)
  rw [responded] at failed
  cases failed

/-- Failover serves from the first candidate that responds and only that one, it
    raises `NoProviderAvailable` exactly when there is none, and a provider that it
    does not invoke keeps its record, up to a cooldown that has expired in the meantime. -/
theorem failover_first_working (world : World) (request : LLMRequest) (capability : Capability)
    (order : Option (List String)) (s : ManagerState) (distinct : ∀ names, order = some names → names.Nodup)
    (contract : Contract world world.registry.providers) :
    let cs := (candidates world capability order s).2
    let done := complete world request capability order s
    (cs.map Provider.name).Nodup ∧ Outcomes world request s cs 1 [] done.1 done.2 ∧
      ((∃ message, done.2 = .error (.noProviderAvailable message)) ↔
        cs = [] ∨ AllFail world request s.invoked.length cs) ∧
      (∀ text, done.2 ≠ .error (.escaped text)) ∧
      ∀ name, name ∉ done.1.invoked.drop s.invoked.length → Refreshed world name s done.1 := by
  intro cs done
  have outcomes : Outcomes world request s cs 1 [] done.1 done.2 :=
    complete_outcomes world request capability order s distinct contract
  refine ⟨candidates_distinct world capability distinct s,outcomes,?_,?_,complete_untried world request capability order s⟩
  · constructor
    · rintro ⟨message,raised⟩
      rw [raised] at outcomes
      cases outcomes with
      | exhausted _ failed _ => exact .inr failed
    · intro failed
      have allFail : AllFail world request s.invoked.length cs := by
        rcases failed with none | failed
        · rw [none]
          exact allFail_nil world request _
        · exact failed
      generalize done.2 = result at outcomes
      cases outcomes with
      | exhausted message _ _ => exact ⟨message,rfl⟩
      | served before provider after response split _ responded _ =>
        rw [split] at allFail
        exact absurd allFail (not_allFail responded)
  · intro text raised
    rw [raised] at outcomes
    cases outcomes

/-- Claude's adapter raises; OpenAI's answers. -/
def twoVendors : World where
  registry := ⟨[claudeProvider none,openAIProvider none,openCodeProvider none],by decide⟩
  clock := fun _ reading => reading
  answers := fun _ name => if name = "claude" then .exception "connection reset" else .reply (.response ⟨"m","ok","stop",⟨1,1,2⟩⟩)

/-- Opencode's cooldown has just run out. -/
def rested : ManagerState where
  health := fun name => if name = "opencode" then { status := .rateLimited, cooldownUntil := some 0 } else {}

/-- Claude fails and OpenAI serves; opencode, which comes last, is not asked. -/
theorem two_vendors_first_working :
    let cs := (candidates twoVendors .review (some ["claude","openai","opencode"]) rested).2
    let done := complete twoVendors ⟨"m",[]⟩ .review (some ["claude","openai","opencode"]) rested
    ((cs.map Provider.name).Nodup ∧ Outcomes twoVendors ⟨"m",[]⟩ rested cs 1 [] done.1 done.2 ∧
      ((∃ message, done.2 = .error (.noProviderAvailable message)) ↔
        cs = [] ∨ AllFail twoVendors ⟨"m",[]⟩ 0 cs) ∧
      (∀ text, done.2 ≠ .error (.escaped text)) ∧
      ∀ name, name ∉ done.1.invoked.drop 0 → Refreshed twoVendors name rested done.1) ∧
    cs.map Provider.name = ["claude","openai","opencode"] ∧ done.1.invoked = ["claude","openai"] ∧
    done.2 = .ok ⟨"openai","ok",2,2,["claude"]⟩ ∧ done.1.health "opencode" = {} := by
  have distinct : ∀ names, some ["claude","openai","opencode"] = some names → names.Nodup := by
    rintro names ⟨⟩
    decide
  have contract : Contract twoVendors twoVendors.registry.providers := by
    intro provider member custom
    simp only [twoVendors,List.mem_cons,List.not_mem_nil,or_false] at member
    rcases member with rfl | rfl | rfl <;> cases custom
  intro cs done
  exact ⟨failover_first_working twoVendors ⟨"m",[]⟩ .review (some ["claude","openai","opencode"]) rested distinct contract,
    by decide,by decide,by decide,by decide⟩

end Hookclose.Failover
