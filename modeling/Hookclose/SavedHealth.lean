import Hookclose.Failover
import Hookclose.Runs

/-!
Runs of a manager, and when its store lags behind the live health. A pass of the
failover loop saves the record that it touches. Drawing up the candidates saves
nothing, but resolves expired cooldowns; so the store stays up to date exactly as long
as the loop comes to every provider whose cooldown its call has resolved.
-/
namespace Hookclose.SavedHealth
open Hookclose.ProviderState Hookclose.BaseProvider Hookclose.Vendors Hookclose.ProviderRegistry
open Hookclose.ProviderManager Hookclose.Failover Hookclose.Runs

/-- The arguments of a `complete` call. -/
structure ManagerCall where
  request : LLMRequest
  capability : Capability
  order : Option (List String) := none

/-- A manager serves one call after the other. -/
def step (world : World) (s : ManagerState) (call : ManagerCall) : ManagerState :=
  (complete world call.request call.capability call.order s).1

/-- A call returns or raises `NoProviderAvailable`. -/
def Ends (world : World) (s : ManagerState) (call : ManagerCall) : Prop :=
  ∀ text, (complete world call.request call.capability call.order s).2 ≠ .error (.escaped text)

/-- The store has the live record of every provider, or none of one that is as it began. -/
def Coherent (world : World) (s : ManagerState) : Prop :=
  ∀ provider ∈ world.registry.providers,
    s.store provider.name = some (s.health provider.name) ∨
      (s.store provider.name = none ∧ s.health provider.name = {})

/-! ### The candidates -/

/-- A cooldown that `refresh` resolves at this reading. -/
def Elapsed (health : ProviderHealth) (reading : Instant) : Prop :=
  Expirable health.status ∧ ∃ deadline, health.cooldownUntil = some deadline ∧ deadline ≤ reading

/-- One of the checks in order finds that the cooldown of a provider has elapsed. -/
def Expires (world : World) (providers : List Provider) (s : ManagerState) (name : String) : Prop :=
  ∃ position, (providers.map Provider.name)[position]? = some name ∧
    Elapsed (s.health name) (world.clock name (s.reads + position))

theorem expires_nil {world : World} {s : ManagerState} {name : String} : ¬ Expires world [] s name := by
  rintro ⟨position,found,_⟩
  simp at found

theorem expires_cons {world : World} {provider : Provider} {rest : List Provider} {s after : ManagerState} {name : String}
    (reads : after.reads = s.reads + 1) (same : after.health name = s.health name) :
    Expires world (provider :: rest) s name ↔
      (provider.name = name ∧ Elapsed (s.health name) (world.clock name s.reads)) ∨ Expires world rest after name := by
  constructor
  · rintro ⟨position,found,elapsed⟩
    cases position with
    | zero => exact .inl ⟨by simpa using found,elapsed⟩
    | succ position =>
      refine .inr ⟨position,by simpa using found,?_⟩
      rwa [same,reads,show s.reads + 1 + position = s.reads + (position + 1) by omega]
  · rintro (⟨named,elapsed⟩ | ⟨position,found,elapsed⟩)
    · exact ⟨0,by simp [named],elapsed⟩
    · refine ⟨position + 1,by simpa using found,?_⟩
      rwa [same,reads,show s.reads + 1 + position = s.reads + (position + 1) by omega] at elapsed

theorem refresh_elapsed_iff (health : ProviderHealth) (reading : Instant) :
    (Elapsed health reading ∧ (refresh health reading).1.status = .available) ∨
      (¬ Elapsed health reading ∧ (refresh health reading).1 = health) := by
  by_cases elapsed : Elapsed health reading
  · obtain ⟨expirable,deadline,until_,passed⟩ := elapsed
    refine .inl ⟨⟨expirable,deadline,until_,passed⟩,?_⟩
    rw [refresh_elapsed until_ expirable passed]
  · rcases refresh_cases health reading with same | ⟨deadline,until_,expirable,passed,_⟩
    · exact .inr ⟨elapsed,by rw [same]⟩
    · exact absurd ⟨expirable,deadline,until_,passed⟩ elapsed

theorem elapsed_unavailable {health : ProviderHealth} {reading : Instant} (elapsed : Elapsed health reading) :
    health.status ≠ .available := by
  obtain ⟨expirable,_⟩ := elapsed
  rcases expirable with status | status | status <;> simp [status]

@[simp] theorem keepServing_store (world : World) (providers : List Provider) (s : ManagerState) :
    (keepServing world providers s).1.store = s.store := by
  induction providers generalizing s with
  | nil => rfl
  | cons provider rest ih =>
    simp only [keepServing]
    split_ifs <;> (rw [ih]; rfl)

/-- Drawing up the candidates makes a provider whose cooldown has elapsed available, and
    leaves the record of every other as it was. -/
theorem keepServing_expires (world : World) (providers : List Provider) (s : ManagerState) (name : String) :
    (Expires world providers s name ∧ ((keepServing world providers s).1.health name).status = .available) ∨
      (¬ Expires world providers s name ∧ (keepServing world providers s).1.health name = s.health name) := by
  induction providers generalizing s with
  | nil => exact .inr ⟨expires_nil,rfl⟩
  | cons provider rest ih =>
    have after : (keepServing world (provider :: rest) s).1 =
        (keepServing world rest (setHealth provider (isAvailable (s.health provider.name) (now world provider s)).1 s)).1 := by
      simp only [keepServing]
      split_ifs <;> rfl
    rw [after]
    generalize checked : setHealth provider (isAvailable (s.health provider.name) (now world provider s)).1 s = t
    have reads : t.reads = s.reads + 1 := by rw [← checked]; rfl
    by_cases named : provider.name = name
    · subst named
      have refreshed : t.health provider.name = (refresh (s.health provider.name) (now world provider s)).1 := by
        rw [← checked,setHealth_self]
        rfl
      rcases refresh_elapsed_iff (s.health provider.name) (now world provider s) with ⟨elapsed,available⟩ | ⟨waits,same⟩
      · rw [← refreshed] at available
        have kept := refreshed_available available (keepServing_refreshed world rest t provider.name)
        exact .inl ⟨⟨0,by simp,elapsed⟩,by rw [kept]; exact available⟩
      · rw [same] at refreshed
        rw [expires_cons reads refreshed,← refreshed]
        have first : ¬ Elapsed (t.health provider.name) (world.clock provider.name s.reads) := by
          rw [refreshed]
          exact waits
        simpa [first] using ih t
    · have same : t.health name = s.health name := by
        rw [← checked]
        exact setHealth_other (Ne.symm named) _ s
      rw [expires_cons reads same,← same]
      simpa [named] using ih t

/-! ### The loop -/

/-- The state after a pass of the loop that fails: the provider refuses to be called, or
    its vendor call fails. -/
def passOver (world : World) (request : LLMRequest) (provider : Provider) (capability : Capability) (number : Nat)
    (s : ManagerState) : Option ManagerState :=
  let begun := attempt world provider capability number s
  match begun.2 with
  | some exc => some (onFailure provider capability exc begun.1)
  | none =>
    match outcomeAt world request s.invoked.length provider with
    | .reply (.error exc) => some (onFailure provider capability exc (recordReply world provider (.error exc) begun.1))
    | _ => none

/-- The loop passes over each of these candidates in turn. -/
def PassesOver (world : World) (request : LLMRequest) (capability : Capability) :
    List Provider → Nat → ManagerState → Prop
  | [],_,_ => True
  | provider :: rest,number,s =>
    ∃ t, passOver world request provider capability number s = some t ∧
      PassesOver world request capability rest (number + 1) t

/-- The loop comes to a provider: it passes over all the candidates before it. -/
def Reached (world : World) (request : LLMRequest) (capability : Capability) (cs : List Provider) (number : Nat)
    (s : ManagerState) (name : String) : Prop :=
  ∃ before provider after, cs = before ++ provider :: after ∧ provider.name = name ∧
    PassesOver world request capability before number s

/-- The loop comes to the first candidate, and where it passes over it, to those after it. -/
theorem reached_cons {world : World} {request : LLMRequest} {capability : Capability} {provider : Provider}
    {rest : List Provider} {number : Nat} {s t : ManagerState} {name : String}
    (passed : passOver world request provider capability number s = some t) :
    Reached world request capability (provider :: rest) number s name ↔
      provider.name = name ∨ Reached world request capability rest (number + 1) t name := by
  constructor
  · rintro ⟨before,other,after,split,named,passes⟩
    cases before with
    | nil =>
      obtain ⟨rfl,_⟩ := List.cons.inj split
      exact .inl named
    | cons first before =>
      obtain ⟨rfl,later⟩ := List.cons.inj split
      obtain ⟨next,same,passes⟩ := passes
      rw [passed] at same
      cases same
      exact .inr ⟨before,other,after,later,named,passes⟩
  · rintro (named | ⟨before,other,after,split,named,passes⟩)
    · exact ⟨[],provider,rest,rfl,named,trivial⟩
    · exact ⟨provider :: before,other,after,by rw [split]; rfl,named,t,passed,passes⟩

/-- Where the answer of the first candidate ends the loop, it comes to no other. -/
theorem reached_stop {world : World} {request : LLMRequest} {capability : Capability} {provider : Provider}
    {rest : List Provider} {number : Nat} {s : ManagerState} {name : String}
    (stopped : passOver world request provider capability number s = none) :
    Reached world request capability (provider :: rest) number s name ↔ provider.name = name := by
  constructor
  · rintro ⟨before,other,after,split,named,passes⟩
    cases before with
    | nil =>
      obtain ⟨rfl,_⟩ := List.cons.inj split
      exact named
    | cons first before =>
      obtain ⟨rfl,_⟩ := List.cons.inj split
      obtain ⟨next,same,_⟩ := passes
      rw [stopped] at same
      cases same
  · intro named
    exact ⟨[],provider,rest,rfl,named,trivial⟩

/-- A pass fails and the loop goes on, or the provider's answer ends it. -/
theorem failover_cases (world : World) (request : LLMRequest) (capability : Capability) (total : Nat)
    (provider : Provider) (rest : List Provider) (number : Nat) (failedOver : List String) (s : ManagerState) :
    let ended := failover world request capability total (provider :: rest) number failedOver s
    (∃ t, passOver world request provider capability number s = some t ∧
      ended = failover world request capability total rest (number + 1) (failedOver ++ [provider.name]) t) ∨
    (passOver world request provider capability number s = none ∧
      ((∃ response, outcomeAt world request s.invoked.length provider = .reply (.response response) ∧
          ended = (onSuccess provider capability response (recordReply world provider (.response response)
            (attempt world provider capability number s).1),.ok (served provider response number failedOver))) ∨
        ∃ text, ended.2 = .error (.escaped text))) := by
  obtain ⟨_,_,refused | started⟩ := attempt_cases world provider capability number s
  · obtain ⟨exc,raised,_⟩ := refused
    left
    simp only [failover,passOver,raised]
    exact ⟨_,rfl,rfl⟩
  · obtain ⟨started,_⟩ := started
    simp only [failover,passOver,started,outcomeAt]
    cases invoke provider request (world.answers s.invoked.length provider.name) with
    | exception text => exact .inr ⟨rfl,.inr ⟨text,rfl⟩⟩
    | reply reply =>
      cases reply with
      | response response => exact .inr ⟨rfl,.inl ⟨response,rfl,rfl⟩⟩
      | error exc => exact .inl ⟨_,rfl,rfl⟩

/-- What the loop does to the record of a provider: it has saved it if it has come to it. -/
structure Saved (s ended : ManagerState) (name : String) (reached : Prop) : Prop where
  saves : reached → ended.store name = some (ended.health name)
  untouched : ¬ reached → ended.store name = s.store name ∧ ended.health name = s.health name

@[simp] theorem recordReply_store (world : World) (provider : Provider) (reply : Reply) (s : ManagerState) :
    (recordReply world provider reply s).store = s.store := rfl

@[simp] theorem onFailure_store (provider : Provider) (capability : Capability) (exc : ProviderError)
    (s : ManagerState) : (onFailure provider capability exc s).store =
      Function.update s.store provider.name (some (s.health provider.name)) := by
  simp only [onFailure]
  split_ifs <;> rfl

@[simp] theorem onSuccess_store (provider : Provider) (capability : Capability) (response : LLMResponse)
    (s : ManagerState) : (onSuccess provider capability response s).store =
      Function.update s.store provider.name (some (s.health provider.name)) := rfl

@[simp] theorem onSuccess_health (provider : Provider) (capability : Capability) (response : LLMResponse)
    (s : ManagerState) : (onSuccess provider capability response s).health = s.health := rfl

@[simp] theorem onSuccess_reads (provider : Provider) (capability : Capability) (response : LLMResponse)
    (s : ManagerState) : (onSuccess provider capability response s).reads = s.reads := rfl

@[simp] theorem attempt_store (world : World) (provider : Provider) (capability : Capability) (number : Nat)
    (s : ManagerState) : (attempt world provider capability number s).1.store = s.store := by
  simp only [attempt]
  split <;> rfl

theorem attempt_other (world : World) {provider : Provider} {name : String} (other : name ≠ provider.name)
    (capability : Capability) (number : Nat) (s : ManagerState) :
    (attempt world provider capability number s).1.health name = s.health name :=
  (attempt_cases world provider capability number s).1 name other

/-- A pass that fails saves the record of its provider, and touches no other. -/
theorem passOver_saved {world : World} {request : LLMRequest} {provider : Provider} {capability : Capability}
    {number : Nat} {s t : ManagerState} (passed : passOver world request provider capability number s = some t)
    (name : String) : Saved s t name (provider.name = name) := by
  have own : ∀ exc (begun : ManagerState), (∀ other, other ≠ provider.name → begun.health other = s.health other) →
      begun.store = s.store → Saved s (onFailure provider capability exc begun) name (provider.name = name) := by
    intro exc begun others store
    constructor
    · rintro rfl
      simp
    · intro differs
      simp [Ne.symm differs,others name (Ne.symm differs),store]
  unfold passOver at passed
  cases raised : (attempt world provider capability number s).2 with
  | some exc =>
    simp only [raised,Option.some.injEq] at passed
    rw [← passed]
    exact own exc _ (fun other differs => attempt_other world differs capability number s) (by simp)
  | none =>
    simp only [raised] at passed
    split at passed
    · cases passed
      refine own _ _ ?_ (by simp)
      intro other differs
      rw [recordReply_other world differs,attempt_other world differs]
    · cases passed

/-- The loop saves the record of each provider that it comes to, and touches no other. -/
theorem failover_saved (world : World) (request : LLMRequest) (capability : Capability) (total : Nat)
    (cs : List Provider) (number : Nat) (failedOver : List String) (s : ManagerState)
    (ends : ∀ text, (failover world request capability total cs number failedOver s).2 ≠ .error (.escaped text))
    (name : String) :
    Saved s (failover world request capability total cs number failedOver s).1 name
      (Reached world request capability cs number s name) := by
  induction cs generalizing number failedOver s with
  | nil =>
    have never : ¬ Reached world request capability [] number s name := by
      rintro ⟨before,provider,after,split,_⟩
      simp at split
    exact ⟨fun reached => absurd reached never,fun _ => ⟨rfl,rfl⟩⟩
  | cons provider rest ih =>
    rcases failover_cases world request capability total provider rest number failedOver s with
      ⟨t,passed,same⟩ | ⟨stopped,⟨response,_,same⟩ | ⟨text,escaped⟩⟩
    · have reached : Reached world request capability (provider :: rest) number s name ↔
          provider.name = name ∨ Reached world request capability rest (number + 1) t name := reached_cons passed
      rw [same] at ends ⊢
      have first := passOver_saved passed name
      have later := ih (number + 1) (failedOver ++ [provider.name]) t ends
      constructor
      · intro come
        by_cases further : Reached world request capability rest (number + 1) t name
        · exact later.saves further
        · obtain ⟨store,health⟩ := later.untouched further
          rw [store,health]
          exact first.saves ((reached.mp come).resolve_right further)
      · intro never
        rw [reached,not_or] at never
        obtain ⟨store,health⟩ := later.untouched never.2
        obtain ⟨stored,same⟩ := first.untouched never.1
        exact ⟨store.trans stored,health.trans same⟩
    · rw [same]
      constructor
      · intro come
        rw [reached_stop stopped] at come
        subst come
        simp
      · intro never
        rw [reached_stop stopped] at never
        simp [Ne.symm never,recordReply_other world (Ne.symm never),attempt_other world (Ne.symm never)]
    · exact absurd escaped (ends text)

/-- A pass over an available provider fails with its vendor call. -/
theorem passOver_available {world : World} {request : LLMRequest} {provider : Provider} {capability : Capability}
    {number : Nat} {s t : ManagerState} (available : (s.health provider.name).status = .available) :
    passOver world request provider capability number s = some t ↔
      ∃ exc, outcomeAt world request s.invoked.length provider = .reply (.error exc) ∧
        t = onFailure provider capability exc
          (recordReply world provider (.error exc) (attempt world provider capability number s).1) := by
  obtain ⟨_,_,refused | started⟩ := attempt_cases world provider capability number s
  · obtain ⟨_,_,_,_,unavailable⟩ := refused
    rw [refresh_available _ available] at unavailable
    exact absurd available unavailable
  · obtain ⟨started,_⟩ := started
    simp only [passOver,started]
    cases outcomeAt world request s.invoked.length provider with
    | exception text => simp
    | reply reply =>
      cases reply with
      | response response => simp
      | error exc => simp [eq_comm]

/-- What a pass does to the other records and to the invocations. -/
theorem passOver_others {world : World} {request : LLMRequest} {provider : Provider} {capability : Capability}
    {number : Nat} {s t : ManagerState} (available : (s.health provider.name).status = .available)
    (passed : passOver world request provider capability number s = some t) :
    t.invoked = s.invoked ++ [provider.name] ∧ ∀ name, name ≠ provider.name → t.health name = s.health name := by
  obtain ⟨exc,_,rfl⟩ := (passOver_available available).mp passed
  obtain ⟨others,_,refused | started⟩ := attempt_cases world provider capability number s
  · obtain ⟨_,_,_,_,unavailable⟩ := refused
    rw [refresh_available _ available] at unavailable
    exact absurd available unavailable
  · obtain ⟨_,invoked,_⟩ := started
    refine ⟨by rw [onFailure_invoked,recordReply_invoked,invoked],?_⟩
    intro name other
    rw [onFailure_health,recordReply_other world other,others name other]

/-- Where all candidates are available and no name is repeated, the loop passes over
    those whose vendor calls fail. -/
theorem passesOver_iff_allFail {world : World} {request : LLMRequest} {capability : Capability} {cs : List Provider}
    {number : Nat} {s : ManagerState} (distinct : (cs.map Provider.name).Nodup)
    (available : ∀ provider ∈ cs, (s.health provider.name).status = .available) :
    PassesOver world request capability cs number s ↔ AllFail world request s.invoked.length cs := by
  induction cs generalizing number s with
  | nil => simp [PassesOver,allFail_nil]
  | cons provider rest ih =>
    have apart := rest_names distinct
    rw [List.map_cons,List.nodup_cons] at distinct
    have serving := available provider List.mem_cons_self
    rw [PassesOver,allFail_cons]
    have later : ∀ t, passOver world request provider capability number s = some t →
        (PassesOver world request capability rest (number + 1) t ↔ AllFail world request (s.invoked.length + 1) rest) := by
      intro t passed
      obtain ⟨invoked,others⟩ := passOver_others serving passed
      have still : ∀ other ∈ rest, (t.health other.name).status = .available := by
        intro other member
        have differs := apart other member
        rw [others other.name differs]
        exact available other (List.mem_cons_of_mem _ member)
      rw [ih distinct.2 still,invoked,List.length_append,List.length_singleton]
    constructor
    · rintro ⟨t,passed,passes⟩
      obtain ⟨exc,failed,_⟩ := (passOver_available serving).mp passed
      exact ⟨⟨exc,failed⟩,(later t passed).mp passes⟩
    · rintro ⟨⟨exc,failed⟩,fail⟩
      obtain ⟨t,passed⟩ : ∃ t, passOver world request provider capability number s = some t :=
        ⟨_,(passOver_available serving).mpr ⟨exc,failed,rfl⟩⟩
      exact ⟨t,passed,(later t passed).mpr fail⟩

/-! ### Calls -/

/-- The loop of a call comes to a provider. -/
def Visited (world : World) (s : ManagerState) (call : ManagerCall) (name : String) : Prop :=
  Reached world call.request call.capability (candidates world call.capability call.order s).2 1
    (candidates world call.capability call.order s).1 name

/-- Where the order repeats no name, these are the candidates before which all others fail. -/
theorem visited_iff {world : World} {s : ManagerState} {call : ManagerCall}
    (distinct : ∀ names, call.order = some names → names.Nodup) (name : String) :
    Visited world s call name ↔ ∃ before provider after, provider.name = name ∧
      (candidates world call.capability call.order s).2 = before ++ provider :: after ∧
      AllFail world call.request s.invoked.length before := by
  have names := candidates_distinct world call.capability distinct s
  have serving : ∀ provider ∈ (candidates world call.capability call.order s).2,
      ((candidates world call.capability call.order s).1.health provider.name).status = .available :=
    keepServing_available world _ s
  have passes : ∀ before provider after, (candidates world call.capability call.order s).2 = before ++ provider :: after →
      (PassesOver world call.request call.capability before 1 (candidates world call.capability call.order s).1 ↔
        AllFail world call.request s.invoked.length before) := by
    intro before provider after split
    rw [split] at names serving
    rw [passesOver_iff_allFail (List.Nodup.of_append_left (by simpa using names))
      (fun other member => serving other (List.mem_append_left _ member)),candidates_invoked]
  constructor
  · rintro ⟨before,provider,after,split,named,passed⟩
    exact ⟨before,provider,after,named,split,(passes before provider after split).mp passed⟩
  · rintro ⟨before,provider,after,named,split,fail⟩
    exact ⟨before,provider,after,split,named,(passes before provider after split).mpr fail⟩

/-- The loop of a call comes to every provider whose cooldown the call resolves. -/
def Saves (world : World) (s : ManagerState) (call : ManagerCall) : Prop :=
  ∀ provider ∈ world.registry.providers, Expires world (inOrder world.registry call.capability call.order) s provider.name →
    Visited world s call provider.name

theorem step_saved {world : World} {s : ManagerState} {call : ManagerCall} (ends : Ends world s call) (name : String) :
    Saved (candidates world call.capability call.order s).1 (step world s call) name (Visited world s call name) := by
  unfold Ends at ends
  unfold step Visited
  by_cases none : (candidates world call.capability call.order s).2 = []
  · simp only [complete,if_pos none]
    rw [none]
    have never : ¬ Reached world call.request call.capability [] 1 (candidates world call.capability call.order s).1 name := by
      rintro ⟨before,provider,after,split,_⟩
      simp at split
    exact ⟨fun reached => absurd reached never,fun _ => ⟨rfl,rfl⟩⟩
  · simp only [complete,if_neg none] at ends ⊢
    exact failover_saved world _ _ _ _ 1 [] _ ends name

theorem candidates_store (world : World) (capability : Capability) (order : Option (List String)) (s : ManagerState) :
    (candidates world capability order s).1.store = s.store :=
  keepServing_store world _ s

theorem step_coherent {world : World} {s : ManagerState} {call : ManagerCall} (coherent : Coherent world s)
    (ends : Ends world s call) (saves : Saves world s call) : Coherent world (step world s call) := by
  intro provider registered
  have saved := step_saved ends provider.name
  by_cases visited : Visited world s call provider.name
  · exact .inl (saved.saves visited)
  · obtain ⟨store,health⟩ := saved.untouched visited
    rw [store,health,candidates_store]
    rcases keepServing_expires world (inOrder world.registry call.capability call.order) s provider.name with
      ⟨expires,_⟩ | ⟨_,same⟩
    · exact absurd (saves provider registered expires) visited
    · rw [candidates,same]
      exact coherent provider registered

/-- A resolved cooldown that the loop does not come to is live and not saved. -/
theorem step_lags {world : World} {s : ManagerState} {call : ManagerCall} (coherent : Coherent world s)
    (ends : Ends world s call) (lags : ¬ Saves world s call) : ¬ Coherent world (step world s call) := by
  simp only [Saves,not_forall] at lags
  obtain ⟨provider,registered,expires,unvisited⟩ := lags
  intro after
  obtain ⟨store,health⟩ := (step_saved ends provider.name).untouched unvisited
  rcases keepServing_expires world (inOrder world.registry call.capability call.order) s provider.name with
    ⟨⟨_,_,elapsed⟩,available⟩ | ⟨never,_⟩
  · have waiting := elapsed_unavailable elapsed
    have live : ((step world s call).health provider.name).status = .available := by
      rw [health]
      exact available
    rcases coherent provider registered with saved | ⟨_,initial⟩
    · rcases after provider registered with same | ⟨empty,_⟩
      · rw [store,candidates_store,saved,Option.some.injEq] at same
        rw [← same] at live
        exact waiting live
      · rw [store,candidates_store,saved] at empty
        cases empty
    · rw [initial] at waiting
      exact waiting rfl
  · exact never expires

/-- A call ends as it should where the custom providers raise nothing but `ProviderError`. -/
theorem ends_of_contract {world : World} {s : ManagerState} {call : ManagerCall}
    (contract : Contract world world.registry.providers) : Ends world s call := by
  have loop : ∀ cs number failedOver t, (∀ provider ∈ cs, provider ∈ world.registry.providers) → ∀ text,
      (failover world call.request call.capability (candidates world call.capability call.order s).2.length cs number
        failedOver t).2 ≠ .error (.escaped text) := by
    intro cs
    induction cs with
    | nil =>
      intro number failedOver t _ text escaped
      cases escaped
    | cons provider rest ih =>
      intro number failedOver t registered text
      have later : ∀ next, (failover world call.request call.capability
          (candidates world call.capability call.order s).2.length rest (number + 1) (failedOver ++ [provider.name]) next).2 ≠
            .error (.escaped text) :=
        fun next => ih _ _ next (fun other member => registered other (List.mem_cons_of_mem _ member)) text
      obtain ⟨reply,replied⟩ := invoke_reply
        (contract provider (registered provider List.mem_cons_self) · t.invoked.length) call.request
      simp only [failover,replied]
      split
      · exact later _
      · cases reply with
        | response response => intro escaped; cases escaped
        | error exc => exact later _
  intro text
  by_cases none : (candidates world call.capability call.order s).2 = []
  · simp only [complete,if_pos none]
    intro escaped
    cases escaped
  · simp only [complete,if_neg none]
    exact loop _ 1 [] _ (fun provider member => inOrder_registered ((keepServing_sublist world _ s).subset member)) text

/-- The store keeps up with the live health, in every run of calls that return or raise
    `NoProviderAvailable`, exactly when each call comes to every provider whose cooldown
    it resolves. -/
theorem coherent_always_iff {world : World} {calls : List ManagerCall} (ends : Each (step world) (Ends world) {} calls) :
    Always (step world) (Coherent world) {} calls ↔ Each (step world) (Saves world) {} calls := by
  have fresh : Coherent world {} := fun _ _ => .inr ⟨rfl,rfl⟩
  exact always_iff_each_allowed (Coherent world) (Ends world) (fun _ coherent => coherent)
    (fun _ _ coherent ends saves => step_coherent coherent ends saves)
    (fun _ _ coherent ends lags => step_lags coherent ends lags) fresh ends

/-- OpenAI is rate limited once and answers otherwise, and Claude always answers; a
    reading of a clock comes a minute after the one before it. -/
def limitedOnce : World where
  registry := ⟨[openAIProvider none,claudeProvider none],by decide⟩
  clock := fun _ reading => reading * 60000000
  answers := fun number _ =>
    .reply (if number = 0 then .error (providerRateLimited "429") else .response ⟨"m","ok","stop",⟨1,1,2⟩⟩)

def askReview (first second : String) : ManagerCall := ⟨⟨"m",[]⟩,.review,some [first,second]⟩

/-- OpenAI is rate limited, and Claude serves; then Claude serves again, although OpenAI's
    cooldown is over. -/
def lagging : List ManagerCall := [askReview "openai" "claude",askReview "claude" "openai"]

theorem lagging_ends : Each (step limitedOnce) (Ends limitedOnce) {} lagging := by
  have contract : Contract limitedOnce limitedOnce.registry.providers := by
    intro provider member custom
    simp only [limitedOnce,List.mem_cons,List.not_mem_nil,or_false] at member
    rcases member with rfl | rfl <;> cases custom
  simp only [lagging,each_cons]
  exact ⟨ends_of_contract contract,ends_of_contract contract,each_nil⟩

theorem limited_once_lags : Each (step limitedOnce) (Ends limitedOnce) {} lagging ∧
    ¬ Always (step limitedOnce) (Coherent limitedOnce) {} lagging := by
  refine ⟨lagging_ends,?_⟩
  intro always
  have store : ((run (step limitedOnce) {} lagging).store "openai").map ProviderHealth.status = some .rateLimited := by
    decide +kernel
  have live : ((run (step limitedOnce) {} lagging).health "openai").status = .available := by decide +kernel
  rcases always.last (openAIProvider none) List.mem_cons_self with saved | ⟨empty,_⟩
  · change (run (step limitedOnce) {} lagging).store "openai" =
      some ((run (step limitedOnce) {} lagging).health "openai") at saved
    rw [saved,Option.map_some,live] at store
    cases store
  · change (run (step limitedOnce) {} lagging).store "openai" = none at empty
    rw [empty] at store
    cases store

theorem limited_once_iff : Always (step limitedOnce) (Coherent limitedOnce) {} lagging ↔
    Each (step limitedOnce) (Saves limitedOnce) {} lagging :=
  coherent_always_iff lagging_ends

end Hookclose.SavedHealth
