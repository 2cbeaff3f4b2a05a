import Hookclose.GracefulDegradation

/-!
What a status says about the past. A provider is rate limited or offline only if one of its
invocations ended so, it has failed only if as many of them as its threshold failed in other
ways, and no call ever puts one into cooldown: `Explained` holds of every record throughout a
run of calls, however the other providers fare.
-/
namespace Hookclose.StatusCauses
open Hookclose.ProviderState Hookclose.BaseProvider Hookclose.Vendors Hookclose.ProviderRegistry
open Hookclose.ProviderManager Hookclose.Failover Hookclose.SavedHealth Hookclose.GracefulDegradation Hookclose.Runs

/-! ### Outcomes -/

/-- An invocation that ends with a rate limit. -/
def limits : Outcome → Bool
  | .reply (.error exc) => exc.isRateLimited
  | _ => false

/-- One that ends with credit exhaustion. -/
def exhausts : Outcome → Bool
  | .reply (.error exc) => exc.isCreditExhausted
  | _ => false

/-- One whose failure counts toward the threshold. -/
def counts : Outcome → Bool
  | .reply (.error exc) => exc.isGeneric
  | .reply (.response _) => false
  | .exception _ => true

/-- How many invocations of a provider have ended in a certain way. -/
def tally (world : World) (name : String) (ends : Outcome → Bool) (invoked : List String) : Nat :=
  invoked.zipIdx.countP (fun invocation => decide (invocation.1 = name) && ends (world.answers invocation.2 name))

section
variable {world : World} {name : String} {ends : Outcome → Bool} {invoked : List String}

theorem tally_concat (other : String) :
    tally world name ends (invoked ++ [other]) =
      tally world name ends invoked + if other = name ∧ ends (world.answers invoked.length name) = true then 1 else 0 := by
  simp [tally,List.zipIdx_append]

theorem tally_le (other : String) : tally world name ends invoked ≤ tally world name ends (invoked ++ [other]) := by
  rw [tally_concat]
  exact Nat.le_add_right _ _

theorem tally_own (ended : ends (world.answers invoked.length name) = true) :
    tally world name ends (invoked ++ [name]) = tally world name ends invoked + 1 := by
  rw [tally_concat,if_pos ⟨rfl,ended⟩]

end

/-- An error that a provider raises is what its adapter raised, or wraps what is no provider
    error and counts as a failure. -/
theorem invoke_error {provider : Provider} {request : LLMRequest} {answer : Outcome} {exc : ProviderError}
    (raised : invoke provider request answer = .reply (.error exc)) :
    answer = .reply (.error exc) ∨ ((∃ text, answer = .exception text) ∧ exc.isGeneric = true) := by
  have unwrapped : ∀ label, wrapped label answer = .reply (.error exc) →
      answer = .reply (.error exc) ∨ ((∃ text, answer = .exception text) ∧ exc.isGeneric = true) := by
    intro label raised
    cases answer with
    | reply reply => exact .inl raised
    | exception text =>
      cases raised
      exact .inr ⟨⟨text,rfl⟩,rfl⟩
  unfold invoke at raised
  cases kind : provider.vendor with
  | custom =>
    rw [kind] at raised
    exact .inl raised
  | adapter =>
    rw [kind] at raised
    exact unwrapped _ raised
  | localModel adapter =>
    rw [kind] at raised
    cases adapter with
    | true => exact unwrapped _ raised
    | false => simp at raised

/-! ### Records -/

/-- The cause of a status among the invocations so far. -/
def Caused (world : World) (profile : ProviderProfile) (invoked : List String) : ProviderStatus → Prop
  | .available => True
  | .rateLimited => 1 ≤ tally world profile.name limits invoked
  | .offline => 1 ≤ tally world profile.name exhausts invoked
  | .failed => profile.maxConsecutiveFailures ≤ tally world profile.name counts invoked
  | .cooldown => False

/-- The invocations so far account for a record. -/
structure Explained (world : World) (profile : ProviderProfile) (invoked : List String) (health : ProviderHealth) : Prop where
  failures : health.consecutiveFailures ≤ tally world profile.name counts invoked
  caused : Caused world profile invoked health.status

section
variable {world : World} {profile : ProviderProfile} {invoked : List String} {health : ProviderHealth}

theorem explained_fresh : Explained world profile [] {} := ⟨by simp [tally],trivial⟩

theorem Caused.later {status : ProviderStatus} (caused : Caused world profile invoked status) (other : String) :
    Caused world profile (invoked ++ [other]) status := by
  have grown : ∀ ends, tally world profile.name ends invoked ≤ tally world profile.name ends (invoked ++ [other]) :=
    fun ends => tally_le other
  cases status with
  | available => trivial
  | rateLimited => exact caused.trans (grown limits)
  | offline => exact caused.trans (grown exhausts)
  | failed => exact Int.le_trans caused (by exact_mod_cast grown counts)
  | cooldown => exact caused

theorem Explained.later (explained : Explained world profile invoked health) (other : String) :
    Explained world profile (invoked ++ [other]) health := by
  refine ⟨?_,explained.caused.later other⟩
  have grown := @tally_le world profile.name counts invoked other
  have failures := explained.failures
  omega

theorem explained_refresh (explained : Explained world profile invoked health) (reading : Instant) :
    Explained world profile invoked (refresh health reading).1 := by
  rcases refresh_cases health reading with same | ⟨_,_,_,_,same⟩
  · rw [same]
    exact explained
  · rw [same]
    exact ⟨by simp,trivial⟩

/-- The reply to an invocation accounts for what the record says then. -/
theorem explained_record {provider : Provider} {request : LLMRequest} {reply : Reply}
    (explained : Explained world provider.profile invoked health)
    (replied : invoke provider request (world.answers invoked.length provider.name) = .reply reply) (reading : Instant) :
    Explained world provider.profile (invoked ++ [provider.name]) (record provider.profile health reply reading) := by
  cases reply with
  | response response => exact ⟨by simp [record,recordSuccess],trivial⟩
  | error exc =>
    have before := explained.later provider.name
    rcases error_cases exc with limited | ⟨limited,exhausted⟩ | generic
    · rw [record,recordFailure_rateLimited limited]
      refine ⟨before.failures,?_⟩
      rcases invoke_error replied with raised | ⟨_,generic⟩
      · have own := @tally_own world provider.name limits invoked (by rw [raised]; exact limited)
        simp only [Caused]
        rw [← Provider.name,own]
        omega
      · rw [(isGeneric_iff.mp generic).1] at limited
        cases limited
    · rw [record,recordFailure_creditExhausted limited exhausted]
      refine ⟨before.failures,?_⟩
      rcases invoke_error replied with raised | ⟨_,generic⟩
      · have own := @tally_own world provider.name exhausts invoked (by rw [raised]; exact exhausted)
        simp only [Caused]
        rw [← Provider.name,own]
        omega
      · rw [(isGeneric_iff.mp generic).2] at exhausted
        cases exhausted
    · have counted : counts (world.answers invoked.length provider.name) = true := by
        rcases invoke_error replied with raised | ⟨⟨text,raised⟩,_⟩
        · rw [raised]
          exact generic
        · rw [raised]
          rfl
      have own := @tally_own world provider.name counts invoked counted
      have failures : health.consecutiveFailures + 1 ≤ tally world provider.name counts (invoked ++ [provider.name]) := by
        have one := explained.failures
        rw [← Provider.name] at one
        omega
      by_cases reached : provider.profile.maxConsecutiveFailures ≤ health.consecutiveFailures + 1
      · rw [record,recordFailure_trips generic reached]
        exact ⟨failures,reached.trans failures⟩
      · rw [record,recordFailure_counts generic (by omega)]
        exact ⟨failures,before.caused⟩

end

/-! ### Runs of calls -/

/-- Every record is accounted for. -/
def Accounted (world : World) (s : ManagerState) : Prop :=
  ∀ provider ∈ world.registry.providers, Explained world provider.profile s.invoked (s.health provider.name)

section
variable {world : World} {s : ManagerState}

theorem registered_same {provider other : Provider} (first : provider ∈ world.registry.providers)
    (second : other ∈ world.registry.providers) (same : other.name = provider.name) : other = provider :=
  List.inj_on_of_nodup_map world.registry.distinct second first same

theorem candidates_accounted (accounted : Accounted world s) (capability : Capability) (order : Option (List String)) :
    Accounted world (candidates world capability order s).1 := by
  intro provider member
  rw [candidates_invoked]
  rcases (keepServing_refreshed world (inOrder world.registry capability order) s provider.name).resolved with
    same | ⟨reading,_,_,same⟩
  · rw [candidates,same]
    exact accounted provider member
  · rw [candidates,same]
    exact explained_refresh (accounted provider member) _

theorem attempt_accounted (accounted : Accounted world s) {provider : Provider} (registered : provider ∈ world.registry.providers)
    (capability : Capability) (number : Nat) : Accounted world (attempt world provider capability number s).1 := by
  obtain ⟨apart,_,outcome⟩ := attempt_cases world provider capability number s
  intro other member
  by_cases same : other.name = provider.name
  · cases registered_same registered member same
    have refreshed := explained_refresh (accounted provider member) (now world provider s)
    rcases outcome with ⟨_,_,invoked,health,_⟩ | ⟨_,invoked,health,_⟩
    · rw [invoked,health]
      exact refreshed
    · rw [invoked,health]
      have later := refreshed.later provider.name
      exact ⟨later.failures,later.caused⟩
  · rw [apart _ same]
    rcases outcome with ⟨_,_,invoked,_⟩ | ⟨_,invoked,_⟩
    · rw [invoked]
      exact accounted other member
    · rw [invoked]
      exact (accounted other member).later _

/-- A provider that was invoked records the reply. -/
theorem recordReply_accounted (accounted : Accounted world s) {provider : Provider} {request : LLMRequest} {reply : Reply}
    (registered : provider ∈ world.registry.providers) {capability : Capability} {number : Nat}
    (begun : (attempt world provider capability number s).2 = none)
    (replied : invoke provider request (world.answers s.invoked.length provider.name) = .reply reply) :
    Accounted world (recordReply world provider reply (attempt world provider capability number s).1) := by
  intro other member
  by_cases same : other.name = provider.name
  · cases registered_same registered member same
    obtain ⟨_,_,⟨_,refused,_⟩ | ⟨_,invoked,health,_⟩⟩ := attempt_cases world provider capability number s
    · rw [begun] at refused
      cases refused
    · rw [recordReply_invoked,recordReply_self,invoked,health]
      have refreshed := explained_refresh (accounted provider member) (now world provider s)
      have known : Explained world provider.profile s.invoked { (refresh (s.health provider.name) (now world provider s)).1 with
          totalRequests := (s.health provider.name).totalRequests + 1 } := ⟨refreshed.failures,refreshed.caused⟩
      exact explained_record known replied _
  · rw [recordReply_invoked,recordReply_other world same]
    exact attempt_accounted accounted registered capability number other member

theorem failover_accounted (request : LLMRequest) (capability : Capability) (total : Nat) {cs : List Provider}
    (within : ∀ provider ∈ cs, provider ∈ world.registry.providers) (number : Nat) (failedOver : List String)
    (accounted : Accounted world s) :
    Accounted world (failover world request capability total cs number failedOver s).1 := by
  induction cs generalizing number failedOver s with
  | nil => exact accounted
  | cons provider rest ih =>
    have others : ∀ other ∈ rest, other ∈ world.registry.providers :=
      fun other member => within other (List.mem_cons_of_mem _ member)
    have registered := within provider List.mem_cons_self
    have tried := attempt_accounted accounted registered capability number
    have onward : ∀ exc state, Accounted world state →
        Accounted world (failover world request capability total rest (number + 1) (failedOver ++ [provider.name])
          (onFailure provider capability exc state)).1 := by
      intro exc state account
      apply ih others
      intro other member
      rw [onFailure_invoked,onFailure_health]
      exact account other member
    cases begun : (attempt world provider capability number s).2 with
    | some exc =>
      simp only [failover,begun]
      exact onward exc _ tried
    | none =>
      simp only [failover,begun]
      cases invoked : invoke provider request (world.answers s.invoked.length provider.name) with
      | exception text => exact tried
      | reply reply =>
        have recorded := recordReply_accounted accounted registered begun invoked
        cases reply with
        | response response =>
          intro other member
          rw [onSuccess_invoked,onSuccess_health]
          exact recorded other member
        | error exc => exact onward exc _ recorded

theorem step_accounted (accounted : Accounted world s) (call : ManagerCall) : Accounted world (step world s call) := by
  have checked := candidates_accounted accounted call.capability call.order
  have within : ∀ provider ∈ (candidates world call.capability call.order s).2, provider ∈ world.registry.providers :=
    fun provider member => inOrder_registered ((keepServing_sublist world _ s).subset member)
  unfold step complete
  by_cases none : (candidates world call.capability call.order s).2 = []
  · simp only [if_pos none]
    exact checked
  · simp only [if_neg none]
    exact failover_accounted call.request call.capability _ within 1 [] checked

/-- In every run of calls the invocations account for every record. -/
theorem statuses_explained (world : World) (calls : List ManagerCall) : Always (step world) (Accounted world) {} calls :=
  always_of_step _ (fun _ call accounted => step_accounted accounted call) (fun _ _ => explained_fresh) calls

end

end Hookclose.StatusCauses
