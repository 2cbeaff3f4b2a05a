import Hookclose.Census
import Hookclose.EventLog
import Hookclose.OverlappingCalls

/-!
The books of a manager under overlapping calls. The counters of a provider, the events
about it and the calls that await it balance after every block, in any interleaving:
what a provider has been asked is answered or still awaited, what it has answered is
announced, and a selection that its provider refused is announced as a failover too.
-/
namespace Hookclose.OverlapAccounts
open Hookclose.ProviderState Hookclose.BaseProvider Hookclose.Vendors Hookclose.ProviderRegistry
open Hookclose.ProviderManager Hookclose.Failover Hookclose.EventLog Hookclose.Runs Hookclose.Census
open Hookclose.SavedHealth (onSuccess_health)
open Hookclose.OverlappingCalls (Flight CallState SystemState Block advance enterCall resumeCall settle step settle_self
  settle_other step_enter step_resume oneVendor enterReview answered)

def isSuccess (name : String) : ProviderEvent → Bool
  | .invocationSucceeded provider _ _ => decide (provider = name)
  | _ => false

/-- The requests to a provider that have neither been served nor failed. -/
def unanswered (name : String) (s : ManagerState) : Int :=
  (s.health name).totalRequests - (s.health name).totalFailures - s.events.countP (isSuccess name)

/-- The failures of a provider that have not been announced; less than none where a
    failover was announced of a provider that had not been asked. -/
def unannounced (name : String) (s : ManagerState) : Int :=
  (s.health name).totalFailures - s.events.countP (isFailover name)

/-- The selections of a provider that it has not been asked after. -/
def refused (name : String) (s : ManagerState) : Int :=
  s.events.countP (isSelection name) - (s.health name).totalRequests

/-- What a stretch of calls does to the books of a provider: it opens so many requests. -/
structure Balances (name : String) (opened : Int) (before after : ManagerState) : Prop where
  requests : unanswered name after = unanswered name before + opened
  failures : unannounced name after + refused name after = unannounced name before + refused name before
  tokensUsed : (after.health name).tokensUsed - tokens name after.events =
    (before.health name).tokensUsed - tokens name before.events

theorem Balances.trans {name : String} {first second : Int} {s t u : ManagerState} (early : Balances name first s t)
    (late : Balances name second t u) : Balances name (first + second) s u := by
  refine ⟨?_,late.failures.trans early.failures,late.tokensUsed.trans early.tokensUsed⟩
  rw [late.requests,early.requests,add_assoc]

/-- A stretch of calls that leaves the counters and the log alone. -/
theorem balances_of_same {name : String} {s t : ManagerState} (events : t.events = s.events)
    (requests : (t.health name).totalRequests = (s.health name).totalRequests)
    (failures : (t.health name).totalFailures = (s.health name).totalFailures)
    (tokensUsed : (t.health name).tokensUsed = (s.health name).tokensUsed) : Balances name 0 s t := by
  constructor <;> simp [unanswered,unannounced,refused,events,requests,failures,tokensUsed]

/-- Resolving cooldowns counts nothing. -/
theorem keepServing_balances (world : World) (providers : List Provider) (s : ManagerState) (name : String) :
    Balances name 0 s (keepServing world providers s).1 := by
  have counters : Tallies name (s.health name) [] ((keepServing world providers s).1.health name) :=
    refreshed_tallies (keepServing_refreshed world providers s name)
  refine balances_of_same (keepServing_events world providers s) ?_ ?_ ?_
  · simpa using counters.requests
  · simpa using counters.failures
  · simpa [tokens] using counters.tokensUsed

@[simp] theorem failureEvents_successes (name : String) (provider : Provider) (capability : Capability) (exc : ProviderError)
    (health : ProviderHealth) : (failureEvents provider capability exc health).countP (isSuccess name) = 0 := by
  cases credit : exc.isCreditExhausted <;> by_cases still : health.status = .available <;>
    simp [failureEvents,isSuccess,credit,still]

/-- The request that a call has open with a provider. -/
def openWith (name : String) : CallState → Int
  | .awaiting flight => if flight.provider.name = name then 1 else 0
  | _ => 0

section
variable {world : World} {provider : Provider} {capability : Capability} {number : Nat} {s : ManagerState}

/-- A selection after which the provider is asked opens one request. -/
theorem attempt_balances (started : (attempt world provider capability number s).2 = none) (name : String) :
    Balances name (if provider.name = name then 1 else 0) s (attempt world provider capability number s).1 := by
  have events := attempt_events world provider capability number s
  obtain ⟨others,_,raised | ⟨_,_,record,_⟩⟩ := attempt_cases world provider capability number s
  · obtain ⟨exc,raised,_⟩ := raised
    rw [started] at raised
    cases raised
  · by_cases same : provider.name = name
    · subst same
      have failures : (refresh (s.health provider.name) (now world provider s)).1.totalFailures =
          (s.health provider.name).totalFailures := by
        rcases refresh_cases (s.health provider.name) (now world provider s) with kept | ⟨_,_,_,_,kept⟩ <;> rw [kept]
      constructor
      · simp only [unanswered,record,events,failures,List.countP_append]
        simp [isSuccess]
        omega
      · simp only [unannounced,refused,record,events,failures,List.countP_append]
        simp [isFailover,isSelection]
      · simp only [record,events,tokens_append,refresh_tokensUsed]
        simp [tokens,tokensOf]
    · rw [if_neg same]
      constructor <;>
        simp [unanswered,unannounced,refused,others name (Ne.symm same),events,isSuccess,isFailover,isSelection,same,
          tokens,tokensOf]

/-- A selection that the provider refuses is announced as a failover. -/
theorem refusal_balances {exc : ProviderError} (refusal : (attempt world provider capability number s).2 = some exc)
    (name : String) :
    Balances name 0 s (onFailure provider capability exc (attempt world provider capability number s).1) := by
  have events := attempt_events world provider capability number s
  have counters : ((attempt world provider capability number s).1.health name).totalRequests =
        (s.health name).totalRequests ∧
      ((attempt world provider capability number s).1.health name).totalFailures = (s.health name).totalFailures ∧
      ((attempt world provider capability number s).1.health name).tokensUsed = (s.health name).tokensUsed := by
    obtain ⟨others,_,⟨_,_,_,record,_⟩ | ⟨started,_⟩⟩ := attempt_cases world provider capability number s
    · by_cases same : name = provider.name
      · subst same
        rw [record]
        rcases refresh_cases (s.health provider.name) (now world provider s) with kept | ⟨_,_,_,_,kept⟩ <;> simp [kept]
      · simp [others name same]
    · rw [refusal] at started
      cases started
  obtain ⟨requests,failures,tokensUsed⟩ := counters
  constructor
  · simp only [unanswered,onFailure_events,onFailure_health,events,requests,failures,List.countP_append]
    simp [isSuccess,failureEvents_successes]
  · simp only [unannounced,refused,onFailure_events,onFailure_health,events,requests,failures,List.countP_append]
    simp [isFailover,isSelection]
    split_ifs <;> omega
  · simp only [onFailure_events,onFailure_health,events,tokensUsed,tokens_append,failureEvents_tokens]
    simp [tokens,tokensOf]

/-- A response answers one request, and its tokens are announced. -/
theorem response_balances (response : LLMResponse) (name : String) :
    Balances name (-(if provider.name = name then 1 else 0)) s
      (onSuccess provider capability response (recordReply world provider (.response response) s)) := by
  have events : (onSuccess provider capability response (recordReply world provider (.response response) s)).events =
      s.events ++ [.invocationSucceeded provider.name capability.value response.usage.totalTokens] := rfl
  by_cases same : provider.name = name
  · subst same
    constructor
    · simp [unanswered,events,isSuccess,record,recordSuccess]
      omega
    · simp [unannounced,refused,events,isFailover,isSelection,record,recordSuccess]
    · simp [events,tokens,tokensOf,record,recordSuccess]
  · have others : (onSuccess provider capability response (recordReply world provider (.response response) s)).health name =
        s.health name := by
      rw [onSuccess_health,recordReply_other world (Ne.symm same)]
    constructor <;>
      simp [unanswered,unannounced,refused,events,others,isSuccess,isFailover,isSelection,same,tokens,tokensOf]

/-- A failure answers one request, and is announced. -/
theorem error_balances (exc : ProviderError) (name : String) :
    Balances name (-(if provider.name = name then 1 else 0)) s
      (onFailure provider capability exc (recordReply world provider (.error exc) s)) := by
  by_cases same : provider.name = name
  · subst same
    constructor
    · simp [unanswered,onFailure_events,failureEvents_successes,record]
      omega
    · simp [unannounced,refused,onFailure_events,record]
    · simp [onFailure_events,tokens_append,record]
  · have others : (recordReply world provider (.error exc) s).health name = s.health name :=
      recordReply_other world (Ne.symm same) _ s
    constructor <;>
      simp [unanswered,unannounced,refused,onFailure_events,failureEvents_successes,others,same,tokens_append]

end

/-! ### Blocks -/

/-- The failover loop opens a request with the provider that it comes to await. -/
theorem advance_balances (world : World) (request : LLMRequest) (capability : Capability) (total : Nat)
    (cs : List Provider) (number : Nat) (failedOver : List String) (s : ManagerState) (name : String) :
    let next := advance world request capability total cs number failedOver s
    Balances name (openWith name next.2) s next.1 := by
  induction cs generalizing number failedOver s with
  | nil => constructor <;> simp [advance,openWith,unanswered,unannounced,refused,emit,isSuccess,isFailover,isSelection,
      tokens,tokensOf]
  | cons provider rest ih =>
    cases begun : (attempt world provider capability number s).2 with
    | some exc =>
      simp only [advance,begun]
      rw [← zero_add (openWith name _)]
      exact (refusal_balances begun name).trans (ih (number + 1) (failedOver ++ [provider.name]) _)
    | none =>
      simp only [advance,begun,openWith]
      exact attempt_balances begun name

theorem enterCall_balances (world : World) (request : LLMRequest) (capability : Capability)
    (order : Option (List String)) (s : ManagerState) (name : String) :
    let next := enterCall world request capability order s
    Balances name (openWith name next.2) s next.1 := by
  have drawn : Balances name 0 s (candidates world capability order s).1 := keepServing_balances world _ s name
  by_cases none : (candidates world capability order s).2 = []
  · simp only [enterCall,if_pos none,openWith]
    have announced : Balances name 0 (candidates world capability order s).1
        (emit (.allExhausted capability.value []) (candidates world capability order s).1) := by
      constructor <;> simp [unanswered,unannounced,refused,emit,isSuccess,isFailover,isSelection,tokens,tokensOf]
    simpa using drawn.trans announced
  · simp only [enterCall,if_neg none]
    rw [← zero_add (openWith name _)]
    exact drawn.trans (advance_balances world request capability _ (candidates world capability order s).2 1 [] _ name)

/-- The reply of a call answers its request, and the loop may open another. -/
theorem resumeCall_balances (world : World) (flight : Flight) (outcome : Outcome) (s : ManagerState)
    (replied : ∃ reply, invoke flight.provider flight.request outcome = .reply reply) (name : String) :
    let next := resumeCall world flight outcome s
    Balances name (openWith name next.2 - openWith name (.awaiting flight)) s next.1 := by
  obtain ⟨reply,replied⟩ := replied
  cases reply with
  | response response =>
    simp only [resumeCall,replied,openWith,zero_sub]
    exact response_balances response name
  | error exc =>
    simp only [resumeCall,replied]
    rw [← neg_add_eq_sub]
    exact (error_balances exc name).trans (advance_balances world flight.request flight.capability flight.total
      flight.rest (flight.number + 1) (flight.failedOver ++ [flight.provider.name]) _ name)

/-! ### Interleavings -/

/-- A call awaits the provider. -/
def Awaits (s : SystemState) (name : String) (call : Nat) : Prop := openWith name (s.calls call) = 1

instance (s : SystemState) (name : String) (call : Nat) : Decidable (Awaits s name call) :=
  inferInstanceAs (Decidable (_ = _))

/-- The block lets no exception but a `ProviderError` out of a provider. -/
def Contracted (s : SystemState) : Block → Prop
  | .enter _ _ _ _ => True
  | .resume call outcome => ∀ flight, s.calls call = .awaiting flight → flight.provider.vendor = .custom →
      ∃ reply, outcome = .reply reply

/-- The books of a provider with so many calls that await it. -/
structure Balanced (s : SystemState) (name : String) (inFlight : Nat) : Prop where
  requests : (s.manager.health name).totalRequests =
    s.manager.events.countP (isSuccess name) + (s.manager.health name).totalFailures + inFlight
  failures : (s.manager.events.countP (isFailover name) : Int) + (s.manager.health name).totalRequests =
    s.manager.events.countP (isSelection name) + (s.manager.health name).totalFailures
  tokensUsed : (s.manager.health name).tokensUsed = tokens name s.manager.events

theorem openWith_cases (name : String) (state : CallState) : openWith name state = 0 ∨ openWith name state = 1 := by
  unfold openWith
  split
  · split_ifs
    · exact .inr rfl
    · exact .inl rfl
  · exact .inl rfl

/-- A block that balances keeps the books of a provider balanced. -/
theorem settle_balanced {world : World} {call : Nat} {s t : SystemState} {next : ManagerState × CallState} {name : String}
    (books : ∃ inFlight, Counted (Awaits s name) inFlight ∧ Balanced s name inFlight) (calls : t.calls = s.calls)
    (balances : Balances name (openWith name next.2 - openWith name (s.calls call)) s.manager next.1) :
    ∃ inFlight, Counted (Awaits (settle world call next t) name) inFlight ∧ Balanced (settle world call next t) name inFlight := by
  obtain ⟨inFlight,counted,balanced⟩ := books
  obtain ⟨after,recounted,change⟩ := counted.moved (Q := Awaits (settle world call next t) name) (x := call) (by
    intro other differs
    rw [Awaits,Awaits,settle_other differs,calls])
  refine ⟨after,recounted,?_⟩
  have moved : (after : Int) = inFlight + (openWith name next.2 - openWith name (s.calls call)) := by
    simp only [Awaits,settle_self] at change
    rcases openWith_cases name next.2 with new | new <;> rcases openWith_cases name (s.calls call) with old | old <;>
      simp [new,old] at change ⊢ <;> omega
  have requests := balances.requests
  have failures := balances.failures
  have tokensUsed := balances.tokensUsed
  unfold unanswered at requests
  unfold unannounced refused at failures
  obtain ⟨asked,announced,used⟩ := balanced
  refine ⟨?_,?_,?_⟩
  · show (next.1.health name).totalRequests = next.1.events.countP (isSuccess name) + (next.1.health name).totalFailures + after
    omega
  · show (next.1.events.countP (isFailover name) : Int) + (next.1.health name).totalRequests =
      next.1.events.countP (isSelection name) + (next.1.health name).totalFailures
    omega
  · show (next.1.health name).tokensUsed = tokens name next.1.events
    omega

theorem step_balanced {world : World} {s : SystemState} {block : Block} (contracted : Contracted s block) {name : String}
    (books : ∃ inFlight, Counted (Awaits s name) inFlight ∧ Balanced s name inFlight) :
    ∃ inFlight, Counted (Awaits (step world s block) name) inFlight ∧ Balanced (step world s block) name inFlight := by
  cases block with
  | enter call request capability order =>
    cases state : s.calls call with
    | idle =>
      rw [step_enter world state]
      refine settle_balanced books rfl ?_
      rw [state,show openWith name CallState.idle = 0 from rfl,sub_zero]
      exact enterCall_balances world request capability order s.manager name
    | awaiting flight => simpa [step,state] using books
    | finished result => simpa [step,state] using books
  | resume call outcome =>
    cases state : s.calls call with
    | idle => simpa [step,state] using books
    | finished result => simpa [step,state] using books
    | awaiting flight =>
      rw [step_resume world state]
      refine settle_balanced books rfl ?_
      rw [state]
      exact resumeCall_balances world flight outcome s.manager
        (invoke_reply (contracted flight state) flight.request) name

end Hookclose.OverlapAccounts
