import Hookclose.Census
import Hookclose.OverlappingCalls

/-!
How far a budget can be overrun. The budget of a provider is checked when a call draws
up its candidates, and not again; every call that still has the provider among those it
may ask can add one response to what has been used by then. So the overrun is bounded by
the calls in flight.
-/
namespace Hookclose.BudgetOverrun
open Hookclose.ProviderState Hookclose.BaseProvider Hookclose.Vendors Hookclose.ProviderRegistry
open Hookclose.ProviderManager Hookclose.Failover Hookclose.OverlappingCalls Hookclose.Runs Hookclose.Census

/-- A call is awaiting a provider. -/
def InFlight (s : SystemState) (call : Nat) : Prop := ∃ flight, s.calls call = .awaiting flight

/-- A call awaits the provider, or may still come to ask it. -/
def Claims (name : String) : CallState → Prop
  | .awaiting flight => ∃ provider ∈ flight.provider :: flight.rest, provider.name = name
  | _ => False

/-- No response takes more tokens than the bound. -/
def Sized (most : Int) (s : SystemState) : Block → Prop
  | .enter _ _ _ _ => True
  | .resume call outcome => ∀ flight, s.calls call = .awaiting flight → ∀ response,
      invoke flight.provider flight.request outcome = .reply (.response response) → response.usage.totalTokens ≤ most

/-- No more calls than the bound are in flight. -/
def Concurrent (most : Nat) (s : SystemState) : Prop := ∃ count, Counted (InFlight s) count ∧ count ≤ most

/-- The providers that the calls in flight may ask are registered. -/
def Registered (world : World) (s : SystemState) : Prop :=
  ∀ call flight, s.calls call = .awaiting flight → ∀ provider ∈ flight.provider :: flight.rest,
    provider ∈ world.registry.providers

/-! ### Blocks -/

/-- A stretch of a call uses no tokens, and the call goes on with candidates that it had. -/
structure Within (cs : List Provider) (s : ManagerState) (next : ManagerState × CallState) : Prop where
  tokensUsed : ∀ name, (next.1.health name).tokensUsed = (s.health name).tokensUsed
  candidates : ∀ flight, next.2 = .awaiting flight → ∀ provider ∈ flight.provider :: flight.rest, provider ∈ cs

theorem advance_within (world : World) (request : LLMRequest) (capability : Capability) (total : Nat)
    (cs : List Provider) (number : Nat) (failedOver : List String) (s : ManagerState) :
    Within cs s (advance world request capability total cs number failedOver s) := by
  induction cs generalizing number failedOver s with
  | nil =>
    refine ⟨fun _ => rfl,?_⟩
    intro flight awaiting
    simp [advance] at awaiting
  | cons provider rest ih =>
    have begunQuiet := attempt_quiet world provider capability number s
    cases begun : (attempt world provider capability number s).2 with
    | some exc =>
      simp only [advance,begun]
      have later := ih (number + 1) (failedOver ++ [provider.name])
        (onFailure provider capability exc (attempt world provider capability number s).1)
      refine ⟨?_,?_⟩
      · intro name
        rw [later.tokensUsed,onFailure_health,begunQuiet.tokensUsed]
      · intro flight awaiting other member
        exact List.mem_cons_of_mem _ (later.candidates flight awaiting other member)
    | none =>
      simp only [advance,begun]
      refine ⟨begunQuiet.tokensUsed,?_⟩
      rintro flight ⟨⟩ other member
      exact member

theorem enterCall_within (world : World) (request : LLMRequest) (capability : Capability)
    (order : Option (List String)) (s : ManagerState) :
    Within (candidates world capability order s).2 s (enterCall world request capability order s) := by
  have drawn : Quiet world s (candidates world capability order s).1 := keepServing_quiet world _ s
  by_cases none : (candidates world capability order s).2 = []
  · simp only [enterCall,if_pos none]
    refine ⟨drawn.tokensUsed,?_⟩
    intro flight awaiting
    cases awaiting
  · simp only [enterCall,if_neg none]
    have later := advance_within world request capability (candidates world capability order s).2.length
      (candidates world capability order s).2 1 [] (candidates world capability order s).1
    exact ⟨fun name => (later.tokensUsed name).trans (drawn.tokensUsed name),later.candidates⟩

/-- A candidate of a new call has budget left. -/
theorem candidate_budget {world : World} {capability : Capability} {order : Option (List String)} {s : ManagerState}
    {provider : Provider} (member : provider ∈ (candidates world capability order s).2) {budget : Int}
    (limited : provider.profile.dailyTokenBudget = some budget) : (s.health provider.name).tokensUsed < budget := by
  have drawn : Quiet world s (candidates world capability order s).1 := keepServing_quiet world _ s
  have has := (hasBudget_iff _ _).mp (keepServing_budget world _ s provider member) budget limited
  rw [← drawn.tokensUsed]
  exact has

/-! ### The bound -/

/-- What has been used, with one response for each claim, is within the limit. -/
structure Bounded (world : World) (name : String) (most limit : Int) (s : SystemState) : Prop where
  registered : Registered world s
  claims : ∃ claims, Counted (fun call => Claims name (s.calls call)) claims ∧
    (s.manager.health name).tokensUsed + most * claims ≤ limit

section
variable {world : World} {most limit : Int} {call : Nat} {s t : SystemState} {next : ManagerState × CallState}

theorem settle_registered (registered : Registered world s) (calls : t.calls = s.calls)
    (listed : ∀ flight, next.2 = .awaiting flight → ∀ provider ∈ flight.provider :: flight.rest,
      provider ∈ world.registry.providers) : Registered world (settle world call next t) := by
  intro other flight awaiting
  by_cases same : other = call
  · subst same
    rw [settle_self] at awaiting
    exact listed flight awaiting
  · rw [settle_other same,calls] at awaiting
    exact registered other flight awaiting

/-- A block that lets no call in, and uses no more tokens than the claims it gives up. -/
theorem settle_bounded {name : String} (positive : 0 ≤ most) (bounded : Bounded world name most limit s)
    (calls : t.calls = s.calls)
    (listed : ∀ flight, next.2 = .awaiting flight → ∀ provider ∈ flight.provider :: flight.rest,
      provider ∈ world.registry.providers)
    (kept : Claims name next.2 → Claims name (s.calls call))
    (used : (next.1.health name).tokensUsed = (s.manager.health name).tokensUsed ∨
      (Claims name (s.calls call) ∧ ¬ Claims name next.2 ∧
        (next.1.health name).tokensUsed ≤ (s.manager.health name).tokensUsed + most)) :
    Bounded world name most limit (settle world call next t) := by
  classical
  refine ⟨settle_registered bounded.registered calls listed,?_⟩
  obtain ⟨claims,counted,within⟩ := bounded.claims
  obtain ⟨after,recounted,change⟩ := counted.moved (x := call)
    (Q := fun other => Claims name ((settle world call next t).calls other)) (by
      intro other differs
      rw [settle_other differs,calls])
  refine ⟨after,recounted,?_⟩
  rw [settle_self] at change
  rw [settle_manager]
  rcases used with same | ⟨before,givenUp,spent⟩
  · have fewer : after ≤ claims := by
      by_cases claimed : Claims name next.2
      · rw [if_pos claimed,if_pos (kept claimed)] at change
        omega
      · rw [if_neg claimed] at change
        omega
    have product : most * (after : Int) ≤ most * claims := Int.mul_le_mul_of_nonneg_left (by omega) positive
    omega
  · rw [if_pos before,if_neg givenUp] at change
    have one : (claims : Int) = after + 1 := by omega
    rw [one,mul_add,mul_one] at within
    omega

/-- A new call finds the budget not used up, or claims none of it. -/
theorem enter_bounded {provider : Provider} {budget : Int} {concurrent : Nat} (positive : 0 ≤ most)
    (registered : provider ∈ world.registry.providers) (limited : provider.profile.dailyTokenBudget = some budget)
    (bounded : Bounded world provider.name most limit s) (room : budget - 1 + most * concurrent ≤ limit)
    (request : LLMRequest) (capability : Capability) (order : Option (List String))
    (few : Concurrent concurrent (settle world call (enterCall world request capability order s.manager) s)) :
    Bounded world provider.name most limit (settle world call (enterCall world request capability order s.manager) s) := by
  classical
  have entered := enterCall_within world request capability order s.manager
  have listed : ∀ flight, (enterCall world request capability order s.manager).2 = .awaiting flight →
      ∀ provider ∈ flight.provider :: flight.rest, provider ∈ world.registry.providers := by
    intro flight awaiting other member
    exact inOrder_registered ((keepServing_sublist world _ s.manager).subset (entered.candidates flight awaiting other member))
  by_cases claims : Claims provider.name (enterCall world request capability order s.manager).2
  · refine ⟨settle_registered bounded.registered rfl listed,?_⟩
    cases awaiting : (enterCall world request capability order s.manager).2 with
    | awaiting flight =>
      rw [awaiting] at claims
      obtain ⟨other,member,same⟩ := claims
      -- one name is that of one provider, so the candidate is the one with the budget
      have one : other = provider := registered_eq (listed flight awaiting other member) registered same
      subst one
      have left := candidate_budget (entered.candidates flight awaiting other member) limited
      obtain ⟨count,counted,within⟩ := few
      obtain ⟨after,recounted,fewer⟩ := counted.part
        (Q := fun caller => Claims other.name ((settle world call (enterCall world request capability order s.manager) s).calls caller))
        (by
          intro caller claimed
          cases state : (settle world call (enterCall world request capability order s.manager) s).calls caller with
          | awaiting flight => exact ⟨flight,state⟩
          | idle => rw [state] at claimed; exact claimed.elim
          | finished result => rw [state] at claimed; exact claimed.elim)
      refine ⟨after,recounted,?_⟩
      rw [settle_manager,entered.tokensUsed]
      have product : most * (after : Int) ≤ most * concurrent := Int.mul_le_mul_of_nonneg_left (by omega) positive
      omega
    | idle => rw [awaiting] at claims; exact claims.elim
    | finished result => rw [awaiting] at claims; exact claims.elim
  · exact settle_bounded positive bounded rfl listed (fun claimed => absurd claimed claims) (.inl (entered.tokensUsed _))

/-- A reply uses what its call had claimed. -/
theorem resume_bounded {name : String} {flight : Flight} {outcome : Outcome} (positive : 0 ≤ most)
    (bounded : Bounded world name most limit s) (awaiting : s.calls call = .awaiting flight)
    (sized : ∀ response, invoke flight.provider flight.request outcome = .reply (.response response) →
      response.usage.totalTokens ≤ most) :
    Bounded world name most limit (settle world call (resumeCall world flight outcome s.manager)
      { s with limits := noteLimit world call flight outcome s }) := by
  cases replied : invoke flight.provider flight.request outcome with
  | exception text =>
    simp only [resumeCall,replied]
    refine settle_bounded positive bounded rfl ?_ (fun claimed => claimed.elim) (.inl rfl)
    intro other contrary
    cases contrary
  | reply reply =>
    cases reply with
    | response response =>
      simp only [resumeCall,replied]
      refine settle_bounded positive bounded rfl ?_ (fun claimed => claimed.elim) ?_
      · intro other contrary
        cases contrary
      · by_cases same : flight.provider.name = name
        · subst same
          refine .inr ⟨?_,fun claimed => claimed,?_⟩
          · rw [awaiting]
            exact ⟨flight.provider,List.mem_cons_self,rfl⟩
          · have spent := sized response replied
            show ((recordReply world flight.provider (.response response) s.manager).health flight.provider.name).tokensUsed ≤ _
            rw [recordReply_self]
            simp only [record,recordSuccess]
            omega
        · left
          show ((recordReply world flight.provider (.response response) s.manager).health name).tokensUsed = _
          rw [recordReply_other world (Ne.symm same)]
    | error exc =>
      simp only [resumeCall,replied]
      have onward := advance_within world flight.request flight.capability flight.total flight.rest (flight.number + 1)
        (flight.failedOver ++ [flight.provider.name]) (onFailure flight.provider flight.capability exc
          (recordReply world flight.provider (.error exc) s.manager))
      refine settle_bounded positive bounded rfl ?_ ?_ (.inl ?_)
      · intro later goesOn other member
        exact bounded.registered call flight awaiting other
          (List.mem_cons_of_mem _ (onward.candidates later goesOn other member))
      · intro claimed
        rw [awaiting]
        cases goesOn : (advance world flight.request flight.capability flight.total flight.rest (flight.number + 1)
            (flight.failedOver ++ [flight.provider.name]) (onFailure flight.provider flight.capability exc
              (recordReply world flight.provider (.error exc) s.manager))).2 with
        | awaiting later =>
          rw [goesOn] at claimed
          obtain ⟨other,member,same⟩ := claimed
          exact ⟨other,List.mem_cons_of_mem _ (onward.candidates later goesOn other member),same⟩
        | idle => rw [goesOn] at claimed; exact claimed.elim
        | finished result => rw [goesOn] at claimed; exact claimed.elim
      · rw [onward.tokensUsed,onFailure_health]
        by_cases same : name = flight.provider.name
        · subst same
          rw [recordReply_self]
          exact recordFailure_tokensUsed _ _ _ _
        · rw [recordReply_other world same]

theorem step_bounded {provider : Provider} {budget : Int} {concurrent : Nat} (positive : 0 ≤ most)
    (registered : provider ∈ world.registry.providers) (limited : provider.profile.dailyTokenBudget = some budget)
    (room : budget - 1 + most * concurrent ≤ limit) (bounded : Bounded world provider.name most limit s) {block : Block}
    (sized : Sized most s block) (few : Concurrent concurrent (step world s block)) :
    Bounded world provider.name most limit (step world s block) := by
  cases block with
  | enter call request capability order =>
    cases state : s.calls call with
    | idle =>
      rw [step_enter world state] at few ⊢
      exact enter_bounded positive registered limited bounded room request capability order few
    | awaiting flight => simpa [step,state] using bounded
    | finished result => simpa [step,state] using bounded
  | resume call outcome =>
    cases state : s.calls call with
    | idle => simpa [step,state] using bounded
    | finished result => simpa [step,state] using bounded
    | awaiting flight =>
      rw [step_resume world state]
      exact resume_bounded positive bounded state (sized flight state)

end

/-- In every interleaving with at most `concurrent` calls in flight at a time and responses of
    at most `most` tokens, a provider with a budget never uses more than one token less than
    its budget and `concurrent` responses on top, unless it had used more from the start. -/
theorem overrun_bounded {world : World} {provider : Provider} {budget most : Int} {concurrent : Nat} (positive : 0 ≤ most)
    (registered : provider ∈ world.registry.providers) (limited : provider.profile.dailyTokenBudget = some budget)
    (manager : ManagerState) (blocks : List Block) (sized : Each (step world) (Sized most) { manager := manager } blocks)
    (few : Always (step world) (Concurrent concurrent) { manager := manager } blocks) :
    Always (step world) (fun s => (s.manager.health provider.name).tokensUsed ≤
        max (manager.health provider.name).tokensUsed (budget - 1 + most * concurrent)) { manager := manager } blocks := by
  have used := le_max_left (manager.health provider.name).tokensUsed (budget - 1 + most * concurrent)
  have room := le_max_right (manager.health provider.name).tokensUsed (budget - 1 + most * concurrent)
  generalize max (manager.health provider.name).tokensUsed (budget - 1 + most * concurrent) = limit at used room
  have each : Each (step world) (fun s block => Sized most s block ∧ Concurrent concurrent (step world s block))
      { manager := manager } blocks := by
    intro done block within
    have after := few _ within
    rw [run_concat] at after
    exact ⟨sized done block within,after⟩
  have initial : Bounded world provider.name most limit { manager := manager } := by
    refine ⟨?_,0,counted_none ?_,?_⟩
    · intro call flight awaiting
      cases awaiting
    · intro call claimed
      exact claimed.elim
    · simpa using used
  have always := always_of_each (Bounded world provider.name most limit) _ (fun s block bounded meets =>
    step_bounded positive registered limited room bounded meets.1 meets.2) initial each
  refine always.mono ?_
  rintro s ⟨_,claims,_,within⟩
  have product : 0 ≤ most * (claims : Int) := mul_nonneg positive (by omega)
  omega

/-- One provider with a budget of three tokens. -/
def cappedVendor : World where
  registry := ⟨[openAIProvider (some { openAIProfile with dailyTokenBudget := some 3 })],by decide⟩
  clock := fun _ reading => reading
  answers := fun _ _ => .exception ""

/-- The call that a block belongs to. -/
def callOf : Block → Nat
  | .enter call _ _ _ => call
  | .resume call _ => call

/-- Where all blocks belong to the first calls, no more than those are in flight. -/
theorem concurrent_calls (world : World) (manager : ManagerState) {bound : Nat} {blocks : List Block}
    (first : ∀ block ∈ blocks, callOf block < bound) :
    Always (step world) (Concurrent bound) { manager := manager } blocks := by
  classical
  have idle : Always (step world) (fun s => ∀ call, bound ≤ call → s.calls call = .idle) { manager := manager } blocks := by
    refine always_of_each _ (fun _ block => callOf block < bound) ?_ (fun _ _ => rfl) (each_of_forall first)
    intro s block rest early call late
    have differs : call ≠ callOf block := by omega
    cases block with
    | enter own request capability order =>
      change call ≠ own at differs
      cases state : s.calls own with
      | idle =>
        rw [step_enter world state,settle_other differs]
        exact rest call late
      | awaiting flight => simpa [step,state] using rest call late
      | finished result => simpa [step,state] using rest call late
    | resume own outcome =>
      change call ≠ own at differs
      cases state : s.calls own with
      | awaiting flight =>
        rw [step_resume world state,settle_other differs]
        exact rest call late
      | idle => simpa [step,state] using rest call late
      | finished result => simpa [step,state] using rest call late
  refine idle.mono ?_
  intro s rest
  apply counted_below
  rintro call ⟨flight,awaiting⟩
  by_contra late
  rw [rest call (not_lt.mp late)] at awaiting
  cases awaiting

/-- Two calls in flight overrun the budget by one token, where the bound allows for three. -/
theorem capped_overrun_bounded :
    Always (step cappedVendor) (fun s => (s.manager.health "openai").tokensUsed ≤ max 0 (3 - 1 + 2 * (2 : Nat))) { manager := {} }
      [enterReview 0,enterReview 1,.resume 0 answered,.resume 1 answered] := by
  have sized : Each (step cappedVendor) (Sized 2) { manager := {} }
      [enterReview 0,enterReview 1,.resume 0 answered,.resume 1 answered] := by
    simp only [each_cons]
    refine ⟨trivial,trivial,?_,?_,each_nil⟩
    · rintro flight ⟨⟩ response ⟨⟩
      decide
    · rintro flight ⟨⟩ response ⟨⟩
      decide
  refine @overrun_bounded cappedVendor (openAIProvider (some { openAIProfile with dailyTokenBudget := some 3 })) 3 2 2
    (by decide) (by simp [cappedVendor]) rfl {} _ sized (concurrent_calls cappedVendor {} ?_)
  simp [callOf,enterReview]

end Hookclose.BudgetOverrun
