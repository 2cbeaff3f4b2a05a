import Hookclose.Failover

/-!
Manager calls that overlap on one event loop. Control changes hands only while a
provider's `_invoke` is awaited, so a call is a sequence of blocks that run whole:
one from its start to its first await, and one from each reply to the next await
or to its end. A run is any order of such blocks. Beside the state of the manager
it keeps the limits that calls have recorded and what held whenever an `_invoke`
started.
-/
namespace Hookclose.OverlappingCalls
open Hookclose.ProviderState Hookclose.BaseProvider Hookclose.Vendors Hookclose.ProviderRegistry
open Hookclose.ProviderManager Hookclose.Failover Hookclose.Runs

/-- A call at its await: the provider that has been invoked, those still to be
    tried, and the loop variables. -/
structure Flight where
  request : LLMRequest
  capability : Capability
  total : Nat
  provider : Provider
  rest : List Provider
  number : Nat
  failedOver : List String

inductive CallState
  | idle
  | awaiting (flight : Flight)
  | finished (result : Except Failure ProviderInvocation)

/-- A rate limit or a credit exhaustion that a call has recorded. -/
structure Limit where
  call : Nat
  provider : String
  deadline : Instant

/-- An `_invoke` that started: its time, the tokens used and the budget of its
    provider, and the deadlines that finished calls had recorded for it. -/
structure Start where
  provider : String
  time : Instant
  tokensUsed : Int
  budget : Option Int
  deadlines : List Instant
  deriving DecidableEq

structure SystemState where
  manager : ManagerState
  calls : Nat → CallState := fun _ => .idle
  limits : List Limit := []
  starts : List Start := []

/-- A block of a call. -/
inductive Block
  | enter (call : Nat) (request : LLMRequest) (capability : Capability) (order : Option (List String))
  | resume (call : Nat) (outcome : Outcome)

/-! ### The blocks of a call -/

/-- The failover loop up to its next await. -/
def advance (world : World) (request : LLMRequest) (capability : Capability) (total : Nat) :
    List Provider → Nat → List String → ManagerState → ManagerState × CallState
  | [],_,failedOver,s =>
    (emit (.allExhausted capability.value failedOver) s,.finished (.error (exhausted capability total)))
  | provider :: rest,number,failedOver,s =>
    let begun := attempt world provider capability number s
    match begun.2 with
    | some exc =>
      advance world request capability total rest (number + 1) (failedOver ++ [provider.name])
        (onFailure provider capability exc begun.1)
    | none => (begun.1,.awaiting ⟨request,capability,total,provider,rest,number,failedOver⟩)

/-- `complete` up to its first await. -/
def enterCall (world : World) (request : LLMRequest) (capability : Capability) (order : Option (List String))
    (s : ManagerState) : ManagerState × CallState :=
  let chosen := candidates world capability order s
  if chosen.2 = [] then
    (emit (.allExhausted capability.value []) chosen.1,
      .finished (.error (.noProviderAvailable
        ("no available provider supports capability " ++ Text.repr capability.value))))
  else advance world request capability chosen.2.length chosen.2 1 [] chosen.1

/-- From the end of an `_invoke` to the next await. -/
def resumeCall (world : World) (flight : Flight) (outcome : Outcome) (s : ManagerState) : ManagerState × CallState :=
  match invoke flight.provider flight.request outcome with
  | .exception text => (s,.finished (.error (.escaped text)))
  | .reply (.response response) =>
    let s := recordReply world flight.provider (.response response) s
    (onSuccess flight.provider flight.capability response s,
      .finished (.ok (served flight.provider response flight.number flight.failedOver)))
  | .reply (.error exc) =>
    let s := recordReply world flight.provider (.error exc) s
    advance world flight.request flight.capability flight.total flight.rest (flight.number + 1)
      (flight.failedOver ++ [flight.provider.name]) (onFailure flight.provider flight.capability exc s)

/-- The deadline that a failure recorded at `now` sets, if it is a rate limit or a
    credit exhaustion. -/
def deadlineOf (profile : ProviderProfile) (exc : ProviderError) (now : Instant) : Option Instant :=
  if exc.isRateLimited then some (now + timedelta profile.cooldownSeconds)
  else if exc.isCreditExhausted then some (now + timedelta profile.creditExhaustedCooldownSeconds)
  else none

/-- The limits once a call has seen the end of its `_invoke`. -/
def noteLimit (world : World) (call : Nat) (flight : Flight) (outcome : Outcome) (s : SystemState) : List Limit :=
  match invoke flight.provider flight.request outcome with
  | .reply (.error exc) =>
    match deadlineOf flight.provider.profile exc (now world flight.provider s.manager) with
    | some deadline => s.limits ++ [⟨call,flight.provider.name,deadline⟩]
    | none => s.limits
  | _ => s.limits

def CallState.isFinished : CallState → Bool
  | .finished _ => true
  | _ => false

/-- What holds as the flight's `_invoke` starts; its clock has just been read. -/
def startOf (world : World) (flight : Flight) (manager : ManagerState) (s : SystemState) : Start where
  provider := flight.provider.name
  time := world.clock flight.provider.name (manager.reads - 1)
  tokensUsed := (manager.health flight.provider.name).tokensUsed
  budget := flight.provider.profile.dailyTokenBudget
  deadlines := (s.limits.filter (fun limit =>
    limit.provider = flight.provider.name && (s.calls limit.call).isFinished)).map Limit.deadline

/-- The system once a block has run. -/
def settle (world : World) (call : Nat) (next : ManagerState × CallState) (s : SystemState) : SystemState where
  manager := next.1
  calls := Function.update s.calls call next.2
  limits := s.limits
  starts := match next.2 with
    | .awaiting flight => s.starts ++ [startOf world flight next.1 s]
    | _ => s.starts

/-- One block; a block of a call that is not at that point does nothing. -/
def step (world : World) (s : SystemState) : Block → SystemState
  | .enter call request capability order =>
    match s.calls call with
    | .idle => settle world call (enterCall world request capability order s.manager) s
    | _ => s
  | .resume call outcome =>
    match s.calls call with
    | .awaiting flight =>
      settle world call (resumeCall world flight outcome s.manager)
        { s with limits := noteLimit world call flight outcome s }
    | _ => s

/-! ### A call on its own -/

@[simp] theorem settle_manager (world : World) (call : Nat) (next : ManagerState × CallState) (s : SystemState) :
    (settle world call next s).manager = next.1 := rfl

@[simp] theorem settle_self (world : World) (call : Nat) (next : ManagerState × CallState) (s : SystemState) :
    (settle world call next s).calls call = next.2 := by
  simp [settle]

theorem settle_other {world : World} {call other : Nat} (differs : other ≠ call) (next : ManagerState × CallState)
    (s : SystemState) : (settle world call next s).calls other = s.calls other := by
  simp [settle,differs]

theorem step_enter (world : World) {s : SystemState} {call : Nat} (idle : s.calls call = .idle) (request : LLMRequest)
    (capability : Capability) (order : Option (List String)) :
    step world s (.enter call request capability order) =
      settle world call (enterCall world request capability order s.manager) s := by
  simp [step,idle]

theorem step_resume (world : World) {s : SystemState} {call : Nat} {flight : Flight}
    (awaiting : s.calls call = .awaiting flight) (outcome : Outcome) :
    step world s (.resume call outcome) =
      settle world call (resumeCall world flight outcome s.manager)
        { s with limits := noteLimit world call flight outcome s } := by
  simp [step,awaiting]

/-- From any pass of the loop on, a call that nothing interrupts ends as `failover` does. -/
theorem advance_completes (world : World) (request : LLMRequest) (capability : Capability) (total call : Nat)
    (cs : List Provider) (number : Nat) (failedOver : List String) (s : ManagerState) (system : SystemState) :
    ∃ outcomes : List Outcome,
      let ended := run (step world)
        (settle world call (advance world request capability total cs number failedOver s) system)
        (outcomes.map (Block.resume call))
      ended.manager = (failover world request capability total cs number failedOver s).1 ∧
        ended.calls call = .finished (failover world request capability total cs number failedOver s).2 := by
  induction cs generalizing number failedOver s system with
  | nil => exact ⟨[],rfl,by simp [advance,failover]⟩
  | cons provider rest ih =>
    cases begun : (attempt world provider capability number s).2 with
    | some exc =>
      simp only [advance,failover,begun]
      exact ih (number + 1) _ _ system
    | none =>
      simp only [advance,failover,begun]
      have awaiting := settle_self world call ((attempt world provider capability number s).1,
        .awaiting ⟨request,capability,total,provider,rest,number,failedOver⟩) system
      have resumed := step_resume world awaiting (world.answers s.invoked.length provider.name)
      cases replied : invoke provider request (world.answers s.invoked.length provider.name) with
      | exception text =>
        refine ⟨[world.answers s.invoked.length provider.name],?_⟩
        simp only [List.map_cons,List.map_nil,run_cons,run_nil,resumed,resumeCall,replied,settle_manager,settle_self]
        trivial
      | reply reply =>
        cases reply with
        | response response =>
          refine ⟨[world.answers s.invoked.length provider.name],?_⟩
          simp only [List.map_cons,List.map_nil,run_cons,run_nil,resumed,resumeCall,replied,settle_manager,settle_self]
          trivial
        | error exc =>
          simp only [resumeCall,replied,settle_manager] at resumed
          obtain ⟨outcomes,manager,calls⟩ := ih (number + 1) (failedOver ++ [provider.name])
            (onFailure provider capability exc
              (recordReply world provider (.error exc) (attempt world provider capability number s).1)) _
          refine ⟨world.answers s.invoked.length provider.name :: outcomes,?_⟩
          simp only [List.map_cons,run_cons,resumed]
          exact ⟨manager,calls⟩

/-- A manager call that no other overlaps does what `complete` does. -/
theorem alone_completes (world : World) (request : LLMRequest) (capability : Capability) (order : Option (List String))
    (s : ManagerState) (call : Nat) :
    ∃ outcomes : List Outcome,
      let ended := run (step world) { manager := s }
        (.enter call request capability order :: outcomes.map (Block.resume call))
      ended.manager = (complete world request capability order s).1 ∧
        ended.calls call = .finished (complete world request capability order s).2 := by
  simp only [run_cons,step_enter]
  by_cases none : (candidates world capability order s).2 = []
  · refine ⟨[],?_⟩
    simp [enterCall,complete,none]
  · simp only [enterCall,complete,if_neg none]
    exact advance_completes world request capability _ call _ 1 [] _ _

/-! ### What a block keeps -/

/-- A deadline is covered while a check of the provider would still see it: its
    clock has passed it, or the status keeps the provider from serving until then. -/
def Covered (clock : Nat → Instant) (reads : Nat) (deadline : Instant) (health : ProviderHealth) : Prop :=
  (∃ reading, reading < reads ∧ deadline ≤ clock reading) ∨ health.status = .failed ∨
    (Expirable health.status ∧ ∃ until_, health.cooldownUntil = some until_ ∧ deadline ≤ until_)

/-- A check at a later reading keeps a deadline covered. -/
theorem covered_refresh {clock : Nat → Instant} {reads : Nat} {deadline : Instant} {health : ProviderHealth}
    (covered : Covered clock reads deadline health) :
    Covered clock (reads + 1) deadline (refresh health (clock reads)).1 := by
  rcases covered with ⟨reading,earlier,passed⟩ | failed | ⟨expirable,until_,kept,within⟩
  · exact .inl ⟨reading,by omega,passed⟩
  · rw [refresh_failed _ failed]
    exact .inr (.inl failed)
  · rcases refresh_cases health (clock reads) with same | ⟨expired,at_,_,elapsed,_⟩
    · rw [same]
      exact .inr (.inr ⟨expirable,until_,kept,within⟩)
    · rw [kept] at at_
      cases at_
      exact .inl ⟨reads,by omega,le_trans within elapsed⟩

theorem Covered.later {clock : Nat → Instant} {reads more : Nat} {deadline : Instant} {health : ProviderHealth}
    (covered : Covered clock reads deadline health) (le : reads ≤ more) : Covered clock more deadline health := by
  rcases covered with ⟨reading,earlier,passed⟩ | rest
  · exact .inl ⟨reading,by omega,passed⟩
  · exact .inr rest

/-- An available provider covers only deadlines that its clock has passed. -/
theorem covered_available {clock : Nat → Instant} {reads : Nat} {deadline : Instant} {health : ProviderHealth}
    (monotone : Monotone clock) (covered : Covered clock (reads + 1) deadline health)
    (available : health.status = .available) : deadline ≤ clock reads := by
  rcases covered with ⟨reading,earlier,passed⟩ | failed | ⟨expirable,_⟩
  · exact le_trans passed (monotone (by omega))
  · rw [available] at failed
    cases failed
  · rw [available] at expirable
    rcases expirable with same | same | same <;> cases same

/-- A stretch of a block that records no reply: clocks move on, cooldowns may
    expire, but the tokens used stay and no deadline is uncovered. -/
structure Quiet (world : World) (before after : ManagerState) : Prop where
  reads : before.reads ≤ after.reads
  tokensUsed : ∀ name, (after.health name).tokensUsed = (before.health name).tokensUsed
  covered : ∀ name deadline, Covered (world.clock name) before.reads deadline (before.health name) →
    Covered (world.clock name) after.reads deadline (after.health name)

theorem quiet_of_health {world : World} {before after : ManagerState} (health : after.health = before.health)
    (reads : after.reads = before.reads) : Quiet world before after := by
  refine ⟨by rw [reads],fun name => by rw [health],?_⟩
  intro name deadline covered
  rwa [health,reads]

theorem Quiet.trans {world : World} {first second third : ManagerState} (early : Quiet world first second)
    (late : Quiet world second third) : Quiet world first third := by
  refine ⟨le_trans early.reads late.reads,fun name => (late.tokensUsed name).trans (early.tokensUsed name),?_⟩
  intro name deadline covered
  exact late.covered name deadline (early.covered name deadline covered)

/-- One check of a provider, whether or not a request is counted with it. -/
theorem quiet_of_check {world : World} {before after : ManagerState} {provider : Provider}
    (reads : after.reads = before.reads + 1)
    (others : ∀ name, name ≠ provider.name → after.health name = before.health name)
    (status : (after.health provider.name).status =
      (refresh (before.health provider.name) (now world provider before)).1.status)
    (cooldownUntil : (after.health provider.name).cooldownUntil =
      (refresh (before.health provider.name) (now world provider before)).1.cooldownUntil)
    (tokensUsed : (after.health provider.name).tokensUsed = (before.health provider.name).tokensUsed) :
    Quiet world before after := by
  refine ⟨by omega,?_,?_⟩
  · intro name
    by_cases same : name = provider.name
    · rw [same,tokensUsed]
    · rw [others name same]
  · intro name deadline covered
    by_cases same : name = provider.name
    · subst same
      have checked := covered_refresh covered
      rw [reads]
      unfold Covered at checked ⊢
      rw [status,cooldownUntil]
      exact checked
    · rw [others name same,reads]
      exact covered.later (by omega)

theorem keepServing_quiet (world : World) (providers : List Provider) (s : ManagerState) :
    Quiet world s (keepServing world providers s).1 := by
  induction providers generalizing s with
  | nil => exact quiet_of_health rfl rfl
  | cons provider rest ih =>
    have checked : Quiet world s
        (setHealth provider (isAvailable (s.health provider.name) (now world provider s)).1 s) := by
      refine quiet_of_check rfl (fun name other => setHealth_other other _ s) ?_ ?_ ?_
      all_goals rw [setHealth_self]
      · rfl
      · rfl
      · exact refresh_tokensUsed _ _
    simp only [keepServing]
    split_ifs <;> exact checked.trans (ih _)

/-- Every candidate has budget once the list has been drawn up. -/
theorem keepServing_budget (world : World) (providers : List Provider) (s : ManagerState) :
    ∀ provider ∈ (keepServing world providers s).2,
      hasBudget provider.profile ((keepServing world providers s).1.health provider.name) = true := by
  refine @keepServing_checked world (fun provider health => hasBudget provider.profile health = true)
    (fun _ _ _ budget => budget) ?_ providers s
  intro provider rest s budget
  rw [hasBudget_iff] at budget ⊢
  intro limit given
  rw [(keepServing_quiet world rest s).tokensUsed provider.name]
  exact budget limit given

theorem attempt_quiet (world : World) (provider : Provider) (capability : Capability) (number : Nat)
    (s : ManagerState) : Quiet world s (attempt world provider capability number s).1 := by
  obtain ⟨others,reads,refused | started⟩ := attempt_cases world provider capability number s
  · obtain ⟨_,_,_,record,_⟩ := refused
    refine quiet_of_check reads others ?_ ?_ ?_
    all_goals rw [record]
    exact refresh_tokensUsed _ _
  · obtain ⟨_,_,record,_⟩ := started
    refine quiet_of_check reads others ?_ ?_ ?_
    all_goals rw [record]
    exact refresh_tokensUsed _ _

/-- A provider that an attempt starts has passed every deadline that was covered. -/
theorem attempt_passed {world : World} {provider : Provider} {capability : Capability} {number : Nat}
    {s : ManagerState} (monotone : ∀ name, Monotone (world.clock name))
    (started : (attempt world provider capability number s).2 = none) {deadline : Instant}
    (covered : Covered (world.clock provider.name) s.reads deadline (s.health provider.name)) :
    deadline ≤ world.clock provider.name ((attempt world provider capability number s).1.reads - 1) := by
  obtain ⟨_,reads,refused | started⟩ := attempt_cases world provider capability number s
  · obtain ⟨exc,raised,_⟩ := refused
    rw [started] at raised
    cases raised
  · obtain ⟨_,_,_,available⟩ := started
    rw [reads,Nat.add_sub_cancel]
    exact covered_available (monotone provider.name) (covered_refresh covered) available

/-- What a stretch of a call leads to: its end, or an `_invoke` of one of the
    candidates `cs` that starts when every deadline covered before has passed. -/
structure Leads (world : World) (cs : List Provider) (s : ManagerState) (next : ManagerState × CallState) :
    Prop where
  quiet : Quiet world s next.1
  awaits : ∀ flight, next.2 = .awaiting flight → (flight.provider ∈ cs ∧ ∀ other ∈ flight.rest, other ∈ cs) ∧
    ∀ deadline, Covered (world.clock flight.provider.name) s.reads deadline (s.health flight.provider.name) →
      deadline ≤ world.clock flight.provider.name (next.1.reads - 1)

theorem Leads.after {world : World} {cs more : List Provider} {s later : ManagerState}
    {next : ManagerState × CallState} (quiet : Quiet world s later) (within : ∀ provider ∈ cs, provider ∈ more)
    (leads : Leads world cs later next) : Leads world more s next := by
  refine ⟨quiet.trans leads.quiet,?_⟩
  intro flight awaiting
  obtain ⟨⟨first,rest⟩,passed⟩ := leads.awaits flight awaiting
  refine ⟨⟨within _ first,fun other member => within _ (rest other member)⟩,?_⟩
  intro deadline covered
  exact passed deadline (quiet.covered _ deadline covered)

theorem advance_leads {world : World} (monotone : ∀ name, Monotone (world.clock name)) (request : LLMRequest)
    (capability : Capability) (total : Nat) (cs : List Provider) (number : Nat) (failedOver : List String)
    (s : ManagerState) : Leads world cs s (advance world request capability total cs number failedOver s) := by
  induction cs generalizing number failedOver s with
  | nil =>
    refine ⟨quiet_of_health rfl rfl,?_⟩
    intro flight awaiting
    simp [advance] at awaiting
  | cons provider rest ih =>
    have begunQuiet := attempt_quiet world provider capability number s
    cases begun : (attempt world provider capability number s).2 with
    | some exc =>
      simp only [advance,begun]
      have noted : Quiet world s
          (onFailure provider capability exc (attempt world provider capability number s).1) :=
        begunQuiet.trans (quiet_of_health (onFailure_health ..) (onFailure_reads ..))
      exact Leads.after noted (fun other member => List.mem_cons_of_mem _ member) (ih (number + 1) _ _)
    | none =>
      simp only [advance,begun]
      refine ⟨begunQuiet,?_⟩
      rintro flight ⟨⟩
      refine ⟨⟨List.mem_cons_self,fun other member => List.mem_cons_of_mem _ member⟩,?_⟩
      intro deadline covered
      exact attempt_passed monotone begun covered

theorem enterCall_leads {world : World} (monotone : ∀ name, Monotone (world.clock name)) (request : LLMRequest)
    (capability : Capability) (order : Option (List String)) (s : ManagerState) :
    Leads world (candidates world capability order s).2 s (enterCall world request capability order s) := by
  have drawn : Quiet world s (candidates world capability order s).1 := keepServing_quiet world _ s
  by_cases none : (candidates world capability order s).2 = []
  · simp only [enterCall,if_pos none]
    refine ⟨drawn.trans (quiet_of_health rfl rfl),?_⟩
    intro flight awaiting
    cases awaiting
  · simp only [enterCall,if_neg none]
    exact Leads.after drawn (fun other member => member) (advance_leads monotone request capability _ _ 1 [] _)

/-! ### Cooldowns and budgets -/

/-- No finished call has recorded a deadline for the provider that lies after the
    start, and its budget is not used up. -/
def Start.Right (start : Start) : Prop :=
  (∀ deadline ∈ start.deadlines, deadline ≤ start.time) ∧ ∀ budget, start.budget = some budget → start.tokensUsed < budget

/-- Every recorded limit of the flight's provider has passed. -/
def LimitsPassed (world : World) (s : SystemState) (flight : Flight) : Prop :=
  ∀ limit ∈ s.limits, limit.provider = flight.provider.name → limit.deadline ≤ now world flight.provider s.manager

/-- A success that uses up the budget of the flight's provider finds no other call
    that still has the provider among its untried candidates. -/
def BudgetUnclaimed (s : SystemState) (call : Nat) (flight : Flight) (response : LLMResponse) : Prop :=
  ∀ budget, flight.provider.profile.dailyTokenBudget = some budget →
    budget ≤ (s.manager.health flight.provider.name).tokensUsed + response.usage.totalTokens →
      ∀ other otherFlight, other ≠ call → s.calls other = .awaiting otherFlight →
        ∀ provider ∈ otherFlight.rest, provider.name ≠ flight.provider.name

/-- A limit about to be recorded ends no recorded one early. -/
def NoneShortened (world : World) (s : SystemState) (flight : Flight) (exc : ProviderError) : Prop :=
  ∀ deadline, deadlineOf flight.provider.profile exc (now world flight.provider s.manager) = some deadline →
    ∀ limit ∈ s.limits, limit.provider = flight.provider.name →
      limit.deadline ≤ now world flight.provider s.manager ∨ limit.deadline ≤ deadline

/-- The blocks that record nothing over what other calls have recorded or still
    rely on. -/
def Undisturbed (world : World) (s : SystemState) : Block → Prop
  | .enter _ _ _ _ => True
  | .resume call outcome => ∀ flight, s.calls call = .awaiting flight →
    match invoke flight.provider flight.request outcome with
    | .exception _ => True
    | .reply (.response response) => LimitsPassed world s flight ∧ BudgetUnclaimed s call flight response
    | .reply (.error exc) => NoneShortened world s flight exc

/-- What holds between blocks; of the calls in flight it asks about those that are
    `relevant`. -/
structure Sound (world : World) (relevant : Nat → Prop) (s : SystemState) : Prop where
  covered : ∀ limit ∈ s.limits, Covered (world.clock limit.provider) s.manager.reads limit.deadline
    (s.manager.health limit.provider)
  registered : ∀ call flight, s.calls call = .awaiting flight → flight.provider ∈ world.registry.providers ∧
    ∀ provider ∈ flight.rest, provider ∈ world.registry.providers
  budget : ∀ call flight, relevant call → s.calls call = .awaiting flight →
    ∀ provider ∈ flight.rest, hasBudget provider.profile (s.manager.health provider.name) = true
  right : ∀ start ∈ s.starts, start.Right

theorem registered_eq {registry : Registry} {first second : Provider} (left : first ∈ registry.providers)
    (right : second ∈ registry.providers) (same : first.name = second.name) : first = second :=
  List.inj_on_of_nodup_map registry.distinct left right same

theorem hasBudget_congr {profile : ProviderProfile} {before after : ProviderHealth}
    (same : after.tokensUsed = before.tokensUsed) : hasBudget profile after = hasBudget profile before := by
  simp [hasBudget,ProviderHealth.remainingBudget,same]

/-- A rate limit or a credit exhaustion leaves a status that waits for its deadline. -/
theorem recordFailure_limit {profile : ProviderProfile} {exc : ProviderError} {now deadline : Instant}
    (limit : deadlineOf profile exc now = some deadline) (health : ProviderHealth) :
    Expirable (recordFailure profile health exc now).status ∧
      (recordFailure profile health exc now).cooldownUntil = some deadline := by
  unfold deadlineOf at limit
  split_ifs at limit with limited exhausted
  · rw [recordFailure_rateLimited limited]
    exact ⟨.inr (.inl rfl),limit⟩
  · rw [recordFailure_creditExhausted (by simpa using limited) exhausted]
    exact ⟨.inr (.inr rfl),limit⟩

/-- A generic failure makes the provider fail, or leaves status and cooldown alone. -/
theorem recordFailure_generic {profile : ProviderProfile} {exc : ProviderError} {now : Instant}
    (generic : deadlineOf profile exc now = none) (health : ProviderHealth) :
    (recordFailure profile health exc now).status = .failed ∨
      ((recordFailure profile health exc now).status = health.status ∧
        (recordFailure profile health exc now).cooldownUntil = health.cooldownUntil) := by
  have isGeneric : exc.isGeneric = true := by
    unfold deadlineOf at generic
    split_ifs at generic with limited exhausted
    exact isGeneric_iff.mpr ⟨by simpa using limited,by simpa using exhausted⟩
  by_cases reached : profile.maxConsecutiveFailures ≤ health.consecutiveFailures + 1
  · rw [recordFailure_trips isGeneric reached]
    exact .inl rfl
  · rw [recordFailure_counts isGeneric (not_le.mp reached)]
    exact .inr ⟨rfl,rfl⟩

/-- A failure that ends no covered deadline early keeps it covered. -/
theorem covered_failure {clock : Nat → Instant} {reads : Nat} {deadline : Instant} {profile : ProviderProfile}
    {health : ProviderHealth} {exc : ProviderError} (covered : Covered clock reads deadline health)
    (kept : ∀ next, deadlineOf profile exc (clock reads) = some next → deadline ≤ clock reads ∨ deadline ≤ next) :
    Covered clock (reads + 1) deadline (recordFailure profile health exc (clock reads)) := by
  cases limit : deadlineOf profile exc (clock reads) with
  | some next =>
    obtain ⟨expirable,until_⟩ := recordFailure_limit limit health
    rcases kept next limit with passed | within
    · exact .inl ⟨reads,by omega,passed⟩
    · exact .inr (.inr ⟨expirable,next,until_,within⟩)
  | none =>
    rcases recordFailure_generic limit health with failed | ⟨status,until_⟩
    · exact .inr (.inl failed)
    · have later := covered.later (Nat.le_succ reads)
      unfold Covered at later ⊢
      rw [status,until_]
      exact later

/-- A block that leads on from a sound state ends in one. -/
theorem settle_sound {world : World} {call : Nat} {s : SystemState} {cs : List Provider}
    {next : ManagerState × CallState} (sound : Sound world (fun other => other ≠ call) s)
    (leads : Leads world cs s.manager next) (registered : ∀ provider ∈ cs, provider ∈ world.registry.providers)
    (budget : ∀ provider ∈ cs, hasBudget provider.profile (s.manager.health provider.name) = true) :
    Sound world (fun _ => True) (settle world call next s) := by
  have stillBudget : ∀ provider : Provider, hasBudget provider.profile (s.manager.health provider.name) = true →
      hasBudget provider.profile (next.1.health provider.name) = true := by
    intro provider has
    rwa [hasBudget_congr (leads.quiet.tokensUsed provider.name)]
  refine ⟨?_,?_,?_,?_⟩
  · intro limit member
    exact leads.quiet.covered _ _ (sound.covered limit member)
  · intro other flight awaiting
    by_cases same : other = call
    · subst same
      rw [settle_self] at awaiting
      obtain ⟨⟨first,rest⟩,_⟩ := leads.awaits flight awaiting
      exact ⟨registered _ first,fun provider member => registered _ (rest provider member)⟩
    · rw [settle_other same] at awaiting
      exact sound.registered other flight awaiting
  · intro other flight _ awaiting provider member
    apply stillBudget
    by_cases same : other = call
    · subst same
      rw [settle_self] at awaiting
      obtain ⟨⟨_,rest⟩,_⟩ := leads.awaits flight awaiting
      exact budget provider (rest provider member)
    · rw [settle_other same] at awaiting
      exact sound.budget other flight same awaiting provider member
  · cases state : next.2 with
    | idle =>
      simp only [settle,state]
      exact sound.right
    | finished result =>
      simp only [settle,state]
      exact sound.right
    | awaiting flight =>
      obtain ⟨⟨first,_⟩,passed⟩ := leads.awaits flight state
      simp only [settle,state]
      intro start member
      rcases List.mem_append.mp member with earlier | new
      · exact sound.right start earlier
      · rw [List.mem_singleton.mp new]
        constructor
        · intro deadline recorded
          obtain ⟨limit,kept,rfl⟩ := List.mem_map.mp recorded
          rw [List.mem_filter,Bool.and_eq_true,decide_eq_true_iff] at kept
          obtain ⟨listed,same,_⟩ := kept
          have covered := sound.covered limit listed
          rw [same] at covered
          exact passed limit.deadline covered
        · exact (hasBudget_iff _ _).mp (stillBudget flight.provider (budget flight.provider first))

/-- A success recorded once every limit has passed, by the only claimant of what
    budget it uses up. -/
theorem recordSuccess_sound {world : World} {s : SystemState} {call : Nat} {flight : Flight} {response : LLMResponse}
    (sound : Sound world (fun _ => True) s) (awaiting : s.calls call = .awaiting flight)
    (passed : LimitsPassed world s flight) (unclaimed : BudgetUnclaimed s call flight response) :
    Sound world (fun other => other ≠ call)
      { s with manager := recordReply world flight.provider (.response response) s.manager } := by
  refine ⟨?_,sound.registered,?_,sound.right⟩
  · intro limit member
    by_cases same : limit.provider = flight.provider.name
    · refine .inl ⟨s.manager.reads,by simp,?_⟩
      rw [same]
      exact passed limit member same
    · rw [recordReply_other world same]
      exact (sound.covered limit member).later (by simp)
  · intro other otherFlight differs otherAwaiting provider member
    have had := sound.budget other otherFlight trivial otherAwaiting provider member
    by_cases same : provider.name = flight.provider.name
    · have one : provider = flight.provider :=
        registered_eq ((sound.registered other otherFlight otherAwaiting).2 provider member)
          (sound.registered call flight awaiting).1 same
      rw [hasBudget_iff]
      intro budget given
      rw [one] at given ⊢
      rw [recordReply_self]
      change (s.manager.health flight.provider.name).tokensUsed + response.usage.totalTokens < budget
      by_contra spent
      exact unclaimed budget given (not_lt.mp spent) other otherFlight differs otherAwaiting provider member same
    · rw [recordReply_other world same]
      exact had

/-- A failure recorded without ending a limit early. -/
theorem recordFailure_sound {world : World} {s : SystemState} {flight : Flight} {outcome : Outcome} {exc : ProviderError}
    (call : Nat) (sound : Sound world (fun _ => True) s)
    (replied : invoke flight.provider flight.request outcome = .reply (.error exc))
    (kept : NoneShortened world s flight exc) :
    Sound world (fun _ => True)
      { s with
        manager := recordReply world flight.provider (.error exc) s.manager
        limits := noteLimit world call flight outcome s } := by
  have old : ∀ limit ∈ s.limits, Covered (world.clock limit.provider) (s.manager.reads + 1) limit.deadline
      ((recordReply world flight.provider (.error exc) s.manager).health limit.provider) := by
    intro limit member
    have covered := sound.covered limit member
    by_cases same : limit.provider = flight.provider.name
    · rw [same] at covered ⊢
      rw [recordReply_self]
      exact covered_failure covered (fun next given => kept next given limit member same)
    · rw [recordReply_other world same]
      exact covered.later (by omega)
  refine ⟨?_,sound.registered,?_,sound.right⟩
  · intro limit member
    simp only [noteLimit,replied] at member
    cases given : deadlineOf flight.provider.profile exc (now world flight.provider s.manager) with
    | none =>
      rw [given] at member
      exact old limit member
    | some deadline =>
      rw [given] at member
      rcases List.mem_append.mp member with earlier | new
      · exact old limit earlier
      · rw [List.mem_singleton.mp new]
        dsimp only
        rw [recordReply_self]
        obtain ⟨expirable,until_⟩ := recordFailure_limit given (s.manager.health flight.provider.name)
        exact .inr (.inr ⟨expirable,deadline,until_,le_refl deadline⟩)
  · intro other otherFlight _ awaiting provider member
    have had := sound.budget other otherFlight trivial awaiting provider member
    by_cases same : provider.name = flight.provider.name
    · rw [same] at had ⊢
      dsimp only
      rw [recordReply_self]
      have spent := recordFailure_tokensUsed flight.provider.profile (s.manager.health flight.provider.name) exc
        (now world flight.provider s.manager)
      exact (hasBudget_congr spent).trans had
    · dsimp only
      rw [recordReply_other world same]
      exact had

theorem Sound.others {world : World} {s : SystemState} (sound : Sound world (fun _ => True) s) (call : Nat) :
    Sound world (fun other => other ≠ call) s :=
  ⟨sound.covered,sound.registered,fun other flight _ => sound.budget other flight trivial,sound.right⟩

/-- A call that ends leads nowhere. -/
theorem finished_leads {world : World} {s ended : ManagerState} (quiet : Quiet world s ended)
    (result : Except Failure ProviderInvocation) : Leads world [] s (ended,.finished result) := by
  refine ⟨quiet,?_⟩
  intro flight awaiting
  cases awaiting

theorem settle_finished {world : World} {s : SystemState} {call : Nat} {ended : ManagerState}
    (sound : Sound world (fun other => other ≠ call) s) (quiet : Quiet world s.manager ended)
    (result : Except Failure ProviderInvocation) :
    Sound world (fun _ => True) (settle world call (ended,.finished result) s) := by
  refine settle_sound sound (finished_leads quiet result) ?_ ?_
  · intro provider member
    cases member
  · intro provider member
    cases member

/-- Every undisturbed block leads from a sound state to one. -/
theorem step_sound {world : World} (monotone : ∀ name, Monotone (world.clock name)) {s : SystemState} {block : Block}
    (sound : Sound world (fun _ => True) s) (undisturbed : Undisturbed world s block) :
    Sound world (fun _ => True) (step world s block) := by
  cases block with
  | enter call request capability order =>
    cases state : s.calls call with
    | idle =>
      rw [step_enter world state]
      refine settle_sound (sound.others call) (enterCall_leads monotone request capability order s.manager) ?_ ?_
      · intro provider member
        exact inOrder_registered ((keepServing_sublist world _ s.manager).subset member)
      · intro provider member
        have drawn : Quiet world s.manager (candidates world capability order s.manager).1 :=
          keepServing_quiet world _ s.manager
        rw [← hasBudget_congr (drawn.tokensUsed provider.name)]
        exact keepServing_budget world _ s.manager provider member
    | awaiting flight => simpa [step,state] using sound
    | finished result => simpa [step,state] using sound
  | resume call outcome =>
    cases state : s.calls call with
    | idle => simpa [step,state] using sound
    | finished result => simpa [step,state] using sound
    | awaiting flight =>
      have fair := undisturbed flight state
      rw [step_resume world state]
      cases replied : invoke flight.provider flight.request outcome with
      | exception text =>
        simp only [resumeCall,noteLimit,replied]
        exact settle_finished (sound.others call) (quiet_of_health rfl rfl) _
      | reply reply =>
        rw [replied] at fair
        cases reply with
        | response response =>
          have recorded := recordSuccess_sound sound state fair.1 fair.2
          have announced : Quiet world (recordReply world flight.provider (.response response) s.manager)
              (onSuccess flight.provider flight.capability response
                (recordReply world flight.provider (.response response) s.manager)) :=
            quiet_of_health rfl rfl
          simp only [resumeCall,noteLimit,replied]
          exact settle_finished recorded announced _
        | error exc =>
          have recorded := recordFailure_sound call sound replied fair
          have noted : Quiet world (recordReply world flight.provider (.error exc) s.manager)
              (onFailure flight.provider flight.capability exc
                (recordReply world flight.provider (.error exc) s.manager)) :=
            quiet_of_health (onFailure_health ..) (onFailure_reads ..)
          have onward := Leads.after noted (fun other member => member)
            (advance_leads monotone flight.request flight.capability flight.total flight.rest (flight.number + 1)
              (flight.failedOver ++ [flight.provider.name]) _)
          have settled := settle_sound (recorded.others call) onward (sound.registered call flight state).2
            (recorded.budget call flight trivial state)
          simp only [resumeCall,replied]
          exact settled

/-- In every interleaving whose blocks are all undisturbed, every `_invoke` starts
    after all limits that finished calls recorded, and within budget. -/
theorem starts_right (world : World) (monotone : ∀ name, Monotone (world.clock name)) (manager : ManagerState)
    (blocks : List Block) (undisturbed : Each (step world) (Undisturbed world) { manager := manager } blocks) :
    Always (step world) (fun s => ∀ start ∈ s.starts, start.Right) { manager := manager } blocks := by
  have initial : Sound world (fun _ => True) { manager := manager } := by
    refine ⟨?_,?_,?_,?_⟩
    · intro limit member
      cases member
    · intro call flight awaiting
      cases awaiting
    · intro call flight _ awaiting
      cases awaiting
    · intro start member
      cases member
  have always := always_of_each (Sound world (fun _ => True)) (Undisturbed world)
    (fun s block sound fair => step_sound monotone sound fair) initial undisturbed
  exact always.mono (fun s sound => sound.right)

/-- One provider, and a clock that ticks with every reading. -/
def oneVendor : World where
  registry := ⟨[openAIProvider none],by decide⟩
  clock := fun _ reading => reading
  answers := fun _ _ => .exception ""

theorem oneVendor_monotone : ∀ name, Monotone (oneVendor.clock name) := by
  intro name earlier later le
  exact Int.ofNat_le.mpr le

def enterReview (call : Nat) : Block := .enter call ⟨"m",[]⟩ .review none

def answered : Outcome := .reply (.response ⟨"m","ok","stop",⟨1,1,2⟩⟩)

/-- The first of two calls in flight is rate limited and ends; the second responds,
    and a third call is let through at once. -/
theorem late_success_reopens :
    (∀ name, Monotone (oneVendor.clock name)) ∧
    ¬ Always (step oneVendor) (fun s => ∀ start ∈ s.starts, start.Right) { manager := {} }
      [enterReview 0,enterReview 1,.resume 0 (.reply (.error (providerRateLimited "429"))),.resume 1 answered,
        enterReview 2] := by
  refine ⟨oneVendor_monotone,?_⟩
  intro always
  have started : ⟨"openai",7,2,none,[60000004]⟩ ∈ (run (step oneVendor) { manager := {} }
      [enterReview 0,enterReview 1,.resume 0 (.reply (.error (providerRateLimited "429"))),.resume 1 answered,
        enterReview 2]).starts := by
    decide +kernel
  have right := always.last _ started
  have passed := right.1 60000004 (by simp)
  exact absurd passed (by decide)

/-- OpenAI with a budget of three tokens, opencode, and a clock that gains a minute with
    every reading. -/
def twoBudgets : World where
  registry := ⟨[openAIProvider (some { openAIProfile with dailyTokenBudget := some 3 }),openCodeProvider none],by decide⟩
  clock := fun _ reading => reading * 60000000
  answers := fun _ _ => .exception ""

def limited : Outcome := .reply (.error (providerRateLimited "429"))

/-- Three calls overlap. OpenAI limits the first, which opencode serves, and then serves the
    third; opencode limits the second, which OpenAI serves with the last of its budget. -/
def overlapping : List Block :=
  [enterReview 0,.enter 1 ⟨"m",[]⟩ .review (some ["opencode","openai"]),.enter 2 ⟨"m",[]⟩ .review (some ["openai"]),
    .resume 0 limited,.resume 0 answered,.resume 2 answered,.resume 1 limited,.resume 1 answered,enterReview 3]

/-- OpenAI's last start comes after the limit that the first call recorded, and with one token
    of its budget left. -/
theorem overlapping_right :
    Always (step twoBudgets) (fun s => ∀ start ∈ s.starts, start.Right) { manager := {} } overlapping ∧
      ⟨"openai",780000000,2,some 3,[540000000]⟩ ∈ (run (step twoBudgets) { manager := {} } overlapping).starts := by
  have monotone : ∀ name, Monotone (twoBudgets.clock name) := by
    intro name earlier later le
    show (earlier : Int) * 60000000 ≤ later * 60000000
    omega
  refine ⟨starts_right twoBudgets monotone {} _ ?_,by decide +kernel⟩
  rw [overlapping]
  simp only [each_cons]
  refine ⟨trivial,trivial,trivial,?_,?_,?_,?_,?_,trivial,each_nil⟩
  · -- no limit is recorded when OpenAI limits the first call
    rintro flight ⟨⟩ deadline ⟨⟩ limit member
    cases member
  · -- opencode, which serves the first call, has no limit and no budget
    rintro flight ⟨⟩
    refine ⟨?_,?_⟩
    · rintro limit (⟨⟩ | ⟨_,⟨⟩⟩) named
      exact absurd named (by decide +kernel)
    · rintro budget ⟨⟩
  · -- OpenAI's limit has passed when it serves the third call, and two of three tokens are used
    rintro flight ⟨⟩
    refine ⟨?_,?_⟩
    · rintro limit (⟨⟩ | ⟨_,⟨⟩⟩) _
      decide +kernel
    · rintro budget ⟨⟩ spent
      exact absurd spent (by decide +kernel)
  · -- the first limit of opencode
    rintro flight ⟨⟩ deadline ⟨⟩ limit (⟨⟩ | ⟨_,⟨⟩⟩) named
    exact absurd named (by decide +kernel)
  · -- OpenAI uses up its budget when no other call counts on it
    rintro flight ⟨⟩
    refine ⟨?_,?_⟩
    · rintro limit (⟨⟩ | ⟨_,⟨⟩ | ⟨_,⟨⟩⟩⟩) named
      · decide +kernel
      · exact absurd named (by decide +kernel)
    · rintro budget ⟨⟩ _ other flight differs awaiting
      match other with
      | 0 => cases awaiting
      | 1 => exact absurd rfl differs
      | 2 => cases awaiting
      | n + 3 => cases awaiting

end Hookclose.OverlappingCalls
