import Hookclose.SavedHealth

/-!
The events of a manager against the counters of its providers. The two are kept apart:
the manager announces what it decides, a provider counts its vendor calls. Each call
of the manager leaves a log of one form, and what it adds to the log of a provider is
what the provider has added to its counters.
-/
namespace Hookclose.EventLog
open Hookclose.ProviderState Hookclose.BaseProvider Hookclose.Vendors Hookclose.ProviderRegistry
open Hookclose.ProviderManager Hookclose.Failover Hookclose.SavedHealth Hookclose.Runs

/-! ### The log of a call -/

/-- The log of a call from its `number`-th attempt on, after the providers in `tried` have
    failed: failed attempts, and then one event that closes it. -/
inductive CallEvents (capability : String) : Nat → List String → List ProviderEvent →
    Except Failure ProviderInvocation → Prop
  | succeeded (number : Nat) (tried : List String) (invocation : ProviderInvocation) (attempts : invocation.attempts = number)
      (failedOver : invocation.failedOverFrom = tried) :
      CallEvents capability number tried
        [.selected invocation.provider capability number,
          .invocationSucceeded invocation.provider capability invocation.totalTokens] (.ok invocation)
  | exhausted (number : Nat) (tried : List String) (message : String) :
      CallEvents capability number tried [.allExhausted capability tried] (.error (.noProviderAvailable message))
  | failed (number : Nat) (tried : List String) (provider reason code : String) (credit cooldown rest : List ProviderEvent)
      (result : Except Failure ProviderInvocation)
      (creditExhausted : credit = [] ∨ credit = [.creditExhausted provider])
      (cooldownEntered : cooldown = [] ∨ ∃ status deadline, cooldown = [.cooldownEntered provider status deadline code])
      (later : CallEvents capability (number + 1) (tried ++ [provider]) rest result) :
      CallEvents capability number tried
        (.selected provider capability number :: .failedOver provider capability reason code ::
          (credit ++ cooldown ++ rest)) result

/-! ### Tallies -/

def isSelection (name : String) : ProviderEvent → Bool
  | .selected provider _ _ => decide (provider = name)
  | _ => false

def isFailover (name : String) : ProviderEvent → Bool
  | .failedOver provider _ _ _ => decide (provider = name)
  | _ => false

def isCooldown (name : String) : ProviderEvent → Bool
  | .cooldownEntered provider _ _ _ => decide (provider = name)
  | _ => false

def tokensOf (name : String) : ProviderEvent → Int
  | .invocationSucceeded provider _ totalTokens => if provider = name then totalTokens else 0
  | _ => 0

/-- The tokens of all successful invocations of a provider. -/
def tokens (name : String) (events : List ProviderEvent) : Int := (events.map (tokensOf name)).sum

/-- The counters of a provider say what its events say. -/
structure Reconciled (s : ManagerState) (name : String) : Prop where
  requests : (s.health name).totalRequests = s.events.countP (isSelection name)
  failures : (s.health name).totalFailures = s.events.countP (isFailover name)
  tokensUsed : (s.health name).tokensUsed = tokens name s.events

/-- The moves out of AVAILABLE from one record to the next: one or none. -/
def leaves (before after : ProviderHealth) : Nat :=
  if before.status = .available ∧ after.status ≠ .available then 1 else 0

@[simp] theorem leaves_self (health : ProviderHealth) : leaves health health = 0 := by
  simp [leaves]

/-- The moves out of AVAILABLE along a list of records. -/
def movesAlong : List ProviderHealth → Nat
  | before :: after :: rest => leaves before after + movesAlong (after :: rest)
  | _ => 0

/-- The records that a provider passes through in a call: as it was, once the candidates
    have been drawn up, and after its vendor call, if there is one. -/
def records (world : World) (s : ManagerState) (call : ManagerCall) (name : String) : List ProviderHealth :=
  [s.health name,(candidates world call.capability call.order s).1.health name,(step world s call).health name]

/-- The moves of a provider out of AVAILABLE in a run of calls. -/
def movesOut (world : World) (name : String) : ManagerState → List ManagerCall → Nat
  | _,[] => 0
  | s,call :: calls => movesAlong (records world s call name) + movesOut world name (step world s call) calls

/-- What a stretch of the log adds to the counters of a provider. -/
structure Tallies (name : String) (before : ProviderHealth) (events : List ProviderEvent) (after : ProviderHealth) : Prop where
  requests : after.totalRequests = before.totalRequests + events.countP (isSelection name)
  failures : after.totalFailures = before.totalFailures + events.countP (isFailover name)
  tokensUsed : after.tokensUsed = before.tokensUsed + tokens name events
  cooldowns : events.countP (isCooldown name) = leaves before after

/-- A record that has been written by the bookkeeping of one vendor call at most, which
    began when the provider was available. -/
def Written (before after : ProviderHealth) : Prop :=
  after = before ∨ before.status = .available ∧ ∃ profile reply reading,
    after = record profile { before with totalRequests := before.totalRequests + 1 } reply reading

theorem tokens_append (name : String) (first second : List ProviderEvent) :
    tokens name (first ++ second) = tokens name first + tokens name second := by
  simp [tokens]

theorem tallies_nil (name : String) (health : ProviderHealth) : Tallies name health [] health := by
  constructor <;> simp [tokens]

/-- Stretches of which one at most concerns the provider. -/
theorem Tallies.trans {name : String} {first second third : ProviderHealth} {early late : List ProviderEvent}
    (before : Tallies name first early second) (after : Tallies name second late third)
    (once : first = second ∨ second = third) : Tallies name first (early ++ late) third := by
  constructor
  · rw [after.requests,before.requests,List.countP_append]
    push_cast
    ring
  · rw [after.failures,before.failures,List.countP_append]
    push_cast
    ring
  · rw [after.tokensUsed,before.tokensUsed,tokens_append]
    ring
  · rw [List.countP_append,before.cooldowns,after.cooldowns]
    rcases once with rfl | rfl <;> simp

/-! ### Passes -/

/-- What `_on_failure` announces. -/
def failureEvents (provider : Provider) (capability : Capability) (exc : ProviderError) (health : ProviderHealth) :
    List ProviderEvent :=
  .failedOver provider.name capability.value exc.message exc.code ::
    ((if exc.isCreditExhausted then [.creditExhausted provider.name] else []) ++
      if health.status = .available then []
      else [.cooldownEntered provider.name health.status.value health.cooldownUntil exc.code])

theorem onFailure_events (provider : Provider) (capability : Capability) (exc : ProviderError) (s : ManagerState) :
    (onFailure provider capability exc s).events =
      s.events ++ failureEvents provider capability exc (s.health provider.name) := by
  simp only [onFailure,failureEvents]
  cases status : (s.health provider.name).status <;> cases exc.isCreditExhausted <;> simp [emit,save,status]

theorem attempt_events (world : World) (provider : Provider) (capability : Capability) (number : Nat) (s : ManagerState) :
    (attempt world provider capability number s).1.events =
      s.events ++ [.selected provider.name capability.value number] := by
  simp only [attempt]
  split <;> rfl

@[simp] theorem recordReply_events (world : World) (provider : Provider) (reply : Reply) (s : ManagerState) :
    (recordReply world provider reply s).events = s.events := rfl

/-- An available provider counts the request and keeps the rest of its record until the reply. -/
theorem attempt_counts {world : World} {provider : Provider} {capability : Capability} {number : Nat} {s : ManagerState}
    (available : (s.health provider.name).status = .available) :
    (attempt world provider capability number s).1.health provider.name =
      { s.health provider.name with totalRequests := (s.health provider.name).totalRequests + 1 } := by
  obtain ⟨_,_,refused | started⟩ := attempt_cases world provider capability number s
  · obtain ⟨_,_,_,_,unavailable⟩ := refused
    rw [refresh_available _ available] at unavailable
    exact absurd available unavailable
  · obtain ⟨_,_,health,_⟩ := started
    rw [health,refresh_available _ available]

section
variable (name : String) (provider : Provider) (capability : Capability) (exc : ProviderError) (health : ProviderHealth)

@[simp] theorem failureEvents_selections : (failureEvents provider capability exc health).countP (isSelection name) = 0 := by
  cases credit : exc.isCreditExhausted <;> by_cases still : health.status = .available <;>
    simp [failureEvents,isSelection,credit,still]

@[simp] theorem failureEvents_failovers : (failureEvents provider capability exc health).countP (isFailover name) =
    if provider.name = name then 1 else 0 := by
  cases credit : exc.isCreditExhausted <;> by_cases still : health.status = .available <;>
    simp [failureEvents,isFailover,credit,still,List.countP_cons]

@[simp] theorem failureEvents_tokens : tokens name (failureEvents provider capability exc health) = 0 := by
  cases credit : exc.isCreditExhausted <;> by_cases still : health.status = .available <;>
    simp [failureEvents,tokens,tokensOf,credit,still]

@[simp] theorem failureEvents_cooldowns : (failureEvents provider capability exc health).countP (isCooldown name) =
    if provider.name = name ∧ health.status ≠ .available then 1 else 0 := by
  cases credit : exc.isCreditExhausted <;> by_cases still : health.status = .available <;>
    simp [failureEvents,isCooldown,credit,still,List.countP_cons]

end

@[simp] theorem tokens_selected (name other capability : String) (number : Nat) (events : List ProviderEvent) :
    tokens name (.selected other capability number :: events) = tokens name events := by
  simp [tokens,tokensOf]

/-- A failed vendor call is counted and announced once, and so is the move that it makes. -/
theorem failure_tallies {provider : Provider} {capability : Capability} {number : Nat} {exc : ProviderError}
    {reading : Instant} {before after : ProviderHealth} (available : before.status = .available)
    (recorded : after = record provider.profile { before with totalRequests := before.totalRequests + 1 } (.error exc) reading) :
    Tallies provider.name before
      (.selected provider.name capability.value number :: failureEvents provider capability exc after) after := by
  have counters : after.totalRequests = before.totalRequests + 1 ∧ after.totalFailures = before.totalFailures + 1 ∧
      after.tokensUsed = before.tokensUsed := by
    rw [recorded]
    simp [record]
  obtain ⟨requests,failures,tokensUsed⟩ := counters
  constructor
  · simp [requests,isSelection]
  · simp [failures,isFailover]
  · simp [tokensUsed]
  · simp [isCooldown,leaves,available]

/-- A pass says nothing of another provider. -/
theorem other_tallies {provider : Provider} {name : String} (other : provider.name ≠ name) (capability : Capability)
    (number : Nat) (exc : ProviderError) (health own : ProviderHealth) :
    Tallies name health (.selected provider.name capability.value number :: failureEvents provider capability exc own)
      health := by
  constructor <;> simp [isSelection,isFailover,isCooldown,other]

theorem success_tallies {provider : Provider} {capability : Capability} {number : Nat} {response : LLMResponse}
    {reading : Instant} {before after : ProviderHealth}
    (recorded : after = record provider.profile { before with totalRequests := before.totalRequests + 1 }
      (.response response) reading) :
    Tallies provider.name before
      [.selected provider.name capability.value number,
        .invocationSucceeded provider.name capability.value response.usage.totalTokens] after := by
  rw [recorded]
  constructor <;> simp [record,recordSuccess,isSelection,isFailover,isCooldown,tokens,tokensOf,leaves]

theorem silent_tallies {provider : Provider} {name : String} (other : provider.name ≠ name) (capability : Capability)
    (number : Nat) (totalTokens : Int) (health : ProviderHealth) :
    Tallies name health
      [.selected provider.name capability.value number,
        .invocationSucceeded provider.name capability.value totalTokens] health := by
  constructor <;> simp [isSelection,isFailover,isCooldown,tokens,tokensOf,other]

/-! ### The loop -/

/-- What the loop leaves behind: a log of the form, and records that it has counted. -/
structure LoopLog (capability : Capability) (cs : List Provider) (number : Nat) (tried : List String) (s ended : ManagerState)
    (result : Except Failure ProviderInvocation) (emitted : List ProviderEvent) : Prop where
  appended : ended.events = s.events ++ emitted
  shape : CallEvents capability.value number tried emitted result
  tallies : ∀ name, Tallies name (s.health name) emitted (ended.health name)
  written : ∀ name, Written (s.health name) (ended.health name)
  untouched : ∀ name, name ∉ cs.map Provider.name → ended.health name = s.health name

/-- A pass that fails puts its events before those of the passes after it. -/
theorem loopLog_cons {world : World} {request : LLMRequest} {capability : Capability} {provider : Provider}
    {rest : List Provider} {number : Nat} {tried : List String} {s t ended : ManagerState}
    {result : Except Failure ProviderInvocation} {emitted : List ProviderEvent}
    (available : (s.health provider.name).status = .available) (fresh : provider.name ∉ rest.map Provider.name)
    (passed : passOver world request provider capability number s = some t)
    (later : LoopLog capability rest (number + 1) (tried ++ [provider.name]) t ended result emitted) :
    ∃ emitted, LoopLog capability (provider :: rest) number tried s ended result emitted := by
  obtain ⟨_,others⟩ := passOver_others available passed
  obtain ⟨exc,_,same⟩ := (passOver_available available).mp passed
  have events : t.events = s.events ++ (.selected provider.name capability.value number ::
      failureEvents provider capability exc (t.health provider.name)) := by
    rw [same,onFailure_events,onFailure_health,recordReply_events,attempt_events,List.append_assoc,List.singleton_append]
  obtain ⟨reading,own⟩ : ∃ reading, t.health provider.name = record provider.profile
      { s.health provider.name with totalRequests := (s.health provider.name).totalRequests + 1 } (.error exc) reading := by
    rw [same,onFailure_health,recordReply_self,attempt_counts available]
    exact ⟨_,rfl⟩
  refine ⟨_,by rw [later.appended,events,List.append_assoc],?_,?_,?_,?_⟩
  · rw [failureEvents,List.cons_append,List.cons_append]
    refine .failed number tried provider.name exc.message exc.code _ _ emitted result ?_ ?_ later.shape
    · cases exc.isCreditExhausted <;> simp
    · by_cases still : (t.health provider.name).status = .available <;> simp [still]
  · intro name
    refine Tallies.trans ?_ (later.tallies name) ?_
    · by_cases named : provider.name = name
      · subst named
        exact failure_tallies available own
      · rw [others name (Ne.symm named)]
        exact other_tallies named capability number exc _ _
    · by_cases named : provider.name = name
      · subst named
        exact .inr (later.untouched _ fresh).symm
      · exact .inl (others name (Ne.symm named)).symm
  · intro name
    by_cases named : provider.name = name
    · subst named
      rw [later.untouched _ fresh]
      exact .inr ⟨available,provider.profile,.error exc,reading,own⟩
    · rw [← others name (Ne.symm named)]
      exact later.written name
  · intro name absent
    rw [List.map_cons,List.mem_cons,not_or] at absent
    rw [later.untouched name absent.2,others name absent.1]

theorem failover_log (world : World) (request : LLMRequest) (capability : Capability) (total : Nat) (cs : List Provider)
    (number : Nat) (tried : List String) (s : ManagerState)
    (ends : ∀ text, (failover world request capability total cs number tried s).2 ≠ .error (.escaped text))
    (distinct : (cs.map Provider.name).Nodup)
    (available : ∀ provider ∈ cs, (s.health provider.name).status = .available) :
    ∃ emitted, LoopLog capability cs number tried s (failover world request capability total cs number tried s).1
      (failover world request capability total cs number tried s).2 emitted := by
  induction cs generalizing number tried s with
  | nil =>
    refine ⟨[.allExhausted capability.value tried],rfl,.exhausted number tried _,?_,fun _ => .inl rfl,fun _ _ => rfl⟩
    intro name
    constructor <;> simp [failover,isSelection,isFailover,isCooldown,tokens,tokensOf]
  | cons provider rest ih =>
    have apart := rest_names distinct
    rw [List.map_cons,List.nodup_cons] at distinct
    have serving := available provider List.mem_cons_self
    rcases failover_cases world request capability total provider rest number tried s with
      ⟨t,passed,same⟩ | ⟨stopped,⟨response,_,same⟩ | ⟨text,escaped⟩⟩
    · rw [same] at ends ⊢
      have still : ∀ other ∈ rest, (t.health other.name).status = .available := by
        intro other member
        have differs := apart other member
        rw [(passOver_others serving passed).2 other.name differs]
        exact available other (List.mem_cons_of_mem _ member)
      obtain ⟨emitted,later⟩ := ih (number + 1) (tried ++ [provider.name]) t ends distinct.2 still
      exact loopLog_cons serving distinct.1 passed later
    · rw [same]
      have others : ∀ name, provider.name ≠ name → (onSuccess provider capability response (recordReply world provider
          (.response response) (attempt world provider capability number s).1)).health name = s.health name := by
        intro name differs
        rw [onSuccess_health,recordReply_other world (Ne.symm differs),attempt_other world (Ne.symm differs)]
      obtain ⟨reading,own⟩ : ∃ reading, (onSuccess provider capability response (recordReply world provider
          (.response response) (attempt world provider capability number s).1)).health provider.name =
          record provider.profile { s.health provider.name with totalRequests := (s.health provider.name).totalRequests + 1 }
            (.response response) reading := by
        rw [onSuccess_health,recordReply_self,attempt_counts serving]
        exact ⟨_,rfl⟩
      refine ⟨_,?_,.succeeded number tried (served provider response number tried) rfl rfl,?_,?_,?_⟩
      · simp only [onSuccess,emit,save,recordReply_events,attempt_events,List.append_assoc,List.singleton_append]
        rfl
      · intro name
        by_cases named : provider.name = name
        · subst named
          exact success_tallies own
        · rw [others name named]
          exact silent_tallies named capability number _ _
      · intro name
        by_cases named : provider.name = name
        · subst named
          exact .inr ⟨serving,provider.profile,.response response,reading,own⟩
        · exact .inl (others name named)
      · intro name absent
        rw [List.map_cons,List.mem_cons,not_or] at absent
        exact others name (Ne.symm absent.1)
    · exact absurd escaped (ends text)

/-! ### Calls -/

@[simp] theorem keepServing_events (world : World) (providers : List Provider) (s : ManagerState) :
    (keepServing world providers s).1.events = s.events := by
  induction providers generalizing s with
  | nil => rfl
  | cons provider rest ih =>
    simp only [keepServing]
    split_ifs <;> (rw [ih]; rfl)

/-- Resolving cooldowns counts nothing, and takes no provider out of AVAILABLE. -/
theorem refreshed_tallies {world : World} {name : String} {s t : ManagerState} (refreshed : Refreshed world name s t) :
    Tallies name (s.health name) [] (t.health name) := by
  rcases refreshed.resolved with kept | ⟨reading,_,_,resolved⟩
  · rw [kept]
    exact tallies_nil name _
  · rw [resolved]
    rcases refresh_cases (s.health name) (world.clock name reading) with same | ⟨_,_,expirable,_,expired⟩
    · rw [same]
      exact tallies_nil name _
    · rw [expired]
      constructor <;> simp [tokens,leaves]

/-- The events that a call adds to the log. -/
def emitted (world : World) (s : ManagerState) (call : ManagerCall) : List ProviderEvent :=
  (step world s call).events.drop s.events.length

/-- What a call leaves: a log of the form, and of each provider a record that its check
    may have refreshed and its one vendor call may have written. -/
structure CallLog (world : World) (s : ManagerState) (call : ManagerCall) : Prop where
  appended : (step world s call).events = s.events ++ emitted world s call
  shape : CallEvents call.capability.value 1 [] (emitted world s call)
    (complete world call.request call.capability call.order s).2
  checked : ∀ name, Refreshed world name s (candidates world call.capability call.order s).1
  written : ∀ name, Written ((candidates world call.capability call.order s).1.health name) ((step world s call).health name)

/-- The loop of a call, from the state with the candidates drawn up. -/
theorem step_loop {world : World} {s : ManagerState} {call : ManagerCall} (ends : Ends world s call)
    (distinct : ∀ names, call.order = some names → names.Nodup) :
    ∃ added, LoopLog call.capability (candidates world call.capability call.order s).2 1 []
      (candidates world call.capability call.order s).1 (step world s call)
      (complete world call.request call.capability call.order s).2 added := by
  unfold Ends at ends
  unfold step
  by_cases none : (candidates world call.capability call.order s).2 = []
  · simp only [complete,if_pos none]
    refine ⟨[.allExhausted call.capability.value []],rfl,.exhausted 1 [] _,?_,fun _ => .inl rfl,fun _ _ => rfl⟩
    intro name
    constructor <;> simp [isSelection,isFailover,isCooldown,tokens,tokensOf]
  · simp only [complete,if_neg none] at ends ⊢
    exact failover_log world _ _ _ _ 1 [] _ ends (candidates_distinct world call.capability distinct s)
      (keepServing_available world _ s)

theorem candidates_refreshed (world : World) (capability : Capability) (order : Option (List String)) (s : ManagerState)
    (name : String) : Refreshed world name s (candidates world capability order s).1 :=
  keepServing_refreshed world _ s name

theorem candidates_events (world : World) (capability : Capability) (order : Option (List String)) (s : ManagerState) :
    (candidates world capability order s).1.events = s.events :=
  keepServing_events world _ s

theorem step_log {world : World} {s : ManagerState} {call : ManagerCall} (ends : Ends world s call)
    (distinct : ∀ names, call.order = some names → names.Nodup) : CallLog world s call := by
  obtain ⟨added,loop⟩ := step_loop ends distinct
  have appended := loop.appended
  rw [candidates_events] at appended
  have same : emitted world s call = added := by rw [emitted,appended,List.drop_left]
  refine ⟨by rw [same,appended],?_,candidates_refreshed world _ _ s,loop.written⟩
  rw [same]
  exact loop.shape

/-- What a call adds to the log of a provider is what the provider adds to its counters,
    and its moves out of AVAILABLE are announced one by one. -/
theorem step_tallies {world : World} {s : ManagerState} {call : ManagerCall} (ends : Ends world s call)
    (distinct : ∀ names, call.order = some names → names.Nodup) (name : String) :
    (Reconciled s name → Reconciled (step world s call) name) ∧
      (step world s call).events.countP (isCooldown name) =
        s.events.countP (isCooldown name) + movesAlong (records world s call name) := by
  obtain ⟨added,loop⟩ := step_loop ends distinct
  have appended := loop.appended
  rw [candidates_events] at appended
  have checked : Tallies name (s.health name) [] ((candidates world call.capability call.order s).1.health name) :=
    refreshed_tallies (candidates_refreshed world call.capability call.order s name)
  have looped := loop.tallies name
  constructor
  · intro reconciled
    constructor
    · rw [looped.requests,checked.requests,reconciled.requests,appended,List.countP_append]
      simp
    · rw [looped.failures,checked.failures,reconciled.failures,appended,List.countP_append]
      simp
    · rw [looped.tokensUsed,checked.tokensUsed,reconciled.tokensUsed,appended,tokens_append]
      simp [tokens]
  · have still := checked.cooldowns
    rw [List.countP_nil] at still
    rw [appended,List.countP_append,looped.cooldowns]
    simp only [records,movesAlong,← still]
    omega

theorem movesOut_concat (world : World) (name : String) (s : ManagerState) (calls : List ManagerCall) (call : ManagerCall) :
    movesOut world name s (calls ++ [call]) =
      movesOut world name s calls + movesAlong (records world (run (step world) s calls) call name) := by
  induction calls generalizing s with
  | nil => simp [movesOut]
  | cons first rest ih => simp [movesOut,ih,add_assoc]

/-- The log of every run from fresh providers, with custom ones that raise nothing but
    `ProviderError` and orders without repeated names: each call leaves a log of the form,
    and between calls the counters of each provider are what the log says, with one
    cooldown event for each move out of AVAILABLE. -/
theorem log_reconciles {world : World} (contract : Contract world world.registry.providers) {calls : List ManagerCall}
    (distinct : ∀ call ∈ calls, ∀ names, call.order = some names → names.Nodup) :
    Each (step world) (CallLog world) {} calls ∧
      Always (step world) (fun s => ∀ name, Reconciled s name) {} calls ∧
      ∀ done, done <+: calls → ∀ name,
        (run (step world) {} done).events.countP (isCooldown name) = movesOut world name {} done := by
  have orders : Each (step world) (fun _ call => ∀ names, call.order = some names → names.Nodup) {} calls :=
    each_of_forall distinct
  have fresh : ∀ name, Reconciled {} name := fun name => ⟨rfl,rfl,rfl⟩
  refine ⟨?_,?_,?_⟩
  · intro done call within
    exact step_log (ends_of_contract contract) (orders done call within)
  · refine always_of_each _ _ ?_ fresh orders
    intro s call reconciled order name
    exact (step_tallies (ends_of_contract contract) order name).1 (reconciled name)
  · intro done
    induction done using List.reverseRecOn with
    | nil => intro _ name; rfl
    | append_singleton done call ih =>
      intro within name
      have order := orders done call within
      have before := ih ((List.prefix_append done [call]).trans within) name
      have added := (step_tallies (ends_of_contract contract) order name (s := run (step world) {} done)).2
      rw [run_concat,added,before,movesOut_concat]

/-- OpenAI's credit runs out, and Claude serves. -/
def outOfCredit : World where
  registry := limitedOnce.registry
  clock := fun _ reading => reading
  answers := fun _ name =>
    .reply (if name = "openai" then .error (providerCreditExhausted "402") else .response ⟨"m","ok","stop",⟨1,1,2⟩⟩)

theorem out_of_credit_reconciles :
    Each (step outOfCredit) (CallLog outOfCredit) {} [askReview "openai" "claude",⟨⟨"m",[]⟩,.review,none⟩] ∧
      ∀ name, Reconciled (run (step outOfCredit) {} [askReview "openai" "claude",⟨⟨"m",[]⟩,.review,none⟩]) name := by
  have contract : Contract outOfCredit outOfCredit.registry.providers := by
    intro provider member custom
    simp only [outOfCredit,limitedOnce,List.mem_cons,List.not_mem_nil,or_false] at member
    rcases member with rfl | rfl <;> cases custom
  have distinct : ∀ call ∈ [askReview "openai" "claude",⟨⟨"m",[]⟩,.review,none⟩], ∀ names, call.order = some names →
      names.Nodup := by
    intro call member names order
    rcases List.mem_cons.mp member with rfl | last
    · cases order
      decide
    · rw [List.mem_singleton.mp last] at order
      cases order
  have result := log_reconciles contract distinct
  exact ⟨result.1,result.2.1.last⟩

end Hookclose.EventLog
