import Hookclose.SavedHealth

/-!
Graceful degradation. A local model without an adapter cannot fail: its answer is a stub, it
has no budget and never cools down. So its record stays available through every run of
calls, and a call that may use it never comes to the end of its candidates.
-/
namespace Hookclose.GracefulDegradation
open Hookclose.ProviderState Hookclose.BaseProvider Hookclose.Vendors Hookclose.ProviderRegistry
open Hookclose.ProviderManager Hookclose.Failover Hookclose.SavedHealth Hookclose.Runs

/-- The local model without an adapter, with its default profile. -/
def fallback : Provider := localProvider false none

/-- The fallback is available; it is so from the beginning. -/
def Standing (s : ManagerState) : Prop := (s.health fallback.name).status = .available

/-- A call may use the fallback: its capability is declared, and an order names it. -/
def Admits (call : ManagerCall) : Prop :=
  fallback.profile.supports call.capability = true ∧ ∀ names, call.order = some names → fallback.name ∈ names

/-! ### The candidates -/

section
variable {world : World} {s : ManagerState}

theorem inOrder_fallback (registered : fallback ∈ world.registry.providers) {call : ManagerCall} (admits : Admits call) :
    fallback ∈ inOrder world.registry call.capability call.order := by
  have supporting : fallback ∈ world.registry.forCapability call.capability :=
    mem_forCapability.mpr ⟨registered,admits.1⟩
  cases given : call.order with
  | none => exact supporting
  | some names =>
    refine List.mem_filterMap.mpr ⟨fallback.name,admits.2 names given,?_⟩
    cases found : (world.registry.forCapability call.capability).find? (fun provider => provider.name = fallback.name) with
    | none =>
      have excluded := List.find?_eq_none.mp found fallback supporting
      simp at excluded
    | some provider =>
      have named : provider.name = fallback.name := by simpa using List.find?_some found
      have same : provider = fallback := List.inj_on_of_nodup_map (forCapability_distinct world.registry call.capability)
        (List.mem_of_find?_eq_some found) supporting named
      rw [same]

theorem keepServing_standing (standing : Standing s) (providers : List Provider) :
    Standing (keepServing world providers s).1 := by
  have kept := refreshed_available standing (keepServing_refreshed world providers s fallback.name)
  rw [Standing,kept]
  exact standing

theorem keepServing_fallback (standing : Standing s) {providers : List Provider} (listed : fallback ∈ providers) :
    fallback ∈ (keepServing world providers s).2 := by
  induction providers generalizing s with
  | nil => cases listed
  | cons provider rest ih =>
    have later : Standing (setHealth provider (isAvailable (s.health provider.name) (now world provider s)).1 s) := by
      have one := @keepServing_standing world s standing [provider]
      simp only [keepServing] at one
      split_ifs at one <;> exact one
    simp only [keepServing]
    rcases List.mem_cons.mp listed with rfl | inside
    · have serving : ((isAvailable (s.health fallback.name) (now world fallback s)).2 &&
          hasBudget fallback.profile (isAvailable (s.health fallback.name) (now world fallback s)).1) = true := by
        rw [Bool.and_eq_true]
        exact ⟨(isAvailable_iff _ _).mpr (by rw [refresh_available _ standing]; exact standing),rfl⟩
      rw [if_pos serving]
      exact List.mem_cons_self
    · split_ifs
      · exact List.mem_cons_of_mem _ (ih later inside)
      · exact ih later inside

/-! ### Failover -/

/-- Only a provider with an `_invoke` of its own lets an exception of another class out. -/
theorem invoke_exception {provider : Provider} {request : LLMRequest} {answer : Outcome} {text : String}
    (escaped : invoke provider request answer = .exception text) : provider.vendor = .custom ∧ answer = .exception text := by
  have wrapped_never : ∀ label, wrapped label answer ≠ .exception text := by
    intro label
    cases answer <;> simp [wrapped]
  unfold invoke at escaped
  cases kind : provider.vendor with
  | custom =>
    rw [kind] at escaped
    exact ⟨rfl,escaped⟩
  | adapter =>
    rw [kind] at escaped
    exact absurd escaped (wrapped_never _)
  | localModel adapter =>
    rw [kind] at escaped
    cases adapter with
    | true => exact absurd escaped (wrapped_never _)
    | false => simp at escaped

/-- A call that ends without exhausting its candidates: it returns, or one of them breaks the
    provider boundary. -/
def Served (world : World) (providers : List Provider) (result : Except Failure ProviderInvocation) : Prop :=
  (∃ invocation, result = .ok invocation) ∨
  ∃ provider ∈ providers, ∃ number text, provider.vendor = .custom ∧ world.answers number provider.name = .exception text ∧
    result = .error (.escaped text)

theorem Served.later {providers : List Provider} {result : Except Failure ProviderInvocation} (provider : Provider)
    (served : Served world providers result) : Served world (provider :: providers) result := by
  rcases served with returned | ⟨other,member,escaped⟩
  · exact .inl returned
  · exact .inr ⟨other,List.mem_cons_of_mem _ member,escaped⟩

/-- Whatever the others do, the fallback stays available, and if it is among the candidates
    they are not exhausted. -/
theorem failover_fallback (registered : fallback ∈ world.registry.providers) (request : LLMRequest)
    (capability : Capability) (total : Nat) {cs : List Provider} (within : ∀ provider ∈ cs, provider ∈ world.registry.providers)
    (number : Nat) (failedOver : List String) (standing : Standing s) :
    Standing (failover world request capability total cs number failedOver s).1 ∧
    (fallback ∈ cs → Served world cs (failover world request capability total cs number failedOver s).2) := by
  induction cs generalizing number failedOver s with
  | nil => exact ⟨standing,fun listed => by cases listed⟩
  | cons provider rest ih =>
    have others : ∀ other ∈ rest, other ∈ world.registry.providers :=
      fun other member => within other (List.mem_cons_of_mem _ member)
    have begins := attempt_cases world provider capability number s
    by_cases own : provider.name = fallback.name
    · -- the fallback itself answers
      have same : provider = fallback :=
        List.inj_on_of_nodup_map world.registry.distinct (within provider List.mem_cons_self) registered own
      subst same
      obtain ⟨_,_,⟨_,_,_,_,unavailable⟩ | ⟨begun,_,_,_⟩⟩ := begins
      · rw [refresh_available _ standing] at unavailable
        exact absurd standing unavailable
      · have answered : invoke fallback request (world.answers s.invoked.length fallback.name) =
            .reply (.response (degradedResponse request)) := rfl
        simp only [failover,begun,answered]
        refine ⟨?_,fun _ => .inl ⟨_,rfl⟩⟩
        rw [Standing,onSuccess_health,recordReply_self]
        rfl
    · obtain ⟨apart,_,outcome⟩ := begins
      have kept : Standing (attempt world provider capability number s).1 := by
        rw [Standing,apart _ (Ne.symm own)]
        exact standing
      have recorded : ∀ reply, Standing (recordReply world provider reply (attempt world provider capability number s).1) := by
        intro reply
        rw [Standing,recordReply_other world (Ne.symm own)]
        exact kept
      have onward : ∀ exc state, Standing state →
          Standing (failover world request capability total rest (number + 1) (failedOver ++ [provider.name])
            (onFailure provider capability exc state)).1 ∧
          (fallback ∈ provider :: rest → Served world (provider :: rest)
            (failover world request capability total rest (number + 1) (failedOver ++ [provider.name])
              (onFailure provider capability exc state)).2) := by
        intro exc state stands
        have stands : Standing (onFailure provider capability exc state) := by rwa [Standing,onFailure_health]
        obtain ⟨later,served⟩ := ih others (number + 1) (failedOver ++ [provider.name]) stands
        refine ⟨later,fun listed => .later provider (served ((List.mem_cons.mp listed).resolve_left ?_))⟩
        rintro rfl
        exact own rfl
      rcases outcome with ⟨exc,raised,_⟩ | ⟨begun,_⟩
      · simp only [failover,raised]
        exact onward exc _ kept
      · simp only [failover,begun]
        cases invoked : invoke provider request (world.answers s.invoked.length provider.name) with
        | exception text =>
          obtain ⟨custom,answer⟩ := invoke_exception invoked
          exact ⟨kept,fun _ => .inr ⟨provider,List.mem_cons_self,_,text,custom,answer,rfl⟩⟩
        | reply reply =>
          cases reply with
          | response response =>
            refine ⟨?_,fun _ => .inl ⟨_,rfl⟩⟩
            rw [Standing,onSuccess_health]
            exact recorded _
          | error exc => exact onward exc _ (recorded _)

/-! ### Calls -/

/-- Every call leaves the fallback available, and one that admits it is served. -/
theorem step_fallback (registered : fallback ∈ world.registry.providers) (standing : Standing s) (call : ManagerCall) :
    Standing (step world s call) ∧ (Admits call → Served world world.registry.providers
      (complete world call.request call.capability call.order s).2) := by
  have checked := @keepServing_standing world s standing (inOrder world.registry call.capability call.order)
  have within : ∀ provider ∈ (candidates world call.capability call.order s).2, provider ∈ world.registry.providers :=
    fun provider member => inOrder_registered ((keepServing_sublist world _ s).subset member)
  unfold step complete
  by_cases none : (candidates world call.capability call.order s).2 = []
  · simp only [if_pos none]
    refine ⟨checked,?_⟩
    intro admits
    have listed := @keepServing_fallback world s standing _ (inOrder_fallback registered admits)
    exact absurd none (List.ne_nil_of_mem listed)
  · simp only [if_neg none]
    obtain ⟨later,served⟩ := failover_fallback registered call.request call.capability
      (candidates world call.capability call.order s).2.length within 1 [] checked
    refine ⟨later,?_⟩
    intro admits
    rcases served (keepServing_fallback standing (inOrder_fallback registered admits)) with returned | escaped
    · exact .inl returned
    · obtain ⟨provider,member,escapes⟩ := escaped
      exact .inr ⟨provider,within provider member,escapes⟩

/-- In every run the fallback stays available, and every call that admits it is served: it
    raises no `NoProviderAvailable`, and returns where the custom providers keep to the
    provider boundary. -/
theorem always_served (registered : fallback ∈ world.registry.providers) (calls : List ManagerCall) :
    Always (step world) Standing {} calls ∧
    Each (step world) (fun s call => Admits call →
      (∀ message, (complete world call.request call.capability call.order s).2 ≠ .error (.noProviderAvailable message)) ∧
      (Contract world world.registry.providers →
        ∃ invocation, (complete world call.request call.capability call.order s).2 = .ok invocation)) {} calls := by
  have fresh : Standing {} := rfl
  have always : Always (step world) Standing {} calls :=
    always_of_step Standing (fun s call standing => (step_fallback registered standing call).1) fresh calls
  refine ⟨always,?_⟩
  have each : Each (step world) (fun _ _ => True) {} calls := fun _ _ _ => trivial
  refine Each.mono ?_ always each
  intro s call standing _ admits
  have served := (step_fallback registered standing call).2 admits
  constructor
  · intro message raised
    rw [raised] at served
    rcases served with ⟨_,returned⟩ | ⟨_,_,_,_,_,_,escaped⟩
    · cases returned
    · cases escaped
  · intro contract
    rcases served with returned | ⟨provider,member,number,text,custom,answer,_⟩
    · exact returned
    · obtain ⟨reply,replied⟩ := contract provider member custom number
      rw [answer] at replied
      cases replied

end

/-- Claude's adapter fails at every call; the fallback stands in. -/
def stranded : World where
  registry := ⟨[claudeProvider none,fallback],by decide⟩
  clock _ reading := reading
  answers _ _ := .exception "connection reset"

theorem stranded_served :
    let call : ManagerCall := { request := ⟨"m",[]⟩, capability := .codeGeneration, order := some ["claude","local"] }
    Standing (step stranded {} call) ∧
      ∃ invocation, (complete stranded call.request call.capability call.order {}).2 = .ok invocation := by
  intro call
  have contract : Contract stranded stranded.registry.providers := by
    intro provider member custom
    simp only [stranded,List.mem_cons,List.not_mem_nil,or_false] at member
    rcases member with rfl | rfl <;> cases custom
  have admits : Admits call := ⟨rfl,by rintro names ⟨⟩; decide⟩
  obtain ⟨always,each⟩ := @always_served stranded (by simp [stranded]) [call]
  exact ⟨always.last,(each [] call (by simp) admits).2 contract⟩

end Hookclose.GracefulDegradation
