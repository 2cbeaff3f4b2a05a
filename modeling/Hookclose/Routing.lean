import Hookclose.ProviderRegistry
import Hookclose.Rankings

/-!
The routing engine: a score of the complexity of a request, the providers that are
eligible for it, and their order by cost and weight. Every operation on floats gives its
exact result rounded by `fl`; in exact arithmetic `fl` is the identity.
-/
namespace Hookclose.Routing
open Hookclose.ProviderState Hookclose.Vendors Hookclose.ProviderRegistry Hookclose.Rounding Hookclose.Rankings

inductive TaskComplexity
  | trivial
  | simple
  | moderate
  | complex
  | critical
  deriving DecidableEq, Repr

structure RoutingRequest where
  capability : Capability
  taskType : String := ""
  estimatedTokens : Int := 0
  priority : Int := 0
  retryCount : Int := 0
  complexityHint : Option TaskComplexity := none

/-- The knobs; the map gives the complexity under each of its keys. -/
structure RoutingPolicy where
  taskTypeComplexity : String → Option TaskComplexity := fun _ => none
  defaultComplexity : TaskComplexity := .moderate
  priorityWeight : ℚ
  retryEscalation : ℚ

structure RoutingDecision where
  capability : Capability
  complexityScore : ℚ
  orderedProviders : List String
  providerScores : List (String × ℚ)
  reason : String
  deriving DecidableEq

/-! ### Complexity -/

section
variable (fl : ℚ → ℚ)

def TaskComplexity.score : TaskComplexity → ℚ
  | .trivial => fl (1/10)
  | .simple => fl (3/10)
  | .moderate => fl (1/2)
  | .complex => fl (4/5)
  | .critical => 1

/-- From here on a decision is called quality-weighted. -/
def qualityThreshold : ℚ := fl (1/2)

/-- `RoutingPolicy.default`. -/
def RoutingPolicy.default : RoutingPolicy where
  taskTypeComplexity
    | "architecture" => some .critical
    | "review" => some .complex
    | "analysis" => some .complex
    | "refactor" => some .complex
    | "spec" => some .complex
    | "codegen" => some .moderate
    | "testing" => some .simple
    | "extraction" => some .trivial
    | "ingest" => some .trivial
    | _ => none
  priorityWeight := fl (3/100)
  retryEscalation := fl (15/100)

/-- The complexity under the part of the task type before its first dot. -/
def RoutingPolicy.baseComplexity (policy : RoutingPolicy) (taskType : String) : TaskComplexity :=
  let head := String.ofList (taskType.toList.takeWhile (fun c => c ≠ '.'))
  (policy.taskTypeComplexity head).getD policy.defaultComplexity

def clamp (value low high : ℚ) : ℚ := max low (min high value)

/-- `ComplexityRoutingEngine.complexity_score`. -/
def complexityScore (policy : RoutingPolicy) (request : RoutingRequest) : ℚ :=
  let base := match request.complexityHint with
    | some hint => hint.score fl
    | none => (policy.baseComplexity request.taskType).score fl
  let escalated := fl (fl (base + fl (fl request.priority * policy.priorityWeight)) +
    fl (fl request.retryCount * policy.retryEscalation))
  clamp escalated 0 1

/-! ### Ranking -/

/-- `round(value, 6)`. -/
def round6 (value : ℚ) : ℚ := fl (roundHalfEven (value * 1000000) / 1000000)

def costs (candidates : List Provider) : List ℚ := candidates.map (fun provider => provider.profile.costPer1kTokens)

/-- The lowest cost of the candidates, of which there is at least one. -/
def cheapest (candidates : List Provider) : ℚ := (costs candidates).min?.getD 0

def dearest (candidates : List Provider) : ℚ := (costs candidates).max?.getD 0

/-- The place of a cost between the lowest and the highest. -/
def normalizedCost (candidates : List Provider) (cost : ℚ) : ℚ :=
  let span := fl (dearest candidates - cheapest candidates)
  if span = 0 then 1/2 else fl (fl (cost - cheapest candidates) / span)

/-- High complexity rewards a high cost, low complexity a low one. -/
def affinity (complexity ncost : ℚ) : ℚ :=
  fl (fl (complexity * ncost) + fl (fl (1 - complexity) * fl (1 - ncost)))

def providerScore (candidates : List Provider) (complexity : ℚ) (provider : Provider) : ℚ :=
  round6 fl (fl (affinity fl complexity (normalizedCost fl candidates provider.profile.costPer1kTokens) *
    provider.profile.weight))

end

/-- The sort key `(-score, name)`, compared lexicographically. -/
def Outranks (first second : String × ℚ) : Prop :=
  second.2 < first.2 ∨ (first.2 = second.2 ∧ first.1 ≤ second.1)

instance : DecidableRel Outranks := fun first second => by unfold Outranks; infer_instance

instance : Std.Total Outranks where
  total first second := by
    unfold Outranks
    rcases lt_trichotomy first.2 second.2 with lower | same | higher
    · exact .inr (.inl lower)
    · rcases le_total first.1 second.1 with names | names
      · exact .inl (.inr ⟨same,names⟩)
      · exact .inr (.inr ⟨same.symm,names⟩)
    · exact .inl (.inl higher)

instance : IsTrans (String × ℚ) Outranks where
  trans first second third := by
    rintro (higher | ⟨same,names⟩) (lower | ⟨equal,later⟩)
    · exact .inl (lower.trans higher)
    · exact .inl (equal ▸ higher)
    · exact .inl (same ▸ lower)
    · exact .inr ⟨same.trans equal,names.trans later⟩

/-- The key leaves no two different entries undecided. -/
theorem outranks_decides (entries : List (String × ℚ)) : Decides Outranks entries := by
  rintro first _ second _ (higher | ⟨same,names⟩) (lower | ⟨equal,later⟩)
  · exact absurd higher lower.asymm
  · exact absurd higher (by simp [equal])
  · exact absurd lower (by simp [same])
  · exact Prod.ext (names.antisymm later) same

/-- `_rank`. -/
def rank (fl : ℚ → ℚ) (candidates : List Provider) (complexity : ℚ) : List (String × ℚ) :=
  (candidates.map (fun provider => (provider.name,providerScore fl candidates complexity provider))).insertionSort
    Outranks

section
variable {fl : ℚ → ℚ} {candidates : List Provider} {complexity : ℚ}

theorem rank_sorted : (rank fl candidates complexity).Pairwise Outranks := List.pairwise_insertionSort Outranks _

theorem rank_names : ((rank fl candidates complexity).map Prod.fst).Perm (candidates.map Provider.name) := by
  have sorted := (List.perm_insertionSort Outranks
    (candidates.map (fun provider => (provider.name,providerScore fl candidates complexity provider)))).map Prod.fst
  simpa [rank,Function.comp_def] using sorted

theorem mem_rank {entry : String × ℚ} : entry ∈ rank fl candidates complexity ↔
    ∃ provider ∈ candidates, (provider.name,providerScore fl candidates complexity provider) = entry := by
  rw [rank,List.mem_insertionSort,List.mem_map]

/-- Of two candidates the one with the higher score comes first, on equal scores the one
    with the lower name. -/
theorem rank_before (distinct : (candidates.map Provider.name).Nodup) {first second : Provider}
    (isFirst : first ∈ candidates) (isSecond : second ∈ candidates) (differ : first.name ≠ second.name) :
    Before ((rank fl candidates complexity).map Prod.fst) first.name second.name ↔
      providerScore fl candidates complexity second < providerScore fl candidates complexity first ∨
      (providerScore fl candidates complexity first = providerScore fl candidates complexity second ∧
        first.name < second.name) := by
  have names : ((rank fl candidates complexity).map Prod.fst).Nodup := rank_names.nodup_iff.mpr distinct
  have ranked : ∀ provider ∈ candidates,
      (provider.name,providerScore fl candidates complexity provider) ∈ rank fl candidates complexity :=
    fun provider member => mem_rank.mpr ⟨provider,member,rfl⟩
  have firstRanked := ranked first isFirst
  have secondRanked := ranked second isSecond
  have apart : (first.name,providerScore fl candidates complexity first) ≠
      (second.name,providerScore fl candidates complexity second) := by
    intro same
    exact differ (congrArg Prod.fst same)
  have mapped := before_map names firstRanked secondRanked
  rw [mapped,before_iff rank_sorted (outranks_decides _) firstRanked secondRanked apart]
  simp [Outranks,le_iff_lt_or_eq,differ]

end

/-! ### Decisions -/

def fits (request : RoutingRequest) (provider : Provider) : Bool :=
  request.estimatedTokens ≤ provider.profile.contextWindow

/-- The supporting providers that are large enough, or all of them, with a note. -/
def eligible (registry : Registry) (request : RoutingRequest) : List Provider × String :=
  let supporting := registry.forCapability request.capability
  let fitting := supporting.filter (fits request)
  if fitting = [] then (supporting,"context-overflow-relaxed") else (fitting,"context-fit")

/-- A value that is not negative with two decimals. -/
def twoDecimals (value : ℚ) : String :=
  let hundredths := (roundHalfEven (value * 100)).toNat
  toString (hundredths / 100) ++ "." ++ toString (hundredths / 10 % 10) ++ toString (hundredths % 10)

/-- `ComplexityRoutingEngine.decide`. -/
def decide (fl : ℚ → ℚ) (policy : RoutingPolicy) (registry : Registry) (request : RoutingRequest) : RoutingDecision :=
  let score := complexityScore fl policy request
  if registry.forCapability request.capability = [] then
    { capability := request.capability
      complexityScore := score
      orderedProviders := []
      providerScores := []
      reason := "no provider declares capability " ++ Text.repr request.capability.value }
  else
    let (candidates,note) := eligible registry request
    let ranked := rank fl candidates score
    { capability := request.capability
      complexityScore := score
      orderedProviders := ranked.map Prod.fst
      providerScores := ranked
      reason := "complexity=" ++ twoDecimals score ++ " (" ++ note ++ "); " ++
        (if qualityThreshold fl ≤ score then "quality-weighted" else "cost-weighted") ++ " order" }

/-! ### What a decision says -/

section
variable {fl : ℚ → ℚ} {policy : RoutingPolicy} {registry : Registry} {request : RoutingRequest}

/-- A provider supports the capability, and is large enough or none that supports it is. -/
def Eligible (registry : Registry) (request : RoutingRequest) (provider : Provider) : Prop :=
  provider.profile.supports request.capability = true ∧
  (fits request provider = true ∨
    ∀ other ∈ registry.providers, other.profile.supports request.capability = true → fits request other = false)

theorem mem_eligible {provider : Provider} :
    provider ∈ (eligible registry request).1 ↔ provider ∈ registry.providers ∧ Eligible registry request provider := by
  unfold eligible Eligible
  simp only []
  split_ifs with none
  · have small : ∀ other ∈ registry.providers, other.profile.supports request.capability = true →
        fits request other = false := by
      intro other registered supports
      have excluded := List.filter_eq_nil_iff.mp none other (mem_forCapability.mpr ⟨registered,supports⟩)
      simpa using excluded
    simp only [mem_forCapability]
    exact ⟨fun ⟨registered,supports⟩ => ⟨registered,supports,.inr small⟩,fun ⟨registered,supports,_⟩ => ⟨registered,supports⟩⟩
  · obtain ⟨large,member⟩ := List.exists_mem_of_ne_nil _ none
    obtain ⟨supporting,fitting⟩ := List.mem_filter.mp member
    obtain ⟨registered,supports⟩ := mem_forCapability.mp supporting
    simp only [List.mem_filter,mem_forCapability]
    constructor
    · rintro ⟨⟨isRegistered,does⟩,fit⟩
      exact ⟨isRegistered,does,.inl fit⟩
    · rintro ⟨isRegistered,does,fit | noneFits⟩
      · exact ⟨⟨isRegistered,does⟩,fit⟩
      · rw [noneFits large registered supports] at fitting
        cases fitting

theorem eligible_distinct : ((eligible registry request).1.map Provider.name).Nodup := by
  have supporting := forCapability_distinct registry request.capability
  unfold eligible
  simp only []
  split_ifs
  · exact supporting
  · exact (List.filter_sublist.map Provider.name).nodup supporting

theorem decide_scores : (decide fl policy registry request).providerScores =
    rank fl (eligible registry request).1 (complexityScore fl policy request) := by
  by_cases none : registry.forCapability request.capability = []
  · have nobody : (eligible registry request).1 = [] := by simp [eligible,none]
    simp [decide,none,nobody,rank]
  · simp [decide,none]

theorem decide_ordered : (decide fl policy registry request).orderedProviders =
    (decide fl policy registry request).providerScores.map Prod.fst := by
  by_cases none : registry.forCapability request.capability = []
  · simp [decide,none]
  · simp [decide,none]

theorem ordered_names : (decide fl policy registry request).orderedProviders.Perm
    ((eligible registry request).1.map Provider.name) := by
  rw [decide_ordered,decide_scores]
  exact rank_names

/-- `rank_before` for a decision. -/
theorem decide_before {first second : Provider} (isFirst : first ∈ (eligible registry request).1)
    (isSecond : second ∈ (eligible registry request).1) (differ : first.name ≠ second.name) :
    Before (decide fl policy registry request).orderedProviders first.name second.name ↔
      providerScore fl (eligible registry request).1 (complexityScore fl policy request) second <
        providerScore fl (eligible registry request).1 (complexityScore fl policy request) first ∨
      (providerScore fl (eligible registry request).1 (complexityScore fl policy request) first =
        providerScore fl (eligible registry request).1 (complexityScore fl policy request) second ∧
        first.name < second.name) := by
  rw [decide_ordered,decide_scores]
  exact rank_before eligible_distinct isFirst isSecond differ

end

end Hookclose.Routing
