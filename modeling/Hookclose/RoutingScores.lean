import Hookclose.Routing
import Hookclose.BinaryRounding
import Mathlib.Tactic.Ring

/-!
The scores of candidates in exact arithmetic. The affinity of a candidate is linear in its
place between the cheapest and the dearest, rising where the complexity is above one half
and falling where it is below; under the default policy the complexity is a whole number of
hundredths, so that away from one half the slope outweighs the rounding.
-/
namespace Hookclose.RoutingScores
open Hookclose.ProviderState Hookclose.Vendors Hookclose.ProviderRegistry Hookclose.Rounding
open Hookclose.Routing Hookclose.Rankings Hookclose.BinaryRounding

/-! ### Costs -/

section
variable {candidates : List Provider} {first second provider : Provider}

theorem cheapest_min (member : provider ∈ candidates) : (costs candidates).min? = some (cheapest candidates) := by
  have listed : provider.profile.costPer1kTokens ∈ costs candidates := List.mem_map_of_mem member
  cases least : (costs candidates).min? with
  | none =>
    rw [List.min?_eq_none_iff.mp least] at listed
    cases listed
  | some lowest => simp only [cheapest,least,Option.getD_some]

theorem cheapest_le (member : provider ∈ candidates) : cheapest candidates ≤ provider.profile.costPer1kTokens :=
  (List.min?_eq_some_iff.mp (cheapest_min member)).2 _ (List.mem_map_of_mem member)

/-- Some candidate has the lowest cost. -/
theorem cheapest_attained (member : provider ∈ candidates) :
    ∃ lowest ∈ candidates, lowest.profile.costPer1kTokens = cheapest candidates :=
  List.mem_map.mp (List.min?_eq_some_iff.mp (cheapest_min member)).1

theorem le_dearest (member : provider ∈ candidates) : provider.profile.costPer1kTokens ≤ dearest candidates := by
  have listed : provider.profile.costPer1kTokens ∈ costs candidates := List.mem_map_of_mem member
  cases greatest : (costs candidates).max? with
  | none =>
    rw [List.max?_eq_none_iff.mp greatest] at listed
    cases listed
  | some highest =>
    simp only [dearest,greatest,Option.getD_some]
    exact (List.max?_eq_some_iff.mp greatest).2 _ listed

/-- One candidate is dearer by a thousandth of the cost span at least. -/
def Dearer (candidates : List Provider) (first second : Provider) : Prop :=
  second.profile.costPer1kTokens < first.profile.costPer1kTokens ∧
  (dearest candidates - cheapest candidates) / 1000 ≤ first.profile.costPer1kTokens - second.profile.costPer1kTokens

instance (candidates : List Provider) (first second : Provider) : Decidable (Dearer candidates first second) := by
  unfold Dearer
  infer_instance

/-- The place of a candidate between the cheapest and the dearest. -/
def place (candidates : List Provider) (provider : Provider) : ℚ :=
  normalizedCost id candidates provider.profile.costPer1kTokens

theorem place_gap (isFirst : first ∈ candidates) (isSecond : second ∈ candidates)
    (dearer : Dearer candidates first second) : 1/1000 ≤ place candidates first - place candidates second := by
  have low := cheapest_le isSecond
  have high := le_dearest isFirst
  have span : 0 < dearest candidates - cheapest candidates := by linarith [dearer.1]
  have gap : place candidates first - place candidates second =
      (first.profile.costPer1kTokens - second.profile.costPer1kTokens) / (dearest candidates - cheapest candidates) := by
    simp only [place,normalizedCost,id,if_neg span.ne']
    ring
  rw [gap,le_div_iff₀ span]
  linarith [dearer.2]

/-- Rounded or not, a candidate lies between the cheapest and the dearest. -/
theorem normalizedCost_bounds {fl : ℚ → ℚ} (steady : Steady fl) (member : provider ∈ candidates) :
    0 ≤ normalizedCost fl candidates provider.profile.costPer1kTokens ∧
      normalizedCost fl candidates provider.profile.costPer1kTokens ≤ 1 := by
  have low := cheapest_le member
  have high := le_dearest member
  simp only [normalizedCost]
  split_ifs with flat
  · norm_num
  · have span : 0 < fl (dearest candidates - cheapest candidates) :=
      lt_of_le_of_ne (steady.nonneg (by linarith)) (Ne.symm flat)
    have above : 0 ≤ fl (provider.profile.costPer1kTokens - cheapest candidates) := steady.nonneg (by linarith)
    have within : fl (provider.profile.costPer1kTokens - cheapest candidates) ≤
        fl (dearest candidates - cheapest candidates) := steady.monotone (by linarith)
    exact ⟨steady.nonneg (div_nonneg above span.le),steady.le_one ((div_le_one span).mpr within)⟩

theorem place_bounds (member : provider ∈ candidates) : 0 ≤ place candidates provider ∧ place candidates provider ≤ 1 :=
  normalizedCost_bounds steady_id member

/-! ### Scores -/

/-- The score of a candidate before it is rounded. -/
def weighted (candidates : List Provider) (complexity : ℚ) (provider : Provider) : ℚ :=
  affinity id complexity (place candidates provider) * provider.profile.weight

theorem affinity_eq (complexity ncost : ℚ) :
    affinity id complexity ncost = complexity * ncost + (1 - complexity) * (1 - ncost) := rfl

theorem affinity_nonneg {fl : ℚ → ℚ} (steady : Steady fl) {complexity ncost : ℚ} (low : 0 ≤ complexity) (high : complexity ≤ 1)
    (left : 0 ≤ ncost) (right : ncost ≤ 1) : 0 ≤ affinity fl complexity ncost := by
  have dear : 0 ≤ fl (complexity * ncost) := steady.nonneg (mul_nonneg low left)
  have cheap : 0 ≤ fl (fl (1 - complexity) * fl (1 - ncost)) :=
    steady.nonneg (mul_nonneg (steady.nonneg (by linarith)) (steady.nonneg (by linarith)))
  exact steady.nonneg (add_nonneg dear cheap)

theorem providerScore_eq (complexity : ℚ) : providerScore id candidates complexity provider =
    roundHalfEven (weighted candidates complexity provider * 1000000) / 1000000 := rfl

theorem providerScore_lt {complexity : ℚ} :
    providerScore id candidates complexity second < providerScore id candidates complexity first ↔
      roundHalfEven (weighted candidates complexity second * 1000000) <
        roundHalfEven (weighted candidates complexity first * 1000000) := by
  rw [providerScore_eq,providerScore_eq,div_lt_div_iff_of_pos_right (by norm_num),Int.cast_lt]

/-- Scores more than a millionth apart stay apart. -/
theorem providerScore_apart {complexity : ℚ}
    (apart : weighted candidates complexity second + 1/1000000 < weighted candidates complexity first) :
    providerScore id candidates complexity second < providerScore id candidates complexity first := by
  rw [providerScore_lt]
  apply roundHalfEven_lt
  linarith

/-- With weight 1 the dearer candidate gains by the slope of the affinity. -/
theorem weighted_gap {complexity : ℚ} (firstWeight : first.profile.weight = 1) (secondWeight : second.profile.weight = 1) :
    weighted candidates complexity first - weighted candidates complexity second =
      (2 * complexity - 1) * (place candidates first - place candidates second) := by
  simp only [weighted,affinity_eq,firstWeight,secondWeight]
  ring

theorem dearer_outscores {complexity : ℚ} (slope : 1/50 ≤ 2 * complexity - 1) (isFirst : first ∈ candidates)
    (isSecond : second ∈ candidates) (firstWeight : first.profile.weight = 1) (secondWeight : second.profile.weight = 1)
    (dearer : Dearer candidates first second) :
    providerScore id candidates complexity second < providerScore id candidates complexity first := by
  have gap := place_gap isFirst isSecond dearer
  have gain := @weighted_gap candidates first second complexity firstWeight secondWeight
  apply providerScore_apart
  nlinarith

theorem cheaper_outscores {complexity : ℚ} (slope : 2 * complexity - 1 ≤ -1/50) (isFirst : first ∈ candidates)
    (isSecond : second ∈ candidates) (firstWeight : first.profile.weight = 1) (secondWeight : second.profile.weight = 1)
    (dearer : Dearer candidates first second) :
    providerScore id candidates complexity first < providerScore id candidates complexity second := by
  have gap := place_gap isFirst isSecond dearer
  have loss := @weighted_gap candidates first second complexity firstWeight secondWeight
  apply providerScore_apart
  nlinarith

/-- At one half no cost is better than another. -/
theorem balanced_score (firstWeight : first.profile.weight = 1) (secondWeight : second.profile.weight = 1) :
    providerScore id candidates (1/2) first = providerScore id candidates (1/2) second := by
  have same : weighted candidates (1/2) first = weighted candidates (1/2) second := by
    simp only [weighted,affinity_eq,firstWeight,secondWeight]
    ring
  rw [providerScore_eq,providerScore_eq,same]

end

/-! ### Complexity under the default policy -/

/-- The hundredths of a complexity. -/
def hundredths : TaskComplexity → Int
  | .trivial => 10
  | .simple => 30
  | .moderate => 50
  | .complex => 80
  | .critical => 100

theorem score_hundredths (complexity : TaskComplexity) : complexity.score id = hundredths complexity / 100 := by
  cases complexity <;> norm_num [TaskComplexity.score,hundredths]

/-- What a request counts before escalation. -/
def base (request : RoutingRequest) : TaskComplexity :=
  request.complexityHint.getD ((RoutingPolicy.default id).baseComplexity request.taskType)

/-- The escalated complexity in hundredths. -/
def escalated (request : RoutingRequest) : Int :=
  hundredths (base request) + 3 * request.priority + 15 * request.retryCount

theorem complexityScore_eq (request : RoutingRequest) :
    complexityScore id (RoutingPolicy.default id) request = ((max 0 (min 100 (escalated request)) : Int) : ℚ) / 100 := by
  have start : complexityScore id (RoutingPolicy.default id) request =
      clamp ((base request).score id + request.priority * (3/100) + request.retryCount * (15/100)) 0 1 := by
    unfold complexityScore base
    cases request.complexityHint <;> rfl
  have whole : (base request).score id + request.priority * (3/100) + request.retryCount * (15/100) =
      (escalated request : ℚ) / 100 := by
    rw [score_hundredths,escalated]
    push_cast
    ring
  have scaled : ((max 0 (min 100 (escalated request)) : Int) : ℚ) / 100 =
      max (0 / 100) (min (100 / 100) ((escalated request : ℚ) / 100)) := by
    rw [min_div_div_right (by norm_num),max_div_div_right (by norm_num)]
    push_cast
    rfl
  rw [start,whole,scaled,clamp]
  norm_num

theorem complexityScore_bounds (fl : ℚ → ℚ) (policy : RoutingPolicy) (request : RoutingRequest) :
    0 ≤ complexityScore fl policy request ∧ complexityScore fl policy request ≤ 1 := by
  simp [complexityScore,clamp]

/-- More priority and more retries never make a request simpler. -/
theorem complexityScore_mono {calm pressed : RoutingRequest} (sameBase : base calm = base pressed)
    (priority : calm.priority ≤ pressed.priority) (retries : calm.retryCount ≤ pressed.retryCount) :
    complexityScore id (RoutingPolicy.default id) calm ≤ complexityScore id (RoutingPolicy.default id) pressed := by
  have rising : escalated calm ≤ escalated pressed := by
    simp only [escalated,sameBase]
    omega
  have clamped : max 0 (min 100 (escalated calm)) ≤ max 0 (min 100 (escalated pressed)) := by omega
  rw [complexityScore_eq,complexityScore_eq]
  apply div_le_div_of_nonneg_right _ (by norm_num)
  exact_mod_cast clamped

/-- A complexity other than one half is a hundredth away from it. -/
theorem complexityScore_slope (request : RoutingRequest) :
    let complexity := complexityScore id (RoutingPolicy.default id) request
    complexity = 1/2 ∨ 1/50 ≤ 2 * complexity - 1 ∨ 2 * complexity - 1 ≤ -1/50 := by
  simp only [complexityScore_eq]
  generalize max 0 (min 100 (escalated request)) = whole
  rcases lt_trichotomy whole 50 with less | same | more
  · right
    right
    have bound : (whole : ℚ) ≤ 49 := by exact_mod_cast Int.le_sub_one_of_lt less
    linarith
  · left
    rw [same]
    norm_num
  · right
    left
    have bound : (51 : ℚ) ≤ whole := by exact_mod_cast more
    linarith

end Hookclose.RoutingScores
