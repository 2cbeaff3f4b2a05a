import Hookclose.RoutingScores
import Hookclose.Doubles

/-!
What the engine promises about its orders. In exact arithmetic: that a decision is called
quality-weighted where dearer candidates come first (true except at one half, where only
names count), and that escalation never demotes the dearer of two candidates. In floating
point: that the heavier of two equally dear ones comes first (true unless their common
affinity is so small that the rounding hides the weights).
-/
namespace Hookclose.RoutingLaws
open Hookclose.ProviderState Hookclose.Vendors Hookclose.ProviderRegistry Hookclose.Rounding
open Hookclose.Routing Hookclose.Rankings Hookclose.RoutingScores Hookclose.BinaryRounding Hookclose.Doubles

section
variable {registry : Registry} {request : RoutingRequest} {first second : Provider}

/-- Different candidates have different names. -/
theorem names_differ (isFirst : first ∈ (eligible registry request).1) (isSecond : second ∈ (eligible registry request).1)
    (differ : first ≠ second) : first.name ≠ second.name :=
  fun same => differ (List.inj_on_of_nodup_map eligible_distinct isFirst isSecond same)

theorem dearer_names {candidates : List Provider} (dearer : Dearer candidates first second) : first ≠ second := by
  rintro rfl
  exact lt_irrefl _ dearer.1

/-- Where the scores are not equal they decide. -/
theorem before_of_score {fl : ℚ → ℚ} {policy : RoutingPolicy} (isFirst : first ∈ (eligible registry request).1)
    (isSecond : second ∈ (eligible registry request).1)
    (higher : providerScore fl (eligible registry request).1 (complexityScore fl policy request) second <
      providerScore fl (eligible registry request).1 (complexityScore fl policy request) first) :
    Before (Routing.decide fl policy registry request).orderedProviders first.name second.name := by
  have differ : first ≠ second := by
    rintro rfl
    exact lt_irrefl _ higher
  exact (decide_before isFirst isSecond (names_differ isFirst isSecond differ)).mpr (.inl higher)

/-- One of two candidates does not come before the other when its score is lower. -/
theorem not_before_of_score {fl : ℚ → ℚ} {policy : RoutingPolicy} (isFirst : first ∈ (eligible registry request).1)
    (isSecond : second ∈ (eligible registry request).1)
    (lower : providerScore fl (eligible registry request).1 (complexityScore fl policy request) first <
      providerScore fl (eligible registry request).1 (complexityScore fl policy request) second) :
    ¬ Before (Routing.decide fl policy registry request).orderedProviders first.name second.name := by
  have differ : first ≠ second := by
    rintro rfl
    exact lt_irrefl _ lower
  rw [decide_before isFirst isSecond (names_differ isFirst isSecond differ)]
  rintro (higher | ⟨same,_⟩)
  · exact higher.asymm lower
  · exact lower.ne same

/-- Where the scores are equal the names decide. -/
theorem before_of_names {fl : ℚ → ℚ} {policy : RoutingPolicy} (isFirst : first ∈ (eligible registry request).1)
    (isSecond : second ∈ (eligible registry request).1) (differ : first ≠ second)
    (same : providerScore fl (eligible registry request).1 (complexityScore fl policy request) first =
      providerScore fl (eligible registry request).1 (complexityScore fl policy request) second) :
    Before (Routing.decide fl policy registry request).orderedProviders first.name second.name ↔
      first.name < second.name := by
  rw [decide_before isFirst isSecond (names_differ isFirst isSecond differ)]
  simp [same]

/-! ### The quality threshold -/

/-- From the threshold on the dearer of two candidates comes first, below it the cheaper. -/
def Honoured (registry : Registry) (request : RoutingRequest) : Prop :=
  let decision := Routing.decide id (RoutingPolicy.default id) registry request
  ∀ first ∈ (eligible registry request).1, ∀ second ∈ (eligible registry request).1,
    Dearer (eligible registry request).1 first second →
    if 1/2 ≤ complexityScore id (RoutingPolicy.default id) request then
      Before decision.orderedProviders first.name second.name
    else Before decision.orderedProviders second.name first.name

/-- The names of the candidates put the dearer first. -/
def NamedByCost (registry : Registry) (request : RoutingRequest) : Prop :=
  ∀ first ∈ (eligible registry request).1, ∀ second ∈ (eligible registry request).1,
    Dearer (eligible registry request).1 first second → first.name < second.name

/-- At one half the candidates are in the order of their names. -/
theorem balanced_before (balanced : complexityScore id (RoutingPolicy.default id) request = 1/2)
    (isFirst : first ∈ (eligible registry request).1) (isSecond : second ∈ (eligible registry request).1)
    (firstWeight : first.profile.weight = 1) (secondWeight : second.profile.weight = 1) (differ : first ≠ second) :
    Before (Routing.decide id (RoutingPolicy.default id) registry request).orderedProviders first.name second.name ↔
      first.name < second.name := by
  apply before_of_names isFirst isSecond differ
  rw [balanced]
  exact balanced_score firstWeight secondWeight

/-- Away from one half the order is what the label says. -/
theorem honoured_pair (slanted : complexityScore id (RoutingPolicy.default id) request ≠ 1/2)
    (isFirst : first ∈ (eligible registry request).1) (isSecond : second ∈ (eligible registry request).1)
    (firstWeight : first.profile.weight = 1) (secondWeight : second.profile.weight = 1)
    (dearer : Dearer (eligible registry request).1 first second) :
    let decision := Routing.decide id (RoutingPolicy.default id) registry request
    if 1/2 ≤ complexityScore id (RoutingPolicy.default id) request then
      Before decision.orderedProviders first.name second.name
    else Before decision.orderedProviders second.name first.name := by
  simp only []
  rcases complexityScore_slope request with balanced | rising | falling
  · exact absurd balanced slanted
  · rw [if_pos (by linarith)]
    exact before_of_score isFirst isSecond (dearer_outscores rising isFirst isSecond firstWeight secondWeight dearer)
  · rw [if_neg (by linarith)]
    exact before_of_score isSecond isFirst (cheaper_outscores falling isFirst isSecond firstWeight secondWeight dearer)

/-- The threshold is honoured unless the complexity is exactly at it and the names are not
    by chance in the right order. -/
theorem honoured_iff (plain : ∀ provider ∈ (eligible registry request).1, provider.profile.weight = 1) :
    Honoured registry request ↔
      complexityScore id (RoutingPolicy.default id) request ≠ 1/2 ∨ NamedByCost registry request := by
  constructor
  · intro honoured
    rw [or_iff_not_imp_left,not_not]
    intro balanced first isFirst second isSecond dearer
    have before := honoured first isFirst second isSecond dearer
    rw [if_pos balanced.ge] at before
    exact (balanced_before balanced isFirst isSecond (plain first isFirst) (plain second isSecond)
      (dearer_names dearer)).mp before
  · intro condition first isFirst second isSecond dearer
    by_cases balanced : complexityScore id (RoutingPolicy.default id) request = 1/2
    · rw [if_pos balanced.ge]
      have named := condition.resolve_left (not_not.mpr balanced)
      exact (balanced_before balanced isFirst isSecond (plain first isFirst) (plain second isSecond)
        (dearer_names dearer)).mpr (named first isFirst second isSecond dearer)
    · exact honoured_pair balanced isFirst isSecond (plain first isFirst) (plain second isSecond) dearer

/-- The vendors with an account. -/
def vendors : Registry := ⟨[claudeProvider none,openCodeProvider none,openAIProvider none,geminiProvider none],by decide⟩

/-- Generating code, without hint, priority or retries. -/
def codegen : RoutingRequest := { capability := .codeGeneration, taskType := "codegen.x" }

theorem codegen_plain : ∀ provider ∈ (eligible vendors codegen).1, provider.profile.weight = 1 := by decide +kernel

/-- A request of complexity one half goes to the cheap provider of two because its name
    comes first. -/
theorem codegen_by_name : (∀ provider ∈ (eligible vendors codegen).1, provider.profile.weight = 1) ∧
    1/2 ≤ complexityScore id (RoutingPolicy.default id) codegen ∧ ¬ Honoured vendors codegen := by
  refine ⟨codegen_plain,by decide +kernel,?_⟩
  have openCode : openCodeProvider none ∈ (eligible vendors codegen).1 :=
    mem_eligible.mpr ⟨by simp [vendors],by decide,.inl (by decide)⟩
  have gemini : geminiProvider none ∈ (eligible vendors codegen).1 :=
    mem_eligible.mpr ⟨by simp [vendors],by decide,.inl (by decide)⟩
  intro honoured
  have before := honoured _ openCode _ gemini (by decide +kernel)
  rw [if_pos (by decide +kernel)] at before
  exact absurd before (by decide +kernel)

/-- What the theorem says of generating code: the names would have to be right. -/
theorem codegen_honoured_iff : Honoured vendors codegen ↔
    complexityScore id (RoutingPolicy.default id) codegen ≠ 1/2 ∨ NamedByCost vendors codegen :=
  honoured_iff codegen_plain

end

/-! ### Escalation -/

/-- The second request is the first with no less priority and no fewer retries. -/
structure Escalates (calm pressed : RoutingRequest) : Prop where
  capability : pressed.capability = calm.capability
  taskType : pressed.taskType = calm.taskType
  hint : pressed.complexityHint = calm.complexityHint
  tokens : pressed.estimatedTokens = calm.estimatedTokens
  priority : calm.priority ≤ pressed.priority
  retries : calm.retryCount ≤ pressed.retryCount

section
variable {registry : Registry} {calm pressed : RoutingRequest}

theorem Escalates.eligible (escalates : Escalates calm pressed) :
    Routing.eligible registry pressed = Routing.eligible registry calm := by
  have same : fits pressed = fits calm := by
    funext provider
    simp only [fits,escalates.tokens]
  simp only [Routing.eligible,same,escalates.capability]

theorem Escalates.base (escalates : Escalates calm pressed) : RoutingScores.base calm = RoutingScores.base pressed := by
  simp [RoutingScores.base,escalates.hint,escalates.taskType]

/-- The advantage of the dearer candidate crosses zero once, at one half. -/
theorem dearer_kept (escalates : Escalates calm pressed) {first second : Provider}
    (isFirst : first ∈ (Routing.eligible registry calm).1) (isSecond : second ∈ (Routing.eligible registry calm).1)
    (firstWeight : first.profile.weight = 1) (secondWeight : second.profile.weight = 1)
    (dearer : Dearer (Routing.eligible registry calm).1 first second)
    (before : Before (Routing.decide id (RoutingPolicy.default id) registry calm).orderedProviders first.name second.name) :
    Before (Routing.decide id (RoutingPolicy.default id) registry pressed).orderedProviders first.name second.name := by
  have rising := complexityScore_mono escalates.base escalates.priority escalates.retries
  have pressedFirst : first ∈ (Routing.eligible registry pressed).1 := escalates.eligible ▸ isFirst
  have pressedSecond : second ∈ (Routing.eligible registry pressed).1 := escalates.eligible ▸ isSecond
  have pressedDearer : Dearer (Routing.eligible registry pressed).1 first second := escalates.eligible ▸ dearer
  -- the first decision would not have ranked the dearer first below one half
  have upper : 1/2 ≤ complexityScore id (RoutingPolicy.default id) calm := by
    rcases complexityScore_slope calm with balanced | steep | falling
    · exact balanced.ge
    · linarith
    · exact absurd before (not_before_of_score isFirst isSecond
        (cheaper_outscores falling isFirst isSecond firstWeight secondWeight dearer))
  rcases complexityScore_slope pressed with balanced | steep | falling
  · have still : complexityScore id (RoutingPolicy.default id) calm = 1/2 := by linarith
    rw [balanced_before balanced pressedFirst pressedSecond firstWeight secondWeight (dearer_names dearer)]
    exact (balanced_before still isFirst isSecond firstWeight secondWeight (dearer_names dearer)).mp before
  · exact before_of_score pressedFirst pressedSecond
      (dearer_outscores steep pressedFirst pressedSecond firstWeight secondWeight pressedDearer)
  · linarith

/-- Escalation raises the complexity within its bounds and demotes no dearer candidate. -/
theorem escalation_promotes (registry : Registry) (escalates : Escalates calm pressed) :
    complexityScore id (RoutingPolicy.default id) calm ≤ complexityScore id (RoutingPolicy.default id) pressed ∧
    (∀ request, 0 ≤ complexityScore id (RoutingPolicy.default id) request ∧
      complexityScore id (RoutingPolicy.default id) request ≤ 1) ∧
    ∀ first ∈ (Routing.eligible registry calm).1, ∀ second ∈ (Routing.eligible registry calm).1,
      first.profile.weight = 1 → second.profile.weight = 1 → Dearer (Routing.eligible registry calm).1 first second →
      Before (Routing.decide id (RoutingPolicy.default id) registry calm).orderedProviders first.name second.name →
      Before (Routing.decide id (RoutingPolicy.default id) registry pressed).orderedProviders first.name second.name :=
  ⟨complexityScore_mono escalates.base escalates.priority escalates.retries,complexityScore_bounds id _,
    fun _ isFirst _ isSecond firstWeight secondWeight dearer before =>
      dearer_kept escalates isFirst isSecond firstWeight secondWeight dearer before⟩

/-- After a retry the dearest vendor still comes first, and others do not fall behind. -/
theorem codegen_retried : Before (Routing.decide id (RoutingPolicy.default id) vendors
    { codegen with retryCount := 1 }).orderedProviders "claude" "opencode" := by
  have claude : claudeProvider none ∈ (Routing.eligible vendors codegen).1 :=
    mem_eligible.mpr ⟨by simp [vendors],by decide,.inl (by decide)⟩
  have openCode : openCodeProvider none ∈ (Routing.eligible vendors codegen).1 :=
    mem_eligible.mpr ⟨by simp [vendors],by decide,.inl (by decide)⟩
  have escalates : Escalates codegen { codegen with retryCount := 1 } := ⟨rfl,rfl,rfl,rfl,le_rfl,by decide⟩
  exact (escalation_promotes vendors escalates).2.2 _ claude _ openCode rfl rfl (by decide +kernel) (by decide +kernel)

end

/-! ### Weights -/

/-- Two candidates cost the same, and the first has the higher, positive weight. -/
structure Heavier (first second : Provider) : Prop where
  sameCost : first.profile.costPer1kTokens = second.profile.costPer1kTokens
  positive : 0 < first.profile.weight
  heavier : second.profile.weight + 1/100 ≤ first.profile.weight

/-- Between the shares of the two weights lies a boundary of the rounding to millionths. The
    shares are what the complexity and the common place in the costs make of the weights. -/
def Telling (fl : ℚ → ℚ) (complexity place heavy light : ℚ) : Prop :=
  let share := fl (fl (complexity * place) + fl (fl (1 - complexity) * fl (1 - place)))
  let lower := fl (share * light) * 1000000
  let upper := fl (share * heavy) * 1000000
  ∃ k : Int, (lower < k + 1/2 ∨ (lower = k + 1/2 ∧ k % 2 = 0)) ∧ (k + 1/2 < upper ∨ (upper = k + 1/2 ∧ k % 2 ≠ 0))

section
variable {fl : ℚ → ℚ} {policy : RoutingPolicy} {registry : Registry} {request : RoutingRequest} {first second : Provider}

/-- Shares more than a millionth apart are told apart. -/
theorem telling_of_apart {complexity place heavy light : ℚ}
    (apart : fl (affinity fl complexity place * light) + 1/1000000 < fl (affinity fl complexity place * heavy)) :
    Telling fl complexity place heavy light := by
  refine (roundHalfEven_lt_iff _ _).mp (roundHalfEven_lt ?_)
  rw [affinity] at apart
  linarith

/-- Scores are in the order of their millionths. -/
theorem providerScore_lt_iff (rounds : Rounds fl) {candidates : List Provider} {complexity : ℚ} :
    providerScore fl candidates complexity second < providerScore fl candidates complexity first ↔
      roundHalfEven (fl (affinity fl complexity (normalizedCost fl candidates second.profile.costPer1kTokens) *
        second.profile.weight) * 1000000) <
      roundHalfEven (fl (affinity fl complexity (normalizedCost fl candidates first.profile.costPer1kTokens) *
        first.profile.weight) * 1000000) := by
  constructor
  · intro lower
    by_contra ordered
    rw [not_lt] at ordered
    refine absurd lower (not_lt.mpr (rounds.monotone ?_))
    apply div_le_div_of_nonneg_right _ (by norm_num)
    exact_mod_cast ordered
  · exact rounds.millionths_lt

/-- `heavier_first_iff` for every rounding to binary fractions. -/
theorem rounded_first_iff (rounds : Rounds fl) (isFirst : first ∈ (eligible registry request).1)
    (isSecond : second ∈ (eligible registry request).1) (heavier : Heavier first second) :
    Before (Routing.decide fl policy registry request).orderedProviders first.name second.name ↔
      first.name < second.name ∨
      Telling fl (complexityScore fl policy request)
        (normalizedCost fl (eligible registry request).1 first.profile.costPer1kTokens)
        first.profile.weight second.profile.weight := by
  have differ : first ≠ second := by
    rintro rfl
    linarith [heavier.heavier]
  obtain ⟨low,high⟩ := complexityScore_bounds fl policy request
  obtain ⟨left,right⟩ := normalizedCost_bounds rounds.steady isFirst
  have share := affinity_nonneg rounds.steady low high left right
  -- the millionths of the two scores are in the order of the weights
  have ordered : roundHalfEven (fl (affinity fl (complexityScore fl policy request)
        (normalizedCost fl (eligible registry request).1 first.profile.costPer1kTokens) * second.profile.weight) * 1000000) ≤
      roundHalfEven (fl (affinity fl (complexityScore fl policy request)
        (normalizedCost fl (eligible registry request).1 first.profile.costPer1kTokens) * first.profile.weight) * 1000000) := by
    apply roundHalfEven_mono
    apply mul_le_mul_of_nonneg_right _ (by norm_num)
    exact rounds.monotone (mul_le_mul_of_nonneg_left (by linarith [heavier.heavier]) share)
  have told : providerScore fl (eligible registry request).1 (complexityScore fl policy request) second <
      providerScore fl (eligible registry request).1 (complexityScore fl policy request) first ↔
      Telling fl (complexityScore fl policy request)
        (normalizedCost fl (eligible registry request).1 first.profile.costPer1kTokens)
        first.profile.weight second.profile.weight := by
    rw [providerScore_lt_iff rounds,← heavier.sameCost,roundHalfEven_lt_iff]
    rfl
  rw [← told,decide_before isFirst isSecond (names_differ isFirst isSecond differ)]
  constructor
  · rintro (higher | ⟨_,names⟩)
    · exact .inr higher
    · exact .inl names
  · rintro (names | higher)
    · have rounded : providerScore fl (eligible registry request).1 (complexityScore fl policy request) second ≤
          providerScore fl (eligible registry request).1 (complexityScore fl policy request) first := by
        rw [providerScore,providerScore,← heavier.sameCost]
        apply rounds.monotone
        apply div_le_div_of_nonneg_right _ (by norm_num)
        exact_mod_cast ordered
      rcases rounded.lt_or_eq with higher | same
      · exact .inl higher
      · exact .inr ⟨same.symm,names⟩
    · exact .inl higher

/-- Of two equally dear candidates the heavier comes first, unless the rounding hides the
    weights and the names are the other way. -/
theorem heavier_first_iff (isFirst : first ∈ (eligible registry request).1)
    (isSecond : second ∈ (eligible registry request).1) (heavier : Heavier first second) :
    Before (Routing.decide double policy registry request).orderedProviders first.name second.name ↔
      first.name < second.name ∨
      Telling double (complexityScore double policy request)
        (normalizedCost double (eligible registry request).1 first.profile.costPer1kTokens)
        first.profile.weight second.profile.weight :=
  rounded_first_iff double_rounds isFirst isSecond heavier

end

/-! ### A hidden weight -/

/-- A provider that reviews, with a cost and a weight. -/
def reviewer (name : String) (cost weight : ℚ) : Provider :=
  ⟨{ name := name, capabilities := {.review}, costPer1kTokens := cost, contextWindow := 100000, weight := weight },.custom⟩

/-- Two free models, one preferred, beside a paid one. -/
def reviewers : Registry := ⟨[reviewer "aged" 0 1,reviewer "better" 0 2,reviewer "claude" 15 1],by decide⟩

/-- A review that is as complex as can be. -/
def criticalReview : RoutingRequest := { capability := .review, complexityHint := some .critical }

theorem aged_eligible : reviewer "aged" 0 1 ∈ (eligible reviewers criticalReview).1 :=
  mem_eligible.mpr ⟨by simp [reviewers],by decide,.inl (by decide)⟩

theorem better_eligible : reviewer "better" 0 2 ∈ (eligible reviewers criticalReview).1 :=
  mem_eligible.mpr ⟨by simp [reviewers],by decide,.inl (by decide)⟩

theorem better_heavier : Heavier (reviewer "better" 0 2) (reviewer "aged" 0 1) :=
  ⟨rfl,by norm_num [reviewer],by norm_num [reviewer]⟩

/-- The preferred of the free models comes after the other. -/
theorem better_last : reviewer "aged" 0 1 ∈ (eligible reviewers criticalReview).1 ∧
    reviewer "better" 0 2 ∈ (eligible reviewers criticalReview).1 ∧ Heavier (reviewer "better" 0 2) (reviewer "aged" 0 1) ∧
    ¬ Before (Routing.decide double (RoutingPolicy.default double) reviewers criticalReview).orderedProviders
      "better" "aged" :=
  ⟨aged_eligible,better_eligible,better_heavier,by decide +kernel⟩

/-- Only another weight or another name would put it first. -/
theorem better_first_iff :
    Before (Routing.decide double (RoutingPolicy.default double) reviewers criticalReview).orderedProviders
        "better" "aged" ↔
      "better" < "aged" ∨ Telling double (complexityScore double (RoutingPolicy.default double) criticalReview)
        (normalizedCost double (eligible reviewers criticalReview).1 0) 2 1 :=
  heavier_first_iff better_eligible aged_eligible better_heavier

/-! ### The last resort -/

/-- Every candidate but one weighs at least 1 and costs at least a thousandth of the dearest. -/
def Rivals (candidates : List Provider) (last : Provider) : Prop :=
  ∀ provider ∈ candidates, provider ≠ last →
    1 ≤ provider.profile.weight ∧ dearest candidates / 1000 ≤ provider.profile.costPer1kTokens

section
variable {registry : Registry} {request : RoutingRequest} {last rival : Provider}

/-- No request that is not demoted is simpler than a trivial one. -/
theorem complexityScore_tenth (priority : 0 ≤ request.priority) (retries : 0 ≤ request.retryCount) :
    1/10 ≤ complexityScore id (RoutingPolicy.default id) request := by
  have start : 10 ≤ hundredths (base request) := by
    cases base request <;> simp [hundredths]
  have whole : 10 ≤ max 0 (min 100 (escalated request)) := by
    unfold escalated
    omega
  have cast : (10 : ℚ) ≤ ((max 0 (min 100 (escalated request)) : Int) : ℚ) := by exact_mod_cast whole
  rw [complexityScore_eq]
  linarith

theorem cheapest_free (member : last ∈ (eligible registry request).1) (free : last.profile.costPer1kTokens = 0)
    (rivals : Rivals (eligible registry request).1 last) : cheapest (eligible registry request).1 = 0 := by
  have low := cheapest_le member
  have high := le_dearest member
  obtain ⟨lowest,isLowest,attained⟩ := cheapest_attained member
  by_cases own : lowest = last
  · rw [← attained,own,free]
  · have cost := (rivals lowest isLowest own).2
    linarith

/-- The affinity of a rival exceeds the share of the free model by a thousandth at least: at
    the least complexity the dearest rival is the nearest to it. -/
theorem rival_gap {complexity place : ℚ} (low : 1/10 ≤ complexity) (high : complexity ≤ 1) (left : 1/1000 ≤ place)
    (right : place ≤ 1) :
    (1 - complexity) * (1/10) + 1/1000 ≤ affinity id complexity place := by
  have dearest : 0 ≤ (place - 1/1000) * (11/10 * complexity - 101/1000) :=
    mul_nonneg (by linarith) (by linarith)
  have nearest : 0 ≤ (1 - place) * (complexity / 1000 + (1 - complexity) * (899/1000) - 1/1000) :=
    mul_nonneg (by linarith) (by linarith)
  rw [affinity_eq]
  nlinarith

theorem rival_outscores (member : last ∈ (eligible registry request).1) (isRival : rival ∈ (eligible registry request).1)
    (differ : rival ≠ last) (free : last.profile.costPer1kTokens = 0) (light : last.profile.weight = 1/10)
    (rivals : Rivals (eligible registry request).1 last) (priority : 0 ≤ request.priority) (retries : 0 ≤ request.retryCount) :
    providerScore id (eligible registry request).1 (complexityScore id (RoutingPolicy.default id) request) last <
      providerScore id (eligible registry request).1 (complexityScore id (RoutingPolicy.default id) request) rival := by
  have low := complexityScore_tenth priority retries
  have high := (complexityScore_bounds id (RoutingPolicy.default id) request).2
  have bottom := cheapest_free member free rivals
  obtain ⟨heavy,cost⟩ := rivals rival isRival differ
  have bounds := place_bounds isRival
  generalize complexityScore id (RoutingPolicy.default id) request = complexity at low high
  generalize (eligible registry request).1 = candidates at *
  apply providerScore_apart
  have heavier : affinity id complexity (place candidates rival) ≤ weighted candidates complexity rival := by
    have share : 0 ≤ affinity id complexity (place candidates rival) := by
      rw [affinity_eq]
      exact add_nonneg (mul_nonneg (by linarith) bounds.1) (mul_nonneg (by linarith) (by linarith [bounds.2]))
    exact le_mul_of_one_le_right share heavy
  have own : weighted candidates complexity last = affinity id complexity (place candidates last) * (1/10) := by
    rw [weighted,light]
  rw [own]
  by_cases flat : dearest candidates = 0
  · have middle : ∀ provider, place candidates provider = 1/2 := by
      intro provider
      simp [place,normalizedCost,bottom,flat]
    rw [middle,affinity_eq] at heavier
    rw [middle,affinity_eq]
    linarith
  · have dear : 0 < dearest candidates := lt_of_le_of_ne (free ▸ le_dearest member) (Ne.symm flat)
    have lowest : place candidates last = 0 := by
      simp [place,normalizedCost,bottom,flat,free]
    have placed : place candidates rival = rival.profile.costPer1kTokens / dearest candidates := by
      simp [place,normalizedCost,bottom,flat]
    have far : 1/1000 ≤ place candidates rival := by
      rw [placed,le_div_iff₀ dear]
      linarith
    have gap := rival_gap low high far bounds.2
    rw [lowest,affinity_eq]
    linarith

/-- The local model comes after every rival. -/
theorem local_last (registry : Registry) (request : RoutingRequest) (priority : 0 ≤ request.priority)
    (retries : 0 ≤ request.retryCount) (member : last ∈ (eligible registry request).1) (profile : last.profile = localProfile)
    (rivals : Rivals (eligible registry request).1 last) :
    (Routing.decide id (RoutingPolicy.default id) registry request).orderedProviders.getLast? = some "local" := by
  have named : last.name = "local" := by rw [Provider.name,profile]; rfl
  have names := @ordered_names id (RoutingPolicy.default id) registry request
  rw [← named]
  apply last_of_before (names.nodup_iff.mpr eligible_distinct)
  · exact names.mem_iff.mpr (List.mem_map_of_mem member)
  · intro name ranked differ
    obtain ⟨rival,isRival,rfl⟩ := List.mem_map.mp (names.mem_iff.mp ranked)
    have other : rival ≠ last := by
      rintro rfl
      exact differ rfl
    exact before_of_score isRival member (rival_outscores member isRival other (by rw [profile]; rfl)
      (by rw [profile]; rfl) rivals priority retries)

/-- A trivial extraction, for which cheap models count the most. -/
def extraction : RoutingRequest := { capability := .extraction, taskType := "extraction.fields" }

/-- The extracting vendors with the local model. -/
def withLocal : Registry := ⟨[geminiProvider none,openAIProvider none,localProvider false none],by decide⟩

theorem extraction_local_last :
    (Routing.decide id (RoutingPolicy.default id) withLocal extraction).orderedProviders.getLast? = some "local" := by
  have isLocal : localProvider false none ∈ (eligible withLocal extraction).1 :=
    mem_eligible.mpr ⟨by simp [withLocal],by decide,.inl (by decide)⟩
  refine local_last withLocal extraction le_rfl le_rfl isLocal rfl ?_
  intro provider isRival differ
  obtain ⟨registered,_⟩ := mem_eligible.mp isRival
  simp only [withLocal,List.mem_cons,List.not_mem_nil,or_false] at registered
  rcases registered with rfl | rfl | rfl
  · exact ⟨le_rfl,by decide +kernel⟩
  · exact ⟨le_rfl,by decide +kernel⟩
  · exact absurd rfl differ

end

end Hookclose.RoutingLaws
