import Hookclose.Architect

/-!
Drift detection between outages. A degraded review is saved with score 0 like any other,
and the next review is compared with it; an unparsable reply is itself compared with the
review before it. So degraded reviews go unnoticed exactly when no unparsable reply follows
a review of the threshold or more, and no review that follows a degraded one lies below the
last one that was not by the threshold or more.
-/
namespace Hookclose.DriftDetection
open Hookclose.ProviderState Hookclose.ProviderManager Hookclose.Architect

abbrev Answer := Except Failure ProviderInvocation

/-- A review with the events that it emits. -/
abbrev Review := ReviewResult × List ReviewEvent

/-! ### Reviews in turn -/

/-- The reviews of one target and kind that the answers lead to, one after the other. -/
def reviews (loads : String → Except Json.DecodeError Json) (kind : ReviewKind) (target : String) : List Answer → ArchitectState → List Review
  | [],_ => []
  | answer :: rest,s =>
    let later := reviews loads kind target rest (conclude loads kind target answer s).1
    match verdict loads kind target (latestScore target kind s.history) answer with
    | .error _ => later
    | .ok review => review :: later

/-- The reviews of materials that are handed to the worker in turn. -/
def reviewAll (world : World) (loads : String → Except Json.DecodeError Json) (kind : ReviewKind) (target : String) :
    List String → ArchitectState → List Review
  | [],_ => []
  | content :: rest,s =>
    let asked := complete world (buildRequest kind target content) kind.capability none s.manager
    let later := reviewAll world loads kind target rest (runReview world loads kind target content s).1
    match verdict loads kind target (latestScore target kind s.history) asked.2 with
    | .error _ => later
    | .ok review => review :: later

/-- The answers that a manager gives to the requests for these materials. -/
def answersTo (world : World) (kind : ReviewKind) (target : String) : List String → ManagerState → List Answer
  | [],_ => []
  | content :: rest,s =>
    let asked := complete world (buildRequest kind target content) kind.capability none s
    asked.2 :: answersTo world kind target rest asked.1

/-- The same, told from the latest score alone. -/
def reviewsFrom (loads : String → Except Json.DecodeError Json) (kind : ReviewKind) (target : String) : Option Int → List Answer → List Review
  | _,[] => []
  | previous,answer :: rest =>
    match verdict loads kind target previous answer with
    | .error _ => reviewsFrom loads kind target previous rest
    | .ok review => review :: reviewsFrom loads kind target (some review.1.score) rest

theorem reviews_from {loads : String → Except Json.DecodeError Json} {kind : ReviewKind} {target : String} (answers : List Answer)
    (s : ArchitectState) :
    reviews loads kind target answers s = reviewsFrom loads kind target (latestScore target kind s.history) answers := by
  induction answers generalizing s with
  | nil => rfl
  | cons answer rest ih =>
    have latest := conclude_latest loads kind target answer s
    cases returned : verdict loads kind target (latestScore target kind s.history) answer with
    | error error =>
      rw [returned] at latest
      simp only [reviews,reviewsFrom,returned,ih,latest]
    | ok review =>
      rw [returned] at latest
      simp only [reviews,reviewsFrom,returned,ih,latest]

/-- A run of the worker is a run over the answers that its manager gives. -/
theorem reviewAll_reviews (world : World) (loads : String → Except Json.DecodeError Json) (kind : ReviewKind) (target : String)
    (contents : List String) (s : ArchitectState) : reviewAll world loads kind target contents s =
      reviews loads kind target (answersTo world kind target contents s.manager) s := by
  induction contents generalizing s with
  | nil => rfl
  | cons content rest ih =>
    have manager : (runReview world loads kind target content s).1.manager =
        (complete world (buildRequest kind target content) kind.capability none s.manager).1 := by
      simp only [runReview,conclude]
      split <;> rfl
    have latest : latestScore target kind (runReview world loads kind target content s).1.history =
        latestScore target kind (conclude loads kind target
          (complete world (buildRequest kind target content) kind.capability none s.manager).2 s).1.history := by
      simp only [runReview,conclude_latest]
    simp only [reviewAll,answersTo,reviews,ih,manager]
    rw [reviews_from,reviews_from,latest]

/-! ### Grades -/

/-- What an answer amounts to. -/
inductive Grade
  | raises
  | outage
  | unparsable
  | scored (score : Int)

def grade (loads : String → Except Json.DecodeError Json) : Answer → Grade
  | .error (.noProviderAvailable _) => .outage
  | .error (.escaped _) => .raises
  | .ok invocation =>
    match parse loads invocation.content with
    | .error _ => .raises
    | .ok parsed => if parsed.degraded then .unparsable else .scored parsed.score

/-- The answer leads to a degraded review. -/
def Grade.degrades : Grade → Bool
  | .outage => true
  | .unparsable => true
  | _ => false

def isDrift : ReviewEvent → Bool
  | .driftDetected .. => true
  | _ => false

/-- The score fell by the threshold or more. -/
def fell (previous : Option Int) (score : Int) : Bool :=
  match previous with
  | some previous => driftThreshold ≤ previous - score
  | none => false

/-- The drift events for a score. -/
def drifts (target : String) (previous : Option Int) (score : Int) : List ReviewEvent :=
  match previous with
  | some previous =>
    if driftThreshold ≤ previous - score then [.driftDetected target previous score (previous - score)] else []
  | none => []

section
variable {loads : String → Except Json.DecodeError Json} {kind : ReviewKind} {target : String} {previous : Option Int} {answer : Answer}

theorem emitted_drifts (result : ReviewResult) (flagged : result.driftDetected = fell previous result.score) :
    (emitted result previous).filter isDrift = drifts result.target previous result.score := by
  unfold emitted drifts
  rw [flagged]
  cases previous with
  | none => by_cases spec : result.kind = .specGeneration <;> simp [fell,spec,isDrift]
  | some score =>
    by_cases spec : result.kind = .specGeneration <;>
      by_cases dropped : driftThreshold ≤ score - result.score <;> simp [fell,spec,dropped,isDrift]

/-- What the worker makes of an answer of each grade. -/
def Follows (target : String) (previous : Option Int) (result : Except ReviewError Review) : Grade → Prop
  | .raises => ∃ error, result = .error error
  | .outage => ∃ review, result = .ok review ∧ review.1.degraded = true ∧ review.1.score = 0 ∧ review.1.driftDetected = false
  | .unparsable => ∃ review, result = .ok review ∧ review.1.degraded = true ∧ review.1.score = 0 ∧
      review.1.driftDetected = fell previous 0
  | .scored score => 0 ≤ score ∧ ∃ review, result = .ok review ∧ review.1.degraded = false ∧ review.1.score = score ∧
      review.1.driftDetected = fell previous score ∧ review.2.filter isDrift = drifts target previous score

theorem verdict_follows (loads : String → Except Json.DecodeError Json) (kind : ReviewKind) (target : String) (previous : Option Int)
    (answer : Answer) : Follows target previous (verdict loads kind target previous answer) (grade loads answer) := by
  cases answer with
  | error failure =>
    cases failure with
    | noProviderAvailable message => exact ⟨_,rfl,rfl,rfl,rfl⟩
    | escaped text => exact ⟨_,rfl⟩
  | ok invocation =>
    cases read : parse loads invocation.content with
    | error error =>
      simp only [grade,verdict,read]
      exact ⟨_,rfl⟩
    | ok parsed =>
      rcases parse_ok read with ⟨_,healthy,nonneg,_⟩ | ⟨_,degraded,zero⟩
      · simp only [grade,verdict,read,healthy]
        exact ⟨nonneg,_,rfl,healthy,rfl,rfl,emitted_drifts (judged kind target invocation.provider parsed previous) rfl⟩
      · simp only [grade,verdict,read,degraded,if_true]
        refine ⟨_,rfl,degraded,zero,?_⟩
        rw [← zero]
        rfl

end

/-! ### Reviews without the degraded ones -/

/-- The flag of a review and its drift events. -/
def flags (review : Review) : Bool × List ReviewEvent := (review.1.driftDetected,review.2.filter isDrift)

def healthy (review : Review) : Bool := !review.1.degraded

/-- Each review is flagged exactly when its score fell since the one before it. -/
def Tracks : Option Int → List Review → Prop
  | _,[] => True
  | previous,review :: rest => review.1.driftDetected = fell previous review.1.score ∧ Tracks (some review.1.score) rest

/-- The answers that do not lead to a degraded review. -/
def withoutDegraded (loads : String → Except Json.DecodeError Json) (answers : List Answer) : List Answer :=
  answers.filter (fun answer => !(grade loads answer).degrades)

/-- The degraded reviews neither report drift nor disturb that of the others: these have the
    flags and drift events that they would have without them, and are flagged exactly when
    the score fell since the one before that was not degraded. -/
structure Undisturbed (loads : String → Except Json.DecodeError Json) (kind : ReviewKind) (target : String)
    (answers : List Answer) : Prop where
  quiet : ∀ review ∈ reviews loads kind target answers {}, review.1.degraded = true → review.1.driftDetected = false
  same : ((reviews loads kind target answers {}).filter healthy).map flags =
    (reviews loads kind target (withoutDegraded loads answers) {}).map flags
  tracks : Tracks none ((reviews loads kind target answers {}).filter healthy)

/-- What the answers must be for that, told from whether the review before was degraded and
    from the last score that was not. -/
def Harmless (loads : String → Except Json.DecodeError Json) : Bool → Option Int → List Answer → Prop
  | _,_,[] => True
  | degraded,previous,answer :: rest =>
    match grade loads answer with
    | .raises => Harmless loads degraded previous rest
    | .outage => Harmless loads true previous rest
    | .unparsable => (degraded = false → fell previous 0 = false) ∧ Harmless loads true previous rest
    | .scored score => (degraded = true → fell previous score = false) ∧ Harmless loads false (some score) rest

section
variable {loads : String → Except Json.DecodeError Json} {kind : ReviewKind} {target : String} {actual ideal : Option Int}
variable {answer : Answer} {rest : List Answer}

/-- What holds of the reviews from a latest score on, beside those from the one that it would
    be without the degraded reviews. -/
structure UndisturbedFrom (loads : String → Except Json.DecodeError Json) (kind : ReviewKind) (target : String) (actual ideal : Option Int)
    (answers : List Answer) : Prop where
  quiet : ∀ review ∈ reviewsFrom loads kind target actual answers, review.1.degraded = true → review.1.driftDetected = false
  same : ((reviewsFrom loads kind target actual answers).filter healthy).map flags =
    (reviewsFrom loads kind target ideal (withoutDegraded loads answers)).map flags
  tracks : Tracks ideal ((reviewsFrom loads kind target actual answers).filter healthy)

theorem reviewsFrom_error {error : ReviewError} (raised : verdict loads kind target actual answer = .error error) :
    reviewsFrom loads kind target actual (answer :: rest) = reviewsFrom loads kind target actual rest := by
  simp only [reviewsFrom,raised]

theorem reviewsFrom_ok {review : Review} (returned : verdict loads kind target actual answer = .ok review) :
    reviewsFrom loads kind target actual (answer :: rest) =
      review :: reviewsFrom loads kind target (some review.1.score) rest := by
  simp only [reviewsFrom,returned]

theorem withoutDegraded_drop (degrades : (grade loads answer).degrades = true) :
    withoutDegraded loads (answer :: rest) = withoutDegraded loads rest := by
  simp [withoutDegraded,degrades]

theorem withoutDegraded_keep (keeps : (grade loads answer).degrades = false) :
    withoutDegraded loads (answer :: rest) = answer :: withoutDegraded loads rest := by
  simp [withoutDegraded,keeps]

/-- An exception changes nothing. -/
theorem undisturbed_raised (graded : grade loads answer = .raises) :
    UndisturbedFrom loads kind target actual ideal (answer :: rest) ↔ UndisturbedFrom loads kind target actual ideal rest := by
  have raises := fun previous => verdict_follows loads kind target previous answer
  rw [graded] at raises
  obtain ⟨_,raised⟩ := raises actual
  obtain ⟨_,idealRaised⟩ := raises ideal
  have kept : withoutDegraded loads (answer :: rest) = answer :: withoutDegraded loads rest :=
    withoutDegraded_keep (by rw [graded]; rfl)
  constructor
  · rintro ⟨quiet,same,tracks⟩
    rw [reviewsFrom_error raised] at quiet same tracks
    rw [kept,reviewsFrom_error idealRaised] at same
    exact ⟨quiet,same,tracks⟩
  · rintro ⟨quiet,same,tracks⟩
    refine ⟨?_,?_,?_⟩
    · rw [reviewsFrom_error raised]
      exact quiet
    · rw [reviewsFrom_error raised,kept,reviewsFrom_error idealRaised]
      exact same
    · rw [reviewsFrom_error raised]
      exact tracks

/-- A degraded review must not be flagged, and has the score 0. -/
theorem undisturbed_degraded (degrades : (grade loads answer).degrades = true) {review : Review}
    (returned : verdict loads kind target actual answer = .ok review) (degraded : review.1.degraded = true) :
    UndisturbedFrom loads kind target actual ideal (answer :: rest) ↔
      review.1.driftDetected = false ∧ UndisturbedFrom loads kind target (some review.1.score) ideal rest := by
  have listed : reviewsFrom loads kind target actual (answer :: rest) =
      review :: reviewsFrom loads kind target (some review.1.score) rest := reviewsFrom_ok returned
  have unhealthy : ∀ later : List Review, (review :: later).filter healthy = later.filter healthy := by
    intro later
    simp [healthy,degraded]
  constructor
  · rintro ⟨quiet,same,tracks⟩
    rw [listed] at quiet same tracks
    rw [unhealthy,withoutDegraded_drop degrades] at same
    rw [unhealthy] at tracks
    rw [List.forall_mem_cons] at quiet
    exact ⟨quiet.1 degraded,quiet.2,same,tracks⟩
  · rintro ⟨unflagged,quiet,same,tracks⟩
    refine ⟨?_,?_,?_⟩
    · rw [listed,List.forall_mem_cons]
      exact ⟨fun _ => unflagged,quiet⟩
    · rw [listed,unhealthy,withoutDegraded_drop degrades]
      exact same
    · rw [listed,unhealthy]
      exact tracks

/-- Another review must have the flag and events of the ideal one. -/
theorem undisturbed_healthy (keeps : (grade loads answer).degrades = false) {review idealReview : Review}
    (returned : verdict loads kind target actual answer = .ok review)
    (idealReturned : verdict loads kind target ideal answer = .ok idealReview) (sound : review.1.degraded = false)
    (sameScore : idealReview.1.score = review.1.score) :
    UndisturbedFrom loads kind target actual ideal (answer :: rest) ↔
      flags review = flags idealReview ∧ review.1.driftDetected = fell ideal review.1.score ∧
      UndisturbedFrom loads kind target (some review.1.score) (some review.1.score) rest := by
  have listed : reviewsFrom loads kind target actual (answer :: rest) =
      review :: reviewsFrom loads kind target (some review.1.score) rest := reviewsFrom_ok returned
  have idealListed : reviewsFrom loads kind target ideal (withoutDegraded loads (answer :: rest)) =
      idealReview :: reviewsFrom loads kind target (some review.1.score) (withoutDegraded loads rest) := by
    rw [withoutDegraded_keep keeps,reviewsFrom_ok idealReturned,sameScore]
  have first : ∀ later : List Review, (review :: later).filter healthy = review :: later.filter healthy := by
    intro later
    simp [healthy,sound]
  constructor
  · rintro ⟨quiet,same,tracks⟩
    rw [listed] at quiet same tracks
    rw [first,idealListed,List.map_cons,List.map_cons,List.cons.injEq] at same
    rw [first] at tracks
    rw [List.forall_mem_cons] at quiet
    exact ⟨same.1,tracks.1,quiet.2,same.2,tracks.2⟩
  · rintro ⟨sameFlags,flagged,quiet,same,tracks⟩
    refine ⟨?_,?_,?_⟩
    · rw [listed,List.forall_mem_cons]
      exact ⟨fun contrary => absurd contrary (by simp [sound]),quiet⟩
    · rw [listed,first,idealListed,List.map_cons,List.map_cons,sameFlags,same]
    · rw [listed,first]
      exact ⟨flagged,tracks⟩

/-- The latest score and the one that it would be without the degraded reviews: they agree
    unless the last review was degraded. -/
def Related (degraded : Bool) (actual ideal : Option Int) : Prop :=
  (degraded = false ∧ actual = ideal) ∨ (degraded = true ∧ actual = some 0)

theorem fell_zero {score : Int} (nonneg : 0 ≤ score) : fell (some 0) score = false := by
  have low : ¬ driftThreshold ≤ 0 - score := by
    unfold driftThreshold
    omega
  simpa [fell] using low

theorem drifts_of_fell {previous : Option Int} {score : Int} (still : fell previous score = false) :
    drifts target previous score = [] := by
  cases previous with
  | none => rfl
  | some previous => simpa [fell,drifts] using still

/-- An unparsable reply is compared with the review before. -/
theorem related_zero {degraded : Bool} (related : Related degraded actual ideal) :
    fell actual 0 = false ↔ (degraded = false → fell ideal 0 = false) := by
  rcases related with ⟨rfl,rfl⟩ | ⟨rfl,rfl⟩
  · simp
  · simp [fell_zero]

/-- A score is compared with a degraded review, or with what it should be compared with. -/
theorem related_score {degraded : Bool} (related : Related degraded actual ideal) {score : Int} (nonneg : 0 ≤ score) :
    ((fell actual score,drifts target actual score) = (fell ideal score,drifts target ideal score) ∧
      fell actual score = fell ideal score) ↔ (degraded = true → fell ideal score = false) := by
  rcases related with ⟨rfl,rfl⟩ | ⟨rfl,rfl⟩
  · simp
  · rw [fell_zero nonneg,drifts_of_fell (fell_zero nonneg)]
    constructor
    · rintro ⟨_,same⟩ _
      exact same.symm
    · intro still
      rw [still rfl,drifts_of_fell (still rfl)]
      exact ⟨rfl,rfl⟩

theorem undisturbed_iff (answers : List Answer) {degraded : Bool} (related : Related degraded actual ideal) :
    UndisturbedFrom loads kind target actual ideal answers ↔ Harmless loads degraded ideal answers := by
  induction answers generalizing degraded actual ideal with
  | nil => exact ⟨fun _ => trivial,fun _ => ⟨by simp [reviewsFrom],rfl,trivial⟩⟩
  | cons answer rest ih =>
    have follows := verdict_follows loads kind target actual answer
    have ideally := verdict_follows loads kind target ideal answer
    cases graded : grade loads answer with
    | raises =>
      rw [undisturbed_raised graded,Harmless,graded]
      exact ih related
    | outage =>
      rw [graded] at follows
      obtain ⟨review,returned,isDegraded,zero,unflagged⟩ := follows
      rw [undisturbed_degraded (by rw [graded]; rfl) returned isDegraded,Harmless,graded,unflagged,zero]
      simpa using ih (.inr ⟨rfl,rfl⟩)
    | unparsable =>
      rw [graded] at follows
      obtain ⟨review,returned,isDegraded,zero,flagged⟩ := follows
      rw [undisturbed_degraded (by rw [graded]; rfl) returned isDegraded,Harmless,graded,flagged,zero,
        related_zero related]
      exact and_congr_right fun _ => ih (.inr ⟨rfl,rfl⟩)
    | scored score =>
      rw [graded] at follows ideally
      obtain ⟨nonneg,review,returned,sound,scored,flagged,drifted⟩ := follows
      obtain ⟨_,idealReview,idealReturned,_,idealScored,idealFlagged,idealDrifted⟩ := ideally
      rw [undisturbed_healthy (by rw [graded]; rfl) returned idealReturned sound (idealScored.trans scored.symm),Harmless,
        graded,← and_assoc,flags,flags,flagged,drifted,idealFlagged,idealDrifted,scored]
      exact and_congr (related_score related nonneg) (ih (.inl ⟨rfl,rfl⟩))

/-- Degraded reviews go unnoticed exactly when the answers are harmless. -/
theorem drift_undisturbed_iff (loads : String → Except Json.DecodeError Json) (kind : ReviewKind) (target : String) (answers : List Answer) :
    Undisturbed loads kind target answers ↔ Harmless loads false none answers := by
  have fresh : latestScore target kind ({} : ArchitectState).history = none := rfl
  rw [← @undisturbed_iff loads kind target none none answers false (.inl ⟨rfl,rfl⟩)]
  constructor
  · rintro ⟨quiet,same,tracks⟩
    rw [reviews_from,fresh] at quiet same tracks
    rw [reviews_from,fresh] at same
    exact ⟨quiet,same,tracks⟩
  · rintro ⟨quiet,same,tracks⟩
    refine ⟨?_,?_,?_⟩
    · rw [reviews_from,fresh]
      exact quiet
    · rw [reviews_from,reviews_from,fresh]
      exact same
    · rw [reviews_from,fresh]
      exact tracks

end

/-! ### An outage and an unparsable reply -/

/-- `json.loads` on the replies below. -/
def sampleLoads (content : String) : Except Json.DecodeError Json :=
  if content = "\x7b\"score\": 90\x7d" then .ok (.dict [("score",.int 90)])
  else if content = "\x7b\"score\": 60\x7d" then .ok (.dict [("score",.int 60)])
  else .error .valueError

def reply (content : String) : Answer := .ok { provider := "claude", content := content, totalTokens := 20, attempts := 1 }

def outage : Answer := .error (.noProviderAvailable "no available provider supports capability 'architecture'")

def high : Answer := reply "\x7b\"score\": 90\x7d"

def low : Answer := reply "\x7b\"score\": 60\x7d"

/-- A drop of 30 goes unnoticed when an outage comes between, and an unparsable reply is
    reported as drift itself. -/
theorem outage_hides_drift : ¬ Undisturbed sampleLoads .architectureReview "svc" [high,outage,low] ∧
    ¬ Undisturbed sampleLoads .architectureReview "svc" [high,reply "not json at all"] := by
  constructor
  · intro undisturbed
    exact absurd undisturbed.same (by decide +kernel)
  · intro undisturbed
    exact absurd undisturbed.quiet (by decide +kernel)

end Hookclose.DriftDetection
