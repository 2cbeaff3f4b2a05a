import Hookclose.Json
import Hookclose.ProviderManager

/-!
The architect worker: it asks a provider for a review, reads the reply as a JSON envelope,
compares its score with the latest one of the same target and kind, saves the review and
reports it. How a reply is read as JSON is a parameter, `loads`.
-/
namespace Hookclose.Architect
open Hookclose.ProviderState Hookclose.ProviderManager

/-- A score drop of this size since the last review flags drift. -/
def driftThreshold : Int := 15

inductive ReviewKind
  | architectureReview
  | runtimeAnalysis
  | specGeneration
  | refactorReview
  deriving DecidableEq, Repr

namespace ReviewKind

def value : ReviewKind → String
  | .architectureReview => "architecture_review"
  | .runtimeAnalysis => "runtime_analysis"
  | .specGeneration => "spec_generation"
  | .refactorReview => "refactor_review"

def capability : ReviewKind → Capability
  | .architectureReview => .architecture
  | .runtimeAnalysis => .analysis
  | .specGeneration => .architecture
  | .refactorReview => .review

def role : ReviewKind → String
  | .architectureReview => "design review"
  | .runtimeAnalysis => "runtime/orchestration analysis"
  | .specGeneration => "specification generation"
  | .refactorReview => "refactor review"

end ReviewKind

/-- The system prompt for a role. -/
def system (role : String) : String :=
  "You are a Principal Software Architect performing a " ++ role ++ ". " ++
  "Be precise, deterministic, and conservative. " ++
  "Respond with ONLY a JSON object and no prose. Schema: " ++
  "\x7b\"score\": <int 0-100>, \"summary\": <string>, " ++
  "\"findings\": [<string>, ...], \"sections\": [<string>, ...]\x7d. " ++
  "score is overall architectural health (100 = excellent). " ++
  "findings are concrete issues or risks. sections is the document outline " ++
  "(used for spec generation; otherwise [])."

def buildRequest (kind : ReviewKind) (target content : String) : LLMRequest where
  model := "auto"
  messages :=
    [{ role := .system, content := system kind.role },
      { role := .user
        content := "Target: " ++ target ++ "\nReview kind: " ++ kind.value ++ "\n--- material ---\n" ++ content ++
          "\n--- end ---\nReturn the JSON object now." }]

/-! ### Reviews -/

structure ReviewResult where
  kind : ReviewKind
  target : String
  provider : String
  score : Int
  summary : String
  findings : List String := []
  sections : List String := []
  driftDetected : Bool := false
  degraded : Bool := false
  deriving DecidableEq

inductive ReviewEvent
  | reviewed (target kind : String) (score : Int) (findingCount : Nat) (provider : String)
  | specGenerated (target kind provider : String) (sectionCount : Nat)
  | driftDetected (target : String) (previousScore currentScore delta : Int)
  deriving DecidableEq

/-- `InMemoryReviewStore.history`: the reviews of each target and kind. -/
abbrev Reviews := String × String → List ReviewResult

def save (result : ReviewResult) (history : Reviews) : Reviews :=
  Function.update history (result.target,result.kind.value) (history (result.target,result.kind.value) ++ [result])

def latestScore (target : String) (kind : ReviewKind) (history : Reviews) : Option Int :=
  (history (target,kind.value)).getLast?.map ReviewResult.score

/-- `_Parsed`. -/
structure Parsed where
  score : Int
  summary : String
  findings : List String
  sections : List String
  degraded : Bool
  deriving DecidableEq

/-- What a review may raise: a provider's exception of another class, that of `int`, or that
    of `json.loads` which is not caught. -/
inductive ReviewError
  | escaped (text : String)
  | conversion (error : Json.ConversionError)
  | recursion

/-- The entry under a key as a score; a value that is no number counts as zero. -/
def scoreOf (data : Dict) : Except Json.ConversionError Int :=
  match (Dictionaries.get "score" data).getD (.int 0) with
  | .bool value => Json.toInt (.bool value)
  | .int value => Json.toInt (.int value)
  | .float text value => Json.toInt (.float text value)
  | _ => .ok 0

/-- The texts of the entries of a list, or none. -/
def textsOf (key : String) (data : Dict) : List String :=
  match (Dictionaries.get key data).getD (.list []) with
  | .list items => items.map Json.toText
  | _ => []

/-- `_parse`. The `try` does not catch a `RecursionError`, and the score is converted after it. -/
def parse (loads : String → Except Json.DecodeError Json) (content : String) : Except ReviewError Parsed :=
  match loads content with
  | .error .recursionError => .error .recursion
  | .ok (.dict data) =>
    match scoreOf data with
    | .error error => .error (.conversion error)
    | .ok score => .ok {
        score := max 0 (min 100 score)
        summary := ((Dictionaries.get "summary" data).getD (.str "")).toText
        findings := textsOf "findings" data
        sections := textsOf "sections" data
        degraded := false }
  | _ => .ok ⟨0,String.ofList (content.toList.take 200),[],[],true⟩

/-- A reply that is parsed is an object with a score within its bounds, or it is none and
    counts as degraded. -/
theorem parse_ok {loads : String → Except Json.DecodeError Json} {content : String} {parsed : Parsed}
    (read : parse loads content = .ok parsed) :
    ((∃ data, loads content = .ok (.dict data)) ∧ parsed.degraded = false ∧ 0 ≤ parsed.score ∧ parsed.score ≤ 100) ∨
      ((∀ data, loads content ≠ .ok (.dict data)) ∧ parsed.degraded = true ∧ parsed.score = 0) := by
  unfold parse at read
  split at read
  · cases read
  · rename_i data object
    split at read
    · cases read
    · cases read
      exact .inl ⟨⟨data,object⟩,rfl,le_max_left _ _,max_le (by decide) (min_le_left _ _)⟩
  · rename_i other
    cases read
    exact .inr ⟨other,rfl,rfl⟩

/-! ### The worker -/

structure ArchitectState where
  manager : ManagerState := {}
  history : Reviews := fun _ => []
  events : List ReviewEvent := []

/-- The review that stands for an outage. -/
def unavailable (kind : ReviewKind) (target : String) : ReviewResult where
  kind := kind
  target := target
  provider := "none"
  score := 0
  summary := "no provider available for cognition"
  degraded := true

/-- The review that a parsed reply gives. -/
def judged (kind : ReviewKind) (target provider : String) (parsed : Parsed) (previous : Option Int) : ReviewResult where
  kind := kind
  target := target
  provider := provider
  score := parsed.score
  summary := parsed.summary
  findings := parsed.findings
  sections := parsed.sections
  driftDetected := match previous with
    | some previous => driftThreshold ≤ previous - parsed.score
    | none => false
  degraded := parsed.degraded

/-- `_emit_events`. -/
def emitted (result : ReviewResult) (previous : Option Int) : List ReviewEvent :=
  [.reviewed result.target result.kind.value result.score result.findings.length result.provider] ++
  (if result.kind = .specGeneration then
    [.specGenerated result.target result.kind.value result.provider result.sections.length] else []) ++
  match result.driftDetected,previous with
  | true,some previous => [.driftDetected result.target previous result.score (previous - result.score)]
  | _,_ => []

/-- What follows the manager's answer: the review and its events, or an exception. -/
def verdict (loads : String → Except Json.DecodeError Json) (kind : ReviewKind) (target : String) (previous : Option Int)
    (answer : Except Failure ProviderInvocation) : Except ReviewError (ReviewResult × List ReviewEvent) :=
  match answer with
  | .error (.noProviderAvailable _) => .ok (unavailable kind target,[])
  | .error (.escaped text) => .error (.escaped text)
  | .ok invocation =>
    match parse loads invocation.content with
    | .error error => .error error
    | .ok parsed =>
      let result := judged kind target invocation.provider parsed previous
      .ok (result,emitted result previous)

/-- `_run` from the answer on: a review is saved and its events are published. -/
def conclude (loads : String → Except Json.DecodeError Json) (kind : ReviewKind) (target : String)
    (answer : Except Failure ProviderInvocation) (s : ArchitectState) : ArchitectState × Except ReviewError ReviewResult :=
  match verdict loads kind target (latestScore target kind s.history) answer with
  | .error error => (s,.error error)
  | .ok (result,events) => ({ s with history := save result s.history, events := s.events ++ events },.ok result)

/-- `_run`. -/
def runReview (world : World) (loads : String → Except Json.DecodeError Json) (kind : ReviewKind) (target content : String)
    (s : ArchitectState) : ArchitectState × Except ReviewError ReviewResult :=
  let asked := complete world (buildRequest kind target content) kind.capability none s.manager
  conclude loads kind target asked.2 { s with manager := asked.1 }

section
variable (world : World) (loads : String → Except Json.DecodeError Json)

def reviewArchitecture := runReview world loads .architectureReview

def analyzeRuntime := runReview world loads .runtimeAnalysis

def generateSpec := runReview world loads .specGeneration

def reviewRefactor := runReview world loads .refactorReview

end

/-! ### What a review does -/

@[simp] theorem latestScore_save (result : ReviewResult) (history : Reviews) :
    latestScore result.target result.kind (save result history) = some result.score := by
  simp [latestScore,save]

/-- A review is of what was asked for, and its events are those that it emits, or none. -/
theorem verdict_ok {loads : String → Except Json.DecodeError Json} {kind : ReviewKind} {target : String}
    {previous : Option Int} {answer : Except Failure ProviderInvocation} {result : ReviewResult} {events : List ReviewEvent}
    (returned : verdict loads kind target previous answer = .ok (result,events)) :
    result.target = target ∧ result.kind = kind ∧ (events = [] ∨ events = emitted result previous) := by
  unfold verdict at returned
  split at returned
  · cases returned
    exact ⟨rfl,rfl,.inl rfl⟩
  · cases returned
  · split at returned
    · cases returned
    · cases returned
      exact ⟨rfl,rfl,.inr rfl⟩

/-- A review that returns is the latest one afterwards; an exception leaves the latest one. -/
theorem conclude_latest (loads : String → Except Json.DecodeError Json) (kind : ReviewKind) (target : String)
    (answer : Except Failure ProviderInvocation) (s : ArchitectState) :
    latestScore target kind (conclude loads kind target answer s).1.history =
      match verdict loads kind target (latestScore target kind s.history) answer with
      | .error _ => latestScore target kind s.history
      | .ok (result,_) => some result.score := by
  unfold conclude
  cases returned : verdict loads kind target (latestScore target kind s.history) answer with
  | error error => rfl
  | ok review =>
    obtain ⟨result,events⟩ := review
    obtain ⟨rfl,rfl,_⟩ := verdict_ok returned
    exact latestScore_save result s.history

end Hookclose.Architect
