import Hookclose.Architect
import Hookclose.JsonText

/-!
Reviews of any model output. Reading the reply as JSON is inside a `try` that does not catch
the exception of nesting that is too deep, converting its score is outside: a review is
returned, clamped and saved once, exactly when the reply is not too deep and its score is not
one of the floats that stand for no number.
-/
namespace Hookclose.SafeReviews
open Hookclose.ProviderState Hookclose.Vendors Hookclose.ProviderRegistry Hookclose.ProviderManager Hookclose.Architect

/-! ### What is promised -/

/-- The reply is the text of a JSON object. -/
def IsObject (loads : String → Except Json.DecodeError Json) (reply : String) : Prop := ∃ data, loads reply = .ok (.dict data)

/-- A handler returns a review with a score in range, degraded where the reply is no JSON
    object, and saves that review once and no other. -/
def Safe (world : World) (loads : String → Except Json.DecodeError Json) (kind : ReviewKind) (target content : String)
    (s : ArchitectState) (reply : String) : Prop :=
  let handled := runReview world loads kind target content s
  ∃ result, handled.2 = .ok result ∧ 0 ≤ result.score ∧ result.score ≤ 100 ∧
    (result.degraded = true ↔ ¬ IsObject loads reply) ∧ handled.1.history = save result s.history

/-- A float that stands for no number. -/
def IsNumberless : FloatValue → Prop
  | .finite _ => False
  | .infinite _ => True
  | .nan => True

/-- The reply is a JSON object whose score is NaN or infinite, also by overflow. -/
def NumberlessScore (loads : String → Except Json.DecodeError Json) (reply : String) : Prop :=
  ∃ data text value, loads reply = .ok (.dict data) ∧ Dictionaries.get "score" data = some (.float text value) ∧
    IsNumberless value

/-- The reply nests deeper than the interpreter recurses. -/
def TooDeep (loads : String → Except Json.DecodeError Json) (reply : String) : Prop :=
  loads reply = .error .recursionError

/-! ### Scores -/

section
variable {loads : String → Except Json.DecodeError Json} {reply : String}

/-- `int` takes every number but those floats. -/
theorem scoreOf_error {data : Dict} : (∃ error, scoreOf data = .error error) ↔
    ∃ text value, Dictionaries.get "score" data = some (.float text value) ∧ IsNumberless value := by
  unfold scoreOf
  cases listed : Dictionaries.get "score" data with
  | none => simp [Json.toInt]
  | some score =>
    cases score with
    | float text value => cases value <;> simp [Json.toInt,IsNumberless]
    | _ => simp [Json.toInt]

/-- A reply is parsed unless its score is numberless or it is too deep. -/
theorem parse_error : (∃ error, parse loads reply = .error error) ↔ NumberlessScore loads reply ∨ TooDeep loads reply := by
  unfold parse NumberlessScore TooDeep
  cases read : loads reply with
  | error error => cases error <;> simp
  | ok value =>
    cases value with
    | dict data =>
      have refused := @scoreOf_error data
      cases scored : scoreOf data with
      | error error =>
        rw [scored] at refused
        obtain ⟨text,value,found,numberless⟩ := refused.mp ⟨error,rfl⟩
        simp only [scored]
        exact ⟨fun _ => .inl ⟨data,text,value,rfl,found,numberless⟩,fun _ => ⟨.conversion error,rfl⟩⟩
      | ok score =>
        rw [scored] at refused
        simp only [scored]
        constructor
        · rintro ⟨error,raised⟩
          cases raised
        · rintro (⟨other,text,value,same,found,numberless⟩ | deep)
          · cases same
            obtain ⟨error,raised⟩ := refused.mpr ⟨text,value,found,numberless⟩
            cases raised
          · cases deep
    | _ => simp

end

/-! ### Reviews -/

/-- A review of an answer is safe exactly when the answer can be parsed. -/
theorem safe_iff_parsed (world : World) (loads : String → Except Json.DecodeError Json) (kind : ReviewKind) (target content : String)
    (s : ArchitectState) {invocation : ProviderInvocation}
    (answered : (complete world (buildRequest kind target content) kind.capability none s.manager).2 = .ok invocation) :
    Safe world loads kind target content s invocation.content ↔ ∃ parsed, parse loads invocation.content = .ok parsed := by
  unfold Safe runReview conclude verdict
  simp only [answered]
  cases read : parse loads invocation.content with
  | error error => simp
  | ok parsed =>
    refine ⟨fun _ => ⟨parsed,rfl⟩,fun _ => ?_⟩
    rcases parse_ok read with ⟨object,healthy,low,high⟩ | ⟨other,degraded,zero⟩
    · exact ⟨_,rfl,low,high,by simp [judged,healthy,IsObject,object],rfl⟩
    · have bounds : 0 ≤ parsed.score ∧ parsed.score ≤ 100 := by
        rw [zero]
        decide
      exact ⟨_,rfl,bounds.1,bounds.2,by simp [judged,degraded,IsObject,other],rfl⟩

/-- Whatever a provider answers, a review is safe exactly when the answer has no numberless
    score and is not too deep. -/
theorem safe_iff (world : World) (loads : String → Except Json.DecodeError Json) (kind : ReviewKind) (target content : String)
    (s : ArchitectState) {invocation : ProviderInvocation}
    (answered : (complete world (buildRequest kind target content) kind.capability none s.manager).2 = .ok invocation) :
    Safe world loads kind target content s invocation.content ↔
      ¬ NumberlessScore loads invocation.content ∧ ¬ TooDeep loads invocation.content := by
  rw [safe_iff_parsed _ _ _ _ _ _ answered,← not_or,← parse_error]
  cases parse loads invocation.content <;> simp

/-! ### A score that is no number -/

/-- A world in which Claude gives this reply. -/
def replying (content : String) : World where
  registry := ⟨[claudeProvider none],by decide⟩
  clock _ reading := reading
  answers _ _ := .reply (.response ⟨"claude",content,"stop",⟨1,1,2⟩⟩)

theorem replying_order (content : String) :
    inOrder (replying content).registry .architecture none = [claudeProvider none] := by
  simp [inOrder,Registry.forCapability,replying,ordered,claudeProvider,ProviderProfile.supports,claudeProfile]

theorem replying_answered (content : String) :
    (complete (replying content) (buildRequest .architectureReview "svc" "notes") .architecture none {}).2 =
      .ok ⟨"claude",content,2,1,[]⟩ := by
  have fresh : (keepServing (replying content) [claudeProvider none] {}).2 = [claudeProvider none] := rfl
  simp only [complete,candidates,replying_order,fresh]
  rfl

/-- `json.loads` where no numeral has a fraction and only brackets at the beginning nest. -/
def sampleLoads (content : String) : Except Json.DecodeError Json :=
  if 100000 ≤ (content.toList.takeWhile (fun c => c = '[')).length then .error .recursionError
  else
    match JsonText.loads (fun text => (text,.finite 0)) content with
    | some value => .ok value
    | none => .error .valueError

/-- The JSON text of an object with this score. -/
def scoring (score : Json) : String := JsonText.dumps (.dict [("score",score)])

example : scoring (.float "nan" .nan) = "\x7b\"score\": NaN\x7d" := by decide +kernel

/-- What is read of such a text is the object. -/
theorem sampleLoads_scoring {score : Json} (carried : JsonText.Carried (fun text => (text,.finite 0)) score) :
    sampleLoads (scoring score) = .ok (.dict [("score",score)]) := by
  have read : JsonText.loads (fun text => (text,.finite 0)) (scoring score) = some (.dict [("score",score)]) := by
    apply JsonText.loads_dumps
    simpa [JsonText.Carried,JsonText.CarriedEntries] using carried
  have shallow : ¬ 100000 ≤ ((scoring score).toList.takeWhile (fun c => c = '[')).length := by
    simp [scoring,JsonText.dumps,JsonText.encode]
  rw [sampleLoads,if_neg shallow,read]

/-- Arrays in arrays, none of them closed. -/
def brackets (depth : Nat) : String := String.ofList (List.replicate depth '[')

theorem brackets_nest (depth : Nat) : ((brackets depth).toList.takeWhile (fun c => c = '[')).length = depth := by
  simp [brackets]

theorem sampleLoads_brackets : TooDeep sampleLoads (brackets 100000) := by
  rw [TooDeep,sampleLoads,if_pos (brackets_nest 100000).ge]

/-- A NaN as the score: the conversion raises and nothing is saved. So does the reading of a
    hundred thousand brackets. -/
theorem nan_raises :
    ¬ Safe (replying (scoring (.float "nan" .nan))) sampleLoads .architectureReview "svc" "notes" {}
      (scoring (.float "nan" .nan)) ∧
    ¬ Safe (replying (brackets 100000)) sampleLoads .architectureReview "svc" "notes" {} (brackets 100000) := by
  have raises : ∀ content, NumberlessScore sampleLoads content ∨ TooDeep sampleLoads content →
      ¬ Safe (replying content) sampleLoads .architectureReview "svc" "notes" {} content := by
    intro content refused safe
    obtain ⟨parsed,done⟩ := (safe_iff_parsed _ sampleLoads .architectureReview "svc" "notes" {}
      (replying_answered content)).mp safe
    obtain ⟨error,raised⟩ := parse_error.mpr refused
    rw [raised] at done
    cases done
  have read := @sampleLoads_scoring (.float "nan" .nan) (by simp [JsonText.Carried,JsonText.CarriedFloat])
  exact ⟨raises _ (.inl ⟨_,"nan",.nan,read,rfl,trivial⟩),raises _ (.inr sampleLoads_brackets)⟩

theorem ninety_safe : Safe (replying (scoring (.int 90))) sampleLoads .architectureReview "svc" "notes" {}
    (scoring (.int 90)) := by
  have read : sampleLoads (scoring (.int 90)) = .ok (.dict [("score",.int 90)]) :=
    sampleLoads_scoring (by simp [JsonText.Carried])
  have plain : ¬ NumberlessScore sampleLoads (scoring (.int 90)) := by
    rintro ⟨data,text,value,again,found,_⟩
    rw [read] at again
    cases again
    cases found
  have shallow : ¬ TooDeep sampleLoads (scoring (.int 90)) := by
    rw [TooDeep,read]
    simp
  exact (safe_iff _ sampleLoads .architectureReview "svc" "notes" {} (replying_answered (scoring (.int 90)))).mpr
    ⟨plain,shallow⟩

end Hookclose.SafeReviews
