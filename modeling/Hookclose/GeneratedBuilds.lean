import Hookclose.BoundedRetries
import Hookclose.CodeGeneration
import Hookclose.Failover

/-!
Builds from generated files: a worker whose generator asks a manager. Every file that such a
worker writes stands in the payload of a task that it has claimed, or in an answer of a
registered provider to a request for that task's goal; and while no real provider responds
it writes no file for a task with a goal and runs no command for it, since what the local
model answers instead is never an object.
-/
namespace Hookclose.GeneratedBuilds
open Hookclose.ProviderState Hookclose.Vendors Hookclose.ProviderManager Hookclose.Failover Hookclose.JsonText
open Hookclose.CodeGeneration hiding generate
open Hookclose.Programs Hookclose.Workspaces Hookclose.OpenClaw Hookclose.Attempts Hookclose.BoundedRetries
open Hookclose.WorkerAdditions

/-- A generator with its manager, whose custom providers raise `ProviderError`s only. The
    manager is in the given state when the worker starts. -/
structure Builder where
  world : World
  float : String → String × FloatValue
  capability : Capability := .codeGeneration
  manager : ManagerState := {}
  contract : Contract world world.registry.providers

namespace Builder

/-- The manager after what the worker has done: after each request that it has made. -/
def managerAfter (builder : Builder) (history : History) : ManagerState :=
  history.foldl (fun s action =>
    match action with
    | .asked goal context _ =>
      (CodeGeneration.generate builder.world (loads builder.float) builder.capability goal context s).1
    | _ => s) builder.manager

/-- What the worker is answered; a provider that keeps to its boundary lets no other exception
    out. -/
def reply (builder : Builder) (history : History) (goal context : String) : Reply :=
  match (CodeGeneration.generate builder.world (loads builder.float) builder.capability goal context
    (builder.managerAfter history)).2 with
  | .ok result => .ok result
  | .error (.noProviderAvailable message) => .error message
  | .error (.escaped text) => .error text

/-- A worker that generates so. -/
def worker (builder : Builder) (host : Host) (base : String)
    (artifacts : Option (History → String → String → String → String)) : Worker where
  host := host
  base := base
  generator := some builder.reply
  artifacts := artifacts

end Builder

/-! ### Answers -/

/-- The content is what a registered provider has answered the request for the goal with, in
    one of the invocations that were made for it after this history. -/
def Answered (builder : Builder) (history : History) (goal context content : String) : Prop :=
  let s := builder.managerAfter history
  let ended := (ProviderManager.complete builder.world (buildRequest goal context) builder.capability none s).1
  ∃ provider ∈ builder.world.registry.providers, ∃ number response, s.invoked.length ≤ number ∧
    ended.invoked[number]? = some provider.name ∧
    outcomeAt builder.world (buildRequest goal context) number provider = .reply (.response response) ∧
    response.content = content

section
variable {builder : Builder} {history : History} {goal context : String}

/-- The worker is told that there is no provider, or it gets what a registered provider has
    answered, parsed. -/
theorem reply_cases (builder : Builder) (history : History) (goal context : String) :
    (∃ message, builder.reply history goal context = .error message) ∨
      ∃ invocation, builder.reply history goal context = .ok (resultOf (loads builder.float) invocation) ∧
        Answered builder history goal context invocation.content := by
  have outcomes := complete_outcomes builder.world (buildRequest goal context) builder.capability none
    (builder.managerAfter history) (by simp) builder.contract
  have within : ∀ provider ∈ (candidates builder.world builder.capability none (builder.managerAfter history)).2,
      provider ∈ builder.world.registry.providers :=
    fun provider member => inOrder_registered ((keepServing_sublist builder.world _ _).subset member)
  generalize completed : ProviderManager.complete builder.world (buildRequest goal context) builder.capability none
    (builder.managerAfter history) = done at outcomes
  obtain ⟨ended,result⟩ := done
  simp only at outcomes
  cases outcomes with
  | served before provider after response split failed responded invoked =>
    refine .inr ⟨_,by rw [Builder.reply,CodeGeneration.generate,completed]; rfl,?_⟩
    refine ⟨provider,within provider (by simp [split]),_,response,Nat.le_add_right _ before.length,?_,responded,rfl⟩
    rw [completed,invoked]
    simp
  | exhausted message failed invoked =>
    exact .inl ⟨message,by rw [Builder.reply,CodeGeneration.generate,completed]; rfl⟩

/-- A usable reply is an object that a registered provider has answered with. -/
theorem reply_usable (accepted : usable (builder.reply history goal context) = true) :
    ∃ result content, builder.reply history goal context = .ok result ∧ Answered builder history goal context content ∧
      result.patches = (parse (loads builder.float) content).1 := by
  rcases reply_cases builder history goal context with ⟨message,told⟩ | ⟨invocation,told,answered⟩
  · rw [told] at accepted
    cases accepted
  · exact ⟨_,invocation.content,told,answered,rfl⟩

/-! ### Outages -/

/-- No real provider responds: only a local model without an adapter answers at all. -/
def Down (world : World) : Prop :=
  ∀ provider ∈ world.registry.providers, provider.vendor ≠ .localModel false → ∀ number response,
    world.answers number provider.name ≠ .reply (.response response)

theorem wrapped_response {label : String} {answer : Outcome} {response : LLMResponse}
    (responded : wrapped label answer = .reply (.response response)) : answer = .reply (.response response) := by
  cases answer with
  | reply reply => exact responded
  | exception text => cases responded

/-- What is answered in an outage is the stub of the local model. -/
theorem answered_stub {content : String} (down : Down builder.world)
    (answered : Answered builder history goal context content) : content = (degradedResponse (buildRequest goal context)).content := by
  obtain ⟨provider,registered,number,response,_,_,responded,rfl⟩ := answered
  have refuses := down provider registered
  unfold outcomeAt invoke at responded
  cases kind : provider.vendor with
  | custom =>
    rw [kind] at responded refuses
    exact absurd responded (refuses (by simp) number response)
  | adapter =>
    rw [kind] at responded refuses
    exact absurd (wrapped_response responded) (refuses (by simp) number response)
  | localModel adapter =>
    cases adapter with
    | true =>
      rw [kind] at responded refuses
      exact absurd (wrapped_response responded) (refuses (by simp) number response)
    | false =>
      rw [kind] at responded
      cases responded
      rfl

/-- Stripping keeps what comes first if it is no space. -/
theorem strip_front {c d : Char} (first : Text.isSpace c = false) (second : Text.isSpace d = false) (text : List Char) :
    ∃ rest, Text.strip (c :: d :: text) = c :: d :: rest := by
  have kept : [d,c].dropWhile Text.isSpace = [d,c] := by simp [second]
  unfold Text.strip
  rw [List.dropWhile_cons_of_neg (by simp [first]),List.reverse_cons,List.reverse_cons,List.append_assoc,
    List.dropWhile_append]
  split_ifs
  · exact ⟨[],by simp [second]⟩
  · exact ⟨(text.reverse.dropWhile Text.isSpace).reverse,by simp⟩

/-- A text that begins like the stub is no JSON. -/
theorem loads_stub (float : String → String × FloatValue) (text : List Char) :
    loads float (String.ofList ('[' :: 'l' :: text)) = none := by
  have word : scanWord ('l' :: text) = none := by simp [scanWord,words]
  have number : scanNumber ('l' :: text) = none := by simp [scanNumber,scanInteger,scanUnsigned]
  have plain : ∀ fuel, scanOnce float fuel ('l' :: text) = none := by
    intro fuel
    cases fuel with
    | zero => rfl
    | succ fuel => simp [scanOnce,scanPlain,number,word]
  have items : ∀ fuel, scanItems float fuel ('l' :: text) = none := by
    intro fuel
    cases fuel with
    | zero => rfl
    | succ fuel => rw [scanItems,plain]
  have list : ∀ fuel, scanOnce float fuel ('[' :: 'l' :: text) = none := by
    intro fuel
    cases fuel with
    | zero => rfl
    | succ fuel => simp [scanOnce,skip_kept (rfl : isSpace 'l' = false),items]
  unfold loads
  rw [String.toList_ofList,skip_kept (rfl : isSpace '[' = false),list]
  simp

/-- The stub gives no patch. -/
theorem stub_degraded (float : String → String × FloatValue) (request : LLMRequest) :
    (parse (loads float) (degradedResponse request).content).1 = [] := by
  have begins : (degradedResponse request).content =
      String.ofList (Text.strip ('[' :: 'l' :: ("ocal-fallback] " ++ lastUser request).toList)) := by
    simp [degradedResponse]
  obtain ⟨rest,stripped⟩ := strip_front (c := '[') (d := 'l') (by decide) (by decide)
    ("ocal-fallback] " ++ lastUser request).toList
  rw [begins,stripped,parse,loads_stub]

/-- In an outage no reply is usable. -/
theorem reply_unusable (down : Down builder.world) : usable (builder.reply history goal context) = false := by
  by_contra accepted
  obtain ⟨result,content,told,answered,patches⟩ := reply_usable (Bool.not_eq_false _ ▸ accepted)
  rw [answered_stub down answered,stub_degraded] at patches
  rw [told] at accepted
  simp [usable,patches] at accepted

end

/-! ### Sources of files -/

/-- Where a file that is written by now comes from: the payload, or an object that a request for
    the task's goal, made since the start, was answered with. -/
inductive Source (builder : Builder) (task : Task) (start history : History) (path content : String) : Prop
  | supplied {entry : Dict} (listed : .dict entry ∈ patches task) (named : Dictionaries.get "path" entry = some (.str path))
      (given : Dictionaries.get "content" entry = some (.str content))
  | answered {spec data entry : Dict} {goal context answer : String} {listing : List Json} {earlier : History}
      {reply : Reply} (asks : generationSpec task = some spec)
      (isGoal : goal = Json.toText ((Dictionaries.get "goal" spec).getD (.str "")))
      (isContext : context = Json.toText ((Dictionaries.get "context" spec).getD (.str ""))) (since : start <+: earlier)
      (noted : earlier ++ [.asked goal context reply] <+: history)
      (answered : Answered builder earlier goal context answer)
      (object : loads builder.float answer = some (.dict data)) (files : Dictionaries.get "files" data = some (.list listing))
      (listed : .dict entry ∈ listing) (named : Dictionaries.get "path" entry = some (.str path))
      (given : Dictionaries.get "content" entry = some (.str content))

section
variable {builder : Builder} {task : Task} {start history : History}

/-- A patch of the payload is one of its entries. -/
theorem supplied_source {value : Json} {patch : FilePatch} {path content : String} (listed : value ∈ patches task)
    (made : filePatch value = .ok patch) (isPath : patch.path = .str path) (isContent : patch.content = .str content) :
    Source builder task start history path content := by
  obtain ⟨entry,own,given,rfl,named,contained⟩ := filePatch_ok.mp ⟨patch,made⟩
  have same : patch = ⟨own,given⟩ := by
    simpa [filePatch,Json.item,named,contained,bind,Except.bind,pure,Except.pure] using made.symm
  subst same
  cases isPath
  cases isContent
  exact .supplied listed named contained

/-- A patch that the generation phase has given is an entry of the answer. -/
theorem answered_source {host : Host} {base : String} {artifacts : Option (History → String → String → String → String)}
    {files : List FilePatch} {step : Option StepResult} {patch : FilePatch} {path content : String}
    (given : Given (builder.worker host base artifacts) task start history files step) (member : patch ∈ files)
    (isPath : patch.path = .str path) (isContent : patch.content = .str content) :
    Source builder task start history path content := by
  cases given with
  | failed reason => cases member
  | unasked missing => cases member
  | made configured asks isGoal isContext since told noted accepted =>
    cases configured
    obtain ⟨other,answer,same,answered,patches⟩ := reply_usable (told ▸ accepted)
    rw [told] at same
    cases same
    rw [patches] at member
    obtain ⟨data,listing,value,object,listed,inside,made⟩ := parse_patch member
    obtain ⟨entry,own,text,rfl,named,_,contained,rfl⟩ := patchOf_some made
    cases isPath
    cases isContent
    exact .answered asks isGoal isContext since noted answered object listed inside named contained

/-- However a drain ends, every file that it has written was placed, when it was written, under
    the text of the resolved workspace of a task of the source, and stands in its payload or in
    an object that a registered provider has answered the request for its goal with, earlier in
    the drain. -/
theorem files_traced (builder : Builder) (host : Host) (base : String)
    (artifacts : Option (History → String → String → String → String)) (stop : Option (History → Bool))
    (source : List Task) (history : History) : ∃ added,
      stateOf (runForever (builder.worker host base artifacts) stop source history) = history ++ added ∧
      ∀ before target content after, added = before ++ .file target content :: after →
        ∃ task ∈ source, ∃ path earlier, history ++ before = earlier ++ [.directory (parent target)] ∧
          Placed host (join base task.id) earlier path target ∧ Source builder task history earlier path content := by
  let kind : History → Action → Prop := fun before action => ∀ target content, action = .file target content →
    ∃ task ∈ source, ∃ path earlier, before = earlier ++ [.directory (parent target)] ∧
      Placed host (join base task.id) earlier path target ∧ Source builder task history earlier path content
  have ordinary : ∀ task, Ordinary (builder.worker host base artifacts) task kind := by
    intro task
    refine ⟨?_,?_,?_,?_,?_⟩ <;> simp [kind]
  have each : ∀ task ∈ source, Adds kind (fun after => history <+: after) (fun _ after => history <+: after)
      (execute (builder.worker host base artifacts) task) := by
    intro task claimed
    refine (@execute_adds kind _ task history (ordinary task) (fun _ => True) ?_).mono (fun _ since => since)
      (fun _ _ holds => holds.2)
    intro attempt
    refine (@executeOnce_adds kind (builder.worker host base artifacts) task history (ordinary task) ?_
      (by simp [kind]) attempt).mono (fun _ since => since) (fun _ _ holds => ⟨⟨holds.1.1,trivial⟩,holds.2⟩)
    rintro before files step given generated patch origin path target content writes _ _ ⟨⟩
    refine ⟨task,claimed,path,before,rfl,⟨writes.resolved,writes.inside⟩,?_⟩
    rcases origin with member | ⟨value,listed,made⟩
    · exact answered_source given member writes.isPath writes.isContent
    · exact supplied_source listed made writes.isPath writes.isContent
  obtain ⟨added,reached,along,_⟩ := @runForever_adds kind _ history stop source each history List.prefix_rfl
  refine ⟨added,reached,?_⟩
  rintro before target content after rfl
  exact along.middle target content rfl

/-! ### Nothing is built in an outage -/

/-- In an outage the generation phase of a task with a goal fails. -/
theorem given_fails (down : Down builder.world) {spec : Dict} (asks : generationSpec task = some spec)
    {host : Host} {base : String}
    {artifacts : Option (History → String → String → String → String)} {files : List FilePatch} {step : Option StepResult}
    (given : Given (builder.worker host base artifacts) task start history files step) :
    ungenerated step = some genStep := by
  cases given with
  | failed reason => rfl
  | unasked missing =>
    rcases missing with none | none
    · cases none
    · cases asks.symm.trans none
  | made configured _ _ _ _ told _ accepted =>
    cases configured
    rw [← told,reply_unusable down] at accepted
    cases accepted

/-- An attempt in an outage needs its directory, its patches' keys and a numeric timeout. -/
theorem outage_attemptable (down : Down builder.world) {spec : Dict} (asks : generationSpec task = some spec) {host : Host}
    {base : String} {artifacts : Option (History → String → String → String → String)}
    (directory : ∀ history, host.mkdir history (join base task.id) = .ok ()) (keyed : ∀ value ∈ patches task, Keyed value)
    (numeric : Numeric (timeoutOf task)) (attempt : Nat) (history : History) :
    Attemptable (builder.worker host base artifacts) task attempt history := by
  refine ⟨directory history,keyed,?_⟩
  intro workspace created static files step asked _ _ generates
  have ordinary : Ordinary (builder.worker host base artifacts) task (fun _ _ => True) :=
    ⟨fun _ _ _ => trivial,fun _ _ _ => trivial,fun _ _ _ _ _ => trivial,fun _ _ _ _ => trivial,fun _ _ => trivial⟩
  obtain ⟨_,_,_,given⟩ := generate_adds ordinary (since_stable []) (fun _ since => since)
    (created ++ [.emitted (started task attempt workspace.branch)]) List.nil_prefix
  have fails := given_fails down asks (given _ _ generates).1
  exact ⟨numeric,by simp [fails],by simp [fails]⟩

/-- While no real provider responds, an execution of a task with a goal writes no file and
    runs no command, however it ends. Where it returns it has made all its attempts, the last
    of which failed to generate; and it does return unless its directory cannot be made, a
    patch lacks a key or the timeout is no number. -/
theorem outage_builds_nothing (builder : Builder) (host : Host) (base : String)
    (artifacts : Option (History → String → String → String → String)) (task : Task) (history : History)
    (down : Down builder.world) (asks : (generationSpec task).isSome = true) :
    (∃ added, stateOf (execute (builder.worker host base artifacts) task history) = history ++ added ∧
      History.written added = [] ∧ History.ran added = []) ∧
    (∀ report after, execute (builder.worker host base artifacts) task history = .ok report after →
      report.success = false ∧ report.failedStep = some genStep ∧ report.attempts = maxAttempts task) ∧
    ((∀ history, host.mkdir history (join base task.id) = .ok ()) → (∀ value ∈ patches task, Keyed value) →
      Numeric (timeoutOf task) → Returns (execute (builder.worker host base artifacts) task) history) := by
  obtain ⟨spec,asks⟩ := Option.isSome_iff_exists.mp asks
  let kind : History → Action → Prop := fun _ action =>
    (∀ target content, action ≠ .file target content) ∧ ∀ call result, action ≠ .ran call result
  have ordinary : Ordinary (builder.worker host base artifacts) task kind := by
    refine ⟨?_,?_,?_,?_,?_⟩ <;> simp [kind]
  have fails : ∀ before files step, Given (builder.worker host base artifacts) task history before files step →
      ungenerated step = some genStep := fun before files step given => given_fails down asks given
  have each : ∀ attempt, Adds kind (fun after => history <+: after) (fun report after => (report.attempts = attempt ∧
      (report.failedStep = some genStep ∧ report.success = false)) ∧ history <+: after)
      (executeOnce (builder.worker host base artifacts) task attempt) := by
    intro attempt
    refine (@executeOnce_adds kind (builder.worker host base artifacts) task history ordinary ?_ ?_
      attempt).mono (fun _ since => since) (fun _ _ holds => ⟨⟨holds.1.1,holds.1.2 fails⟩,holds.2⟩)
    · intro before files step given generated
      rw [fails before files step given] at generated
      cases generated
    · intro before files step given generated
      rw [fails before files step given] at generated
      cases generated
  obtain ⟨added,reached,along,holds⟩ := execute_adds ordinary each history List.prefix_rfl
  have fits : ∀ action ∈ added, (∀ target content, action ≠ .file target content) ∧
      ∀ call result, action ≠ .ran call result := by
    intro action member
    obtain ⟨before,after,rfl⟩ := List.append_of_mem member
    exact along.middle
  refine ⟨⟨added,reached,?_,?_⟩,?_,?_⟩
  · apply List.filterMap_eq_nil_iff.mpr
    intro action member
    cases action with
    | file target content => exact absurd rfl ((fits _ member).1 target content)
    | _ => rfl
  · apply List.filterMap_eq_nil_iff.mpr
    intro action member
    cases action with
    | ran call result => exact absurd rfl ((fits _ member).2 call result)
    | _ => rfl
  · intro report after returned
    obtain ⟨⟨⟨stopped,failed⟩,attempts⟩,_⟩ := holds report after returned
    exact ⟨failed,stopped,attempts failed⟩
  · intro directory keyed numeric
    apply execute_returns.mpr
    exact each_attemptable (fun attempt before => outage_attemptable down asks directory keyed numeric attempt before) _ _

end

/-- Claude's adapter fails at every call, and the local model has none. -/
def strandedBuilder : Builder where
  world :=
    { registry := ⟨[claudeProvider none,localProvider false none],by decide⟩
      clock := fun _ reading => reading
      answers := fun _ _ => .exception "connection reset" }
  float := fun text => (text,.nan)
  contract := by
    intro provider member custom
    simp only [List.mem_cons,List.not_mem_nil,or_false] at member
    rcases member with rfl | rfl <;> cases custom

theorem stranded_builds_nothing :
    (∃ added, stateOf (execute (strandedBuilder.worker machine "/ws" none) goalTask []) = [] ++ added ∧
      History.written added = [] ∧ History.ran added = []) ∧
    Returns (execute (strandedBuilder.worker machine "/ws" none) goalTask) [] := by
  have down : Down strandedBuilder.world := by
    intro provider _ _ number response answered
    cases answered
  obtain ⟨unbuilt,_,returns⟩ := outage_builds_nothing strandedBuilder machine "/ws" none goalTask [] down rfl
  refine ⟨unbuilt,returns (fun _ => rfl) ?_ trivial⟩
  intro value member
  cases (show value ∈ [] from member)

end Hookclose.GeneratedBuilds
