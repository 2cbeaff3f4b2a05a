import Mathlib.Data.List.Basic

/-!
Programs that keep a state and may raise an exception in the middle: `EStateM`. A
program that has returned is taken apart at its binds (`bind_ok`), and `Returns` says
that a program returns at all; its rules give the exact condition, bind by bind.
`Ensures` bounds what a program does from a condition on the state before it, however it
ends.
-/
namespace Hookclose.Programs

variable {ε σ α β : Type} {s t : σ}

/-- A pure computation that may raise, as a program. -/
def lift (result : Except ε α) : EStateM ε σ α := fun s =>
  match result with
  | .ok value => .ok value s
  | .error exception => .error exception s

/-- The program does not raise. -/
def Returns (program : EStateM ε σ α) (s : σ) : Prop := ∃ value t, program s = .ok value t

/-- The result is a value. -/
def isValue : EStateM.Result ε σ α → Bool
  | .ok _ _ => true
  | .error _ _ => false

instance (program : EStateM ε σ α) (s : σ) : Decidable (Returns program s) :=
  decidable_of_iff (isValue (program s) = true) (by
    unfold Returns isValue
    cases program s <;> simp)

/-- The state that a program leaves behind, whether or not it returns. -/
def stateOf : EStateM.Result ε σ α → σ
  | .ok _ s => s
  | .error _ s => s

@[simp] theorem stateOf_ok (value : α) : stateOf (.ok value s : EStateM.Result ε σ α) = s := rfl

@[simp] theorem stateOf_error (exception : ε) : stateOf (.error exception s : EStateM.Result ε σ α) = s := rfl

/-! ### What a program that returned has done -/

@[simp] theorem pure_ok {value other : α} : (pure value : EStateM ε σ α) s = .ok other t ↔ value = other ∧ s = t := by
  show EStateM.Result.ok value s = .ok other t ↔ _
  rw [EStateM.Result.ok.injEq]

theorem bind_of_ok {program : EStateM ε σ α} {next : α → EStateM ε σ β} {value : α} (done : program s = .ok value t) :
    (program >>= next) s = next value t := by
  show EStateM.bind program next s = _
  rw [EStateM.bind,done]

/-- An exception ends the program. -/
theorem bind_of_error {program : EStateM ε σ α} {next : α → EStateM ε σ β} {exception : ε}
    (raised : program s = .error exception t) : (program >>= next) s = .error exception t := by
  show EStateM.bind program next s = _
  rw [EStateM.bind,raised]

theorem bind_ok {program : EStateM ε σ α} {next : α → EStateM ε σ β} {value : β} :
    (program >>= next) s = .ok value t ↔ ∃ first u, program s = .ok first u ∧ next first u = .ok value t := by
  show EStateM.bind program next s = .ok value t ↔ _
  unfold EStateM.bind
  cases program s <;> simp

/-- What is done with a result changes no state. -/
theorem stateOf_map {program : EStateM ε σ α} {f : α → β} :
    stateOf ((program >>= fun value => pure (f value)) s) = stateOf (program s) := by
  show stateOf (EStateM.bind program (fun value => EStateM.pure (f value)) s) = _
  unfold EStateM.bind
  cases program s <;> rfl

@[simp] theorem throw_ok {exception : ε} {value : α} : (throw exception : EStateM ε σ α) s = .ok value t ↔ False := by
  show EStateM.Result.error exception s = .ok value t ↔ _
  simp

@[simp] theorem lift_ok {result : Except ε α} {value : α} :
    (lift result : EStateM ε σ α) s = .ok value t ↔ result = .ok value ∧ s = t := by
  cases result <;> simp [lift]

/-! ### Programs that write a log -/

section
variable {γ : Type} {kind : γ → Prop}

/-- What the program has added to its log when it returns is of one kind. -/
def Appends (kind : γ → Prop) (program : EStateM ε (List γ) α) : Prop :=
  ∀ log value later, program log = .ok value later → ∃ added, later = log ++ added ∧ ∀ entry ∈ added, kind entry

theorem appends_pure (value : α) : Appends kind (pure value : EStateM ε (List γ) α) := by
  intro log other later returned
  obtain ⟨_,rfl⟩ := pure_ok.mp returned
  exact ⟨[],by simp,by simp⟩

theorem appends_lift (result : Except ε α) : Appends kind (lift result : EStateM ε (List γ) α) := by
  intro log other later returned
  obtain ⟨_,rfl⟩ := lift_ok.mp returned
  exact ⟨[],by simp,by simp⟩

theorem appends_throw (exception : ε) : Appends kind (throw exception : EStateM ε (List γ) α) := by
  intro log other later returned
  exact absurd returned (by simp)

theorem Appends.bind {program : EStateM ε (List γ) α} {next : α → EStateM ε (List γ) β} (first : Appends kind program)
    (rest : ∀ value, Appends kind (next value)) : Appends kind (program >>= next) := by
  intro log value later returned
  obtain ⟨between,_,begun,returned⟩ := bind_ok.mp returned
  obtain ⟨before,rfl,early⟩ := first _ _ _ begun
  obtain ⟨after,rfl,late⟩ := rest _ _ _ _ returned
  exact ⟨before ++ after,List.append_assoc _ _ _,List.forall_mem_append.mpr ⟨early,late⟩⟩

end

section
variable {γ : Type} {kind : List γ → γ → Prop}

/-- The entries that are added to a log are of a kind, which may depend on the log before the
    entry. -/
def Along (kind : List γ → γ → Prop) : List γ → List γ → Prop
  | _,[] => True
  | log,entry :: rest => kind log entry ∧ Along kind (log ++ [entry]) rest

theorem along_append {log first second : List γ} :
    Along kind log (first ++ second) ↔ Along kind log first ∧ Along kind (log ++ first) second := by
  induction first generalizing log with
  | nil => simp [Along]
  | cons entry rest ih =>
    rw [List.cons_append,Along,Along,ih,List.append_cons log entry rest,and_assoc]

/-- Each entry is of the kind, for the log before it. -/
theorem Along.middle {log before after : List γ} {entry : γ} (along : Along kind log (before ++ entry :: after)) :
    kind (log ++ before) entry :=
  (along_append.mp along).2.1

/-- What is true of a log stays true when it grows. -/
def Stable (fact : List γ → Prop) : Prop := ∀ log more, fact log → fact (log ++ more)

end

section
variable {γ : Type} {kind : List γ → γ → Prop} {pre : List γ → Prop} {post : α → List γ → Prop} {final : β → List γ → Prop}

/-- From a log with the precondition, however the program ends, what it adds to the log is of
    one kind, and a value that it returns meets the postcondition with the log then. -/
def Adds (kind : List γ → γ → Prop) (pre : List γ → Prop) (post : α → List γ → Prop) (program : EStateM ε (List γ) α) :
    Prop :=
  ∀ log, pre log → ∃ added, stateOf (program log) = log ++ added ∧ Along kind log added ∧
    ∀ value later, program log = .ok value later → post value later

theorem adds_pure {value : α} (holds : ∀ log, pre log → post value log) :
    Adds kind pre post (pure value : EStateM ε (List γ) α) := by
  intro log given
  refine ⟨[],by rw [List.append_nil]; rfl,trivial,?_⟩
  intro other later returned
  obtain ⟨rfl,rfl⟩ := pure_ok.mp returned
  exact holds log given

theorem adds_throw (exception : ε) : Adds kind pre post (throw exception : EStateM ε (List γ) α) :=
  fun _ _ => ⟨[],by rw [List.append_nil]; rfl,trivial,by simp⟩

/-- A computation that reads the log and adds nothing to it. -/
theorem adds_read {program : EStateM ε (List γ) α} {result : List γ → Except ε α}
    (reads : ∀ log, program log = lift (result log) log)
    (holds : ∀ log value, pre log → result log = .ok value → post value log) : Adds kind pre post program := by
  intro log given
  refine ⟨[],?_,trivial,?_⟩
  · rw [reads]
    cases result log <;> simp [lift]
  · intro value later returned
    rw [reads] at returned
    obtain ⟨done,rfl⟩ := lift_ok.mp returned
    exact holds log value given done

theorem adds_lift {result : Except ε α} (holds : ∀ log value, pre log → result = .ok value → post value log) :
    Adds kind pre post (lift result : EStateM ε (List γ) α) :=
  adds_read (fun _ => rfl) holds

/-- A program that adds one entry and returns, or adds nothing and raises. -/
theorem adds_note {program : EStateM ε (List γ) α}
    (notes : ∀ log, pre log → (∃ exception, program log = .error exception log) ∨
      ∃ value entry, program log = .ok value (log ++ [entry]) ∧ kind log entry ∧ post value (log ++ [entry])) :
    Adds kind pre post program := by
  intro log given
  rcases notes log given with ⟨exception,raised⟩ | ⟨value,entry,done,fits,holds⟩
  · rw [raised]
    exact ⟨[],by simp,trivial,by simp⟩
  · rw [done]
    refine ⟨[entry],rfl,⟨fits,trivial⟩,?_⟩
    rintro other later ⟨⟩
    exact holds

theorem Adds.bind {program : EStateM ε (List γ) α} {next : α → EStateM ε (List γ) β} (first : Adds kind pre post program)
    (rest : ∀ value, Adds kind (post value) final (next value)) : Adds kind pre final (program >>= next) := by
  intro log given
  obtain ⟨before,reached,early,holds⟩ := first log given
  cases done : program log with
  | error exception later =>
    rw [done] at reached
    rw [bind_of_error done]
    exact ⟨before,reached,early,by simp⟩
  | ok value later =>
    rw [done] at reached
    obtain rfl : later = log ++ before := reached
    obtain ⟨after,ended,late,meets⟩ := rest value _ (holds value _ done)
    rw [bind_of_ok done]
    exact ⟨before ++ after,by rw [ended,List.append_assoc],along_append.mpr ⟨early,late⟩,meets⟩

theorem Adds.mono {program : EStateM ε (List γ) α} {pre' : List γ → Prop} {post' : α → List γ → Prop}
    (adds : Adds kind pre post program) (before : ∀ log, pre' log → pre log)
    (after : ∀ value log, post value log → post' value log) : Adds kind pre' post' program := by
  intro log given
  obtain ⟨added,reached,each,meets⟩ := adds log (before log given)
  exact ⟨added,reached,each,fun value later returned => after value later (meets value later returned)⟩

/-- A stable fact is kept beside what a program does. -/
theorem Adds.frame {program : EStateM ε (List γ) α} (adds : Adds kind pre post program) {fact : List γ → Prop}
    (stable : Stable fact) :
    Adds kind (fun log => pre log ∧ fact log) (fun value log => post value log ∧ fact log) program := by
  intro log given
  obtain ⟨added,reached,each,meets⟩ := adds log given.1
  refine ⟨added,reached,each,?_⟩
  intro value later returned
  have ended : later = log ++ added := by
    rw [returned] at reached
    exact reached
  exact ⟨meets value later returned,ended ▸ stable log added given.2⟩

end

/-! ### When a program returns -/

@[simp] theorem returns_pure {value : α} : Returns (pure value : EStateM ε σ α) s := ⟨value,s,rfl⟩

theorem returns_bind {program : EStateM ε σ α} {next : α → EStateM ε σ β} :
    Returns (program >>= next) s ↔ ∃ value t, program s = .ok value t ∧ Returns (next value) t := by
  constructor
  · rintro ⟨value,t,returned⟩
    obtain ⟨first,u,done,rest⟩ := bind_ok.mp returned
    exact ⟨first,u,done,value,t,rest⟩
  · rintro ⟨first,u,done,value,t,rest⟩
    exact ⟨value,t,bind_ok.mpr ⟨first,u,done,rest⟩⟩

/-- A part whose result is known leaves the rest to return. -/
theorem returns_after {program : EStateM ε σ α} {next : α → EStateM ε σ β} {value : α} (done : program s = .ok value t) :
    Returns (program >>= next) s ↔ Returns (next value) t := by
  rw [returns_bind,done]
  simp

theorem returns_lift {result : Except ε α} {next : α → EStateM ε σ β} :
    Returns (lift result >>= next) s ↔ ∃ value, result = .ok value ∧ Returns (next value) s := by
  rw [returns_bind]
  constructor
  · rintro ⟨value,_,done,rest⟩
    obtain ⟨same,rfl⟩ := lift_ok.mp done
    exact ⟨value,same,rest⟩
  · rintro ⟨value,same,rest⟩
    exact ⟨value,s,lift_ok.mpr ⟨same,rfl⟩,rest⟩

/-- A list is converted when every item is. -/
theorem mapM_ok {f : α → Except ε β} {items : List α} :
    (∃ values, items.mapM f = .ok values) ↔ ∀ item ∈ items, ∃ value, f item = .ok value := by
  induction items with
  | nil => simp [pure,Except.pure]
  | cons first rest ih =>
    rw [List.forall_mem_cons,← ih,List.mapM_cons]
    cases f first with
    | error exception => simp [bind,Except.bind]
    | ok value => cases rest.mapM f <;> simp [bind,Except.bind,pure,Except.pure]

/-- A list of which one item is refused is refused. -/
theorem mapM_error {f : α → Except ε β} {items : List α} {item : α} (member : item ∈ items) {exception : ε}
    (refused : f item = .error exception) : ∃ exception, items.mapM f = .error exception := by
  cases done : items.mapM f with
  | error exception => exact ⟨exception,rfl⟩
  | ok values =>
    obtain ⟨value,converted⟩ := mapM_ok.mp ⟨values,done⟩ item member
    rw [refused] at converted
    cases converted

/-- A converted value comes from an item. -/
theorem mapM_member {f : α → Except ε β} {items : List α} {values : List β} (done : items.mapM f = .ok values) {value : β}
    (member : value ∈ values) : ∃ item ∈ items, f item = .ok value := by
  induction items generalizing values with
  | nil =>
    cases done
    cases member
  | cons first rest ih =>
    rw [List.mapM_cons] at done
    cases head : f first with
    | error exception =>
      rw [head] at done
      cases done
    | ok converted =>
      rw [head] at done
      cases tail : rest.mapM f with
      | error exception =>
        rw [tail] at done
        cases done
      | ok later =>
        rw [tail] at done
        cases done
        rcases List.mem_cons.mp member with rfl | inside
        · exact ⟨first,List.mem_cons_self,head⟩
        · obtain ⟨item,listed,own⟩ := ih tail inside
          exact ⟨item,List.mem_cons_of_mem _ listed,own⟩

/-! ### What holds after a program, however it ends -/

/-- A program with what is done when it raises, before the exception goes on. -/
def onError (program : EStateM ε σ α) (cleanup : EStateM ε σ Unit) : EStateM ε σ α := fun s =>
  match program s with
  | .ok value t => .ok value t
  | .error exception t => (cleanup >>= fun _ => throw exception) t

/-- From a state with the precondition the program returns with one condition on its value
    and the state, or it raises with another. -/
def Ensures (pre : σ → Prop) (program : EStateM ε σ α) (post : α → σ → Prop) (raised : ε → σ → Prop) : Prop :=
  ∀ s, pre s →
    match program s with
    | .ok value t => post value t
    | .error exception t => raised exception t

section
variable {pre pre' : σ → Prop} {post post' : α → σ → Prop} {raised raised' : ε → σ → Prop}

theorem ensures_pure {value : α} (holds : ∀ s, pre s → post value s) :
    Ensures pre (pure value : EStateM ε σ α) post raised := holds

theorem Ensures.mono {program : EStateM ε σ α} (ensures : Ensures pre program post raised)
    (before : ∀ s, pre' s → pre s) (after : ∀ value s, post value s → post' value s)
    (failed : ∀ exception s, raised exception s → raised' exception s) : Ensures pre' program post' raised' := by
  intro s holds
  have ends := ensures s (before s holds)
  cases done : program s with
  | ok value t =>
    rw [done] at ends
    exact after value t ends
  | error exception t =>
    rw [done] at ends
    exact failed exception t ends

/-- What does not depend on the state may be used as an assumption. -/
theorem ensures_and {fact : Prop} {program : EStateM ε σ α} (ensures : fact → Ensures pre program post raised) :
    Ensures (fun s => pre s ∧ fact) program post raised :=
  fun s holds => ensures holds.2 s holds.1

theorem Ensures.bind {program : EStateM ε σ α} {next : α → EStateM ε σ β} {final : β → σ → Prop}
    (first : Ensures pre program post raised) (rest : ∀ value, Ensures (post value) (next value) final raised) :
    Ensures pre (program >>= next) final raised := by
  intro s holds
  have ends := first s holds
  cases done : program s with
  | ok value t =>
    rw [done] at ends
    rw [bind_of_ok done]
    exact rest value t ends
  | error exception t =>
    rw [done] at ends
    rw [bind_of_error done]
    exact ends

/-- What holds however the program ends holds of the state that it leaves behind. -/
theorem Ensures.stateOf {program : EStateM ε σ α} {left : σ → Prop}
    (ensures : Ensures pre program (fun _ => left) (fun _ => left)) (holds : pre s) : left (stateOf (program s)) := by
  have ends := ensures s holds
  cases done : program s with
  | ok value t => rwa [done] at ends
  | error exception t => rwa [done] at ends

/-- The cleanup after an exception either ends and the exception goes on, or raises another. -/
theorem Ensures.onError {program : EStateM ε σ α} {cleanup : EStateM ε σ Unit}
    (ensures : Ensures pre program post raised)
    (cleaned : ∀ exception, Ensures (raised exception) cleanup (fun _ => raised' exception) raised') :
    Ensures pre (onError program cleanup) post raised' := by
  intro s holds
  have ends := ensures s holds
  unfold Programs.onError
  cases done : program s with
  | ok value t =>
    rw [done] at ends
    exact ends
  | error exception t =>
    rw [done] at ends
    have after := cleaned exception t ends
    cases finished : cleanup t with
    | ok _ u =>
      rw [finished] at after
      show match (cleanup >>= fun _ => throw exception) t with
        | .ok value t => post value t
        | .error exception t => raised' exception t
      rw [bind_of_ok finished]
      exact after
    | error other u =>
      rw [finished] at after
      show match (cleanup >>= fun _ => throw exception) t with
        | .ok value t => post value t
        | .error exception t => raised' exception t
      rw [bind_of_error finished]
      exact after

end

end Hookclose.Programs
