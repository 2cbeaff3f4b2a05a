import Mathlib.Data.List.Basic
import Mathlib.Logic.Basic

/-!
Runs of a machine that a list of inputs drives. `run` applies a step function to
the inputs in order. `Always` says that a property holds in every state a run
passes through, `Each` that every step taken meets a condition on the state
before it and its input. An invariant that every step preserves holds always
(`always_of_step`). Where only the steps that meet a condition preserve it, and
every other step leaves the property broken, the property holds always exactly
when each step meets the condition (`always_iff_each`). `Throughout` relates each
item of a history to the items before it.
-/
namespace Hookclose.Runs
universe u v
variable {State : Type u} {Input : Type v} {step : State → Input → State}

/-- The state after all inputs. -/
def run (step : State → Input → State) (start : State) (inputs : List Input) : State :=
  inputs.foldl step start

@[simp] theorem run_nil (start : State) : run step start [] = start := rfl

@[simp] theorem run_cons (start : State) (input : Input) (inputs : List Input) :
    run step start (input :: inputs) = run step (step start input) inputs := rfl

theorem run_append (start : State) (first second : List Input) :
    run step start (first ++ second) = run step (run step start first) second := by
  simp [run,List.foldl_append]

theorem run_concat (start : State) (inputs : List Input) (input : Input) :
    run step start (inputs ++ [input]) = step (run step start inputs) input := by
  simp [run_append]

/-- `Good` holds in every state of the run. -/
def Always (step : State → Input → State) (Good : State → Prop) (start : State) (inputs : List Input) : Prop :=
  ∀ done, done <+: inputs → Good (run step start done)

/-- Every step of the run meets `Meets`, a condition on the state before the step
    and the input. -/
def Each (step : State → Input → State) (Meets : State → Input → Prop) (start : State)
    (inputs : List Input) : Prop :=
  ∀ done input, done ++ [input] <+: inputs → Meets (run step start done) input

theorem always_nil {Good : State → Prop} {start : State} : Always step Good start [] ↔ Good start := by
  constructor
  · intro always
    exact always [] (List.prefix_refl [])
  · intro good done within
    rw [List.prefix_nil.mp within]
    exact good

theorem always_cons {Good : State → Prop} {start : State} {input : Input} {inputs : List Input} :
    Always step Good start (input :: inputs) ↔ Good start ∧ Always step Good (step start input) inputs := by
  constructor
  · intro always
    refine ⟨always [] List.nil_prefix,?_⟩
    intro done within
    exact always (input :: done) (List.cons_prefix_cons.mpr ⟨rfl,within⟩)
  · rintro ⟨good,later⟩ done within
    cases done with
    | nil => exact good
    | cons head tail =>
      obtain ⟨rfl,rest⟩ := List.cons_prefix_cons.mp within
      exact later tail rest

theorem each_nil {Meets : State → Input → Prop} {start : State} : Each step Meets start [] := by
  intro done input within
  simp at within

theorem each_cons {Meets : State → Input → Prop} {start : State} {input : Input} {inputs : List Input} :
    Each step Meets start (input :: inputs) ↔ Meets start input ∧ Each step Meets (step start input) inputs := by
  constructor
  · intro each
    refine ⟨each [] input (by simp),?_⟩
    intro done next within
    exact each (input :: done) next (by simpa using within)
  · rintro ⟨meets,later⟩ done next within
    cases done with
    | nil =>
      obtain ⟨rfl,_⟩ := List.cons_prefix_cons.mp within
      exact meets
    | cons head tail =>
      obtain ⟨rfl,rest⟩ := List.cons_prefix_cons.mp within
      exact later tail next rest

instance decidableEach {Meets : State → Input → Prop} [∀ s input, Decidable (Meets s input)] :
    ∀ (start : State) (inputs : List Input), Decidable (Each step Meets start inputs)
  | _,[] => .isTrue each_nil
  | start,input :: inputs =>
    have : Decidable (Each step Meets (step start input) inputs) := decidableEach (step start input) inputs
    decidable_of_iff _ each_cons.symm

theorem each_concat {Meets : State → Input → Prop} {start : State} {inputs : List Input} {input : Input} :
    Each step Meets start (inputs ++ [input]) ↔ Each step Meets start inputs ∧ Meets (run step start inputs) input := by
  constructor
  · intro each
    refine ⟨?_,each inputs input (List.prefix_refl _)⟩
    intro done next within
    exact each done next (within.trans (List.prefix_append inputs [input]))
  · rintro ⟨each,last⟩ done next within
    rcases List.prefix_concat_iff.mp within with same | earlier
    · obtain ⟨rfl,equal⟩ := List.append_inj' same rfl
      cases equal
      exact last
    · exact each done next earlier

theorem each_append {Meets : State → Input → Prop} {start : State} {first second : List Input} :
    Each step Meets start (first ++ second) ↔ Each step Meets start first ∧ Each step Meets (run step start first) second := by
  induction first generalizing start with
  | nil => simp [each_nil]
  | cons input first ih => rw [List.cons_append,each_cons,each_cons,ih,and_assoc,run_cons]

/-- A condition on the inputs alone is met by the steps when all inputs meet it. -/
theorem each_of_forall {Meets : Input → Prop} {start : State} {inputs : List Input}
    (all : ∀ input ∈ inputs, Meets input) : Each step (fun _ => Meets) start inputs := by
  rintro done input ⟨rest,split⟩
  refine all input ?_
  simp [← split]

/-- The last state of a run is one of its states. -/
theorem Always.last {Good : State → Prop} {start : State} {inputs : List Input}
    (always : Always step Good start inputs) : Good (run step start inputs) :=
  always inputs (List.prefix_refl inputs)

theorem Always.mono {Good Better : State → Prop} {start : State} {inputs : List Input}
    (weaker : ∀ s, Better s → Good s) (always : Always step Better start inputs) : Always step Good start inputs :=
  fun done within => weaker _ (always done within)

/-- A step taken from a state with an invariant, under a condition, has what both give. -/
theorem Each.mono {Inv : State → Prop} {Allowed Meets : State → Input → Prop} {start : State} {inputs : List Input}
    (gives : ∀ s input, Inv s → Allowed s input → Meets s input) (always : Always step Inv start inputs)
    (each : Each step Allowed start inputs) : Each step Meets start inputs := by
  intro done input within
  have before : done <+: inputs := (List.prefix_append done [input]).trans within
  exact gives _ _ (always done before) (each done input within)

/-- An invariant that the steps meeting a condition preserve holds in every state
    of a run whose steps all meet it. -/
theorem always_of_each (Inv : State → Prop) (Meets : State → Input → Prop)
    (preserved : ∀ s input, Inv s → Meets s input → Inv (step s input)) :
    ∀ {start : State} {inputs : List Input}, Inv start → Each step Meets start inputs → Always step Inv start inputs := by
  intro start inputs
  induction inputs generalizing start with
  | nil => intro holds _; exact always_nil.mpr holds
  | cons input inputs ih =>
    intro holds each
    obtain ⟨meets,later⟩ := each_cons.mp each
    exact always_cons.mpr ⟨holds,ih (preserved start input holds meets) later⟩

/-- An invariant that every step preserves holds in every state of every run. -/
theorem always_of_step (Inv : State → Prop) (preserved : ∀ s input, Inv s → Inv (step s input))
    {start : State} (holds : Inv start) (inputs : List Input) : Always step Inv start inputs := by
  have each : Each step (fun _ _ => True) start inputs := fun _ _ _ => trivial
  exact always_of_each Inv (fun _ _ => True) (fun s input inv _ => preserved s input inv) holds each

/-- The exact condition on runs of allowed steps: where an invariant implies the
    property, steps that meet the condition preserve the invariant, and any other step
    breaks the property, a run has the property in every state exactly when each step
    meets the condition. -/
theorem always_iff_each_allowed (Inv : State → Prop) (Allowed : State → Input → Prop) {Good : State → Prop}
    {Meets : State → Input → Prop} (good : ∀ s, Inv s → Good s)
    (preserved : ∀ s input, Inv s → Allowed s input → Meets s input → Inv (step s input))
    (broken : ∀ s input, Inv s → Allowed s input → ¬ Meets s input → ¬ Good (step s input)) :
    ∀ {start : State} {inputs : List Input}, Inv start → Each step Allowed start inputs →
      (Always step Good start inputs ↔ Each step Meets start inputs) := by
  intro start inputs
  induction inputs generalizing start with
  | nil =>
    intro holds _
    exact ⟨fun _ => each_nil,fun _ => always_nil.mpr (good start holds)⟩
  | cons input inputs ih =>
    intro holds each
    obtain ⟨allowed,later⟩ := each_cons.mp each
    rw [always_cons,each_cons]
    by_cases meets : Meets start input
    · have rest := ih (preserved start input holds allowed meets) later
      exact ⟨fun always => ⟨meets,rest.mp always.2⟩,fun each => ⟨good start holds,rest.mpr each.2⟩⟩
    · constructor
      · rintro ⟨_,later⟩
        exact absurd (later [] List.nil_prefix) (broken start input holds allowed meets)
      · rintro ⟨now,_⟩
        exact absurd now meets

/-- The exact condition where every step is allowed. -/
theorem always_iff_each (Inv : State → Prop) {Good : State → Prop} {Meets : State → Input → Prop}
    (good : ∀ s, Inv s → Good s)
    (preserved : ∀ s input, Inv s → Meets s input → Inv (step s input))
    (broken : ∀ s input, Inv s → ¬ Meets s input → ¬ Good (step s input))
    {start : State} {inputs : List Input} (holds : Inv start) :
    Always step Good start inputs ↔ Each step Meets start inputs := by
  have each : Each step (fun _ _ => True) start inputs := fun _ _ _ => trivial
  exact always_iff_each_allowed Inv (fun _ _ => True) good (fun s input inv _ meets => preserved s input inv meets)
    (fun s input inv _ fails => broken s input inv fails) holds each

/-- Two conditions on the steps that agree wherever an invariant holds, which the steps
    that meet the second preserve, are met by the same runs. -/
theorem each_iff_each (Inv : State → Prop) {Good Meets : State → Input → Prop}
    (agree : ∀ s input, Inv s → (Good s input ↔ Meets s input))
    (preserved : ∀ s input, Inv s → Meets s input → Inv (step s input)) :
    ∀ {start : State} {inputs : List Input}, Inv start → (Each step Good start inputs ↔ Each step Meets start inputs) := by
  intro start inputs
  induction inputs generalizing start with
  | nil => intro _; exact ⟨fun _ => each_nil,fun _ => each_nil⟩
  | cons input inputs ih =>
    intro holds
    rw [each_cons,each_cons,agree start input holds]
    exact and_congr_right (fun meets => ih (preserved start input holds meets))

/-! ### Two runs -/

section
universe w x
variable {Target : Type w} {Other : Type x} {track : Target → Other → Target}

/-- A second machine follows a run when it takes a step for each input that is selected,
    and none for the others. -/
theorem run_selected (Related : State → Target → Prop) (selects : Input → Bool) (translate : Input → Other)
    (taken : ∀ s t input, Related s t → selects input = true → Related (step s input) (track t (translate input)))
    (skipped : ∀ s t input, Related s t → selects input = false → Related (step s input) t) (inputs : List Input) :
    ∀ {s : State} {t : Target}, Related s t →
      Related (run step s inputs) (run track t ((inputs.filter selects).map translate)) := by
  induction inputs with
  | nil => intro s t related; exact related
  | cons input inputs ih =>
    intro s t related
    cases selected : selects input with
    | true => simpa [selected] using ih (taken s t input related selected)
    | false => simpa [selected] using ih (skipped s t input related selected)

end

/-! ### Histories -/

section
variable {α : Type u}

/-- Each item of a history is in order with those before it. -/
def Throughout (InOrder : List α → α → Prop) (items : List α) : Prop :=
  ∀ before item after, items = before ++ item :: after → InOrder before item

theorem throughout_nil {InOrder : List α → α → Prop} : Throughout InOrder [] := by
  intro before item after split
  simp at split

theorem throughout_concat {InOrder : List α → α → Prop} {items : List α} {item : α} :
    Throughout InOrder (items ++ [item]) ↔ Throughout InOrder items ∧ InOrder items item := by
  constructor
  · intro all
    refine ⟨?_,all items item [] rfl⟩
    intro before earlier after split
    exact all before earlier (after ++ [item]) (by simp [split])
  · rintro ⟨earlier,last⟩ before other after split
    rcases List.eq_nil_or_concat after with rfl | ⟨rest,final,rfl⟩
    · obtain ⟨rfl,same⟩ := List.append_inj' split rfl
      cases same
      exact last
    · rw [List.concat_eq_append,← List.cons_append,← List.append_assoc] at split
      obtain ⟨same,_⟩ := List.append_inj' split rfl
      exact earlier before other rest same

/-- A condition on the steps that the inputs so far decide is one on the history. -/
theorem each_iff_throughout {Input : Type u} {Meets : State → Input → Prop} {InOrder : List Input → Input → Prop}
    {step : State → Input → State} {start : State}
    (agree : ∀ before input, Meets (run step start before) input ↔ InOrder before input) (inputs : List Input) :
    Each step Meets start inputs ↔ Throughout InOrder inputs := by
  constructor
  · rintro each before input after rfl
    exact (agree before input).mp (each before input ⟨after,by simp⟩)
  · rintro all before input ⟨after,split⟩
    exact (agree before input).mpr (all before input after (by simp [← split]))

end

end Hookclose.Runs
