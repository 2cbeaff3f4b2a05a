import Hookclose.Patterns
import Mathlib.Data.List.TakeWhile

/-!
What the matcher does with the building blocks: a literal ends in one place, a greedy
repetition first at the end of the whole run, and where what follows cannot begin inside
the run it ends nowhere else.
-/
namespace Hookclose.Patterns

/-- A property of the characters of a text, checked one by one. -/
theorem checked {P : Char → Prop} [DecidablePred P] {text : List Char} (all : (text.all (fun c => decide (P c))) = true) :
    ∀ c ∈ text, P c := by
  simpa using all

section
variable {b : Option Char} {g : List (String × List Char)} {rest : List Char}

theorem skip_append (run : List Char) : Place.skip run.length ⟨b,run ++ rest,g⟩ = ⟨run.getLast?.or b,rest,g⟩ := by
  simp [Place.skip]

/-- The first result of a choice point that has one is that of one of its ways. -/
theorem head_flatMap {α β : Type} {ways : List α} {f : α → List β} {way : α} (member : way ∈ ways) (some : f way ≠ []) :
    ∃ taken ∈ ways, ∃ result later, f taken = result :: later ∧ (ways.flatMap f).head? = result := by
  induction ways with
  | nil => cases member
  | cons first ways ih =>
    rw [List.flatMap_cons]
    cases own : f first with
    | cons result later => exact ⟨first,List.mem_cons_self,result,later,own,rfl⟩
    | nil =>
      have later : way ∈ ways := by
        rcases List.mem_cons.mp member with rfl | later
        · exact absurd own some
        · exact later
      obtain ⟨taken,listed,result,rest,ended,head⟩ := ih later
      exact ⟨taken,List.mem_cons_of_mem _ listed,result,rest,ended,head⟩

/-! ### Literals -/

theorem ends_literal (text : String) :
    ends (literal text) ⟨b,text.toList ++ rest,g⟩ = [⟨text.toList.getLast?.or b,rest,g⟩] := by
  unfold literal
  generalize text.toList = chars
  induction chars generalizing b with
  | nil => simp [ends]
  | cons c chars ih =>
    have first : Place.skip 1 ⟨b,c :: (chars ++ rest),g⟩ = ⟨some c,chars ++ rest,g⟩ := rfl
    have last : (c :: chars).getLast?.or b = chars.getLast?.or (some c) := by
      rw [List.getLast?_cons]
      cases chars.getLast? <;> rfl
    simp only [List.foldr_cons,ends,List.cons_append,List.head?_cons,Option.any_some,beq_self_eq_true,if_true,first,
      List.flatMap_cons,List.flatMap_nil,List.append_nil,ih,last]

theorem mem_ends_literal {text : String} {place ended : Place} (member : ended ∈ ends (literal text) place) :
    place.rest = text.toList ++ ended.rest := by
  unfold literal at member
  generalize text.toList = chars at member ⊢
  induction chars generalizing place with
  | nil =>
    simp only [List.foldr_nil,ends,List.mem_singleton] at member
    rw [member,List.nil_append]
  | cons c chars ih =>
    simp only [List.foldr_cons,ends,List.mem_flatMap] at member
    obtain ⟨between,first,later⟩ := member
    obtain ⟨before,text',groups⟩ := place
    cases text' with
    | nil => simp at first
    | cons d text' =>
      by_cases same : d = c
      · subst same
        simp only [List.head?_cons,Option.any_some,beq_self_eq_true,if_true,List.mem_singleton] at first
        subst first
        have tail := ih later
        simp only [Place.skip,List.drop_succ_cons,List.drop_zero] at tail
        rw [List.cons_append,← tail]
      · simp [same] at first

/-- A literal captures nothing. -/
theorem literal_groups {text : String} {place ended : Place} (member : ended ∈ ends (literal text) place) :
    ended.groups = place.groups := by
  have split := mem_ends_literal member
  obtain ⟨before,whole,groups⟩ := place
  subst split
  rw [ends_literal,List.mem_singleton] at member
  rw [member]

theorem ends_literal_nil {text : String} {place : Place} (absent : ¬ text.toList <+: place.rest) :
    ends (literal text) place = [] := by
  apply List.eq_nil_iff_forall_not_mem.mpr
  intro ended member
  exact absent ⟨ended.rest,(mem_ends_literal member).symm⟩

/-! ### Repetitions -/

section
variable {test : Char → Bool} {least : Nat} {run : List Char}

theorem takeWhile_run (all : ∀ c ∈ run, test c = true) (stops : rest.head?.any test = false) :
    (run ++ rest).takeWhile test = run := by
  rw [List.takeWhile_append_of_pos all]
  cases rest with
  | nil => simp
  | cons c rest =>
    have other : test c = false := by simpa using stops
    simp [other]

theorem mem_counts {text : List Char} {most : Option Nat} {n : Nat} (member : n ∈ counts test least most text) :
    least ≤ n ∧ n ≤ (text.takeWhile test).length := by
  unfold counts at member
  cases most with
  | none =>
    simp only [List.mem_reverse,List.mem_filter,List.mem_range,decide_eq_true_eq] at member
    omega
  | some bound =>
    simp only [List.mem_reverse,List.mem_filter,List.mem_range,decide_eq_true_eq] at member
    omega

theorem mem_counts_none {text : List Char} {n : Nat} (enough : least ≤ n) (within : n ≤ (text.takeWhile test).length) :
    n ∈ counts test least none text := by
  simp only [counts,List.mem_reverse,List.mem_filter,List.mem_range,decide_eq_true_eq]
  omega

theorem counts_longest {text : List Char} (enough : least ≤ (text.takeWhile test).length) : ∃ shorter,
    counts test least none text = (text.takeWhile test).length :: shorter ∧
      ∀ n ∈ shorter, n < (text.takeWhile test).length := by
  unfold counts
  generalize (text.takeWhile test).length = longest at enough ⊢
  refine ⟨((List.range longest).filter (fun n => least ≤ n)).reverse,?_,?_⟩
  · simp only [List.range_succ,List.filter_append,List.reverse_append]
    simp [enough]
  · intro n member
    simp only [List.mem_reverse,List.mem_filter,List.mem_range] at member
    exact member.1

/-- Inside a run the next character belongs to it. -/
theorem inside_run {text : List Char} {n : Nat} (inside : n < (text.takeWhile test).length) :
    (text.drop n).head?.any test = true := by
  have all : ∀ c ∈ text.takeWhile test, test c = true := fun c member => List.mem_takeWhile_imp member
  have split := @List.takeWhile_append_dropWhile _ test text
  have front : text.drop n = (text.takeWhile test).drop n ++ text.dropWhile test := by
    conv_lhs => rw [← split,List.drop_append_of_le_length (by omega)]
  rw [front]
  cases dropped : (text.takeWhile test).drop n with
  | nil =>
    rw [List.drop_eq_nil_iff] at dropped
    omega
  | cons c others =>
    have member : c ∈ text.takeWhile test := List.mem_of_mem_drop (dropped ▸ List.mem_cons_self)
    simpa using all c member

/-- A greedy repetition, captured: the whole run first. -/
theorem ends_group_run (name : String) (all : ∀ c ∈ run, test c = true) (stops : rest.head?.any test = false)
    (enough : least ≤ run.length) : ∃ shorter,
    ends (.group name (.many test least none)) ⟨b,run ++ rest,g⟩ =
      ⟨run.getLast?.or b,rest,(name,run) :: g⟩ :: shorter ∧
      ∀ place ∈ shorter, place.rest.head?.any test = true := by
  have whole : (run ++ rest).takeWhile test = run := takeWhile_run all stops
  have room : least ≤ ((run ++ rest).takeWhile test).length := by rw [whole]; exact enough
  obtain ⟨shorter,found,fewer⟩ := counts_longest room
  rw [whole] at found fewer
  have own : (run ++ rest).take ((run ++ rest).length - rest.length) = run := by simp
  refine ⟨_,by rw [ends,ends,found,List.map_cons,List.map_cons,skip_append,own],?_⟩
  intro place member
  obtain ⟨_,inner,rfl⟩ := List.mem_map.mp member
  obtain ⟨n,listed,rfl⟩ := List.mem_map.mp inner
  have inside : n < ((run ++ rest).takeWhile test).length := by
    rw [whole]
    exact fewer n listed
  exact inside_run inside

/-- What follows a captured run cannot begin inside it. -/
theorem ends_run_seq (name : String) {second : Pattern} (all : ∀ c ∈ run, test c = true)
    (stops : rest.head?.any test = false) (enough : least ≤ run.length)
    (dies : ∀ place, place.rest.head?.any test = true → ends second place = []) :
    ends (.seq (.group name (.many test least none)) second) ⟨b,run ++ rest,g⟩ =
      ends second ⟨run.getLast?.or b,rest,(name,run) :: g⟩ := by
  obtain ⟨shorter,found,fewer⟩ := @ends_group_run b g rest test least run name all stops enough
  have nothing : shorter.flatMap (ends second) = [] := by
    apply List.flatMap_eq_nil_iff.mpr
    intro place member
    exact dies place (fewer place member)
  rw [ends,found,List.flatMap_cons,nothing,List.append_nil]

/-- A repetition ends after some of its run. -/
theorem mem_ends_many {place ended : Place} {most : Option Nat} (member : ended ∈ ends (.many test least most) place) :
    ∃ run, place.rest = run ++ ended.rest ∧ least ≤ run.length ∧ (∀ c ∈ run, test c = true) ∧
      ended.before = run.getLast?.or place.before := by
  rw [ends] at member
  obtain ⟨n,listed,rfl⟩ := List.mem_map.mp member
  have bounds := mem_counts listed
  refine ⟨place.rest.take n,by simp [Place.skip],?_,?_,rfl⟩
  · have short : n ≤ place.rest.length := bounds.2.trans (List.takeWhile_prefix _).length_le
    rw [List.length_take]
    omega
  · intro c member
    have within : place.rest.take n = (place.rest.takeWhile test).take n := by
      conv_lhs => rw [← @List.takeWhile_append_dropWhile _ test place.rest]
      exact List.take_append_of_le_length bounds.2
    rw [within] at member
    exact List.mem_takeWhile_imp (List.mem_of_mem_take member)

/-- A greedy repetition can end after any part of its run that is long enough. -/
theorem ends_many {later : List Char} (all : ∀ c ∈ run, test c = true) (enough : least ≤ run.length) :
    ⟨run.getLast?.or b,later,g⟩ ∈ ends (.many test least none) ⟨b,run ++ later,g⟩ := by
  have within : run.length ≤ ((run ++ later).takeWhile test).length := by
    rw [List.takeWhile_append_of_pos all,List.length_append]
    omega
  rw [ends]
  exact List.mem_map.mpr ⟨run.length,mem_counts_none enough within,skip_append run⟩

/-- Exactly so many characters. -/
theorem mem_ends_exactly {n : Nat} {place ended : Place} (member : ended ∈ ends (.many test n (some n)) place) :
    ∃ run, place.rest = run ++ ended.rest ∧ run.length = n ∧ (∀ c ∈ run, test c = true) ∧
      ended.before = run.getLast?.or place.before := by
  obtain ⟨run,split,enough,all,last⟩ := mem_ends_many member
  refine ⟨run,split,?_,all,last⟩
  rw [ends] at member
  obtain ⟨k,listed,rfl⟩ := List.mem_map.mp member
  have most : k ≤ n := by
    simp only [counts,List.mem_reverse,List.mem_filter,List.mem_range] at listed
    omega
  have lengths := congrArg List.length split
  simp only [Place.skip,List.length_append,List.length_drop] at lengths
  omega

theorem ends_exactly (all : ∀ c ∈ run, test c = true) (later : List Char) :
    ⟨run.getLast?.or b,later,g⟩ ∈ ends (.many test run.length (some run.length)) ⟨b,run ++ later,g⟩ := by
  have within : run.length ≤ ((run ++ later).takeWhile test).length := by
    rw [List.takeWhile_append_of_pos all,List.length_append]
    omega
  rw [ends]
  refine List.mem_map.mpr ⟨run.length,?_,skip_append run⟩
  simp only [counts,List.mem_reverse,List.mem_filter,List.mem_range,decide_eq_true_eq]
  omega

theorem mem_ends_group {name : String} {place ended : Place} {most : Option Nat}
    (member : ended ∈ ends (.group name (.many test least most)) place) :
    ∃ run, place.rest = run ++ ended.rest ∧ least ≤ run.length ∧ ∀ c ∈ run, test c = true := by
  rw [ends] at member
  obtain ⟨ended,inner,rfl⟩ := List.mem_map.mp member
  obtain ⟨run,split,enough,all,_⟩ := mem_ends_many inner
  exact ⟨run,split,enough,all⟩

end

end

/-! ### Scanning -/

section
variable {pattern : Pattern} {b : Option Char} {c : Char} {run rest : List Char}

/-- The characters of a match are passed over. -/
theorem findAll_skip (run : List Char) :
    findAll pattern run.length b (run ++ rest) = findAll pattern 0 (run.getLast?.or b) rest := by
  induction run generalizing b with
  | nil => rfl
  | cons c run ih =>
    rw [List.length_cons,List.cons_append,findAll,ih,List.getLast?_cons]
    cases run.getLast? <;> rfl

theorem findAll_found {ended : Place} (found : firstEnd pattern ⟨b,c :: (run ++ rest),[]⟩ = some ended)
    (stops : ended.rest = rest) :
    findAll pattern 0 b (c :: (run ++ rest)) = ended :: findAll pattern 0 (run.getLast?.or (some c)) rest := by
  have passed : (run ++ rest).length - ended.rest.length = run.length := by simp [stops]
  rw [findAll,found]
  simp only [passed,findAll_skip]

theorem findAll_first {ended : Place} (found : firstEnd pattern ⟨b,c :: rest,[]⟩ = some ended) :
    ended ∈ findAll pattern 0 b (c :: rest) := by
  rw [findAll,found]
  exact List.mem_cons_self

/-- What is found is the match from some place on. -/
theorem mem_findAll {ended : Place} {skip : Nat} {text : List Char} (member : ended ∈ findAll pattern skip b text) :
    ∃ before rest, firstEnd pattern ⟨before,rest,[]⟩ = some ended := by
  induction text generalizing skip b with
  | nil => cases skip <;> cases member
  | cons c text ih =>
    cases skip with
    | succ skip => exact ih member
    | zero =>
      rw [findAll] at member
      cases found : firstEnd pattern ⟨b,c :: text,[]⟩ with
      | none =>
        rw [found] at member
        exact ih member
      | some first =>
        rw [found] at member
        rcases List.mem_cons.mp member with rfl | later
        · exact ⟨b,c :: text,found⟩
        · exact ih later

theorem findAll_missed (missed : firstEnd pattern ⟨b,c :: rest,[]⟩ = none) :
    findAll pattern 0 b (c :: rest) = findAll pattern 0 (some c) rest := by
  rw [findAll,missed]

/-- Something is found where the pattern matches somewhere. -/
theorem findAll_ne_nil {text : List Char} : findAll pattern 0 b text ≠ [] ↔ ∃ before c rest ended,
    text = before ++ c :: rest ∧ firstEnd pattern ⟨before.getLast?.or b,c :: rest,[]⟩ = some ended := by
  induction text generalizing b with
  | nil => simp [findAll]
  | cons d text ih =>
    cases here : firstEnd pattern ⟨b,d :: text,[]⟩ with
    | some ended =>
      exact ⟨fun _ => ⟨[],d,text,ended,rfl,here⟩,fun _ => List.ne_nil_of_mem (findAll_first here)⟩
    | none =>
      have last : ∀ before : List Char, before.getLast?.or (some d) = (d :: before).getLast?.or b := by
        intro before
        rw [List.getLast?_cons]
        cases before.getLast? <;> rfl
      rw [findAll_missed here,ih]
      constructor
      · rintro ⟨before,c,rest,ended,rfl,found⟩
        exact ⟨d :: before,c,rest,ended,rfl,last before ▸ found⟩
      · rintro ⟨before,c,rest,ended,split,found⟩
        cases before with
        | nil =>
          cases split
          rw [List.getLast?_nil,Option.none_or,here] at found
          cases found
        | cons e before =>
          cases split
          exact ⟨before,c,rest,ended,rfl,last before ▸ found⟩

variable {replacement : List Char}

theorem replaceAll_skip (run : List Char) :
    replaceAll pattern replacement run.length b (run ++ rest) =
      replaceAll pattern replacement 0 (run.getLast?.or b) rest := by
  induction run generalizing b with
  | nil => rfl
  | cons c run ih =>
    rw [List.length_cons,List.cons_append,replaceAll,ih,List.getLast?_cons]
    cases run.getLast? <;> rfl

theorem replaceAll_found {ended : Place} (found : firstEnd pattern ⟨b,c :: (run ++ rest),[]⟩ = some ended)
    (stops : ended.rest = rest) : replaceAll pattern replacement 0 b (c :: (run ++ rest)) =
      replacement ++ replaceAll pattern replacement 0 (run.getLast?.or (some c)) rest := by
  have passed : (run ++ rest).length - ended.rest.length = run.length := by simp [stops]
  rw [replaceAll,found]
  simp only [passed,replaceAll_skip]

theorem replaceAll_missed (missed : firstEnd pattern ⟨b,c :: rest,[]⟩ = none) :
    replaceAll pattern replacement 0 b (c :: rest) = c :: replaceAll pattern replacement 0 (some c) rest := by
  rw [replaceAll,missed]

end

end Hookclose.Patterns
