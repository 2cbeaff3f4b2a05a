import Hookclose.Routing

/-!
Which entry of the policy's map decides the complexity of a task type. The policy means the
longest dotted prefix that is a key; the code asks for the part before the first dot only,
so the two agree exactly when no longer prefix that is a key says something else.
-/
namespace Hookclose.ComplexityKeys
open Hookclose.Routing

/-! ### Dotted prefixes -/

/-- The name itself, or what comes before one of its dots. -/
def DottedPrefix (key name : String) : Prop := key = name ∨ key.toList ++ ['.'] <+: name.toList

instance (key name : String) : Decidable (DottedPrefix key name) := by
  unfold DottedPrefix
  infer_instance

/-- The part of a name before its first dot. -/
def firstSegment (name : String) : String := String.ofList (name.toList.takeWhile (fun c => c ≠ '.'))

theorem firstSegment_begins (name : String) : DottedPrefix (firstSegment name) name := by
  unfold DottedPrefix firstSegment
  have split := List.takeWhile_append_dropWhile (p := fun c => decide (c ≠ '.')) (l := name.toList)
  cases rest : name.toList.dropWhile (fun c => decide (c ≠ '.')) with
  | nil =>
    rw [rest,List.append_nil] at split
    left
    rw [split,String.ofList_toList]
  | cons c after =>
    right
    have stopped := List.head?_dropWhile_not (fun c => decide (c ≠ '.')) name.toList
    rw [rest] at stopped
    have dot : c = '.' := by simpa using stopped
    refine ⟨after,?_⟩
    rw [String.toList_ofList,List.append_assoc]
    conv_rhs => rw [← split,rest,dot]
    rfl

/-- Of two dotted prefixes of a name the shorter is a prefix of the longer. -/
theorem DottedPrefix.toList {key name : String} (dotted : DottedPrefix key name) : key.toList <+: name.toList := by
  rcases dotted with rfl | before
  · exact List.prefix_refl _
  · exact (List.prefix_append _ _).trans before

/-- Dotted prefixes of one name are told apart by their lengths. -/
theorem dottedPrefix_length {first second name : String} (one : DottedPrefix first name) (two : DottedPrefix second name)
    (same : first.toList.length = second.toList.length) : first = second := by
  have prefixed := List.prefix_of_prefix_length_le one.toList two.toList same.le
  exact String.toList_inj.mp (prefixed.eq_of_length same)

/-! ### The longest key -/

section
variable (policy : RoutingPolicy) (taskType : String)

/-- The complexity of the longest dotted prefix that is a key, or the default. -/
inductive LongestMatch : TaskComplexity → Prop
  | listed {key : String} {complexity : TaskComplexity} (dotted : DottedPrefix key taskType)
      (entry : policy.taskTypeComplexity key = some complexity)
      (longest : ∀ other, DottedPrefix other taskType → policy.taskTypeComplexity other ≠ none →
        other.toList.length ≤ key.toList.length) : LongestMatch complexity
  | unlisted (none : ∀ key, DottedPrefix key taskType → policy.taskTypeComplexity key = none) :
      LongestMatch policy.defaultComplexity

/-- A key with more than one segment is a dotted prefix of the task type, and no longer key is. -/
structure Deepest (key : String) : Prop where
  dotted : DottedPrefix key taskType
  isKey : policy.taskTypeComplexity key ≠ none
  deeper : key ≠ firstSegment taskType
  longest : ∀ other, DottedPrefix other taskType → policy.taskTypeComplexity other ≠ none →
    other.toList.length ≤ key.toList.length

end

section
variable {policy : RoutingPolicy} {taskType : String}

/-- There is at most one complexity that the longest key gives. -/
theorem longestMatch_unique {first second : TaskComplexity} (one : LongestMatch policy taskType first)
    (two : LongestMatch policy taskType second) : first = second := by
  cases one with
  | @listed key _ dotted entry longest =>
    cases two with
    | @listed other _ dottedOther entryOther longestOther =>
      have same : key = other := dottedPrefix_length dotted dottedOther
        (le_antisymm (longestOther key dotted (by simp [entry])) (longest other dottedOther (by simp [entryOther])))
      rw [same,entryOther] at entry
      exact (Option.some.inj entry).symm
    | unlisted none =>
      rw [none key dotted] at entry
      cases entry
  | unlisted none =>
    cases two with
    | @listed other _ dottedOther entryOther _ =>
      rw [none other dottedOther] at entryOther
      cases entryOther
    | unlisted _ => rfl

theorem baseComplexity_eq : policy.baseComplexity taskType =
    (policy.taskTypeComplexity (firstSegment taskType)).getD policy.defaultComplexity := rfl

/-- Where there is a key at all among the dotted prefixes there is a longest one. -/
theorem exists_longest {some : String} (dotted : DottedPrefix some taskType) (isKey : policy.taskTypeComplexity some ≠ none) :
    ∃ key, DottedPrefix key taskType ∧ policy.taskTypeComplexity key ≠ none ∧
      ∀ other, DottedPrefix other taskType → policy.taskTypeComplexity other ≠ none →
        other.toList.length ≤ key.toList.length := by
  obtain ⟨key,⟨keyDotted,listed⟩,least⟩ := (measure fun key : String => taskType.toList.length - key.toList.length).wf.has_min
    {key | DottedPrefix key taskType ∧ policy.taskTypeComplexity key ≠ none} ⟨some,dotted,isKey⟩
  refine ⟨key,keyDotted,listed,?_⟩
  intro other otherDotted otherKey
  have notLonger : ¬ taskType.toList.length - other.toList.length < taskType.toList.length - key.toList.length :=
    least other ⟨otherDotted,otherKey⟩
  have within := otherDotted.toList.length_le
  omega

/-- The longest key decides exactly when it has one segment, or says what the entry of the
    first segment, or the default, says. -/
theorem longest_decides_iff : LongestMatch policy taskType (policy.baseComplexity taskType) ↔
    ∀ key, Deepest policy taskType key → policy.taskTypeComplexity key =
      some ((policy.taskTypeComplexity (firstSegment taskType)).getD policy.defaultComplexity) := by
  rw [← baseComplexity_eq]
  constructor
  · intro decides key deepest
    obtain ⟨complexity,entry⟩ := Option.ne_none_iff_exists'.mp deepest.isKey
    rw [entry,longestMatch_unique (.listed deepest.dotted entry deepest.longest) decides]
  · intro agrees
    by_cases any : ∃ key, DottedPrefix key taskType ∧ policy.taskTypeComplexity key ≠ none
    · obtain ⟨some,dotted,isKey⟩ := any
      obtain ⟨key,keyDotted,listed,longest⟩ := exists_longest dotted isKey
      by_cases deeper : key = firstSegment taskType
      · obtain ⟨complexity,entry⟩ := Option.ne_none_iff_exists'.mp listed
        have own : policy.baseComplexity taskType = complexity := by
          rw [baseComplexity_eq,← deeper,entry]
          rfl
        rw [own]
        exact .listed keyDotted entry longest
      · exact .listed keyDotted (agrees key ⟨keyDotted,listed,deeper,longest⟩) longest
    · have none : ∀ key, DottedPrefix key taskType → policy.taskTypeComplexity key = none := by
        intro key dotted
        by_contra listed
        exact any ⟨key,dotted,listed⟩
      rw [baseComplexity_eq,none _ (firstSegment_begins taskType)]
      exact .unlisted none

end

/-! ### A specific entry -/

/-- Code generation is moderate, but that of tests is trivial. -/
def layered : RoutingPolicy where
  taskTypeComplexity
    | "codegen" => some .moderate
    | "codegen.tests" => some .trivial
    | _ => none
  priorityWeight := 3/100
  retryEscalation := 15/100

theorem layered_keys {key : String} (isKey : layered.taskTypeComplexity key ≠ none) :
    key = "codegen" ∨ key = "codegen.tests" := by
  by_contra other
  rw [not_or] at other
  exact isKey (by simp [layered,other])

/-- The specific entry is shadowed by the general one. -/
theorem tests_shadowed : LongestMatch layered "codegen.tests.unit" .trivial ∧
    ¬ LongestMatch layered "codegen.tests.unit" (layered.baseComplexity "codegen.tests.unit") := by
  have specific : LongestMatch layered "codegen.tests.unit" .trivial := by
    refine @LongestMatch.listed _ _ "codegen.tests" _ (by decide) rfl ?_
    intro other _ isKey
    rcases layered_keys isKey with rfl | rfl <;> decide
  have own : layered.baseComplexity "codegen.tests.unit" = .moderate := by decide +kernel
  refine ⟨specific,?_⟩
  intro decides
  have same := longestMatch_unique specific decides
  rw [own] at same
  cases same

end Hookclose.ComplexityKeys
