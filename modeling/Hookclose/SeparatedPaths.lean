import Mathlib.Data.List.Basic
import Mathlib.Data.List.Infix

/-!
Paths as lists of parts, written with a separator before each part. The text of one path
begins with the text of another exactly when the other's parts come first, or all but its
last do and its last part is the beginning of a longer one (`render_prefix_iff`).
-/
namespace Hookclose.SeparatedPaths
universe u
variable {α : Type u} {separator : α}

/-- The parts with the separator before each. -/
def spell (separator : α) (parts : List (List α)) : List α := parts.flatMap (fun part => separator :: part)

/-- The text of a path; the separator alone is the path without parts. -/
def render (separator : α) (parts : List (List α)) : List α := separator :: [separator].intercalate parts

/-- A part that a text shows as it is. -/
structure Plain (separator : α) (part : List α) : Prop where
  nonempty : part ≠ []
  free : separator ∉ part

/-- The path goes past the root at its last part, which it continues. -/
def Extends (root path : List (List α)) : Prop :=
  ∃ start last extra rest, root = start ++ [last] ∧ extra ≠ [] ∧ path = start ++ (last ++ extra) :: rest

@[simp] theorem spell_nil : spell separator [] = [] := rfl

@[simp] theorem spell_cons (part : List α) (parts : List (List α)) :
    spell separator (part :: parts) = separator :: (part ++ spell separator parts) := rfl

theorem spell_append (first second : List (List α)) :
    spell separator (first ++ second) = spell separator first ++ spell separator second := List.flatMap_append

theorem render_eq_spell {parts : List (List α)} (filled : parts ≠ []) : render separator parts = spell separator parts := by
  induction parts with
  | nil => exact absurd rfl filled
  | cons part rest ih =>
    cases rest with
    | nil => simp [render]
    | cons next rest =>
      have later := ih (List.cons_ne_nil next rest)
      simp only [render] at later ⊢
      rw [List.intercalate_cons_cons,spell_cons,← later]
      simp

/-! ### Prefixes -/

theorem extends_not_prefix {root path : List (List α)} (beyond : Extends root path) : ¬ root <+: path := by
  obtain ⟨start,last,extra,rest,rfl,more,rfl⟩ := beyond
  intro inside
  rw [List.prefix_append_right_inj,List.cons_prefix_cons] at inside
  exact more (List.self_eq_append_right.mp inside.1)

theorem extends_cons {part : List α} {root path : List (List α)} (filled : root ≠ []) :
    Extends (part :: root) (part :: path) ↔ Extends root path := by
  constructor
  · rintro ⟨start,last,extra,rest,same,more,equal⟩
    cases start with
    | nil =>
      rw [List.nil_append,List.cons.injEq] at same
      exact absurd same.2 filled
    | cons head start =>
      rw [List.cons_append,List.cons.injEq] at same equal
      exact ⟨start,last,extra,rest,same.2,more,equal.2⟩
  · rintro ⟨start,last,extra,rest,rfl,more,rfl⟩
    exact ⟨part :: start,last,extra,rest,rfl,more,rfl⟩

theorem extends_head {part next : List α} {root path : List (List α)} (filled : root ≠ []) (differ : part ≠ next) :
    ¬ Extends (part :: root) (next :: path) := by
  rintro ⟨start,last,extra,rest,same,_,equal⟩
  cases start with
  | nil =>
    rw [List.nil_append,List.cons.injEq] at same
    exact filled same.2
  | cons head start =>
    rw [List.cons_append,List.cons.injEq] at same equal
    exact differ (same.1.trans equal.1.symm)

/-- A text ends or goes on with a separator. -/
theorem spell_head (parts : List (List α)) :
    spell separator parts = [] ∨ ∃ rest, spell separator parts = separator :: rest := by
  cases parts with
  | nil => exact .inl rfl
  | cons part rest => exact .inr ⟨_,rfl⟩

/-- A part at the end of a text is the beginning of a part. -/
theorem part_before {part other ending : List α} (free : separator ∉ part)
    (ends : ending = [] ∨ ∃ later, ending = separator :: later) : part <+: other ++ ending ↔ part <+: other := by
  constructor
  · intro begins
    rcases Nat.le_total part.length other.length with short | long
    · exact List.prefix_of_prefix_length_le begins (List.prefix_append other ending) short
    · obtain ⟨extra,rfl⟩ := List.prefix_of_prefix_length_le (List.prefix_append other ending) begins long
      rw [List.prefix_append_right_inj] at begins
      rcases ends with rfl | ⟨later,rfl⟩
      · rw [List.prefix_nil.mp begins]
        simp
      · cases extra with
        | nil => simp
        | cons c extra =>
          rw [List.cons_prefix_cons] at begins
          exact absurd (by simp [begins.1]) free
  · intro begins
    exact begins.trans (List.prefix_append other ending)

section
variable [DecidableEq α]

/-- What stands before the first separator. -/
theorem takeWhile_part {part : List α} (free : separator ∉ part) {rest : List α}
    (ends : rest = [] ∨ ∃ later, rest = separator :: later) :
    (part ++ rest).takeWhile (fun c => c ≠ separator) = part := by
  have whole : ∀ c ∈ part, decide (c ≠ separator) = true := by
    intro c member
    exact decide_eq_true (fun same => free (same ▸ member))
  rw [List.takeWhile_append_of_pos whole]
  rcases ends with rfl | ⟨later,rfl⟩ <;> simp

/-- A part that a separator follows is the first part of any text that begins with it. -/
theorem part_eq {part other rest ending : List α} (free : separator ∉ part) (otherFree : separator ∉ other)
    (ends : ending = [] ∨ ∃ later, ending = separator :: later)
    (begins : part ++ separator :: rest <+: other ++ ending) : part = other := by
  obtain ⟨more,equal⟩ := begins
  have first : (part ++ separator :: (rest ++ more)).takeWhile (fun c => c ≠ separator) = part :=
    takeWhile_part free (.inr ⟨rest ++ more,rfl⟩)
  have second : (other ++ ending).takeWhile (fun c => c ≠ separator) = other := takeWhile_part otherFree ends
  rw [← first,← second,← equal,List.append_assoc,List.cons_append]

theorem spell_prefix_iff {root path : List (List α)} (rootPlain : ∀ part ∈ root, Plain separator part)
    (pathPlain : ∀ part ∈ path, Plain separator part) :
    spell separator root <+: spell separator path ↔ root <+: path ∨ Extends root path := by
  induction root generalizing path with
  | nil => simp
  | cons part root ih =>
    cases path with
    | nil => simp [Extends]
    | cons next path =>
      rw [List.forall_mem_cons] at rootPlain pathPlain
      rw [spell_cons,spell_cons,List.cons_prefix_cons,and_iff_right rfl,List.cons_prefix_cons]
      cases root with
      | nil =>
        rw [spell_nil,List.append_nil,part_before rootPlain.1.free (spell_head path)]
        constructor
        · rintro ⟨extra,rfl⟩
          by_cases same : extra = []
          · exact .inl ⟨by simp [same],List.nil_prefix⟩
          · exact .inr ⟨[],part,extra,path,rfl,same,rfl⟩
        · rintro (⟨rfl,_⟩ | ⟨start,last,extra,rest,same,_,equal⟩)
          · exact List.prefix_rfl
          · cases start with
            | nil =>
              simp only [List.nil_append,List.cons.injEq,and_true] at same equal
              rw [same,equal.1]
              exact List.prefix_append last extra
            | cons head start => simp at same
      | cons second root =>
        have filled : second :: root ≠ [] := List.cons_ne_nil second root
        by_cases equal : part = next
        · subst equal
          rw [List.prefix_append_right_inj,ih rootPlain.2 pathPlain.2,extends_cons filled,and_iff_right rfl]
        · constructor
          · intro begins
            exact absurd (part_eq rootPlain.1.free pathPlain.1.free (spell_head path) begins) equal
          · rintro (⟨contrary,_⟩ | beyond)
            · exact absurd contrary equal
            · exact absurd beyond (extends_head filled equal)

/-- What the comparison of texts says about paths. -/
theorem render_prefix_iff {root path : List (List α)} (rootPlain : ∀ part ∈ root, Plain separator part)
    (pathPlain : ∀ part ∈ path, Plain separator part) :
    render separator root <+: render separator path ↔ root <+: path ∨ Extends root path := by
  by_cases top : root = []
  · subst top
    simp [render]
  · rw [render_eq_spell top]
    by_cases none : path = []
    · subst none
      cases root with
      | nil => exact absurd rfl top
      | cons part root =>
        have nonempty := (rootPlain part List.mem_cons_self).nonempty
        simp [render,Extends,nonempty]
    · rw [render_eq_spell none]
      exact spell_prefix_iff rootPlain pathPlain

/-! ### Texts taken apart -/

/-- The parts between separators; a text begins with an empty one. -/
theorem splitOn_render {parts : List (List α)} (filled : parts ≠ []) (plain : ∀ part ∈ parts, Plain separator part) :
    (render separator parts).splitOn separator = [] :: parts := by
  have free : ∀ part ∈ parts, separator ∉ part := fun part member => (plain part member).free
  have split : ([] ++ separator :: [separator].intercalate parts).splitOn separator =
      [] :: ([separator].intercalate parts).splitOn separator :=
    List.splitOn_append_cons_self_of_not_mem (by simp) _
  rw [List.nil_append] at split
  rw [render,split,List.splitOn_intercalate separator free filled]

theorem splitOn_free (text : List α) : ∀ part ∈ text.splitOn separator, separator ∉ part := by
  induction text with
  | nil => simp
  | cons c text ih =>
    rw [List.splitOn_cons_eq_if_modifyHead]
    split_ifs with same
    · rw [List.forall_mem_cons]
      exact ⟨by simp,ih⟩
    · have differs : separator ≠ c := by
        intro equal
        exact same (by simp [equal])
      cases parts : text.splitOn separator with
      | nil => simp
      | cons part rest =>
        rw [parts,List.forall_mem_cons] at ih
        rw [List.modifyHead_cons,List.forall_mem_cons]
        exact ⟨by simp [differs,ih.1],ih.2⟩

/-- The text up to the last separator. -/
theorem dropWhile_last (parts : List (List α)) {last : List α} (plain : Plain separator last) :
    ((spell separator (parts ++ [last])).reverse.dropWhile (fun c => c ≠ separator)).drop 1 =
      (spell separator parts).reverse := by
  have whole : ∀ c ∈ last.reverse, decide (c ≠ separator) = true := by
    intro c member
    exact decide_eq_true (fun same => plain.free (same ▸ List.mem_reverse.mp member))
  rw [spell_append,spell_cons,spell_nil,List.append_nil,List.reverse_append,List.reverse_cons,List.append_assoc,
    List.dropWhile_append_of_pos whole]
  simp

end

end Hookclose.SeparatedPaths
