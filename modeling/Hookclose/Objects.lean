import Mathlib.Logic.Function.Basic

/-!
Mutable objects behind references. A memory hands out a new
reference for every object it is given. `Kept` says that a memory has grown and changed
no object of another, `Names` that a family of references stands for a family of values:
no two of them share an object, so that a change through one is seen by no other.
-/
namespace Hookclose.Objects

/-- The objects that there are, by reference; those from `next` on are still to come. -/
structure Memory (α : Type) where
  next : Nat
  content : Nat → α

variable {α ι : Type}

/-- A new object, and its reference. -/
def Memory.alloc (m : Memory α) (value : α) : Nat × Memory α :=
  (m.next,{ next := m.next + 1, content := Function.update m.content m.next value })

/-- An object takes another value. -/
def Memory.write (m : Memory α) (ref : Nat) (value : α) : Memory α :=
  { m with content := Function.update m.content ref value }

@[simp] theorem alloc_ref (m : Memory α) (value : α) : (m.alloc value).1 = m.next := rfl

@[simp] theorem alloc_next (m : Memory α) (value : α) : (m.alloc value).2.next = m.next + 1 := rfl

@[simp] theorem alloc_self (m : Memory α) (value : α) : (m.alloc value).2.content m.next = value := by
  simp [Memory.alloc]

@[simp] theorem write_next (m : Memory α) (ref : Nat) (value : α) : (m.write ref value).next = m.next := rfl

@[simp] theorem write_self (m : Memory α) (ref : Nat) (value : α) : (m.write ref value).content ref = value := by
  simp [Memory.write]

theorem write_other {ref other : Nat} (apart : other ≠ ref) (m : Memory α) (value : α) :
    (m.write ref value).content other = m.content other := by
  simp [Memory.write,apart]

/-! ### Growth -/

/-- What was there is still there as it was. -/
structure Kept (before after : Memory α) : Prop where
  grown : before.next ≤ after.next
  same : ∀ ref, ref < before.next → after.content ref = before.content ref

theorem Kept.refl (m : Memory α) : Kept m m := ⟨Nat.le_refl _,fun _ _ => rfl⟩

theorem Kept.trans {first second third : Memory α} (one : Kept first second) (two : Kept second third) :
    Kept first third := by
  refine ⟨Nat.le_trans one.grown two.grown,?_⟩
  intro ref old
  rw [two.same ref (Nat.lt_of_lt_of_le old one.grown),one.same ref old]

theorem kept_alloc (m : Memory α) (value : α) : Kept m (m.alloc value).2 := by
  refine ⟨by simp,?_⟩
  intro ref old
  have apart : ref ≠ m.next := by omega
  simp [Memory.alloc,apart]

/-- An object of the later memory that the earlier one did not have. -/
def New (before after : Memory α) (ref : Nat) : Prop := before.next ≤ ref ∧ ref < after.next

theorem new_alloc (m : Memory α) (value : α) : New m (m.alloc value).2 m.next := ⟨Nat.le_refl _,by simp⟩

theorem New.later {first second third : Memory α} {ref : Nat} (fresh : New first second ref) (kept : Kept second third) :
    New first third ref := ⟨fresh.1,Nat.lt_of_lt_of_le fresh.2 kept.grown⟩

theorem New.earlier {first second third : Memory α} {ref : Nat} (kept : Kept first second) (fresh : New second third ref) :
    New first third ref := ⟨Nat.le_trans kept.grown fresh.1,fresh.2⟩

/-! ### References that share no object -/

/-- These references are the only ones among them to the objects that they name, and these
    hold the given values. -/
structure Names (m : Memory α) (refs : ι → Option Nat) (values : ι → Option α) : Prop where
  known : ∀ i ref, refs i = some ref → ref < m.next
  apart : ∀ i j ref, refs i = some ref → refs j = some ref → i = j
  holds : ∀ i, (refs i).map m.content = values i

theorem Names.value {m : Memory α} {refs : ι → Option Nat} {values : ι → Option α} (names : Names m refs values)
    {i : ι} {ref : Nat} (found : refs i = some ref) : values i = some (m.content ref) := by
  rw [← names.holds i,found]
  rfl

theorem Names.absent {m : Memory α} {refs : ι → Option Nat} {values : ι → Option α} (names : Names m refs values)
    {i : ι} (missing : refs i = none) : values i = none := by
  rw [← names.holds i,missing]
  rfl

theorem Names.kept {before after : Memory α} {refs : ι → Option Nat} {values : ι → Option α}
    (names : Names before refs values) (kept : Kept before after) : Names after refs values := by
  refine ⟨fun i ref found => Nat.lt_of_lt_of_le (names.known i ref found) kept.grown,names.apart,?_⟩
  intro i
  rw [← names.holds i]
  cases found : refs i with
  | none => rfl
  | some ref => rw [Option.map_some,Option.map_some,kept.same ref (names.known i ref found)]

/-- A change through one reference changes that one's value and no other. -/
theorem Names.write [DecidableEq ι] {m : Memory α} {refs : ι → Option Nat} {values : ι → Option α}
    (names : Names m refs values) {i : ι} {ref : Nat} (found : refs i = some ref) (value : α) :
    Names (m.write ref value) refs (Function.update values i (some value)) := by
  refine ⟨names.known,names.apart,?_⟩
  intro j
  by_cases same : j = i
  · rw [same,found,Function.update_self]
    simp
  · rw [Function.update_of_ne same,← names.holds j]
    cases other : refs j with
    | none => rfl
    | some next =>
      have distinct : next ≠ ref := by
        rintro rfl
        exact same (names.apart j i next other found)
      rw [Option.map_some,Option.map_some,write_other distinct]

/-- New objects get new names; a name that is given again stands for the new object. -/
theorem Names.extend {before after : Memory α} {refs added : ι → Option Nat} {values : ι → Option α}
    (names : Names before refs values) (kept : Kept before after)
    (fresh : ∀ i ref, added i = some ref → New before after ref)
    (apart : ∀ i j ref, added i = some ref → added j = some ref → i = j) :
    Names after (fun i => (added i).or (refs i)) (fun i => ((added i).map after.content).or (values i)) := by
  refine ⟨?_,?_,?_⟩
  · intro i ref found
    rcases Option.or_eq_some_iff.mp found with new | ⟨_,old⟩
    · exact (fresh i ref new).2
    · exact Nat.lt_of_lt_of_le (names.known i ref old) kept.grown
  · intro i j ref first second
    rcases Option.or_eq_some_iff.mp first with new | ⟨_,old⟩
    · rcases Option.or_eq_some_iff.mp second with other | ⟨_,other⟩
      · exact apart i j ref new other
      · have late := (fresh i ref new).1
        have early := names.known j ref other
        omega
    · rcases Option.or_eq_some_iff.mp second with other | ⟨_,other⟩
      · have late := (fresh j ref other).1
        have early := names.known i ref old
        omega
      · exact names.apart i j ref old other
  · intro i
    rw [← (names.kept kept).holds i]
    cases added i <;> simp

end Hookclose.Objects
