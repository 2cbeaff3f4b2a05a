import Hookclose.Runs
import Mathlib.Logic.Function.Basic

/-!
A register that several writers share without a lock. A writer reads the register and
later writes what it makes of its reading, whatever has been written in between, so a
write can undo others. Still the value is always what some of the writes make of the first
value, one after the other, and the last write is among them (`run_kept`). Where each
writer writes only over the value that it has read, none is undone (`run_all`).
-/
namespace Hookclose.Registers
open Hookclose.Runs
universe u v w
variable {Value : Type u} {Writer : Type v} {Input : Type w} [DecidableEq Writer] {change : Value → Input → Value}

/-- The value, what each writer has read and not yet used, and what has been written. -/
structure Register (Value : Type u) (Writer : Type v) (Input : Type w) where
  value : Value
  readings : Writer → Option Value
  written : List Input

inductive Access (Writer : Type v) (Input : Type w)
  | read (writer : Writer)
  | write (writer : Writer) (input : Input)
  | forget (writer : Writer)

def access (change : Value → Input → Value) (r : Register Value Writer Input) : Access Writer Input → Register Value Writer Input
  | .read writer => { r with readings := Function.update r.readings writer (some r.value) }
  | .write writer input =>
    match r.readings writer with
    | some reading => ⟨change reading input,Function.update r.readings writer none,r.written ++ [input]⟩
    | none => r
  | .forget writer => { r with readings := Function.update r.readings writer none }

/-- The value is what some of the writes make of the first value, in their order. -/
def Made (change : Value → Input → Value) (first : Value) (written : List Input) (value : Value) : Prop :=
  ∃ kept, kept.Sublist written ∧ run change first kept = value

/-- The last write, if there is one, is among those that have made the value. -/
def MadeLast (change : Value → Input → Value) (first : Value) (written : List Input) (value : Value) : Prop :=
  ∃ kept, kept.Sublist written ∧ kept.getLast? = written.getLast? ∧ run change first kept = value

/-- Each value at hand has been made by writes. -/
structure Kept (change : Value → Input → Value) (first : Value) (r : Register Value Writer Input) : Prop where
  value : MadeLast change first r.written r.value
  readings : ∀ writer reading, r.readings writer = some reading → Made change first r.written reading

/-- A write over the value that the writer has read. -/
def Undisturbed (r : Register Value Writer Input) : Access Writer Input → Prop
  | .write writer _ => ∀ reading, r.readings writer = some reading → reading = r.value
  | _ => True

section
variable {first value : Value} {written : List Input} {r : Register Value Writer Input}

theorem MadeLast.made (made : MadeLast change first written value) : Made change first written value := by
  obtain ⟨kept,within,_,runs⟩ := made
  exact ⟨kept,within,runs⟩

theorem Made.later (made : Made change first written value) (input : Input) :
    Made change first (written ++ [input]) value := by
  obtain ⟨kept,within,runs⟩ := made
  exact ⟨kept,within.trans (List.sublist_append_left written [input]),runs⟩

theorem Made.write (made : Made change first written value) (input : Input) :
    MadeLast change first (written ++ [input]) (change value input) := by
  obtain ⟨kept,within,rfl⟩ := made
  refine ⟨kept ++ [input],within.append (List.Sublist.refl _),?_,run_concat first kept input⟩
  simp

/-- What a writer holds after one of its accesses. -/
theorem Kept.hold {writer : Writer} {held : Option Value}
    (readings : ∀ other reading, r.readings other = some reading → Made change first written reading)
    (own : ∀ reading, held = some reading → Made change first written reading) :
    ∀ other reading, Function.update r.readings writer held other = some reading → Made change first written reading := by
  intro other reading holds
  by_cases same : other = writer
  · subst same
    rw [Function.update_self] at holds
    exact own reading holds
  · rw [Function.update_of_ne same] at holds
    exact readings other reading holds

theorem access_kept (kept : Kept change first r) (a : Access Writer Input) : Kept change first (access change r a) := by
  cases a with
  | read writer =>
    refine ⟨kept.value,Kept.hold kept.readings ?_⟩
    intro reading same
    cases same
    exact kept.value.made
  | forget writer => exact ⟨kept.value,Kept.hold kept.readings (by simp)⟩
  | write writer input =>
    cases holds : r.readings writer with
    | none => simpa [access,holds] using kept
    | some reading =>
      simp only [access,holds]
      have made : Made change first r.written reading := kept.readings writer reading holds
      refine ⟨made.write input,Kept.hold ?_ (by simp)⟩
      intro other earlier found
      exact (kept.readings other earlier found).later input

/-- However the accesses interleave, the value is what some of the writes make of the first
    one, with the last write among them. -/
theorem run_kept (kept : Kept change first r) (accesses : List (Access Writer Input)) :
    Kept change first (run (access change) r accesses) :=
  (always_of_step (Kept change first) (fun _ a holds => access_kept holds a) kept accesses).last

theorem access_all (all : r.value = run change first r.written) {a : Access Writer Input} (alone : Undisturbed r a) :
    (access change r a).value = run change first (access change r a).written := by
  cases a with
  | read writer => exact all
  | forget writer => exact all
  | write writer input =>
    cases holds : r.readings writer with
    | none => simpa [access,holds] using all
    | some reading =>
      simp only [access,holds]
      rw [run_concat,← all,alone reading holds]

/-- Where each write is one over the value that was read, the value is what all of them make
    of the first one. -/
theorem run_all (all : r.value = run change first r.written) {accesses : List (Access Writer Input)}
    (alone : Each (access change) Undisturbed r accesses) :
    (run (access change) r accesses).value = run change first (run (access change) r accesses).written :=
  (always_of_each (fun r => r.value = run change first r.written) Undisturbed (fun _ _ all alone => access_all all alone)
    all alone).last

end

end Hookclose.Registers
