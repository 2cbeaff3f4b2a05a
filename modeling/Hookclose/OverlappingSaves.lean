import Hookclose.Registers
import Hookclose.TemporaryFiles

/-!
Updates that overlap. The file holds a complete state at any time, because it changes only
when a complete temporary file takes its place. But a process may put a state in place that
it has made of an old one, and so undo what others have done: with respect to the state in
the file, the processes are writers that share a register (`Refines`).
-/
namespace Hookclose.OverlappingSaves
open Hookclose.Programs Hookclose.Runs Hookclose.Registers Hookclose.RuntimeStates Hookclose.StateStore Hookclose.StateSaving
open Hookclose.UpdateSteps Hookclose.TemporaryFiles

/-- The state that a process has loaded and not yet replaced. -/
def loadedOf : UpdateAt → Option RuntimeState
  | .saving _ loaded _ _ => some loaded
  | _ => none

/-- The file is a register, and what the processes have loaded are their readings. -/
structure Refines (modelValidateJson : String → Option RuntimeState) (path : String) (s : SharedStore)
    (r : Register RuntimeState Nat Call) : Prop where
  value : stateIn modelValidateJson (s.files path) = .ok r.value
  readings : ∀ process, loadedOf (s.updates process) = r.readings process
  written : s.placed = r.written

/-- What a call makes of the state that it has loaded. -/
abbrev makes (loaded : RuntimeState) (call : Call) : RuntimeState := saved call loaded

/-- The state that a process puts in place is made of the one that the file holds. -/
def Current (modelValidateJson : String → Option RuntimeState) (path : String) (s : SharedStore) : Turn → Prop
  | .begin _ _ => True
  | .go process => ∀ _call ∈ placing (s.updates process), ∀ loaded ∈ loadedOf (s.updates process),
      stateIn modelValidateJson (s.files path) = .ok loaded

instance (modelValidateJson : String → Option RuntimeState) (path : String) (s : SharedStore) :
    DecidablePred (Current modelValidateJson path s)
  | .begin _ _ => .isTrue trivial
  | .go process => inferInstanceAs (Decidable (∀ _call ∈ placing (s.updates process),
      ∀ loaded ∈ loadedOf (s.updates process), stateIn modelValidateJson (s.files path) = .ok loaded))

section
variable {float : String → String × FloatValue} {modelValidateJson : String → Option RuntimeState} {path : String}
  {first : Files} {s : SharedStore} {r : Register RuntimeState Nat Call} {process : Nat} {next : Files × UpdateAt}

/-- A turn after which the process holds what it held, or the state in the file, or nothing. -/
theorem Refines.holding (refines : Refines modelValidateJson path s r) (kept : next.1 path = s.files path)
    (holds : loadedOf next.2 = loadedOf (s.updates process) ∨ loadedOf next.2 = some r.value ∨ loadedOf next.2 = none) :
    ∃ accesses, Refines modelValidateJson path (settle process next none s) (run (access makes) r accesses) ∧
      ∀ writer input, .write writer input ∉ accesses := by
  have held : Refines modelValidateJson path (settle process next none s)
      { r with readings := Function.update r.readings process (loadedOf next.2) } := by
    refine ⟨?_,?_,by simpa using refines.written⟩
    · rw [settle_files,kept]
      exact refines.value
    · intro other
      by_cases same : other = process
      · subst same
        simp
      · simp [settle_other same,same,refines.readings other]
  rcases holds with same | read | dropped
  · rw [same,refines.readings,Function.update_eq_self] at held
    exact ⟨[],held,by simp⟩
  · rw [read] at held
    exact ⟨[.read process],held,by simp⟩
  · rw [dropped] at held
    exact ⟨[.forget process],held,by simp⟩

/-- A turn that puts a state in place. -/
theorem Refines.places (validates : Validates float modelValidateJson) (refines : Refines modelValidateJson path s r)
    {call : Call} {loaded : RuntimeState} (holds : loadedOf (s.updates process) = some loaded)
    (ends : next.2 = .idle) (file : next.1 path = some (content call loaded)) :
    Refines modelValidateJson path (settle process next (some call) s) (access makes r (.write process call)) := by
  have reading : r.readings process = some loaded := by
    rw [← refines.readings,holds]
  simp only [access,reading]
  refine ⟨?_,?_,by simp [refines.written]⟩
  · rw [settle_files,file]
    exact stateIn_payload validates (saved call loaded)
  · intro other
    by_cases same : other = process
    · subst same
      simp [ends,loadedOf]
    · simp [settle_other same,same,refines.readings other]

/-- Where a system call leads keeps what was loaded, or drops it. -/
theorem saving_loaded (call : Call) (loaded : RuntimeState) (step : Step) (buffer : ByteArray) (files : Files) :
    loadedOf (advance modelValidateJson path files (.saving call loaded step buffer)).2 = some loaded ∨
      loadedOf (advance modelValidateJson path files (.saving call loaded step buffer)).2 = none := by
  simp only [advance]
  cases saveStep path call loaded step { files := files, buffer := buffer } with
  | ok _ t => cases step <;> simp [after,loadedOf]
  | error _ t => cases step <;> simp [broken,loadedOf]

/-- What a process holds after a system call that puts nothing in place. -/
theorem advance_loaded (refines : Refines modelValidateJson path s r) :
    let next := advance modelValidateJson path s.files (s.updates process)
    loadedOf next.2 = loadedOf (s.updates process) ∨ loadedOf next.2 = some r.value ∨ loadedOf next.2 = none := by
  cases s.updates process with
  | idle => exact .inl rfl
  | loading call =>
    simp only [advance,refines.value]
    exact .inr (.inl rfl)
  | saving call loaded step buffer =>
    rcases saving_loaded call loaded step buffer s.files with same | dropped
    · exact .inl same
    · exact .inr (.inr dropped)
  | closing call buffer => exact .inl rfl
  | unlinking call => exact .inl rfl

theorem undisturbed_of_harmless {accesses : List (Access Nat Call)} (harmless : ∀ writer input, .write writer input ∉ accesses) :
    Each (access makes) Undisturbed r accesses := by
  intro done a within
  cases a with
  | write writer input => exact absurd (within.subset (by simp)) (harmless writer input)
  | _ => trivial

/-- Each turn is an access to the register, or none. -/
theorem step_refines (validates : Validates float modelValidateJson) (sound : Sound path first s)
    (refines : Refines modelValidateJson path s r) {turn : Turn} (named : Named path s turn) :
    ∃ accesses, Refines modelValidateJson path (step modelValidateJson path s turn) (run (access makes) r accesses) ∧
      (Current modelValidateJson path s turn → Each (access makes) Undisturbed r accesses) := by
  cases turn with
  | begin process call =>
    cases at_ : s.updates process with
    | idle =>
      have holds : loadedOf (begun path call s.files) = loadedOf (s.updates process) ∨
          loadedOf (begun path call s.files) = some r.value ∨ loadedOf (begun path call s.files) = none := by
        have value := refines.value
        unfold begun
        cases there : s.files path with
        | none =>
          rw [there] at value
          have empty : ({} : RuntimeState) = r.value := Except.ok.inj value
          exact .inr (.inl (congrArg some empty))
        | some content => exact .inr (.inr rfl)
      have kept : (s.files,begun path call s.files).1 path = s.files path := rfl
      obtain ⟨accesses,refined,harmless⟩ := refines.holding kept holds
      simp only [step,at_]
      exact ⟨accesses,refined,fun _ => undisturbed_of_harmless harmless⟩
    | _ => exact ⟨[],by simpa only [step,at_,run_nil] using refines,fun _ => each_nil⟩
  | go process =>
    have moved := @go_moved modelValidateJson path first s process sound named
    simp only [step]
    cases places : placing (s.updates process) with
    | none =>
      obtain ⟨accesses,refined,harmless⟩ := refines.holding (moved.kept places) (advance_loaded refines)
      exact ⟨accesses,refined,fun _ => undisturbed_of_harmless harmless⟩
    | some call =>
      obtain ⟨loaded,buffer,at_,ends,file⟩ := moved.placed call places
      have holds : loadedOf (s.updates process) = some loaded := by
        rw [at_]
        rfl
      refine ⟨[.write process call],refines.places validates holds ends file,?_⟩
      intro current
      refine each_cons.mpr ⟨?_,each_nil⟩
      intro reading read
      rw [← refines.readings] at read
      have same := current call places reading read
      rw [refines.value] at same
      exact (Except.ok.inj same).symm

/-- A run of turns is a run of accesses. -/
theorem run_refines (validates : Validates float modelValidateJson) {turns : List Turn} :
    ∀ {s : SharedStore} {r : Register RuntimeState Nat Call}, Sound path first s → Refines modelValidateJson path s r →
      Each (step modelValidateJson path) (Named path) s turns →
        ∃ accesses, Refines modelValidateJson path (run (step modelValidateJson path) s turns) (run (access makes) r accesses) ∧
          (Each (step modelValidateJson path) (Current modelValidateJson path) s turns →
            Each (access makes) Undisturbed r accesses) := by
  induction turns with
  | nil =>
    intro s r _ refines _
    exact ⟨[],refines,fun _ => each_nil⟩
  | cons turn turns ih =>
    intro s r sound refines named
    obtain ⟨now,later⟩ := each_cons.mp named
    obtain ⟨accesses,refined,alone⟩ := step_refines validates sound refines now
    obtain ⟨more,ends,undisturbed⟩ := ih (step_sound sound now) refined later
    refine ⟨accesses ++ more,by rwa [run_append],?_⟩
    intro current
    obtain ⟨own,others⟩ := each_cons.mp current
    exact each_append.mpr ⟨alone own,undisturbed others⟩

end

/-- No process has begun, and the file holds a state, or is not there. -/
structure Fresh (modelValidateJson : String → Option RuntimeState) (path : String) (state : RuntimeState)
    (s : SharedStore) : Prop where
  idle : ∀ process, s.updates process = .idle
  placed : s.placed = []
  held : stateIn modelValidateJson (s.files path) = .ok state

section
variable {float : String → String × FloatValue} {modelValidateJson : String → Option RuntimeState} {path : String}
  {state : RuntimeState} {first : SharedStore}

theorem Fresh.sound (fresh : Fresh modelValidateJson path state first) : Sound path first.files first := by
  constructor
  · intro process
    rw [fresh.idle]
    trivial
  · intro process name owns
    rw [fresh.idle] at owns
    cases owns
  · intro process other name owns
    rw [fresh.idle] at owns
    cases owns
  · intro file _
    exact .inl rfl

theorem Fresh.refines (fresh : Fresh modelValidateJson path state first) :
    Refines modelValidateJson path first ⟨state,fun _ => none,[]⟩ := by
  refine ⟨fresh.held,?_,fresh.placed⟩
  intro process
  rw [fresh.idle]
  rfl

/-- However the updates of any number of processes interleave, whatever they raise and
    wherever they stop, the file holds a complete state at any time: the one that some of the
    calls that have placed theirs make of the first state, one after the other, with the last
    of them. Every other file is as it was, but for the temporary files of processes at work. -/
theorem updates_kept (validates : Validates float modelValidateJson) (fresh : Fresh modelValidateJson path state first)
    {turns : List Turn} (named : Each (step modelValidateJson path) (Named path) first turns) :
    Always (step modelValidateJson path) (fun s =>
      (∃ value, stateIn modelValidateJson (s.files path) = .ok value ∧ MadeLast makes state s.placed value) ∧
        ∀ file ≠ path, s.files file = first.files file ∨ ∃ process, tmpOf (s.updates process) = some file) first turns := by
  rintro done ⟨rest,rfl⟩
  have begins : Each (step modelValidateJson path) (Named path) first done := (each_append.mp named).1
  obtain ⟨accesses,refined,_⟩ := run_refines validates fresh.sound fresh.refines begins
  have start : Kept makes state (⟨state,fun _ => none,[]⟩ : Register RuntimeState Nat Call) :=
    ⟨⟨[],List.Sublist.refl [],rfl,rfl⟩,by simp⟩
  have made := (run_kept start accesses).value
  rw [← refined.written] at made
  have sound : Sound path first.files (run (step modelValidateJson path) first done) :=
    (always_of_each (Sound path first.files) (Named path) (fun _ _ sound named => step_sound sound named) fresh.sound begins).last
  exact ⟨⟨_,refined.value,made⟩,sound.rest⟩

/-- Where each process puts in place what it has made of the state that the file holds, the
    file has the effects of all calls that have placed their state, and of no others. -/
theorem updates_all (validates : Validates float modelValidateJson) (fresh : Fresh modelValidateJson path state first)
    {turns : List Turn} (named : Each (step modelValidateJson path) (Named path) first turns)
    (current : Each (step modelValidateJson path) (Current modelValidateJson path) first turns) :
    Always (step modelValidateJson path) (fun s =>
      stateIn modelValidateJson (s.files path) = .ok (run makes state s.placed)) first turns := by
  rintro done ⟨rest,rfl⟩
  obtain ⟨accesses,refined,alone⟩ := run_refines validates fresh.sound fresh.refines (each_append.mp named).1
  have all := run_all (r := (⟨state,fun _ => none,[]⟩ : Register RuntimeState Nat Call)) rfl
    (alone (each_append.mp current).1)
  rw [refined.value,all,refined.written]

end

/-- A call that records a prompt as completed, with a temporary file of this name. -/
def completing (prompt : Int) (tmpName : String) (raises : Step → Bool) : Call where
  host := { machine raises with tmpName := tmpName }
  mutate := fun state => state.markCompleted prompt

/-- Two processes record a prompt at the same time, while a third stops after it has written. -/
def atOnce : List Turn :=
  [.begin 0 (completing 1 "repo/.a.tmp" (fun _ => false)),.begin 1 (completing 2 "repo/.b.tmp" (fun _ => false)),
    .begin 2 (completing 3 "repo/.c.tmp" (fun _ => false))] ++
    List.replicate 5 (.go 2) ++ List.replicate 9 (.go 0) ++ List.replicate 9 (.go 1)

theorem atOnce_kept :
    Always (step (validateDeclared (fun text => (text,.nan))) "repo/SYSTEM_STATE.json") (fun s =>
      (∃ value, stateIn (validateDeclared (fun text => (text,.nan))) (s.files "repo/SYSTEM_STATE.json") = .ok value ∧
        MadeLast makes {} s.placed value) ∧
        ∀ file ≠ "repo/SYSTEM_STATE.json", s.files file = none ∨ ∃ process, tmpOf (s.updates process) = some file)
      { files := fun _ => none } atOnce := by
  have fresh : Fresh (validateDeclared (fun text => (text,.nan))) "repo/SYSTEM_STATE.json" {} { files := fun _ => none } :=
    ⟨fun _ => rfl,rfl,rfl⟩
  exact updates_kept (validateDeclared_validates _) fresh (by decide)

/-- The second of two processes cannot synchronize its file, while the first goes on. -/
def oneFails : List Turn :=
  [.begin 0 (completing 1 "repo/.a.tmp" (fun _ => false)),
    .begin 1 (completing 2 "repo/.b.tmp" (fun step => step = .fsync))] ++
    List.replicate 7 (.go 1) ++ List.replicate 9 (.go 0) ++ List.replicate 2 (.go 1)

theorem oneFails_all :
    Always (step (validateDeclared (fun text => (text,.nan))) "repo/SYSTEM_STATE.json") (fun s =>
      stateIn (validateDeclared (fun text => (text,.nan))) (s.files "repo/SYSTEM_STATE.json") = .ok (run makes {} s.placed))
      { files := fun _ => none } oneFails := by
  have fresh : Fresh (validateDeclared (fun text => (text,.nan))) "repo/SYSTEM_STATE.json" {} { files := fun _ => none } :=
    ⟨fun _ => rfl,rfl,rfl⟩
  exact updates_all (validateDeclared_validates _) fresh (by decide) (by decide)

end Hookclose.OverlappingSaves
