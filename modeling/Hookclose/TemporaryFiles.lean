import Hookclose.UpdateSteps

/-!
The temporary files of updates that overlap. Each process has one of its own, which no other
touches, from `mkstemp` on until it is put in place or removed; it holds what the process
has written so far. Every other file but the one that is updated stays as it is (`Sound`).
-/
namespace Hookclose.TemporaryFiles
open Hookclose.Programs Hookclose.Runs Hookclose.RuntimeStates Hookclose.StateStore Hookclose.StateSaving Hookclose.UpdateSteps

/-- The temporary file that a process has made and not removed. -/
def tmpOf : UpdateAt → Option String
  | .saving _ _ .dumps _ => none
  | .saving _ _ .mkdir _ => none
  | .saving _ _ .mkstemp _ => none
  | .saving call _ _ _ => some call.host.tmpName
  | .closing call _ => some call.host.tmpName
  | .unlinking call => some call.host.tmpName
  | _ => none

/-- The text of a call. -/
def content (call : Call) (loaded : RuntimeState) : ByteArray := (payload (saved call loaded)).toUTF8

/-- What has been written so far. -/
def Written (files : Files) : UpdateAt → Prop
  | .saving _ _ .dumps _ => True
  | .saving _ _ .mkdir _ => True
  | .saving _ _ .mkstemp _ => True
  | .saving call _ .fdopen buffer => Created call.host.tmpName { files, buffer }
  | .saving call _ .write buffer => Complete call.host.tmpName .empty { files, buffer }
  | .saving call loaded .flush buffer => Buffered call.host.tmpName (content call loaded) { files, buffer }
  | .saving call loaded _ buffer => Complete call.host.tmpName (content call loaded) { files, buffer }
  | _ => True

/-- What a system call of a process changes, and what it leaves as it is. -/
structure Moved (path : String) (files : Files) (place : UpdateAt) (next : Files × UpdateAt) : Prop where
  written : Written next.1 next.2
  held : ∀ name, tmpOf next.2 = some name → (next.1 name).isSome ∧ (tmpOf place = some name ∨ NewName files path name)
  cleared : ∀ name, tmpOf place = some name → tmpOf next.2 ≠ some name → next.1 name = none
  others : ∀ file ≠ path, tmpOf place ≠ some file → tmpOf next.2 ≠ some file → next.1 file = files file
  kept : placing place = none → next.1 path = files path
  placed : ∀ call, placing place = some call → ∃ loaded buffer, place = .saving call loaded .replace buffer ∧
    next.2 = .idle ∧ next.1 path = some (content call loaded)

section
variable {modelValidateJson : String → Option RuntimeState} {path name : String} {files files' : Files} {place place' : UpdateAt}
  {call : Call} {loaded : RuntimeState} {buffer : ByteArray}

/-- A system call that touches no file. -/
theorem Moved.still (before : tmpOf place = none) (after : tmpOf place' = none) (places : placing place = none) :
    Moved path files place (files,place') where
  written := by
    unfold Written
    unfold tmpOf at after
    split at after <;> simp_all
  held := by simp [after]
  cleared := by simp [before]
  others := fun _ _ _ _ => rfl
  kept := fun _ => rfl
  placed := by simp [places]

/-- A system call that touches the temporary file at most, which stays. -/
theorem Moved.works (other : name ≠ path) (before : tmpOf place = some name) (after : tmpOf place' = some name)
    (places : placing place = none) (exist : (files' name).isSome) (others : ∀ file ≠ name, files' file = files file)
    (written : Written files' place') : Moved path files place (files',place') where
  written := written
  held := by
    intro file same
    rw [after] at same
    cases same
    exact ⟨exist,.inl before⟩
  cleared := by
    intro file same gone
    rw [before,← after] at same
    exact absurd same gone
  others := by
    intro file _ apart _
    apply others
    intro same
    rw [same] at apart
    exact apart before
  kept := fun _ => others path other.symm
  placed := by simp [places]

theorem advance_saving {next : Step} {failed done : Disk → Disk}
    (same : saveStep path call loaded next = perform call.host next failed done) :
    advance modelValidateJson path files (.saving call loaded next buffer) =
      if call.host.raises next then
        ((failed { files, buffer }).files,broken call (failed { files, buffer }).buffer next)
      else ((done { files, buffer }).files,after call loaded (done { files, buffer }).buffer next) := by
  simp only [advance,same,perform]
  cases call.host.raises next <;> rfl

/-- A system call that removes the temporary file. -/
theorem Moved.removes (other : name ≠ path) (before : tmpOf place = some name) (places : placing place = none)
    (gone : files' name = none) (others : ∀ file ≠ name, files' file = files file) :
    Moved path files place (files',.idle) where
  written := trivial
  held := by simp [tmpOf]
  cleared := by
    intro file same _
    rw [before] at same
    cases same
    exact gone
  others := by
    intro file _ apart _
    apply others
    intro same
    rw [same] at apart
    exact apart before
  kept := fun _ => others path other.symm
  placed := by simp [places]

/-- What a step on the temporary file does to it: no other file changes, and it stays. -/
structure Works (name : String) (change : Disk → Disk) : Prop where
  confined : Confined name change
  exist : ∀ s : Disk, (s.files name).isSome → ((change s).files name).isSome

theorem works_id : Works name id := ⟨confined_id,fun _ exist => exist⟩

theorem works_drain (count : Disk → Nat) : Works name (fun s => drain name (count s) s) :=
  ⟨confined_drain count,fun s exist => by simpa [drain] using exist⟩

/-- A step on the temporary file. -/
theorem saving_works {next : Step} {failed done : Disk → Disk}
    (same : saveStep path call loaded next = perform call.host next failed done) (other : call.host.tmpName ≠ path)
    (exist : (files call.host.tmpName).isSome)
    (own : tmpOf (.saving call loaded next buffer) = some call.host.tmpName)
    (places : placing (.saving call loaded next buffer) = none)
    (fails : Works call.host.tmpName failed) (does : Works call.host.tmpName done)
    (breaks : ∀ buffer, tmpOf (broken call buffer next) = some call.host.tmpName ∧ ∀ files, Written files (broken call buffer next))
    (goes : ∀ buffer, tmpOf (after call loaded buffer next) = some call.host.tmpName)
    (written : Written (done { files, buffer }).files (after call loaded (done { files, buffer }).buffer next)) :
    Moved path files (.saving call loaded next buffer)
      (advance modelValidateJson path files (.saving call loaded next buffer)) := by
  rw [advance_saving same]
  cases call.host.raises next with
  | true =>
    exact .works other own (breaks _).1 places (fails.exist { files, buffer } exist)
      (fails.confined.files { files, buffer }) ((breaks _).2 _)
  | false =>
    exact .works other own (goes _) places (does.exist { files, buffer } exist) (does.confined.files { files, buffer }) written

/-- A step before there is a temporary file. -/
theorem saving_still {next : Step} (same : saveStep path call loaded next = perform call.host next id id)
    (none : tmpOf (.saving call loaded next buffer) = none) (places : placing (.saving call loaded next buffer) = Option.none)
    (breaks : tmpOf (broken call buffer next) = Option.none) (goes : tmpOf (after call loaded buffer next) = Option.none) :
    Moved path files (.saving call loaded next buffer)
      (advance modelValidateJson path files (.saving call loaded next buffer)) := by
  rw [advance_saving same]
  cases call.host.raises next with
  | true => exact .still none breaks places
  | false => exact .still none goes places

theorem mkstemp_moved (new : NewName files path call.host.tmpName) :
    Moved path files (.saving call loaded .mkstemp buffer)
      (advance modelValidateJson path files (.saving call loaded .mkstemp buffer)) := by
  rw [advance_saving mkstemp_performs]
  cases call.host.raises .mkstemp with
  | true => exact .still rfl rfl rfl
  | false =>
    refine ⟨Function.update_self ..,?_,by simp [tmpOf],?_,?_,by simp [placing]⟩
    · intro name same
      cases same
      exact ⟨by simp,.inr new⟩
    · intro file _ _ apart
      refine Function.update_of_ne ?_ _ files
      intro same
      subst same
      exact apart rfl
    · intro _
      exact Function.update_of_ne new.other.symm _ files

theorem replace_moved (other : call.host.tmpName ≠ path)
    (complete : Complete call.host.tmpName (content call loaded) { files, buffer }) :
    Moved path files (.saving call loaded .replace buffer)
      (advance modelValidateJson path files (.saving call loaded .replace buffer)) := by
  have there : files call.host.tmpName = some (content call loaded) := complete.1
  have performs : saveStep path call loaded .replace = perform call.host .replace id (fun s =>
      { s with files := Function.update (Function.update s.files path (s.files call.host.tmpName)) call.host.tmpName none }) := rfl
  rw [advance_saving performs]
  cases raises : call.host.raises .replace with
  | true => exact .works other rfl rfl (by simp [placing,raises]) (by simp [there]) (fun _ _ => rfl) trivial
  | false =>
    refine ⟨trivial,by simp [after,tmpOf],?_,?_,by simp [placing,raises],?_⟩
    · intro name same _
      cases same
      exact Function.update_self ..
    · intro file differs apart _
      have own : file ≠ call.host.tmpName := by
        intro same
        subst same
        exact apart rfl
      simp [own,differs]
    · intro placed same
      have equal : call = placed := by simpa [placing,raises] using same
      subst equal
      refine ⟨loaded,buffer,rfl,rfl,?_⟩
      simp [other.symm,there]

theorem write_works (text : String) (count : Nat) :
    Works name (fun s : Disk => drain name count { s with buffer := s.buffer ++ text.toUTF8 }) := by
  refine ⟨⟨?_,fun _ => rfl⟩,?_⟩
  · intro s other differs
    exact Function.update_of_ne differs _ s.files
  · intro s exist
    simpa [drain] using exist

theorem advance_moved (written : Written files place)
    (held : ∀ name, tmpOf place = some name → (files name).isSome ∧ name ≠ path)
    (named : ∀ call loaded buffer, place = .saving call loaded .mkstemp buffer → NewName files path call.host.tmpName) :
    Moved path files place (advance modelValidateJson path files place) := by
  cases place with
  | idle => exact .still rfl rfl rfl
  | loading call =>
    unfold advance
    cases stateIn modelValidateJson (files path) with
    | ok loaded => exact .still rfl rfl rfl
    | error failure => exact .still rfl rfl rfl
  | closing call buffer =>
    obtain ⟨exist,other⟩ := held call.host.tmpName rfl
    have drained : ∃ count, (stateOf (close call.host call.host.tmpName { files, buffer })).files =
        (drain call.host.tmpName count { files, buffer }).files := by
      unfold close perform
      cases call.host.raises .close with
      | true => exact ⟨_,rfl⟩
      | false => exact ⟨_,rfl⟩
    obtain ⟨count,same⟩ := drained
    simp only [advance,same]
    have works : Works call.host.tmpName (drain call.host.tmpName count) := works_drain (fun _ => count)
    exact .works other rfl rfl rfl (works.exist { files, buffer } exist) (works.confined.files { files, buffer }) trivial
  | unlinking call =>
    obtain ⟨_,other⟩ := held call.host.tmpName rfl
    exact .removes other rfl rfl (Function.update_self ..) (fun file differs => Function.update_of_ne differs _ files)
  | saving call loaded next buffer =>
    cases next with
    | dumps => exact saving_still dumps_performs rfl rfl rfl rfl
    | mkdir => exact saving_still rfl rfl rfl rfl rfl
    | mkstemp => exact mkstemp_moved (named call loaded buffer rfl)
    | fdopen =>
      obtain ⟨exist,other⟩ := held call.host.tmpName rfl
      exact saving_works rfl other exist rfl rfl works_id ⟨⟨fun _ _ _ => rfl,fun _ => rfl⟩,fun _ exist => exist⟩
        (fun _ => ⟨rfl,fun _ => trivial⟩) (fun _ => rfl) ⟨written,rfl⟩
    | write =>
      obtain ⟨exist,other⟩ := held call.host.tmpName rfl
      refine saving_works rfl other exist rfl rfl (write_works _ _) (write_works _ _) (fun _ => ⟨rfl,fun _ => trivial⟩)
        (fun _ => rfl) ?_
      have buffered : Buffered call.host.tmpName (content call loaded)
          { files := files, buffer := buffer ++ (payload (saved call loaded)).toUTF8 } := by
        refine ⟨.empty,written.1,?_⟩
        have empty : buffer = .empty := written.2
        rw [empty,ByteArray.empty_append,ByteArray.empty_append]
        rfl
      exact buffered_drain buffered (call.host.reaches .write)
    | flush =>
      obtain ⟨exist,other⟩ := held call.host.tmpName rfl
      refine saving_works rfl other exist rfl rfl (works_drain _) (works_drain _) (fun _ => ⟨rfl,fun _ => trivial⟩)
        (fun _ => rfl) ?_
      exact complete_drain written
    | fsync =>
      obtain ⟨exist,other⟩ := held call.host.tmpName rfl
      exact saving_works rfl other exist rfl rfl works_id works_id (fun _ => ⟨rfl,fun _ => trivial⟩) (fun _ => rfl) written
    | close =>
      obtain ⟨exist,other⟩ := held call.host.tmpName rfl
      refine saving_works rfl other exist rfl rfl (works_drain _) (works_drain _) (fun _ => ⟨rfl,fun _ => trivial⟩)
        (fun _ => rfl) ?_
      have buffered : Buffered call.host.tmpName (content call loaded) { files, buffer } := by
        refine ⟨content call loaded,written.1,?_⟩
        have empty : buffer = .empty := written.2
        rw [empty,ByteArray.append_empty]
      exact complete_drain buffered
    | replace =>
      obtain ⟨_,other⟩ := held call.host.tmpName rfl
      exact replace_moved other written

end

/-! ### Every process has its own -/

/-- The name that `mkstemp` is about to find. -/
def seeking : UpdateAt → Option String
  | .saving call _ .mkstemp _ => some call.host.tmpName
  | _ => none

/-- The name that `mkstemp` finds is new. -/
def Named (path : String) (s : SharedStore) : Turn → Prop
  | .begin _ _ => True
  | .go process => ∀ name ∈ seeking (s.updates process), NewName s.files path name

instance (path : String) (s : SharedStore) : DecidablePred (Named path s)
  | .begin _ _ => .isTrue trivial
  | .go process => inferInstanceAs (Decidable (∀ name ∈ seeking (s.updates process), NewName s.files path name))

/-- Each process has written what it is to have written, to a file of its own that was not
    there at first; all other files but the one at `path` are as they were. -/
structure Sound (path : String) (first : Files) (s : SharedStore) : Prop where
  written : ∀ process, Written s.files (s.updates process)
  held : ∀ process name, tmpOf (s.updates process) = some name →
    (s.files name).isSome ∧ name ≠ path ∧ first name = none
  apart : ∀ process other name, tmpOf (s.updates process) = some name → tmpOf (s.updates other) = some name → process = other
  rest : ∀ file ≠ path, s.files file = first file ∨ ∃ process, tmpOf (s.updates process) = some file

section
variable {modelValidateJson : String → Option RuntimeState} {path : String} {first files files' : Files} {s : SharedStore}
  {process : Nat} {next : Files × UpdateAt} {placed : Option Call}

theorem Written.congr {place : UpdateAt} (written : Written files place)
    (same : ∀ name, tmpOf place = some name → files' name = files name) : Written files' place := by
  unfold Written at written ⊢
  unfold tmpOf at same
  split <;> simp_all [Created,Complete,Buffered]

/-- A temporary file is there, so no process finds its name. -/
theorem Sound.not_new {other : Nat} {name : String} (sound : Sound path first s)
    (owns : tmpOf (s.updates other) = some name) : ¬ NewName s.files path name := by
  intro new
  have exist := (sound.held other name owns).1
  rw [new.fresh] at exist
  cases exist

/-- Nor does a process that goes on come to have the temporary file of another. -/
theorem Sound.alone {other : Nat} {name : String} (sound : Sound path first s)
    (moved : Moved path s.files (s.updates process) next) (differs : other ≠ process)
    (owns : tmpOf (s.updates other) = some name) :
    tmpOf (s.updates process) ≠ some name ∧ tmpOf next.2 ≠ some name := by
  have before : tmpOf (s.updates process) ≠ some name :=
    fun owned => differs (sound.apart other process name owns owned)
  refine ⟨before,?_⟩
  intro owned
  rcases (moved.held name owned).2 with earlier | new
  · exact before earlier
  · exact sound.not_new owns new

theorem settle_sound (sound : Sound path first s) (moved : Moved path s.files (s.updates process) next) :
    Sound path first (settle process next placed s) := by
  have unmoved : ∀ other ≠ process, ∀ name, tmpOf (s.updates other) = some name → next.1 name = s.files name := by
    intro other differs name owns
    obtain ⟨before,after⟩ := sound.alone moved differs owns
    exact moved.others name (sound.held other name owns).2.1 before after
  constructor
  · intro other
    by_cases same : other = process
    · subst same
      rw [settle_self]
      exact moved.written
    · rw [settle_other same]
      exact (sound.written other).congr (unmoved other same)
  · intro other name owns
    by_cases same : other = process
    · subst same
      rw [settle_self] at owns
      obtain ⟨exist,origin⟩ := moved.held name owns
      refine ⟨exist,?_⟩
      rcases origin with before | new
      · exact (sound.held other name before).2
      · refine ⟨new.other,?_⟩
        rcases sound.rest name new.other with kept | ⟨owner,owned⟩
        · rw [← kept,new.fresh]
        · exact absurd new (sound.not_new owned)
    · rw [settle_other same] at owns
      obtain ⟨exist,rest⟩ := sound.held other name owns
      rw [settle_files,unmoved other same name owns]
      exact ⟨exist,rest⟩
  · intro one other name owns owned
    by_cases first : one = process
    · by_cases second : other = process
      · rw [first,second]
      · subst first
        rw [settle_self] at owns
        rw [settle_other second] at owned
        exact absurd owns (sound.alone moved second owned).2
    · rw [settle_other first] at owns
      by_cases second : other = process
      · subst second
        rw [settle_self] at owned
        exact absurd owned (sound.alone moved first owns).2
      · rw [settle_other second] at owned
        exact sound.apart one other name owns owned
  · intro file differs
    by_cases owned : tmpOf next.2 = some file
    · exact .inr ⟨process,by rw [settle_self]; exact owned⟩
    · by_cases before : tmpOf (s.updates process) = some file
      · refine .inl ?_
        rw [settle_files,moved.cleared file before owned]
        exact (sound.held process file before).2.2.symm
      · rw [settle_files,moved.others file differs before owned]
        rcases sound.rest file differs with kept | ⟨owner,owns⟩
        · exact .inl kept
        · refine .inr ⟨owner,?_⟩
          rwa [settle_other]
          intro same
          rw [same] at owns
          exact before owns

theorem begun_moved (idle : s.updates process = .idle) (call : Call) :
    Moved path s.files (s.updates process) (s.files,begun path call s.files) := by
  rw [idle]
  unfold begun
  cases s.files path with
  | none => exact .still rfl rfl rfl
  | some content => exact .still rfl rfl rfl

theorem go_moved (sound : Sound path first s) (named : Named path s (.go process)) :
    Moved path s.files (s.updates process) (advance modelValidateJson path s.files (s.updates process)) := by
  refine advance_moved (sound.written process) ?_ ?_
  · intro name owns
    obtain ⟨exist,other,_⟩ := sound.held process name owns
    exact ⟨exist,other⟩
  · intro call loaded buffer at_
    refine named call.host.tmpName ?_
    rw [at_]
    rfl

theorem step_sound (sound : Sound path first s) {turn : Turn} (named : Named path s turn) :
    Sound path first (step modelValidateJson path s turn) := by
  cases turn with
  | begin process call =>
    cases at_ : s.updates process with
    | idle =>
      simp only [step,at_]
      exact settle_sound sound (begun_moved at_ call)
    | _ => simpa only [step,at_] using sound
  | go process => exact settle_sound sound (go_moved sound named)

end

end Hookclose.TemporaryFiles
