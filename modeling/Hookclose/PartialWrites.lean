import Hookclose.PatchPaths
import Mathlib.Logic.Function.Basic

/-!
Patches written in part. `write_patches` checks each patch just before it writes it, so a
patch that the guard refuses leaves those before it in the workspace: the writing is all
or nothing exactly when these change no file of the workspace.
-/
namespace Hookclose.PartialWrites
open Hookclose.Programs Hookclose.Workspaces Hookclose.PatchPaths

section
variable (target : String → String) (root : String)

/-- The file that a patch resolves to. -/
def place (patch : String × String) : String := target (join root patch.1)

/-- The guard takes the patch. -/
def Taken (patch : String × String) : Prop := (target root).toList <+: (place target root patch).toList

/-- A file of the workspace. -/
def Within (path : String) : Prop := components (target root) <+: components path

/-- What writing a patch adds to the history. -/
def turn (patch : String × String) : History :=
  [.directory (parent (place target root patch)),.file (place target root patch) patch.2]

/-- The content of the last patch that resolves to the file. -/
def lastContent : List (String × String) → String → Option String
  | [],_ => none
  | patch :: rest,path =>
    (lastContent rest path).or (if place target root patch = path then some patch.2 else none)

/-- Every operation that the call asks the file system for succeeds; what is resolved does
    not change, since only directories and files are made. -/
def Accepts (host : Host) : List (String × String) → History → Prop
  | [],_ => True
  | patch :: rest,history =>
    host.resolve history (join root patch.1) = .ok (place target root patch) ∧
    host.resolve history root = .ok (target root) ∧
    (Taken target root patch →
      host.mkdir history (parent (place target root patch)) = .ok () ∧
      host.writeText (history ++ [.directory (parent (place target root patch))]) (place target root patch) patch.2 =
        .ok () ∧
      Accepts host rest (history ++ turn target root patch))

end

/-- The files after what was done. -/
def replay (files : String → Option String) (history : History) : String → Option String :=
  (History.written history).foldl (fun files entry => Function.update files entry.1 (some entry.2)) files

/-- What a call that has ended may have left behind: all patches written in order and
    nothing else, or, since one of them escapes, the workspace as it was. -/
inductive AllOrNothing (target : String → String) (root : String) (patches : List (String × String))
    (files : String → Option String) (history : History) : EStateM.Result Raised History (List String) → Prop
  | written {added : History}
      (holds : ∀ path, replay files added path = (lastContent target root patches path).or (files path)) :
      AllOrNothing target root patches files history (.ok (patches.map Prod.fst) (history ++ added))
  | refused {added : History} {message : String}
      (escapes : ∃ patch ∈ patches, ¬ Within target root (place target root patch))
      (same : ∀ path, Within target root path → replay files added path = files path) :
      AllOrNothing target root patches files history (.error (.valueError message) (history ++ added))

/-- The patches before the first that the guard refuses, if there is one, give every file of
    the workspace the content that it has. -/
def Harmless (target : String → String) (root : String) (patches : List (String × String))
    (files : String → Option String) : Prop :=
  ∀ before patch after, patches = before ++ patch :: after → (∀ other ∈ before, Taken target root other) →
    ¬ Taken target root patch →
      ∀ path content, Within target root path → lastContent target root before path = some content →
        files path = some content

section
variable {host : Host} {target : String → String} {root : String} {patches : List (String × String)}
  {files : String → Option String} {history : History}

/-- The last content wins over what was there. -/
theorem replay_turns (files : String → Option String) (patches : List (String × String)) (path : String) :
    replay files (patches.flatMap (turn target root)) path = (lastContent target root patches path).or (files path) := by
  induction patches generalizing files with
  | nil => rfl
  | cons patch rest ih =>
    have first : replay files ((patch :: rest).flatMap (turn target root)) =
        replay (Function.update files (place target root patch) (some patch.2)) (rest.flatMap (turn target root)) := rfl
    rw [first,ih,lastContent]
    by_cases own : place target root patch = path
    · subst own
      cases lastContent target root rest (place target root patch) <;> simp
    · rw [Function.update_of_ne (Ne.symm own),if_neg own,Option.or_none]

/-- The patches are written up to the first that the guard refuses, or all. -/
theorem writePatches_runs (accepts : Accepts target root host patches history) :
    ((∀ patch ∈ patches, Taken target root patch) ∧ writePatches host root (patches.map filePatch) history =
      .ok (patches.map Prod.fst) (history ++ patches.flatMap (turn target root))) ∨
    ∃ before patch after message, patches = before ++ patch :: after ∧ (∀ other ∈ before, Taken target root other) ∧
      ¬ Taken target root patch ∧ writePatches host root (patches.map filePatch) history =
        .error (.valueError message) (history ++ before.flatMap (turn target root)) := by
  induction patches generalizing history with
  | nil => exact .inl ⟨by simp,by rw [List.flatMap_nil,List.append_nil]; rfl⟩
  | cons patch rest ih =>
    obtain ⟨resolved,topped,written⟩ := accepts
    rw [List.map_cons,writePatches]
    by_cases taken : Taken target root patch
    · obtain ⟨directory,wrote,later⟩ := written taken
      have own : writePatch host root (filePatch patch) history = .ok patch.1 (history ++ turn target root patch) :=
        writePatch_ok.mpr ⟨_,patch.2,⟨rfl,resolved,⟨_,topped,taken⟩,directory,rfl,wrote⟩,rfl⟩
      rw [bind_of_ok own]
      rcases ih later with ⟨all,done⟩ | ⟨before,other,after,message,split,earlier,refused,raised⟩
      · refine .inl ⟨List.forall_mem_cons.mpr ⟨taken,all⟩,?_⟩
        rw [bind_of_ok done,List.flatMap_cons,← List.append_assoc]
        rfl
      · refine .inr ⟨patch :: before,other,after,message,by rw [split]; rfl,List.forall_mem_cons.mpr ⟨taken,earlier⟩,refused,?_⟩
        rw [bind_of_error raised,List.flatMap_cons,← List.append_assoc]
    · refine .inr ⟨[],patch,rest,"patch path escapes workspace: " ++ Text.repr patch.1,rfl,by simp,taken,?_⟩
      have own : writePatch host root (filePatch patch) history =
          .error (.valueError ("patch path escapes workspace: " ++ Text.repr patch.1)) history := by
        have isPath : lift (pathText (filePatch patch).path) history = .ok patch.1 history := rfl
        have unprefixed : ¬ (target root).toList.isPrefixOf (place target root patch).toList = true := by
          rw [List.isPrefixOf_iff_prefix]
          exact taken
        unfold writePatch
        rw [bind_of_ok isPath,bind_of_ok (resolve_ok.mpr ⟨resolved,rfl⟩),bind_of_ok (resolve_ok.mpr ⟨topped,rfl⟩),
          if_neg unprefixed]
        rfl
      rw [bind_of_error own,List.flatMap_nil,List.append_nil]

/-- The first patch that is refused is the first in any account of it. -/
theorem first_refused {before after before' after' : List (String × String)} {patch patch' : String × String}
    (same : before ++ patch :: after = before' ++ patch' :: after') (taken : ∀ other ∈ before, Taken target root other)
    (refused : ¬ Taken target root patch) (taken' : ∀ other ∈ before', Taken target root other)
    (refused' : ¬ Taken target root patch') : before = before' := by
  induction before generalizing before' with
  | nil =>
    cases before' with
    | nil => rfl
    | cons other before' =>
      obtain ⟨rfl,_⟩ := List.cons.inj same
      exact absurd (taken' patch List.mem_cons_self) refused
  | cons first before ih =>
    rw [List.forall_mem_cons] at taken
    cases before' with
    | nil =>
      obtain ⟨rfl,_⟩ := List.cons.inj same
      exact absurd taken.1 refused'
    | cons other before' =>
      obtain ⟨rfl,rest⟩ := List.cons.inj same
      rw [ih rest taken.2 (List.forall_mem_cons.mp taken').2]

/-- What is within the workspace the guard takes. -/
theorem within_taken (normal : ∀ path, Normal (target path)) {patch : String × String}
    (within : Within target root (place target root patch)) : Taken target root patch :=
  (normal_prefix_iff (normal root) (normal (join root patch.1))).mpr (.inl within)

theorem harmless_of_kept (accepts : Accepts target root host patches history)
    (kept : AllOrNothing target root patches files history (writePatches host root (patches.map filePatch) history)) :
    Harmless target root patches files := by
  intro before patch after split taken refused path content within last
  rcases writePatches_runs accepts with ⟨all,_⟩ | ⟨before',patch',after',message,split',taken',refused',raised⟩
  · exact absurd (all patch (by simp [split])) refused
  · obtain rfl := first_refused (split'.symm.trans split) taken' refused' taken refused
    rw [raised] at kept
    generalize ended : EStateM.Result.error _ _ = result at kept
    cases kept with
    | written _ => cases ended
    | @refused added _ _ same =>
      simp only [EStateM.Result.error.injEq,List.append_cancel_left_eq] at ended
      obtain ⟨_,rfl⟩ := ended
      rw [← same path within,replay_turns,last]
      rfl

theorem kept_of_harmless (normal : ∀ path, Normal (target path)) (accepts : Accepts target root host patches history)
    (harmless : Harmless target root patches files) :
    AllOrNothing target root patches files history (writePatches host root (patches.map filePatch) history) := by
  rcases writePatches_runs accepts with ⟨_,done⟩ | ⟨before,patch,after,message,split,taken,refused,raised⟩
  · rw [done]
    exact .written (replay_turns files patches)
  · rw [raised]
    refine .refused ⟨patch,by simp [split],fun within => refused (within_taken normal within)⟩ ?_
    intro path within
    rw [replay_turns]
    cases last : lastContent target root before path with
    | none => rfl
    | some content =>
      rw [harmless before patch after split taken refused path content within last]
      rfl

/-- Writing is all or nothing exactly when the patches before a refused one change no file of
    the workspace. -/
theorem allOrNothing_iff (normal : ∀ path, Normal (target path)) (accepts : Accepts target root host patches history)
    (files : String → Option String) :
    AllOrNothing target root patches files history (writePatches host root (patches.map filePatch) history) ↔
      Harmless target root patches files :=
  ⟨harmless_of_kept accepts,kept_of_harmless normal accepts⟩

end

/-! ### A patch before an escape -/

/-- A file, and a patch out of the workspace. -/
def leaving : List (String × String) := [("app.py","x"),("../escape.py","y")]

theorem leaving_accepted : Accepts normalize "/ws/t1" machine leaving [] :=
  ⟨rfl,rfl,fun _ => ⟨rfl,rfl,rfl,rfl,fun _ => ⟨rfl,rfl,trivial⟩⟩⟩

/-- The call raises, and the file is there. -/
theorem leaving_written : ¬ AllOrNothing normalize "/ws/t1" leaving (fun _ => none) []
    (writePatches machine "/ws/t1" (leaving.map filePatch) []) := by
  intro kept
  have taken : ∀ other ∈ [("app.py","x")], Taken normalize "/ws/t1" other := by
    simp only [List.mem_singleton,forall_eq]
    exact List.isPrefixOf_iff_prefix.mp (by decide +kernel)
  have refused : ¬ Taken normalize "/ws/t1" ("../escape.py","y") := by
    intro taken
    exact absurd (List.isPrefixOf_iff_prefix.mpr taken) (by decide +kernel)
  have placed : place normalize "/ws/t1" ("app.py","x") = "/ws/t1/app.py" := by decide +kernel
  have last : lastContent normalize "/ws/t1" [("app.py","x")] "/ws/t1/app.py" = some "x" := by
    simp [lastContent,placed]
  have within : Within normalize "/ws/t1" "/ws/t1/app.py" := List.isPrefixOf_iff_prefix.mp (by decide +kernel)
  have changed := harmless_of_kept leaving_accepted kept [("app.py","x")] ("../escape.py","y") [] rfl taken refused _ _
    within last
  cases changed

theorem leaving_iff : AllOrNothing normalize "/ws/t1" leaving (fun _ => none) []
    (writePatches machine "/ws/t1" (leaving.map filePatch) []) ↔
      Harmless normalize "/ws/t1" leaving (fun _ => none) :=
  allOrNothing_iff no_links.normal leaving_accepted (fun _ => none)

end Hookclose.PartialWrites
