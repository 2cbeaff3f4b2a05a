import Hookclose.BoundedRetries
import Hookclose.PatchPaths
import Mathlib.Logic.Function.Basic

/-!
Workspaces of tasks whose identifiers have one length, as generated ones do. The guard of
`write_patches` also lets through a sibling whose name begins with that of the workspace; of
names of one length none begins with another, so that a task never writes into the
workspace of another, whatever its patches are and however its execution ends. Commands may
do anything to the files; where they keep to the directory that they run in, the other
workspaces stay as they were.
-/
namespace Hookclose.WorkspaceIsolation
open Hookclose.Programs Hookclose.Workspaces Hookclose.OpenClaw Hookclose.Attempts Hookclose.BoundedRetries
open Hookclose.SeparatedPaths Hookclose.PatchPaths Hookclose.WorkerAdditions

/-- A machine without links: what it resolves it normalizes. -/
def Unlinked (host : Host) : Prop := ∀ history path target, host.resolve history path = .ok target → target = normalize path

/-- The path is that of a workspace, or below it. -/
def Inside (base id path : String) : Prop := components (join base id) <+: components path

/-- The path is in a sibling of the workspace, whose name goes on after the workspace's. -/
def Beside (base id path : String) : Prop := Extends (components (join base id)) (components path)

/-- An identifier that is one name, of a certain length. -/
structure Name (length : Nat) (id : String) : Prop where
  clean : Clean id.toList
  size : id.toList.length = length

section
variable {base id other path : String} {length : Nat}

theorem normal_normalize (path : String) : PatchPaths.Normal (normalize path) := by
  rw [PatchPaths.Normal,normalize_eq,components_normalize,← normalize_eq]

/-- A workspace lies directly in the base directory. -/
theorem components_join (clean : Clean id.toList) : components (join base id) = components base ++ [id.toList] := by
  have relative : id.toList.head? ≠ some '/' := by
    intro first
    exact clean.plain.free (List.mem_of_head? first)
  have text : (join base id).toList = base.toList ++ '/' :: id.toList := by
    simp [join,relative]
  rw [components,text,List.splitOn_append_cons_self,List.splitOn_eq_singleton clean.plain.free,List.foldl_append]
  exact addPart_clean clean

/-- The resolved workspace, as the guard compares it. -/
theorem top_toList (clean : Clean id.toList) :
    (normalize (join base id)).toList = spell '/' (components base) ++ '/' :: id.toList := by
  have filled : components base ++ [id.toList] ≠ [] := by simp
  rw [normalize_eq,String.toList_ofList,components_join clean,render_eq_spell filled,spell_append]
  simp [spell]

/-- A path that begins with the workspaces of two names of one length tells them apart. -/
theorem top_unique (name : Name length id) (otherName : Name length other)
    (first : (normalize (join base id)).toList <+: path.toList)
    (second : (normalize (join base other)).toList <+: path.toList) : other = id := by
  rw [top_toList name.clean] at first
  rw [top_toList otherName.clean] at second
  have sizes : (spell '/' (components base) ++ '/' :: other.toList).length =
      (spell '/' (components base) ++ '/' :: id.toList).length := by
    simp [name.size,otherName.size]
  have within := List.prefix_of_prefix_length_le second first (Nat.le_of_eq sizes)
  have same := List.append_cancel_left (within.eq_of_length sizes)
  exact String.toList_injective (List.cons.inj same).2

/-- What is placed from a workspace is inside it or beside it. -/
theorem placed_inside {host : Host} {history : History} {file : String} (unlinked : Unlinked host)
    (placed : Placed host (join base id) history file path) : Inside base id path ∨ Beside base id path := by
  obtain ⟨resolved,top,topped,within⟩ := placed
  rw [unlinked _ _ _ topped,unlinked _ _ _ resolved,
    normal_prefix_iff (normal_normalize _) (normal_normalize _),components_normalize] at within
  rwa [Inside,Beside,unlinked _ _ _ resolved]

/-- What is placed from the workspace of one name is inside that of no other. -/
theorem placed_apart {host : Host} {history : History} {file : String} (unlinked : Unlinked host) (name : Name length id)
    (otherName : Name length other) (placed : Placed host (join base id) history file path)
    (inside : Inside base other path) : other = id := by
  obtain ⟨resolved,top,topped,within⟩ := placed
  have normal : PatchPaths.Normal path := by
    rw [unlinked _ _ _ resolved]
    exact normal_normalize _
  rw [unlinked _ _ _ topped] at within
  refine top_unique name otherName within ?_
  rw [normal_prefix_iff (normal_normalize _) normal,components_normalize]
  exact .inl inside

/-- No path is inside two workspaces. -/
theorem inside_unique (name : Name length id) (otherName : Name length other) (first : Inside base id path)
    (second : Inside base other path) : other = id := by
  unfold Inside at first second
  rw [components_join name.clean] at first
  rw [components_join otherName.clean] at second
  have same := (List.prefix_of_prefix_length_le second first (by simp)).eq_of_length (by simp)
  exact String.toList_injective (List.singleton_inj.mp (List.append_cancel_left same))

end

/-! ### Files -/

abbrev Files := String → Option String

/-- What an action makes of the machine's files; the effect of a command may depend on all that
    was done before. -/
def changed (effect : History → CommandCall → Files → Files) (before : History) (files : Files) : Action → Files
  | .file path content => Function.update files path (some content)
  | .git call _ => effect before call files
  | .ran call _ => effect before call files
  | _ => files

/-- What the machine's files are after what was done. -/
def filesAfter (effect : History → CommandCall → Files → Files) : History → Files → History → Files
  | _,files,[] => files
  | before,files,action :: rest => filesAfter effect (before ++ [action]) (changed effect before files action) rest

/-- Commands change the files of the directory that they run in only. -/
def Local (effect : History → CommandCall → Files → Files) : Prop :=
  ∀ before call files path, ¬ components call.cwd <+: components path → effect before call files path = files path

/-- An action that leaves a file alone: it does not write it, or runs a command elsewhere. -/
def Spares (path : String) : Action → Prop
  | .file target _ => target ≠ path
  | .git call _ => ¬ components call.cwd <+: components path
  | .ran call _ => ¬ components call.cwd <+: components path
  | _ => True

theorem filesAfter_spared {effect : History → CommandCall → Files → Files} (confined : Local effect) {path : String}
    {added : History} (spared : ∀ action ∈ added, Spares path action) (before : History) (files : Files) :
    filesAfter effect before files added path = files path := by
  induction added generalizing before files with
  | nil => rfl
  | cons action rest ih =>
    rw [List.forall_mem_cons] at spared
    obtain ⟨own,later⟩ := spared
    rw [filesAfter,ih later]
    cases action with
    | file target content => exact Function.update_of_ne (Ne.symm own) _ _
    | git call result => exact confined before call files path own
    | ran call result => exact confined before call files path own
    | _ => rfl

/-! ### Drains -/

/-- What a drain does with files: it writes one that is placed from a workspace of its tasks,
    or runs a command in one. -/
def Assigned (worker : Worker) (source : List Task) (before : History) : Action → Prop
  | .file target _ => ∃ task ∈ source, ∃ path earlier, before = earlier ++ [.directory (parent target)] ∧
      Placed worker.host (join worker.base task.id) earlier path target
  | .git call _ => ∃ task ∈ source, call.cwd = join worker.base task.id
  | .ran call _ => ∃ task ∈ source, call.cwd = join worker.base task.id
  | _ => True

theorem runForever_assigned (worker : Worker) (stop : Option (History → Bool)) (source : List Task) (history : History) :
    ∃ added, stateOf (runForever worker stop source history) = history ++ added ∧
      Along (Assigned worker source) history added := by
  have each : ∀ task ∈ source, Adds (Assigned worker source) (fun after => history <+: after)
      (fun _ after => history <+: after) (execute worker task) := by
    intro task claimed
    have ordinary : Ordinary worker task (Assigned worker source) :=
      ⟨fun _ _ _ => trivial,fun _ _ directed => ⟨task,claimed,directed⟩,fun _ _ _ _ _ => trivial,
        fun _ _ _ _ => trivial,fun _ _ => trivial⟩
    refine (@execute_adds (Assigned worker source) _ task history ordinary (fun _ => True) ?_).mono (fun _ since => since)
      (fun _ _ holds => holds.2)
    intro attempt
    refine (executeOnce_adds ordinary ?_ ?_ attempt).mono (fun _ since => since)
      (fun _ _ holds => ⟨⟨holds.1.1,trivial⟩,holds.2⟩)
    · intro before files step _ _ patch _ path target content writes
      exact ⟨task,claimed,path,before,rfl,writes.resolved,writes.inside⟩
    · intro before files step _ _ call directed
      exact ⟨task,claimed,directed⟩
  obtain ⟨added,reached,along,_⟩ := @runForever_adds (Assigned worker source) _ history stop source each history
    List.prefix_rfl
  exact ⟨added,reached,along⟩

/-- However a drain ends, each file that it writes lies in the workspace of one of its tasks, or
    beside it under a longer name, and is inside no other workspace; and where commands keep to
    the directory that they run in, the files of every other workspace are as they were. -/
theorem workspaces_isolated (worker : Worker) (stop : Option (History → Bool)) (source : List Task) (history : History)
    (length : Nat) (unlinked : Unlinked worker.host) (named : ∀ task ∈ source, Name length task.id) :
    ∃ added, stateOf (runForever worker stop source history) = history ++ added ∧
      (∀ target content, (target,content) ∈ History.written added → ∃ task ∈ source,
        (Inside worker.base task.id target ∨ Beside worker.base task.id target) ∧
        ∀ id, Name length id → Inside worker.base id target → id = task.id) ∧
      ∀ effect, Local effect → ∀ id, Name length id → id ∉ source.map Task.id → ∀ files path, Inside worker.base id path →
        filesAfter effect history files added path = files path := by
  obtain ⟨added,reached,along⟩ := runForever_assigned worker stop source history
  have assigned : ∀ action ∈ added, ∃ before, Assigned worker source before action := by
    intro action member
    obtain ⟨before,after,rfl⟩ := List.append_of_mem member
    exact ⟨_,along.middle⟩
  refine ⟨added,reached,?_,?_⟩
  · intro target content member
    obtain ⟨action,inside,given⟩ := List.mem_filterMap.mp member
    cases action with
    | file other text =>
      cases given
      obtain ⟨_,task,claimed,path,earlier,_,placed⟩ := assigned _ inside
      exact ⟨task,claimed,placed_inside unlinked placed,fun id name within =>
        placed_apart unlinked (named task claimed) name placed within⟩
    | _ => cases given
  · intro effect confined id name foreign files path inside
    have elsewhere : ∀ task ∈ source, ¬ components (join worker.base task.id) <+: components path := by
      intro task claimed within
      have same := inside_unique (named task claimed) name within inside
      exact foreign (same ▸ List.mem_map_of_mem claimed)
    refine filesAfter_spared confined ?_ history files
    intro action member
    obtain ⟨_,fits⟩ := assigned action member
    cases action with
    | file target content =>
      rintro rfl
      obtain ⟨task,claimed,_,_,_,placed⟩ := fits
      have same := placed_apart unlinked (named task claimed) name placed inside
      exact foreign (same ▸ List.mem_map_of_mem claimed)
    | git call result =>
      obtain ⟨task,claimed,directed⟩ := fits
      rw [Spares,directed]
      exact elsewhere task claimed
    | ran call result =>
      obtain ⟨task,claimed,directed⟩ := fits
      rw [Spares,directed]
      exact elsewhere task claimed
    | _ => trivial

theorem two_letters (id : String) (letters : id = "t1" ∨ id = "t2") : Name 2 id := by
  rcases letters with rfl | rfl
  · exact ⟨⟨⟨by decide,by decide⟩,by decide,by decide⟩,rfl⟩
  · exact ⟨⟨⟨by decide,by decide⟩,by decide,by decide⟩,rfl⟩

/-- Every command leaves a log in its directory. -/
def logging (_ : History) (call : CommandCall) (files : Files) : Files :=
  Function.update files (join call.cwd "log") (some "ok")

theorem logging_local : Local logging := by
  intro before call files path outside
  refine Function.update_of_ne ?_ _ _
  rintro rfl
  rw [components_join ⟨⟨by decide,by decide⟩,by decide,by decide⟩] at outside
  exact outside (List.prefix_append _ _)

/-- A task that is executed leaves the workspace of another as it was. -/
theorem neighbour_untouched : ∃ added, stateOf (runForever (generating "app.py") none [goalTask] []) = [] ++ added ∧
    ∀ files path, Inside "/ws" "t2" path → filesAfter logging [] files added path = files path := by
  have unlinked : Unlinked (generating "app.py").host := by
    rintro history path target ⟨⟩
    rfl
  have named : ∀ task ∈ [goalTask], Name 2 task.id := by
    intro task claimed
    rw [List.mem_singleton.mp claimed]
    exact two_letters _ (.inl rfl)
  obtain ⟨added,reached,_,untouched⟩ := workspaces_isolated (generating "app.py") none [goalTask] [] 2 unlinked named
  exact ⟨added,reached,untouched logging logging_local "t2" (two_letters _ (.inr rfl)) (by decide)⟩

end Hookclose.WorkspaceIsolation
