import Hookclose.WorkerContracts

/-!
The workspaces of tasks: a directory with a branch of its own for each task, and the
patches that are written into it, each only where its resolved path begins with the
resolved path of the workspace.
-/
namespace Hookclose.Workspaces
open Hookclose.Programs

/-! ### The machine -/

/-- The file system and the command runner; what they answer may depend on all that was
    done before. The runner never raises, and a write that raises changes no file. -/
structure Host where
  resolve : History → String → Except Raised String
  mkdir : History → String → Except Raised Unit
  writeText : History → String → String → Except Raised Unit
  run : History → CommandCall → CommandResult

/-- `root / path`. -/
def join (root path : String) : String := if path.toList.head? = some '/' then path else root ++ "/" ++ path

/-- The directory that a path names a file in. -/
def parent (path : String) : String :=
  let above := ((path.toList.reverse.dropWhile (fun c => c ≠ '/')).drop 1).reverse
  String.ofList (if above = [] then ['/'] else above)

def resolve (host : Host) (path : String) : Program String := fun history => lift (host.resolve history path) history

/-- `mkdir` with its parents. -/
def mkdir (host : Host) (path : String) : Program Unit := fun history =>
  match host.mkdir history path with
  | .ok () => .ok () (history ++ [.directory path])
  | .error exception => .error exception history

def writeText (host : Host) (path : String) (content : Json) : Program Unit := fun history =>
  match content with
  | .str text =>
    match host.writeText history path text with
    | .ok () => .ok () (history ++ [.file path text])
    | .error exception => .error exception history
  | other => .error (.typeError ("data must be str, not " ++ other.typeName)) history

def runGit (host : Host) (command : List String) (cwd : String) : Program CommandResult := fun history =>
  let call : CommandCall := ⟨command,cwd,.finite 30⟩
  .ok (host.run history call) (history ++ [.git call (host.run history call)])

/-! ### Workspaces -/

structure Workspace where
  root : String
  branch : String
  gitEnabled : Bool

def branchName (taskId : String) : String := "task/" ++ String.ofList (taskId.toList.take 12)

def initBranch (host : Host) (root branch : String) : Program Bool := do
  let init ← runGit host ["git","init","-q"] root
  if init.success then do
    let _ ← runGit host ["git","checkout","-q","-b",branch] root
    pure true
  else pure false

def create (host : Host) (base taskId : String) : Program Workspace := do
  let root := join base taskId
  mkdir host root
  let branch := branchName taskId
  let gitEnabled ← initBranch host root branch
  pure ⟨root,branch,gitEnabled⟩

/-- The path of a patch, as the operand of `/`. -/
def pathText : Json → Except Raised String
  | .str path => .ok path
  | other => .error (.typeError ("unsupported operand type(s) for /: 'PosixPath' and '" ++ other.typeName ++ "'"))

/-- A turn of the loop of `write_patches`. -/
def writePatch (host : Host) (root : String) (patch : FilePatch) : Program String := do
  let path ← lift (pathText patch.path)
  let target ← resolve host (join root path)
  let top ← resolve host root
  if top.toList.isPrefixOf target.toList then do
    mkdir host (parent target)
    writeText host target patch.content
    pure path
  else throw (.valueError ("patch path escapes workspace: " ++ Text.repr path))

def writePatches (host : Host) (root : String) : List FilePatch → Program (List String)
  | [] => pure []
  | patch :: rest => do
    let path ← writePatch host root patch
    let paths ← writePatches host root rest
    pure (path :: paths)

/-- The path without empty parts and dots, each pair of dots with the part before it. -/
def normalize (path : String) : String :=
  let parts := (path.toList.splitOn '/').foldl (fun parts part =>
    if part = [] ∨ part = ['.'] then parts else if part = ['.','.'] then parts.dropLast else parts ++ [part]) []
  String.ofList ('/' :: ['/'].intercalate parts)

/-- A machine without links that takes every file, and on which every command succeeds. -/
def machine : Host where
  resolve _ path := .ok (normalize path)
  mkdir _ _ := .ok ()
  writeText _ _ _ := .ok ()
  run _ _ := { exitCode := 0, stdout := "ok", stderr := "", durationMs := 2 }

/-! ### What the parts do -/

section
variable {host : Host} {root path : String} {history after : History}

@[simp] theorem resolve_ok {target : String} :
    resolve host path history = .ok target after ↔ host.resolve history path = .ok target ∧ history = after := lift_ok

@[simp] theorem mkdir_ok :
    mkdir host path history = .ok () after ↔
      host.mkdir history path = .ok () ∧ history ++ [.directory path] = after := by
  unfold mkdir
  cases host.mkdir history path <;> simp

@[simp] theorem writeText_ok {content : Json} : writeText host path content history = .ok () after ↔
    ∃ text, content = .str text ∧ host.writeText history path text = .ok () ∧ history ++ [.file path text] = after := by
  unfold writeText
  cases content with
  | str text => cases written : host.writeText history path text <;> simp [written]
  | _ => simp

theorem runGit_run {command : List String} : runGit host command path history =
    .ok (host.run history ⟨command,path,.finite 30⟩)
      (history ++ [.git ⟨command,path,.finite 30⟩ (host.run history ⟨command,path,.finite 30⟩)]) := rfl

@[simp] theorem pathText_ok {value : Json} : pathText value = .ok path ↔ value = .str path := by
  cases value <;> simp [pathText]

/-- Nothing that a subscriber or the plan would see. -/
structure Quiet (added : History) : Prop where
  events : History.events added = []
  ran : History.ran added = []
  replies : History.replies added = []

theorem Quiet.append {first second : History} (before : Quiet first) (later : Quiet second) :
    Quiet (first ++ second) := by
  constructor
  · rw [History.events_append,before.events,later.events,List.append_nil]
  · rw [History.ran_append,before.ran,later.ran,List.append_nil]
  · rw [History.replies_append,before.replies,later.replies,List.append_nil]

theorem Quiet.skip {added : History} (quiet : Quiet added) (later : History) :
    History.events (added ++ later) = History.events later ∧ History.ran (added ++ later) = History.ran later ∧
      History.replies (added ++ later) = History.replies later := by
  refine ⟨?_,?_,?_⟩
  · rw [History.events_append,quiet.events,List.nil_append]
  · rw [History.ran_append,quiet.ran,List.nil_append]
  · rw [History.replies_append,quiet.replies,List.nil_append]

/-- A workspace gets its branch or goes without one. -/
theorem initBranch_ok (host : Host) (root branch : String) (history : History) : ∃ enabled added,
    initBranch host root branch history = .ok enabled (history ++ added) ∧
    Quiet added ∧ History.written added = [] := by
  unfold initBranch
  rw [bind_of_ok runGit_run]
  by_cases success : (host.run history ⟨["git","init","-q"],root,.finite 30⟩).success = true
  · rw [if_pos success,bind_of_ok runGit_run]
    exact ⟨true,[_,_],by rw [List.append_assoc]; rfl,⟨rfl,rfl,rfl⟩,rfl⟩
  · rw [if_neg success]
    exact ⟨false,[_],rfl,⟨rfl,rfl,rfl⟩,rfl⟩

theorem create_ok {base taskId : String} (made : host.mkdir history (join base taskId) = .ok ()) :
    ∃ enabled added,
      create host base taskId history = .ok ⟨join base taskId,branchName taskId,enabled⟩ (history ++ added) ∧
        Quiet added ∧ History.written added = [] := by
  unfold create
  obtain ⟨enabled,added,branched,quiet,written⟩ :=
    initBranch_ok host (join base taskId) (branchName taskId) (history ++ [.directory (join base taskId)])
  refine ⟨enabled,[.directory (join base taskId)] ++ added,?_,Quiet.append ⟨rfl,rfl,rfl⟩ quiet,?_⟩
  · rw [bind_of_ok (mkdir_ok.mpr ⟨made,rfl⟩),bind_of_ok branched,← List.append_assoc]
    rfl
  · rw [History.written_append,written]
    rfl

/-- A workspace is made exactly when its directory can be. -/
theorem create_returns {base taskId : String} {workspace : Workspace}
    (created : create host base taskId history = .ok workspace after) : host.mkdir history (join base taskId) = .ok () := by
  obtain ⟨_,_,made,_⟩ := bind_ok.mp created
  exact (mkdir_ok.mp made).1

/-! ### Patches -/

/-- A patch can be written: its path is a text that resolves to a target inside the
    workspace, its content is a text, and the file system takes both. -/
structure Writes (host : Host) (root : String) (history : History) (patch : FilePatch) (path target content : String) :
    Prop where
  isPath : patch.path = .str path
  resolved : host.resolve history (join root path) = .ok target
  inside : ∃ top, host.resolve history root = .ok top ∧ top.toList <+: target.toList
  directory : host.mkdir history (parent target) = .ok ()
  isContent : patch.content = .str content
  written : host.writeText (history ++ [.directory (parent target)]) target content = .ok ()

/-- All patches can be written, one after the other. -/
def AllWritable (host : Host) (root : String) : List FilePatch → History → Prop
  | [],_ => True
  | patch :: rest,history => ∃ path target content, Writes host root history patch path target content ∧
      AllWritable host root rest (history ++ [.directory (parent target),.file target content])

theorem writePatch_ok {patch : FilePatch} : writePatch host root patch history = .ok path after ↔
    ∃ target content, Writes host root history patch path target content ∧
      history ++ [.directory (parent target),.file target content] = after := by
  unfold writePatch
  constructor
  · intro returned
    obtain ⟨_,_,first,returned⟩ := bind_ok.mp returned
    obtain ⟨isPath,rfl⟩ := lift_ok.mp first
    obtain ⟨target,_,second,returned⟩ := bind_ok.mp returned
    obtain ⟨resolved,rfl⟩ := resolve_ok.mp second
    obtain ⟨top,_,third,returned⟩ := bind_ok.mp returned
    obtain ⟨topped,rfl⟩ := resolve_ok.mp third
    by_cases inside : top.toList.isPrefixOf target.toList = true
    · rw [if_pos inside] at returned
      obtain ⟨_,_,fourth,returned⟩ := bind_ok.mp returned
      obtain ⟨directory,rfl⟩ := mkdir_ok.mp fourth
      obtain ⟨_,_,fifth,returned⟩ := bind_ok.mp returned
      obtain ⟨content,isContent,written,rfl⟩ := writeText_ok.mp fifth
      obtain ⟨rfl,rfl⟩ := pure_ok.mp returned
      refine ⟨target,content,⟨pathText_ok.mp isPath,resolved,⟨top,topped,List.isPrefixOf_iff_prefix.mp inside⟩,directory,
        isContent,written⟩,?_⟩
      rw [List.append_assoc]
      rfl
    · rw [if_neg inside] at returned
      exact absurd returned (by simp)
  · rintro ⟨target,content,⟨isPath,resolved,⟨top,topped,inside⟩,directory,isContent,written⟩,rfl⟩
    rw [bind_of_ok (lift_ok.mpr ⟨pathText_ok.mpr isPath,rfl⟩),bind_of_ok (resolve_ok.mpr ⟨resolved,rfl⟩),
      bind_of_ok (resolve_ok.mpr ⟨topped,rfl⟩),if_pos (List.isPrefixOf_iff_prefix.mpr inside),
      bind_of_ok (mkdir_ok.mpr ⟨directory,rfl⟩),bind_of_ok (writeText_ok.mpr ⟨content,isContent,written,rfl⟩),
      List.append_assoc]
    rfl

theorem writePatches_returns {patches : List FilePatch} :
    Returns (writePatches host root patches) history ↔ AllWritable host root patches history := by
  induction patches generalizing history with
  | nil => simp [writePatches,AllWritable]
  | cons patch rest ih =>
    rw [writePatches,returns_bind,AllWritable]
    constructor
    · rintro ⟨path,_,wrote,returns⟩
      obtain ⟨target,content,writes,rfl⟩ := writePatch_ok.mp wrote
      obtain ⟨_,_,others,_⟩ := returns_bind.mp returns
      exact ⟨path,target,content,writes,ih.mp ⟨_,_,others⟩⟩
    · rintro ⟨path,target,content,writes,others⟩
      refine ⟨path,_,writePatch_ok.mpr ⟨target,content,writes,rfl⟩,?_⟩
      obtain ⟨paths,after,wrote⟩ := ih.mpr others
      exact (returns_after wrote).mpr returns_pure

/-- Writing patches does nothing else. -/
theorem writePatches_quiet {patches : List FilePatch} {paths : List String}
    (wrote : writePatches host root patches history = .ok paths after) :
    ∃ added, after = history ++ added ∧ Quiet added := by
  induction patches generalizing history paths with
  | nil =>
    obtain ⟨_,rfl⟩ := pure_ok.mp wrote
    exact ⟨[],by simp,⟨rfl,rfl,rfl⟩⟩
  | cons patch rest ih =>
    obtain ⟨_,_,first,others⟩ := bind_ok.mp wrote
    obtain ⟨target,content,_,rfl⟩ := writePatch_ok.mp first
    obtain ⟨_,_,later,done⟩ := bind_ok.mp others
    obtain ⟨_,rfl⟩ := pure_ok.mp done
    obtain ⟨added,rfl,quiet⟩ := ih later
    exact ⟨_,List.append_assoc _ _ _,Quiet.append ⟨rfl,rfl,rfl⟩ quiet⟩

end

end Hookclose.Workspaces
