import Hookclose.JsonFiles
import Hookclose.Programs
import Hookclose.RuntimeStates
import Mathlib.Logic.Function.Basic

/-!
The file of the build process. A save writes a temporary file in the same directory and
then puts it in place; whatever raises on the way, the temporary file is removed. The
machine decides which steps raise, how much of the text has reached the file by then and
which name the temporary file gets; pydantic's validation of the text that is loaded is a
parameter.
-/
namespace Hookclose.StateStore
open Hookclose.JsonFiles Hookclose.JsonText Hookclose.Programs Hookclose.RuntimeStates Hookclose.RuntimeStates.RuntimeState

/-- What is in each file; `none` where there is none. -/
abbrev Files := String → Option ByteArray

/-- The steps of a save. -/
inductive Step
  | dumps
  | mkdir
  | mkstemp
  | fdopen
  | write
  | flush
  | fsync
  | close
  | replace
  deriving DecidableEq, Repr

/-- What a call raises. -/
inductive Failure
  | step (step : Step)
  | unicodeDecodeError
  | validationError
  deriving DecidableEq, Repr

/-- A machine during a save: the time, the name that `mkstemp` finds, the steps that raise,
    and how many bytes of the buffer reach the file in a step that does not empty it. -/
structure Host where
  now : String
  tmpName : String
  raises : Step → Bool
  reaches : Step → Nat

/-- The files, what is still in the buffer of the open file, and the files as they were
    after each step so far. -/
structure Disk where
  files : Files
  buffer : ByteArray := .empty
  seen : List Files := []

abbrev Program := EStateM Failure Disk

def noted (s : Disk) : Disk := { s with seen := s.seen ++ [s.files] }

theorem seen_noted {P : Files → Prop} {s : Disk} :
    (∀ looked ∈ (noted s).seen, P looked) ↔ (∀ looked ∈ s.seen, P looked) ∧ P s.files := by
  rw [noted,List.forall_mem_append,List.forall_mem_singleton]

/-- A step with what it does, and what it has done when it raises. -/
def perform (host : Host) (step : Step) (failed done : Disk → Disk) : Program Unit := fun s =>
  if host.raises step then .error (.step step) (noted (failed s)) else .ok () (noted (done s))

/-- The next bytes of the buffer go to the file. -/
def drain (name : String) (count : Nat) (s : Disk) : Disk where
  files := Function.update s.files name ((s.files name).map (fun content => content ++ s.buffer.extract 0 count))
  buffer := s.buffer.extract count s.buffer.size
  seen := s.seen

/-- The content of a file with the state, one line for each value. -/
def payload (state : RuntimeState) : String := dumpsSorted 2 (.dict state.modelDump) ++ "\n"

/-! ### The steps -/

def dumps (host : Host) (state : RuntimeState) : Program String := do
  perform host .dumps id id
  pure (payload state)

/-- Directories are no files. -/
def mkdir (host : Host) : Program Unit := perform host .mkdir id id

/-- An empty file under a new name. -/
def mkstemp (host : Host) : Program String := do
  perform host .mkstemp id (fun s => { s with files := Function.update s.files host.tmpName (some .empty) })
  pure host.tmpName

def fdopen (host : Host) : Program Unit := perform host .fdopen id (fun s => { s with buffer := .empty })

def write (host : Host) (name text : String) : Program Unit :=
  let buffered := fun s : Disk => drain name (host.reaches .write) { s with buffer := s.buffer ++ text.toUTF8 }
  perform host .write buffered buffered

def flush (host : Host) (name : String) : Program Unit :=
  perform host .flush (drain name (host.reaches .flush)) (fun s => drain name s.buffer.size s)

def fsync (host : Host) : Program Unit := perform host .fsync id id

/-- Closing the file writes what is left in the buffer. -/
def close (host : Host) (name : String) : Program Unit :=
  perform host .close (drain name (host.reaches .close)) (fun s => drain name s.buffer.size s)

def replace (host : Host) (source target : String) : Program Unit :=
  perform host .replace id (fun s =>
    { s with files := Function.update (Function.update s.files target (s.files source)) source none })

def unlink (name : String) : Program Unit := fun s =>
  .ok () (noted { s with files := Function.update s.files name none })

/-! ### The store -/

/-- The `with` block: the file is closed however its body ends. -/
def writeHandle (host : Host) (name text : String) : Program Unit := do
  fdopen host
  onError (do
    write host name text
    flush host name
    fsync host) (close host name)
  close host name

/-- Stamps the state and puts it in place of what the file holds. -/
def save (host : Host) (path : String) (state : RuntimeState) : Program RuntimeState := do
  let stamped := { state with updatedAt := some host.now }
  let text ← dumps host stamped
  mkdir host
  let name ← mkstemp host
  onError (do
    writeHandle host name text
    replace host name path) (unlink name)
  pure stamped

/-- The state in a file, or the default one if there is no file. -/
def stateIn (modelValidateJson : String → Option RuntimeState) : Option ByteArray → Except Failure RuntimeState
  | none => .ok {}
  | some content =>
    match readText content with
    | none => .error .unicodeDecodeError
    | some raw =>
      match modelValidateJson raw with
      | none => .error .validationError
      | some state => .ok state

def load (modelValidateJson : String → Option RuntimeState) (path : String) : Program RuntimeState :=
  fun s => lift (stateIn modelValidateJson (s.files path)) s

def update (host : Host) (modelValidateJson : String → Option RuntimeState) (path : String)
    (mutate : RuntimeState → RuntimeState) : Program RuntimeState := do
  let state ← load modelValidateJson path
  save host path (mutate state)

end Hookclose.StateStore
