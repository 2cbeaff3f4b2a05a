import Hookclose.StateSaving

/-!
The steps of an update. Several processes may update the file of the build process, each in
its own time and with no lock, and each may stop for good between any two system calls. So
`update` is cut at its system calls: one turn is one call of one process, on the files that
they share. A process that nothing interrupts does what `update` does (`alone_updates`).
-/
namespace Hookclose.UpdateSteps
open Hookclose.Programs Hookclose.Runs Hookclose.RuntimeStates Hookclose.StateStore Hookclose.StateSaving

/-- Where a process is, between two system calls of `update`: with the state that it has
    loaded, the next step of its save, and what is still in the buffer of its open file. After
    an exception it closes the file, if it is still to be closed, and removes it. -/
inductive UpdateAt
  | idle
  | loading (call : Call)
  | saving (call : Call) (loaded : RuntimeState) (next : Step) (buffer : ByteArray)
  | closing (call : Call) (buffer : ByteArray)
  | unlinking (call : Call)

/-- The files, where each process is, and the calls that have put a state in place so far. -/
structure SharedStore where
  files : Files
  updates : Nat → UpdateAt := fun _ => .idle
  placed : List Call := []

/-- A process calls `update`, or it goes on with its next system call. -/
inductive Turn
  | begin (process : Nat) (call : Call)
  | go (process : Nat)

/-- The state that a call saves. -/
def saved (call : Call) (loaded : RuntimeState) : RuntimeState := stamped call.host (call.mutate loaded)

/-- A step of `save`. -/
def saveStep (path : String) (call : Call) (loaded : RuntimeState) : Step → Program Unit
  | .dumps => dumps call.host (saved call loaded) >>= fun _ => pure ()
  | .mkdir => mkdir call.host
  | .mkstemp => mkstemp call.host >>= fun _ => pure ()
  | .fdopen => fdopen call.host
  | .write => write call.host call.host.tmpName (payload (saved call loaded))
  | .flush => flush call.host call.host.tmpName
  | .fsync => fsync call.host
  | .close => close call.host call.host.tmpName
  | .replace => replace call.host call.host.tmpName path

/-- Where a step that returns leads. -/
def after (call : Call) (loaded : RuntimeState) (buffer : ByteArray) : Step → UpdateAt
  | .dumps => .saving call loaded .mkdir buffer
  | .mkdir => .saving call loaded .mkstemp buffer
  | .mkstemp => .saving call loaded .fdopen buffer
  | .fdopen => .saving call loaded .write buffer
  | .write => .saving call loaded .flush buffer
  | .flush => .saving call loaded .fsync buffer
  | .fsync => .saving call loaded .close buffer
  | .close => .saving call loaded .replace buffer
  | .replace => .idle

/-- Where an exception leads: before there is a temporary file, to the caller. -/
def broken (call : Call) (buffer : ByteArray) : Step → UpdateAt
  | .dumps => .idle
  | .mkdir => .idle
  | .mkstemp => .idle
  | .fdopen => .unlinking call
  | .write => .closing call buffer
  | .flush => .closing call buffer
  | .fsync => .closing call buffer
  | .close => .unlinking call
  | .replace => .unlinking call

/-- `load` looks whether there is a file before it reads it. -/
def begun (path : String) (call : Call) (files : Files) : UpdateAt :=
  match files path with
  | none => .saving call {} .dumps .empty
  | some _ => .loading call

/-- The next system call. -/
def advance (modelValidateJson : String → Option RuntimeState) (path : String) (files : Files) : UpdateAt → Files × UpdateAt
  | .idle => (files,.idle)
  | .loading call =>
    match stateIn modelValidateJson (files path) with
    | .ok loaded => (files,.saving call loaded .dumps .empty)
    | .error _ => (files,.idle)
  | .saving call loaded next buffer =>
    match saveStep path call loaded next { files, buffer } with
    | .ok _ t => (t.files,after call loaded t.buffer next)
    | .error _ t => (t.files,broken call t.buffer next)
  | .closing call buffer => ((stateOf (close call.host call.host.tmpName { files, buffer })).files,.unlinking call)
  | .unlinking call => ((stateOf (unlink call.host.tmpName { files })).files,.idle)

/-- The call that puts its state in place with the next system call. -/
def placing : UpdateAt → Option Call
  | .saving call _ .replace _ => if call.host.raises .replace then none else some call
  | _ => none

/-- The store after a system call of a process. -/
def settle (process : Nat) (next : Files × UpdateAt) (placed : Option Call) (s : SharedStore) : SharedStore where
  files := next.1
  updates := Function.update s.updates process next.2
  placed := s.placed ++ placed.toList

def step (modelValidateJson : String → Option RuntimeState) (path : String) (s : SharedStore) : Turn → SharedStore
  | .begin process call =>
    match s.updates process with
    | .idle => settle process (s.files,begun path call s.files) none s
    | _ => s
  | .go process =>
    settle process (advance modelValidateJson path s.files (s.updates process)) (placing (s.updates process)) s

@[simp] theorem settle_files (process : Nat) (next : Files × UpdateAt) (placed : Option Call) (s : SharedStore) :
    (settle process next placed s).files = next.1 := rfl

@[simp] theorem settle_self (process : Nat) (next : Files × UpdateAt) (placed : Option Call) (s : SharedStore) :
    (settle process next placed s).updates process = next.2 := by
  simp [settle]

@[simp] theorem settle_placed (process : Nat) (next : Files × UpdateAt) (placed : Option Call) (s : SharedStore) :
    (settle process next placed s).placed = s.placed ++ placed.toList := rfl

theorem settle_other {process other : Nat} (differs : other ≠ process) (next : Files × UpdateAt) (placed : Option Call)
    (s : SharedStore) : (settle process next placed s).updates other = s.updates other := by
  simp [settle,differs]

/-! ### An update on its own -/

section
variable {modelValidateJson : String → Option RuntimeState} {path : String} {call : Call} {loaded : RuntimeState}
  {origin : Files × UpdateAt}

/-- Some system calls lead from the one place to the other. -/
inductive Leads (modelValidateJson : String → Option RuntimeState) (path : String) (origin : Files × UpdateAt) :
    Files × UpdateAt → Prop
  | here : Leads modelValidateJson path origin origin
  | on {next : Files × UpdateAt} (leads : Leads modelValidateJson path origin next) :
      Leads modelValidateJson path origin (advance modelValidateJson path next.1 next.2)

/-- A process that has come from `origin` is at this place, with the disk that the program has. -/
def Arrives (modelValidateJson : String → Option RuntimeState) (path : String) (origin : Files × UpdateAt)
    (place : ByteArray → UpdateAt) (s : Disk) : Prop := Leads modelValidateJson path origin (s.files,place s.buffer)

/-- What a step does to files and buffer depends on these alone. -/
def Plain (change : Disk → Disk) : Prop :=
  ∀ s, (change { files := s.files, buffer := s.buffer }).files = (change s).files ∧
    (change { files := s.files, buffer := s.buffer }).buffer = (change s).buffer

/-- A step of a save, as the process takes it. -/
theorem perform_arrives {next : Step} {failed done : Disk → Disk}
    (same : saveStep path call loaded next = perform call.host next failed done) (fails : Plain failed) (does : Plain done) :
    Ensures (Arrives modelValidateJson path origin (fun buffer => .saving call loaded next buffer))
      (perform call.host next failed done)
      (fun _ => Arrives modelValidateJson path origin (fun buffer => after call loaded buffer next))
      (fun _ => Arrives modelValidateJson path origin (fun buffer => broken call buffer next)) := by
  intro s arrives
  have onward := arrives.on
  simp only [advance,same] at onward
  unfold perform at onward ⊢
  cases raises : call.host.raises next with
  | true => simpa [raises,noted,fails s,Arrives] using onward
  | false => simpa [raises,noted,does s,Arrives] using onward

theorem saveStep_arrives (next : Step) {failed done : Disk → Disk} {program : Program Unit}
    (same : saveStep path call loaded next = program) (performs : program = perform call.host next failed done)
    (fails : Plain failed) (does : Plain done) :
    Ensures (Arrives modelValidateJson path origin (fun buffer => .saving call loaded next buffer)) program
      (fun _ => Arrives modelValidateJson path origin (fun buffer => after call loaded buffer next))
      (fun _ => Arrives modelValidateJson path origin (fun buffer => broken call buffer next)) := by
  subst performs
  exact perform_arrives same fails does

theorem plain_id : Plain id := fun _ => ⟨rfl,rfl⟩

theorem dumps_performs : saveStep path call loaded .dumps = perform call.host .dumps id id := by
  rw [saveStep,dumps,bind_assoc]
  exact bind_pure_unit

theorem mkstemp_performs : saveStep path call loaded .mkstemp = perform call.host .mkstemp id
    (fun s => { s with files := Function.update s.files call.host.tmpName (some .empty) }) := by
  rw [saveStep,mkstemp,bind_assoc]
  exact bind_pure_unit

theorem dumps_arrives :
    Ensures (Arrives modelValidateJson path origin (fun buffer => .saving call loaded .dumps buffer))
      (dumps call.host (saved call loaded))
      (fun text s => Arrives modelValidateJson path origin (fun buffer => .saving call loaded .mkdir buffer) s ∧
        text = payload (saved call loaded))
      (fun _ => Arrives modelValidateJson path origin (fun _ => .idle)) :=
  (perform_arrives dumps_performs plain_id plain_id).bind (fun _ => ensures_pure (fun _ arrives => ⟨arrives,rfl⟩))

theorem mkstemp_arrives :
    Ensures (Arrives modelValidateJson path origin (fun buffer => .saving call loaded .mkstemp buffer)) (mkstemp call.host)
      (fun name s => Arrives modelValidateJson path origin (fun buffer => .saving call loaded .fdopen buffer) s ∧
        name = call.host.tmpName)
      (fun _ => Arrives modelValidateJson path origin (fun _ => .idle)) :=
  (perform_arrives mkstemp_performs plain_id (fun _ => ⟨rfl,rfl⟩)).bind
    (fun _ => ensures_pure (fun _ arrives => ⟨arrives,rfl⟩))

theorem close_arrives (_ : Failure) :
    Ensures (Arrives modelValidateJson path origin (fun buffer => .closing call buffer)) (close call.host call.host.tmpName)
      (fun _ => Arrives modelValidateJson path origin (fun _ => .unlinking call))
      (fun _ => Arrives modelValidateJson path origin (fun _ => .unlinking call)) := by
  intro s arrives
  have onward := arrives.on
  simp only [advance,close,perform] at onward
  unfold close perform
  cases raises : call.host.raises .close with
  | true => simpa [raises,noted,drain,Arrives] using onward
  | false => simpa [raises,noted,drain,Arrives] using onward

theorem unlink_arrives (_ : Failure) :
    Ensures (Arrives modelValidateJson path origin (fun _ => .unlinking call)) (unlink call.host.tmpName)
      (fun _ => Arrives modelValidateJson path origin (fun _ => .idle))
      (fun _ => Arrives modelValidateJson path origin (fun _ => .idle)) :=
  fun _ arrives => arrives.on

theorem writeHandle_arrives :
    Ensures (Arrives modelValidateJson path origin (fun buffer => .saving call loaded .fdopen buffer))
      (writeHandle call.host call.host.tmpName (payload (saved call loaded)))
      (fun _ => Arrives modelValidateJson path origin (fun buffer => .saving call loaded .replace buffer))
      (fun _ => Arrives modelValidateJson path origin (fun _ => .unlinking call)) := by
  have body : Ensures (Arrives modelValidateJson path origin (fun buffer => .saving call loaded .write buffer))
      (do
        write call.host call.host.tmpName (payload (saved call loaded))
        flush call.host call.host.tmpName
        fsync call.host)
      (fun _ => Arrives modelValidateJson path origin (fun buffer => .saving call loaded .close buffer))
      (fun _ => Arrives modelValidateJson path origin (fun buffer => .closing call buffer)) :=
    (saveStep_arrives .write rfl rfl (fun _ => ⟨rfl,rfl⟩) (fun _ => ⟨rfl,rfl⟩)).bind
      (fun _ => (saveStep_arrives .flush rfl rfl (fun _ => ⟨rfl,rfl⟩) (fun _ => ⟨rfl,rfl⟩)).bind
        (fun _ => saveStep_arrives .fsync rfl rfl (fun _ => ⟨rfl,rfl⟩) (fun _ => ⟨rfl,rfl⟩)))
  exact (saveStep_arrives .fdopen rfl rfl (fun _ => ⟨rfl,rfl⟩) (fun _ => ⟨rfl,rfl⟩)).bind
      (fun _ => (body.onError close_arrives).bind
        (fun _ => saveStep_arrives .close rfl rfl (fun _ => ⟨rfl,rfl⟩) (fun _ => ⟨rfl,rfl⟩)))

theorem save_arrives :
    Ensures (Arrives modelValidateJson path origin (fun buffer => .saving call loaded .dumps buffer))
      (save call.host path (call.mutate loaded)) (fun _ => Arrives modelValidateJson path origin (fun _ => .idle))
      (fun _ => Arrives modelValidateJson path origin (fun _ => .idle)) := by
  refine dumps_arrives.bind (fun text => ensures_and (fun written => ?_))
  subst written
  refine (saveStep_arrives .mkdir rfl rfl plain_id plain_id).bind (fun _ => ?_)
  refine mkstemp_arrives.bind (fun name => ensures_and (fun named => ?_))
  subst named
  have replaces := @saveStep_arrives modelValidateJson path call loaded origin .replace _ _ _ rfl rfl
    (fun _ => ⟨rfl,rfl⟩) (fun _ => ⟨rfl,rfl⟩)
  have body := writeHandle_arrives.bind (fun _ : Unit => replaces)
  exact (body.onError unlink_arrives).bind (fun _ => ensures_pure (fun _ arrives => arrives))

/-- A process that nothing interrupts does what `update` does, however it ends. -/
theorem update_arrives (files : Files) :
    Leads modelValidateJson path (files,begun path call files) (updated modelValidateJson path files call,.idle) := by
  unfold updated update
  cases there : files path with
  | none =>
    have loads : load modelValidateJson path { files := files } = .ok {} { files := files } := by
      simp [load_ok,there,stateIn]
    rw [bind_of_ok loads,begun,there]
    exact save_arrives.stateOf .here
  | some content =>
    have first : Leads modelValidateJson path (files,begun path call files) (files,.loading call) := by
      rw [begun,there]
      exact .here
    have read := first.on
    simp only [advance] at read
    cases loaded : stateIn modelValidateJson (files path) with
    | error failure =>
      have stops : load modelValidateJson path { files := files } = .error failure { files := files } := by
        simp [load,loaded,lift]
      rw [bind_of_error stops]
      rwa [loaded] at read
    | ok state =>
      rw [bind_of_ok (load_ok.mpr loaded)]
      rw [loaded] at read
      exact save_arrives.stateOf read

/-- The system calls of one process in a row. -/
theorem Leads.run {s : SharedStore} {process : Nat} {next : Files × UpdateAt}
    (leads : Leads modelValidateJson path (s.files,s.updates process) next) :
    ∃ calls placed, run (step modelValidateJson path) s (List.replicate calls (.go process)) =
      { files := next.1, updates := Function.update s.updates process next.2, placed } := by
  induction leads with
  | here => exact ⟨0,s.placed,by simp⟩
  | @on next leads ih =>
    obtain ⟨calls,placed,runs⟩ := ih
    refine ⟨calls + 1,placed ++ (placing next.2).toList,?_⟩
    rw [List.replicate_succ',run_concat,runs]
    simp [step,settle]

/-- A process that nothing interrupts comes to the end of its call, and leaves the files as
    `update` does, whatever raises. -/
theorem alone_updates {s : SharedStore} {process : Nat} (idle : s.updates process = .idle) (call : Call) :
    ∃ calls placed, Runs.run (step modelValidateJson path) s (.begin process call :: List.replicate calls (.go process)) =
      { files := updated modelValidateJson path s.files call, updates := s.updates, placed } := by
  have entered : step modelValidateJson path s (.begin process call) =
      settle process (s.files,begun path call s.files) none s := by
    simp only [step,idle]
  have leads : Leads modelValidateJson path (s.files,(settle process (s.files,begun path call s.files) none s).updates process)
      (updated modelValidateJson path s.files call,.idle) := by
    rw [settle_self]
    exact update_arrives s.files
  obtain ⟨calls,placed,runs⟩ := Leads.run (s := settle process (s.files,begun path call s.files) none s) leads
  refine ⟨calls,placed,?_⟩
  rw [run_cons,entered,runs]
  simp [settle,← idle]

end

end Hookclose.UpdateSteps
