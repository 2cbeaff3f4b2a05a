import Hookclose.Runs
import Hookclose.StateStore

/-!
A save is atomic and loses nothing. Up to the last step it touches only the temporary
file (`Apart`), so an exception leaves every file as it was once the temporary file is
removed; the last step puts the complete text in place, and what is loaded from it is the
state that was saved, with its stamp.
-/
namespace Hookclose.StateSaving
open Hookclose.Programs Hookclose.Runs Hookclose.RuntimeStates Hookclose.RuntimeStates.RuntimeState Hookclose.StateStore
open Hookclose.JsonText (loads)

/-- The state as a save stamps it. -/
def stamped (host : Host) (state : RuntimeState) : RuntimeState := { state with updatedAt := some host.now }

/-- What is known of pydantic: the text of an object that has each declared field with a
    value of its type, in any order, gives the state with these values. -/
def Validates (float : String → String × FloatValue) (modelValidateJson : String → Option RuntimeState) : Prop :=
  ∀ text entries state, loads float text = some (.dict entries) → (entries.map Prod.fst).Nodup →
    (∀ key, Dictionaries.get key entries = Dictionaries.get key state.modelDump) → modelValidateJson text = some state

/-- A name that `mkstemp` finds: there is no such file, nor is it the one that is saved. -/
structure NewName (prior : Files) (path name : String) : Prop where
  fresh : prior name = none
  other : name ≠ path

/-! ### The temporary file -/

section
variable {host : Host} {prior : Files} {name path : String}

/-- The files are as before, now and after each step. -/
structure Untouched (prior : Files) (s : Disk) : Prop where
  files : s.files = prior
  seen : ∀ looked ∈ s.seen, looked = prior

/-- No file but the temporary one has changed, now and after each step. -/
structure Apart (prior : Files) (name : String) (s : Disk) : Prop where
  files : ∀ other ≠ name, s.files other = prior other
  seen : ∀ looked ∈ s.seen, ∀ other ≠ name, looked other = prior other

/-- The exception is that of a step that raises, with the temporary file still there. -/
def Stopped (host : Host) (prior : Files) (name : String) (failure : Failure) (s : Disk) : Prop :=
  Apart prior name s ∧ ∃ step, failure = .step step ∧ host.raises step = true

/-- The exception is that of a step that raises, the files are as before, and no reader has
    seen another content. -/
structure Reverted (host : Host) (prior : Files) (path : String) (failure : Failure) (s : Disk) : Prop where
  raised : ∃ step, failure = .step step ∧ host.raises step = true
  files : s.files = prior
  seen : ∀ looked ∈ s.seen, looked path = prior path

/-- The complete content is in place, nothing else has changed, and no reader has seen
    anything but the old content or the new one. -/
structure Placed (prior : Files) (path : String) (content : ByteArray) (s : Disk) : Prop where
  files : s.files = Function.update prior path (some content)
  seen : ∀ looked ∈ s.seen, looked path = prior path ∨ looked path = some content

/-- What a step does to the disk changes no file but the temporary one. -/
structure Confined (name : String) (change : Disk → Disk) : Prop where
  files : ∀ s, ∀ other ≠ name, (change s).files other = s.files other
  seen : ∀ s, (change s).seen = s.seen

theorem confined_id : Confined name id := ⟨fun _ _ _ => rfl,fun _ => rfl⟩

theorem confined_drain (count : Disk → Nat) : Confined name (fun s => drain name (count s) s) := by
  constructor
  · intro s other differs
    exact Function.update_of_ne differs _ s.files
  · intro s
    rfl

theorem Apart.noted {change : Disk → Disk} (confined : Confined name change) {s : Disk} (apart : Apart prior name s) :
    Apart prior name (noted (change s)) := by
  have files : ∀ other ≠ name, (change s).files other = prior other := by
    intro other differs
    rw [confined.files s other differs]
    exact apart.files other differs
  refine ⟨files,seen_noted.mpr ⟨?_,files⟩⟩
  rw [confined.seen]
  exact apart.seen

theorem Untouched.noted {s : Disk} (untouched : Untouched prior s) : Untouched prior (noted s) :=
  ⟨untouched.files,seen_noted.mpr ⟨untouched.seen,untouched.files⟩⟩

theorem Untouched.reverted {s : Disk} (untouched : Untouched prior s) {step : Step} (raises : host.raises step = true) :
    Reverted host prior path (.step step) s := by
  refine ⟨⟨step,rfl,raises⟩,untouched.files,?_⟩
  intro looked member
  rw [untouched.seen looked member]

theorem Untouched.apart {s : Disk} (untouched : Untouched prior s) : Apart prior name s := by
  constructor
  · intro other _
    rw [untouched.files]
  · intro looked member other _
    rw [untouched.seen looked member]

/-! ### The steps -/

/-- A step before there is a temporary file. -/
theorem perform_untouched {step : Step} {done : Disk → Disk} {post : Disk → Prop}
    (reached : ∀ s, Untouched prior s → post (noted (done s))) :
    Ensures (Untouched prior) (perform host step id done) (fun _ t => post t ∧ host.raises step = false)
      (Reverted host prior path) := by
  intro s untouched
  unfold perform
  cases raises : host.raises step with
  | true => exact untouched.noted.reverted raises
  | false => exact ⟨reached s untouched,rfl⟩

/-- A step that touches the temporary file at most. -/
theorem perform_apart {step : Step} {failed done : Disk → Disk} (keeps : Confined name failed) (changes : Confined name done)
    {pre post : Disk → Prop} (reached : ∀ s, pre s → post (noted (done s))) :
    Ensures (fun s => Apart prior name s ∧ pre s) (perform host step failed done)
      (fun _ t => (Apart prior name t ∧ post t) ∧ host.raises step = false) (Stopped host prior name) := by
  rintro s ⟨apart,holds⟩
  unfold perform
  cases raises : host.raises step with
  | true => exact ⟨apart.noted keeps,step,rfl,raises⟩
  | false => exact ⟨⟨apart.noted changes,reached s holds⟩,rfl⟩

/-- A step on the temporary file after an exception. -/
theorem perform_stopped {step : Step} {failed done : Disk → Disk} (keeps : Confined name failed)
    (changes : Confined name done) (failure : Failure) :
    Ensures (Stopped host prior name failure) (perform host step failed done) (fun _ => Stopped host prior name failure)
      (Stopped host prior name) := by
  rintro s ⟨apart,stopped⟩
  unfold perform
  cases raises : host.raises step with
  | true => exact ⟨apart.noted keeps,step,rfl,raises⟩
  | false => exact ⟨apart.noted changes,stopped⟩

/-- The temporary file is there and empty. -/
def Created (name : String) (s : Disk) : Prop := s.files name = some .empty

/-- The content is in the temporary file or still in the buffer. -/
def Buffered (name : String) (content : ByteArray) (s : Disk) : Prop :=
  ∃ reached, s.files name = some reached ∧ reached ++ s.buffer = content

/-- The content is in the temporary file. -/
def Complete (name : String) (content : ByteArray) (s : Disk) : Prop := s.files name = some content ∧ s.buffer = .empty

theorem buffered_drain {content : ByteArray} {s : Disk} (buffered : Buffered name content s) (count : Nat) :
    Buffered name content (noted (drain name count s)) := by
  obtain ⟨reached,file,rfl⟩ := buffered
  refine ⟨reached ++ s.buffer.extract 0 count,by simp [noted,drain,file],?_⟩
  have split : s.buffer.extract 0 count ++ s.buffer.extract count s.buffer.size = s.buffer := by
    rw [ByteArray.extract_append_extract,Nat.zero_min,ByteArray.extract_zero_max_size]
  show reached ++ s.buffer.extract 0 count ++ s.buffer.extract count s.buffer.size = reached ++ s.buffer
  rw [ByteArray.append_assoc,split]

theorem complete_drain {content : ByteArray} {s : Disk} (buffered : Buffered name content s) :
    Complete name content (noted (drain name s.buffer.size s)) := by
  obtain ⟨reached,file,rfl⟩ := buffered
  constructor
  · simp [noted,drain,file]
  · simp [noted,drain]

theorem dumps_ensures (state : RuntimeState) : Ensures (Untouched prior) (dumps host state)
    (fun text t => Untouched prior t ∧ host.raises .dumps = false ∧ text = payload state) (Reverted host prior path) :=
  (perform_untouched (fun _ untouched => untouched.noted)).bind
    (fun _ => ensures_pure (fun _ holds => ⟨holds.1,holds.2,rfl⟩))

theorem mkdir_ensures : Ensures (Untouched prior) (mkdir host)
    (fun _ t => Untouched prior t ∧ host.raises .mkdir = false) (Reverted host prior path) :=
  perform_untouched (fun _ untouched => untouched.noted)

theorem mkstemp_ensures : Ensures (Untouched prior) (mkstemp host)
    (fun name t => (Apart prior host.tmpName t ∧ Created host.tmpName t) ∧ host.raises .mkstemp = false ∧ name = host.tmpName)
    (Reverted host prior path) := by
  have confined : Confined host.tmpName
      (fun s : Disk => { s with files := Function.update s.files host.tmpName (some .empty) }) := by
    constructor
    · intro s other differs
      exact Function.update_of_ne differs _ s.files
    · intro s
      rfl
  have made : ∀ s, Untouched prior s → Apart prior host.tmpName
      (noted { s with files := Function.update s.files host.tmpName (some .empty) }) ∧ Created host.tmpName
      (noted { s with files := Function.update s.files host.tmpName (some .empty) }) :=
    fun s untouched => ⟨untouched.apart.noted confined,Function.update_self ..⟩
  exact (perform_untouched made).bind (fun _ => ensures_pure (fun _ holds => ⟨holds.1,holds.2,rfl⟩))

theorem fdopen_ensures : Ensures (fun s => Apart prior name s ∧ Created name s) (fdopen host)
    (fun _ t => (Apart prior name t ∧ Complete name .empty t) ∧ host.raises .fdopen = false) (Stopped host prior name) := by
  have confined : Confined name (fun s : Disk => { s with buffer := .empty }) := ⟨fun _ _ _ => rfl,fun _ => rfl⟩
  exact perform_apart confined_id confined (fun s created => ⟨created,rfl⟩)

theorem write_ensures (text : String) : Ensures (fun s => Apart prior name s ∧ Complete name .empty s) (write host name text)
    (fun _ t => (Apart prior name t ∧ Buffered name text.toUTF8 t) ∧ host.raises .write = false)
    (Stopped host prior name) := by
  have confined : Confined name
      (fun s : Disk => drain name (host.reaches .write) { s with buffer := s.buffer ++ text.toUTF8 }) := by
    constructor
    · intro s other differs
      exact Function.update_of_ne differs _ s.files
    · intro s
      rfl
  refine perform_apart confined confined ?_
  rintro s ⟨file,buffer⟩
  apply buffered_drain
  exact ⟨.empty,file,by rw [buffer,ByteArray.empty_append,ByteArray.empty_append]⟩

theorem flush_ensures {content : ByteArray} : Ensures (fun s => Apart prior name s ∧ Buffered name content s) (flush host name)
    (fun _ t => (Apart prior name t ∧ Complete name content t) ∧ host.raises .flush = false) (Stopped host prior name) :=
  perform_apart (confined_drain _) (confined_drain _) (fun _ => complete_drain)

theorem fsync_ensures {content : ByteArray} : Ensures (fun s => Apart prior name s ∧ Complete name content s) (fsync host)
    (fun _ t => (Apart prior name t ∧ Complete name content t) ∧ host.raises .fsync = false) (Stopped host prior name) :=
  perform_apart confined_id confined_id (fun _ complete => complete)

theorem close_ensures {content : ByteArray} : Ensures (fun s => Apart prior name s ∧ Complete name content s) (close host name)
    (fun _ t => (Apart prior name t ∧ Complete name content t) ∧ host.raises .close = false) (Stopped host prior name) := by
  refine perform_apart (confined_drain _) (confined_drain _) ?_
  rintro s ⟨file,buffer⟩
  exact complete_drain ⟨content,file,by rw [buffer,ByteArray.append_empty]⟩

theorem close_stopped (failure : Failure) : Ensures (Stopped host prior name failure) (close host name)
    (fun _ => Stopped host prior name failure) (Stopped host prior name) :=
  perform_stopped (confined_drain (fun _ => host.reaches .close)) (confined_drain (fun s => s.buffer.size)) failure

/-- The steps on the open file do not raise. -/
structure Quiet (host : Host) : Prop where
  fdopen : host.raises .fdopen = false
  write : host.raises .write = false
  flush : host.raises .flush = false
  fsync : host.raises .fsync = false
  close : host.raises .close = false

/-- The `with` block leaves the complete text in the temporary file, or it raises. -/
theorem writeHandle_ensures (text : String) : Ensures (fun s => Apart prior name s ∧ Created name s)
    (writeHandle host name text) (fun _ t => (Apart prior name t ∧ Complete name text.toUTF8 t) ∧ Quiet host)
    (Stopped host prior name) := by
  refine fdopen_ensures.bind (fun _ => ensures_and (fun fdopen => ?_))
  have body : Ensures (fun s => Apart prior name s ∧ Complete name .empty s)
      (do
        write host name text
        flush host name
        fsync host)
      (fun _ t => ((Apart prior name t ∧ Complete name text.toUTF8 t) ∧ host.raises .fsync = false) ∧
        host.raises .write = false ∧ host.raises .flush = false) (Stopped host prior name) := by
    refine (write_ensures text).bind (fun _ => ensures_and (fun write => ?_))
    refine flush_ensures.bind (fun _ => ensures_and (fun flush => ?_))
    exact fsync_ensures.mono (fun _ holds => holds) (fun _ _ holds => ⟨holds,write,flush⟩) (fun _ _ stopped => stopped)
  refine (body.onError close_stopped).bind (fun _ => ensures_and (fun early => ensures_and (fun fsync => ?_)))
  exact close_ensures.mono (fun _ holds => holds) (fun _ _ holds => ⟨holds.1,fdopen,early.1,early.2,fsync,holds.2⟩)
    (fun _ _ stopped => stopped)

/-! ### The whole save -/

/-- The temporary file takes the place of the file. -/
theorem replace_ensures {content : ByteArray} (new : NewName prior path name) :
    Ensures (fun s => Apart prior name s ∧ Complete name content s) (replace host name path)
      (fun _ t => Placed prior path content t ∧ host.raises .replace = false) (Stopped host prior name) := by
  rintro s ⟨apart,file,_⟩
  unfold replace perform
  cases raises : host.raises .replace with
  | true => exact ⟨apart.noted confined_id,.replace,rfl,raises⟩
  | false =>
    have files : Function.update (Function.update s.files path (s.files name)) name none =
        Function.update prior path (some content) := by
      funext file'
      by_cases temporary : file' = name
      · rw [temporary,Function.update_self,Function.update_of_ne new.other,new.fresh]
      · rw [Function.update_of_ne temporary,file]
        by_cases own : file' = path
        · rw [own,Function.update_self,Function.update_self]
        · rw [Function.update_of_ne own,Function.update_of_ne own,apart.files file' temporary]
    refine ⟨⟨files,seen_noted.mpr ⟨?_,?_⟩⟩,rfl⟩
    · intro looked earlier
      exact .inl (apart.seen looked earlier path new.other.symm)
    · exact .inr ((congrFun files path).trans (Function.update_self ..))

/-- Removing the temporary file restores the files. -/
theorem unlink_ensures (new : NewName prior path name) (failure : Failure) :
    Ensures (Stopped host prior name failure) (unlink name) (fun _ => Reverted host prior path failure)
      (Reverted host prior path) := by
  rintro s ⟨apart,raised⟩
  have files : Function.update s.files name none = prior := by
    funext file
    by_cases temporary : file = name
    · rw [temporary,Function.update_self,new.fresh]
    · rw [Function.update_of_ne temporary,apart.files file temporary]
  refine ⟨raised,files,seen_noted.mpr ⟨?_,congrFun files path⟩⟩
  intro looked earlier
  exact apart.seen looked earlier path new.other.symm

theorem save_ensures (new : NewName prior path host.tmpName) (state : RuntimeState) :
    Ensures (Untouched prior) (save host path state)
      (fun saved t => saved = stamped host state ∧ Placed prior path (payload (stamped host state)).toUTF8 t ∧
        ∀ step, host.raises step = false) (Reverted host prior path) := by
  refine (dumps_ensures (stamped host state)).bind (fun text => ensures_and (fun ⟨dumps,written⟩ => ?_))
  subst written
  refine mkdir_ensures.bind (fun _ => ensures_and (fun mkdir => ?_))
  refine mkstemp_ensures.bind (fun name => ensures_and (fun ⟨mkstemp,named⟩ => ?_))
  subst named
  have body : Ensures (fun s => Apart prior host.tmpName s ∧ Created host.tmpName s)
      (do
        writeHandle host host.tmpName (payload (stamped host state))
        replace host host.tmpName path)
      (fun _ t => Placed prior path (payload (stamped host state)).toUTF8 t ∧ Quiet host ∧ host.raises .replace = false)
      (Stopped host prior host.tmpName) := by
    refine (writeHandle_ensures (payload (stamped host state))).bind (fun _ => ensures_and (fun quiet => ?_))
    exact (replace_ensures new).mono (fun _ holds => holds) (fun _ _ holds => ⟨holds.1,quiet,holds.2⟩)
      (fun _ _ stopped => stopped)
  refine (body.onError (unlink_ensures new)).bind (fun _ => ensures_pure ?_)
  rintro s ⟨placed,quiet,replace⟩
  refine ⟨rfl,placed,?_⟩
  intro step
  cases step with
  | dumps => exact dumps
  | mkdir => exact mkdir
  | mkstemp => exact mkstemp
  | fdopen => exact quiet.fdopen
  | write => exact quiet.write
  | flush => exact quiet.flush
  | fsync => exact quiet.fsync
  | close => exact quiet.close
  | replace => exact replace

end

/-! ### What is loaded -/

section
variable {float : String → String × FloatValue}

theorem ints_sorted (numbers : List Int) : JsonText.sorted (.list (numbers.map .int)) = .list (numbers.map .int) := by
  have items : JsonText.sortedItems (numbers.map .int) = numbers.map .int := by
    induction numbers with
    | nil => rfl
    | cons number rest ih =>
      have own : JsonText.sorted (.int number) = .int number := rfl
      rw [List.map_cons,JsonText.sortedItems,ih,own]
  rw [JsonText.sorted,items]

theorem ints_carried (numbers : List Int) : JsonText.Carried float (.list (numbers.map .int)) := by
  rw [JsonText.Carried]
  induction numbers with
  | nil => trivial
  | cons number rest ih => exact ⟨trivial,ih⟩

theorem modelDump_distinct (state : RuntimeState) : (state.modelDump.map Prod.fst).Nodup := by
  have names : state.modelDump.map Prod.fst =
    ["current_phase","current_prompt","completed_prompts","failed_prompts","architecture_version","runtime_state","updated_at"] := rfl
  rw [names]
  decide

/-- JSON carries every value of a state, and has nothing in it to sort. -/
theorem modelDump_values (state : RuntimeState) : ∀ entry ∈ state.modelDump,
    JsonText.Carried float entry.2 ∧ JsonText.sorted entry.2 = entry.2 := by
  have stamp : ∀ updatedAt : Option String, JsonText.Carried float ((updatedAt.map Json.str).getD .null) ∧
      JsonText.sorted ((updatedAt.map Json.str).getD .null) = (updatedAt.map Json.str).getD .null := by
    intro updatedAt
    cases updatedAt with
    | none => exact ⟨trivial,rfl⟩
    | some time => exact ⟨trivial,rfl⟩
  unfold modelDump
  simp only [List.forall_mem_cons]
  exact ⟨⟨trivial,rfl⟩,⟨trivial,rfl⟩,⟨ints_carried _,ints_sorted _⟩,⟨ints_carried _,ints_sorted _⟩,⟨trivial,rfl⟩,
    ⟨trivial,rfl⟩,stamp _,List.forall_mem_nil _⟩

theorem modelDump_carried (state : RuntimeState) : JsonText.Carried float (.dict state.modelDump) := by
  rw [JsonText.Carried]
  refine ⟨modelDump_distinct state,?_⟩
  rw [JsonText.carriedEntries_iff]
  exact fun entry member => (modelDump_values state entry member).1

/-- The text of a state is that of an object with its values. -/
theorem payload_validates {modelValidateJson : String → Option RuntimeState} (validates : Validates float modelValidateJson)
    (state : RuntimeState) : modelValidateJson (payload state) = some state := by
  have carried : JsonText.Carried float (.dict state.modelDump) := modelDump_carried state
  have document := JsonText.loads_dumpsSorted_line float 2 carried
  have distinct := JsonText.sorted_carried float carried
  rw [JsonText.sorted] at document distinct
  rw [JsonText.Carried] at distinct
  refine validates (payload state) _ state document distinct.1 ?_
  intro key
  rw [JsonText.get_sorted (modelDump_distinct state)]
  cases found : Dictionaries.get key state.modelDump with
  | none => rfl
  | some value =>
    rw [Option.map_some,(@modelDump_values float state _ (Dictionaries.mem_of_get found)).2]

/-- A file with the text of a state is loaded as that state. -/
theorem stateIn_payload {modelValidateJson : String → Option RuntimeState} (validates : Validates float modelValidateJson)
    (state : RuntimeState) : stateIn modelValidateJson (some (payload state).toUTF8) = .ok state := by
  have text : JsonFiles.readText (payload state).toUTF8 = some (payload state) :=
    JsonFiles.readText_dumpsSorted float 2 (modelDump_carried state)
  have valid := payload_validates validates state
  simp only [stateIn,text,valid]

theorem load_ok {modelValidateJson : String → Option RuntimeState} {path : String} {s : Disk} {state : RuntimeState} :
    load modelValidateJson path s = .ok state s ↔ stateIn modelValidateJson (s.files path) = .ok state := by
  unfold load
  rw [lift_ok,and_iff_left rfl]

end

/-! ### How a save ends -/

/-- A save ends with the state in place, loaded as it was returned, or with the exception of
    a step and all files as they were; no reader sees a content that is neither. -/
inductive SaveEnds (host : Host) (modelValidateJson : String → Option RuntimeState) (prior : Files) (path : String)
    (state : RuntimeState) : EStateM.Result Failure Disk RuntimeState → Prop
  | saved {after : Disk} (quiet : ∀ step, host.raises step = false)
      (loaded : load modelValidateJson path after = .ok (stamped host state) after)
      (others : ∀ file ≠ path, after.files file = prior file)
      (seen : ∀ looked ∈ after.seen, looked path = prior path ∨ looked path = after.files path) :
      SaveEnds host modelValidateJson prior path state (.ok (stamped host state) after)
  | reverted {failure : Failure} {after : Disk} (reverted : Reverted host prior path failure after) :
      SaveEnds host modelValidateJson prior path state (.error failure after)

/-! ### A validation -/

def readInt : Json → Option Int
  | .int value => some value
  | _ => none

def readInts : Json → Option (List Int)
  | .list items => items.mapM readInt
  | _ => none

def readStr : Json → Option String
  | .str value => some value
  | _ => none

def readPhase : Json → Option RuntimePhase
  | .str value =>
    [.bootstrapping,.runtimeCore,.providers,.routing,.workers,.chaining,.selfHealing,.ciCd,.stable].find?
      (fun phase => phase.value = value)
  | _ => none

def readStamp : Json → Option (Option String)
  | .null => some none
  | .str value => some (some value)
  | _ => none

/-- A declared field, or its default. -/
def field {α : Type} (name : String) (read : Json → Option α) (default : α) (entries : Dict) : Option α :=
  match Dictionaries.get name entries with
  | some value => read value
  | none => some default

/-- The fields as the class declares them, without conversions between types; any other is
    refused. -/
def declared (entries : Dict) : Option RuntimeState := do
  let currentPhase ← field "current_phase" readInt 1 entries
  let currentPrompt ← field "current_prompt" readInt 1 entries
  let completedPrompts ← field "completed_prompts" readInts [] entries
  let failedPrompts ← field "failed_prompts" readInts [] entries
  let architectureVersion ← field "architecture_version" readStr "v1" entries
  let runtimeState ← field "runtime_state" readPhase .bootstrapping entries
  let updatedAt ← field "updated_at" readStamp none entries
  if entries.all (fun entry => (({} : RuntimeState).modelDump.map Prod.fst).contains entry.1) then
    pure { currentPhase, currentPrompt, completedPrompts, failedPrompts, architectureVersion, runtimeState, updatedAt }
  else none

def validateDeclared (float : String → String × FloatValue) (text : String) : Option RuntimeState :=
  match loads float text with
  | some (.dict entries) => declared entries
  | _ => none

theorem readInts_list (numbers : List Int) : readInts (.list (numbers.map .int)) = some numbers := by
  rw [readInts]
  induction numbers with
  | nil => rfl
  | cons number rest ih => rw [List.map_cons,List.mapM_cons,ih]; rfl

theorem readPhase_value (phase : RuntimePhase) : readPhase (.str phase.value) = some phase := by
  cases phase <;> decide

theorem readStamp_stamp (updatedAt : Option String) : readStamp ((updatedAt.map Json.str).getD .null) = some updatedAt := by
  cases updatedAt <;> rfl

theorem validateDeclared_validates (float : String → String × FloatValue) : Validates float (validateDeclared float) := by
  intro text entries state document distinct same
  have names : entries.all (fun entry => (({} : RuntimeState).modelDump.map Prod.fst).contains entry.1) = true := by
    rw [List.all_eq_true]
    rintro ⟨name,value⟩ member
    have found : Dictionaries.get name state.modelDump = some value := by
      rw [← same,Dictionaries.get_some distinct]
      exact member
    have inside : name ∈ state.modelDump.map Prod.fst := List.mem_map_of_mem (Dictionaries.mem_of_get found)
    rw [List.contains_iff_mem]
    exact inside
  have read : ∀ {α : Type} (name : String) (read : Json → Option α) (default : α),
      field name read default entries = field name read default state.modelDump := by
    intro α name read default
    rw [field,same,field]
  unfold validateDeclared
  rw [document]
  have phase : field "current_phase" readInt 1 state.modelDump = some state.currentPhase := rfl
  have prompt : field "current_prompt" readInt 1 state.modelDump = some state.currentPrompt := rfl
  have completed : field "completed_prompts" readInts [] state.modelDump = some state.completedPrompts :=
    readInts_list state.completedPrompts
  have failed : field "failed_prompts" readInts [] state.modelDump = some state.failedPrompts :=
    readInts_list state.failedPrompts
  have version : field "architecture_version" readStr "v1" state.modelDump = some state.architectureVersion := rfl
  have runtime : field "runtime_state" readPhase .bootstrapping state.modelDump = some state.runtimeState :=
    readPhase_value state.runtimeState
  have updated : field "updated_at" readStamp none state.modelDump = some state.updatedAt := readStamp_stamp state.updatedAt
  simp only [declared,read,phase,prompt,completed,failed,version,runtime,updated,names]
  rfl

/-! ### Saves are atomic -/

section
variable {float : String → String × FloatValue} {modelValidateJson : String → Option RuntimeState}

/-- The content that is put in place is loaded as what was saved. -/
theorem placed_loaded (validates : Validates float modelValidateJson) {prior : Files} {path : String} {state : RuntimeState}
    {s : Disk} (placed : Placed prior path (payload state).toUTF8 s) : stateIn modelValidateJson (s.files path) = .ok state := by
  rw [placed.files,Function.update_self]
  exact stateIn_payload validates state

/-- A save is atomic and loses nothing. -/
theorem save_atomic (validates : Validates float modelValidateJson) (host : Host) (prior : Files) (path : String)
    (state : RuntimeState) (new : NewName prior path host.tmpName) :
    SaveEnds host modelValidateJson prior path state (save host path state { files := prior }) := by
  have ends := save_ensures new state { files := prior } ⟨rfl,List.forall_mem_nil _⟩
  cases done : save host path state { files := prior } with
  | ok value after =>
    rw [done] at ends
    obtain ⟨rfl,placed,quiet⟩ := ends
    refine .saved quiet (load_ok.mpr (placed_loaded validates placed)) ?_ ?_
    · intro file differs
      rw [placed.files,Function.update_of_ne differs]
    · rw [placed.files,Function.update_self]
      exact placed.seen
  | error failure after =>
    rw [done] at ends
    exact .reverted ends

/-! ### Updates -/

/-- An update, and the machine during it. -/
structure Call where
  host : Host
  mutate : RuntimeState → RuntimeState

/-- The files after an update. -/
def updated (modelValidateJson : String → Option RuntimeState) (path : String) (files : Files) (call : Call) : Files :=
  (stateOf (update call.host modelValidateJson path call.mutate { files := files })).files

/-- No step raises. -/
def succeeds (host : Host) : Bool :=
  [Step.dumps,.mkdir,.mkstemp,.fdopen,.write,.flush,.fsync,.close,.replace].all (fun step => !host.raises step)

/-- What an update does to the state: everything, or nothing if a step raises. -/
def commit (state : RuntimeState) (call : Call) : RuntimeState :=
  if succeeds call.host then stamped call.host (call.mutate state) else state

theorem succeeds_iff {host : Host} : succeeds host = true ↔ ∀ step, host.raises step = false := by
  unfold succeeds
  rw [List.all_eq_true]
  constructor
  · intro all step
    have listed := all step (by cases step <;> decide)
    simpa using listed
  · intro quiet step _
    rw [quiet step]
    rfl

theorem updated_commit (validates : Validates float modelValidateJson) {path : String} {files : Files}
    {state : RuntimeState} (held : stateIn modelValidateJson (files path) = .ok state) {call : Call}
    (new : NewName files path call.host.tmpName) :
    stateIn modelValidateJson (updated modelValidateJson path files call path) = .ok (commit state call) := by
  have loaded : load modelValidateJson path { files := files } = .ok state { files := files } := load_ok.mpr held
  have ends := save_ensures new (call.mutate state) { files := files } ⟨rfl,List.forall_mem_nil _⟩
  unfold updated update commit
  rw [bind_of_ok loaded]
  cases done : save call.host path (call.mutate state) { files := files } with
  | ok value after =>
    rw [done] at ends
    obtain ⟨rfl,placed,quiet⟩ := ends
    rw [if_pos (succeeds_iff.mpr quiet)]
    exact placed_loaded validates placed
  | error failure after =>
    rw [done] at ends
    obtain ⟨step,_,raises⟩ := ends.raised
    have stopped : ¬ succeeds call.host = true := by
      intro quiet
      rw [succeeds_iff.mp quiet step] at raises
      cases raises
    rw [if_neg stopped,stateOf_error,ends.files]
    exact held

/-- A run of updates, any of which may fail at any step, leaves the state that those that
    succeed make of the first one. -/
theorem run_updates (validates : Validates float modelValidateJson) (path : String) (calls : List Call) :
    ∀ {files : Files} {state : RuntimeState}, stateIn modelValidateJson (files path) = .ok state →
      Each (updated modelValidateJson path) (fun files call => NewName files path call.host.tmpName) files calls →
      stateIn modelValidateJson (run (updated modelValidateJson path) files calls path) = .ok (run commit state calls) := by
  induction calls with
  | nil =>
    intro files state held _
    exact held
  | cons call calls ih =>
    intro files state held names
    obtain ⟨new,later⟩ := each_cons.mp names
    exact ih (updated_commit validates held new) later

end

/-- A machine on which some steps raise. -/
def machine (raises : Step → Bool) : Host where
  now := "2026-01-01T00:00:00+00:00"
  tmpName := "repo/.system_state-a.tmp"
  raises := raises
  reaches := fun _ => 7

/-- A save that works, and one that cannot be synchronized. -/
theorem first_save :
    SaveEnds (machine (fun _ => false)) (validateDeclared (fun text => (text,.nan))) (fun _ => none) "repo/SYSTEM_STATE.json" {}
      (save (machine (fun _ => false)) "repo/SYSTEM_STATE.json" {} { files := fun _ => none }) ∧
    SaveEnds (machine (fun step => step = .fsync)) (validateDeclared (fun text => (text,.nan))) (fun _ => none)
      "repo/SYSTEM_STATE.json" {}
      (save (machine (fun step => step = .fsync)) "repo/SYSTEM_STATE.json" {} { files := fun _ => none }) := by
  have other : "repo/.system_state-a.tmp" ≠ "repo/SYSTEM_STATE.json" := by decide
  have new : ∀ raises, NewName (fun _ => none) "repo/SYSTEM_STATE.json" (machine raises).tmpName :=
    fun _ => ⟨rfl,other⟩
  exact ⟨save_atomic (validateDeclared_validates _) _ _ _ _ (new _),save_atomic (validateDeclared_validates _) _ _ _ _ (new _)⟩

instance (prior : Files) (path name : String) : Decidable (NewName prior path name) :=
  decidable_of_iff ((prior name).isNone ∧ name ≠ path) (by
    rw [Option.isNone_iff_eq_none]
    exact ⟨fun both => ⟨both.1,both.2⟩,fun new => ⟨new.fresh,new.other⟩⟩)

/-- Of two updates of a file that is not there the second cannot be synchronized. -/
theorem two_updates :
    let calls : List Call := [⟨machine (fun _ => false),fun state => state.markCompleted 1⟩,
      ⟨machine (fun step => step = .fsync),fun state => state.markCompleted 2⟩]
    let modelValidateJson := validateDeclared (fun text => (text,.nan))
    stateIn modelValidateJson (run (updated modelValidateJson "repo/SYSTEM_STATE.json") (fun _ => none) calls
      "repo/SYSTEM_STATE.json") = .ok (run commit {} calls) := by
  intro calls modelValidateJson
  exact run_updates (validateDeclared_validates _) "repo/SYSTEM_STATE.json" calls rfl (by decide)

end Hookclose.StateSaving
