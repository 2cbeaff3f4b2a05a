import Hookclose.Programs
import Hookclose.Runs
import Hookclose.TaskModels
import Mathlib.Data.List.Forall2
import Mathlib.Data.List.Sort

/-!
The task repository on its database: the statements it sends, the columns that the
`tasks` table has, and the decoder of the rows that come back. Beside it a map of tasks
says what the calls are for. The two part at a statement that names the column `error`,
which the table lacks, and at every row that is decoded, because a `jsonb` value comes
back as text.
-/
namespace Hookclose.TaskSql
open Hookclose.Programs Hookclose.Runs

/-! ### The database -/

/-- Postgres behind `asyncpg`, as far as it is not told by the schema: the text in which a
    value sent through `json.dumps` as `jsonb` comes back, if it is accepted. -/
structure Database where
  jsonb : Dict → Option String
  object : ∀ value text, jsonb value = some text → text.toList.head? = some '\x7b'

/-- What a TEXT column accepts. -/
def isText (value : String) : Bool := !value.toList.contains '\x00'

/-- What an INT column accepts. -/
def isInt4 (value : Int) : Bool := decide (-2147483648 ≤ value ∧ value ≤ 2147483647)

/-- What LIMIT accepts. -/
def isInt8 (value : Nat) : Bool := decide (value ≤ 9223372036854775807)

def isHex (c : Char) : Bool := c.isDigit || "abcdef".toList.contains c

/-- The hexadecimal digits of a text, hyphens left out. -/
def digits (text : String) : List Char := (text.toList.filter (fun c => c ≠ '-')).map Char.toLower

/-- What a UUID column accepts. -/
def isUuid (text : String) : Bool :=
  decide (text.utf8ByteSize ≤ 36 ∧ (digits text).length = 32) && (digits text).all isHex

/-- The text in which a UUID comes back. -/
def canonical (text : String) : String :=
  String.ofList ((digits text).take 8 ++ '-' :: ((digits text).drop 8).take 4 ++ '-' :: ((digits text).drop 12).take 4 ++
    '-' :: ((digits text).drop 16).take 4 ++ '-' :: (digits text).drop 20)

structure Uuid where
  text : String
  valid : isUuid text = true

/-- A row of the `tasks` table; `jsonb` values are their texts. -/
structure TaskRow where
  id : String
  workflowId : Option String
  status : String
  taskType : String
  payload : String
  result : Option String
  provider : Option String
  attempts : Int
  maxAttempts : Int
  createdAt : Int
  updatedAt : Int

/-- The rows in the order of insertion. -/
abbrev Table := List TaskRow

/-- A value that an UPDATE assigns. -/
inductive SqlValue
  | text (value : String)
  | jsonb (value : Dict)
  | int (value : Int)
  | now

/-- A column of the table takes a value, or the statement is rejected. -/
def setColumn (db : Database) (now : Int) (column : String) : SqlValue → Except String (TaskRow → TaskRow)
  | .text value =>
    if column = "status" then
      if isText value then .ok (fun row => { row with status := value })
      else .error "invalid byte sequence for encoding \"UTF8\": 0x00"
    else .error ("column \"" ++ column ++ "\" of relation \"tasks\" does not exist")
  | .jsonb value =>
    if column = "result" then
      match db.jsonb value with
      | some text => .ok (fun row => { row with result := some text })
      | none => .error "invalid input syntax for type json"
    else .error ("column \"" ++ column ++ "\" of relation \"tasks\" does not exist")
  | .int value =>
    if column = "attempts" then
      if isInt4 value then .ok (fun row => { row with attempts := value }) else .error "value out of int32 range"
    else .error ("column \"" ++ column ++ "\" of relation \"tasks\" does not exist")
  | .now =>
    if column = "updated_at" then .ok (fun row => { row with updatedAt := now })
    else .error ("column \"" ++ column ++ "\" of relation \"tasks\" does not exist")

/-- `UPDATE tasks SET .. WHERE id = ..`. -/
def update (db : Database) (now : Int) (sets : List (String × SqlValue)) (id : String) (table : Table) :
    Except String Table := do
  let changes ← sets.mapM (fun set => setColumn db now set.1 set.2)
  pure (table.map (fun row => if row.id = canonical id then changes.foldl (fun row change => change row) row else row))

/-! ### The repository -/

def statusValue : TaskStatus → String
  | .pending => "PENDING"
  | .scheduled => "SCHEDULED"
  | .running => "RUNNING"
  | .completed => "COMPLETED"
  | .failed => "FAILED"
  | .retrying => "RETRYING"

/-- `TaskStatus(..)`. -/
def toStatus (text : String) : Except String TaskStatus :=
  match [TaskStatus.pending,.scheduled,.running,.completed,.failed,.retrying].find?
    (fun status => statusValue status = text) with
  | some status => .ok status
  | none => .error (Text.repr text ++ " is not a valid TaskStatus")

/-- `dict(..)` of a text: its characters are no pairs. -/
def toDict (text : String) : Except String Dict :=
  if text = "" then .ok [] else .error "dictionary update sequence element #0 has length 1; 2 is required"

/-- `_row_to_task`. The row has no column `error`. -/
def rowToTask (row : TaskRow) : Except String Task := do
  let status ← toStatus row.status
  let payload ← if row.payload = "" then pure [] else toDict row.payload
  let result ← match row.result with
    | some text => do pure (some (← toDict text))
    | none => pure none
  pure {
    id := row.id
    workflowId := if row.workflowId = some "" then none else row.workflowId
    status := status
    taskType := row.taskType
    payload := payload
    result := result
    provider := if row.provider.getD "" = "" then "opencode" else row.provider.getD ""
    attempts := row.attempts
    maxAttempts := row.maxAttempts
    error := none }

/-- What a call returns. -/
inductive Answer
  | task (found : Option Task)
  | tasks (found : List Task)
  | done

/-- The row that an INSERT stores: the columns that it does not name take their defaults. -/
def insertedRow (db : Database) (now : Int) (task : Task) : Except String TaskRow :=
  match db.jsonb task.payload with
  | none => .error "invalid input syntax for type json"
  | some payload =>
    if isText task.taskType && isText task.provider then
      if isInt4 task.maxAttempts then
        .ok { id := canonical task.id
              workflowId := task.workflowId
              status := statusValue task.status
              taskType := task.taskType
              payload := payload
              result := none
              provider := some task.provider
              attempts := 0
              maxAttempts := task.maxAttempts
              createdAt := now
              updatedAt := now }
      else .error "value out of int32 range"
    else .error "invalid byte sequence for encoding \"UTF8\": 0x00"

def create (db : Database) (now : Int) (task : Task) (table : Table) : Table × Except String Answer :=
  match insertedRow db now task with
  | .error message => (table,.error message)
  | .ok row =>
    if table.any (fun other => other.id = canonical task.id) then
      (table,.error "duplicate key value violates unique constraint \"tasks_pkey\"")
    else (table ++ [row],(toStatus row.status).map (fun status => .task (some { task with status := status })))

def get (id : String) (table : Table) : Except String Answer :=
  match table.find? (fun row => row.id = canonical id) with
  | none => .ok (.task none)
  | some row => (rowToTask row).map (fun task => .task (some task))

/-- The assignments of the UPDATE that the arguments call for. -/
def sets (status : TaskStatus) (result : Option Dict) (error : Option String) (attempts : Option Int) :
    List (String × SqlValue) :=
  [("status",.text (statusValue status)),("updated_at",.now)] ++
    (result.map (fun value => ("result",SqlValue.jsonb value))).toList ++
    (error.map (fun value => ("error",SqlValue.text value))).toList ++
    (attempts.map (fun value => ("attempts",SqlValue.int value))).toList

def updateStatus (db : Database) (now : Int) (id : String) (status : TaskStatus) (result : Option Dict)
    (error : Option String) (attempts : Option Int) (table : Table) : Table × Except String Answer :=
  match update db now (sets status result error attempts) id table with
  | .error message => (table,.error message)
  | .ok table => (table,.ok .done)

/-- The rows in the order of their creation. -/
def byCreation (table : Table) : Table := table.insertionSort (fun first second => first.createdAt ≤ second.createdAt)

def getPending (limit : Nat) (table : Table) : Except String Answer :=
  if isInt8 limit then
    (((byCreation (table.filter (fun row => row.status = "PENDING"))).take limit).mapM rowToTask).map Answer.tasks
  else .error "value out of int64 range"

/-! ### The map of tasks -/

/-- The tasks in the order of their creation. -/
abbrev TaskMap := List Task

/-- What a status update means for a task. -/
def updated (status : TaskStatus) (result : Option Dict) (error : Option String) (attempts : Option Int) (task : Task) :
    Task :=
  { task with
    status := status
    result := result.or task.result
    error := error.or task.error
    attempts := attempts.getD task.attempts }

/-! ### Calls -/

/-- A task as it is created. -/
structure NewTask where
  task : Task
  uuid : isUuid task.id = true
  noWorkflow : task.workflowId = none
  pending : task.status = .pending

inductive Call
  | create (task : NewTask)
  | updateStatus (id : Uuid) (status : TaskStatus) (result : Option Dict) (error : Option String) (attempts : Option Int)
  | get (id : Uuid)
  | getPending (limit : Nat)

/-- A call on the repository, at a time of the server. -/
def perform (db : Database) (now : Int) (table : Table) : Call → Table × Except String Answer
  | .create task => create db now task.task table
  | .updateStatus id status result error attempts => updateStatus db now id.text status result error attempts table
  | .get id => (table,get id.text table)
  | .getPending limit => (table,getPending limit table)

/-- The same call on the map; it refuses only to create a task that is there. -/
def mapPerform (tasks : TaskMap) : Call → TaskMap × Option Answer
  | .create task =>
    if tasks.any (fun other => canonical other.id = canonical task.task.id) then (tasks,none)
    else (tasks ++ [task.task],some (.task (some task.task)))
  | .updateStatus id status result error attempts =>
    (tasks.map (fun task =>
      if canonical task.id = canonical id.text then updated status result error attempts task else task),some .done)
  | .get id => (tasks,some (.task (tasks.find? (fun task => canonical task.id = canonical id.text))))
  | .getPending limit => (tasks,some (.tasks ((tasks.filter (fun task => task.status = .pending)).take limit)))

/-- The table with the map that it should behave as. -/
structure Paired where
  table : Table := []
  tasks : TaskMap := []

/-- A call on both, at a time of the server. -/
def step (db : Database) (s : Paired) (call : Int × Call) : Paired :=
  ⟨(perform db call.1 s.table call.2).1,(mapPerform s.tasks call.2).1⟩

/-- An UPDATE has changed the status, the fields that are given and the time of the
    update of one row, and nothing else. -/
def ChangesOnly (db : Database) (now : Int) (before after : Table) (id : String) (status : TaskStatus)
    (result : Option Dict) (attempts : Option Int) : Prop :=
  after = before.map (fun row =>
    if row.id = canonical id then
      { row with
        status := statusValue status
        result := (result.bind db.jsonb).or row.result
        attempts := attempts.getD row.attempts
        updatedAt := now }
    else row)

/-- A call on the repository answers as on the map, and changes what it should. -/
structure Behaves (db : Database) (s : Paired) (call : Int × Call) : Prop where
  answers : (perform db call.1 s.table call.2).2.toOption = (mapPerform s.tasks call.2).2
  changes : ∀ id status result error attempts, call.2 = .updateStatus id status result error attempts →
    ChangesOnly db call.1 s.table (step db s call).table id.text status result attempts

/-! ### Where the repository behaves -/

/-- The columns take the values of a task. -/
structure Storable (db : Database) (task : Task) : Prop where
  payload : (db.jsonb task.payload).isSome = true
  taskType : isText task.taskType = true
  provider : isText task.provider = true
  maxAttempts : isInt4 task.maxAttempts = true

/-- No error is to be stored, and the columns take the values of an UPDATE. -/
def Settable (db : Database) (result : Option Dict) (error : Option String) (attempts : Option Int) : Prop :=
  error = none ∧ (∀ value, result = some value → (db.jsonb value).isSome = true) ∧
    ∀ value, attempts = some value → isInt4 value = true

/-- No row has to be decoded, no error stored, and every value fits its column. -/
def Plain (db : Database) (table : Table) : Call → Prop
  | .create task => (∃ row ∈ table, row.id = canonical task.task.id) ∨ Storable db task.task
  | .updateStatus _ _ result error attempts => Settable db result error attempts
  | .get id => ∀ row ∈ table, row.id ≠ canonical id.text
  | .getPending limit => isInt8 limit = true ∧ (limit = 0 ∨ ∀ row ∈ table, row.status ≠ "PENDING")

@[simp] theorem toStatus_statusValue (status : TaskStatus) : toStatus (statusValue status) = .ok status := by
  cases status <;> decide +kernel

theorem statusValue_pending {status : TaskStatus} : statusValue status = "PENDING" ↔ status = .pending := by
  cases status <;> simp [statusValue]

/-- A row and its task: what a call can tell of them without decoding the row. -/
structure Mirrors (row : TaskRow) (task : Task) : Prop where
  id : row.id = canonical task.id
  status : row.status = statusValue task.status
  payload : row.payload ≠ ""

/-- No row comes back as a task. -/
theorem rowToTask_error {row : TaskRow} {task : Task} (mirrors : Mirrors row task) :
    ∃ message, rowToTask row = .error message := by
  simp only [rowToTask,mirrors.status,toStatus_statusValue,mirrors.payload,if_false,toDict]
  exact ⟨_,rfl⟩

theorem jsonb_nonempty {db : Database} {value : Dict} {text : String} (stored : db.jsonb value = some text) :
    text ≠ "" := by
  rintro rfl
  have head := db.object value "" stored
  cases head

/-- An INSERT is accepted exactly when the columns take its values. -/
theorem insertedRow_cases (db : Database) (now : Int) (task : Task) :
    (Storable db task ∧ ∃ row, insertedRow db now task = .ok row ∧ Mirrors row task) ∨
      (¬ Storable db task ∧ ∃ message, insertedRow db now task = .error message) := by
  unfold insertedRow
  cases stored : db.jsonb task.payload with
  | none => exact .inr ⟨fun storable => by simpa [stored] using storable.payload,_,rfl⟩
  | some payload =>
    by_cases texts : (isText task.taskType && isText task.provider) = true
    · have both := texts
      rw [Bool.and_eq_true] at both
      by_cases fits : isInt4 task.maxAttempts = true
      · left
        simp only [texts,fits,if_true]
        exact ⟨⟨by simp [stored],both.1,both.2,fits⟩,_,rfl,rfl,rfl,jsonb_nonempty stored⟩
      · right
        simp only [texts,if_true,if_neg fits]
        exact ⟨fun storable => fits storable.maxAttempts,_,rfl⟩
    · right
      simp only [if_neg texts]
      exact ⟨fun storable => texts (by simp [storable.taskType,storable.provider]),_,rfl⟩

theorem statusValue_isText (status : TaskStatus) : isText (statusValue status) = true := by
  cases status <;> decide +kernel

theorem sets_error (db : Database) (now : Int) (status : TaskStatus) (result : Option Dict) (text : String)
    (attempts : Option Int) :
    ∃ message, (sets status result (some text) attempts).mapM (fun set => setColumn db now set.1 set.2) =
      .error message := by
  have listed : ("error",SqlValue.text text) ∈ sets status result (some text) attempts := by simp [sets]
  have refused : setColumn db now "error" (.text text) =
      .error "column \"error\" of relation \"tasks\" does not exist" := by simp [setColumn]
  exact mapM_error listed refused

/-- The changes that an UPDATE without an error makes to a row, if its columns take the values. -/
theorem sets_cases (db : Database) (now : Int) (status : TaskStatus) (result : Option Dict) (attempts : Option Int) :
    (Settable db result none attempts ∧ ∃ changes : List (TaskRow → TaskRow),
        (sets status result none attempts).mapM (fun set => setColumn db now set.1 set.2) = .ok changes ∧
        ∀ row, changes.foldl (fun row change => change row) row =
          { row with
            status := statusValue status
            result := (result.bind db.jsonb).or row.result
            attempts := attempts.getD row.attempts
            updatedAt := now }) ∨
      (¬ Settable db result none attempts ∧
        ∃ message, (sets status result none attempts).mapM (fun set => setColumn db now set.1 set.2) =
          .error message) := by
  by_cases stored : ∀ value, result = some value → (db.jsonb value).isSome = true
  · by_cases fits : ∀ value, attempts = some value → isInt4 value = true
    · refine .inl ⟨⟨rfl,stored,fits⟩,?_⟩
      cases result with
      | none =>
        cases attempts with
        | none => exact ⟨_,by simp [sets,setColumn,statusValue_isText]; rfl,fun row => rfl⟩
        | some value =>
          have fit := fits value rfl
          exact ⟨_,by simp [sets,setColumn,statusValue_isText,fit]; rfl,fun row => rfl⟩
      | some value =>
        obtain ⟨text,accepted⟩ := Option.isSome_iff_exists.mp (stored value rfl)
        cases attempts with
        | none => exact ⟨_,by simp [sets,setColumn,statusValue_isText,accepted]; rfl,fun row => by simp [accepted]⟩
        | some count =>
          have fit := fits count rfl
          exact ⟨_,by simp [sets,setColumn,statusValue_isText,accepted,fit]; rfl,fun row => by simp [accepted]⟩
    · refine .inr ⟨fun settable => fits settable.2.2,?_⟩
      simp only [not_forall] at fits
      obtain ⟨value,rfl,overflow⟩ := fits
      have listed : ("attempts",SqlValue.int value) ∈ sets status result none (some value) := by simp [sets]
      have refused : setColumn db now "attempts" (.int value) = .error "value out of int32 range" := by
        simp [setColumn,overflow]
      exact mapM_error listed refused
  · refine .inr ⟨fun settable => stored settable.2.1,?_⟩
    simp only [not_forall] at stored
    obtain ⟨value,rfl,refused⟩ := stored
    rw [Bool.not_eq_true,Option.isSome_eq_false_iff,Option.isNone_iff_eq_none] at refused
    have listed : ("result",SqlValue.jsonb value) ∈ sets status (some value) none attempts := by simp [sets]
    have rejected : setColumn db now "result" (.jsonb value) = .error "invalid input syntax for type json" := by
      simp [setColumn,refused]
    exact mapM_error listed rejected

/-- An UPDATE is accepted exactly when it stores no error and the columns take its
    values, and then it changes only what it should. -/
theorem updateStatus_cases (db : Database) (now : Int) (id : String) (status : TaskStatus) (result : Option Dict)
    (error : Option String) (attempts : Option Int) (table : Table) :
    (Settable db result error attempts ∧ ∃ after,
        updateStatus db now id status result error attempts table = (after,.ok .done) ∧
          ChangesOnly db now table after id status result attempts) ∨
      (¬ Settable db result error attempts ∧
        ∃ message, updateStatus db now id status result error attempts table = (table,.error message)) := by
  unfold updateStatus update
  cases error with
  | some text =>
    obtain ⟨message,refused⟩ := sets_error db now status result text attempts
    right
    rw [refused]
    exact ⟨fun settable => absurd settable.1 (by simp),message,rfl⟩
  | none =>
    rcases sets_cases db now status result attempts with
      ⟨settable,changes,accepted,change⟩ | ⟨unsettable,message,refused⟩
    · left
      rw [accepted]
      refine ⟨settable,_,rfl,?_⟩
      simp only [ChangesOnly,change]
    · right
      rw [refused]
      exact ⟨unsettable,message,rfl⟩

/-! ### Calls on both -/

section
variable {table : Table} {tasks : TaskMap}

theorem mirrored_ids (mirror : List.Forall₂ Mirrors table tasks) :
    table.map TaskRow.id = tasks.map (fun task => canonical task.id) := by
  induction mirror with
  | nil => rfl
  | cons first _ ih => rw [List.map_cons,List.map_cons,first.id,ih]

theorem mirrored_any (mirror : List.Forall₂ Mirrors table tasks) (id : String) :
    table.any (fun row => row.id = id) = tasks.any (fun task => canonical task.id = id) := by
  have ids := congrArg (fun ids => ids.any (fun other => decide (other = id))) (mirrored_ids mirror)
  simpa [List.any_map,Function.comp_def] using ids

/-- A lookup finds nothing on both sides, or a row and its task. -/
theorem mirrored_find (mirror : List.Forall₂ Mirrors table tasks) (id : String) :
    (table.find? (fun row => row.id = id) = none ∧ tasks.find? (fun task => canonical task.id = id) = none) ∨
      ∃ row task, table.find? (fun row => row.id = id) = some row ∧
        tasks.find? (fun task => canonical task.id = id) = some task ∧ Mirrors row task := by
  induction mirror with
  | nil => exact .inl ⟨rfl,rfl⟩
  | @cons row task _ _ first _ ih =>
    by_cases found : row.id = id
    · right
      refine ⟨row,task,by simp [found],?_,first⟩
      have same : canonical task.id = id := first.id ▸ found
      simp [same]
    · have differs : canonical task.id ≠ id := fun same => found (first.id.trans same)
      simpa [found,differs] using ih

theorem mirrored_pending (mirror : List.Forall₂ Mirrors table tasks) :
    List.Forall₂ Mirrors (table.filter (fun row => row.status = "PENDING"))
      (tasks.filter (fun task => task.status = .pending)) := by
  induction mirror with
  | nil => exact .nil
  | @cons row task _ _ first _ ih =>
    have status : row.status = "PENDING" ↔ task.status = .pending := by rw [first.status,statusValue_pending]
    by_cases pending : task.status = .pending
    · have same := status.mpr pending
      simpa [pending,same] using List.Forall₂.cons first ih
    · have differs : row.status ≠ "PENDING" := fun same => pending (status.mp same)
      simpa [pending,differs] using ih

/-- A row and its task are changed together. -/
theorem mirrored_map (mirror : List.Forall₂ Mirrors table tasks) (id : String) {change : TaskRow → TaskRow}
    {update : Task → Task} (changed : ∀ {row task}, Mirrors row task → Mirrors (change row) (update task)) :
    List.Forall₂ Mirrors (table.map (fun row => if row.id = id then change row else row))
      (tasks.map (fun task => if canonical task.id = id then update task else task)) := by
  induction mirror with
  | nil => exact .nil
  | @cons row task _ _ first _ ih =>
    rw [List.map_cons,List.map_cons]
    refine .cons ?_ ih
    by_cases own : row.id = id
    · have same : canonical task.id = id := first.id ▸ own
      rw [if_pos own,if_pos same]
      exact changed first
    · have other : canonical task.id ≠ id := fun same => own (first.id.trans same)
      rw [if_neg own,if_neg other]
      exact first

theorem mirrored_member (mirror : List.Forall₂ Mirrors table tasks) {row : TaskRow} (member : row ∈ table) :
    ∃ task, Mirrors row task := by
  induction mirror with
  | nil => cases member
  | cons first _ ih =>
    rcases List.mem_cons.mp member with rfl | later
    · exact ⟨_,first⟩
    · exact ih later

end

section
variable {db : Database} {now : Int} {s : Paired}

/-- Only an UPDATE has changes to account for. -/
theorem behaves_iff {call : Call}
    (other : ∀ id status result error attempts, call ≠ .updateStatus id status result error attempts) :
    Behaves db s (now,call) ↔ (perform db now s.table call).2.toOption = (mapPerform s.tasks call).2 := by
  constructor
  · exact Behaves.answers
  · intro answers
    refine ⟨answers,?_⟩
    intro id status result error attempts same
    exact absurd same (other id status result error attempts)

theorem any_iff {id : String} : s.table.any (fun row => row.id = id) = true ↔ ∃ row ∈ s.table, row.id = id := by
  simp

theorem create_behaves (mirror : List.Forall₂ Mirrors s.table s.tasks) (task : NewTask) :
    Behaves db s (now,.create task) ↔ Plain db s.table (.create task) := by
  rw [behaves_iff (by simp)]
  have both := mirrored_any mirror (canonical task.task.id)
  by_cases present : s.table.any (fun row => row.id = canonical task.task.id) = true
  · have listed : ∃ row ∈ s.table, row.id = canonical task.task.id := any_iff.mp present
    refine iff_of_true ?_ (.inl listed)
    simp only [perform,create,mapPerform,← both,present,if_true]
    cases insertedRow db now task.task <;> rfl
  · have absent : ¬ ∃ row ∈ s.table, row.id = canonical task.task.id := fun listed => present (any_iff.mpr listed)
    simp only [perform,create,mapPerform,← both,if_neg present,Plain,absent,false_or]
    rcases insertedRow_cases db now task.task with ⟨storable,row,inserted,mirrors⟩ | ⟨unstorable,message,refused⟩
    · refine iff_of_true ?_ storable
      simp only [inserted,mirrors.status,toStatus_statusValue]
      rfl
    · refine iff_of_false ?_ unstorable
      rw [refused]
      simp [Except.toOption]

theorem updateStatus_behaves (id : Uuid) (status : TaskStatus) (result : Option Dict) (error : Option String)
    (attempts : Option Int) : Behaves db s (now,.updateStatus id status result error attempts) ↔
      Plain db s.table (.updateStatus id status result error attempts) := by
  rcases updateStatus_cases db now id.text status result error attempts s.table with
    ⟨settable,after,accepted,changes⟩ | ⟨unsettable,message,refused⟩
  · refine iff_of_true ⟨?_,?_⟩ settable
    · simp only [perform,accepted]
      rfl
    · rintro _ _ _ _ _ ⟨⟩
      simp only [step,perform,accepted]
      exact changes
  · refine iff_of_false ?_ unsettable
    intro behaves
    have answers := behaves.answers
    simp only [perform,refused] at answers
    cases answers

theorem get_behaves (mirror : List.Forall₂ Mirrors s.table s.tasks) (id : Uuid) :
    Behaves db s (now,.get id) ↔ Plain db s.table (.get id) := by
  rw [behaves_iff (by simp)]
  rcases mirrored_find mirror (canonical id.text) with ⟨row,task⟩ | ⟨row,task,found,listed,mirrors⟩
  · refine iff_of_true ?_ ?_
    · simp only [perform,get,mapPerform,row,task]
      rfl
    · intro other member same
      have absent := List.find?_eq_none.mp row other member
      simp [same] at absent
  · obtain ⟨message,fails⟩ := rowToTask_error mirrors
    refine iff_of_false ?_ ?_
    · simp only [perform,get,mapPerform,found,listed,fails]
      intro same
      cases same
    · intro absent
      have named := List.find?_some found
      exact absent row (List.mem_of_find?_eq_some found) (of_decide_eq_true named)

/-- The rows that `get_pending` selects. -/
theorem selected_mem {table : Table} {limit : Nat} {row : TaskRow}
    (member : row ∈ (byCreation (table.filter (fun row => row.status = "PENDING"))).take limit) : row ∈ table := by
  have inside := List.mem_of_mem_take member
  rw [byCreation,List.mem_insertionSort] at inside
  exact (List.mem_filter.mp inside).1

theorem selected_nil {table : Table} {limit : Nat} :
    (byCreation (table.filter (fun row => row.status = "PENDING"))).take limit = [] ↔
      limit = 0 ∨ ∀ row ∈ table, row.status ≠ "PENDING" := by
  rw [List.take_eq_nil_iff]
  refine or_congr Iff.rfl ?_
  have sorted : byCreation (table.filter (fun row => row.status = "PENDING")) = [] ↔
      table.filter (fun row => row.status = "PENDING") = [] := by
    rw [← List.length_eq_zero_iff,← List.length_eq_zero_iff,byCreation,List.length_insertionSort]
  rw [sorted,List.filter_eq_nil_iff]
  simp

/-- The pending tasks are missing on both sides, or on neither. -/
theorem mirrored_nil {table : Table} {tasks : TaskMap} (mirror : List.Forall₂ Mirrors table tasks) {limit : Nat}
    (nothing : limit = 0 ∨ ∀ row ∈ table, row.status ≠ "PENDING") :
    (tasks.filter (fun task => task.status = .pending)).take limit = [] := by
  rcases nothing with rfl | none
  · exact List.take_zero
  · have pending := mirrored_pending mirror
    have empty : table.filter (fun row => row.status = "PENDING") = [] := by
      rw [List.filter_eq_nil_iff]
      intro row member
      simpa using none row member
    rw [empty] at pending
    rw [List.forall₂_nil_left_iff.mp pending,List.take_nil]

theorem getPending_behaves (mirror : List.Forall₂ Mirrors s.table s.tasks) (limit : Nat) :
    Behaves db s (now,.getPending limit) ↔ Plain db s.table (.getPending limit) := by
  rw [behaves_iff (by simp)]
  by_cases fits : isInt8 limit = true
  · by_cases nothing : limit = 0 ∨ ∀ row ∈ s.table, row.status ≠ "PENDING"
    · refine iff_of_true ?_ ⟨fits,nothing⟩
      simp only [perform,getPending,fits,if_true,mapPerform,selected_nil.mpr nothing,mirrored_nil mirror nothing]
      rfl
    · refine iff_of_false ?_ (fun plain => nothing plain.2)
      have nonempty := mt selected_nil.mp nothing
      obtain ⟨first,taken⟩ := List.exists_mem_of_ne_nil _ nonempty
      obtain ⟨task,mirrors⟩ := mirrored_member mirror (selected_mem taken)
      obtain ⟨message,fails⟩ := rowToTask_error mirrors
      obtain ⟨_,refused⟩ := mapM_error taken fails
      simp only [perform,getPending,fits,if_true,mapPerform,refused]
      intro same
      cases same
  · refine iff_of_false ?_ (fun plain => fits plain.1)
    simp only [perform,getPending,if_neg fits,mapPerform]
    intro same
    cases same

/-- Rows and tasks stay in step as long as no call parts them. -/
theorem step_mirrors (mirror : List.Forall₂ Mirrors s.table s.tasks) (call : Int × Call)
    (plain : Plain db s.table call.2) : List.Forall₂ Mirrors (step db s call).table (step db s call).tasks := by
  obtain ⟨now,call⟩ := call
  cases call with
  | create task =>
    have both := mirrored_any mirror (canonical task.task.id)
    by_cases present : s.table.any (fun row => row.id = canonical task.task.id) = true
    · have table : (step db s (now,.create task)).table = s.table := by
        simp only [step,perform,create,present,if_true]
        cases insertedRow db now task.task <;> rfl
      have tasks : (step db s (now,.create task)).tasks = s.tasks := by
        simp only [step,mapPerform,← both,present,if_true]
      rw [table,tasks]
      exact mirror
    · have absent : ¬ ∃ row ∈ s.table, row.id = canonical task.task.id := fun listed => present (any_iff.mpr listed)
      have storable : Storable db task.task := plain.resolve_left absent
      rcases insertedRow_cases db now task.task with ⟨_,row,inserted,mirrors⟩ | ⟨unstorable,_⟩
      · simp only [step,perform,create,mapPerform,← both,if_neg present,inserted]
        exact List.rel_append mirror (.cons mirrors .nil)
      · exact absurd storable unstorable
  | updateStatus id status result error attempts =>
    rcases updateStatus_cases db now id.text status result error attempts s.table with
      ⟨_,after,accepted,changes⟩ | ⟨unsettable,_⟩
    · have table : (step db s (now,.updateStatus id status result error attempts)).table = after := by
        rw [step,perform,accepted]
      have tasks : (step db s (now,.updateStatus id status result error attempts)).tasks =
          s.tasks.map (fun task =>
            if canonical task.id = canonical id.text then updated status result error attempts task else task) := rfl
      rw [table,tasks,changes]
      exact mirrored_map mirror (canonical id.text) (fun mirrors => ⟨mirrors.id,rfl,mirrors.payload⟩)
    · exact absurd plain unsettable
  | get id => exact mirror
  | getPending limit => exact mirror

end

/-- In every run of calls from an empty table, the repository behaves as a map of tasks
    in every call exactly when in every call no row has to be decoded, no error is stored,
    and every value fits its column. -/
theorem behaves_iff_plain (db : Database) (calls : List (Int × Call)) :
    Each (step db) (Behaves db) {} calls ↔ Each (step db) (fun s call => Plain db s.table call.2) {} calls := by
  refine each_iff_each (fun s => List.Forall₂ Mirrors s.table s.tasks) ?_
    (fun s call mirror plain => step_mirrors mirror call plain) .nil
  rintro s ⟨now,call⟩ mirror
  cases call with
  | create task => exact create_behaves mirror task
  | updateStatus id status result error attempts => exact updateStatus_behaves id status result error attempts
  | get id => exact get_behaves mirror id
  | getPending limit => exact getPending_behaves mirror limit

/-! ### A task that is created and read back -/

/-- A database for tasks without payload. -/
def bare : Database where
  jsonb value := if value.isEmpty then some "\x7b\x7d" else none
  object := by
    intro value text stored
    split_ifs at stored
    rw [← Option.some.inj stored]
    decide +kernel

def plainTask : NewTask where
  task := { id := "00000000-0000-4000-8000-000000000001" }
  uuid := by decide +kernel
  noWorkflow := rfl
  pending := rfl

/-- The row is there, and its payload comes back as a text that `dict` refuses. -/
theorem created_unreadable :
    ¬ Each (step bare) (Behaves bare) {} [(0,.create plainTask),(1,.get ⟨plainTask.task.id,plainTask.uuid⟩)] := by
  rw [each_cons,each_cons]
  rintro ⟨_,second,_⟩
  have refused : (perform bare 1 (step bare {} (0,.create plainTask)).table
      (.get ⟨plainTask.task.id,plainTask.uuid⟩)).2.toOption.isSome = false := by
    decide +kernel
  have answers := second.answers
  rw [answers] at refused
  cases refused

end Hookclose.TaskSql
