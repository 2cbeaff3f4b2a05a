import Hookclose.TaskModels
import Mathlib.Data.List.Nodup
import Mathlib.Logic.Function.Basic

/-!
The task table as the repository uses it: rows by identifier, in order of creation. Rows are
held decoded; the columns as the driver returns them are in `TaskSql`.
-/
namespace Hookclose.TaskRepository

/-- The identifiers in order of creation, and the row of each, under its own identifier. -/
structure TaskTable where
  ids : List String
  row : String → Option Task
  distinct : ids.Nodup
  listed : ∀ id, id ∈ ids ↔ (row id).isSome = true
  named : ∀ id task, row id = some task → task.id = id

namespace TaskTable

def empty : TaskTable := ⟨[],fun _ => none,List.nodup_nil,by simp,by simp⟩

/-- The row that an INSERT stores: the other columns take their defaults. -/
def inserted (task : Task) : Task := { task with result := none, attempts := 0, error := none }

/-- A second row under one identifier is refused. -/
def create (task : Task) (table : TaskTable) : TaskTable :=
  if absent : table.row task.id = none then
    { ids := table.ids ++ [task.id]
      row := Function.update table.row task.id (some (inserted task))
      distinct := by
        rw [List.nodup_append]
        refine ⟨table.distinct,by simp,?_⟩
        intro id member other isNew same
        rw [List.mem_singleton.mp isNew] at same
        rw [same,table.listed,absent] at member
        cases member
      listed := by
        intro id
        by_cases same : id = task.id
        · simp [same]
        · simp [same,table.listed]
      named := by
        intro id row found
        by_cases same : id = task.id
        · subst same
          rw [Function.update_self,Option.some.injEq] at found
          rw [← found]
          rfl
        · rw [Function.update_of_ne same] at found
          exact table.named id row found }
  else table

/-- `update_status`: the fields that are given are set; a missing row stays missing. -/
def updateStatus (id : String) (status : TaskStatus) (result : Option Dict) (error : Option String)
    (attempts : Option Int) (table : TaskTable) : TaskTable where
  ids := table.ids
  row := Function.update table.row id ((table.row id).map (fun row =>
    { row with
      status := status
      result := result.or row.result
      error := error.or row.error
      attempts := attempts.getD row.attempts }))
  distinct := table.distinct
  listed := by
    intro other
    by_cases same : other = id
    · subst same
      simp [table.listed]
    · simp [same,table.listed]
  named := by
    intro other row found
    by_cases same : other = id
    · subst same
      rw [Function.update_self,Option.map_eq_some_iff] at found
      obtain ⟨before,old,rfl⟩ := found
      exact table.named other before old
    · rw [Function.update_of_ne same] at found
      exact table.named other row found

/-- `_row_to_task`: a row without a provider is for the default one. -/
def rowToTask (row : Task) : Task := { row with provider := if row.provider = "" then "opencode" else row.provider }

def get (id : String) (table : TaskTable) : Option Task := (table.row id).map rowToTask

/-- The oldest pending tasks. -/
def getPending (limit : Nat) (table : TaskTable) : List Task :=
  (((table.ids.filterMap table.row).filter (fun row => row.status = .pending)).take limit).map rowToTask

end TaskTable

open TaskTable

@[simp] theorem empty_row (id : String) : TaskTable.empty.row id = none := rfl

theorem create_row {task : Task} {table : TaskTable} {id : String} {row : Task}
    (found : (table.create task).row id = some row) :
    table.row id = some row ∨ (id = task.id ∧ table.row id = none ∧ row = inserted task) := by
  unfold create at found
  split_ifs at found with absent
  · by_cases same : id = task.id
    · subst same
      right
      simp only [Function.update_self,Option.some.injEq] at found
      exact ⟨rfl,absent,found.symm⟩
    · left
      simpa [same] using found
  · exact .inl found

theorem create_kept {task : Task} {table : TaskTable} {id : String} {row : Task} (found : table.row id = some row) :
    (table.create task).row id = some row := by
  unfold create
  split_ifs with absent
  · have other : id ≠ task.id := by
      intro same
      rw [same,absent] at found
      cases found
    simpa [other] using found
  · exact found

@[simp] theorem updateStatus_other {id other : String} (differs : other ≠ id) (status : TaskStatus)
    (result : Option Dict) (error : Option String) (attempts : Option Int) (table : TaskTable) :
    (table.updateStatus id status result error attempts).row other = table.row other := by
  simp [updateStatus,differs]

theorem updateStatus_self {id : String} {table : TaskTable} {row : Task} (found : table.row id = some row)
    (status : TaskStatus) (result : Option Dict) (error : Option String) (attempts : Option Int) :
    (table.updateStatus id status result error attempts).row id =
      some { row with
        status := status
        result := result.or row.result
        error := error.or row.error
        attempts := attempts.getD row.attempts } := by
  simp [updateStatus,found]

end Hookclose.TaskRepository
