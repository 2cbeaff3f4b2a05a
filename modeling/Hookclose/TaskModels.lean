import Hookclose.Json

/-!
The task record that the queues, the table and the chainer share.
-/
namespace Hookclose

inductive TaskStatus
  | pending
  | scheduled
  | running
  | completed
  | failed
  | retrying
  deriving DecidableEq, Repr

structure Task where
  id : String
  workflowId : Option String := none
  status : TaskStatus := .pending
  taskType : String := "generic"
  payload : Dict := []
  result : Option Dict := none
  provider : String := "opencode"
  attempts : Int := 0
  maxAttempts : Int := 3
  error : Option String := none

end Hookclose
