import Hookclose.Json
import Hookclose.Rankings

/-!
The state of the build process: where it stands, which prompts are completed and which
have failed. Each operation returns a copy.
-/
namespace Hookclose.RuntimeStates
open Hookclose.Rankings

inductive RuntimePhase
  | bootstrapping
  | runtimeCore
  | providers
  | routing
  | workers
  | chaining
  | selfHealing
  | ciCd
  | stable
  deriving DecidableEq, Repr

def RuntimePhase.value : RuntimePhase → String
  | .bootstrapping => "BOOTSTRAPPING"
  | .runtimeCore => "RUNTIME_CORE"
  | .providers => "PROVIDERS"
  | .routing => "ROUTING"
  | .workers => "WORKERS"
  | .chaining => "CHAINING"
  | .selfHealing => "SELF_HEALING"
  | .ciCd => "CI_CD"
  | .stable => "STABLE"

structure RuntimeState where
  currentPhase : Int := 1
  currentPrompt : Int := 1
  completedPrompts : List Int := []
  failedPrompts : List Int := []
  architectureVersion : String := "v1"
  runtimeState : RuntimePhase := .bootstrapping
  updatedAt : Option String := none
  deriving DecidableEq, Repr

namespace RuntimeState

/-- A copy with the prompt recorded as completed; the pointer moves beyond it. -/
def markCompleted (prompt : Int) (state : RuntimeState) : RuntimeState :=
  { state with
    completedPrompts := sortedSet (state.completedPrompts ++ [prompt])
    failedPrompts := state.failedPrompts.filter (fun p => p ≠ prompt)
    currentPrompt := max state.currentPrompt (prompt + 1) }

/-- A copy with the prompt recorded as failed. -/
def markFailed (prompt : Int) (state : RuntimeState) : RuntimeState :=
  { state with failedPrompts := sortedSet (state.failedPrompts ++ [prompt]) }

def transition (phase : RuntimePhase) (state : RuntimeState) : RuntimeState := { state with runtimeState := phase }

def modelDump (state : RuntimeState) : Dict :=
  [("current_phase",.int state.currentPhase),("current_prompt",.int state.currentPrompt),
   ("completed_prompts",.list (state.completedPrompts.map .int)),("failed_prompts",.list (state.failedPrompts.map .int)),
   ("architecture_version",.str state.architectureVersion),("runtime_state",.str state.runtimeState.value),
   ("updated_at",(state.updatedAt.map Json.str).getD .null)]

end RuntimeState

end Hookclose.RuntimeStates
