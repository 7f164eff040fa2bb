import Hopclaw.Domain.RunState
import Hopclaw.Domain.Scope
import Hopclaw.Domain.Err
import Hopclaw.Domain.Value
import Hopclaw.Planner.State

/-! # Runs, messages and events

The records of `agent/types.go`, with the fields that the modelled functions read or write. -/

namespace Hopclaw

open GoStrings

/-- A tool invocation requested by the model. -/
structure ToolCall where
  id : String
  name : String
  input : List (String × Value) := []

inductive PreflightState
  | ready | autoPreparing | needsConfirmation
deriving DecidableEq

structure RunPreflightReport where
  state : PreflightState
  blocking : Bool := false
deriving DecidableEq

structure Run where
  id : String
  sessionID : String
  scope : Ref := {}
  parentRunID : String := ""
  inputEventID : String := ""
  status : RunStatus := .queued
  queueMode : QueueMode := .enqueue
  phase : RunPhase := .preparing
  executionMode : ExecutionMode := .direct
  model : String := ""
  lastSessionRevision : ℕ := 0
  toolRounds : ℕ := 0
  approvalID : String := ""
  pendingTools : List ToolCall := []
  preflight : Option RunPreflightReport := none
  error : String := ""
  plan : Option Planner.Plan := none
  startedAt : Time := 0
  updatedAt : Time := 0
  finishedAt : Time := 0

/-- The run as `Update` stamps it. -/
def Run.stamped (run : Run) (now : Time) : Run :=
  { run with updatedAt := now }

structure IncomingMessage where
  sessionID : String := ""
  sessionKey : String
  parentRunID : String := ""
  externalEventID : String := ""
  content : String := ""
  model : String := ""
  automationID : String := ""

def scopeRefFromIncomingMessage (msg : IncomingMessage) : Ref :=
  Ref.normalize ⟨trimSpace msg.automationID⟩

structure AgentConfig where
  defaultModel : String := ""
  queueMode : QueueMode := .enqueue
  /-- `DedupeWindow`, in the unit of the clock; not positive means without limit. -/
  dedupeWindow : ℤ := 0
  /-- The text of a timeout: `run timed out`, and `after` the printed `MaxRunDuration` if that is
      set. -/
  timeoutText : String := "run timed out"

def defaultString (v fallback : String) : String :=
  if v ≠ "" then v else fallback

/-- Which runs `RunLister.List` returns; `none` and `""` are no restriction, `limit = 0` no
    limit. -/
structure RunListFilter where
  sessionID : String := ""
  status : Option RunStatus := none
  scope : ScopeFilter := {}
  limit : ℕ := 0

/-! ## Events -/

inductive EventType
  | runSubmitted | runPreflightUpdated | runWaitingInput | runStarted | runResumed
  | runCompleted | runFailed | runCancelled | runTimeout
  | approvalRequested | runWaitingApproval | approvalResolved
  | planTaskFailed | planTaskSkipped | planTaskCancelled | planSnapshotUpdated | taskProgress
  | workflowYielded
deriving DecidableEq

/-- An event on the bus: its type and the ids it is published under. -/
structure Event where
  type : EventType
  runID : String
  sessionID : String
deriving DecidableEq

end Hopclaw
