import Hopclaw.Interleaving.Trace
import Hopclaw.Workflow.Continuation

/-! # The chain of continuation runs

One original run and the runs that continue it, one after the other. Of the latest run, the chain
has the state its goroutine works on and the state that is stored: the goroutine reloads the stored
one before every round and at the end, and stores its own from time to time.

An event is one thing that happens to the latest run, and events that do not apply change nothing,
so that a chain is any list of events. Only `check` begins a new run, from the stored state of the
finished one. The indices and the completed tasks at each yield are kept to state bounds on. -/

namespace Hopclaw

variable {F : Type} [FloatOps F]

structure Chain (F : Type) [FloatOps F] where
  ws : WorkflowState F
  stored : WorkflowState F
  active : Bool := true
  /-- The continuation indices of all runs, the latest first. -/
  indices : List ℤ
  /-- For every yield how many tasks were completed, the latest first. -/
  yields : List ℤ := []

namespace Chain

/-- What happens to the latest run. -/
inductive Event (F : Type)
  /-- A pass of the loop of `executeLoop`, with the plan at this point; `round` says whether a round
      is executed in it, rather than a recovery. A pass that is not allowed ends the run. -/
  | turn (now ensured checked observed opened : Time) (plan : Option Planner.Plan) (round : Bool)
  | modelUsage (call : ModelUsage F) (now : Time)
  | toolUsage (count duration : ℤ) (now : Time)
  | store
  /-- The loop ends because the round budget of the run is used up. -/
  | roundBudget (ensured checked observed opened : Time) (plan : Option Planner.Plan)
      (error : String)
  | complete (observed opened : Time) (plan : Option Planner.Plan)
  | fail (error : String)
  | cancel
  /-- `checkAndDispatchWorkflowContinuation` on the finished run. `saved` says whether its own state
      is written back. -/
  | check (records : Option (List (UsageRecord F))) (now built : Time) (summary : String)
      (saved : Bool)

variable (s : Chain F)

/-- The run has ended with this state. -/
def finish (ws : WorkflowState F) : Chain F :=
  { s with ws, stored := ws, active := false }

/-- `failRun`. -/
def failRun (error : String) : Chain F :=
  s.finish (s.stored.markTerminal .failed error)

/-- `yieldWorkflowRun` on the stored run. -/
def yieldRun (plan : Option Planner.Plan) (reason error : String)
    (ensured checked observed opened : Time) : Chain F :=
  match s.stored.yieldWorkflowRun plan reason ensured checked observed opened with
  | none => s.failRun error
  | some ws =>
    { s.finish ws with
      yields := (ws.budget.map fun b => b.usage.completedTaskCount).getD 0 :: s.yields }

/-- The error of a run whose budget is exhausted when it yields. -/
def exhaustedError (ws : WorkflowState F) : String :=
  "workflow budget exhausted after " ++ toString ws.continuationIndex ++ " continuations and " ++
    toString ws.totalRoundsUsed ++ " total rounds"

def step (s : Chain F) : Event F → Chain F
  | .turn now ensured checked observed opened plan round =>
    if s.active then
      let (decision, ws) := evaluateWorkflowBudget s.stored plan now
      let s : Chain F := { s with ws, stored := ws }
      if decision.allowCurrentTurn then
        if round then { s with ws := trackWorkflowExecutionRound ws } else s
      else if decision.yieldReason = yieldReasonBudgetHardLimit then s.failRun decision.stopReason
      else if incompletePlan plan then
        s.yieldRun plan decision.yieldReason (exhaustedError ws) ensured checked observed opened
      else s.failRun decision.stopReason
    else s
  | .modelUsage call now =>
    if s.active then { s with ws := updateWorkflowBudgetModelUsage s.ws call now } else s
  | .toolUsage count duration now =>
    if s.active then { s with ws := updateWorkflowBudgetToolUsage s.ws count duration now } else s
  | .store => if s.active then { s with stored := s.ws } else s
  | .roundBudget ensured checked observed opened plan error =>
    if s.active then
      if incompletePlan plan then
        s.yieldRun plan yieldReasonRoundBudget (exhaustedError s.stored) ensured checked observed
          opened
      else s.failRun error
    else s
  | .complete observed opened plan =>
    if s.active then s.finish (completeWorkflow s.stored plan observed opened) else s
  | .fail error => if s.active then s.failRun error else s
  | .cancel => if s.active then s.finish s.stored else s
  | .check records now built summary saved =>
    if s.active then s
    else if !s.stored.needsContinuation then s
    else
      match admitWorkflowContinuation s.stored records now with
      | (false, denied) => if saved then s.finish denied else s
      | (true, parent) =>
        let ws := buildContinuationWorkflowState parent summary built
        { s with ws, stored := ws, active := true, indices := ws.continuationIndex :: s.indices }

/-- An original run whose budget has this policy. -/
def start (policy : WorkflowBudgetPolicy F) (originalRunID : String)
    (maxContinuations maxTotalRounds : ℤ) (now : Time) : Chain F :=
  let ws : WorkflowState F :=
    { originalRunID, maxContinuations, maxTotalRounds, budget := some { policy } }
  { ws := ws.ensureBudget now, stored := ws.ensureBudget now, indices := [0] }

/-- The circuit of the stored run is open. -/
def circuitOpen : Bool :=
  s.stored.budget.any fun b => b.circuit.state = .opened

/-- How many of the latest yields came without more completed tasks than the yield before. -/
def noProgressYields : List ℤ → ℕ
  | [] => 0
  | completed :: earlier =>
    if earlier.headD 0 < completed then 0 else noProgressYields earlier + 1

end Chain

end Hopclaw
