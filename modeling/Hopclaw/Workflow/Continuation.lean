import Hopclaw.Workflow.Budget

/-! # Continuation runs

How a run of a workflow ends early (`agent/workflow_yield.go`), and how the runtime admits and
prepares the run that continues it (`runtime/workflow_continuation.go`). -/

namespace Hopclaw

open GoStrings FloatOps

variable {F : Type} [FloatOps F]
variable (ws : WorkflowState F)

/-! ## Yielding -/

/-- `syncWorkflowCompletedTaskIDs`. -/
def WorkflowState.syncCompletedTaskIDs (plan : Option Planner.Plan) : WorkflowState F :=
  { ws with
    completedTaskIDs := (((plan.map Planner.Plan.tasks).getD []).filter fun t =>
      t.status = .completed).foldl (fun ids t => Planner.Plan.appendUnique ids t.id)
        ws.completedTaskIDs }

def WorkflowState.markYielded (reason : String) : WorkflowState F :=
  { ws with yielded := true, yieldReason := trimSpace reason }

/-- `isWorkflowWithIncompletePlan`, for a run in workflow mode. -/
def incompletePlan (plan : Option Planner.Plan) : Bool :=
  plan.any fun plan => !plan.terminal

/-- `yieldWorkflowRun` on the state of the stored run: the state of the run that has yielded, or
    nothing where the budget is exhausted and the run fails. The clock is read at `ensured`, at
    `checked`, at `observed` and where the circuit opens. -/
def WorkflowState.yieldWorkflowRun (plan : Option Planner.Plan) (reason : String)
    (ensured checked observed opened : Time) : Option (WorkflowState F) :=
  let ws := (ws.ensureBudget ensured).clearTerminal
  if ws.budgetExhausted checked then none
  else
    let ws := (ws.markYielded reason).syncCompletedTaskIDs plan
    some (observeWorkflowContinuationOutcome ws plan observed opened)

/-- What `completeRun` makes of the state of a workflow whose plan is done. -/
def completeWorkflow (plan : Option Planner.Plan) (observed opened : Time) : WorkflowState F :=
  if plan.any fun plan => plan.isDone then
    let ws := { ws.syncCompletedTaskIDs plan with yielded := false, yieldReason := "" }
    (observeWorkflowContinuationOutcome ws plan observed opened).markTerminal .completed ""
  else ws

/-- `trackWorkflowExecutionRound`, for a state that is there. -/
def trackWorkflowExecutionRound : WorkflowState F :=
  { ws with totalRoundsUsed := ws.totalRoundsUsed + 1 }

/-! ## Admission -/

structure UsageRecord (F : Type) extends ModelUsage F where
  toolExecution : Bool := false
  duration : ℤ := 0
  createdAt : Time := 0

/-- One round of the loop of `resyncWorkflowBudgetUsage`, with the latest time so far. -/
def resyncOne (acc : WorkflowBudgetUsage F × Time) (rec : UsageRecord F) :
    WorkflowBudgetUsage F × Time :=
  let u := { acc.1 with
    startedAt := if rec.createdAt ≠ 0 ∧ rec.createdAt < acc.1.startedAt then rec.createdAt
      else acc.1.startedAt }
  (if rec.toolExecution then u.addToolExecutions 1 rec.duration
    else u.addModelCall rec.toModelUsage,
    if acc.2 < rec.createdAt then rec.createdAt else acc.2)

/-- The usage counted anew from the records of the workflow. -/
def resyncedUsage (u : WorkflowBudgetUsage F) (continuationIndex : ℤ)
    (records : List (UsageRecord F)) (now : Time) : WorkflowBudgetUsage F :=
  let cleared : WorkflowBudgetUsage F :=
    { u with
      modelPromptTokens := 0
      modelCompletionTokens := 0
      modelTotalTokens := 0
      estimatedCost := lit 0
      modelCallCount := 0
      toolExecutionCount := 0
      toolExecutionDuration := 0
      unknownCostCallCount := 0
      startedContinuationCount := max u.startedContinuationCount (continuationIndex + 1)
      startedAt := if u.startedAt = 0 then now else u.startedAt }
  let (u, last) := records.foldl resyncOne
    (cleared, if cleared.lastUpdatedAt = 0 then now else cleared.lastUpdatedAt)
  { u with lastUpdatedAt := last }

/-- `resyncWorkflowBudgetUsage`; there are no records without a usage store, or if it cannot be
    read. -/
def resyncWorkflowBudgetUsage (records : Option (List (UsageRecord F)))
    (now : Time) : WorkflowState F :=
  match records with
  | none => ws
  | some records =>
    let b := ws.ensuredBudget now
    (ws.ensureBudget now).setBudget
      { b with usage := resyncedUsage b.usage ws.continuationIndex records now }

def workflowContinuationStopSummary (reason circuitReason : String) : String :=
  let stopped := "workflow auto-continuation stopped"
  if trimSpace reason = yieldReasonBudgetHardLimit then stopped ++ ": budget hard limit reached"
  else if trimSpace circuitReason ≠ "" then stopped ++ ": " ++ trimSpace circuitReason
  else if trimSpace reason = yieldReasonCircuitBreakerOpen then
    stopped ++ ": circuit breaker opened"
  else if trimSpace reason = yieldReasonAdmissionDenied then
    stopped ++ ": continuation admission denied"
  else if trimSpace reason = "" then stopped
  else stopped ++ ": " ++
    String.ofList ((trimSpace reason).toList.map fun c => if c = '_' then ' ' else c)

/-- `markWorkflowContinuationDenied`. -/
def WorkflowState.denied (reason : String) (now : Time) : WorkflowState F :=
  let b := ws.ensuredBudget now
  let b := { b with
    mode := .stopped
    stopReason := trimSpace reason
    usage := { b.usage with lastUpdatedAt := now }
    circuit := { b.circuit with
      state := if reason = yieldReasonCircuitBreakerOpen then .opened else b.circuit.state } }
  let ws : WorkflowState F :=
    { (ws.ensureBudget now).setBudget b with yieldReason := trimSpace reason }
  ws.markTerminal .failed (workflowContinuationStopSummary reason b.circuit.reason)

def workflowRemainingContinuations (p : WorkflowBudgetPolicy F) : ℤ :=
  if p.hardContinuations ≤ 0 then 1 else p.hardContinuations - ws.continuationIndex

def workflowRemainingRounds (p : WorkflowBudgetPolicy F) : ℤ :=
  if p.hardTotalRounds ≤ 0 then 1 else p.hardTotalRounds - ws.totalRoundsUsed

/-- The reason to deny a continuation, of a state whose budget is there. -/
def denyReason (b : WorkflowBudgetState F) (now : Time) : Option String :=
  if b.circuit.state = .opened then some yieldReasonCircuitBreakerOpen
  else if b.circuit.state = .halfOpen then some yieldReasonAdmissionDenied
  else if ws.budgetStopReason now ≠ "" then some (ws.budgetStopReason now)
  else
    let p := b.policy
    let b := b.predicted ws.totalRoundsUsed
    if workflowRemainingContinuations ws p < 1 then some yieldReasonBudgetHardLimit
    else if workflowRemainingRounds ws p < 1 then some yieldReasonBudgetHardLimit
    else if 0 < p.hardModelTokens ∧
        p.hardModelTokens - b.usage.modelTotalTokens <
          b.predictedNextRunTokens + p.reserveModelTokens then some yieldReasonAdmissionDenied
    else if lt (lit 0) p.hardCostEstimate && b.usage.unknownCostCallCount = 0 &&
        lt (sub p.hardCostEstimate b.usage.estimatedCost)
          (add b.predictedNextRunCost p.reserveCostEstimate) then
      some yieldReasonAdmissionDenied
    else none

/-- `admitWorkflowContinuation`: whether the continuation is admitted, and the state of the finished
    run afterwards. -/
def admitWorkflowContinuation (records : Option (List (UsageRecord F)))
    (now : Time) : Bool × WorkflowState F :=
  let ws := resyncWorkflowBudgetUsage ws records now
  let b := ws.ensuredBudget now
  let ws := ws.ensureBudget now
  match denyReason ws b now with
  | some reason => (false, ws.denied reason now)
  | none => (true, ws.setBudget { b.predicted ws.totalRoundsUsed with stopReason := "" })

/-- The state of the continuation run. `summary` is the line about the finished run. -/
def buildContinuationWorkflowState (parent : WorkflowState F) (summary : String) (now : Time) :
    WorkflowState F :=
  let b := parent.ensuredBudget now
  let parent := parent.ensureBudget now
  let state : WorkflowState F :=
    { originalRunID := parent.originalRunID
      continuationIndex := parent.continuationIndex + 1
      maxContinuations := parent.maxContinuations
      totalRoundsUsed := parent.totalRoundsUsed
      maxTotalRounds := parent.maxTotalRounds
      priorRunSummaries := parent.priorRunSummaries ++ [summary]
      completedTaskIDs := parent.completedTaskIDs
      budget := some { b with
        usage := { b.usage with
          startedContinuationCount :=
            max b.usage.startedContinuationCount (parent.continuationIndex + 2)
          lastUpdatedAt := now } } }
  state.clearTerminal.ensureBudget now

end Hopclaw
