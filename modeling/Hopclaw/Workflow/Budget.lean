import Hopclaw.Planner.State
import Hopclaw.Workflow.State

/-! # The workflow budget

The decision before each round, the observation of the circuit breaker at the end of a run
(`agent/workflow_budget.go`), and the usage that is counted along the way
(`agent/workflow_state.go`). -/

namespace Hopclaw

open FloatOps GoStrings

variable {F : Type} [FloatOps F]
variable (ws : WorkflowState F) (b : WorkflowBudgetState F) (plan : Option Planner.Plan) (now : Time)

/-- `CompletedCount`. -/
def Planner.Plan.completedCount (plan : Planner.Plan) : ℕ :=
  (plan.tasks.filter fun t => t.status = .completed).length

/-! ## Predictions and limits -/

def predictWorkflowContinuationTokens (p : WorkflowBudgetPolicy F) (u : WorkflowBudgetUsage F)
    (totalRoundsUsed : ℤ) : ℤ :=
  let rounds := max totalRoundsUsed 1
  let multiplier := if le p.nextRunMultiplier (lit 0) then lit 1
    else p.nextRunMultiplier
  let predicted := ceil
    (mul (div (lit u.modelTotalTokens) (lit rounds)) multiplier)
  max predicted p.minContinuationTokens

def predictWorkflowContinuationCost (p : WorkflowBudgetPolicy F) (u : WorkflowBudgetUsage F)
    (totalRoundsUsed : ℤ) : F :=
  let rounds := max totalRoundsUsed 1
  let multiplier := if le p.nextRunMultiplier (lit 0) then lit 1
    else p.nextRunMultiplier
  max (mul (div u.estimatedCost (lit rounds)) multiplier)
    p.minContinuationCost

/-- The budget with the predictions for the next run. -/
def WorkflowBudgetState.predicted (totalRoundsUsed : ℤ) : WorkflowBudgetState F :=
  { b with
    predictedNextRunTokens := predictWorkflowContinuationTokens b.policy b.usage totalRoundsUsed
    predictedNextRunCost := predictWorkflowContinuationCost b.policy b.usage totalRoundsUsed }

def workflowBudgetSoftLimitExceeded : Bool :=
  (0 < b.policy.softContinuations && b.policy.softContinuations ≤ ws.continuationIndex) ||
    (0 < b.policy.softTotalRounds && b.policy.softTotalRounds ≤ ws.totalRoundsUsed) ||
    b.pastWallClock b.policy.softWallClock now || b.pastModelTokens b.policy.softModelTokens ||
    b.pastCost b.policy.softCostEstimate

def workflowBudgetRemainingModelTokens : ℤ :=
  if b.policy.hardModelTokens ≤ 0 then 0
  else max (b.policy.hardModelTokens - b.usage.modelTotalTokens) 0

def workflowBudgetRemainingCost : F :=
  if le b.policy.hardCostEstimate (lit 0) then lit 0
  else max (sub b.policy.hardCostEstimate b.usage.estimatedCost) (lit 0)

def workflowBudgetNearHardLimit : Bool :=
  (0 < b.policy.hardContinuations && b.policy.hardContinuations - ws.continuationIndex ≤ 1) ||
    (0 < b.policy.hardTotalRounds && b.policy.hardTotalRounds - ws.totalRoundsUsed ≤ 1) ||
    (0 < b.policy.hardWallClock && b.usage.startedAt ≠ 0 &&
      b.policy.hardWallClock - ((now : ℤ) - b.usage.startedAt) ≤ 5 * minute) ||
    (0 < workflowBudgetRemainingModelTokens b && 0 < b.predictedNextRunTokens &&
      workflowBudgetRemainingModelTokens b ≤
        b.predictedNextRunTokens + b.policy.reserveModelTokens) ||
    (b.hasReliableCost && lt (lit 0) (workflowBudgetRemainingCost b) &&
      lt (lit 0) b.predictedNextRunCost &&
      le (workflowBudgetRemainingCost b)
        (add b.predictedNextRunCost b.policy.reserveCostEstimate))

def workflowBudgetHasCircuitWarning : Bool :=
  let p := b.policy.circuit
  b.circuit.state = .halfOpen ||
    (0 < p.maxNoProgressContinuations &&
      p.maxNoProgressContinuations ≤ b.circuit.noProgressContinuations) ||
    (0 < p.maxRepeatedYieldReason &&
      p.maxRepeatedYieldReason ≤ b.circuit.repeatedYieldReasonCount) ||
    (lt (lit 0) p.warnBurnRateMultiplier &&
      le p.warnBurnRateMultiplier b.circuit.lastObservedBurnRateRatio)

def workflowBudgetDisablesDelegation : WorkflowBudgetMode → Bool
  | .finishOnly | .stopped => true
  | .economy => b.policy.disableDelegationOnSoftLimit
  | _ => false

/-! ## The decision before a round -/

structure WorkflowBudgetDecision where
  mode : WorkflowBudgetMode := .normal
  allowCurrentTurn : Bool := true
  allowContinuation : Bool := true
  disableDelegation : Bool := false
  forceCompaction : Bool := false
  yieldReason : String := ""
  stopReason : String := ""
deriving DecidableEq

def workflowBudgetStopDetail (yieldReason circuitReason : String) : String :=
  let stopped := "workflow auto-continuation stopped: "
  if trimSpace yieldReason = yieldReasonCircuitBreakerOpen then
    if trimSpace circuitReason ≠ "" then stopped ++ trimSpace circuitReason
    else stopped ++ "circuit breaker opened"
  else if trimSpace yieldReason = yieldReasonBudgetHardLimit then
    stopped ++ "budget hard limit reached"
  else if trimSpace circuitReason ≠ "" then trimSpace circuitReason
  else String.ofList ((trimSpace yieldReason).toList.map fun c => if c = '_' then ' ' else c)

def workflowBudgetStopDecision (yieldReason detail : String) : WorkflowBudgetDecision where
  mode := .stopped
  allowCurrentTurn := false
  allowContinuation := false
  disableDelegation := true
  yieldReason := yieldReason
  stopReason := if trimSpace detail = "" then workflowBudgetStopDetail yieldReason "" else detail

/-- The tasks counted as completed: those recorded, or those of the plan if they are more. -/
def WorkflowState.completedTaskCount : ℤ :=
  max ws.completedTaskIDs.length ((plan.map Planner.Plan.completedCount).getD 0)

/-- The state with another budget. -/
def WorkflowState.setBudget : WorkflowState F :=
  { ws with budget := some b }

/-- The mode of a budget within its hard limits and with a closed circuit. -/
def workflowBudgetMode : WorkflowBudgetMode :=
  if workflowBudgetSoftLimitExceeded ws b now then
    if workflowBudgetNearHardLimit ws b now || workflowBudgetHasCircuitWarning b then .finishOnly
    else .economy
  else if workflowBudgetHasCircuitWarning b then .finishOnly
  else .normal

/-- The budget `evaluateWorkflowBudget` looks at. -/
def WorkflowState.evaluatedBudget : WorkflowBudgetState F :=
  let b := ws.ensuredBudget now
  let b := { b with usage := { b.usage with completedTaskCount := ws.completedTaskCount plan } }
  b.predicted ws.totalRoundsUsed

/-- For a run in workflow mode. -/
def evaluateWorkflowBudget : WorkflowBudgetDecision × WorkflowState F :=
  if ws.budget.isNone then ({}, ws)
  else
    let b := ws.evaluatedBudget plan now
    let ws := (ws.ensureBudget now).setBudget b
    let stopReason := ws.budgetStopReason now
    if stopReason ≠ "" then
      (workflowBudgetStopDecision stopReason (workflowBudgetStopDetail stopReason b.circuit.reason),
        ws.setBudget
          { b with
            mode := .stopped
            stopReason
            softLimitExceeded := workflowBudgetSoftLimitExceeded ws b now })
    else
      match b.circuit.state with
      | .opened =>
        (workflowBudgetStopDecision yieldReasonCircuitBreakerOpen
            (workflowBudgetStopDetail yieldReasonCircuitBreakerOpen b.circuit.reason),
          ws.setBudget
            { b with
              mode := .stopped
              stopReason := yieldReasonCircuitBreakerOpen
              softLimitExceeded := true })
      | .halfOpen =>
        ({ mode := .finishOnly, allowContinuation := false, disableDelegation := true
           forceCompaction := true },
          ws.setBudget { b with mode := .finishOnly, stopReason := "", softLimitExceeded := true })
      | _ =>
        let soft := workflowBudgetSoftLimitExceeded ws b now
        let b := { b with softLimitExceeded := soft }
        let mode := workflowBudgetMode ws b now
        ({ mode
           disableDelegation := workflowBudgetDisablesDelegation b mode
           forceCompaction := mode = .economy || mode = .finishOnly },
          ws.setBudget { b with mode, stopReason := "" })

/-! ## The circuit breaker -/

variable (p : WorkflowCircuitBreakerPolicy F)

def workflowCircuitNoProgressTrips (count : ℤ) : Bool :=
  0 < p.maxNoProgressContinuations && p.maxNoProgressContinuations < count

def workflowCircuitRepeatedYieldTrips (count : ℤ) : Bool :=
  0 < p.maxRepeatedYieldReason && p.maxRepeatedYieldReason < count

def workflowCircuitBurnRateTrips (ratio : F) : Bool :=
  lt (lit 0) p.tripBurnRateMultiplier &&
    le p.tripBurnRateMultiplier ratio

/-- The burn rate since the last observation, and its ratio to the one observed then. -/
def workflowCircuitBurnRate : F × F :=
  let zero : F := lit 0
  let deltaRounds := ws.totalRoundsUsed - b.circuit.lastObservedTotalRounds
  if deltaRounds ≤ 0 then (zero, zero)
  else
    let deltaCost := sub b.usage.estimatedCost b.circuit.lastObservedEstimatedCost
    let byCost := if b.hasReliableCost && lt zero deltaCost
      then div deltaCost (lit deltaRounds) else zero
    let deltaTokens := b.usage.modelTotalTokens - b.circuit.lastObservedModelTokens
    let burnRate := if floatZero byCost && 0 < deltaTokens
      then div (lit deltaTokens) (lit deltaRounds) else byCost
    if le b.circuit.lastObservedBurnRate zero || le burnRate zero then
      (burnRate, zero)
    else (burnRate, div burnRate b.circuit.lastObservedBurnRate)

def noProgressReason (count : ℤ) : String :=
  toString count ++ " no-progress continuations"

def repeatedYieldReason (yieldReason : String) : String :=
  "repeated yield_reason=" ++ trimSpace yieldReason

def burnRateReason (ratio : F) : String :=
  "burn rate spike " ++ text ratio ++ "x"

def workflowCircuitWarningReason (circuit : WorkflowCircuitBreakerState F) (progressMade : Bool)
    (burnRateRatio : F) : String :=
  if !progressMade && 0 < p.maxNoProgressContinuations &&
      p.maxNoProgressContinuations ≤ circuit.noProgressContinuations then
    noProgressReason circuit.noProgressContinuations
  else if trimSpace ws.yieldReason ≠ "" && 0 < p.maxRepeatedYieldReason &&
      p.maxRepeatedYieldReason ≤ circuit.repeatedYieldReasonCount then
    repeatedYieldReason ws.yieldReason
  else if lt (lit 0) p.warnBurnRateMultiplier &&
      le p.warnBurnRateMultiplier burnRateRatio then burnRateReason burnRateRatio
  else ""

def workflowCircuitTripReason (progressMade : Bool) (burnRateRatio : F) : String :=
  if !progressMade then "half-open continuation made no progress"
  else if workflowCircuitBurnRateTrips p burnRateRatio then burnRateReason burnRateRatio
  else if trimSpace ws.yieldReason ≠ "" then repeatedYieldReason ws.yieldReason
  else "circuit breaker opened"

def openWorkflowCircuit (circuit : WorkflowCircuitBreakerState F) (reason : String) (now : Time) :
    WorkflowCircuitBreakerState F :=
  { circuit with
    state := .opened
    reason := trimSpace reason
    openedAt := now
    tripCount := circuit.tripCount + 1 }

/-- This continuation was observed before. -/
def WorkflowBudgetState.observedAt (continuationIndex : ℤ) : Bool :=
  b.circuit.lastObservedContinuationIndex = continuationIndex &&
    (b.circuit.lastObservedTotalRounds ≠ 0 || b.circuit.lastObservedModelTokens ≠ 0 ||
      b.circuit.lastObservedYieldReason ≠ "" || b.usage.lastCompletedTaskCount ≠ 0 ||
      b.circuit.openedAt ≠ 0)

/-- More tasks are completed than at the last observation. -/
def WorkflowBudgetState.progressMade : Bool :=
  b.usage.lastCompletedTaskCount < b.usage.completedTaskCount

/-- The counters after an observation. -/
def observedCounters : WorkflowCircuitBreakerState F :=
  let c := b.circuit
  let yieldReason := trimSpace ws.yieldReason
  { c with
    noProgressContinuations :=
      if b.progressMade then 0
      else if 0 < ws.continuationIndex || 0 < b.usage.lastCompletedTaskCount || yieldReason ≠ ""
      then c.noProgressContinuations + 1
      else c.noProgressContinuations
    repeatedYieldReasonCount :=
      if yieldReason = "" then 0
      else if yieldReason = trimSpace c.lastObservedYieldReason then c.repeatedYieldReasonCount + 1
      else 1
    lastObservedYieldReason :=
      if yieldReason = "" then ""
      else if yieldReason = trimSpace c.lastObservedYieldReason then c.lastObservedYieldReason
      else yieldReason
    lastObservedBurnRateRatio := (workflowCircuitBurnRate ws b).2 }

/-- The circuit after an observation with these counters: it opens, closes again, or warns. -/
def switchedCircuit (c : WorkflowCircuitBreakerState F) (now : Time) :
    WorkflowCircuitBreakerState F :=
  let p := b.policy.circuit
  let ratio := (workflowCircuitBurnRate ws b).2
  if c.state = .halfOpen then
    if !b.progressMade || workflowCircuitBurnRateTrips p ratio ||
        workflowCircuitRepeatedYieldTrips p c.repeatedYieldReasonCount then
      openWorkflowCircuit c (workflowCircuitTripReason ws p b.progressMade ratio) now
    else { c with state := .closed, reason := "", openedAt := 0 }
  else if workflowCircuitNoProgressTrips p c.noProgressContinuations then
    openWorkflowCircuit c (noProgressReason c.noProgressContinuations) now
  else if workflowCircuitRepeatedYieldTrips p c.repeatedYieldReasonCount then
    openWorkflowCircuit c (repeatedYieldReason ws.yieldReason) now
  else if workflowCircuitBurnRateTrips p ratio then
    openWorkflowCircuit c (burnRateReason ratio) now
  else
    { c with
      reason :=
        let warning := workflowCircuitWarningReason ws p c b.progressMade ratio
        if warning ≠ "" then warning else if c.state = .closed then "" else c.reason }

/-- `updateCircuitBreakerObservation`, on the budget of the state. -/
def updateCircuitBreakerObservation : WorkflowBudgetState F :=
  let b := { b with
    circuit := { b.circuit with
      state := if b.circuit.state = .unset then .closed else b.circuit.state } }
  if b.circuit.state = .opened then b
  else if b.observedAt ws.continuationIndex then b
  else
    let circuit := switchedCircuit ws b (observedCounters ws b) now
    { b with
      usage := { b.usage with lastCompletedTaskCount := b.usage.completedTaskCount }
      circuit :=
        { circuit with
          lastObservedBurnRate := (workflowCircuitBurnRate ws b).1
          lastObservedModelTokens := b.usage.modelTotalTokens
          lastObservedEstimatedCost := b.usage.estimatedCost
          lastObservedTotalRounds := ws.totalRoundsUsed
          lastObservedContinuationIndex := ws.continuationIndex } }

/-- For a run in workflow mode; the clock is read again where the circuit opens. -/
def observeWorkflowContinuationOutcome (opened : Time) : WorkflowState F :=
  let b := ws.ensuredBudget now
  let b := { b with usage := { b.usage with completedTaskCount := ws.completedTaskCount plan } }
  let ws := ws.ensureBudget now
  ws.setBudget (updateCircuitBreakerObservation ws b opened)

/-! ## Usage -/

structure ModelUsage (F : Type) where
  promptTokens : ℤ
  completionTokens : ℤ
  totalTokens : ℤ
  costEstimate : F

/-- What one model call adds. -/
def WorkflowBudgetUsage.addModelCall (u : WorkflowBudgetUsage F) (call : ModelUsage F) :
    WorkflowBudgetUsage F :=
  { u with
    modelPromptTokens := u.modelPromptTokens + call.promptTokens
    modelCompletionTokens := u.modelCompletionTokens + call.completionTokens
    modelTotalTokens := u.modelTotalTokens + call.totalTokens
    estimatedCost := add u.estimatedCost call.costEstimate
    modelCallCount := u.modelCallCount + 1
    unknownCostCallCount := if 0 < call.totalTokens && floatZero call.costEstimate
      then u.unknownCostCallCount + 1 else u.unknownCostCallCount }

def WorkflowBudgetUsage.addToolExecutions (u : WorkflowBudgetUsage F) (count duration : ℤ) :
    WorkflowBudgetUsage F :=
  { u with
    toolExecutionCount := u.toolExecutionCount + count
    toolExecutionDuration := u.toolExecutionDuration + duration }

def updateWorkflowBudgetModelUsage (call : ModelUsage F) (now : Time) : WorkflowState F :=
  let b := ws.ensuredBudget now
  (ws.ensureBudget now).setBudget
    { b with usage := { b.usage.addModelCall call with lastUpdatedAt := now } }

def updateWorkflowBudgetToolUsage (toolCallCount duration : ℤ) (now : Time) : WorkflowState F :=
  if toolCallCount ≤ 0 then ws
  else
    let b := ws.ensuredBudget now
    (ws.ensureBudget now).setBudget
      { b with
        usage := { b.usage.addToolExecutions toolCallCount duration with lastUpdatedAt := now } }

end Hopclaw
