import Hopclaw.Domain.Err
import Hopclaw.Domain.Floats
import Hopclaw.Text.GoStrings

/-! # Workflow state

What a run of a workflow carries from run to run (`agent/workflow_state.go`): how often the workflow
was continued, how many rounds it has used, and its budget with the policy, the usage and the
circuit breaker.

Go's `int` and `time.Duration` are integers here. Floating-point numbers are a type with the
operations the budget applies to them; nothing is assumed about what the operations compute. -/

namespace Hopclaw

open GoStrings FloatOps

/-! ## Numbers -/

def minute : ℤ := 60 * 1000000000

/-! ## Records -/

/-- The budget mode, a string in the source; `unset` is the empty one. -/
inductive WorkflowBudgetMode
  | unset | normal | economy | finishOnly | stopped
deriving DecidableEq

/-- The state of the circuit breaker, a string in the source; `unset` is the blank one and `opened`
    is `"open"`. -/
inductive WorkflowCircuitState
  | unset | closed | opened | halfOpen
deriving DecidableEq

inductive WorkflowTerminalOutcome
  | unset | completed | failed
deriving DecidableEq

variable (F : Type) [FloatOps F]

structure WorkflowCircuitBreakerPolicy where
  maxNoProgressContinuations : ℤ := 0
  maxRepeatedYieldReason : ℤ := 0
  tripBurnRateMultiplier : F := lit 0
  warnBurnRateMultiplier : F := lit 0

structure WorkflowBudgetPolicy where
  softContinuations : ℤ := 0
  hardContinuations : ℤ := 0
  softTotalRounds : ℤ := 0
  hardTotalRounds : ℤ := 0
  softModelTokens : ℤ := 0
  hardModelTokens : ℤ := 0
  softCostEstimate : F := lit 0
  hardCostEstimate : F := lit 0
  softWallClock : ℤ := 0
  hardWallClock : ℤ := 0
  nextRunMultiplier : F := lit 0
  reserveModelTokens : ℤ := 0
  reserveCostEstimate : F := lit 0
  minContinuationTokens : ℤ := 0
  minContinuationCost : F := lit 0
  disableDelegationOnSoftLimit : Bool := false
  maxDelegatedTokenFraction : F := lit 0
  circuit : WorkflowCircuitBreakerPolicy F := {}

structure WorkflowCircuitBreakerState where
  state : WorkflowCircuitState := .unset
  reason : String := ""
  openedAt : Time := 0
  tripCount : ℤ := 0
  noProgressContinuations : ℤ := 0
  repeatedYieldReasonCount : ℤ := 0
  lastObservedBurnRate : F := lit 0
  lastObservedBurnRateRatio : F := lit 0
  lastObservedContinuationIndex : ℤ := 0
  lastObservedYieldReason : String := ""
  lastObservedModelTokens : ℤ := 0
  lastObservedEstimatedCost : F := lit 0
  lastObservedTotalRounds : ℤ := 0

structure WorkflowBudgetUsage where
  modelPromptTokens : ℤ := 0
  modelCompletionTokens : ℤ := 0
  modelTotalTokens : ℤ := 0
  estimatedCost : F := lit 0
  modelCallCount : ℤ := 0
  toolExecutionCount : ℤ := 0
  toolExecutionDuration : ℤ := 0
  unknownCostCallCount : ℤ := 0
  startedContinuationCount : ℤ := 0
  completedTaskCount : ℤ := 0
  lastCompletedTaskCount : ℤ := 0
  startedAt : Time := 0
  lastUpdatedAt : Time := 0

structure WorkflowBudgetState where
  policy : WorkflowBudgetPolicy F := {}
  usage : WorkflowBudgetUsage F := {}
  mode : WorkflowBudgetMode := .unset
  predictedNextRunTokens : ℤ := 0
  predictedNextRunCost : F := lit 0
  softLimitExceeded : Bool := false
  stopReason : String := ""
  circuit : WorkflowCircuitBreakerState F := {}

structure WorkflowState where
  originalRunID : String
  continuationIndex : ℤ := 0
  maxContinuations : ℤ := 0
  totalRoundsUsed : ℤ := 0
  maxTotalRounds : ℤ := 0
  priorRunSummaries : List String := []
  completedTaskIDs : List String := []
  yielded : Bool := false
  yieldReason : String := ""
  terminalOutcome : WorkflowTerminalOutcome := .unset
  terminalReason : String := ""
  budget : Option (WorkflowBudgetState F) := none

variable {F}

def defaultMaxContinuations : ℤ := 10

def defaultMaxTotalRounds : ℤ := 100

def yieldReasonRoundBudget : String := "round_budget"

def yieldReasonBudgetHardLimit : String := "budget_hard_limit"

def yieldReasonAdmissionDenied : String := "continuation_admission_denied"

def yieldReasonCircuitBreakerOpen : String := "circuit_breaker_open"

/-! ## The policy -/

def defaultWorkflowBudgetPolicy : WorkflowBudgetPolicy F where
  softContinuations := 6
  hardContinuations := defaultMaxContinuations
  softTotalRounds := 60
  hardTotalRounds := defaultMaxTotalRounds
  softModelTokens := 400000
  hardModelTokens := 1000000
  softCostEstimate := lit 1
  hardCostEstimate := lit 3
  softWallClock := 15 * minute
  hardWallClock := 30 * minute
  nextRunMultiplier := lit (5 / 4)
  reserveModelTokens := 50000
  reserveCostEstimate := lit (1 / 4)
  minContinuationTokens := 12000
  minContinuationCost := lit (1 / 20)
  disableDelegationOnSoftLimit := true
  maxDelegatedTokenFraction := lit (2 / 5)
  circuit :=
    { maxNoProgressContinuations := 2
      maxRepeatedYieldReason := 2
      tripBurnRateMultiplier := lit (5 / 2)
      warnBurnRateMultiplier := lit 2 }

def floatZero (x : F) : Bool :=
  eq x (lit 0)

/-- `workflowBudgetPolicyEmpty`: every field is the zero of its type. -/
def WorkflowBudgetPolicy.empty (p : WorkflowBudgetPolicy F) : Bool :=
  p.softContinuations = 0 && p.hardContinuations = 0 &&
  p.softTotalRounds = 0 && p.hardTotalRounds = 0 &&
  p.softModelTokens = 0 && p.hardModelTokens = 0 &&
  floatZero p.softCostEstimate && floatZero p.hardCostEstimate &&
  p.softWallClock = 0 && p.hardWallClock = 0 &&
  floatZero p.nextRunMultiplier && p.reserveModelTokens = 0 &&
  floatZero p.reserveCostEstimate && p.minContinuationTokens = 0 &&
  floatZero p.minContinuationCost && !p.disableDelegationOnSoftLimit &&
  floatZero p.maxDelegatedTokenFraction &&
  p.circuit.maxNoProgressContinuations = 0 && p.circuit.maxRepeatedYieldReason = 0 &&
  floatZero p.circuit.tripBurnRateMultiplier && floatZero p.circuit.warnBurnRateMultiplier

/-! ## The state of one run -/

section

variable (b : WorkflowBudgetState F)

/-- `workflowBudgetHasReliableCost`, for a budget that is there. -/
def WorkflowBudgetState.hasReliableCost : Bool :=
  b.usage.unknownCostCallCount = 0

/-- The limit is set and the wall clock has used it up since the usage began. -/
def WorkflowBudgetState.pastWallClock (limit : ℤ) (now : Time) : Bool :=
  0 < limit && b.usage.startedAt ≠ 0 && limit ≤ (now : ℤ) - b.usage.startedAt

/-- The limit is set and the model tokens have used it up. -/
def WorkflowBudgetState.pastModelTokens (limit : ℤ) : Bool :=
  0 < limit && limit ≤ b.usage.modelTotalTokens

/-- The limit is set and the cost, where it is known, has used it up. -/
def WorkflowBudgetState.pastCost (limit : F) : Bool :=
  b.hasReliableCost && lt (lit 0) limit && le limit b.usage.estimatedCost

end

namespace WorkflowState

variable (ws : WorkflowState F)

def terminal : Bool :=
  ws.terminalOutcome ≠ .unset

def needsContinuation : Bool :=
  if ws.terminal then false
  else if ws.budget.any fun b => b.mode = .stopped then false
  else ws.yielded && ws.continuationIndex < ws.maxContinuations

def markTerminal (outcome : WorkflowTerminalOutcome) (reason : String) : WorkflowState F :=
  { ws with
    yielded := false
    terminalOutcome := outcome
    terminalReason := trimSpace reason }

def clearTerminal : WorkflowState F :=
  { ws with terminalOutcome := .unset, terminalReason := "" }

/-- The limit of the policy, or else the one of the state. -/
def hardContinuations : ℤ :=
  match ws.budget with
  | some b => if 0 < b.policy.hardContinuations then b.policy.hardContinuations
    else ws.maxContinuations
  | none => ws.maxContinuations

def hardTotalRounds : ℤ :=
  match ws.budget with
  | some b => if 0 < b.policy.hardTotalRounds then b.policy.hardTotalRounds else ws.maxTotalRounds
  | none => ws.maxTotalRounds

def budgetStopReason (now : Time) : String :=
  if 0 < ws.hardContinuations ∧ ws.hardContinuations ≤ ws.continuationIndex then
    yieldReasonBudgetHardLimit
  else if 0 < ws.hardTotalRounds ∧ ws.hardTotalRounds ≤ ws.totalRoundsUsed then
    yieldReasonBudgetHardLimit
  else
    match ws.budget with
    | none => ""
    | some b =>
      if b.pastWallClock b.policy.hardWallClock now || b.pastModelTokens b.policy.hardModelTokens ||
          b.pastCost b.policy.hardCostEstimate then
        yieldReasonBudgetHardLimit
      else ""

def budgetExhausted (now : Time) : Bool :=
  ws.budgetStopReason now ≠ ""

/-- The policy `EnsureBudget` leaves: limits the policy does not set come from the state. -/
def ensuredPolicy (p : WorkflowBudgetPolicy F) : WorkflowBudgetPolicy F :=
  let p := if p.empty then defaultWorkflowBudgetPolicy else p
  { p with
    hardContinuations := if p.hardContinuations ≤ 0 ∧ 0 < ws.maxContinuations
      then ws.maxContinuations else p.hardContinuations
    hardTotalRounds := if p.hardTotalRounds ≤ 0 ∧ 0 < ws.maxTotalRounds
      then ws.maxTotalRounds else p.hardTotalRounds }

def ensuredUsage (now : Time) (u : WorkflowBudgetUsage F) : WorkflowBudgetUsage F :=
  { u with
    startedAt := if u.startedAt = 0 then now else u.startedAt
    lastUpdatedAt := if u.lastUpdatedAt = 0 then now else u.lastUpdatedAt
    startedContinuationCount := max u.startedContinuationCount (ws.continuationIndex + 1) }

/-- The budget `EnsureBudget` returns. -/
def ensuredBudget (now : Time) : WorkflowBudgetState F :=
  let b := ws.budget.getD { policy := defaultWorkflowBudgetPolicy, mode := .normal }
  { b with
    policy := ws.ensuredPolicy b.policy
    mode := if b.mode = .unset then .normal else b.mode
    usage := ws.ensuredUsage now b.usage }

/-- The state `EnsureBudget` leaves; limits the state does not set come from the policy. -/
def ensureBudget (now : Time) : WorkflowState F :=
  let p := (ws.ensuredBudget now).policy
  { ws with
    budget := some (ws.ensuredBudget now)
    maxContinuations := if ws.maxContinuations ≤ 0 ∧ 0 < p.hardContinuations
      then p.hardContinuations else ws.maxContinuations
    maxTotalRounds := if ws.maxTotalRounds ≤ 0 ∧ 0 < p.hardTotalRounds
      then p.hardTotalRounds else ws.maxTotalRounds }

end WorkflowState

end Hopclaw
