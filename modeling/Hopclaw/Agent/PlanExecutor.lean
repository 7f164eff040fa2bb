import Hopclaw.Agent.ExecutionGraph
import Hopclaw.Agent.RunFinalizer

/-! # Executing a plan

The plan branch of the executor's loop (`agent/run_turn_execution.go`, `agent/plan_executor.go`):
it takes the tasks that are ready, marks a batch of them running, and applies what came of them to
the plan. What the tasks do is not modelled; a batch ends with any list of results, or with a
conflict on the session, after which its tasks are queued again. -/

namespace Hopclaw

open GoStrings Planner

structure TaskExecutionResult where
  taskID : String
  status : TaskStatus
  attempt : ℕ := 0
  summary : String := ""
  error : String := ""
  outcome : Option TaskOutcome := none
deriving DecidableEq

/-! ## The graph follows the plan -/

def markExecutionTasksRunning (graph : ExecutionGraph) (ids : List String) : ExecutionGraph :=
  ids.foldl (fun graph id => graph.setTask id fun t =>
    { t with status := .running, attemptCount := t.attemptCount + 1 }) graph

def requeueExecutionTasksForRetry (graph : ExecutionGraph) (ids : List String) : ExecutionGraph :=
  ids.foldl (fun graph id => graph.setTask id fun t =>
    if t.status = .running then { t with status := .queued } else t) graph

def applyTaskResultToExecutionGraph (graph : ExecutionGraph) (result : TaskExecutionResult) :
    ExecutionGraph :=
  graph.setTask result.taskID fun t =>
    { t with
      status := result.status
      lastOutcome :=
        match result.outcome with
        | some outcome => some outcome
        | none =>
          if result.status.terminal then
            some
              { taskID := result.taskID, status := result.status, attempt := result.attempt
                summary := trimSpace result.summary, mergeStrategy := t.mergeStrategy
                idempotencyKey := t.idempotencyKey
                error := if result.error ≠ "" && result.status ≠ .completed then
                  some (trimSpace result.error) else none }
          else t.lastOutcome }

/-- A skipped or cancelled task gets an outcome that names why. -/
def syncedTask (planTask : Task) (t : ExecutionTask) : ExecutionTask :=
  let t := { t with status := planTask.status }
  if planTask.status ≠ .skipped && planTask.status ≠ .cancelled then t
  else
    let outcome := t.lastOutcome.getD
      { taskID := planTask.id, status := planTask.status, summary := trimSpace planTask.error
        mergeStrategy := t.mergeStrategy, idempotencyKey := t.idempotencyKey }
    { t with
      lastOutcome := some
        (if trimSpace planTask.error ≠ "" && outcome.error = none then
          { outcome with error := some (trimSpace planTask.error) }
        else outcome) }

variable (sha1Hex : String → String)

def syncExecutionGraphWithPlan (run : PlannedRun) : PlannedRun :=
  let run := ensureExecutionGraph sha1Hex run
  match run.plan, run.executionGraph with
  | some plan, some graph =>
    { run with
      executionGraph := some
        (plan.tasks.foldl (fun graph t => graph.setTask t.id (syncedTask t)) graph) }
  | _, _ => run

/-! ## A batch -/

/-- The tasks of a batch that met a conflict are queued again; the tracking is read off the
    statuses. -/
def requeueTasks (plan : Plan) (ids : List String) : Plan :=
  if ids = [] then plan
  else
    let tasks := plan.tasks.map fun t =>
      if t.id ∈ ids ∧ t.status = .running then { t with status := .queued, error := "" } else t
    let running := (tasks.filter fun t => t.status = .running).map Task.id
    { plan with tasks, runningTasks := running, activeTask := running.headD "" }

def requeueBatchTasksForRetry (run : PlannedRun) (ids : List String) : PlannedRun :=
  match run.plan with
  | none => run
  | some plan =>
    { run with
      executionGraph := run.executionGraph.map fun g => requeueExecutionTasksForRetry g ids
      plan := some (requeueTasks plan ids) }

/-- The first part of `executeReadyBatch`: the tasks are marked as running. -/
def beginBatch (run : PlannedRun) (tasks : List Task) : PlannedRun :=
  let run := ensureExecutionGraph sha1Hex run
  let ids := tasks.map Task.id
  { run with
    plan := run.plan.map fun plan => plan.markRunning ids
    executionGraph := run.executionGraph.map fun g => markExecutionTasksRunning g ids }

/-- One result. A task that waits for an approval, or was cancelled, is left as it is. -/
def applyResult (plan : Plan) (r : TaskExecutionResult) : Plan :=
  match r.status with
  | .completed => plan.markCompleted r.taskID r.summary
  | .failed => (plan.markFailed r.taskID r.error).skipDependentsOf r.taskID
  | _ => plan

def applyResultToGraph (graph : ExecutionGraph) (r : TaskExecutionResult) : ExecutionGraph :=
  match r.status with
  | .completed | .failed => applyTaskResultToExecutionGraph graph r
  | _ => graph

/-- Under `fail_fast` a failure ends the whole plan. -/
def abortPlan (plan : Plan) : Plan :=
  skipQueuedTasks (plan.cancelRunning "fail_fast: upstream task failed") "fail_fast: plan aborted"

/-- The plan after the results of a batch. -/
def applyResults (plan : Plan) (results : List TaskExecutionResult) : Plan :=
  let applied := results.foldl applyResult plan
  if (results.any fun r => r.status = .failed) && plan.failurePolicy ≠ .continueOnError then
    abortPlan applied
  else applied

/-- The run after `applyBatchResults`; whether the plan is over is read off it. -/
def applyBatchResults (run : PlannedRun) (results : List TaskExecutionResult) : PlannedRun :=
  let run := ensureExecutionGraph sha1Hex run
  syncExecutionGraphWithPlan sha1Hex
    { run with
      plan := run.plan.map fun plan => applyResults plan results
      executionGraph := run.executionGraph.map fun g => results.foldl applyResultToGraph g }

/-! ## The loop -/

/-- The batch to execute next, from a normalized plan: of the ready tasks those that do not
    conflict, and where none is ready the ones that are running already. -/
def nextBatch (run : PlannedRun) (plan : Plan) : PlannedRun × List Task :=
  if plan.readyTasks = [] then (run, plan.running)
  else selectExecutionBatch sha1Hex run plan.readyTasks

/-- The loop between two steps: the run, and the batch that is being executed. -/
structure PlanLoop where
  run : PlannedRun
  inFlight : List Task := []

inductive LoopStep
  /-- The top of the loop body, up to the execution of a batch. -/
  | dispatch
  /-- The batch in flight ends with these results. -/
  | results (rs : List TaskExecutionResult)
  /-- The session was changed while a batch of several tasks was executed on copies of it. -/
  | conflict

namespace PlanLoop

/-- A plan that is over, or of which nothing can be dispatched, is left to the recovery. -/
def dispatch (l : PlanLoop) : PlanLoop :=
  match l.run.plan with
  | none => l
  | some plan =>
    let plan := plan.normalizeExecution
    let run := { l.run with plan := some plan }
    if plan.terminal then { l with run }
    else
      let next := nextBatch sha1Hex run plan
      if next.2 = [] then { l with run := next.1 }
      else ⟨beginBatch sha1Hex next.1 next.2, next.2⟩

/-- A batch of one task, or of a serial plan, is executed on the session itself. -/
def inParallel (l : PlanLoop) : Bool :=
  1 < l.inFlight.length && (l.run.plan.map Plan.strategy) ≠ some .serial

def step (l : PlanLoop) : LoopStep → PlanLoop
  | .dispatch => if l.inFlight = [] then l.dispatch sha1Hex else l
  | .results rs =>
    if l.inFlight = [] then l else ⟨applyBatchResults sha1Hex l.run rs, []⟩
  | .conflict =>
    if l.inParallel then ⟨requeueBatchTasksForRetry l.run (l.inFlight.map Task.id), []⟩ else l

end PlanLoop

end Hopclaw
