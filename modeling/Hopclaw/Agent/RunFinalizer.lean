import Hopclaw.Agent.Procs
import Hopclaw.Agent.RunTransition

/-! # Ending a run

`finalizeRun` (`agent/run_finalizer.go`), through which every agent function that ends a run goes,
and the edits of the run's plan it makes on the way (`agent/plan_executor.go`). -/

namespace Hopclaw

open GoStrings Planner

/-- What an agent component is configured with. A collaborator that decides by a model, a hook or
    a policy is a function here: nothing is assumed about what it decides. -/
structure AgentComponent where
  lib : Approval.Stdlib
  config : AgentConfig := {}
  /-- `a.queue != nil`, and likewise for the other optional collaborators. -/
  hasQueue : Bool := true
  hasApprovals : Bool := true
  hasGrants : Bool := true
  hasContext : Bool := true
  hasModel : Bool := true
  /-- What `analyzeSubmitRun` finds out about a message: the execution mode and the preflight
      report. -/
  triage : IncomingMessage → Session → ExecutionMode × Option RunPreflightReport :=
    fun _ _ => (.direct, none)
  /-- `submitEpisodeBoundary`: the message starts a new episode. -/
  episodeBoundary : Session → IncomingMessage → Bool := fun _ _ => false
  /-- `rememberRunTriage` saved the triage result into the session. -/
  remembersTriage : Bool := false

/-! ## Plans of a run that ends -/

/-- Status a task id had in a plan; the last task with the id counts. -/
def planTaskStatus (plan : Plan) (id : String) : TaskStatus :=
  ((plan.tasks.reverse.find? fun t => t.id = id).map Task.status).getD .unset

/-- One event of a type for each of the tasks. -/
def emitEach (type : EventType) (run : Run) (tasks : List Task) : Proc Unit :=
  tasks.forM fun _ => Proc.emit type run

/-- `emitSkippedPlanTasks`: one event, and a progress event, for each task that is skipped now and
    was not in the plan `before`. -/
def emitSkippedPlanTasks (run : Run) (plan before : Plan) : Proc Unit :=
  (plan.tasks.filter fun t =>
    t.status = .skipped && planTaskStatus before t.id ≠ .skipped).forM fun _ => do
      Proc.emit .planTaskSkipped run
      Proc.emit .taskProgress run

/-- The tasks still queued are skipped, visited in their order. -/
def skipQueuedTasks (plan : Plan) (reason : String) : Plan :=
  (List.range plan.tasks.length).foldl (fun (plan : Plan) i =>
    match plan.tasks[i]? with
    | some t => if t.status = .queued then plan.markSkipped t.id reason else plan
    | none => plan) plan

/-- The plan after `failRunningPlanTasks`, from the normalized one. -/
def failedPlan (plan : Plan) (err : Err) : Plan :=
  let plan' := plan.running.foldl
    (fun p t => (p.markFailed t.id err.text).skipDependentsOf t.id) plan
  skipQueuedTasks plan' ("run failed: " ++ err.text)

def failRunningPlanTasks (run : Run) (err : Err) : ProcE Run :=
  match run.plan with
  | none => pure run
  | some plan => do
    let before := plan.normalizeExecution
    let plan := failedPlan before err
    let run := { run with plan := some plan }
    emitEach .planTaskFailed run before.running
    emitSkippedPlanTasks run plan before
    Proc.emit .planSnapshotUpdated run
    ProcE.runsUpdate run

/-- The plan after `cancelPlanTasks`, from the normalized one. -/
def cancelledPlan (plan : Plan) (reason : String) : Plan :=
  let plan := plan.cancelRunning reason
  plan.incomplete.foldl (fun p t => p.markSkipped t.id reason) plan

def cancelPlanTasks (run : Run) (reason : String) : ProcE Run :=
  match run.plan with
  | none => pure run
  | some plan =>
    let before := plan.normalizeExecution
    if before.running = [] ∧ before.incomplete = [] then
      pure { run with plan := some before }
    else do
      let plan := cancelledPlan before reason
      let run ← ProcE.runsUpdate { run with plan := some plan }
      emitEach .planTaskCancelled run before.running
      emitSkippedPlanTasks run plan before
      Proc.emit .planSnapshotUpdated run
      return run

/-! ## The finalizer -/

/-- `runFinalPlanFail` acts only together with an error. -/
inductive FinalPlanAction
  | none
  | cancel (reason : String)
  | fail (err : Option Err)

structure RunFinalization where
  status : RunStatus
  errorText : String := ""
  eventType : Option EventType := none
  planAction : FinalPlanAction := .none
  cancelContext : Bool := false
  finishQueue : Bool := false

/-- The plan edit of a finalization, with its own `Update` of the run. -/
def finalizePlan (run : Run) : FinalPlanAction → ProcE Run
  | .none => pure run
  | .cancel reason => cancelPlanTasks run (trimSpace reason)
  | .fail none => pure run
  | .fail (some err) => failRunningPlanTasks run err

/-- The record `finalizeRun` goes on with after its `transitionRun`. -/
def finalTransition (run : Run) (spec : RunFinalization) (now : Time) : Run :=
  transitionRun run (some spec.status) (some .finalize)
    { pendingTools := some [], approvalID := some "", error := some (trimSpace spec.errorText),
      finishedAt := some now }

/-- What follows the final `Update`: the run's context is cancelled, its slot released and the
    event published, whatever became of the transition. -/
def announceFinal (a : AgentComponent) (run : Run) (spec : RunFinalization) : Proc Unit := do
  Proc.onlyIf spec.cancelContext (Proc.logged (.takeRunCancel run.id))
  Proc.onlyIf (spec.finishQueue && a.hasQueue)
    (Proc.logged (.queueFinish .finalizer run.sessionID run.id))
  match spec.eventType with
  | some type => Proc.emit type run
  | none => pure ()

def finalizeRun (a : AgentComponent) (run : Run) (spec : RunFinalization) : ProcE Run := do
  if run.status.terminal then
    return run
  let now ← ProcE.now
  let run := finalTransition run spec now
  let run ← finalizePlan run spec.planAction
  let run ← ProcE.runsUpdate run
  announceFinal a run spec
  return run

/-! ## Ends from outside the executor -/

def backgroundFailure (err : Err) : RunFinalization where
  status := .failed
  errorText := err.text
  eventType := some .runFailed
  planAction := .fail (some err)
  cancelContext := true
  finishQueue := true

def markBackgroundFailure (a : AgentComponent) (runID : String) (err : Option Err) : ProcE Unit :=
  match err with
  | none => pure ()
  | some err =>
    if trimSpace runID = "" then pure ()
    else do
      let run ← ProcE.runsGet runID
      if run.status.terminal || run.status = .waitingApproval then
        return ()
      let _ ← finalizeRun a run (backgroundFailure err)

def runReasonClarificationSuperseded : String :=
  "clarification_superseded"

def supersedeWaitingInputRun (a : AgentComponent) (runID reason : String) : ProcE Unit :=
  if trimSpace runID = "" then pure ()
  else do
    let run ← ProcE.runsGet runID
    if run.status ≠ .waitingInput then
      return ()
    let reason := if trimSpace reason = "" then runReasonClarificationSuperseded
      else trimSpace reason
    let _ ← finalizeRun a run
      { status := .cancelled, errorText := reason, eventType := some .runCancelled,
        planAction := .cancel reason, cancelContext := true, finishQueue := true }

end Hopclaw
