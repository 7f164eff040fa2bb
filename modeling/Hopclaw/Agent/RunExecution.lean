import Hopclaw.Agent.ApprovalFlow

/-! # Executing a run

`ExecuteRun` and `ResumeRun` (`agent/component.go`), the claim they start from and the ends they
come to (`agent/run_execution.go`, `agent/run_status.go`, `agent/workflow_yield.go`).

What the executor does between the two depends on what the model and the tools answer. To the
shared state it is a sequence of a few kinds of actions, listed in `ExecAction`; a `Script` is the
sequence one execution goes through. Everything is stated for all scripts. -/

namespace Hopclaw

open ExceptT

variable (a : AgentComponent) (run : Run)

/-! ## Ends of a run that the executor brings about -/

/-- `refreshRun`: the stored run, and whether it is cancelled. -/
def refreshRun : ProcE (Run × Bool) := do
  let latest ← ProcE.runsGet run.id
  return (latest, latest.status = .cancelled)

/-- How the functions below begin: a run that was cancelled meanwhile is left alone. -/
def unlessCancelled (finish : Run → ProcE Unit) : ProcE Unit := do
  let (run, cancelled) ← refreshRun run
  if cancelled then return ()
  else finish run

def completion : RunFinalization where
  status := .completed
  eventType := some .runCompleted
  planAction := .cancel "run completed"

def completeRun : ProcE Unit :=
  unlessCancelled run fun run => do
    let _ ← finalizeRun a run completion

def failure (err : Err) : RunFinalization where
  status := .failed
  errorText := err.text
  eventType := some .runFailed
  planAction := .fail (some err)

/-- The error is returned after the run has been failed, so a caller sees it too. -/
def failRun (err : Err) : ProcE Unit :=
  unlessCancelled run fun run => do
    let _ ← finalizeRun a run (failure err)
    throw err

def timeout : RunFinalization where
  status := .cancelled
  errorText := a.config.timeoutText
  eventType := some .runCancelled
  planAction := .cancel a.config.timeoutText

def timeoutRun : ProcE Unit :=
  unlessCancelled run fun run => do
    let run ← finalizeRun a run (timeout a)
    Proc.emit .runTimeout run

def workflowYield : RunFinalization where
  status := .completed
  eventType := some .runCompleted
  finishQueue := true

/-- `budgetErr` is the error of an exhausted workflow budget. -/
def yieldWorkflowRun (budgetErr : Option Err) : ProcE Unit :=
  unlessCancelled run fun run =>
    match budgetErr with
    | some err => failRun a run err
    | none => do
      let run ← finalizeRun a run workflowYield
      Proc.emit .workflowYielded run

def handleRunExecutionError (err : Err) : ProcE Unit :=
  if err.is .deadlineExceeded then timeoutRun a run else failRun a run err

/-- `ensureRunnable`; `ctxErr` is what the context reports. -/
def ensureRunnable (ctxErr : Option Err) : ProcE Run := do
  let (run, cancelled) ← refreshRun run
  if cancelled then throw ⟨"run is cancelled", some .runCancelled⟩
  else
    match ctxErr with
    | some err => throw err
    | none => return run

/-- `ensureRunnable`, for a caller that may go on without a run. -/
def ensureRunnable? : ProcE (Option Run) := do
  let run ← ensureRunnable run none
  return some run

/-! ## What the executor does to the run -/

/-- The fields of its copy that the executor sets between two writes. -/
structure RunEdit where
  model : Option String := none
  executionMode : Option ExecutionMode := none
  lastSessionRevision : Option ℕ := none
  toolRounds : Option ℕ := none
  pendingTools : Option (List ToolCall) := none
  preflight : Option (Option RunPreflightReport) := none
  plan : Option (Option Planner.Plan) := none

def RunEdit.apply (edit : RunEdit) (run : Run) : Run :=
  { run with
    model := edit.model.getD run.model
    executionMode := edit.executionMode.getD run.executionMode
    lastSessionRevision := edit.lastSessionRevision.getD run.lastSessionRevision
    toolRounds := edit.toolRounds.getD run.toolRounds
    pendingTools := edit.pendingTools.getD run.pendingTools
    preflight := edit.preflight.getD run.preflight
    plan := edit.plan.getD run.plan }

/-- What becomes of an error of an executor step: it is only logged, returned, or handed to
    `handleRunExecutionError`. -/
inductive OnError
  | log | ret | handle
deriving DecidableEq

inductive ExecAction
  /-- `ensureRunnable`: the copy is replaced by the stored run. -/
  | refresh (ctxErr : Option Err) (onErr : OnError)
  /-- `Update` of the copy after an edit of other fields. -/
  | persist (edit : RunEdit) (onErr : OnError)
  /-- `transitionRun` to the same status (`""`) or to `running`, then `Update`. -/
  | phase (toRunning : Bool) (phase : Option RunPhase) (opts : RunTransitionSpec) (edit : RunEdit)
      (handled : Bool)
  | waitApproval (req : ApprovalRequest)
  /-- Watch mode asks the user for a target. -/
  | waitInput (report : RunPreflightReport)
  | complete
  | fail (err : Err)
  | yield (budgetErr : Option Err)
  /-- Return without touching the run. -/
  | stop (err : Option Err)

structure Script where
  /-- The error of a hook that blocks the start. -/
  hookErr : Option Err := none
  body : List ExecAction := []

/-- Hand the error of an executor step on. -/
def onError (handled : Bool) (e : Err) : ProcE Unit :=
  if handled then handleRunExecutionError a run e else throw e

def executeLoop (a : AgentComponent) : Run → List ExecAction → ProcE Unit
  | _, [] => pure ()
  | run, .refresh ctxErr onErr :: rest =>
    mk do
      match ← (ensureRunnable run ctxErr).run with
      | .ok run => (executeLoop a run rest).run
      | .error e => (onError a run (onErr = .handle) e).run
  | run, .persist edit onErr :: rest =>
    mk do
      match ← (ProcE.runsUpdate (edit.apply run)).run with
      | .ok run => (executeLoop a run rest).run
      | .error e =>
        if onErr = .log then (executeLoop a (edit.apply run) rest).run
        else (onError a run (onErr = .handle) e).run
  | run, .phase toRunning phase opts edit handled :: rest =>
    let next := edit.apply (transitionRun run (if toRunning then some .running else none) phase opts)
    mk do
      match ← (ProcE.runsUpdate next).run with
      | .ok run => (executeLoop a run rest).run
      | .error e => (onError a run handled e).run
  | run, .waitApproval req :: _ =>
    mk do
      match ← (Hopclaw.waitApproval a run req).run with
      | .ok _ => pure (.ok ())
      | .error e => (handleRunExecutionError a run e).run
  | run, .waitInput report :: _ => do
    let run ← ProcE.runsUpdate
      { transitionRun run (some .waitingInput) (some .preparing) { error := some "" } with
        preflight := some report }
    Proc.emit .runPreflightUpdated run
    Proc.emit .runWaitingInput run
  | run, .complete :: _ => completeRun a run
  | run, .fail err :: _ => failRun a run err
  | run, .yield budgetErr :: _ => yieldWorkflowRun a run budgetErr
  | _, .stop none :: _ => pure ()
  | _, .stop (some err) :: _ => throw err

/-! ## Claim and dispatch -/

/-- `claimQueuedExecution`: the claimed run, or `none` if it is not this call's to execute. -/
def claimQueuedExecution : ProcE (Option Run) :=
  mk do
    if a.hasQueue then
      match ← Proc.op (.queueStart run.sessionID run.id) with
      | .error e => return if isQueueActiveRunError e then .ok none else .error e
      | .ok () =>
        match ← Proc.op (.runsClaim run.id) with
        | .error e =>
          Proc.logged (.queueFinish .unclaimed run.sessionID run.id)
          return .error e
        | .ok (_, false) =>
          Proc.logged (.queueFinish .unclaimed run.sessionID run.id)
          return .ok none
        | .ok (claimed, true) => return .ok (some claimed)
    else
      match ← Proc.op (.runsClaim run.id) with
      | .error e => return .error e
      | .ok (_, false) => return .ok none
      | .ok (claimed, true) => return .ok (some claimed)

/-- The function `claimQueuedExecution` returns, deferred by its callers. -/
def finishQueue : Proc Unit :=
  if a.hasQueue then Proc.logged (.queueFinish .finishQueue run.sessionID run.id) else pure ()

/-- `defer`: the cleanup runs however the body ends. -/
def deferred {α : Type} (body : ProcE α) (cleanup : Proc Unit) : ProcE α :=
  mk do
    let r ← body.run
    cleanup
    return r

structure RunDispatchOptions where
  eventType : EventType
  clearError : Bool := false
  setStartedAt : Bool := false

def markPreflightReady : ProcE Run :=
  match run.preflight with
  | none => pure run
  | some report =>
    if report.state ≠ .autoPreparing then pure run
    else do
      let run ← ProcE.runsUpdate
        { run with preflight := some { report with state := .ready, blocking := false } }
      Proc.emit .runPreflightUpdated run
      return run

def dispatchRunExecution (opts : RunDispatchOptions) (script : Script) : ProcE Unit :=
  match script.hookErr with
  | some err => handleRunExecutionError a run err
  | none => do
    let run ← markPreflightReady run
    let run := transitionRun run none (some .preparing)
    let run := if opts.clearError then transitionRun run none none { error := some "" } else run
    let now ← ProcE.now
    let run := if opts.setStartedAt && run.startedAt = 0 then { run with startedAt := now } else run
    let run ← ProcE.runsUpdate run
    Proc.emit opts.eventType run
    let session ← ProcE.sessionsLoad run.sessionID
    executeLoop a { run with lastSessionRevision := session.revision } script.body

/-- How `ExecuteRun` and `ResumeRun` treat the error of a part: a cancellation is no error, a
    missed deadline ends the run. -/
def settled {α : Type} (dflt : α) (body : ProcE α) : ProcE α :=
  tryCatch body fun e =>
    if e.is .contextCanceled || e.is .runCancelled then pure dflt
    else if e.is .deadlineExceeded then do timeoutRun a run; return dflt
    else throw e

/-- The execution of a claimed run, which ends with the slot given back. -/
def executeClaimed (opts : RunDispatchOptions) (script : Script) : ProcE Unit :=
  deferred (settled a run () (dispatchRunExecution a run opts script)) (finishQueue a run)

/-- The part `ExecuteRun` and `ResumeRun` share, from the claim on. -/
def claimAndDispatch (opts : RunDispatchOptions) (script : Script) : ProcE Unit :=
  settled a run () do
    Proc.logged (.storeRunCancel run.id)
    deferred (do
      match ← settled a run none (claimQueuedExecution a run) with
      | none => return ()
      | some run => executeClaimed a run opts script)
      (Proc.logged (.deleteRunCancel run.id))

def executeRun (script : Script) : ProcE Unit :=
  if !a.hasContext then throw ⟨"context engine is required", some .contextEngineNil⟩
  else if !a.hasModel then throw ⟨"model client is required", some .modelClientNil⟩
  else do
    if !(← ProcE.claimExecution run.id) then
      return ()
    deferred (do
      match ← settled a run none (ensureRunnable? run) with
      | none => return ()
      | some run =>
        claimAndDispatch a run { eventType := .runStarted, setStartedAt := true } script)
      (Proc.logged (.releaseExecution run.id))

/-- The part of `ResumeRun` that finds out whether there is something to resume: the run must not
    have ended, and its ticket must be approved. -/
def resumableRun (runID : String) : ProcE (Option Run) := do
  let run ← ProcE.runsGet runID
  match run.status with
  | .running => return none
  | .completed => throw (alreadyErr runID run.status)
  | .failed => throw (alreadyErr runID run.status)
  | _ =>
    let run? ← tryCatch (ensureRunnable? run) fun e =>
      if e.is .runCancelled then throw (runCancelledErr runID)
      else if e.is .deadlineExceeded then do timeoutRun a run; return none
      else throw e
    match run? with
    | none => return none
    | some run =>
      let ticket ← ProcE.approvalsGetByRun runID
      if ticket.status ≠ .approved then
        throw ⟨"run " ++ runID ++ " approval status is " ++ ticket.status.text, none⟩
      else return some run

def resumeRun (runID : String) (script : Script) : ProcE Unit :=
  if !a.hasApprovals then throw approvalStoreNil
  else do
    if !(← ProcE.claimExecution runID) then
      return ()
    deferred (do
      match ← resumableRun a runID with
      | none => return ()
      | some run =>
        claimAndDispatch a run { eventType := .runResumed, clearError := true } script)
      (Proc.logged (.releaseExecution runID))

end Hopclaw
