import Hopclaw.Agent.ApprovalFlow

/-! # Submitting a message

`Submit` (`agent/component.go`) and the steps of its pipeline (`agent/submit_pipeline.go`). The
run is created and stored before the steps that may still fail, and no step undoes another. -/

namespace Hopclaw

variable (a : AgentComponent) (msg : IncomingMessage) (session : Session) (run : Run)

/-- `findOrCreateSubmitRun`: the run the event already has, or a new one. -/
inductive SubmitRun
  | existing (run : Run)
  | created (run : Run)

def loadSubmitSession : ProcE Session :=
  ProcE.sessionsGetOrCreate msg.sessionKey (defaultString msg.model a.config.defaultModel)
    msg.sessionID

def findOrCreateSubmitRun : ProcE SubmitRun := do
  if ← ProcE.runsSeen msg.externalEventID a.config.dedupeWindow then
    return .existing (← ProcE.runsFindByExternalEvent msg.externalEventID)
  return .created (← ProcE.runsCreate session.id msg a.config)

/-- The run with what the triage of its message found. -/
def triaged : Run :=
  { run with
    executionMode := (a.triage msg session).1
    preflight := (a.triage msg session).2 }

/-- A blocking preflight report makes the run wait for input, except in watch mode. -/
def analyzeSubmitRun : Run :=
  let run := triaged a msg session run
  if run.preflight.any RunPreflightReport.blocking && run.executionMode ≠ .watch then
    transitionRun run (some .waitingInput) (some .preparing)
  else run

/-- The revision the session has after the message, and the triage result, were saved. -/
def recordedRevision : ℕ :=
  session.revision + 1 + (if a.remembersTriage then 1 else 0)

/-- The run with the session's revision recorded in it. -/
def recorded : Run :=
  { run with lastSessionRevision := recordedRevision a session }

def recordSubmitSession : ProcE Run := do
  ProcE.sessionsAppend session.id msg
  ProcE.runsUpdate (recorded a session run)

def emitSubmittedRunEvents : Proc Unit := do
  Proc.emit .runSubmitted run
  Proc.onlyIf run.preflight.isSome (Proc.emit .runPreflightUpdated run)
  Proc.onlyIf (run.status = .waitingInput) (Proc.emit .runWaitingInput run)

/-- Only a queued run interrupts the session's other runs and enters the queue. -/
def dispatchSubmittedRun : ProcE Unit := do
  ProcE.onlyIf (run.status = .queued && run.queueMode = .interrupt)
    (interruptSessionRuns a session.id run.id)
  ProcE.onlyIf (a.hasQueue && run.status = .queued)
    (ProcE.queueEnqueue session.id run.id run.queueMode)
  emitSubmittedRunEvents run

/-- The steps after `Create`, on the run it returned. -/
def submitCreated : ProcE Run := do
  ProcE.sessionsEpisode session.id (a.episodeBoundary session msg)
  let run ← ProcE.runsUpdate (analyzeSubmitRun a msg session run)
  let run ← recordSubmitSession a msg session run
  dispatchSubmittedRun a session run
  return run

def submit : ProcE Run := do
  let session ← loadSubmitSession a msg
  match ← findOrCreateSubmitRun a msg session with
  | .existing run => return run
  | .created run => submitCreated a msg session run

end Hopclaw
