import Hopclaw.Agent.RunFinalizer

/-! # Approvals and cancellation

`agent/approval_flow.go`: the executor's wait for an approval, the operator's resolution of one,
and cancelling a run. Each reads the run, edits its private copy and writes the copy back. -/

namespace Hopclaw

open GoStrings

variable (a : AgentComponent)

def runCancelledErr (runID : String) : Err :=
  ⟨"run is cancelled: " ++ runID, some .runCancelled⟩

def approvalStoreNil : Err :=
  ⟨"approval store is required for waiting approvals", some .approvalStoreNil⟩

def RunStatus.text : RunStatus → String
  | .queued => "queued"
  | .waitingInput => "waiting_input"
  | .running => "running"
  | .waitingApproval => "waiting_approval"
  | .streaming => "streaming"
  | .completed => "completed"
  | .failed => "failed"
  | .cancelled => "cancelled"

def alreadyErr (runID : String) (status : RunStatus) : Err :=
  ⟨"run " ++ runID ++ " is already " ++ status.text, none⟩

/-! ## Cancelling -/

def cancelResolution (note : String) : Approval.Resolution where
  status := .cancelled
  resolvedBy := "system"
  note := note

/-- The ticket is `none` where there is nothing to cancel. -/
def cancelApproval (approvalID note : String) : ProcE (Option Approval.Ticket) :=
  if !a.hasApprovals || trimSpace approvalID = "" then pure none
  else do
    let ticket ← ProcE.approvalsGet approvalID
    if ticket.status ≠ .pending then
      return some ticket
    let ticket ← ProcE.approvalsResolve approvalID (cancelResolution note)
    Proc.logged (.emit ⟨.approvalResolved, ticket.runID, ticket.sessionID⟩)
    return some ticket

/-- An error of `cancelApproval` that its callers pass on: all but "already resolved". -/
def cancelApprovalUnlessResolved (approvalID note : String) : ProcE (Option Approval.Ticket) :=
  tryCatch (cancelApproval a approvalID note) fun e =>
    if e.is .alreadyResolved then pure none else throw e

def operatorCancel : RunFinalization where
  status := .cancelled
  errorText := "cancelled by operator"
  eventType := some .runCancelled
  planAction := .cancel "cancelled by operator"
  cancelContext := true
  finishQueue := true

def cancelRun (runID : String) : ProcE Run := do
  let run ← ProcE.runsGet runID
  if run.status.terminal then throw (alreadyErr runID run.status)
  else do
    let _ ← cancelApprovalUnlessResolved a run.approvalID "run cancelled by operator"
    finalizeRun a run operatorCancel

/-- The runs `interruptSessionRuns` cancels, of a page of the session's runs. -/
def interrupted (keepRunID : String) (page : List Run) : List Run :=
  page.filter fun item => item.id ≠ keepRunID && !item.status.terminal

/-- The body of the loop of `interruptSessionRuns`: an error of the cancellation ends the loop,
    unless it is `ErrRunCancelled`. -/
def interruptRun (runID : String) : ProcE Unit :=
  tryCatch (do let _ ← cancelRun a runID) fun e =>
    if e.is .runCancelled then pure () else throw e

section

variable (ticket : Approval.Ticket)

/-- The page is limited to 64 runs. -/
def interruptSessionRuns (sessionID keepRunID : String) : ProcE Unit :=
  if trimSpace sessionID = "" then pure ()
  else do
    let page ← ProcE.runsList { sessionID, limit := 64 }
    (interrupted keepRunID page.runs).forM fun item => interruptRun a item.id

/-! ## Resolving -/

def applyApprovalGrant : Proc Unit :=
  if !a.hasGrants || ticket.status ≠ .approved then pure ()
  else ticket.toolCalls.forM fun call =>
    let scope := if call.resourceScope.empty then
        Approval.resourceScopeFromToolCall a.lib call.name call.input
      else call.resourceScope
    Proc.logged (.grantScoped ticket.sessionID call.name ticket.scope scope)

def resolvedFinal : RunFinalization where
  status := .cancelled
  errorText := "approval " ++ ticket.status.text
  eventType := some .runCancelled
  planAction := .cancel ("approval " ++ ticket.status.text)

/-- What a resolved ticket does to its run, of which `run` is the copy just read. -/
def applyResolution (run : Run) : ProcE Unit :=
  match ticket.status with
  | .approved => do
    applyApprovalGrant a ticket
    let _ ← ProcE.runsUpdate (transitionRun run (some .queued) (some .preparing) { error := some "" })
  | .denied | .cancelled => do
    let _ ← finalizeRun a run (resolvedFinal ticket)
  | .pending => pure ()

/-- The part of `ResolveApproval` after the ticket was resolved. -/
def afterResolve : ProcE Approval.Ticket := do
  Proc.logged (.emit ⟨.approvalResolved, ticket.runID, ticket.sessionID⟩)
  let run ← ProcE.runsGet ticket.runID
  if run.status = .cancelled then throw (runCancelledErr run.id)
  else do
    applyResolution a ticket run
    return ticket

end

/-- The run is read twice, before the ticket is resolved and after, and each time a cancelled run
    ends the call. -/
def resolveApproval (ticketID : String) (resolution : Approval.Resolution) :
    ProcE Approval.Ticket :=
  if !a.hasApprovals then throw approvalStoreNil
  else do
    let current ← ProcE.approvalsGet ticketID
    let resolution ← ExceptT.mk (pure (Approval.normalizeResolution current resolution))
    let run ← ProcE.runsGet current.runID
    if run.status = .cancelled then do
      let _ ← cancelApprovalUnlessResolved a current.id "run cancelled by operator"
      throw (runCancelledErr run.id)
    else do
      let ticket ← ProcE.approvalsResolve ticketID resolution
      afterResolve a ticket

/-! ## Waiting -/

/-- What the executor asks approval for. -/
structure ApprovalRequest where
  calls : List ToolCall := []
  reasons : List String := []
  metadata : List (String × Value) := []

def toApprovalCalls (lib : Approval.Stdlib) (calls : List ToolCall) : List Approval.ToolCall :=
  calls.map fun c =>
    { id := c.id, name := c.name, input := c.input,
      resourceScope := Approval.resourceScopeFromToolCall lib c.name c.input }

def waitApproval (run : Run) (req : ApprovalRequest) : ProcE Run :=
  if !a.hasApprovals then throw approvalStoreNil
  else do
    let ticket ← ProcE.approvalsCreate
      { runID := run.id, sessionID := run.sessionID, toolCalls := toApprovalCalls a.lib req.calls,
        reasons := req.reasons, metadata := some req.metadata }
    let run ← ProcE.runsUpdate (transitionRun run (some .waitingApproval) (some .waitingApproval)
      { approvalID := some ticket.id, pendingTools := some req.calls,
        error := some (join "; " req.reasons) })
    Proc.emit .approvalRequested run
    Proc.emit .runWaitingApproval run
    return run

end Hopclaw
