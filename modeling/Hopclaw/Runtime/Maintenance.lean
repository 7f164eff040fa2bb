import Hopclaw.Agent.ApprovalFlow

/-! # Recovery after a restart

`RecoverOrphanedRuns` (`runtime/state_maintenance.go`) fails every run that a stopped process left
unfinished. It assigns the status itself, without asking the transition table. -/

namespace Hopclaw.Runtime

open GoStrings

/-- The ticket an unfinished run waits for, by its id or by the run. -/
def orphanedTicket (run : Run) : ProcE Approval.Ticket :=
  if trimSpace run.approvalID ≠ "" then ProcE.approvalsGet (trimSpace run.approvalID)
  else ProcE.approvalsGetByRun run.id

def restartResolution (reason : String) : Approval.Resolution where
  status := .cancelled
  resolvedBy := "system_restart"
  note := reason

/-- A pending ticket is cancelled; a ticket that cannot be read counts as none, and one that was
    resolved meanwhile is recognised by the error's text. -/
def cancelOrphanedApproval (a : AgentComponent) (run : Run) (reason : String) : ProcE Unit :=
  if !a.hasApprovals then pure ()
  else ExceptT.mk do
    match ← (orphanedTicket run).run with
    | .error _ => return .ok ()
    | .ok ticket =>
      if ticket.status ≠ .pending then return .ok ()
      else
        match ← (ProcE.approvalsResolve ticket.id (restartResolution reason)).run with
        | .ok _ => return .ok ()
        | .error e =>
          return if contains (toLower e.text) "already resolved" then .ok ()
            else .error ⟨"cancel orphaned approval " ++ ticket.id ++ ": " ++ e.text, e.sentinel⟩

/-- The record the recovery writes for an unfinished run. -/
def orphaned (run : Run) (reason : String) (now : Time) : Run :=
  { run with
    status := .failed
    approvalID := ""
    pendingTools := []
    error := reason
    finishedAt := now }

def recoverOrphanedRun (a : AgentComponent) (reason : String) (run : Run) : ProcE Unit := do
  cancelOrphanedApproval a run reason
  let now ← ProcE.now
  let run ← ProcE.runsUpdate (orphaned run reason now)
  Proc.emit .runFailed run

def recoverOrphanedRuns (a : AgentComponent) (reason : String) : ProcE Unit := do
  let page ← ProcE.runsList {}
  let reason := if trimSpace reason = "" then "process_restart" else trimSpace reason
  (page.runs.filter fun run => !run.status.terminal).forM (recoverOrphanedRun a reason)

end Hopclaw.Runtime
