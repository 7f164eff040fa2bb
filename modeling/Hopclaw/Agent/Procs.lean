import Hopclaw.Agent.World

/-! # Calling the operations

The operations as programs, in the shape the agent's functions use them: `ProcE` for a function
that returns an error, where an error ends the function as `if err != nil { return err }` does. -/

namespace Hopclaw

open Interleaving ExceptT

abbrev ProcE (α : Type) := ExceptT Err Proc α

namespace Proc

/-- Issue an operation. -/
def op (o : Op) : Proc o.Resp :=
  Prog.op (S := sig) o

/-- Issue an operation whose error the caller only logs. -/
def logged (o : Op) : Proc Unit := do
  let _ ← op o
  return ()

/-- `if c { body }` in the middle of a function. -/
def onlyIf (c : Bool) (body : Proc Unit) : Proc Unit :=
  if c then body else pure ()

def emit (event : EventType) (run : Run) : Proc Unit :=
  logged (.emit ⟨event, run.id, run.sessionID⟩)

end Proc

namespace ProcE

open Proc

@[inherit_doc Proc.onlyIf]
def onlyIf (c : Bool) (body : ProcE Unit) : ProcE Unit :=
  if c then body else pure ()

def now : ProcE { t : Time // t ≠ 0 } := liftM (op .now)

def runsSeen (externalEventID : String) (within : ℤ) : ProcE Bool :=
  liftM (op (.runsSeen externalEventID within))

def claimExecution (runID : String) : ProcE Bool := liftM (op (.claimExecution runID))

def runsFindByExternalEvent (id : String) : ProcE Run := mk (op (.runsFindByExternalEvent id))

def runsGet (id : String) : ProcE Run := mk (op (.runsGet id))

def runsCreate (sessionID : String) (msg : IncomingMessage) (cfg : AgentConfig) : ProcE Run :=
  mk (op (.runsCreate sessionID msg cfg))

def runsList (filter : RunListFilter) : ProcE RunPage := mk (op (.runsList filter))

/-- `Update`, and the caller's copy as it is stamped. -/
def runsUpdate (run : Run) : ProcE Run := do
  let now ← (mk (op (.runsUpdate run)) : ProcE Time)
  return run.stamped now

def queueEnqueue (sessionID runID : String) (mode : QueueMode) : ProcE Unit :=
  mk (op (.queueEnqueue sessionID runID mode))

def approvalsCreate (ticket : Approval.Ticket) : ProcE Approval.Ticket :=
  mk (op (.approvalsCreate ticket))

def approvalsGet (id : String) : ProcE Approval.Ticket := mk (op (.approvalsGet id))

def approvalsGetByRun (id : String) : ProcE Approval.Ticket := mk (op (.approvalsGetByRun id))

def approvalsResolve (id : String) (resolution : Approval.Resolution) : ProcE Approval.Ticket :=
  mk (op (.approvalsResolve id resolution))

def sessionsGetOrCreate (key model id : String) : ProcE Session :=
  mk (op (.sessionsGetOrCreate key model id))

def sessionsEpisode (id : String) (rotate : Bool) : ProcE Unit :=
  mk (op (.sessionsEpisode id rotate))

def sessionsAppend (id : String) (msg : IncomingMessage) : ProcE Unit :=
  mk (op (.sessionsAppend id msg))

def sessionsLoad (id : String) : ProcE Session := mk (op (.sessionsLoad id))

end ProcE

end Hopclaw
