import Hopclaw.Interleaving.Trace
import Hopclaw.Agent.Protocol
import Hopclaw.Agent.RunExecution
import Hopclaw.Agent.Submit
import Hopclaw.Runtime.Maintenance

/-! # The concurrent agent

Every call that reads or writes runs, as an actor of its own. A system is any family of actors over
one shared state; a schedule says in which order they take their steps. -/

namespace Hopclaw

open Interleaving

inductive Actor
  | submit (msg : IncomingMessage)
  | executeRun (run : Run) (script : Script)
  | resumeRun (runID : String) (script : Script)
  | cancelRun (runID : String)
  | resolveApproval (ticketID : String) (resolution : Approval.Resolution)
  | markBackgroundFailure (runID : String) (err : Option Err)
  | supersedeWaitingInputRun (runID reason : String)
  | recoverOrphanedRuns (reason : String)

/-- How a call ends: an error, or the run that `Submit` and `CancelRun` return. -/
abbrev Outcome := Except Err (Option Run)

def returning (p : ProcE Run) : Proc Outcome := do
  match ← p.run with
  | .ok run => return .ok (some run)
  | .error e => return .error e

def quiet {α : Type} (p : ProcE α) : Proc Outcome := do
  match ← p.run with
  | .ok _ => return .ok none
  | .error e => return .error e

namespace Actor

def prog (a : AgentComponent) : Actor → Proc Outcome
  | submit msg => returning (Hopclaw.submit a msg)
  | executeRun run script => quiet (Hopclaw.executeRun a run script)
  | resumeRun runID script => quiet (Hopclaw.resumeRun a runID script)
  | cancelRun runID => returning (Hopclaw.cancelRun a runID)
  | resolveApproval ticketID resolution => quiet (Hopclaw.resolveApproval a ticketID resolution)
  | markBackgroundFailure runID err => quiet (Hopclaw.markBackgroundFailure a runID err)
  | supersedeWaitingInputRun runID reason =>
    quiet (Hopclaw.supersedeWaitingInputRun a runID reason)
  | recoverOrphanedRuns reason => quiet (Runtime.recoverOrphanedRuns a reason)

/-- What is known of an actor before its first step: whether it is the recovery sweep. -/
def hist : Actor → Hist
  | recoverOrphanedRuns _ => { recovery := true }
  | _ => {}

end Actor

/-- A concurrent execution: the shared state and the rest of each actor's program. -/
abbrev System (ι : Type) := Config sig ι World Hist Outcome

namespace System

variable {ι : Type}

/-- The actors before any of them took a step. -/
def start (a : AgentComponent) (actors : ι → Actor) (w : World) : System ι where
  state := w
  threads i := ⟨(actors i).hist, (actors i).prog a⟩

variable [DecidableEq ι]

/-- One actor takes a step. -/
def step (env : Env) (a : AgentComponent) (c : System ι) (i : ι) : System ι :=
  Config.step (World.exec env) (protocol a.hasQueue) c i

section Step

variable {env : Env} {a : AgentComponent} {c : System ι} {i j : ι} {o : Op}

theorem step_of_next_none (h : (c.threads i).next = none) : c.step env a i = c :=
  Config.step_of_next_none h

theorem step_state (h : (c.threads i).next = some o) :
    (c.step env a i).state = (c.state.exec env o).2 :=
  Config.step_state h

theorem step_hist (h : (c.threads i).next = some o) :
    ((c.step env a i).threads i).hist = Hist.note o (c.state.exec env o).1 (c.threads i).hist :=
  Config.step_hist h

theorem step_threads_ne (h : j ≠ i) : (c.step env a i).threads j = c.threads j :=
  Config.step_threads_ne h

end Step

/-- The actors took steps in the order of the schedule. -/
def after (env : Env) (a : AgentComponent) (c : System ι) (sched : List ι) : System ι :=
  runAll (step env a) c sched

theorem after_append (env : Env) (a : AgentComponent) (c : System ι) (s₁ s₂ : List ι) :
    c.after env a (s₁ ++ s₂) = (c.after env a s₁).after env a s₂ :=
  runAll_append (step env a) c s₁ s₂

/-- Every step of the schedule is taken where `P` allows it. -/
def Meets (env : Env) (a : AgentComponent) (P : System ι → ι → Prop) (c : System ι)
    (sched : List ι) : Prop :=
  Interleaving.Meets (step env a) P c sched

instance {env : Env} {a : AgentComponent} {P : System ι → ι → Prop} [∀ c i, Decidable (P c i)]
    (c : System ι) (sched : List ι) : Decidable (Meets env a P c sched) :=
  decidableMeets (step env a) c sched

end System

/-! ## A deployment to run -/

/-- An environment whose clock counts the operations, in which maps keep their order and nothing
    fails. -/
def Env.ticking : Env where
  clock n k := ⟨n + k + 1, Nat.succ_ne_zero _⟩
  order _ l := ⟨l, List.Perm.refl l⟩
  fault _ := none

theorem Env.ticking_faultless : Env.ticking.Faultless := fun _ => rfl

/-- A component with every collaborator, the default configuration, and a triage that runs each
    message directly. -/
def plainAgent : AgentComponent where
  lib := { urlHostname _ := none, splitHost _ := none, sha256Hex s := s }

/-- The stored status of a run. -/
def World.statusOf (w : World) (id : String) : Option RunStatus :=
  (w.runs.find? id).map Run.status

abbrev System.statusOf {ι : Type} (c : System ι) (id : String) : Option RunStatus :=
  c.state.statusOf id

/-- The state after a call that ran undisturbed in the ticking environment. -/
def World.call {α : Type} (w : World) (p : ProcE α) : World :=
  (p.run.run (World.exec Env.ticking) w).2

/-- One message was submitted to the plain agent. -/
def submittedWorld : World :=
  World.call .empty (submit plainAgent { sessionKey := "chat" })

end Hopclaw
