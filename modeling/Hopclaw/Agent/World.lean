import Hopclaw.Interleaving.Pool
import Hopclaw.Agent.RunStore
import Hopclaw.Agent.Coordinator
import Hopclaw.Agent.Sessions
import Hopclaw.Approval.Store

/-! # The shared state and its atomic operations

Everything the agent's goroutines share, and the operations on it that are atomic in the source
because a lock or a `sync.Map` makes them so. What runs concurrently is written over these
operations as a `Prog`, and interleaved operation by operation.

Besides the state there is an environment, fixed for an execution: what the clock reads, in which
order maps are visited, and which operations fail. A failing operation returns the failure and
changes nothing; an environment without failures is `Env.Faultless`. -/

namespace Hopclaw

open Interleaving

/-- What the execution of operations depends on besides the state. The argument `ℕ` is the number
    of operations executed before. -/
structure Env where
  /-- The clock readings during an operation; a clock never reads the zero time. -/
  clock : ℕ → ℕ → { t : Time // t ≠ 0 }
  /-- The order in which a listing finds the records it selects. -/
  order : ℕ → (l : List Run) → { l' : List Run // l'.Perm l }
  /-- The failure of the operation, if it fails. -/
  fault : ℕ → Option Err

def Env.Faultless (env : Env) : Prop :=
  ∀ n, env.fault n = none

structure World where
  tick : ℕ := 0
  runs : RunStore := {}
  queue : Coordinator := {}
  approvals : Approval.Store := {}
  grants : Approval.GrantStore := {}
  sessions : SessionStore := {}
  /-- Events published so far, newest first. -/
  bus : List Event := []
  /-- The runs claimed for execution, with the time of the claim. -/
  executing : AList (fun _ : String => Time) := ∅
  nextSweep : Time := 0
  /-- The runs with a registered cancel function. -/
  cancels : AList (fun _ : String => Time) := ∅
  /-- The runs with a live dispatch goroutine. -/
  dispatching : List String := []

def World.empty : World := {}

/-- From where a run is taken off the session queue. The source calls the same `FinishRun`
    everywhere; the site is kept to speak about the calls apart. -/
inductive FinishSite
  /-- The function returned by `claimQueuedExecution`, deferred by the executor. -/
  | finishQueue
  /-- `claimQueuedExecution`, after `ClaimQueuedRun` failed or claimed nothing. -/
  | unclaimed
  /-- `finalizeRun`. -/
  | finalizer
deriving DecidableEq

inductive Op
  | now
  | runsSeen (externalEventID : String) (within : ℤ)
  | runsFindByExternalEvent (externalEventID : String)
  | runsGet (runID : String)
  | runsCreate (sessionID : String) (msg : IncomingMessage) (cfg : AgentConfig)
  | runsList (filter : RunListFilter)
  | runsUpdate (run : Run)
  | runsClaim (runID : String)
  | queueEnqueue (sessionID runID : String) (mode : QueueMode)
  | queueNext (sessionID : String)
  | queueStart (sessionID runID : String)
  | queueFinish (site : FinishSite) (sessionID runID : String)
  | approvalsCreate (ticket : Approval.Ticket)
  | approvalsGet (ticketID : String)
  | approvalsGetByRun (runID : String)
  | approvalsResolve (ticketID : String) (resolution : Approval.Resolution)
  | grantScoped (sessionID toolName : String) (scope : Approval.Scope)
      (resourceScope : Approval.ResourceScope)
  | sessionsGetOrCreate (sessionKey defaultModel sessionID : String)
  | sessionsEpisode (sessionID : String) (rotate : Bool)
  | sessionsAppend (sessionID : String) (msg : IncomingMessage)
  | sessionsLoad (sessionID : String)
  | sessionsByKey (sessionKey : String)
  | emit (event : Event)
  | claimExecution (runID : String)
  | releaseExecution (runID : String)
  | storeRunCancel (runID : String)
  | deleteRunCancel (runID : String)
  | takeRunCancel (runID : String)
  | claimDispatch (runID : String)
  | releaseDispatch (runID : String)

def Op.Resp : Op → Type
  | .now => { t : Time // t ≠ 0 }
  | .runsSeen .. => Bool
  | .runsFindByExternalEvent _ => Except Err Run
  | .runsGet _ => Except Err Run
  | .runsCreate .. => Except Err Run
  | .runsList _ => Except Err RunPage
  | .runsUpdate _ => Except Err Time
  | .runsClaim _ => Except Err (Run × Bool)
  | .queueEnqueue .. => Except Err Unit
  | .queueNext _ => Except Err (Option String)
  | .queueStart .. => Except Err Unit
  | .queueFinish .. => Except Err Unit
  | .approvalsCreate _ => Except Err Approval.Ticket
  | .approvalsGet _ => Except Err Approval.Ticket
  | .approvalsGetByRun _ => Except Err Approval.Ticket
  | .approvalsResolve .. => Except Err Approval.Ticket
  | .grantScoped .. => Unit
  | .sessionsGetOrCreate .. => Except Err Session
  | .sessionsEpisode .. => Except Err Unit
  | .sessionsAppend .. => Except Err Unit
  | .sessionsLoad _ => Except Err Session
  | .sessionsByKey _ => Except Err Session
  | .emit _ => Except Err Unit
  | .claimExecution _ => Bool
  | .releaseExecution _ => Unit
  | .storeRunCancel _ => Unit
  | .deleteRunCancel _ => Unit
  | .takeRunCancel _ => Bool
  | .claimDispatch _ => Bool
  | .releaseDispatch _ => Unit

abbrev sig : Signature where
  Op := Op
  Resp := Op.Resp

/-- Programs over the shared state. -/
abbrev Proc := Prog sig

/-- `runRegistryTTL` and `runRegistrySweepInterval`, in nanoseconds. -/
def runRegistryTTL : Time := 24 * 3600 * 1000000000

def runRegistrySweepInterval : Time := 5 * 60 * 1000000000

namespace World

variable (w : World)

/-- A registry without the entries that are older than a day, unless their run is stored as
    running. -/
def sweptEntries (now : Time) (entries : AList fun _ : String => Time) :
    AList fun _ : String => Time :=
  (entries.entries.filter fun e =>
    e.2 + runRegistryTTL ≤ now && (w.runs.find? e.1).all fun run => run.status ≠ .running).foldl
    (fun m e => m.erase e.1) entries

/-- `maybeSweepRunState`. -/
def sweepRunState (now : Time) : World :=
  if w.nextSweep ≠ 0 && now < w.nextSweep then w
  else
    { w with
      nextSweep := now + runRegistrySweepInterval
      executing := w.sweptEntries now w.executing
      cancels := w.sweptEntries now w.cancels }

/-- `claimRunExecution`: false if the run is claimed already. -/
def claimExecution (now : Time) (runID : String) : Bool × World :=
  if GoStrings.trimSpace runID = "" then (true, w)
  else
    let w := w.sweepRunState now
    if runID ∈ w.executing then (false, w)
    else (true, { w with executing := w.executing.insert runID now })

def storeRunCancel (now : Time) (runID : String) : World :=
  if GoStrings.trimSpace runID = "" then w
  else
    let w := w.sweepRunState now
    { w with cancels := w.cancels.insert runID now }

end World

/-! ## Execution -/

section Exec

variable (env : Env)

/-- An operation on one of the stores: it may fail before it does anything. -/
def World.faulty {α : Type} (w : World) (act : Except Err α × World) : Except Err α × World :=
  match env.fault w.tick with
  | some e => (.error e, w)
  | none => act

/-- The effect of an operation, apart from the count of operations. -/
def World.act (w : World) : (o : Op) → o.Resp × World
  | .now => (env.clock w.tick 0, w)
  | .runsSeen eventID within => (w.runs.seen (env.clock w.tick 0).1 eventID within, w)
  | .runsFindByExternalEvent eventID =>
    w.faulty env (w.runs.findByExternalEvent eventID, w)
  | .runsGet id => w.faulty env (w.runs.get id, w)
  | .runsCreate sessionID msg cfg =>
    let r := w.runs.create (env.clock w.tick 0).1 sessionID msg cfg
    w.faulty env (.ok r.1, { w with runs := r.2 })
  | .runsList filter =>
    w.faulty env (.ok (w.runs.list filter (env.order w.tick)), w)
  | .runsUpdate run =>
    let r := w.runs.update (env.clock w.tick 0).1 run
    w.faulty env (r.1, { w with runs := r.2 })
  | .runsClaim id =>
    let r := w.runs.claimQueuedRun (env.clock w.tick 0).1 (env.clock w.tick 1).1 id
    w.faulty env (r.1, { w with runs := r.2 })
  | .queueEnqueue sessionID runID mode =>
    let r := w.queue.enqueueSessionRun sessionID runID mode
    w.faulty env (r.1, { w with queue := r.2 })
  | .queueNext sessionID => w.faulty env (.ok (w.queue.nextQueuedRun sessionID), w)
  | .queueStart sessionID runID =>
    let r := w.queue.startRun sessionID runID
    w.faulty env (r.1, { w with queue := r.2 })
  | .queueFinish _ sessionID runID =>
    w.faulty env (.ok (), { w with queue := w.queue.finishRun sessionID runID })
  | .approvalsCreate ticket =>
    let r := w.approvals.create (env.clock w.tick 0).1 ticket
    w.faulty env (r.1, { w with approvals := r.2 })
  | .approvalsGet id => w.faulty env (w.approvals.get id, w)
  | .approvalsGetByRun id => w.faulty env (w.approvals.getByRun id, w)
  | .approvalsResolve id resolution =>
    let r := w.approvals.resolve (env.clock w.tick 0).1 id resolution
    w.faulty env (r.1, { w with approvals := r.2 })
  | .grantScoped sessionID toolName scope resourceScope =>
    ((), { w with grants := w.grants.grantScoped sessionID toolName scope resourceScope })
  | .sessionsGetOrCreate key model id =>
    let r := w.sessions.getOrCreate (env.clock w.tick 0).1 key model id
    w.faulty env (.ok r.1, { w with sessions := r.2 })
  | .sessionsEpisode id rotate =>
    let r := w.sessions.episode id rotate
    w.faulty env (r.1, { w with sessions := r.2 })
  | .sessionsAppend id msg =>
    let r := w.sessions.appendUserMessage (env.clock w.tick 0).1 id msg
    w.faulty env (r.1, { w with sessions := r.2 })
  | .sessionsLoad id => w.faulty env (w.sessions.load id, w)
  | .sessionsByKey key => w.faulty env (w.sessions.getByKey key, w)
  | .emit event => w.faulty env (.ok (), { w with bus := event :: w.bus })
  | .claimExecution runID => w.claimExecution (env.clock w.tick 0).1 runID
  | .releaseExecution runID => ((), { w with executing := w.executing.erase runID })
  | .storeRunCancel runID => ((), w.storeRunCancel (env.clock w.tick 0).1 runID)
  | .deleteRunCancel runID => ((), { w with cancels := w.cancels.erase runID })
  | .takeRunCancel runID =>
    (decide (runID ∈ w.cancels), { w with cancels := w.cancels.erase runID })
  | .claimDispatch runID =>
    if runID ∈ w.dispatching then (false, w)
    else (true, { w with dispatching := runID :: w.dispatching })
  | .releaseDispatch runID =>
    ((), { w with dispatching := w.dispatching.filter fun id => id ≠ runID })

/-- Execute one operation. -/
def World.exec (o : Op) (w : World) : o.Resp × World :=
  let r := w.act env o
  (r.1, { r.2 with tick := w.tick + 1 })

end Exec

end Hopclaw
