import Hopclaw.Agent.Procs

/-! # What an actor knows

The read-modify-write protocols of the agent share no lock across their steps: an actor reads a
run, edits its copy and writes the copy back. `Hist` is what an observer remembers of one actor's
own operations: the last state it read or wrote of each run, the session slot it holds, the event
it is about to create a run for, and the run the store named it for an event. `protocol` says what
each operation must satisfy in these terms; that the modelled functions keep to it is proved
function by function in `Proofs/Conformance.lean`, and the invariants of the concurrent system
follow from it alone. -/

namespace Hopclaw

open Interleaving

/-- The identity and status of a run, as an actor read or wrote it. -/
structure Snapshot where
  status : RunStatus
  inputEventID : String
  sessionID : String
deriving DecidableEq

def Run.snapshot (run : Run) : Snapshot :=
  ⟨run.status, run.inputEventID, run.sessionID⟩

/-- The execution slot of a session, taken by `StartRun`; `claimed` once `ClaimQueuedRun` gave the
    run to the actor. -/
structure Slot where
  sessionID : String
  runID : String
  claimed : Bool
deriving DecidableEq

structure Hist where
  /-- The actor is the recovery sweep, which writes a status of its own choice. -/
  recovery : Bool := false
  seen : String → Option Snapshot := fun _ => none
  slot : Option Slot := none
  /-- The event the store said it has not seen, while no run was created for it. -/
  pending : Option String := none
  /-- The run the store returned for an event, found or created. -/
  answer : String → Option String := fun _ => none

namespace Hist

def see (h : Hist) (run : Run) : Hist :=
  { h with seen := Function.update h.seen run.id (some run.snapshot) }

def seeResult (h : Hist) : Except Err Run → Hist
  | .ok run => h.see run
  | .error _ => h

/-- What the actor remembers of one operation and its answer. -/
def note : (o : Op) → o.Resp → Hist → Hist
  | .runsSeen e _, (r : Bool), h =>
    { h with pending := if r then none else some e }
  | .runsFindByExternalEvent e, (r : Except Err Run), h =>
    { h.seeResult r with
      answer := match r with
        | .ok run => Function.update h.answer e (some run.id)
        | .error _ => h.answer }
  | .runsGet _, (r : Except Err Run), h => h.seeResult r
  | .runsCreate _ msg _, (r : Except Err Run), h =>
    { h.seeResult r with
      pending := none
      answer := match r with
        | .ok run => Function.update h.answer msg.externalEventID (some run.id)
        | .error _ => h.answer }
  | .runsList _, (r : Except Err RunPage), h =>
    match r with
    | .ok page => page.runs.foldl see h
    | .error _ => h
  | .runsUpdate run, (r : Except Err Time), h =>
    match r with
    | .ok _ => h.see run
    | .error _ => h
  | .runsClaim _, (r : Except Err (Run × Bool)), h =>
    match r with
    | .ok (run, claimed) =>
      { h.see run with
        slot := if claimed then h.slot.map fun s => { s with claimed := true } else h.slot }
    | .error _ => h
  | .queueStart sessionID runID, (r : Except Err Unit), h =>
    match r with
    | .ok _ => { h with slot := some ⟨sessionID, runID, false⟩ }
    | .error _ => h
  | .queueFinish site _ _, _, h => if site = .finalizer then h else { h with slot := none }
  | _, _, h => h

/-- The actor last read or wrote the run just as this copy of it is. -/
def Tracks (h : Hist) (run : Run) : Prop :=
  h.seen run.id = some run.snapshot

/-- The copy differs from what the actor last read or wrote by a step of the status; the recovery
    sweep instead writes `failed` over an unfinished run. -/
def MayWrite (h : Hist) (run : Run) : Prop :=
  ∃ snap, h.seen run.id = some snap ∧ snap.inputEventID = run.inputEventID ∧
    snap.sessionID = run.sessionID ∧
    if h.recovery then snap.status.terminal = false ∧ run.status = .failed
    else RunStatus.Step snap.status run.status

end Hist

/-- What each operation of an actor must satisfy, given what the actor knows. With a session queue
    a run is claimed only while its slot is held. -/
def guarantee (hasQueue : Bool) (h : Hist) : Op → Prop
  | .runsUpdate run => h.MayWrite run
  | .runsCreate _ msg _ => msg.externalEventID = "" ∨ h.pending = some msg.externalEventID
  | .queueStart _ runID => h.slot = none ∧ h.seen runID ≠ none
  | .runsClaim runID => hasQueue = true → ∃ s, h.slot = some ⟨s, runID, false⟩
  | _ => True

def protocol (hasQueue : Bool) : Prog.Protocol sig Hist where
  note := Hist.note
  guar := guarantee hasQueue

/-- Operations that the protocol neither constrains nor remembers. -/
def Op.Silent : Op → Prop
  | .now | .emit _ | .takeRunCancel _ | .queueFinish .finalizer _ _ | .grantScoped ..
  | .approvalsCreate _ | .approvalsGet _ | .approvalsGetByRun _ | .approvalsResolve ..
  | .storeRunCancel _ | .deleteRunCancel _ | .claimExecution _ | .releaseExecution _
  | .sessionsGetOrCreate .. | .sessionsEpisode .. | .sessionsAppend .. | .sessionsLoad _
  | .queueEnqueue .. | .queueNext _ | .claimDispatch _ | .releaseDispatch _ => True
  | _ => False

variable {hasQueue : Bool}

theorem Op.Silent.guar {o : Op} (ho : o.Silent) (h : Hist) : (protocol hasQueue).guar h o := by
  cases o <;> first | exact trivial | exact ho.elim

theorem Op.Silent.note {o : Op} (ho : o.Silent) (r : o.Resp) (h : Hist) :
    (protocol hasQueue).note o r h = h := by
  cases o
  case queueFinish site s r =>
    cases site
    case finalizer => rfl
    all_goals exact ho.elim
  all_goals first | rfl | exact ho.elim

/-- A silent part of a function leaves what its actor knows as it was. -/
theorem silent_conforms {α : Type} {p : Proc α} (hp : p.Uses Op.Silent) (h : Hist) :
    p.Conforms (protocol hasQueue) (fun h' _ => h' = h) h :=
  hp.conforms (fun _ ho => ho.guar) (fun _ ho => ho.note) h

end Hopclaw
