import Hopclaw.Agent.Types

/-! # The session queue

`InMemoryCoordinator` of `agent/memory.go`: per session, the run that holds the execution slot and
the runs that wait for it. -/

namespace Hopclaw

open GoStrings

structure SessionQueue where
  /-- The run holding the slot, `""` when it is free. -/
  active : String := ""
  queued : List String := []
deriving DecidableEq

namespace SessionQueue

variable (q : SessionQueue)

def enqueue (runID : String) : QueueMode → Except Err SessionQueue
  | .reject =>
    if q.active ≠ "" || q.queued ≠ [] then
      .error ⟨"run rejected by queue mode", some .runRejected⟩
    else .ok { q with queued := q.queued ++ [runID] }
  | .interrupt => .ok { q with queued := [runID] }
  | .coalesce =>
    -- the last waiting run is replaced; without one the run is appended, slot free or not
    if q.queued ≠ [] then .ok { q with queued := q.queued.dropLast ++ [runID] }
    else .ok { q with queued := q.queued ++ [runID] }
  | .enqueue => .ok { q with queued := q.queued ++ [runID] }

/-- A run that is not at the head takes the free slot all the same and stays out of the list's
    way: this is how an approved run is resumed ahead of waiting ones. -/
def start (sessionID runID : String) : Except Err SessionQueue :=
  if q.active = runID then .ok q
  else if q.active ≠ "" then
    .error ⟨"session " ++ sessionID ++ " already has active run " ++ q.active, none⟩
  else
    match q.queued with
    | [] => .ok { q with active := runID }
    | head :: rest =>
      if head ≠ runID then .ok { q with active := runID }
      else .ok { active := runID, queued := rest }

/-- The run gives the slot up if it holds it, and leaves the waiting list. -/
def finish (runID : String) : SessionQueue where
  active := if q.active = runID then "" else q.active
  queued := q.queued.filter fun id => id ≠ runID

end SessionQueue

/-- The queue of every session; a session never seen has the empty one. -/
structure Coordinator where
  queues : String → SessionQueue := fun _ => {}

namespace Coordinator

variable (c : Coordinator)

def set (sessionID : String) (q : SessionQueue) : Coordinator :=
  ⟨Function.update c.queues sessionID q⟩

@[simp] theorem set_queues_self (sessionID : String) (q : SessionQueue) :
    (c.set sessionID q).queues sessionID = q := by
  simp [set]

theorem set_queues_ne {sessionID other : String} (h : other ≠ sessionID) (q : SessionQueue) :
    (c.set sessionID q).queues other = c.queues other := by
  simp [set, h]

def enqueueSessionRun (sessionID runID : String) (mode : QueueMode) :
    Except Err Unit × Coordinator :=
  match (c.queues sessionID).enqueue runID mode with
  | .error e => (.error e, c)
  | .ok q => (.ok (), c.set sessionID q)

def nextQueuedRun (sessionID : String) : Option String :=
  (c.queues sessionID).queued.head?

def startRun (sessionID runID : String) : Except Err Unit × Coordinator :=
  match (c.queues sessionID).start sessionID runID with
  | .error e => (.error e, c)
  | .ok q => (.ok (), c.set sessionID q)

def finishRun (sessionID runID : String) : Coordinator :=
  c.set sessionID ((c.queues sessionID).finish runID)

end Coordinator

/-- `isQueueActiveRunError`: the error is recognised by its text. -/
def isQueueActiveRunError (e : Err) : Bool :=
  contains (toLower e.text) "already has active run"

end Hopclaw
