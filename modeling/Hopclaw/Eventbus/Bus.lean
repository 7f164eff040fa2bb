import Hopclaw.Domain.Err
import Hopclaw.Text.GoStrings
import Mathlib.Data.String.Basic

/-! # The event bus

`InMemoryBus` (`eventbus/bus.go`) and the filter in front of durable sinks
(`eventbus/filtering.go`). The bus numbers the events that come without an id. Its counter belongs
to the process: it starts at zero each time. -/

namespace Hopclaw.Eventbus

open GoStrings

/-- `EventType`: any text. -/
structure EventType where
  text : String
deriving DecidableEq

def eventRunSubmitted : EventType := ⟨"run.submitted"⟩
def eventApprovalRequested : EventType := ⟨"approval.requested"⟩
def eventApprovalResolved : EventType := ⟨"approval.resolved"⟩
def eventApprovalTimedOut : EventType := ⟨"approval.timed_out"⟩
def eventApprovalGraceWarning : EventType := ⟨"approval.grace_warning"⟩
def eventModelTextDelta : EventType := ⟨"model.text_delta"⟩
def eventModelReasoningDelta : EventType := ⟨"model.reasoning_delta"⟩
def eventGovernanceDeliveryQueued : EventType := ⟨"governance.delivery.queued"⟩

/-- An event with attributes in `A`. A nil map of attributes is `none`. -/
structure Event (A : Type) where
  id : String := ""
  type : EventType
  runID : String := ""
  sessionID : String := ""
  time : Time := 0
  attrs : Option A := none
deriving DecidableEq

/-- The bus without its sinks and subscribers. -/
structure InMemoryBus (A : Type) where
  nextID : ℕ := 0
  events : List (Event A) := []
  max : ℕ := 1000
deriving DecidableEq

variable {A : Type}

def newInMemoryBusWithLimit (limit : ℤ) : InMemoryBus A :=
  { max := if limit ≤ 0 then 1000 else limit.toNat }

def newInMemoryBus : InMemoryBus A :=
  newInMemoryBusWithLimit 1000

/-- The id `Publish` formats from the counter. -/
def eventID (n : ℕ) : String :=
  "evt-" ++ String.ofList (zeroPadded 6 n)

/-- The event as `Publish` hands it to the sinks: the fields the caller left out are filled in.
    `empty` is the map without entries. -/
def InMemoryBus.filled (empty : A) (bus : InMemoryBus A) (event : Event A) (now : Time) :
    Event A :=
  { event with
    id := if event.id = "" then eventID (bus.nextID + 1) else event.id
    time := if event.time = 0 then now else event.time
    attrs := some (event.attrs.getD empty) }

/-- The part of `Publish` under the lock. The oldest event leaves a full history. -/
def InMemoryBus.publish (empty : A) (bus : InMemoryBus A) (event : Event A) (now : Time) :
    Event A × InMemoryBus A :=
  let stored := bus.filled empty event now
  (stored,
    { bus with
      nextID := if event.id = "" then bus.nextID + 1 else bus.nextID
      events :=
        if 0 < bus.max ∧ bus.max ≤ bus.events.length then bus.events.tail ++ [stored]
        else bus.events ++ [stored] })

/-- Whether an event is kept by durable sinks: the deltas of a streamed answer are not. -/
def persistDefaultRuntimeEvent (event : Event A) : Bool :=
  if event.type = eventModelTextDelta ∨ event.type = eventModelReasoningDelta then false else true

/-! ## Ids -/

theorem eventID_ne_empty (n : ℕ) : eventID n ≠ "" := by
  intro h
  have := congrArg String.toList h
  simp [eventID] at this

/-- No event leaves the bus without an id. -/
theorem InMemoryBus.filled_id_ne_empty (empty : A) (bus : InMemoryBus A) (event : Event A)
    (now : Time) : (bus.filled empty event now).id ≠ "" := by
  simp only [InMemoryBus.filled]
  split_ifs with h
  · exact eventID_ne_empty _
  · exact h

end Hopclaw.Eventbus
