import Hopclaw.Governance.Delivery
import Hopclaw.Store.EventSink

/-! # Outboxes that outlive the process

`DeliveryStore` and its three implementations
(`internal/controlplane/governanceadapter/delivery.go`), and how `Handle` fills them. A row of SQLite
and a line of a log file are given by the entry they encode. -/

namespace Hopclaw.Governance

open GoStrings Eventbus DeliveryEntry InMemoryDeliveryStore

variable {A G S : Type}

/-- `DeliveryStore`, with what happens to a store between two processes. A call that returns no
    entry returns nil. -/
structure DeliveryStore (A G S : Type) where
  State : Type
  /-- The store before its first entry. -/
  fresh : State
  /-- What may go wrong in a call. -/
  Fault : Type
  enqueue : State → Entry A G S → Time → Fault → Except Err (Option (Entry A G S) × Bool) × State
  get : State → String → Except Err (Entry A G S)
  update : State → Entry A G S → Fault → Except Err Unit × State
  /-- `List` without a filter. -/
  list : State → List (Entry A G S)
  reopen : State → State

variable (lib : RecordLib A G S)

/-- The store in memory, handed on to the next dispatcher. -/
def inMemoryStore : DeliveryStore A G S where
  State := InMemoryDeliveryStore A G S
  fresh := {}
  Fault := Unit
  enqueue s entry now _ :=
    let (answer, s) := s.enqueue lib entry now
    (answer.map fun (e, created) => (some e, created), s)
  get s id := s.get lib id
  update s entry _ := s.update lib entry
  list s := s.list lib
  reopen s := s

/-! ## Log files -/

/-- The index in memory, and the last line of each file in the two directories. -/
structure JSONLDeliveryStore (A G S : Type) where
  index : InMemoryDeliveryStore A G S := {}
  root : AList fun _ : String => Entry A G S := ∅
  legacyRoot : AList fun _ : String => Entry A G S := ∅

/-- The errors of the two appends of a snapshot. -/
structure AppendFaults where
  root : Option Err := none
  legacyRoot : Option Err := none

namespace JSONLDeliveryStore

variable (s : JSONLDeliveryStore A G S)

def appendSnapshot (e : Entry A G S) (faults : AppendFaults) :
    Except Err Unit × JSONLDeliveryStore A G S :=
  match faults.root with
  | some err => (.error err, s)
  | none =>
    let s := { s with root := s.root.insert e.id e }
    match faults.legacyRoot with
    | some err => (.error err, s)
    | none => (.ok (), { s with legacyRoot := s.legacyRoot.insert e.id e })

def enqueue (entry : Entry A G S) (now : Time) (faults : AppendFaults) :
    Except Err (Option (Entry A G S) × Bool) × JSONLDeliveryStore A G S :=
  let entry := entry.normalized lib
  if entry.adapterName = "" then (.error ⟨"adapter name is required", none⟩, s)
  else
    match if entry.outboxKey = "" then none else s.index.byOutbox.lookup entry.outboxKey with
    | some existingID =>
      (.ok ((s.index.byID.lookup existingID).map (normalized lib), false), s)
    | none =>
      let copied := stamped lib
        { entry with id := deliveryID (s.index.nextID + 1), createdAt := now, updatedAt := now } now
      let index := put { s.index with nextID := s.index.nextID + 1 } copied
      match appendSnapshot { s with index } copied faults with
      | (.ok _, s) => (.ok (some copied, true), s)
      | (.error err, s) =>
        let byOutbox := if copied.outboxKey ≠ "" ∧
            s.index.byOutbox.lookup copied.outboxKey = some copied.id then
          s.index.byOutbox.erase copied.outboxKey else s.index.byOutbox
        (.error err,
          { s with index := { s.index with byID := s.index.byID.erase copied.id, byOutbox } })

/-- `Update`. A failed append takes the index back, but not what was appended. -/
def update (entry : Entry A G S) (faults : AppendFaults) :
    Except Err Unit × JSONLDeliveryStore A G S :=
  match s.index.byID.lookup (trimSpace entry.id), s.index.update lib entry with
  | some current, (.ok _, index) =>
    let next := entry.normalized lib
    match appendSnapshot { s with index } next faults with
    | (.ok _, s) => (.ok (), s)
    | (.error err, s) =>
      let byOutbox := indexed s.index.byOutbox current
      let byOutbox := if next.outboxKey ≠ "" ∧ next.outboxKey ≠ current.outboxKey then
        byOutbox.erase next.outboxKey else byOutbox
      (.error err,
        { s with
          index := { s.index with
            byID := s.index.byID.insert current.id (current.normalized lib), byOutbox } })
  | _, (answer, _) => (answer, s)

/-- `parseDeliverySequence`. -/
def parseDeliverySequence (id : String) : ℕ :=
  Nat.ofDigitChars 10
    ((trimSpace (trimPrefix (trimSpace id) "gdel-")).toList.takeWhile Char.isDigit) 0

/-- Take up the entry a file holds. -/
def takeUp (index : InMemoryDeliveryStore A G S) (item : Entry A G S) :
    InMemoryDeliveryStore A G S :=
  { index.put item with nextID := max index.nextID (parseDeliverySequence item.id) }

/-- `loadRoot`: the files are read in the order of their names. -/
def loadRoot (files : AList fun _ : String => Entry A G S) : InMemoryDeliveryStore A G S :=
  ((files.entries.insertionSort fun a b => a.1 ≤ b.1).map fun file =>
    normalized lib file.2).foldl takeUp {}

/-- `load`, for a new process. -/
def load : JSONLDeliveryStore A G S :=
  { s with index := loadRoot lib (if s.root.entries ≠ [] then s.root else s.legacyRoot) }

end JSONLDeliveryStore

def jsonlStore : DeliveryStore A G S where
  State := JSONLDeliveryStore A G S
  fresh := {}
  Fault := AppendFaults
  enqueue s entry now faults := s.enqueue lib entry now faults
  get s id := s.index.get lib id
  update s entry faults := s.update lib entry faults
  list s := s.index.list lib
  reopen s := s.load lib

/-! ## SQLite -/

/-- The rows of `delivery_outbox`. -/
structure SQLiteDeliveryStore (A G S : Type) where
  nextID : ℕ := 0
  rows : List (Entry A G S) := []

/-- The errors of the first query and of the writing statement. -/
structure StatementFaults where
  query : Option Err := none
  write : Option Err := none

namespace SQLiteDeliveryStore

variable (s : SQLiteDeliveryStore A G S)

/-- `getByOutboxKey`: the name of the adapter is compared as it is. -/
def getByOutboxKey (adapterName idempotencyKey : String) : Option (Entry A G S) :=
  if deliveryOutboxKey adapterName idempotencyKey = "" then none
  else (s.rows.find? fun row => row.adapterName = trimSpace adapterName ∧
    row.idempotencyKey = trimSpace idempotencyKey).map (normalized lib)

/-- Whether a row cannot be inserted beside another one: it has its id, or its adapter and key. -/
def conflicts (row other : Entry A G S) : Bool :=
  row.id = other.id ∨ row.adapterName ≠ "" ∧ row.idempotencyKey ≠ "" ∧
    row.adapterName = other.adapterName ∧ row.idempotencyKey = other.idempotencyKey

def errNoRows : Err := ⟨"sql: no rows in result set", none⟩

def enqueue (entry : Entry A G S) (now : Time) (faults : StatementFaults) :
    Except Err (Option (Entry A G S) × Bool) × SQLiteDeliveryStore A G S :=
  let entry := entry.normalized lib
  if entry.adapterName = "" then (.error ⟨"adapter name is required", none⟩, s)
  else
    match faults.query, s.getByOutboxKey lib entry.adapterName entry.idempotencyKey with
    | some err, _ => (.error err, s)
    | none, some item => (.ok (some item, false), s)
    | none, none =>
      let entry := { entry with
        id := deliveryID (s.nextID + 1)
        createdAt := now
        updatedAt := now
        nextAttemptAt :=
          if entry.nextAttemptAt = 0 ∧ entry.status = .pending then now else entry.nextAttemptAt }
      let s := { s with nextID := s.nextID + 1 }
      match faults.write with
      | some err => (.error err, s)
      | none =>
        if s.rows.any (conflicts entry) then
          match s.getByOutboxKey lib entry.adapterName entry.idempotencyKey with
          | some item => (.ok (some item, false), s)
          | none => (.error errNoRows, s)
        else (.ok (some (entry.normalized lib), true), { s with rows := s.rows ++ [entry] })

def get (id : String) : Except Err (Entry A G S) :=
  match s.rows.find? fun row => row.id = trimSpace id with
  | none => .error errNoRows
  | some row => .ok (row.normalized lib)

/-- `Update`. No row is an error to it. -/
def update (entry : Entry A G S) (faults : StatementFaults) :
    Except Err Unit × SQLiteDeliveryStore A G S :=
  let next := entry.normalized lib
  match faults.write with
  | some err => (.error err, s)
  | none =>
    (.ok (), { s with rows := s.rows.map fun row => if row.id = next.id then next else row })

/-- `NewSQLiteDeliveryStore` over the table as it is. -/
def reopen : SQLiteDeliveryStore A G S :=
  { s with nextID := (Store.recoverMaxID "gdel-" (s.rows.map DeliveryEntry.id)).getD 0 }

/-- `List` without a filter. -/
def list : List (Entry A G S) :=
  (s.rows.insertionSort fun a b => a.createdAt ≤ b.createdAt).map (normalized lib)

end SQLiteDeliveryStore

def sqliteStore : DeliveryStore A G S where
  State := SQLiteDeliveryStore A G S
  fresh := {}
  Fault := StatementFaults
  enqueue s entry now faults := s.enqueue lib entry now faults
  get s id := s.get lib id
  update s entry faults := s.update lib entry faults
  list s := s.list lib
  reopen s := s.reopen

/-! ## Queueing an event -/

namespace ReliableDispatcher

variable (d : ReliableDispatcher) (store : DeliveryStore A G S)

/-- What publishing that a delivery is queued needs: the attributes of the event, and the map
    without entries. -/
structure Announcement (A G S : Type) where
  payload : Entry A G S → A
  empty : A

def queuedEvent (ann : Announcement A G S) (e : Entry A G S) : Eventbus.Event A :=
  { type := eventGovernanceDeliveryQueued, runID := e.record.runID, sessionID := e.record.sessionID
    attrs := some (ann.payload e) }

/-- The faults of the two calls of a store for a target. -/
structure TargetFaults (F : Type) where
  enqueue : F
  update : F

/-- `Handle` for one target. The event it publishes is of no concern to the dispatcher. -/
def handleTarget (ann : Announcement A G S) (record : Record A G S) (now : Time)
    (faults : TargetFaults store.Fault) (state : store.State × InMemoryBus A) (target : String) :
    store.State × InMemoryBus A :=
  match store.enqueue state.1 (d.queuedEntry lib record now target) now faults.enqueue with
  | (.ok (some entry, true), st) =>
    ((store.update st (armed entry now) faults.update).2,
      (state.2.publish ann.empty (queuedEvent ann entry) now).2)
  | (_, st) => (st, state.2)

/-- `Handle`. -/
def handle (ann : Announcement A G S) (effective : Option S) (event : Eventbus.Event A) (now : Time)
    (faults : String → TargetFaults store.Fault) (state : store.State × InMemoryBus A) :
    store.State × InMemoryBus A :=
  match handledRecord lib effective event with
  | none => state
  | some record => d.targets.foldl (fun state target =>
      d.handleTarget lib store ann record now (faults target) state target) state

end ReliableDispatcher

end Hopclaw.Governance
