import Hopclaw.Eventbus.Bus
import Hopclaw.Store.Transcript

/-! # Events in SQLite

`SQLiteEventSink` (`store/sqlite_event.go`) behind the filter of durable events, as
`prepareRuntimeUsageInfra` subscribes it to the bus. The sink inserts an event unless its id is
taken, and replays the rows in the order of their ids. The JSON package and the formatting of times
are parameters. -/

namespace Hopclaw.Store

open GoStrings Eventbus

structure EventCoding (A : Type) extends TimeCoding where
  attrs : JSONCodec (Option A)
  /-- The map without entries. -/
  empty : A

/-- A row of `events`. -/
structure EventRow where
  id : String
  type : String
  runID : String
  sessionID : String
  timestamp : String
  attrs : String
deriving DecidableEq

/-- The table `events`. The id is its primary key. -/
structure EventTable where
  rows : List EventRow := []
  unique : (rows.map EventRow.id).Nodup := by simp

/-- `INSERT OR IGNORE`: a row whose id is taken is left out without an error. -/
def EventTable.insertOrIgnore (t : EventTable) (row : EventRow) : EventTable :=
  if h : row.id ∈ t.rows.map EventRow.id then t
  else
    { rows := t.rows ++ [row]
      unique := by
        rw [List.map_append, List.map_singleton]
        exact t.unique.append (List.nodup_singleton _) (List.disjoint_singleton.mpr h) }

/-! ## Counters -/

/-- `CAST(s AS INTEGER)` of a text: the number it starts with, zero if there is none. -/
def castInteger (s : List Char) : ℤ :=
  let number (cs : List Char) : ℤ := Nat.ofDigitChars 10 (cs.takeWhile Char.isDigit) 0
  match s.dropWhile isSpace with
  | '-' :: cs => -number cs
  | '+' :: cs => number cs
  | cs => number cs

/-- The highest number among the ids with the given beginning, which `LIKE` compares without
    regard to case. A negative one cannot be read into the counter. -/
def recoverMaxID (pre : String) (ids : List String) : Option ℕ :=
  let matching := ids.filter fun id => hasPrefix (toLower id) (toLower pre)
  let highest := (matching.map fun id => castInteger (id.toList.drop pre.length)).max?.getD 0
  if highest < 0 then none else some highest.toNat

/-- `seed` is the number made from the clock where the highest id cannot be read. -/
def recoverMaxIDCounter (pre : String) (ids : List String) (seed : ℕ) : ℕ :=
  (recoverMaxID pre ids).getD seed

/-! ## The sink -/

structure SQLiteEventSink where
  nextID : ℕ := 0
deriving DecidableEq

namespace SQLiteEventSink

def newSQLiteEventSink (t : EventTable) (seed : ℕ) : SQLiteEventSink :=
  { nextID := recoverMaxIDCounter "evt-" (t.rows.map EventRow.id) seed }

/-! ## Inserting and reading -/

variable {A : Type} (lib : EventCoding A)

/-- The row of an event with an id and a time. -/
def eventRow (event : Eventbus.Event A) : Except Err EventRow := do
  let attrs ← wrap "marshal event attrs" (marshalJSONValue lib.attrs event.attrs)
  return { id := event.id, type := event.type.text, runID := event.runID
           sessionID := event.sessionID, timestamp := lib.formatTime event.time, attrs }

/-- `Handle`, where `fault` is the error of the insertion, if it fails. -/
def handle (sink : SQLiteEventSink) (t : EventTable) (event : Eventbus.Event A) (now : Time)
    (fault : Option Err) : Except Err Unit × SQLiteEventSink × EventTable :=
  let nextID := if event.id = "" then sink.nextID + 1 else sink.nextID
  let event := { event with
    id := if event.id = "" then eventID nextID else event.id
    time := if event.time = 0 then now else event.time }
  match eventRow lib event, fault with
  | .error e, _ => (.error e, { nextID }, t)
  | .ok _, some e => (.error e, { nextID }, t)
  | .ok row, none => (.ok (), { nextID }, t.insertOrIgnore row)

/-- `FilteredSink.Handle` around the sink. -/
def handleFiltered (sink : SQLiteEventSink) (t : EventTable) (event : Eventbus.Event A) (now : Time)
    (fault : Option Err) : Except Err Unit × SQLiteEventSink × EventTable :=
  if persistDefaultRuntimeEvent event then sink.handle lib t event now fault
  else (.ok (), sink, t)

/-- The event `queryEventsContext` reads from a row. -/
def scanEvent (row : EventRow) : Except Err (Eventbus.Event A) := do
  let attrs ← decodeJSONField lib.attrs row.attrs "sqlite events" row.id "attrs"
  let time ← lib.parseTime row.timestamp "sqlite events" row.id "timestamp"
  return { id := row.id, type := ⟨row.type⟩, runID := row.runID, sessionID := row.sessionID
           time, attrs }

/-- `ReplayContext`. -/
def replay (t : EventTable) : Except Err (List (Eventbus.Event A)) :=
  (t.rows.insertionSort fun a b => a.id ≤ b.id).mapM (scanEvent lib)

end SQLiteEventSink

end Hopclaw.Store
