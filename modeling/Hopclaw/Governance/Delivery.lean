import Hopclaw.Governance.Record
import Mathlib.Data.List.AList
import Mathlib.Data.List.Sort

/-! # The delivery of governance records

Entries of the outbox, the store that keeps them in memory, and what the dispatcher does with them
(`internal/controlplane/governanceadapter/delivery.go`). Every participant works on a copy of an
entry and writes the whole copy back; `Update` does not look at what it overwrites. -/

namespace Hopclaw.Governance

open GoStrings

/-! ## Entries -/

/-- The status of a delivery. The empty status stands for a pending one. -/
inductive DeliveryStatus
  | pending | delivered | deadLetter
deriving DecidableEq

/-- An entry of the outbox for a record in `R`. -/
structure DeliveryEntry (R : Type) where
  id : String := ""
  adapterName : String
  idempotencyKey : String := ""
  status : DeliveryStatus := .pending
  record : R
  attempts : ℕ := 0
  maxAttempts : ℤ := 0
  lastError : String := ""
  nextAttemptAt : Time := 0
  lastAttemptAt : Time := 0
  createdAt : Time := 0
  updatedAt : Time := 0
  deliveredAt : Time := 0
deriving DecidableEq

def defaultDeliveryMaxAttempts : ℤ := 8

variable {A G S : Type} (lib : RecordLib A G S)

/-- An entry of the outbox. -/
abbrev Entry (A G S : Type) := DeliveryEntry (Record A G S)

def DeliveryEntry.normalized (e : Entry A G S) : Entry A G S :=
  { e with
    id := trimSpace e.id
    adapterName := trimSpace e.adapterName
    record := e.record.normalized lib
    idempotencyKey := firstNonEmpty [trimSpace e.idempotencyKey,
      defaultDeliveryIdempotencyKey lib (trimSpace e.adapterName) (e.record.normalized lib)]
    lastError := trimSpace e.lastError
    maxAttempts := if e.maxAttempts ≤ 0 then defaultDeliveryMaxAttempts else e.maxAttempts }

/-- The key of an entry in the index of the outbox. -/
def deliveryOutboxKey (adapterName idempotencyKey : String) : String :=
  if toLower (trimSpace adapterName) = "" ∨ trimSpace idempotencyKey = "" then ""
  else toLower (trimSpace adapterName) ++ "\x00" ++ trimSpace idempotencyKey

def DeliveryEntry.outboxKey (e : Entry A G S) : String :=
  deliveryOutboxKey e.adapterName e.idempotencyKey

/-- The id a store formats from its counter. -/
def deliveryID (n : ℕ) : String :=
  "gdel-" ++ String.ofList (zeroPadded 6 n)

/-! ## The store in memory -/

structure InMemoryDeliveryStore (A G S : Type) where
  nextID : ℕ := 0
  byID : AList fun _ : String => Entry A G S := ∅
  byOutbox : AList fun _ : String => String := ∅

namespace InMemoryDeliveryStore

variable (s : InMemoryDeliveryStore A G S)

/-- The entry the index names for a key. -/
def existing? (key : String) : Option (Entry A G S) :=
  if key = "" then none else (s.byOutbox.lookup key).bind s.byID.lookup

/-- The index after an assignment for the key of an entry. -/
def indexed (byOutbox : AList fun _ : String => String) (e : Entry A G S) :
    AList fun _ : String => String :=
  if e.outboxKey = "" then byOutbox else byOutbox.insert e.outboxKey e.id

/-- Store a new entry under its id. -/
def put (e : Entry A G S) : InMemoryDeliveryStore A G S :=
  { s with byID := s.byID.insert e.id e, byOutbox := indexed s.byOutbox e }

/-- The entry `Enqueue` stores for one that has an id. -/
def stamped (e : Entry A G S) (now : Time) : Entry A G S :=
  DeliveryEntry.normalized lib
    { e with
      createdAt := if e.createdAt = 0 then now else e.createdAt
      updatedAt := if e.updatedAt = 0 then now else e.updatedAt
      nextAttemptAt := if e.nextAttemptAt = 0 ∧ e.status = .pending then now else e.nextAttemptAt }

/-- `Enqueue`: the stored entry, and whether it is new. -/
def enqueue (entry : Entry A G S) (now : Time) :
    Except Err (Entry A G S × Bool) × InMemoryDeliveryStore A G S :=
  let entry := entry.normalized lib
  if entry.adapterName = "" then (.error ⟨"adapter name is required", none⟩, s)
  else if entry.id = "" then
    match s.existing? entry.outboxKey with
    | some existing => (.ok (existing.normalized lib, false), s)
    | none =>
      let copied := stamped lib { entry with id := deliveryID (s.nextID + 1) } now
      (.ok (copied, true), put { s with nextID := s.nextID + 1 } copied)
  else
    let copied := stamped lib entry now
    (.ok (copied, true), s.put copied)

def get (id : String) : Except Err (Entry A G S) :=
  match s.byID.lookup (trimSpace id) with
  | none => .error ⟨"governance delivery " ++ id ++ " not found", none⟩
  | some item => .ok (item.normalized lib)

/-- Whether an entry is to be processed. -/
def due (before : Time) (e : Entry A G S) : Bool :=
  e.status = .pending ∧ (e.nextAttemptAt = 0 ∨ e.nextAttemptAt ≤ before)

/-- `ListDue`. The map is read in the order of its entries, which the code leaves open, and the
    sort compares the time of the next attempt and then the time of creation. -/
def listDue (before : Time) (limit : ℕ) : List (Entry A G S) :=
  let items := ((s.byID.entries.map Sigma.snd).filter (due before)).map
    (DeliveryEntry.normalized lib)
  let sorted := items.insertionSort fun a b => a.nextAttemptAt < b.nextAttemptAt ∨
    a.nextAttemptAt = b.nextAttemptAt ∧ a.createdAt ≤ b.createdAt
  if 0 < limit ∧ limit < sorted.length then sorted.take limit else sorted

/-- `Update`. -/
def update (entry : Entry A G S) : Except Err Unit × InMemoryDeliveryStore A G S :=
  match s.byID.lookup (trimSpace entry.id) with
  | none => (.error ⟨"governance delivery " ++ entry.id ++ " not found", none⟩, s)
  | some current =>
    let next := entry.normalized lib
    let byOutbox :=
      if current.outboxKey ≠ "" ∧ current.outboxKey ≠ next.outboxKey then
        s.byOutbox.erase current.outboxKey
      else s.byOutbox
    (.ok (), { s with byID := s.byID.insert next.id next, byOutbox := indexed byOutbox next })

/-- `List` without a filter. -/
def list : List (Entry A G S) :=
  ((s.byID.entries.map Sigma.snd).map (DeliveryEntry.normalized lib)).insertionSort
    fun a b => a.createdAt ≤ b.createdAt

end InMemoryDeliveryStore

/-! ## The dispatcher -/

structure DeliveryConfig where
  maxAttempts : ℤ := 0
  /-- In nanoseconds. -/
  baseBackoff : ℤ := 0
  maxBackoff : ℤ := 0
  batchSize : ℤ := 0
deriving DecidableEq

def defaultDeliveryBaseBackoff : ℤ := 5000000000
def defaultDeliveryMaxBackoff : ℤ := 300000000000

def DeliveryConfig.normalized (c : DeliveryConfig) : DeliveryConfig :=
  let baseBackoff := if c.baseBackoff ≤ 0 then defaultDeliveryBaseBackoff else c.baseBackoff
  let maxBackoff := if c.maxBackoff ≤ 0 then defaultDeliveryMaxBackoff else c.maxBackoff
  { maxAttempts := if c.maxAttempts ≤ 0 then defaultDeliveryMaxAttempts else c.maxAttempts
    baseBackoff
    maxBackoff := if maxBackoff < baseBackoff then baseBackoff else maxBackoff
    batchSize := if c.batchSize ≤ 0 then 32 else c.batchSize }

/-- An adapter: the name it gives itself, if it has one, and the name of its type. -/
structure Adapter where
  name : Option String
  typeName : String
deriving DecidableEq

def adapterDeliveryName (adapter : Adapter) (index : ℕ) : String :=
  let unnamed := "adapter-" ++ String.ofList (zeroPadded 2 index) ++ ":" ++ adapter.typeName
  match adapter.name with
  | none => unnamed
  | some name => if trimSpace name ≠ "" then trimSpace name else unnamed

structure ReliableDispatcher where
  config : DeliveryConfig
  /-- The names of the targets, in the order of their adapters. -/
  targets : List String
deriving DecidableEq

/-- A nil adapter is `none`; it takes part in the numbering. -/
def newReliableDispatcher (cfg : DeliveryConfig) (adapters : List (Option Adapter)) :
    ReliableDispatcher :=
  { config := cfg.normalized
    targets := adapters.zipIdx.filterMap fun (adapter, i) =>
      adapter.map fun a => adapterDeliveryName a i }

/-- Doubling an `int64`. -/
def doubled (delay : ℤ) : ℤ :=
  Int.bmod (2 * delay) (2 ^ 64)

/-- The loop of `computeBackoff` over the remaining rounds. -/
def backoffLoop (max : ℤ) : ℕ → ℤ → ℤ
  | 0, delay => delay
  | rounds + 1, delay => if delay < max then backoffLoop max rounds (doubled delay) else delay

def computeBackoff (base max : ℤ) (attempts : ℕ) : ℤ :=
  let base := if base ≤ 0 then defaultDeliveryBaseBackoff else base
  let max := if max ≤ 0 then defaultDeliveryMaxBackoff else max
  let delay := backoffLoop max (attempts - 1) base
  if delay > max then max else delay

/-- `t.Add(d)`. -/
def addDuration (t : Time) (d : ℤ) : Time :=
  ((t : ℤ) + d).toNat

namespace ReliableDispatcher

variable (d : ReliableDispatcher)

/-- The entry `Handle` queues for a target. -/
def queuedEntry (record : Record A G S) (now : Time) (target : String) : Entry A G S :=
  { adapterName := target
    idempotencyKey := defaultDeliveryIdempotencyKey lib target record
    status := .pending
    record
    maxAttempts := d.config.maxAttempts
    nextAttemptAt := now + 1000000 }

section

variable (entry : Entry A G S)

/-- The entry `Handle` writes once it has published that the delivery is queued. -/
def armed (now : Time) : Entry A G S :=
  { entry with nextAttemptAt := now, updatedAt := now }

/-- The entry `failEntry` writes. -/
def failEntry (cause : String) (now : Time) : Entry A G S :=
  let normal := entry.normalized lib
  let lastAttemptAt := if normal.lastAttemptAt ≠ 0 then normal.lastAttemptAt else now
  let failed := { normal with
    lastAttemptAt, updatedAt := lastAttemptAt, lastError := trimSpace cause }
  if failed.maxAttempts ≤ (failed.attempts : ℤ) then
    { failed with status := .deadLetter, nextAttemptAt := 0 }
  else
    { failed with
      status := .pending
      nextAttemptAt := addDuration lastAttemptAt
        (computeBackoff d.config.baseBackoff d.config.maxBackoff failed.attempts) }

/-- The entry with which `processOne` calls the adapter. -/
def attempted (now : Time) : Entry A G S :=
  { entry.normalized lib with
    attempts := entry.attempts + 1, lastAttemptAt := now, updatedAt := now }

/-- Whether `processOne` finds the adapter of an entry. -/
def configured : Bool :=
  trimSpace entry.adapterName ∈ d.targets

/-- The entry `processOne` writes, where `outcome` is the error or the panic of the adapter, if it
    fails. -/
def processOne (outcome : Option String) (now : Time) : Entry A G S :=
  if d.configured entry then
    match outcome with
    | none =>
      { attempted lib entry now with
        status := .delivered, lastError := "", nextAttemptAt := 0, deliveredAt := now }
    | some cause => d.failEntry lib (attempted lib entry now) cause now
  else d.failEntry lib entry ("adapter " ++ quoted entry.adapterName ++ " not configured") now

/-- The entry `Redrive` writes, if the one it read is not delivered. -/
def redriven (resetAttempts clearError : Bool) (now : Time) : Option (Entry A G S) :=
  let next := entry.normalized lib
  if next.status = .delivered then none
  else some { next with
    status := .pending
    attempts := if resetAttempts then 0 else next.attempts
    lastError := if clearError || resetAttempts then "" else next.lastError
    nextAttemptAt := now
    updatedAt := now
    deliveredAt := 0 }

end

end ReliableDispatcher

/-! ## Normal entries -/

theorem firstNonEmpty_pair (a b : String) :
    firstNonEmpty [a, b] = if trimSpace a = "" then trimSpace b else trimSpace a := by
  by_cases ha : trimSpace a = ""
  · by_cases hb : trimSpace b = "" <;> simp [firstNonEmpty, ha, hb]
  · simp [firstNonEmpty, ha]

theorem DeliveryEntry.normalized_idempotencyKey (e : Entry A G S) :
    (e.normalized lib).idempotencyKey =
      if trimSpace e.idempotencyKey = "" then
        defaultDeliveryIdempotencyKey lib e.adapterName e.record
      else trimSpace e.idempotencyKey := by
  simp only [DeliveryEntry.normalized, firstNonEmpty_pair, trimSpace_trimSpace,
    defaultDeliveryIdempotencyKey_trimSpace, defaultDeliveryIdempotencyKey_normalized,
    trimSpace_defaultDeliveryIdempotencyKey]

@[simp] theorem DeliveryEntry.normalized_normalized (e : Entry A G S) :
    (e.normalized lib).normalized lib = e.normalized lib := by
  have hkey := trimSpace_defaultDeliveryIdempotencyKey lib e.adapterName e.record
  simp only [DeliveryEntry.normalized, trimSpace_trimSpace, Record.normalized_normalized,
    defaultDeliveryIdempotencyKey_trimSpace, defaultDeliveryIdempotencyKey_normalized,
    firstNonEmpty_pair, DeliveryEntry.mk.injEq, true_and, and_true]
  refine ⟨?_, ?_⟩
  · by_cases h : trimSpace e.idempotencyKey = "" <;> simp [h, trimSpace_trimSpace]
  · split_ifs with h h'
    · rfl
    · rfl
    · rfl

end Hopclaw.Governance
