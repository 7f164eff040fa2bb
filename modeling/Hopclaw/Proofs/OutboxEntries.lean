import Hopclaw.Interleaving.Trace
import Hopclaw.Proofs.OutboxBackends

/-! # An entry for every event and every adapter

Processes publish events on their buses, and the dispatcher of each queues the governance events for
its adapters, in an outbox that they share. The outbox keeps one entry for a key. So it holds an
entry for every event and adapter exactly if no two of them have the same key. The key is made from
the name of the adapter and the id of the event, and the bus of every process numbers its events
from one. -/

namespace Hopclaw.Governance

open Option GoStrings Eventbus Interleaving ReliableDispatcher List

variable {A G S : Type}

/-! ## Histories -/

/-- The stores of the repository. -/
inductive Backend
  | inMemory | jsonl | sqlite
deriving DecidableEq

def Backend.store (lib : RecordLib A G S) : Backend → DeliveryStore A G S
  | .inMemory => inMemoryStore lib
  | .jsonl => jsonlStore lib
  | .sqlite => sqliteStore lib

/-- What a store takes for the same entry. -/
def Backend.key : Backend → OutboxItem A G S → String × String
  | .inMemory => indexKey
  | .jsonl => indexKey
  | .sqlite => rowKey

/-- The fields of an entry that its delivery changes. -/
structure Progress where
  status : DeliveryStatus
  attempts : ℕ
  lastError : String
  nextAttemptAt : Time
  lastAttemptAt : Time
  updatedAt : Time
  deliveredAt : Time

def Progress.of (p : Progress) (e : Entry A G S) : Entry A G S :=
  { e with
    status := p.status, attempts := p.attempts, lastError := p.lastError
    nextAttemptAt := p.nextAttemptAt, lastAttemptAt := p.lastAttemptAt
    updatedAt := p.updatedAt, deliveredAt := p.deliveredAt }

/-- What happens to the processes and their outbox. -/
inductive OutboxOp (A S F : Type)
  /-- `Publish`, with the sink's part of it; `effective` is the configuration snapshot in force. -/
  | publish (event : Eventbus.Event A) (effective : Option S) (now : Time)
    (faults : String → TargetFaults F)
  /-- The delivery loop or a redrive writes an entry. -/
  | write (id : String) (progress : Progress) (fault : F)
  /-- The process ends and another one starts. -/
  | restart (cfg : DeliveryConfig) (adapters : List (Option Adapter))

structure OutboxHistory (store : DeliveryStore A G S) where
  state : store.State := store.fresh
  bus : InMemoryBus A := newInMemoryBus
  dispatcher : ReliableDispatcher := ⟨{}, []⟩
  /-- What there should be entries for: the governance events so far, for each adapter of the
      process that published them. -/
  items : List (OutboxItem A G S) := []

variable (lib : RecordLib A G S)

/-- What the entry of a record for a target is for. -/
def queuedItem (record : Record A G S) (target : String) : OutboxItem A G S :=
  ⟨trimSpace target, defaultDeliveryIdempotencyKey lib target record, record⟩

/-- What the entries of an event are for. -/
def queuedItems (d : ReliableDispatcher) (effective : Option S) (event : Eventbus.Event A) :
    List (OutboxItem A G S) :=
  match handledRecord lib effective event with
  | none => []
  | some record => d.targets.map (queuedItem lib record)

variable (store : DeliveryStore A G S) (ann : Announcement A G S)

def outboxStep (h : OutboxHistory store) : OutboxOp A S store.Fault → OutboxHistory store
  | .publish event effective now faults =>
    let (stored, bus) := h.bus.publish ann.empty event now
    let (state, bus) := h.dispatcher.handle lib store ann effective stored now faults (h.state, bus)
    { h with state, bus, items := h.items ++ queuedItems lib h.dispatcher effective stored }
  | .write id progress fault =>
    match store.get h.state id with
    | .error _ => h
    | .ok e => { h with state := (store.update h.state (progress.of e) fault).2 }
  | .restart cfg adapters =>
    { h with
      state := store.reopen h.state, bus := newInMemoryBus
      dispatcher := newReliableDispatcher cfg adapters }

/-- `Enqueue` returns without an error for every target. -/
def Enqueues (h : OutboxHistory store) : OutboxOp A S store.Fault → Prop
  | .publish event effective now faults =>
    let (stored, bus) := h.bus.publish ann.empty event now
    ∀ record ∈ handledRecord lib effective stored,
      Meets (fun state target =>
          h.dispatcher.handleTarget lib store ann record now (faults target) state target)
        (fun state target => (store.enqueue state.1 (h.dispatcher.queuedEntry lib record now target)
          now (faults target).enqueue).1.isOk = true) (h.state, bus) h.dispatcher.targets
  | _ => True

/-! ## One target -/

variable {lib store ann}

variable {record : Record A G S}

theorem normalized_queuedEntry (d : ReliableDispatcher) (hrecord : record.normalized lib = record)
    (now : Time) (target : String) :
    ((d.queuedEntry lib record now target).normalized lib).item = queuedItem lib record target := by
  have hkey := DeliveryEntry.normalized_idempotencyKey lib (d.queuedEntry lib record now target)
  rw [show (d.queuedEntry lib record now target).idempotencyKey =
      defaultDeliveryIdempotencyKey lib target record from rfl,
    trimSpace_defaultDeliveryIdempotencyKey] at hkey
  have hkey' : ((d.queuedEntry lib record now target).normalized lib).idempotencyKey =
      defaultDeliveryIdempotencyKey lib target record := by
    rw [hkey]
    split_ifs
    · rfl
    · rfl
  rw [DeliveryEntry.item, hkey']
  simp only [DeliveryEntry.normalized, queuedEntry, queuedItem, hrecord]

/-- What the outbox holds was queued, and what was queued has its key in the outbox. -/
structure Recorded (outbox : LawfulOutbox lib store) (st : store.State)
    (queued : List (OutboxItem A G S)) : Prop where
  inv : outbox.Inv st
  subset : ∀ {id item}, items (outbox.book st) id = some item → item ∈ queued
  found : ∀ item ∈ queued, ∃ id x, items (outbox.book st) id = some x ∧
    outbox.key x = outbox.key item

variable {d : ReliableDispatcher}

section Recorded

variable {queued : List (OutboxItem A G S)} {outbox : LawfulOutbox lib store}

theorem Recorded.congr {st st' : store.State} (h : Recorded outbox st queued)
    (hinv : outbox.Inv st') (hitems : items (outbox.book st') = items (outbox.book st)) :
    Recorded outbox st' queued :=
  ⟨hinv, hitems ▸ h.subset, hitems ▸ h.found⟩

theorem Recorded.handleTarget (hrecord : record.normalized lib = record) {now : Time}
    {faults : TargetFaults store.Fault} {state : store.State × InMemoryBus A} {target : String}
    (h : Recorded outbox state.1 queued)
    (hok : (store.enqueue state.1 (d.queuedEntry lib record now target) now
      faults.enqueue).1.isOk = true) :
    Recorded outbox (d.handleTarget lib store ann record now faults state target).1
      (queued ++ [queuedItem lib record target]) := by
  rw [ReliableDispatcher.handleTarget]
  cases hcall : store.enqueue state.1 (d.queuedEntry lib record now target) now faults.enqueue with
  | mk result st =>
    rw [hcall] at hok
    cases result with
    | error err => cases hok
    | ok answer =>
      obtain ⟨hinv, hqueued⟩ := outbox.enqueue h.inv rfl hcall
      rw [normalized_queuedEntry d hrecord] at hqueued
      -- what was found before is still found
      have hfound : ∀ item ∈ queued, ∃ id x, items (outbox.book st) id = some x ∧
          outbox.key x = outbox.key item := fun item hi => by
        obtain ⟨id, x, hx, hkey⟩ := h.found item hi
        obtain ⟨e, he, rfl⟩ := map_eq_some_iff.mp hx
        exact ⟨id, _, by rw [items, hqueued.keeps he, map_some], hkey⟩
      rcases hqueued with ⟨⟨id, x, hx, hkey⟩, hbook, hold⟩ | ⟨e, hitem, rfl, -, hbook⟩
      · -- an entry with this key is there already
        have hrecorded : Recorded outbox st (queued ++ [queuedItem lib record target]) := by
          refine ⟨hinv, fun {id item} hi => ?_, forall_mem_append.mpr ⟨hfound, ?_⟩⟩
          · rw [hbook] at hi
            exact mem_append_left _ (h.subset hi)
          · rw [forall_mem_singleton]
            exact ⟨id, x.item, by rw [items, hbook, hx, map_some], hkey⟩
        obtain ⟨found, created⟩ := answer
        obtain rfl : created = false := hold
        cases found <;> exact hrecorded
      · have hself : outbox.book st e.id = some e :=
          (congrFun hbook e.id).trans (Function.update_self ..)
        have hadded : Recorded outbox st (queued ++ [queuedItem lib record target]) := by
          refine ⟨hinv, fun {id item} hi => ?_, forall_mem_append.mpr ⟨hfound, ?_⟩⟩
          · rw [items, hbook, Function.update_apply] at hi
            split_ifs at hi
            · obtain rfl := some.inj hi
              exact mem_append_right _ (hitem ▸ mem_singleton_self _)
            · exact mem_append_left _ (h.subset hi)
          · rw [forall_mem_singleton]
            exact ⟨e.id, e.item, by rw [items, hself, map_some], by rw [hitem]⟩
        obtain ⟨hinv', hitems⟩ := outbox.update (armed e now) faults.update hinv hself rfl rfl
        exact hadded.congr hinv' hitems

/-! ## Whole histories -/

theorem Recorded.handle {effective : Option S} {event : Eventbus.Event A} {now : Time}
    {faults : String → TargetFaults store.Fault} (state : store.State × InMemoryBus A)
    (h : Recorded outbox state.1 queued)
    (hok : ∀ record ∈ handledRecord lib effective event,
      Meets (fun state target =>
          d.handleTarget lib store ann record now (faults target) state target)
        (fun state target => (store.enqueue state.1 (d.queuedEntry lib record now target) now
          (faults target).enqueue).1.isOk = true) state d.targets) :
    Recorded outbox (d.handle lib store ann effective event now faults state).1
      (queued ++ queuedItems lib d effective event) := by
  rw [ReliableDispatcher.handle, queuedItems]
  cases hrecord : handledRecord lib effective event with
  | none => simpa using h
  | some record =>
    have hnormal := normalized_of_handledRecord lib hrecord
    have hmeets := hok record hrecord
    clear hok
    dsimp only
    -- the targets one by one
    generalize d.targets = targets at hmeets ⊢
    induction targets generalizing state queued with
    | nil => simpa using h
    | cons target targets ih =>
      rw [map_cons, append_cons]
      exact ih _ (h.handleTarget hnormal hmeets.1) hmeets.2

theorem Recorded.step {h : OutboxHistory store}
    (hrec : Recorded outbox h.state h.items) {op : OutboxOp A S store.Fault}
    (hop : Enqueues lib store ann h op) :
    Recorded outbox (outboxStep lib store ann h op).state
      (outboxStep lib store ann h op).items := by
  cases op with
  | publish event effective now faults => exact hrec.handle (h.state, _) hop
  | write id progress fault =>
    simp only [outboxStep]
    cases hget : store.get h.state id with
    | error err => exact hrec
    | ok e =>
      obtain ⟨hinv, hitems⟩ := outbox.update (progress.of e) fault hrec.inv
        (outbox.get hrec.inv hget) rfl rfl
      exact hrec.congr hinv hitems
  | restart cfg adapters =>
    obtain ⟨hinv, hitems⟩ := outbox.reopen hrec.inv
    exact hrec.congr hinv hitems

/-- The key of an item is the one its record has for its adapter. -/
theorem idempotencyKey_of_mem {ops : List (OutboxOp A S store.Fault)} {item : OutboxItem A G S}
    (hitem : item ∈ (runAll (outboxStep lib store ann) {} ops).items) :
    item.idempotencyKey = defaultDeliveryIdempotencyKey lib item.adapterName item.record := by
  refine runAll_inv (outboxStep lib store ann) (I := fun h => ∀ item ∈ h.items,
    item.idempotencyKey = defaultDeliveryIdempotencyKey lib item.adapterName item.record)
    (fun h op hkeys => ?_) (by simp) ops item hitem
  cases op with
  | publish event effective now faults =>
    intro item hi
    rcases mem_append.mp hi with hi | hi
    · exact hkeys item hi
    · rw [queuedItems] at hi
      split at hi
      · cases hi
      · obtain ⟨target, -, rfl⟩ := mem_map.mp hi
        simp only [queuedItem, defaultDeliveryIdempotencyKey_trimSpace]
  | write id progress fault =>
    simp only [outboxStep]
    cases store.get h.state id <;> exact hkeys
  | restart cfg adapters => exact hkeys

/-- Where the outbox has a key for everything queued, it has an entry for everything queued exactly
    if different things have different keys. -/
theorem Recorded.entries_iff {st : store.State} (h : Recorded outbox st queued) :
    (∀ item ∈ queued, ∃ e ∈ store.list st, e.item = item) ↔
      ∀ i ∈ queued, ∀ j ∈ queued, outbox.key i = outbox.key j → i = j := by
  constructor
  · intro hall i hi j hj hkey
    obtain ⟨e, he, rfl⟩ := hall i hi
    obtain ⟨e', he', rfl⟩ := hall j hj
    rw [outbox.list h.inv] at he he'
    have hid := outbox.key_inj h.inv he he' hkey
    rw [some.inj (he.symm.trans (hid ▸ he'))]
  · intro hinj item hi
    obtain ⟨id, x, hx, hkey⟩ := h.found item hi
    obtain ⟨e, he, rfl⟩ := map_eq_some_iff.mp hx
    refine ⟨e, (outbox.list h.inv).mpr ?_, hinj _ (h.subset hx) item hi hkey⟩
    rwa [outbox.entry h.inv he]

end Recorded

def Backend.outbox (lib : RecordLib A G S) : (b : Backend) → LawfulOutbox lib (b.store lib)
  | .inMemory => inMemoryOutbox lib
  | .jsonl => jsonlOutbox lib
  | .sqlite => sqliteOutbox lib

theorem Backend.outbox_key (lib : RecordLib A G S) (b : Backend) : (b.outbox lib).key = b.key := by
  cases b <;> rfl

/-- In a history in which no `Enqueue` fails, there is an entry for every governance event and every
    adapter exactly if no two of them have the same key in the store. -/
theorem outbox_complete_iff (b : Backend) (lib : RecordLib A G S) (ann : Announcement A G S)
    (ops : List (OutboxOp A S (b.store lib).Fault))
    (hok : Meets (outboxStep lib (b.store lib) ann) (Enqueues lib (b.store lib) ann) {} ops) :
    (∀ item ∈ (runAll (outboxStep lib (b.store lib) ann) {} ops).items,
      ∃ e ∈ (b.store lib).list (runAll (outboxStep lib (b.store lib) ann) {} ops).state,
        e.adapterName = item.adapterName ∧ e.record = item.record) ↔
      ∀ i ∈ (runAll (outboxStep lib (b.store lib) ann) {} ops).items,
        ∀ j ∈ (runAll (outboxStep lib (b.store lib) ann) {} ops).items,
          b.key i = b.key j → i = j := by
  have hstart : Recorded (b.outbox lib) (b.store lib).fresh [] := by
    obtain ⟨hinv, hnone⟩ := (b.outbox lib).fresh
    exact ⟨hinv, by simp [items, hnone], by simp⟩
  have hend := hok.inv (I := fun h => Recorded (b.outbox lib) h.state h.items)
    (fun h op hrec hop => hrec.step hop) hstart
  rw [← Backend.outbox_key lib b, ← hend.entries_iff]
  refine forall₂_congr fun item hi => ⟨?_, ?_⟩
  · rintro ⟨e, he, hname, hrecord⟩
    -- adapter and record determine the key
    have hheld := ((b.outbox lib).list hend.inv).mp he
    have hkey := idempotencyKey_of_mem (hend.subset (by rw [items, hheld, map_some]))
    have hsame : e.item = item := by
      rw [OutboxItem.mk.injEq]
      refine ⟨hname, ?_, hrecord⟩
      rw [idempotencyKey_of_mem hi, ← hname, ← hrecord]
      exact hkey
    exact ⟨e, he, hsame⟩
  · rintro ⟨e, he, rfl⟩
    exact ⟨e, he, rfl, rfl⟩

instance (h : OutboxHistory store) (op : OutboxOp A S store.Fault) :
    Decidable (Enqueues lib store ann h op) :=
  match op with
  | .publish .. =>
    inferInstanceAs (Decidable (∀ _ ∈ _, Meets _ (fun _ _ => Except.isOk _ = true) _ _))
  | .write .. | .restart .. => .isTrue trivial

def bareAnnouncement : Announcement Unit Unit Unit :=
  ⟨fun _ => (), ()⟩

def namedAdapter (name : String) : Option Adapter :=
  some ⟨some name, "webhook"⟩

def noFault : (b : Backend) → (b.store bareRecords).Fault
  | .inMemory => ()
  | .jsonl => ({} : AppendFaults)
  | .sqlite => ({} : StatementFaults)

def approvalRequested (b : Backend) (runID : String) :
    OutboxOp Unit Unit (b.store bareRecords).Fault :=
  .publish { type := eventApprovalRequested, runID } none 1 fun _ => ⟨noFault b, noFault b⟩

/-- The outbox after a history of a store. -/
def outboxAfter (b : Backend) (ops : List (OutboxOp Unit Unit (b.store bareRecords).Fault)) :
    OutboxHistory (b.store bareRecords) :=
  runAll (outboxStep bareRecords (b.store bareRecords) bareAnnouncement) {} ops

/-- An approval in a process with two adapters, whose names differ in case only. -/
def twoAdapters (b : Backend) : List (OutboxOp Unit Unit (b.store bareRecords).Fault) :=
  [.restart {} [namedAdapter "A", namedAdapter "a"], approvalRequested b "r1"]

theorem outbox_complete_for_two_adapters :
    (outboxAfter .sqlite (twoAdapters .sqlite)).items.length = 2 ∧
      ∀ item ∈ (outboxAfter .sqlite (twoAdapters .sqlite)).items,
        ∃ e ∈ (Backend.sqlite.store bareRecords).list
            (outboxAfter .sqlite (twoAdapters .sqlite)).state,
          e.adapterName = item.adapterName ∧ e.record = item.record :=
  ⟨by decide +kernel, (outbox_complete_iff .sqlite bareRecords bareAnnouncement
    (twoAdapters .sqlite) (by decide +kernel)).mpr (by decide +kernel)⟩

/-- One approval in each of two processes. -/
def approvalsAcrossRestart (b : Backend) : List (OutboxOp Unit Unit (b.store bareRecords).Fault) :=
  [.restart {} [namedAdapter "a"], approvalRequested b "r1", .restart {} [namedAdapter "a"],
    approvalRequested b "r2"]

/-- No `Enqueue` fails, but after a restart the second event has the id of the first and gets no
    entry; and in memory the second of two adapters gets none if its name is that of the first in
    another case. -/
theorem colliding_keys_drop_delivery :
    (Meets (outboxStep bareRecords (Backend.sqlite.store bareRecords) bareAnnouncement)
        (Enqueues bareRecords (Backend.sqlite.store bareRecords) bareAnnouncement) {}
        (approvalsAcrossRestart .sqlite) ∧
      (outboxAfter .sqlite (approvalsAcrossRestart .sqlite)).items.map (·.record.runID) =
        ["r1", "r2"] ∧
      ((Backend.sqlite.store bareRecords).list
        (outboxAfter .sqlite (approvalsAcrossRestart .sqlite)).state).map (·.record.runID) =
          ["r1"]) ∧
    Meets (outboxStep bareRecords (Backend.inMemory.store bareRecords) bareAnnouncement)
        (Enqueues bareRecords (Backend.inMemory.store bareRecords) bareAnnouncement) {}
        (twoAdapters .inMemory) ∧
      (outboxAfter .inMemory (twoAdapters .inMemory)).items.map (·.adapterName) = ["A", "a"] ∧
      ((Backend.inMemory.store bareRecords).list
        (outboxAfter .inMemory (twoAdapters .inMemory)).state).map (·.adapterName) = ["A"] := by
  decide +kernel

end Hopclaw.Governance
