import Hopclaw.Interleaving.Trace
import Hopclaw.Store.EventSink

/-! # Replaying the events of several processes

The bus and the sink share one process, the table outlives it. Publishing an event numbers it under
the lock of the bus; the sink stores it afterwards, so calls of `Publish` may be under way at the
same time. The replay gives the durable events back exactly if each of them got an id that comes, as
a text, after the ids of all durable events before it, and can be read from its columns. -/

namespace Hopclaw.Store.SQLiteEventSink

open List GoStrings Eventbus Interleaving

variable {A : Type}

/-! ## Histories -/

/-- What happens to the bus, the sink and the table. -/
inductive EventOp (A : Type)
  /-- `Publish`, up to the release of the lock. -/
  | publish (event : Eventbus.Event A) (now : Time)
  /-- The sink's part of the `i`-th call that is under way. -/
  | handle (i : ℕ) (now : Time) (fault : Option Err)
  /-- The process ends and another one starts. -/
  | restart (seed : ℕ)

structure EventHistory (A : Type) where
  bus : InMemoryBus A := newInMemoryBus
  sink : SQLiteEventSink := {}
  table : EventTable := {}
  /-- The events whose `Publish` is under way. -/
  handling : List (Eventbus.Event A) := []
  /-- The events as the sinks got them, in the order of their publication. -/
  published : List (Eventbus.Event A) := []

variable (lib : EventCoding A)

def historyStep (s : EventHistory A) : EventOp A → EventHistory A
  | .publish event now =>
    let (stored, bus) := s.bus.publish lib.empty event now
    { s with bus, handling := s.handling ++ [stored], published := s.published ++ [stored] }
  | .handle i now fault =>
    match s.handling[i]? with
    | none => s
    | some event =>
      let (_, sink, table) := s.sink.handleFiltered lib s.table event now fault
      { s with sink, table, handling := s.handling.eraseIdx i }
  | .restart seed =>
    { s with bus := newInMemoryBus, sink := newSQLiteEventSink s.table seed, handling := [] }

/-- The events durable sinks keep. -/
def durable (events : List (Eventbus.Event A)) : List (Eventbus.Event A) :=
  events.filter persistDefaultRuntimeEvent

/-- No sink fails, no process ends within a call of `Publish`, and the clock reads a time. -/
def Completes (s : EventHistory A) : EventOp A → Prop
  | .publish _ now => now ≠ 0
  | .handle i now fault => ∀ event ∈ s.handling[i]?,
      (s.sink.handleFiltered lib s.table event now fault).1 = .ok ()
  | .restart _ => s.handling = []

/-- The event is read from its row as it was. -/
def Readable (event : Eventbus.Event A) : Prop :=
  (eventRow lib event >>= scanEvent lib) = .ok event

/-- A durable event gets an id that comes after those of all durable events before it, and can be
    read from its row. -/
def InOrder (s : EventHistory A) : EventOp A → Prop
  | .publish event now => persistDefaultRuntimeEvent event = true →
      (∀ earlier ∈ durable s.published, earlier.id < (s.bus.filled lib.empty event now).id) ∧
        Readable lib (s.bus.filled lib.empty event now)
  | _ => True

/-! ## Rows -/

variable {lib}

variable {event : Eventbus.Event A}

variable {row : EventRow}

theorem eventRow_ok (h : eventRow lib event = .ok row) : row.id = event.id := by
  rw [eventRow, bind_eq_ok] at h
  obtain ⟨attrs, -, h⟩ := h
  rw [← Except.ok.inj h]

theorem scanEvent_ok (h : scanEvent lib row = .ok event) : event.id = row.id := by
  rw [scanEvent, bind_eq_ok] at h
  obtain ⟨attrs, -, h⟩ := h
  obtain ⟨time, -, h⟩ := bind_eq_ok.mp h
  rw [← Except.ok.inj h]

theorem mem_insertOrIgnore {t : EventTable} {r : EventRow} :
    r ∈ (t.insertOrIgnore row).rows → r ∈ t.rows ∨ r = row := by
  rw [EventTable.insertOrIgnore]
  split_ifs with h
  · exact .inl
  · simp

theorem subset_insertOrIgnore (t : EventTable) (row : EventRow) :
    t.rows ⊆ (t.insertOrIgnore row).rows := by
  rw [EventTable.insertOrIgnore]
  split_ifs with h
  · exact List.Subset.refl _
  · exact subset_append_left _ _

theorem insertOrIgnore_has (t : EventTable) (row : EventRow) :
    ∃ r ∈ (t.insertOrIgnore row).rows, r.id = row.id := by
  rw [EventTable.insertOrIgnore]
  split_ifs with h
  · exact mem_map.mp h
  · exact ⟨row, by simp, rfl⟩

variable {now : Time} {fault : Option Err}

/-- A successful `Handle` of an event that has an id and a time stores its row, unless the id is
    taken. -/
theorem handle_ok {sink : SQLiteEventSink} {t : EventTable} (hid : event.id ≠ "")
    (htime : event.time ≠ 0) (h : (sink.handle lib t event now fault).1 = .ok ()) :
    ∃ row, eventRow lib event = .ok row ∧
      (sink.handle lib t event now fault).2.2 = t.insertOrIgnore row := by
  have hsame : { event with
      id := if event.id = "" then eventID (if event.id = "" then sink.nextID + 1 else sink.nextID)
        else event.id
      time := if event.time = 0 then now else event.time } = event := by
    simp [hid, htime]
  simp only [handle, hsame] at h ⊢
  cases hrow : eventRow lib event with
  | error e => simp [hrow] at h
  | ok row =>
    cases fault with
    | some e => simp [hrow] at h
    | none => exact ⟨row, rfl, rfl⟩

/-! ## What the table holds -/

/-- The table holds rows of durable events only, and a row with the id of every durable event whose
    `Publish` is done. -/
structure Persisted (lib : EventCoding A) (s : EventHistory A) : Prop where
  named : ∀ event ∈ s.published, event.id ≠ "" ∧ event.time ≠ 0
  handling : s.handling ⊆ s.published
  rows : ∀ row ∈ s.table.rows, ∃ event ∈ durable s.published, eventRow lib event = .ok row
  stored : ∀ event ∈ durable s.published, event ∈ s.handling ∨
    ∃ row ∈ s.table.rows, row.id = event.id

theorem durable_append (events more : List (Eventbus.Event A)) :
    durable (events ++ more) = durable events ++ durable more :=
  filter_append ..

variable {s : EventHistory A}

theorem Persisted.publish (h : Persisted lib s) (hnow : now ≠ 0) :
    Persisted lib (historyStep lib s (.publish event now)) := by
  simp only [historyStep, InMemoryBus.publish]
  set stored := s.bus.filled lib.empty event now with hstored
  refine ⟨fun e he => ?_, ?_, fun row hrow => ?_, fun e he => ?_⟩
  · rcases mem_append.mp he with he | he
    · exact h.named e he
    · rw [mem_singleton.mp he]
      refine ⟨s.bus.filled_id_ne_empty lib.empty event now, ?_⟩
      simp only [hstored, InMemoryBus.filled]
      split_ifs with ht
      · exact hnow
      · exact ht
  · exact append_subset.mpr ⟨fun e he => mem_append_left _ (h.handling he), subset_append_right _ _⟩
  · obtain ⟨e, he, hread⟩ := h.rows row hrow
    exact ⟨e, by rw [durable_append]; exact mem_append_left _ he, hread⟩
  · rw [durable_append] at he
    rcases mem_append.mp he with he | he
    · exact (h.stored e he).imp_left fun he => mem_append_left _ he
    · exact .inl (mem_append_right _ (mem_filter.mp he).1)

theorem Persisted.handle (h : Persisted lib s) {i : ℕ}
    (hok : Completes lib s (.handle i now fault)) :
    Persisted lib (historyStep lib s (.handle i now fault)) := by
  simp only [historyStep] at hok ⊢
  cases hi : s.handling[i]? with
  | none => exact h
  | some event =>
    have hmem : event ∈ s.published := h.handling (mem_of_getElem? hi)
    have hok := hok event hi
    -- every other event that is under way still is
    have hrest : ∀ e ∈ s.handling, e = event ∨ e ∈ s.handling.eraseIdx i := by
      intro e he
      obtain ⟨j, hj⟩ := mem_iff_getElem?.mp he
      by_cases hij : j = i
      · exact .inl (Option.some.inj ((hij ▸ hj).symm.trans hi))
      · exact .inr (mem_eraseIdx_iff_getElem?.mpr ⟨j, hij, hj⟩)
    have hsub : s.handling.eraseIdx i ⊆ s.published :=
      fun e he => h.handling ((eraseIdx_sublist ..).subset he)
    simp only [handleFiltered] at hok ⊢
    by_cases hkeep : persistDefaultRuntimeEvent event = true
    · rw [if_pos hkeep] at hok
      simp only [if_pos hkeep]
      obtain ⟨row, hrow, htable⟩ := handle_ok (h.named event hmem).1 (h.named event hmem).2 hok
      refine ⟨h.named, hsub, fun r hr => ?_, fun e he => ?_⟩
      · rw [htable] at hr
        rcases mem_insertOrIgnore hr with hr | rfl
        · exact h.rows r hr
        · exact ⟨event, mem_filter.mpr ⟨hmem, hkeep⟩, hrow⟩
      · simp only [htable]
        rcases h.stored e he with he | ⟨r, hr, hid⟩
        · rcases hrest e he with rfl | he
          · obtain ⟨r, hr, hid⟩ := insertOrIgnore_has s.table row
            exact .inr ⟨r, hr, hid.trans (eventRow_ok hrow)⟩
          · exact .inl he
        · exact .inr ⟨r, subset_insertOrIgnore _ _ hr, hid⟩
    · simp only [if_neg hkeep]
      refine ⟨h.named, hsub, h.rows, fun e he => ?_⟩
      refine (h.stored e he).imp_left fun hin => (hrest e hin).resolve_left ?_
      rintro rfl
      exact hkeep (mem_filter.mp he).2

theorem Persisted.step (h : Persisted lib s) {op : EventOp A} (hok : Completes lib s op) :
    Persisted lib (historyStep lib s op) := by
  cases op with
  | publish event now => exact h.publish hok
  | handle i now fault => exact h.handle hok
  | restart seed =>
    refine ⟨h.named, nil_subset _, h.rows, fun e he => .inr ?_⟩
    rcases h.stored e he with hin | hrow
    · rw [show s.handling = [] from hok] at hin
      exact absurd hin not_mem_nil
    · exact hrow

/-! ## What the replay gives back -/

/-- The ids of the durable events come in order, and each event can be read from its row. -/
def Replayable (lib : EventCoding A) (events : List (Eventbus.Event A)) : Prop :=
  (durable events).Pairwise (fun a b => a.id < b.id) ∧ ∀ e ∈ durable events, Readable lib e

theorem sorted_ids (t : EventTable) :
    ((t.rows.insertionSort fun a b => a.id ≤ b.id).map EventRow.id).Pairwise (· < ·) := by
  have hle : ((t.rows.insertionSort fun a b => a.id ≤ b.id).map EventRow.id).Pairwise (· ≤ ·) :=
    pairwise_map.mpr (pairwise_insertionSort (fun a b : EventRow => a.id ≤ b.id) _)
  have hnodup : ((t.rows.insertionSort fun a b => a.id ≤ b.id).map EventRow.id).Nodup :=
    ((perm_insertionSort _ t.rows).map EventRow.id).nodup_iff.mpr t.unique
  exact (hle.and hnodup).imp fun h => lt_of_le_of_ne h.1 h.2

/-- Where the ids of the durable events come in order, the rows in the order of their ids are the
    rows of the events. -/
theorem Persisted.rows_of_events (h : Persisted lib s) (hdone : s.handling = [])
    (hlt : (durable s.published).Pairwise fun a b => a.id < b.id) :
    List.Forall₂ (fun event row => eventRow lib event = .ok row) (durable s.published)
      (s.table.rows.insertionSort fun a b => a.id ≤ b.id) := by
  have hids : (durable s.published).map Event.id =
      (s.table.rows.insertionSort fun a b => a.id ≤ b.id).map EventRow.id := by
    refine List.Subset.antisymm_of_pairwise (pairwise_map.mpr hlt) (sorted_ids s.table)
      (fun id hid => ?_) (fun id hid => ?_)
    · obtain ⟨e, he, rfl⟩ := mem_map.mp hid
      have hrow : ∃ row ∈ s.table.rows, row.id = e.id :=
        (h.stored e he).resolve_left (hdone ▸ not_mem_nil)
      obtain ⟨row, hrow, hid⟩ := hrow
      exact mem_map.mpr ⟨row, (mem_insertionSort _).mpr hrow, hid⟩
    · obtain ⟨row, hrow, rfl⟩ := mem_map.mp hid
      obtain ⟨e, he, hwritten⟩ := h.rows row ((mem_insertionSort _).mp hrow)
      exact mem_map.mpr ⟨e, he, (eventRow_ok hwritten).symm⟩
  refine forall₂_iff_zip.mpr ⟨by simpa using congrArg List.length hids, fun {e row} hzip => ?_⟩
  obtain ⟨he, hrow⟩ := of_mem_zip hzip
  have hid : e.id = row.id := by
    have hzipped : Forall₂ (fun (e : Eventbus.Event A) (row : EventRow) => e.id = row.id)
        (durable s.published) (s.table.rows.insertionSort fun a b => a.id ≤ b.id) := by
      rw [← forall₂_eq_eq_eq, forall₂_map_left_iff, forall₂_map_right_iff] at hids
      exact hids
    exact (forall₂_iff_zip.mp hzipped).2 hzip
  -- the row was written for an event with the same id, and that is the event
  obtain ⟨e', he', hwritten⟩ := h.rows row ((mem_insertionSort _).mp hrow)
  have hsame : e' = e :=
    inj_on_of_nodup_map (pairwise_map.mpr (hlt.imp ne_of_lt)) he' he
      ((eventRow_ok hwritten).symm.trans hid.symm)
  exact hsame ▸ hwritten

/-- Rows are read as the events they were written for exactly if all of those can be read. -/
theorem scanned_iff {events : List (Eventbus.Event A)} {rows : List EventRow}
    (h : List.Forall₂ (fun event row => eventRow lib event = .ok row) events rows) :
    List.Forall₂ (fun row event => scanEvent lib row = .ok event) rows events ↔
      ∀ event ∈ events, Readable lib event := by
  induction h with
  | nil => simp
  | cons hrow _ ih =>
    rw [forall₂_cons, ih, forall_mem_cons, Readable, hrow]
    exact Iff.rfl

/-- The replay of a table without calls under way is the list of durable events exactly if they are
    replayable. -/
theorem Persisted.replay_iff (h : Persisted lib s) (hdone : s.handling = []) :
    replay lib s.table = .ok (durable s.published) ↔ Replayable lib s.published := by
  rw [replay, mapM_eq_ok]
  constructor
  · intro hread
    -- the ids of the events are the ids of the rows, and those are in order
    have hids : (durable s.published).map Event.id =
        (s.table.rows.insertionSort fun a b => a.id ≤ b.id).map EventRow.id := by
      rw [← forall₂_eq_eq_eq, forall₂_map_left_iff, forall₂_map_right_iff]
      exact hread.flip.imp fun e row hscan => scanEvent_ok hscan
    have hlt : (durable s.published).Pairwise fun a b => a.id < b.id :=
      pairwise_map.mp (hids ▸ sorted_ids s.table)
    exact ⟨hlt, (scanned_iff (h.rows_of_events hdone hlt)).mp hread⟩
  · rintro ⟨hlt, hreadable⟩
    exact (scanned_iff (h.rows_of_events hdone hlt)).mpr hreadable

/-! ## Whole histories -/

/-- One step leaves the events replayable exactly if they were and the step is in order. -/
theorem replayable_step_iff (s : EventHistory A) (op : EventOp A) :
    Replayable lib (historyStep lib s op).published ↔
      Replayable lib s.published ∧ InOrder lib s op := by
  cases op with
  | publish event now =>
    simp only [historyStep, InMemoryBus.publish, Replayable, InOrder, durable_append]
    set stored := s.bus.filled lib.empty event now
    have hkept : persistDefaultRuntimeEvent stored = persistDefaultRuntimeEvent event := rfl
    by_cases hkeep : persistDefaultRuntimeEvent event = true
    · have hone : durable [stored] = [stored] := by simp [durable, hkept, hkeep]
      simp only [hone, pairwise_append, pairwise_singleton, mem_append,
        mem_singleton, forall_eq, hkeep, true_implies, or_imp, forall_and]
      tauto
    · have hnone : durable [stored] = [] := by simp [durable, hkept, hkeep]
      simp [hnone, hkeep]
  | handle i now fault =>
    simp only [historyStep, InOrder, and_true]
    cases s.handling[i]? <;> rfl
  | restart seed => simp only [historyStep, InOrder, and_true]

variable {ops : List (EventOp A)}

theorem persisted_run (hcomplete : Meets (historyStep lib) (Completes lib) {} ops) :
    Persisted lib (runAll (historyStep lib) {} ops) := by
  have hstart : Persisted lib {} := ⟨by simp, by simp, by simp, by simp [durable]⟩
  exact hcomplete.inv (fun s op h hok => h.step hok) hstart

theorem replayable_run_iff (hcomplete : Meets (historyStep lib) (Completes lib) {} ops) :
    Replayable lib (runAll (historyStep lib) {} ops).published ↔
      Meets (historyStep lib) (InOrder lib) {} ops := by
  refine Meets.iff_safe
    (fun s op h _ hop => (replayable_step_iff s op).mpr ⟨h, hop⟩) (fun _ h => h)
    (fun s op _ _ h => ((replayable_step_iff s op).mp h).2)
    (fun s op h => ((replayable_step_iff s op).mp h).1) hcomplete ?_
  exact ⟨by simp [durable], by simp [durable]⟩

/-- In a history without sink errors, the replay gives back the durable events of all processes,
    each once and in the order of their publication, exactly if every durable event gets an id that
    comes after the ids before it and can be read from its row. -/
theorem replay_complete_iff (lib : EventCoding A) (ops : List (EventOp A))
    (hcomplete : Meets (historyStep lib) (Completes lib) {} ops)
    (hdone : (runAll (historyStep lib) {} ops).handling = []) :
    replay lib (runAll (historyStep lib) {} ops).table =
        .ok (durable (runAll (historyStep lib) {} ops).published) ↔
      Meets (historyStep lib) (InOrder lib) {} ops := by
  rw [(persisted_run hcomplete).replay_iff hdone, replayable_run_iff hcomplete]

instance [DecidableEq A] (event : Eventbus.Event A) : Decidable (Readable lib event) :=
  inferInstanceAs (Decidable ((eventRow lib event >>= scanEvent lib) = .ok event))

instance (s : EventHistory A) (op : EventOp A) : Decidable (Completes lib s op) :=
  match op with
  | .publish .. => inferInstanceAs (Decidable (_ ≠ 0))
  | .handle .. => inferInstanceAs (Decidable (∀ _ ∈ _, _ = Except.ok ()))
  | .restart _ => decidable_of_iff (s.handling.isEmpty = true) isEmpty_iff

instance [DecidableEq A] (s : EventHistory A) (op : EventOp A) : Decidable (InOrder lib s op) :=
  match op with
  | .publish .. => inferInstanceAs (Decidable (_ = true → (∀ _ ∈ _, _ < _) ∧ Readable ..))
  | .handle .. | .restart _ => .isTrue trivial

/-- Events without attributes; a time is written as its number. -/
def bareCoding : EventCoding Unit where
  attrs := ⟨fun _ => some "\x7b\x7d", fun _ => some (some ())⟩
  empty := ()
  format t := String.ofList (zeroPadded 1 t)
  parse := parseUint

def submitted (runID : String) : Eventbus.Event Unit :=
  { type := eventRunSubmitted, runID }

/-- Two calls under way at once, whose sinks run in the other order, and a delta of an answer. -/
def oneProcess : List (EventOp Unit) :=
  [.publish (submitted "run-000001") 1, .publish (submitted "run-000002") 2, .handle 1 3 none,
    .publish { type := eventModelTextDelta } 4, .handle 1 5 none, .handle 0 6 none]

theorem replay_complete_in_one_process :
    replay bareCoding (runAll (historyStep bareCoding) {} oneProcess).table =
      .ok (durable (runAll (historyStep bareCoding) {} oneProcess).published) :=
  (replay_complete_iff bareCoding oneProcess (by decide +kernel) (by decide +kernel)).mpr
    (by decide +kernel)

/-- One event in each of two processes. -/
def twoProcesses : List (EventOp Unit) :=
  [.publish (submitted "run-000001") 1, .handle 0 1 none, .restart 7,
    .publish (submitted "run-000002") 2, .handle 0 2 none]

/-- Both events get the id `evt-000001`; the second one is not stored, and no error says so. -/
theorem restarted_numbering_drops_event :
    Meets (historyStep bareCoding) (Completes bareCoding) {} twoProcesses ∧
      (runAll (historyStep bareCoding) {} twoProcesses).handling = [] ∧
      (durable (runAll (historyStep bareCoding) {} twoProcesses).published).map Eventbus.Event.runID =
        ["run-000001", "run-000002"] ∧
      (replay bareCoding (runAll (historyStep bareCoding) {} twoProcesses).table).map
        (·.map Eventbus.Event.runID) = .ok ["run-000001"] := by
  decide +kernel

end Hopclaw.Store.SQLiteEventSink
