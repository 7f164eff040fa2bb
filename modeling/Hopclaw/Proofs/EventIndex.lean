import Hopclaw.Interleaving.Trace
import Hopclaw.Store.RunStores

/-! # The event index of the run stores

The index of a run store has one entry per external event, while several runs may carry the same
event. `IndexConsistent` relates it to the records. Creating and claiming runs keep it consistent;
replacing a record and pruning do so only under a condition on the runs that share the event, and
these conditions are exact. -/

namespace Hopclaw.Store

open RunTable Option GoStrings Interleaving InMemoryRunStore
open JSONLRunStore (Stable stable_empty)

variable {X : Type} {c : Cloning X} {t : RunTable X}

/-- An event is in the index exactly if a stored run carries it, and then the index names such a
    run. The empty id stands for no event. -/
structure IndexConsistent (t : RunTable X) : Prop where
  defined_iff : ∀ e, e ≠ "" → ((t.byEventID.lookup e).isSome = true ↔
    ∃ id r, t.find? id = some r ∧ r.run.inputEventID = e)
  names : ∀ e id, e ≠ "" → t.byEventID.lookup e = some id →
    ∃ r, t.find? id = some r ∧ r.run.inputEventID = e

/-- Every stored run's event is found, and seen. -/
def Findable (find : String → Except Err (Option (RunRecord X))) (t : RunTable X) : Prop :=
  ∀ id r, t.find? id = some r → r.run.inputEventID ≠ "" →
    (∃ r', find r.run.inputEventID = .ok (some r') ∧
      r'.run.inputEventID = r.run.inputEventID) ∧
    ∀ now within, within ≤ 0 → t.seen now r.run.inputEventID within = true

variable {r : RunRecord X}

namespace IndexConsistent

theorem of_indexed (hindexed : ∀ id r, t.find? id = some r → r.run.inputEventID ≠ "" →
      ∃ id', t.byEventID.lookup r.run.inputEventID = some id')
    (hnames : ∀ e id, e ≠ "" → t.byEventID.lookup e = some id →
      ∃ r, t.find? id = some r ∧ r.run.inputEventID = e) : IndexConsistent t := by
  refine ⟨fun e he => ⟨fun hsome => ?_, ?_⟩, hnames⟩
  · obtain ⟨id, hid⟩ := isSome_iff_exists.mp hsome
    obtain ⟨r, hfind, hr⟩ := hnames e id he hid
    exact ⟨id, r, hfind, hr⟩
  · rintro ⟨id, r, hfind, rfl⟩
    exact isSome_iff_exists.mpr (hindexed id r hfind he)

theorem indexed (h : IndexConsistent t) {id : String} (hfind : t.find? id = some r)
    (he : r.run.inputEventID ≠ "") : ∃ id', t.byEventID.lookup r.run.inputEventID = some id' :=
  isSome_iff_exists.mp ((h.defined_iff _ he).mpr ⟨id, r, hfind, rfl⟩)

theorem empty : IndexConsistent ({} : RunTable X) :=
  of_indexed (fun _ _ h _ => by simp [find?] at h) fun _ _ _ h => by simp at h

/-! ## Creating and claiming -/

theorem add (h : IndexConsistent t) (hid : r.run.id = runID (t.nextID + 1)) :
    IndexConsistent (t.add r hid) := by
  have hfresh : t.find? r.run.id = none := hid ▸ t.find?_fresh
  refine of_indexed (fun id r' hfind he => ?_) fun e id he hl => ?_
  · change ∃ id', (t.indexed r.run).lookup _ = some id'
    rw [indexed_lookup]
    split_ifs with hsame
    · exact ⟨_, rfl⟩
    · rw [add_find?] at hfind
      split_ifs at hfind with hnew
      · obtain rfl := some.inj hfind
        exact absurd ⟨rfl, he⟩ hsame
      · exact h.indexed hfind he
  · change (t.indexed r.run).lookup e = some id at hl
    rw [indexed_lookup] at hl
    simp only [add_find?]
    split_ifs at hl with hsame
    · obtain rfl := some.inj hl
      exact ⟨r, if_pos rfl, hsame.1.symm⟩
    · obtain ⟨r', hfind, hr'⟩ := h.names e id he hl
      -- the new id was not in use, so the entry names an old run
      have hne : id ≠ r.run.id := by
        rintro rfl
        rw [hfresh] at hfind
        cases hfind
      exact ⟨r', by rw [if_neg hne, hfind], hr'⟩

/-- A record may be replaced by one with the same event. -/
theorem put (h : IndexConsistent t) {old : RunRecord X} (hold : t.find? r.run.id = some old)
    (hsame : r.run.inputEventID = old.run.inputEventID) : IndexConsistent (t.put r) := by
  refine of_indexed (fun id r' hfind he => ?_) fun e id he hl => ?_
  · rw [put_byEventID]
    rw [put_find? hold] at hfind
    split_ifs at hfind
    · obtain rfl := some.inj hfind
      rw [hsame] at he ⊢
      exact h.indexed hold he
    · exact h.indexed hfind he
  · rw [put_byEventID] at hl
    obtain ⟨r', hfind, hr'⟩ := h.names e id he hl
    simp only [put_find? hold]
    by_cases hid : id = r.run.id
    · subst hid
      rw [hold] at hfind
      obtain rfl := some.inj hfind
      exact ⟨r, if_pos rfl, hsame.trans hr'⟩
    · exact ⟨r', by rw [if_neg hid, hfind], hr'⟩

end IndexConsistent

/-! ## Replacing a record -/

/-- The record keeps its event, or it had none, or the event is recorded under another run. -/
def SafeReplace (t : RunTable X) (old r : RunRecord X) : Prop :=
  old.run.inputEventID = r.run.inputEventID ∨ old.run.inputEventID = "" ∨
    t.byEventID.lookup old.run.inputEventID ≠ some r.run.id

theorem IndexConsistent.replace_iff (h : IndexConsistent t) {old : RunRecord X}
    (hold : t.find? r.run.id = some old) : IndexConsistent (t.replace r) ↔ SafeReplace t old r := by
  constructor
  · intro hafter
    by_contra hunsafe
    simp only [SafeReplace, not_or, not_not] at hunsafe
    obtain ⟨hne, he, hl⟩ := hunsafe
    -- the old event's entry stays, and it names the record with the new event
    have hl' : (t.replace r).byEventID.lookup old.run.inputEventID = some r.run.id := by
      rw [replace_byEventID, indexed_lookup, if_neg fun h => hne h.1, hl]
    obtain ⟨r', hfind, hr'⟩ := hafter.names _ _ he hl'
    rw [replace_find?, put_find? hold, if_pos rfl] at hfind
    obtain rfl := some.inj hfind
    exact hne hr'.symm
  · intro hsafe
    refine IndexConsistent.of_indexed (fun id r' hfind he => ?_) fun e id he hl => ?_
    · rw [replace_byEventID, indexed_lookup]
      split_ifs with hsame
      · exact ⟨_, rfl⟩
      · rw [replace_find?, put_find? hold] at hfind
        split_ifs at hfind with hid
        · obtain rfl := some.inj hfind
          exact absurd ⟨rfl, he⟩ hsame
        · exact h.indexed hfind he
    · rw [replace_byEventID, indexed_lookup] at hl
      simp only [replace_find?, put_find? hold]
      split_ifs at hl with hsame
      · obtain rfl := some.inj hl
        exact ⟨r, if_pos rfl, hsame.1.symm⟩
      · obtain ⟨r', hfind, hr'⟩ := h.names e id he hl
        by_cases hid : id = r.run.id
        · -- the entry names the replaced record: then the event is its own
          subst hid
          rw [hold] at hfind
          obtain rfl := some.inj hfind
          subst hr'
          rcases hsafe with hsafe | hsafe | hsafe
          · exact absurd ⟨hsafe, he⟩ hsame
          · exact absurd hsafe he
          · exact absurd hl hsafe
        · exact ⟨r', by rw [if_neg hid, hfind], hr'⟩

/-! ## Pruning -/

/-- For every event of a run that is pruned: if its id is blank, the run it is recorded under stays,
    and else all runs with that event are pruned. -/
def SafePrune (t : RunTable X) (before : Time) : Prop :=
  before = 0 ∨ ∀ id r, t.find? id = some r → expired before r.run = true →
    r.run.inputEventID ≠ "" →
    (trimSpace r.run.inputEventID ≠ "" → ∀ id' r', t.find? id' = some r' →
      r'.run.inputEventID = r.run.inputEventID → expired before r'.run = true) ∧
    (trimSpace r.run.inputEventID = "" → ∀ id' r',
      t.byEventID.lookup r.run.inputEventID = some id' → t.find? id' = some r' →
      expired before r'.run = false)

theorem IndexConsistent.prune_iff (h : IndexConsistent t) (before : Time) :
    IndexConsistent (t.pruneRuns before).2 ↔ SafePrune t before := by
  by_cases hbefore : before = 0
  · simp [pruneRuns, SafePrune, hbefore, h]
  have hkept : ∀ id r, (t.pruneRuns before).2.find? id = some r ↔
      t.find? id = some r ∧ expired before r.run = false := by
    intro id r
    rw [pruneRuns_find? hbefore]
    simp
  constructor
  · intro hafter
    refine .inr fun id r hfind hexp he => ⟨fun htrim id' r' hfind' hsame => ?_,
      fun htrim id' r' hl hfind' => ?_⟩
    · by_contra hlive
      rw [Bool.not_eq_true] at hlive
      obtain ⟨id'', hl⟩ := hafter.indexed ((hkept id' r').mpr ⟨hfind', hlive⟩) (hsame ▸ he)
      rw [hsame, pruneRuns_lookup hbefore] at hl
      rw [hl.2 htrim id r hfind rfl] at hexp
      cases hexp
    · have hl' : (t.pruneRuns before).2.byEventID.lookup r.run.inputEventID = some id' :=
        (pruneRuns_lookup hbefore _ _).mpr ⟨hl, fun hne => absurd htrim hne⟩
      obtain ⟨r'', hfind'', -⟩ := hafter.names _ _ he hl'
      obtain ⟨hfind'', hlive⟩ := (hkept id' r'').mp hfind''
      rw [hfind'] at hfind''
      rwa [some.inj hfind'']
  · intro hsafe
    have hsafe := hsafe.resolve_left hbefore
    refine IndexConsistent.of_indexed (fun id r hfind he => ?_) fun e id he hl => ?_
    · obtain ⟨hfind, hlive⟩ := (hkept id r).mp hfind
      obtain ⟨id', hl⟩ := h.indexed hfind he
      refine ⟨id', (pruneRuns_lookup hbefore _ _).mpr
        ⟨hl, fun htrim id'' r'' hfind'' hsame => ?_⟩⟩
      by_contra hexp
      rw [Bool.not_eq_false] at hexp
      have := (hsafe id'' r'' hfind'' hexp (hsame ▸ he)).1 (hsame ▸ htrim) id r hfind hsame.symm
      rw [hlive] at this
      cases this
    · obtain ⟨hl, hlive⟩ := (pruneRuns_lookup hbefore _ _).mp hl
      obtain ⟨r, hfind, rfl⟩ := h.names e id he hl
      refine ⟨r, (hkept id r).mpr ⟨hfind, ?_⟩, rfl⟩
      by_cases htrim : trimSpace r.run.inputEventID = ""
      · by_contra hexp
        rw [Bool.not_eq_false] at hexp
        have := (hsafe id r hfind hexp he).2 htrim id r hl hfind
        rw [hexp] at this
        cases this
      · exact hlive htrim id r hfind rfl

/-! ## Finding a run by its event -/

theorem IndexConsistent.seen (h : IndexConsistent t) {id : String} (hfind : t.find? id = some r)
    (he : r.run.inputEventID ≠ "") (now : Time) {within : ℤ} (hwithin : within ≤ 0) :
    t.seen now r.run.inputEventID within = true := by
  obtain ⟨id', hl⟩ := h.indexed hfind he
  obtain ⟨r', hfind', -⟩ := h.names _ _ he hl
  rw [RunTable.seen, if_neg he, hl, bind_some, hfind']
  exact if_pos hwithin

theorem IndexConsistent.findable_inMemory (h : IndexConsistent t) :
    Findable (findByExternalEvent c t) t := by
  intro id r hfind he
  obtain ⟨id', hl⟩ := h.indexed hfind he
  obtain ⟨r', hfind', hr'⟩ := h.names _ _ he hl
  refine ⟨⟨cloneRun c r', ?_, hr'⟩, fun now within hwithin => h.seen hfind he now hwithin⟩
  simp only [findByExternalEvent, hl, hfind']

variable {s : JSONLRunStore X}

theorem IndexConsistent.findable_jsonl (h : IndexConsistent s.table)
    (hs : Stable c s.table) :
    Findable (s.findByExternalEvent c) s.table := by
  intro id r hfind he
  obtain ⟨id', hl⟩ := h.indexed hfind he
  obtain ⟨r', hfind', hr'⟩ := h.names _ _ he hl
  refine ⟨⟨r', ?_, hr'⟩, fun now within hwithin => h.seen hfind he now hwithin⟩
  simp only [JSONLRunStore.findByExternalEvent, hl, hfind', JSONLRunStore.returned,
    hs id' r' hfind']

/-! ## Whole histories -/

/-- The calls that keep the index consistent: all but an update that the store accepts and that is
    not a safe replacement, and a pruning that is not safe. -/
def KeepsIndex (accepted : RunRecord X → Prop) (t : RunTable X) : RunOp X → Prop
  | .update _ r => accepted r → ∀ old, t.find? r.run.id = some old → SafeReplace t old r
  | .pruneRuns before => SafePrune t before
  | _ => True

/-- The table of an `InMemoryRunStore` after one call. -/
def inMemoryTable (c : Cloning X) (t : RunTable X) (op : RunOp X) : RunTable X :=
  (step c t op).2

/-- A `JSONLRunStore` after one call. -/
def jsonlStore (c : Cloning X) (s : JSONLRunStore X) (op : RunOp X) : JSONLRunStore X :=
  (JSONLRunStore.step c s op).2

theorem IndexConsistent.inMemory_step (h : IndexConsistent t) (op : RunOp X) :
    IndexConsistent (inMemoryTable c t op) ↔ KeepsIndex (fun _ => True) t op := by
  cases op with
  | create now sessionID msg cfg => exact iff_of_true (h.add rfl) trivial
  | update now r =>
    simp only [inMemoryTable, step, update, KeepsIndex]
    cases hf : t.find? r.run.id with
    | none => simpa using h
    | some old =>
      have hold : t.find? (cloneRun c (r.stamped now)).run.id = some old := hf
      rw [h.replace_iff hold]
      simp only [true_imp_iff, some.injEq, forall_eq']
      exact Iff.rfl
  | claimQueuedRun started now id =>
    refine iff_of_true ?_ trivial
    simp only [inMemoryTable, step, claimQueuedRun]
    cases hf : t.find? id with
    | none => exact h
    | some current =>
      dsimp only
      split_ifs
      · exact h
      · obtain rfl := id_of_find? hf
        exact h.put hf rfl
  | pruneRuns before => exact h.prune_iff before
  | _ => exact iff_of_true h trivial

theorem IndexConsistent.jsonl_step (hs : Stable c s.table)
    (h : IndexConsistent s.table) (op : RunOp X) : IndexConsistent (jsonlStore c s op).table ↔
      KeepsIndex (fun r => (cloneAgentRun c r).isSome = true) s.table op := by
  cases op with
  | create now sessionID msg cfg => exact iff_of_true (h.add rfl) trivial
  | update now r =>
    simp only [jsonlStore, JSONLRunStore.step, KeepsIndex]
    rcases JSONLRunStore.update_cases now r with ⟨e, heq, hwhy⟩ |
      ⟨cloned, old, hc, hf, heq⟩
    · rw [heq]
      refine iff_of_true h fun hacc old hold => ?_
      rcases hwhy with hwhy | hwhy
      · simp [hwhy] at hacc
      · rw [hwhy] at hold
        cases hold
    · obtain ⟨hid, hevent⟩ := cloneAgentRun_keeps hc
      have hold : s.table.find? (cloned.stamped now).run.id = some old := by
        rw [← hf, ← hid]
        rfl
      rw [heq, h.replace_iff hold, hc, hf]
      simp only [isSome_some, true_imp_iff, some.injEq, forall_eq']
      simp only [SafeReplace, RunRecord.stamped, Run.stamped, hid, hevent]
  | claimQueuedRun started now id =>
    refine iff_of_true ?_ trivial
    simp only [jsonlStore, JSONLRunStore.step]
    rcases JSONLRunStore.claimQueuedRun_cases hs started now id with ⟨heq, -⟩ | ⟨_, -, -, heq⟩ |
      ⟨current, hf, -, heq⟩
    · simpa only [heq] using h
    · simpa only [heq] using h
    · obtain rfl := id_of_find? hf
      rw [heq]
      exact h.put hf rfl
  | pruneRuns before =>
    simp only [jsonlStore, JSONLRunStore.step, JSONLRunStore.pruneRuns]
    split_ifs with hbefore
    · exact iff_of_true h (.inl hbefore)
    · exact h.prune_iff before
  | _ => exact iff_of_true h trivial

/-- After every part of a history the event index of either store is consistent, and every run is
    found by its event, exactly if all updates and prunings of the history are safe. -/
theorem event_index_consistent_iff (c : Cloning X) (ops : List (RunOp X)) :
    ((∀ done, done <+: ops →
        IndexConsistent (runAll (inMemoryTable c) {} done) ∧
        Findable (findByExternalEvent c (runAll (inMemoryTable c) {} done))
          (runAll (inMemoryTable c) {} done)) ↔
      Meets (inMemoryTable c) (KeepsIndex fun _ => True) {} ops) ∧
    ((∀ done, done <+: ops →
        IndexConsistent (runAll (jsonlStore c) {} done).table ∧
        Findable (JSONLRunStore.findByExternalEvent c (runAll (jsonlStore c) {} done))
          (runAll (jsonlStore c) {} done).table) ↔
      Meets (jsonlStore c)
        (fun s => KeepsIndex (fun r => (cloneAgentRun c r).isSome = true) s.table) {} ops) := by
  constructor
  · rw [← Meets.iff_always (fun t h => h)
      (fun t op h => ⟨(h.inMemory_step op).mpr, (h.inMemory_step op).mp⟩) IndexConsistent.empty]
    exact forall₂_congr fun done _ => and_iff_left_of_imp fun h => h.findable_inMemory
  · have hstep : ∀ (s : JSONLRunStore X) op, Stable c s.table →
        Stable c (jsonlStore c s op).table :=
      fun s op h => JSONLRunStore.step_stable op h
    have hstable : ∀ done, Stable c (runAll (jsonlStore c) {} done).table :=
      runAll_inv (jsonlStore c) hstep stable_empty
    rw [← Meets.iff_always
      (K := fun s => Stable c s.table ∧ IndexConsistent s.table) (fun s h => h.2)
      (fun s op ⟨hs, h⟩ => ⟨fun hP => ⟨hstep s op hs, (h.jsonl_step hs op).mpr hP⟩,
        (h.jsonl_step hs op).mp⟩) ⟨stable_empty, IndexConsistent.empty⟩]
    exact forall₂_congr fun done _ => and_iff_left_of_imp fun h => h.findable_jsonl (hstable done)

/-- The event `evt` is delivered, its run ends, the event is delivered again, and the ended run is
    pruned. -/
def redelivered : List (RunOp Unit) :=
  let msg : IncomingMessage := { sessionKey := "chat", externalEventID := "evt" }
  let ended : Run :=
    { id := runID 1, sessionID := "sess", inputEventID := "evt", status := .completed, finishedAt := 2 }
  [.create 1 "sess" msg {}, .update 2 ⟨ended, ()⟩, .create 3 "sess" msg {}, .pruneRuns 3]

theorem not_indexConsistent_of_lookup {e : String} (he : e ≠ "") (id : String)
    (hfind : (t.find? id).map (fun r => r.run.inputEventID) = some e)
    (hl : t.byEventID.lookup e = none) : ¬ IndexConsistent t := by
  intro h
  obtain ⟨r, hr, rfl⟩ := map_eq_some_iff.mp hfind
  obtain ⟨id', hid'⟩ := h.indexed hr he
  rw [hl] at hid'
  cases hid'

/-- Pruning the ended run hides the newer run of the same event, in both stores. -/
theorem pruning_hides_newer_run :
    ¬ IndexConsistent (runAll (inMemoryTable Cloning.plain) {} redelivered) ∧
    ¬ IndexConsistent (runAll (jsonlStore Cloning.plain) {} redelivered).table ∧
    (runAll (inMemoryTable Cloning.plain) {} redelivered).seen 4 "evt" 0 = false ∧
    (runAll (jsonlStore Cloning.plain) {} redelivered).table.seen 4 "evt" 0 = false := by
  refine ⟨not_indexConsistent_of_lookup (e := "evt") (by decide) (runID 2) ?_ ?_,
    not_indexConsistent_of_lookup (e := "evt") (by decide) (runID 2) ?_ ?_, ?_, ?_⟩ <;>
    decide +kernel

end Hopclaw.Store
