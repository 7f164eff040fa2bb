import Hopclaw.Interleaving.Machine
import Hopclaw.Store.RunLog

/-! # Run ids across restarts

Run ids are drawn from a counter. A restart takes the counter from the log files it keeps, so it
forgets the numbers of runs whose files were deleted by pruning or by the startup limit. Ids stay
distinct exactly if every restart keeps the file of the newest run. -/

namespace Hopclaw.Store.JSONLRunStore

open Interleaving List Option

variable {X : Type} {c : Cloning X} {s : JSONLRunStore X}

/-- The id a `Create` returned. -/
def createdID : HistoryOp X → Option (RunAnswer X) → Option String
  | .call (.create _ _ _ _), some (.run (.ok (some r))) => some r.run.id
  | _, _ => none

/-- The ids the `Create` calls of a history returned, in order. -/
def createdIDs (c : Cloning X) : JSONLRunStore X → List (HistoryOp X) → List String
  | _, [] => []
  | s, op :: ops => (createdID op (history c s op).1).toList ++ createdIDs c (history c s op).2 ops

/-- A restart keeps the file of the run with the highest number so far, if there is a run. -/
def KeepsNewest (c : Cloning X) (s : JSONLRunStore X) : HistoryOp X → Prop
  | .restart limit order => s.table.nextID = 0 ∨
      runID s.table.nextID ∈ (kept c limit order s.files).map LoadedRun.file
  | .call _ => True

/-! ## One step -/

theorem Logged.history (h : Logged c s) (op : HistoryOp X) :
    Logged c (s.history c op).2 := by
  cases op with
  | call op => exact h.step op
  | restart limit order =>
    obtain ⟨s', hload, hs', -⟩ := h.load limit order
    simpa only [JSONLRunStore.history, hload, getD_some] using hs'

/-- A restart sets the counter back, unless it keeps the newest run. -/
theorem Logged.restart_nextID (h : Logged c s) (limit : ℕ) (order : LoadOrder X) :
    (s.history c (.restart limit order)).2.table.nextID ≤ s.table.nextID ∧
      ((s.history c (.restart limit order)).2.table.nextID = s.table.nextID ↔
        KeepsNewest c s (.restart limit order)) := by
  obtain ⟨s', hload, hs', hkept, hold, hnext⟩ := h.load limit order
  simp only [JSONLRunStore.history, hload, getD_some]
  have hle : s'.table.nextID ≤ s.table.nextID := by
    rcases hnext with hzero | ⟨r, hr⟩
    · omega
    · exact s.table.issued (RunTable.mem_of_find? (hold _ r hr))
  refine ⟨hle, fun heq => ?_, ?_⟩
  · rcases hnext with hzero | ⟨r, hr⟩
    · exact .inl (heq ▸ hzero)
    · exact .inr (mem_map.mpr ⟨⟨_, r⟩, (hkept _ r).mp (heq ▸ hr), rfl⟩)
  · rintro (hzero | hmem)
    · omega
    · obtain ⟨⟨file, r⟩, hitem, hfile⟩ := mem_map.mp hmem
      have hr := (hkept file r).mpr hitem
      rw [show file = runID s.table.nextID from hfile] at hr
      exact le_antisymm hle (s'.table.issued (RunTable.mem_of_find? hr))

/-- Every other step counts the runs it creates. -/
theorem Logged.call_nextID (h : Logged c s) (op : RunOp X) :
    (createdID (.call op) (s.history c (.call op)).1 = none ∧
      (s.history c (.call op)).2.table.nextID = s.table.nextID) ∨
    (createdID (.call op) (s.history c (.call op)).1 =
        some (runID (s.table.nextID + 1)) ∧
      (s.history c (.call op)).2.table.nextID = s.table.nextID + 1) := by
  rcases step_cases h.stable op with ⟨hcase, hop⟩ | ⟨now, sessionID, msg, cfg, rfl⟩ | ⟨before, rfl⟩
  · refine .inl ⟨?_, ?_⟩
    · cases op with
      | create now sessionID msg cfg => exact absurd rfl (hop now sessionID msg cfg)
      | _ => rfl
    · rcases hcase with heq | ⟨r, old, -, -, -, hnext, -⟩
      · simp only [JSONLRunStore.history, heq]
      · exact hnext
  · refine .inr ⟨?_, rfl⟩
    have hstable := newRun_stable (c := c) (s := s) now sessionID msg cfg
    simp only [JSONLRunStore.history, JSONLRunStore.step, create, returned, hstable]
    rfl
  · refine .inl ⟨rfl, ?_⟩
    simp only [JSONLRunStore.history, JSONLRunStore.step, JSONLRunStore.pruneRuns]
    split_ifs
    · rfl
    · exact RunTable.pruneRuns_nextID _

/-! ## Whole histories -/

/-- The ids are distinct, and none is among the first `n`. -/
def FreshAfter (n : ℕ) (ids : List String) : Prop :=
  ids.Nodup ∧ ∀ m, 0 < m → m ≤ n → runID m ∉ ids

theorem freshAfter_cons {n : ℕ} {ids : List String} :
    FreshAfter n (runID (n + 1) :: ids) ↔ FreshAfter (n + 1) ids := by
  simp only [FreshAfter, nodup_cons, mem_cons, not_or]
  constructor
  · rintro ⟨⟨hnew, hnodup⟩, hold⟩
    refine ⟨hnodup, fun m hpos hle => ?_⟩
    rcases Nat.lt_or_ge n m with hlt | hle'
    · rwa [show m = n + 1 by omega]
    · exact (hold m hpos hle').2
  · rintro ⟨hnodup, hold⟩
    refine ⟨⟨hold _ (Nat.succ_pos n) le_rfl, hnodup⟩, fun m hpos hle => ⟨fun heq => ?_, ?_⟩⟩
    · have := runID_injective heq
      omega
    · exact hold m hpos (hle.trans (Nat.le_succ n))

section

variable (now : Time) (sessionID : String) (msg : IncomingMessage) (cfg : AgentConfig)

/-- Once the counter is behind, the next `Create` returns an id that was used. -/
theorem Logged.exists_reused (ops : List (HistoryOp X)) {n : ℕ} :
    ∀ {s : JSONLRunStore X}, Logged c s → s.table.nextID < n →
      ∃ m, 0 < m ∧ m ≤ n ∧
        runID m ∈ createdIDs c s (ops ++ [.call (.create now sessionID msg cfg)]) := by
  induction ops with
  | nil =>
    intro s h hlt
    refine ⟨s.table.nextID + 1, Nat.succ_pos _, hlt, ?_⟩
    rcases h.call_nextID (.create now sessionID msg cfg) with ⟨-, hnext⟩ | ⟨hid, -⟩
    · exact absurd hnext (Nat.succ_ne_self _)
    · simp [createdIDs, hid]
  | cons op ops ih =>
    intro s h hlt
    cases op with
    | call op =>
      rcases h.call_nextID op with ⟨hid, hnext⟩ | ⟨hid, hnext⟩
      · obtain ⟨m, hpos, hle, hmem⟩ := ih (h.history (.call op)) (hnext.trans_lt hlt)
        exact ⟨m, hpos, hle, mem_append_right _ hmem⟩
      · exact ⟨_, Nat.succ_pos _, hlt, mem_append_left _ (by simp [hid])⟩
    | restart limit order =>
      obtain ⟨m, hpos, hle, hmem⟩ :=
        ih (h.history (.restart limit order)) ((h.restart_nextID limit order).1.trans_lt hlt)
      exact ⟨m, hpos, hle, mem_append_right _ hmem⟩

theorem Logged.freshAfter_iff (ops : List (HistoryOp X)) :
    ∀ {s : JSONLRunStore X}, Logged c s →
      (FreshAfter s.table.nextID
          (createdIDs c s (ops ++ [.call (.create now sessionID msg cfg)])) ↔
        Meets (next (JSONLRunStore.history c)) (KeepsNewest c) s ops) := by
  induction ops with
  | nil =>
    intro s h
    refine iff_of_true ?_ trivial
    rcases h.call_nextID (.create now sessionID msg cfg) with ⟨-, hnext⟩ | ⟨hid, -⟩
    · exact absurd hnext (Nat.succ_ne_self _)
    · simp only [nil_append, createdIDs, hid]
      exact freshAfter_cons.mpr ⟨nodup_nil, by simp⟩
  | cons op ops ih =>
    intro s h
    rw [cons_append, createdIDs]
    cases op with
    | call op =>
      have hrest := ih (h.history (.call op))
      simp only [Meets, KeepsNewest, true_and]
      rcases h.call_nextID op with ⟨hid, hnext⟩ | ⟨hid, hnext⟩
      · rw [hid, ← hnext]
        exact hrest
      · rw [hid, toList_some, singleton_append, freshAfter_cons, ← hnext]
        exact hrest
    | restart limit order =>
      have hrest := ih (h.history (.restart limit order))
      obtain ⟨hle, hiff⟩ := h.restart_nextID limit order
      by_cases hkeeps : KeepsNewest c s (.restart limit order)
      · rw [hiff.mpr hkeeps] at hrest
        exact hrest.trans ⟨fun hm => ⟨hkeeps, hm⟩, fun hm => hm.2⟩
      · -- the counter fell behind a run that was created
        refine iff_of_false (fun hfresh => ?_) fun hm => hkeeps hm.1
        obtain ⟨m, hpos, hm, hmem⟩ := exists_reused now sessionID msg cfg ops
          (h.history (.restart limit order)) (lt_of_le_of_ne hle fun heq => hkeeps (hiff.mp heq))
        exact hfresh.2 m hpos hm (mem_append_right _ hmem)

/-- The ids of all runs created in a directory, up to and including one more `Create`, are distinct
    exactly if every restart before it kept the file of the newest run. -/
theorem run_ids_distinct_iff (c : Cloning X) (ops : List (HistoryOp X)) :
    (createdIDs c {} (ops ++ [.call (.create now sessionID msg cfg)])).Nodup ↔
      Meets (next (JSONLRunStore.history c)) (KeepsNewest c) {} ops := by
  rw [← Logged.freshAfter_iff now sessionID msg cfg ops Logged.empty]
  refine ⟨fun h => ⟨h, fun m hpos hle => ?_⟩, fun h => h.1⟩
  have : m ≤ 0 := hle
  omega

end

theorem updatedAt_le_of_removed {limit : ℕ} {order : LoadOrder X} {loaded : List (LoadedRun X)}
    {kept removed : LoadedRun X} (hkept : kept ∈ (applyStartupLimit limit order loaded).1)
    (hremoved : removed ∈ (applyStartupLimit limit order loaded).2) :
    removed.record.run.updatedAt ≤ kept.record.run.updatedAt := by
  unfold applyStartupLimit at hkept hremoved
  split_ifs at hkept hremoved
  · have hsorted := pairwise_insertionSort
      (fun a b : LoadedRun X => b.record.run.updatedAt ≤ a.record.run.updatedAt) (order loaded).1
    rw [← take_append_drop limit (insertionSort _ _), pairwise_append] at hsorted
    exact hsorted.2.2 kept hkept removed hremoved
  · cases hremoved

/-- After every history of calls, prunings and restarts, opening the files again gives records of the
    store that was open: without a limit all of them, and none that is older than one left out. -/
theorem reopened_store_has_records (c : Cloning X) (ops : List (HistoryOp X)) (limit : ℕ)
    (order : LoadOrder X) :
    let s := runAll (next (JSONLRunStore.history c)) {} ops
    ∃ s', load c limit order s.files = some s' ∧
      (∀ id r, s'.table.find? id = some r → s.table.find? id = some r) ∧
      (limit = 0 → ∀ id, s'.table.find? id = s.table.find? id) ∧
      ∀ id r id' r', s'.table.find? id = some r → s.table.find? id' = some r' →
        s'.table.find? id' = none → r'.run.updatedAt ≤ r.run.updatedAt := by
  intro s
  have hlogged : Logged c s := runAll_inv _ (fun _ op h => h.history op) Logged.empty ops
  obtain ⟨s', hload, -, hkept, hold, -⟩ := hlogged.load limit order
  obtain ⟨loaded, hloaded, -, hmem⟩ := hlogged.exists_readRuns
  rw [kept, hloaded, getD_some] at hkept
  refine ⟨s', hload, hold, ?_, fun id r id' r' hr hr' hgone => ?_⟩
  · rintro rfl
    obtain ⟨s'', hload', hall⟩ := hlogged.load_all order
    obtain rfl : s' = s'' := some.inj (hload.symm.trans hload')
    exact hall
  · refine updatedAt_le_of_removed ((hkept id r).mp hr)
      ((mem_append.mp ((applyStartupLimit_perm limit order loaded).mem_iff.mpr
        ((hmem ⟨id', r'⟩).mpr hr'))).resolve_left fun h => ?_)
    exact absurd ((hkept id' r').mpr h) (by simp [hgone])

/-- A run is created, completes and is pruned; the process restarts and creates a run. -/
def prunedThenRestarted : List (HistoryOp Unit) :=
  let completed : RunRecord Unit :=
    ⟨{ id := "run-000001", sessionID := "sess", status := .completed, finishedAt := 2 }, ()⟩
  [.call (.create 1 "sess" { sessionKey := "chat" } {}), .call (.update 2 completed),
    .call (.pruneRuns 3), .restart 0 fun l => ⟨l, List.Perm.refl l⟩,
    .call (.create 4 "sess" { sessionKey := "chat" } {})]

/-- A startup limit of one keeps the run that was updated last, not the newest one. -/
def limitedRestart : List (HistoryOp Unit) :=
  let running : RunRecord Unit := ⟨{ id := "run-000001", sessionID := "sess", status := .running }, ()⟩
  [.call (.create 1 "sess" { sessionKey := "chat" } {}),
    .call (.create 2 "sess" { sessionKey := "chat" } {}), .call (.update 3 running),
    .restart 1 fun l => ⟨l, List.Perm.refl l⟩,
    .call (.create 4 "sess" { sessionKey := "chat" } {})]

theorem restart_reuses_run_id :
    createdIDs Cloning.plain {} prunedThenRestarted = ["run-000001", "run-000001"] ∧
    createdIDs Cloning.plain {} limitedRestart = ["run-000001", "run-000002", "run-000002"] := by
  decide +kernel

end Hopclaw.Store.JSONLRunStore
