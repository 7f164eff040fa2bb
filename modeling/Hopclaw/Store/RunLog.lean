import Hopclaw.Store.RunStores

/-! # The log files of the run store

`JSONLRunStore` keeps one log file per run. When the process starts again, `load`
(`store/jsonl.go`) reads the last line of every file, deletes the files beyond the startup limit,
and rebuilds the maps and the counter from what is left. The invariant `Logged` relates the files to
the maps: the last line of a run's file is its record in memory. -/

namespace Hopclaw.Store

open List GoStrings RunTable Maps

variable {X : Type}

/-! ## Opening a store -/

def parseSequence (id pre : String) : ℕ :=
  if hasPrefix id pre then (parseUint (trimPrefix id pre)).getD 0 else 0

@[simp] theorem parseSequence_runID (n : ℕ) : parseSequence (runID n) "run-" = n := by
  have hpre : hasPrefix (runID n) "run-" = true := by
    rw [hasPrefix_iff, runID, String.toList_append]
    exact prefix_append _ _
  rw [parseSequence, if_pos hpre, runID, trimPrefix_eq, parseUint_zeroPadded, Option.getD_some]

theorem RunTable.keyed_insert (t : RunTable X) (r : RunRecord X) {id : String} {s : RunRecord X} :
    (t.byID.insert r.run.id r).lookup id = some s → s.run.id = id :=
  forall_insert t.keyed rfl

/-- One round of the last loop of `load`. -/
def RunTable.restore (t : RunTable X) (r : RunRecord X) : RunTable X where
  nextID := max t.nextID (parseSequence r.run.id "run-")
  byID := t.byID.insert r.run.id r
  byEventID := t.indexed r.run
  keyed := @keyed_insert X t r
  issued := by
    intro n h
    rw [AList.mem_insert] at h
    rcases h with h | h
    · rw [← h, parseSequence_runID]
      exact le_max_right _ _
    · exact (t.issued h).trans (le_max_left _ _)

/-- The log files of a directory: for each run id the lines of its file. -/
abbrev LogFiles (X : Type) : Type := AList (fun _ : String => List (RunRecord X))

/-- `loadLatestJSONL`: the last line of a file, decoded; an empty file is an error. -/
def loadLatestJSONL (c : Cloning X) (lines : List (RunRecord X)) : Option (RunRecord X) :=
  lines.getLast?.bind (cloneAgentRun c)

/-- `os.ReadDir` lists a directory by file name. -/
def readDir (files : LogFiles X) : List (Σ _ : String, List (RunRecord X)) :=
  files.entries.insertionSort fun a b => a.1 ++ ".jsonl" ≤ b.1 ++ ".jsonl"

/-- A run read from a file, with the id the file is named after. -/
structure LoadedRun (X : Type) where
  file : String
  record : RunRecord X

/-- The order in which an unstable sort leaves equal elements. -/
abbrev LoadOrder (X : Type) : Type :=
  (l : List (LoadedRun X)) → { l' : List (LoadedRun X) // l'.Perm l }

def readRuns (c : Cloning X) (files : LogFiles X) : Option (List (LoadedRun X)) :=
  (readDir files).mapM fun f => (loadLatestJSONL c f.2).map (LoadedRun.mk f.1)

/-- The loaded runs, those updated last first. -/
def newestLoaded (order : LoadOrder X) (loaded : List (LoadedRun X)) : List (LoadedRun X) :=
  (order loaded).1.insertionSort fun a b => b.record.run.updatedAt ≤ a.record.run.updatedAt

/-- The runs a startup limit keeps, and those whose files it deletes; zero is no limit. -/
def applyStartupLimit (limit : ℕ) (order : LoadOrder X) (loaded : List (LoadedRun X)) :
    List (LoadedRun X) × List (LoadedRun X) :=
  if 0 < limit ∧ limit < loaded.length then
    ((newestLoaded order loaded).take limit, (newestLoaded order loaded).drop limit)
  else (loaded, [])

variable {s' : JSONLRunStore X} {f : Σ _ : String, List (RunRecord X)}

namespace JSONLRunStore

variable (c : Cloning X)

/-- The store over the kept runs. -/
def restored (files : LogFiles X) (kept removed : List (LoadedRun X)) : JSONLRunStore X where
  table := (kept.map LoadedRun.record).foldl RunTable.restore {}
  files := removed.foldl (fun files item => files.erase item.file) files

/-- A file that cannot be read keeps the store from opening. -/
def load (limit : ℕ) (order : LoadOrder X) (files : LogFiles X) : Option (JSONLRunStore X) :=
  (readRuns c files).map fun loaded =>
    restored files (applyStartupLimit limit order loaded).1 (applyStartupLimit limit order loaded).2

/-- What happens to a directory: calls of the store that is open, and restarts of the process. -/
inductive HistoryOp (X : Type)
  | call (op : RunOp X)
  | restart (limit : ℕ) (order : LoadOrder X)

/-- A restart forgets the maps and opens the directory anew. -/
def history (s : JSONLRunStore X) : HistoryOp X → Option (RunAnswer X) × JSONLRunStore X
  | .call op => (some (step c s op).1, (step c s op).2)
  | .restart limit order => (none, (load c limit order s.files).getD s)

/-! ## What a call does to the files -/

variable {c} {s : JSONLRunStore X}

theorem appendJSONL_getLast? (lines : List (RunRecord X)) (r : RunRecord X) :
    (appendJSONL c lines r).getLast? = some r := by
  unfold appendJSONL
  split_ifs
  · rfl
  · exact getLast?_concat

theorem appended_lookup (r : RunRecord X) (id : String) : (s.appended c r).lookup id =
    if id = r.run.id then some (appendJSONL c ((s.files.lookup r.run.id).getD []) r)
    else s.files.lookup id :=
  lookup_insert_if ..

/-- Pruning deletes the files of exactly the runs it forgets. -/
theorem prunedFiles_lookup (before : Time) (id : String) : (s.prunedFiles before).lookup id =
    if ∃ r, s.table.find? id = some r ∧ expired before r.run = true then none
    else s.files.lookup id := by
  have hfold := lookup_eraseAll (fun r : RunRecord X => expired before r.run)
    (fun r => r.run.id) (s.table.byID.entries.map Sigma.snd) s.files id
  refine hfold.trans ?_
  congr 1
  refine propext ⟨?_, ?_⟩
  · rintro ⟨r, hmem, hexp, rfl⟩
    exact ⟨r, mem_records.mp hmem, hexp⟩
  · rintro ⟨r, hfind, hexp⟩
    have hid := id_of_find? hfind
    exact ⟨r, mem_records.mpr (hid ▸ hfind), hexp, hid⟩

/-! ## Files and maps agree -/

/-- Every run of the maps has a number the counter has passed, and a file whose last line is its
    record; there are no other files. -/
structure Logged (c : Cloning X) (s : JSONLRunStore X) : Prop where
  stable : Stable c s.table
  numbered : ∀ id r, s.table.find? id = some r → ∃ n, 0 < n ∧ n ≤ s.table.nextID ∧ id = runID n
  nonempty : ∀ id lines, s.files.lookup id = some lines → lines ≠ []
  latest : ∀ id, (s.files.lookup id).bind getLast? = s.table.find? id

namespace Logged

theorem empty : Logged c ({} : JSONLRunStore X) where
  stable := stable_empty
  numbered := fun _ _ h => by simp [RunTable.find?] at h
  nonempty := fun _ _ h => by simp at h
  latest := fun _ => by simp [RunTable.find?]

/-- A record stored under its id and appended to its file. -/
theorem written (h : Logged c s) {r : RunRecord X} (hr : cloneAgentRun c r = some r)
    (hfiles : s'.files = s.appended c r) (hnext : s.table.nextID ≤ s'.table.nextID)
    (hnumber : ∃ n, 0 < n ∧ n ≤ s'.table.nextID ∧ r.run.id = runID n)
    (hfind : ∀ id, s'.table.find? id = if id = r.run.id then some r else s.table.find? id) :
    Logged c s' where
  stable := RunTable.All.stored h.stable hr hfind
  numbered := by
    intro id r' hr'
    rw [hfind] at hr'
    split_ifs at hr' with hid
    · exact hid ▸ hnumber
    · obtain ⟨n, hpos, hle, hn⟩ := h.numbered id r' hr'
      exact ⟨n, hpos, hle.trans hnext, hn⟩
  nonempty := by
    intro id lines hlines
    rw [hfiles, appended_lookup] at hlines
    split_ifs at hlines with hid
    · rw [← Option.some.inj hlines]
      intro hnil
      have hlast := appendJSONL_getLast? (c := c) ((s.files.lookup r.run.id).getD []) r
      rw [hnil] at hlast
      cases hlast
    · exact h.nonempty id lines hlines
  latest := by
    intro id
    rw [hfiles, appended_lookup, hfind]
    split_ifs with hid
    · exact appendJSONL_getLast? _ r
    · exact h.latest id

/-- Files and records of the same runs are gone. -/
theorem forgotten (h : Logged c s) (gone : String → Prop) [DecidablePred gone]
    (hfiles : ∀ id, s'.files.lookup id = if gone id then none else s.files.lookup id)
    (hfind : ∀ id, s'.table.find? id = if gone id then none else s.table.find? id)
    (hnext : ∀ id r n, s'.table.find? id = some r → id = runID n → n ≤ s'.table.nextID) :
    Logged c s' where
  stable := by
    intro id r hr
    have := hr
    rw [hfind] at this
    split_ifs at this
    exact h.stable id r this
  numbered := by
    intro id r hr
    have hold := hr
    rw [hfind] at hold
    split_ifs at hold
    obtain ⟨n, hpos, -, hn⟩ := h.numbered id r hold
    exact ⟨n, hpos, hnext id r n hr hn, hn⟩
  nonempty := by
    intro id lines hlines
    rw [hfiles] at hlines
    split_ifs at hlines
    exact h.nonempty id lines hlines
  latest := by
    intro id
    rw [hfiles, hfind]
    split_ifs
    · rfl
    · exact h.latest id

theorem pruneRuns (h : Logged c s) (before : Time) : Logged c (s.pruneRuns before).2 := by
  unfold JSONLRunStore.pruneRuns
  split_ifs with hbefore
  · exact h
  · refine h.forgotten (fun id => ∃ r, s.table.find? id = some r ∧
      expired before r.run = true) (prunedFiles_lookup before) (fun id => ?_) ?_
    · simp only [pruneRuns_find? hbefore]
      cases s.table.find? id with
      | none => simp
      | some r => cases hexp : expired before r.run <;> simp [hexp]
    · rintro id r n hr rfl
      exact issued _ (mem_of_find? hr)

theorem step (h : Logged c s) (op : RunOp X) : Logged c (step c s op).2 := by
  rcases step_cases h.stable op with ⟨hcase, -⟩ | ⟨now, sessionID, msg, cfg, rfl⟩ | ⟨before, rfl⟩
  · rcases hcase with heq | ⟨r, old, hold, hr, hfiles, hnext, hfind⟩
    · exact heq.symm ▸ h
    · refine h.written hr hfiles hnext.ge ?_ hfind
      rw [hnext]
      exact h.numbered _ old hold
  · exact h.written (newRun_stable now sessionID msg cfg) rfl (Nat.le_succ _)
      ⟨_, Nat.succ_pos _, le_rfl, rfl⟩ fun id => add_find? rfl id
  · exact h.pruneRuns before

end Logged

/-! ## Opening a store again -/

theorem mapM_eq_filterMap {α β : Type} {g : α → Option β} {xs : List α}
    (h : ∀ x ∈ xs, ∃ y, g x = some y) : xs.mapM g = some (xs.filterMap g) := by
  induction xs with
  | nil => rfl
  | cons x xs ih =>
    obtain ⟨y, hy⟩ := h x mem_cons_self
    have hxs := ih fun x hx => h x (mem_cons_of_mem _ hx)
    simp [hy, hxs]

theorem mem_readDir {files : LogFiles X} : f ∈ readDir files ↔ files.lookup f.1 = some f.2 := by
  rw [readDir, mem_insertionSort]
  exact AList.mem_lookup_iff.symm

/-- Every file can be read, and gives the record in memory. -/
theorem Logged.loadLatestJSONL_eq (h : Logged c s) (hf : f ∈ readDir s.files) :
    ∃ r, loadLatestJSONL c f.2 = some r ∧ s.table.find? f.1 = some r := by
  have hlookup := mem_readDir.mp hf
  have hlatest := h.latest f.1
  rw [hlookup, Option.bind_some] at hlatest
  obtain ⟨r, hr⟩ := Option.isSome_iff_exists.mp
    (getLast?_isSome.mpr (h.nonempty f.1 f.2 hlookup))
  rw [hr] at hlatest
  exact ⟨r, by rw [loadLatestJSONL, hr, Option.bind_some, h.stable f.1 r hlatest.symm],
    hlatest.symm⟩

theorem Logged.exists_readRuns (h : Logged c s) : ∃ loaded, readRuns c s.files = some loaded ∧
    (loaded.map LoadedRun.file).Nodup ∧
    ∀ item, item ∈ loaded ↔ s.table.find? item.file = some item.record := by
  refine ⟨_, mapM_eq_filterMap fun f hf => ?_, ?_, fun item => ?_⟩
  · obtain ⟨r, hr, -⟩ := h.loadLatestJSONL_eq hf
    exact ⟨⟨f.1, r⟩, by rw [hr]; rfl⟩
  · have hnames : ((readDir s.files).filterMap fun f =>
        (loadLatestJSONL c f.2).map (LoadedRun.mk f.1)).map LoadedRun.file =
        (readDir s.files).map Sigma.fst := by
      rw [map_filterMap, ← filterMap_eq_map]
      refine filterMap_congr fun f hf => ?_
      obtain ⟨r, hr, -⟩ := h.loadLatestJSONL_eq hf
      rw [hr]
      rfl
    rw [hnames]
    exact ((perm_insertionSort _ _).map Sigma.fst).nodup_iff.mpr s.files.nodupKeys
  · rw [mem_filterMap]
    constructor
    · rintro ⟨f, hf, hitem⟩
      obtain ⟨r, hr, hfind⟩ := h.loadLatestJSONL_eq hf
      rw [hr, Option.map_some, Option.some.injEq] at hitem
      exact hitem ▸ hfind
    · intro hfind
      have hlatest := h.latest item.file
      rw [hfind, Option.bind_eq_some_iff] at hlatest
      obtain ⟨lines, hlines, hlast⟩ := hlatest
      refine ⟨⟨item.file, lines⟩, mem_readDir.mpr hlines, ?_⟩
      rw [loadLatestJSONL, hlast, Option.bind_some, h.stable _ _ hfind]
      rfl

theorem applyStartupLimit_perm (limit : ℕ) (order : LoadOrder X) (loaded : List (LoadedRun X)) :
    ((applyStartupLimit limit order loaded).1 ++ (applyStartupLimit limit order loaded).2).Perm
      loaded := by
  unfold applyStartupLimit
  split_ifs
  · rw [take_append_drop]
    exact (perm_insertionSort _ _).trans (order loaded).2
  · rw [append_nil]

/-! ### The maps that are rebuilt -/

theorem restore_find? (t : RunTable X) (r : RunRecord X) (id : String) :
    (t.restore r).find? id = if id = r.run.id then some r else t.find? id :=
  lookup_insert_if ..

theorem restoreAll_find? {rs : List (RunRecord X)} (hnodup : (rs.map fun r => r.run.id).Nodup)
    (id : String) (r : RunRecord X) :
    (rs.foldl restore {}).find? id = some r ↔ r ∈ rs ∧ r.run.id = id := by
  induction rs using reverseRecOn with
  | nil => simp [RunTable.find?]
  | append_singleton rs a ih =>
    rw [map_append, nodup_append] at hnodup
    obtain ⟨hrs, -, hother⟩ := hnodup
    rw [foldl_concat, restore_find?, mem_append, mem_singleton]
    split_ifs with hid
    · refine ⟨fun h => ⟨.inr (Option.some.inj h).symm, Option.some.inj h ▸ hid.symm⟩, ?_⟩
      rintro ⟨hr | rfl, heq⟩
      · exact absurd (heq.trans hid)
          (hother _ (mem_map_of_mem hr) _ (mem_singleton_self _))
      · rfl
    · rw [ih hrs]
      refine ⟨fun h => ⟨.inl h.1, h.2⟩, ?_⟩
      rintro ⟨hr | rfl, heq⟩
      · exact ⟨hr, heq⟩
      · exact absurd heq.symm hid

/-- The counter is the number of one of the runs, if there is any. -/
theorem restoreAll_nextID (rs : List (RunRecord X)) :
    (rs.foldl restore {}).nextID = 0 ∨
      ∃ r ∈ rs, (rs.foldl restore {}).nextID = parseSequence r.run.id "run-" := by
  induction rs using reverseRecOn with
  | nil => exact .inl rfl
  | append_singleton rs a ih =>
    rw [foldl_concat]
    rcases max_choice (rs.foldl restore {}).nextID (parseSequence a.run.id "run-") with
      hmax | hmax
    · exact ih.imp hmax.trans fun ⟨r, hr, h⟩ => ⟨r, mem_append_left _ hr, hmax.trans h⟩
    · exact .inr ⟨a, by simp, hmax⟩

/-- The runs a restart keeps. -/
def kept (c : Cloning X) (limit : ℕ) (order : LoadOrder X) (files : LogFiles X) :
    List (LoadedRun X) :=
  (applyStartupLimit limit order ((readRuns c files).getD [])).1

/-- A restart opens the store. It has the records of the kept runs and no others, and the number
    of one of them, or zero, is the counter. -/
theorem Logged.load (h : Logged c s) (limit : ℕ) (order : LoadOrder X) :
    ∃ s', load c limit order s.files = some s' ∧ Logged c s' ∧
      (∀ id r, s'.table.find? id = some r ↔ ⟨id, r⟩ ∈ kept c limit order s.files) ∧
      (∀ id r, s'.table.find? id = some r → s.table.find? id = some r) ∧
      (s'.table.nextID = 0 ∨ ∃ r, s'.table.find? (runID s'.table.nextID) = some r) := by
  obtain ⟨loaded, hloaded, hnodup, hmem⟩ := h.exists_readRuns
  have hperm := applyStartupLimit_perm limit order loaded
  set keep := (applyStartupLimit limit order loaded).1
  set remove := (applyStartupLimit limit order loaded).2
  have hkept : kept c limit order s.files = keep := by rw [kept, hloaded, Option.getD_some]
  have hid : ∀ item ∈ keep ++ remove, item.record.run.id = item.file := fun item hitem =>
    id_of_find? ((hmem item).mp (hperm.mem_iff.mp hitem))
  have hsplit : (keep.map LoadedRun.file ++ remove.map LoadedRun.file).Nodup := by
    rw [← map_append]
    exact (hperm.map _).nodup_iff.mpr hnodup
  obtain ⟨hkeepNodup, -, hdisjoint⟩ := nodup_append.mp hsplit
  have hids : ((keep.map LoadedRun.record).map fun r => r.run.id) = keep.map LoadedRun.file := by
    rw [map_map]
    exact map_congr_left fun item hitem => hid item (mem_append_left _ hitem)
  have hfind : ∀ id r, (restored s.files keep remove).table.find? id = some r ↔
      ⟨id, r⟩ ∈ keep := by
    intro id r
    rw [restored, restoreAll_find? (hids ▸ hkeepNodup), mem_map]
    constructor
    · rintro ⟨⟨item, hitem, rfl⟩, rfl⟩
      rw [hid item (mem_append_left _ hitem)]
      exact hitem
    · intro hitem
      exact ⟨⟨_, hitem, rfl⟩, hid _ (mem_append_left _ hitem)⟩
  have hold : ∀ id r, ⟨id, r⟩ ∈ keep → s.table.find? id = some r := fun id r hitem =>
    (hmem _).mp (hperm.mem_iff.mp (mem_append_left _ hitem))
  refine ⟨restored s.files keep remove, by rw [JSONLRunStore.load, hloaded, Option.map_some],
    ?_, fun id r => by rw [hkept, hfind], fun id r hr => hold id r ((hfind id r).mp hr), ?_⟩
  · refine h.forgotten (fun id => ∃ item ∈ remove, item.file = id) (fun id => ?_)
      (fun id => ?_) ?_
    · simpa [restored, eraseAll] using
        lookup_eraseAll (fun _ => true) LoadedRun.file remove s.files id
    · refine Option.ext fun r => ?_
      rw [hfind]
      split_ifs with hgone
      · obtain ⟨item, hitem, rfl⟩ := hgone
        simp only [iff_false]
        intro hk
        exact hdisjoint _ (mem_map_of_mem hk) _ (mem_map_of_mem hitem) rfl
      · refine ⟨hold id r, fun hr => ?_⟩
        rcases mem_append.mp (hperm.mem_iff.mpr ((hmem ⟨id, r⟩).mpr hr)) with hk | hk
        · exact hk
        · exact absurd ⟨_, hk, rfl⟩ hgone
    · rintro id r n hr rfl
      exact issued _ (mem_of_find? hr)
  · rcases restoreAll_nextID (keep.map LoadedRun.record) with hzero | ⟨r, hr, hnext⟩
    · exact .inl hzero
    · obtain ⟨⟨id, r⟩, hitem, rfl⟩ := mem_map.mp hr
      obtain ⟨n, -, -, rfl⟩ := h.numbered id r (hold id r hitem)
      rw [hid _ (mem_append_left _ hitem), parseSequence_runID] at hnext
      exact .inr ⟨r, (hfind _ r).mpr (by rwa [restored, hnext])⟩

/-- Without a startup limit the new store has the records of the old one. -/
theorem Logged.load_all (h : Logged c s) (order : LoadOrder X) :
    ∃ s', JSONLRunStore.load c 0 order s.files = some s' ∧
      ∀ id, s'.table.find? id = s.table.find? id := by
  obtain ⟨s', hload, -, hkept, -⟩ := h.load 0 order
  obtain ⟨loaded, hloaded, -, hmem⟩ := h.exists_readRuns
  refine ⟨s', hload, fun id => Option.ext fun r => ?_⟩
  rw [hkept, kept, hloaded, Option.getD_some, applyStartupLimit, if_neg (by omega), hmem]

end JSONLRunStore

end Hopclaw.Store
