import Hopclaw.Domain.Keyed
import Hopclaw.Proofs.OutboxStores

/-! # Outboxes on disk

The outbox in log files and the one in SQLite are lawful as well: a new process finds the items its
predecessors left. The files of an entry may hold another version of it than the index did, if an
append failed, but always one for the same item. -/

namespace Hopclaw.Governance

open List GoStrings DeliveryEntry Function Keyed InMemoryDeliveryStore

variable {A G S : Type} {lib : RecordLib A G S}

/-! ## Log files -/

variable {e : Entry A G S}

variable {entry next : Entry A G S} {answer : Option (Entry A G S) × Bool}

namespace JSONLDeliveryStore

open InMemoryDeliveryStore

variable {s s' : JSONLDeliveryStore A G S} {files : AList fun _ : String => Entry A G S}
  {book : String → Option (Entry A G S)}

/-- The files are those of the entries. A file may hold another version of its entry. -/
structure FilesOf (lib : RecordLib A G S) (book : String → Option (Entry A G S))
    (files : AList fun _ : String => Entry A G S) : Prop where
  file : ∀ {id r}, files.lookup id = some r → WellFormed lib r ∧ r.id = id
  same : items files.lookup = items book

/-- One more entry with its file, or another version of one. -/
theorem FilesOf.insert (h : FilesOf lib book files) {r : Entry A G S} (hr : WellFormed lib r)
    (hid : e.id = r.id) (hitem : r.item = e.item) :
    FilesOf lib (Function.update book e.id (some e)) (files.insert r.id r) := by
  refine ⟨Maps.forall_insert h.file ⟨hr, rfl⟩, funext fun id => ?_⟩
  have hsame : (files.lookup id).map item = (book id).map item :=
    congrFun h.same id
  rw [items, items, Maps.lookup_insert_if, Function.update_apply, hid]
  split_ifs
  · rw [Option.map_some, Option.map_some, hitem]
  · exact hsame

structure Snapshotted (lib : RecordLib A G S) (s : JSONLDeliveryStore A G S) : Prop where
  index : Indexed lib s.index
  root : FilesOf lib s.index.byID.lookup s.root
  /-- The new directory has files as soon as the old one has. -/
  legacyRoot : s.root.entries = [] → s.legacyRoot.entries = []

theorem entries_insert_ne_nil (files : AList fun _ : String => Entry A G S) (e : Entry A G S) :
    (files.insert e.id e).entries ≠ [] := by
  intro h
  have := AList.lookup_insert (a := e.id) (b := e) files
  rw [AList.lookup, h] at this
  cases this

/-- What an append leaves behind, whether it fails or not. -/
theorem appendSnapshot_cases (s : JSONLDeliveryStore A G S) (e : Entry A G S)
    (faults : AppendFaults) :
    (s.appendSnapshot e faults).2.index = s.index ∧
      ((s.appendSnapshot e faults).2 = s ∧ (∃ err, (s.appendSnapshot e faults).1 = .error err) ∨
        (s.appendSnapshot e faults).2.root = s.root.insert e.id e) := by
  rw [appendSnapshot]
  cases faults.root with
  | some err => exact ⟨rfl, .inl ⟨rfl, err, rfl⟩⟩
  | none => cases faults.legacyRoot <;> exact ⟨rfl, .inr rfl⟩

/-- A version of the entry was appended. -/
theorem Snapshotted.appended (h : Snapshotted lib s) {r : Entry A G S} (hr : WellFormed lib r)
    (hid : e.id = r.id) (hitem : r.item = e.item) (hindex : Indexed lib s'.index)
    (hbook : s'.index.byID.lookup = Function.update s.index.byID.lookup e.id (some e))
    (hroot : s'.root = s.root.insert r.id r) : Snapshotted lib s' where
  index := hindex
  root := by
    rw [hbook, hroot]
    exact h.root.insert hr hid hitem
  legacyRoot hnil := absurd (hroot ▸ hnil) (entries_insert_ne_nil _ _)

theorem Snapshotted.enqueue (h : Snapshotted lib s) {now : Time} {faults : AppendFaults}
    (hok : s.enqueue lib entry now faults = (.ok answer, s')) :
    Snapshotted lib s' ∧ Queued indexKey s.index.byID.lookup s'.index.byID.lookup
      (entry.normalized lib).item answer := by
  simp only [JSONLDeliveryStore.enqueue] at hok
  by_cases hname : (entry.normalized lib).adapterName = ""
  · simp [hname] at hok
  have hwell : WellFormed lib (entry.normalized lib) := .normalized hname
  simp only [if_neg hname, if_neg hwell.outboxKey_ne_empty] at hok
  cases hold : s.index.byOutbox.lookup (entry.normalized lib).outboxKey with
  | some id =>
    obtain ⟨x, hx, hkey⟩ := h.index.index.mp hold
    simp only [hold, Prod.mk.injEq, Except.ok.injEq] at hok
    obtain ⟨rfl, rfl⟩ := hok
    exact ⟨h, .inl ⟨⟨id, x, hx, indexKey_eq_iff.mpr hkey⟩, rfl, rfl⟩⟩
  | none =>
    simp only [hold] at hok
    obtain ⟨hstamped, hid, hitem⟩ := stamped_spec
      (e := { entry.normalized lib with
        id := deliveryID (s.index.nextID + 1), createdAt := now, updatedAt := now })
      hwell rfl rfl now
    set copied := stamped lib { entry.normalized lib with
      id := deliveryID (s.index.nextID + 1), createdAt := now, updatedAt := now } now
    obtain ⟨hput, hnone⟩ := h.index.put_next hstamped hid
      (outboxKey_congr hitem ▸ hold)
    have hlookup := lookup_put { s.index with nextID := s.index.nextID + 1 } copied
    set put := put { s.index with nextID := s.index.nextID + 1 } copied
    obtain ⟨hindex, hfiles⟩ := appendSnapshot_cases { s with index := put } copied faults
    cases happend : appendSnapshot { s with index := put } copied faults with
    | mk result s₁ =>
      simp only [happend] at hok hindex hfiles
      cases result with
      | error err => cases hok
      | ok _ =>
        obtain ⟨rfl, rfl⟩ := hok
        rcases hfiles with ⟨-, _, herr⟩ | hroot
        · cases herr
        · rw [← hindex] at hput hlookup
          exact ⟨h.appended hstamped rfl rfl hput hlookup hroot,
            .inr ⟨copied, hitem, rfl, hnone, hlookup⟩⟩

theorem Snapshotted.update (h : Snapshotted lib s) (he : s.index.byID.lookup e.id = some e)
    (hid : next.id = e.id) (hitem : next.item = e.item) (faults : AppendFaults) :
    Snapshotted lib (s.update lib next faults).2 ∧
      items (s.update lib next faults).2.index.byID.lookup = items s.index.byID.lookup := by
  have hwell := (h.index.filed.entry he).1
  have hnext := hwell.of_item hitem
  have hsame := hwell.normalized_item hitem
  have hnextid := hwell.normalized_id hid
  have hlookup : s.index.byID.lookup (trimSpace next.id) = some e := by
    rw [hid, hwell.trimSpace_id]
    exact he
  obtain ⟨hupdate, hindex⟩ := h.index.update he hid hitem
  have hput := lookup_put s.index (next.normalized lib)
  simp only [JSONLDeliveryStore.update, hlookup, hupdate]
  obtain ⟨happendIndex, hfiles⟩ := appendSnapshot_cases
    { s with index := s.index.put (next.normalized lib) } (next.normalized lib) faults
  cases happend : appendSnapshot { s with index := s.index.put (next.normalized lib) }
      (next.normalized lib) faults with
  | mk result s₁ =>
    obtain ⟨index₁, root₁, legacy₁⟩ := s₁
    simp only [happend] at happendIndex hfiles ⊢
    subst happendIndex
    cases result with
    | ok _ =>
      rcases hfiles with ⟨-, _, herr⟩ | hroot
      · cases herr
      · exact ⟨h.appended hnext rfl rfl hindex hput hroot, h.index.items_update he hid hitem⟩
    | error err =>
      -- the index is taken back to the entry it had
      have hback : Indexed lib ((s.index.put (next.normalized lib)).put e) :=
        hindex.replace (congrFun hput _ |>.trans (update_self ..)) hwell hnextid.symm
          hsame.symm
      have hbook : ((s.index.put (next.normalized lib)).put e).byID.lookup =
          Function.update s.index.byID.lookup e.id (some e) := by
        rw [lookup_put, hput, hnextid, update_idem]
      have hsameBook : Function.update s.index.byID.lookup e.id (some e) = s.index.byID.lookup :=
        update_eq_self_iff.mpr he.symm
      simp only [outboxKey_congr hsame, ne_eq, not_true_eq_false, and_false, hwell.normal]
      refine ⟨?_, congrArg items (hbook.trans hsameBook)⟩
      rcases hfiles with ⟨hunchanged, -⟩ | hroot
      · cases hunchanged
        exact ⟨hback, hbook.trans hsameBook ▸ h.root, h.legacyRoot⟩
      · exact h.appended hnext hnextid.symm hsame hback hbook hroot

/-! ### Reading the files -/

theorem parseDeliverySequence_deliveryID (n : ℕ) : parseDeliverySequence (deliveryID n) = n := by
  have hdigits : trimSpace (String.ofList (zeroPadded 6 n)) = String.ofList (zeroPadded 6 n) := by
    refine trimSpace_eq_self (fun c hc => ?_) fun c hc => ?_
    · rw [String.toList_ofList] at hc
      exact isSpace_of_isDigit (isDigit_of_mem_zeroPadded (mem_of_head? hc))
    · rw [String.toList_ofList] at hc
      exact isSpace_of_isDigit (zeroPadded_last hc)
  rw [parseDeliverySequence, trimSpace_deliveryID, deliveryID, trimPrefix_eq, hdigits,
    String.toList_ofList, takeWhile_eq_self_iff.mpr fun c hc => isDigit_of_mem_zeroPadded hc,
    ofDigitChars_zeroPadded]

/-- Reading files with different names, for entries with different keys, into an index. -/
theorem takeUp_foldl (files : List (Sigma fun _ : String => Entry A G S)) :
    ∀ index : InMemoryDeliveryStore A G S, Indexed lib index →
      (∀ f ∈ files, WellFormed lib f.2 ∧ f.2.id = f.1 ∧ ∃ n, f.1 = deliveryID n) →
      files.Pairwise (fun f f' => f.1 ≠ f'.1 ∧ f.2.outboxKey ≠ f'.2.outboxKey) →
      (∀ f ∈ files, ∀ {id x}, index.byID.lookup id = some x →
        id ≠ f.1 ∧ x.outboxKey ≠ f.2.outboxKey) →
      Indexed lib (files.foldl (fun index f => takeUp index f.2) index) ∧
        ∀ id x, (files.foldl (fun index f => takeUp index f.2) index).byID.lookup id = some x ↔
          index.byID.lookup id = some x ∨ ⟨id, x⟩ ∈ files := by
  induction files with
  | nil => exact fun _ h _ _ _ => ⟨h, by simp⟩
  | cons f files ih =>
    obtain ⟨name, e⟩ := f
    intro index h hfiles hdistinct hfresh
    obtain ⟨hhead, htail⟩ := pairwise_cons.mp hdistinct
    obtain ⟨hwell, hname, n, hid⟩ := hfiles _ mem_cons_self
    obtain rfl : e.id = name := hname
    dsimp only at hwell hid
    have hnone : ∀ x, ¬ index.byID.lookup e.id = some x := fun x hx =>
      (hfresh _ mem_cons_self hx).1 rfl
    have hput := h.put hwell
      (h.filed.put hwell hid (le_max_right _ _) (le_max_left _ _) fun hx hkey =>
        absurd (indexKey_eq_iff.mp hkey) (hfresh _ mem_cons_self hx).2)
      fun x hx => absurd hx (hnone x)
    have htake : takeUp index e =
        put { index with nextID := max index.nextID n } e := by
      rw [takeUp, hid, parseDeliverySequence_deliveryID]
      rfl
    have hlookup : ∀ id x, (takeUp index e).byID.lookup id = some x ↔
        index.byID.lookup id = some x ∨ id = e.id ∧ x = e := by
      intro id x
      rw [htake, show (put _ e).byID.lookup id = _ from
        congrFun (lookup_put { index with nextID := max index.nextID n } e) id,
        Function.update_apply]
      split_ifs with heq
      · rw [heq, eq_comm]
        simp [hnone]
      · simp [heq]
    obtain ⟨hrest, hrestLookup⟩ := ih (takeUp index e) (htake ▸ hput)
      (fun f hf => hfiles f (mem_cons_of_mem _ hf)) htail fun f hf {id x} hx => by
        rcases (hlookup id x).mp hx with hx | ⟨rfl, rfl⟩
        · exact hfresh f (mem_cons_of_mem _ hf) hx
        · exact hhead f hf
    refine ⟨hrest, fun id x => ?_⟩
    rw [foldl_cons, hrestLookup, hlookup, or_assoc]
    simp

/-- The index read from the files of the entries. -/
theorem FilesOf.loadRoot (h : FilesOf lib book files) {n : ℕ} (hbook : Filed lib indexKey n book) :
    Indexed lib (loadRoot lib files) ∧
      (JSONLDeliveryStore.loadRoot lib files).byID.lookup = files.lookup := by
  set sorted := files.entries.insertionSort fun a b => a.1 ≤ b.1
  have hmem : ∀ file, file ∈ sorted ↔ files.lookup file.1 = some file.2 := fun file => by
    rw [mem_insertionSort, ← AList.mem_lookup_iff]
    exact Iff.rfl
  have hfile : ∀ file ∈ sorted, WellFormed lib file.2 ∧ file.2.id = file.1 ∧
      ∃ e, book file.1 = some e ∧ e.item = file.2.item := fun file hf => by
    have hlookup := (hmem file).mp hf
    have hitem := congrFun h.same file.1
    rw [items, hlookup] at hitem
    exact ⟨(h.file hlookup).1, (h.file hlookup).2, Option.map_eq_some_iff.mp hitem.symm⟩
  have hload : JSONLDeliveryStore.loadRoot lib files =
      sorted.foldl (fun index f => takeUp index f.2) {} := by
    rw [JSONLDeliveryStore.loadRoot, foldl_map]
    exact foldl_ext _ _ _ fun _ file hf => by rw [(hfile file hf).1.normal]
  have hnodup : (sorted.map Sigma.fst).Nodup :=
    ((perm_insertionSort _ files.entries).map _).nodup_iff.mpr files.nodupKeys
  have hdistinct : sorted.Pairwise fun f f' =>
      f.1 ≠ f'.1 ∧ outboxKey f.2 ≠ outboxKey f'.2 := by
    refine (pairwise_map.mp hnodup).imp_of_mem fun {f f'} hf hf' hne =>
      ⟨hne, fun hkey => hne ?_⟩
    -- files with the same key are for one entry, so they have one name
    obtain ⟨-, -, e, he, hitem⟩ := hfile f hf
    obtain ⟨-, -, e', he', hitem'⟩ := hfile f' hf'
    exact hbook.keys he he' (by rw [hitem, hitem']; exact indexKey_eq_iff.mpr hkey)
  obtain ⟨hindexed, hlookup⟩ := takeUp_foldl sorted {} Indexed.empty
    (fun file hf => by
      obtain ⟨hwell, hid, e, he, -⟩ := hfile file hf
      obtain ⟨-, -, m, -, hm⟩ := hbook.entry he
      exact ⟨hwell, hid, m, hm⟩) hdistinct (by simp)
  rw [hload]
  refine ⟨hindexed, funext fun id => Option.ext fun x => ?_⟩
  rw [hlookup]
  simp [hmem]

theorem Snapshotted.load (h : Snapshotted lib s) : Snapshotted lib (s.load lib) ∧
    items (s.load lib).index.byID.lookup = items s.index.byID.lookup := by
  set files := if s.root.entries ≠ [] then s.root else s.legacyRoot with hfiles
  -- if the new directory is empty, so is the old one
  have hroot : files.lookup = s.root.lookup := by
    funext id
    rw [hfiles]
    split_ifs with hempty
    · rfl
    · have hnil := not_not.mp hempty
      rw [AList.lookup, AList.lookup, hnil, h.legacyRoot hnil]
  have hfilesOf : FilesOf lib s.index.byID.lookup files :=
    ⟨fun {id r} hr => h.root.file (congrFun hroot id ▸ hr), hroot ▸ h.root.same⟩
  obtain ⟨hload, hlookup⟩ := hfilesOf.loadRoot h.index.filed
  have hbook : (s.load lib).index.byID.lookup = s.root.lookup := hlookup.trans hroot
  exact ⟨⟨hload, ⟨h.root.file, congrArg items hbook.symm⟩, h.legacyRoot⟩,
    (congrArg items hbook).trans h.root.same⟩

theorem Snapshotted.empty : Snapshotted lib ({} : JSONLDeliveryStore A G S) :=
  ⟨Indexed.empty, ⟨by simp, rfl⟩, fun _ => rfl⟩

end JSONLDeliveryStore

/-- The store of log files. -/
def jsonlOutbox (lib : RecordLib A G S) : LawfulOutbox lib (jsonlStore lib) where
  key := indexKey
  Inv := JSONLDeliveryStore.Snapshotted lib
  book s := s.index.byID.lookup
  fresh := ⟨JSONLDeliveryStore.Snapshotted.empty, fun _ => rfl⟩
  list h := h.index.mem_list
  entry h he := (h.index.filed.entry he).2.1
  key_inj h := h.index.filed.keys
  enqueue h _ hok := h.enqueue hok
  get h hget := h.index.get hget
  update _ fault h he hid hitem := h.update he hid hitem fault
  reopen h := h.load

/-! ## SQLite -/

/-- The unique index of the table. -/
def rowKey (item : OutboxItem A G S) : String × String :=
  (item.adapterName, item.idempotencyKey)

namespace SQLiteDeliveryStore

variable {s : SQLiteDeliveryStore A G S}

/-- The row with an id. -/
def row (s : SQLiteDeliveryStore A G S) (id : String) : Option (Entry A G S) :=
  Keyed.get DeliveryEntry.id id s.rows

/-- The rows differ in their ids and are filed. -/
structure Tabled (lib : RecordLib A G S) (s : SQLiteDeliveryStore A G S) : Prop where
  nodup : (s.rows.map DeliveryEntry.id).Nodup
  filed : Filed lib rowKey s.nextID s.row

section

variable (h : Tabled lib s)
include h

theorem Tabled.mem_rows : e ∈ s.rows ↔ s.row e.id = some e :=
  ⟨get_of_mem h.nodup, mem_of_get⟩

theorem Tabled.mem_list : e ∈ s.list lib ↔ s.row e.id = some e := by
  have hnormal : ∀ x ∈ s.rows, x.normalized lib = x := fun x hx =>
    (h.filed.entry (h.mem_rows.mp hx)).1.normal
  rw [SQLiteDeliveryStore.list, mem_map, ← h.mem_rows]
  constructor
  · rintro ⟨x, hx, rfl⟩
    have hrow := (mem_insertionSort _).mp hx
    rwa [hnormal x hrow]
  · exact fun he => ⟨e, (mem_insertionSort _).mpr he, hnormal e he⟩

theorem Tabled.getByOutboxKey (hwell : WellFormed lib entry) :
    (∃ x ∈ s.rows, s.getByOutboxKey lib entry.adapterName entry.idempotencyKey = some x ∧
        rowKey x.item = rowKey entry.item) ∨
      s.getByOutboxKey lib entry.adapterName entry.idempotencyKey = none ∧
        ∀ x ∈ s.rows, rowKey x.item ≠ rowKey entry.item := by
  have hne : deliveryOutboxKey entry.adapterName entry.idempotencyKey ≠ "" :=
    hwell.outboxKey_ne_empty
  rw [SQLiteDeliveryStore.getByOutboxKey, if_neg hne, hwell.trimSpace_adapterName,
    hwell.trimSpace_idempotencyKey]
  cases hfind : s.rows.find? fun row => decide (row.adapterName = entry.adapterName ∧
      row.idempotencyKey = entry.idempotencyKey) with
  | some x =>
    have hx := mem_of_find?_eq_some hfind
    refine .inl ⟨x, hx, ?_, ?_⟩
    · rw [Option.map_some, (h.filed.entry (h.mem_rows.mp hx)).1.normal]
    · have := find?_some hfind
      simpa [rowKey, item] using this
  | none =>
    refine .inr ⟨rfl, fun x hx hkey => ?_⟩
    have := find?_eq_none.mp hfind x hx
    exact this (by simpa [rowKey, item] using hkey)

/-- A row with a new id and a new key. -/
theorem Tabled.insert (hwell : WellFormed lib e)
    (hid : e.id = deliveryID (s.nextID + 1)) (hnew : ∀ x ∈ s.rows, rowKey x.item ≠ rowKey e.item) :
    s.rows.any (conflicts e) = false ∧ s.row e.id = none ∧
      Tabled lib { nextID := s.nextID + 1, rows := s.rows ++ [e] } ∧
      row { nextID := s.nextID + 1, rows := s.rows ++ [e] } =
        Function.update s.row e.id (some e) := by
  have hnone : s.row e.id = none := hid ▸ h.filed.next
  have hother : ∀ x ∈ s.rows, x.id ≠ e.id := fun x hx => by
    simpa using find?_eq_none.mp hnone x hx
  have hrow : row { nextID := s.nextID + 1, rows := s.rows ++ [e] } =
      Function.update s.row e.id (some e) := by
    funext id
    by_cases heq : id = e.id
    · rw [heq, row, Keyed.get, find?_append, show s.rows.find? _ = none from hnone]
      simp
    · rw [update_of_ne heq, row, Keyed.get]
      simp [Ne.symm heq, row, Keyed.get]
  refine ⟨any_eq_false.mpr fun x hx hconflict => ?_, hnone, ⟨nodup_concat h.nodup hother, ?_⟩, hrow⟩
  · simp only [conflicts, decide_eq_true_eq] at hconflict
    rcases hconflict with hsame | ⟨-, -, hname, hkey⟩
    · exact hother x hx hsame.symm
    · exact hnew x hx (by simp [rowKey, item, hname, hkey])
  · rw [hrow]
    exact h.filed.put hwell hid le_rfl (Nat.le_succ _) fun hx hkey =>
      absurd hkey (hnew _ (mem_of_get hx))

theorem Tabled.enqueue {s' : SQLiteDeliveryStore A G S} {now : Time}
    {faults : StatementFaults} (hok : s.enqueue lib entry now faults = (.ok answer, s')) :
    Tabled lib s' ∧ Queued rowKey s.row s'.row (entry.normalized lib).item answer := by
  simp only [SQLiteDeliveryStore.enqueue] at hok
  by_cases hname : (entry.normalized lib).adapterName = ""
  · simp [hname] at hok
  have hwell : WellFormed lib (entry.normalized lib) := .normalized hname
  rw [if_neg hname] at hok
  cases hquery : faults.query with
  | some err => simp [hquery] at hok
  | none =>
    rcases h.getByOutboxKey hwell with ⟨x, hx, hfound, hkey⟩ | ⟨hfound, hnew⟩
    · simp only [hquery, hfound, Prod.mk.injEq, Except.ok.injEq] at hok
      obtain ⟨rfl, rfl⟩ := hok
      exact ⟨h, .inl ⟨⟨_, x, h.mem_rows.mp hx, hkey⟩, rfl, rfl⟩⟩
    · simp only [hquery, hfound] at hok
      cases hwrite : faults.write with
      | some err => simp [hwrite] at hok
      | none =>
        simp only [hwrite] at hok
        set row : Entry A G S := { entry.normalized lib with
          id := deliveryID (s.nextID + 1)
          createdAt := now
          updatedAt := now
          nextAttemptAt :=
            if (entry.normalized lib).nextAttemptAt = 0 ∧ (entry.normalized lib).status = .pending
            then now else (entry.normalized lib).nextAttemptAt } with hrow
        -- only the id and times of a normal entry were changed
        have hnormal : row.normalized lib = row := by
          calc row.normalized lib
              = { (entry.normalized lib).normalized lib with
                  id := trimSpace (deliveryID (s.nextID + 1))
                  createdAt := now
                  updatedAt := now
                  nextAttemptAt := row.nextAttemptAt } := rfl
            _ = row := by rw [hwell.normal, trimSpace_deliveryID]
        obtain ⟨hconflict, hnone, htabled, hbook⟩ :=
          h.insert ⟨hnormal, hwell.adapterName⟩ rfl hnew
        rw [if_neg (by rw [hconflict]; simp)] at hok
        obtain ⟨rfl, rfl⟩ := hok
        exact ⟨htabled, .inr ⟨row, rfl, by rw [hnormal], hnone, hbook⟩⟩

theorem Tabled.get {id : String} (hget : s.get lib id = .ok e) : s.row e.id = some e := by
  rw [SQLiteDeliveryStore.get] at hget
  split at hget
  · cases hget
  · rename_i x hx
    have hrow := h.mem_rows.mp (mem_of_find?_eq_some hx)
    obtain rfl := Except.ok.inj hget
    rwa [(h.filed.entry hrow).1.normal]

theorem Tabled.update (he : s.row e.id = some e) (hid : next.id = e.id)
    (hitem : next.item = e.item) (faults : StatementFaults) :
    Tabled lib (s.update lib next faults).2 ∧
      items (s.update lib next faults).2.row = items s.row := by
  simp only [SQLiteDeliveryStore.update]
  cases faults.write with
  | some err => exact ⟨h, rfl⟩
  | none =>
    have hwell := (h.filed.entry he).1
    have hnextid := hwell.normalized_id hid
    have hsame := hwell.normalized_item hitem
    set replaced : Entry A G S → Entry A G S := fun row =>
      if row.id = (next.normalized lib).id then next.normalized lib else row
    have hids : ∀ x, (replaced x).id = x.id := fun x => by
      by_cases hx : x.id = (next.normalized lib).id <;> simp [replaced, hx]
    have hrow : row { s with rows := s.rows.map replaced } =
        Function.update s.row (next.normalized lib).id (some (next.normalized lib)) := by
      funext id
      rw [Function.update_apply, row, get_map hids]
      split_ifs with heq
      · rw [heq, hnextid, show Keyed.get _ e.id s.rows = some e from he]
        exact congrArg some (if_pos hnextid.symm)
      · cases hx : Keyed.get DeliveryEntry.id id s.rows with
        | none => exact hx.symm
        | some x =>
          rw [row, hx]
          exact congrArg some (if_neg fun hxid => heq ((key_of_get hx).symm.trans hxid))
    rw [hrow]
    refine ⟨⟨?_, hrow ▸ h.filed.replace he (hwell.of_item hitem) hnextid hsame⟩,
      items_update (hnextid.symm ▸ he) hsame⟩
    rw [map_map]
    exact (map_congr_left fun x _ => hids x : s.rows.map (DeliveryEntry.id ∘ replaced) = _) ▸
      h.nodup

end

/-! ### The counter of a new process -/

theorem castInteger_zeroPadded (width n : ℕ) : Store.castInteger (zeroPadded width n) = n := by
  have hdigits : (zeroPadded width n).takeWhile Char.isDigit = zeroPadded width n :=
    takeWhile_eq_self_iff.mpr fun c hc => isDigit_of_mem_zeroPadded hc
  have hnumber := ofDigitChars_zeroPadded width n
  have hdigit : ∀ c ∈ zeroPadded width n, c.isDigit = true := fun c => isDigit_of_mem_zeroPadded
  cases hpadded : zeroPadded width n with
  | nil => simp [zeroPadded] at hpadded
  | cons c cs =>
    rw [hpadded] at hdigits hnumber hdigit
    have hc : c.isDigit = true := hdigit c mem_cons_self
    rw [Store.castInteger, dropWhile_cons_of_neg (by simp [isSpace_of_isDigit hc])]
    split
    · rename_i heq
      rw [(cons.inj heq).1] at hc
      exact absurd hc (by decide)
    · rename_i heq
      rw [(cons.inj heq).1] at hc
      exact absurd hc (by decide)
    · simp only [hdigits, hnumber]

theorem hasPrefix_toLower_append (pre s : String) :
    hasPrefix (toLower (pre ++ s)) (toLower pre) = true := by
  rw [hasPrefix_iff, toLower, toLower, String.toList_ofList, String.toList_ofList,
    String.toList_append, map_append]
  exact prefix_append _ _

theorem drop_length_append (pre s : String) : (pre ++ s).toList.drop pre.length = s.toList := by
  rw [String.toList_append, ← String.length_toList, drop_left]

theorem Tabled.reopen (h : Tabled lib s) : Tabled lib s.reopen := by
  refine ⟨h.nodup, fun {id e} he => ?_, h.filed.keys⟩
  obtain ⟨hwell, rfl, n, -, hid⟩ := h.filed.entry he
  refine ⟨hwell, rfl, n, ?_, hid⟩
  have hlike : hasPrefix (toLower e.id) (toLower "gdel-") = true :=
    hid ▸ hasPrefix_toLower_append _ _
  have hnumber : Store.castInteger (e.id.toList.drop "gdel-".length) = n := by
    rw [hid, deliveryID, drop_length_append, String.toList_ofList, castInteger_zeroPadded]
  simp only [SQLiteDeliveryStore.reopen, Store.recoverMaxID]
  set numbers := (((s.rows.map DeliveryEntry.id).filter fun id =>
    hasPrefix (toLower id) (toLower "gdel-")).map fun id =>
      Store.castInteger (id.toList.drop "gdel-".length)) with hnumbers
  have hmem : (n : ℤ) ∈ numbers := by
    exact mem_map.mpr ⟨e.id, mem_filter.mpr ⟨mem_map_of_mem (mem_of_get he), hlike⟩, hnumber⟩
  cases hmax : numbers.max? with
  | none => exact absurd (max?_eq_none_iff.mp hmax ▸ hmem) not_mem_nil
  | some highest =>
    have hle : (n : ℤ) ≤ highest := (max?_eq_some_iff.mp hmax).2 n hmem
    simp only [Option.getD_some]
    rw [if_neg (by omega), Option.getD_some]
    omega

end SQLiteDeliveryStore

/-- The store in SQLite. -/
def sqliteOutbox (lib : RecordLib A G S) : LawfulOutbox lib (sqliteStore lib) where
  key := rowKey
  Inv := SQLiteDeliveryStore.Tabled lib
  book s := s.row
  fresh := ⟨⟨nodup_nil, ⟨nofun, nofun⟩⟩, fun _ => rfl⟩
  list h := h.mem_list
  entry h he := (h.filed.entry he).2.1
  key_inj h := h.filed.keys
  enqueue h _ hok := h.enqueue hok
  get h hget := h.get hget
  update _ fault h he hid hitem := h.update he hid hitem fault
  reopen h := ⟨h.reopen, rfl⟩

end Hopclaw.Governance
