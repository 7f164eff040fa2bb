import Hopclaw.Interleaving.Machine
import Hopclaw.Store.Transcript

/-! # The numbers of a loaded transcript

A session is loaded, messages are appended to it, it is compacted and saved, in any order. Whatever
is appended or dropped, the numbers a session has are those of the rows above its watermark. -/

namespace Hopclaw.Store

open List Context Interleaving TranscriptRow TranscriptStore

variable {B C M : Type} (lib : MessageCoding B C M) (e : CompactEngine (TranscriptMessage B C M))
  (id : String)

/-! ## The operations -/

inductive TranscriptOp (B C M : Type)
  | load
  | append (msg : TranscriptMessage B C M)
  /-- `writes` is the outcome of what `Compact` writes elsewhere. -/
  | compact (writes : Except Err Unit)
  | save

/-- The database and the session that is loaded from it, with the messages that were saved and those
    that were appended since. -/
structure TranscriptState (B C M : Type) where
  store : TranscriptStore
  session : Option (ExecutionSession B C M) := none
  saved : List (TranscriptMessage B C M)
  pending : List (TranscriptMessage B C M) := []

/-- One operation on a session, under its lock. A load takes a new session, without the messages
    that were not saved. -/
def operate (st : TranscriptState B C M) :
    TranscriptOp B C M → Except Err Unit × TranscriptState B C M
  | .load =>
    match st.store.loadExecutionSnapshot lib id with
    | .error err => (.error err, st)
    | .ok session => (.ok (), { st with session := some session, pending := [] })
  | .append msg =>
    match st.session with
    | none => (.ok (), st)
    | some session =>
      (.ok (),
        { st with
          session := some { session with messages := session.messages ++ [msg] }
          pending := st.pending ++ [msg] })
  | .compact writes =>
    match st.session with
    | none => (.ok (), st)
    | some session =>
      let compacted := e.compact writes session.toHotSession
      (compacted.1,
        { st with session := some { session with toHotSession := compacted.2 } })
  | .save =>
    match st.session with
    | none => (.ok (), st)
    | some session =>
      match st.store.save lib session with
      | .error err => (.error err, st)
      | .ok (session', store) =>
        (.ok (), { store, session := some session', saved := st.saved ++ st.pending })

/-! ## Reading the rows -/

/-- The rows above the watermark of a session. -/
def hotRows (s : TranscriptStore) (session : ExecutionSession B C M) :
    List TranscriptRow :=
  above seq session.executionWatermark (s.rowsOf id)

/-- The numbers of a session's rows. -/
def seqsOf (s : TranscriptStore) : List ℕ :=
  (s.rowsOf id).map seq

variable {lib e id}

variable {s : TranscriptStore}

/-- In a table that is numbered in order, the query need not sort. -/
theorem storedRows_eq (h : Increasing ((s.rowsOf id).map seq)) (w : ℕ) :
    s.storedRows id w = above seq w (s.rowsOf id) := by
  have hfilter : (s.rowsOf id).filter (fun row => w = 0 || w < row.seq) =
      above seq w (s.rowsOf id) := by
    refine filter_congr fun row hrow => ?_
    have hpos : 0 < row.seq := h.pos _ (mem_map_of_mem hrow)
    rw [← Bool.decide_or]
    exact decide_eq_decide.mpr (by omega)
  rw [storedRows, hfilter]
  refine List.Pairwise.insertionSort_eq ?_
  exact ((pairwise_map.mp h.grows).filter _).imp fun hlt => Nat.le_of_lt hlt

variable {row : TranscriptRow}

theorem scanRow_ok {stored : StoredMessage B C M} : scanRow lib id row = .ok stored ↔
      stored.seq = row.seq ∧ scanMessage lib id row.columns = .ok stored.message := by
  unfold scanRow
  cases scanMessage lib id row.columns with
  | error err => simp
  | ok m =>
    obtain ⟨seq, message⟩ := stored
    simp [eq_comm]

/-- The stored messages are those of the rows. -/
def ReadFrom (lib : MessageCoding B C M) (id : String) (rows : List TranscriptRow)
    (stored : List (StoredMessage B C M)) : Prop :=
  List.Forall₂ (fun row st => scanRow lib id row = .ok st) rows stored

variable {stored : List (StoredMessage B C M)}

theorem loadStoredMessages_ok {w : ℕ} (h : Increasing (seqsOf id s)) :
    s.loadStoredMessages lib id w = .ok stored ↔
      ReadFrom lib id (above seq w (s.rowsOf id)) stored := by
  rw [loadStoredMessages, storedRows_eq h, mapM_eq_ok]
  rfl

variable {rows : List TranscriptRow}

theorem seqs_of_readFrom (h : ReadFrom lib id rows stored) :
    stored.map StoredMessage.seq = rows.map seq := by
  induction h with
  | nil => rfl
  | cons hread _ ih => rw [map_cons, map_cons, (scanRow_ok.mp hread).1, ih]

/-! ## Inserting rows -/

/-- The rows are new ones of the session, with the numbers that follow. -/
structure Appended (lib : MessageCoding B C M) (id : String) (s : TranscriptStore)
    (msgs : List (TranscriptMessage B C M)) (rows : List TranscriptRow) : Prop where
  sessionID : ∀ row ∈ rows, row.sessionID = id
  seqs : rows.map seq = range' (top (seqsOf id s) + 1) msgs.length
  columns : List.Forall₂ (fun row msg => messageColumns lib msg = .ok row.columns) rows msgs

variable {msgs : List (TranscriptMessage B C M)}

theorem insertMessages_eq_ok :
    ∀ {s s' : TranscriptStore}, insertMessages lib id s msgs = .ok s' → ∃ rows,
      s' = { s with messages := s.messages ++ rows } ∧ Appended lib id s msgs rows := by
  induction msgs with
  | nil =>
    intro s s' h
    obtain rfl := Except.ok.inj h
    exact ⟨[], by simp, by simp, by simp, .nil⟩
  | cons msg msgs ih =>
    intro s s' h
    rw [insertMessages, foldlM_cons, bind_eq_ok] at h
    obtain ⟨s₁, hs1, hrest⟩ := h
    rw [wrap_eq_ok, insertMessage, bind_eq_ok] at hs1
    obtain ⟨columns, hcolumns, hs1⟩ := hs1
    obtain rfl := Except.ok.inj hs1
    obtain ⟨rows, rfl, hrows⟩ := ih hrest
    let row : TranscriptRow :=
      { sessionID := id, seq := top ((s.rowsOf id).map seq) + 1, columns }
    refine ⟨row :: rows, by simp [row], ?_, ?_, .cons hcolumns hrows.columns⟩
    · simpa [row] using hrows.sessionID
    · have hseqs := hrows.seqs
      rw [map_cons, hseqs, length_cons, range'_succ]
      simp [row, seqsOf, rowsOf]

/-- New rows are the last ones of the session. -/
theorem Appended.rowsOf (h : Appended lib id s msgs rows) (sessions : List SessionHeader) :
    rowsOf { sessions, messages := s.messages ++ rows } id =
      s.rowsOf id ++ rows := by
  simp only [TranscriptStore.rowsOf, filter_append]
  congr 1
  exact filter_eq_self.mpr fun row hrow => decide_eq_true (h.sessionID row hrow)

theorem Appended.lt_seq (h : Appended lib id s msgs rows) (hrow : row ∈ rows) :
    top (seqsOf id s) < row.seq := by
  have hin : row.seq ∈ rows.map seq := mem_map_of_mem hrow
  rw [h.seqs] at hin
  exact (mem_range'_1.mp hin).1

/-! ## The invariant -/

/-- A session that has the rows above its watermark. -/
structure Hot (id : String) (s : TranscriptStore) (session : ExecutionSession B C M) : Prop where
  id_eq : session.id = id
  watermark : session.executionWatermark ≤ top (seqsOf id s)
  seqs : session.loadedMessageSeqs = (hotRows id s session).map seq

structure RowsNumbered (id : String) (st : TranscriptState B C M) : Prop where
  increasing : Increasing (seqsOf id st.store)
  header : ∀ row, st.store.sessions.find? (fun row => row.id = id) = some row →
    row.executionWatermark ≤ top (seqsOf id st.store)
  hot : ∀ session, st.session = some session → Hot id st.store session

variable {s : TranscriptStore} {session : ExecutionSession B C M}

theorem Hot.grows (hs : Increasing (seqsOf id s)) :
    ((hotRows id s session).map seq).Pairwise (· < ·) :=
  hs.grows.sublist ((filter_sublist).map _)

theorem Hot.lt_seq (hrow : row ∈ hotRows id s session) : session.executionWatermark < row.seq :=
  (mem_above.mp hrow).2

/-! ### Loading and compacting -/

theorem load_eq_ok (hs : Increasing (seqsOf id s))
    (h : s.loadExecutionSnapshot lib id = .ok session) : ∃ row stored,
      s.sessions.find? (fun row => row.id = id) = some row ∧
      session.id = id ∧ session.executionWatermark = row.executionWatermark ∧
      ReadFrom lib id (hotRows id s session) stored ∧
      session.messages = stored.map StoredMessage.message ∧
      session.loadedMessageSeqs = stored.map StoredMessage.seq := by
  rw [loadExecutionSnapshot] at h
  cases hfind : s.sessions.find? fun row => row.id = id with
  | none => simp [hfind] at h
  | some row =>
    have hid : row.id = id := by simpa using find?_some hfind
    simp only [hfind, hid, bind_eq_ok] at h
    obtain ⟨stored, hstored, hsession⟩ := h
    obtain rfl := Except.ok.inj hsession
    exact ⟨row, stored, rfl, rfl, rfl, (loadStoredMessages_ok hs).mp hstored, rfl, rfl⟩

variable {st : TranscriptState B C M}

theorem RowsNumbered.load (h : RowsNumbered id st) :
    RowsNumbered id (operate lib e id st .load).2 := by
  rw [operate]
  cases hload : st.store.loadExecutionSnapshot lib id with
  | error err => exact h
  | ok session =>
    refine ⟨h.increasing, h.header, ?_⟩
    rintro _ ⟨⟩
    obtain ⟨row, stored, hrow, hid, hmark, hread, -, hseqs⟩ := load_eq_ok h.increasing hload
    refine ⟨hid, ?_, hseqs.trans (seqs_of_readFrom hread)⟩
    rw [hmark]
    exact h.header row hrow

/-- Above the watermark of a shortened session lie the rows of the messages that stay. -/
theorem Hot.dropped (hs : Increasing (seqsOf id s)) (h : Hot id s session) (cut : ℕ) :
    session.executionWatermark ≤ (session.toHotSession.dropped cut).executionWatermark ∧
      (session.toHotSession.dropped cut).executionWatermark ≤ top (seqsOf id s) ∧
      hotRows id s { session with toHotSession := session.toHotSession.dropped cut } =
        (hotRows id s session).drop cut := by
  set rows := hotRows id s session
  have hnew : (session.toHotSession.dropped cut).executionWatermark =
      ((rows.map seq).take cut).getLastD session.executionWatermark := by
    rw [HotSession.dropped_executionWatermark, h.seqs]
  -- The new watermark is the old one or the number of a row above it.
  have hbetween : session.executionWatermark ≤
        (session.toHotSession.dropped cut).executionWatermark ∧
      (session.toHotSession.dropped cut).executionWatermark ≤ top (seqsOf id s) := by
    rw [hnew]
    rcases eq_nil_or_concat ((rows.map seq).take cut) with hnil | ⟨ns, n, hlast⟩
    · rw [hnil]
      exact ⟨Nat.le_refl _, h.watermark⟩
    · rw [hlast, concat_eq_append, getLastD_concat]
      have hn : n ∈ rows.map seq := mem_of_mem_take (by rw [hlast]; simp)
      obtain ⟨row, hrow, rfl⟩ := mem_map.mp hn
      exact ⟨Nat.le_of_lt (Hot.lt_seq hrow), le_top (mem_map_of_mem (mem_above.mp hrow).1)⟩
  refine ⟨hbetween.1, hbetween.2, ?_⟩
  rw [hotRows, ← above_above hbetween.1, hnew]
  exact above_getLastD_take (Hot.grows hs) (fun row hrow => Hot.lt_seq hrow) cut

theorem Hot.compacted (hs : Increasing (seqsOf id s)) (h : Hot id s session) (cut : ℕ) :
    Hot id s { session with toHotSession := session.toHotSession.dropped cut } := by
  obtain ⟨-, htop, hrows⟩ := h.dropped hs cut
  refine ⟨by simpa using h.id_eq, htop, ?_⟩
  rw [hrows, map_drop, ← h.seqs]
  exact session.toHotSession.dropped_loadedMessageSeqs cut

/-- A compaction leaves a session as it is, or without its first messages. -/
theorem compact_cases (e : CompactEngine (TranscriptMessage B C M)) (writes : Except Err Unit)
    (session : HotSession (TranscriptMessage B C M)) :
    (e.compact writes session).2 = session ∨ writes = .ok () ∧
      (e.compact writes session).2 = session.dropped (e.cut session.messages) := by
  rw [CompactEngine.compact]
  cases hc : e.compaction session with
  | none => exact .inl rfl
  | some c =>
    obtain ⟨cut, -, -, rfl, -, hnext, -⟩ := CompactEngine.compaction_eq_some hc
    cases writes with
    | error err => exact .inl rfl
    | ok _ => exact .inr ⟨rfl, hnext⟩

theorem RowsNumbered.compact (h : RowsNumbered id st) (writes : Except Err Unit) :
    RowsNumbered id (operate lib e id st (.compact writes)).2 := by
  rw [operate]
  cases hsession : st.session with
  | none => exact h
  | some session =>
    refine ⟨h.increasing, h.header, ?_⟩
    rintro _ ⟨⟩
    rcases compact_cases e writes session.toHotSession with hsame | ⟨-, hdropped⟩
    · rw [hsame]
      exact h.hot session hsession
    · rw [hdropped]
      exact (h.hot session hsession).compacted h.increasing _

/-! ### Saving -/

theorem loadedPersistedCount_eq (h : Hot id s session)
    (hread : ReadFrom lib id (hotRows id s session) stored) :
    loadedPersistedCount session stored = .ok stored.length := by
  have hlength : session.loadedMessageSeqs.length = stored.length := by
    rw [h.seqs, length_map, hread.length_eq]
  unfold loadedPersistedCount
  split_ifs with hne hlt
  · omega
  · rw [hlength]
  · rfl

theorem nextLoadedSeqs_eq (hs : Increasing (seqsOf id s)) (h : Hot id s session)
    (hread : ReadFrom lib id (hotRows id s session) stored) :
    nextLoadedSeqs session stored stored.length =
      (hotRows id s session).map seq ++
        range' (top (seqsOf id s) + 1) (session.messages.length - stored.length) := by
  have hseqs : stored.map StoredMessage.seq = (hotRows id s session).map seq :=
    seqs_of_readFrom hread
  have hlast : ((hotRows id s session).map seq).getLastD session.executionWatermark =
      top (seqsOf id s) :=
    getLastD_above hs.grows h.watermark
  simp only [nextLoadedSeqs, hseqs, hlast, take_length]
  split_ifs
  · rw [h.seqs, take_of_length_le]
    rw [length_map, hread.length_eq]
  · rfl

/-- What a save makes of a session whose rows were read, and of the table. -/
structure SavedAs (lib : MessageCoding B C M) (id : String) (s : TranscriptStore)
    (session session' : ExecutionSession B C M) (s' : TranscriptStore) (rows : List TranscriptRow) :
    Prop where
  sessions : s'.sessions = (s.updateHeader session).sessions
  messages : s'.messages = s.messages ++ rows
  new : Appended lib id s (session.messages.drop (hotRows id s session).length) rows
  loaded : session' = { session with
    revision := session.revision + 1
    messageCount := (s.rowsOf id).length + rows.length
    loadedMessageSeqs := (hotRows id s session ++ rows).map seq }

/-- A save appends the messages after those that have a row, and nothing else. -/
theorem save_eq_ok (hs : Increasing (seqsOf id s)) (h : Hot id s session)
    {session' : ExecutionSession B C M} {s' : TranscriptStore}
    (hsave : s.save lib session = .ok (session', s')) :
    ∃ rows, SavedAs lib id s session session' s' rows := by
  rw [save, h.id_eq] at hsave
  simp only [bind_eq_ok, wrap_eq_ok] at hsave
  obtain ⟨stored, hstored, count, hcount, hsave⟩ := hsave
  have hread : ReadFrom lib id (hotRows id s session) stored :=
    (loadStoredMessages_ok hs).mp hstored
  rw [loadedPersistedCount_eq h hread] at hcount
  obtain rfl := Except.ok.inj hcount
  have hlength : stored.length = (hotRows id s session).length := hread.length_eq.symm
  split_ifs at hsave with hshort
  simp only [bind_eq_ok] at hsave
  obtain ⟨-, -, saved, hsaved, hsave⟩ := hsave
  obtain ⟨rows, rfl, hrows⟩ := insertMessages_eq_ok hsaved
  rw [hlength] at hrows
  have hnew : Appended lib id s (session.messages.drop (hotRows id s session).length) rows :=
    ⟨hrows.sessionID, hrows.seqs, hrows.columns⟩
  have hcountNew : session.messages.length - stored.length = rows.length := by
    rw [hnew.columns.length_eq, length_drop, hlength]
  obtain ⟨rfl, rfl⟩ := hsave
  refine ⟨rows, rfl, rfl, hnew, ?_⟩
  rw [nextLoadedSeqs_eq hs h hread, hcountNew, map_append, hnew.seqs,
    ← hnew.columns.length_eq, h.id_eq]

variable {session' : ExecutionSession B C M} {s' : TranscriptStore}
  {rows : List TranscriptRow}

section

variable (h : SavedAs lib id s session session' s' rows)
include h

theorem SavedAs.rowsOf : s'.rowsOf id = s.rowsOf id ++ rows := by
  obtain ⟨sessions, messages⟩ := s'
  obtain rfl : messages = s.messages ++ rows := h.messages
  exact h.new.rowsOf sessions

theorem SavedAs.seqsOf :
    seqsOf id s' = seqsOf id s ++ range' (top (Store.seqsOf id s) + 1) rows.length := by
  rw [Store.seqsOf, h.rowsOf, map_append, h.new.seqs, ← h.new.columns.length_eq]
  rfl

theorem SavedAs.top_le : top (Store.seqsOf id s) ≤ top (Store.seqsOf id s') := by
  rw [h.seqsOf]
  exact top_le_append _ _

end

theorem SavedAs.hotRows (hhot : Hot id s session) (h : SavedAs lib id s session session' s' rows) :
    hotRows id s' session' = Store.hotRows id s session ++ rows := by
  rw [h.loaded]
  simp only [Store.hotRows, h.rowsOf, above_append]
  congr 1
  exact above_eq_self fun row hrow => Nat.lt_of_le_of_lt hhot.watermark (h.new.lt_seq hrow)

theorem SavedAs.header (hhot : Hot id s session) (h : SavedAs lib id s session session' s' rows)
    {row : SessionHeader} (hfind : s'.sessions.find? (fun row => row.id = id) = some row) :
    row.executionWatermark = session.executionWatermark := by
  rw [h.sessions] at hfind
  obtain ⟨old, -, rfl⟩ := mem_map.mp (mem_of_find?_eq_some hfind)
  have hid := find?_some hfind
  split_ifs at hid ⊢ with hold
  · rfl
  · rw [hhot.id_eq] at hold
    simp [hold] at hid

theorem SavedAs.hot (hhot : Hot id s session) (h : SavedAs lib id s session session' s' rows) :
    Hot id s' session' := by
  have hrows := h.hotRows hhot
  have htop := h.top_le
  have hloaded := h.loaded
  refine ⟨?_, ?_, ?_⟩
  · rw [hloaded]
    exact hhot.id_eq
  · rw [hloaded]
    exact Nat.le_trans hhot.watermark htop
  · rw [hrows, hloaded]

/-- What a save does to the state of an operation. -/
theorem operate_save_cases (lib : MessageCoding B C M) (e : CompactEngine (TranscriptMessage B C M))
    (h : RowsNumbered id st) : (operate lib e id st .save).2 = st ∨
      ∃ session session' s' rows, st.session = some session ∧
        SavedAs lib id st.store session session' s' rows ∧
        operate lib e id st .save =
          (.ok (), { store := s', session := some session', saved := st.saved ++ st.pending }) := by
  rw [operate]
  cases hsession : st.session with
  | none => exact .inl rfl
  | some session =>
    cases hsave : st.store.save lib session with
    | error err =>
      simp only [hsave]
      exact .inl trivial
    | ok saved =>
      obtain ⟨session', s'⟩ := saved
      obtain ⟨rows, hrows⟩ := save_eq_ok h.increasing (h.hot session hsession) hsave
      simp only [hsave]
      exact .inr ⟨session, session', s', rows, rfl, hrows, rfl⟩

theorem RowsNumbered.save (h : RowsNumbered id st) :
    RowsNumbered id (operate lib e id st .save).2 := by
  rcases operate_save_cases lib e h with
    hsame | ⟨session, session', s', rows, hsession, hsaved, hop⟩
  · rw [hsame]
    exact h
  · rw [hop]
    have hhot := h.hot session hsession
    refine ⟨?_, ?_, ?_⟩
    · rw [hsaved.seqsOf]
      exact h.increasing.extend _
    · intro row hfind
      rw [hsaved.header hhot hfind]
      exact Nat.le_trans hhot.watermark hsaved.top_le
    · rintro _ ⟨⟩
      exact hsaved.hot hhot

theorem RowsNumbered.append (h : RowsNumbered id st) (msg : TranscriptMessage B C M) :
    RowsNumbered id (operate lib e id st (.append msg)).2 := by
  rw [operate]
  cases hsession : st.session with
  | none => exact h
  | some session =>
    refine ⟨h.increasing, h.header, ?_⟩
    rintro _ ⟨⟩
    obtain ⟨hid, hmark, hseqs⟩ := h.hot session hsession
    exact ⟨hid, hmark, hseqs⟩

theorem RowsNumbered.step (h : RowsNumbered id st) (op : TranscriptOp B C M) :
    RowsNumbered id (next (operate lib e id) st op) ∧
      st.store.rowsOf id <+: (operate lib e id st op).2.store.rowsOf id := by
  cases op with
  | load =>
    refine ⟨h.load, ?_⟩
    rw [operate]
    split <;> exact prefix_rfl
  | append msg =>
    refine ⟨h.append msg, ?_⟩
    rw [operate]
    split <;> exact prefix_rfl
  | compact writes =>
    refine ⟨h.compact writes, ?_⟩
    rw [operate]
    split <;> exact prefix_rfl
  | save =>
    refine ⟨h.save, ?_⟩
    rcases operate_save_cases lib e h with hsame | ⟨session, session', s', rows, -, hsaved, hop⟩
    · rw [hsame]
    · rw [hop, hsaved.rowsOf]
      exact prefix_append _ _

theorem RowsNumbered.after (h : RowsNumbered id st) (ops : List (TranscriptOp B C M)) :
    RowsNumbered id (runAll (next (operate lib e id)) st ops) ∧
      st.store.rowsOf id <+: (runAll (next (operate lib e id)) st ops).store.rowsOf id :=
  runAll_inv _ (I := fun st' => RowsNumbered id st' ∧ st.store.rowsOf id <+: st'.store.rowsOf id)
    (fun _ op h' => ⟨(h'.1.step op).1, h'.2.trans (h'.1.step op).2⟩) ⟨h, prefix_rfl⟩ ops

/-- From a new session on, among rows of other sessions and whatever fails, its rows are numbered in
    order and a loaded session has those above its watermark; later operations only append rows. -/
theorem transcript_rows_append_only (lib : MessageCoding B C M)
    (e : CompactEngine (TranscriptMessage B C M)) (id : String) (others : List SessionHeader)
    (rows : List TranscriptRow) (ops more : List (TranscriptOp B C M)) :
    let st := runAll (next (operate lib e id))
      { store := { sessions := { id } :: others
                   messages := rows.filter fun row => row.sessionID ≠ id }
        saved := [] } ops
    RowsNumbered id st ∧
      st.store.rowsOf id <+: (runAll (next (operate lib e id)) st more).store.rowsOf id := by
  intro st
  have hst : RowsNumbered id st :=
    (RowsNumbered.after ⟨⟨by simp [seqsOf, rowsOf], by simp [seqsOf, rowsOf]⟩, by simp, by simp⟩
      ops).1
  exact ⟨hst, (hst.after more).2⟩

end Hopclaw.Store
