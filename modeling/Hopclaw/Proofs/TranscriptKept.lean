import Hopclaw.Proofs.TranscriptNumbers

/-! # Transcripts that keep every message

The rows of a session hold every message that was appended before a save as long as a compaction
drops only messages that are stored, and as long as a message that is read back equals the one that
was written. -/

namespace Hopclaw.Store

open List Context Interleaving TranscriptStore

variable {B C M : Type} (lib : MessageCoding B C M) (e : CompactEngine (TranscriptMessage B C M))
  (id : String)

/-! ## The law -/

/-- The columns are read back as the message, as far as the store compares messages. -/
def ReadsAs (columns : MessageColumns) (msg : TranscriptMessage B C M) : Prop :=
  ∃ m, scanMessage lib id columns = .ok m ∧ storedMessagesEqual lib m msg = .ok true

/-- Every message that was saved has its row, in order. -/
def Holds (rows : List TranscriptRow) (msgs : List (TranscriptMessage B C M)) : Prop :=
  List.Forall₂ (fun row msg => ReadsAs lib id row.columns msg) rows msgs

/-- The rows are the messages that were saved, and the session is the rows above its watermark, with
    their numbers. -/
structure Complete (st : TranscriptState B C M) : Prop where
  holds : Holds lib id (st.store.rowsOf id) st.saved
  hot : ∀ session, st.session = some session →
    Holds lib id (hotRows id st.store session) session.messages ∧
      session.loadedMessageSeqs = (hotRows id st.store session).map TranscriptRow.seq

/-- A save succeeds, and the transcript is complete after it. -/
def KeepsTranscript (st : TranscriptState B C M) : TranscriptOp B C M → Prop
  | .save =>
    (operate lib e id st .save).1 = .ok () ∧ Complete lib id (operate lib e id st .save).2
  | _ => True

/-- A message that can be stored, and that the store takes for the same one when it is read back. -/
def ComesBack (msg : TranscriptMessage B C M) : Prop :=
  ∃ columns, messageColumns lib msg = .ok columns ∧ ReadsAs lib id columns msg

/-- Messages come back, and a compaction drops only messages that have a number. -/
def Careful (st : TranscriptState B C M) : TranscriptOp B C M → Prop
  | .append msg => ComesBack lib id msg
  | .compact (.ok _) => ∀ session ∈ st.session,
    e.cut session.messages ≤ session.loadedMessageSeqs.length
  | _ => True

instance (columns : MessageColumns) (msg : TranscriptMessage B C M) :
    Decidable (ReadsAs lib id columns msg) :=
  match h : scanMessage lib id columns with
  | .error _ => .isFalse fun ⟨_, hm, _⟩ => by simp [h] at hm
  | .ok m =>
    decidable_of_iff (storedMessagesEqual lib m msg = .ok true)
      ⟨fun hm => ⟨m, h, hm⟩, fun ⟨_, hm', heq⟩ => Except.ok.inj (h.symm.trans hm') ▸ heq⟩

instance (msg : TranscriptMessage B C M) : Decidable (ComesBack lib id msg) :=
  match h : messageColumns lib msg with
  | .error _ => .isFalse fun ⟨_, hc, _⟩ => by simp [h] at hc
  | .ok columns =>
    decidable_of_iff (ReadsAs lib id columns msg)
      ⟨fun hm => ⟨columns, h, hm⟩, fun ⟨_, hc, hm⟩ => Except.ok.inj (h.symm.trans hc) ▸ hm⟩

instance (st : TranscriptState B C M) :
    (op : TranscriptOp B C M) → Decidable (Careful lib e id st op)
  | .append msg => inferInstanceAs (Decidable (ComesBack lib id msg))
  | .compact (.ok _) => inferInstanceAs (Decidable (∀ session ∈ st.session, _ ≤ _))
  | .compact (.error _) | .load | .save => .isTrue trivial

/-! ## Messages that are equal to the store -/

variable {lib id}

/-- What equals another message equals itself: its slices and its map could be marshalled. -/
theorem storedMessagesEqual_self {a b : TranscriptMessage B C M}
    (h : storedMessagesEqual lib a b = .ok true) : storedMessagesEqual lib a a = .ok true := by
  unfold storedMessagesEqual at h ⊢
  rw [if_neg (by simp [timesEqual])]
  split_ifs at h
  · cases h
  simp only [bind_eq_ok] at h
  obtain ⟨blocks, hblocks, _, -, h⟩ := h
  split_ifs at h
  · cases h
  simp only [bind_eq_ok] at h
  obtain ⟨calls, hcalls, _, -, h⟩ := h
  split_ifs at h
  · cases h
  obtain ⟨metadata, hmetadata, -⟩ := bind_eq_ok.mp h
  simp [hblocks, hcalls, hmetadata, bind, Except.bind]

/-- A message read from a row that holds some message is held by the row as well. -/
theorem ReadsAs.scanned {columns : MessageColumns} {msg m : TranscriptMessage B C M}
    (h : ReadsAs lib id columns msg) (hm : scanMessage lib id columns = .ok m) :
    ReadsAs lib id columns m := by
  obtain ⟨m', hm', hequal⟩ := h
  obtain rfl := Except.ok.inj (hm.symm.trans hm')
  exact ⟨m, hm, storedMessagesEqual_self hequal⟩

/-! ## Rows that hold messages -/

variable {rows : List TranscriptRow} {msgs : List (TranscriptMessage B C M)}

theorem Holds.readFrom (h : Holds lib id rows msgs) : ∃ stored, ReadFrom lib id rows stored := by
  induction h with
  | nil => exact ⟨[], .nil⟩
  | @cons row _ _ _ hreads _ ih =>
    obtain ⟨m, hm, -⟩ := hreads
    obtain ⟨stored, hstored⟩ := ih
    exact ⟨⟨row.seq, m⟩ :: stored, .cons (scanRow_ok.mpr ⟨rfl, hm⟩) hstored⟩

/-- The messages read from rows that hold messages are held by them. -/
theorem Holds.scanned (hholds : Holds lib id rows msgs) {stored : List (StoredMessage B C M)}
    (hread : ReadFrom lib id rows stored) :
    Holds lib id rows (stored.map StoredMessage.message) := by
  induction hread generalizing msgs with
  | nil => exact .nil
  | cons hrow _ ih =>
    cases hholds with
    | cons hreads hrest => exact .cons (hreads.scanned (scanRow_ok.mp hrow).2) (ih hrest)

/-- What is above a mark of a table is held by the end of what the table holds. -/
theorem Holds.above (h : Holds lib id rows msgs) (w : ℕ) :
    ∃ hot, Holds lib id (Hopclaw.above TranscriptRow.seq w rows) hot := by
  induction h with
  | nil => exact ⟨[], .nil⟩
  | @cons row msg _ _ hreads _ ih =>
    obtain ⟨hot, hhot⟩ := ih
    by_cases hw : w < row.seq
    · exact ⟨msg :: hot, by simpa [Hopclaw.above, hw] using .cons hreads hhot⟩
    · exact ⟨hot, by simpa [Hopclaw.above, hw] using hhot⟩

/-- The comparison succeeds where the numbers and the messages are those of the rows. -/
theorem compareMessages_ok {stored : List (StoredMessage B C M)}
    {hot pending : List (TranscriptMessage B C M)} {loaded : List ℕ}
    (hread : ReadFrom lib id rows stored) (hholds : Holds lib id rows hot) :
    ∀ idx, (∀ i, ∀ seq ∈ loaded[idx + i]?, (rows.map TranscriptRow.seq)[i]? = some seq) →
      compareMessages lib id loaded idx stored (hot ++ pending) = .ok () := by
  induction hread generalizing hot with
  | nil =>
    intro idx _
    cases hot ++ pending <;> rfl
  | @cons row st rows stored hrow _ ih =>
    intro idx hloaded
    cases hholds with
    | @cons _ msg _ hot hreads hrest =>
      obtain ⟨hst, hscan⟩ := scanRow_ok.mp hrow
      obtain ⟨m, hm, hequal⟩ := hreads
      obtain rfl := Except.ok.inj (hscan.symm.trans hm)
      have hseq : ¬(loaded[idx]?.any fun seq => decide (st.seq ≠ seq)) = true := by
        rw [Bool.not_eq_true, Option.any_eq_false]
        intro seq hseq
        have := hloaded 0 seq hseq
        simp only [map_cons, List.getElem?_cons_zero, Option.some.injEq] at this
        simp [hst, this]
      have hfirst : compareMessage lib id idx loaded[idx]? st msg = .ok () := by
        rw [compareMessage, if_neg hseq]
        simp [hequal, wrap, bind, Except.bind]
      have hafter := ih hrest (idx + 1) fun i seq hi => by
        have := hloaded (i + 1) seq (by rwa [← Nat.add_assoc, Nat.add_right_comm])
        simpa using this
      simp [compareMessages, hfirst, hafter, bind, Except.bind]

/-- Messages that come back can be inserted. -/
theorem insertMessages_ok (h : ∀ msg ∈ msgs, ComesBack lib id msg) :
    ∀ s : TranscriptStore, ∃ s', insertMessages lib id s msgs = .ok s' := by
  induction msgs with
  | nil => exact fun s => ⟨s, rfl⟩
  | cons msg msgs ih =>
    intro s
    obtain ⟨columns, hcolumns, -⟩ := h msg mem_cons_self
    obtain ⟨s', hs'⟩ := ih (fun m hm => h m (mem_cons_of_mem _ hm)) { s with
      messages := s.messages ++
        [{ sessionID := id, seq := top ((s.rowsOf id).map TranscriptRow.seq) + 1, columns }] }
    refine ⟨s', ?_⟩
    rw [insertMessages, foldlM_cons, bind_eq_ok]
    refine ⟨_, wrap_eq_ok.mpr ?_, hs'⟩
    rw [insertMessage, bind_eq_ok]
    exact ⟨columns, hcolumns, rfl⟩

/-- The rows of messages that come back hold them. -/
theorem Appended.holds {s : TranscriptStore} (h : Appended lib id s msgs rows)
    (hback : ∀ msg ∈ msgs, ComesBack lib id msg) : Holds lib id rows msgs := by
  have hcolumns := h.columns
  clear h
  induction hcolumns with
  | nil => exact .nil
  | @cons row msg rows msgs hrow _ ih =>
    refine .cons ?_ (ih fun m hm => hback m (mem_cons_of_mem _ hm))
    obtain ⟨columns, hcolumns, hreads⟩ := hback msg mem_cons_self
    obtain rfl := Except.ok.inj (hrow.symm.trans hcolumns)
    exact hreads

/-! ## The invariant -/

/-- The rows hold the messages that were saved. A session is the rows above its watermark, and then
    the messages that are not saved, all of which come back. -/
structure Tracked (lib : MessageCoding B C M) (id : String) (st : TranscriptState B C M) :
    Prop where
  numbered : RowsNumbered id st
  holds : Holds lib id (st.store.rowsOf id) st.saved
  comesBack : ∀ msg ∈ st.pending, ComesBack lib id msg
  messages : ∀ session, st.session = some session → ∃ hot, session.messages = hot ++ st.pending ∧
    Holds lib id (hotRows id st.store session) hot

variable {e} {st : TranscriptState B C M}

section

variable (h : Tracked lib id st)
include h

theorem Tracked.load : Tracked lib id (operate lib e id st .load).2 := by
  have hnumbered : RowsNumbered id (operate lib e id st .load).2 := h.numbered.load
  rw [operate] at hnumbered ⊢
  cases hload : st.store.loadExecutionSnapshot lib id with
  | error err => exact h
  | ok session =>
    simp only [hload] at hnumbered
    refine ⟨hnumbered, h.holds, by simp, ?_⟩
    rintro _ ⟨⟩
    obtain ⟨row, stored, -, -, -, hread, hmessages, -⟩ := load_eq_ok h.numbered.increasing hload
    obtain ⟨hot, hhot⟩ := h.holds.above session.executionWatermark
    exact ⟨_, (hmessages.trans (append_nil _).symm), hhot.scanned hread⟩

theorem Tracked.append {msg : TranscriptMessage B C M}
    (hmsg : ComesBack lib id msg) : Tracked lib id (operate lib e id st (.append msg)).2 := by
  have hnumbered : RowsNumbered id (operate lib e id st (.append msg)).2 := h.numbered.append msg
  rw [operate] at hnumbered ⊢
  cases hsession : st.session with
  | none => exact h
  | some session =>
    simp only [hsession] at hnumbered
    obtain ⟨hot, hmessages, hhot⟩ := h.messages session hsession
    refine ⟨hnumbered, h.holds, ?_, ?_⟩
    · intro m hm
      rcases mem_append.mp hm with hm | hm
      · exact h.comesBack m hm
      · rw [mem_singleton.mp hm]
        exact hmsg
    · rintro _ ⟨⟩
      exact ⟨hot, by simp [hmessages], hhot⟩

theorem Tracked.compact {writes : Except Err Unit}
    (hcareful : Careful lib e id st (.compact writes)) :
    Tracked lib id (operate lib e id st (.compact writes)).2 := by
  have hnumbered : RowsNumbered id (operate lib e id st (.compact writes)).2 :=
    h.numbered.compact writes
  rw [operate] at hnumbered ⊢
  cases hsession : st.session with
  | none => exact h
  | some session =>
    simp only [hsession] at hnumbered
    obtain ⟨hot, hmessages, hhot⟩ := h.messages session hsession
    have hnumbers := h.numbered.hot session hsession
    refine ⟨hnumbered, h.holds, h.comesBack, ?_⟩
    rintro _ ⟨⟩
    rcases compact_cases e writes session.toHotSession with hsame | ⟨rfl, hdropped⟩
    · rw [hsame]
      exact ⟨hot, hmessages, hhot⟩
    · rw [hdropped]
      obtain ⟨-, -, hrows⟩ := hnumbers.dropped h.numbered.increasing (e.cut session.messages)
      -- Only messages with a row are dropped.
      have hcut : e.cut session.messages ≤ hot.length := by
        rw [← hhot.length_eq]
        simpa [hnumbers.seqs] using hcareful session hsession
      refine ⟨hot.drop (e.cut session.messages), ?_, ?_⟩
      · simp only [HotSession.dropped_messages]
        rw [hmessages, drop_append_of_le_length (hmessages ▸ hcut)]
      · rw [hrows]
        exact forall₂_drop _ hhot

/-! ### Saving -/

theorem Tracked.save_ok {session : ExecutionSession B C M} (hsession : st.session = some session) :
    ∃ saved, st.store.save lib session = .ok saved := by
  have hnumbers := h.numbered.hot session hsession
  obtain ⟨hot, hmessages, hhot⟩ := h.messages session hsession
  obtain ⟨stored, hread⟩ := hhot.readFrom
  have hlength : stored.length = hot.length := hread.length_eq.symm.trans hhot.length_eq
  have hload : (st.store.updateHeader session).loadStoredMessages lib id
      session.executionWatermark = .ok stored :=
    (loadStoredMessages_ok h.numbered.increasing).mpr hread
  have hshort : ¬session.messages.length < stored.length := by
    rw [hmessages, length_append]
    omega
  have hcompare : compareMessages lib id session.loadedMessageSeqs 0 stored session.messages =
      .ok () := by
    rw [hmessages]
    refine compareMessages_ok hread hhot 0 fun i seq hi => ?_
    rwa [Nat.zero_add, hnumbers.seqs] at hi
  have hdrop : session.messages.drop stored.length = st.pending := by
    rw [hmessages, hlength, drop_left]
  obtain ⟨s', hs'⟩ := insertMessages_ok h.comesBack (st.store.updateHeader session)
  rw [save, hnumbers.id_eq]
  simp only [hload, wrap, loadedPersistedCount_eq hnumbers hread, hshort, take_length,
    hcompare, hdrop, hs', bind, Except.bind, pure]
  exact ⟨_, rfl⟩

theorem Tracked.save : (operate lib e id st .save).1 = .ok () ∧
    Tracked lib id (operate lib e id st .save).2 ∧
    Complete lib id (operate lib e id st .save).2 := by
  cases hsession : st.session with
  | none =>
    have hop : operate lib e id st .save = (.ok (), st) := by simp [operate, hsession]
    rw [hop]
    exact ⟨rfl, h, h.holds, by simp [hsession]⟩
  | some session =>
    have hhot := h.numbered.hot session hsession
    obtain ⟨⟨session', s'⟩, hsave⟩ := h.save_ok hsession
    obtain ⟨rows, hsaved⟩ := save_eq_ok h.numbered.increasing hhot hsave
    have hop : operate lib e id st .save =
        (.ok (), { store := s', session := some session', saved := st.saved ++ st.pending }) := by
      simp [operate, hsession, hsave]
    have hnumbered : RowsNumbered id (operate lib e id st .save).2 := h.numbered.save
    rw [hop] at hnumbered ⊢
    obtain ⟨hot, hmessages, hheld⟩ := h.messages session hsession
    have hdrop : session.messages.drop (hotRows id st.store session).length = st.pending := by
      rw [hmessages, hheld.length_eq, drop_left]
    have hnew : Holds lib id rows st.pending := by
      rw [← hdrop]
      exact hsaved.new.holds (by rw [hdrop]; exact h.comesBack)
    have hall : Holds lib id (s'.rowsOf id) (st.saved ++ st.pending) := by
      rw [hsaved.rowsOf]
      exact rel_append h.holds hnew
    have hmine : Holds lib id (hotRows id s' session') session'.messages := by
      rw [hsaved.hotRows hhot, hsaved.loaded, hmessages]
      exact rel_append hheld hnew
    refine ⟨rfl, ⟨hnumbered, hall, by simp, ?_⟩, hall, ?_⟩
    · rintro _ ⟨⟩
      exact ⟨session'.messages, (append_nil _).symm, hmine⟩
    · rintro _ ⟨⟩
      exact ⟨hmine, (hsaved.hot hhot).seqs⟩

theorem Tracked.step {op : TranscriptOp B C M}
    (hop : Careful lib e id st op) : Tracked lib id (next (operate lib e id) st op) := by
  cases op with
  | load => exact h.load
  | append msg => exact h.append hop
  | compact writes => exact h.compact hop
  | save => exact h.save.2.1

end

/-- A table that holds the messages, numbered in order. -/
structure Kept (lib : MessageCoding B C M) (id : String) (s : TranscriptStore)
    (saved : List (TranscriptMessage B C M)) : Prop where
  increasing : Increasing (seqsOf id s)
  header : ∀ row, s.sessions.find? (fun row => row.id = id) = some row →
    row.executionWatermark ≤ top (seqsOf id s)
  holds : Holds lib id (s.rowsOf id) saved

/-- From a table that holds the messages of a session: while the messages that are appended come
    back, and compactions drop only what is stored, every save keeps the transcript. -/
theorem transcript_kept (lib : MessageCoding B C M) (e : CompactEngine (TranscriptMessage B C M))
    (id : String) (s : TranscriptStore) (saved : List (TranscriptMessage B C M))
    (hkept : Kept lib id s saved) (ops : List (TranscriptOp B C M))
    (hops : Meets (next (operate lib e id)) (Careful lib e id) { store := s, saved := saved } ops) :
    Meets (next (operate lib e id)) (KeepsTranscript lib e id) { store := s, saved := saved }
      ops := by
  have hstart : Tracked lib id { store := s, saved := saved } :=
    ⟨⟨hkept.increasing, hkept.header, by simp⟩, hkept.holds, by simp, by simp⟩
  refine Meets.strengthen (fun st op h hop => h.step hop) ?_ hstart hops
  intro st op h _
  cases op with
  | save => exact ⟨h.save.1, h.save.2.2⟩
  | load => trivial
  | append msg => trivial
  | compact writes => trivial

/-! ### Two sessions -/

/-- Messages without blocks and calls; a nil slice is `null`, an empty one `[]`. -/
def emptyCodec : JSONCodec (Option (List Empty)) where
  marshal
    | none => some "null"
    | some _ => some "[]"
  unmarshal text :=
    if text = "null" then some none else if text = "[]" then some (some []) else none

def plainCoding : MessageCoding Empty Empty Unit where
  blocks := emptyCodec
  calls := emptyCodec
  metadata :=
    { marshal
        | none => some "null"
        | some () => some "\x7b\x7d"
      unmarshal text :=
        if text = "null" then some none else if text = "\x7b\x7d" then some (some ()) else none }
  format _ := "1970-01-01T00:00:00.000000001Z"
  parse text := if text = "1970-01-01T00:00:00.000000001Z" then some 1 else none

/-- An engine that keeps the last message. -/
def keepsOne : CompactEngine (TranscriptMessage Empty Empty Unit) :=
  newCompactEngine { compactKeepLastN := 1, estimateMessages := fun msgs => msgs.length }

def said (content : String) : TranscriptMessage Empty Empty Unit :=
  { role := "user", content, createdAt := 1 }

/-- A session without messages. -/
def freshSession : TranscriptState Empty Empty Unit :=
  { store := { sessions := [{ id := "sess-1" }] }, saved := [] }

def FreshKept (ops : List (TranscriptOp Empty Empty Unit)) : Prop :=
  Meets (next (operate plainCoding keepsOne "sess-1"))
    (KeepsTranscript plainCoding keepsOne "sess-1") freshSession ops

theorem transcript_kept_when_saved_first : FreshKept
    [.load, .append (said "a"), .save, .append (said "b"), .compact (.ok ()), .append (said "c"),
      .save, .compact (.error ⟨"post-compact hook", none⟩), .compact (.ok ()), .save, .load,
      .save] :=
  transcript_kept plainCoding keepsOne "sess-1" freshSession.store []
    ⟨⟨List.Pairwise.nil, fun _ h => absurd h not_mem_nil⟩,
      by simp [freshSession, seqsOf, rowsOf], .nil⟩ _ (by decide +kernel)

/-- A message that is compacted before it is saved is lost; one with an empty list of calls is read
    back without a list, and cannot be saved twice. -/
theorem unsaved_message_compacted_away :
    ¬FreshKept [.load, .append (said "a"), .append (said "b"), .compact (.ok ()), .save] ∧
    ¬FreshKept [.load, .append { said "a" with role := "assistant", toolCalls := some [] }, .save,
        .save] := by
  refine ⟨fun h => ?_, fun h => ?_⟩
  · have hlength := h.2.2.2.2.1.2.holds.length_eq
    exact absurd hlength (by decide +kernel)
  · have hanswer := h.2.2.2.1.1
    exact absurd hanswer (by decide +kernel)

end Hopclaw.Store
