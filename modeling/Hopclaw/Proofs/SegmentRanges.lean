import Hopclaw.Proofs.SegmentOrder
import Hopclaw.Proofs.TranscriptKept

/-! # The ranges of summaries

Segments of level one do not overlap, nor do those of level two, and a segment of level two covers
its children. A compaction writes its segment before the session is known to have moved on, and a
rollup is inserted before its children know it; the law holds in every run in which a compaction
that wrote a segment is completed and saved before the session is loaded again, and in which no
child fails to be given its parent. -/

namespace Hopclaw.Store

open Context GoStrings Interleaving List Option

/-! ## The law -/

def SummarySegment.Apart (a b : SummarySegment) : Prop :=
  a.seqEnd < b.seqStart ∨ b.seqEnd < a.seqStart

structure RangesKept (sid : String) (s : SegmentStore) : Prop where
  level1 : (s.ofLevel sid 1).Pairwise SummarySegment.Apart
  level2 : (s.ofLevel sid 2).Pairwise SummarySegment.Apart
  contains : ∀ r ∈ s.ofLevel sid 2, ∀ g ∈ s.segments, g.parentSegmentID = r.id →
    r.seqStart ≤ g.seqStart ∧ g.seqEnd ≤ r.seqEnd

theorem InOrder.rangesKept {s : SegmentStore} {sid : String} (h : InOrder sid s) :
    RangesKept sid s :=
  ⟨h.level1.imp .inl, h.level2.imp .inl, h.contains⟩

/-! ## The operations -/

variable {B C M : Type} (lib : MessageCoding B C M) (e : CompactEngine (TranscriptMessage B C M))
  (id : String)

inductive SegmentOp (B C M : Type)
  | load
  | append (msg : TranscriptMessage B C M)
  | save
  | compact (call : CompactCall)

structure SegmentState (B C M : Type) where
  transcript : TranscriptState B C M
  segments : SegmentStore

/-- What the compaction of a session writes, if there is something to compact. -/
def compactOutcome (st : SegmentState B C M) (call : CompactCall)
    (session : ExecutionSession B C M) : Except Err Unit × SegmentStore :=
  match e.compaction session.toHotSession with
  | none => (.ok (), st.segments)
  | some c =>
    call.compactWrites lib.formatTime st.transcript.store.sessions session.id c st.segments

def segmentStep (st : SegmentState B C M) : SegmentOp B C M → SegmentState B C M
  | .load => { st with transcript := (operate lib e id st.transcript .load).2 }
  | .append msg => { st with transcript := (operate lib e id st.transcript (.append msg)).2 }
  | .save => { st with transcript := (operate lib e id st.transcript .save).2 }
  | .compact call =>
    match st.transcript.session with
    | none => st
    | some session =>
      let outcome := compactOutcome lib e st call session
      { transcript := (operate lib e id st.transcript (.compact outcome.1)).2
        segments := outcome.2 }

/-- Did the call of `Compact` write a segment? -/
def wroteSegment (st : SegmentState B C M) (call : CompactCall)
    (session : ExecutionSession B C M) : Bool :=
  match e.compaction session.toHotSession with
  | none => false
  | some c =>
    call.stateFault.isNone &&
      match (call.writeCompactSegment st.transcript.store.sessions session.id c st.segments).1 with
      | .ok (some _) => true
      | _ => false

/-- A session is loaded where no segment ends above its stored watermark. The last hook of a
    compaction that wrote a segment succeeds, and every child gets its parent. -/
def Completed (st : SegmentState B C M) : SegmentOp B C M → Prop
  | .load => ∀ row ∈ st.transcript.store.sessions.find? (fun row => row.id = id),
    ∀ g ∈ st.segments.segments, g.sessionID = trimSpace id → g.seqEnd ≤ row.executionWatermark
  | .compact call => (∀ session ∈ st.transcript.session,
      wroteSegment e st call session = true → call.hookFault = none) ∧
    ∀ round child err, call.rollupFault ≠ some (.update round child err)
  | _ => True

instance (call : CompactCall) :
    Decidable (∀ round child err, call.rollupFault ≠ some (.update round child err)) :=
  match h : call.rollupFault with
  | some (.update round child err) => .isFalse fun hno => hno round child err rfl
  | some (.read _ _) => .isTrue (by simp)
  | some (.insert _ _) => .isTrue (by simp)
  | none => .isTrue (by simp)

instance (st : SegmentState B C M) : (op : SegmentOp B C M) → Decidable (Completed e id st op)
  | .load => inferInstanceAs (Decidable (∀ _ ∈ _, ∀ _ ∈ _, _ = _ → _ ≤ _))
  | .compact call => inferInstanceAs (Decidable ((∀ _ ∈ _, _ = true → _ = none) ∧
      ∀ round child err, call.rollupFault ≠ some (.update round child err)))
  | .append _ | .save => .isTrue trivial

variable {lib e id} {s s' : SegmentStore} {sid : String}

/-! ## A compaction -/

section Compact

variable {Msg : Type} (call : CompactCall) (sessions : List SessionHeader) {sessionID : String}

theorem Below.mono {v w : ℕ} (h : Below sid v s) (hvw : v ≤ w) : Below sid w s :=
  fun g hg hsid => Nat.le_trans (h g hg hsid) hvw

variable {call sessions} in
theorem InOrder.ensureActiveEpisode {episodeID : String} (h : InOrder (trimSpace sessionID) s)
    (hensure : call.ensureActiveEpisode sessions sessionID s = .ok (episodeID, s')) :
    InOrder (trimSpace sessionID) s' ∧ s'.segments = s.segments ∧
      s'.activeEpisode sessionID = .ok episodeID ∧ trimSpace episodeID ≠ "" := by
  unfold CompactCall.ensureActiveEpisode at hensure
  split at hensure
  · exact absurd hensure (by simp)
  split at hensure
  · exact absurd hensure (by simp)
  · rename_i activeID hactive
    split_ifs at hensure with hne
    · simp only [Except.ok.injEq, Prod.mk.injEq] at hensure
      obtain ⟨rfl, rfl⟩ := hensure
      exact ⟨h, rfl, hactive, hne⟩
    · exact h.createEpisode hensure

/-- Writing a segment: the order is kept, and the segments end at most where the new one ends. -/
theorem InOrder.writeCompactSegment {c : Compaction Msg} {w w' : ℕ}
    (h : InOrder (trimSpace sessionID) s) (hbelow : Below (trimSpace sessionID) w s) (hle : w ≤ w')
    (hrange : ∀ a b, c.segmentRange = some (a, b) → w < a ∧ b ≤ w') :
    InOrder (trimSpace sessionID) (call.writeCompactSegment sessions sessionID c s).2 ∧
      match (call.writeCompactSegment sessions sessionID c s).1 with
      | .ok (some episodeID) =>
        Below (trimSpace sessionID) w' (call.writeCompactSegment sessions sessionID c s).2 ∧
          (call.writeCompactSegment sessions sessionID c s).2.activeEpisode sessionID =
            .ok episodeID ∧ trimSpace episodeID ≠ ""
      | _ => Below (trimSpace sessionID) w (call.writeCompactSegment sessions sessionID c s).2 := by
  unfold CompactCall.writeCompactSegment
  split_ifs with hempty hblank
  · exact ⟨h, hbelow⟩
  · exact ⟨h, hbelow⟩
  cases hseg : c.segmentRange with
  | none => exact ⟨h, hbelow⟩
  | some range =>
    obtain ⟨a, b⟩ := range
    obtain ⟨hwa, hbw⟩ := hrange a b hseg
    cases hensure : call.ensureActiveEpisode sessions sessionID s with
    | error err => exact ⟨h, hbelow⟩
    | ok result =>
      obtain ⟨episodeID, s₁⟩ := result
      obtain ⟨h1, hsegments, hactive, hne⟩ := h.ensureActiveEpisode hensure
      have hbelow1 : Below (trimSpace sessionID) w s₁ := fun g hg => hbelow g (hsegments ▸ hg)
      simp only
      cases call.insertFault with
      | some err => exact ⟨h1, hbelow1⟩
      | none =>
        cases hinsert : s₁.insertSegment call.segmentRaw call.now
            (call.buildCompactSegment sessionID episodeID a b) with
        | error err => exact ⟨h1, hbelow1⟩
        | ok s₂ =>
          obtain ⟨hab, howned, hid, rfl⟩ := insertSegment_eq_ok hinsert
          have hname := trimSpace_randomID call.segmentRaw
            ⟨'s', "eg".toList, (rfl : "seg".toList = _), by decide⟩
          have hfresh : Fresh s₁ ((call.buildCompactSegment sessionID episodeID a b).normalized
              call.segmentRaw call.now) :=
            ⟨hname, hid, hab, howned, trimSpace_empty⟩
          refine ⟨h1.insert hbelow1 hfresh rfl hwa, ?_, hactive, hne⟩
          intro g hg hsid
          rcases mem_append.mp hg with hg | hg
          · exact Nat.le_trans (hbelow1 g hg hsid) hle
          · rw [mem_singleton.mp hg]
            exact hbw

/-- The writes of a compaction: what ends above the old watermark was written by a compaction that
    succeeds. -/
theorem InOrder.compactWrites (c : Compaction Msg) (formatTime : Time → String) {w w' : ℕ}
    (h : InOrder (trimSpace sessionID) s) (hbelow : Below (trimSpace sessionID) w s) (hle : w ≤ w')
    (hrange : ∀ a b, c.segmentRange = some (a, b) → w < a ∧ b ≤ w')
    (hfault : ∀ round child err, call.rollupFault ≠ some (.update round child err))
    (hhook : ∀ episodeID, call.stateFault = none →
      (call.writeCompactSegment sessions sessionID c s).1 = .ok (some episodeID) →
        call.hookFault = none) :
    InOrder (trimSpace sessionID) (call.compactWrites formatTime sessions sessionID c s).2 ∧
      (Below (trimSpace sessionID) w (call.compactWrites formatTime sessions sessionID c s).2 ∨
        (call.compactWrites formatTime sessions sessionID c s).1 = .ok () ∧
          Below (trimSpace sessionID) w'
            (call.compactWrites formatTime sessions sessionID c s).2) := by
  unfold CompactCall.compactWrites
  cases hstate : call.stateFault with
  | some err => exact ⟨h, .inl hbelow⟩
  | none =>
    obtain ⟨hwritten, hends⟩ := h.writeCompactSegment call sessions hbelow hle hrange
    rcases hwrite : call.writeCompactSegment sessions sessionID c s with ⟨wrote | wrote, s₁⟩
    · simp only [hwrite] at hwritten hends ⊢
      exact ⟨hwritten, .inl hends⟩
    · simp only [hwrite] at hwritten hends ⊢
      cases wrote with
      | none =>
        cases call.hookFault with
        | some err => exact ⟨hwritten, .inl hends⟩
        | none => exact ⟨hwritten, .inl hends⟩
      | some episodeID =>
        obtain ⟨hends, hactive, hne⟩ := hends
        obtain ⟨hrolled, hrolledEnds⟩ :=
          InOrder.maybeGenerateL2 hfault hne s₁.segments.length 0 hwritten hends hactive
        simp only [hhook episodeID hstate (by rw [hwrite])]
        exact ⟨hrolled, .inr ⟨trivial, hrolledEnds⟩⟩

end Compact

/-! ## Runs -/

variable {session : ExecutionSession B C M}

/-- The range of a segment starts above the watermark and ends at the next one. -/
theorem range_of_compaction {s : TranscriptStore} {cut : ℕ} (h : Hot id s session) {a b : ℕ}
    (hrange : compactedDiscardedRange session.loadedMessageSeqs cut
      (min cut session.loadedMessageSeqs.length) = some (a, b)) :
    session.executionWatermark < a ∧ b = (session.toHotSession.dropped cut).executionWatermark := by
  unfold compactedDiscardedRange at hrange
  split_ifs at hrange with hd
  split at hrange
  · rename_i first last hfirst hlast
    simp only [some.injEq, Prod.mk.injEq] at hrange
    obtain ⟨rfl, rfl⟩ := hrange
    constructor
    · have hmem : first ∈ session.loadedMessageSeqs := mem_of_getElem? hfirst
      rw [h.seqs] at hmem
      obtain ⟨row, hrow, rfl⟩ := mem_map.mp hmem
      exact Hot.lt_seq hrow
    · rw [HotSession.dropped_executionWatermark, getLastD_eq_getLast?,
        getLast?_eq_getElem?, length_take, getElem?_take_of_lt (by omega), hlast]
      rfl
  · exact absurd hrange (by simp)

/-- The tables are in order, and no segment ends above the watermark of the session in hand. -/
structure Settling (id : String) (st : SegmentState B C M) : Prop where
  numbered : RowsNumbered id st.transcript
  inOrder : InOrder (trimSpace id) st.segments
  below : ∀ session, st.transcript.session = some session →
    Below (trimSpace id) session.executionWatermark st.segments

variable {st : SegmentState B C M}

theorem Settling.load (h : Settling id st) (hop : Completed e id st .load) :
    Settling id (segmentStep lib e id st .load) := by
  have hnumbered : RowsNumbered id (operate lib e id st.transcript .load).2 := h.numbered.load
  refine ⟨hnumbered, h.inOrder, ?_⟩
  intro session hsession
  simp only [segmentStep, operate] at hsession ⊢
  cases hload : st.transcript.store.loadExecutionSnapshot lib id with
  | error err =>
    simp only [hload] at hsession
    exact h.below session hsession
  | ok loaded =>
    simp only [hload, some.injEq] at hsession
    subst hsession
    obtain ⟨row, stored, hrow, -, hmark, -⟩ := load_eq_ok h.numbered.increasing hload
    rw [hmark]
    exact fun g hg hsid => hop row hrow g hg hsid

theorem Settling.append (h : Settling id st) (msg : TranscriptMessage B C M) :
    Settling id (segmentStep lib e id st (.append msg)) := by
  have hnumbered : RowsNumbered id (operate lib e id st.transcript (.append msg)).2 :=
    h.numbered.append msg
  refine ⟨hnumbered, h.inOrder, ?_⟩
  intro session hsession
  simp only [segmentStep, operate] at hsession ⊢
  cases hold : st.transcript.session with
  | none => simp [hold] at hsession
  | some old =>
    simp only [hold, some.injEq] at hsession
    subst hsession
    exact h.below old hold

theorem Settling.save (h : Settling id st) : Settling id (segmentStep lib e id st .save) := by
  have hnumbered : RowsNumbered id (operate lib e id st.transcript .save).2 := h.numbered.save
  refine ⟨hnumbered, h.inOrder, ?_⟩
  intro session hsession
  simp only [segmentStep] at hsession ⊢
  rcases operate_save_cases lib e h.numbered with
    hsame | ⟨old, session', s', rows, hold, hsaved, hop⟩
  · rw [hsame] at hsession
    exact h.below session hsession
  · simp only [hop, some.injEq] at hsession
    subst hsession
    rw [hsaved.loaded]
    exact h.below old hold

/-- A compaction keeps the tables in order, and below the watermark it leaves. -/
theorem Settling.compactOutcome (lib : MessageCoding B C M) (h : Settling id st)
    {call : CompactCall} (hop : Completed e id st (.compact call))
    (hsession : st.transcript.session = some session) :
    InOrder (trimSpace id) (compactOutcome lib e st call session).2 ∧
      Below (trimSpace id)
        (e.compact (Store.compactOutcome lib e st call session).1
          session.toHotSession).2.executionWatermark
        (Store.compactOutcome lib e st call session).2 := by
  have hhot := h.numbered.hot session hsession
  have hbelow := h.below session hsession
  rw [CompactEngine.compact, Store.compactOutcome]
  cases hc : e.compaction session.toHotSession with
  | none => exact ⟨h.inOrder, hbelow⟩
  | some c =>
    obtain ⟨cut, -, -, -, -, hnext, hsegment⟩ := CompactEngine.compaction_eq_some hc
    obtain ⟨hle, -, -⟩ := hhot.dropped h.numbered.increasing cut
    have hrange : ∀ a b, c.segmentRange = some (a, b) → session.executionWatermark < a ∧
        b ≤ (session.toHotSession.dropped cut).executionWatermark := fun a b hab =>
      (range_of_compaction hhot (hsegment ▸ hab)).imp_right Nat.le_of_eq
    have hhook : ∀ episodeID, call.stateFault = none →
        (call.writeCompactSegment st.transcript.store.sessions id c st.segments).1 =
          .ok (some episodeID) → call.hookFault = none := fun episodeID hstate hwrote =>
      hop.1 session hsession (by simp [wroteSegment, hc, hstate, hhot.id_eq, hwrote])
    obtain ⟨hkept, hends⟩ := h.inOrder.compactWrites call st.transcript.store.sessions c
      lib.formatTime hbelow hle hrange hop.2 hhook
    simp only [hhot.id_eq]
    refine ⟨hkept, ?_⟩
    rcases houtcome : (call.compactWrites lib.formatTime st.transcript.store.sessions id c
      st.segments).1 with err | _
    · rcases hends with hends | ⟨hok, -⟩
      · exact hends
      · rw [houtcome] at hok
        cases hok
    · simp only [hnext]
      rcases hends with hends | ⟨-, hends⟩
      · exact hends.mono hle
      · exact hends

theorem Settling.compact (h : Settling id st) {call : CompactCall}
    (hop : Completed e id st (.compact call)) :
    Settling id (segmentStep lib e id st (.compact call)) := by
  rw [segmentStep]
  cases hsession : st.transcript.session with
  | none => exact h
  | some session =>
    obtain ⟨hkept, hbelow⟩ := h.compactOutcome lib hop hsession
    have hnumbered : RowsNumbered id (operate lib e id st.transcript
        (.compact (Store.compactOutcome lib e st call session).1)).2 :=
      h.numbered.compact _
    refine ⟨hnumbered, hkept, ?_⟩
    intro session' hsession'
    simp only [operate, hsession, some.injEq] at hsession'
    subst hsession'
    exact hbelow

theorem Settling.step (h : Settling id st) {op : SegmentOp B C M}
    (hop : Completed e id st op) : Settling id (segmentStep lib e id st op) := by
  cases op with
  | load => exact h.load hop
  | append msg => exact h.append msg
  | save => exact h.save
  | compact call => exact h.compact hop

/-- From tables that are in order: where every compaction that wrote a segment is completed and
    saved before the session is loaded again, and every child of a rollup gets its parent, the
    ranges are kept after every operation. -/
theorem segment_ranges_kept (lib : MessageCoding B C M)
    (e : CompactEngine (TranscriptMessage B C M)) (id : String) (st : SegmentState B C M)
    (hstart : Settling id st) (ops : List (SegmentOp B C M))
    (hops : Meets (segmentStep lib e id) (Completed e id) st ops) :
    RangesKept (trimSpace id) (runAll (segmentStep lib e id) st ops).segments :=
  (Meets.inv (I := Settling id) (fun _ _ h hop => h.step hop) hstart hops).inOrder.rangesKept

/-! ### Nine compactions -/

instance (a b : SummarySegment) : Decidable (a.Apart b) :=
  inferInstanceAs (Decidable (_ ∨ _))

def freshSegments : SegmentState Empty Empty Unit :=
  { transcript := freshSession, segments := {} }

/-- A compaction with random ids from a number. -/
def numberedCall (i : ℕ) : CompactCall :=
  { summary := "decided", now := 1, segmentRaw := [Fin.ofNat 16 i]
    rollupRaw := fun _ => [Fin.ofNat 16 i] }

/-- Nine turns of a session, each with a message, a save and a compaction. -/
def nineTurns (call : ℕ → CompactCall) : List (SegmentOp Empty Empty Unit) :=
  .load :: .append (said "0") ::
    (List.range 9).flatMap fun i => [.append (said "1"), .save, .compact (call i)]

theorem segment_ranges_kept_in_nine_turns :
    RangesKept "sess-1" (runAll (segmentStep plainCoding keepsOne "sess-1") freshSegments
      (nineTurns numberedCall ++ [.save, .load])).segments := by
  have hstart : Settling "sess-1" freshSegments := by
    refine ⟨⟨⟨List.Pairwise.nil, fun _ h => absurd h List.not_mem_nil⟩, ?_, ?_⟩, ?_, ?_⟩
    · simp [freshSegments, freshSession, seqsOf, TranscriptStore.rowsOf]
    · simp [freshSegments, freshSession]
    · constructor <;> simp [freshSegments, SegmentStore.ofLevel]
    · simp [freshSegments, freshSession]
  have htrim : trimSpace "sess-1" = "sess-1" := by decide +kernel
  have := segment_ranges_kept plainCoding keepsOne "sess-1" freshSegments hstart
    (nineTurns numberedCall ++ [.save, .load]) (by decide +kernel)
  rwa [htrim] at this

/-- A compaction whose last hook fails is made again over the same messages; a rollup whose first
    child is not updated is followed by a second one over the same segments. -/
theorem retried_compaction_overlaps :
    ¬RangesKept "sess-1" (runAll (segmentStep plainCoding keepsOne "sess-1") freshSegments
      [.load, .append (said "a"), .append (said "b"), .save,
        .compact { numberedCall 0 with hookFault := some ⟨"hook", none⟩ },
        .compact (numberedCall 1)]).segments ∧
    ¬RangesKept "sess-1" (runAll (segmentStep plainCoding keepsOne "sess-1") freshSegments
      (nineTurns fun i => { numberedCall i with
        rollupFault := if i = 7 then some (.update 0 0 ⟨"database is locked", none⟩)
          else none })).segments := by
  refine ⟨fun h => ?_, fun h => ?_⟩
  · exact absurd h.level1 (by decide +kernel)
  · exact absurd h.level2 (by decide +kernel)

end Hopclaw.Store
