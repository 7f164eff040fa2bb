import Hopclaw.Domain.Keyed
import Hopclaw.Proofs.TranscriptNumbers
import Hopclaw.Store.Segments

/-! # Segments in order

The tables of episodes and segments as compactions leave them when nothing fails half-way: ranges of
level one and of level two are in order, and no rollup reaches to a segment of the active episode
that has no parent yet. Each of the writes keeps this order; a rollup does so together with the
updates of its children. -/

namespace Hopclaw.Store

open List GoStrings SegmentStore Except Nat

/-! ## Tables -/

/-- The segments of a session with a level. -/
def SegmentStore.ofLevel (s : SegmentStore) (sid : String) (level : ℕ) : List SummarySegment :=
  s.segments.filter fun g => g.sessionID = sid ∧ g.level = level

/-- No segment of the session ends above a number. -/
def Below (sid : String) (w : ℕ) (s : SegmentStore) : Prop :=
  ∀ g ∈ s.segments, g.sessionID = sid → g.seqEnd ≤ w

def SummarySegment.Before (a b : SummarySegment) : Prop :=
  a.seqEnd < b.seqStart

open SummarySegment (Before)

/-- The ranges are in order in the table, and no rollup reaches to a segment of the active episode
    that has no parent. -/
structure InOrder (sid : String) (s : SegmentStore) : Prop where
  episodeIDs : (s.episodes.map Episode.id).Nodup
  episodeNames : ∀ ep ∈ s.episodes, trimSpace ep.id = ep.id ∧ ep.id ≠ ""
  ids : (s.segments.map (·.id)).Nodup
  names : ∀ g ∈ s.segments, trimSpace g.id = g.id ∧ g.id ≠ ""
  ranges : ∀ g ∈ s.segments, g.seqStart ≤ g.seqEnd
  owned : ∀ g ∈ s.segments, ∃ ep ∈ s.episodes, ep.id = g.episodeID ∧ ep.sessionID = g.sessionID
  parents : ∀ g ∈ s.segments, g.parentSegmentID = "" ∨ ∃ r ∈ s.segments, r.id = g.parentSegmentID
  level1 : (s.ofLevel sid 1).Pairwise Before
  level2 : (s.ofLevel sid 2).Pairwise Before
  contains : ∀ r ∈ s.ofLevel sid 2, ∀ g ∈ s.segments, g.parentSegmentID = r.id →
    r.seqStart ≤ g.seqStart ∧ g.seqEnd ≤ r.seqEnd
  ahead : ∀ r ∈ s.ofLevel sid 2, ∀ g ∈ s.ofLevel sid 1, g.parentSegmentID = "" →
    s.activeEpisode sid = .ok g.episodeID → r.Before g

variable {s s' : SegmentStore} {sid : String}

variable {g : SummarySegment}

theorem mem_ofLevel {level : ℕ} :
    g ∈ s.ofLevel sid level ↔ g ∈ s.segments ∧ g.sessionID = sid ∧ g.level = level := by
  simp [ofLevel]

/-- Ids made of digits have no blanks around them. -/
theorem trimSpace_randomID {kind : String} (raw : List (Fin 16))
    (hkind : ∃ c cs, kind.toList = c :: cs ∧ isSpace c = false) :
    trimSpace (randomID kind raw) = randomID kind raw ∧ randomID kind raw ≠ "" := by
  obtain ⟨c, cs, hkind, hc⟩ := hkind
  have hdigit : ∀ d : Fin 16, isSpace (hexDigit d) = false := by decide
  have hlist : (randomID kind raw).toList = c :: (cs ++ '-' :: raw.map hexDigit) := by
    simp [randomID, hkind]
  refine ⟨trimSpace_eq_self (fun c' h => ?_) fun c' h => ?_, fun h => ?_⟩
  · rw [hlist, head?_cons, Option.some.injEq] at h
    rw [← h, hc]
  · rw [hlist, ← cons_append, getLast?_append_of_ne_nil _ (by simp)] at h
    rcases mem_cons.mp (mem_of_getLast? h) with rfl | hmem
    · decide
    · obtain ⟨d, -, rfl⟩ := mem_map.mp hmem
      exact hdigit d
  · simp [h] at hlist

/-! ## Inserting a segment -/

variable {raw : List (Fin 16)}

variable {now : Time} {seg : SummarySegment}

theorem normalizeSummarySegment_eq_ok (h : normalizeSummarySegment raw now seg = .ok g) :
    seg.seqStart ≤ seg.seqEnd ∧ g = seg.normalized raw now := by
  unfold normalizeSummarySegment at h
  split_ifs at h with hsession hepisode hstart hrange hsummary
  exact ⟨Nat.le_of_not_lt hrange, (ok.inj h).symm⟩

theorem insertSegment_eq_ok (h : s.insertSegment raw now seg = .ok s') : seg.seqStart ≤ seg.seqEnd ∧
      (∃ ep ∈ s.episodes, ep.id = trimSpace seg.episodeID ∧
        ep.sessionID = trimSpace seg.sessionID) ∧
      (∀ x ∈ s.segments, x.id ≠ (seg.normalized raw now).id) ∧
      s' = { s with segments := s.segments ++ [seg.normalized raw now] } := by
  unfold insertSegment at h
  cases hg : normalizeSummarySegment raw now seg with
  | error err => simp [hg] at h
  | ok g =>
    obtain ⟨hrange, rfl⟩ := normalizeSummarySegment_eq_ok hg
    simp only [hg] at h
    split_ifs at h with hepisode hid
    refine ⟨hrange, hepisode, fun x hx hxid => hid ⟨x, hx, hxid⟩, ?_⟩
    exact (ok.inj h).symm

theorem ofLevel_concat (g : SummarySegment) (level : ℕ) :
    ofLevel { s with segments := s.segments ++ [g] } sid level =
      if g.sessionID = sid ∧ g.level = level then s.ofLevel sid level ++ [g]
      else s.ofLevel sid level := by
  simp only [ofLevel, filter_append]
  split_ifs with h <;> simp [h]

/-- What is asked of a new segment of any level. -/
structure Fresh (s : SegmentStore) (g : SummarySegment) : Prop where
  name : trimSpace g.id = g.id ∧ g.id ≠ ""
  id : ∀ x ∈ s.segments, x.id ≠ g.id
  range : g.seqStart ≤ g.seqEnd
  owned : ∃ ep ∈ s.episodes, ep.id = g.episodeID ∧ ep.sessionID = g.sessionID
  parent : g.parentSegmentID = ""

/-- A segment behind all others is inserted. -/
theorem InOrder.insert {w : ℕ} (h : InOrder sid s) (hbelow : Below sid w s) (hg : Fresh s g)
    (hlevel : g.level = 1) (hw : w < g.seqStart) :
    InOrder sid { s with segments := s.segments ++ [g] } := by
  have hbefore : ∀ x ∈ s.segments, x.sessionID = sid → x.Before g := fun x hx hsid =>
    lt_of_le_of_lt (hbelow x hx hsid) hw
  have hlevel2 : ofLevel { s with segments := s.segments ++ [g] } sid 2 =
      s.ofLevel sid 2 := by
    rw [ofLevel_concat, if_neg (by simp [hlevel])]
  have hall : ∀ {P : SummarySegment → Prop}, (∀ x ∈ s.segments, P x) → P g →
      ∀ x ∈ s.segments ++ [g], P x := fun hold hnew =>
    forall_mem_append.mpr ⟨hold, forall_mem_singleton.mpr hnew⟩
  refine ⟨h.episodeIDs, h.episodeNames, Keyed.nodup_concat h.ids hg.id, hall h.names hg.name,
    hall h.ranges hg.range, hall h.owned hg.owned, hall (fun x hx => ?_) (.inl hg.parent),
    ?_, ?_, ?_, ?_⟩
  · exact (h.parents x hx).imp_right fun ⟨r, hr, hrid⟩ => ⟨r, mem_append_left _ hr, hrid⟩
  · rw [ofLevel_concat]
    split_ifs
    · refine pairwise_append.mpr ⟨h.level1, pairwise_singleton _ _, ?_⟩
      intro a ha b hb
      rw [mem_singleton.mp hb]
      obtain ⟨hseg, hsid, -⟩ := mem_ofLevel.mp ha
      exact hbefore a hseg hsid
    · exact h.level1
  · rw [hlevel2]
    exact h.level2
  · rw [hlevel2]
    intro r hr
    refine hall (h.contains r hr) fun hparent => ?_
    exact absurd (hparent.symm.trans hg.parent) (h.names r (mem_ofLevel.mp hr).1).2
  · rw [hlevel2]
    intro r hr x hx hparent hactive
    obtain ⟨hseg, hsid, hone⟩ := mem_ofLevel.mp hx
    rcases mem_append.mp hseg with hold | hnew
    · exact h.ahead r hr x (mem_ofLevel.mpr ⟨hold, hsid, hone⟩) hparent hactive
    · rw [mem_singleton.mp hnew]
      obtain ⟨hrseg, hrsid, -⟩ := mem_ofLevel.mp hr
      exact hbefore r hrseg hrsid

/-! ## Creating an episode -/

theorem activeEpisode_trimSpace (sessionID : String) :
    s.activeEpisode (trimSpace sessionID) = s.activeEpisode sessionID := by
  simp only [activeEpisode, trimSpace_trimSpace]

theorem mem_activeEpisodes {ep : Episode} :
    ep ∈ s.activeEpisodes sid ↔ ep ∈ s.episodes ∧ ep.sessionID = sid ∧ ep.active := by
  simp [activeEpisodes]

variable {sessionID episodeID : String}

/-- The id of an active episode is empty only if there is none. -/
theorem activeEpisode_eq_ok (h : s.activeEpisode sessionID = .ok episodeID) :
    trimSpace sessionID ≠ "" ∧
      (s.activeEpisodes (trimSpace sessionID) = [] ∧ episodeID = "" ∨
        ∃ ep rest, s.activeEpisodes (trimSpace sessionID) = ep :: rest ∧ episodeID = ep.id) := by
  unfold activeEpisode at h
  split_ifs at h with hblank
  refine ⟨hblank, ?_⟩
  cases hlist : s.activeEpisodes (trimSpace sessionID) with
  | nil =>
    simp only [hlist, ok.injEq] at h
    exact .inl ⟨rfl, h.symm⟩
  | cons ep rest =>
    simp only [hlist, ok.injEq] at h
    exact .inr ⟨ep, rest, rfl, h.symm⟩

theorem activeEpisode_mem (h : s.activeEpisode sessionID = .ok episodeID)
    (hne : trimSpace episodeID ≠ "") :
    ∃ ep ∈ s.episodes, ep.id = episodeID ∧ ep.sessionID = trimSpace sessionID := by
  obtain ⟨-, ⟨-, rfl⟩ | ⟨ep, rest, hlist, rfl⟩⟩ := activeEpisode_eq_ok h
  · simp at hne
  · have hmem : ep ∈ s.activeEpisodes (trimSpace sessionID) := by
      rw [hlist]
      exact mem_cons_self
    obtain ⟨hep, hsession, -⟩ := mem_activeEpisodes.mp hmem
    exact ⟨ep, hep, rfl, hsession⟩

theorem InOrder.createEpisode {sessions : List SessionHeader} (h : InOrder (trimSpace sessionID) s)
    (hcreate : s.createEpisode sessions raw sessionID = .ok (episodeID, s')) :
    InOrder (trimSpace sessionID) s' ∧ s'.segments = s.segments ∧
      s'.activeEpisode sessionID = .ok episodeID ∧ trimSpace episodeID ≠ "" := by
  rw [SegmentStore.createEpisode, bind_eq_ok] at hcreate
  obtain ⟨activeID, hactive, hcreate⟩ := hcreate
  split_ifs at hcreate with hsession hnone hfresh
  obtain ⟨rfl, rfl⟩ := hcreate
  have hname := trimSpace_randomID raw ⟨'e', ['p'], (rfl : "ep".toList = _), by decide⟩
  have hnew : ∀ ep ∈ s.episodes, ep.id ≠ randomID "ep" raw := fun ep hep hid =>
    hfresh ⟨ep, hep, hid⟩
  -- No episode of the session was active, so the new one is the only one.
  obtain ⟨hblank, ⟨hnil, -⟩ | ⟨ep, rest, hlist, rfl⟩⟩ := activeEpisode_eq_ok hactive
  swap
  · have hmem : ep ∈ s.activeEpisodes (trimSpace sessionID) := by
      rw [hlist]
      exact mem_cons_self
    obtain ⟨htrim, hid⟩ := h.episodeNames ep (mem_activeEpisodes.mp hmem).1
    exact absurd (not_not.mp hnone) (by rwa [htrim])
  have hfilter :
      s.episodes.filter (fun ep => ep.sessionID = trimSpace sessionID ∧ ep.active) = [] :=
    filter_eq_nil_iff.mpr fun ep hep hmine => by
      have hmem := mem_activeEpisodes.mpr ⟨hep, of_decide_eq_true hmine⟩
      rw [hnil] at hmem
      exact absurd hmem not_mem_nil
  have hactive' : ∀ (seqNum : ℕ), activeEpisode { s with episodes := s.episodes ++
      [{ id := randomID "ep" raw, sessionID := trimSpace sessionID, seqNum }] } sessionID =
        .ok (randomID "ep" raw) := by
    intro seqNum
    rw [activeEpisode, if_neg hblank, activeEpisodes, filter_append, hfilter]
    simp
  refine ⟨⟨Keyed.nodup_concat h.episodeIDs hnew, forall_mem_append.mpr
      ⟨h.episodeNames, forall_mem_singleton.mpr hname⟩, h.ids, h.names, h.ranges, ?_,
      h.parents, h.level1, h.level2, h.contains, ?_⟩,
    rfl, hactive' _, by rw [hname.1]; exact hname.2⟩
  · intro g hg
    obtain ⟨ep, hep, hids⟩ := h.owned g hg
    exact ⟨ep, mem_append_left _ hep, hids⟩
  · intro r hr g hg hparent hg'
    -- No segment belongs to the new episode.
    rw [activeEpisode_trimSpace, hactive' _, ok.injEq] at hg'
    obtain ⟨ep, hep, hid, -⟩ := h.owned g (mem_ofLevel.mp hg).1
    exact absurd (hid.trans hg'.symm) (hnew ep hep)

/-! ## Rollups and their children -/

variable {call : CompactCall} {formatTime : Time → String} {r : SummarySegment}
  {l : List SummarySegment} {highlights : List SummarySegment → List String}

/-- A segment, with a parent if its id is one of the given ones. -/
def SummarySegment.adopt (parentID : String) (ids : List String) (g : SummarySegment) :
    SummarySegment :=
  { g with parentSegmentID := if g.id ∈ ids then parentID else g.parentSegmentID }

section Adopt

variable (parentID : String) (ids : List String) (g : SummarySegment)

@[simp] theorem adopt_id : (g.adopt parentID ids).id = g.id := rfl

@[simp] theorem adopt_sessionID : (g.adopt parentID ids).sessionID = g.sessionID := rfl

@[simp] theorem adopt_episodeID : (g.adopt parentID ids).episodeID = g.episodeID := rfl

@[simp] theorem adopt_level : (g.adopt parentID ids).level = g.level := rfl

@[simp] theorem adopt_seqStart : (g.adopt parentID ids).seqStart = g.seqStart := rfl

@[simp] theorem adopt_seqEnd : (g.adopt parentID ids).seqEnd = g.seqEnd := rfl

theorem adopt_nil : g.adopt parentID [] = g := by
  simp [SummarySegment.adopt]

theorem adopt_parentSegmentID : (g.adopt parentID ids).parentSegmentID =
    if g.id ∈ ids then parentID else g.parentSegmentID := rfl

end Adopt

/-- Where no update fails, all children get their parent. -/
theorem reparent_eq {round : ℕ} {parentID : String} (hfault : ∀ i, call.updateFault round i = none)
    (hparent : trimSpace parentID = parentID) {children : List SummarySegment} :
    ∀ {s : SegmentStore} (i : ℕ), (∀ c ∈ children, trimSpace c.id = c.id ∧ c.id ≠ "") →
      (∀ c ∈ children, c.id ∈ s.segments.map (·.id)) →
      call.reparent round parentID i children s = (.ok (), { s with
        segments := s.segments.map
          (SummarySegment.adopt parentID (children.map (·.id))) }) := by
  induction children with
  | nil =>
    intro s i _ _
    simp [CompactCall.reparent, funext (adopt_nil parentID)]
  | cons child children ih =>
    intro s i hnames hpresent
    obtain ⟨htrim, hne⟩ := hnames child mem_cons_self
    obtain ⟨g, hg, hgid⟩ := mem_map.mp (hpresent child mem_cons_self)
    have hupdate : s.updateParentSegmentID child.id parentID = .ok { s with
        segments := s.segments.map (SummarySegment.adopt parentID [child.id]) } := by
      rw [updateParentSegmentID, htrim, if_neg hne, if_neg (not_not.mpr ⟨g, hg, hgid⟩), hparent]
      simp only [ok.injEq, mk.injEq, true_and]
      refine map_congr_left fun a _ => ?_
      by_cases ha : a.id = child.id <;> simp [SummarySegment.adopt, ha]
    rw [CompactCall.reparent, htrim, if_neg hne]
    simp only [hfault, hupdate]
    rw [ih (i + 1) (fun c hc => hnames c (mem_cons_of_mem _ hc)) fun c hc => by
      simpa using hpresent c (mem_cons_of_mem _ hc)]
    simp only [map_map]
    congr 2
    refine map_congr_left fun x _ => ?_
    simp only [Function.comp_apply, SummarySegment.adopt]
    by_cases hx : x.id = child.id <;> by_cases hrest : x.id ∈ children.map (·.id) <;>
      simp [hrest]

/-- A rollup of the first segments without a parent: it starts with the first and ends with the last
    of them. -/
structure RollsUp (s : SegmentStore) (sid episodeID : String) (k : ℕ) (r : SummarySegment) :
    Prop where
  fresh : Fresh s r
  level : r.level = 2
  sessionID : r.sessionID = sid
  first : ∃ c, ((s.unparented episodeID).take k).head? = some c ∧ r.seqStart = c.seqStart
  last : ∃ c, ((s.unparented episodeID).take k).getLast? = some c ∧ r.seqEnd = c.seqEnd

/-- The table with a rollup, once its children have it as their parent. -/
def SegmentStore.rolledUp (s : SegmentStore) (r : SummarySegment) (children : List SummarySegment) :
    SegmentStore :=
  { s with
    segments := (s.segments ++ [r]).map
      (SummarySegment.adopt r.id (children.map (·.id))) }

theorem ofLevel_map_adopt (parentID : String) (ids : List String) (level : ℕ) :
    ofLevel { s with segments := l.map (SummarySegment.adopt parentID ids) } sid
        level =
      (ofLevel { s with segments := l } sid level).map
        (SummarySegment.adopt parentID ids) := by
  simp only [ofLevel, filter_map]
  rfl

theorem pairwise_map_adopt (parentID : String) (ids : List String)
    (h : l.Pairwise Before) :
    (l.map (SummarySegment.adopt parentID ids)).Pairwise Before := by
  rw [pairwise_map]
  exact h.imp fun hab => by simpa [Before] using hab

theorem buildRollupSegment_eq_none {level : ℕ} {source : List SummarySegment}
    (h : buildRollupSegment highlights level raw now source = none) : source = [] := by
  unfold buildRollupSegment at h
  cases hsort : source.insertionSort rollupLE with
  | nil => exact perm_nil.mp (hsort ▸ (perm_insertionSort rollupLE source).symm)
  | cons first rest => simp [hsort, getLast?_cons] at h

/-! ## Segments without a parent -/

variable {k : ℕ}

section Round

variable {sessionID episodeID : String} (h : InOrder (trimSpace sessionID) s)
  (hactive : s.activeEpisode sessionID = .ok episodeID) (hne : trimSpace episodeID ≠ "")

include h hactive hne

/-- The segments of the active episode are those of the session. -/
theorem InOrder.unparented_eq :
    s.unparented episodeID = (s.ofLevel (trimSpace sessionID) 1).filter fun g =>
      g.episodeID = episodeID ∧ g.parentSegmentID = "" := by
  obtain ⟨ep, hep, hid, hsession⟩ := activeEpisode_mem hactive hne
  rw [ofLevel, filter_filter]
  refine filter_congr fun g hg => ?_
  obtain ⟨ep', hep', hid', hsession'⟩ := h.owned g hg
  have hmine : g.episodeID = episodeID → g.sessionID = trimSpace sessionID := by
    intro hepisode
    obtain rfl : ep' = ep := inj_on_of_nodup_map h.episodeIDs hep' hep
      (hid'.trans (hepisode.trans hid.symm))
    exact hsession'.symm.trans hsession
  rw [← Bool.decide_and]
  exact decide_eq_decide.mpr (by tauto)

theorem InOrder.unparented_pairwise : (s.unparented episodeID).Pairwise Before := by
  rw [h.unparented_eq hactive hne]
  exact h.level1.filter _

/-- They are sorted already. -/
theorem InOrder.insertionSort_eq {le : SummarySegment → SummarySegment → Prop} [DecidableRel le]
    (hle : ∀ {a b}, a.seqStart < b.seqStart → le a b) (hsub : l.Sublist (s.unparented episodeID)) :
    l.insertionSort le = l := by
  refine List.Pairwise.insertionSort_eq (List.Pairwise.imp_of_mem ?_
    ((h.unparented_pairwise hactive hne).sublist hsub))
  intro a b ha _ hbefore
  exact hle (lt_of_le_of_lt (h.ranges a (mem_of_mem_filter (hsub.subset ha))) hbefore)

/-- They are found in the order of the table. -/
theorem InOrder.unparentedL1Segments_eq {limit : ℕ} (hlimit : 0 < limit) :
    s.unparentedL1Segments formatTime episodeID limit =
      .ok ((s.unparented episodeID).take limit) := by
  obtain ⟨ep, hep, hid, -⟩ := activeEpisode_mem hactive hne
  have htrim : trimSpace episodeID = episodeID := hid ▸ (h.episodeNames ep hep).1
  rw [unparentedL1Segments, if_neg hne, htrim]
  simp only [hlimit, if_true]
  rw [h.insertionSort_eq hactive hne .inl (List.Sublist.refl _)]

/-- The range of a rollup covers its children. -/
theorem RollsUp.covers {c : SummarySegment} (hr : RollsUp s (trimSpace sessionID) episodeID k r)
    (hc : c ∈ (s.unparented episodeID).take k) : r.seqStart ≤ c.seqStart ∧ c.seqEnd ≤ r.seqEnd := by
  have hpair := (h.unparented_pairwise hactive hne).sublist (take_sublist k _)
  have hranges : ∀ x ∈ (s.unparented episodeID).take k, x.seqStart ≤ x.seqEnd := fun x hx =>
    h.ranges x (mem_of_mem_filter (mem_of_mem_take hx))
  obtain ⟨first, hfirst, hstart⟩ := hr.first
  obtain ⟨last, hlast, hend⟩ := hr.last
  rw [hstart, hend]
  constructor
  · obtain ⟨rest, hrest⟩ := head?_eq_some_iff.mp hfirst
    rw [hrest] at hpair hc hranges
    rcases mem_cons.mp hc with rfl | hc
    · exact le_refl _
    · have hbefore := (pairwise_cons.mp hpair).1 c hc
      have hrange := hranges first mem_cons_self
      exact le_of_lt (lt_of_le_of_lt hrange hbefore)
  · obtain ⟨before, hrest⟩ := getLast?_eq_some_iff.mp hlast
    rw [hrest] at hpair hc hranges
    rcases mem_append.mp hc with hc | hc
    · have hbefore := (pairwise_append.mp hpair).2.2 c hc last (mem_singleton_self _)
      have hrange := hranges last (by simp)
      exact le_of_lt (lt_of_lt_of_le hbefore hrange)
    · rw [mem_singleton.mp hc]

theorem RollsUp.endsBefore (hr : RollsUp s (trimSpace sessionID) episodeID k r)
    (hg : g ∈ s.unparented episodeID) (hout : g ∉ (s.unparented episodeID).take k) :
    r.Before g := by
  obtain ⟨last, hlast, hend⟩ := hr.last
  have hdrop : g ∈ (s.unparented episodeID).drop k := by
    rw [← take_append_drop k (s.unparented episodeID), mem_append] at hg
    exact hg.resolve_left hout
  have hpair := h.unparented_pairwise hactive hne
  rw [← take_append_drop k (s.unparented episodeID)] at hpair
  have hbefore := (pairwise_append.mp hpair).2.2 last (mem_of_getLast? hlast) g hdrop
  rw [Before, hend]
  exact hbefore

theorem InOrder.rollup (hr : RollsUp s (trimSpace sessionID) episodeID k r) :
    InOrder (trimSpace sessionID) (s.rolledUp r ((s.unparented episodeID).take k)) := by
  set children := (s.unparented episodeID).take k with hchildren
  set ids := children.map (·.id) with hids
  have hsub : ∀ c ∈ children, c ∈ s.segments := fun c hc =>
    mem_of_mem_filter (mem_of_mem_take hc)
  have hrid : r.id ∉ ids := by
    intro hmem
    obtain ⟨c, hc, hcid⟩ := mem_map.mp hmem
    exact hr.fresh.id c (hsub c hc) hcid
  -- Ids are unique, so the children are the segments with their ids.
  have hchild : ∀ g ∈ s.segments, g.id ∈ ids → g ∈ children := by
    intro g hg hmem
    obtain ⟨c, hc, hcid⟩ := mem_map.mp hmem
    rwa [← inj_on_of_nodup_map h.ids (hsub c hc) hg hcid]
  have hparent : ∀ g ∈ s.segments ++ [r], (g.adopt r.id ids).parentSegmentID = r.id →
      g ∈ children := by
    intro g hg hp
    rw [adopt_parentSegmentID] at hp
    rcases mem_append.mp hg with hg | hg
    · split_ifs at hp with hmem
      · exact hchild g hg hmem
      · rcases h.parents g hg with hnone | ⟨x, hx, hxid⟩
        · exact absurd (hp.symm.trans hnone) hr.fresh.name.2
        · exact absurd (hxid.trans hp) (hr.fresh.id x hx)
    · rw [mem_singleton.mp hg] at hp
      rw [if_neg hrid, hr.fresh.parent] at hp
      exact absurd hp.symm hr.fresh.name.2
  have hlevel1 : ofLevel { s with segments := s.segments ++ [r] }
      (trimSpace sessionID) 1 = s.ofLevel (trimSpace sessionID) 1 := by
    rw [ofLevel_concat, if_neg (by simp [hr.level])]
  have hlevel2 : ofLevel { s with segments := s.segments ++ [r] }
      (trimSpace sessionID) 2 = s.ofLevel (trimSpace sessionID) 2 ++ [r] := by
    rw [ofLevel_concat, if_pos ⟨hr.sessionID, hr.level⟩]
  have hactive' : (s.rolledUp r children).activeEpisode (trimSpace sessionID) = .ok episodeID := by
    rw [activeEpisode_trimSpace]
    exact hactive
  have hall : ∀ {P : SummarySegment → Prop}, (∀ g ∈ s.segments, P (g.adopt r.id ids)) →
      P (r.adopt r.id ids) → ∀ g ∈ (s.rolledUp r children).segments, P g := fun hold hnew =>
    forall_mem_map.mpr
      (forall_mem_append.mpr ⟨hold, forall_mem_singleton.mpr hnew⟩)
  have hmem2 : ∀ x ∈ (s.rolledUp r children).ofLevel (trimSpace sessionID) 2,
      (∃ q ∈ s.ofLevel (trimSpace sessionID) 2, x = q.adopt r.id ids) ∨ x = r.adopt r.id ids := by
    intro x hx
    rw [rolledUp, ofLevel_map_adopt, hlevel2] at hx
    obtain ⟨q, hq, rfl⟩ := mem_map.mp hx
    rcases mem_append.mp hq with hq | hq
    · exact .inl ⟨q, hq, rfl⟩
    · exact .inr (by rw [mem_singleton.mp hq])
  refine ⟨h.episodeIDs, h.episodeNames, ?_, ?_, ?_, ?_, ?_, ?_, ?_, ?_, ?_⟩
  · have hmap : (s.rolledUp r children).segments.map (·.id) =
        (s.segments ++ [r]).map (·.id) := by
      simp [rolledUp]
    rw [hmap]
    exact Keyed.nodup_concat h.ids hr.fresh.id
  · exact hall (fun g hg => by simpa using h.names g hg) (by simpa using hr.fresh.name)
  · exact hall (fun g hg => by simpa using h.ranges g hg) (by simpa using hr.fresh.range)
  · exact hall (fun g hg => by simpa [rolledUp] using h.owned g hg)
      (by simpa [rolledUp] using hr.fresh.owned)
  · have hkept : ∀ x ∈ s.segments ++ [r], x.adopt r.id ids ∈ (s.rolledUp r children).segments :=
      fun x hx => mem_map_of_mem hx
    refine hall (fun g hg => ?_) ?_
    · rw [adopt_parentSegmentID]
      split_ifs
      · exact .inr ⟨_, hkept r (by simp), by simp⟩
      · exact (h.parents g hg).imp_right fun ⟨x, hx, hxid⟩ =>
          ⟨_, hkept x (mem_append_left _ hx), by simpa using hxid⟩
    · rw [adopt_parentSegmentID, if_neg hrid]
      exact .inl hr.fresh.parent
  · rw [rolledUp, ofLevel_map_adopt, hlevel1]
    exact pairwise_map_adopt _ _ h.level1
  · rw [rolledUp, ofLevel_map_adopt, hlevel2]
    refine pairwise_map_adopt _ _ (pairwise_append.mpr
      ⟨h.level2, pairwise_singleton _ _, ?_⟩)
    intro q hq x hx
    rw [mem_singleton.mp hx]
    obtain ⟨first, hfirst, hstart⟩ := hr.first
    have hmem : first ∈ s.unparented episodeID :=
      mem_of_mem_take (mem_of_head? hfirst)
    rw [h.unparented_eq hactive hne, mem_filter, decide_eq_true_eq] at hmem
    obtain ⟨hone, hepisode, hnone⟩ := hmem
    have hahead := h.ahead q hq first hone hnone (by
      rw [activeEpisode_trimSpace, hactive, hepisode])
    rw [Before, hstart]
    exact hahead
  · intro x hx y hy hpar
    obtain ⟨g, hg, rfl⟩ := mem_map.mp hy
    rcases hmem2 x hx with ⟨q, hq, rfl⟩ | rfl
    · -- An older rollup keeps its children.
      rw [adopt_parentSegmentID] at hpar
      have hqseg := (mem_ofLevel.mp hq).1
      rcases mem_append.mp hg with hg | hg
      · split_ifs at hpar
        · exact absurd hpar.symm (hr.fresh.id q hqseg)
        · simpa using h.contains q hq g hg hpar
      · rw [mem_singleton.mp hg, if_neg hrid, hr.fresh.parent] at hpar
        exact absurd hpar.symm (h.names q hqseg).2
    · simpa using hr.covers h hactive hne (hparent g hg hpar)
  · intro x hx y hy hpar hepisode
    rw [rolledUp, ofLevel_map_adopt, hlevel1] at hy
    obtain ⟨g, hg, rfl⟩ := mem_map.mp hy
    rw [hactive', adopt_episodeID, ok.injEq] at hepisode
    rw [adopt_parentSegmentID] at hpar
    split_ifs at hpar with hmem
    · exact absurd hpar hr.fresh.name.2
    have hun : g ∈ s.unparented episodeID := by
      rw [h.unparented_eq hactive hne, mem_filter, decide_eq_true_eq]
      exact ⟨hg, hepisode.symm, hpar⟩
    rcases hmem2 x hx with ⟨q, hq, rfl⟩ | rfl
    · have hahead := h.ahead q hq g hg hpar (by rw [activeEpisode_trimSpace, hactive, hepisode])
      simpa [Before] using hahead
    · have hout : g ∉ children := fun hc => hmem (mem_map_of_mem hc)
      simpa [Before] using hr.endsBefore h hactive hne hun hout

theorem InOrder.sessionID_of_mem (hg : g ∈ s.unparented episodeID) :
    g ∈ s.segments ∧ g.sessionID = trimSpace sessionID := by
  rw [h.unparented_eq hactive hne] at hg
  obtain ⟨hseg, hsid, -⟩ := mem_ofLevel.mp (mem_of_mem_filter hg)
  exact ⟨hseg, hsid⟩

/-- What is built from the first segments without a parent, once it could be inserted. -/
theorem InOrder.rollsUp {rollup : SummarySegment}
    (hbuild : buildRollupSegment highlights 2 raw now ((s.unparented episodeID).take k) = some rollup)
    (hinsert : s.insertSegment raw now rollup = .ok s') :
    RollsUp s (trimSpace sessionID) episodeID k (rollup.normalized raw now) ∧
      rollup.id = (rollup.normalized raw now).id ∧
      s' = { s with segments := s.segments ++ [rollup.normalized raw now] } := by
  have hsorted : ((s.unparented episodeID).take k).insertionSort rollupLE =
      (s.unparented episodeID).take k :=
    h.insertionSort_eq hactive hne .inl (take_sublist k _)
  unfold buildRollupSegment at hbuild
  simp only [hsorted] at hbuild
  split at hbuild
  · rename_i first last hfirst hlast
    obtain rfl := Option.some.inj hbuild
    have hname := trimSpace_randomID raw
      ⟨'s', "eg-l2".toList, (rfl : ("seg-l" ++ toString 2).toList = _), by decide⟩
    obtain ⟨hrange, howned, hid, hs'⟩ := insertSegment_eq_ok hinsert
    have hsame : ∀ seg : SummarySegment, seg.id = randomID ("seg-l" ++ toString 2) raw →
        seg.id = (seg.normalized raw now).id := by
      intro seg hseg
      simp only [SummarySegment.normalized]
      rw [if_neg (hseg ▸ hname.2)]
    have hmine := h.sessionID_of_mem hactive hne (mem_of_mem_take (mem_of_head? hfirst))
    refine ⟨⟨⟨?_, hid, hrange, howned, trimSpace_empty⟩, rfl, ?_, ⟨first, hfirst, rfl⟩,
      ⟨last, hlast, rfl⟩⟩, hsame _ rfl, hs'⟩
    · exact hname
    · simp only [SummarySegment.normalized, trimSpace_trimSpace, hmine.2]
  · exact absurd hbuild (by simp)

theorem RollsUp.below {w : ℕ} (hr : RollsUp s (trimSpace sessionID) episodeID k r)
    (hbelow : Below (trimSpace sessionID) w s) (children : List SummarySegment) :
    Below (trimSpace sessionID) w (s.rolledUp r children) := by
  intro x hx hsid
  obtain ⟨g, hg, rfl⟩ := mem_map.mp hx
  rw [adopt_seqEnd]
  rcases mem_append.mp hg with hg | hg
  · exact hbelow g hg hsid
  · obtain ⟨last, hlast, hend⟩ := hr.last
    obtain ⟨hseg, hmine⟩ :=
      h.sessionID_of_mem hactive hne (mem_of_mem_take (mem_of_getLast? hlast))
    rw [mem_singleton.mp hg, hend]
    exact hbelow last hseg hmine

/-- What a round does where every child gets its parent: nothing, or it adds a rollup of the first
    eight segments without a parent and goes on. It ends without an error only if there are
    fewer. -/
theorem InOrder.round_cases
    (hfault : ∀ round child err, call.rollupFault ≠ some (.update round child err))
    (rounds round : ℕ) :
    (call.maybeGenerateL2 formatTime episodeID (rounds + 1) round s).2 = s ∧
        ((call.maybeGenerateL2 formatTime episodeID (rounds + 1) round s).1 = .ok () →
          (s.unparented episodeID).length < l2RollupBatchSize) ∨
      ∃ r, RollsUp s (trimSpace sessionID) episodeID l2RollupBatchSize r ∧
        l2RollupBatchSize ≤ (s.unparented episodeID).length ∧
        call.maybeGenerateL2 formatTime episodeID (rounds + 1) round s =
          call.maybeGenerateL2 formatTime episodeID rounds (round + 1)
            (s.rolledUp r ((s.unparented episodeID).take l2RollupBatchSize)) := by
  have hupdate : ∀ i, call.updateFault round i = none := by
    intro i
    unfold CompactCall.updateFault
    split
    · rename_i r c err hsome
      exact absurd hsome (hfault r c err)
    · rfl
  have hread : s.unparentedL1Segments formatTime episodeID l2RollupBatchSize =
      .ok ((s.unparented episodeID).take l2RollupBatchSize) :=
    h.unparentedL1Segments_eq hactive hne (by decide)
  rw [CompactCall.maybeGenerateL2, if_neg hne]
  cases call.readFault round with
  | some err => exact .inl ⟨rfl, by simp⟩
  | none =>
    simp only [hread, take_take, min_self]
    split_ifs with hshort
    · refine .inl ⟨rfl, fun _ => ?_⟩
      rw [length_take] at hshort
      omega
    cases hbuild : buildRollupSegment call.highlights 2 (call.rollupRaw round) call.now
        ((s.unparented episodeID).take l2RollupBatchSize) with
    | none =>
      have hempty := buildRollupSegment_eq_none hbuild
      rw [hempty] at hshort
      exact absurd (by decide : ([] : List SummarySegment).length < l2RollupBatchSize) hshort
    | some rollup =>
      cases call.rollupInsertFault round with
      | some err => exact .inl ⟨rfl, by simp⟩
      | none =>
        cases hinsert : s.insertSegment (call.rollupRaw round) call.now rollup with
        | error err => exact .inl ⟨by simp only [hinsert], by simp [hinsert]⟩
        | ok inserted =>
          obtain ⟨hr, hid, rfl⟩ := h.rollsUp hactive hne hbuild hinsert
          have hmem : ∀ c ∈ (s.unparented episodeID).take l2RollupBatchSize, c ∈ s.segments :=
            fun c hc => (h.sessionID_of_mem hactive hne (mem_of_mem_take hc)).1
          have hlength : l2RollupBatchSize ≤ (s.unparented episodeID).length := by
            rw [length_take] at hshort
            omega
          refine .inr ⟨_, hr, hlength, ?_⟩
          simp only [hinsert]
          rw [reparent_eq hupdate (hid ▸ hr.fresh.name.1) 0 (fun c hc => h.names c (hmem c hc))
            fun c hc => mem_map_of_mem (mem_append_left _ (hmem c hc)), hid]
          rfl

end Round

/-- Rollups whose children all get their parent keep the order. -/
theorem InOrder.maybeGenerateL2 {w : ℕ}
    (hfault : ∀ round child err, call.rollupFault ≠ some (.update round child err))
    (hne : trimSpace episodeID ≠ "") (rounds : ℕ) :
    ∀ (round : ℕ) {s : SegmentStore}, InOrder (trimSpace sessionID) s →
      Below (trimSpace sessionID) w s → s.activeEpisode sessionID = .ok episodeID →
      InOrder (trimSpace sessionID)
          (call.maybeGenerateL2 formatTime episodeID rounds round s).2 ∧
        Below (trimSpace sessionID) w
          (call.maybeGenerateL2 formatTime episodeID rounds round s).2 := by
  induction rounds with
  | zero => exact fun round s h hbelow _ => ⟨h, hbelow⟩
  | succ rounds ih =>
    intro round s h hbelow hactive
    rcases h.round_cases hactive hne hfault rounds round with ⟨hsame, -⟩ | ⟨r, hr, -, hnext⟩
    · rw [hsame]
      exact ⟨h, hbelow⟩
    · rw [hnext]
      exact ih (round + 1) (h.rollup hactive hne hr) (hr.below h hactive hne hbelow _) hactive

end Hopclaw.Store
