import Hopclaw.Store.Transcript

/-! # Summaries of dropped messages

A compaction with a segment writer stores a summary of the messages it drops, with the first and the
last of their numbers (`contextengine/engine_compaction.go`, `store/sqlite_segment.go`,
`store/sqlite_episode.go`). Eight such segments of one episode are rolled up into one of level two
(`contextengine/segment_rollup.go`): it is inserted first, and then becomes the parent of the eight,
one after the other. Each of these steps may fail. -/

namespace Hopclaw.Store

open GoStrings Context

/-! ## Random ids -/

def hexDigit (d : Fin 16) : Char :=
  Char.ofNat (if d.val < 10 then 48 + d.val else 87 + d.val)

/-- An id made of a word and random digits. -/
def randomID (kind : String) (raw : List (Fin 16)) : String :=
  kind ++ "-" ++ String.ofList (raw.map hexDigit)

/-! ## Episodes and segments -/

structure Episode where
  id : String
  sessionID : String
  seqNum : ℕ
  active : Bool := true
deriving DecidableEq

/-- A segment; without the time range, and without what is extracted from the messages. -/
structure SummarySegment where
  id : String := ""
  sessionID : String
  episodeID : String
  level : ℕ
  seqStart : ℕ
  seqEnd : ℕ
  summaryText : String
  /-- Empty where the column is null. -/
  parentSegmentID : String := ""
  createdAt : Time
deriving DecidableEq

structure SegmentStore where
  episodes : List Episode := []
  segments : List SummarySegment := []
deriving DecidableEq

/-- What `normalizeSummarySegment` makes of a segment it accepts. -/
def SummarySegment.normalized (raw : List (Fin 16)) (now : Time) (seg : SummarySegment) :
    SummarySegment where
  id := if seg.id = "" then randomID "seg" raw else seg.id
  sessionID := trimSpace seg.sessionID
  episodeID := trimSpace seg.episodeID
  level := if seg.level = 0 then 1 else seg.level
  seqStart := seg.seqStart
  seqEnd := seg.seqEnd
  summaryText := trimSpace seg.summaryText
  parentSegmentID := trimSpace seg.parentSegmentID
  createdAt := if seg.createdAt = 0 then now else seg.createdAt

def normalizeSummarySegment (raw : List (Fin 16)) (now : Time) (seg : SummarySegment) :
    Except Err SummarySegment :=
  if trimSpace seg.sessionID = "" then .error ⟨"session id is required", none⟩
  else if trimSpace seg.episodeID = "" then .error ⟨"episode id is required", none⟩
  else if seg.seqStart = 0 then .error ⟨"seq_start must be positive", none⟩
  else if seg.seqEnd < seg.seqStart then .error ⟨"seq_end must be >= seq_start", none⟩
  else if trimSpace seg.summaryText = "" then .error ⟨"summary text is required", none⟩
  else .ok (seg.normalized raw now)

namespace SegmentStore

variable (s : SegmentStore)

/-- `InsertSegment`; the id is a primary key. -/
def insertSegment (raw : List (Fin 16)) (now : Time) (seg : SummarySegment) :
    Except Err SegmentStore :=
  match normalizeSummarySegment raw now seg with
  | .error err => .error err
  | .ok normalized =>
    if ¬∃ ep ∈ s.episodes, ep.id = normalized.episodeID ∧ ep.sessionID = normalized.sessionID then
      .error ⟨"episode " ++ normalized.episodeID ++ " not found", none⟩
    else if ∃ g ∈ s.segments, g.id = normalized.id then
      .error ⟨"UNIQUE constraint failed: summary_segments.id", none⟩
    else .ok { s with segments := s.segments ++ [normalized] }

/-- `… WHERE episode_id = ? AND level = 1 AND
    (parent_segment_id IS NULL OR parent_segment_id = '')`. -/
def unparented (episodeID : String) : List SummarySegment :=
  s.segments.filter fun g => g.episodeID = episodeID ∧ g.level = 1 ∧ g.parentSegmentID = ""

/-- `… ORDER BY seq_start, created_at LIMIT ?`, with the text of a time. -/
def unparentedL1Segments (formatTime : Time → String) (episodeID : String) (limit : ℕ) :
    Except Err (List SummarySegment) :=
  if trimSpace episodeID = "" then .error ⟨"episode id is required", none⟩
  else
    let rows := (s.unparented (trimSpace episodeID)).insertionSort
      fun a b => a.seqStart < b.seqStart ∨
        a.seqStart = b.seqStart ∧ formatTime a.createdAt ≤ formatTime b.createdAt
    .ok (if limit > 0 then rows.take limit else rows)

def updateParentSegmentID (segmentID parentSegmentID : String) : Except Err SegmentStore :=
  if trimSpace segmentID = "" then .error ⟨"segment id is required", none⟩
  else if ¬∃ g ∈ s.segments, g.id = trimSpace segmentID then
    .error ⟨"segment " ++ trimSpace segmentID ++ " not found", none⟩
  else
    .ok { s with
      segments := s.segments.map fun g =>
        if g.id = trimSpace segmentID then { g with parentSegmentID := trimSpace parentSegmentID }
        else g }

/-- `… WHERE session_id = ? AND status = 'active' ORDER BY seq_num DESC`. -/
def activeEpisodes (sessionID : String) : List Episode :=
  (s.episodes.filter fun ep => ep.sessionID = sessionID ∧ ep.active).insertionSort
    fun a b => b.seqNum ≤ a.seqNum

/-- `ActiveEpisode`: an empty id if there is none. -/
def activeEpisode (sessionID : String) : Except Err String :=
  if trimSpace sessionID = "" then .error ⟨"session id is required", none⟩
  else
    match s.activeEpisodes (trimSpace sessionID) with
    | [] => .ok ""
    | ep :: _ => .ok ep.id

/-- `CreateEpisode`; the id is a primary key. -/
def createEpisode (sessions : List SessionHeader) (raw : List (Fin 16)) (sessionID : String) :
    Except Err (String × SegmentStore) := do
  let activeID ← s.activeEpisode sessionID
  if ¬∃ row ∈ sessions, row.id = trimSpace sessionID then
    .error ⟨"session " ++ trimSpace sessionID ++ " not found", none⟩
  else if trimSpace activeID ≠ "" then
    .error ⟨"session " ++ trimSpace sessionID ++ " already has active episode " ++ activeID, none⟩
  else if ∃ ep ∈ s.episodes, ep.id = randomID "ep" raw then
    .error ⟨"UNIQUE constraint failed: session_episodes.id", none⟩
  else
    let seqNum := top ((s.episodes.filter fun ep => ep.sessionID = trimSpace sessionID).map
      Episode.seqNum) + 1
    return (randomID "ep" raw,
      { s with
        episodes := s.episodes ++
          [{ id := randomID "ep" raw, sessionID := trimSpace sessionID, seqNum }] })

end SegmentStore

/-! ## Rolling up -/

def l2RollupBatchSize : ℕ := 8

/-- The order of `sortSegmentsForRollup`. -/
def rollupLE (a b : SummarySegment) : Prop :=
  a.seqStart < b.seqStart ∨ a.seqStart = b.seqStart ∧
    (a.level < b.level ∨ a.level = b.level ∧ a.createdAt ≤ b.createdAt)

instance : DecidableRel rollupLE :=
  fun _ _ => inferInstanceAs (Decidable (_ < _ ∨ _ = _ ∧ (_ < _ ∨ _ = _ ∧ _ ≤ _)))

/-- The text starts with the range; `highlights` gives the other lines. -/
def buildRollupSummaryText (highlights : List SummarySegment → List String) (level : ℕ)
    (segments : List SummarySegment) (seqStart seqEnd : ℕ) : String :=
  let what := if level = 3 then "Episode overview" else "Roll-up"
  trimSpace (join "\n" ((what ++ " covering seq " ++ toString seqStart ++ "-" ++ toString seqEnd ++
    ".") :: highlights segments))

/-- The range goes from the start of the first segment to the end of the last one. -/
def buildRollupSegment (highlights : List SummarySegment → List String) (level : ℕ)
    (raw : List (Fin 16)) (now : Time) (source : List SummarySegment) : Option SummarySegment :=
  let segments := source.insertionSort rollupLE
  match segments.head?, segments.getLast? with
  | some first, some last =>
    some
      { id := randomID ("seg-l" ++ toString level) raw
        sessionID := trimSpace first.sessionID
        episodeID := trimSpace first.episodeID
        level
        seqStart := first.seqStart
        seqEnd := last.seqEnd
        summaryText := buildRollupSummaryText highlights level segments first.seqStart last.seqEnd
        createdAt := now }
  | _, _ => none

/-- A store call of `MaybeGenerateL2` that fails: in which round, and for which child. -/
inductive RollupFault
  | read (round : ℕ) (err : Err)
  | insert (round : ℕ) (err : Err)
  | update (round child : ℕ) (err : Err)
deriving DecidableEq

/-- What the store and the hooks do during a call of `Compact`, and the summary of the messages. -/
structure CompactCall where
  summary : String
  now : Time
  highlights : List SummarySegment → List String := fun _ => []
  episodeRaw : List (Fin 16) := []
  segmentRaw : List (Fin 16) := []
  rollupRaw : ℕ → List (Fin 16) := fun _ => []
  stateFault : Option Err := none
  episodeFault : Option Err := none
  insertFault : Option Err := none
  rollupFault : Option RollupFault := none
  hookFault : Option Err := none

namespace CompactCall

variable (call : CompactCall)

def readFault (round : ℕ) : Option Err :=
  match call.rollupFault with
  | some (.read r err) => if r = round then some err else none
  | _ => none

def rollupInsertFault (round : ℕ) : Option Err :=
  match call.rollupFault with
  | some (.insert r err) => if r = round then some err else none
  | _ => none

def updateFault (round child : ℕ) : Option Err :=
  match call.rollupFault with
  | some (.update r i err) => if r = round ∧ i = child then some err else none
  | _ => none

/-- The children get their parent one by one. -/
def reparent (round : ℕ) (parentID : String) :
    ℕ → List SummarySegment → SegmentStore → Except Err Unit × SegmentStore
  | _, [], s => (.ok (), s)
  | i, child :: rest, s =>
    if trimSpace child.id = "" then reparent round parentID (i + 1) rest s
    else
      match call.updateFault round i with
      | some err => (.error err, s)
      | none =>
        match s.updateParentSegmentID child.id parentID with
        | .error err => (.error err, s)
        | .ok s => reparent round parentID (i + 1) rest s

/-- `MaybeGenerateL2`. Every round that is followed by another one gives a parent to eight segments
    without one. -/
def maybeGenerateL2 (formatTime : Time → String) (episodeID : String) :
    ℕ → ℕ → SegmentStore → Except Err Unit × SegmentStore
  | 0, _, s => (.ok (), s)
  | rounds + 1, round, s =>
    if trimSpace episodeID = "" then (.ok (), s)
    else
      match call.readFault round with
      | some err => (.error err, s)
      | none =>
        match s.unparentedL1Segments formatTime episodeID l2RollupBatchSize with
        | .error err => (.error err, s)
        | .ok children =>
          if children.length < l2RollupBatchSize then (.ok (), s)
          else
            match buildRollupSegment call.highlights 2 (call.rollupRaw round) call.now
                (children.take l2RollupBatchSize) with
            | none => (.ok (), s)
            | some rollup =>
              match call.rollupInsertFault round with
              | some err => (.error err, s)
              | none =>
                match s.insertSegment (call.rollupRaw round) call.now rollup with
                | .error err => (.error err, s)
                | .ok inserted =>
                  match call.reparent round rollup.id 0 (children.take l2RollupBatchSize)
                      inserted with
                  | (.error err, s) => (.error err, s)
                  | (.ok _, s) => maybeGenerateL2 formatTime episodeID rounds (round + 1) s

/-! ## Writing a segment -/

/-- `ensureActiveEpisode`. -/
def ensureActiveEpisode (sessions : List SessionHeader) (sessionID : String) (s : SegmentStore) :
    Except Err (String × SegmentStore) :=
  match call.episodeFault with
  | some err => .error err
  | none =>
    match s.activeEpisode sessionID with
    | .error err => .error err
    | .ok episodeID =>
      if trimSpace episodeID ≠ "" then .ok (episodeID, s)
      else s.createEpisode sessions call.episodeRaw sessionID

/-- `buildCompactSegment`. -/
def buildCompactSegment (sessionID episodeID : String) (seqStart seqEnd : ℕ) : SummarySegment where
  sessionID := sessionID
  episodeID := episodeID
  level := 1
  seqStart := seqStart
  seqEnd := seqEnd
  summaryText := trimSpace call.summary
  createdAt := call.now

/-- `writeCompactSegment`: the episode of the segment, if one was written. -/
def writeCompactSegment {Msg : Type} (sessions : List SessionHeader) (sessionID : String)
    (c : Compaction Msg) (s : SegmentStore) : Except Err (Option String) × SegmentStore :=
  if c.older.isEmpty ∨ trimSpace call.summary = "" then (.ok none, s)
  else if trimSpace sessionID = "" then (.ok none, s)
  else
    match c.segmentRange with
    | none => (.ok none, s)
    | some (seqStart, seqEnd) =>
      match call.ensureActiveEpisode sessions sessionID s with
      | .error err => (.error err, s)
      | .ok (episodeID, s) =>
        match call.insertFault with
        | some err => (.error err, s)
        | none =>
          match s.insertSegment call.segmentRaw call.now
              (call.buildCompactSegment sessionID episodeID seqStart seqEnd) with
          | .error err => (.error err, s)
          | .ok s => (.ok (some episodeID), s)

/-- The writes of `Compact` and its last hook. A rollup that fails is only logged. -/
def compactWrites {Msg : Type} (formatTime : Time → String) (sessions : List SessionHeader)
    (sessionID : String) (c : Compaction Msg) (s : SegmentStore) :
    Except Err Unit × SegmentStore :=
  match call.stateFault with
  | some err => (.error err, s)
  | none =>
    match call.writeCompactSegment sessions sessionID c s with
    | (.error err, s) => (.error err, s)
    | (.ok wrote, s) =>
      let s :=
        match wrote with
        | none => s
        | some episodeID => (call.maybeGenerateL2 formatTime episodeID s.segments.length 0 s).2
      match call.hookFault with
      | some err => (.error { err with text := "post-compact hook: " ++ err.text }, s)
      | none => (.ok (), s)

end CompactCall

end Hopclaw.Store
