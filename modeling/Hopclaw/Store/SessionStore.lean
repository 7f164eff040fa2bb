import Hopclaw.Agent.Sessions

/-! # The in-memory session store, in full

`InMemorySessionStore` (`agent/memory.go`) with its five maps, and the messages a session holds
(`contextengine/types.go`). No media store is installed, so images stay in the message. -/

namespace Hopclaw.Store

open GoStrings SessionStore

/-! ## Messages -/

inductive MessageRole
  | system
  | user
  | assistant
  | tool
  deriving DecidableEq

inductive ContentBlockType
  | text
  | image
  | file
  | directory
  | video
  | snippet
  | link
  deriving DecidableEq

structure ContentBlock where
  type : ContentBlockType
  text : String := ""
  label : String := ""
  path : String := ""
  mediaType : String := ""
  data : String := ""
  mediaRef : String := ""
  sourceURL : String := ""
  deriving DecidableEq

/-- A message, with metadata of any type. The tool fields are those of other roles. -/
structure Message (M : Type) where
  role : MessageRole
  content : String
  contentBlocks : List ContentBlock := []
  createdAt : Time
  metadata : M

/-- An incoming message with the parts that only the session stores read. -/
structure UserInput (M : Type) extends IncomingMessage where
  contentBlocks : List ContentBlock := []
  images : List String := []
  metadata : M

/-- The media type and the data of a data URI, or of plain base64. -/
def parseImageData (input : String) : String × String :=
  let input := trimSpace input
  if input = "" then ("", "")
  else if hasPrefix input "data:" then
    match input.toList.span (· ≠ ',') with
    | (_, []) => ("", "")
    | (header, _ :: data) =>
      let mediaType := trimSuffix (trimPrefix (String.ofList header) "data:") ";base64"
      (if trimSpace mediaType = "" then "image/jpeg" else mediaType, String.ofList data)
  else ("image/jpeg", input)

def buildImageContentBlocks (text : String) (images : List String) : List ContentBlock :=
  (if trimSpace text ≠ "" then [{ type := .text, text }] else []) ++
    images.filterMap fun img =>
      let (mediaType, data) := parseImageData img
      if data = "" then none else some { type := .image, mediaType, data }

variable {M : Type}

def incomingContentBlocks (msg : UserInput M) : List ContentBlock :=
  if msg.images = [] then msg.contentBlocks
  else
    msg.contentBlocks ++
      buildImageContentBlocks (if msg.contentBlocks = [] then msg.content else "") msg.images

/-! ## Sessions -/

/-- A session. Of its metadata, the automation id, or the empty text. -/
structure StoredSession (M : Type) where
  id : String
  key : String
  model : String := ""
  revision : ℕ := 1
  messageCount : ℕ := 0
  createdAt : Time := 0
  updatedAt : Time := 0
  scope : Ref := {}
  metadataAutomationID : String := ""
  messages : List (Message M) := []

namespace StoredSession

variable (session : StoredSession M)

def totalMessageCount : ℕ :=
  if session.messages.length > session.messageCount then session.messages.length
  else session.messageCount

/-- `cloneSession`. -/
def clone : StoredSession M :=
  { session with messageCount := session.totalMessageCount }

/-- `MergeSessionMetadata`, on the automation id. -/
def mergeSessionMetadata (automationID : String) (msg : UserInput M) : String :=
  let value := trimSpace (scopeRefFromIncomingMessage msg.toIncomingMessage).automationID
  if value = "" then automationID else value

def mergeScopeRef (dst : Ref) (msg : UserInput M) : Ref :=
  let incoming := (scopeRefFromIncomingMessage msg.toIncomingMessage).automationID
  Ref.normalize (if trimSpace incoming ≠ "" then { dst with automationID := incoming } else dst)

/-- The session with one more message. -/
def appended (now : Time) (msg : UserInput M) (userMsg : Message M) : StoredSession M :=
  { session with
    messages := session.messages ++ [userMsg]
    messageCount := session.messages.length + 1
    metadataAutomationID := mergeSessionMetadata session.metadataAutomationID msg
    scope := mergeScopeRef session.scope msg
    model := if msg.model ≠ "" then msg.model else session.model
    revision := session.revision + 1
    updatedAt := now }

end StoredSession

/-- The session `GetOrCreate` makes. -/
def newSession (id sessionKey defaultModel : String) (now : Time) : StoredSession M where
  id := id
  key := sessionKey
  model := defaultModel
  createdAt := now
  updatedAt := now

/-! ## The store -/

inductive EpisodeStatus
  | active
  | sealed
  deriving DecidableEq

structure EpisodeSummary where
  id : String
  sessionID : String
  seqNum : ℕ
  status : EpisodeStatus
  startedAt : Time
  sealedAt : Time := 0
  messageCount : ℕ := 0
  deriving DecidableEq

structure InMemorySessionStore (M : Type) where
  nextID : ℕ := 0
  nextEpisodeID : ℕ := 0
  byID : AList (fun _ : String => StoredSession M) := ∅
  byKey : AList (fun _ : String => String) := ∅
  locks : AList (fun _ : String => Unit) := ∅
  episodes : AList (fun _ : String => List EpisodeSummary) := ∅
  activeEpisode : AList (fun _ : String => String) := ∅

namespace InMemorySessionStore

variable (s : InMemorySessionStore M) (now : Time) (id : String)

/-- The id a new session gets. -/
def newID (chosen : List String) : String :=
  if firstNonEmpty chosen = "" then sessionID (s.nextID + 1) else firstNonEmpty chosen

/-- A key without its session gives `nil`. -/
def getOrCreate (sessionKey defaultModel : String) (chosen : List String) :
    Option (StoredSession M) × InMemorySessionStore M :=
  match s.byKey.lookup sessionKey with
  | some id => ((s.byID.lookup id).map StoredSession.clone, s)
  | none =>
    let session := newSession (s.newID chosen) sessionKey defaultModel now
    (some session.clone,
      { s with
        nextID := if firstNonEmpty chosen = "" then s.nextID + 1 else s.nextID
        byID := s.byID.insert (s.newID chosen) session
        byKey := s.byKey.insert sessionKey (s.newID chosen)
        locks := s.locks.insert (s.newID chosen) () })

/-- `lookup`: a session with its lock. -/
def find : Except Err (StoredSession M) :=
  match s.locks.lookup id, s.byID.lookup id with
  | some _, some session => .ok session
  | _, _ => .error (notFound id)

def appendUserMessage (msg : UserInput M) : Except Err Unit × InMemorySessionStore M :=
  match s.find id with
  | .error e => (.error e, s)
  | .ok session =>
    let userMsg : Message M :=
      { role := .user
        content := msg.content
        contentBlocks := incomingContentBlocks msg
        createdAt := now
        metadata := msg.metadata }
    (.ok (), { s with byID := s.byID.insert id (session.appended now msg userMsg) })

def loadForExecution : Except Err (StoredSession M) :=
  (s.find id).map StoredSession.clone

def save (session : StoredSession M) : Except Err Unit × InMemorySessionStore M :=
  match s.byID.lookup session.id with
  | none => (.error (notFound session.id), s)
  | some current =>
    let cloned : StoredSession M := { session.clone with revision := current.revision + 1 }
    (.ok (), { s with byID := s.byID.insert session.id cloned })

def deleteSession : Except Err Unit × InMemorySessionStore M :=
  match s.find id with
  | .error e => (.error e, s)
  | .ok session =>
    (.ok (),
      { s with
        byID := s.byID.erase id
        locks := s.locks.erase id
        episodes := s.episodes.erase id
        activeEpisode := s.activeEpisode.erase id
        byKey := if session.key ≠ "" then s.byKey.erase session.key else s.byKey })

/-! ### Episodes -/

/-- The active episode of a session, empty if there is none. -/
def active : String :=
  trimSpace ((s.activeEpisode.lookup id).getD "")

def createEpisodeLocked : Except Err String × InMemorySessionStore M :=
  match s.byID.lookup id with
  | none => (.error (notFound id), s)
  | some _ =>
    if s.active id ≠ "" then
      (.error ⟨"session " ++ id ++ " already has active episode " ++ s.active id, none⟩, s)
    else
      let episode := episodeID (s.nextEpisodeID + 1)
      let known := (s.episodes.lookup id).getD []
      (.ok episode,
        { s with
          nextEpisodeID := s.nextEpisodeID + 1
          episodes := s.episodes.insert id (known ++
            [{ id := episode, sessionID := id, seqNum := known.length + 1, status := .active
               startedAt := now }])
          activeEpisode := s.activeEpisode.insert id episode })

/-- The first of the episodes with the id, sealed. -/
def sealFirst (episode : String) (seqEnd : ℤ) : List EpisodeSummary → List EpisodeSummary
  | [] => []
  | e :: rest =>
    if e.id = episode then
      { e with
        status := .sealed
        sealedAt := now
        messageCount := if seqEnd > 0 ∧ e.messageCount = 0 then seqEnd.toNat else e.messageCount }
        :: rest
    else e :: sealFirst episode seqEnd rest

/-- Episode ids are drawn from a counter, so it does not matter in which order the sessions are
    visited. -/
def sealEpisodeLocked (episode : String) (seqEnd : ℤ) :
    Except Err Unit × InMemorySessionStore M :=
  if episode = "" then (.error ⟨"episode id is required", none⟩, s)
  else
    match s.episodes.entries.find? fun e => e.2.any fun summary => summary.id = episode with
    | none => (.error ⟨"episode " ++ episode ++ " not found", none⟩, s)
    | some ⟨id, known⟩ =>
      (.ok (),
        { s with
          episodes := s.episodes.insert id (sealFirst now episode seqEnd known)
          activeEpisode := if s.activeEpisode.lookup id = some episode then s.activeEpisode.erase id
            else s.activeEpisode })

def sealEpisode (episode : String) (seqEnd : ℤ) : Except Err Unit × InMemorySessionStore M :=
  s.sealEpisodeLocked now (trimSpace episode) seqEnd

def createEpisode : Except Err String × InMemorySessionStore M :=
  match s.find id with
  | .error e => (.error e, s)
  | .ok _ => s.createEpisodeLocked now id

def ensureActiveEpisode : Except Err String × InMemorySessionStore M :=
  match s.find id with
  | .error e => (.error e, s)
  | .ok _ => if s.active id ≠ "" then (.ok (s.active id), s) else s.createEpisodeLocked now id

def startNewEpisode : Except Err String × InMemorySessionStore M :=
  match s.find id with
  | .error e => (.error e, s)
  | .ok session =>
    if s.active id ≠ "" then
      match s.sealEpisodeLocked now (s.active id) session.messages.length with
      | (.error e, s) => (.error e, s)
      | (.ok (), s) => s.createEpisodeLocked now id
    else s.createEpisodeLocked now id

/-! ### Pruning -/

/-- The ids that are not to be pruned. -/
def excluded (ids : List String) : List String :=
  (ids.map trimSpace).filter (· ≠ "")

def expired (before : Time) (keep : List String) (id : String) (session : StoredSession M) : Bool :=
  id ∉ keep && session.updatedAt ≠ 0 && session.updatedAt < before

/-- One round of the loop of `PruneSessionsExcept`. -/
def pruneOne (before : Time) (keep : List String) (acc : ℕ × InMemorySessionStore M)
    (entry : Σ _ : String, StoredSession M) : ℕ × InMemorySessionStore M :=
  if expired before keep entry.1 entry.2 then
    (acc.1 + 1,
      { acc.2 with
        byID := acc.2.byID.erase entry.1
        byKey := acc.2.byKey.erase entry.2.key
        locks := acc.2.locks.erase entry.1 })
  else acc

def pruneSessionsExcept (before : Time) (excludeSessionIDs : List String) :
    ℕ × InMemorySessionStore M :=
  if before = 0 then (0, s)
  else s.byID.entries.foldl (pruneOne before (excluded excludeSessionIDs)) (0, s)

end InMemorySessionStore

end Hopclaw.Store
