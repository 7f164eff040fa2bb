import Hopclaw.Store.SessionStore

/-! # The session stores that persist

`JSONLSessionStore` (`store/jsonl.go`) and `SQLiteSessionStore` (`store/sqlite_session.go`): finding
or creating a session, appending a user message, and loading a session for execution. The first
keeps sessions in memory and writes each version to a log; the second reads and writes rows. -/

namespace Hopclaw.Store

open GoStrings SessionStore

/-- How metadata is encoded as JSON and decoded again, which may fail. What was decoded is not
    changed by another round trip. -/
structure JSONCoding (M : Type) where
  json : M → Option M
  json_json : ∀ {m m'}, json m = some m' → json m' = some m'

/-- Metadata JSON does not change. -/
def JSONCoding.plain (M : Type) : JSONCoding M where
  json := some
  json_json := fun h => Option.some.inj h ▸ rfl

/-- A caller-chosen id is the first one given, unless it is empty. -/
def chosenID (chosen : List String) (fallback : String) : String :=
  match chosen with
  | [] => fallback
  | id :: _ => if id ≠ "" then id else fallback

variable {M : Type} (c : JSONCoding M)

/-! ## `JSONLSessionStore` -/

structure JSONLSessionStore (M : Type) where
  nextID : ℕ := 0
  byID : AList (fun _ : String => StoredSession M) := ∅
  byKey : AList (fun _ : String => String) := ∅
  locks : AList (fun _ : String => Unit) := ∅

/-- The error of the JSON encoder, without the value it names. -/
def sessionEncodeError : Err :=
  ⟨"json: unsupported value", none⟩

/-- A session encoded and decoded again. -/
def cloneAgentSession (session : StoredSession M) : Option (StoredSession M) := do
  let messages ← session.messages.mapM fun msg => do
    let metadata ← c.json msg.metadata
    return { msg with metadata }
  return { session with messages }

namespace JSONLSessionStore

variable (s : JSONLSessionStore M) (now : Time) (id : String)

def getOrCreate (sessionKey defaultModel : String) (chosen : List String) :
    Except Err (Option (StoredSession M)) × JSONLSessionStore M :=
  match s.byKey.lookup sessionKey with
  | some id =>
    match s.byID.lookup id with
    | none => (.ok none, s)
    | some session =>
      match cloneAgentSession c session with
      | none => (.error sessionEncodeError, s)
      | some cloned => (.ok (some cloned), s)
  | none =>
    let id := chosenID chosen (sessionID (s.nextID + 1))
    let session := newSession id sessionKey defaultModel now
    (.ok (some session),
      { nextID := if chosenID chosen "" = "" then s.nextID + 1 else s.nextID
        byID := s.byID.insert id session
        byKey := s.byKey.insert sessionKey id
        locks := s.locks.insert id () })

def find : Except Err (StoredSession M) :=
  match s.locks.lookup id, s.byID.lookup id with
  | some _, some session => .ok session
  | _, _ => .error (notFound id)

/-- The session in memory changes before it is encoded for the log. -/
def appendUserMessage (msg : UserInput M) : Except Err Unit × JSONLSessionStore M :=
  match s.find id with
  | .error e => (.error e, s)
  | .ok session =>
    let appended := session.appended now msg
      { role := .user, content := msg.content, createdAt := now, metadata := msg.metadata }
    (if (cloneAgentSession c appended).isSome then .ok () else .error sessionEncodeError,
      { s with byID := s.byID.insert id appended })

def loadForExecution : Except Err (StoredSession M) :=
  s.find id

end JSONLSessionStore

/-! ## `SQLiteSessionStore` -/

/-- A row of `sessions`; its JSON columns are given by what they decode to. -/
structure SessionRow where
  id : String
  key : String
  model : String
  revision : ℕ
  scope : Ref
  metadataAutomationID : String := ""
  createdAt : Time
  updatedAt : Time
  executionWatermark : ℕ := 0

/-- A row of `messages`. -/
structure MessageRow (M : Type) where
  sessionID : String
  seq : ℕ
  message : Message M

structure SQLiteSessionStore (M : Type) where
  nextID : ℕ := 0
  sessions : List SessionRow := []
  messages : List (MessageRow M) := []

/-- `ScopeRefFromMetadata`. -/
def scopeRefFromMetadata (automationID : String) : Ref :=
  Ref.normalize (if trimSpace automationID ≠ "" then ⟨trimSpace automationID⟩ else {})

/-- `scanSession`: a scope without an automation is encoded as an empty object, and then taken from
    the metadata. -/
def SessionRow.scan (row : SessionRow) (messages : List (Message M)) (messageCount : ℕ) :
    StoredSession M where
  id := row.id
  key := row.key
  model := row.model
  revision := row.revision
  messageCount := messageCount
  createdAt := row.createdAt
  updatedAt := row.updatedAt
  scope := if row.scope.automationID = "" then scopeRefFromMetadata row.metadataAutomationID
    else row.scope
  metadataAutomationID := row.metadataAutomationID
  messages := messages

namespace SQLiteSessionStore

variable (s : SQLiteSessionStore M) (now : Time) (id : String)

/-- `SELECT … FROM messages WHERE session_id = ? AND seq > ? ORDER BY seq, id`; the second condition
    is there only for a positive number. -/
def storedMessages (afterSeq : ℕ) : List (MessageRow M) :=
  ((s.messages.filter fun row => row.sessionID = id).filter fun row =>
    afterSeq = 0 || afterSeq < row.seq).insertionSort fun a b => a.seq ≤ b.seq

/-- `COALESCE((SELECT MAX(seq) …), 0) + 1`. -/
def nextSeq : ℕ :=
  ((s.messages.filter fun row => row.sessionID = id).map MessageRow.seq).foldl max 0 + 1

def messageCount : ℕ :=
  (s.messages.filter fun row => row.sessionID = id).length

def getOrCreate (sessionKey defaultModel : String) (chosen : List String) :
    Except Err (StoredSession M) × SQLiteSessionStore M :=
  match s.sessions.find? fun row => row.key = sessionKey with
  | some row =>
    let messages := (s.storedMessages row.id 0).map MessageRow.message
    (.ok (row.scan messages messages.length), s)
  | none =>
    let id := chosenID chosen (sessionID (s.nextID + 1))
    let nextID := if chosenID chosen "" = "" then s.nextID + 1 else s.nextID
    if s.sessions.any fun row => row.id = id then
      (.error ⟨"create session: UNIQUE constraint failed: sessions.id", none⟩, { s with nextID })
    else
      let row : SessionRow :=
        { id, key := sessionKey, model := defaultModel, revision := 1, scope := {}, createdAt := now
          updatedAt := now }
      (.ok (newSession id sessionKey defaultModel now),
        { s with nextID, sessions := s.sessions ++ [row] })

/-- The row after a message was appended. -/
def appendedRow (msg : UserInput M) (row : SessionRow) : SessionRow :=
  let current : StoredSession M := row.scan [] 0
  { row with
    model := if msg.model ≠ "" then msg.model else current.model
    revision := current.revision + 1
    updatedAt := now
    scope := StoredSession.mergeScopeRef current.scope msg
    metadataAutomationID :=
      StoredSession.mergeSessionMetadata current.metadataAutomationID msg }

/-- One transaction: an error rolls everything back. -/
def appendUserMessage (msg : UserInput M) : Except Err Unit × SQLiteSessionStore M :=
  match s.sessions.find? fun row => row.id = id with
  | none => (.error (notFound id), s)
  | some _ =>
    match c.json msg.metadata with
    | none => (.error ⟨"marshal message metadata: marshal json: json: unsupported value", none⟩, s)
    | some metadata =>
      (.ok (),
        { s with
          sessions := s.sessions.map fun row => if row.id = id then appendedRow now msg row else row
          messages := s.messages ++
            [{ sessionID := id
               seq := s.nextSeq id
               message := { role := .user, content := msg.content, createdAt := now, metadata } }] })

def loadForExecution : Except Err (StoredSession M) :=
  match s.sessions.find? fun row => row.id = id with
  | none => .error (notFound id)
  | some row =>
    .ok (row.scan ((s.storedMessages row.id row.executionWatermark).map MessageRow.message)
      (s.messageCount row.id))

end SQLiteSessionStore

end Hopclaw.Store
