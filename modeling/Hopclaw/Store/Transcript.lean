import Hopclaw.Context.Compaction
import Hopclaw.Domain.Numbering
import Hopclaw.Text.GoStrings
import Mathlib.Data.List.Sort

/-! # The transcript of a session in SQLite

`SQLiteSessionStore.Save` and `loadExecutionSnapshot` (`store/sqlite_session.go`). A session is
loaded with the messages above its watermark and their numbers. Saving it compares those messages
with the rows, appends the other ones and numbers them. A message is stored as columns of text, and
read back from them; the JSON package and the formatting of times are parameters. -/

namespace Hopclaw.Store

open GoStrings Context

/-! ## Messages and their columns -/

/-- `encoding/json` at a type. -/
structure JSONCodec (α : Type) where
  marshal : α → Option String
  unmarshal : String → Option α

/-- A message. A nil slice and a nil map are `none`. -/
structure TranscriptMessage (B C M : Type) where
  role : String
  content : String
  contentBlocks : Option (List B) := none
  name : String := ""
  toolCallID : String := ""
  toolCalls : Option (List C) := none
  metadata : Option M := none
  createdAt : Time

/-- The package `time`. -/
structure TimeCoding where
  /-- `t.UTC().Format(time.RFC3339Nano)`. -/
  format : Time → String
  /-- `time.Parse(time.RFC3339Nano, raw)`. -/
  parse : String → Option Time

structure MessageCoding (B C M : Type) extends TimeCoding where
  blocks : JSONCodec (Option (List B))
  calls : JSONCodec (Option (List C))
  metadata : JSONCodec (Option M)

/-- The columns of a row of `messages` that hold the message. -/
structure MessageColumns where
  role : String
  content : String
  contentBlocks : String
  name : String
  toolCallID : String
  toolCalls : String
  metadata : String
  createdAt : String
deriving DecidableEq

variable {B C M : Type} (lib : MessageCoding B C M)

def marshalJSONValue {α : Type} (codec : JSONCodec α) (v : α) : Except Err String :=
  match codec.marshal v with
  | some text => .ok text
  | none => .error ⟨"marshal json: json: unsupported value", none⟩

def marshalJSONSliceValue {α : Type} (codec : JSONCodec α) (v : α) : Except Err String :=
  match codec.marshal v with
  | some text => .ok text
  | none => .error ⟨"marshal json slice: json: unsupported value", none⟩

def TimeCoding.formatTime (lib : TimeCoding) (t : Time) : String :=
  if t = 0 then "" else lib.format t

def wrap {α : Type} (text : String) (r : Except Err α) : Except Err α :=
  match r with
  | .ok a => .ok a
  | .error e => .error { e with text := text ++ ": " ++ e.text }

theorem wrap_eq_ok {α : Type} {text : String} {r : Except Err α} {a : α} :
    wrap text r = .ok a ↔ r = .ok a := by
  cases r <;> simp [wrap]

/-- The columns `insertMessageWithExecer` writes. -/
def messageColumns (msg : TranscriptMessage B C M) : Except Err MessageColumns := do
  let contentBlocks ← wrap "marshal message content blocks"
    (marshalJSONSliceValue lib.blocks msg.contentBlocks)
  let toolCalls ← wrap "marshal message tool calls" (marshalJSONSliceValue lib.calls msg.toolCalls)
  let metadata ← wrap "marshal message metadata" (marshalJSONValue lib.metadata msg.metadata)
  return { role := msg.role, content := msg.content, contentBlocks, name := msg.name
           toolCallID := msg.toolCallID, toolCalls, metadata
           createdAt := lib.formatTime msg.createdAt }

def sqliteRecordID (id : String) : String :=
  if trimSpace id = "" then "<unknown>" else trimSpace id

/-- The error of a column that cannot be read, without the reason the parser gives. -/
def columnError (storeKind recordID what : String) : Err :=
  ⟨storeKind ++ " " ++ sqliteRecordID recordID ++ ": " ++ what, none⟩

def TimeCoding.parseTime (lib : TimeCoding) (raw storeKind recordID field : String) :
    Except Err Time :=
  if trimSpace raw = "" then .ok 0
  else
    match lib.parse (trimSpace raw) with
    | some t => .ok t
    | none => .error (columnError storeKind recordID ("parse " ++ field))

def decodeJSONField {α : Type} (codec : JSONCodec (Option α))
    (raw storeKind recordID field : String) : Except Err (Option α) :=
  if trimSpace raw = "" then .ok none
  else
    match codec.unmarshal (trimSpace raw) with
    | some v => .ok v
    | none => .error (columnError storeKind recordID ("decode " ++ field))

/-- A slice is decoded unless its column is empty or holds an empty list; it is nil otherwise. -/
def decodeSlice {α : Type} (codec : JSONCodec (Option (List α))) (sessionID field raw : String) :
    Except Err (Option (List α)) :=
  if raw = "" ∨ raw = "[]" then .ok none
  else decodeJSONField codec raw "sqlite messages" sessionID field

/-- The message `loadStoredMessagesFromQuerier` reads from a row. -/
def scanMessage (sessionID : String) (columns : MessageColumns) :
    Except Err (TranscriptMessage B C M) := do
  let createdAt ← lib.parseTime columns.createdAt "sqlite messages" sessionID "created_at"
  let metadata ← decodeJSONField lib.metadata columns.metadata "sqlite messages" sessionID "metadata"
  let contentBlocks ← decodeSlice lib.blocks sessionID "content_blocks" columns.contentBlocks
  let toolCalls ← decodeSlice lib.calls sessionID "tool_calls" columns.toolCalls
  return { role := columns.role, content := columns.content, contentBlocks, name := columns.name
           toolCallID := columns.toolCallID, toolCalls, metadata, createdAt }

def timesEqual (a b : Time) : Bool :=
  if a = 0 ∨ b = 0 then decide (a = 0) == decide (b = 0) else decide (a = b)

def storedMessagesEqual (a b : TranscriptMessage B C M) : Except Err Bool :=
  if a.role ≠ b.role ∨ a.content ≠ b.content ∨ a.name ≠ b.name ∨ a.toolCallID ≠ b.toolCallID ∨
      timesEqual a.createdAt b.createdAt = false then .ok false
  else do
    let aContentBlocks ← marshalJSONSliceValue lib.blocks a.contentBlocks
    let bContentBlocks ← marshalJSONSliceValue lib.blocks b.contentBlocks
    if aContentBlocks ≠ bContentBlocks then .ok false
    else
      let aToolCalls ← marshalJSONSliceValue lib.calls a.toolCalls
      let bToolCalls ← marshalJSONSliceValue lib.calls b.toolCalls
      if aToolCalls ≠ bToolCalls then .ok false
      else
        let aMetadata ← marshalJSONValue lib.metadata a.metadata
        let bMetadata ← marshalJSONValue lib.metadata b.metadata
        .ok (decide (aMetadata = bMetadata))

/-! ## The tables -/

/-- A row of `sessions`, as far as the transcript needs it. -/
structure SessionHeader where
  id : String
  revision : ℕ := 1
  executionWatermark : ℕ := 0
deriving DecidableEq

/-- A row of `messages`. -/
structure TranscriptRow where
  sessionID : String
  seq : ℕ
  columns : MessageColumns
deriving DecidableEq

/-- The rows of `messages` stand in the order of their ids. -/
structure TranscriptStore where
  sessions : List SessionHeader := []
  messages : List TranscriptRow := []
deriving DecidableEq

structure StoredMessage (B C M : Type) where
  seq : ℕ
  message : TranscriptMessage B C M

/-- A loaded session with its revision and the number of its messages in the table. -/
structure ExecutionSession (B C M : Type) extends HotSession (TranscriptMessage B C M) where
  revision : ℕ
  messageCount : ℕ

def scanRow (id : String) (row : TranscriptRow) : Except Err (StoredMessage B C M) :=
  match scanMessage lib id row.columns with
  | .error err => .error err
  | .ok message => .ok { seq := row.seq, message }

namespace TranscriptStore

variable (s : TranscriptStore)

/-- `WHERE session_id = ?`. -/
def rowsOf (id : String) : List TranscriptRow :=
  s.messages.filter fun row => row.sessionID = id

/-- `… AND seq > ? ORDER BY seq, id`; the condition is there only for a positive number. -/
def storedRows (id : String) (afterSeq : ℕ) : List TranscriptRow :=
  ((s.rowsOf id).filter fun row => afterSeq = 0 || afterSeq < row.seq).insertionSort
    fun a b => a.seq ≤ b.seq

/-- `loadStoredMessagesFromQuerier`. -/
def loadStoredMessages (id : String) (afterSeq : ℕ) : Except Err (List (StoredMessage B C M)) :=
  (s.storedRows id afterSeq).mapM (scanRow lib id)

/-- `loadExecutionSnapshot`. -/
def loadExecutionSnapshot (id : String) : Except Err (ExecutionSession B C M) :=
  match s.sessions.find? fun row => row.id = id with
  | none => .error ⟨"session " ++ id ++ " not found", none⟩
  | some row => do
    let stored ← s.loadStoredMessages lib row.id row.executionWatermark
    return { id := row.id
             messages := stored.map StoredMessage.message
             executionWatermark := row.executionWatermark
             loadedMessageSeqs := stored.map StoredMessage.seq
             revision := row.revision
             messageCount := (s.rowsOf row.id).length }

/-- `insertMessageWithExecer`: the number is one above the largest one of the session. -/
def insertMessage (id : String) (msg : TranscriptMessage B C M) : Except Err TranscriptStore := do
  let columns ← messageColumns lib msg
  return { s with
    messages := s.messages ++
      [{ sessionID := id, seq := top ((s.rowsOf id).map TranscriptRow.seq) + 1, columns }] }

end TranscriptStore

/-! ## Saving -/

def saveError (id text : String) : Err :=
  ⟨"update session " ++ id ++ ": " ++ text, none⟩

/-- A message of the session against the row it was loaded from. -/
def compareMessage (id : String) (idx : ℕ) (loadedSeq : Option ℕ) (persisted : StoredMessage B C M)
    (msg : TranscriptMessage B C M) : Except Err Unit :=
  if loadedSeq.any fun seq => decide (persisted.seq ≠ seq) then
    .error (saveError id ("loaded message seq mismatch at message " ++ toString idx))
  else do
    let equal ← wrap ("update session " ++ id ++ ": compare transcript message " ++ toString idx)
      (storedMessagesEqual lib persisted.message msg)
    if equal then .ok ()
    else .error (saveError id ("append-only transcript mismatch at message " ++ toString idx))

/-- The loop over the messages that were loaded. There is no number to compare where none was
    loaded. -/
def compareMessages (id : String) (loadedSeqs : List ℕ) :
    ℕ → List (StoredMessage B C M) → List (TranscriptMessage B C M) → Except Err Unit
  | idx, persisted :: rest, msg :: msgs => do
    compareMessage lib id idx loadedSeqs[idx]? persisted msg
    compareMessages id loadedSeqs (idx + 1) rest msgs
  | _, _, _ => .ok ()

/-- How many messages of the session are taken to be stored already. -/
def loadedPersistedCount (session : ExecutionSession B C M)
    (persisted : List (StoredMessage B C M)) : Except Err ℕ :=
  if session.loadedMessageSeqs ≠ [] then
    if session.loadedMessageSeqs.length > persisted.length then
      .error (saveError session.id "loaded transcript exceeds persisted tail")
    else .ok session.loadedMessageSeqs.length
  else .ok persisted.length

/-- The insertions of the messages that are new. -/
def insertMessages (id : String) (s : TranscriptStore) (msgs : List (TranscriptMessage B C M)) :
    Except Err TranscriptStore :=
  msgs.foldlM (fun s msg => wrap "insert message" (s.insertMessage lib id msg)) s

/-- The numbers the session is left with: those of its stored messages, and one for each message
    that was inserted, counted from the last row on. -/
def nextLoadedSeqs (session : ExecutionSession B C M)
    (persisted : List (StoredMessage B C M)) (count : ℕ) : List ℕ :=
  let nextSeq := (persisted.map StoredMessage.seq).getLastD session.executionWatermark
  (if session.loadedMessageSeqs ≠ [] then session.loadedMessageSeqs.take count
    else (persisted.take count).map StoredMessage.seq) ++
    List.range' (nextSeq + 1) (session.messages.length - count)

/-- The row of the session after `UPDATE sessions SET …`. -/
def TranscriptStore.updateHeader (s : TranscriptStore)
    (session : ExecutionSession B C M) : TranscriptStore :=
  { s with
    sessions := s.sessions.map fun row =>
      if row.id = session.id then
        { row with
          revision := session.revision + 1, executionWatermark := session.executionWatermark }
      else row }

/-- `Save`: one transaction, which an error rolls back, and then the session's own fields. -/
def TranscriptStore.save (s : TranscriptStore) (session : ExecutionSession B C M) :
    Except Err (ExecutionSession B C M × TranscriptStore) := do
  let updated := s.updateHeader session
  let persisted ← wrap "load persisted messages"
    (updated.loadStoredMessages lib session.id session.executionWatermark)
  let count ← loadedPersistedCount session persisted
  if session.messages.length < count then
    .error (saveError session.id "transcript truncation is not supported")
  else
    compareMessages lib session.id session.loadedMessageSeqs 0 (persisted.take count)
      session.messages
    let saved ← insertMessages lib session.id updated (session.messages.drop count)
    return ({ session with
      revision := session.revision + 1
      messageCount := (s.rowsOf session.id).length + (session.messages.length - count)
      loadedMessageSeqs := nextLoadedSeqs session persisted count }, saved)

end Hopclaw.Store
