import Hopclaw.Domain.Pages
import Hopclaw.Store.RunStores
import Hopclaw.Store.SessionStores

/-! # Reads confined to a scope

The reads of the three run stores and the three session stores that take a `ScopeFilter`: by id, by
key, of the metadata only, and lists with a limit. The stores in memory and those with log files
check the filter; the SQLite stores take it as an argument and build their queries without it. -/

namespace Hopclaw.Store

open GoStrings SessionStore

variable {X M : Type}

/-! ## Runs -/

/-- `SQLiteRunStore`, by the records its rows decode to. -/
structure SQLiteRunStore (X : Type) where
  rows : List (RunRecord X) := []

namespace SQLiteRunStore

variable (s : SQLiteRunStore X)

def getScoped (id : String) (_scope : ScopeFilter) : Except Err (Option (RunRecord X)) :=
  match s.rows.find? fun r => r.run.id = id with
  | none => .error (RunTable.notFound id)
  | some r => .ok (some r)

/-- The rows of the query, before they are sorted and cut. -/
def selected (filter : RunListFilter) : List (RunRecord X) :=
  s.rows.filter fun r =>
    (filter.sessionID = "" || r.run.sessionID = filter.sessionID) &&
      (filter.status.all fun st => r.run.status = st)

/-- `ORDER BY updated_at DESC`, on the texts of the column. -/
abbrev Newer (formatTime : Time → String) (a b : RunRecord X) : Prop :=
  formatTime b.run.updatedAt ≤ formatTime a.run.updatedAt

def list (formatTime : Time → String) (filter : RunListFilter) (order : RunTable.Order X) :
    List (RunRecord X) :=
  Pages.page (Newer formatTime) filter.limit (order (s.selected filter)).1

end SQLiteRunStore

/-- The run stores that can be selected at start-up. -/
inductive RunBackend (X : Type)
  | inMemory (t : RunTable X)
  | jsonl (s : JSONLRunStore X)
  | sqlite (s : SQLiteRunStore X)

/-! ## Sessions -/

structure SessionListFilter where
  scope : ScopeFilter := {}
  limit : ℕ := 0

/-- `session %q not found`. -/
def sessionKeyNotFound (sessionKey : String) : Err :=
  ⟨"session " ++ quoted sessionKey ++ " not found", none⟩

/-- `cloneSessionMetadata`, and `cloneAgentSessionMetadata`: a copy without the messages. -/
def StoredSession.metadataOnly (session : StoredSession M) : StoredSession M :=
  { session with messageCount := session.totalMessageCount, messages := [] }

/-- What a read by id or by key is. -/
abbrev SessionRead (M : Type) : Type :=
  String → ScopeFilter → Except Err (StoredSession M)

/-- How a store copies the session it returns. -/
abbrev SessionCopy (M : Type) : Type :=
  StoredSession M → Except Err (StoredSession M)

abbrev StoredSession.Newer (a b : StoredSession M) : Prop :=
  b.updatedAt ≤ a.updatedAt

section

variable (byID : AList fun _ : String => StoredSession M)

/-- The reads of the two stores that keep sessions in maps; they differ in the copy they return. -/
def mapGetScoped (copy : SessionCopy M) (id : String) (scope : ScopeFilter) :
    Except Err (StoredSession M) :=
  match byID.lookup id with
  | none => .error (notFound id)
  | some session =>
    if scope.admits session.scope then copy session else .error (notFound id)

def mapGetByKeyScoped (byKey : AList fun _ : String => String)
    (copy : SessionCopy M) (sessionKey : String)
    (scope : ScopeFilter) : Except Err (StoredSession M) :=
  match byKey.lookup sessionKey with
  | none => .error (sessionKeyNotFound sessionKey)
  | some id =>
    match byID.lookup id with
    | none => .error (notFound id)
    | some session =>
      if scope.admits session.scope then copy session else .error (sessionKeyNotFound sessionKey)

/-- The sessions `ListScoped` selects. -/
def mapSelected (scope : ScopeFilter) : List (StoredSession M) :=
  (byID.entries.map Sigma.snd).filter fun session => scope.admits session.scope

def mapListScoped (filter : SessionListFilter)
    (order : Pages.Order (StoredSession M)) : List (StoredSession M) :=
  Pages.page StoredSession.Newer filter.limit
    (order ((mapSelected byID filter.scope).map StoredSession.metadataOnly)).1

end

namespace InMemorySessionStore

variable (s : InMemorySessionStore M)

def getScoped : SessionRead M :=
  mapGetScoped s.byID fun session => .ok session.clone

def getMetadataScoped : SessionRead M :=
  mapGetScoped s.byID fun session => .ok session.metadataOnly

def getByKeyScoped : SessionRead M :=
  mapGetByKeyScoped s.byID s.byKey fun session => .ok session.clone

def getByKeyMetadataScoped : SessionRead M :=
  mapGetByKeyScoped s.byID s.byKey fun session => .ok session.metadataOnly

def listScoped : SessionListFilter → Pages.Order (StoredSession M) → List (StoredSession M) :=
  mapListScoped s.byID

end InMemorySessionStore

namespace JSONLSessionStore

variable (c : JSONCoding M) (s : JSONLSessionStore M)

/-- What a method that ends in `return cloneAgentSession(sess)` returns. -/
def returned (session : StoredSession M) : Except Err (StoredSession M) :=
  match cloneAgentSession c session with
  | none => .error sessionEncodeError
  | some cloned => .ok cloned

def getScoped : SessionRead M :=
  mapGetScoped s.byID (returned c)

def getMetadataScoped : SessionRead M :=
  mapGetScoped s.byID fun session => .ok session.metadataOnly

def getByKeyScoped : SessionRead M :=
  mapGetByKeyScoped s.byID s.byKey (returned c)

def getByKeyMetadataScoped : SessionRead M :=
  mapGetByKeyScoped s.byID s.byKey fun session => .ok session.metadataOnly

def listScoped : SessionListFilter → Pages.Order (StoredSession M) → List (StoredSession M) :=
  mapListScoped s.byID

end JSONLSessionStore

namespace SQLiteSessionStore

variable (s : SQLiteSessionStore M)

/-- `loadMessages`, with the session the row decodes to. -/
def withMessages (row : SessionRow) : StoredSession M :=
  let messages := (s.storedMessages row.id 0).map MessageRow.message
  row.scan messages messages.length

/-- `scanSessionWithCount`. -/
def withCount (row : SessionRow) : StoredSession M :=
  row.scan [] (s.messageCount row.id)

/-- `SELECT … FROM sessions WHERE …`, at most one row. -/
def read (matching : SessionRow → Bool) (missing : Err) (load : SessionRow → StoredSession M) :
    Except Err (StoredSession M) :=
  match s.sessions.find? matching with
  | none => .error missing
  | some row => .ok (load row)

def getScoped (id : String) (_scope : ScopeFilter) : Except Err (StoredSession M) :=
  s.read (fun row => row.id = id) (notFound id) s.withMessages

def getMetadataScoped (id : String) (_scope : ScopeFilter) : Except Err (StoredSession M) :=
  s.read (fun row => row.id = id) (notFound id) s.withCount

def getByKeyScoped (sessionKey : String) (_scope : ScopeFilter) : Except Err (StoredSession M) :=
  s.read (fun row => row.key = sessionKey) (sessionKeyNotFound sessionKey) s.withMessages

def getByKeyMetadataScoped (sessionKey : String) (_scope : ScopeFilter) :
    Except Err (StoredSession M) :=
  s.read (fun row => row.key = sessionKey) (sessionKeyNotFound sessionKey) s.withCount

/-- `ORDER BY updated_at DESC`, on the texts of the column. -/
abbrev Newer (formatTime : Time → String) (a b : StoredSession M) : Prop :=
  formatTime b.updatedAt ≤ formatTime a.updatedAt

def listScoped (formatTime : Time → String) (filter : SessionListFilter)
    (order : Pages.Order (StoredSession M)) : List (StoredSession M) :=
  Pages.page (Newer formatTime) filter.limit (order (s.sessions.map s.withCount)).1

end SQLiteSessionStore

inductive SessionBackend (M : Type)
  | inMemory (s : InMemorySessionStore M)
  | jsonl (s : JSONLSessionStore M)
  | sqlite (s : SQLiteSessionStore M)

/-! ## A read of either -/

structure Stores (X M : Type) where
  runs : RunBackend X
  sessions : SessionBackend M

inductive ScopedRead
  | getRunScoped (id : String) (scope : ScopeFilter)
  | listRuns (filter : RunListFilter)
  | getScoped (id : String) (scope : ScopeFilter)
  | getMetadataScoped (id : String) (scope : ScopeFilter)
  | getByKeyScoped (sessionKey : String) (scope : ScopeFilter)
  | getByKeyMetadataScoped (sessionKey : String) (scope : ScopeFilter)
  | listScoped (filter : SessionListFilter)

def ScopedRead.scope : ScopedRead → ScopeFilter
  | .getRunScoped _ scope => scope
  | .listRuns filter => filter.scope
  | .getScoped _ scope => scope
  | .getMetadataScoped _ scope => scope
  | .getByKeyScoped _ scope => scope
  | .getByKeyMetadataScoped _ scope => scope
  | .listScoped filter => filter.scope

inductive ReadAnswer (X M : Type)
  | run (result : Except Err (Option (RunRecord X)))
  | runs (page : List (RunRecord X))
  | session (result : Except Err (StoredSession M))
  | sessions (page : List (StoredSession M))

/-- The scopes of the records in an answer. -/
def ReadAnswer.scopes : ReadAnswer X M → List Ref
  | .run (.ok (some r)) => [r.run.scope]
  | .run _ => []
  | .runs rs => rs.map fun r => r.run.scope
  | .session (.ok s) => [s.scope]
  | .session (.error _) => []
  | .sessions ss => ss.map StoredSession.scope

/-- How the stores encode what they hold, and the order in which they come across records. -/
structure ReadEnv (X M : Type) where
  cloning : Cloning X
  coding : JSONCoding M
  formatTime : Time → String
  runOrder : RunTable.Order X
  sessionOrder : Pages.Order (StoredSession M)

variable (env : ReadEnv X M)

/-- `GetRunScoped` of the runtime, which calls the store's `GetScoped`. -/
def RunBackend.getScoped : RunBackend X → String → ScopeFilter →
    Except Err (Option (RunRecord X))
  | .inMemory t => InMemoryRunStore.getScoped env.cloning t
  | .jsonl s => JSONLRunStore.getScoped env.cloning s
  | .sqlite s => s.getScoped

def RunBackend.list : RunBackend X → RunListFilter → List (RunRecord X)
  | .inMemory t, filter => InMemoryRunStore.list env.cloning t filter env.runOrder
  | .jsonl s, filter => JSONLRunStore.list env.cloning s filter env.runOrder
  | .sqlite s, filter => s.list env.formatTime filter env.runOrder

namespace SessionBackend

def getScoped : SessionBackend M → SessionRead M
  | .inMemory s => s.getScoped
  | .jsonl s => s.getScoped env.coding
  | .sqlite s => s.getScoped

def getMetadataScoped : SessionBackend M → SessionRead M
  | .inMemory s => s.getMetadataScoped
  | .jsonl s => s.getMetadataScoped
  | .sqlite s => s.getMetadataScoped

def getByKeyScoped : SessionBackend M → SessionRead M
  | .inMemory s => s.getByKeyScoped
  | .jsonl s => s.getByKeyScoped env.coding
  | .sqlite s => s.getByKeyScoped

def getByKeyMetadataScoped : SessionBackend M → SessionRead M
  | .inMemory s => s.getByKeyMetadataScoped
  | .jsonl s => s.getByKeyMetadataScoped
  | .sqlite s => s.getByKeyMetadataScoped

def listScoped : SessionBackend M → SessionListFilter → List (StoredSession M)
  | .inMemory s, filter => s.listScoped filter env.sessionOrder
  | .jsonl s, filter => s.listScoped filter env.sessionOrder
  | .sqlite s, filter => s.listScoped env.formatTime filter env.sessionOrder

end SessionBackend

def Stores.read (st : Stores X M) : ScopedRead → ReadAnswer X M
  | .getRunScoped id scope => .run (st.runs.getScoped env id scope)
  | .listRuns filter => .runs (st.runs.list env filter)
  | .getScoped id scope => .session (st.sessions.getScoped env id scope)
  | .getMetadataScoped id scope => .session (st.sessions.getMetadataScoped id scope)
  | .getByKeyScoped key scope => .session (st.sessions.getByKeyScoped env key scope)
  | .getByKeyMetadataScoped key scope => .session (st.sessions.getByKeyMetadataScoped key scope)
  | .listScoped filter => .sessions (st.sessions.listScoped env filter)

end Hopclaw.Store
