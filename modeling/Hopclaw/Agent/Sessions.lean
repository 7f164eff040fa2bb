import Hopclaw.Agent.Types
import Hopclaw.Domain.Maps

/-! # The in-memory session store

The part of `InMemorySessionStore` (`agent/memory.go`) that submitting and executing a run goes
through: finding or creating the session of a key, its active episode, and appending a message. -/

namespace Hopclaw

open GoStrings

/-- A session, without its transcript; `messageCount` is its length. -/
structure Session where
  id : String
  key : String
  model : String := ""
  revision : ℕ := 1
  messageCount : ℕ := 0
  createdAt : Time := 0
  updatedAt : Time := 0
  scope : Ref := {}
deriving DecidableEq

def sessionID (n : ℕ) : String :=
  "sess-" ++ String.ofList (zeroPadded 6 n)

def episodeID (n : ℕ) : String :=
  "ep-" ++ String.ofList (zeroPadded 6 n)

/-- An id as sessions have them: not blank, and without blanks around it. -/
def NamedID (id : String) : Prop :=
  trimSpace id = id ∧ id ≠ ""

theorem namedID_sessionID (n : ℕ) : NamedID (sessionID n) := by
  refine ⟨trimSpace_formatted ⟨'s', ['e', 's', 's', '-'], by decide, by decide⟩ 6 n, fun h => ?_⟩
  have hlist := congrArg String.toList h
  simp [sessionID] at hlist

/-- The store. A key leads to a stored session. -/
structure SessionStore where
  nextID : ℕ := 0
  nextEpisodeID : ℕ := 0
  byID : AList (fun _ : String => Session) := ∅
  byKey : AList (fun _ : String => String) := ∅
  activeEpisode : AList (fun _ : String => String) := ∅
  indexed : ∀ {key id}, byKey.lookup key = some id → id ∈ byID := by simp
  named : ∀ {id session}, byID.lookup id = some session → NamedID session.id := by simp

namespace SessionStore

variable (s : SessionStore)

def notFound (id : String) : Err :=
  ⟨"session " ++ id ++ " not found", none⟩

/-- Store a session under its id, and under its key if it is new. -/
def put (session : Session) (hnamed : NamedID session.id) (key? : Option String) : SessionStore :=
  { s with
    byID := s.byID.insert session.id session
    byKey := match key? with
      | none => s.byKey
      | some key => s.byKey.insert key session.id
    indexed := by
      intro k id h
      rw [AList.mem_insert]
      cases key? with
      | none => exact .inr (s.indexed h)
      | some key =>
        exact Maps.forall_insert (P := fun _ id => id = session.id ∨ id ∈ s.byID)
          (fun h => .inr (s.indexed h)) (.inl rfl) h
    named := Maps.forall_insert s.named hnamed }

/-- The session a new key gets. -/
def newSession (now : Time) (sessionKey defaultModel chosenID : String) : Session where
  id := if trimSpace chosenID = "" then sessionID (s.nextID + 1) else trimSpace chosenID
  key := sessionKey
  model := defaultModel
  createdAt := now
  updatedAt := now

theorem newSession_named (now : Time) (sessionKey defaultModel chosenID : String) :
    NamedID (s.newSession now sessionKey defaultModel chosenID).id := by
  simp only [newSession]
  split_ifs with h
  · exact namedID_sessionID _
  · exact ⟨trimSpace_trimSpace chosenID, h⟩

/-- The counter moves on only where it is used. -/
def getOrCreate (now : Time) (sessionKey defaultModel chosenID : String) : Session × SessionStore :=
  match (s.byKey.lookup sessionKey).bind s.byID.lookup with
  | some session => (session, s)
  | none =>
    let session := s.newSession now sessionKey defaultModel chosenID
    let s := if trimSpace chosenID = "" then { s with nextID := s.nextID + 1 } else s
    (session, s.put session (newSession_named _ now sessionKey defaultModel chosenID)
      (some sessionKey))

def createEpisode (id : String) : SessionStore :=
  { s with
    nextEpisodeID := s.nextEpisodeID + 1
    activeEpisode := s.activeEpisode.insert id (episodeID (s.nextEpisodeID + 1)) }

/-- `EnsureActiveEpisode`, and with `rotate` `StartNewEpisode`, which seals the active episode
    first. -/
def episode (id : String) (rotate : Bool) : Except Err Unit × SessionStore :=
  match s.byID.lookup id with
  | none => (.error (notFound id), s)
  | some _ =>
    match s.activeEpisode.lookup id, rotate with
    | some _, false => (.ok (), s)
    | _, _ => (.ok (), s.createEpisode id)

def appendUserMessage (now : Time) (id : String) (msg : IncomingMessage) :
    Except Err Unit × SessionStore :=
  match h : s.byID.lookup id with
  | none => (.error (notFound id), s)
  | some session =>
    let incoming := (scopeRefFromIncomingMessage msg).automationID
    let appended :=
      { session with
        messageCount := session.messageCount + 1
        scope := Ref.normalize (if trimSpace incoming ≠ "" then ⟨incoming⟩ else session.scope)
        model := if msg.model ≠ "" then msg.model else session.model
        revision := session.revision + 1
        updatedAt := now }
    (.ok (), s.put appended (show NamedID session.id from s.named h) none)

/-- `LoadForExecution`, up to the session lock. -/
def load (id : String) : Except Err Session :=
  match s.byID.lookup id with
  | none => .error (notFound id)
  | some session => .ok session

def getByKeyScoped (sessionKey : String) (scope : ScopeFilter) : Except Err Session :=
  match s.byKey.lookup sessionKey with
  | none => .error ⟨"session \"" ++ sessionKey ++ "\" not found", none⟩
  | some id =>
    match s.byID.lookup id with
    | none => .error (notFound id)
    | some session =>
      if scope.admits session.scope then .ok session
      else .error ⟨"session \"" ++ sessionKey ++ "\" not found", none⟩

def getByKey (sessionKey : String) : Except Err Session :=
  s.getByKeyScoped sessionKey {}

end SessionStore

end Hopclaw
