import Hopclaw.Domain.Keyed
import Hopclaw.Domain.Numbering
import Hopclaw.Interleaving.Trace
import Hopclaw.Store.SessionStores

/-! # Three session stores compared

The same calls are made on `InMemorySessionStore`, `JSONLSessionStore` and `SQLiteSessionStore`. All
three build the user message themselves, and only the first one carries over content blocks and
images. -/

namespace Hopclaw.Store

open List GoStrings Interleaving SQLiteSessionStore Maps

variable {M : Type} {c : JSONCoding M}

theorem sessionID_injective : Function.Injective sessionID := by
  intro m n h
  have hlist := congrArg String.toList h
  simp only [sessionID, String.toList_append, String.toList_ofList, append_cancel_left_eq] at hlist
  exact zeroPadded_injective 6 hlist

/-! ## The three stores -/

structure SessionStores (M : Type) where
  mem : InMemorySessionStore M := {}
  jsonl : JSONLSessionStore M := {}
  sqlite : SQLiteSessionStore M := {}

namespace SessionStores

variable {s : SessionStores M}

/-- A call that is made on all three, with the clock they read. -/
inductive Call (M : Type)
  | getOrCreate (now : Time) (sessionKey defaultModel : String)
  | appendUserMessage (now : Time) (id : String) (msg : UserInput M)

def after (c : JSONCoding M) (s : SessionStores M) : Call M → SessionStores M
  | .getOrCreate now sessionKey defaultModel =>
    { mem := (s.mem.getOrCreate now sessionKey defaultModel []).2
      jsonl := (s.jsonl.getOrCreate c now sessionKey defaultModel []).2
      sqlite := (s.sqlite.getOrCreate now sessionKey defaultModel []).2 }
  | .appendUserMessage now id msg =>
    { mem := (s.mem.appendUserMessage now id msg).2
      jsonl := (s.jsonl.appendUserMessage c now id msg).2
      sqlite := (s.sqlite.appendUserMessage c now id msg).2 }

/-- What is compared of a message; metadata as JSON has it. -/
structure MessageView (M : Type) where
  role : MessageRole
  content : String
  contentBlocks : List ContentBlock
  metadata : Option M

/-- What is compared of a session. -/
structure SessionView (M : Type) where
  key : String
  model : String
  revision : ℕ
  scope : Ref
  messages : List (MessageView M)

def messageView (c : JSONCoding M) (msg : Message M) : MessageView M where
  role := msg.role
  content := msg.content
  contentBlocks := msg.contentBlocks
  metadata := c.json msg.metadata

def view (c : JSONCoding M) (session : StoredSession M) : SessionView M where
  key := session.key
  model := session.model
  revision := session.revision
  scope := session.scope
  messages := session.messages.map (messageView c)

/-- Every session, loaded for execution, looks the same in all three. -/
def SameSessions (c : JSONCoding M) (s : SessionStores M) : Prop :=
  ∀ id, (s.jsonl.loadForExecution id).map (view c) = (s.mem.loadForExecution id).map (view c) ∧
    (s.sqlite.loadForExecution id).map (view c) = (s.mem.loadForExecution id).map (view c)

/-- A message that is appended to a session has no content blocks and no images that become ones,
    and its metadata can be encoded. -/
def PlainMessage (c : JSONCoding M) (s : SessionStores M) : Call M → Prop
  | .getOrCreate _ _ _ => True
  | .appendUserMessage _ id msg => id ∈ s.mem.byID →
    incomingContentBlocks msg = [] ∧ (c.json msg.metadata).isSome = true

/-! ## What a store of sessions is for -/

/-- The id of every key, and what is seen of every session. -/
structure Book (M : Type) where
  nextID : ℕ
  keys : String → Option String
  sessions : String → Option (SessionView M)

namespace Book

variable (b : Book M)

/-- A new session gets the next id. -/
def create (sessionKey defaultModel : String) : Book M where
  nextID := b.nextID + 1
  keys k := if k = sessionKey then some (sessionID (b.nextID + 1)) else b.keys k
  sessions id :=
    if id = sessionID (b.nextID + 1) then
      some { key := sessionKey, model := defaultModel, revision := 1, scope := {}, messages := [] }
    else b.sessions id

def write (id : String) (v : SessionView M) : Book M :=
  { b with sessions := fun id' => if id' = id then some v else b.sessions id' }

def load (id : String) : Except Err (SessionView M) :=
  match b.sessions id with
  | some v => .ok v
  | none => .error (SessionStore.notFound id)

theorem load_eq_iff {b b' : Book M} {id : String} :
    b.load id = b'.load id ↔ b.sessions id = b'.sessions id := by
  unfold load
  cases b.sessions id <;> cases b'.sessions id <;> simp

end Book

/-- What is seen after a message was appended. -/
def SessionView.appended (v : SessionView M) (msg : UserInput M) (m : MessageView M) :
    SessionView M where
  key := v.key
  model := if msg.model ≠ "" then msg.model else v.model
  revision := v.revision + 1
  scope := StoredSession.mergeScopeRef v.scope msg
  messages := v.messages ++ [m]

theorem SessionView.appended_inj {v : SessionView M} {msg : UserInput M} {m m' : MessageView M} :
    v.appended msg m = v.appended msg m' ↔ m = m' := by
  simp [SessionView.appended]

theorem SessionView.appended_ne (v : SessionView M) (msg : UserInput M) (m : MessageView M) :
    v ≠ v.appended msg m := by
  intro h
  have := congrArg SessionView.revision h
  simp [SessionView.appended] at this

variable {b : Book M} {id : String}

/-! ## The two stores of maps -/

section Maps

variable {nextID : ℕ} {byID : AList fun _ : String => StoredSession M}
  {byKey : AList fun _ : String => String} {locks : AList fun _ : String => Unit}

/-- The maps hold the book, and every session has its lock. -/
structure InMaps (c : JSONCoding M) (b : Book M) (nextID : ℕ)
    (byID : AList fun _ : String => StoredSession M) (byKey : AList fun _ : String => String)
    (locks : AList fun _ : String => Unit) : Prop where
  nextID : nextID = b.nextID
  keys : ∀ k, byKey.lookup k = b.keys k
  sessions : ∀ id, (byID.lookup id).map (view c) = b.sessions id
  locks : ∀ id, (locks.lookup id).isSome = (byID.lookup id).isSome

section

variable (h : InMaps c b nextID byID byKey locks)
include h

theorem InMaps.create (now : Time) (sessionKey defaultModel : String) :
    InMaps c (b.create sessionKey defaultModel) (nextID + 1)
      (byID.insert (sessionID (nextID + 1))
        (newSession (sessionID (nextID + 1)) sessionKey defaultModel now))
      (byKey.insert sessionKey (sessionID (nextID + 1)))
      (locks.insert (sessionID (nextID + 1)) ()) := by
  obtain ⟨rfl, hkeys, hsessions, hlocks⟩ := h
  refine ⟨rfl, fun k => ?_, fun id => ?_, fun id => ?_⟩
  · simp only [lookup_insert_if, hkeys, Book.create]
  · simp only [lookup_insert_if, Book.create, ← hsessions]
    split_ifs <;> rfl
  · rw [lookup_insert_if, lookup_insert_if]
    split_ifs
    · rfl
    · exact hlocks id

theorem InMaps.append {session : StoredSession M}
    (hid : byID.lookup id = some session) (now : Time) (msg : UserInput M) (m : Message M) :
    InMaps c (b.write id ((view c session).appended msg (messageView c m))) nextID
      (byID.insert id (session.appended now msg m)) byKey locks := by
  refine ⟨h.nextID, h.keys, fun id' => ?_, fun id' => ?_⟩
  · simp only [lookup_insert_if, Book.write, ← h.sessions]
    split_ifs
    · simp [view, StoredSession.appended, SessionView.appended]
    · rfl
  · rw [lookup_insert_if, h.locks]
    split_ifs with heq
    · rw [heq, hid]
      rfl
    · rfl

/-- A session that is seen has its lock. -/
theorem InMaps.found {v : SessionView M}
    (hv : b.sessions id = some v) : ∃ session lock, byID.lookup id = some session ∧
      locks.lookup id = some lock ∧ view c session = v := by
  obtain ⟨session, hs, hview⟩ := Option.map_eq_some_iff.mp ((h.sessions id).trans hv)
  obtain ⟨lock, hlock⟩ := Option.isSome_iff_exists.mp ((h.locks id).trans (by rw [hs]; rfl))
  exact ⟨session, lock, hs, hlock, hview⟩

theorem InMaps.missing (hv : b.sessions id = none) :
    byID.lookup id = none ∧ locks.lookup id = none := by
  have hs := Option.map_eq_none_iff.mp ((h.sessions id).trans hv)
  exact ⟨hs, Option.not_isSome_iff_eq_none.mp (by rw [h.locks, hs]; simp)⟩

/-- What looking up a session with its lock gives. -/
theorem InMaps.load (id : String) : Except.map (view c) (match locks.lookup id, byID.lookup id with
      | some _, some session => .ok session
      | _, _ => .error (SessionStore.notFound id)) = b.load id := by
  rw [Book.load]
  cases hv : b.sessions id with
  | none =>
    obtain ⟨hs, hlock⟩ := h.missing hv
    rw [hlock]
    rfl
  | some v =>
    obtain ⟨session, lock, hs, hlock, rfl⟩ := h.found hv
    rw [hs, hlock]
    rfl

end

end Maps

/-! ## The store of rows -/

variable {t : SQLiteSessionStore M}

/-- The row of a session. -/
def row? (t : SQLiteSessionStore M) (id : String) : Option SessionRow :=
  t.sessions.find? fun row => row.id = id

/-- The messages of a session, in the order of their rows. -/
def rowsOf (t : SQLiteSessionStore M) (id : String) : List (MessageRow M) :=
  t.messages.filter fun row => row.sessionID = id

/-- What is seen of a row and its messages. -/
def rowView (c : JSONCoding M) (row : SessionRow) (rows : List (MessageRow M)) : SessionView M where
  key := row.key
  model := row.model
  revision := row.revision
  scope := row.scope
  messages := rows.map fun r => messageView c r.message

/-- The scope is normal, and empty only if the metadata has no automation either. -/
structure SoundRow (row : SessionRow) : Prop where
  normal : row.scope.normalize = row.scope
  metadata : row.scope.automationID = "" → trimSpace row.metadataAutomationID = ""
  watermark : row.executionWatermark = 0

/-- The rows hold the book. -/
structure InRows (c : JSONCoding M) (b : Book M) (t : SQLiteSessionStore M) : Prop where
  nextID : t.nextID = b.nextID
  keys : ∀ k, (t.sessions.find? fun row => row.key = k).map SessionRow.id = b.keys k
  sessions : ∀ id, (row? t id).map (fun row => rowView c row (rowsOf t id)) = b.sessions id
  sound : ∀ row ∈ t.sessions, SoundRow row
  seqs : ∀ id, (rowsOf t id).Pairwise fun a b => a.seq < b.seq
  owned : ∀ id, rowsOf t id ≠ [] → (b.sessions id).isSome = true

/-- A scanned row has the scope that was written. -/
theorem SoundRow.scan_scope {row : SessionRow} (h : SoundRow row) (messages : List (Message M))
    (n : ℕ) : (row.scan messages n).scope = row.scope := by
  simp only [SessionRow.scan]
  split_ifs with hempty
  · rw [scopeRefFromMetadata, if_neg (not_not.mpr (h.metadata hempty)), ← h.normal]
    simp only [Ref.normalize, hempty]
  · rfl

theorem InRows.create (h : InRows c b t) (now : Time) {sessionKey : String} (defaultModel : String)
    (hkey : b.keys sessionKey = none) (hnew : b.sessions (sessionID (b.nextID + 1)) = none) :
    InRows c (b.create sessionKey defaultModel)
      { t with
        nextID := t.nextID + 1
        sessions := t.sessions ++
          [{ id := sessionID (t.nextID + 1), key := sessionKey, model := defaultModel, revision := 1
             scope := {}, createdAt := now, updatedAt := now }] } := by
  have hfresh : t.nextID = b.nextID := h.nextID
  refine ⟨congrArg (· + 1) hfresh, fun k => ?_, fun id => ?_, fun row hrow => ?_, h.seqs,
    fun id hne => ?_⟩
  · simp only [Book.create, find?_append, hfresh]
    by_cases hk : k = sessionKey
    · rw [if_pos hk, hk, Option.map_eq_none_iff.mp ((h.keys sessionKey).trans hkey)]
      simp
    · rw [if_neg hk, ← h.keys]
      simp [Ne.symm hk]
  · simp only [Book.create, row?, find?_append, hfresh]
    by_cases hid : id = sessionID (b.nextID + 1)
    · -- the new session has no messages
      have hrows : rowsOf t (sessionID (b.nextID + 1)) = [] := by
        by_contra hne
        simpa [hnew] using h.owned _ hne
      have hrow : t.sessions.find? (fun row => row.id = sessionID (b.nextID + 1)) = none :=
        Option.map_eq_none_iff.mp ((h.sessions _).trans hnew)
      rw [if_pos hid, hid, hrow]
      simpa [rowView, rowsOf] using hrows
    · rw [if_neg hid, ← h.sessions]
      simp [Ne.symm hid, row?, rowsOf]
  · rcases mem_append.mp hrow with hrow | hrow
    · exact h.sound row hrow
    · rw [mem_singleton.mp hrow]
      exact ⟨show Ref.normalize {} = {} by decide +kernel,
        fun _ => show trimSpace "" = "" by decide +kernel, rfl⟩
  · simp only [Book.create]
    split_ifs
    · rfl
    · exact h.owned id hne

/-- The message the persistent stores build, with its metadata as they keep it. -/
def plainMessage (now : Time) (msg : UserInput M) (metadata : M) : Message M :=
  { role := .user, content := msg.content, createdAt := now, metadata }

theorem SoundRow.appendedRow {row : SessionRow} (h : SoundRow row) (now : Time)
    (msg : UserInput M) :
    (appendedRow now msg row).scope = StoredSession.mergeScopeRef row.scope msg ∧
      SoundRow (appendedRow now msg row) := by
  have hscope : (SQLiteSessionStore.appendedRow now msg row).scope =
      StoredSession.mergeScopeRef row.scope msg := by
    simp only [SQLiteSessionStore.appendedRow, h.scan_scope]
  refine ⟨hscope, ?_, fun hempty => ?_, h.watermark⟩
  · rw [hscope]
    simp only [StoredSession.mergeScopeRef, Ref.normalize, trimSpace_trimSpace]
  · rw [hscope] at hempty
    simp only [SQLiteSessionStore.appendedRow, StoredSession.mergeSessionMetadata]
    simp only [StoredSession.mergeScopeRef, Ref.normalize] at hempty
    by_cases hin : trimSpace (scopeRefFromIncomingMessage msg.toIncomingMessage).automationID = ""
    · rw [if_neg (not_not.mpr hin)] at hempty
      rw [if_pos hin]
      have hsame : trimSpace row.scope.automationID = row.scope.automationID :=
        congrArg Ref.automationID h.normal
      exact h.metadata (hsame ▸ hempty)
    · rw [if_pos hin] at hempty
      exact absurd hempty hin

theorem InRows.append (h : InRows c b t) {v : SessionView M} (hv : b.sessions id = some v)
    (now : Time) (msg : UserInput M) (metadata : M) :
    InRows c (b.write id (v.appended msg (messageView c (plainMessage now msg metadata))))
      { t with
        sessions := t.sessions.map fun row =>
          if row.id = id then appendedRow now msg row else row
        messages := t.messages ++ [⟨id, t.nextSeq id, plainMessage now msg metadata⟩] } := by
  have hrows : ∀ (r : MessageRow M) id',
      (t.messages ++ [r]).filter (fun row => row.sessionID = id') =
        rowsOf t id' ++ if id' = r.sessionID then [r] else [] := by
    intro r id'
    by_cases hid : id' = r.sessionID
    · simp [hid, rowsOf]
    · simp [hid, Ne.symm hid, rowsOf]
  refine ⟨h.nextID, fun k => ?_, fun id' => ?_, fun row hrow => ?_, fun id' => ?_,
    fun id' hne => ?_⟩
  · change (Keyed.get SessionRow.key k (map _ _)).map _ = _
    rw [Keyed.get_map fun row => by split_ifs <;> rfl, Option.map_map]
    refine Eq.trans (congrArg (Option.map · _) (funext fun row => ?_)) (h.keys k)
    simp only [Function.comp]
    split_ifs <;> rfl
  · change (Keyed.get SessionRow.id id' (map _ _)).map _ = _
    rw [Keyed.get_map fun row => by split_ifs <;> rfl, Option.map_map]
    simp only [Book.write, rowsOf, hrows, ← h.sessions]
    by_cases hid : id' = id
    · obtain ⟨row, hrow, rfl⟩ := Option.map_eq_some_iff.mp ((h.sessions id).trans hv)
      have hid' : row.id = id := by simpa using find?_some hrow
      have hscope := ((h.sound row (mem_of_find?_eq_some hrow)).appendedRow now msg).1
      rw [hid, show Keyed.get SessionRow.id id t.sessions = some row from hrow]
      simp only [Option.map_some, Function.comp, hid', if_true, rowView, SessionView.appended, hscope]
      simp [appendedRow, SessionRow.scan, rowsOf]
    · simp only [if_neg hid]
      refine Option.map_congr fun row hrow => ?_
      have hrow' : row.id = id' := by simpa using find?_some hrow
      simp [hrow', hid]
  · obtain ⟨old, hold, rfl⟩ := mem_map.mp hrow
    split_ifs
    · exact ((h.sound old hold).appendedRow now msg).2
    · exact h.sound old hold
  · rw [rowsOf, hrows]
    split_ifs with hid
    · rw [pairwise_append]
      refine ⟨h.seqs id', pairwise_singleton _ _, fun a ha b hb => ?_⟩
      rw [mem_singleton.mp hb]
      subst hid
      exact Nat.lt_succ_of_le (le_top (mem_map_of_mem ha))
    · rw [append_nil]
      exact h.seqs id'
  · simp only [Book.write]
    split_ifs with hid
    · rfl
    · rw [rowsOf, hrows, if_neg hid, append_nil] at hne
      exact h.owned id' hne

/-! ## The stores side by side -/

/-- The maps of the first store hold the book. -/
def InMem (c : JSONCoding M) (b : Book M) (m : InMemorySessionStore M) : Prop :=
  InMaps c b m.nextID m.byID m.byKey m.locks

/-- Those of the second do. -/
def InJSONL (c : JSONCoding M) (b : Book M) (m : JSONLSessionStore M) : Prop :=
  InMaps c b m.nextID m.byID m.byKey m.locks

theorem InJSONL.load {m : JSONLSessionStore M} (h : InJSONL c b m) (id : String) :
    (m.loadForExecution id).map (view c) = b.load id :=
  InMaps.load h id

theorem InMem.load {m : InMemorySessionStore M} (h : InMem c b m) (id : String) :
    (m.loadForExecution id).map (view c) = b.load id := by
  rw [← InMaps.load h id]
  change ((m.find id).map StoredSession.clone).map (view c) = (m.find id).map (view c)
  cases m.find id <;> rfl

theorem InRows.load (h : InRows c b t) (id : String) :
    (t.loadForExecution id).map (view c) = b.load id := by
  rw [loadForExecution, Book.load, ← h.sessions, row?]
  cases hrow : t.sessions.find? fun row => row.id = id with
  | none => rfl
  | some row =>
    have hsound := h.sound row (mem_of_find?_eq_some hrow)
    have hid : row.id = id := by simpa using find?_some hrow
    have hrows : t.storedMessages row.id row.executionWatermark = rowsOf t id := by
      rw [storedMessages, hid, hsound.watermark]
      simp only [decide_true, Bool.true_or, filter_true]
      exact List.Pairwise.insertionSort_eq ((h.seqs id).imp fun hlt => Nat.le_of_lt hlt)
    simp only [Except.map, hrows, view, rowView, hsound.scan_scope]
    simp [SessionRow.scan]

theorem SameSessions.books {b₁ b₂ b₃ : Book M} (h : SameSessions c s) (h₁ : InMem c b₁ s.mem)
    (h₂ : InJSONL c b₂ s.jsonl) (h₃ : InRows c b₃ s.sqlite) (id : String) :
    b₂.sessions id = b₁.sessions id ∧ b₃.sessions id = b₁.sessions id := by
  have hid := h id
  rwa [h₁.load, h₂.load, h₃.load, Book.load_eq_iff, Book.load_eq_iff] at hid

/-- All three stores hold the book. -/
structure Hold (c : JSONCoding M) (b : Book M) (s : SessionStores M) : Prop where
  mem : InMem c b s.mem
  jsonl : InJSONL c b s.jsonl
  sqlite : InRows c b s.sqlite
  numbered : ∀ id, (b.sessions id).isSome = true → ∃ n, n ≤ b.nextID ∧ id = sessionID n

theorem Hold.same (h : Hold c b s) : SameSessions c s := by
  intro id
  rw [h.mem.load, h.jsonl.load, h.sqlite.load]
  exact ⟨rfl, rfl⟩

theorem hold_empty : Hold c ⟨0, fun _ => none, fun _ => none⟩ {} := by
  refine ⟨⟨rfl, ?_, ?_, ?_⟩, ⟨rfl, ?_, ?_, ?_⟩, ⟨rfl, ?_, ?_, ?_, ?_, ?_⟩, ?_⟩ <;>
    simp [row?, rowsOf]

theorem Hold.getOrCreate (h : Hold c b s) (now : Time) (sessionKey defaultModel : String) :
    ∃ b', Hold c b' (after c s (.getOrCreate now sessionKey defaultModel)) := by
  have hm := h.mem.keys sessionKey
  have hj := h.jsonl.keys sessionKey
  have hr := h.sqlite.keys sessionKey
  cases hkey : b.keys sessionKey with
  | some id =>
    rw [hkey] at hm hj hr
    obtain ⟨row, hrow, -⟩ := Option.map_eq_some_iff.mp hr
    have hjsonl : (s.jsonl.getOrCreate c now sessionKey defaultModel []).2 = s.jsonl := by
      simp only [JSONLSessionStore.getOrCreate, hj]
      split
      · rfl
      · split <;> rfl
    simp only [after, InMemorySessionStore.getOrCreate, hm, hjsonl, SQLiteSessionStore.getOrCreate,
      hrow]
    exact ⟨b, h⟩
  | none =>
    rw [hkey] at hm hj hr
    have hnew : b.sessions (sessionID (b.nextID + 1)) = none := by
      rw [← Option.not_isSome_iff_eq_none]
      intro hsome
      obtain ⟨n, hle, heq⟩ := h.numbered _ hsome
      have := sessionID_injective heq
      omega
    have hany : ¬ (s.sqlite.sessions.any fun row =>
        row.id = chosenID [] (sessionID (s.sqlite.nextID + 1))) := by
      rw [any_eq_true, ← find?_isSome, h.sqlite.nextID, Option.not_isSome_iff_eq_none]
      exact Option.map_eq_none_iff.mp ((h.sqlite.sessions _).trans hnew)
    refine ⟨b.create sessionKey defaultModel, ?_, ?_, ?_, fun id hid => ?_⟩
    · simp only [after, InMemorySessionStore.getOrCreate, hm]
      exact InMaps.create h.mem now sessionKey defaultModel
    · simp only [after, JSONLSessionStore.getOrCreate, hj]
      exact InMaps.create h.jsonl now sessionKey defaultModel
    · simp only [after, SQLiteSessionStore.getOrCreate, Option.map_eq_none_iff.mp hr]
      rw [if_neg hany]
      exact h.sqlite.create now defaultModel hkey hnew
    · simp only [Book.create] at hid
      split_ifs at hid with heq
      · exact ⟨_, le_rfl, heq⟩
      · obtain ⟨n, hle, hn⟩ := h.numbered id hid
        exact ⟨n, Nat.le_succ_of_le hle, hn⟩

/-- The message the first store builds. -/
def memMessage (now : Time) (msg : UserInput M) : Message M :=
  { role := .user, content := msg.content, contentBlocks := incomingContentBlocks msg
    createdAt := now, metadata := msg.metadata }

/-- The message is lost or changed somewhere, unless it is plain. -/
theorem Hold.append (h : Hold c b s) (now : Time) (id : String) (msg : UserInput M) :
    (PlainMessage c s (.appendUserMessage now id msg) →
      ∃ b', Hold c b' (after c s (.appendUserMessage now id msg))) ∧
    (SameSessions c (after c s (.appendUserMessage now id msg)) →
      PlainMessage c s (.appendUserMessage now id msg)) := by
  cases hv : b.sessions id with
  | none =>
    obtain ⟨hm, hmlock⟩ := InMaps.missing h.mem hv
    obtain ⟨hj, hjlock⟩ := InMaps.missing h.jsonl hv
    have hr : s.sqlite.sessions.find? (fun row => row.id = id) = none :=
      Option.map_eq_none_iff.mp ((h.sqlite.sessions id).trans hv)
    refine ⟨fun _ => ⟨b, ?_⟩, fun _ hin => absurd hin (AList.lookup_eq_none.mp hm)⟩
    simp only [after, InMemorySessionStore.appendUserMessage, InMemorySessionStore.find, hmlock,
      JSONLSessionStore.appendUserMessage, JSONLSessionStore.find, hjlock,
      appendUserMessage, hr]
    exact h
  | some v =>
    obtain ⟨session, lock, hm, hmlock, hmv⟩ := InMaps.found h.mem hv
    obtain ⟨session', lock', hj, hjlock, hjv⟩ := InMaps.found h.jsonl hv
    obtain ⟨row, hr, -⟩ := Option.map_eq_some_iff.mp ((h.sqlite.sessions id).trans hv)
    have hr' : s.sqlite.sessions.find? (fun row => row.id = id) = some row := hr
    have hin : id ∈ s.mem.byID := AList.lookup_isSome.mp (by rw [hm]; rfl)
    have hblocks : messageView c (plainMessage now msg msg.metadata) =
        messageView c (memMessage now msg) ↔ incomingContentBlocks msg = [] := by
      simp only [messageView, plainMessage, memMessage, MessageView.mk.injEq, true_and, and_true]
      exact eq_comm
    have hmem := InMaps.append h.mem hm now msg (memMessage now msg)
    have hjsonl := InMaps.append h.jsonl hj now msg (plainMessage now msg msg.metadata)
    rw [hmv] at hmem
    rw [hjv] at hjsonl
    simp only [PlainMessage, hin, true_imp_iff, after, InMemorySessionStore.appendUserMessage,
      InMemorySessionStore.find, hm, hmlock, JSONLSessionStore.appendUserMessage,
      JSONLSessionStore.find, hj, hjlock, appendUserMessage, hr']
    cases hjson : c.json msg.metadata with
    | none =>
      refine ⟨fun hplain => absurd hplain.2 (by simp), fun hsame => ?_⟩
      -- nothing was written to the tables
      have := (hsame.books hmem hjsonl h.sqlite id).2
      simp only [hv, Book.write, if_true, Option.some.injEq] at this
      exact absurd this (SessionView.appended_ne _ _ _)
    | some metadata =>
      have hsqlite := h.sqlite.append hv now msg metadata
      have hlast : messageView c (plainMessage now msg metadata) =
          messageView c (plainMessage now msg msg.metadata) := by
        simp [messageView, plainMessage, hjson, c.json_json hjson]
      refine ⟨fun hplain => ?_, fun hsame => ⟨?_, rfl⟩⟩
      · rw [hblocks.mpr hplain.1] at hjsonl hlast
        rw [hlast] at hsqlite
        refine ⟨_, hmem, hjsonl, hsqlite, fun id' hid' => h.numbered id' ?_⟩
        simp only [Book.write] at hid'
        split_ifs at hid' with heq
        · rw [heq, hv]
          rfl
        · exact hid'
      · have := (hsame.books hmem hjsonl hsqlite id).1
        simpa [Book.write, SessionView.appended_inj, hblocks] using this

/-! ## Whole histories -/

/-- After every part of a history the three stores yield the same sessions, exactly if every message
    that is appended to a session is plain. -/
theorem session_stores_agree_iff (c : JSONCoding M) (calls : List (Call M)) :
    (∀ done, done <+: calls → SameSessions c (runAll (after c) {} done)) ↔
      Meets (after c) (PlainMessage c) {} calls := by
  refine Meets.iff_always (K := fun s => ∃ b, Hold c b s) (fun s ⟨b, h⟩ => h.same)
    (fun s call ⟨b, h⟩ => ?_) ⟨_, hold_empty⟩
  cases call with
  | getOrCreate now sessionKey defaultModel =>
    exact ⟨fun _ => h.getOrCreate now sessionKey defaultModel, fun _ => trivial⟩
  | appendUserMessage now id msg => exact h.append now id msg

/-- A session gets a message with an image. -/
def imageCalls : List (Call Unit) :=
  [.getOrCreate 1 "chat" "",
    .appendUserMessage 2 "sess-000001"
      { sessionKey := "chat", content := "what is this?"
        images := ["data:image/png;base64,AAAA"], metadata := () }]

/-- The content blocks of the messages of a loaded session. -/
def blocksOf (result : Except Err (StoredSession M)) : List (List ContentBlock) :=
  match result with
  | .ok session => session.messages.map Message.contentBlocks
  | .error _ => []

/-- Only the first store keeps the image. -/
theorem persistent_stores_lose_images :
    blocksOf ((runAll (after (.plain Unit)) {} imageCalls).mem.loadForExecution "sess-000001") =
      [[{ type := .text, text := "what is this?" },
        { type := .image, mediaType := "image/png", data := "AAAA" }]] ∧
    blocksOf ((runAll (after (.plain Unit)) {} imageCalls).jsonl.loadForExecution "sess-000001") =
      [[]] ∧
    blocksOf ((runAll (after (.plain Unit)) {} imageCalls).sqlite.loadForExecution "sess-000001") =
      [[]] := by
  decide +kernel

end SessionStores

end Hopclaw.Store
