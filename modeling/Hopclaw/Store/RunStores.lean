import Hopclaw.Store.RunTable

/-! # The two run stores in memory

`InMemoryRunStore` (`agent/memory.go`) and `JSONLRunStore` (`store/jsonl.go`), method by method.
`JSONLRunStore` also writes every record it stores to the log file of the run; calls are atomic
here. A call answers with what it returns and with what it leaves in the record it was given. -/

namespace Hopclaw.Store

open GoStrings RunTable

variable {X : Type}

/-- A call of a run store, with the clock readings it makes and, for `List`, the order in which it
    comes across equal records. -/
inductive RunOp (X : Type)
  | create (now : Time) (sessionID : String) (msg : IncomingMessage) (cfg : AgentConfig)
  | update (now : Time) (run : RunRecord X)
  | claimQueuedRun (started now : Time) (runID : String)
  | getScoped (runID : String) (scope : ScopeFilter)
  | list (filter : RunListFilter) (order : RunTable.Order X)
  | findByExternalEvent (externalEventID : String)
  | seen (now : Time) (externalEventID : String) (within : ℤ)
  | pruneRuns (before : Time)

inductive RunAnswer (X : Type)
  /-- A run and an error; the run may be `nil` where there is no error. -/
  | run (result : Except Err (Option (RunRecord X)))
  /-- The caller's record after the call. -/
  | updated (result : Except Err (RunRecord X))
  | claimed (result : Except Err (RunRecord X × Bool))
  | page (runs : List (RunRecord X))
  | seen (answer : Bool)
  | pruned (count : ℕ)

/-! ## `InMemoryRunStore` -/

namespace InMemoryRunStore

variable (c : Cloning X) (t : RunTable X) (now : Time) (sessionID : String) (msg : IncomingMessage)
  (cfg : AgentConfig)

/-- The record `Create` makes. -/
def newRun : RunRecord X where
  run := createdRun t.nextID now sessionID msg cfg
  rest := c.fresh

def create : RunRecord X × RunTable X :=
  let run := newRun c t now sessionID msg cfg
  (run, t.add (cloneRun c run) rfl)

def update (now : Time) (r : RunRecord X) : Except Err (RunRecord X) × RunTable X :=
  match t.find? r.run.id with
  | none => (.error (notFound r.run.id), t)
  | some _ => (.ok (r.stamped now), t.replace (cloneRun c (r.stamped now)))

def claimQueuedRun (started now : Time) (id : String) :
    Except Err (RunRecord X × Bool) × RunTable X :=
  match t.find? id with
  | none => (.error (notFound id), t)
  | some current =>
    if current.run.status ≠ .queued then (.ok (cloneRun c current, false), t)
    else
      let claimed := (cloneRun c current).claimed started now
      (.ok (claimed, true), t.put (cloneRun c claimed))

def getScoped (id : String) (scope : ScopeFilter) : Except Err (Option (RunRecord X)) :=
  match t.find? id with
  | none => .error (notFound id)
  | some r =>
    if scope.admits r.run.scope then .ok (some (cloneRun c r)) else .error (notFound id)

def list (filter : RunListFilter) (order : RunTable.Order X) : List (RunRecord X) :=
  page filter (order ((t.selected filter).map (cloneRun c))).1

def findByExternalEvent (e : String) : Except Err (Option (RunRecord X)) :=
  match t.byEventID.lookup e with
  | none => .error (eventNotFound e)
  | some id =>
    match t.find? id with
    | none => .error (notFound id)
    | some r => .ok (some (cloneRun c r))

def step : RunOp X → RunAnswer X × RunTable X
  | .create now sessionID msg cfg =>
    (.run (.ok (some (create c t now sessionID msg cfg).1)), (create c t now sessionID msg cfg).2)
  | .update now r => (.updated (update c t now r).1, (update c t now r).2)
  | .claimQueuedRun started now id =>
    (.claimed (claimQueuedRun c t started now id).1, (claimQueuedRun c t started now id).2)
  | .getScoped id scope => (.run (getScoped c t id scope), t)
  | .list filter order => (.page (list c t filter order), t)
  | .findByExternalEvent e => (.run (findByExternalEvent c t e), t)
  | .seen now e within => (.seen (t.seen now e within), t)
  | .pruneRuns before => (.pruned (t.pruneRuns before).1, (t.pruneRuns before).2)

end InMemoryRunStore

/-! ## `JSONLRunStore` -/

def jsonlCompactThresholdBytes : ℕ := 512 * 1024

/-- `appendJSONL`, on the lines of one file: a file that has grown to the threshold is replaced by
    its new line. -/
def appendJSONL (c : Cloning X) (lines : List (RunRecord X)) (r : RunRecord X) :
    List (RunRecord X) :=
  if jsonlCompactThresholdBytes ≤ ((lines ++ [r]).map c.lineBytes).sum then [r] else lines ++ [r]

/-- The error of the JSON encoder, without the value it names. -/
def encodeError : Err :=
  ⟨"json: unsupported value", none⟩

/-- The maps, and for each run the lines of its log file, each line given by the record it
    encodes. -/
structure JSONLRunStore (X : Type) where
  table : RunTable X := {}
  files : AList (fun _ : String => List (RunRecord X)) := ∅

namespace JSONLRunStore

variable (c : Cloning X) (s : JSONLRunStore X) (now : Time) (sessionID : String)
  (msg : IncomingMessage) (cfg : AgentConfig)

/-- The files after a record was appended to the one of its run. -/
def appended (r : RunRecord X) : AList (fun _ : String => List (RunRecord X)) :=
  s.files.insert r.run.id (appendJSONL c ((s.files.lookup r.run.id).getD []) r)

/-- As in memory, but without the parent of the run. -/
def newRun : RunRecord X where
  run :=
    { id := runID (s.table.nextID + 1)
      sessionID := sessionID
      scope := scopeRefFromIncomingMessage msg
      inputEventID := msg.externalEventID
      status := .queued
      queueMode := cfg.queueMode
      phase := .preparing
      executionMode := .direct
      model := defaultString msg.model cfg.defaultModel
      lastSessionRevision := 0
      updatedAt := now }
  rest := c.fresh

/-- What a method that ends in `return cloneAgentRun(run)` returns. -/
def returned (r : RunRecord X) : Except Err (Option (RunRecord X)) :=
  match cloneAgentRun c r with
  | none => .error encodeError
  | some cloned => .ok (some cloned)

def create : Except Err (Option (RunRecord X)) × JSONLRunStore X :=
  let run := newRun c s now sessionID msg cfg
  (returned c run, { table := s.table.add run rfl, files := s.appended c run })

/-- The caller's record becomes the copy that was stored. -/
def update (now : Time) (r : RunRecord X) : Except Err (RunRecord X) × JSONLRunStore X :=
  match cloneAgentRun c r with
  | none => (.error encodeError, s)
  | some cloned =>
    let cloned := cloned.stamped now
    match s.table.find? r.run.id with
    | none => (.error (notFound r.run.id), s)
    | some _ => (.ok cloned, { table := s.table.replace cloned, files := s.appended c cloned })

def claimQueuedRun (started now : Time) (id : String) :
    Except Err (RunRecord X × Bool) × JSONLRunStore X :=
  match s.table.find? id with
  | none => (.error (notFound id), s)
  | some current =>
    match cloneAgentRun c current with
    | none => (.error encodeError, s)
    | some cloned =>
      if current.run.status ≠ .queued then (.ok (cloned, false), s)
      else
        let cloned := cloned.claimed started now
        let s' : JSONLRunStore X := { table := s.table.put cloned, files := s.appended c cloned }
        match cloneAgentRun c cloned with
        | none => (.error encodeError, s')
        | some out => (.ok (out, true), s')

def getScoped (id : String) (scope : ScopeFilter) : Except Err (Option (RunRecord X)) :=
  match s.table.find? id with
  | none => .error (notFound id)
  | some r =>
    if scope.admits r.run.scope then returned c r else .error (notFound id)

def list (filter : RunListFilter) (order : RunTable.Order X) : List (RunRecord X) :=
  page filter (order ((s.table.selected filter).filterMap (cloneAgentRun c))).1

/-- The copy of a record that is not there is `nil`, without an error. -/
def findByExternalEvent (e : String) : Except Err (Option (RunRecord X)) :=
  match s.table.byEventID.lookup e with
  | none => .error (eventNotFound e)
  | some id =>
    match s.table.find? id with
    | none => .ok none
    | some r => returned c r

/-- The files after the loop of `PruneRuns`. -/
def prunedFiles (before : Time) : AList (fun _ : String => List (RunRecord X)) :=
  (s.table.byID.entries.map Sigma.snd).foldl
    (fun files r => if expired before r.run then files.erase r.run.id else files) s.files

def pruneRuns (before : Time) : ℕ × JSONLRunStore X :=
  if before = 0 then (0, s)
  else
    ((s.table.pruneRuns before).1,
      { table := (s.table.pruneRuns before).2, files := s.prunedFiles before })

def step : RunOp X → RunAnswer X × JSONLRunStore X
  | .create now sessionID msg cfg =>
    (.run (create c s now sessionID msg cfg).1, (create c s now sessionID msg cfg).2)
  | .update now r => (.updated (update c s now r).1, (update c s now r).2)
  | .claimQueuedRun started now id =>
    (.claimed (claimQueuedRun c s started now id).1, (claimQueuedRun c s started now id).2)
  | .getScoped id scope => (.run (getScoped c s id scope), s)
  | .list filter order => (.page (list c s filter order), s)
  | .findByExternalEvent e => (.run (findByExternalEvent c s e), s)
  | .seen now e within => (.seen (s.table.seen now e within), s)
  | .pruneRuns before => (.pruned (s.pruneRuns before).1, (s.pruneRuns before).2)

/-! ### Its records are stable

Everything stored came out of an encoding, or is a new run. -/

/-- No record of the table is changed by another encoding. -/
def Stable (c : Cloning X) (t : RunTable X) : Prop :=
  ∀ id r, t.find? id = some r → cloneAgentRun c r = some r

variable {c s}

theorem newRun_stable : cloneAgentRun c (newRun c s now sessionID msg cfg) =
      some (newRun c s now sessionID msg cfg) :=
  cloneAgentRun_eq_self.mpr ⟨c.json_nil, c.json_fresh⟩

/-- An update fails and changes nothing, or it stores the copy it made. -/
theorem update_cases (now : Time) (r : RunRecord X) :
    (∃ e, update c s now r = (.error e, s) ∧
      (cloneAgentRun c r = none ∨ s.table.find? r.run.id = none)) ∨
    ∃ cloned old, cloneAgentRun c r = some cloned ∧ s.table.find? r.run.id = some old ∧
      update c s now r = (.ok (cloned.stamped now),
        { table := s.table.replace (cloned.stamped now)
          files := s.appended c (cloned.stamped now) }) := by
  unfold update
  cases cloneAgentRun c r with
  | none => exact .inl ⟨_, rfl, .inl rfl⟩
  | some cloned =>
    cases s.table.find? r.run.id with
    | none => exact .inl ⟨_, rfl, .inr rfl⟩
    | some old => exact .inr ⟨cloned, old, rfl, rfl, rfl⟩

/-- A claim of a store with stable records takes a queued run, or changes nothing. -/
theorem claimQueuedRun_cases (hs : Stable c s.table) (started now : Time) (id : String) :
    (claimQueuedRun c s started now id = (.error (notFound id), s) ∧
      s.table.find? id = none) ∨
    (∃ current, s.table.find? id = some current ∧ current.run.status ≠ .queued ∧
      claimQueuedRun c s started now id = (.ok (current, false), s)) ∨
    ∃ current, s.table.find? id = some current ∧ current.run.status = .queued ∧
      claimQueuedRun c s started now id = (.ok (current.claimed started now, true),
        { table := s.table.put (current.claimed started now)
          files := s.appended c (current.claimed started now) }) := by
  unfold claimQueuedRun
  cases hf : s.table.find? id with
  | none => exact .inl ⟨rfl, rfl⟩
  | some current =>
    have hstable := hs id current hf
    simp only [hstable, cloneAgentRun_claimed hstable]
    by_cases hq : current.run.status = .queued
    · rw [if_neg (not_not.mpr hq)]
      exact .inr (.inr ⟨current, rfl, hq, rfl⟩)
    · rw [if_pos hq]
      exact .inr (.inl ⟨current, rfl, hq, rfl⟩)

/-- A call changes nothing, or creates a run, or stores a record in the place of another one and
    writes it to the run's file, or prunes. -/
theorem step_cases (hs : Stable c s.table) (op : RunOp X) :
    ((step c s op).2 = s ∨ ∃ r old, s.table.find? r.run.id = some old ∧
      cloneAgentRun c r = some r ∧ (step c s op).2.files = s.appended c r ∧
      (step c s op).2.table.nextID = s.table.nextID ∧
      ∀ id, (step c s op).2.table.find? id = if id = r.run.id then some r else s.table.find? id) ∧
      (∀ now sessionID msg cfg, op ≠ .create now sessionID msg cfg) ∨
    (∃ now sessionID msg cfg, op = .create now sessionID msg cfg) ∨
    ∃ before, op = .pruneRuns before := by
  cases op with
  | create now sessionID msg cfg => exact .inr (.inl ⟨_, _, _, _, rfl⟩)
  | pruneRuns before => exact .inr (.inr ⟨_, rfl⟩)
  | update now r =>
    refine .inl ⟨?_, by simp⟩
    rcases update_cases (c := c) (s := s) now r with ⟨e, heq, -⟩ | ⟨cloned, old, hc, hf, heq⟩
    · exact .inl (by simp only [step, heq])
    · have hold : s.table.find? (cloned.stamped now).run.id = some old := by
        rw [← hf, ← (cloneAgentRun_keeps hc).1]
        rfl
      refine .inr ⟨cloned.stamped now, old, hold,
        cloneAgentRun_stamped (cloneAgentRun_idem hc) now, ?_⟩
      simp only [step, heq, replace_nextID, true_and]
      exact fun id => put_find? hold id
  | claimQueuedRun started now id =>
    refine .inl ⟨?_, by simp⟩
    rcases claimQueuedRun_cases hs started now id with ⟨heq, -⟩ | ⟨current, -, -, heq⟩ |
      ⟨current, hf, -, heq⟩
    · exact .inl (by simp only [step, heq])
    · exact .inl (by simp only [step, heq])
    · have hold : s.table.find? (current.claimed started now).run.id = some current := by
        rw [← hf, ← id_of_find? hf]
        rfl
      refine .inr ⟨current.claimed started now, current, hold,
        cloneAgentRun_claimed (hs id current hf) _ _, ?_⟩
      simp only [step, heq, put_nextID, true_and]
      exact fun id => put_find? hold id
  | getScoped id scope => exact .inl ⟨.inl rfl, by simp⟩
  | list filter order => exact .inl ⟨.inl rfl, by simp⟩
  | findByExternalEvent e => exact .inl ⟨.inl rfl, by simp⟩
  | seen now e within => exact .inl ⟨.inl rfl, by simp⟩

theorem step_stable (op : RunOp X) (h : Stable c s.table) : Stable c (step c s op).2.table := by
  rcases step_cases h op with ⟨heq | ⟨r, old, hold, hr, -, -, hfind⟩, -⟩ |
    ⟨now, sessionID, msg, cfg, rfl⟩ | ⟨before, rfl⟩
  · exact heq.symm ▸ h
  · exact RunTable.All.stored h hr hfind
  · exact RunTable.All.stored h (newRun_stable now sessionID msg cfg) (add_find? rfl)
  · intro id r hfind
    simp only [step, pruneRuns] at hfind
    split_ifs at hfind
    · exact h id r hfind
    · exact h id r (find?_of_pruneRuns hfind)

theorem stable_empty : Stable c ({} : JSONLRunStore X).table := by
  intro id r h
  simp [find?] at h

end JSONLRunStore

end Hopclaw.Store
