import Hopclaw.FileTree.Inodes
import Hopclaw.Store.RunLog

/-! # Calls of the run store that overlap

`Create`, `Update` and `ClaimQueuedRun` of `JSONLRunStore` change the maps under the mutex, but
write the log file outside of it: `Update` and `ClaimQueuedRun` after they released it, `Create`
before it takes it. Here a call is taken step by step, one system call or one critical section at
a time, so that the steps of several calls can come in any order. -/

namespace Hopclaw.Store

open Option Inodes RunTable JSONLRunStore

variable {X : Type}

/-- The log file of a run, and the file a snapshot of it is written to first. -/
inductive FileName
  | log (id : String)
  | tmp (id : String)
  deriving DecidableEq

def FileName.logID : FileName → Option String
  | .log id => some id
  | .tmp _ => none

/-- What a call inside `appendJSONL` does next. -/
inductive AppendStage
  /-- `os.OpenFile` for appending. -/
  | opening
  /-- `file.Write` of the line. -/
  | writing (file : ℕ)
  /-- `file.Stat`, and the comparison of the size with the threshold. -/
  | checking (file : ℕ)
  /-- `os.WriteFile` of the snapshot. -/
  | snapshotting
  /-- `os.Rename` of the snapshot. -/
  | replacing
  /-- The critical section of `Create`. -/
  | entering
  deriving DecidableEq

/-- The line is not written yet. -/
def AppendStage.unwritten : AppendStage → Bool
  | .opening | .writing _ => true
  | _ => false

/-- A call in progress, with the record it appends. -/
structure AppendCall (X : Type) where
  record : RunRecord X
  creating : Bool
  stage : AppendStage := .opening

/-- The store while calls are in progress, in the order in which they took their records: from the
    critical section, or for `Create` from the counter. -/
structure Appending (X : Type) where
  table : RunTable X := {}
  dir : Dir FileName (RunRecord X) := {}
  calls : List (AppendCall X) := []
  /-- An append returned an error. -/
  failed : Bool := false

/-- The counter moves on when a run id is drawn. -/
def RunTable.draw (t : RunTable X) : RunTable X :=
  { t with nextID := t.nextID + 1, issued := fun h => Nat.le_succ_of_le (t.issued h) }

/-- What the critical section of `Update` or `ClaimQueuedRun` leaves in the maps, and the record the
    call then appends; nothing if the call ends there. -/
def JSONLRunStore.section? (c : Cloning X) (t : RunTable X) :
    RunOp X → Option (RunRecord X × RunTable X)
  | .update now r => do
    let cloned ← cloneAgentRun c r
    let _ ← t.find? r.run.id
    return (cloned.stamped now, t.replace (cloned.stamped now))
  | .claimQueuedRun started now id => do
    let current ← t.find? id
    let cloned ← cloneAgentRun c current
    if current.run.status ≠ .queued then none
    else return (cloned.claimed started now, t.put (cloned.claimed started now))
  | _ => none

namespace Appending

variable (c : Cloning X) (s : Appending X)

/-- One step: a call begins, or the call at a place in the list goes on. -/
inductive Move (X : Type)
  | begin (op : RunOp X)
  | advance (i : ℕ)

/-- The call at a place goes on as given, or is over. -/
def resume (i : ℕ) (call : Option (AppendCall X)) : List (AppendCall X) :=
  s.calls.take i ++ call.toList ++ s.calls.drop (i + 1)

/-- `appendJSONL` has returned: `Create` enters its critical section, the other calls are over. -/
def returned (call : AppendCall X) : Option (AppendCall X) :=
  if call.creating then some { call with stage := .entering } else none

/-- One step of a call. A second writer of the temporary file before the rename makes one of the two
    renames fail, so writing it counts as one step. -/
def advance (i : ℕ) (call : AppendCall X) : Appending X :=
  let id := call.record.run.id
  match call.stage with
  | .opening =>
    { s with
      dir := (s.dir.openFile (.log id)).2
      calls := s.resume i (some { call with stage := .writing (s.dir.openFile (.log id)).1 }) }
  | .writing file =>
    { s with
      dir := s.dir.append file call.record
      calls := s.resume i (some { call with stage := .checking file }) }
  | .checking file =>
    if ((s.dir.content file).map c.lineBytes).sum < jsonlCompactThresholdBytes then
      { s with calls := s.resume i (returned call) }
    else { s with calls := s.resume i (some { call with stage := .snapshotting }) }
  | .snapshotting =>
    { s with
      dir := s.dir.writeFile (.tmp id) [call.record]
      calls := s.resume i (some { call with stage := .replacing }) }
  | .replacing =>
    match s.dir.rename (.tmp id) (.log id) with
    | none => { s with calls := s.resume i none, failed := true }
    | some dir => { s with dir, calls := s.resume i (returned call) }
  | .entering =>
    -- the counter has passed the number of the run, so only the maps change
    { s with table := s.table.restore call.record, calls := s.resume i none }

/-- A call leaves its critical section, or ends there. -/
def left : Option (RunRecord X × RunTable X) → Appending X
  | none => s
  | some (record, table) => { s with table, calls := s.calls ++ [{ record, creating := false }] }

def begin (op : RunOp X) : Appending X :=
  match op with
  | .create now sessionID msg cfg =>
    { s with
      table := s.table.draw
      calls := s.calls ++
        [{ record := newRun c { table := s.table } now sessionID msg cfg
           creating := true }] }
  | op => s.left (section? c s.table op)

def step : Move X → Appending X
  | .begin op => begin c s op
  | .advance i =>
    match s.calls[i]? with
    | none => s
    | some call => advance c s i call

/-- The files another store would find in the directory. -/
def logFiles : LogFiles X :=
  (s.dir.names.keys.filterMap FileName.logID).foldr
    (fun id files => (s.dir.read (.log id)).elim files fun lines => files.insert id lines) ∅

/-- The store as one whose calls are atomic would be, between calls. -/
def store : JSONLRunStore X where
  table := s.table
  files := s.logFiles

/-! ## What is read of the directory -/

variable {c s}

theorem logFiles_lookup (id : String) : s.logFiles.lookup id = s.dir.read (.log id) := by
  have hfold : ∀ ids : List String, AList.lookup id (ids.foldr (fun id files =>
      (s.dir.read (.log id)).elim files fun lines => files.insert id lines) (∅ : LogFiles X)) =
      if id ∈ ids then s.dir.read (.log id) else none := by
    intro ids
    induction ids with
    | nil => simp
    | cons a ids ih =>
      rw [List.foldr_cons]
      cases hr : s.dir.read (.log a) with
      | none =>
        rw [elim_none, ih]
        by_cases ha : id = a <;> simp [ha, hr]
      | some lines =>
        rw [elim_some, Maps.lookup_insert_if, ih]
        by_cases ha : id = a <;> simp [ha, hr]
  rw [logFiles, hfold]
  split_ifs with hmem
  · rfl
  · -- a name that is not in the directory has no file
    symm
    rw [Dir.read, map_eq_none_iff, AList.lookup_eq_none]
    intro hin
    exact hmem (List.mem_filterMap.mpr ⟨.log id, hin, rfl⟩)

/-- The last line of a run's log file. -/
def lastLine (d : Dir FileName (RunRecord X)) (id : String) : Option (RunRecord X) :=
  ((d.read (.log id)).getD []).getLast?

variable {d : Dir FileName (RunRecord X)}

theorem lastLine_openFile (id id' : String) :
    lastLine (d.openFile (.log id)).2 id' = lastLine d id' := by
  rw [lastLine, Dir.read_openFile]
  split_ifs with h
  · cases h
    rfl
  · rfl

theorem read_log_writeFile (id id' : String) (lines : List (RunRecord X)) :
    (d.writeFile (.tmp id) lines).read (.log id') = d.read (.log id') := by
  rw [Dir.read_writeFile, if_neg (by simp)]

theorem read_log_rename {id : String} {d' : Dir FileName (RunRecord X)}
    (h : d.rename (.tmp id) (.log id) = some d') (id' : String) :
    d'.read (.log id') = if id' = id then d.read (.tmp id) else d.read (.log id') := by
  rw [Dir.read_rename (by simp) h]
  simp

/-! ## Critical sections -/

/-- What a critical section leaves behind. -/
theorem section?_eq_some {t : RunTable X} (hs : JSONLRunStore.Stable c t) {op : RunOp X}
    {r : RunRecord X} {t' : RunTable X} (h : section? c t op = some (r, t')) :
    cloneAgentRun c r = some r ∧ t'.nextID = t.nextID ∧ (∃ old, t.find? r.run.id = some old) ∧
      ∀ id, t'.find? id = if id = r.run.id then some r else t.find? id := by
  cases op with
  | update now run =>
    simp only [section?, bind_eq_bind, bind_eq_some_iff, pure, some.injEq] at h
    obtain ⟨cloned, hc, old, hold, rfl, rfl⟩ := h
    have hfind : t.find? (cloned.stamped now).run.id = some old := by
      rw [← hold, ← (cloneAgentRun_keeps hc).1]
      rfl
    exact ⟨cloneAgentRun_stamped (cloneAgentRun_idem hc) now, replace_nextID _,
      ⟨old, hfind⟩, fun id => put_find? hfind id⟩
  | claimQueuedRun started now id =>
    simp only [section?, bind_eq_bind, bind_eq_some_iff] at h
    obtain ⟨current, hcurrent, cloned, hc, h⟩ := h
    rw [hs id current hcurrent, some.injEq] at hc
    subst hc
    split_ifs at h
    obtain ⟨rfl, rfl⟩ := h
    have hfind : t.find? (current.claimed started now).run.id = some current := by
      rw [← hcurrent, ← id_of_find? hcurrent]
      rfl
    exact ⟨cloneAgentRun_claimed (hs id current hcurrent) _ _, put_nextID _,
      ⟨current, hfind⟩, fun id => put_find? hfind id⟩
  | _ => cases h

end Appending

end Hopclaw.Store
