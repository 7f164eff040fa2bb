import Hopclaw.Agent.RunStore

/-! # Run tables

Both run stores that live in memory, `InMemoryRunStore` (`agent/memory.go`) and `JSONLRunStore`
(`store/jsonl.go`), keep the same two maps: the records by id, and for an external event the id of
the run it is recorded under. This module has the maps and what the two stores do to them in the
same way; the stores differ in the records they make and in how they copy them. -/

namespace Hopclaw.Store

open Option GoStrings Maps

/-! ## Records -/

/-- A run as a store holds it: the fields the development reads, and those that are only carried
    along (profile, semantic signal, triage, contract, delegation, governance, graph, workflow). -/
structure RunRecord (X : Type) where
  run : Run
  rest : X

/-- How records are copied. In memory a copy is a deep copy, on the way normalising the governance
    decision among the carried fields. The other store encodes a record as JSON and decodes it
    again, which may fail, and which decodes the inputs of pending tools into JSON's own types. What
    came out of a copy of either kind is not changed by another one. -/
structure Cloning (X : Type) where
  /-- The carried fields of a new run. -/
  fresh : X
  copyRest : X → X
  jsonRest : X → Option X
  jsonTools : List ToolCall → Option (List ToolCall)
  /-- The length of a record's line in a log file. -/
  lineBytes : RunRecord X → ℕ
  copy_fresh : copyRest fresh = fresh
  copy_copy : ∀ x, copyRest (copyRest x) = copyRest x
  json_fresh : jsonRest fresh = some fresh
  json_nil : jsonTools [] = some []
  json_rest : ∀ {x y}, jsonRest x = some y → jsonRest y = some y
  json_tools : ∀ {tools decoded}, jsonTools tools = some decoded → jsonTools decoded = some decoded

/-- The plainest cloning: nothing is carried along, and JSON changes nothing. -/
def Cloning.plain : Cloning Unit where
  fresh := ()
  copyRest := id
  jsonRest := some
  jsonTools := some
  lineBytes := fun _ => 0
  copy_fresh := rfl
  copy_copy := fun _ => rfl
  json_fresh := rfl
  json_nil := rfl
  json_rest := fun h => h
  json_tools := fun h => some.inj h ▸ rfl

variable {X : Type} (c : Cloning X)

/-- `cloneRun` of `agent/memory.go`. -/
def cloneRun (r : RunRecord X) : RunRecord X :=
  { r with rest := c.copyRest r.rest }

/-- `cloneAgentRun` of `store/jsonl.go`. -/
def cloneAgentRun (r : RunRecord X) : Option (RunRecord X) := do
  let tools ← c.jsonTools r.run.pendingTools
  let rest ← c.jsonRest r.rest
  return { run := { r.run with pendingTools := tools }, rest }

theorem cloneRun_cloneRun (r : RunRecord X) : cloneRun c (cloneRun c r) = cloneRun c r := by
  simp [cloneRun, c.copy_copy]

variable {c}

variable {r : RunRecord X}

variable {r' : RunRecord X}

theorem cloneAgentRun_eq_some : cloneAgentRun c r = some r' ↔
    ∃ tools rest, c.jsonTools r.run.pendingTools = some tools ∧ c.jsonRest r.rest = some rest ∧
      r' = { run := { r.run with pendingTools := tools }, rest } := by
  unfold cloneAgentRun
  simp only [bind_eq_bind, bind_eq_some_iff, pure, some.injEq]
  constructor
  · rintro ⟨tools, ht, rest, hr, rfl⟩
    exact ⟨tools, rest, ht, hr, rfl⟩
  · rintro ⟨tools, rest, ht, hr, rfl⟩
    exact ⟨tools, ht, rest, hr, rfl⟩

/-- A record survives the encoding exactly if its inputs and its carried fields do. -/
theorem cloneAgentRun_eq_self : cloneAgentRun c r = some r ↔
    c.jsonTools r.run.pendingTools = some r.run.pendingTools ∧ c.jsonRest r.rest = some r.rest := by
  rw [cloneAgentRun_eq_some]
  constructor
  · rintro ⟨tools, rest, ht, hr, heq⟩
    have hrun := congrArg (fun r : RunRecord X => r.run.pendingTools) heq
    have hrest := congrArg RunRecord.rest heq
    exact ⟨hrun ▸ ht, hrest ▸ hr⟩
  · rintro ⟨ht, hr⟩
    exact ⟨_, _, ht, hr, rfl⟩

theorem cloneAgentRun_idem (h : cloneAgentRun c r = some r') : cloneAgentRun c r' = some r' := by
  obtain ⟨tools, rest, ht, hr, rfl⟩ := cloneAgentRun_eq_some.mp h
  exact cloneAgentRun_eq_self.mpr ⟨c.json_tools ht, c.json_rest hr⟩

/-- The encoding keeps every field that is not an input of a pending tool. -/
theorem cloneAgentRun_keeps (h : cloneAgentRun c r = some r') :
    r'.run.id = r.run.id ∧ r'.run.inputEventID = r.run.inputEventID := by
  obtain ⟨tools, rest, -, -, rfl⟩ := cloneAgentRun_eq_some.mp h
  exact ⟨rfl, rfl⟩

/-- The record with another stamp. -/
def RunRecord.stamped (r : RunRecord X) (now : Time) : RunRecord X :=
  { r with run := r.run.stamped now }

/-- What a claim makes of a queued run. -/
def RunRecord.claimed (started now : Time) (r : RunRecord X) : RunRecord X :=
  { r with run := RunStore.claimed started now r.run }

theorem cloneAgentRun_stamped (h : cloneAgentRun c r = some r) (now : Time) :
    cloneAgentRun c (r.stamped now) = some (r.stamped now) := by
  obtain ⟨htools, hrest⟩ := cloneAgentRun_eq_self.mp h
  exact cloneAgentRun_eq_self.mpr ⟨htools, hrest⟩

theorem cloneAgentRun_claimed (h : cloneAgentRun c r = some r) (started now : Time) :
    cloneAgentRun c (r.claimed started now) = some (r.claimed started now) := by
  obtain ⟨htools, hrest⟩ := cloneAgentRun_eq_self.mp h
  exact cloneAgentRun_eq_self.mpr ⟨htools, hrest⟩

/-! ## The maps -/

/-- Every record sits under its own id, and no id is ahead of the counter. -/
@[ext] structure RunTable (X : Type) where
  nextID : ℕ := 0
  byID : AList (fun _ : String => RunRecord X) := ∅
  byEventID : AList (fun _ : String => String) := ∅
  keyed : ∀ {id r}, byID.lookup id = some r → r.run.id = id := by simp
  issued : ∀ {n}, runID n ∈ byID → n ≤ nextID := by simp

variable {id : String}

namespace RunTable

variable (t : RunTable X)

def find? (id : String) : Option (RunRecord X) :=
  t.byID.lookup id

variable {t}

theorem mem_of_find? (h : t.find? id = some r) : id ∈ t.byID :=
  AList.lookup_isSome.mp (by rw [show t.byID.lookup id = some r from h]; rfl)

theorem id_of_find? (h : t.find? id = some r) : r.run.id = id :=
  t.keyed h

theorem find?_fresh (t : RunTable X) : t.find? (runID (t.nextID + 1)) = none := by
  rw [find?, AList.lookup_eq_none]
  intro hmem
  have := t.issued hmem
  omega

variable (t)

/-- Record the run as the one its event created. -/
def indexed (run : Run) : AList (fun _ : String => String) :=
  if run.inputEventID ≠ "" then t.byEventID.insert run.inputEventID run.id else t.byEventID

/-- Store a new record under the next id. -/
def add (r : RunRecord X) (hid : r.run.id = runID (t.nextID + 1)) : RunTable X where
  nextID := t.nextID + 1
  byID := t.byID.insert r.run.id r
  byEventID := t.indexed r.run
  keyed := Maps.forall_insert t.keyed rfl
  issued := by
    intro n h
    rw [AList.mem_insert] at h
    rcases h with h | h
    · exact le_of_eq (runID_injective (h.trans hid))
    · exact Nat.le_succ_of_le (t.issued h)

/-- Replace the record under an id that is in use. -/
def put (r : RunRecord X) : RunTable X :=
  if h : r.run.id ∈ t.byID then
    { t with
      byID := t.byID.insert r.run.id r
      keyed := Maps.forall_insert t.keyed rfl
      issued := by
        intro n hn
        rw [AList.mem_insert] at hn
        rcases hn with hn | hn
        · exact t.issued (hn ▸ h)
        · exact t.issued hn }
  else t

/-- Replace the record, and record it under its event. -/
def replace (r : RunRecord X) : RunTable X :=
  { t.put r with byEventID := t.indexed r.run }

/-- One record the loop of `PruneRuns` deletes. -/
def drop (id externalEventID : String) : RunTable X :=
  { t with
    byID := t.byID.erase id
    byEventID := if trimSpace externalEventID ≠ "" then t.byEventID.erase externalEventID
      else t.byEventID
    keyed := fun h => t.keyed (Maps.lookup_of_erase h).2
    issued := fun h => t.issued (AList.mem_erase.mp h).2 }

/-! ## What both stores do alike -/

def notFound (id : String) : Err :=
  ⟨"run " ++ id ++ " not found", none⟩

def eventNotFound (externalEventID : String) : Err :=
  ⟨"run for event " ++ quoted externalEventID ++ " not found", none⟩

def seen (now : Time) (externalEventID : String) (within : ℤ) : Bool :=
  if externalEventID = "" then false
  else
    match (t.byEventID.lookup externalEventID).bind t.find? with
    | none => false
    | some r => if within ≤ 0 then true else RunStore.withinWindow within now r.run.updatedAt

/-- The records `List` selects, in the order the map is visited. -/
def selected (filter : RunListFilter) : List (RunRecord X) :=
  (t.byID.entries.map Sigma.snd).filter fun r =>
    (filter.sessionID = "" || r.run.sessionID = filter.sessionID) &&
      (filter.status.all fun st => r.run.status = st) &&
      filter.scope.admits r.run.scope

/-- The order in which a map is visited and an unstable sort leaves equal elements. -/
abbrev Order (X : Type) : Type := (l : List (RunRecord X)) → { l' : List (RunRecord X) // l'.Perm l }

/-- Newest update first. -/
def newestFirst (rs : List (RunRecord X)) : List (RunRecord X) :=
  rs.insertionSort fun a b => b.run.updatedAt ≤ a.run.updatedAt

/-- The end of `List`: sorted, and cut at the limit. -/
def page (filter : RunListFilter) (rs : List (RunRecord X)) : List (RunRecord X) :=
  if filter.limit > 0 then (newestFirst rs).take filter.limit else newestFirst rs

/-- `PruneRuns` deletes runs that ended before the given time. -/
def expired (before : Time) (run : Run) : Bool :=
  run.status.terminal && run.finishedAt ≠ 0 && run.finishedAt < before

/-- One round of the loop of `PruneRuns`, with the number of runs deleted so far. -/
def pruneOne (before : Time) (acc : ℕ × RunTable X) (r : RunRecord X) : ℕ × RunTable X :=
  if expired before r.run then (acc.1 + 1, acc.2.drop r.run.id r.run.inputEventID) else acc

/-- The map is visited in some order; what is left does not depend on it. -/
def pruneRuns (before : Time) : ℕ × RunTable X :=
  if before = 0 then (0, t)
  else (t.byID.entries.map Sigma.snd).foldl (pruneOne before) (0, t)

/-! ## What the maps hold afterwards -/

variable {t}

theorem indexed_lookup (run : Run) (e : String) : (t.indexed run).lookup e =
    if e = run.inputEventID ∧ e ≠ "" then some run.id else t.byEventID.lookup e := by
  unfold indexed
  by_cases hrun : run.inputEventID = ""
  · rw [if_neg (by simpa using hrun), if_neg fun h => h.2 (h.1.trans hrun)]
  · rw [if_pos hrun, lookup_insert_if]
    exact if_congr ⟨fun he => ⟨he, he ▸ hrun⟩, And.left⟩ rfl rfl

theorem add_find? (hid : r.run.id = runID (t.nextID + 1)) (id : String) :
    (t.add r hid).find? id = if id = r.run.id then some r else t.find? id :=
  lookup_insert_if ..

theorem add_congr (h : r = r') (hid : r.run.id = runID (t.nextID + 1))
    (hid' : r'.run.id = runID (t.nextID + 1)) : t.add r hid = t.add r' hid' := by
  subst h
  rfl

theorem put_find? {old : RunRecord X} (h : t.find? r.run.id = some old) (id : String) :
    (t.put r).find? id = if id = r.run.id then some r else t.find? id := by
  rw [put, dif_pos (mem_of_find? h)]
  exact lookup_insert_if ..

section

variable (r)

@[simp] theorem put_nextID : (t.put r).nextID = t.nextID := by
  unfold put
  split_ifs <;> rfl

@[simp] theorem put_byEventID : (t.put r).byEventID = t.byEventID := by
  unfold put
  split_ifs <;> rfl

@[simp] theorem replace_find? (id : String) : (t.replace r).find? id = (t.put r).find? id := rfl

@[simp] theorem replace_byEventID : (t.replace r).byEventID = t.indexed r.run := rfl

@[simp] theorem replace_nextID : (t.replace r).nextID = t.nextID :=
  put_nextID r

end

/-- A property of all records. -/
def All (t : RunTable X) (P : RunRecord X → Prop) : Prop :=
  ∀ id r, t.find? id = some r → P r

theorem All.stored {P : RunRecord X → Prop} {t' : RunTable X} (h : t.All P) (hr : P r)
    (hfind : ∀ id, t'.find? id = if id = r.run.id then some r else t.find? id) : t'.All P := by
  intro id r' hr'
  rw [hfind] at hr'
  split_ifs at hr'
  · exact some.inj hr' ▸ hr
  · exact h id r' hr'

/-- The records of the table. -/
theorem mem_records : r ∈ t.byID.entries.map Sigma.snd ↔ t.find? r.run.id = some r := by
  rw [mem_values]
  exact ⟨fun ⟨id, h⟩ => id_of_find? h ▸ h, fun h => ⟨_, h⟩⟩

section Prune

variable {before : Time}

/-- What the loop deletes from the two maps. -/
theorem pruneLoop_maps (rs : List (RunRecord X)) (n : ℕ) (t : RunTable X) :
    (rs.foldl (pruneOne before) (n, t)).2.nextID = t.nextID ∧
      (rs.foldl (pruneOne before) (n, t)).2.byID =
        eraseAll (fun r => expired before r.run) (fun r => r.run.id) rs t.byID ∧
      (rs.foldl (pruneOne before) (n, t)).2.byEventID =
        eraseAll (fun r => expired before r.run && trimSpace r.run.inputEventID ≠ "")
          (fun r => r.run.inputEventID) rs t.byEventID := by
  induction rs generalizing n t with
  | nil => exact ⟨rfl, rfl, rfl⟩
  | cons r rs ih =>
    simp only [List.foldl_cons, pruneOne, eraseAll]
    by_cases hexp : expired before r.run = true
    · simp only [hexp, Bool.true_and, decide_eq_true_eq]
      exact ih (n + 1) (t.drop r.run.id r.run.inputEventID)
    · simp only [hexp]
      exact ih n t

@[simp] theorem pruneRuns_nextID (t : RunTable X) : (t.pruneRuns before).2.nextID = t.nextID := by
  unfold pruneRuns
  split_ifs
  · rfl
  · exact (pruneLoop_maps _ _ _).1

/-- Pruning keeps exactly the runs that have not expired. -/
theorem pruneRuns_find? (hbefore : before ≠ 0) (id : String) : (t.pruneRuns before).2.find? id =
    (t.find? id).filter fun r => !expired before r.run := by
  rw [pruneRuns, if_neg hbefore, find?, (pruneLoop_maps _ _ _).2.1, lookup_eraseAll, ← find?]
  cases hfind : t.find? id with
  | none =>
    rw [ite_self]
    rfl
  | some r =>
    have hiff : (∃ r' ∈ t.byID.entries.map Sigma.snd,
        expired before r'.run = true ∧ r'.run.id = id) ↔ expired before r.run = true := by
      constructor
      · rintro ⟨r', hmem, hexp, rfl⟩
        rw [mem_records, hfind, some.injEq] at hmem
        exact hmem ▸ hexp
      · intro hexp
        have hid := id_of_find? hfind
        exact ⟨r, mem_records.mpr (hid ▸ hfind), hexp, hid⟩
    simp only [hiff, filter_some]
    cases expired before r.run <;> simp

theorem find?_of_pruneRuns (h : (t.pruneRuns before).2.find? id = some r) :
    t.find? id = some r := by
  by_cases hbefore : before = 0
  · simpa [pruneRuns, hbefore] using h
  · rw [pruneRuns_find? hbefore, filter_eq_some_iff] at h
    exact h.1

/-- ... and forgets the events of the others, unless an event's id is blank. -/
theorem pruneRuns_lookup (hbefore : before ≠ 0) (e id : String) :
    (t.pruneRuns before).2.byEventID.lookup e = some id ↔ t.byEventID.lookup e = some id ∧
      (trimSpace e ≠ "" → ∀ id' r, t.find? id' = some r → r.run.inputEventID = e →
        expired before r.run = false) := by
  have hgone : (∃ r ∈ t.byID.entries.map Sigma.snd, (expired before r.run &&
      trimSpace r.run.inputEventID ≠ "") = true ∧ r.run.inputEventID = e) ↔ ¬(trimSpace e ≠ "" →
        ∀ id' r, t.find? id' = some r → r.run.inputEventID = e → expired before r.run = false) := by
    simp only [mem_values, Bool.and_eq_true, decide_eq_true_eq]
    push Not
    constructor
    · rintro ⟨r, ⟨id', hfind⟩, ⟨hexp, htrim⟩, rfl⟩
      exact ⟨htrim, id', r, hfind, rfl, by simp [hexp]⟩
    · rintro ⟨htrim, id', r, hfind, rfl, hexp⟩
      exact ⟨r, ⟨id', hfind⟩, ⟨by simpa using hexp, htrim⟩, rfl⟩
  rw [pruneRuns, if_neg hbefore, (pruneLoop_maps _ _ _).2.2, lookup_eraseAll]
  split_ifs with h
  · exact iff_of_false nofun fun hl => hgone.mp h hl.2
  · exact ⟨fun hl => ⟨hl, not_not.mp (mt hgone.mpr h)⟩, And.left⟩

end Prune

end RunTable

end Hopclaw.Store
