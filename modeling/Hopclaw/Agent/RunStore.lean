import Mathlib
import Hopclaw.Agent.Types
import Hopclaw.Domain.Maps

/-! # The in-memory run store

`InMemoryRunStore` of `agent/memory.go`. Each method holds the store's lock, so it is one atomic
transformation of the store. `Update` replaces the whole record: it looks only at whether the id
is there, never at the status it overwrites. -/

namespace Hopclaw

open GoStrings String

/-- The id `Create` formats from the store's counter. -/
def runID (n : ℕ) : String :=
  "run-" ++ ofList (zeroPadded 6 n)

theorem runID_injective : Function.Injective runID := by
  intro m n h
  have hlist := congrArg toList h
  simp only [runID, toList_append, toList_ofList, List.append_cancel_left_eq]
    at hlist
  exact zeroPadded_injective 6 hlist

theorem runID_ne_empty (n : ℕ) : runID n ≠ "" := by
  intro h
  have hlist := congrArg toList h
  simp [runID] at hlist

theorem trimSpace_runID (n : ℕ) : trimSpace (runID n) = runID n :=
  trimSpace_formatted ⟨'r', ['u', 'n', '-'], by decide, by decide⟩ 6 n

/-- The run `Create` makes where `n` runs were created before. -/
def createdRun (n : ℕ) (now : Time) (sessionID : String) (msg : IncomingMessage)
    (cfg : AgentConfig) : Run where
  id := runID (n + 1)
  sessionID := sessionID
  scope := scopeRefFromIncomingMessage msg
  parentRunID := trimSpace msg.parentRunID
  inputEventID := msg.externalEventID
  status := .queued
  queueMode := cfg.queueMode
  phase := .preparing
  executionMode := .direct
  model := defaultString msg.model cfg.defaultModel
  updatedAt := now

/-- The store. Every stored record sits under its own id, and every id was formatted from the
    counter at some earlier value. -/
structure RunStore where
  nextID : ℕ := 0
  byID : AList (fun _ : String => Run) := ∅
  byEventID : AList (fun _ : String => String) := ∅
  keyed : ∀ {id run}, byID.lookup id = some run → run.id = id := by simp
  issued : ∀ {id}, id ∈ byID → ∃ n, n < nextID ∧ id = runID (n + 1) := by simp

/-- What `List` returns: no run occurs twice. -/
structure RunPage where
  runs : List Run
  nodup : (runs.map Run.id).Nodup

variable {run : Run} {id : String}

namespace RunStore

variable (s : RunStore)

/-- The record stored under an id. -/
def find? (id : String) : Option Run :=
  s.byID.lookup id

theorem find?_keyed {s : RunStore} (h : s.find? id = some run) : run.id = id :=
  s.keyed h

theorem mem_of_find? {s : RunStore} (h : s.find? id = some run) : id ∈ s.byID :=
  AList.lookup_isSome.mp (by rw [show s.byID.lookup id = some run from h]; rfl)

theorem find?_ne_empty {s : RunStore} (h : s.find? id = some run) : id ≠ "" := by
  obtain ⟨n, -, rfl⟩ := s.issued (mem_of_find? h)
  exact runID_ne_empty _

theorem trimSpace_of_find? {s : RunStore} (h : s.find? id = some run) : trimSpace id = id := by
  obtain ⟨n, -, rfl⟩ := s.issued (mem_of_find? h)
  exact trimSpace_runID _

/-- The next id is not in use. -/
theorem find?_fresh : s.find? (runID (s.nextID + 1)) = none := by
  rw [find?, AList.lookup_eq_none]
  intro hmem
  obtain ⟨n, hn, heq⟩ := s.issued hmem
  have := runID_injective heq
  omega

/-- Replace the record under an id that is in use. -/
def put (run : Run) : RunStore :=
  if h : run.id ∈ s.byID then
    { s with
      byID := s.byID.insert run.id run
      keyed := Maps.forall_insert s.keyed rfl
      issued := by
        intro id hid
        rw [AList.mem_insert] at hid
        rcases hid with rfl | hid
        · exact s.issued h
        · exact s.issued hid }
  else s

@[simp] theorem put_byEventID (run : Run) : (s.put run).byEventID = s.byEventID := by
  unfold put
  split_ifs <;> rfl

theorem put_find? {s : RunStore} {old : Run} (h : s.find? run.id = some old) (id : String) :
    (s.put run).find? id = if id = run.id then some run else s.find? id := by
  have hmem : run.id ∈ s.byID := mem_of_find? h
  rw [put, dif_pos hmem]
  exact Maps.lookup_insert_if ..

/-! ## The methods -/

/-- `time.Since(then) <= within`, with the clock at `now`. -/
def withinWindow (within : ℤ) (now then_ : Time) : Bool :=
  (now : ℤ) - then_ ≤ within

/-- The run an event is recorded under, if it is still stored. -/
def byEvent? (externalEventID : String) : Option Run :=
  (s.byEventID.lookup externalEventID).bind s.find?

def seen (now : Time) (externalEventID : String) (within : ℤ) : Bool :=
  if externalEventID = "" then false
  else
    match s.byEvent? externalEventID with
    | none => false
    | some run => if within ≤ 0 then true else withinWindow within now run.updatedAt

def notFound (id : String) : Err :=
  ⟨"run " ++ id ++ " not found", none⟩

def findByExternalEvent (externalEventID : String) : Except Err Run :=
  match s.byEventID.lookup externalEventID with
  | none => .error ⟨"run for event \"" ++ externalEventID ++ "\" not found", none⟩
  | some id =>
    match s.find? id with
    | none => .error (notFound id)
    | some run => .ok run

def getScoped (id : String) (scope : ScopeFilter) : Except Err Run :=
  match s.find? id with
  | none => .error (notFound id)
  | some run => if scope.admits run.scope then .ok run else .error (notFound id)

def get (id : String) : Except Err Run :=
  s.getScoped id {}

/-- The record `Create` makes. -/
def newRun (now : Time) (sessionID : String) (msg : IncomingMessage) (cfg : AgentConfig) : Run :=
  createdRun s.nextID now sessionID msg cfg

def create (now : Time) (sessionID : String) (msg : IncomingMessage) (cfg : AgentConfig) :
    Run × RunStore :=
  let run := s.newRun now sessionID msg cfg
  (run,
    { nextID := s.nextID + 1
      byID := s.byID.insert run.id run
      byEventID := if msg.externalEventID ≠ "" then s.byEventID.insert msg.externalEventID run.id
        else s.byEventID
      keyed := Maps.forall_insert s.keyed rfl
      issued := by
        intro id hid
        rw [AList.mem_insert] at hid
        rcases hid with rfl | hid
        · exact ⟨s.nextID, Nat.lt_succ_self _, rfl⟩
        · obtain ⟨n, hn, heq⟩ := s.issued hid
          exact ⟨n, Nat.lt_succ_of_lt hn, heq⟩ })

/-- The records `List` selects, in the order the map is visited. -/
def selected (filter : RunListFilter) : List Run :=
  (s.byID.entries.map Sigma.snd).filter fun run =>
    (filter.sessionID = "" || run.sessionID = filter.sessionID) &&
      (filter.status.all fun st => run.status = st) &&
      filter.scope.admits run.scope

theorem selected_nodup (filter : RunListFilter) : ((s.selected filter).map Run.id).Nodup := by
  have hids : (s.byID.entries.map Sigma.snd).map Run.id = s.byID.entries.map Sigma.fst := by
    rw [List.map_map]
    refine List.map_congr_left fun e he => ?_
    exact s.keyed (AList.mem_lookup_iff.mpr he)
  refine List.Nodup.sublist (List.Sublist.map _ List.filter_sublist) ?_
  rw [hids]
  exact s.byID.nodupKeys

/-- `List`, given the order in which the map iteration and the unstable sort left the selected
    records: newest update first, cut at the limit. -/
def listOf (filter : RunListFilter) (visited : List Run) : List Run :=
  let sorted := visited.insertionSort fun a b => b.updatedAt ≤ a.updatedAt
  if filter.limit > 0 then sorted.take filter.limit else sorted

theorem listOf_nodup {filter : RunListFilter} {visited : List Run}
    (h : (visited.map Run.id).Nodup) : ((listOf filter visited).map Run.id).Nodup := by
  have hsorted : ((visited.insertionSort fun a b => b.updatedAt ≤ a.updatedAt).map Run.id).Nodup :=
    ((List.perm_insertionSort _ visited).map Run.id).nodup_iff.mpr h
  unfold listOf
  split_ifs
  · exact hsorted.sublist (List.Sublist.map _ (List.take_sublist _ _))
  · exact hsorted

def list (filter : RunListFilter) (order : (l : List Run) → { l' : List Run // l'.Perm l }) :
    RunPage where
  runs := listOf filter (order (s.selected filter)).1
  nodup := listOf_nodup
    (((order (s.selected filter)).2.map Run.id).nodup_iff.mpr (s.selected_nodup filter))

/-- Record the run as the one its event created. -/
def indexEvent (run : Run) : RunStore :=
  if run.inputEventID ≠ "" then
    { s with byEventID := s.byEventID.insert run.inputEventID run.id }
  else s

/-- `Update` stamps the caller's copy too, so the time is returned. -/
def update (now : Time) (run : Run) : Except Err Time × RunStore :=
  match s.find? run.id with
  | none => (.error (notFound run.id), s)
  | some _ => (.ok now, (s.put (run.stamped now)).indexEvent run)

/-- What a claim makes of a queued run. -/
def claimed (started now : Time) (run : Run) : Run :=
  { run with
    status := .running
    startedAt := if run.startedAt = 0 then started else run.startedAt
    updatedAt := now }

/-- `ClaimQueuedRun`: the run, and whether this call took it from `queued` to `running`. -/
def claimQueuedRun (started now : Time) (id : String) : Except Err (Run × Bool) × RunStore :=
  match s.find? id with
  | none => (.error (notFound id), s)
  | some current =>
    if current.status ≠ .queued then (.ok (current, false), s)
    else (.ok (claimed started now current, true), s.put (claimed started now current))

end RunStore

end Hopclaw
