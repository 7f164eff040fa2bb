import Hopclaw.Agent.World

/-! # What one operation does

For each store, the operations that write it and what they can do to it; every other operation
leaves it alone. The invariants of the concurrent system are proved from these lemmas and never
unfold `World.act`. -/

namespace Hopclaw

open World Coordinator RunStore Prod SessionQueue

variable (env : Env) (w : World)

/-! ## Store methods -/

variable {id : String}

namespace RunStore

variable (s : RunStore)

theorem indexEvent_find? (run : Run) (id : String) : (s.indexEvent run).find? id = s.find? id := by
  unfold indexEvent
  split_ifs <;> rfl

theorem get_of_none {s : RunStore} (h : s.find? id = none) : s.get id = .error (notFound id) := by
  simp only [get, getScoped, h]

theorem get_of_some {s : RunStore} {run : Run} (h : s.find? id = some run) :
    s.get id = .ok run := by
  simp only [get, getScoped, h, ScopeFilter.admits_empty, if_true]

theorem update_of_none {s : RunStore} (now : Time) {run : Run} (h : s.find? run.id = none) :
    s.update now run = (.error (notFound run.id), s) := by
  simp only [update, h]

theorem update_of_some {s : RunStore} (now : Time) {run old : Run} (h : s.find? run.id = some old) :
    s.update now run = (.ok now, (s.put (run.stamped now)).indexEvent run) := by
  simp only [update, h]

theorem update_find? {s : RunStore} {now : Time} {run old : Run} (h : s.find? run.id = some old)
    (id : String) :
    (s.update now run).2.find? id = if id = run.id then some (run.stamped now) else s.find? id := by
  have hput : s.find? (run.stamped now).id = some old := h
  rw [update_of_some now h, indexEvent_find?]
  exact put_find? hput id

theorem claimQueuedRun_of_none {s : RunStore} (t₁ t₂ : Time) (h : s.find? id = none) :
    s.claimQueuedRun t₁ t₂ id = (.error (notFound id), s) := by
  simp only [claimQueuedRun, h]

theorem claimQueuedRun_of_ne {s : RunStore} (t₁ t₂ : Time) {old : Run} (h : s.find? id = some old)
    (hq : old.status ≠ .queued) : s.claimQueuedRun t₁ t₂ id = (.ok (old, false), s) := by
  simp only [claimQueuedRun, h, if_pos hq]

theorem claimQueuedRun_of_queued {s : RunStore} (t₁ t₂ : Time) {old : Run}
    (h : s.find? id = some old) (hq : old.status = .queued) : s.claimQueuedRun t₁ t₂ id =
      (.ok (claimed t₁ t₂ old, true), s.put (claimed t₁ t₂ old)) := by
  simp only [claimQueuedRun, h, hq, ne_eq, not_true_eq_false, if_false]

theorem claimQueuedRun_find? {s : RunStore} {t₁ t₂ : Time} {rid : String} {old : Run}
    (h : s.find? rid = some old) (hq : old.status = .queued) (id : String) :
    (s.claimQueuedRun t₁ t₂ rid).2.find? id =
      if id = rid then some (claimed t₁ t₂ old) else s.find? id := by
  have hkey : old.id = rid := find?_keyed h
  have hput : s.find? (claimed t₁ t₂ old).id = some old := by
    rw [show (claimed t₁ t₂ old).id = old.id from rfl, hkey]; exact h
  rw [claimQueuedRun_of_queued t₁ t₂ h hq]
  rw [put_find? hput id, show (claimed t₁ t₂ old).id = old.id from rfl, hkey]

theorem create_find? (now : Time) (sessionID : String) (msg : IncomingMessage) (cfg : AgentConfig)
    (id : String) :
    (s.create now sessionID msg cfg).2.find? id =
      if id = runID (s.nextID + 1) then some (s.newRun now sessionID msg cfg) else s.find? id :=
  Maps.lookup_insert_if ..

end RunStore

/-! ## Parts of the state -/

/-- The parts of the state the proofs speak about. -/
inductive Part
  | runs | queue
deriving DecidableEq

/-- The part an operation may write. -/
def Op.writes : Op → Option Part
  | .runsCreate .. | .runsUpdate _ | .runsClaim _ => some .runs
  | .queueEnqueue .. | .queueStart .. | .queueFinish .. => some .queue
  | _ => none

/-- From one state to the other at most this part is written. -/
structure World.Writes (part : Option Part) (w w' : World) : Prop where
  runs : part ≠ some .runs → w'.runs = w.runs
  queue : part ≠ some .queue → w'.queue = w.queue

theorem World.Writes.refl (part : Option Part) : w.Writes part w := ⟨fun _ => rfl, fun _ => rfl⟩

theorem World.Writes.trans {part : Option Part} {w₁ w₂ w₃ : World} (h12 : w₁.Writes part w₂)
    (h23 : w₂.Writes part w₃) : w₁.Writes part w₃ where
  runs hp := (h23.runs hp).trans (h12.runs hp)
  queue hp := (h23.queue hp).trans (h12.queue hp)

theorem World.Writes.of_none {part : Option Part} {w w' : World} (h : w.Writes none w') :
    w.Writes part w' :=
  ⟨fun _ => h.runs nofun, fun _ => h.queue nofun⟩

theorem World.faulty_eq {α : Type} (act : Except Err α × World) :
    (∃ e, env.fault w.tick = some e ∧ w.faulty env act = (.error e, w)) ∨
      w.faulty env act = act := by
  unfold faulty
  split
  · rename_i e he
    exact .inl ⟨e, he, rfl⟩
  · exact .inr rfl

theorem World.faulty_ok_iff {α : Type} {act : Except Err α × World} {a : α} :
    (w.faulty env act).1 = .ok a ↔ env.fault w.tick = none ∧ act.1 = .ok a := by
  unfold faulty
  cases env.fault w.tick <;> simp

theorem World.of_faulty_ok {α : Type} {act : Except Err α × World} {a : α}
    (h : (w.faulty env act).1 = .ok a) : act.1 = .ok a :=
  ((w.faulty_ok_iff env).mp h).2

theorem World.of_faulty_error {α : Type} {act : Except Err α × World} {e : Err}
    (h : (w.faulty env act).1 = .error e) : env.fault w.tick = some e ∨ act.1 = .error e := by
  unfold faulty at h
  cases hf : env.fault w.tick with
  | some e' => exact .inl (by simpa [hf] using h)
  | none => exact .inr (by simpa [hf] using h)

/-- An operation that may fail writes what it writes when it does not. -/
theorem World.faulty_writes {α : Type} {part : Option Part} {act : Except Err α × World}
    (h : w.Writes part act.2) : w.Writes part (w.faulty env act).2 := by
  rcases w.faulty_eq env act with ⟨e, -, he⟩ | he <;> rw [he]
  · exact World.Writes.refl w part
  · exact h

theorem World.act_writes (o : Op) : w.Writes o.writes (w.act env o).2 := by
  cases o
  case claimExecution id =>
    refine ⟨fun _ => ?_, fun _ => ?_⟩ <;>
    · simp only [act, claimExecution, sweepRunState]
      split_ifs <;> rfl
  case storeRunCancel id =>
    refine ⟨fun _ => ?_, fun _ => ?_⟩ <;>
    · simp only [act, storeRunCancel, sweepRunState]
      split_ifs <;> rfl
  case claimDispatch id =>
    refine ⟨fun _ => ?_, fun _ => ?_⟩ <;>
    · simp only [act]
      split_ifs <;> rfl
  all_goals first
    | exact World.Writes.refl w _
    | exact ⟨fun _ => rfl, fun _ => rfl⟩
    | exact w.faulty_writes env ⟨fun h => by first | rfl | exact (h rfl).elim,
        fun h => by first | rfl | exact (h rfl).elim⟩

theorem World.exec_writes (o : Op) : w.Writes o.writes (w.exec env o).2 := by
  have h := w.act_writes env o
  exact ⟨h.runs, h.queue⟩

/-! ## The run store -/

/-- `Update` fails and writes nothing, or finds the id and replaces its record. -/
theorem World.exec_update (run : Run) :
    (∃ e, (env.fault w.tick = some e ∨ w.runs.find? run.id = none) ∧
      (w.exec env (.runsUpdate run)).1 = (.error e : Except Err Time) ∧
      (w.exec env (.runsUpdate run)).2.runs = w.runs) ∨
    ∃ old t, w.runs.find? run.id = some old ∧ t ≠ 0 ∧
      (w.exec env (.runsUpdate run)).1 = (.ok t : Except Err Time) ∧
      (w.exec env (.runsUpdate run)).2.runs = (w.runs.update t run).2 := by
  simp only [exec, act]
  rcases w.faulty_eq env ((w.runs.update (env.clock w.tick 0).1 run).1,
    { w with runs := (w.runs.update (env.clock w.tick 0).1 run).2 }) with ⟨e, hf, he⟩ | he
  · exact .inl ⟨e, .inl hf, by rw [he], by rw [he]⟩
  rw [he]
  cases hf : w.runs.find? run.id with
  | none =>
    have hu := update_of_none (env.clock w.tick 0).1 hf
    exact .inl ⟨_, .inr rfl, congrArg fst hu, congrArg snd hu⟩
  | some old =>
    exact .inr ⟨old, (env.clock w.tick 0).1, rfl, (env.clock w.tick 0).2,
      congrArg fst (update_of_some _ hf), rfl⟩

/-- `ClaimQueuedRun` fails, or finds the run in another status than `queued`, or takes it. -/
theorem World.exec_claim (id : String) :
    (∃ e, (env.fault w.tick = some e ∨ w.runs.find? id = none) ∧
      (w.exec env (.runsClaim id)).1 = (.error e : Except Err (Run × Bool)) ∧
      (w.exec env (.runsClaim id)).2.runs = w.runs) ∨
    (∃ old, w.runs.find? id = some old ∧ old.status ≠ .queued ∧
      (w.exec env (.runsClaim id)).1 = (.ok (old, false) : Except Err (Run × Bool)) ∧
      (w.exec env (.runsClaim id)).2.runs = w.runs) ∨
    ∃ old t₁ t₂, w.runs.find? id = some old ∧ old.status = .queued ∧
      (w.exec env (.runsClaim id)).1 =
        (.ok (claimed t₁ t₂ old, true) : Except Err (Run × Bool)) ∧
      (w.exec env (.runsClaim id)).2.runs = (w.runs.claimQueuedRun t₁ t₂ id).2 := by
  simp only [exec, act]
  rcases w.faulty_eq env
    ((w.runs.claimQueuedRun (env.clock w.tick 0).1 (env.clock w.tick 1).1 id).1,
      { w with runs := (w.runs.claimQueuedRun (env.clock w.tick 0).1 (env.clock w.tick 1).1 id).2 })
    with ⟨e, hf, he⟩ | he
  · exact .inl ⟨e, .inl hf, by rw [he], by rw [he]⟩
  rw [he]
  cases hf : w.runs.find? id with
  | none =>
    have hc := claimQueuedRun_of_none (env.clock w.tick 0).1 (env.clock w.tick 1).1 hf
    exact .inl ⟨_, .inr rfl, congrArg fst hc, congrArg snd hc⟩
  | some old =>
    by_cases hq : old.status = .queued
    · exact .inr (.inr ⟨old, (env.clock w.tick 0).1, (env.clock w.tick 1).1, rfl, hq,
        congrArg fst (claimQueuedRun_of_queued _ _ hf hq), rfl⟩)
    · have hc := claimQueuedRun_of_ne (env.clock w.tick 0).1 (env.clock w.tick 1).1 hf hq
      exact .inr (.inl ⟨old, rfl, hq, congrArg fst hc, congrArg snd hc⟩)

/-- `Create` fails exactly on a fault. -/
theorem World.exec_create (sessionID : String) (msg : IncomingMessage) (cfg : AgentConfig) :
    (∃ e, env.fault w.tick = some e ∧
      (w.exec env (.runsCreate sessionID msg cfg)).1 = (.error e : Except Err Run) ∧
      (w.exec env (.runsCreate sessionID msg cfg)).2.runs = w.runs) ∨
    ∃ t, env.fault w.tick = none ∧ (w.exec env (.runsCreate sessionID msg cfg)).1 =
        (.ok (w.runs.newRun t sessionID msg cfg) : Except Err Run) ∧
      (w.exec env (.runsCreate sessionID msg cfg)).2.runs =
        (w.runs.create t sessionID msg cfg).2 := by
  simp only [exec, act, faulty]
  cases env.fault w.tick with
  | some e => exact .inl ⟨e, rfl, rfl, rfl⟩
  | none => exact .inr ⟨(env.clock w.tick 0).1, rfl, rfl, rfl⟩

/-- The four things an operation can do to the record under an id. -/
inductive RecordChange (o : Op) (id : String) (before after : Option Run) : Prop
  | same (h : after = before)
  | updated (run old : Run) (t : Time) (ho : o = .runsUpdate run) (hid : run.id = id)
      (hb : before = some old) (ha : after = some (run.stamped t))
  | claimed (old : Run) (t₁ t₂ : Time) (ho : o = .runsClaim id) (hb : before = some old)
      (hq : old.status = .queued) (ha : after = some (RunStore.claimed t₁ t₂ old))
  | created (sessionID : String) (msg : IncomingMessage) (cfg : AgentConfig) (t : Time)
      (ho : o = .runsCreate sessionID msg cfg) (hb : before = none)
      (ha : after = some (w.runs.newRun t sessionID msg cfg))

theorem World.exec_recordChange (o : Op) (id : String) :
    RecordChange w o id (w.runs.find? id) ((w.exec env o).2.runs.find? id) := by
  by_cases ho : o.writes = some .runs
  case neg => exact .same (by rw [(w.exec_writes env o).runs ho])
  cases o
  case runsUpdate run =>
    rcases w.exec_update env run with ⟨e, -, -, hs⟩ | ⟨old, t, hf, -, -, hs⟩
    · exact .same (by rw [hs])
    · rw [hs, update_find? hf]
      split_ifs with hid
      · subst hid
        exact .updated run old t rfl rfl hf rfl
      · exact .same rfl
  case runsClaim rid =>
    rcases w.exec_claim env rid with
      ⟨e, -, -, hs⟩ | ⟨old, -, -, -, hs⟩ | ⟨old, t₁, t₂, hf, hq, -, hs⟩
    · exact .same (by rw [hs])
    · exact .same (by rw [hs])
    · rw [hs, claimQueuedRun_find? hf hq]
      split_ifs with hid
      · subst hid
        exact .claimed old t₁ t₂ rfl hf hq rfl
      · exact .same rfl
  case runsCreate sessionID msg cfg =>
    rcases w.exec_create env sessionID msg cfg with ⟨e, -, -, hs⟩ | ⟨t, -, -, hs⟩
    · exact .same (by rw [hs])
    · rw [hs, create_find?]
      split_ifs with hid
      · subst hid
        exact .created sessionID msg cfg t rfl w.runs.find?_fresh rfl
      · exact .same rfl
  all_goals exact absurd ho (by simp [Op.writes])

/-! ## The session queue -/

namespace SessionQueue

variable {q q' : SessionQueue} {sessionID runID : String}

theorem enqueue_active {mode : QueueMode} (h : q.enqueue runID mode = .ok q') :
    q'.active = q.active := by
  cases mode <;> simp only [enqueue] at h
  case interrupt => cases h; rfl
  case enqueue => cases h; rfl
  all_goals split_ifs at h <;> cases h <;> rfl

/-- The slot goes to a run only if it is free, or the run's already. -/
theorem start_active (h : q.start sessionID runID = .ok q') :
    q'.active = runID ∧ (q.active = "" ∨ q.active = runID) := by
  unfold start at h
  split_ifs at h with hown hbusy
  · cases h
    exact ⟨hown, .inr hown⟩
  · refine ⟨?_, .inl (by simpa using hbusy)⟩
    split at h
    · cases h; rfl
    · split_ifs at h <;> cases h <;> rfl

end SessionQueue

/-- The run that holds the session's slot, `""` if none does. -/
def World.activeRun (sessionID : String) : String :=
  (w.queue.queues sessionID).active

/-- What an operation can do to the slot of a session. -/
inductive SlotChange (o : Op) (sessionID before after : String) : Prop
  | same (h : after = before)
  | started (runID : String) (ho : o = .queueStart sessionID runID)
      (hb : before = "" ∨ before = runID) (ha : after = runID)
  | finished (site : FinishSite) (ho : o = .queueFinish site sessionID before) (ha : after = "")

/-- The queue of one session is edited, or the call fails and writes nothing. -/
def World.EditsQueue (sessionID : String) (edit : Except Err SessionQueue)
    (done : Except Err Unit × World) : Prop :=
  (∃ e, (env.fault w.tick = some e ∨ edit = .error e) ∧ done.1 = .error e ∧
    done.2.queue = w.queue) ∨
  ∃ q, edit = .ok q ∧ done.1 = .ok () ∧ done.2.queue = w.queue.set sessionID q

theorem World.faulty_queue {sessionID : String} {edit : Except Err SessionQueue}
    {r : Except Err Unit × Coordinator}
    (hr : r = match (motive := _ → Except Err Unit × Coordinator) edit with
      | .error e => (.error e, w.queue)
      | .ok q => (.ok (), w.queue.set sessionID q)) :
    w.EditsQueue env sessionID edit (w.faulty env (r.1, { w with queue := r.2 })) := by
  rcases w.faulty_eq env (r.1, { w with queue := r.2 }) with ⟨e, hf, he⟩ | he <;> rw [he]
  · exact .inl ⟨e, .inl hf, rfl, rfl⟩
  cases edit with
  | error e => exact .inl ⟨e, .inr rfl, by rw [hr], by rw [hr]⟩
  | ok q => exact .inr ⟨q, rfl, by rw [hr], by rw [hr]⟩

theorem World.exec_start (sessionID runID : String) :
    w.EditsQueue env sessionID ((w.queue.queues sessionID).start sessionID runID)
      (w.exec env (.queueStart sessionID runID)) :=
  w.faulty_queue env (r := w.queue.startRun sessionID runID) rfl

theorem World.exec_enqueue (sessionID runID : String) (mode : QueueMode) :
    w.EditsQueue env sessionID ((w.queue.queues sessionID).enqueue runID mode)
      (w.exec env (.queueEnqueue sessionID runID mode)) :=
  w.faulty_queue env (r := w.queue.enqueueSessionRun sessionID runID mode) rfl

theorem World.exec_finish (site : FinishSite) (sessionID runID : String) :
    (env.fault w.tick ≠ none ∧ (w.exec env (.queueFinish site sessionID runID)).2.queue = w.queue) ∨
    (w.exec env (.queueFinish site sessionID runID)).2.queue = w.queue.finishRun sessionID runID := by
  simp only [exec, act]
  rcases w.faulty_eq env ((.ok (), { w with queue := w.queue.finishRun sessionID runID }) :
    Except Err Unit × World) with ⟨e, hf, he⟩ | he <;> rw [he]
  · exact .inl ⟨by simp [hf], rfl⟩
  · exact .inr rfl

theorem World.exec_slotChange (o : Op) (sessionID : String) :
    SlotChange o sessionID (w.activeRun sessionID) ((w.exec env o).2.activeRun sessionID) := by
  unfold activeRun
  by_cases ho : o.writes = some .queue
  case neg => exact .same (by rw [(w.exec_writes env o).queue ho])
  cases o
  case queueStart s r =>
    rcases w.exec_start env s r with ⟨e, -, -, hs⟩ | ⟨q, hq, -, hs⟩ <;> rw [hs]
    · exact .same rfl
    by_cases hsess : sessionID = s
    · subst hsess
      obtain ⟨ha, hb⟩ := start_active hq
      exact .started r rfl hb (by rw [set_queues_self, ha])
    · exact .same (by rw [set_queues_ne _ hsess])
  case queueEnqueue s r mode =>
    rcases w.exec_enqueue env s r mode with ⟨e, -, -, hs⟩ | ⟨q, hq, -, hs⟩ <;> rw [hs]
    · exact .same rfl
    by_cases hsess : sessionID = s
    · subst hsess
      exact .same (by rw [set_queues_self, enqueue_active hq])
    · exact .same (by rw [set_queues_ne _ hsess])
  case queueFinish site s r =>
    rcases w.exec_finish env site s r with ⟨-, hs⟩ | hs <;> rw [hs]
    · exact .same rfl
    by_cases hsess : sessionID = s
    · subst hsess
      rw [finishRun, set_queues_self]
      simp only [finish]
      split_ifs with hr
      · exact .finished site (by rw [hr]) rfl
      · exact .same rfl
    · exact .same (by rw [finishRun, set_queues_ne _ hsess])
  all_goals exact absurd ho (by simp [Op.writes])

end Hopclaw
