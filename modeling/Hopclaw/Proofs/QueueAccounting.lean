import Hopclaw.Proofs.Admission

/-! # Every accepted run waits where it is found

The run store says which runs are queued, the coordinator which runs wait for the slot of a
session. They are kept in step by different code. Along a history of submissions, starts, ends and
cancellations the two agree about every run whose submission succeeded, except where a submission
takes waiting runs out of the queue that it does not cancel: `coalesce` replaces the last waiting
run, and `interrupt` empties the queue after it looked at one page of the session's runs. -/

namespace Hopclaw

open Interleaving Prog List World

variable {env : Env} {a : AgentComponent}

/-! ## Histories -/

inductive QueueOp
  /-- A submission to an agent with this queue mode. -/
  | submit (mode : QueueMode) (msg : IncomingMessage)
  /-- An executor claims the run. -/
  | start (runID : String)
  /-- The executor of the run goes through its script and gives the slot back. -/
  | finish (runID : String) (script : Script)
  | cancel (runID : String)

/-- The state, the ids of the runs whose submission succeeded, and the runs being executed. -/
structure Ledger where
  world : World := {}
  accepted : List String := []
  executing : List Run := []

def AgentComponent.withMode (a : AgentComponent) (mode : QueueMode) : AgentComponent :=
  { a with config := { a.config with queueMode := mode } }

/-- The beginning of an execution. -/
def startQueued (a : AgentComponent) (runID : String) : ProcE (Option Run) := do
  let run ← ProcE.runsGet runID
  claimQueuedExecution a run

variable {l : Ledger}

namespace Ledger

/-- The accepted runs after a submission ended: one that finds the run of its event creates none. -/
def acceptedAfter (l : Ledger) : Except Err Run → List String
  | .ok run => if l.world.runs.find? run.id = none then run.id :: l.accepted else l.accepted
  | .error _ => l.accepted

/-- The executing runs after a start ended. -/
def executingAfter (l : Ledger) : Except Err (Option Run) → List Run
  | .ok (some run) => run :: l.executing
  | _ => l.executing

/-- One operation, undisturbed. -/
def step (env : Env) (a : AgentComponent) (l : Ledger) : QueueOp → Ledger
  | .submit mode msg =>
    let done := (submit (a.withMode mode) msg).run.run (exec env) l.world
    { l with world := done.2, accepted := l.acceptedAfter done.1 }
  | .start runID =>
    let done := (startQueued a runID).run.run (exec env) l.world
    { l with world := done.2, executing := l.executingAfter done.1 }
  | .finish runID script =>
    match l.executing.find? fun run => run.id = runID with
    | none => l
    | some run =>
      let opts : RunDispatchOptions := { eventType := .runStarted, setStartedAt := true }
      { l with
        world := ((executeClaimed a run opts script).run.run (exec env) l.world).2
        executing := l.executing.filter fun run => run.id ≠ runID }
  | .cancel runID =>
    { l with world := ((cancelRun a runID).run.run (exec env) l.world).2 }

/-- The accepted runs that are stored as queued. -/
def waiting (l : Ledger) : List Run :=
  (l.accepted.filterMap l.world.runs.find?).filter fun run => run.status = .queued

theorem mem_waiting {run : Run} : run ∈ l.waiting ↔
    run.id ∈ l.accepted ∧ l.world.runs.find? run.id = some run ∧ run.status = .queued := by
  rw [waiting, mem_filter, mem_filterMap, decide_eq_true_eq, ← and_assoc]
  refine and_congr_left fun _ => ⟨?_, fun h => ⟨run.id, h⟩⟩
  rintro ⟨id, hmem, hfind⟩
  obtain rfl := RunStore.find?_keyed hfind
  exact ⟨hmem, hfind⟩

/-- A submission that enters the queue finds no accepted run at its end that is still queued, if it
    coalesces, and none that has no room on the page of the session's runs beside the new one, if
    it interrupts. -/
def SparesWaiting (env : Env) (a : AgentComponent) (l : Ledger) : QueueOp → Prop
  | .submit mode msg =>
    EntersQueue env (a.withMode mode) msg l.world → ∀ run ∈ l.waiting,
      run.sessionID = (l.world.sessionFor env (a.withMode mode) msg).id →
      (mode = .coalesce →
        (l.world.queue.queues run.sessionID).queued.getLast? ≠ some run.id) ∧
      (mode = .interrupt → (l.world.runs.asNewAs run).length ≤ 63)
  | _ => True

instance (l : Ledger) : (o : QueueOp) → Decidable (SparesWaiting env a l o)
  | .submit _ _ => inferInstanceAs (Decidable (_ → ∀ run ∈ _, _ → (_ → _) ∧ (_ → _)))
  | .start _ | .finish _ _ | .cancel _ => .isTrue trivial

/-! ## The invariant -/

/-- The accepted runs are stored, and those that are queued are known to the coordinator; the runs
    being executed were claimed. -/
structure Accounted (l : Ledger) : Prop where
  stored : ∀ id ∈ l.accepted, ∃ run, l.world.runs.find? id = some run
  waiting : ∀ run ∈ l.waiting, l.world.InQueue run
  executing : ∀ run ∈ l.executing, l.world.Holds run

theorem accounted_empty : Accounted {} :=
  ⟨by simp, by simp [Ledger.waiting], by simp⟩

/-- The accepted runs that wait kept their places. -/
theorem Accounted.kept (h : l.Accounted) {w : World} (hw : l.world.Keeps l.accepted w) :
    Accounted { l with world := w } := by
  refine ⟨fun id hid => ?_, fun run hrun => ?_, fun run hrun => hw.holds (h.executing run hrun)⟩
  · obtain ⟨old, hold⟩ := h.stored id hid
    rcases hw id old hold with ⟨hsame, -⟩ | ⟨new, hnew, -⟩
    · exact ⟨old, hsame⟩
    · exact ⟨new, hnew⟩
  · obtain ⟨hacc, hfind, hq⟩ := mem_waiting.mp hrun
    obtain ⟨old, hold⟩ := h.stored _ hacc
    rcases hw _ old hold with ⟨hsame, hin⟩ | ⟨new, hnew, hcopy⟩
    · obtain rfl := Option.some.inj (hsame.symm.trans hfind)
      exact hin hacc (h.waiting old (mem_waiting.mpr ⟨hacc, hold, hq⟩))
    · obtain rfl := Option.some.inj (hnew.symm.trans hfind)
      exact absurd hq hcopy.unqueued

theorem Accounted.cancel (hf : env.Faultless) (hq : a.hasQueue = true) (h : l.Accounted)
    (runID : String) : (l.step env a (.cancel runID)).Accounted := by
  have hends : (cancelRun a runID).run.Ends (exec env) l.world _ :=
    cancelRun_ends a runID l.world
  exact h.kept (Cancelled.keeps hf hq hends).1

theorem Accounted.submit (hf : env.Faultless) (hq : a.hasQueue = true) (h : l.Accounted)
    {mode : QueueMode} {msg : IncomingMessage}
    (hspares : SparesWaiting env a l (.submit mode msg)) :
    (l.step env a (.submit mode msg)).Accounted := by
  have hspared : SparedBy env (a.withMode mode) msg l.accepted l.world := by
    intro id hid
    obtain ⟨old, hold⟩ := h.stored id hid
    obtain rfl := RunStore.find?_keyed hold
    exact ⟨old, hold, fun henters hqueued =>
      hspares henters old (mem_waiting.mpr ⟨hid, hold, hqueued⟩)⟩
  have hends : (Hopclaw.submit (a.withMode mode) msg).run.Ends (exec env) l.world _ :=
    submit_keeps hf (show (a.withMode mode).hasQueue = true from hq) hspared
  obtain ⟨hkeeps, hnew⟩ := hends
  have hkept := h.kept hkeeps
  unfold step
  cases hr : ((Hopclaw.submit (a.withMode mode) msg).run.run (exec env) l.world).1 with
  | error e => simpa only [hr, acceptedAfter] using hkept
  | ok run =>
    simp only [hr, acceptedAfter]
    split_ifs with hnone
    · obtain ⟨hstored, hin⟩ := hnew run hr hnone
      refine ⟨fun id hid => ?_, fun other hother => ?_, hkept.executing⟩
      · rcases mem_cons.mp hid with rfl | hid
        · exact ⟨run, hstored⟩
        · exact hkept.stored id hid
      · obtain ⟨hacc, hfind, hqueued⟩ := mem_waiting.mp hother
        rcases mem_cons.mp hacc with hid | hacc
        · obtain rfl := Option.some.inj (hstored.symm.trans (hid ▸ hfind))
          exact hin hqueued
        · exact hkept.waiting other (mem_waiting.mpr ⟨hacc, hfind, hqueued⟩)
    · exact hkept

theorem Accounted.start (hf : env.Faultless) (hq : a.hasQueue = true) (h : l.Accounted)
    (runID : String) : (l.step env a (.start runID)).Accounted := by
  have hends : (startQueued a runID).run.Ends (exec env) l.world fun r w =>
      l.world.Keeps l.accepted w ∧ ∀ run, r = .ok (some run) → w.Holds run := by
    refine (runsGet_ends runID l.world).bindE ?_ fun e w₁ h1 =>
      ⟨.of_writes_none h1.1, fun _ hr => nomatch hr⟩
    rintro run w₁ ⟨hw1, hget, -⟩
    have hstored : w₁.runs.find? run.id = some run := by
      rw [hw1.runs nofun, RunStore.find?_keyed (hget run rfl)]
      exact hget run rfl
    exact (claimQueuedExecution_keeps hf hq hstored).mono fun r w₂ h2 =>
      ⟨.trans (.of_writes_none hw1) h2.1, h2.2⟩
  obtain ⟨hkeeps, hholds⟩ := hends
  have hkept := h.kept hkeeps
  unfold step
  rcases hr : ((startQueued a runID).run.run (exec env) l.world).1 with e | _ | run
    <;> simp only [hr]
  · exact hkept
  · exact hkept
  · exact ⟨hkept.stored, hkept.waiting, forall_mem_cons.mpr ⟨hholds run hr, hkept.executing⟩⟩

theorem Accounted.finish (h : l.Accounted) (runID : String) (script : Script) :
    (l.step env a (.finish runID script)).Accounted := by
  unfold step
  cases hrun : l.executing.find? fun run => run.id = runID with
  | none => simpa only [hrun] using h
  | some run =>
    have hkept := h.kept (@executeClaimed_keeps env _ _ _ a
      { eventType := .runStarted, setStartedAt := true } script
      (h.executing run (mem_of_find?_eq_some hrun)))
    simp only [hrun]
    exact ⟨hkept.stored, hkept.waiting, fun other hother =>
      hkept.executing other (mem_filter.mp hother).1⟩

end Ledger

/-- Along every history in which no submission takes an accepted run out of the queue without
    cancelling it, every accepted run that is stored as queued is known to the coordinator. -/
theorem accepted_queued_run_is_in_queue (env : Env) (hf : env.Faultless) (a : AgentComponent)
    (hq : a.hasQueue = true) (ops : List QueueOp)
    (hmeets : Meets (Ledger.step env a) (Ledger.SparesWaiting env a) {} ops) :
    ∀ run ∈ (runAll (Ledger.step env a) {} ops).waiting,
      (runAll (Ledger.step env a) {} ops).world.InQueue run := by
  refine (hmeets.inv (I := Ledger.Accounted) (fun l o h hspares => ?_)
    Ledger.accounted_empty).waiting
  cases o with
  | submit mode msg => exact h.submit hf hq hspares
  | start runID => exact h.start hf hq runID
  | finish runID script => exact h.finish runID script
  | cancel runID => exact h.cancel hf hq runID

/-- Three messages in one session: the first is executed while the second waits, and the third
    interrupts both. -/
theorem interrupting_run_is_in_queue :
    let ops := [.submit .enqueue { sessionKey := "chat" }, .start (runID 1),
      .submit .enqueue { sessionKey := "chat" }, .submit .interrupt { sessionKey := "chat" },
      .finish (runID 1) {}]
    (runAll (Ledger.step Env.ticking plainAgent) {} ops).waiting.map Run.id = [runID 3] ∧
    ∀ run ∈ (runAll (Ledger.step Env.ticking plainAgent) {} ops).waiting,
      (runAll (Ledger.step Env.ticking plainAgent) {} ops).world.InQueue run :=
  ⟨by decide +kernel, accepted_queued_run_is_in_queue Env.ticking Env.ticking_faultless plainAgent
    rfl _ (by decide +kernel)⟩

/-- A coalescing message takes the place of the one before it, whose run stays queued in the run
    store and is in no queue. -/
theorem coalesced_run_is_lost :
    let l := runAll (Ledger.step Env.ticking plainAgent) {}
      [.submit .coalesce { sessionKey := "chat" }, .submit .coalesce { sessionKey := "chat" }]
    runID 1 ∈ l.accepted ∧ l.world.statusOf (runID 1) = some .queued ∧
    (l.world.runs.find? (runID 1)).map Run.sessionID = some (sessionID 1) ∧
    (l.world.queue.queues (sessionID 1)).active = "" ∧
    (l.world.queue.queues (sessionID 1)).queued = [runID 2] := by
  decide +kernel

end Hopclaw
