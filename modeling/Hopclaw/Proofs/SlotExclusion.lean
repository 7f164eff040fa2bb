import Hopclaw.Proofs.Knowledge

/-! # One execution per session

The session queue has one slot per session. An executor takes it with `StartRun` before it claims
its run, and gives it back with the function `claimQueuedExecution` returned; but the finalizer
gives it back as well, on behalf of a run that may still be executing. As long as nobody releases
a slot that another actor holds, and no actor its own one early, the slot is the executors'
lock. -/

namespace Hopclaw

open Interleaving List

variable {ι : Type}

/-- From where an operation releases a slot. -/
def Op.releases : Op → Option FinishSite
  | .queueFinish site _ _ => some site
  | _ => none

/-- What becomes of an actor's slot: it was just taken, or held before and not released. -/
theorem Hist.note_slot {o : Op} {r : o.Resp} {h : Hist} {slot : Slot}
    (hs : (Hist.note o r h).slot = some slot) :
    (o = .queueStart slot.sessionID slot.runID) ∨
    ((∃ held, h.slot = some held ∧ held.sessionID = slot.sessionID ∧
        held.runID = slot.runID) ∧ (o.releases = none ∨ o.releases = some .finalizer)) := by
  have hkept : h.slot = some slot → ∃ held, h.slot = some held ∧
      held.sessionID = slot.sessionID ∧ held.runID = slot.runID :=
    fun he => ⟨slot, he, rfl, rfl⟩
  cases o
  case queueStart s id =>
    cases (r : Except Err Unit) with
    | ok _ =>
      obtain rfl := Option.some.inj hs
      exact .inl rfl
    | error e => exact .inr ⟨hkept hs, .inl rfl⟩
  case queueFinish site s id =>
    by_cases hsite : site = .finalizer
    · subst hsite
      exact .inr ⟨hkept hs, .inr rfl⟩
    · simp only [Hist.note, if_neg hsite] at hs
      exact absurd hs (by simp)
  case runsClaim id =>
    cases (r : Except Err (Run × Bool)) with
    | error e => exact .inr ⟨hkept hs, .inl rfl⟩
    | ok res =>
      obtain ⟨run, claimed⟩ := res
      cases claimed with
      | false => exact .inr ⟨hkept hs, .inl rfl⟩
      | true =>
        obtain ⟨held, hheld, rfl⟩ := Option.map_eq_some_iff.mp (hs : h.slot.map _ = some slot)
        exact .inr ⟨⟨held, hheld, rfl, rfl⟩, .inl rfl⟩
  case runsFindByExternalEvent | runsGet | runsCreate =>
    refine .inr ⟨hkept ?_, .inl rfl⟩
    cases (r : Except Err Run) <;> exact hs
  case runsUpdate =>
    refine .inr ⟨hkept ?_, .inl rfl⟩
    cases (r : Except Err Time) <;> exact hs
  case runsList =>
    refine .inr ⟨hkept ?_, .inl rfl⟩
    cases (r : Except Err RunPage) with
    | error e => exact hs
    | ok page => exact (Hist.Frame.foldl_see h page.runs).slot.symm.trans hs
  all_goals exact .inr ⟨hkept hs, .inl rfl⟩

namespace System

/-- The actor holds the session's slot, or held it when somebody else released it. -/
def Holds (c : System ι) (i : ι) (sessionID runID : String) : Prop :=
  ∃ slot, (c.threads i).hist.slot = some slot ∧ slot.sessionID = sessionID ∧ slot.runID = runID

/-- The actor is between a successful `claimQueuedExecution` of the run and the call of the
    function it returned. -/
def Executes (c : System ι) (i : ι) (sessionID runID : String) : Prop :=
  (c.threads i).hist.slot = some ⟨sessionID, runID, true⟩

instance (c : System ι) (i : ι) (sessionID runID : String) :
    Decidable (c.Executes i sessionID runID) :=
  inferInstanceAs (Decidable (_ = _))

instance (c : System ι) (i : ι) (sessionID runID : String) :
    Decidable (c.Holds i sessionID runID) :=
  decidable_of_iff ((c.threads i).hist.slot.any fun slot =>
    slot.sessionID = sessionID && slot.runID = runID) (by simp [Holds, Option.any_eq_true])

/-- Where the actor is about to release a slot, no other actor holds it; and the finalizer releases
    no slot that its own actor holds. -/
def ReleasesOwn (c : System ι) (i : ι) : Prop :=
  match (c.threads i).next with
  | some (.queueFinish site sessionID runID) =>
    ∀ j, j ≠ i ∨ site = .finalizer → ¬ c.Holds j sessionID runID
  | _ => True

instance [Fintype ι] [DecidableEq ι] (c : System ι) (i : ι) : Decidable (ReleasesOwn c i) :=
  have any (o : Option Op) : Decidable (match o with
    | some (.queueFinish site s r) => ∀ j, j ≠ i ∨ site = .finalizer → ¬ c.Holds j s r
    | _ => True) := by
    split <;> infer_instance
  any _

/-- Whoever holds a slot is who the queue says it is. -/
def SlotsHeld (c : System ι) : Prop :=
  ∀ i sessionID runID, c.Holds i sessionID runID →
    c.state.activeRun sessionID = runID ∧ runID ≠ ""

variable [DecidableEq ι] {env : Env} {a : AgentComponent} {Q : ι → Hist → Outcome → Prop}

theorem SlotsHeld.step {c : System ι} (hheld : c.SlotsHeld) (hknow : c.AllKnow)
    (hc : c.Conforms (protocol a.hasQueue) Q) {i : ι} (hi : ReleasesOwn c i) :
    (c.step env a i).SlotsHeld := by
  cases hn : (c.threads i).next with
  | none =>
    rw [System.step_of_next_none hn]
    exact hheld
  | some o =>
    -- a slot that was held before, by whomever, is still the queue's active run
    have hkept : ∀ j s r, c.Holds j s r →
        (j = i → o.releases = none ∨ o.releases = some .finalizer) →
        (c.step env a i).state.activeRun s = r ∧ r ≠ "" := by
      intro j s r hj hsite
      obtain ⟨hact, hne⟩ := hheld j s r hj
      refine ⟨?_, hne⟩
      rw [System.step_state hn]
      cases c.state.exec_slotChange env o s with
      | same h => exact h.trans hact
      | started r' ho hb ha =>
        rw [hact] at hb
        rw [ha, hb.resolve_left hne]
      | finished site ho ha =>
        rw [hact] at ho
        subst ho
        simp only [ReleasesOwn, hn] at hi
        refine absurd hj (hi j ?_)
        by_cases hji : j = i
        · exact .inr (by simpa [Op.releases] using hsite hji)
        · exact .inl hji
    rintro j s r ⟨slot, hslot, rfl, rfl⟩
    by_cases hj : j = i
    · subst hj
      rw [System.step_hist hn] at hslot
      rcases Hist.note_slot hslot with ho | ⟨⟨held, hh, hs, hr⟩, hsite⟩
      · -- the slot was just taken, of a run that the actor has seen in the store
        subst ho
        obtain ⟨hnone, hseen⟩ := hc.guar hn
        obtain ⟨snap, hsnap⟩ := Option.ne_none_iff_exists'.mp hseen
        obtain ⟨run, hrun, -, -⟩ := hknow j _ snap hsnap
        refine ⟨?_, RunStore.find?_ne_empty hrun⟩
        rw [System.step_state hn]
        rcases c.state.exec_start env slot.sessionID slot.runID with ⟨e, -, he, -⟩ | ⟨q, hq, -, hs⟩
        · rw [he] at hslot
          exact absurd (hnone.symm.trans hslot) (by simp)
        · rw [World.activeRun, hs, Coordinator.set_queues_self]
          exact (SessionQueue.start_active hq).1
      · exact hkept j _ _ ⟨held, hh, hs, hr⟩ fun _ => hsite
    · rw [System.step_threads_ne hj] at hslot
      exact hkept j _ _ ⟨slot, hslot, rfl, rfl⟩ fun h => absurd h hj

omit [DecidableEq ι] in
theorem start_slotsHeld (a : AgentComponent) (actors : ι → Actor) (w : World) :
    (System.start a actors w).SlotsHeld := by
  rintro i _ _ ⟨slot, hs, -, -⟩
  have hslot : ((System.start a actors w).threads i).hist.slot = none := by
    simp only [System.start, Actor.hist]
    split <;> rfl
  exact absurd (hslot.symm.trans hs) (by simp)

end System

/-- Along every schedule in which nobody releases a slot that another actor holds, nor the
    finalizer the slot of its own executor, at most one run of a session executes at a time. -/
theorem one_execution_per_session [DecidableEq ι] (env : Env) (a : AgentComponent)
    (actors : ι → Actor) (w : World) (sched : List ι) (sessionID : String)
    (hmeets : (System.start a actors w).Meets env a System.ReleasesOwn sched) :
    ∃ runID, ∀ i r, ((System.start a actors w).after env a sched).Executes i sessionID r →
      r = runID := by
  have hinv := hmeets.inv (I := fun c => c.Conforms (protocol a.hasQueue)
      (fun i => (actors i).Post) ∧ System.AllKnow c ∧ System.SlotsHeld c)
    (fun c i hc hi => ⟨hc.1.step i, hc.2.1.step hc.1 i, hc.2.2.step hc.2.1 hc.1 hi⟩)
    ⟨System.start_conforms a actors w, System.start_allKnow a actors w,
      System.start_slotsHeld a actors w⟩
  refine ⟨((System.start a actors w).after env a sched).state.activeRun sessionID,
    fun i r hexec => ?_⟩
  exact (hinv.2.2 i sessionID r ⟨_, hexec, rfl, rfl⟩).1.symm

/-- Two runs of one session; the first is executed, then cancelled, then the second is executed. -/
def cancelWhileExecuting : Fin 5 → Actor
  | 0 => .submit { sessionKey := "chat" }
  | 1 => .submit { sessionKey := "chat" }
  | 2 => .executeRun { id := runID 1, sessionID := "" } { body := [.complete] }
  | 3 => .cancelRun (runID 1)
  | 4 => .executeRun { id := runID 2, sessionID := "" } { body := [.complete] }

/-- Both runs are submitted, the first one is executing, and then a schedule is followed. -/
def whileExecuting (sched : List (Fin 5)) : System (Fin 5) :=
  (System.start plainAgent cancelWhileExecuting .empty).after Env.ticking plainAgent
    (replicate 9 0 ++ replicate 9 1 ++ replicate 6 2 ++ sched)

/-- The second run does not start while the first one executes. -/
theorem second_execution_waits :
    (whileExecuting (replicate 9 4)).Executes 2 (sessionID 1) (runID 1) ∧
    ∃ r, ∀ i r', (whileExecuting (replicate 9 4)).Executes i (sessionID 1) r' → r' = r :=
  ⟨by decide +kernel, one_execution_per_session Env.ticking plainAgent cancelWhileExecuting .empty
    _ (sessionID 1) (by decide +kernel)⟩

/-- The cancellation of the first run releases the slot under its executor, and the second run is
    executed beside it. -/
theorem cancellation_lets_second_run_start :
    let c := whileExecuting (replicate 9 3 ++ replicate 6 4)
    c.Executes 2 (sessionID 1) (runID 1) ∧ c.Executes 4 (sessionID 1) (runID 2) ∧
    runID 1 ≠ runID 2 := by
  decide +kernel

end Hopclaw
