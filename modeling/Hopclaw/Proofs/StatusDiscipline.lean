import Hopclaw.Agent.Actors
import Hopclaw.Proofs.Conformance
import Hopclaw.Proofs.WorldSteps

/-! # How a stored status changes

Any number of actors over one store. Every write of a run is one status step away from what its
actor last read or wrote of the run; nothing ties that to what is stored by then, because `Update`
does not look. So the stored status moves along the transition table exactly as far as the writers'
knowledge is up to date. -/

namespace Hopclaw

open Interleaving Prog List Option

variable {ι : Type}

/-! ## Every actor keeps to the protocol -/

/-- What an actor guarantees of its outcome. -/
def Actor.Post : Actor → Hist → Outcome → Prop
  | .submit msg, h, r => ∀ run, r = .ok (some run) → h.answer msg.externalEventID = some run.id
  | _, _, _ => True

variable {h : Hist}

theorem quiet_conforms {α : Type} {q : Bool} {p : ProcE α} {R : Hist → Except Err α → Prop}
    (hp : p.run.Conforms (protocol q) R h) {Q : Hist → Outcome → Prop} (hQ : ∀ h r, Q h r) :
    (quiet p).Conforms (protocol q) Q h := by
  refine Conforms.bind hp fun h' r _ => ?_
  cases r <;> exact hQ _ _

theorem Actor.prog_conforms (a : AgentComponent) (actor : Actor) :
    (actor.prog a).Conforms (protocol a.hasQueue) actor.Post actor.hist := by
  have hany : ∀ (h : Hist) (r : Outcome), True := fun _ _ => trivial
  cases actor with
  | submit msg =>
    refine Conforms.bind (submit_conforms a msg rfl) fun h' r hh => ?_
    cases r with
    | error e => exact fun _ he => by cases he
    | ok run => exact fun _ he => by cases he; exact hh.2.2 run rfl
  | executeRun run script => exact quiet_conforms (executeRun_framed a rfl run script rfl) hany
  | resumeRun runID script => exact quiet_conforms (resumeRun_framed a rfl runID script rfl) hany
  | cancelRun runID =>
    refine Conforms.bind (cancelRun_framed a runID rfl) fun h' r _ => ?_
    cases r <;> exact trivial
  | resolveApproval ticketID resolution =>
    exact quiet_conforms (resolveApproval_framed a ticketID resolution rfl) hany
  | markBackgroundFailure runID err =>
    exact quiet_conforms (markBackgroundFailure_framed a runID err rfl) hany
  | supersedeWaitingInputRun runID reason =>
    exact quiet_conforms (supersedeWaitingInputRun_framed a runID reason rfl) hany
  | recoverOrphanedRuns reason =>
    exact quiet_conforms (recoverOrphanedRuns_conforms a reason rfl) hany

theorem System.start_conforms (a : AgentComponent) (actors : ι → Actor) (w : World) :
    (System.start a actors w).Conforms (protocol a.hasQueue) fun i => (actors i).Post :=
  fun i => (actors i).prog_conforms a

theorem System.after_conforms [DecidableEq ι] {env : Env} (a : AgentComponent) (actors : ι → Actor)
    (w : World) {P : System ι → ι → Prop} {sched : List ι}
    (hm : (System.start a actors w).Meets env a P sched) :
    ((System.start a actors w).after env a sched).Conforms (protocol a.hasQueue)
      fun i => (actors i).Post :=
  hm.inv (fun _ i hc _ => hc.step i) (System.start_conforms a actors w)

/-! ## Steps of the system -/

variable {i : ι} {run : Run} {id : String} {c : System ι}

namespace System

variable [DecidableEq ι] {env : Env} {a : AgentComponent}

/-- A step leaves a record alone, or it is an operation that changes it. -/
theorem step_record (c : System ι) (i : ι) (id : String) :
    (c.step env a i).state.runs.find? id = c.state.runs.find? id ∨
      ∃ o, (c.threads i).next = some o ∧
        RecordChange c.state o id (c.state.runs.find? id) ((c.step env a i).state.runs.find? id) := by
  cases hn : (c.threads i).next with
  | none => exact .inl (by rw [step_of_next_none hn])
  | some o =>
    refine .inr ⟨o, rfl, ?_⟩
    rw [step_state hn]
    exact c.state.exec_recordChange env o id

/-- Where the next operation of the actor is an `Update` of a stored run, the actor's last
    knowledge of that run, the run it writes and the record it overwrites satisfy `P`. -/
def AtUpdate (P : Hist → Run → Run → Prop) (c : System ι) (i : ι) : Prop :=
  match (c.threads i).next with
  | some (.runsUpdate run) =>
    match c.state.runs.find? run.id with
    | some old => P (c.threads i).hist run old
    | none => True
  | _ => True

omit [DecidableEq ι] in
theorem AtUpdate.elim {P : Hist → Run → Run → Prop} (h : AtUpdate P c i) {old : Run}
    (hn : (c.threads i).next = some (.runsUpdate run)) (hf : c.state.runs.find? run.id = some old) :
    P (c.threads i).hist run old := by
  simpa only [AtUpdate, hn, hf] using h

instance {P : Hist → Run → Run → Prop} [∀ h run old, Decidable (P h run old)] (c : System ι)
    (i : ι) : Decidable (AtUpdate P c i) := by
  unfold AtUpdate
  split
  · split <;> infer_instance
  · infer_instance

/-! ## A finished run stays finished -/

/-- Where a finished run is about to be overwritten, the actor knows that it is finished: no other
    actor finished it since this one last read or wrote it. -/
def KnowsFinished : System ι → ι → Prop :=
  AtUpdate fun h run old => old.status.terminal = true →
    ((h.seen run.id).any fun snap => snap.status.terminal) = true

instance (c : System ι) (i : ι) : Decidable (KnowsFinished c i) :=
  inferInstanceAs (Decidable (AtUpdate _ c i))

/-- An actor that knows the run to be finished writes it back with the status it knows. -/
theorem mayWrite_of_knows (hw : h.MayWrite run)
    (hk : ((h.seen run.id).any fun snap => snap.status.terminal) = true) :
    run.status.terminal = true := by
  obtain ⟨snap, hs, -, -, hst⟩ := hw
  rw [hs] at hk
  split_ifs at hst with hr
  · exact absurd (hst.1.symm.trans hk) (by decide)
  · rw [hst.eq_of_terminal hk]
    exact hk

variable {Q : ι → Hist → Outcome → Prop}

theorem terminal_step (hc : c.Conforms (protocol a.hasQueue) Q) (hi : KnowsFinished c i)
    (ht : ∃ run, c.state.runs.find? id = some run ∧ run.status.terminal = true) :
    ∃ run, (c.step env a i).state.runs.find? id = some run ∧ run.status.terminal = true := by
  obtain ⟨old, hold, hterm⟩ := ht
  rcases c.step_record i id with hs | ⟨o, hn, hs⟩
  · exact ⟨old, hs.trans hold, hterm⟩
  cases hs with
  | same h => exact ⟨old, h.trans hold, hterm⟩
  | updated run old' t ho hid hb ha =>
    subst ho hid
    have hwritten := mayWrite_of_knows (hc.guar hn) (hi.elim hn hold hterm)
    exact ⟨_, ha, hwritten⟩
  | claimed old' t₁ t₂ ho hb hq ha =>
    cases hold.symm.trans hb
    rw [hq] at hterm
    exact absurd hterm (by decide)
  | created _ _ _ _ _ hb ha => exact absurd (hold.symm.trans hb) (by simp)

end System

/-- Along every schedule in which no actor overwrites a finished run without knowing that it is
    finished, a run once finished stays finished. -/
theorem terminal_stays_terminal [DecidableEq ι] (env : Env) (a : AgentComponent)
    (actors : ι → Actor) (w : World) (sched₁ sched₂ : List ι) (id : String) (s : RunStatus)
    (hmeets : (System.start a actors w).Meets env a System.KnowsFinished (sched₁ ++ sched₂))
    (hs : ((System.start a actors w).after env a sched₁).statusOf id = some s)
    (hterm : s.terminal = true) :
    ∃ t, ((System.start a actors w).after env a (sched₁ ++ sched₂)).statusOf id = some t ∧
      t.terminal = true := by
  obtain ⟨hm₁, hm₂⟩ := Meets.append.mp hmeets
  obtain ⟨run, hrun, rfl⟩ := map_eq_some_iff.mp hs
  have hconf := System.after_conforms a actors w hm₁
  have hend := hm₂.inv (I := fun c => c.Conforms (protocol a.hasQueue) (fun i => (actors i).Post) ∧
    ∃ run, c.state.runs.find? id = some run ∧ run.status.terminal = true)
    (fun c i hc hi => ⟨hc.1.step i, System.terminal_step hc.1 hi hc.2⟩) ⟨hconf, run, hrun, hterm⟩
  obtain ⟨-, run', hrun', hterm'⟩ := hend
  refine ⟨run'.status, ?_, hterm'⟩
  rw [System.after_append]
  exact map_eq_some_iff.mpr ⟨run', hrun', rfl⟩

/-- A run waits for an approval; an operator approves it and another cancels it. -/
def approveAndCancel : Fin 4 → Actor
  | 0 => .submit { sessionKey := "chat" }
  | 1 => .executeRun { id := runID 1, sessionID := "" } { body := [.waitApproval {}] }
  | 2 => .resolveApproval (Approval.ticketID 1) { status := .approved }
  | 3 => .cancelRun (runID 1)

/-- The run is submitted and executed until it waits. -/
def untilWaiting : List (Fin 4) :=
  replicate 9 0 ++ replicate 16 1

/-- The status of the run after the steps. -/
def statusAfter (sched : List (Fin 4)) : Option RunStatus :=
  ((System.start plainAgent approveAndCancel .empty).after Env.ticking plainAgent sched).statusOf
    (runID 1)

/-- The approval, done after the cancellation, fails and leaves the run cancelled. -/
theorem cancelled_before_approval_stays :
    ∃ t, statusAfter ((untilWaiting ++ replicate 9 3) ++ replicate 9 2) = some t ∧
      t.terminal = true :=
  terminal_stays_terminal Env.ticking plainAgent approveAndCancel .empty
    (untilWaiting ++ replicate 9 3) (replicate 9 2) (runID 1) .cancelled
    (by decide +kernel) (by decide +kernel) rfl

/-- The approval reads the run, still waiting, and the run is cancelled. -/
def cancelledMeanwhile : List (Fin 4) :=
  untilWaiting ++ replicate 5 2 ++ replicate 9 3

/-- The approval writes the cancelled run back as queued. -/
theorem approval_revives_cancelled_run :
    statusAfter cancelledMeanwhile = some .cancelled ∧
      statusAfter (cancelledMeanwhile ++ [2]) = some .queued := by
  decide +kernel

/-! ## Every change of status is in the table -/

namespace System

/-- Where a stored run is about to be overwritten, its status is the one the actor knows, and the
    recovery sweep finds it in a status that the table lets fail. -/
def UpToDate : System ι → ι → Prop :=
  AtUpdate fun h run old => (h.seen run.id).map Snapshot.status = some old.status ∧
    (h.recovery = true → old.status.validTransition .failed = true)

instance (c : System ι) (i : ι) : Decidable (UpToDate c i) :=
  inferInstanceAs (Decidable (AtUpdate _ c i))

/-- A writer that is up to date makes a step of the table. -/
theorem mayWrite_step {s : RunStatus} (hw : h.MayWrite run)
    (hs : (h.seen run.id).map Snapshot.status = some s)
    (hrec : h.recovery = true → s.validTransition .failed = true) : s.Step run.status := by
  obtain ⟨snap, hsnap, -, -, hst⟩ := hw
  rw [hsnap] at hs
  obtain rfl := some.inj hs
  split_ifs at hst with hr
  · rw [hst.2]
    exact .inr (hrec hr)
  · exact hst

variable [DecidableEq ι] {env : Env} {a : AgentComponent} {Q : ι → Hist → Outcome → Prop}

theorem status_step (hc : c.Conforms (protocol a.hasQueue) Q) (hi : UpToDate c i) {old new : Run}
    (hold : c.state.runs.find? id = some old)
    (hnew : (c.step env a i).state.runs.find? id = some new) : old.status.Step new.status := by
  rcases c.step_record i id with hs | ⟨o, hn, hs⟩
  · cases hold.symm.trans (hs.symm.trans hnew)
    exact .inl rfl
  cases hs with
  | same h =>
    cases hold.symm.trans (h.symm.trans hnew)
    exact .inl rfl
  | updated run old' t ho hid hb ha =>
    subst ho hid
    cases hnew.symm.trans ha
    have hup := hi.elim hn hold
    exact mayWrite_step (hc.guar hn) hup.1 hup.2
  | claimed old' t₁ t₂ ho hb hq ha =>
    cases hold.symm.trans hb
    cases hnew.symm.trans ha
    rw [hq]
    exact .inr (show RunStatus.validTransition .queued .running = true by decide)
  | created _ _ _ _ _ hb ha => exact absurd (hold.symm.trans hb) (by simp)

end System

/-- Along every schedule in which each writer knows the status it overwrites, and the recovery
    sweep fails only runs that may fail, every step changes a stored status along the table. -/
theorem status_change_is_allowed [DecidableEq ι] (env : Env) (a : AgentComponent)
    (actors : ι → Actor) (w : World) (sched : List ι) (i : ι) (id : String) (s t : RunStatus)
    (hmeets : (System.start a actors w).Meets env a System.UpToDate (sched ++ [i]))
    (hs : ((System.start a actors w).after env a sched).statusOf id = some s)
    (ht : ((System.start a actors w).after env a (sched ++ [i])).statusOf id = some t)
    (hne : s ≠ t) : s.validTransition t = true := by
  obtain ⟨hm₁, hm₂⟩ := Meets.append.mp hmeets
  rw [System.after_append] at ht
  obtain ⟨old, hold, rfl⟩ := map_eq_some_iff.mp hs
  obtain ⟨new, hnew, rfl⟩ := map_eq_some_iff.mp ht
  have hstep := System.status_step (System.after_conforms a actors w hm₁) hm₂.1 hold hnew
  exact hstep.resolve_left hne

/-- A run is submitted, executed and, at a restart, recovered. -/
def submitAndRecover : Fin 3 → Actor
  | 0 => .submit { sessionKey := "chat" }
  | 1 => .executeRun { id := runID 1, sessionID := "" } { body := [.waitApproval {}] }
  | 2 => .recoverOrphanedRuns "process_restart"

/-- A run that waits for an approval may fail, and the recovery fails it. -/
theorem recovery_of_waiting_run_is_allowed :
    RunStatus.validTransition .waitingApproval .failed = true :=
  status_change_is_allowed Env.ticking plainAgent submitAndRecover .empty
    (replicate 9 0 ++ replicate 16 1 ++ replicate 4 2) 2 (runID 1) .waitingApproval
    .failed (by decide +kernel) (by decide +kernel) (by decide +kernel) (by decide)

/-- The approval writes what it read, and the cancelled run is queued, which is no transition of the
    table. -/
theorem stale_approval_leaves_table :
    statusAfter cancelledMeanwhile = some .cancelled ∧
      statusAfter (cancelledMeanwhile ++ [2]) = some .queued ∧
      RunStatus.validTransition .cancelled .queued = false := by
  decide +kernel

end Hopclaw
