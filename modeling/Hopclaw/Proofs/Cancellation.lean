import Hopclaw.Proofs.Finalizer
import Hopclaw.Proofs.Knowledge

/-! # What a cancellation does

`CancelRun`, and the cancellation of all of a session's runs by an interrupting one, running
undisturbed. A cancellation either fails, or its run is stored as cancelled and its slot released;
no other run is touched, and the interrupting run itself is left alone whatever fails. -/

namespace Hopclaw

open Interleaving Prog Ends World

variable {env : Env}

/-! ## The run's ticket -/

/-- The stores are left alone, and without faults an error does not say that a run is cancelled. -/
def Uncancelled (env : Env) {α : Type} (w : World) (r : Except Err α) (w' : World) : Prop :=
  w.Writes none w' ∧ (env.Faultless → ∀ e, r = .error e → e.sentinel ≠ some .runCancelled)

variable {w : World}

theorem Uncancelled.of_ok {α : Type} {w' : World} (h : w.Writes none w') (a : α) :
    Uncancelled env w (.ok a) w' :=
  ⟨h, fun _ _ hr => nomatch hr⟩

theorem Uncancelled.after {α β : Type} {w₁ w₂ : World} {e : Err} (h1 : w.Writes none w₁)
    (h : Uncancelled env w₁ (.error e : Except Err α) w₂) :
    Uncancelled env w (.error e : Except Err β) w₂ :=
  ⟨h1.trans h.1, fun hf _ hr => by cases hr; exact h.2 hf e rfl⟩

theorem approvalsGet_ends (id : String) (w : World) :
    (ProcE.approvalsGet id).run.Ends (exec env) w (Uncancelled env w) := by
  refine ⟨w.exec_writes env (.approvalsGet id), fun hf e he => ?_⟩
  rcases w.of_faulty_error env he with h | h
  · simp [hf w.tick] at h
  · simp only [Approval.Store.get] at h
    split at h <;> cases h
    simp

theorem approvalsResolve_ends (id : String) (resolution : Approval.Resolution) (w : World) :
    (ProcE.approvalsResolve id resolution).run.Ends (exec env) w (Uncancelled env w) := by
  refine ⟨w.exec_writes env (.approvalsResolve id resolution), fun hf e he => ?_⟩
  rcases w.of_faulty_error env he with h | h
  · simp [hf w.tick] at h
  · exact Approval.Store.resolve_error h

theorem cancelApproval_ends (a : AgentComponent) (approvalID note : String) (w : World) :
    (cancelApproval a approvalID note).run.Ends (exec env) w (Uncancelled env w) := by
  unfold cancelApproval
  split
  · exact pureE (.of_ok (World.Writes.refl w none) _)
  refine (approvalsGet_ends approvalID w).bindE (fun ticket w₁ h1 => ?_)
    fun _ _ h => .after (World.Writes.refl w none) h
  split
  · exact pureE (.of_ok h1.1 _)
  refine (approvalsResolve_ends approvalID (cancelResolution note) w₁).bindE
    (fun ticket' w₂ h2 => ?_) fun _ _ h => .after h1.1 h
  have hemit : Idle (Proc.logged (.emit ⟨.approvalResolved, ticket'.runID, ticket'.sessionID⟩)) :=
    uses_logged (P := fun o : Op => o.writes = none) rfl
  refine (hemit.ends w₂).liftE fun _ w₃ h3 => pureE ?_
  exact .of_ok ((h1.1.trans h2.1).trans h3) _

theorem cancelApprovalUnlessResolved_ends (a : AgentComponent) (approvalID note : String)
    (w : World) : (cancelApprovalUnlessResolved a approvalID note).run.Ends (exec env) w
      (Uncancelled env w) := by
  refine (cancelApproval_ends a approvalID note w).tryCatch (fun _ _ h => h) fun e w' h => ?_
  split
  · exact pureE (.of_ok h.1 _)
  · exact throwE h

/-! ## The run -/

/-- How a cancellation ends. -/
structure Cancelled (env : Env) (a : AgentComponent) (id : String) (w : World)
    (r : Except Err Run) (w' : World) : Prop where
  others : ∀ id', id' ≠ id → w'.runs.find? id' = w.runs.find? id'
  /-- Without faults a cancellation that succeeds stores the run as cancelled and releases its
      slot. -/
  ok : env.Faultless → a.hasQueue = true → ∀ run, r = .ok run → ∃ old new,
    w.runs.find? id = some old ∧ w'.runs.find? id = some new ∧ new.status = .cancelled ∧
    new.SameIdentity old ∧ w'.queue = w.queue.finishRun old.sessionID id
  /-- Without faults a cancellation that fails does nothing. -/
  error : env.Faultless → ∀ e, r = .error e → w'.runs.find? id = w.runs.find? id ∧
    w'.queue = w.queue ∧ e.sentinel ≠ some .runCancelled

variable {a : AgentComponent}

/-- A cancellation that ends before it reaches the finalizer. -/
theorem Cancelled.of_error {id : String} {w' : World} {e : Err} (hw : w.Writes none w')
    (he : env.Faultless → e.sentinel ≠ some .runCancelled) :
    Cancelled env a id w (.error e) w' where
  others _ _ := by rw [hw.runs nofun]
  ok _ _ := error_ne
  error hf _ hr := by
    cases hr
    exact ⟨by rw [hw.runs nofun], hw.queue nofun, he hf⟩

/-- A cancellation through the finalizer, of a run that was not finished. -/
theorem Cancelled.of_finalized {run : Run} {w' : World} {r : Except Err Run} {t : Time}
    (hstored : w.runs.find? run.id = some run) (hrun : run.status.terminal = false)
    (h : Finalized env a operatorCancel (finalTransition run operatorCancel t) w r w') :
    Cancelled env a run.id w r w' := by
  have hid : (finalTransition run operatorCancel t).id = run.id := transitionRun_id ..
  have hses : (finalTransition run operatorCancel t).sessionID = run.sessionID :=
    transitionRun_sessionID ..
  have hstatus : (finalTransition run operatorCancel t).status = .cancelled :=
    (finalTransition_of_valid t (RunStatus.validTransition_cancelled hrun)).1
  obtain ⟨hruns, -, hst, hok⟩ := h
  have hothers := hruns.others
  rw [hid] at hothers hst hok
  have hstored' : w.runs.find? run.id ≠ none := by simp [hstored]
  refine ⟨hothers, fun hf hhas run' hr => ?_, fun hf e hr => ?_⟩
  · obtain ⟨hnew, hcopy⟩ := hst run' hr
    refine ⟨run, run', hstored, hnew, (Run.status_of_unplanned hcopy).trans hstatus, ⟨?_, ?_⟩, ?_⟩
    · exact (congrArg Run.inputEventID hcopy).trans (transitionRun_inputEventID ..)
    · exact (Run.sessionID_of_unplanned hcopy).trans hses
    · rw [(hok hf hstored').2.1 (by simp [operatorCancel, hhas]), hses]
  · obtain ⟨⟨_, hok⟩, -⟩ := hok hf hstored'
    exact absurd (hr.symm.trans hok) (by simp)

theorem cancelRun_ends (a : AgentComponent) (id : String) (w : World) :
    (cancelRun a id).run.Ends (exec env) w (Cancelled env a id w) := by
  refine (runsGet_ends id w).bindE ?_ ?_
  · rintro run w₁ ⟨h1, hget, -⟩
    have hstored := hget run rfl
    obtain rfl := RunStore.find?_keyed hstored
    split
    · exact throwE (.of_error h1 fun _ => by simp [alreadyErr])
    rename_i hrun
    refine (cancelApprovalUnlessResolved_ends a run.approvalID _ w₁).bindE ?_ fun e w₂ h2 =>
      .of_error (h1.trans h2.1) fun hf => h2.2 hf e rfl
    rintro _ w₂ h2
    refine (finalizeRun_ends a (by simpa using hrun) operatorCancel w₂).mono ?_
    rintro r w₃ ⟨t, -, h3⟩
    exact .of_finalized hstored (by simpa using hrun) (h3.of_writes_none (h1.trans h2.1))
  · rintro e w₁ ⟨h1, -, -, hsent⟩
    exact .of_error h1 fun hf => by rw [hsent hf e rfl]; simp

/-! ## All runs of a session -/

theorem runsList_ends (filter : RunListFilter) (w : World) :
    (ProcE.runsList filter).run.Ends (exec env) w fun r w' => w.Writes none w' ∧
      ∀ page, r = .ok page → page = w.runs.list filter (env.order w.tick) :=
  ⟨w.exec_writes env (.runsList filter), fun _ hr =>
    (Except.ok.inj (w.of_faulty_ok env hr)).symm⟩

theorem ne_of_mem_interrupted {keep : String} {page : List Run} {item : Run}
    (h : item ∈ interrupted keep page) : item.id ≠ keep := by
  have hfilter := (List.mem_filter.mp h).2
  simp only [Bool.and_eq_true, decide_eq_true_eq] at hfilter
  exact hfilter.1

theorem interruptRun_others (a : AgentComponent) {id other : String} (hne : other ≠ id)
    (w : World) : (interruptRun a id).run.Ends (exec env) w fun _ w' =>
      w'.runs.find? other = w.runs.find? other := by
  have hcancel : (do let _ ← cancelRun a id : ProcE Unit).run.Ends (exec env) w
      fun _ w' => w'.runs.find? other = w.runs.find? other :=
    (cancelRun_ends a id w).bindE (fun _ _ h => h.others other hne) fun _ _ h => h.others other hne
  refine hcancel.tryCatch (fun _ _ h => h) fun e w' h => ?_
  split
  · exact pureE h
  · exact throwE h

/-- Whatever fails, the interrupting run is left alone. -/
theorem interruptSessionRuns_kept (a : AgentComponent) (sessionID keep : String) (w : World) :
    (interruptSessionRuns a sessionID keep).run.Ends (exec env) w fun _ w' =>
      w'.runs.find? keep = w.runs.find? keep := by
  unfold interruptSessionRuns
  split
  · exact pureE rfl
  refine (runsList_ends _ w).bindE ?_ fun _ w₁ h => by rw [h.1.runs nofun]
  rintro page w₁ ⟨h1, -⟩
  refine mono (forM (I := fun _ w' => w'.runs.find? keep = w.runs.find? keep)
    (by rw [h1.runs nofun]) ?_)
    fun r w' h => by cases r <;> exact h
  intro done item rest w₂ hl hkept
  have hne := ne_of_mem_interrupted (show item ∈ interrupted keep page.runs by simp [hl])
  refine (interruptRun_others a hne.symm w₂).mono fun r w' h => ?_
  cases r <;> exact h.trans hkept

end Hopclaw
