import Hopclaw.Agent.Protocol
import Hopclaw.Agent.RunExecution
import Hopclaw.Agent.Submit
import Hopclaw.Runtime.Maintenance

/-! # The agent's functions keep to the protocol

One lemma per function: whatever the operations answer, each `Update` writes a copy that is one
status step away from what the actor last read or wrote of the run, the slot is taken before the
claim, and a run is created only after the store said the event is new. -/

namespace Hopclaw

open List Interleaving Prog Conforms Uses ProcE

variable {q : Bool} {α β : Type}

/-! ## Postconditions -/

/-- Between the two histories the actor learned about runs only. -/
structure Hist.Frame (h h' : Hist) : Prop where
  recovery : h'.recovery = h.recovery
  slot : h'.slot = h.slot
  pending : h'.pending = h.pending
  answer : h'.answer = h.answer

theorem Hist.Frame.refl (h : Hist) : h.Frame h := ⟨rfl, rfl, rfl, rfl⟩

theorem Hist.Frame.trans {h1 h2 h3 : Hist} (h12 : h1.Frame h2) (h23 : h2.Frame h3) : h1.Frame h3 :=
  ⟨h23.recovery.trans h12.recovery, h23.slot.trans h12.slot, h23.pending.trans h12.pending,
    h23.answer.trans h12.answer⟩

theorem Hist.Frame.see (h : Hist) (run : Run) : h.Frame (h.see run) := ⟨rfl, rfl, rfl, rfl⟩

@[simp] theorem Hist.tracks_see (h : Hist) (run : Run) : (h.see run).Tracks run := by
  simp [Hist.Tracks, Hist.see]

variable {run : Run} {h : Hist} {R : Hist → α → Prop} {S : Hist → β → Prop}

/-- Seeing another run does not disturb what is known of this one. -/
theorem Hist.Tracks.see_of_ne {other : Run} (ht : h.Tracks run) (hne : run.id ≠ other.id) :
    (h.see other).Tracks run := by
  simpa [Hist.Tracks, Hist.see, hne] using ht

/-- Called by an actor other than the recovery sweep, the function keeps to the protocol, the actor
    learns about runs only, and `R` holds of what is returned. -/
def FramedTo (R : Hist → α → Prop) (q : Bool) (h : Hist) (p : ProcE α) : Prop :=
  h.recovery = false → p.run.Conforms (protocol q)
    (fun h' r => h.Frame h' ∧ ∀ a, r = .ok a → R h' a) h

abbrev Framed (q : Bool) (h : Hist) (p : ProcE α) : Prop := FramedTo (fun _ _ => True) q h p

/-- A run that is returned is one the actor tracks. -/
abbrev FramedRun (q : Bool) (h : Hist) (p : ProcE Run) : Prop := FramedTo Hist.Tracks q h p

theorem error_ne {P : α → Prop} {e : Err} (a : α) (he : Except.error e = .ok a) : P a := by
  cases he

variable {x : ProcE α} {f : α → ProcE β}

/-- After a silent part the rest starts from the same history. -/
theorem silent_bindE {Q : Hist → Except Err β → Prop} (hx : x.run.Uses Op.Silent)
    (hf : ∀ a, (f a).run.Conforms (protocol q) Q h) (herr : ∀ e, Q h (.error e)) :
    (x >>= f).run.Conforms (protocol q) Q h :=
  exceptT_bind (silent_conforms hx h) (fun _ a he => he ▸ hf a) fun _ e he => he ▸ herr e

namespace FramedTo

theorem pure {a : α} (ha : R h a) : FramedTo R q h (Pure.pure a) :=
  fun _ => ⟨.refl h, fun _ he => by cases he; exact ha⟩

theorem throw (e : Err) : FramedTo R q h (throw e) :=
  fun _ => ⟨.refl h, error_ne⟩

theorem lift {h' : Hist} {p : ProcE α} (hp : FramedTo R q h' p) (hframe : h.Frame h')
    (hr : h.recovery = false) :
    p.run.Conforms (protocol q) (fun h'' r => h.Frame h'' ∧ ∀ a, r = .ok a → R h'' a) h' :=
  (hp (hframe.recovery.trans hr)).mono fun _ _ hh => ⟨hframe.trans hh.1, hh.2⟩

theorem bind (hx : FramedTo R q h x) (hf : ∀ h' a, h.Frame h' → R h' a → FramedTo S q h' (f a)) :
    FramedTo S q h (x >>= f) :=
  fun hr => exceptT_bind (hx hr)
    (fun h' a hh => (hf h' a hh.1 (hh.2 a rfl)).lift hh.1 hr) fun _ _ hh => ⟨hh.1, error_ne⟩

theorem tryCatch {f : Err → ProcE α} (hx : FramedTo R q h x)
    (hf : ∀ h' e, h.Frame h' → FramedTo R q h' (f e)) : FramedTo R q h (tryCatch x f) := by
  intro hr
  refine Conforms.bind (hx hr) fun h' r hh => ?_
  cases r with
  | ok a => exact hh
  | error e => exact (hf h' e hh.1).lift hh.1 hr

/-- What is returned does not matter. -/
theorem void (hx : FramedTo R q h x) (b : β) : Framed q h (x >>= fun _ => Pure.pure b) :=
  hx.bind fun _ _ _ _ => .pure trivial

theorem mono {R' : Hist → α → Prop} (hx : FramedTo R q h x) (hR : ∀ h' a, R h' a → R' h' a) :
    FramedTo R' q h x :=
  fun hr => (hx hr).mono fun _ _ hh => ⟨hh.1, fun a he => hR _ a (hh.2 a he)⟩

theorem forM {f : α → ProcE PUnit} {l : List α} (hf : ∀ h' a, h.Frame h' → Framed q h' (f a)) :
    Framed q h (l.forM f) := by
  induction l generalizing h with
  | nil => exact .pure trivial
  | cons a l ih =>
    exact (hf h a (.refl h)).bind fun h' _ hh _ => ih fun h'' b hh' => hf h'' b (hh.trans hh')

/-! ## Silent parts -/

theorem silent {p : ProcE α} (hp : p.run.Uses Op.Silent) : Framed q h p :=
  fun _ => (silent_conforms hp h).mono fun _ _ he => ⟨he ▸ .refl h, fun _ _ => trivial⟩

theorem after (hx : x.run.Uses Op.Silent) (hf : ∀ a, FramedTo S q h (f a)) :
    FramedTo S q h (x >>= f) :=
  fun hr => silent_bindE hx (fun a => hf a hr) fun _ => ⟨.refl h, error_ne⟩

theorem afterLift {p : Proc α} (hp : p.Uses Op.Silent) (hf : ∀ a, FramedTo S q h (f a)) :
    FramedTo S q h ((liftM p : ProcE α) >>= f) :=
  after (exceptT_lift hp) hf

end FramedTo

theorem uses_logged {P : Op → Prop} {o : Op} (ho : P o) : (Proc.logged o).Uses P :=
  ⟨ho, fun _ => trivial⟩

theorem silent_emit (type : EventType) (run : Run) : (Proc.emit type run).Uses Op.Silent :=
  uses_logged trivial

theorem uses_onlyIf {P : Op → Prop} {c : Bool} {p : Proc Unit} (hp : p.Uses P) :
    (Proc.onlyIf c p).Uses P := by
  unfold Proc.onlyIf
  split_ifs
  · exact hp
  · trivial

/-! ## Reading and writing runs -/

theorem runsGet_framed (id : String) (h : Hist) : FramedRun q h (runsGet id) := by
  refine fun _ => ⟨trivial, fun r => ?_⟩
  cases r with
  | ok run => exact ⟨.see h run, fun _ he => by cases he; exact h.tracks_see run⟩
  | error e => exact ⟨.refl h, error_ne⟩

/-- A write that succeeds only stamps the copy; one that fails leaves the actor with what it
    knew. -/
theorem runsUpdate_conforms (hw : h.MayWrite run) : (runsUpdate run).run.Conforms (protocol q)
      (fun h' r => (∀ run', r = .ok run' → h' = h.see run ∧ ∃ t, run' = run.stamped t) ∧
        ∀ e, r = .error e → h' = h) h := by
  refine exceptT_bind (Q := fun h' r =>
    (∀ t, r = .ok t → h' = h.see run) ∧ ∀ e, r = .error e → h' = h) ⟨hw, fun r => ?_⟩ ?_ ?_
  · cases r with
    | ok t => exact ⟨fun _ _ => rfl, fun _ he => by cases he⟩
    | error e => exact ⟨error_ne, fun _ _ => rfl⟩
  · exact fun h' t hh => ⟨fun _ he => (by cases he; exact ⟨hh.1 t rfl, t, rfl⟩),
      fun _ he => by cases he⟩
  · exact fun h' e hh => ⟨error_ne, fun _ _ => hh.2 e rfl⟩

/-- The copy may be written, unless by the recovery sweep. -/
def Hist.Writable (h : Hist) (run : Run) : Prop :=
  h.recovery = false → h.MayWrite run

theorem runsUpdate_stamped (hw : h.Writable run) :
    FramedTo (fun h' run' => h'.Tracks run' ∧ ∃ t, run' = run.stamped t) q h
      (runsUpdate run) := by
  refine fun hr => (runsUpdate_conforms (hw hr)).mono fun h' r hh => ?_
  cases r with
  | error e => exact ⟨hh.2 e rfl ▸ .refl h, error_ne⟩
  | ok run' =>
    obtain ⟨rfl, t, rfl⟩ := hh.1 run' rfl
    exact ⟨.see h run, fun _ he => by cases he; exact ⟨h.tracks_see run, t, rfl⟩⟩

theorem runsUpdate_framed (hw : h.Writable run) : FramedRun q h (runsUpdate run) :=
  (runsUpdate_stamped hw).mono fun _ _ hh => hh.1

theorem Hist.Tracks.writable {run' : Run} (ht : h.Tracks run) (hid : run'.id = run.id)
    (hevent : run'.inputEventID = run.inputEventID) (hsession : run'.sessionID = run.sessionID)
    (hstep : RunStatus.Step run.status run'.status) : h.Writable run' := by
  refine fun hr => ⟨run.snapshot, hid ▸ ht, hevent.symm, hsession.symm, ?_⟩
  simpa [hr, Run.snapshot] using hstep

/-- What may be written stays so under edits that keep the identity and the status. -/
theorem Hist.Writable.congr {run' : Run} (hw : h.Writable run) (hid : run'.id = run.id)
    (hevent : run'.inputEventID = run.inputEventID) (hsession : run'.sessionID = run.sessionID)
    (hstatus : run'.status = run.status) : h.Writable run' := by
  intro hr
  obtain ⟨snap, hseen, he, hs, hst⟩ := hw hr
  exact ⟨snap, hid ▸ hseen, hevent ▸ he, hsession ▸ hs, hstatus ▸ hst⟩

theorem Hist.Tracks.transition (ht : h.Tracks run) (status : Option RunStatus)
    (phase : Option RunPhase) (opts : RunTransitionSpec) :
    h.Writable (transitionRun run status phase opts) :=
  ht.writable (by simp) (by simp) (by simp) (transitionRun_step ..)

theorem Hist.Tracks.write (ht : h.Tracks run) : h.Writable run :=
  ht.writable rfl rfl rfl (Or.inl rfl)

/-! ## The finalizer -/

theorem silent_emitEach (type : EventType) (run : Run) (tasks : List Planner.Task) :
    (emitEach type run tasks).Uses Op.Silent :=
  forM fun _ => silent_emit type run

theorem silent_emitSkippedPlanTasks (run : Run) (plan before : Planner.Plan) :
    (emitSkippedPlanTasks run plan before).Uses Op.Silent :=
  forM fun _ => (silent_emit _ run).bind fun _ => silent_emit _ run

variable (a : AgentComponent)

theorem silent_announceFinal (run : Run) (spec : RunFinalization) :
    (announceFinal a run spec).Uses Op.Silent := by
  refine (uses_onlyIf (uses_logged trivial)).bind fun _ =>
    (uses_onlyIf (uses_logged trivial)).bind fun _ => ?_
  cases spec.eventType with
  | some type => exact silent_emit type run
  | none => trivial

/-- The plan edit may write the run once; either way the final write is still allowed. -/
abbrev FramedWrite (q : Bool) (h : Hist) (p : ProcE Run) : Prop := FramedTo Hist.Writable q h p

theorem failRunningPlanTasks_framed (hw : h.Writable run) (err : Err) :
    FramedWrite q h (failRunningPlanTasks run err) := by
  unfold failRunningPlanTasks
  split
  · exact .pure hw
  · refine .afterLift (silent_emitEach ..) fun _ => .afterLift (silent_emitSkippedPlanTasks ..)
      fun _ => .afterLift (silent_emit ..) fun _ => ?_
    exact (runsUpdate_framed (by exact hw.congr rfl rfl rfl rfl)).mono fun _ _ => Hist.Tracks.write

theorem cancelPlanTasks_framed (hw : h.Writable run) (reason : String) :
    FramedWrite q h (cancelPlanTasks run reason) := by
  unfold cancelPlanTasks
  split
  · exact .pure hw
  · dsimp only
    split_ifs
    · exact .pure (hw.congr rfl rfl rfl rfl)
    · refine (runsUpdate_framed (by exact hw.congr rfl rfl rfl rfl)).bind fun h' run' _ ht => ?_
      exact .afterLift (silent_emitEach ..) fun _ => .afterLift (silent_emitSkippedPlanTasks ..)
        fun _ => .afterLift (silent_emit ..) fun _ => .pure ht.write

theorem finalizePlan_framed (hw : h.Writable run) (action : FinalPlanAction) :
    FramedWrite q h (finalizePlan run action) := by
  match action with
  | .none => exact .pure hw
  | .cancel reason => exact cancelPlanTasks_framed hw _
  | .fail none => exact .pure hw
  | .fail (some err) => exact failRunningPlanTasks_framed hw err

theorem finalizeRun_framed (ht : h.Tracks run) (spec : RunFinalization) :
    FramedRun q h (finalizeRun a run spec) := by
  unfold finalizeRun
  split_ifs
  · exact .pure ht
  · refine .after ⟨trivial, fun _ => trivial⟩ fun now => ?_
    refine (finalizePlan_framed (ht.transition _ _ _) _).bind fun _ run₁ _ hw => ?_
    refine (runsUpdate_framed hw).bind fun _ run₂ _ ht2 => ?_
    exact .afterLift (silent_announceFinal ..) fun _ => .pure ht2

theorem markBackgroundFailure_framed (runID : String) (err : Option Err) :
    Framed q h (markBackgroundFailure a runID err) := by
  unfold markBackgroundFailure
  split
  · exact .pure trivial
  · split
    · exact .pure trivial
    · refine (runsGet_framed runID h).bind fun _ run _ ht => ?_
      split_ifs
      · exact .pure trivial
      · exact (finalizeRun_framed a ht _).void ()

theorem supersedeWaitingInputRun_framed (runID reason : String) :
    Framed q h (supersedeWaitingInputRun a runID reason) := by
  unfold supersedeWaitingInputRun
  split
  · exact .pure trivial
  · refine (runsGet_framed runID h).bind fun _ run _ ht => ?_
    split
    · exact .pure trivial
    · exact (finalizeRun_framed a ht _).void ()

/-! ## Approvals and cancellation -/

theorem silent_cancelApproval (approvalID note : String) :
    (cancelApproval a approvalID note).run.Uses Op.Silent := by
  unfold cancelApproval
  split
  · trivial
  · refine exceptT_bind ⟨trivial, fun _ => trivial⟩ fun ticket => ?_
    split_ifs
    · trivial
    · exact exceptT_bind ⟨trivial, fun _ => trivial⟩ fun _ =>
        exceptT_bind (exceptT_lift (uses_logged trivial)) fun _ => trivial

theorem silent_cancelApprovalUnlessResolved (approvalID note : String) :
    (cancelApprovalUnlessResolved a approvalID note).run.Uses Op.Silent := by
  refine exceptT_tryCatch (silent_cancelApproval ..) fun e => ?_
  split_ifs <;> trivial

theorem cancelRun_framed (runID : String) : FramedRun q h (cancelRun a runID) := by
  refine (runsGet_framed runID h).bind fun _ run _ ht => ?_
  split_ifs
  · exact .throw _
  · exact .after (silent_cancelApprovalUnlessResolved ..) fun _ => finalizeRun_framed a ht _

theorem Hist.Frame.foldl_see (h : Hist) (runs : List Run) : h.Frame (runs.foldl Hist.see h) := by
  induction runs generalizing h with
  | nil => exact .refl h
  | cons run runs ih => exact (Hist.Frame.see h run).trans (ih (h.see run))

theorem runsList_framed (filter : RunListFilter) : Framed q h (runsList filter) := by
  refine fun _ => ⟨trivial, fun r => ?_⟩
  cases r with
  | ok page => exact ⟨.foldl_see h page.runs, fun _ _ => trivial⟩
  | error e => exact ⟨.refl h, error_ne⟩

theorem interruptSessionRuns_framed (sessionID keepRunID : String) :
    Framed q h (interruptSessionRuns a sessionID keepRunID) := by
  unfold interruptSessionRuns
  split
  · exact .pure trivial
  · refine (runsList_framed _).bind fun _ page _ _ => .forM fun _ item _ =>
      .tryCatch ((cancelRun_framed a _).void ()) fun _ e _ => ?_
    split_ifs
    · exact .pure trivial
    · exact .throw e

theorem silent_applyApprovalGrant (ticket : Approval.Ticket) :
    (applyApprovalGrant a ticket).Uses Op.Silent := by
  unfold applyApprovalGrant
  split_ifs
  · trivial
  · exact forM fun _ => uses_logged trivial

theorem applyResolution_framed (ticket : Approval.Ticket) (ht : h.Tracks run) :
    Framed q h (applyResolution a ticket run) := by
  have hfinal : Framed q h (do let _ ← finalizeRun a run (resolvedFinal ticket) : ProcE Unit) :=
    (finalizeRun_framed a ht _).void ()
  unfold applyResolution
  split
  · exact .afterLift (silent_applyApprovalGrant ..) fun _ =>
      (runsUpdate_framed (ht.transition _ _ _)).void ()
  · exact hfinal
  · exact hfinal
  · exact .pure trivial

theorem afterResolve_framed (ticket : Approval.Ticket) : Framed q h (afterResolve a ticket) := by
  refine .afterLift (uses_logged trivial) fun _ => ?_
  refine (runsGet_framed ticket.runID h).bind fun _ run _ ht => ?_
  split_ifs
  · exact .throw _
  · exact (applyResolution_framed a ticket ht).void ticket

theorem resolveApproval_framed (ticketID : String) (resolution : Approval.Resolution) :
    Framed q h (resolveApproval a ticketID resolution) := by
  unfold resolveApproval
  split_ifs
  · exact .throw _
  · refine .after ⟨trivial, fun _ => trivial⟩ fun current => .after trivial fun resolution => ?_
    refine (runsGet_framed _ h).bind fun _ run _ _ => ?_
    split_ifs
    · exact .after (silent_cancelApprovalUnlessResolved ..) fun _ => .throw _
    · exact .after ⟨trivial, fun _ => trivial⟩ fun ticket => afterResolve_framed a ticket

theorem waitApproval_framed (ht : h.Tracks run) (req : ApprovalRequest) :
    FramedRun q h (waitApproval a run req) := by
  unfold waitApproval
  split_ifs
  · exact .throw _
  · refine .after ⟨trivial, fun _ => trivial⟩ fun ticket => ?_
    refine (runsUpdate_framed (ht.transition _ _ _)).bind fun _ run₁ _ ht1 => ?_
    exact .afterLift (silent_emit ..) fun _ => .afterLift (silent_emit ..) fun _ => .pure ht1

/-! ## The executor -/

/-- `refreshRun` gives the rest of a function the run as it is stored. -/
theorem refreshRun_framed (run : Run) : FramedTo (fun h' r => h'.Tracks r.1) q h (refreshRun run) :=
  (runsGet_framed run.id h).bind fun _ _ _ ht => .pure ht

theorem unlessCancelled_framed (run : Run) {finish : Run → ProcE Unit}
    (hfinish : ∀ h' run', h'.Tracks run' → Framed q h' (finish run')) :
    Framed q h (unlessCancelled run finish) := by
  refine (refreshRun_framed run).bind fun h' r _ ht => ?_
  dsimp only
  split_ifs
  · exact .pure trivial
  · exact hfinish h' r.1 ht

theorem completeRun_framed (run : Run) : Framed q h (completeRun a run) :=
  unlessCancelled_framed run fun _ _ ht => (finalizeRun_framed a ht _).void ()

theorem failRun_framed (run : Run) (err : Err) : Framed q h (failRun a run err) :=
  unlessCancelled_framed run fun _ _ ht =>
    (finalizeRun_framed a ht _).bind fun _ _ _ _ => .throw err

theorem timeoutRun_framed (run : Run) : Framed q h (timeoutRun a run) :=
  unlessCancelled_framed run fun _ _ ht => (finalizeRun_framed a ht _).bind fun _ _ _ _ =>
    .silent (exceptT_lift (silent_emit ..))

theorem yieldWorkflowRun_framed (run : Run) (budgetErr : Option Err) :
    Framed q h (yieldWorkflowRun a run budgetErr) := by
  refine unlessCancelled_framed run fun _ latest ht => ?_
  cases budgetErr with
  | some err => exact failRun_framed a latest err
  | none =>
    exact (finalizeRun_framed a ht _).bind fun _ _ _ _ => .silent (exceptT_lift (silent_emit ..))

theorem handleRunExecutionError_framed (run : Run) (err : Err) :
    Framed q h (handleRunExecutionError a run err) := by
  unfold handleRunExecutionError
  split_ifs
  · exact timeoutRun_framed a run
  · exact failRun_framed a run err

theorem onError_framed (run : Run) (handled : Bool) (e : Err) :
    Framed q h (onError a run handled e) := by
  unfold onError
  split_ifs
  · exact handleRunExecutionError_framed a run e
  · exact .throw e

theorem ensureRunnable_framed (run : Run) (ctxErr : Option Err) :
    FramedRun q h (ensureRunnable run ctxErr) := by
  refine (refreshRun_framed run).bind fun _ r _ ht => ?_
  dsimp only
  split_ifs
  · exact .throw _
  · cases ctxErr with
    | some err => exact .throw err
    | none => exact .pure ht

/-- Continue with the run of a step that succeeded, or handle its error. -/
theorem FramedTo.matchResult {x : ProcE Run} {f : Run → ProcE β} {g : Err → ProcE β}
    (hx : FramedRun q h x) (hf : ∀ h' run, h'.Tracks run → FramedTo S q h' (f run))
    (hg : ∀ h' e, FramedTo S q h' (g e)) :
    FramedTo S q h (ExceptT.mk (x.run >>= fun r => match r with
      | .ok run => (f run).run
      | .error e => (g e).run)) := by
  refine fun hr => Conforms.bind (hx hr) fun h' r hh => ?_
  cases r with
  | ok run => exact (hf h' run (hh.2 run rfl)).lift hh.1 hr
  | error e => exact (hg h' e).lift hh.1 hr

theorem RunEdit.writable (edit : RunEdit) (hw : h.Writable run) : h.Writable (edit.apply run) :=
  hw.congr rfl rfl rfl rfl

theorem RunEdit.tracks (edit : RunEdit) (ht : h.Tracks run) : h.Tracks (edit.apply run) :=
  ht

theorem executeLoop_framed (script : List ExecAction) (ht : h.Tracks run) :
    Framed q h (executeLoop a run script) := by
  induction script generalizing h run with
  | nil => exact .pure trivial
  | cons action rest ih =>
    cases action with
    | refresh ctxErr onErr =>
      exact (ensureRunnable_framed run ctxErr).matchResult (fun _ _ ht' => ih ht')
        fun _ e => onError_framed a run _ e
    | persist edit onErr =>
      intro hr
      refine bind (runsUpdate_conforms (edit.writable ht.write hr)) fun h' r hh => ?_
      cases r with
      | ok run' =>
        obtain ⟨rfl, t, rfl⟩ := hh.1 run' rfl
        have ht' : (h.see (edit.apply run)).Tracks ((edit.apply run).stamped t) :=
          h.tracks_see (edit.apply run)
        exact (ih ht' hr).mono fun _ _ hh => ⟨(Hist.Frame.see h _).trans hh.1, hh.2⟩
      | error e =>
        obtain rfl := hh.2 e rfl
        split_ifs
        · exact ih (edit.tracks ht) hr
        · exact onError_framed a run _ e hr
    | phase toRunning phase opts edit handled =>
      exact (runsUpdate_framed (edit.writable (ht.transition _ _ _))).matchResult
        (fun _ _ ht' => ih ht') fun _ e => onError_framed a run _ e
    | waitApproval req =>
      exact (waitApproval_framed a ht req).matchResult (fun _ _ _ => .pure trivial)
        fun _ e => handleRunExecutionError_framed a run e
    | waitInput report =>
      refine (runsUpdate_framed ?_).bind fun _ run₁ _ _ => .silent
        (exceptT_bind (exceptT_lift (silent_emit ..)) fun _ =>
          exceptT_lift (silent_emit ..))
      exact (ht.transition _ _ _).congr rfl rfl rfl rfl
    | complete => exact completeRun_framed a run
    | fail err => exact failRun_framed a run err
    | yield budgetErr => exact yieldWorkflowRun_framed a run budgetErr
    | stop err =>
      cases err with
      | none => exact .pure trivial
      | some e => exact .throw e

/-! ## Claim and dispatch -/

/-- A claimed run is tracked, with the slot held if there is a queue; otherwise the actor knows
    more about runs only. -/
def ClaimResult (hasQueue : Bool) (h h' : Hist) : Except Err (Option Run) → Prop
  | .ok (some run) =>
    h'.recovery = h.recovery ∧ h'.pending = h.pending ∧ h'.answer = h.answer ∧ h'.Tracks run ∧
      (hasQueue = false → h'.slot = none)
  | _ => h.Frame h'

theorem claimQueuedExecution_conforms (hslot : h.slot = none) (ht : h.Tracks run) :
    (claimQueuedExecution a run).run.Conforms (protocol a.hasQueue) (ClaimResult a.hasQueue h)
      h := by
  have hseen : h.seen run.id ≠ none := by rw [ht]; simp
  unfold claimQueuedExecution
  cases hq : a.hasQueue with
  | true =>
    refine bind (Q := fun h' r => h' = Hist.note (.queueStart run.sessionID run.id) r h)
      ⟨⟨hslot, hseen⟩, fun r => rfl⟩ fun h1 r hr => ?_
    subst hr
    cases r with
    | error e =>
      dsimp only
      split_ifs <;> exact Hist.Frame.refl h
    | ok u =>
      refine ⟨fun _ => ⟨run.sessionID, rfl⟩, fun r => ?_⟩
      match r with
      | .error e => exact ⟨trivial, fun _ => ⟨rfl, hslot.symm, rfl, rfl⟩⟩
      | .ok (claimed, false) => exact ⟨trivial, fun _ => ⟨rfl, hslot.symm, rfl, rfl⟩⟩
      | .ok (claimed, true) => exact ⟨rfl, rfl, rfl, h.tracks_see claimed, nofun⟩
  | false =>
    refine ⟨nofun, fun r => ?_⟩
    match r with
    | .error e => exact Hist.Frame.refl h
    | .ok (claimed, false) => exact ⟨rfl, rfl, rfl, rfl⟩
    | .ok (claimed, true) =>
      exact ⟨rfl, rfl, rfl, h.tracks_see claimed, fun _ => by
        show h.slot.map _ = none
        rw [hslot]
        rfl⟩

variable {body : ProcE α}

/-- How an error of a part is treated changes nothing else. -/
theorem settled_conforms {Q : Hist → Except Err α → Prop} (hr : h.recovery = false) (run : Run)
    {dflt : α} (hbody : body.run.Conforms (protocol q) Q h)
    (herr : ∀ h' e, Q h' (.error e) → h.Frame h') (hdflt : ∀ h', h.Frame h' → Q h' (.ok dflt))
    (hthrow : ∀ h' e, h.Frame h' → Q h' (.error e)) :
    (settled a run dflt body).run.Conforms (protocol q) Q h := by
  refine bind hbody fun h' r hh => ?_
  cases r with
  | ok x => exact hh
  | error e =>
    have hf := herr h' e hh
    dsimp only
    split_ifs
    · exact hdflt h' hf
    · refine exceptT_bind (timeoutRun_framed a run (hf.recovery.trans hr)) ?_ ?_
      · exact fun h'' _ hh' => hdflt h'' (hf.trans hh'.1)
      · exact fun h'' e' hh' => hthrow h'' e' (hf.trans hh'.1)
    · exact hthrow h' e hf

theorem settled_framed (run : Run) {dflt : α} (hbody : FramedTo R q h body)
    (hdflt : ∀ h', R h' dflt) : FramedTo R q h (settled a run dflt body) :=
  fun hr => settled_conforms a hr run (hbody hr) (fun _ _ hh => hh.1)
    (fun h' hh => ⟨hh, fun _ he => by cases he; exact hdflt h'⟩) fun _ _ hh => ⟨hh, error_ne⟩

theorem deferred_framed {cleanup : Proc Unit} (hbody : FramedTo R q h body)
    (hcleanup : cleanup.Uses Op.Silent) : FramedTo R q h (deferred body cleanup) :=
  fun hr => bind (hbody hr) fun h' _ hh =>
    bind (silent_conforms hcleanup h') fun _ _ he => he ▸ hh

theorem markPreflightReady_framed (ht : h.Tracks run) : FramedRun q h (markPreflightReady run) := by
  unfold markPreflightReady
  split
  · exact .pure ht
  · split_ifs
    · exact .pure ht
    · refine (runsUpdate_framed ?_).bind fun _ run₁ _ ht1 =>
        .afterLift (silent_emit ..) fun _ => .pure ht1
      exact ht.write.congr rfl rfl rfl rfl

/-- The record `dispatchRunExecution` writes before it starts: phase, error and start time. -/
theorem Hist.Tracks.dispatched (ht : h.Tracks run) (opts : RunDispatchOptions) (now : Time) :
    h.Writable
      (let run := transitionRun run none (some .preparing)
       let run := if opts.clearError then transitionRun run none none { error := some "" } else run
       if opts.setStartedAt && run.startedAt = 0 then { run with startedAt := now } else run) := by
  have hw := ht.transition none (some .preparing) {}
  dsimp only
  split_ifs <;> exact hw.congr rfl rfl rfl rfl

theorem dispatchRunExecution_framed (ht : h.Tracks run) (opts : RunDispatchOptions)
    (script : Script) : Framed q h (dispatchRunExecution a run opts script) := by
  unfold dispatchRunExecution
  split
  · exact handleRunExecutionError_framed a run _
  · refine (markPreflightReady_framed ht).bind fun _ run₁ _ ht1 => ?_
    refine .after ⟨trivial, fun _ => trivial⟩ fun now => ?_
    refine (runsUpdate_framed (ht1.dispatched opts now)).bind fun _ run₂ _ ht2 => ?_
    exact .afterLift (silent_emit ..) fun _ => .after ⟨trivial, fun _ => trivial⟩ fun _ =>
      executeLoop_framed a script.body ht2

/-- The deferred `finishQueue` gives the slot up. -/
theorem finishQueue_conforms (run : Run) (hslot : a.hasQueue = false → h.slot = none) :
    (finishQueue a run).Conforms (protocol a.hasQueue)
      (fun h' _ => h' = { h with slot := none }) h := by
  unfold finishQueue
  cases hq : a.hasQueue with
  | true => exact ⟨trivial, fun _ => rfl⟩
  | false =>
    show h = { h with slot := none }
    rw [← hslot hq]

theorem claimAndDispatch_framed (hslot : h.slot = none) (ht : h.Tracks run)
    (opts : RunDispatchOptions) (script : Script) :
    Framed a.hasQueue h (claimAndDispatch a run opts script) := by
  refine settled_framed a run (.afterLift (uses_logged trivial) fun _ => ?_) fun _ => trivial
  refine deferred_framed (fun hr => ?_) (uses_logged trivial)
  refine exceptT_bind (settled_conforms a hr run
    (claimQueuedExecution_conforms a hslot ht) (fun _ _ hh => hh) (fun _ hh => hh)
    fun _ _ hh => hh) ?_ fun _ _ hh => ⟨hh, error_ne⟩
  intro h1 claimed hh
  match claimed with
  | none => exact ⟨hh, fun _ _ => trivial⟩
  | some run₁ =>
    obtain ⟨hrec, hpend, hans, ht1, hslot1⟩ := hh
    -- while the executor runs the slot is held, and the deferred call gives it up again
    have hbody : Framed a.hasQueue h1
        (settled a run₁ () (dispatchRunExecution a run₁ opts script)) :=
      settled_framed a run₁ (dispatchRunExecution_framed a ht1 opts script) fun _ => trivial
    refine bind (hbody (hrec.trans hr)) fun h2 r ⟨hf, hany⟩ => ?_
    refine bind (finishQueue_conforms a run₁ fun hq => hf.slot.trans (hslot1 hq)) ?_
    rintro h3 _ rfl
    exact ⟨⟨hf.recovery.trans hrec, hslot.symm, hf.pending.trans hpend, hf.answer.trans hans⟩, hany⟩

/-- The stored run is tracked, if the call goes on with one. -/
abbrev FramedRun? (q : Bool) (h : Hist) (p : ProcE (Option Run)) : Prop :=
  FramedTo (fun h' run? => ∀ run, run? = some run → h'.Tracks run) q h p

theorem none_ne {P : Run → Prop} (run : Run) (he : none = some run) : P run := by
  cases he

theorem ensureRunnable?_framed (run : Run) : FramedRun? q h (ensureRunnable? run) :=
  (ensureRunnable_framed run none).bind fun _ _ _ ht =>
    .pure fun _ he => by cases he; exact ht

/-- Go on with the run, if there is one. -/
theorem FramedTo.dispatch {x : ProcE (Option Run)} (hx : FramedRun? a.hasQueue h x)
    (hslot : h.slot = none) (opts : RunDispatchOptions) (script : Script) :
    Framed a.hasQueue h (do match ← x with
      | none => return ()
      | some run => claimAndDispatch a run opts script) :=
  hx.bind fun _ run? hf ht => match run? with
    | none => .pure trivial
    | some run => claimAndDispatch_framed a (hf.slot.trans hslot) (ht run rfl) opts script

theorem executeRun_framed (hslot : h.slot = none) (run : Run) (script : Script) :
    Framed a.hasQueue h (executeRun a run script) := by
  unfold executeRun
  split
  · exact .throw _
  · split
    · exact .throw _
    · refine .after ⟨trivial, fun _ => trivial⟩ fun claimed => ?_
      split
      · exact .pure trivial
      · refine deferred_framed ?_ (uses_logged trivial)
        exact (settled_framed a run (ensureRunnable?_framed run) fun _ => none_ne).dispatch a hslot
          _ script

theorem resumableRun_framed (runID : String) : FramedRun? q h (resumableRun a runID) := by
  refine (runsGet_framed runID h).bind fun _ run _ _ => ?_
  split
  · exact .pure none_ne
  · exact .throw _
  · exact .throw _
  · refine FramedTo.bind (.tryCatch (ensureRunnable?_framed run) fun _ e _ => ?_)
      fun _ run? _ ht => ?_
    · split_ifs
      · exact .throw _
      · exact (timeoutRun_framed a run).bind fun _ _ _ _ => .pure none_ne
      · exact .throw e
    · match run? with
      | none => exact .pure none_ne
      | some run₂ =>
        refine .after ⟨trivial, fun _ => trivial⟩ fun ticket => ?_
        split
        · exact .throw _
        · exact .pure ht

theorem resumeRun_framed (hslot : h.slot = none) (runID : String) (script : Script) :
    Framed a.hasQueue h (resumeRun a runID script) := by
  unfold resumeRun
  split
  · exact .throw _
  · refine .after ⟨trivial, fun _ => trivial⟩ fun claimed => ?_
    split
    · exact .pure trivial
    · refine deferred_framed ?_ (uses_logged trivial)
      exact (resumableRun_framed a runID).dispatch a hslot _ script

/-! ## Submitting -/

variable (msg : IncomingMessage) (session : Session)

@[simp] theorem analyzeSubmitRun_id (run : Run) :
    (analyzeSubmitRun a msg session run).id = run.id := by
  unfold analyzeSubmitRun
  dsimp only
  split
  · exact transitionRun_id ..
  · rfl

theorem Hist.Tracks.analyzed (ht : h.Tracks run) :
    h.Writable (analyzeSubmitRun a msg session run) := by
  have htri : h.Tracks (triaged a msg session run) := ht
  unfold analyzeSubmitRun
  dsimp only
  split
  · exact htri.transition _ _ _
  · exact htri.write

theorem silent_emitSubmittedRunEvents (run : Run) : (emitSubmittedRunEvents run).Uses Op.Silent :=
  (silent_emit ..).bind fun _ => (uses_onlyIf (silent_emit ..)).bind fun _ =>
    uses_onlyIf (silent_emit ..)

theorem dispatchSubmittedRun_framed (run : Run) :
    Framed q h (dispatchSubmittedRun a session run) := by
  refine FramedTo.bind (R := fun _ _ => True) ?_ fun _ _ _ _ =>
    FramedTo.bind (R := fun _ _ => True) ?_ fun _ _ _ _ =>
      .silent (exceptT_lift (silent_emitSubmittedRunEvents run))
  · unfold onlyIf
    split
    · exact interruptSessionRuns_framed a _ _
    · exact .pure trivial
  · unfold onlyIf
    split
    · exact .silent (by exact ⟨trivial, fun _ => trivial⟩)
    · exact .pure trivial

/-- A run that is returned is the one given. -/
theorem submitCreated_framed (ht : h.Tracks run) :
    FramedTo (fun _ run' => run'.id = run.id) q h (submitCreated a msg session run) := by
  refine .after ⟨trivial, fun _ => trivial⟩ fun _ => ?_
  refine (runsUpdate_stamped (ht.analyzed a msg session)).bind fun _ run₁ _ ⟨ht1, _, hrun1⟩ => ?_
  unfold recordSubmitSession
  rw [bind_assoc]
  refine .after ⟨trivial, fun _ => trivial⟩ fun _ => ?_
  have hw : Hist.Writable _ (recorded a session run₁) := ht1.writable rfl rfl rfl (Or.inl rfl)
  refine (runsUpdate_stamped hw).bind fun _ run₂ _ ⟨_, _, hrun2⟩ => ?_
  refine (dispatchSubmittedRun_framed a session _).bind fun _ _ _ _ => .pure ?_
  rw [hrun2, hrun1]
  exact analyzeSubmitRun_id ..

/-- A run that `Submit` returns is the one the store named for the event. -/
def SubmitResult (event : String) (h h' : Hist) (r : Except Err Run) : Prop :=
  h'.recovery = h.recovery ∧ h'.slot = h.slot ∧ ∀ run, r = .ok run → h'.answer event = some run.id

theorem submit_conforms (hr : h.recovery = false) :
    (submit a msg).run.Conforms (protocol q) (SubmitResult msg.externalEventID h) h := by
  refine silent_bindE ⟨trivial, fun _ => trivial⟩ (fun session => ?_) fun _ => ⟨rfl, rfl, error_ne⟩
  unfold findOrCreateSubmitRun
  rw [bind_assoc]
  refine exceptT_bind (Q := fun h' r => ∃ b, r = .ok b ∧
    h' = { h with pending := if b then none else some msg.externalEventID })
    ⟨trivial, fun b => ⟨b, rfl, rfl⟩⟩ ?_ fun h' e hh => by obtain ⟨_, he, _⟩ := hh; cases he
  rintro h1 seen ⟨b, hb, rfl⟩
  cases hb
  cases seen with
  | true =>
    -- the event is known: its run is looked up and returned
    refine ⟨trivial, fun r => ?_⟩
    cases r with
    | error e => exact ⟨rfl, rfl, error_ne⟩
    | ok run => exact ⟨rfl, rfl, fun _ he => by cases he; exact Function.update_self ..⟩
  | false =>
    refine ⟨Or.inr rfl, fun r => ?_⟩
    cases r with
    | error e => exact ⟨rfl, rfl, error_ne⟩
    | ok run =>
      refine mono (submitCreated_framed a msg session ?_ ?_) fun h' r ⟨hf, hid⟩ => ?_
      · exact h.tracks_see run
      · exact hr
      · refine ⟨hf.recovery, hf.slot, fun run' he => ?_⟩
        rw [hf.answer, hid run' he]
        exact Function.update_self ..

/-! ## Recovery -/

/-- After a listing without repetitions the actor tracks every listed run. -/
theorem Hist.tracks_foldl_see {runs : List Run} (hnodup : (runs.map Run.id).Nodup) (h : Hist)
    (hrun : run ∈ runs) : (runs.foldl Hist.see h).Tracks run := by
  induction runs using List.reverseRecOn with
  | nil => cases hrun
  | append_singleton runs last ih =>
    rw [map_append, nodup_append] at hnodup
    rw [foldl_append, foldl_cons]
    rcases mem_append.mp hrun with hmem | hmem
    · refine (ih hnodup.1 hmem).see_of_ne ?_
      exact hnodup.2.2 _ (mem_map_of_mem hmem) _ (by simp)
    · rw [mem_singleton.mp hmem]
      exact Hist.tracks_see _ last

variable (reason : String)

theorem silent_cancelOrphanedApproval (run : Run) :
    (Runtime.cancelOrphanedApproval a run reason).run.Uses Op.Silent := by
  unfold Runtime.cancelOrphanedApproval
  split
  · trivial
  · refine bind ?_ fun r => ?_
    · unfold Runtime.orphanedTicket
      split <;> exact ⟨trivial, fun _ => trivial⟩
    · cases r with
      | error e => trivial
      | ok ticket =>
        dsimp only
        split
        · trivial
        · refine ⟨trivial, fun r => ?_⟩
          cases r <;> trivial

/-- The sweep writes one record of the run, and no other. -/
theorem recoverOrphanedRun_conforms (hr : h.recovery = true) (ht : h.Tracks run)
    (hlive : run.status.terminal = false) :
    (Runtime.recoverOrphanedRun a reason run).run.Conforms (protocol q)
      (fun h' _ => h' = h ∨ ∃ now, h' = h.see (Runtime.orphaned run reason now)) h := by
  refine silent_bindE (silent_cancelOrphanedApproval ..) (fun _ => ?_) fun _ => Or.inl rfl
  refine silent_bindE ⟨trivial, fun _ => trivial⟩ (fun now => ?_) fun _ => Or.inl rfl
  have hw : h.MayWrite (Runtime.orphaned run reason now) :=
    ⟨run.snapshot, ht, rfl, rfl, by simp [hr, Run.snapshot, Runtime.orphaned, hlive]⟩
  refine exceptT_bind (runsUpdate_conforms hw) ?_ fun h' e hh => Or.inl (hh.2 e rfl)
  intro h1 run₁ hh
  obtain ⟨rfl, t, rfl⟩ := hh.1 run₁ rfl
  exact (silent_conforms (exceptT_lift (silent_emit ..)) _).mono
    fun _ _ he => Or.inr ⟨now, he⟩

theorem recoverOrphanedRuns_loop {runs : List Run} (hnodup : (runs.map Run.id).Nodup)
    (hlive : ∀ run ∈ runs, run.status.terminal = false) (hr : h.recovery = true)
    (ht : ∀ run ∈ runs, h.Tracks run) :
    (runs.forM (Runtime.recoverOrphanedRun a reason)).run.Conforms (protocol q)
      (fun h' _ => h.Frame h') h := by
  induction runs generalizing h with
  | nil => exact Hist.Frame.refl h
  | cons run runs ih =>
    rw [map_cons, nodup_cons] at hnodup
    have hframe : ∀ h', (h' = h ∨ ∃ now, h' = h.see (Runtime.orphaned run reason now)) →
        h.Frame h' := by
      rintro h' (rfl | ⟨now, rfl⟩)
      · exact .refl _
      · exact .see h _
    refine exceptT_bind (recoverOrphanedRun_conforms a reason hr
      (ht run mem_cons_self) (hlive run mem_cons_self)) ?_ fun h' _ hh => hframe h' hh
    intro h' _ hh
    refine (ih hnodup.2 (fun r hmem => hlive r (mem_cons_of_mem _ hmem)) ?_ ?_).mono
      fun _ _ => (hframe h' hh).trans
    · exact (hframe h' hh).recovery.trans hr
    · intro r hmem
      have htr := ht r (mem_cons_of_mem _ hmem)
      rcases hh with rfl | ⟨now, rfl⟩
      · exact htr
      · -- the record written is of another run
        refine htr.see_of_ne fun heq => hnodup.1 ?_
        exact heq ▸ mem_map_of_mem hmem

theorem recoverOrphanedRuns_conforms (hr : h.recovery = true) :
    (Runtime.recoverOrphanedRuns a reason).run.Conforms (protocol q) (fun h' _ => h.Frame h') h := by
  refine exceptT_bind (Q := fun h' r => h.Frame h' ∧
    ∀ page, r = .ok page → ∀ run ∈ page.runs, h'.Tracks run) ⟨trivial, fun r => ?_⟩ ?_ ?_
  · cases r with
    | error e => exact ⟨.refl h, error_ne⟩
    | ok page =>
      refine ⟨.foldl_see h page.runs, fun page' he run hrun => ?_⟩
      cases he
      exact Hist.tracks_foldl_see page.nodup h hrun
  · intro h1 page hh
    refine (recoverOrphanedRuns_loop a _ ?_ ?_ (hh.1.recovery.trans hr) ?_).mono
      fun _ _ => hh.1.trans
    · exact page.nodup.sublist (List.Sublist.map _ filter_sublist)
    · intro run hrun
      simpa using (mem_filter.mp hrun).2
    · exact fun run hrun => hh.2 page rfl run (mem_filter.mp hrun).1
  · exact fun _ _ hh => hh.1

end Hopclaw
