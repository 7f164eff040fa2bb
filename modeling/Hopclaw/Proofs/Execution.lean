import Hopclaw.Proofs.Cancellation

/-! # What an execution does to the runs that wait

The two halves of an execution, running undisturbed. The claim takes a queued run, and the slot of
its session with it. What the executor does afterwards, whatever its script, it does to its own
run, whose record never becomes queued again. Neither takes another run out of its place in the
session's queue. -/

namespace Hopclaw

open Interleaving Prog RunStore SessionQueue World Ends

variable {env : Env}

/-! ## Places in the queue -/

/-- The coordinator knows the run: it holds the slot of its session or waits for it. -/
def World.InQueue (w : World) (run : Run) : Prop :=
  (w.queue.queues run.sessionID).active = run.id ∨ run.id ∈ (w.queue.queues run.sessionID).queued

instance (w : World) (run : Run) : Decidable (w.InQueue run) :=
  inferInstanceAs (Decidable (_ ∨ _))

theorem SessionQueue.start_keeps {q q' : SessionQueue} {sessionID id other : String}
    (h : q.start sessionID id = .ok q') (hmem : other ∈ q.queued) (hne : other ≠ id) :
    other ∈ q'.queued := by
  unfold start at h
  split_ifs at h
  · rwa [← Except.ok.inj h]
  · cases hqueued : q.queued with
    | nil => simp [hqueued] at hmem
    | cons head rest =>
      simp only [hqueued] at h hmem
      split_ifs at h with hhead <;> rw [← Except.ok.inj h]
      · exact hqueued ▸ hmem
      · rcases List.mem_cons.mp hmem with rfl | hmem
        · exact absurd (by simpa using hhead) hne
        · exact hmem

variable {w w' w₁ w₂ w₃ : World} {run base : Run}

namespace World.InQueue

variable {sessionID id : String} {q : SessionQueue}

theorem congr (h : w.InQueue run) (hq : w'.queue = w.queue) : w'.InQueue run := by
  rw [World.InQueue, hq]
  exact h

/-- Only the queue of another session changed. -/
theorem of_ne (h : w.InQueue run) (hq : w'.queue = w.queue.set sessionID q)
    (hne : run.sessionID ≠ sessionID) : w'.InQueue run := by
  rw [World.InQueue, hq, Coordinator.set_queues_ne _ hne]
  exact h

/-- Another run left the queue. -/
theorem finishRun (h : w.InQueue run) (hne : run.id ≠ id)
    (hq : w'.queue = w.queue.finishRun sessionID id) : w'.InQueue run := by
  by_cases hses : run.sessionID = sessionID
  · subst hses
    rw [World.InQueue, hq, Coordinator.finishRun]
    rcases h with h | h
    · exact .inl (by simp [finish, h, hne])
    · exact .inr (by simp [finish, h, hne])
  · exact h.of_ne hq hses

/-- A run took the slot: it was free, or the run's own. -/
theorem started (h : w.InQueue run) (hrun : run.id ≠ "")
    (hs : (w.queue.queues sessionID).start sessionID id = .ok q)
    (hq : w'.queue = w.queue.set sessionID q) : w'.InQueue run := by
  by_cases hses : run.sessionID = sessionID
  · subst hses
    obtain ⟨hactive, hbefore⟩ := start_active hs
    rw [World.InQueue, hq, Coordinator.set_queues_self]
    rcases h with h | h
    · rcases hbefore with hfree | hown
      · exact absurd (h.symm.trans hfree) hrun
      · exact .inl (hactive.trans (hown.symm.trans h))
    · by_cases hid : run.id = id
      · exact .inl (hactive.trans hid.symm)
      · exact .inr (start_keeps hs h hid)
  · exact h.of_ne hq hses

end World.InQueue

/-- A copy of the run, or its record, after it was claimed. -/
structure Run.CopyOf (base run : Run) : Prop where
  id : run.id = base.id
  identity : run.SameIdentity base
  unqueued : run.status ≠ .queued

namespace Run.CopyOf

theorem trans {run' : Run} (h : base.CopyOf run) (h' : run.CopyOf run') : base.CopyOf run' :=
  ⟨h'.id.trans h.id, ⟨h'.identity.1.trans h.identity.1, h'.identity.2.trans h.identity.2⟩,
    h'.unqueued⟩

theorem congr {run' : Run} (h : base.CopyOf run) (he : run'.unplanned = run.unplanned) :
    base.CopyOf run' where
  id := (Run.id_of_unplanned he).trans h.id
  identity := ⟨(congrArg Run.inputEventID he).trans h.identity.1,
    (congrArg Run.sessionID he).trans h.identity.2⟩
  unqueued := by rw [Run.status_of_unplanned he]; exact h.unqueued

/-- A transition of a copy, to any status but `queued`. -/
theorem transition (h : base.CopyOf run) {status : Option RunStatus}
    (hs : status ≠ some .queued) (phase : Option RunPhase) (opts : RunTransitionSpec) :
    base.CopyOf (transitionRun run status phase opts) where
  id := (transitionRun_id ..).trans h.id
  identity := ⟨(transitionRun_inputEventID ..).trans h.identity.1,
    (transitionRun_sessionID ..).trans h.identity.2⟩
  unqueued := by
    unfold transitionRun
    split
    · exact h.unqueued
    · split_ifs
      · exact h.unqueued
      · exact fun hq => hs (congrArg some hq)

end Run.CopyOf

/-- A stored run keeps its record and, if it is one of the accepted ones, its place in the queue; or
    its record is replaced by one that is not queued. -/
def World.Keeps (accepted : List String) (w w' : World) : Prop :=
  ∀ id old, w.runs.find? id = some old →
    (w'.runs.find? id = some old ∧ (id ∈ accepted → w.InQueue old → w'.InQueue old)) ∨
    ∃ new, w'.runs.find? id = some new ∧ old.CopyOf new

/-- The run was claimed: the record under its id is a copy of it. -/
structure World.Holds (w : World) (base : Run) : Prop where
  unqueued : base.status ≠ .queued
  stored : ∃ cur, w.runs.find? base.id = some cur ∧ base.CopyOf cur

variable {accepted : List String}

namespace World.Keeps

theorem of_writes_none (h : w.Writes none w') : w.Keeps accepted w' := by
  intro id old hold
  rw [h.runs nofun]
  exact .inl ⟨hold, fun _ hin => hin.congr (h.queue nofun)⟩

theorem trans (h12 : w₁.Keeps accepted w₂) (h23 : w₂.Keeps accepted w₃) : w₁.Keeps accepted w₃ := by
  intro id old hold
  rcases h12 id old hold with ⟨hsame, hin⟩ | ⟨new, hnew, hcopy⟩
  · refine (h23 id old hsame).imp_left fun h => ⟨h.1, fun hid h1 => h.2 hid (hin hid h1)⟩
  · rcases h23 id new hnew with ⟨hsame, -⟩ | ⟨new', hnew', hcopy'⟩
    · exact .inr ⟨new, hsame, hcopy⟩
    · exact .inr ⟨new', hnew', hcopy.trans hcopy'⟩

theorem holds (h : w.Keeps accepted w') (hb : w.Holds base) : w'.Holds base := by
  obtain ⟨cur, hcur, hc⟩ := hb.stored
  refine ⟨hb.unqueued, ?_⟩
  rcases h _ cur hcur with ⟨hsame, -⟩ | ⟨new, hnew, hcopy⟩
  · exact ⟨cur, hsame, hc⟩
  · exact ⟨new, hnew, hc.trans hcopy⟩

end World.Keeps

namespace World.Holds

/-- Nothing but the record of a claimed run was written, and the run may have left its queue. -/
theorem keeps (hb : w.Holds base) (hb' : w'.Holds base)
    (hothers : ∀ id, id ≠ base.id → w'.runs.find? id = w.runs.find? id)
    (hq : w'.queue = w.queue ∨ w'.queue = w.queue.finishRun base.sessionID base.id) :
    w.Keeps accepted w' := by
  intro id old hold
  by_cases hid : id = base.id
  · subst hid
    obtain ⟨cur, hcur, hc⟩ := hb.stored
    obtain ⟨new, hnew, hc'⟩ := hb'.stored
    obtain rfl := Option.some.inj (hold.symm.trans hcur)
    exact .inr ⟨new, hnew, hc'.id.trans hc.id.symm, ⟨hc'.identity.1.trans hc.identity.1.symm,
      hc'.identity.2.trans hc.identity.2.symm⟩, hc'.unqueued⟩
  · refine .inl ⟨(hothers id hid).trans hold, fun _ hin => ?_⟩
    rcases hq with hq | hq
    · exact hin.congr hq
    · exact hin.finishRun (by rwa [find?_keyed hold]) hq

/-- A copy of the claimed run was written, or nothing was. -/
theorem rewrote (hb : w.Holds base) (hc : base.CopyOf run) (h : w.runs.Rewrote run w'.runs)
    (hq : w'.queue = w.queue ∨ w'.queue = w.queue.finishRun base.sessionID base.id) :
    w.Keeps accepted w' := by
  refine hb.keeps ⟨hb.unqueued, ?_⟩ (fun id hid => h.others id (hc.id ▸ hid)) hq
  rcases h.record with hsame | ⟨_, new, -, hnew, he⟩
  · rw [← hc.id, hsame, hc.id]
    exact hb.stored
  · exact ⟨new, hc.id ▸ hnew, hc.congr he⟩

end World.Holds

/-! ## The executor -/

section Executor

variable {α β : Type} {R : α → Prop} {S : β → Prop}

variable (env base accepted) in
/-- Called for the claimed run `base`, the function keeps the places in the queue, and `R` holds of
    what it returns. -/
def KeepsTo (R : α → Prop) (p : ProcE α) : Prop :=
  ∀ w, w.Holds base → p.run.Ends (World.exec env) w fun r w' =>
    w.Keeps accepted w' ∧ ∀ a, r = .ok a → R a

variable (env base accepted) in
abbrev KeepsPlaces (p : ProcE α) : Prop := KeepsTo env base accepted (fun _ => True) p

namespace KeepsTo

theorem pure {a : α} (ha : R a) : KeepsTo env base accepted R (Pure.pure a) :=
  fun w _ => pureE ⟨.of_writes_none (.refl w none), fun _ he => by cases he; exact ha⟩

theorem throw (e : Err) : KeepsTo env base accepted R (throw e) :=
  fun w _ => throwE ⟨.of_writes_none (.refl w none), error_ne⟩

/-- The function is called after other parts that keep the places. -/
theorem after {p : ProcE α} (hp : KeepsTo env base accepted R p) (hw : w.Holds base)
    (h : w.Keeps accepted w') : p.run.Ends (exec env) w' fun r w'' =>
      w.Keeps accepted w'' ∧ ∀ a, r = .ok a → R a :=
  (hp w' (h.holds hw)).mono fun _ _ h' => ⟨h.trans h'.1, h'.2⟩

theorem bind {x : ProcE α} {f : α → ProcE β} (hx : KeepsTo env base accepted R x)
    (hf : ∀ a, R a → KeepsTo env base accepted S (f a)) : KeepsTo env base accepted S (x >>= f) :=
  fun w hw => (hx w hw).bindE (fun a _ h => (hf a (h.2 a rfl)).after hw h.1)
    fun _ _ h => ⟨h.1, error_ne⟩

/-- A part without effect on the stores, whose result the rest may use. -/
theorem lift {p : Proc α} {f : α → ProcE β} (hp : Idle p)
    (hf : ∀ a, KeepsTo env base accepted S (f a)) :
    KeepsTo env base accepted S ((liftM p : ProcE α) >>= f) :=
  fun w hw => (hp.ends w).liftE fun a _ h => (hf a).after hw (.of_writes_none h)

theorem idle {p : ProcE α} (hp : Idle p.run) : KeepsPlaces env base accepted p :=
  fun w _ => (hp.ends w).mono fun _ _ h => ⟨.of_writes_none h, fun _ _ => trivial⟩

/-- Continue with the run of a step that succeeded, or handle its error. -/
theorem matchResult {x : ProcE Run} {f : Run → ProcE β} {g : Err → ProcE β} {R : Run → Prop}
    (hx : KeepsTo env base accepted R x) (hf : ∀ run, R run → KeepsTo env base accepted S (f run))
    (hg : ∀ e, KeepsTo env base accepted S (g e)) :
    KeepsTo env base accepted S (ExceptT.mk (x.run >>= fun r => match r with
      | .ok run => (f run).run
      | .error e => (g e).run)) := by
  refine fun w hw => Ends.bind (hx w hw) fun r w' h => ?_
  cases r with
  | ok run => exact (hf run (h.2 run rfl)).after hw h.1
  | error e => exact (hg e).after hw h.1

end KeepsTo

theorem runsUpdate_keeps (hc : base.CopyOf run) :
    KeepsTo env base accepted base.CopyOf (ProcE.runsUpdate run) :=
  fun w hw => (runsUpdate_ends run w).mono fun _ _ h =>
    ⟨hw.rewrote hc h.1.runs (.inl h.1.queue), fun run' hr => hc.congr (h.1.copy run' hr)⟩

theorem refreshRun_keeps (hid : run.id = base.id) :
    KeepsTo env base accepted (fun r => base.CopyOf r.1) (refreshRun run) := by
  have hget : KeepsTo env base accepted base.CopyOf (ProcE.runsGet run.id) := by
    rw [hid]
    refine fun w hw => (runsGet_ends _ w).mono fun r w' h => ⟨.of_writes_none h.1, fun run hr => ?_⟩
    obtain ⟨cur, hcur, hc⟩ := hw.stored
    rwa [Option.some.inj ((h.2.1 run hr).symm.trans hcur)]
  exact hget.bind fun latest hc => .pure hc

variable (a : AgentComponent)

theorem finalizeRun_keeps (hc : base.CopyOf run) {spec : RunFinalization}
    (hs : spec.status ≠ .queued) :
    KeepsPlaces env base accepted (finalizeRun a run spec) := by
  by_cases hterm : run.status.terminal = true
  · rw [finalizeRun, if_pos hterm]
    exact .pure trivial
  · intro w hw
    refine (finalizeRun_ends a (by simpa using hterm) spec w).mono ?_
    rintro r w' ⟨t, -, hfin⟩
    have hc' : base.CopyOf (finalTransition run spec t) := hc.transition (by simpa using hs) _ _
    refine ⟨hw.rewrote hc' hfin.runs (hfin.queue.imp_right fun hq => ?_), fun _ _ => trivial⟩
    rw [hq.2, hc'.id, hc'.identity.2]

section Ends

variable (hid : run.id = base.id)

include hid

theorem unlessCancelled_keeps {finish : Run → ProcE Unit}
    (hfinish : ∀ latest, base.CopyOf latest → KeepsPlaces env base accepted (finish latest)) :
    KeepsPlaces env base accepted (unlessCancelled run finish) :=
  (refreshRun_keeps hid).bind fun r hc => by
    rcases r with ⟨latest, _ | _⟩
    · exact hfinish latest hc
    · exact .pure trivial

theorem completeRun_keeps : KeepsPlaces env base accepted (completeRun a run) :=
  unlessCancelled_keeps hid fun _ hc =>
    (finalizeRun_keeps a hc (by simp [completion])).bind fun _ _ => .pure trivial

theorem failRun_keeps (err : Err) : KeepsPlaces env base accepted (failRun a run err) :=
  unlessCancelled_keeps hid fun _ hc =>
    (finalizeRun_keeps a hc (by simp [failure])).bind fun _ _ => .throw err

theorem timeoutRun_keeps : KeepsPlaces env base accepted (timeoutRun a run) :=
  unlessCancelled_keeps hid fun _ hc =>
    (finalizeRun_keeps a hc (by simp [timeout])).bind fun run' _ =>
      .lift (idle_emit _ run') fun _ => .pure trivial

theorem yieldWorkflowRun_keeps (budgetErr : Option Err) :
    KeepsPlaces env base accepted (yieldWorkflowRun a run budgetErr) := by
  refine unlessCancelled_keeps hid fun latest hc => ?_
  cases budgetErr with
  | some err => exact failRun_keeps a hc.id err
  | none =>
    refine (finalizeRun_keeps a hc (by simp [workflowYield])).bind fun run' _ => ?_
    exact .lift (idle_emit _ run') fun _ => .pure trivial

theorem handleRunExecutionError_keeps (err : Err) :
    KeepsPlaces env base accepted (handleRunExecutionError a run err) := by
  unfold handleRunExecutionError
  split
  · exact timeoutRun_keeps a hid
  · exact failRun_keeps a hid err

theorem onError_keeps (handled : Bool) (e : Err) :
    KeepsPlaces env base accepted (onError a run handled e) := by
  unfold onError
  split
  · exact handleRunExecutionError_keeps a hid e
  · exact .throw e

theorem ensureRunnable_keeps (ctxErr : Option Err) :
    KeepsTo env base accepted base.CopyOf (ensureRunnable run ctxErr) := by
  refine (refreshRun_keeps hid).bind fun r hc => ?_
  dsimp only
  split_ifs
  · exact .throw _
  · cases ctxErr with
    | some err => exact .throw err
    | none => exact .pure hc

end Ends

theorem waitApproval_keeps (hc : base.CopyOf run) (req : ApprovalRequest) :
    KeepsPlaces env base accepted (waitApproval a run req) := by
  unfold waitApproval
  split
  · exact .throw _
  · refine .bind (.idle ⟨rfl, fun _ => trivial⟩) fun ticket _ => ?_
    refine (runsUpdate_keeps (hc.transition (by simp) _ _)).bind fun run' _ => ?_
    exact .lift (idle_emit _ run') fun _ => .lift (idle_emit _ run') fun _ => .pure trivial

theorem RunEdit.copyOf (edit : RunEdit) (hc : base.CopyOf run) : base.CopyOf (edit.apply run) where
  id := hc.id
  identity := hc.identity
  unqueued := hc.unqueued

/-- Whatever its script, the executor keeps to its own run. -/
theorem executeLoop_keeps (script : List ExecAction) (hc : base.CopyOf run) :
    KeepsPlaces env base accepted (executeLoop a run script) := by
  induction script generalizing run with
  | nil => exact .pure trivial
  | cons action rest ih =>
    cases action with
    | refresh ctxErr onErr =>
      exact (ensureRunnable_keeps hc.id ctxErr).matchResult (fun _ hc' => ih hc')
        fun e => onError_keeps a hc.id _ e
    | persist edit onErr =>
      have hupdate : KeepsTo env base accepted base.CopyOf (ProcE.runsUpdate (edit.apply run)) :=
        runsUpdate_keeps (edit.copyOf hc)
      refine fun w hw => bind (hupdate w hw) fun r w₁ h1 => ?_
      cases r with
      | ok run' => exact (ih (h1.2 run' rfl)).after hw h1.1
      | error e =>
        split_ifs
        · exact (ih (edit.copyOf hc)).after hw h1.1
        · exact (onError_keeps a hc.id _ e).after hw h1.1
    | phase toRunning phase opts edit handled =>
      have hstatus : (if toRunning then some RunStatus.running else none) ≠ some .queued := by
        split_ifs <;> simp
      have hnext := edit.copyOf (hc.transition hstatus phase opts)
      exact (runsUpdate_keeps hnext).matchResult (fun _ hc' => ih hc')
        fun e => onError_keeps a hc.id _ e
    | waitApproval req =>
      exact (waitApproval_keeps a hc req).matchResult (fun _ _ => .pure trivial)
        fun e => handleRunExecutionError_keeps a hc.id e
    | waitInput report =>
      have h := hc.transition (show some RunStatus.waitingInput ≠ some .queued by simp)
        (some .preparing) { error := some "" }
      refine (runsUpdate_keeps (by exact ⟨h.id, h.identity, h.unqueued⟩)).bind fun run' _ => ?_
      exact .lift (idle_emit _ run') fun _ => .lift (idle_emit _ run') fun _ => .pure trivial
    | complete => exact completeRun_keeps a hc.id
    | fail err => exact failRun_keeps a hc.id err
    | yield budgetErr => exact yieldWorkflowRun_keeps a hc.id budgetErr
    | stop err =>
      cases err with
      | none => exact .pure trivial
      | some err => exact .throw err

/-! ## From the claim to the release -/

theorem markPreflightReady_keeps (hc : base.CopyOf run) :
    KeepsTo env base accepted base.CopyOf (markPreflightReady run) := by
  unfold markPreflightReady
  split
  · exact .pure hc
  · split_ifs
    · exact .pure hc
    · refine (runsUpdate_keeps (by exact ⟨hc.id, hc.identity, hc.unqueued⟩)).bind fun run' hc' => ?_
      exact .lift (idle_emit _ run') fun _ => .pure hc'

/-- The edit of the claimed run before it is written for the first time. -/
theorem Run.CopyOf.dispatched (hc : base.CopyOf run) (opts : RunDispatchOptions) (now : Time) :
    let run := transitionRun run none (some .preparing)
    let run := if opts.clearError then transitionRun run none none { error := some "" } else run
    base.CopyOf (if opts.setStartedAt && run.startedAt = 0 then { run with startedAt := now }
      else run) := by
  intro run₁ run₂
  have hc1 : base.CopyOf run₁ := hc.transition (by simp) _ _
  have hc2 : base.CopyOf run₂ := by
    show base.CopyOf (if opts.clearError then _ else _)
    split_ifs
    · exact hc1.transition (by simp) _ _
    · exact hc1
  split_ifs
  · exact ⟨hc2.id, hc2.identity, hc2.unqueued⟩
  · exact hc2

theorem dispatchRunExecution_keeps (hc : base.CopyOf run) (opts : RunDispatchOptions)
    (script : Script) : KeepsPlaces env base accepted (dispatchRunExecution a run opts script) := by
  unfold dispatchRunExecution
  split
  · exact handleRunExecutionError_keeps a hc.id _
  refine (markPreflightReady_keeps hc).bind fun run₁ hc1 => .lift ⟨rfl, fun _ => trivial⟩
    fun (t : { t : Time // t ≠ 0 }) => ?_
  refine (runsUpdate_keeps (hc1.dispatched opts t)).bind fun run₂ hc2 => ?_
  refine .lift (idle_emit _ run₂) fun _ => .bind (.idle ⟨rfl, fun _ => trivial⟩) fun session _ => ?_
  exact executeLoop_keeps a script.body ⟨hc2.id, hc2.identity, hc2.unqueued⟩

end Executor

/-- The execution of a claimed run gives its slot back. -/
theorem executeClaimed_keeps (a : AgentComponent) (opts : RunDispatchOptions) (script : Script)
    (hw : w.Holds run) : (executeClaimed a run opts script).run.Ends (exec env) w fun _ w' =>
      w.Keeps accepted w' := by
  have hc : run.CopyOf run := ⟨rfl, ⟨rfl, rfl⟩, hw.unqueued⟩
  have hbody : (settled a run () (dispatchRunExecution a run opts script)).run.Ends
      (exec env) w fun _ w' => w.Keeps accepted w' := by
    refine (dispatchRunExecution_keeps a hc opts script w hw).tryCatch (fun _ _ h => h.1)
      fun e w' h => ?_
    split_ifs
    · exact pureE h.1
    · have htimeout : KeepsPlaces env run accepted (do timeoutRun a run; return ()) :=
        (timeoutRun_keeps a rfl).bind fun _ _ => .pure trivial
      exact (htimeout.after hw h.1).mono fun _ _ h => h.1
    · exact throwE h.1
  refine bind hbody fun r w₁ h1 => ?_
  have hfinish : (finishQueue a run).Ends (exec env) w₁ fun _ w₂ => w₁.Keeps accepted w₂ := by
    unfold finishQueue
    split_ifs
    · refine (queueFinish_ends .finishQueue run.sessionID run.id w₁).mono fun _ w₂ h2 => ?_
      have hruns : w₂.runs = w₁.runs := h2.1.runs nofun
      exact (h1.holds hw).rewrote hc (hruns ▸ .refl _) h2.2.1
    · exact .of_writes_none (.refl w₁ none)
  exact bind hfinish fun _ w₂ h2 => h1.trans h2

/-! ## The claim -/

/-- A claim takes its run, or leaves it to others; the run that it takes is not queued any more. -/
theorem claimQueuedExecution_keeps {a : AgentComponent} (hf : env.Faultless)
    (hq : a.hasQueue = true) (hstored : w.runs.find? run.id = some run) :
    (claimQueuedExecution a run).run.Ends (exec env) w fun r w' =>
      w.Keeps accepted w' ∧ ∀ run', r = .ok (some run') → w'.Holds run' := by
  unfold claimQueuedExecution
  rw [if_pos hq]
  have hstart : (Proc.op (.queueStart run.sessionID run.id)).Ends (exec env) w
      fun _ w' => w'.runs = w.runs ∧ w.Keeps accepted w' := by
    have hruns := (w.exec_writes env (.queueStart run.sessionID run.id)).runs nofun
    refine ⟨hruns, fun id old hold => .inl ⟨hruns ▸ hold, fun _ hin => ?_⟩⟩
    rcases w.exec_start env run.sessionID run.id with ⟨e, -, -, hqueue⟩ | ⟨q, hs, -, hqueue⟩
    · exact hin.congr hqueue
    · exact hin.started (find?_keyed hold ▸ find?_ne_empty hold) hs hqueue
  refine bind hstart fun (r : Except Err Unit) w₁ ⟨hruns1, h1⟩ => ?_
  rw [← hruns1] at hstored
  cases r with
  | error e =>
    refine ⟨h1, fun run' hr => ?_⟩
    replace hr : (if isQueueActiveRunError e then Except.ok none else .error e) =
      .ok (some run') := hr
    split_ifs at hr
    cases hr
  | ok _ =>
    have hclaim : (Proc.op (.runsClaim run.id)).Ends (exec env) w₁
        fun r w' => r = (w₁.exec env (.runsClaim run.id)).1 ∧
          w' = (w₁.exec env (.runsClaim run.id)).2 := ⟨rfl, rfl⟩
    refine bind hclaim ?_
    rintro r w₂ ⟨rfl, rfl⟩
    have hqueue2 := (w₁.exec_writes env (.runsClaim run.id)).queue nofun
    rcases w₁.exec_claim env run.id with
      ⟨e, hwhy, -, -⟩ | ⟨cur, hcur, hnq, hr, hs⟩ | ⟨cur, t₁, t₂, hcur, hqueued, hr, hs⟩
    · rcases hwhy with hfault | hnone
      · exact absurd hfault (by simp [hf w₁.tick])
      · exact absurd (hnone.symm.trans hstored) nofun
    · -- the run is not queued: the slot is given back
      rw [hr]
      obtain rfl := Option.some.inj (hcur.symm.trans hstored)
      have hholds : w₁.Holds cur := ⟨hnq, cur, hcur, rfl, ⟨rfl, rfl⟩, hnq⟩
      refine bind (queueFinish_ends .unclaimed cur.sessionID cur.id _) fun _ w₃ h3 => ?_
      refine ⟨h1.trans ?_, fun _ hr' => nomatch hr'⟩
      have hruns3 : w₃.runs = w₁.runs := (h3.1.runs nofun).trans hs
      rw [hqueue2] at h3
      exact hholds.rewrote ⟨rfl, ⟨rfl, rfl⟩, hnq⟩ (hruns3 ▸ .refl _) h3.2.1
    · rw [hr]
      have hid : cur.id = run.id := find?_keyed hcur
      have hfind := fun id => (congrArg (find? · id) hs).trans
        (claimQueuedRun_find? hcur hqueued id)
      refine ⟨h1.trans fun id old hold => ?_, fun run' hr' => ?_⟩
      · by_cases hsame : id = run.id
        · subst hsame
          obtain rfl := Option.some.inj (hcur.symm.trans hold)
          exact .inr ⟨_, (hfind _).trans (if_pos rfl), rfl, ⟨rfl, rfl⟩, nofun⟩
        · exact .inl ⟨(hfind id).trans ((if_neg hsame).trans hold), fun _ hin => hin.congr hqueue2⟩
      · cases hr'
        refine ⟨nofun, claimed t₁ t₂ cur, ?_, rfl, ⟨rfl, rfl⟩, nofun⟩
        exact (hfind _).trans (if_pos hid)

end Hopclaw
