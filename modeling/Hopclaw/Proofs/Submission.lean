import Hopclaw.Proofs.Cancellation

/-! # What a submission does

`Submit` running undisturbed. The run is stored by its third operation; from then on it is stored
whatever happens, as queued or as waiting for input, and only the last step makes the session queue
know it. -/

namespace Hopclaw

open Interleaving Prog World ProcE RunStore Ends

variable {env : Env}

/-! ## Preparing the created run -/

/-- The two statuses of a run that was submitted and not started. -/
def RunStatus.Waiting (s : RunStatus) : Prop :=
  s = .queued ∨ s = .waitingInput

theorem RunStatus.Waiting.not_terminal {s : RunStatus} (h : s.Waiting) : s.terminal = false := by
  rcases h with rfl | rfl <;> rfl

/-- A later state of a created run: it waits, and who it is has not changed. -/
structure Run.Pending (run new : Run) : Prop where
  waiting : new.status.Waiting
  identity : new.SameIdentity run
  queueMode : new.queueMode = run.queueMode

variable {run : Run} (a : AgentComponent) (msg : IncomingMessage) (session : Session)

theorem Run.Pending.congr {new new' : Run} (h : run.Pending new)
    (he : new'.unplanned = new.unplanned) : run.Pending new' where
  waiting := by rw [Run.status_of_unplanned he]; exact h.waiting
  identity := ⟨(congrArg Run.inputEventID he).trans h.identity.1,
    (congrArg Run.sessionID he).trans h.identity.2⟩
  queueMode := (congrArg Run.queueMode he).trans h.queueMode

theorem analyzeSubmitRun_pending (h : run.status = .queued) :
    run.Pending (analyzeSubmitRun a msg session run) := by
  unfold analyzeSubmitRun
  dsimp only
  split
  · refine ⟨.inr ?_, ⟨transitionRun_inputEventID .., transitionRun_sessionID ..⟩,
      transitionRun_queueMode ..⟩
    have hvalid : (triaged a msg session run).status.validTransition .waitingInput = true := by
      rw [show (triaged a msg session run).status = .queued from h]
      decide
    rw [transitionRun_of_valid _ _ hvalid]
    rfl
  · exact ⟨.inl h, ⟨rfl, rfl⟩, rfl⟩

/-- How the steps between the creation of a run and its dispatch end: the run stays stored. -/
structure Prepared (run : Run) (w : World) (r : Except Err Run) (w' : World) : Prop where
  queue : w'.queue = w.queue
  others : ∀ id, id ≠ run.id → w'.runs.find? id = w.runs.find? id
  record : ∃ new, w'.runs.find? run.id = some new ∧ run.Pending new
  stored : ∀ run', r = .ok run' → w'.runs.find? run.id = some run'

variable {w : World}

/-- One more `Update` of the run, of a copy of it that still waits. -/
theorem Prepared.update {copy : Run} {w₁ w₂ : World} {r r' : Except Err Run}
    (h : Prepared run w r w₁) (hid : copy.id = run.id) (hcopy : run.Pending copy)
    (hu : Saved env copy w₁ r' w₂ ∧ ∀ run', r' = .ok run' → w₂.runs.find? copy.id = some run') :
    Prepared run w r' w₂ := by
  obtain ⟨hs, hst⟩ := hu
  obtain ⟨hothers, hrecord⟩ := hs.runs
  rw [hid] at hst hrecord hothers
  refine ⟨hs.queue.trans h.queue, fun id hne => (hothers id hne).trans (h.others id hne), ?_, hst⟩
  rcases hrecord with hsame | ⟨_, new, -, hnew, he⟩
  · rw [hsame]
    exact h.record
  · exact ⟨new, hnew, hcopy.congr he⟩

theorem Prepared.idle {w₁ w₂ : World} {r : Except Err Run} (h : Prepared run w r w₁)
    (hw : w₁.Writes none w₂) : Prepared run w r w₂ := by
  have hruns : w₂.runs = w₁.runs := hw.runs nofun
  exact ⟨(hw.queue nofun).trans h.queue, hruns ▸ h.others, hruns ▸ h.record, hruns ▸ h.stored⟩

theorem Prepared.error {w' : World} {r : Except Err Run} (h : Prepared run w r w') (e : Err) :
    Prepared run w (.error e) w' :=
  { h with stored := error_ne }

theorem Prepared.refl (hs : w.runs.find? run.id = some run) (hq : run.status = .queued) :
    Prepared run w (.ok run) w :=
  ⟨rfl, fun _ _ => rfl, ⟨run, hs, .inl hq, ⟨rfl, rfl⟩, rfl⟩, fun _ hr => by cases hr; exact hs⟩

/-- The steps of `submitCreated` before the dispatch. -/
def prepareSubmit (run : Run) : ProcE Run := do
  ProcE.sessionsEpisode session.id (a.episodeBoundary session msg)
  let run ← ProcE.runsUpdate (analyzeSubmitRun a msg session run)
  recordSubmitSession a msg session run

theorem submitCreated_eq (run : Run) : submitCreated a msg session run = (do
      let run ← prepareSubmit a msg session run
      dispatchSubmittedRun a session run
      return run) := by
  simp only [submitCreated, prepareSubmit, bind_assoc]

theorem prepareSubmit_ends (hs : w.runs.find? run.id = some run) (hq : run.status = .queued) :
    (prepareSubmit a msg session run).run.Ends (exec env) w (Prepared run w) := by
  have hepisode : (sessionsEpisode session.id (a.episodeBoundary session msg)).run.Ends
      (exec env) w fun _ w' => w.Writes none w' := w.exec_writes env (.sessionsEpisode _ _)
  have hstart := Prepared.refl hs hq
  refine hepisode.bindE (fun _ w₁ h1 => ?_) fun e w₁ h1 => (hstart.idle h1).error e
  have hanalyzed := analyzeSubmitRun_pending a msg session hq
  refine (runsUpdate_ends _ w₁).bindE (fun run₂ w₂ h2 => ?_) fun e w₂ h2 =>
    (hstart.idle h1).update (analyzeSubmitRun_id ..) hanalyzed h2
  have h02 := (hstart.idle h1).update (analyzeSubmitRun_id ..) hanalyzed h2
  have happend : (sessionsAppend session.id msg).run.Ends (exec env) w₂
      fun _ w' => w₂.Writes none w' := w₂.exec_writes env (.sessionsAppend _ _)
  refine happend.bindE (fun _ w₃ h3 => ?_) fun e w₃ h3 => (h02.idle h3).error e
  have hcopy := h2.1.copy run₂ rfl
  have hid : (recorded a session run₂).id = run.id := by
    rw [show (recorded a session run₂).id = run₂.id from rfl, Run.id_of_unplanned hcopy,
      analyzeSubmitRun_id]
  have hpending : run.Pending (recorded a session run₂) := by
    have h := hanalyzed.congr hcopy
    exact ⟨h.waiting, h.identity, h.queueMode⟩
  exact (runsUpdate_ends _ w₃).mono fun r w₄ h4 => (h02.idle h3).update hid hpending h4

/-! ## The dispatch -/

theorem onlyIfE_ends {c : Bool} {p : ProcE Unit} {Q : Except Err Unit → World → Prop}
    (hp : c = true → p.run.Ends (exec env) w Q) (hskip : c = false → Q (.ok ()) w) :
    (onlyIf c p).run.Ends (exec env) w Q := by
  unfold onlyIf
  split
  · exact hp ‹_›
  · exact pureE (hskip (by simpa using ‹¬ c = true›))

theorem idle_emitSubmittedRunEvents (run : Run) : Idle (emitSubmittedRunEvents run) :=
  (idle_emit _ run).bind fun _ => Idle.bind (uses_onlyIf (idle_emit _ run)) fun _ =>
    uses_onlyIf (idle_emit _ run)

/-- The dispatch leaves the record of its run alone. -/
theorem dispatchSubmittedRun_kept (run : Run) (w : World) :
    (dispatchSubmittedRun a session run).run.Ends (exec env) w fun _ w' =>
      w'.runs.find? run.id = w.runs.find? run.id := by
  have hinterrupt : (onlyIf (run.status = .queued && run.queueMode = .interrupt)
      (interruptSessionRuns a session.id run.id)).run.Ends (exec env) w
      fun _ w' => w'.runs.find? run.id = w.runs.find? run.id :=
    onlyIfE_ends (fun _ => interruptSessionRuns_kept a session.id run.id w) fun _ => rfl
  refine hinterrupt.bindE (fun _ w₁ h1 => ?_) fun _ _ h => h
  have henqueue : (onlyIf (a.hasQueue && run.status = .queued)
      (queueEnqueue session.id run.id run.queueMode)).run.Ends (exec env) w₁
      fun _ w' => w'.runs.find? run.id = w.runs.find? run.id := by
    refine onlyIfE_ends (fun _ => ?_) fun _ => h1
    have hw := w₁.exec_writes env (.queueEnqueue session.id run.id run.queueMode)
    exact (congrArg (find? · run.id) (hw.runs nofun)).trans h1
  refine henqueue.bindE (fun _ w₂ h2 => ?_) fun _ _ h => h
  refine mono ((idle_emitSubmittedRunEvents run).ends w₂ |>.bind fun _ w₃ h3 => ?_)
    fun _ _ h => h
  show w₃.runs.find? run.id = w.runs.find? run.id
  rw [h3.runs nofun]
  exact h2

/-- From its creation on the run is stored and waits, however the submission ends. -/
theorem submitCreated_pending (hs : w.runs.find? run.id = some run) (hq : run.status = .queued) :
    (submitCreated a msg session run).run.Ends (exec env) w fun _ w' =>
      ∃ new, w'.runs.find? run.id = some new ∧ run.Pending new := by
  rw [submitCreated_eq]
  refine (prepareSubmit_ends a msg session hs hq).bindE (fun run₁ w₁ h1 => ?_)
    fun _ _ h => h.record
  have hid : run₁.id = run.id := find?_keyed (h1.stored run₁ rfl)
  refine (dispatchSubmittedRun_kept a session run₁ w₁).bindE (fun _ w₂ h2 => ?_) fun _ w₂ h2 => ?_
  all_goals
    rw [hid] at h2
    have hrecord := h1.record
    rw [← h2] at hrecord
  · exact pureE hrecord
  · exact hrecord

/-! ## The whole call -/

theorem SessionStore.getOrCreate_named (s : SessionStore) (now : Time) (key model id : String) :
    NamedID (s.getOrCreate now key model id).1.id := by
  unfold SessionStore.getOrCreate
  split
  · rename_i session h
    obtain ⟨sessionID, -, hl⟩ := Option.bind_eq_some_iff.mp h
    exact s.named hl
  · exact s.newSession_named now key model id

section

variable (env) (w)

/-- The submission ends before it stores a run: the session could not be loaded, the event has its
    run already, or `Create` failed. The three operations are the first of the call. -/
def StoresNoRun : Prop :=
  env.fault w.tick ≠ none ∨
    w.runs.seen (env.clock (w.tick + 1) 0).1 msg.externalEventID a.config.dedupeWindow = true ∨
    env.fault (w.tick + 2) ≠ none

instance : Decidable (StoresNoRun env a msg w) :=
  inferInstanceAs (Decidable (_ ∨ _ ∨ _))

/-- The session a message is submitted to. -/
def World.sessionFor : Session :=
  (w.sessions.getOrCreate (env.clock w.tick 0).1 msg.sessionKey
    (defaultString msg.model a.config.defaultModel) msg.sessionID).1

/-- The state in which a submission goes on with the run it created. -/
structure CreatedRun (session : Session) (run : Run) (w' : World) : Prop where
  session_eq : session = w.sessionFor env a msg
  run_eq : ∃ t, run = w.runs.newRun t session.id msg a.config
  queue : w'.queue = w.queue
  stored : w'.runs.find? run.id = some run
  others : ∀ id, id ≠ run.id → w'.runs.find? id = w.runs.find? id

theorem World.sessionFor_named : NamedID (w.sessionFor env a msg).id :=
  w.sessions.getOrCreate_named _ _ _ _

end

theorem runsCreate_ends {session : Session} {w₀ : World}
    (hsession : session = w₀.sessionFor env a msg) (h0 : w₀.Writes none w) :
    (runsCreate session.id msg a.config).run.Ends (exec env) w fun r w' =>
      (∀ run, r = .ok run → env.fault w.tick = none ∧ CreatedRun env a msg w₀ session run w') ∧
      ∀ e, r = .error e → env.fault w.tick ≠ none ∧ w₀.Writes none w' := by
  have hw := w.exec_writes env (.runsCreate session.id msg a.config)
  rcases w.exec_create env session.id msg a.config with ⟨e, hf, hr, hs⟩ | ⟨t, hf, hr, hs⟩
  · refine ⟨fun run hrun => (nomatch hr.symm.trans hrun), fun _ _ => ⟨by simp [hf], ?_⟩⟩
    exact h0.trans ⟨fun _ => hs, fun _ => hw.queue nofun⟩
  · have hruns : w.runs = w₀.runs := h0.runs nofun
    refine ⟨fun run hrun => ?_, fun e he => nomatch hr.symm.trans he⟩
    obtain rfl := Except.ok.inj (hr.symm.trans hrun)
    refine ⟨hf, hsession, ⟨t, by rw [hruns]⟩, (hw.queue nofun).trans (h0.queue nofun), ?_,
      fun id hid => ?_⟩
    · exact (congrArg (find? · _) hs).trans
        ((w.runs.create_find? t session.id msg a.config _).trans (if_pos rfl))
    · exact (congrArg (find? · _) hs).trans
        ((w.runs.create_find? t session.id msg a.config _).trans
          ((if_neg hid).trans (by rw [hruns])))

/-- A submission either stores no run and changes nothing that the proofs speak about, or goes on
    with the run it created. -/
theorem submit_ends {R : Except Err Run → World → Prop}
    (hnone : StoresNoRun env a msg w → ∀ r w', w.Writes none w' →
      (∀ run, r = .ok run → w.runs.find? run.id = some run) → R r w')
    (hcreated : ¬ StoresNoRun env a msg w → ∀ session run w',
      CreatedRun env a msg w session run w' →
        (submitCreated a msg session run).run.Ends (exec env) w' R) :
    (submit a msg).run.Ends (exec env) w R := by
  have hload : (loadSubmitSession a msg).run.Ends (exec env) w fun r w' =>
      w.Writes none w' ∧ w'.tick = w.tick + 1 ∧
      (∀ session, r = .ok session →
        env.fault w.tick = none ∧ session = w.sessionFor env a msg) ∧
      ∀ e, r = .error e → env.fault w.tick ≠ none := by
    refine ⟨w.exec_writes env (.sessionsGetOrCreate _ _ _), rfl, fun session hr => ?_,
      fun e hr hf => ?_⟩
    · obtain ⟨hf, hok⟩ := (w.faulty_ok_iff env).mp hr
      obtain rfl := Except.ok.inj hok
      exact ⟨hf, rfl⟩
    · rcases w.of_faulty_error env hr with he | he
      · simp [hf] at he
      · exact nomatch he
  refine hload.bindE ?_ fun e w₁ h =>
    hnone (.inl (h.2.2.2 e rfl)) _ _ h.1 error_ne
  rintro session w₁ ⟨h1, htick, hsession, -⟩
  obtain ⟨hok, hses⟩ := hsession session rfl
  have hruns1 : w₁.runs = w.runs := h1.runs nofun
  have hseen : (Proc.op (.runsSeen msg.externalEventID a.config.dedupeWindow)).Ends
      (exec env) w₁ fun r w' => w.Writes none w' ∧ w'.tick = w.tick + 2 ∧
        r = w.runs.seen (env.clock (w.tick + 1) 0).1 msg.externalEventID a.config.dedupeWindow := by
    refine ⟨h1.trans (w₁.exec_writes env (.runsSeen _ _)), ?_, ?_⟩
    · show w₁.tick + 1 = w.tick + 2
      rw [htick]
    · show w₁.runs.seen (env.clock w₁.tick 0).1 _ _ = _
      rw [hruns1, htick]
  have hfind : (findOrCreateSubmitRun a msg session).run.Ends (exec env) w₁ fun r w' =>
      match r with
      | .ok (.existing run) => StoresNoRun env a msg w ∧ w.Writes none w' ∧
          w.runs.find? run.id = some run
      | .ok (.created run) => ¬ StoresNoRun env a msg w ∧ CreatedRun env a msg w session run w'
      | .error _ => StoresNoRun env a msg w ∧ w.Writes none w' := by
    refine hseen.liftE ?_
    rintro seen w₂ ⟨h2, htick2, rfl⟩
    split
    · rename_i hs
      have hnorun : StoresNoRun env a msg w := .inr (.inl hs)
      have hget : (runsFindByExternalEvent msg.externalEventID).run.Ends (exec env) w₂
          fun r w' => w.Writes none w' ∧ ∀ run, r = .ok run → w.runs.find? run.id = some run := by
        refine ⟨h2.trans (w₂.exec_writes env (.runsFindByExternalEvent _)), fun run hr => ?_⟩
        have hfound := find?_of_findByExternalEvent (w₂.of_faulty_ok env hr)
        rw [h2.runs nofun] at hfound
        exact hfound.2
      refine hget.bindE (fun run w₃ h3 => pureE ?_) fun _ _ h => ⟨hnorun, h.1⟩
      exact ⟨hnorun, h3.1, h3.2 run rfl⟩
    · rename_i hs
      refine (runsCreate_ends a msg hses h2).bindE (fun run w₃ h3 => ?_) fun e w₃ h3 => ?_
      · obtain ⟨hf, hcreated⟩ := h3.1 run rfl
        refine pureE ⟨?_, hcreated⟩
        rintro (h | h | h)
        · exact h hok
        · exact hs h
        · exact h (htick2 ▸ hf)
      · obtain ⟨hf, hw⟩ := h3.2 e rfl
        exact ⟨.inr (.inr (htick2 ▸ hf)), hw⟩
  refine hfind.bindE (fun found w₂ h2 => ?_) fun e w₂ h2 =>
    hnone h2.1 _ _ h2.2 error_ne
  cases found with
  | existing run =>
    refine pureE (hnone h2.1 _ _ h2.2.1 fun run' hr => ?_)
    cases hr
    exact h2.2.2
  | created run => exact hcreated h2.1 session run w₂ h2.2

/-- A submission that fails leaves a run behind exactly if it had stored one before it failed. The
    run it leaves waits, and no step of the call comes back to it. -/
theorem failed_submit_leaves_no_run_iff (env : Env) (a : AgentComponent) (msg : IncomingMessage)
    (w : World) :
    let done := (submit a msg).run.run (World.exec env) w
    ∀ err, done.1 = .error err →
      ((∀ id run, w.runs.find? id = none → done.2.runs.find? id = some run →
        run.status.terminal = true) ↔ StoresNoRun env a msg w) := by
  intro done _ _
  have hends : (submit a msg).run.Ends (World.exec env) w fun _ w' =>
      (StoresNoRun env a msg w → w'.runs = w.runs) ∧
      (¬ StoresNoRun env a msg w → ∃ new, w'.runs.find? (runID (w.runs.nextID + 1)) = some new ∧
        new.status.Waiting) := by
    refine submit_ends a msg (fun h _ w' hw _ => ⟨fun _ => hw.runs nofun, absurd h⟩) ?_
    rintro h session run w₁ h₁
    obtain ⟨t, rfl⟩ := h₁.run_eq
    refine (submitCreated_pending a msg session h₁.stored rfl).mono ?_
    rintro _ w' ⟨new, hnew, hpending⟩
    exact ⟨fun hno => absurd hno h, fun _ => ⟨new, hnew, hpending.waiting⟩⟩
  constructor
  · intro hclean
    by_contra h
    obtain ⟨new, hnew, hwaiting⟩ := hends.2 h
    have hterm := hclean _ _ w.runs.find?_fresh hnew
    rw [hwaiting.not_terminal] at hterm
    exact absurd hterm (by simp)
  · intro h id run hnone hsome
    rw [hends.1 h, hnone] at hsome
    exact absurd hsome (by simp)

/-- Stores whose calls all fail. -/
def failingStores : Env :=
  { Env.ticking with fault := fun _ => some ⟨"database is locked", none⟩ }

/-- The session cannot be loaded, and no run is left. -/
theorem unloaded_session_leaves_no_run :
    let done := (submit plainAgent { sessionKey := "chat" }).run.run (World.exec failingStores)
      submittedWorld
    done.1.map (fun _ => ()) = .error ⟨"database is locked", none⟩ ∧
    ∀ id run, submittedWorld.runs.find? id = none → done.2.runs.find? id = some run →
      run.status.terminal = true :=
  ⟨rfl, (failed_submit_leaves_no_run_iff failingStores plainAgent { sessionKey := "chat" }
    submittedWorld ⟨"database is locked", none⟩ rfl).mpr (.inl (by simp [failingStores]))⟩

/-- The plain agent with another queue mode. -/
def agentWithMode (mode : QueueMode) : AgentComponent :=
  { plainAgent with config := { queueMode := mode } }

/-- A second message is rejected while the first one waits: its run is stored as queued, and the
    session's queue does not know it. -/
theorem rejected_run_stays_queued :
    let done := (submit (agentWithMode .reject) { sessionKey := "chat" }).run.run
      (World.exec Env.ticking) submittedWorld
    done.1.map (fun _ => ()) = .error ⟨"run rejected by queue mode", some .runRejected⟩ ∧
    submittedWorld.statusOf (runID 2) = none ∧ done.2.statusOf (runID 2) = some .queued ∧
    (done.2.runs.find? (runID 2)).map Run.sessionID = some "sess-000001" ∧
    (done.2.queue.queues "sess-000001").active = "" ∧
    (done.2.queue.queues "sess-000001").queued = [runID 1] := by
  decide +kernel

end Hopclaw
