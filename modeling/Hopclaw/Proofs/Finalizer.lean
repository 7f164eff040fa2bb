import Hopclaw.Agent.Actors
import Hopclaw.Interleaving.Hoare
import Hopclaw.Proofs.Conformance
import Hopclaw.Proofs.WorldSteps

/-! # What the finalizer does

`finalizeRun` running undisturbed. Whatever the operations answer, it writes one record, and that
record is its private copy after the transition, up to the plan and the time stamp; a transition
that the table refuses leaves the copy as it was, and everything that follows happens all the
same. -/

namespace Hopclaw

open Interleaving Prog World.Writes World RunStore Ends Proc Run

variable {env : Env}

/-- The run without what plan edits and time stamps change. -/
def Run.unplanned (run : Run) : Run :=
  { run with plan := none, updatedAt := 0 }

section Unplanned

variable {r r' : Run} (h : r.unplanned = r'.unplanned)

include h

theorem Run.id_of_unplanned : r.id = r'.id :=
  show r.unplanned.id = r'.unplanned.id from congrArg _ h

theorem Run.sessionID_of_unplanned : r.sessionID = r'.sessionID :=
  show r.unplanned.sessionID = r'.unplanned.sessionID from congrArg _ h

theorem Run.status_of_unplanned : r.status = r'.status :=
  show r.unplanned.status = r'.unplanned.status from congrArg _ h

end Unplanned

/-! ## Programs without effect on the stores -/

/-- A program whose operations write none of the parts. -/
def Idle {α : Type} (p : Proc α) : Prop :=
  p.Uses fun o : Op => o.writes = none

theorem Idle.ends {α : Type} {p : Proc α} (hp : Idle p) (w : World) :
    p.Ends (exec env) w fun _ w' => w.Writes none w' :=
  Uses.ends (fun w => refl w none) (fun h1 h2 => h1.trans h2)
    (fun (o : Op) w (ho : o.writes = none) => ho ▸ w.exec_writes env o) hp w

theorem Idle.bind {α β : Type} {p : Proc α} {f : α → Proc β} (hp : Idle p)
    (hf : ∀ a, Idle (f a)) : Idle (p >>= f) :=
  Uses.bind hp hf

theorem Idle.forM {α : Type} {f : α → Proc PUnit} {l : List α} (hf : ∀ a, Idle (f a)) :
    Idle (l.forM f) :=
  Uses.forM hf

theorem idle_emit (type : EventType) (run : Run) : Idle (emit type run) :=
  uses_logged (P := fun o : Op => o.writes = none) rfl

theorem idle_emitEach (type : EventType) (run : Run) (tasks : List Planner.Task) :
    Idle (emitEach type run tasks) :=
  Idle.forM fun _ => idle_emit type run

theorem idle_emitSkippedPlanTasks (run : Run) (plan before : Planner.Plan) :
    Idle (emitSkippedPlanTasks run plan before) :=
  Idle.forM fun _ => (idle_emit _ run).bind fun _ => idle_emit _ run

/-! ## Saving a copy of a run -/

/-- At most the record of this run was written, and if it was, then as this copy of it. -/
structure RunStore.Rewrote (run : Run) (s s' : RunStore) : Prop where
  others : ∀ id, id ≠ run.id → s'.find? id = s.find? id
  record : s'.find? run.id = s.find? run.id ∨
    ∃ old new, s.find? run.id = some old ∧ s'.find? run.id = some new ∧
      new.unplanned = run.unplanned

variable {run' : Run}

namespace RunStore.Rewrote

variable {run : Run} {s s₁ s₂ s₃ : RunStore}

theorem refl (s : RunStore) : s.Rewrote run s := ⟨fun _ _ => rfl, .inl rfl⟩

theorem trans (h12 : s₁.Rewrote run s₂) (h23 : s₂.Rewrote run s₃) : s₁.Rewrote run s₃ where
  others id hid := (h23.others id hid).trans (h12.others id hid)
  record := by
    rcases h12.record with h12 | ⟨old, new, hold, hnew, hcopy⟩
    · rw [← h12]
      exact h23.record
    · rcases h23.record with h23 | ⟨old', new', hold', hnew', hcopy'⟩
      · exact .inr ⟨old, new, hold, h23.trans hnew, hcopy⟩
      · exact .inr ⟨old, new', hold, hnew', hcopy'⟩

/-- The run stays stored. -/
theorem stored (h : s₁.Rewrote run s₂) (hs : s₁.find? run.id ≠ none) : s₂.find? run.id ≠ none := by
  rcases h.record with hr | ⟨_, new, -, hnew, -⟩
  · rwa [hr]
  · simp [hnew]

theorem congr (h : s₁.Rewrote run s₂) (he : run.unplanned = run'.unplanned) :
    s₁.Rewrote run' s₂ where
  others id hid := h.others id (id_of_unplanned he ▸ hid)
  record := by
    rw [← id_of_unplanned he, ← he]
    exact h.record

end RunStore.Rewrote

/-- How a part of a function ends that saves the copy `run`: it returns a copy that is the same up
    to plan and time stamp, and without faults it does return. -/
structure Saved (env : Env) (run : Run) (w : World) (r : Except Err Run) (w' : World) : Prop where
  runs : w.runs.Rewrote run w'.runs
  queue : w'.queue = w.queue
  copy : ∀ run', r = .ok run' → run'.unplanned = run.unplanned
  ok : env.Faultless → w.runs.find? run.id ≠ none → ∃ run', r = .ok run'

variable {run : Run} {w : World}

variable {w' : World}

theorem Saved.of_idle (h : w.Writes none w') (he : run'.unplanned = run.unplanned) :
    Saved env run w (.ok run') w' where
  runs := by rw [h.runs nofun]; exact .refl _
  queue := h.queue nofun
  copy _ hr := by cases hr; exact he
  ok _ _ := ⟨run', rfl⟩

variable {w₁ : World} {r : Except Err Run}

/-- One part that saves the copy after another. -/
theorem Saved.trans {w₂ w₃ : World} {r₁ : Except Err Run} (h12 : Saved env run w₁ r₁ w₂)
    (h23 : Saved env run w₂ r w₃) : Saved env run w₁ r w₃ where
  runs := h12.runs.trans h23.runs
  queue := h23.queue.trans h12.queue
  copy := h23.copy
  ok hf hs := h23.ok hf (h12.runs.stored hs)

theorem Saved.after {w₂ : World} (h1 : w.Writes none w₁) (h : Saved env run w₁ r w₂) :
    Saved env run w r w₂ :=
  have hidle : Saved env run w (.ok run) w₁ := .of_idle h1 rfl
  hidle.trans h

theorem Saved.congr (h : Saved env run w r w') (he : run.unplanned = run'.unplanned) :
    Saved env run' w r w' where
  runs := h.runs.congr he
  queue := h.queue
  copy r' hr := (h.copy r' hr).trans he
  ok hf hs := h.ok hf (id_of_unplanned he ▸ hs)

/-- `Update` saves the copy, and stores what it returns. -/
theorem runsUpdate_ends (run : Run) (w : World) :
    (ProcE.runsUpdate run).run.Ends (exec env) w fun r w' =>
      Saved env run w r w' ∧ ∀ run', r = .ok run' → w'.runs.find? run.id = some run' := by
  have hw := w.exec_writes env (.runsUpdate run)
  refine bindE (Q := fun r w' => r = (w.exec env (.runsUpdate run)).1 ∧
    w' = (w.exec env (.runsUpdate run)).2) ⟨rfl, rfl⟩ ?_ ?_
  · rintro t w' ⟨hr, rfl⟩
    rcases w.exec_update env run with ⟨e, -, he, -⟩ | ⟨old, t', hf, -, ht, hs⟩
    · exact absurd (hr.trans he) (by simp)
    obtain rfl : t = t' := by simpa using hr.trans ht
    refine pureE ⟨⟨⟨?_, ?_⟩, hw.queue nofun, ?_, fun _ _ => ⟨_, rfl⟩⟩, ?_⟩
    · intro id hid
      rw [hs, update_find? hf, if_neg hid]
    · exact .inr ⟨old, run.stamped t, hf, by rw [hs, update_find? hf, if_pos rfl], rfl⟩
    · rintro run' ⟨⟩
      rfl
    · rintro run' ⟨⟩
      rw [hs, update_find? hf, if_pos rfl]
  · rintro e w' ⟨hr, rfl⟩
    rcases w.exec_update env run with ⟨e', hfail, -, hs⟩ | ⟨old, t', hf, -, ht, hs⟩
    · refine ⟨⟨by rw [hs]; exact .refl _, hw.queue nofun, error_ne, fun hfl hst => ?_⟩, error_ne⟩
      rcases hfail with hfail | hfail
      · exact absurd ((hfl w.tick).symm.trans hfail) nofun
      · exact absurd hfail hst
    · exact absurd (hr.trans ht) (by simp)

/-! ## The plan edit -/

theorem cancelPlanTasks_ends (run : Run) (reason : String) (w : World) :
    (cancelPlanTasks run reason).run.Ends (exec env) w (Saved env run w) := by
  unfold cancelPlanTasks
  split
  · exact pureE (Saved.of_idle (refl w none) rfl)
  · dsimp only
    split
    · exact pureE (Saved.of_idle (refl w none) rfl)
    · refine (runsUpdate_ends _ w).bindE ?_ fun _ _ h => h.1.congr rfl
      rintro run' w₁ ⟨hupdate, -⟩
      have hsaved : Saved env run w (.ok run') w₁ := hupdate.congr rfl
      refine ((idle_emitEach _ _ _).ends w₁).liftE fun _ w₂ h2 => ?_
      refine ((idle_emitSkippedPlanTasks _ _ _).ends w₂).liftE fun _ w₃ h3 => ?_
      refine ((idle_emit _ _).ends w₃).liftE fun _ w₄ h4 => ?_
      refine pureE (hsaved.trans ?_)
      exact Saved.of_idle ((h2.trans h3).trans h4) (hsaved.copy run' rfl)

theorem failRunningPlanTasks_ends (run : Run) (err : Err) (w : World) :
    (failRunningPlanTasks run err).run.Ends (exec env) w (Saved env run w) := by
  unfold failRunningPlanTasks
  split
  · exact pureE (Saved.of_idle (refl w none) rfl)
  · refine ((idle_emitEach _ _ _).ends w).liftE fun _ w₁ h1 => ?_
    refine ((idle_emitSkippedPlanTasks _ _ _).ends w₁).liftE fun _ w₂ h2 => ?_
    refine ((idle_emit _ _).ends w₂).liftE fun _ w₃ h3 => ?_
    refine (runsUpdate_ends _ w₃).mono fun r w₄ h => ?_
    exact Saved.after ((h1.trans h2).trans h3) (h.1.congr rfl)

theorem finalizePlan_ends (run : Run) (action : FinalPlanAction) (w : World) :
    (finalizePlan run action).run.Ends (exec env) w (Saved env run w) := by
  cases action with
  | none => exact pureE (Saved.of_idle (refl w _) rfl)
  | cancel reason => exact cancelPlanTasks_ends run _ w
  | fail err =>
    cases err with
    | none => exact pureE (Saved.of_idle (refl w _) rfl)
    | some err => exact failRunningPlanTasks_ends run err w

/-! ## The announcement -/

/-- What the announcement of an end does: without faults it releases the slot if it is told to, and
    the event is on the bus. -/
structure Announced (env : Env) (a : AgentComponent) (run : Run) (spec : RunFinalization)
    (w w' : World) : Prop where
  runs : w'.runs = w.runs
  queue : w'.queue = w.queue ∨
    (spec.finishQueue && a.hasQueue) = true ∧ w'.queue = w.queue.finishRun run.sessionID run.id
  released : env.Faultless → (spec.finishQueue && a.hasQueue) = true →
    w'.queue = w.queue.finishRun run.sessionID run.id
  event : env.Faultless → ∀ type, spec.eventType = some type →
    ⟨type, run.id, run.sessionID⟩ ∈ w'.bus

theorem onlyIf_ends {c : Bool} {p : Proc Unit} {Q : Unit → World → Prop}
    (hp : c = true → p.Ends (exec env) w Q) (hskip : c = false → Q () w) :
    (onlyIf c p).Ends (exec env) w Q := by
  unfold onlyIf
  split
  · exact hp ‹_›
  · exact hskip (by simpa using ‹¬ c = true›)

theorem queueFinish_ends (site : FinishSite) (sessionID runID : String) (w : World) :
    (logged (.queueFinish site sessionID runID)).Ends (exec env) w fun _ w' =>
      w.Writes (some .queue) w' ∧
      (w'.queue = w.queue ∨ w'.queue = w.queue.finishRun sessionID runID) ∧
      (env.Faultless → w'.queue = w.queue.finishRun sessionID runID) := by
  refine ⟨w.exec_writes env (.queueFinish site sessionID runID), ?_⟩
  rcases w.exec_finish env site sessionID runID with ⟨hfault, hq⟩ | hq
  · exact ⟨.inl hq, fun hf => absurd (hf w.tick) hfault⟩
  · exact ⟨.inr hq, fun _ => hq⟩

theorem emit_bus (hf : env.Faultless) (type : EventType) (run : Run) (w : World) :
    (emit type run).Ends (exec env) w fun _ w' =>
      ⟨type, run.id, run.sessionID⟩ ∈ w'.bus := by
  show _ ∈ (w.faulty env (.ok (), { w with bus := ⟨type, run.id, run.sessionID⟩ :: w.bus })).2.bus
  rw [faulty, hf]
  exact List.mem_cons_self ..

theorem announceFinal_ends (a : AgentComponent) (run : Run) (spec : RunFinalization) (w : World) :
    (announceFinal a run spec).Ends (exec env) w fun _ w' =>
      Announced env a run spec w w' := by
  have hidle : Idle (onlyIf spec.cancelContext (logged (.takeRunCancel run.id))) :=
    uses_onlyIf (uses_logged rfl)
  refine bind (hidle.ends w) fun _ w₁ h1 => ?_
  have hfinish : (onlyIf (spec.finishQueue && a.hasQueue)
      (logged (.queueFinish .finalizer run.sessionID run.id))).Ends (exec env) w₁
      fun _ w₂ => w₁.Writes (some .queue) w₂ ∧
        (w₂.queue = w₁.queue ∨ (spec.finishQueue && a.hasQueue) = true ∧
          w₂.queue = w₁.queue.finishRun run.sessionID run.id) ∧
        (env.Faultless → (spec.finishQueue && a.hasQueue) = true →
          w₂.queue = w₁.queue.finishRun run.sessionID run.id) := by
    refine onlyIf_ends (fun hc => ?_) fun hc => ?_
    · refine (queueFinish_ends _ _ _ w₁).mono fun _ w₂ h => ⟨h.1, ?_, fun hf _ => h.2.2 hf⟩
      exact h.2.1.imp id fun hq => ⟨hc, hq⟩
    · exact ⟨refl w₁ _, .inl rfl, fun _ ht => absurd (hc.symm.trans ht) (by simp)⟩
  refine hfinish.bind fun _ w₂ h2 => ?_
  have hq : w₁.queue = w.queue := h1.queue (by simp)
  have hdone : ∀ w₃, w₂.Writes none w₃ →
      (env.Faultless → ∀ type, spec.eventType = some type →
        ⟨type, run.id, run.sessionID⟩ ∈ w₃.bus) → Announced env a run spec w w₃ := by
    intro w₃ h3 hbus
    have hq3 : w₃.queue = w₂.queue := h3.queue (by simp)
    refine ⟨((h1.of_none.trans h2.1).trans h3.of_none).runs nofun, ?_, ?_, hbus⟩
    · rw [hq3, ← hq]
      exact h2.2.1
    · rw [hq3, ← hq]
      exact h2.2.2
  cases he : spec.eventType with
  | none => exact hdone w₂ (refl w₂ none) fun _ type ht => by simp [he] at ht
  | some type =>
    refine mono (and ((idle_emit type run).ends w₂)
      (R := fun _ w₃ => env.Faultless → ⟨type, run.id, run.sessionID⟩ ∈ w₃.bus)
      fun hf => emit_bus hf type run w₂) fun _ w₃ h3 => ?_
    refine hdone w₃ h3.1 fun hf type' ht => ?_
    obtain rfl := Option.some.inj (he.symm.trans ht)
    exact h3.2 hf

/-! ## The finalizer -/

/-- What a finalization did to the state, where `run` is the copy it saved. -/
structure Finalized (env : Env) (a : AgentComponent) (spec : RunFinalization) (run : Run)
    (w : World) (r : Except Err Run) (w' : World) : Prop where
  runs : w.runs.Rewrote run w'.runs
  queue : w'.queue = w.queue ∨
    (spec.finishQueue && a.hasQueue) = true ∧ w'.queue = w.queue.finishRun run.sessionID run.id
  stored : ∀ run', r = .ok run' →
    w'.runs.find? run.id = some run' ∧ run'.unplanned = run.unplanned
  ok : env.Faultless → w.runs.find? run.id ≠ none → (∃ run', r = .ok run') ∧
    ((spec.finishQueue && a.hasQueue) = true →
      w'.queue = w.queue.finishRun run.sessionID run.id) ∧
    ∀ type, spec.eventType = some type → ⟨type, run.id, run.sessionID⟩ ∈ w'.bus

variable {a : AgentComponent} {spec : RunFinalization}

theorem Finalized.of_error {e : Err} (h : Saved env run w (.error e) w') :
    Finalized env a spec run w (.error e) w' where
  runs := h.runs
  queue := .inl h.queue
  stored := error_ne
  ok hf hs := by
    obtain ⟨_, hr⟩ := h.ok hf hs
    exact absurd hr (by simp)

/-- A finalization after operations without effect on the stores. -/
theorem Finalized.of_writes_none (h : Finalized env a spec run w₁ r w') (h1 : w.Writes none w₁) :
    Finalized env a spec run w r w' := by
  have hruns : w₁.runs = w.runs := h1.runs nofun
  have hqueue : w₁.queue = w.queue := h1.queue nofun
  exact ⟨hruns ▸ h.runs, hqueue ▸ h.queue, h.stored, hruns ▸ hqueue ▸ h.ok⟩

theorem Finalized.of_announced (h : Saved env run w (.ok run') w₁)
    (hstored : w₁.runs.find? run.id = some run') (ha : Announced env a run' spec w₁ w') :
    Finalized env a spec run w (.ok run') w' := by
  have hcopy := h.copy run' rfl
  have hfinish : w₁.queue.finishRun run'.sessionID run'.id =
      w.queue.finishRun run.sessionID run.id := by
    rw [h.queue, sessionID_of_unplanned hcopy, id_of_unplanned hcopy]
  refine ⟨by rw [ha.runs]; exact h.runs, ?_, ?_, ?_⟩
  · rw [← hfinish, ← h.queue]; exact ha.queue
  · rintro _ ⟨⟩
    exact ⟨by rw [ha.runs]; exact hstored, hcopy⟩
  · intro hf _
    refine ⟨⟨run', rfl⟩, fun hc => hfinish ▸ ha.released hf hc, fun type ht => ?_⟩
    rw [← id_of_unplanned hcopy, ← sessionID_of_unplanned hcopy]
    exact ha.event hf type ht

/-- A run that is not finished yet is finalized as `finalTransition` says, at some time. -/
theorem finalizeRun_ends (a : AgentComponent) (hrun : run.status.terminal = false)
    (spec : RunFinalization) (w : World) :
    (finalizeRun a run spec).run.Ends (exec env) w fun r w' =>
      ∃ t, t ≠ 0 ∧ Finalized env a spec (finalTransition run spec t) w r w' := by
  unfold finalizeRun
  rw [if_neg (by simp [hrun])]
  have hnow : (op .now).Ends (exec env) w fun _ w' => w.Writes none w' :=
    w.exec_writes env .now
  refine hnow.liftE fun (t : { t : Time // t ≠ 0 }) w₁ h1 => ?_
  refine (finalizePlan_ends (finalTransition run spec t) spec.planAction w₁).bindE ?_ ?_
  · intro run₂ w₂ h2
    have hcopy := h2.copy run₂ rfl
    refine (runsUpdate_ends run₂ w₂).bindE ?_ fun e w₃ h3 =>
      ⟨t, t.2, Finalized.of_error ((Saved.after h1 h2).trans (h3.1.congr hcopy))⟩
    rintro run₃ w₃ ⟨h3, hstored⟩
    have hstored3 := hstored run₃ rfl
    rw [id_of_unplanned hcopy] at hstored3
    refine (announceFinal_ends a run₃ spec w₃).liftE fun _ w₄ h4 => pureE ⟨t, t.2, ?_⟩
    exact Finalized.of_announced ((Saved.after h1 h2).trans (h3.congr hcopy)) hstored3 h4
  · exact fun e w₂ h2 => ⟨t, t.2, Finalized.of_error (Saved.after h1 h2)⟩

/-! ## When the finalizer ends a run -/

/-- The run is stored as ended with this status. -/
def World.HasEnded (w : World) (id : String) (status : RunStatus) : Prop :=
  ∃ run, w.runs.find? id = some run ∧ run.status = status ∧ run.phase = .finalize ∧
    run.finishedAt ≠ 0

/-- The run holds no slot of its session and waits for none. -/
def World.OffQueue (w : World) (sessionID id : String) : Prop :=
  (w.queue.queues sessionID).active ≠ id ∧ id ∉ (w.queue.queues sessionID).queued

theorem Coordinator.finishRun_offQueue (c : Coordinator) (sessionID : String) {id : String}
    (hid : id ≠ "") : ((c.finishRun sessionID id).queues sessionID).active ≠ id ∧
      id ∉ ((c.finishRun sessionID id).queues sessionID).queued := by
  rw [Coordinator.finishRun, Coordinator.set_queues_self]
  refine ⟨?_, by simp [SessionQueue.finish]⟩
  simp only [SessionQueue.finish]
  split_ifs with h
  · exact hid.symm
  · exact h

theorem finalTransition_of_valid (t : Time) (h : run.status.validTransition spec.status = true) :
    (finalTransition run spec t).status = spec.status ∧
      (finalTransition run spec t).phase = .finalize ∧
      (finalTransition run spec t).finishedAt = t := by
  rw [finalTransition, transitionRun_of_valid _ _ h]
  exact ⟨rfl, rfl, rfl⟩

/-- A refused transition leaves the status that is not terminal. -/
theorem finalTransition_of_invalid (t : Time) (hrun : run.status.terminal = false)
    (hspec : spec.status.terminal = true) (h : run.status.validTransition spec.status = false) :
    finalTransition run spec t = run := by
  refine transitionRun_of_invalid _ _ ?_ h
  rintro heq
  rw [heq, hrun] at hspec
  exact absurd hspec (by simp)

theorem Finalized.hasEnded_iff {t : Time} (ht : t ≠ 0) (hrun : run.status.terminal = false)
    (hspec : spec.status.terminal = true)
    (h : Finalized env a spec (finalTransition run spec t) w (.ok run') w') :
    w'.HasEnded run.id spec.status ↔ run.status.validTransition spec.status = true := by
  obtain ⟨hstored, hcopy⟩ := h.stored run' rfl
  rw [finalTransition, transitionRun_id] at hstored
  have hstatus := status_of_unplanned hcopy
  constructor
  · rintro ⟨stored, hfind, hended, -, -⟩
    obtain rfl := Option.some.inj (hstored.symm.trans hfind)
    by_contra hinvalid
    rw [finalTransition_of_invalid t hrun hspec (by simpa using hinvalid), hended] at hstatus
    rw [← hstatus, hspec] at hrun
    exact absurd hrun (by simp)
  · intro hvalid
    obtain ⟨hs, hp, hfin⟩ := finalTransition_of_valid t hvalid
    refine ⟨run', hstored, hstatus.trans hs, (congrArg phase hcopy).trans hp, ?_⟩
    exact fun h0 => ht (((congrArg finishedAt hcopy).trans hfin).symm.trans h0)

/-- `Get` answers with what is stored, unless it fails. -/
theorem runsGet_ends (id : String) (w : World) :
    (ProcE.runsGet id).run.Ends (exec env) w fun r w' => w.Writes none w' ∧
      (∀ run, r = .ok run → w.runs.find? id = some run) ∧
      (env.Faultless → ∀ run, w.runs.find? id = some run → r = .ok run) ∧
      (env.Faultless → ∀ e, r = .error e → e.sentinel = none) := by
  refine ⟨w.exec_writes env (.runsGet id), ?_⟩
  show (∀ run, (w.faulty env (w.runs.get id, w)).1 = .ok run → _) ∧
    (_ → ∀ run, _ → (w.faulty env (w.runs.get id, w)).1 = .ok run) ∧
    (_ → ∀ e, (w.faulty env (w.runs.get id, w)).1 = .error e → _)
  rcases w.faulty_eq env (w.runs.get id, w) with ⟨e, hf, he⟩ | he <;> rw [he]
  · refine ⟨fun _ h => absurd h (by simp), fun hfl => ?_, fun hfl => ?_⟩ <;>
    exact absurd ((hfl w.tick).symm.trans hf) (by simp)
  · cases hs : w.runs.find? id with
    | none =>
      rw [get_of_none hs]
      exact ⟨fun _ h => absurd h (by simp), fun _ _ h => absurd h (by simp),
        fun _ _ h => by cases h; rfl⟩
    | some stored =>
      rw [get_of_some hs]
      exact ⟨fun _ h => by cases h; rfl, fun _ _ h => by cases h; rfl,
        fun _ _ h => absurd h (by simp)⟩

theorem markBackgroundFailure_ends (a : AgentComponent) (hstored : w.runs.find? run.id = some run)
    (hrun : run.status.terminal = false) (happroval : run.status ≠ .waitingApproval) (err : Err)
    (hf : env.Faultless) :
    (markBackgroundFailure a run.id (some err)).run.Ends (exec env) w fun _ w' =>
      ∃ t run', t ≠ 0 ∧ Finalized env a (backgroundFailure err)
        (finalTransition run (backgroundFailure err) t) w (.ok run') w' := by
  unfold markBackgroundFailure
  have hid : GoStrings.trimSpace run.id ≠ "" := by
    rw [trimSpace_of_find? hstored]
    exact find?_ne_empty hstored
  dsimp only
  rw [if_neg hid]
  refine (runsGet_ends run.id w).bindE ?_ ?_
  · rintro got w₁ ⟨h1, hgot, -⟩
    obtain rfl := Option.some.inj (hstored.symm.trans (hgot got rfl))
    rw [if_neg (by simp [hrun, happroval])]
    have hruns : w₁.runs = w.runs := h1.runs (by simp)
    refine (finalizeRun_ends a hrun (backgroundFailure err) w₁).bindE ?_ ?_
    · rintro run' w₂ ⟨t, ht, h2⟩
      refine pureE ⟨t, run', ht, ?_⟩
      exact h2.of_writes_none h1
    · rintro e w₂ ⟨t, -, h2⟩
      obtain ⟨⟨_, hok⟩, -⟩ := h2.ok hf (by simp [finalTransition, hruns, hstored])
      exact absurd hok (by simp)
  · rintro e w₁ ⟨-, -, hok, -⟩
    exact absurd (hok hf run hstored) (by simp)

/-- The finalizer ends a run exactly when the table has the transition. The failure of a run in the
    background is announced, and the run taken off its queue, in any case; it is stored exactly for
    a run that has left `queued` and `waiting_input`. -/
theorem finalizeRun_finalizes_iff (env : Env) (a : AgentComponent) (w : World) (run : Run)
    (spec : RunFinalization) (hrun : run.status.terminal = false)
    (hspec : spec.status.terminal = true) :
    (∀ run' w', (finalizeRun a run spec).run.run (World.exec env) w = (.ok run', w') →
      (w'.HasEnded run.id spec.status ↔ run.status.validTransition spec.status = true)) ∧
    (∀ err, env.Faultless → a.hasQueue = true → w.runs.find? run.id = some run →
      run.status ≠ .waitingApproval →
      let w' := ((markBackgroundFailure a run.id (some err)).run.run (World.exec env) w).2
      ⟨.runFailed, run.id, run.sessionID⟩ ∈ w'.bus ∧ w'.OffQueue run.sessionID run.id ∧
        (w'.HasEnded run.id .failed ↔ run.status ≠ .queued ∧ run.status ≠ .waitingInput)) := by
  constructor
  · intro run' w' hdone
    have hends : (finalizeRun a run spec).run.Ends (World.exec env) w _ :=
      finalizeRun_ends a hrun spec w
    rw [Ends, hdone] at hends
    obtain ⟨t, ht, hfin⟩ := hends
    exact hfin.hasEnded_iff ht hrun hspec
  · intro err hf hq hstored happroval
    obtain ⟨t, run', ht, hfin⟩ := markBackgroundFailure_ends a hstored hrun happroval err hf
    have hids : (finalTransition run (backgroundFailure err) t).id = run.id ∧
        (finalTransition run (backgroundFailure err) t).sessionID = run.sessionID := by
      simp [finalTransition]
    obtain ⟨-, hqueue, hevent⟩ := hfin.ok hf (by rw [hids.1, hstored]; simp)
    rw [hids.1, hids.2] at hqueue hevent
    refine ⟨hevent .runFailed rfl, ?_, ?_⟩
    · rw [World.OffQueue, hqueue (by simp [backgroundFailure, hq])]
      exact Coordinator.finishRun_offQueue _ _ (RunStore.find?_ne_empty hstored)
    · rw [show RunStatus.failed = (backgroundFailure err).status from rfl,
        hfin.hasEnded_iff ht hrun rfl]
      simp [backgroundFailure, RunStatus.validTransition_failed_iff, hrun]

/-- The submitted run after its execution began. -/
def startedWorld : World :=
  submittedWorld.call do
    let run ← ProcE.runsGet (runID 1)
    claimQueuedExecution plainAgent run

def startedRun : Run :=
  (startedWorld.runs.find? (runID 1)).get (by decide +kernel)

theorem startedRun_stored : startedWorld.runs.find? startedRun.id = some startedRun := by
  have h : startedWorld.runs.find? (runID 1) = some startedRun := (Option.some_get _).symm
  rwa [find?_keyed h]

/-- The failure of a run that was started is stored. -/
theorem background_failure_of_started_run :
    ((startedWorld.call (markBackgroundFailure plainAgent startedRun.id (some ⟨"lost", none⟩)))
      |>.HasEnded startedRun.id .failed) :=
  ((finalizeRun_finalizes_iff Env.ticking plainAgent startedWorld startedRun
    (backgroundFailure ⟨"lost", none⟩) (by decide +kernel) rfl).2 ⟨"lost", none⟩
    Env.ticking_faultless rfl startedRun_stored (by decide +kernel)).2.2.mpr (by decide +kernel)

/-- A queued run whose background execution failed: the failure is announced and the run is off its
    queue, and it is stored as queued. -/
theorem background_failure_leaves_queued :
    let w := submittedWorld.call (markBackgroundFailure plainAgent (runID 1) (some ⟨"lost", none⟩))
    submittedWorld.statusOf (runID 1) = some .queued ∧
    (w.bus.any fun event => event.type = .runFailed && event.runID = runID 1) = true ∧
    (w.queue.queues "sess-000001").active = "" ∧ (w.queue.queues "sess-000001").queued = [] ∧
    w.statusOf (runID 1) = some .queued := by
  decide +kernel

end Hopclaw
