import Hopclaw.Interleaving.Trace
import Hopclaw.Proofs.TaskMoves

/-! # What is running

A plan says three times which of its tasks are running: by the tasks' statuses, by the list
`runningTasks`, and by `activeTask`, the legacy field that names one of them. The operations on a
plan keep the three in step with two exceptions, and this is exact: skipping the active task while
another one is running, and normalizing a plan whose active task has blanks around its id, leave no
task elected although some are running. -/

namespace Hopclaw.Planner

open GoStrings Interleaving List Plan

namespace Plan

variable {p q : Plan} {id x : String} {i : ℕ} {t u : Task} {f : Task → Task}

/-- A task with this id is running. -/
def Runs (p : Plan) (id : String) : Prop :=
  ∃ t ∈ p.tasks, t.id = id ∧ t.status = .running

/-- The list of running tasks is right. -/
structure Synced (p : Plan) : Prop where
  nodup : p.runningTasks.Nodup
  running : ∀ id, id ∈ p.runningTasks ↔ p.Runs id

/-- The list of running tasks is right, and the active task is one of them if there is any. -/
structure Tracked (p : Plan) : Prop extends Synced p where
  active : p.activeTask = "" ↔ p.runningTasks = []
  elected : p.runningTasks ≠ [] → p.activeTask ∈ p.runningTasks

/-! ## Who runs after an edit -/

theorem Named.runs_iff (h : p.Named) (ht : t ∈ p.tasks) : p.Runs t.id ↔ t.status = .running := by
  constructor
  · rintro ⟨u, hu, hid, hrun⟩
    exact h.eq_of_id hu ht hid ▸ hrun
  · exact fun hrun => ⟨t, ht, rfl, hrun⟩

theorem Named.ne_empty_of_runs (h : p.Named) (hr : p.Runs x) : x ≠ "" := by
  obtain ⟨t, ht, rfl, -⟩ := hr
  intro hempty
  exact h.nonblank t ht (by rw [hempty, trimSpace_empty])

/-- An operation after which the task with this id does not run stops this one. -/
theorem Named.runs_editTask {c : Task → Bool} (h : p.Named)
    (hf : ∀ t, (f t).id = t.id ∧ (f t).status ≠ .running)
    (hc : ∀ t, t.status = .running → c t = true) :
    (p.editTask id c f).Runs x ↔ p.Runs x ∧ x ≠ id := by
  simp only [Runs, h.editTask_tasks, mem_map]
  constructor
  · rintro ⟨_, ⟨t, ht, rfl⟩, rfl, hrun⟩
    split_ifs at hrun ⊢ with hid hct
    · exact absurd hrun (hf t).2
    · exact absurd (hc t hrun) hct
    · exact ⟨⟨t, ht, rfl, hrun⟩, hid⟩
  · rintro ⟨⟨t, ht, rfl, hrun⟩, hne⟩
    exact ⟨t, ⟨t, ht, if_neg hne⟩, rfl, hrun⟩

theorem Edits.runs {R : Task → Task → Prop} (h : Edits R p q)
    (hR : ∀ t u, R t u → u.id = t.id ∧ (u.status = .running ↔ t.status = .running)) :
    q.Runs x ↔ p.Runs x := by
  constructor
  · rintro ⟨u, hu, hid, hrun⟩
    obtain ⟨t, ht, htu⟩ := h.of_mem hu
    exact ⟨t, ht, (hR t u htu).1 ▸ hid, (hR t u htu).2.mp hrun⟩
  · rintro ⟨t, ht, hid, hrun⟩
    obtain ⟨u, hu, htu⟩ := h.to_mem ht
    exact ⟨u, hu, (hR t u htu).1.trans hid, (hR t u htu).2.mpr hrun⟩

/-! ## Electing the active task -/

/-- The first of the running tasks, or none, is a right choice of the active task. -/
theorem Synced.tracked_of_head (hp : p.Named) (h : p.Synced)
    (ha : p.activeTask = p.runningTasks.headD "") : p.Tracked := by
  cases hr : p.runningTasks with
  | nil => exact ⟨h, by simp [ha, hr], by simp [hr]⟩
  | cons y ys =>
    have hy : y ≠ "" := hp.ne_empty_of_runs ((h.running y).mp (by simp [hr]))
    exact ⟨h, by simp [ha, hr, hy], by simp [ha, hr]⟩

/-- An active task that is still running is a right choice. -/
theorem Synced.tracked_of_mem (hp : p.Named) (h : p.Synced)
    (ha : p.activeTask ∈ p.runningTasks) : p.Tracked where
  toSynced := h
  active := by
    refine ⟨fun hempty => ?_, fun hnil => ?_⟩
    · exact absurd hempty (hp.ne_empty_of_runs ((h.running _).mp ha))
    · rw [hnil] at ha
      cases ha
  elected := fun _ => ha

theorem Tracked.mem_active (h : p.Tracked) (ha : p.activeTask ≠ "") :
    p.activeTask ∈ p.runningTasks :=
  h.elected fun hnil => ha (h.active.mpr hnil)

/-! ## The operations -/

theorem mem_removeString {l : List String} : x ∈ removeString l id ↔ x ∈ l ∧ x ≠ id := by
  simp [removeString]

/-- The tracking of `p` with `id` taken out of it tracks a plan in which `id` is the one task that
    stopped. -/
theorem Tracked.release (hp : p.Tracked) (hq : q.Named) (hlist : q.runningTasks = p.runningTasks)
    (hactive : q.activeTask = p.activeTask) (hruns : ∀ x, q.Runs x ↔ p.Runs x ∧ x ≠ id) :
    (q.releaseRunning id).Tracked := by
  have hnamed : (q.releaseRunning id).Named := hq.congr rfl
  have hsync : (q.releaseRunning id).Synced := by
    refine ⟨?_, fun x => ?_⟩
    · exact (hlist ▸ hp.nodup).filter _
    · show x ∈ removeString q.runningTasks id ↔ q.Runs x
      rw [mem_removeString, hlist, hp.running, hruns]
  by_cases hid : q.activeTask = id
  · exact hsync.tracked_of_head hnamed (if_pos hid)
  · have hsame : (q.releaseRunning id).activeTask = p.activeTask := (if_neg hid).trans hactive
    by_cases hempty : p.activeTask = ""
    · -- nothing was running, and nothing is
      have hnil : (q.releaseRunning id).runningTasks = [] := by
        show removeString q.runningTasks id = []
        rw [hlist, hp.active.mp hempty]
        rfl
      exact hsync.tracked_of_head hnamed (by rw [hsame, hempty, hnil]; rfl)
    · refine hsync.tracked_of_mem hnamed ?_
      rw [hsame]
      show p.activeTask ∈ removeString q.runningTasks id
      rw [mem_removeString, hlist]
      exact ⟨hp.mem_active hempty, hactive ▸ hid⟩

theorem Tracked.markFinished (h : p.Tracked) (hp : p.Named) (id : String)
    (hf : ∀ t, (f t).id = t.id ∧ (f t).status ≠ .running) : (p.markFinished id f).Tracked := by
  obtain ⟨hsame, -⟩ | hfinished := p.markFinished_cases id f
  · rwa [hsame]
  have hedits : Edits (fun t u => u.id = t.id) p (p.finishOne id f) :=
    editTask_edits (fun _ => rfl) fun t _ _ => (hf t).1
  obtain ⟨hlist, hactive⟩ := p.editTask_tracking id (fun t => t.status = .running) f
  rw [hfinished]
  exact h.release (hedits.named (fun _ _ h => h) hp) hlist hactive
    fun x => hp.runs_editTask hf (by simp)

theorem SkipsTo.tracked (h : SkipsTo p q) (hp : p.Tracked) : q.Tracked := by
  have hruns : ∀ x, q.Runs x ↔ p.Runs x := fun x => h.edits.runs fun t u htu => by
    refine ⟨htu.id_eq, ?_⟩
    obtain rfl | ⟨hq, e, rfl⟩ := htu
    · rfl
    · simp [hq]
  have hlist : q.runningTasks = p.runningTasks := by rw [h.frame]
  have hactive : q.activeTask = p.activeTask := by rw [h.frame]
  exact ⟨⟨hlist ▸ hp.nodup, fun x => by rw [hlist, hp.running, hruns]⟩,
    by rw [hlist, hactive]; exact hp.active, by rw [hlist, hactive]; exact hp.elected⟩

theorem Tracked.cancelRunning (reason : String) : (p.cancelRunning reason).Tracked := by
  refine ⟨⟨nodup_nil, fun x => ⟨fun hx => absurd hx (by simp [Plan.cancelRunning]), ?_⟩⟩,
    ⟨fun _ => rfl, fun _ => rfl⟩, fun hne => absurd rfl hne⟩
  rintro ⟨u, hu, -, hrun⟩
  obtain ⟨t, -, rfl⟩ := mem_map.mp hu
  by_cases h : t.status = .running <;> simp [h] at hrun

theorem mem_appendUnique {l : List String} : x ∈ appendUnique l id ↔ x ∈ l ∨ x = id := by
  unfold appendUnique
  split_ifs with h
  · exact ⟨.inl, fun hx => hx.elim (fun hl => hl) fun hx => hx ▸ h⟩
  · simp

theorem nodup_appendUnique {l : List String} (h : l.Nodup) : (appendUnique l id).Nodup := by
  unfold appendUnique
  split_ifs with hid
  · exact h
  · exact h.append (nodup_singleton id) (by simpa using hid)

theorem Synced.markOneRunning (h : p.Synced) (hp : p.Named) (id : String) :
    (p.markOneRunning id).Synced ∧ (p.markOneRunning id).activeTask = p.activeTask ∧
    p.runningTasks ⊆ (p.markOneRunning id).runningTasks := by
  obtain ⟨hsame, -⟩ | ⟨hmarked, t, ht, rfl, hq⟩ := p.markOneRunning_cases id
  · rw [hsame]
    exact ⟨h, rfl, fun _ hx => hx⟩
  rw [hmarked]
  refine ⟨⟨nodup_appendUnique h.nodup, fun x => ?_⟩, (p.editTask_tracking t.id _ _).2,
    fun x hx => mem_appendUnique.mpr (.inl hx)⟩
  rw [mem_appendUnique, h.running]
  simp only [Runs, startOne, hp.editTask_tasks, mem_map]
  constructor
  · rintro (⟨u, hu, rfl, hrun⟩ | rfl)
    · exact ⟨u, ⟨u, hu, by simp [hrun]⟩, rfl, hrun⟩
    · exact ⟨_, ⟨t, ht, rfl⟩, by simp [hq], by simp [hq]⟩
  · rintro ⟨_, ⟨u, hu, rfl⟩, rfl, hrun⟩
    by_cases hid : u.id = t.id
    · exact .inr (by by_cases huq : u.status = .queued <;> simp [huq, hid])
    · rw [if_neg hid] at hrun ⊢
      exact .inl ⟨u, hu, rfl, hrun⟩

theorem Tracked.markRunning (h : p.Tracked) (hp : p.Named) (ids : List String) :
    (p.markRunning ids).Tracked := by
  obtain ⟨hp', h', ha, hmem⟩ := foldlRecOn (motive := fun q => q.Named ∧ q.Synced ∧
    q.activeTask = p.activeTask ∧ p.runningTasks ⊆ q.runningTasks) ids markOneRunning
    ⟨hp, h.toSynced, rfl, fun _ hx => hx⟩ fun q ⟨hq, hsync, ha, hsub⟩ id _ => by
      obtain ⟨hsync', ha', hsub'⟩ := hsync.markOneRunning hq id
      exact ⟨(q.markOneRunning_edits id).named (fun _ _ h => h.1) hq, hsync', ha'.trans ha,
        fun _ hx => hsub' (hsub hx)⟩
  rw [markRunning_eq]
  split_ifs with hempty
  · exact Synced.tracked_of_head (hp'.congr rfl) ⟨h'.nodup, h'.running⟩ rfl
  · refine h'.tracked_of_mem hp' ?_
    rw [ha]
    exact hmem (h.mem_active (ha ▸ hempty))

theorem Synced.tracked_iff (hp : p.Named) (h : p.Synced) :
    p.Tracked ↔ if p.runningTasks = [] then p.activeTask = "" else p.activeTask ∈ p.runningTasks := by
  split_ifs with hnil
  · refine ⟨fun ht => ht.active.mpr hnil, fun ha => h.tracked_of_head hp ?_⟩
    rw [ha, hnil]
    rfl
  · exact ⟨fun ht => ht.elected hnil, h.tracked_of_mem hp⟩

theorem Tracked.markSkipped_iff (h : p.Tracked) (hp : p.Named) (id reason : String) :
    (p.markSkipped id reason).Tracked ↔
      (p.activeTask = id → removeString p.runningTasks id = []) := by
  obtain ⟨hlist, hactive⟩ : (p.skipOne id reason).runningTasks = p.runningTasks ∧
    (p.skipOne id reason).activeTask = p.activeTask := p.editTask_tracking id _ _
  have hsync : (p.markSkipped id reason).Synced := by
    rw [markSkipped_eq, hlist]
    have hruns : ∀ x, (p.skipOne id reason).Runs x ↔ p.Runs x ∧ x ≠ id := fun x =>
      hp.runs_editTask (fun _ => ⟨rfl, nofun⟩) fun t hrun => by simp [hrun]
    refine ⟨h.nodup.filter _, fun x => ?_⟩
    exact mem_removeString.trans ((and_congr_left' (h.running x)).trans (hruns x).symm)
  have hnamed := (p.markSkipped_edits id reason).named (fun _ _ h => h.1) hp
  rw [hsync.tracked_iff hnamed, markSkipped_eq]
  dsimp only
  rw [hlist, hactive]
  by_cases hid : p.activeTask = id
  · split_ifs with hnil
    · simp [hnil]
    · refine ⟨fun hmem => ?_, fun himp => absurd (himp hid) hnil⟩
      rw [mem_removeString, h.running] at hmem
      exact absurd rfl (hp.ne_empty_of_runs hmem.1)
  · rw [if_neg hid]
    simp only [hid, false_implies, iff_true]
    split_ifs with hnil
    · by_contra hne
      have hmem : p.activeTask ∈ removeString p.runningTasks id :=
        mem_removeString.mpr ⟨h.mem_active hne, hid⟩
      rw [hnil] at hmem
      cases hmem
    · refine mem_removeString.mpr ⟨h.mem_active fun hempty => hnil ?_, hid⟩
      rw [h.active.mp hempty]
      rfl

theorem Named.isRunning_iff (hp : p.Named) : p.isRunning x = true ↔ p.Runs x := by
  unfold isRunning
  cases ht : p.findTask x with
  | none =>
    refine ⟨fun h => absurd h (by simp), ?_⟩
    rintro ⟨t, hmem, rfl, -⟩
    rw [hp.findTask hmem] at ht
    cases ht
  | some t =>
    obtain ⟨hmem, rfl⟩ := mem_of_findTask ht
    rw [hp.runs_iff hmem, decide_eq_true_eq]

/-- Normalizing a plan elects nobody: it trims the active task's id, and drops it if no task with
    the trimmed id is running. -/
theorem Tracked.normalizeExecution_iff (h : p.Tracked) (hp : p.Named) :
    p.normalizeExecution.Tracked ↔ p.runningTasks = [] ∨ trimSpace p.activeTask ∈ p.runningTasks := by
  -- the plan with its tasks normalized, before the tracking is looked at
  let q : Plan :=
    { p with
      activeTask := trimSpace p.activeTask
      tasks := p.tasks.map fun t =>
        { t with
          resultSummary := trimSpace t.resultSummary
          error := trimSpace t.error
          status := t.status.normalize } }
  have hedits : Edits (fun t u => u.id = t.id ∧ (u.status = .running ↔ t.status = .running)) p q :=
    edits_map rfl fun t _ => ⟨rfl, TaskStatus.normalize_running t.status⟩
  have hq : q.Named := hedits.named (fun _ _ htu => htu.1) hp
  have hruns : ∀ x, q.isRunning x = true ↔ x ∈ p.runningTasks := fun x => by
    rw [hq.isRunning_iff, hedits.runs fun _ _ htu => htu, h.running]
  have hlist : p.normalizeExecution.runningTasks = p.runningTasks :=
    filter_eq_self.mpr fun x hx => (hruns x).mpr hx
  have hactive : p.normalizeExecution.activeTask =
      if trimSpace p.activeTask ≠ "" && !q.isRunning (trimSpace p.activeTask) then ""
      else trimSpace p.activeTask := rfl
  have hsync : p.normalizeExecution.Synced := by
    refine ⟨hlist ▸ h.nodup, fun x => ?_⟩
    rw [hlist, ← hruns, hq.isRunning_iff]
    rfl
  have hnamed : p.normalizeExecution.Named := hq.congr rfl
  have hempty : "" ∉ p.runningTasks := fun hmem =>
    hp.ne_empty_of_runs ((h.running "").mp hmem) rfl
  rw [hsync.tracked_iff hnamed, hlist, hactive]
  by_cases hmem : trimSpace p.activeTask ∈ p.runningTasks
  · have hne : p.runningTasks ≠ [] := ne_nil_of_mem hmem
    simp [hne, (hruns _).mpr hmem]
  · have hidle : q.isRunning (trimSpace p.activeTask) = false :=
      Bool.eq_false_iff.mpr fun hrun => hmem ((hruns _).mp hrun)
    by_cases hblank : trimSpace p.activeTask = "" <;> simp [hidle, hblank, hmem, hempty]

theorem Tracked.requeueTasks (h : p.Tracked) (hp : p.Named) (ids : List String) :
    (requeueTasks p ids).Tracked := by
  have hnamed := (p.requeueTasks_edits ids).named (fun _ _ h => h.1) hp
  unfold Hopclaw.requeueTasks at hnamed ⊢
  split_ifs with hids
  · exact h
  · rw [if_neg hids] at hnamed
    refine Synced.tracked_of_head hnamed ⟨?_, fun x => ?_⟩ rfl
    · exact (hnamed.distinct.sublist (filter_sublist.map _))
    · simp only [mem_map, mem_filter, decide_eq_true_eq, Runs]
      exact ⟨fun ⟨t, ⟨ht, hrun⟩, hid⟩ => ⟨t, ht, hid, hrun⟩,
        fun ⟨t, ht, hid, hrun⟩ => ⟨t, ⟨ht, hrun⟩, hid⟩⟩

end Plan

/-! ## Sequences of operations -/

/-- The operations of `planner/state.go` and of the executor that change what is running. -/
inductive PlanOp
  | state (op : Plan.StateOp)
  | normalizeExecution
  | requeue (ids : List String)

def Plan.step (p : Plan) : PlanOp → Plan
  | .state op => p.apply op
  | .normalizeExecution => p.normalizeExecution
  | .requeue ids => requeueTasks p ids

/-- The operation leaves a task elected: one that skips the active task finds no other running,
    and one that normalizes finds the active task's id without blanks around it or, trimmed, the id
    of a task that is running too. -/
def Plan.Elects (p : Plan) : PlanOp → Prop
  | .state (.markSkipped id _) => p.activeTask = id → removeString p.runningTasks id = []
  | .normalizeExecution => p.runningTasks = [] ∨ trimSpace p.activeTask ∈ p.runningTasks
  | _ => True

instance (p : Plan) (op : PlanOp) : Decidable (p.Elects op) :=
  match op with
  | .state (.markSkipped id _) => inferInstanceAs (Decidable (p.activeTask = id → _ = []))
  | .normalizeExecution => inferInstanceAs (Decidable (_ ∨ _))
  | .state (.markRunning _) | .state (.markCompleted ..) | .state (.markFailed ..)
  | .state (.skipDependentsOf _) | .state (.cancelRunning _) | .requeue _ => .isTrue trivial

namespace Plan

variable {p : Plan}

theorem Named.step (hp : p.Named) (op : PlanOp) : (p.step op).Named := by
  cases op with
  | state op => exact (p.follows_apply op).named (fun _ _ h => h.1) hp
  | normalizeExecution => exact p.normalizeExecution_edits.named (fun _ _ h => h.1) hp
  | requeue ids => exact (p.requeueTasks_edits ids).named (fun _ _ h => h.1) hp

theorem Tracked.step_iff (h : p.Tracked) (hp : p.Named) (op : PlanOp) :
    (p.step op).Tracked ↔ p.Elects op := by
  cases op with
  | state op =>
    cases op with
    | markRunning ids => exact iff_of_true (h.markRunning hp ids) trivial
    | markCompleted id _ | markFailed id _ =>
      exact iff_of_true (h.markFinished hp id fun _ => ⟨rfl, by simp⟩) trivial
    | markSkipped id reason => exact h.markSkipped_iff hp id reason
    | skipDependentsOf id => exact iff_of_true ((p.skipDependentsOf_skipsTo id).tracked h) trivial
    | cancelRunning reason => exact iff_of_true (Tracked.cancelRunning reason) trivial
  | normalizeExecution => exact h.normalizeExecution_iff hp
  | requeue ids => exact iff_of_true (h.requeueTasks hp ids) trivial

end Plan

/-- From a fresh plan, the tracking is right after every operation of a sequence exactly if each
    operation leaves a task elected. -/
theorem plan_tracking_iff (p : Plan) (hp : p.Named) (hqueued : ∀ t ∈ p.tasks, t.status = .queued)
    (hactive : p.activeTask = "") (hrunning : p.runningTasks = []) (ops : List PlanOp) :
    (∀ done, done <+: ops → (runAll step p done).Tracked) ↔
      Meets step Plan.Elects p ops := by
  have hfresh : p.Tracked := by
    refine Plan.Synced.tracked_of_head hp ⟨by simp [hrunning], fun x => ?_⟩
      (by simp [hactive, hrunning])
    refine ⟨fun hx => absurd hx (by simp [hrunning]), ?_⟩
    rintro ⟨t, ht, -, hrun⟩
    rw [hqueued t ht] at hrun
    cases hrun
  refine Meets.iff_always (K := fun p : Plan => p.Named ∧ p.Tracked) (fun p h => h.2)
    (fun p op ⟨hp, h⟩ => ⟨fun hP => ⟨hp.step op, ?_⟩, ?_⟩) ⟨hp, hfresh⟩
  · exact (h.step_iff hp op).mpr hP
  · exact (h.step_iff hp op).mp

/-- Two tasks that do not depend on each other. -/
def twoTasks : Plan :=
  { tasks := [{ id := "a", status := .queued }, { id := "b", status := .queued }] }

/-- Both tasks are started, and one more operation is made. -/
def bothStarted (op : Plan.StateOp) : List PlanOp :=
  [.state (.markRunning ["a", "b"]), .state op]

/-- The active task completes: the other is elected. -/
theorem completing_active_task_elects_next :
    (runAll step twoTasks (bothStarted (.markCompleted "a" "done"))).activeTask = "b" ∧
    (runAll step twoTasks (bothStarted (.markCompleted "a" "done"))).Tracked :=
  ⟨by decide +kernel, (plan_tracking_iff twoTasks ⟨by decide, by decide +kernel⟩ (by decide) rfl rfl
    (bothStarted (.markCompleted "a" "done"))).mpr (by decide +kernel) _ (List.prefix_refl _)⟩

/-- The active task is skipped: nobody is elected although the other is running. -/
theorem skipping_active_task_elects_nobody :
    let p := runAll step twoTasks (bothStarted (.markSkipped "a" "cancelled"))
    p.runningTasks = ["b"] ∧ p.activeTask = "" ∧ ¬ p.Tracked := by
  intro p
  have hrun : p.runningTasks = ["b"] := by decide +kernel
  have hactive : p.activeTask = "" := by decide +kernel
  refine ⟨hrun, hactive, fun h => ?_⟩
  have hnil := h.active.mp hactive
  rw [hrun] at hnil
  cases hnil

end Hopclaw.Planner
