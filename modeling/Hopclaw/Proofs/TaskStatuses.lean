import Hopclaw.Proofs.BatchConflicts

/-! # What becomes of the tasks of a plan

The statuses move along the table of allowed transitions, apart from the tasks of a batch that are
queued again. A failure is carried on to exactly those queued tasks from which a failed or skipped
one is reached through queued tasks, and after the results of a batch the execution graph says of
each task what the plan says. -/

namespace Hopclaw

open List GoStrings Planner Planner.Plan Relation

variable (sha : String → String)

/-! ## Who writes statuses -/

/-- The functions that write the statuses of tasks. -/
inductive StatusWriter
  | state (op : StateOp)
  | applyBatchResults (results : List TaskExecutionResult)
  | failRunningPlanTasks (err : Err)
  | cancelPlanTasks (reason : String)
  | requeueBatchTasksForRetry (ids : List String)

def PlannedRun.mapPlan (run : PlannedRun) (f : Plan → Plan) : PlannedRun :=
  { run with plan := run.plan.map f }

/-- The run as the function leaves it; of `failRunningPlanTasks` and `cancelPlanTasks` that is the
    edit of the plan. -/
def StatusWriter.write (run : PlannedRun) : StatusWriter → PlannedRun
  | .state op => run.mapPlan fun p => p.apply op
  | .applyBatchResults results => Hopclaw.applyBatchResults sha run results
  | .failRunningPlanTasks err => run.mapPlan fun p => failedPlan p.normalizeExecution err
  | .cancelPlanTasks reason => run.mapPlan fun p =>
    let before := p.normalizeExecution
    if before.running = [] ∧ before.incomplete = [] then before else cancelledPlan before reason
  | .requeueBatchTasksForRetry ids => Hopclaw.requeueBatchTasksForRetry run ids

/-- Where a status starts from: the executor's functions normalize the plan first. -/
def StatusWriter.start : StatusWriter → TaskStatus → TaskStatus
  | .applyBatchResults _, s | .failRunningPlanTasks _, s | .cancelPlanTasks _, s => s.normalize
  | _, s => s

/-- The tasks that are queued again if they are running. -/
def StatusWriter.requeued : StatusWriter → List String
  | .requeueBatchTasksForRetry ids => ids
  | _ => []

/-- What the function may do to a task. -/
structure StatusWriter.Moves (w : StatusWriter) (t u : Task) : Prop where
  id : u.id = t.id
  status : ReflTransGen Allowed (w.start t.status) u.status ∨
    t.id ∈ w.requeued ∧ t.status = .running ∧ u.status = .queued
  terminal : t.status.terminal = true → u.status = t.status

section Moves

variable {w : StatusWriter} {p q : Plan}

theorem edits_moves (h : Edits Follows p q) (hw : ∀ s, w.start s = s) : Edits w.Moves p q :=
  h.mono fun t u htu => ⟨htu.1, .inl (by rw [hw]; exact htu.2.2), htu.kept.2.2⟩

theorem edits_moves_normalized (h : Edits Follows p.normalizeExecution q)
    (hw : ∀ s, w.start s = s.normalize) : Edits w.Moves p q := by
  refine Edits.trans (fun t u v htu huv => ?_) p.normalizeExecution_edits h
  have hstatus : ReflTransGen Allowed t.status.normalize v.status := htu.2.2 ▸ huv.2.2
  refine ⟨huv.1.trans htu.1, .inl (by rw [hw]; exact hstatus), fun hterm => ?_⟩
  have hnormal : t.status.normalize = t.status := by
    cases hs : t.status <;> simp_all [TaskStatus.terminal, TaskStatus.normalize]
  rw [hnormal] at hstatus
  exact terminal_stays hstatus hterm

/-- A status that is one of the six stays one. -/
theorem normal_stays {s s' : TaskStatus} (h : ReflTransGen Allowed s s') (hs : s.normalize = s) :
    s'.normalize = s' := by
  obtain rfl | ⟨v, -, hv⟩ := h.cases_tail
  · exact hs
  · cases s' <;> cases v <;>
      simp_all [Allowed, validTaskTransition, allowedTaskTransitions, TaskStatus.normalize]

theorem normal_of_follows (h : Edits Follows p.normalizeExecution q) : q.Normal := by
  intro u hu
  obtain ⟨t, ht, -, -, hstatus⟩ := h.of_mem hu
  exact normal_stays hstatus (p.normal_normalizeExecution t ht)

/-- After a normalization there is nothing left to normalize. -/
theorem follows_normalizeExecution (h : Edits Follows p.normalizeExecution q) :
    Edits Follows p.normalizeExecution q.normalizeExecution :=
  followsTrans h (edits_map rfl fun u hu => ⟨rfl, rfl, by rw [normal_of_follows h u hu]⟩)

theorem follows_failedPlan (p : Plan) (err : Err) : Edits Follows p (failedPlan p err) :=
  followsTrans (follows_foldl (fun q (t : Task) => q.follows_failTask t.id err.text) p.running p)
    (follows_skipQueuedTasks _ _)

theorem follows_cancelledPlan (p : Plan) (reason : String) :
    Edits Follows p (cancelledPlan p reason) :=
  followsTrans (p.follows_apply (.cancelRunning reason))
    (follows_foldl (fun q (t : Task) => q.follows_apply (.markSkipped t.id reason)) _ _)

end Moves

/-- Whatever the plan and whichever function writes it, the status of a task stays or moves along
    the table, from the normalized status where the function normalizes the plan; only a running
    task of a batch that is queued again goes back. A task that is over never changes its status. -/
theorem statuses_follow_the_table (w : StatusWriter) (run : PlannedRun) :
    Option.Rel (Edits w.Moves) run.plan (w.write sha run).plan := by
  have hplan : ∀ f : Plan → Plan, (∀ p, Edits w.Moves p (f p)) →
      Option.Rel (Edits w.Moves) run.plan (run.plan.map f) := by
    intro f hf
    cases run.plan with
    | none => exact .none
    | some p => exact .some (hf p)
  cases w with
  | state op => exact hplan _ fun p => edits_moves (p.follows_apply op) fun _ => rfl
  | applyBatchResults results =>
    rw [StatusWriter.write, PlanLoop.applyBatchResults_plan]
    exact hplan _ fun p => edits_moves_normalized
      (follows_normalizeExecution (follows_applyResults _ results)) fun _ => rfl
  | failRunningPlanTasks err =>
    exact hplan _ fun p => edits_moves_normalized (follows_failedPlan _ err) fun _ => rfl
  | cancelPlanTasks reason =>
    refine hplan _ fun p => edits_moves_normalized ?_ fun _ => rfl
    dsimp only
    split_ifs
    · exact Edits.refl Follows.refl _
    · exact follows_cancelledPlan _ reason
  | requeueBatchTasksForRetry ids =>
    have hwrite : (StatusWriter.write sha run (.requeueBatchTasksForRetry ids)).plan =
        run.plan.map fun p => requeueTasks p ids := by
      rw [StatusWriter.write, requeueBatchTasksForRetry]
      cases hrun : run.plan with
      | none => exact hrun
      | some p => rfl
    rw [hwrite]
    refine hplan _ fun p => (p.requeueTasks_edits ids).mono ?_
    rintro t u ⟨hid, -, hsame | ⟨hmem, hrun, hq⟩⟩
    · exact ⟨hid, .inl (by rw [hsame]; exact .refl), fun _ => hsame⟩
    · refine ⟨hid, .inr ⟨hmem, hrun, hq⟩, fun hterm => ?_⟩
      rw [hrun] at hterm
      cases hterm

/-- A run with a plan. -/
def runWith (plan : Plan) : PlannedRun :=
  { id := "run-1", sessionID := "sess-1", plan := some plan }

/-- No status leads to `queued` in the table. But a batch that met a conflict on the session queues
    its running task again, and a task without a status is queued when the plan is normalized. -/
theorem requeued_task_goes_back :
    (∀ s, ReflTransGen Allowed s .queued → s = .queued) ∧
      [requeueBatchTasksForRetry (runWith { tasks := [{ id := "a", status := .running }] }) ["a"],
        applyBatchResults id (runWith { tasks := [{ id := "a", status := .unset }] }) []].map
          (fun run => run.plan.map fun p => p.tasks.map Task.status) =
        [some [.queued], some [.queued]] := by
  refine ⟨fun s h => ?_, by decide +kernel⟩
  obtain h | ⟨v, -, hv⟩ := h.cases_tail
  · exact h.symm
  · cases v <;> cases hv

/-! ## Reaching a failed task -/

namespace Planner.Plan

variable {p q b : Plan} {W : String → Prop} {t u d : Task} {id : String}

/-- The queued task depends on the other one. A blank id names no task. -/
structure Awaits (p : Plan) (t d : Task) : Prop where
  mem : t ∈ p.tasks
  queued : t.status = .queued
  dep : d ∈ p.tasks
  named : d.id ∈ t.dependsOn
  nonblank : trimSpace d.id ≠ ""

/-- A task with one of the ids is reached along dependencies, through queued tasks only. -/
inductive Reaches (p : Plan) (W : String → Prop) : Task → Prop
  | direct {t d : Task} (h : p.Awaits t d) (hit : W d.id) : Reaches p W t
  | through {t d : Task} (h : p.Awaits t d) (further : Reaches p W d) : Reaches p W t

/-- A task with this id has failed or was skipped. -/
def Broken (p : Plan) (id : String) : Prop :=
  ∃ d ∈ p.tasks, d.id = id ∧ (d.status = .failed ∨ d.status = .skipped)

abbrev Distinct (p : Plan) : Prop :=
  (p.tasks.map Task.id).Nodup

/-- No queued task has a failed or skipped dependency. -/
def Settled (p : Plan) : Prop :=
  ∀ t ∈ p.tasks, t.status = .queued → ∀ dep ∈ t.dependsOn, p.brokenDep dep = false

theorem Reaches.queued (h : p.Reaches W t) : t.status = .queued := by
  cases h with
  | direct h => exact h.queued
  | through h => exact h.queued

theorem Reaches.congr (hmem : ∀ t, t ∈ p.tasks → t ∈ q.tasks) (h : p.Reaches p.Broken t) :
    q.Reaches q.Broken t := by
  have hawaits : ∀ {t d}, p.Awaits t d → q.Awaits t d := fun h =>
    ⟨hmem _ h.mem, h.queued, hmem _ h.dep, h.named, h.nonblank⟩
  induction h with
  | direct h hit =>
    obtain ⟨d, hd, hbroken⟩ := hit
    exact .direct (hawaits h) ⟨d, hmem d hd, hbroken⟩
  | through h _ ih => exact .through (hawaits h) ih

theorem brokenDep_iff (h : p.Distinct) {dep : String} :
    p.brokenDep dep = true ↔ trimSpace dep ≠ "" ∧ p.Broken dep := by
  unfold brokenDep
  cases hfind : p.findTask dep with
  | none =>
    refine ⟨nofun, ?_⟩
    rintro ⟨hne, d, hd, rfl, -⟩
    rw [findTask_of_mem h hd hne] at hfind
    cases hfind
  | some d =>
    obtain ⟨hd, rfl⟩ := mem_of_findTask hfind
    have hne : trimSpace d.id ≠ "" := fun hblank => by
      rw [findTask, if_pos hblank] at hfind
      cases hfind
    simp only [Bool.or_eq_true, decide_eq_true_eq]
    refine ⟨fun hb => ⟨hne, d, hd, rfl, hb⟩, ?_⟩
    rintro ⟨-, e, he, hid, hb⟩
    exact inj_on_of_nodup_map h he hd hid ▸ hb

/-- Where no queued task reaches a broken one there is nothing to carry on. -/
theorem settled_of_not_reaches (hids : p.Distinct)
    (h : ∀ t, ¬ p.Reaches p.Broken t) : p.Settled := by
  intro t ht hq dep hdep
  by_contra hbroken
  obtain ⟨hne, d, hd, rfl, hb⟩ := (brokenDep_iff hids).mp (by simpa using hbroken)
  exact h t (.direct ⟨ht, hq, hd, hdep, hne⟩ ⟨d, hd, rfl, hb⟩)

/-! ## The propagation, forwards and backwards -/

/-- The task has come from `t` of `b`: a queued task is left queued or skipped, and one that is
    broken has an id of `W` or reaches one. -/
structure Justified (b : Plan) (W : String → Prop) (t u : Task) : Prop where
  mem : t ∈ b.tasks
  id : u.id = t.id
  deps : u.dependsOn = t.dependsOn
  waits : t.status = .queued → u.status = .queued ∨ u.status = .skipped
  queued : u.status = .queued → t.status = .queued
  reason : u.status = .failed ∨ u.status = .skipped → W t.id ∨ b.Reaches W t

theorem Edits.distinct {R : Task → Task → Prop} (h : Edits R p q) (hids : p.Distinct)
    (hR : ∀ t u, R t u → u.id = t.id) : q.Distinct := by
  rwa [Distinct, h.ids hR]

section

variable (h : Edits (Justified b W) b q) (hids : b.Distinct)
include h hids

theorem justified_skipDependentsOf (id : String) :
    Edits (Justified b W) b (q.skipDependentsOf id) := by
  refine skipDependentsOf_inv (fun q i h => ?_) h id
  refine Edits.trans (fun t u v htu huv => ?_) h (q.skipAt_edits i).1
  obtain rfl | ⟨hq, ⟨dep, hdep, hbroken⟩, e, rfl⟩ := huv
  · exact htu
  · refine ⟨htu.mem, htu.id, htu.deps, fun _ => .inr rfl, nofun, fun _ => .inr ?_⟩
    -- the dependency that is broken now comes from a task of `b` with a reason to be
    obtain ⟨hne, d', hd', rfl, hd'broken⟩ :=
      (brokenDep_iff (h.distinct hids fun _ _ htu => htu.id)).mp hbroken
    obtain ⟨d, -, hd⟩ := h.of_mem hd'
    have hawaits : b.Awaits t d :=
      ⟨htu.mem, htu.queued hq, hd.mem, hd.id ▸ htu.deps ▸ hdep, hd.id ▸ hne⟩
    obtain hW | hreach := hd.reason hd'broken
    · exact .direct hawaits hW
    · exact .through hawaits hreach

/-- The counterpart of a task. -/
theorem Edits.justified (ht : t ∈ b.tasks) (hu : u ∈ q.tasks) (hid : u.id = t.id) :
    Justified b W t u := by
  obtain ⟨t', ht', hj⟩ := h.of_mem hu
  exact inj_on_of_nodup_map hids ht' ht (hj.id.symm.trans hid) ▸ hj

/-- Where the propagation is complete, exactly those queued tasks are left queued from which no task
    with an id of `W` is reached, if these are the tasks that are broken for another reason. -/
theorem Settled.queued_iff (hq : q.Settled)
    (hW : ∀ u ∈ q.tasks, W u.id → u.status = .failed ∨ u.status = .skipped)
    (hother : ∀ t ∈ b.tasks, t.status = .queued → ∀ u ∈ q.tasks, u.id = t.id →
      u.status = .skipped → ¬ W t.id)
    (ht : t ∈ b.tasks) (hqueued : t.status = .queued) (hu : u ∈ q.tasks) (hid : u.id = t.id) :
    u.status = .queued ↔ ¬ b.Reaches W t := by
  have key : ∀ {t d}, b.Awaits t d →
      (∀ d' ∈ q.tasks, d'.id = d.id → d'.status = .failed ∨ d'.status = .skipped) →
      ∀ u ∈ q.tasks, u.id = t.id → u.status ≠ .queued := by
    intro t d hawaits hbroken u hu hid hqueued
    obtain ⟨d', hd', hj⟩ := h.to_mem hawaits.dep
    have hdep := hq u hu hqueued d.id
      ((h.justified hids hawaits.mem hu hid).deps ▸ hawaits.named)
    rw [(brokenDep_iff (h.distinct hids fun _ _ htu => htu.id)).mpr
      ⟨hawaits.nonblank, d', hd', hj.id, hbroken d' hd' hj.id⟩] at hdep
    cases hdep
  have hnot : ∀ {t}, b.Reaches W t → ∀ u ∈ q.tasks, u.id = t.id → u.status ≠ .queued := by
    intro t hreach
    induction hreach with
    | direct hawaits hit => exact key hawaits fun d' hd' hid => hW d' hd' (hid ▸ hit)
    | through hawaits further ih =>
      refine key hawaits fun d' hd' hid => .inr ?_
      exact ((h.justified hids hawaits.dep hd' hid).waits further.queued).resolve_left
        (ih d' hd' hid)
  refine ⟨fun hq' hreach => hnot hreach u hu hid hq', fun hreach => ?_⟩
  have hj := h.justified hids ht hu hid
  refine (hj.waits hqueued).resolve_right fun hskip => ?_
  obtain hW' | hreach' := hj.reason (.inr hskip)
  · exact hother t ht hqueued u hu hid hskip hW'
  · exact hreach hreach'

end

/-! ## `SkipDependentsOf` -/

/-- More rounds than tasks change nothing: the loop has come to its end. -/
theorem skipLoop_stable (fuel k : ℕ) (h : p.queuedCount < fuel) :
    skipLoop (fuel + k) p = skipLoop fuel p := by
  induction fuel generalizing p with
  | zero => omega
  | succ fuel ih =>
    rw [Nat.succ_add, skipLoop, skipLoop]
    split_ifs with hchanged
    · exact ih (by have := p.skipPass_spec.2 hchanged; omega)
    · rfl

/-- What the propagation does to a task. -/
def SkippedIfReached (p : Plan) (t u : Task) : Prop :=
  p.Reaches p.Broken t ∧ (∃ e, u = { t with status := .skipped, error := e }) ∨
    ¬ p.Reaches p.Broken t ∧ u = t

theorem skipDependentsOf_edits (hids : p.Distinct) (id : String) :
    Edits (SkippedIfReached p) p (p.skipDependentsOf id) := by
  have hskips := (p.skipDependentsOf_skipsTo id).edits
  have hjust : Edits (Justified p p.Broken) p (p.skipDependentsOf id) := by
    refine justified_skipDependentsOf (edits_map (f := fun t => t) (by simp) fun t ht => ?_) hids id
    exact ⟨ht, rfl, rfl, .inl, fun h => h, fun h => .inl ⟨t, ht, rfl, h⟩⟩
  have hunique : ∀ {t}, t ∈ p.tasks → p.Broken t.id → t.status = .failed ∨ t.status = .skipped := by
    rintro t ht ⟨d, hd, hid, hb⟩
    exact inj_on_of_nodup_map hids hd ht hid ▸ hb
  have hqueued := fun t ht hq u hu hid => Settled.queued_iff (t := t) (u := u)
    hjust hids (p.skipDependentsOf_complete id) (fun u hu hW => ?_)
    (fun t ht hq _ _ _ _ hW => by obtain h | h := hunique ht hW <;> rw [hq] at h <;> cases h)
    ht hq hu hid
  · refine (hskips.and hjust).mem.mono fun t u ⟨ht, hu, hskip, hj⟩ => ?_
    by_cases hreach : p.Reaches p.Broken t
    · have hne := mt (hqueued t ht hreach.queued u hu hj.id).mp (not_not.mpr hreach)
      obtain rfl | ⟨-, e, rfl⟩ := hskip
      · exact absurd hreach.queued hne
      · exact .inl ⟨hreach, e, rfl⟩
    · obtain rfl | ⟨hq, e, rfl⟩ := hskip
      · exact .inr ⟨hreach, rfl⟩
      · cases (hqueued t ht hq _ hu hj.id).mpr hreach
  · obtain ⟨t, ht, hskip⟩ := hskips.of_mem hu
    obtain rfl | ⟨-, e, rfl⟩ := hskip
    · exact hunique ht hW
    · exact .inr rfl

end Planner.Plan

/-- In a plan with distinct ids `SkipDependentsOf` comes to its end and skips exactly the queued
    tasks from which a failed or skipped one is reached through queued tasks; the others stay as they
    are, and the statuses do not depend on the order of the tasks. -/
theorem skipped_iff_reached (p : Plan) (hids : (p.tasks.map Task.id).Nodup) (failedID : String) :
    (∀ k, skipLoop (p.tasks.length + 1 + k) p = p.skipDependentsOf failedID) ∧
      Edits (SkippedIfReached p) p (p.skipDependentsOf failedID) ∧
      ∀ (q : Plan) (otherID : String), q.tasks.Perm p.tasks →
        ∀ t ∈ (p.skipDependentsOf failedID).tasks, ∀ u ∈ (q.skipDependentsOf otherID).tasks,
          u.id = t.id → u.status = t.status := by
  have hedits := skipDependentsOf_edits hids failedID
  refine ⟨fun k => skipLoop_stable _ k (Nat.lt_succ_of_le countP_le_length), hedits, ?_⟩
  intro q otherID hperm t ht u hu hid
  have hedits' := skipDependentsOf_edits ((hperm.map Task.id).nodup_iff.mpr hids) otherID
  have hid_eq : ∀ {r : Plan} {t u : Task}, SkippedIfReached r t u → u.id = t.id := by
    rintro r t u (⟨-, e, rfl⟩ | ⟨-, rfl⟩) <;> rfl
  obtain ⟨t₀, ht0, htt⟩ := hedits.of_mem ht
  obtain ⟨u₀, hu0, huu⟩ := hedits'.of_mem hu
  obtain rfl : u₀ = t₀ := inj_on_of_nodup_map hids (hperm.mem_iff.mp hu0) ht0
    ((hid_eq huu).symm.trans (hid.trans (hid_eq htt)))
  -- which tasks are reached is a matter of the tasks as a set
  have hreach : q.Reaches q.Broken u₀ ↔ p.Reaches p.Broken u₀ :=
    ⟨.congr fun _ => hperm.mem_iff.mp, .congr fun _ => hperm.mem_iff.mpr⟩
  obtain ⟨hr, e, rfl⟩ | ⟨hr, rfl⟩ := htt
  · obtain ⟨-, e', rfl⟩ | ⟨hr', -⟩ := huu
    · rfl
    · exact absurd (hreach.mpr hr) hr'
  · obtain ⟨hr', -⟩ | ⟨-, rfl⟩ := huu
    · exact absurd (hreach.mp hr') hr
    · rfl

/-- A failed task, one that waits for it, and one that waits for both. -/
def failedFirst : Plan :=
  { tasks := [{ id := "x", status := .failed }, { id := "a", status := .queued, dependsOn := ["x"] },
      { id := "t", status := .queued, dependsOn := ["a", "x"] }] }

/-- The tasks behind the failed one are skipped whatever the order. -/
theorem dependents_are_skipped :
    (failedFirst.skipDependentsOf "x").tasks.map Task.status = [.failed, .skipped, .skipped] ∧
    ∀ t ∈ (failedFirst.skipDependentsOf "x").tasks,
      ∀ u ∈ (Plan.skipDependentsOf { tasks := failedFirst.tasks.reverse } "x").tasks,
        u.id = t.id → u.status = t.status :=
  ⟨by decide +kernel, (skipped_iff_reached failedFirst (by decide) "x").2.2
    { tasks := failedFirst.tasks.reverse } "x" (reverse_perm _)⟩

/-- A blank id names no task: a queued task that waits for the failed task with the empty id stays
    queued. The error text a task is skipped with depends on the order of the tasks. -/
theorem blank_dependency_is_not_followed :
    (Plan.skipDependentsOf { tasks := [{ id := "", status := .failed },
        { id := "t", status := .queued, dependsOn := [""] }] } "").tasks.map Task.status =
      [.failed, .queued] ∧
    ((failedFirst.skipDependentsOf "x").tasks.find? fun t => t.id = "t").map Task.error =
      some "dependency a failed" ∧
    ((Plan.skipDependentsOf { tasks := failedFirst.tasks.reverse } "x").tasks.find?
      fun t => t.id = "t").map Task.error = some "dependency x failed" := by
  decide +kernel

/-! ## The results of a batch -/

namespace Planner.Plan

variable {p q b : Plan} {W : String → Prop}

/-- Tasks keep their status, or were running and are completed now, or failed with an id of `W`. -/
def Finishes (W : String → Prop) (t u : Task) : Prop :=
  u.id = t.id ∧ u.dependsOn = t.dependsOn ∧ (u.status = t.status ∨
    t.status = .running ∧ (u.status = .completed ∨ u.status = .failed ∧ W u.id))

theorem justified_finishes (h : Edits (Justified b W) b p) (hpq : Edits (Finishes W) p q) :
    Edits (Justified b W) b q := by
  refine Edits.trans (fun t u v htu huv => ?_) h hpq
  obtain ⟨hid, hdeps, hsame | ⟨hrun, hend⟩⟩ := huv
  · refine ⟨htu.mem, hid.trans htu.id, hdeps.trans htu.deps, ?_, ?_, ?_⟩ <;> rw [hsame]
    exacts [htu.waits, htu.queued, htu.reason]
  · refine ⟨htu.mem, hid.trans htu.id, hdeps.trans htu.deps, fun hq => ?_, fun hq => ?_, fun hv => ?_⟩
    · obtain h | h := htu.waits hq <;> rw [hrun] at h <;> cases h
    · obtain h | ⟨h, -⟩ := hend <;> rw [hq] at h <;> cases h
    · obtain h | ⟨-, hW⟩ := hend
      · rw [h] at hv
        obtain hv | hv := hv <;> cases hv
      · exact .inl (htu.id ▸ hid ▸ hW)

/-- Where no task fails, a settled plan stays settled. -/
theorem Settled.finishes (h : p.Settled) (hids : p.Distinct)
    (hpq : Edits (Finishes fun _ => False) p q) : q.Settled := by
  have hids' : q.Distinct := hpq.distinct hids fun _ _ htu => htu.1
  have hsame : ∀ {t u}, Finishes (fun _ => False) t u → u.status ≠ .completed →
      u.status = t.status := fun htu hne => htu.2.2.resolve_right fun ⟨_, h⟩ =>
    h.elim hne And.right
  intro u hu hq dep hdep
  obtain ⟨t, ht, htu⟩ := hpq.of_mem hu
  have hdep' := h t ht (hsame htu (by rw [hq]; simp) ▸ hq) dep (htu.2.1 ▸ hdep)
  rw [← Bool.not_eq_true, brokenDep_iff hids] at hdep'
  rw [← Bool.not_eq_true, brokenDep_iff hids']
  rintro ⟨hne, d, hd, hid, hb⟩
  obtain ⟨e, he, hed⟩ := hpq.of_mem hd
  have hstatus := hsame hed (by obtain hb | hb := hb <;> rw [hb] <;> simp)
  exact hdep' ⟨hne, e, he, hed.1.symm.trans hid, hstatus ▸ hb⟩

theorem finishes_markCompleted (p : Plan) (id summary : String) :
    Edits (Finishes W) p (p.markCompleted id summary) := by
  refine (p.markCompleted_edits id summary).mono ?_
  rintro t u ⟨hid, hstated, hstatus⟩
  exact ⟨hid, dependsOn_of_stated hstated, hstatus.imp_right fun h => ⟨h.2.1, .inl h.2.2⟩⟩

theorem finishes_markFailed (p : Plan) (id errMsg : String)
    (hW : ∀ u ∈ (p.markFailed id errMsg).tasks, u.status = .failed → W u.id) :
    Edits (Finishes W) p (p.markFailed id errMsg) := by
  refine (p.markFailed_edits id errMsg).mem.mono ?_
  rintro t u ⟨-, hu, hid, hstated, hstatus⟩
  refine ⟨hid, dependsOn_of_stated hstated, hstatus.imp_right fun h => ⟨h.2.1, .inr ⟨h.2.2, ?_⟩⟩⟩
  exact hW u hu h.2.2

/-- A task that is over is found again with its status. -/
theorem Edits.over (h : Edits Follows p q) {t : Task} (ht : t ∈ p.tasks)
    (hterm : t.status.terminal = true) : ∃ u ∈ q.tasks, u.id = t.id ∧ u.status = t.status := by
  obtain ⟨u, hu, htu⟩ := h.to_mem ht
  exact ⟨u, hu, htu.1, terminal_stays htu.2.2 hterm⟩

/-- What the results of a batch do, from a plan `b` on: the tasks that failed in the end are in
    `W`. -/
theorem justified_foldl_applyResult (hids : b.Distinct)
    (results : List TaskExecutionResult) (h : Edits (Justified b W) b p)
    (hW : ∀ u ∈ (results.foldl applyResult p).tasks, u.status = .failed → W u.id) :
    Edits (Justified b W) b (results.foldl applyResult p) := by
  -- a task that fails stays failed to the end
  have hstays : ∀ {p q : Plan}, Edits Follows p q → (∀ u ∈ q.tasks, u.status = .failed → W u.id) →
      ∀ t ∈ p.tasks, t.status = .failed → W t.id := by
    intro p q hpq hW t ht hfail
    obtain ⟨u, hu, hid, hstatus⟩ := hpq.over ht (by rw [hfail]; rfl)
    exact hid ▸ hW u hu (hstatus.trans hfail)
  induction results generalizing p with
  | nil => exact h
  | cons r results ih =>
    refine ih ?_ hW
    have hW' := hstays (follows_foldl_applyResult (applyResult p r) results) hW
    unfold applyResult at hW' ⊢
    split at hW'
    · exact justified_finishes h (p.finishes_markCompleted r.taskID r.summary)
    · exact justified_skipDependentsOf (justified_finishes h (p.finishes_markFailed r.taskID r.error
        (hstays (follows_apply _ (.skipDependentsOf r.taskID)) hW'))) hids _
    · exact h

/-- A failure settles the plan, and the other results keep it settled. -/
theorem settled_foldl_applyResult (hids : p.Distinct)
    (results : List TaskExecutionResult)
    (h : p.Settled ∨ ∃ r ∈ results, r.status = .failed) : (results.foldl applyResult p).Settled := by
  induction results generalizing p with
  | nil => simpa using h
  | cons r results ih =>
    refine ih ((follows_foldl_applyResult p [r]).distinct hids fun _ _ htu => htu.1) ?_
    by_cases hfail : r.status = .failed
    · left
      unfold applyResult
      rw [hfail]
      exact skipDependentsOf_complete _ r.taskID
    · refine h.imp (fun h => ?_) (by simp [hfail])
      unfold applyResult
      split
      · exact h.finishes hids (p.finishes_markCompleted r.taskID r.summary)
      · contradiction
      · exact h

/-- What the propagation starts from: the tasks that have failed after the batch, and those that
    were skipped before it. -/
def Origin (b q : Plan) (id : String) : Prop :=
  (∃ d ∈ q.tasks, d.id = id ∧ d.status = .failed) ∨ ∃ d ∈ b.tasks, d.id = id ∧ d.status = .skipped

/-- Under `continue_on_error` the tasks left queued are those from which no failure is reached. -/
theorem queued_after_results (hids : p.normalizeExecution.Distinct)
    (results : List TaskExecutionResult)
    (hcarried : (∃ r ∈ results, r.status = .failed) ∨
      ∀ t, ¬ p.normalizeExecution.Reaches p.normalizeExecution.Broken t) :
    let q := (results.foldl applyResult p.normalizeExecution).normalizeExecution
    ∀ t ∈ p.normalizeExecution.tasks, t.status = .queued → ∀ u ∈ q.tasks, u.id = t.id →
      (u.status = .queued ↔
        ¬ p.normalizeExecution.Reaches (Origin p.normalizeExecution q) t) := by
  intro q t ht hq u hu hid
  have happlied := p.normalizeExecution.follows_foldl_applyResult results
  have hfollows : Edits Follows p.normalizeExecution q := follows_normalizeExecution happlied
  have hfinish : ∀ {W}, Edits (Finishes W) (results.foldl applyResult p.normalizeExecution) q :=
    edits_map rfl fun t ht => ⟨rfl, rfl, .inl (normal_of_follows happlied t ht)⟩
  have hids' : q.Distinct := hfollows.distinct hids fun _ _ htu => htu.1
  have hsettled : q.Settled := Settled.finishes (settled_foldl_applyResult hids results
    (hcarried.symm.imp_left (settled_of_not_reaches hids)))
    (happlied.distinct hids fun _ _ htu => htu.1) hfinish
  have hfailed : ∀ {r : Plan}, Edits Follows r q → ∀ t ∈ r.tasks, t.status = .failed →
      Origin p.normalizeExecution q t.id := by
    intro r hr t ht hfail
    obtain ⟨v, hv, hid, hstatus⟩ := hr.over ht (by rw [hfail]; rfl)
    exact .inl ⟨v, hv, hid, hstatus.trans hfail⟩
  have hjust : Edits (Justified p.normalizeExecution (Origin p.normalizeExecution q))
      p.normalizeExecution q := by
    refine justified_finishes (justified_foldl_applyResult hids results
      (edits_map (f := fun t => t) (by simp) fun t ht => ?_) (hfailed ?_)) hfinish
    · exact ⟨ht, rfl, rfl, .inl, fun h => h, fun hb => .inl
        (hb.elim (hfailed hfollows t ht) fun hskip => .inr ⟨t, ht, rfl, hskip⟩)⟩
    · exact edits_map rfl fun u hu => ⟨rfl, rfl, by rw [normal_of_follows happlied u hu]⟩
  refine hsettled.queued_iff hjust hids (fun v hv hW => ?_) (fun s hs hsq v hv hid hskip hW => ?_)
    ht hq hu hid
  · obtain ⟨d, hd, hid, hfail⟩ | ⟨d, hd, hid, hskip⟩ := hW
    · exact .inl (inj_on_of_nodup_map hids' hd hv hid ▸ hfail)
    · obtain ⟨w, hw, hwid, hstatus⟩ := hfollows.over hd (by rw [hskip]; rfl)
      exact .inr (inj_on_of_nodup_map hids' hw hv (hwid.trans hid) ▸ hstatus.trans hskip)
  · obtain ⟨d, hd, hid', hfail⟩ | ⟨d, hd, hid', hskip'⟩ := hW
    · rw [inj_on_of_nodup_map hids' hd hv (hid'.trans hid.symm), hskip] at hfail
      cases hfail
    · rw [inj_on_of_nodup_map hids hd hs hid', hsq] at hskip'
      cases hskip'

end Planner.Plan

/-! ## The graph after a batch -/

section Graph

variable {p : Plan} {g : ExecutionGraph} {run : PlannedRun}

/-- The graph lists the tasks of the plan with their statuses. -/
def Reports (p : Plan) (g : ExecutionGraph) : Prop :=
  g.tasks.map (fun e => (e.id, e.status)) = p.tasks.map fun t => (t.id, t.status)

theorem Reports.setTask (h : Reports p g) (hids : p.Distinct) {t : Task}
    (ht : t ∈ p.tasks) : Reports p (g.setTask t.id (syncedTask t)) := by
  unfold ExecutionGraph.setTask
  split_ifs
  · exact h
  cases hfind : g.tasks.findIdx? fun e => e.id = t.id with
  | none => exact h
  | some i =>
    refine Eq.trans (map_modify_eq fun e he => ?_) h
    obtain ⟨hi, hid, -⟩ := List.findIdx?_eq_some_iff_getElem.mp hfind
    obtain rfl := Option.some.inj ((List.getElem?_eq_getElem hi).symm.trans he)
    -- the entry is the one of the task itself
    have hmem := h ▸ mem_map_of_mem (getElem_mem hi)
    obtain ⟨u, hu, hpair⟩ := mem_map.mp hmem
    rw [Prod.mk.injEq] at hpair
    obtain rfl := inj_on_of_nodup_map hids hu ht (hpair.1.trans (by simpa using hid))
    have hsynced : ∀ e, ((syncedTask u e).id, (syncedTask u e).status) = (e.id, u.status) := by
      intro e
      unfold syncedTask
      split_ifs <;> rfl
    rw [hsynced, hpair.2]

theorem reports_buildExecutionGraph (hp : Addressed p) (hset : ∀ t ∈ p.tasks, t.status ≠ .unset)
    (run : PlannedRun) (existing : Option ExecutionGraph) :
    Reports p (buildExecutionGraph sha run p existing) := by
  show List.map _ (List.map _ _) = _
  rw [List.map_map]
  refine List.map_congr_left fun t ht => ?_
  have hderived : ((executionTaskFromPlanTask sha run t).id,
      (executionTaskFromPlanTask sha run t).status) = (t.id, t.status) := by
    simp only [executionTaskFromPlanTask, normalizeExecutionTask, hp.trimmed t ht, if_neg (hset t ht)]
  simp only [Function.comp_apply, buildExecutionTask]
  split <;> exact hderived

end Graph

/-- After the results of a batch the graph lists the tasks of the plan with their statuses. Under
    `fail_fast` a failure leaves every task over; under `continue_on_error`, if there is a failure or
    none is to be carried on, the tasks left queued are those from which none is reached. -/
theorem batch_results_applied (run : PlannedRun) (p : Plan) (hplan : run.plan = some p)
    (hp : Addressed p) (results : List TaskExecutionResult) :
    ∃ q g, (applyBatchResults sha run results).plan = some q ∧
      (applyBatchResults sha run results).executionGraph = some g ∧ Reports q g ∧
      (p.failurePolicy = .failFast → (∃ r ∈ results, r.status = .failed) →
        ∀ u ∈ q.tasks, u.status.terminal = true) ∧
      (p.failurePolicy = .continueOnError →
        (∃ r ∈ results, r.status = .failed) ∨
          (∀ t, ¬ p.normalizeExecution.Reaches p.normalizeExecution.Broken t) →
        ∀ t ∈ p.normalizeExecution.tasks, t.status = .queued → ∀ u ∈ q.tasks, u.id = t.id →
          (u.status = .queued ↔
            ¬ p.normalizeExecution.Reaches (Origin p.normalizeExecution q) t)) := by
  have hp' := hp.restated (restated_normalizeExecution p)
  have hfollows := p.normalizeExecution.follows_applyResults results
  set q := (applyResults p.normalizeExecution results).normalizeExecution with hq
  have hrestated : Restated p.normalizeExecution q :=
    (follows_normalizeExecution hfollows).mono fun _ _ htu => htu.2.1
  have hset : ∀ u ∈ q.tasks, u.status ≠ .unset := by
    intro u hu hunset
    have hnormal := normal_of_follows (follows_normalizeExecution hfollows) u hu
    rw [hunset] at hnormal
    cases hnormal
  have hrun : (applyBatchResults sha run results).plan = some q := by
    rw [PlanLoop.applyBatchResults_plan, hplan]
    rfl
  have hgraph : ∃ run' existing, (applyBatchResults sha run results).executionGraph = some
      (q.tasks.foldl (fun g t => g.setTask t.id (syncedTask t))
        (buildExecutionGraph sha run' q existing)) := by
    simp only [applyBatchResults, ensureExecutionGraph, hplan]
    exact ⟨_, _, rfl⟩
  obtain ⟨run', existing, hgraph⟩ := hgraph
  refine ⟨q, _, hrun, hgraph, ?_, fun hpolicy hfail u hu => ?_, fun hpolicy hcarried => ?_⟩
  · have hbuilt := reports_buildExecutionGraph sha (hp'.restated hrestated) hset run' existing
    refine List.foldlRecOn _ _ hbuilt fun g hg t ht => ?_
    exact hg.setTask (hp'.restated hrestated).named.distinct ht
  · have happlied := p.normalizeExecution.follows_foldl_applyResult results
    have habort : q =
        (abortPlan (results.foldl applyResult p.normalizeExecution)).normalizeExecution := by
      rw [hq, applyResults]
      simp [show p.normalizeExecution.failurePolicy = .failFast from hpolicy, hfail]
    rw [habort] at hu
    obtain ⟨t, ht, -, -, hstatus⟩ := (abortPlan _).normalizeExecution_edits.of_mem hu
    have hterm := abortPlan_terminal (happlied.named (fun _ _ htu => htu.1) hp'.named)
      (normal_of_follows happlied) t ht
    rw [hstatus]
    cases hs : t.status <;> rw [hs] at hterm <;> first | rfl | cases hterm
  · have hcontinue : applyResults p.normalizeExecution results =
        results.foldl applyResult p.normalizeExecution := by
      rw [applyResults]
      simp [show p.normalizeExecution.failurePolicy = .continueOnError from hpolicy]
    rw [hq, hcontinue]
    exact queued_after_results hp'.named.distinct results hcarried

/-- An accepted plan in which a queued task waits for another. -/
def waitingFor (status : TaskStatus) : Plan :=
  { goal := "g", strategy := .mixed, failurePolicy := .continueOnError, finalTask := "t"
    tasks := [{ id := "x", kind := .research, goal := "g", status },
      { id := "t", kind := .research, goal := "g", status := .queued, dependsOn := ["x"] }] }

/-- A batch with a failure carries it on: the task is skipped, since the failed one is reached from
    it, and the graph reports both. -/
theorem failure_carried_on :
    ∃ q g, (applyBatchResults id (runWith (waitingFor .running))
        [{ taskID := "x", status := .failed }]).plan = some q ∧
      (applyBatchResults id (runWith (waitingFor .running))
        [{ taskID := "x", status := .failed }]).executionGraph = some g ∧ Reports q g ∧
      q.tasks.map Task.status = [.failed, .skipped] ∧
      ∀ t ∈ (waitingFor .running).normalizeExecution.tasks, t.id = "t" →
        (waitingFor .running).normalizeExecution.Reaches
          (Origin (waitingFor .running).normalizeExecution q) t := by
  obtain ⟨q, g, hq, hg, hreports, -, hcarried⟩ := batch_results_applied id
    (runWith (waitingFor .running)) (waitingFor .running) rfl
    ⟨⟨by decide, by decide +kernel⟩, by decide +kernel⟩ [{ taskID := "x", status := .failed }]
  have hstatuses : q.tasks.map (fun u => (u.id, u.status)) = [("x", .failed), ("t", .skipped)] := by
    have heval : (applyBatchResults id (runWith (waitingFor .running))
        [{ taskID := "x", status := .failed }]).plan.map
          (fun q => q.tasks.map fun u => (u.id, u.status)) =
        some [("x", .failed), ("t", .skipped)] := by decide +kernel
    rw [hq] at heval
    exact Option.some.inj heval
  refine ⟨q, g, hq, hg, hreports, ?_, fun t ht hid => ?_⟩
  · have hsnd := congrArg (List.map Prod.snd) hstatuses
    rwa [List.map_map] at hsnd
  · have hmem : ("t", TaskStatus.skipped) ∈ q.tasks.map fun u => (u.id, u.status) := by
      simp [hstatuses]
    obtain ⟨u, hu, hpair⟩ := mem_map.mp hmem
    obtain ⟨huid, hskip⟩ := Prod.mk.inj hpair
    have hqueued : ∀ t ∈ (waitingFor .running).normalizeExecution.tasks, t.id = "t" →
        t.status = .queued := by decide +kernel
    by_contra hnot
    have hleft := (hcarried rfl (.inl ⟨_, mem_singleton_self _, rfl⟩) t ht (hqueued t ht hid) u hu
      (huid.trans hid.symm)).mpr hnot
    rw [hskip] at hleft
    cases hleft

/-- A batch without a failure leaves the task queued, although the plan under `continue_on_error`
    has a failed task it waits for. -/
theorem earlier_failure_not_carried_on :
    (validate (waitingFor .failed)).toOption = some (waitingFor .failed) ∧
      (applyBatchResults id (runWith (waitingFor .failed)) []).plan.map
        (fun q => q.tasks.map Task.status) = some [.failed, .queued] := by
  decide +kernel

end Hopclaw
