import Hopclaw.Agent.Planning
import Hopclaw.Proofs.PlanProgress

/-! # Which plans get stuck

A queued task that cannot be completed is never ready, so a loop in which every batch succeeds
works off the tasks that can be completed and then stands before the others. With the invariant of
`PlanProgress` this decides for every accepted plan whether the loop can get stuck on it. -/

namespace Hopclaw.Planner.Plan

open GoStrings Interleaving List PlanLoop

variable {p p₀ q : Plan} {ids : List String} {t u : Task}

/-! ## A batch that succeeds -/

/-- The task keeps its status unless it is one of the batch and was not over. -/
def Worked (ids : List String) (t u : Task) : Prop :=
  Via (fun t _ => t.id ∈ ids ∧ t.status.terminal = false) t u

theorem Worked.kept (h : Worked ids t u) : Kept t u :=
  Via.kept (fun _ ha => ha.2) h

/-- A queued task is started. -/
def started (t : Task) : Task :=
  if t.status = .queued then { t with status := .running, error := "" } else t

/-- A running task is completed. -/
def completed (t : Task) : Task :=
  if t.status = .running then
    { t with status := .completed, error := "", resultSummary := trimSpace "" } else t

theorem Named.markRunning_tasks (hp : p.Named) (ids : List String) :
    (p.markRunning ids).tasks = p.tasks.map fun t => if t.id ∈ ids then started t else t := by
  have hloop := hp.foldl_editTask markOneRunning_tasks (fun _ => ⟨rfl, rfl⟩) ids
  simp only [decide_eq_true_eq] at hloop
  rw [markRunning_eq]
  split_ifs <;> exact hloop

/-- The results of a batch in which every task succeeds. -/
def allCompleted (ids : List String) : List TaskExecutionResult :=
  ids.map fun id => { taskID := id, status := .completed }

theorem Named.applyResults_allCompleted (hp : p.Named) (ids : List String) :
    (applyResults p (allCompleted ids)).tasks =
      p.tasks.map fun t => if t.id ∈ ids then completed t else t := by
  have hno : (allCompleted ids).any (fun r => r.status = .failed) = false := by
    rw [any_eq_false]
    intro r hr
    obtain ⟨id, -, rfl⟩ := List.mem_map.mp hr
    simp
  have hall : applyResults p (allCompleted ids) =
      ids.foldl (fun p id => p.markCompleted id "") p := by
    unfold applyResults
    rw [hno]
    simp only [Bool.false_and, allCompleted, foldl_map]
    rfl
  have hloop := hp.foldl_editTask (o := fun p id => p.markCompleted id "")
    (fun q id => markFinished_tasks q id _) (fun _ => ⟨rfl, rfl⟩) ids
  simp only [decide_eq_true_eq] at hloop
  rw [hall]
  exact hloop

/-- What becomes of a task when the batch succeeds. -/
def succeeded (ids : List String) (t : Task) : Task :=
  let u := normalized (if t.id ∈ ids then started t else t)
  normalized (if u.id ∈ ids then completed u else u)

theorem succeeded_spec (ids : List String) (hn : t.status.normalize = t.status) :
    Worked ids t (succeeded ids t) ∧
      (t.id ∈ ids → (succeeded ids t).status.terminal = true) := by
  by_cases hid : t.id ∈ ids
  · cases hs : t.status <;> rw [hs] at hn <;>
      simp_all [succeeded, Worked, Via, stated, normalized, started, completed,
        TaskStatus.normalize, TaskStatus.terminal]
  · simp [succeeded, Worked, Via, stated, normalized, hid, hn]

/-- A plan after a batch that succeeded. -/
structure Succeeded (ids : List String) (p p' : Plan) : Prop where
  worked : Edits (Worked ids) p p'
  neat : p'.Neat
  ended : ∀ u ∈ p'.tasks, u.id ∈ ids → u.status.terminal = true

theorem succeeded_of_batch {r : Plan} (hp : p.Named) (hn : p.Neat) (htasks : r.tasks = p.tasks)
    (ids : List String) : Succeeded ids p (applyResults (r.markRunning ids).normalizeExecution
      (allCompleted ids)).normalizeExecution := by
  have hr : r.Named := hp.congr (by rw [htasks])
  have hstarted := hr.markRunning_tasks ids
  have hnamed : (r.markRunning ids).normalizeExecution.Named :=
    (normalizeExecution_edits _).named (fun _ _ h => h.1)
      ((r.markRunning_edits ids).named (fun _ _ h => h.1) hr)
  have hall : (applyResults (r.markRunning ids).normalizeExecution
      (allCompleted ids)).normalizeExecution.tasks = p.tasks.map (succeeded ids) := by
    show map normalized _ = _
    rw [hnamed.applyResults_allCompleted]
    show map normalized (map _ (map normalized _)) = _
    rw [hstarted, htasks, map_map, map_map, map_map]
    rfl
  have hone := fun t ht => succeeded_spec ids (congrArg Task.status (hn t ht))
  refine ⟨edits_map hall fun t ht => (hone t ht).1, neat_normalizeExecution _, fun u hu hid => ?_⟩
  rw [hall] at hu
  obtain ⟨t, ht, rfl⟩ := List.mem_map.mp hu
  exact (hone t ht).2 ((hone t ht).1.1 ▸ hid)

/-! ## Working off what can be completed -/

/-- How many tasks are not over. -/
def openCount (p : Plan) : ℕ :=
  p.tasks.countP fun t => !t.status.terminal

theorem openCount_lt (h : Edits Kept p q) (ht : t ∈ p.tasks) (hopen : t.status.terminal = false)
    (hover : ∀ u ∈ q.tasks, u.id = t.id → u.status.terminal = true) :
    q.openCount < p.openCount := by
  obtain ⟨i, hi, rfl⟩ := getElem_of_mem ht
  have hi' : i < q.tasks.length := List.Forall₂.length_eq h ▸ hi
  have hend := hover _ (getElem_mem hi') (List.Forall₂.get h hi hi').1
  refine h.countP_lt (fun a b hab hb => ?_) (getElem?_eq_getElem hi)
    (getElem?_eq_getElem hi') (by simp [hopen]) (by simp [hend])
  by_contra ha
  rw [hab.2.2 (by simpa using ha)] at hb
  exact ha hb

/-- The loop has only worked on tasks that can be completed. -/
structure Pursues (p₀ p : Plan) : Prop where
  named : p.Named
  neat : p.Neat
  kept : Edits (fun t u => Kept t u ∧ (u.status = t.status ∨ Completable p₀ t)) p₀ p

/-- A task that is ready, or that the loop has started, can be completed. -/
theorem Pursues.completable (h : Pursues p₀ p) (hp0 : p₀.Named)
    (hrunning : ∀ t ∈ p₀.tasks, t.status = .running → Completable p₀ t)
    {t₀ : Task} (ht0 : t₀ ∈ p₀.tasks) (ht : t ∈ p.readyTasks ∨ t ∈ p.running)
    (hid : t.id = t₀.id) : Completable p₀ t₀ := by
  have hmem : t ∈ p.tasks := ht.elim (fun h' => (h.named.mem_readyTasks.mp h').1)
    fun h' => (mem_running.mp h').1
  obtain ⟨t₁, ht1, hkept, hmove⟩ := h.kept.of_mem hmem
  obtain rfl := hp0.eq_of_id ht1 ht0 (hkept.1.symm.trans hid)
  obtain hready | hrun := ht
  · obtain ⟨-, hq, hdone⟩ := h.named.mem_readyTasks.mp hready
    refine hmove.elim (fun hsame => ?_) fun hc => hc
    refine .intro t₁ ht0 (by rw [← hsame, hq]; rfl) fun d₀ hd0 hdep hnot => ?_
    rw [← dependsOn_of_stated hkept.2.1] at hdep
    obtain ⟨d, hd, hdid, hc⟩ := hdone _ hdep
    obtain ⟨d₁, hd1, hkept', hmove'⟩ := h.kept.of_mem hd
    obtain rfl := hp0.eq_of_id hd1 hd0 (hkept'.1.symm.trans hdid)
    exact hmove'.elim (fun hsame' => absurd (hsame' ▸ hc) hnot) fun hc => hc
  · exact hmove.elim (fun hsame => hrunning t₁ ht0 (hsame ▸ (mem_running.mp hrun).2)) fun hc => hc

end Hopclaw.Planner.Plan

namespace Hopclaw

open GoStrings Interleaving Planner Planner.Plan

variable (sha : String → String)

namespace PlanLoop

variable {l : PlanLoop} {p p₀ : Plan}

/-- A batch is dispatched and succeeds. -/
theorem round (hin : l.inFlight = []) (hplan : l.run.plan = some p) (hp : p.Named) (hn : p.Neat)
    (hopen : p.terminal = false) (hmoves : ¬ p.Stuck) :
    ∃ ids p', ids ≠ [] ∧ Succeeded ids p p' ∧
      (∀ id ∈ ids, ∃ t ∈ p.tasks, t.id = id ∧ (t ∈ p.readyTasks ∨ t ∈ p.running)) ∧
      (runAll (step sha) l [.dispatch, .results (allCompleted ids)]).inFlight = [] ∧
      (runAll (step sha) l [.dispatch, .results (allCompleted ids)]).run.plan =
        some p' := by
  set run : PlannedRun := { l.run with plan := some p.normalizeExecution }
  set next := nextBatch sha run p.normalizeExecution
  -- the plan from which the batch is started has the tasks of `p`
  obtain ⟨r, hr, hsame, hmem, hnil⟩ := nextBatch_spec sha run p rfl
  rw [hn.tasks_eq] at hsame
  rw [readyTasks_congr hsame, running, hsame] at hmem hnil
  have hterm : p.normalizeExecution.terminal = false := by rw [terminal, hn.tasks_eq]; exact hopen
  have hne : next.2 ≠ [] := fun h => hmoves ⟨hopen, hnil.mp h⟩
  have hrtasks : r.normalizeExecution.tasks = p.tasks := by
    rw [(hn.congr hsame).tasks_eq, hsame]
  have hdispatch : l.step sha .dispatch = ⟨beginBatch sha next.1 next.2, next.2⟩ := by
    rw [step, if_pos hin, dispatch, hplan]
    dsimp only
    rw [if_neg (by simp [hterm]), if_neg hne]
  refine ⟨next.2.map Task.id, _, by simpa using hne,
    succeeded_of_batch hp hn hrtasks (next.2.map Task.id), fun id hid => ?_, ?_, ?_⟩
  · obtain ⟨t, ht, rfl⟩ := List.mem_map.mp hid
    refine ⟨t, ?_, rfl, hmem t ht⟩
    exact (hmem t ht).elim (fun h => (hp.mem_readyTasks.mp h).1) fun h => (mem_running.mp h).1
  · rw [runAll_cons, hdispatch, runAll_cons, runAll_nil, step, if_neg hne]
  · rw [runAll_cons, hdispatch, runAll_cons, runAll_nil, step, if_neg hne]
    rw [applyBatchResults_plan, beginBatch_plan, hr]
    rfl

/-- If the loop never gets stuck, every task that is not over can be completed. -/
theorem completable_of_never_stuck (hp0 : p₀.Named)
    (hrunning : ∀ t ∈ p₀.tasks, t.status = .running → Completable p₀ t) :
    ∀ (n : ℕ) (l : PlanLoop) (p : Plan), p.openCount < n → l.inFlight = [] →
      l.run.plan = some p → Pursues p₀ p →
      (∀ steps, ∃ q, (runAll (step sha) l steps).run.plan = some q ∧ ¬ q.Stuck) →
      ∀ t ∈ p₀.tasks, t.status.terminal = false → Completable p₀ t := by
  intro n
  induction n with
  | zero => intro l p h; omega
  | succ n ih =>
    intro l p hcount hin hplan hp hnever t ht hopen
    by_contra hnot
    -- the task is still as it was, so the plan is not over
    obtain ⟨u, hu, hkept, hmove⟩ := hp.kept.to_mem ht
    have huopen : u.status.terminal = false := by
      rw [hmove.resolve_right hnot]
      exact hopen
    have hterm : p.terminal = false := by
      rw [terminal, List.all_eq_false]
      exact ⟨u, hu, by simp [huopen]⟩
    obtain ⟨q, hq, hmoves⟩ := hnever []
    obtain rfl : p = q := Option.some.inj (hplan.symm.trans hq)
    obtain ⟨ids, p', hne, hdone, hbatch, hin', hplan'⟩ :=
      round sha hin hplan hp.named hp.neat hterm hmoves
    have hkept' : Edits Kept p p' := hdone.worked.mono fun _ _ h => h.kept
    refine hnot (ih _ p' ?_ hin' hplan' ⟨?_, hdone.neat, ?_⟩ ?_ t ht hopen)
    · -- one task of the batch is over now
      obtain ⟨id, hid⟩ := List.exists_mem_of_ne_nil ids hne
      obtain ⟨b, hb, rfl, hb'⟩ := hbatch id hid
      have hbopen : b.status.terminal = false := by
        obtain h | h := hb'
        · rw [(hp.named.mem_readyTasks.mp h).2.1]
          rfl
        · rw [(mem_running.mp h).2]
          rfl
      have := openCount_lt hkept' hb hbopen fun v hv hvid => hdone.ended v hv (hvid ▸ hid)
      omega
    · exact hdone.worked.named (fun _ _ h => h.1) hp.named
    · -- only tasks of the batch have moved, and those can be completed
      refine Edits.trans ?_ hp.kept.mem hdone.worked
      rintro t₀ t u ⟨ht0, -, hk, hm⟩ hw
      refine ⟨hk.trans hw.kept, ?_⟩
      obtain hsame | ⟨hid, -⟩ := hw.2.2
      · rw [hsame]
        exact hm
      · obtain ⟨b, hb, hbid, hb'⟩ := hbatch _ hid
        exact .inr (hp.completable hp0 hrunning ht0 hb' (hbid.trans hk.1))
    · intro steps
      have := hnever ([.dispatch, .results (allCompleted ids)] ++ steps)
      rwa [runAll_append] at this

end PlanLoop

/-! ## The loop on an accepted plan -/

/-- The loop where it first meets a plan. -/
def PlanLoop.start (run : PlannedRun) (plan : Plan) : PlanLoop :=
  ⟨installPlan sha run plan, []⟩

theorem PlanLoop.start_plan (run : PlannedRun) (plan : Plan) :
    (start sha run plan).run.plan =
      some plan.normalizeExecution.normalizeExecution := by
  simp [start, installPlan]

/-- Normalizing an accepted plan keeps its names and the dependencies among them. -/
theorem Planner.Accepted.normalizeExecution {p : Plan} (h : Accepted p) :
    p.normalizeExecution.Named ∧
    ∀ t ∈ p.normalizeExecution.tasks, ∀ dep ∈ t.dependsOn,
      ∃ d ∈ p.normalizeExecution.tasks, d.id = dep := by
  have hedits := p.normalizeExecution_edits
  refine ⟨hedits.named (fun _ _ h => h.1) h.named, fun u hu dep hdep => ?_⟩
  obtain ⟨t, ht, -, hstated, -⟩ := hedits.of_mem hu
  rw [dependsOn_of_stated hstated] at hdep
  obtain ⟨d, hd, hid⟩ := h.known t ht dep hdep
  obtain ⟨e, he, hid', -⟩ := hedits.to_mem hd
  exact ⟨e, he, hid'.trans hid⟩

/-- On an accepted plan whose running tasks have their dependencies completed, the loop never gets
    stuck, whatever the results and conflicts, exactly if every task that is not over can be
    completed. -/
theorem never_stuck_iff (raw plan : Plan) (haccepted : validate raw = .ok plan) (run : PlannedRun)
    (hrunning : ∀ t ∈ plan.normalizeExecution.tasks, t.status = .running →
      ∀ dep ∈ t.dependsOn, plan.normalizeExecution.Done dep) :
    (∀ steps, ∃ p, (runAll (PlanLoop.step sha) (PlanLoop.start sha run plan) steps).run.plan
        = some p ∧ ¬ p.Stuck) ↔
      ∀ t ∈ plan.normalizeExecution.tasks, t.status.terminal = false →
        Completable plan.normalizeExecution t := by
  set p₀ := plan.normalizeExecution
  obtain ⟨hnamed, hknown⟩ := (validate_accepted haccepted).normalizeExecution
  have hnormal : p₀.Normal := normal_normalizeExecution plan
  have htasks : p₀.normalizeExecution.tasks = p₀.tasks := plan.neat_normalizeExecution.tasks_eq
  constructor
  · refine fun hnever => PlanLoop.completable_of_never_stuck sha hnamed ?_ _ _ _
      (Nat.lt_succ_self _) rfl (PlanLoop.start_plan sha run plan) ?_ hnever
    · intro t ht hrun
      refine .intro t ht (by rw [hrun]; rfl) fun d hd hdep hnot => ?_
      obtain ⟨e, he, hid, hc⟩ := hrunning t ht hrun d.id hdep
      exact absurd (hnamed.eq_of_id he hd hid ▸ hc) hnot
    · refine ⟨hnamed.congr (by rw [htasks]), p₀.neat_normalizeExecution, ?_⟩
      rw [Edits, htasks]
      exact List.forall₂_same.mpr fun t _ => ⟨.refl t, .inl rfl⟩
  · intro hcomp steps
    have hcalm : Calm Hopeful p₀ := by
      refine ⟨hnamed, hnormal, fun t ht hq dep hdep => ?_, hrunning⟩
      obtain ⟨d, hd, rfl⟩ := hknown t ht dep hdep
      refine ⟨d, hd, rfl, ?_⟩
      by_cases hc : d.status = .completed
      · exact .inl hc
      · -- what a completable task waits for is not over
        cases hcomp t ht (by rw [hq]; rfl) with
        | intro _ _ _ hdeps =>
          cases hdeps d hd hdep hc with
          | intro _ _ hpending _ => exact .inr hpending
    have hstart : (PlanLoop.start sha run plan).Progress p₀ :=
      ⟨_, PlanLoop.start_plan sha run plan, Progress.normalizeExecution
        ⟨hcalm, Edits.refl Kept.refl p₀⟩⟩
    have hrun : (runAll (PlanLoop.step sha) (PlanLoop.start sha run plan) steps).Progress
        p₀ := by
      generalize PlanLoop.start sha run plan = l at hstart ⊢
      induction steps generalizing l with
      | nil => exact hstart
      | cons s steps ih => exact ih _ (hstart.step sha s)
    obtain ⟨p, hp, hprogress⟩ := hrun
    exact ⟨p, hp, hprogress.not_stuck hcomp⟩

/-- A task and one that depends on it. -/
def chainPlan : Plan :=
  { goal := "report", strategy := .serial, failurePolicy := .failFast, finalTask := "write"
    tasks :=
      [{ id := "read", kind := .execute, goal := "read" },
        { id := "write", kind := .execute, goal := "write", dependsOn := ["read"] }] }

/-- Two tasks that depend on each other. -/
def cyclicPlan : Plan :=
  { goal := "report", strategy := .serial, failurePolicy := .failFast, finalTask := "write"
    tasks :=
      [{ id := "read", kind := .execute, goal := "read", dependsOn := ["write"] },
        { id := "write", kind := .execute, goal := "write", dependsOn := ["read"] }] }

theorem chainPlan_never_stuck :
    validate chainPlan = .ok chainPlan ∧
    ∀ steps, ∃ p, (runAll (PlanLoop.step id) (PlanLoop.start id ⟨"run-1", "sess-1", none, none⟩
      chainPlan) steps).run.plan = some p ∧ ¬ p.Stuck := by
  have haccepted : validate chainPlan = .ok chainPlan := by decide +kernel
  have htasks : chainPlan.normalizeExecution.tasks =
      [{ id := "read", kind := .execute, goal := "read", status := .queued },
        { id := "write", kind := .execute, goal := "write", dependsOn := ["read"],
          status := .queued }] := by decide +kernel
  have hfirst : Completable chainPlan.normalizeExecution
      { id := "read", kind := .execute, goal := "read", status := .queued } :=
    .intro _ (by simp [htasks]) rfl (by simp)
  refine ⟨haccepted, (never_stuck_iff id chainPlan chainPlan haccepted _ ?_).mpr ?_⟩
  · simp [htasks]
  · intro t ht _
    rw [htasks] at ht
    obtain rfl | rfl : t = _ ∨ t = _ := by simpa using ht
    · exact hfirst
    · refine .intro _ (by simp [htasks]) rfl fun d hd hdep _ => ?_
      rw [htasks] at hd
      obtain rfl | rfl : d = _ ∨ d = _ := by simpa using hd
      · exact hfirst
      · simp at hdep

/-- `Validate` accepts two tasks that wait for each other, and there is nothing to dispatch. -/
theorem cyclicPlan_is_stuck :
    validate cyclicPlan = .ok cyclicPlan ∧
    ((PlanLoop.start id ⟨"run-1", "sess-1", none, none⟩ cyclicPlan).run.plan.map
      fun p => decide p.Stuck) = some true := by
  decide +kernel

/-- A plan that comes with a task running before the one it depends on. -/
def earlyPlan : Plan :=
  { goal := "report", strategy := .parallel, failurePolicy := .continueOnError, finalTask := "write"
    tasks :=
      [{ id := "read", kind := .execute, goal := "read" },
        { id := "write", kind := .execute, goal := "write", dependsOn := ["read"],
          status := .running },
        { id := "log", kind := .execute, goal := "log", status := .running }] }

-- Why the running tasks need their dependencies completed: a failure does not reach the running
-- dependent, and a conflict then queues it behind the failed task.
example :
    validate earlyPlan = .ok earlyPlan ∧
    ((runAll (PlanLoop.step id) (PlanLoop.start id ⟨"run-1", "sess-1", none, none⟩ earlyPlan)
      [.dispatch, .results [{ taskID := "read", status := .failed }], .dispatch, .conflict,
        .dispatch, .results (allCompleted ["log"])]).run.plan.map fun p => decide p.Stuck) =
      some true := by
  decide +kernel

end Hopclaw
