import Hopclaw.Proofs.PlanTracking
import Hopclaw.Proofs.PlanValidation

/-! # A plan does not get stuck

The executor's loop takes tasks whose dependencies are completed. A plan it works on is stuck if it
is not over and no task is ready or running. `Validate` refuses unknown dependencies but neither
cycles nor a queued task behind one that has already failed, so an accepted plan can be stuck from
the start; where every queued task can be completed, no results and no conflicts ever get the loop
stuck, and otherwise some do. -/

namespace Hopclaw.Planner

open List GoStrings

/-! ## Tasks that can be completed -/

namespace Plan

variable {p q : Plan} {id : String} {i : ℕ} {t u : Task} {f : Task → Task}

/-- The plan is not over and there is nothing to dispatch. -/
def Stuck (p : Plan) : Prop :=
  p.terminal = false ∧ p.readyTasks = [] ∧ p.running = []

instance (p : Plan) : Decidable p.Stuck :=
  inferInstanceAs (Decidable (_ ∧ _ ∧ _))

/-- A task that is not over can be completed if each of its dependencies is completed or can be:
    no cycle and no failed, skipped or cancelled task is behind it. -/
inductive Completable (p : Plan) : Task → Prop
  | intro (t : Task) (mem : t ∈ p.tasks) (pending : t.status.terminal = false)
      (deps : ∀ d ∈ p.tasks, d.id ∈ t.dependsOn → d.status ≠ .completed → Completable p d) :
      Completable p t

/-- A task with this id is completed. -/
def Done (p : Plan) (dep : String) : Prop :=
  ∃ d ∈ p.tasks, d.id = dep ∧ d.status = .completed

theorem Named.depCompleted_iff (h : p.Named) {dep : String} :
    p.depCompleted dep = true ↔ p.Done dep := by
  unfold depCompleted
  cases ht : p.findTask dep with
  | none =>
    refine ⟨fun hc => absurd hc (by simp), ?_⟩
    rintro ⟨d, hd, rfl, -⟩
    rw [h.findTask hd] at ht
    cases ht
  | some d =>
    obtain ⟨hd, rfl⟩ := mem_of_findTask ht
    rw [decide_eq_true_eq]
    refine ⟨fun hc => ⟨d, hd, rfl, hc⟩, ?_⟩
    rintro ⟨e, he, hid, hc⟩
    exact h.eq_of_id he hd hid ▸ hc

theorem Named.mem_readyTasks (h : p.Named) :
    t ∈ p.readyTasks ↔ t ∈ p.tasks ∧ t.status = .queued ∧ ∀ dep ∈ t.dependsOn, p.Done dep := by
  simp only [readyTasks, mem_filter, Bool.and_eq_true, decide_eq_true_eq, depsCompleted,
    all_eq_true, h.depCompleted_iff]

theorem mem_running : t ∈ p.running ↔ t ∈ p.tasks ∧ t.status = .running := by
  simp [running]

/-! ## Normal plans -/

/-- What normalizing a plan makes of a task. -/
def normalized (t : Task) : Task :=
  { t with
    resultSummary := trimSpace t.resultSummary
    error := trimSpace t.error
    status := t.status.normalize }

/-- Normalizing the plan would change none of its tasks. -/
def Neat (p : Plan) : Prop :=
  ∀ t ∈ p.tasks, normalized t = t

theorem neat_normalizeExecution (p : Plan) : p.normalizeExecution.Neat := by
  intro u hu
  obtain ⟨t, -, rfl⟩ := List.mem_map.mp hu
  simp [normalized, trimSpace_trimSpace, TaskStatus.normalize_normalize]

theorem Neat.tasks_eq (h : p.Neat) : p.normalizeExecution.tasks = p.tasks :=
  (map_congr_left h).trans (map_id _)

theorem Neat.congr (h : p.Neat) (htasks : q.tasks = p.tasks) : q.Neat := by
  rwa [Neat, htasks]

theorem readyTasks_congr (h : q.tasks = p.tasks) : q.readyTasks = p.readyTasks := by
  have hdep : q.depCompleted = p.depCompleted := by
    funext dep
    rw [depCompleted, depCompleted, findTask, findTask, h]
  simp only [readyTasks, depsCompleted, h, hdep]

/-! ## The invariant of the loop -/

/-- Nothing stands in the way of a task: what a running task depends on is completed, and what a
    queued one depends on is in a status that `G` allows. -/
structure Calm (G : TaskStatus → Prop) (p : Plan) : Prop where
  named : p.Named
  normal : p.Normal
  queued : ∀ t ∈ p.tasks, t.status = .queued →
    ∀ dep ∈ t.dependsOn, ∃ d ∈ p.tasks, d.id = dep ∧ G d.status
  running : ∀ t ∈ p.tasks, t.status = .running → ∀ dep ∈ t.dependsOn, p.Done dep

/-- A dependency that is completed or not over yet. -/
def Hopeful (s : TaskStatus) : Prop :=
  s = .completed ∨ s.terminal = false

theorem Edits.done (h : Edits Kept p q) {dep : String} (hd : p.Done dep) : q.Done dep := by
  obtain ⟨d, hmem, hid, hc⟩ := hd
  obtain ⟨u, hu, hid', -, hkept⟩ := h.to_mem hmem
  exact ⟨u, hu, hid'.trans hid, (hkept (by rw [hc]; rfl)).trans hc⟩

section Calm

variable {G : TaskStatus → Prop} {A : Task → TaskStatus → Prop}

/-- Moves of tasks that are not over keep the calm if they lead to statuses that `G` allows, and
    tasks are started or queued again only with their dependencies completed. -/
theorem Calm.edit (h : Calm G p) (hG : G .completed) (hedits : Edits (Via A) p q)
    (hA : ∀ t ∈ p.tasks, ∀ s, A t s → t.status.terminal = false ∧ s.normalize = s ∧ G s ∧
      (s = .queued ∨ s = .running → ∀ dep ∈ t.dependsOn, p.Done dep)) :
    Calm G q ∧ Edits Kept p q := by
  have hkept : Edits Kept p q := hedits.mem.mono fun t u ⟨ht, _, htu⟩ =>
    htu.kept fun s ha => (hA t ht s ha).1
  refine ⟨⟨hedits.named (fun _ _ htu => htu.1) h.named, fun u hu => ?_, fun u hu hq dep hdep => ?_,
    fun u hu hrun dep hdep => ?_⟩, hkept⟩
  · obtain ⟨t, ht, -, -, hsame | hmove⟩ := hedits.of_mem hu
    · rw [hsame]
      exact h.normal t ht
    · exact (hA t ht _ hmove).2.1
  · obtain ⟨t, ht, -, hstated, hstatus⟩ := hedits.of_mem hu
    rw [dependsOn_of_stated hstated] at hdep
    have hallowed : ∃ d ∈ p.tasks, d.id = dep ∧ G d.status := by
      obtain hsame | hmove := hstatus
      · exact h.queued t ht (hsame ▸ hq) dep hdep
      · obtain ⟨d, hd, hid, hc⟩ := (hA t ht _ hmove).2.2.2 (.inl hq) dep hdep
        exact ⟨d, hd, hid, hc ▸ hG⟩
    obtain ⟨d, hd, hid, hgd⟩ := hallowed
    obtain ⟨e, he, hid', -, hsame | hmove⟩ := hedits.to_mem hd
    · exact ⟨e, he, hid'.trans hid, hsame ▸ hgd⟩
    · exact ⟨e, he, hid'.trans hid, (hA d hd _ hmove).2.2.1⟩
  · obtain ⟨t, ht, -, hstated, hstatus⟩ := hedits.of_mem hu
    rw [dependsOn_of_stated hstated] at hdep
    refine hkept.done ?_
    obtain hsame | hmove := hstatus
    · exact h.running t ht (hsame ▸ hrun) dep hdep
    · exact (hA t ht _ hmove).2.2.2 (.inr hrun) dep hdep

theorem Calm.mono {H : TaskStatus → Prop} (hGH : ∀ s, G s → H s) (h : Calm G p) : Calm H p where
  named := h.named
  normal := h.normal
  queued := fun t ht hq dep hdep => by
    obtain ⟨d, hd, hid, hg⟩ := h.queued t ht hq dep hdep
    exact ⟨d, hd, hid, hGH _ hg⟩
  running := h.running

/-- Where every task is over there is nothing to show. -/
theorem Calm.of_terminal (hp : p.Named) (hterm : ∀ t ∈ p.tasks, t.status.terminal = true) :
    Calm G p where
  named := hp
  normal := by
    intro t ht
    have h := hterm t ht
    cases hs : t.status <;> simp_all [TaskStatus.terminal, TaskStatus.normalize]
  queued := by
    intro t ht hq
    have h := hterm t ht
    rw [hq] at h
    cases h
  running := by
    intro t ht hrun
    have h := hterm t ht
    rw [hrun] at h
    cases h

theorem Calm.normalizeExecution (h : Calm G p) (hG : G .completed) :
    Calm G p.normalizeExecution ∧ Edits Kept p p.normalizeExecution := by
  have hedits : Edits (Via fun _ _ => False) p p.normalizeExecution :=
    edits_map rfl fun t ht => ⟨rfl, rfl, .inl (h.normal t ht)⟩
  exact h.edit hG hedits fun _ _ _ hf => hf.elim

end Calm

/-- The state of a plan between two steps of the loop, from the plan it started with. -/
structure Progress (p₀ p : Plan) : Prop where
  calm : Calm Hopeful p
  kept : Edits Kept p₀ p

theorem Edits.keptTrans {r : Plan} (h1 : Edits Kept p q) (h2 : Edits Kept q r) : Edits Kept p r :=
  Edits.trans (fun _ _ _ htu huv => htu.trans huv) h1 h2

section Progress

variable {p₀ : Plan} {A : Task → TaskStatus → Prop}

section

variable (h : Progress p₀ p)
include h

theorem Progress.edit (hedits : Edits (Via A) p q)
    (hA : ∀ t ∈ p.tasks, ∀ s, A t s → t.status.terminal = false ∧ s.normalize = s ∧ Hopeful s ∧
      (s = .queued ∨ s = .running → ∀ dep ∈ t.dependsOn, p.Done dep)) : Progress p₀ q :=
  have hcalm := h.calm.edit (.inl rfl) hedits hA
  ⟨hcalm.1, h.kept.keptTrans hcalm.2⟩

theorem Progress.normalizeExecution : Progress p₀ p.normalizeExecution :=
  ⟨(h.calm.normalizeExecution (.inl rfl)).1,
    h.kept.keptTrans (h.calm.normalizeExecution (.inl rfl)).2⟩

/-- Only the tasks count. -/
theorem Progress.congr (htasks : q.tasks = p.tasks) : Progress p₀ q :=
  h.edit (A := fun _ _ => False) (edits_map (htasks.trans (map_id _).symm)
    fun _ _ => ⟨rfl, rfl, .inl rfl⟩) fun _ _ _ hf => hf.elim

theorem Progress.markRunning {ids : List String}
    (hready : ∀ t ∈ p.tasks, t.status = .queued → t.id ∈ ids → ∀ dep ∈ t.dependsOn, p.Done dep) :
    Progress p₀ (p.markRunning ids) := by
  refine h.edit (p.markRunning_edits ids) ?_
  rintro t ht s ⟨hq, hid, rfl⟩
  exact ⟨by rw [hq]; rfl, rfl, .inr rfl, fun _ => hready t ht hq hid⟩

theorem Progress.requeueTasks (ids : List String) : Progress p₀ (requeueTasks p ids) := by
  refine h.edit (p.requeueTasks_edits ids) ?_
  rintro t ht s ⟨-, hrun, rfl⟩
  exact ⟨by rw [hrun]; rfl, rfl, .inr rfl, fun _ => h.calm.running t ht hrun⟩

theorem Progress.markCompleted (id summary : String) :
    Progress p₀ (p.markCompleted id summary) := by
  refine h.edit (p.markCompleted_edits id summary) ?_
  rintro t ht s ⟨-, hrun, rfl⟩
  exact ⟨by rw [hrun]; rfl, rfl, .inl rfl, nofun⟩

/-- A failure is carried on to the dependents before anything else looks at the plan. -/
theorem Progress.markFailed (id errMsg : String) :
    Progress p₀ ((p.markFailed id errMsg).skipDependentsOf id) := by
  let G : TaskStatus → Prop := fun s => s ≠ .cancelled
  have hfailed : Calm G (p.markFailed id errMsg) := by
    refine ((h.calm.mono ?_).edit (by simp [G]) (p.markFailed_edits id errMsg) ?_).1
    · rintro s (hs | hs) hc <;> rw [hc] at hs <;> cases hs
    · rintro t ht s ⟨-, hrun, rfl⟩
      exact ⟨by rw [hrun]; rfl, rfl, nofun, nofun⟩
  have hskipped : Calm G ((p.markFailed id errMsg).skipDependentsOf id) := by
    refine (hfailed.edit (by simp [G])
      ((p.markFailed id errMsg).skipDependentsOf_skipsTo id).via ?_).1
    rintro t ht s ⟨hq, rfl⟩
    exact ⟨by rw [hq]; rfl, rfl, nofun, nofun⟩
  refine ⟨⟨hskipped.named, hskipped.normal, fun t ht hq dep hdep => ?_, hskipped.running⟩, ?_⟩
  · -- the propagation leaves no failed or skipped dependency, and there was no cancelled one
    obtain ⟨d, hd, rfl, hcancel⟩ := hskipped.queued t ht hq dep hdep
    have hbroken := (p.markFailed id errMsg).skipDependentsOf_complete id t ht hq d.id hdep
    have hnormal := hskipped.normal d hd
    rw [brokenDep, hskipped.named.findTask hd] at hbroken
    refine ⟨d, hd, rfl, ?_⟩
    cases hs : d.status <;>
      simp_all [Hopeful, TaskStatus.terminal, G]
  · exact h.kept.keptTrans ((p.follows_failTask id errMsg).mono fun _ _ => Follows.kept)

end

/-! ## Giving the plan up -/

/-- A queued task is skipped. -/
def skipQueued (reason : String) (t : Task) : Task :=
  if t.status = .queued then { t with status := .skipped, error := trimSpace reason } else t

/-- The loop that skips the queued tasks one by one reaches all of them. -/
theorem Named.skipQueuedTasks_tasks (hp : p.Named) (reason : String) :
    (skipQueuedTasks p reason).tasks = p.tasks.map (skipQueued reason) := by
  have hid : ∀ t, (skipQueued reason t).id = t.id := fun t => by
    unfold skipQueued
    split_ifs <;> rfl
  have hidem : ∀ t, skipQueued reason (skipQueued reason t) = skipQueued reason t := fun t => by
    by_cases hq : t.status = .queued <;> simp [skipQueued, hq]
  refine (foldl_tasks (K := fun i x => (p.tasks.map Task.id)[i]? = some x) hid hidem
    (fun q hids i => ?_) rfl _).trans (map_congr_left fun t ht => if_pos ?_)
  · -- one position: its task is the only one with its id
    have hq : q.Named := hp.congr hids
    rw [← hids, List.getElem?_map]
    cases hget : q.tasks[i]? with
    | none => simp
    | some t =>
      have hone : ∀ u ∈ q.tasks, t.id = u.id → u = t := fun u hu hid =>
        hq.eq_of_id hu (mem_of_getElem? hget) hid.symm
      dsimp only [Option.map_some]
      split_ifs with hqueued
      · refine (hq.editTask_tasks t.id _ _).trans (map_congr_left fun u hu => ?_)
        by_cases hid : t.id = u.id
        · simp [hone u hu hid, skipQueued, hqueued]
        · simp [hid, Ne.symm hid]
      · refine ((map_congr_left fun u hu => ?_).trans (map_id _)).symm
        by_cases hid : t.id = u.id
        · simp [hone u hu hid, skipQueued, hqueued]
        · simp [hid]
  · obtain ⟨i, hi, rfl⟩ := getElem_of_mem ht
    exact ⟨i, mem_range.mpr hi, by simp [hi]⟩

/-- Once the plan is given up every task is over: none is queued or running any more, and no other
    status is left open. -/
theorem abortPlan_terminal (hp : p.Named) (hnormal : p.Normal) :
    ∀ u ∈ (abortPlan p).tasks, u.status.terminal = true := by
  have hcancel := p.cancelRunning_edits "fail_fast: upstream task failed"
  intro u hu
  rw [abortPlan, (hcancel.named (fun _ _ htu => htu.1) hp).skipQueuedTasks_tasks] at hu
  obtain ⟨_, ht, rfl⟩ := List.mem_map.mp hu
  obtain ⟨t, ht', rfl⟩ := List.mem_map.mp ht
  have hn := hnormal t ht'
  cases hs : t.status <;> simp_all [skipQueued, TaskStatus.normalize, TaskStatus.terminal]

theorem Progress.abortPlan (h : Progress p₀ p) : Progress p₀ (abortPlan p) :=
  ⟨Calm.of_terminal ((follows_abortPlan p).named (fun _ _ htu => htu.1) h.calm.named)
    (abortPlan_terminal h.calm.named h.calm.normal),
    h.kept.keptTrans ((follows_abortPlan p).mono fun _ _ => Follows.kept)⟩

theorem Progress.applyResults (h : Progress p₀ p) (rs : List TaskExecutionResult) :
    Progress p₀ (applyResults p rs) := by
  have hall : Progress p₀ (rs.foldl applyResult p) := by
    induction rs generalizing p with
    | nil => exact h
    | cons r rs ih =>
      refine ih ?_
      unfold applyResult
      split
      · exact h.markCompleted _ _
      · exact h.markFailed _ _
      · exact h
  unfold Hopclaw.applyResults
  split_ifs
  · exact hall.abortPlan
  · exact hall

/-- Where every task that is not over can be completed, the loop is never stuck: of the queued
    tasks one behind which nothing is queued is ready. -/
theorem Progress.not_stuck (h : Progress p₀ p)
    (hcomp : ∀ t ∈ p₀.tasks, t.status.terminal = false → Completable p₀ t) : ¬ p.Stuck := by
  rintro ⟨hterm, hready, hrunning⟩
  have hqueued : ∀ t ∈ p.tasks, t.status.terminal = false → t.status = .queued := by
    intro t ht hopen
    by_contra hq
    have hidle : t.status ≠ .running := fun hrun => by
      have : t ∈ p.running := mem_running.mpr ⟨ht, hrun⟩
      rw [hrunning] at this
      cases this
    rw [TaskStatus.terminal_of_normal (h.calm.normal t ht) hq hidle] at hopen
    cases hopen
  -- no queued task, by induction on why it can be completed
  have hnone : ∀ t₀, Completable p₀ t₀ → ∀ t ∈ p.tasks, Kept t₀ t → t.status ≠ .queued := by
    intro t₀ hc
    induction hc with
    | intro t₀ hmem hpending _ ih =>
      intro t ht hkept hq
      have hblocked : ∃ dep ∈ t.dependsOn, ¬ p.Done dep := by
        by_contra hdone
        push Not at hdone
        have : t ∈ p.readyTasks := h.calm.named.mem_readyTasks.mpr ⟨ht, hq, hdone⟩
        rw [hready] at this
        cases this
      obtain ⟨dep, hdep, hnot⟩ := hblocked
      obtain ⟨d, hd, rfl, hgood⟩ := h.calm.queued t ht hq dep hdep
      have hopen : d.status.terminal = false :=
        hgood.resolve_left fun hc => hnot ⟨d, hd, rfl, hc⟩
      obtain ⟨d₀, hd0, hkept'⟩ := h.kept.of_mem hd
      refine ih d₀ hd0 ?_ ?_ d hd hkept' (hqueued d hd hopen)
      · rw [← dependsOn_of_stated hkept.2.1, ← hkept'.1]
        exact hdep
      · intro hc
        have hsame := hkept'.2.2 (by rw [hc]; rfl)
        exact hnot ⟨d, hd, rfl, hsame.trans hc⟩
  rw [terminal, all_eq_false] at hterm
  obtain ⟨t, ht, hopen⟩ := hterm
  have hopen : t.status.terminal = false := by simpa using hopen
  obtain ⟨t₀, ht0, hkept⟩ := h.kept.of_mem ht
  have hpending : t₀.status.terminal = false := by
    by_contra hterm
    rw [hkept.2.2 (by simpa using hterm)] at hopen
    exact hterm hopen
  exact hnone t₀ (hcomp t₀ ht0 hpending) t ht hkept (hqueued t ht hopen)

end Progress

end Plan

end Hopclaw.Planner

namespace Hopclaw

open List GoStrings Planner Planner.Plan

variable (sha : String → String)

/-! ## The loop -/

@[simp] theorem ensureExecutionGraph_plan (run : PlannedRun) :
    (ensureExecutionGraph sha run).plan = run.plan.map Plan.normalizeExecution := by
  unfold ensureExecutionGraph
  cases h : run.plan with
  | none => simpa using h
  | some plan => rfl

theorem mem_selectLoop {run : PlannedRun} {graph : ExecutionGraph} {t : Task} {ready : List Task}
    {selected : List Task} {entries : List ExecutionTask}
    (h : t ∈ selectLoop sha run graph ready selected entries) : t ∈ selected ∨ t ∈ ready := by
  induction ready generalizing selected entries with
  | nil => exact .inl h
  | cons task rest ih =>
    rw [selectLoop] at h
    split_ifs at h
    · exact (ih h).imp_right (mem_cons_of_mem _)
    · obtain hsel | htask := mem_append.mp h
      · exact .inl hsel
      · exact .inr (mem_singleton.mp htask ▸ mem_cons_self)
    · obtain hsel | hrest := ih h
      · obtain hsel | htask := mem_append.mp hsel
        · exact .inl hsel
        · exact .inr (mem_singleton.mp htask ▸ mem_cons_self)
      · exact .inr (mem_cons_of_mem _ hrest)

/-- The batch is made of ready tasks, some if there is any, and the selection edits the plan only
    by normalizing it. -/
theorem selectExecutionBatch_spec (run : PlannedRun) (ready : List Task) :
    (∀ t ∈ (selectExecutionBatch sha run ready).2, t ∈ ready) ∧
    (ready ≠ [] → (selectExecutionBatch sha run ready).2 ≠ []) ∧
    ((selectExecutionBatch sha run ready).1.plan = run.plan ∨
      (selectExecutionBatch sha run ready).1.plan = run.plan.map Plan.normalizeExecution) := by
  unfold selectExecutionBatch
  split_ifs with hlen
  · exact ⟨fun _ ht => ht, fun h => h, .inl rfl⟩
  dsimp only
  split
  · split_ifs with hserial hnil
    · exact ⟨fun _ ht => ht, fun h => h, .inr (ensureExecutionGraph_plan sha run)⟩
    · refine ⟨fun t ht => mem_of_mem_take ht, fun h => ?_,
        .inr (ensureExecutionGraph_plan sha run)⟩
      simpa using h
    · refine ⟨fun t ht => ?_, fun _ => hnil, .inr (ensureExecutionGraph_plan sha run)⟩
      exact (mem_selectLoop sha ht).resolve_left (by simp)
  · exact ⟨fun _ ht => ht, fun h => h, .inr (ensureExecutionGraph_plan sha run)⟩

/-- The tasks of the plan are the same after the selection. -/
theorem nextBatch_spec (run : PlannedRun) (p : Plan) (hrun : run.plan = some p.normalizeExecution) :
    ∃ r, (nextBatch sha run p.normalizeExecution).1.plan = some r ∧
      r.tasks = p.normalizeExecution.tasks ∧
      (∀ t ∈ (nextBatch sha run p.normalizeExecution).2, t ∈ r.readyTasks ∨ t ∈ r.running) ∧
      ((nextBatch sha run p.normalizeExecution).2 = [] ↔ r.readyTasks = [] ∧ r.running = []) := by
  unfold nextBatch
  split_ifs with hready
  · exact ⟨_, hrun, rfl, fun _ => .inr, by simp [hready]⟩
  · obtain ⟨hmem, hne, hplan⟩ :=
      selectExecutionBatch_spec sha run p.normalizeExecution.readyTasks
    obtain ⟨r, hr, htasks⟩ : ∃ r, (selectExecutionBatch sha run
        p.normalizeExecution.readyTasks).1.plan = some r ∧ r.tasks = p.normalizeExecution.tasks := by
      rw [hrun] at hplan
      exact hplan.elim (fun h => ⟨_, h, rfl⟩) fun h => ⟨_, h, p.neat_normalizeExecution.tasks_eq⟩
    refine ⟨r, hr, htasks, ?_⟩
    rw [readyTasks_congr htasks]
    exact ⟨fun t ht => .inl (hmem t ht), by simp [hready, hne hready]⟩

/-- The loop holds a plan that has made progress from `p₀`. -/
def PlanLoop.Progress (p₀ : Plan) (l : PlanLoop) : Prop :=
  ∃ p, l.run.plan = some p ∧ p₀.Progress p

namespace PlanLoop

variable {p₀ : Plan} {l : PlanLoop}

theorem beginBatch_plan (run : PlannedRun) (tasks : List Task) :
    (beginBatch sha run tasks).plan =
      run.plan.map fun p => p.normalizeExecution.markRunning (tasks.map Task.id) := by
  simp [beginBatch, Function.comp_def]

theorem Progress.beginBatch {p : Plan} {run : PlannedRun} (h : p₀.Progress p) (hneat : p.Neat)
    (hrun : run.plan = some p) {tasks : List Task}
    (htasks : ∀ t ∈ tasks, t ∈ p.readyTasks ∨ t ∈ p.running) :
    ∃ q, (beginBatch sha run tasks).plan = some q ∧ p₀.Progress q := by
  refine ⟨_, (beginBatch_plan sha run tasks).trans (by rw [hrun]; rfl), ?_⟩
  -- the tasks of the batch that are still queued are ready
  refine (h.congr hneat.tasks_eq).markRunning fun u hu hq hid dep hdep => ?_
  rw [hneat.tasks_eq] at hu
  obtain ⟨b, hb, hbid⟩ := mem_map.mp hid
  obtain hready | hrunning := htasks b hb
  · obtain ⟨hmem, -, hdone⟩ := h.calm.named.mem_readyTasks.mp hready
    obtain rfl := h.calm.named.eq_of_id hmem hu hbid
    rw [Done, hneat.tasks_eq]
    exact hdone dep hdep
  · obtain ⟨hmem, hrun⟩ := mem_running.mp hrunning
    obtain rfl := h.calm.named.eq_of_id hmem hu hbid
    exact absurd (hrun.symm.trans hq) (by simp)

theorem Progress.dispatch (h : l.Progress p₀) : (l.dispatch sha).Progress p₀ := by
  obtain ⟨p, hrun, hp⟩ := h
  obtain ⟨r, hr, htasks, hmem, -⟩ := nextBatch_spec sha
    { l.run with plan := some p.normalizeExecution } p rfl
  have hprogress := hp.normalizeExecution.congr htasks
  unfold PlanLoop.dispatch
  rw [hrun]
  dsimp only
  split_ifs
  · exact ⟨_, rfl, hp.normalizeExecution⟩
  · exact ⟨r, hr, hprogress⟩
  · exact Progress.beginBatch sha hprogress (p.neat_normalizeExecution.congr htasks) hr hmem

theorem applyBatchResults_plan (run : PlannedRun) (rs : List TaskExecutionResult) :
    (applyBatchResults sha run rs).plan = run.plan.map fun p =>
      (applyResults p.normalizeExecution rs).normalizeExecution := by
  unfold applyBatchResults syncExecutionGraphWithPlan
  dsimp only
  split <;> simp [Function.comp_def]

theorem Progress.step (h : l.Progress p₀) (s : LoopStep) : (l.step sha s).Progress p₀ := by
  cases s with
  | dispatch =>
    rw [PlanLoop.step]
    split_ifs
    · exact h.dispatch sha
    · exact h
  | results rs =>
    rw [PlanLoop.step]
    split_ifs
    · exact h
    · obtain ⟨p, hrun, hp⟩ := h
      refine ⟨_, (applyBatchResults_plan sha l.run rs).trans (by rw [hrun]; rfl), ?_⟩
      exact (hp.normalizeExecution.applyResults rs).normalizeExecution
  | conflict =>
    rw [PlanLoop.step]
    split_ifs
    · obtain ⟨p, hrun, hp⟩ := h
      exact ⟨requeueTasks p (l.inFlight.map Task.id), by simp [requeueBatchTasksForRetry, hrun],
        hp.requeueTasks _⟩
    · exact h

end PlanLoop

end Hopclaw
