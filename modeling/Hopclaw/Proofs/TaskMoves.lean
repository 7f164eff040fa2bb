import Hopclaw.Agent.PlanExecutor
import Hopclaw.Proofs.PlanTasks

/-! # What the operations do to the statuses

Each operation on a plan edits it task by task: a task stays the one the planner stated, and its
status stays or makes one of the moves of the operation. What follows for a composed operation is
read off the moves. -/

namespace Hopclaw.Planner

open GoStrings Relation

namespace Plan

variable {p q : Plan} {id : String} {i : ℕ} {t u : Task} {f : Task → Task}

/-! ## Moves -/

/-- The task as the planner stated it, without what its execution adds. -/
def stated (t : Task) : Task :=
  { t with status := .unset, error := "", resultSummary := "" }

theorem id_of_stated (h : stated u = stated t) : u.id = t.id :=
  (congrArg Task.id h :)

theorem dependsOn_of_stated (h : stated u = stated t) : u.dependsOn = t.dependsOn :=
  (congrArg Task.dependsOn h :)

/-- The task is the one that was stated, and keeps its status or moves as `A` allows. -/
def Via (A : Task → TaskStatus → Prop) (t u : Task) : Prop :=
  u.id = t.id ∧ stated u = stated t ∧ (u.status = t.status ∨ A t u.status)

/-- The task is the one that was stated, and keeps a status that ends it. -/
def Kept (t u : Task) : Prop :=
  u.id = t.id ∧ stated u = stated t ∧ (t.status.terminal = true → u.status = t.status)

section Via

variable {A B : Task → TaskStatus → Prop}

theorem Via.refl (t : Task) : Via A t t := ⟨rfl, rfl, .inl rfl⟩

theorem Via.kept (hA : ∀ s, A t s → t.status.terminal = false) (h : Via A t u) : Kept t u := by
  refine ⟨h.1, h.2.1, fun hterm => h.2.2.resolve_right fun ha => ?_⟩
  rw [hA u.status ha] at hterm
  cases hterm

theorem Kept.refl (t : Task) : Kept t t := ⟨rfl, rfl, fun _ => rfl⟩

theorem Kept.trans {v : Task} (h1 : Kept t u) (h2 : Kept u v) : Kept t v := by
  refine ⟨h2.1.trans h1.1, h2.2.1.trans h1.2.1, fun hterm => ?_⟩
  have hu := h1.2.2 hterm
  exact (h2.2.2 (hu ▸ hterm)).trans hu

end Via

/-! ## The operations -/

section Operations

variable (p) (id) (ids : List String) (reason : String)

/-- One id of `markRunning`: the tracking stays right, the active task is left to the end. -/
def markOneRunning : Plan :=
  match p.findIdx id, p.findTask id with
  | some i, some t =>
    if t.status = .queued then
      { p.setTask i fun t => { t with status := .running, error := "" } with
        runningTasks := appendUnique p.runningTasks id }
    else p
  | _, _ => p

theorem markRunning_eq : p.markRunning ids = if (ids.foldl markOneRunning p).activeTask = "" then
      { ids.foldl markOneRunning p with
        activeTask := (ids.foldl markOneRunning p).runningTasks.headD "" }
      else ids.foldl markOneRunning p := rfl

/-- The edit of the tasks in `markOneRunning`. -/
def startOne : Plan :=
  p.editTask id (fun t => t.status = .queued) fun t => { t with status := .running, error := "" }

theorem markOneRunning_cases :
    p.markOneRunning id = p ∧ p.startOne id = p ∨
    p.markOneRunning id =
        { p.startOne id with runningTasks := appendUnique p.runningTasks id } ∧
      ∃ t ∈ p.tasks, t.id = id ∧ t.status = .queued := by
  unfold markOneRunning startOne editTask
  obtain ⟨hi, ht, -⟩ | ⟨i, t, hi, ht, hget, hid⟩ := p.find_cases id <;> rw [hi, ht]
  · exact .inl ⟨rfl, rfl⟩
  by_cases hq : t.status = .queued
  · exact .inr ⟨by simp [hq], t, List.mem_of_getElem? hget, hid, hq⟩
  · exact .inl (by simp [hq])

theorem markOneRunning_tasks : (p.markOneRunning id).tasks = (p.startOne id).tasks := by
  obtain ⟨hsame, hsame'⟩ | ⟨hmarked, -⟩ := p.markOneRunning_cases id
  · rw [hsame, hsame']
  · rw [hmarked]

/-- The edit of the tasks in `markSkipped`. -/
def skipOne : Plan :=
  p.editTask id (fun t => t.status = .queued || t.status = .running)
    fun t => { t with status := .skipped, error := trimSpace reason }

theorem markSkipped_eq :
    p.markSkipped id reason =
      { p.skipOne id reason with
        runningTasks := removeString (p.skipOne id reason).runningTasks id
        activeTask := if (p.skipOne id reason).activeTask = id then ""
          else (p.skipOne id reason).activeTask } := rfl

/-- The edit of the tasks in `markFinished`. -/
def finishOne (f : Task → Task) : Plan :=
  p.editTask id (fun t => t.status = .running) f

theorem markFinished_cases (f : Task → Task) :
    p.markFinished id f = p ∧ p.finishOne id f = p ∨
    p.markFinished id f = (p.finishOne id f).releaseRunning id := by
  unfold markFinished finishOne editTask
  rcases p.findIdx id with _ | i <;> rcases p.findTask id with _ | t <;> try exact .inr rfl
  by_cases hr : t.status = .running <;> simp [hr]

theorem markFinished_tasks (f : Task → Task) :
    (p.markFinished id f).tasks = (p.finishOne id f).tasks := by
  obtain ⟨hsame, hsame'⟩ | hfinished := p.markFinished_cases id f
  · rw [hsame, hsame']
  · rw [hfinished]
    rfl

/-- A running task moves to the status `s`. -/
def Ends (s : TaskStatus) (t : Task) (s' : TaskStatus) : Prop :=
  t.status = .running ∧ s' = s

theorem markFinished_edits {s : TaskStatus}
    (hf : ∀ t, (f t).id = t.id ∧ stated (f t) = stated t ∧ (f t).status = s) :
    Edits (Via fun t s' => t.id = id ∧ Ends s t s') p (p.markFinished id f) := by
  rw [Edits, markFinished_tasks]
  refine editTask_edits Via.refl fun t hid hrun => ?_
  exact ⟨(hf t).1, (hf t).2.1, .inr ⟨hid, by simpa using hrun, (hf t).2.2⟩⟩

theorem markCompleted_edits (summary : String) :
    Edits (Via fun t s => t.id = id ∧ Ends .completed t s) p (p.markCompleted id summary) :=
  p.markFinished_edits id fun _ => ⟨rfl, rfl, rfl⟩

theorem markFailed_edits (errMsg : String) :
    Edits (Via fun t s => t.id = id ∧ Ends .failed t s) p (p.markFailed id errMsg) :=
  p.markFinished_edits id fun _ => ⟨rfl, rfl, rfl⟩

/-- A queued task with one of the ids is started. -/
def Started (ids : List String) (t : Task) (s : TaskStatus) : Prop :=
  t.status = .queued ∧ t.id ∈ ids ∧ s = .running

theorem markOneRunning_edits : Edits (Via (Started [id])) p (p.markOneRunning id) := by
  rw [Edits, markOneRunning_tasks]
  refine editTask_edits Via.refl fun t hid hq => ?_
  exact ⟨rfl, rfl, .inr ⟨by simpa using hq, by simp [hid], rfl⟩⟩

theorem markRunning_edits : Edits (Via (Started ids)) p (p.markRunning ids) := by
  have hloop : ∀ (done ids : List String) (q : Plan), Edits (Via (Started done)) p q →
      Edits (Via (Started (done ++ ids))) p (ids.foldl markOneRunning q) := by
    intro done ids
    induction ids generalizing done with
    | nil =>
      intro q h
      rwa [List.append_nil]
    | cons id ids ih =>
      intro q h
      rw [List.append_cons]
      refine ih (done ++ [id]) _ (Edits.trans (fun t u v htu huv => ?_) h (q.markOneRunning_edits id))
      refine ⟨huv.1.trans htu.1, huv.2.1.trans htu.2.1, ?_⟩
      -- a task that was started before this id is not queued any more
      obtain hsame | ⟨hq, hid, hrun⟩ := huv.2.2
      · rw [hsame]
        exact htu.2.2.imp_right fun ⟨hq, hid, hrun⟩ => ⟨hq, by simp [hid], hrun⟩
      · obtain hsame | ⟨-, -, hrun'⟩ := htu.2.2
        · refine .inr ⟨hsame ▸ hq, ?_, hrun⟩
          rw [← htu.1]
          simp [List.mem_singleton.mp hid]
        · rw [hrun'] at hq
          cases hq
  have hall := hloop [] ids p (Edits.refl Via.refl p)
  rw [markRunning_eq]
  split_ifs <;> exact hall

theorem cancelRunning_edits : Edits (Via (Ends .cancelled)) p (p.cancelRunning reason) := by
  refine edits_map rfl fun t _ => ?_
  split_ifs with hrun
  · exact ⟨rfl, rfl, .inr ⟨hrun, rfl⟩⟩
  · exact Via.refl t

theorem requeueTasks_edits :
    Edits (Via fun t s => t.id ∈ ids ∧ Ends .queued t s) p (requeueTasks p ids) := by
  unfold requeueTasks
  split_ifs
  · exact Edits.refl Via.refl p
  · refine edits_map rfl fun t _ => ?_
    split_ifs with hrun
    · exact ⟨rfl, rfl, .inr ⟨hrun.1, hrun.2, rfl⟩⟩
    · exact Via.refl t

theorem normalizeExecution_edits :
    Edits (fun t u => u.id = t.id ∧ stated u = stated t ∧ u.status = t.status.normalize) p
      p.normalizeExecution :=
  edits_map rfl fun _ _ => ⟨rfl, rfl, rfl⟩

/-- No status is left that normalizing would change. -/
def Normal : Prop :=
  ∀ t ∈ p.tasks, t.status.normalize = t.status

theorem normal_normalizeExecution : p.normalizeExecution.Normal := by
  intro u hu
  obtain ⟨t, -, -, -, hstatus⟩ := p.normalizeExecution_edits.of_mem hu
  rw [hstatus, TaskStatus.normalize_normalize]

theorem markSkipped_edits :
    Edits (Via fun t s => (t.status = .queued ∨ t.status = .running) ∧ s = .skipped) p
      (p.markSkipped id reason) := by
  show Edits _ p (p.skipOne id reason)
  exact editTask_edits Via.refl fun t _ hopen => ⟨rfl, rfl, .inr ⟨by simpa using hopen, rfl⟩⟩

end Operations

theorem SkipsTo.via (h : SkipsTo p q) :
    Edits (Via fun t s => t.status = .queued ∧ s = .skipped) p q := by
  refine h.edits.mono fun t u htu => ?_
  obtain rfl | ⟨hq, e, rfl⟩ := htu
  · exact Via.refl _
  · exact ⟨rfl, rfl, .inr ⟨hq, rfl⟩⟩

/-! ## Along the table -/

/-- A move of `AllowedTaskTransitions`. -/
def Allowed (s s' : TaskStatus) : Prop := validTaskTransition s s' = true

/-- The task is the one that was stated, and its status has moved along the table. -/
def Follows (t u : Task) : Prop :=
  u.id = t.id ∧ stated u = stated t ∧ ReflTransGen Allowed t.status u.status

theorem Follows.refl (t : Task) : Follows t t := ⟨rfl, rfl, .refl⟩

/-- No move of the table leaves a status that ends a task. -/
theorem terminal_stays {s s' : TaskStatus} (h : ReflTransGen Allowed s s')
    (hterm : s.terminal = true) : s' = s := by
  obtain rfl | ⟨v, hv, -⟩ := h.cases_head
  · rfl
  · cases s <;> simp_all [Allowed, validTaskTransition, allowedTaskTransitions, TaskStatus.terminal]

theorem Follows.kept (h : Follows t u) : Kept t u :=
  ⟨h.1, h.2.1, terminal_stays h.2.2⟩

theorem followsTrans {r : Plan} (h1 : Edits Follows p q) (h2 : Edits Follows q r) :
    Edits Follows p r :=
  Edits.trans (fun _ _ _ htu huv =>
    ⟨huv.1.trans htu.1, huv.2.1.trans htu.2.1, htu.2.2.trans huv.2.2⟩) h1 h2

theorem follows_of_via {A : Task → TaskStatus → Prop} (h : Edits (Via A) p q)
    (hA : ∀ t s, A t s → Allowed t.status s) : Edits Follows p q := by
  refine h.mono fun t u ⟨hid, hstated, hstatus⟩ => ⟨hid, hstated, ?_⟩
  obtain hsame | hmove := hstatus
  · rw [hsame]
  · exact .single (hA t _ hmove)

theorem follows_foldl {α : Type} {f : Plan → α → Plan} (hf : ∀ q a, Edits Follows q (f q a))
    (l : List α) (p : Plan) : Edits Follows p (l.foldl f p) :=
  List.foldlRecOn l f (Edits.refl Follows.refl p) fun q hq a _ => followsTrans hq (hf q a)

/-- The operations of `planner/state.go` that write statuses. -/
inductive StateOp
  | markRunning (ids : List String)
  | markCompleted (id summary : String)
  | markFailed (id errMsg : String)
  | markSkipped (id reason : String)
  | skipDependentsOf (id : String)
  | cancelRunning (reason : String)

def apply (p : Plan) : StateOp → Plan
  | .markRunning ids => p.markRunning ids
  | .markCompleted id summary => p.markCompleted id summary
  | .markFailed id errMsg => p.markFailed id errMsg
  | .markSkipped id reason => p.markSkipped id reason
  | .skipDependentsOf id => p.skipDependentsOf id
  | .cancelRunning reason => p.cancelRunning reason

theorem follows_apply (p : Plan) (op : StateOp) : Edits Follows p (p.apply op) := by
  cases op with
  | markRunning ids =>
    refine follows_of_via (p.markRunning_edits ids) ?_
    rintro t s ⟨hq, -, rfl⟩
    rw [hq]
    rfl
  | markCompleted id summary =>
    refine follows_of_via (p.markCompleted_edits id summary) ?_
    rintro t s ⟨-, hrun, rfl⟩
    rw [hrun]
    rfl
  | markFailed id errMsg =>
    refine follows_of_via (p.markFailed_edits id errMsg) ?_
    rintro t s ⟨-, hrun, rfl⟩
    rw [hrun]
    rfl
  | markSkipped id reason =>
    refine follows_of_via (p.markSkipped_edits id reason) ?_
    rintro t s ⟨hq | hr, rfl⟩
    · rw [hq]
      rfl
    · rw [hr]
      rfl
  | skipDependentsOf id =>
    refine follows_of_via (p.skipDependentsOf_skipsTo id).via ?_
    rintro t s ⟨hq, rfl⟩
    rw [hq]
    rfl
  | cancelRunning reason =>
    refine follows_of_via (p.cancelRunning_edits reason) ?_
    rintro t s ⟨hrun, rfl⟩
    rw [hrun]
    rfl

theorem follows_failTask (p : Plan) (id errMsg : String) :
    Edits Follows p ((p.markFailed id errMsg).skipDependentsOf id) :=
  followsTrans (p.follows_apply (.markFailed id errMsg)) (follows_apply _ (.skipDependentsOf id))

theorem follows_skipQueuedTasks (p : Plan) (reason : String) :
    Edits Follows p (skipQueuedTasks p reason) := by
  refine follows_foldl (fun q i => ?_) _ p
  split
  · split_ifs
    · exact q.follows_apply (.markSkipped _ reason)
    · exact Edits.refl Follows.refl q
  · exact Edits.refl Follows.refl q

theorem follows_abortPlan (p : Plan) : Edits Follows p (abortPlan p) :=
  followsTrans (p.follows_apply (.cancelRunning _)) (follows_skipQueuedTasks _ _)

/-- The results of a batch, before a failure may end the plan. -/
theorem follows_foldl_applyResult (p : Plan) (results : List TaskExecutionResult) :
    Edits Follows p (results.foldl applyResult p) := by
  refine follows_foldl (fun q r => ?_) results p
  unfold applyResult
  split
  · exact q.follows_apply (.markCompleted r.taskID r.summary)
  · exact q.follows_failTask r.taskID r.error
  · exact Edits.refl Follows.refl q

theorem follows_applyResults (p : Plan) (results : List TaskExecutionResult) :
    Edits Follows p (applyResults p results) := by
  have happlied := p.follows_foldl_applyResult results
  unfold applyResults
  split_ifs
  · exact followsTrans happlied (follows_abortPlan _)
  · exact happlied

end Plan

end Hopclaw.Planner
