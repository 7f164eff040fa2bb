import Hopclaw.Agent.Planning
import Hopclaw.Proofs.PlanProgress

/-! # Batches without conflicts

The executor selects tasks to run side by side by the metadata of the execution graph. The metadata
of a task that is in the graph already is carried over from there by its id, so it is the plan's own
as long as an id stands for the same resources in every plan of the run. A forced replanning keeps
the graph of the plan before; a recovery clears it. -/

namespace Hopclaw

open List GoStrings Interleaving Planner Planner.Plan ExecutionTask PlanLoop

/-! ## Footprints -/

theorem normalizeExecutionStrings_idem (values : List String) :
    normalizeExecutionStrings (normalizeExecutionStrings values) =
      normalizeExecutionStrings values := by
  have hperm := (dedupeStrings values).perm_insertionSort (· ≤ ·)
  have hdeduped := (deduped_dedupeStrings values).perm hperm
  unfold normalizeExecutionStrings
  rw [hdeduped.dedupeStrings_eq]
  exact List.Pairwise.insertionSort_eq (pairwise_insertionSort (· ≤ ·) _)

/-- The part of an entry that decides what it conflicts with. -/
structure Footprint where
  id : String
  resourceKeys : List String
  sideEffectScope : SideEffectScope
  mergeStrategy : MergeStrategy

def ExecutionTask.footprint (task : ExecutionTask) : Footprint :=
  ⟨task.id, task.resourceKeys, task.sideEffectScope, task.mergeStrategy⟩

/-- What the plan's task itself says about its footprint. -/
def Planner.Task.footprint (task : Task) : Footprint :=
  ⟨trimSpace task.id, executionTaskResourceKeys task, executionTaskSideEffectScope task,
    executionTaskMergeStrategy task⟩

theorem executionTaskSideEffectScope_ne_unset (t : Task) :
    executionTaskSideEffectScope t ≠ .unset := by
  unfold executionTaskSideEffectScope
  split <;> simp

theorem executionTaskMergeStrategy_ne_unset (t : Task) : executionTaskMergeStrategy t ≠ .unset := by
  unfold executionTaskMergeStrategy
  split <;> simp

variable {e : ExecutionTask}

/-- Normalizing an entry with a task's footprint keeps the footprint. -/
theorem normalizeExecutionTask_footprint {t : Task} (h : e.footprint = t.footprint) :
    (normalizeExecutionTask e).footprint = t.footprint := by
  simp only [footprint, Task.footprint, Footprint.mk.injEq] at h ⊢
  obtain ⟨hid, hkeys, hscope, hmerge⟩ := h
  refine ⟨?_, ?_, ?_, ?_⟩
  · show trimSpace e.id = _
    rw [hid, trimSpace_trimSpace]
  · show normalizeExecutionStrings e.resourceKeys = _
    rw [hkeys, executionTaskResourceKeys, normalizeExecutionStrings_idem]
  · show (if e.sideEffectScope = .unset then _ else e.sideEffectScope) = _
    rw [hscope, if_neg (executionTaskSideEffectScope_ne_unset t)]
  · show (if e.mergeStrategy = .unset then _ else e.mergeStrategy) = _
    rw [hmerge, if_neg (executionTaskMergeStrategy_ne_unset t)]

section Conflicts

variable {a a' b b' : ExecutionTask}

theorem executionTasksShareResourceKey_comm (left right : List String) :
    executionTasksShareResourceKey left right = executionTasksShareResourceKey right left := by
  rw [Bool.eq_iff_iff]
  simp only [executionTasksShareResourceKey, any_eq_true, decide_eq_true_eq, mem_map]
  constructor <;>
  · rintro ⟨x, hx, y, hy, hxy⟩
    exact ⟨y, hy, x, hx, hxy.symm⟩

theorem executionTasksConflict_comm (a b : ExecutionTask) :
    executionTasksConflict a b = executionTasksConflict b a := by
  unfold executionTasksConflict
  rw [executionTasksShareResourceKey_comm a.resourceKeys, Bool.or_comm (decide (a.id = "")),
    Bool.or_comm (decide (a.mergeStrategy = _)), Bool.or_comm (decide (a.sideEffectScope = _)),
    Bool.or_comm (executionTaskHasUnknownMutableScope a),
    Bool.or_comm (decide (a.sideEffectScope ≠ _))]
  simp only [eq_comm]

/-- Conflicts are decided by the footprints. -/
theorem executionTasksConflict_congr (ha : a.footprint = a'.footprint)
    (hb : b.footprint = b'.footprint) :
    executionTasksConflict a b = executionTasksConflict a' b' := by
  simp only [footprint, Footprint.mk.injEq] at ha hb
  unfold executionTasksConflict executionTaskHasUnknownMutableScope
  rw [ha.1, ha.2.1, ha.2.2.1, ha.2.2.2, hb.1, hb.2.1, hb.2.2.1, hb.2.2.2]

end Conflicts

variable (sha : String → String)

theorem executionTaskFromPlanTask_footprint (run : PlannedRun) (t : Task) :
    (executionTaskFromPlanTask sha run t).footprint = t.footprint :=
  normalizeExecutionTask_footprint rfl

/-- The footprint is part of what the planner stated. -/
theorem footprint_of_stated {t u : Task} (h : stated u = stated t) : u.footprint = t.footprint :=
  (congrArg Task.footprint h :)

/-! ## The graph of a plan -/

section Graph

variable {p q : Plan} {g : ExecutionGraph} {run : PlannedRun} {t : Task}

/-- The plan with what its execution adds. -/
def Restated (p q : Plan) : Prop :=
  Edits (fun t u => stated u = stated t) p q

/-- The graph has an entry for each task of the plan, with the task's own footprint. -/
def Mirrors (p : Plan) (g : ExecutionGraph) : Prop :=
  g.tasks.map ExecutionTask.footprint = p.tasks.map Task.footprint

/-- Every task can be addressed by its id as it is written. -/
structure Addressed (p : Plan) : Prop where
  named : p.Named
  trimmed : ∀ t ∈ p.tasks, trimSpace t.id = t.id

theorem Addressed.restated (h : Addressed p) (hpq : Restated p q) : Addressed q where
  named := hpq.named (fun _ _ h => id_of_stated h) h.named
  trimmed := by
    intro u hu
    obtain ⟨t, ht, hstated⟩ := hpq.of_mem hu
    rw [id_of_stated hstated]
    exact h.trimmed t ht

theorem Restated.footprints (h : Restated p q) :
    q.tasks.map Task.footprint = p.tasks.map Task.footprint := by
  refine Eq.symm (forall₂_eq_eq_eq ▸ ?_)
  refine forall₂_map_left_iff.mpr (forall₂_map_right_iff.mpr ?_)
  exact List.Forall₂.imp (fun _ _ hstated => (footprint_of_stated hstated).symm) h

theorem Mirrors.restated (h : Mirrors p g) (hpq : Restated p q) : Mirrors q g :=
  h.trans hpq.footprints.symm

/-- An edit of entries that leaves their footprints alone. -/
theorem Mirrors.setTask (h : Mirrors p g) (id : String) {f : ExecutionTask → ExecutionTask}
    (hf : ∀ e, (f e).footprint = e.footprint) : Mirrors p (g.setTask id f) := by
  unfold ExecutionGraph.setTask
  split_ifs
  · exact h
  · split
    · exact (map_modify_eq fun e _ => hf e).trans h
    · exact h

theorem Mirrors.foldl {α : Type} {f : ExecutionGraph → α → ExecutionGraph}
    (hf : ∀ g a, Mirrors p g → Mirrors p (f g a)) (l : List α) (h : Mirrors p g) :
    Mirrors p (l.foldl f g) :=
  foldlRecOn l f h fun g hg a _ => hf g a hg

/-- An entry under the id of a task has the task's footprint. -/
theorem Mirrors.entry (h : Mirrors p g) (hp : Addressed p) (ht : t ∈ p.tasks) (he : e ∈ g.tasks)
    (hid : trimSpace e.id = t.id) : e.footprint = t.footprint := by
  have hmem : e.footprint ∈ p.tasks.map Task.footprint := h ▸ mem_map_of_mem he
  obtain ⟨u, hu, hfoot⟩ := mem_map.mp hmem
  have hueid : e.id = u.id := by
    have := congrArg Footprint.id hfoot
    exact this.symm.trans (hp.trimmed u hu)
  rw [hueid, hp.trimmed u hu] at hid
  rw [← hp.named.eq_of_id hu ht hid, hfoot]

theorem Mirrors.previous (h : Mirrors p g) (hp : Addressed p) (ht : t ∈ p.tasks)
    (he : g.previous? t.id = some e) : e.footprint = t.footprint := by
  obtain ⟨e, hfind, rfl⟩ := Option.map_eq_some_iff.mp he
  have hid := find?_some hfind
  simp only [Bool.and_eq_true, decide_eq_true_eq] at hid
  exact normalizeExecutionTask_footprint
    (h.entry hp ht (mem_reverse.mp (mem_of_find?_eq_some hfind)) hid.2)

/-- The selection goes by the task's own footprint. -/
theorem Mirrors.batchMetadata (h : Mirrors p g) (hp : Addressed p) (ht : t ∈ p.tasks) :
    (batchMetadata sha run g t).footprint = t.footprint := by
  unfold Hopclaw.batchMetadata
  split
  · rename_i e he
    unfold ExecutionGraph.task? at he
    split_ifs at he
    have hid : e.id = t.id := by simpa using find?_some he
    refine normalizeExecutionTask_footprint (h.entry hp ht (mem_of_find?_eq_some he) ?_)
    rw [hid, hp.trimmed t ht]
  · exact executionTaskFromPlanTask_footprint sha run t

end Graph

/-! ## The executor restates the plan -/

section Restated

variable {p q r : Plan} {A : Task → TaskStatus → Prop}

theorem restated_of_via (h : Edits (Via A) p q) : Restated p q :=
  h.mono fun _ _ htu => htu.2.1

theorem Restated.refl (p : Plan) : Restated p p :=
  Edits.refl (R := fun t u => stated u = stated t) (fun _ => rfl) p

theorem restated_normalizeExecution (p : Plan) : Restated p p.normalizeExecution :=
  p.normalizeExecution_edits.mono fun _ _ htu => htu.2.1

theorem restated_applyResults (p : Plan) (results : List TaskExecutionResult) :
    Restated p (applyResults p results) :=
  (p.follows_applyResults results).mono fun _ _ htu => htu.2.1

end Restated

/-! ## The runs whose graph is that of their plan -/

/-- The graph of the run is made of the footprints of its plan. -/
structure Faithful (run : PlannedRun) : Prop where
  bare : run.plan = none → run.executionGraph = none
  addressed : ∀ p, run.plan = some p → Addressed p
  mirrors : ∀ p g, run.plan = some p → run.executionGraph = some g → Mirrors p g

/-- The entry gives the task no other resources, scope or merge strategy than its own. -/
def Agrees (t : Task) (e : ExecutionTask) : Prop :=
  (e.resourceKeys = [] ∨ e.resourceKeys = t.footprint.resourceKeys) ∧
    e.sideEffectScope = t.footprint.sideEffectScope ∧ e.mergeStrategy = t.footprint.mergeStrategy

instance (t : Task) (e : ExecutionTask) : Decidable (Agrees t e) :=
  inferInstanceAs (Decidable (_ ∧ _ ∧ _))

/-- Every task of the plan that the graph has under its id agrees with it. -/
def Reuses (graph : Option ExecutionGraph) (p : Plan) : Prop :=
  ∀ t ∈ p.tasks, ∀ e ∈ graph.bind fun g => g.previous? t.id, Agrees t e

instance (graph : Option ExecutionGraph) (p : Plan) : Decidable (Reuses graph p) :=
  inferInstanceAs (Decidable (∀ _ ∈ _, ∀ _ ∈ _, Agrees ..))

section Faithful

variable {p q : Plan} {run : PlannedRun} {t : Task}

theorem agrees_of_footprint (h : e.footprint = t.footprint) : Agrees t e := by
  refine ⟨.inr ?_, ?_, ?_⟩ <;> rw [← h] <;> rfl

theorem Reuses.restated {graph : Option ExecutionGraph} (h : Reuses graph p)
    (hpq : Restated p q) : Reuses graph q := by
  intro u hu e he
  obtain ⟨t, ht, hstated⟩ := hpq.of_mem hu
  rw [id_of_stated hstated] at he
  rw [Agrees, footprint_of_stated hstated]
  exact h t ht e he

theorem Faithful.reuses (h : Faithful run) (hplan : run.plan = some p) :
    Reuses run.executionGraph p := by
  intro t ht e he
  obtain ⟨g, hg, he⟩ := Option.bind_eq_some_iff.mp he
  exact agrees_of_footprint ((h.mirrors p g hplan hg).previous (h.addressed p hplan) ht he)

/-- An entry that is built for a task has the task's footprint if the one before agrees with it. -/
theorem buildExecutionTask_footprint {existing : Option ExecutionGraph} (htrim : trimSpace t.id = t.id)
    (h : ∀ e ∈ existing.bind fun g => g.previous? t.id, Agrees t e) :
    (buildExecutionTask sha run existing t).footprint = t.footprint := by
  have hderived := executionTaskFromPlanTask_footprint sha run t
  have hid : (executionTaskFromPlanTask sha run t).id = t.id :=
    (congrArg Footprint.id hderived).trans htrim
  unfold buildExecutionTask
  dsimp only
  rw [hid]
  split
  · rename_i e he
    obtain ⟨hkeys, hscope, hmerge⟩ := h e he
    simp only [footprint] at hderived ⊢
    rw [← hderived] at hkeys hscope hmerge ⊢
    simp only [carryOver, Footprint.mk.injEq]
    refine ⟨trivial, ?_, ?_, ?_⟩
    · obtain hnil | hkeys := hkeys
      · rw [if_neg (not_not.mpr hnil)]
      · rw [hkeys, ite_self]
    · rw [hscope, ite_self]
    · rw [hmerge, ite_self]
  · exact hderived

/-- The graph is rebuilt with the plan's own footprints if the graph before agrees with the plan. -/
theorem faithful_ensureExecutionGraph (hplan : run.plan = some p) (hp : Addressed p)
    (hreuses : Reuses run.executionGraph p) : Faithful (ensureExecutionGraph sha run) := by
  have hnormal := restated_normalizeExecution p
  have hp' := hp.restated hnormal
  unfold ensureExecutionGraph
  rw [hplan]
  refine ⟨nofun, fun q hq => ?_, fun q g hq hg => ?_⟩
  · obtain rfl := Option.some.inj hq
    exact hp'
  · obtain rfl := Option.some.inj hq
    obtain rfl := Option.some.inj hg
    show map _ (map _ _) = _
    rw [map_map]
    refine map_congr_left fun t ht => ?_
    exact buildExecutionTask_footprint sha (hp'.trimmed t ht) (hreuses.restated hnormal t ht)

theorem Faithful.ensureExecutionGraph (h : Faithful run) :
    Faithful (ensureExecutionGraph sha run) := by
  cases hplan : run.plan with
  | none =>
    unfold Hopclaw.ensureExecutionGraph
    rw [hplan]
    exact h
  | some p =>
    exact faithful_ensureExecutionGraph sha hplan (h.addressed p hplan) (h.reuses hplan)

/-- What the executor does to the plan and to the graph between two rebuilds. -/
theorem Faithful.edit (h : Faithful run) {f : Plan → Plan} {k : ExecutionGraph → ExecutionGraph}
    (hf : ∀ p, Restated p (f p)) (hk : ∀ p g, Mirrors p g → Mirrors p (k g)) :
    Faithful { run with plan := run.plan.map f, executionGraph := run.executionGraph.map k } where
  bare := fun hnone => by
    rw [h.bare (Option.map_eq_none_iff.mp hnone)]
    rfl
  addressed := by
    intro q hq
    obtain ⟨p, hp, rfl⟩ := Option.map_eq_some_iff.mp hq
    exact (h.addressed p hp).restated (hf p)
  mirrors := by
    intro q g hq hg
    obtain ⟨p, hp, rfl⟩ := Option.map_eq_some_iff.mp hq
    obtain ⟨g₀, hg0, rfl⟩ := Option.map_eq_some_iff.mp hg
    exact hk _ g₀ ((h.mirrors p g₀ hp hg0).restated (hf p))

end Faithful

/-! ## Selecting from a faithful graph -/

section Selection

variable {run : PlannedRun} {g : ExecutionGraph} {p : Plan}

/-- No two tasks of the batch conflict by the metadata the selection goes by. -/
def Compatible (run : PlannedRun) (g : ExecutionGraph) (batch : List Task) : Prop :=
  ∀ a ∈ batch, ∀ b ∈ batch,
    executionTasksConflict (batchMetadata sha run g a) (batchMetadata sha run g b) = false

variable {sha}

theorem Compatible.append {batch : List Task} {t : Task} (h : Compatible sha run g batch)
    (ht : ∀ a ∈ batch, executionTasksConflict (batchMetadata sha run g t)
      (batchMetadata sha run g a) = false) : Compatible sha run g (batch ++ [t]) := by
  intro a ha b hb
  rw [mem_append, mem_singleton] at ha hb
  obtain ha | rfl := ha
  · obtain hb | rfl := hb
    · exact h a ha b hb
    · rw [executionTasksConflict_comm]
      exact ht a ha
  · obtain hb | rfl := hb
    · exact ht b hb
    · simp [executionTasksConflict]

theorem Compatible.selectLoop (ready : List Task) {selected : List Task}
    (h : Compatible sha run g selected) :
    Compatible sha run g
      (selectLoop sha run g ready selected (selected.map (batchMetadata sha run g))) := by
  induction ready generalizing selected with
  | nil => exact h
  | cons task rest ih =>
    rw [Hopclaw.selectLoop]
    split_ifs with hconflict hserial
    · exact ih h
    all_goals
      have happend : Compatible sha run g (selected ++ [task]) := by
        refine h.append fun a ha => ?_
        simp only [any_map, any_eq_true, not_exists, not_and, Bool.not_eq_true] at hconflict
        exact hconflict a ha
    · exact happend
    · have hmap := ih happend
      rwa [map_append, map_singleton] at hmap

variable (sha)

/-- Whatever tasks of the plan are ready, the batch has no two that conflict by what the plan says
    about them. -/
def ConflictFree (run : PlannedRun) : Prop :=
  ∀ plan, run.plan = some plan → plan.strategy ≠ .serial →
    ∀ ready : List Task, (∀ t ∈ ready, t ∈ plan.tasks) →
      ∀ a ∈ (selectExecutionBatch sha run ready).2,
      ∀ b ∈ (selectExecutionBatch sha run ready).2,
        executionTasksConflict (executionTaskFromPlanTask sha run a)
          (executionTaskFromPlanTask sha run b) = false

theorem Faithful.conflictFree (h : Faithful run) : ConflictFree sha run := by
  intro p hplan hstrategy ready hready a ha b hb
  have hself : ∀ t, executionTasksConflict (executionTaskFromPlanTask sha run t)
      (executionTaskFromPlanTask sha run t) = false := by simp [executionTasksConflict]
  have hone : ∀ batch : List Task, batch.length ≤ 1 → a ∈ batch → b ∈ batch → a = b := by
    intro batch hlen ha hb
    obtain ⟨t, rfl⟩ : ∃ t, batch = [t] :=
      length_eq_one_iff.mp (le_antisymm hlen (length_pos_of_mem ha))
    rw [mem_singleton.mp ha, mem_singleton.mp hb]
  unfold selectExecutionBatch at ha hb
  split_ifs at ha hb with hlen
  · rw [hone ready hlen ha hb]
    exact hself b
  have hfaithful := h.ensureExecutionGraph sha
  set run' := Hopclaw.ensureExecutionGraph sha run with hrun'
  have hplan' : run'.plan = some p.normalizeExecution := by
    rw [ensureExecutionGraph_plan, hplan]
    rfl
  obtain ⟨g, hg⟩ : ∃ g, run'.executionGraph = some g := by
    rw [hrun', Hopclaw.ensureExecutionGraph, hplan]
    exact ⟨_, rfl⟩
  dsimp only at ha hb
  rw [hplan', hg] at ha hb
  dsimp only at ha hb
  rw [if_neg (show p.normalizeExecution.strategy ≠ .serial from hstrategy)] at ha hb
  have hmirrors : Mirrors p g :=
    (hfaithful.mirrors _ g hplan' hg).trans (restated_normalizeExecution p).footprints
  split_ifs at ha hb with hnil
  · rw [hone _ (by simp) ha hb]
    exact hself b
  · -- the metadata in the graph has the footprint the plan gives the task
    have hmeta : ∀ t ∈ selectLoop sha run' g ready [] [],
        (batchMetadata sha run' g t).footprint =
          (executionTaskFromPlanTask sha run t).footprint := by
      intro t ht
      have hmem := hready t ((mem_selectLoop sha ht).resolve_left (by simp))
      rw [hmirrors.batchMetadata sha (h.addressed p hplan) hmem,
        executionTaskFromPlanTask_footprint]
    rw [← executionTasksConflict_congr (hmeta a ha) (hmeta b hb)]
    have hnone : Compatible sha run' g [] := by simp [Compatible]
    exact hnone.selectLoop ready a ha b hb

end Selection

/-! ## The selected batch -/

section Greedy

variable (run : PlannedRun) (g : ExecutionGraph)

theorem batchMetadata_id (t : Task) : (batchMetadata sha run g t).id = trimSpace t.id := by
  unfold batchMetadata
  split
  · rename_i e he
    unfold ExecutionGraph.task? at he
    split_ifs at he
    have hid : e.id = t.id := by simpa using find?_some he
    exact congrArg trimSpace hid
  · simp [executionTaskFromPlanTask, normalizeExecutionTask, trimSpace_trimSpace]

/-- Two tasks with different ids, one of which is to run alone. -/
theorem conflict_of_serialOnly {a b : ExecutionTask} (ha : a.id ≠ "") (hb : b.id ≠ "")
    (hne : a.id ≠ b.id) (hserial : b.mergeStrategy = .serialOnly) :
    executionTasksConflict a b = true := by
  simp [executionTasksConflict, ha, hb, hne, hserial]

/-- What the loop adds is a subsequence, and it leaves a task out only for one before it. -/
theorem selectLoop_spec (ready selected : List Task) (hblank : ∀ t ∈ ready, trimSpace t.id ≠ "")
    (hids : ready.Pairwise fun a b => trimSpace a.id ≠ trimSpace b.id) :
    ∃ sel, selectLoop sha run g ready selected (selected.map (batchMetadata sha run g)) =
        selected ++ sel ∧ sel.Sublist ready ∧
      ∀ t ∈ ready, t ∉ sel → ∃ s, (s ∈ selected ∨ s ∈ sel ∧ [s, t].Sublist ready) ∧
        executionTasksConflict (batchMetadata sha run g t) (batchMetadata sha run g s) =
          true := by
  induction ready generalizing selected with
  | nil => exact ⟨[], by simp [selectLoop]⟩
  | cons task rest ih =>
    have ih := fun sel => ih sel (fun t ht => hblank t (mem_cons_of_mem _ ht)) hids.of_cons
    rw [selectLoop]
    split_ifs with hconflict hserial
    · obtain ⟨sel, heq, hsub, hout⟩ := ih selected
      refine ⟨sel, heq, hsub.cons _, fun t ht hnot => ?_⟩
      obtain rfl | ht := mem_cons.mp ht
      · simp only [any_map, any_eq_true, Function.comp_apply] at hconflict
        obtain ⟨s, hs, hst⟩ := hconflict
        exact ⟨s, .inl hs, hst⟩
      · obtain ⟨s, hs, hst⟩ := hout t ht hnot
        exact ⟨s, hs.imp_right fun h => ⟨h.1, h.2.cons _⟩, hst⟩
    · refine ⟨[task], rfl, singleton_sublist.mpr mem_cons_self, fun t ht hnot => ?_⟩
      obtain rfl | ht := mem_cons.mp ht
      · exact absurd (mem_singleton_self _) hnot
      · refine ⟨task, .inr ⟨mem_singleton_self _, (singleton_sublist.mpr ht).cons_cons _⟩,
          conflict_of_serialOnly ?_ ?_ ?_ hserial⟩ <;> simp only [batchMetadata_id]
        · exact hblank t (mem_cons_of_mem _ ht)
        · exact hblank task mem_cons_self
        · exact ((pairwise_cons.mp hids).1 t ht).symm
    · obtain ⟨sel, heq, hsub, hout⟩ := ih (selected ++ [task])
      rw [map_append, map_singleton] at heq
      refine ⟨task :: sel, by rw [heq, append_assoc]; rfl, hsub.cons_cons _, fun t ht hnot => ?_⟩
      obtain rfl | ht := mem_cons.mp ht
      · exact absurd mem_cons_self hnot
      · obtain ⟨s, hs, hst⟩ := hout t ht fun h => hnot (mem_cons_of_mem _ h)
        refine ⟨s, ?_, hst⟩
        obtain hs | ⟨hs, hsub⟩ := hs
        · obtain hs | hs := mem_append.mp hs
          · exact .inl hs
          · rw [mem_singleton.mp hs]
            exact .inr ⟨mem_cons_self, (singleton_sublist.mpr ht).cons_cons _⟩
        · exact .inr ⟨mem_cons_of_mem _ hs, hsub.cons _⟩

end Greedy

/-- Of a list of ready tasks with distinct ids, none blank, the batch of a run that is not serial is
    a subsequence that starts with the first, has no two tasks that conflict, and leaves a task out
    only for a selected one before it that it conflicts with. -/
theorem selected_batch_maximal (run : PlannedRun) (p : Plan) (hplan : run.plan = some p)
    (hstrategy : p.strategy ≠ .serial) (ready : List Task) (hne : ready ≠ [])
    (hblank : ∀ t ∈ ready, trimSpace t.id ≠ "")
    (hids : ready.Pairwise fun a b => trimSpace a.id ≠ trimSpace b.id) :
    (selectExecutionBatch sha run ready).2 ≠ [] ∧
      (selectExecutionBatch sha run ready).2.Sublist ready ∧
      (selectExecutionBatch sha run ready).2.head? = ready.head? ∧
      (∀ a ∈ (selectExecutionBatch sha run ready).2,
        ∀ b ∈ (selectExecutionBatch sha run ready).2,
        executionTasksConflict (executionMetadataForTask sha run a)
          (executionMetadataForTask sha run b) = false) ∧
      ∀ t ∈ ready, t ∉ (selectExecutionBatch sha run ready).2 →
        ∃ s ∈ (selectExecutionBatch sha run ready).2, [s, t].Sublist ready ∧
          executionTasksConflict (executionMetadataForTask sha run t)
            (executionMetadataForTask sha run s) = true := by
  obtain ⟨first, rest, rfl⟩ := exists_cons_of_ne_nil hne
  have hself : ∀ e, executionTasksConflict e e = false := by simp [executionTasksConflict]
  unfold selectExecutionBatch
  split_ifs with hlen
  · obtain rfl : rest = [] := length_eq_zero_iff.mp (by simpa using hlen)
    simp [hself]
  have hplan' : (ensureExecutionGraph sha run).plan = some p.normalizeExecution := by
    rw [ensureExecutionGraph_plan, hplan]
    rfl
  obtain ⟨g, hg⟩ : ∃ g, (ensureExecutionGraph sha run).executionGraph = some g := by
    rw [ensureExecutionGraph, hplan]
    exact ⟨_, rfl⟩
  have hmeta : ∀ t, executionMetadataForTask sha run t =
      batchMetadata sha (ensureExecutionGraph sha run) g t := fun t => by
    simp only [executionMetadataForTask, hg]
  simp only [hmeta, hplan', hg, if_neg (show p.normalizeExecution.strategy ≠ .serial from hstrategy)]
  obtain ⟨sel, heq, hsub, hout⟩ :=
    selectLoop_spec sha (ensureExecutionGraph sha run) g (first :: rest) [] hblank hids
  rw [map_nil, nil_append] at heq
  -- nothing is selected before the first task
  obtain ⟨tail, htail⟩ : ∃ tail, sel = first :: tail := by
    rw [← heq, selectLoop]
    split_ifs with hconflict
    · simp at hconflict
    · exact ⟨[], rfl⟩
    · obtain ⟨tail, h, -⟩ := selectLoop_spec sha (ensureExecutionGraph sha run) g
        rest [first] (fun t ht => hblank t (mem_cons_of_mem _ ht)) hids.of_cons
      exact ⟨tail, h⟩
  have hnone : Compatible sha (ensureExecutionGraph sha run) g [] := by simp [Compatible]
  have hfree := hnone.selectLoop (first :: rest)
  rw [map_nil, heq] at hfree
  rw [heq, if_neg (by simp [htail])]
  refine ⟨by simp [htail], hsub, by simp [htail], hfree, fun t ht hnot => ?_⟩
  obtain ⟨s, hs | ⟨hs, hst⟩, hconflict⟩ := hout t ht hnot
  · cases hs
  · exact ⟨s, hs, hst, hconflict⟩

def delivery (id : String) : Task := { id, kind := .deliver }

/-- A run with a plan of one task. -/
def plannedRun : PlannedRun :=
  { id := "run-1", sessionID := "sess-1"
    plan := some { strategy := .mixed, tasks := [{ delivery "a" with status := .queued }] } }

/-- Of two deliveries the first is selected. -/
theorem one_delivery_at_a_time :
    let ready := [delivery "a", delivery "b"]
    (selectExecutionBatch id plannedRun ready).2 = [delivery "a"] ∧
    (selectExecutionBatch id plannedRun ready).2.head? = some (delivery "a") :=
  ⟨by decide +kernel, (selected_batch_maximal id plannedRun _ rfl (by decide)
    [delivery "a", delivery "b"] (by decide) (by decide +kernel) (by decide +kernel)).2.2.1⟩

/-- Two ids that differ in a blank: the second delivery is left out, although by the metadata it
    conflicts with nothing that is selected. -/
theorem untrimmed_delivery_left_out :
    (selectExecutionBatch id plannedRun [delivery "a", delivery "a "]).2 = [delivery "a"] ∧
    executionTasksConflict (executionMetadataForTask id plannedRun (delivery "a "))
      (executionMetadataForTask id plannedRun (delivery "a")) = false := by
  decide +kernel

/-! ## The executor keeps the graph faithful -/

variable {g : ExecutionGraph}

section Executor

variable {run : PlannedRun} {p q : Plan} {l : PlanLoop}

theorem Faithful.setPlan (h : Faithful run) (hplan : run.plan = some p) (hpq : Restated p q) :
    Faithful { run with plan := some q } where
  bare := nofun
  addressed := by
    intro r hr
    obtain rfl := Option.some.inj hr
    exact (h.addressed p hplan).restated hpq
  mirrors := by
    intro r g hr hg
    obtain rfl := Option.some.inj hr
    exact (h.mirrors p g hplan hg).restated hpq

theorem Mirrors.markExecutionTasksRunning (h : Mirrors p g) (ids : List String) :
    Mirrors p (markExecutionTasksRunning g ids) := by
  refine Mirrors.foldl (fun _ id hg => hg.setTask id fun _ => ?_) ids h
  rfl

theorem Mirrors.requeueExecutionTasksForRetry (h : Mirrors p g) (ids : List String) :
    Mirrors p (requeueExecutionTasksForRetry g ids) := by
  refine Mirrors.foldl (fun _ id hg => hg.setTask id fun e => ?_) ids h
  split_ifs <;> rfl

theorem Mirrors.applyResultToGraph (h : Mirrors p g) (result : TaskExecutionResult) :
    Mirrors p (applyResultToGraph g result) := by
  unfold Hopclaw.applyResultToGraph
  split
  · exact h.setTask _ fun _ => rfl
  · exact h.setTask _ fun _ => rfl
  · exact h

theorem syncedTask_footprint (t : Task) (e : ExecutionTask) :
    (syncedTask t e).footprint = e.footprint := by
  unfold syncedTask
  split_ifs <;> rfl

theorem Faithful.beginBatch (h : Faithful run) (tasks : List Task) :
    Faithful (beginBatch sha run tasks) :=
  (h.ensureExecutionGraph sha).edit (fun p => restated_of_via (p.markRunning_edits _))
    fun _ _ hg => hg.markExecutionTasksRunning _

theorem Faithful.syncExecutionGraphWithPlan (h : Faithful run) :
    Faithful (syncExecutionGraphWithPlan sha run) := by
  have hensured := h.ensureExecutionGraph sha
  unfold Hopclaw.syncExecutionGraphWithPlan
  dsimp only
  split
  · rename_i p g hplan hg
    refine ⟨fun hnone => ?_, hensured.addressed, fun q k hq hk => ?_⟩
    · rw [hensured.bare hnone] at hg
      cases hg
    · obtain rfl := Option.some.inj hk
      refine Mirrors.foldl (fun _ t hg => hg.setTask t.id ?_) p.tasks (hensured.mirrors q g hq hg)
      exact syncedTask_footprint t
  · exact hensured

theorem Faithful.applyBatchResults (h : Faithful run) (results : List TaskExecutionResult) :
    Faithful (applyBatchResults sha run results) := by
  refine Faithful.syncExecutionGraphWithPlan sha ?_
  refine (h.ensureExecutionGraph sha).edit (fun p => restated_applyResults p results) ?_
  exact fun _ _ hg => Mirrors.foldl (fun _ r hg => hg.applyResultToGraph r) results hg

theorem Faithful.requeueBatchTasksForRetry (h : Faithful run) (ids : List String) :
    Faithful (requeueBatchTasksForRetry run ids) := by
  unfold Hopclaw.requeueBatchTasksForRetry
  split
  · exact h
  · rename_i p hplan
    have hedited := h.edit (fun q => restated_of_via (q.requeueTasks_edits ids))
      fun _ _ hg => hg.requeueExecutionTasksForRetry ids
    rwa [hplan] at hedited

theorem Faithful.selectExecutionBatch (h : Faithful run) (ready : List Task) :
    Faithful (selectExecutionBatch sha run ready).1 := by
  have hensured := h.ensureExecutionGraph sha
  unfold Hopclaw.selectExecutionBatch
  split_ifs
  · exact h
  · dsimp only
    split
    · split_ifs <;> exact hensured
    · exact hensured

theorem Faithful.dispatch (h : Faithful l.run) : Faithful (l.dispatch sha).run := by
  unfold PlanLoop.dispatch
  split
  · exact h
  · rename_i p hplan
    have hnormal := h.setPlan hplan (restated_normalizeExecution p)
    have hnext : Faithful (nextBatch sha { l.run with plan := some p.normalizeExecution }
        p.normalizeExecution).1 := by
      unfold nextBatch
      split_ifs
      · exact hnormal
      · exact hnormal.selectExecutionBatch sha _
    dsimp only
    split_ifs
    · exact hnormal
    · exact hnext
    · exact hnext.beginBatch sha _

theorem Faithful.step (h : Faithful l.run) (s : LoopStep) : Faithful (l.step sha s).run := by
  cases s with
  | dispatch =>
    rw [PlanLoop.step]
    split_ifs
    · exact h.dispatch sha
    · exact h
  | results rs =>
    rw [PlanLoop.step]
    split_ifs
    · exact h
    · exact h.applyBatchResults sha rs
  | conflict =>
    rw [PlanLoop.step]
    split_ifs
    · exact h.requeueBatchTasksForRetry _
    · exact h

end Executor

/-! ## Planning -/

/-- A task with a goal of its own is not merged into another. -/
theorem restated_compactPlanForExecution {p : Plan} (hgoals : ∀ t ∈ p.tasks, trimSpace t.goal ≠ "") :
    Restated p (compactPlanForExecution p) := by
  have hnot : ¬ (compactFinalDeliverWrapper p).2 = true := by
    unfold compactFinalDeliverWrapper
    split_ifs
    · simp
    · split
      · simp
      · rename_i t ht
        have hcandidate : isCompactionCandidate t = false := by
          simp [isCompactionCandidate, hgoals t (mem_of_findTask ht).1]
        simp [hcandidate]
  have hloop : ∀ fuel, compactLoop fuel p = p := by
    rintro (- | fuel)
    · rfl
    · rw [compactLoop, if_neg hnot]
  unfold compactPlanForExecution
  split_ifs
  · exact .refl p
  · rw [hloop]
    exact restated_normalizeExecution p

theorem addressed_trivialPlan (request : String) : Addressed (trivialPlan request) := by
  have htrim : trimSpace "task_1" = "task_1" := by decide +kernel
  refine ⟨⟨by simp [trivialPlan], ?_⟩, ?_⟩ <;>
  · intro t ht
    obtain rfl := mem_singleton.mp ht
    simp [htrim]

theorem trivialPlan_goals (request : String) :
    ∀ t ∈ (trivialPlan request).tasks, trimSpace t.goal ≠ "" := by
  intro t ht
  obtain rfl := mem_singleton.mp ht
  dsimp only
  split_ifs with hblank
  · decide +kernel
  · rwa [trimSpace_trimSpace]

theorem addressed_newPlan (answer : Option Plan) (request : String) :
    Addressed (newPlan (parsedPlan answer) request) := by
  cases hparsed : parsedPlan answer with
  | none =>
    exact (addressed_trivialPlan request).restated
      (restated_compactPlanForExecution (trivialPlan_goals request))
  | some p =>
    obtain ⟨raw, -, hraw⟩ := Option.bind_eq_some_iff.mp hparsed
    have haccepted : Accepted p := by
      cases hvalid : validate raw with
      | error e => simp [hvalid, Except.toOption] at hraw
      | ok q =>
        rw [hvalid] at hraw
        obtain rfl := Option.some.inj hraw
        exact validate_accepted hvalid
    have hp : Addressed p := ⟨haccepted.named, fun t ht => (haccepted.tasks t ht).trimmed⟩
    exact hp.restated (restated_compactPlanForExecution fun t ht => (haccepted.tasks t ht).goal)

/-- A plan that is put in the place of another reuses an id only for a task with the footprint the
    graph has under it. -/
def PlanLoop.KeepsFootprints (l : PlanLoop) : PlanningStep → Prop
  | .ensurePlan force answer request =>
    l.inFlight = [] ∧ (l.run.plan.isSome && !force) = false →
      Reuses l.run.executionGraph (newPlan (parsedPlan answer) request)
  | _ => True

instance (l : PlanLoop) : (s : PlanningStep) → Decidable (l.KeepsFootprints s)
  | .ensurePlan .. => inferInstanceAs (Decidable (_ = [] ∧ _ = false → Reuses ..))
  | .tryRecoverFailedPlan | .execute _ => .isTrue trivial

theorem faithful_installPlan {run : PlannedRun} {p : Plan} (hp : Addressed p)
    (hreuses : Reuses run.executionGraph p) : Faithful (installPlan sha run p) := by
  have hnormal := restated_normalizeExecution p
  exact faithful_ensureExecutionGraph sha rfl (hp.restated hnormal) (hreuses.restated hnormal)

theorem Faithful.advance {l : PlanLoop} (h : Faithful l.run) (s : PlanningStep)
    (hs : l.KeepsFootprints s) : Faithful (l.advance sha s).run := by
  cases s with
  | ensurePlan force answer request =>
    rw [PlanLoop.advance]
    split_ifs with hidle
    · unfold ensurePlan
      split_ifs with hkeep
      · exact h
      · have hreuses := hs ⟨hidle, by simpa using hkeep⟩
        exact faithful_installPlan sha (addressed_newPlan answer request) hreuses
    · exact h
  | tryRecoverFailedPlan =>
    rw [PlanLoop.advance]
    split_ifs
    · exact ⟨fun _ => rfl, nofun, nofun⟩
    · exact h
  | execute s => exact h.step sha s

/-- Along every history of planning, replanning, recovery and execution in which a plan that
    replaces another reuses ids only for tasks with the same footprint, no batch that is selected
    has two tasks that conflict by what the current plan says about them. -/
theorem batches_are_conflict_free (id sessionID : String) (steps : List PlanningStep)
    (hmeets : Meets (advance sha) PlanLoop.KeepsFootprints
      ⟨⟨id, sessionID, none, none⟩, []⟩ steps) :
    ConflictFree sha
      (runAll (advance sha) ⟨⟨id, sessionID, none, none⟩, []⟩ steps).run := by
  have hstart : Faithful ⟨id, sessionID, none, none⟩ := ⟨fun _ => rfl, nofun, nofun⟩
  exact Faithful.conflictFree sha
    (hmeets.inv (I := fun l => Faithful l.run) (fun l s h hs => h.advance sha s hs) hstart)

/-- Two tasks of one kind that may run side by side. -/
def twoTasks (kind : TaskKind) : Plan :=
  { goal := "g", strategy := .parallel
    tasks := [{ id := "a", kind, goal := "first" }, { id := "b", kind, goal := "second" }] }

/-- A replanning that keeps the kinds, and a recovery that changes them. -/
theorem recovered_plan_is_conflict_free :
    let steps := [.ensurePlan false (some (twoTasks .research)) "", .execute .dispatch,
      .execute (.results []), .ensurePlan true (some (twoTasks .research)) "",
      .tryRecoverFailedPlan, .ensurePlan false (some (twoTasks .write)) ""]
    Meets (advance fun s => s) PlanLoop.KeepsFootprints ⟨⟨"r", "s", none, none⟩, []⟩
      steps ∧
    ConflictFree (fun s => s) (runAll (advance fun s => s) ⟨⟨"r", "s", none, none⟩, []⟩
      steps).run :=
  ⟨by decide +kernel, batches_are_conflict_free (fun s => s) "r" "s" _ (by decide +kernel)⟩

/-- Two research tasks are replanned as two tasks that write the session's state; the batch has
    both, since the graph still calls them read-only. -/
theorem replanned_writes_are_batched_together :
    ¬ ConflictFree (fun s => s) (runAll (advance fun s => s) ⟨⟨"r", "s", none, none⟩, []⟩
      [.ensurePlan false (some (twoTasks .research)) "",
        .ensurePlan true (some (twoTasks .write)) ""]).run := by
  intro h
  let a : Task := { id := "a", kind := .write, goal := "first", status := .queued }
  let b : Task := { id := "b", kind := .write, goal := "second", status := .queued }
  have hpair := h _ rfl (by decide +kernel) [a, b] (by decide +kernel) a (by decide +kernel) b
    (by decide +kernel)
  revert hpair
  decide +kernel

end Hopclaw
