import Hopclaw.Planner.Validate
import Hopclaw.Proofs.PlanTasks

/-! # What `Validate` accepts

`Validate` rewrites a plan while it checks it: texts are trimmed, missing ids and defaults are
filled in, lists lose blanks and repetitions. What it accepts is in the form it rewrites to, and a
plan in this form is accepted as it is. -/

namespace Hopclaw.Planner

open List GoStrings

/-- One of the kinds of the source. -/
def TaskKind.Known : TaskKind → Prop
  | .unset | .unknown _ => False
  | _ => True

def Strategy.Known : Strategy → Prop
  | .unset | .unknown _ => False
  | _ => True

def FailurePolicy.Known : FailurePolicy → Prop
  | .unset | .unknown _ => False
  | _ => True

/-- Ids and goals are not blank, and the values are known; the texts are trimmed. The empty status
    is the one of a task that was not started. -/
structure AcceptedTask (t : Task) : Prop where
  trimmed : trimSpace t.id = t.id
  nonblank : t.id ≠ ""
  goal : trimSpace t.goal ≠ ""
  status : ∀ text, t.status ≠ .unknown text
  kind : t.kind.Known
  texts : ∀ s ∈ [t.goal, t.title, t.resultSummary, t.error], trimSpace s = s
  lists : ∀ l ∈ [t.dependsOn, t.outputs, t.requiredCapabilities, t.verificationHints], Deduped l

/-- The ids are distinct, and dependencies and the final task are tasks of the plan. -/
structure Accepted (p : Plan) : Prop where
  named : p.Named
  known : ∀ t ∈ p.tasks, ∀ dep ∈ t.dependsOn, ∃ d ∈ p.tasks, d.id = dep
  tasks : ∀ t ∈ p.tasks, AcceptedTask t
  nonempty : p.tasks ≠ []
  goal : p.goal ≠ ""
  texts : ∀ s ∈ [p.goal, p.summary, p.finalTask, p.activeTask], trimSpace s = s
  strategy : p.strategy.Known
  failurePolicy : p.failurePolicy.Known
  final : p.finalTask ∈ p.tasks.map Task.id
  active : p.activeTask ≠ "" → p.activeTask ∈ p.tasks.map Task.id

/-! ## Accepted plans have the form -/

theorem validateID_spec (i : ℕ) (id : String) :
    trimSpace (validateID i id) = validateID i id ∧ validateID i id ≠ "" := by
  unfold validateID
  split_ifs with hblank
  · refine ⟨trimSpace_formatted ⟨'t', ['a', 's', 'k', '_'], by decide, by decide⟩ 1 (i + 1), ?_⟩
    intro h
    have hlist := congrArg String.toList h
    exact absurd hlist (by simp)
  · exact ⟨trimSpace_trimSpace id, hblank⟩

theorem validateKind_ok {id : String} {kind kind' : TaskKind}
    (h : validateKind id kind = .ok kind') : kind'.Known := by
  cases kind <;> cases h <;> trivial

theorem validateStrategy_ok {strategy strategy' : Strategy}
    (h : validateStrategy strategy = .ok strategy') : strategy'.Known := by
  cases strategy <;> cases h <;> trivial

theorem validateFailurePolicy_ok {policy policy' : FailurePolicy}
    (h : validateFailurePolicy policy = .ok policy') : policy'.Known := by
  cases policy <;> cases h <;> trivial

variable {seen : List String}

theorem validateTask_ok {i : ℕ} {task t : Task} (h : validateTask i seen task = .ok t) :
    AcceptedTask t ∧ t.id ∉ seen := by
  unfold validateTask at h
  simp only [bind, Except.bind, pure] at h
  split at h
  · cases h
  split at h
  · cases h
  rename_i kind hkind
  split at h
  · cases h
  rename_i hstatus
  split at h
  · cases h
  rename_i hseen
  obtain rfl := Except.ok.inj h
  obtain ⟨htrim, hne⟩ := validateID_spec i task.id
  refine ⟨⟨htrim, hne, ?_, fun text htext => ?_, ?_, ?_, ?_⟩, hseen⟩
  · show trimSpace (trimSpace task.goal) ≠ ""
    rwa [trimSpace_trimSpace]
  · rw [htext] at hstatus
    cases hstatus
  · exact validateKind_ok hkind
  · simp [trimSpace_trimSpace]
  · simp [trimNonEmpty, deduped_dedupeStrings]

variable {tasks : List Task}

theorem validateTasks_ok {ts : List Task} {i : ℕ} (h : validateTasks i seen tasks = .ok ts) :
    (ts.map Task.id).Nodup ∧ (∀ t ∈ ts, t.id ∉ seen) ∧ ∀ t ∈ ts, AcceptedTask t := by
  induction tasks generalizing i seen ts with
  | nil =>
    obtain rfl := Except.ok.inj h
    simp
  | cons task rest ih =>
    simp only [validateTasks, bind, Except.bind, pure] at h
    split at h
    · cases h
    rename_i t ht
    split at h
    · cases h
    rename_i us hus
    obtain rfl := Except.ok.inj h
    obtain ⟨haccepted, hseen⟩ := validateTask_ok ht
    obtain ⟨hnodup, hfresh, hrest⟩ := ih hus
    refine ⟨?_, ?_, ?_⟩
    · rw [map_cons, nodup_cons]
      refine ⟨fun hmem => ?_, hnodup⟩
      obtain ⟨u, hu, hid⟩ := mem_map.mp hmem
      exact hfresh u hu (hid ▸ mem_cons_self)
    · intro u hu
      obtain rfl | hu := mem_cons.mp hu
      · exact hseen
      · exact fun hmem => hfresh u hu (mem_cons_of_mem _ hmem)
    · intro u hu
      obtain rfl | hu := mem_cons.mp hu
      · exact haccepted
      · exact hrest u hu

theorem forM_ok_iff {α : Type} {f : α → Except Err Unit} {l : List α} :
    l.forM f = .ok () ↔ ∀ a ∈ l, f a = .ok () := by
  induction l with
  | nil => exact iff_of_true rfl (by simp)
  | cons a l ih =>
    rw [forall_mem_cons, ← ih]
    change (f a >>= fun _ => l.forM f) = .ok () ↔ _
    cases f a <;> simp [bind, Except.bind]

theorem validateDependencies_ok_iff {ids : List String} :
    validateDependencies ids tasks = .ok () ↔ ∀ t ∈ tasks, ∀ dep ∈ t.dependsOn, dep ∈ ids := by
  simp only [validateDependencies, forM_ok_iff]
  refine forall₄_congr fun t _ dep _ => ?_
  split_ifs with hmem
  · exact iff_of_true rfl hmem
  · exact iff_of_false nofun hmem

theorem validate_accepted {raw p : Plan} (h : validate raw = .ok p) : Accepted p := by
  unfold validate at h
  simp only [bind, Except.bind, pure, invalid] at h
  split at h
  · cases h
  rename_i hgoal
  split at h
  · cases h
  split at h
  · cases h
  rename_i strategy hstrategy
  split at h
  · cases h
  rename_i policy hpolicy
  split at h
  · cases h
  rename_i tasks htasks
  split at h
  · cases h
  rename_i hdeps
  generalize hfinal : (if trimSpace raw.finalTask = "" then (tasks.map Task.id).getLastD ""
    else trimSpace raw.finalTask) = finalTask at h
  split at h
  · cases h
  rename_i hknown
  split at h
  · cases h
  rename_i hactive
  obtain rfl := Except.ok.inj h
  obtain ⟨hnodup, -, hall⟩ := validateTasks_ok htasks
  rw [not_not] at hknown
  refine ⟨⟨hnodup, fun t ht => ?_⟩, fun t ht dep hdep => ?_, hall, ?_, hgoal, ?_,
    validateStrategy_ok hstrategy, validateFailurePolicy_ok hpolicy, hknown, fun hne => ?_⟩
  · rw [(hall t ht).trimmed]
    exact (hall t ht).nonblank
  · exact mem_map.mp (validateDependencies_ok_iff.mp hdeps t ht dep hdep)
  · rintro rfl
    cases hknown
  · obtain ⟨t, ht, hid⟩ := mem_map.mp hknown
    simp [trimSpace_trimSpace, ← hid, (hall t ht).trimmed]
  · exact not_not.mp (not_and.mp hactive hne)

/-! ## Plans of the form are accepted as they are -/

theorem AcceptedTask.validateTask_eq {t : Task} (h : AcceptedTask t) (i : ℕ) (hseen : t.id ∉ seen) :
    validateTask i seen t = .ok t := by
  have hid : validateID i t.id = t.id := by rw [validateID, h.trimmed, if_neg h.nonblank]
  have hkind : validateKind t.id t.kind = .ok t.kind := by
    have := h.kind
    cases hk : t.kind <;> rw [hk] at this <;> first | rfl | exact this.elim
  have hstatus : validateStatus t.id t.status = .ok () := by
    have := h.status
    cases hs : t.status <;> first | rfl | exact absurd hs (this _)
  have htexts := h.texts
  have hlists : ∀ l ∈ [t.dependsOn, t.outputs, t.requiredCapabilities, t.verificationHints],
      trimNonEmpty l = l := fun l hl => (h.lists l hl).dedupeStrings_eq
  simp only [forall_mem_cons] at htexts hlists
  have hgoal : t.goal ≠ "" := htexts.1 ▸ h.goal
  simp only [validateTask, hid, hgoal, hkind, hstatus, hseen, htexts, hlists, if_false, bind,
    Except.bind, pure, Except.pure]

theorem validateTasks_eq (h : ∀ t ∈ tasks, AcceptedTask t) (hids : (tasks.map Task.id).Nodup)
    (i : ℕ) (hseen : ∀ t ∈ tasks, t.id ∉ seen) : validateTasks i seen tasks = .ok tasks := by
  induction tasks generalizing i seen with
  | nil => rfl
  | cons t rest ih =>
    rw [map_cons, nodup_cons] at hids
    rw [forall_mem_cons] at h hseen
    have hrest := ih h.2 hids.2 (i + 1) fun u hu (hmem : u.id ∈ t.id :: seen) => by
      obtain heq | hmem := mem_cons.mp hmem
      · exact hids.1 (heq ▸ mem_map_of_mem hu)
      · exact hseen.2 u hu hmem
    simp only [validateTasks, h.1.validateTask_eq i hseen.1, hrest, bind, Except.bind, pure,
      Except.pure]

/-- Every plan that `Validate` accepts has the form, and is then accepted unchanged. -/
theorem validated_plan_is_fixed {raw p : Plan} (h : validate raw = .ok p) :
    Accepted p ∧ validate p = .ok p := by
  have h := validate_accepted h
  refine ⟨h, ?_⟩
  have hstrategy : validateStrategy p.strategy = .ok p.strategy := by
    have := h.strategy
    cases hs : p.strategy <;> rw [hs] at this <;> first | rfl | exact this.elim
  have hpolicy : validateFailurePolicy p.failurePolicy = .ok p.failurePolicy := by
    have := h.failurePolicy
    cases hs : p.failurePolicy <;> rw [hs] at this <;> first | rfl | exact this.elim
  have htasks := validateTasks_eq h.tasks h.named.distinct 0 (fun _ _ => not_mem_nil)
  have hdeps : validateDependencies (p.tasks.map Task.id) p.tasks = .ok () :=
    validateDependencies_ok_iff.mpr fun t ht dep hdep => mem_map.mpr (h.known t ht dep hdep)
  have hfinal : p.finalTask ≠ "" := by
    obtain ⟨t, ht, hid⟩ := mem_map.mp h.final
    exact hid ▸ (h.tasks t ht).nonblank
  have htexts := h.texts
  simp only [forall_mem_cons] at htexts
  have hactive : ¬ (p.activeTask ≠ "" ∧ p.activeTask ∉ p.tasks.map Task.id) :=
    fun hnot => hnot.2 (h.active hnot.1)
  simp only [validate, htexts, h.goal, h.nonempty, hstrategy, hpolicy, htasks, hdeps, hfinal,
    h.final, hactive, not_true_eq_false, if_false, bind, Except.bind, pure, Except.pure]

/-- A plan with a missing id, blanks and a dependency given twice, and what becomes of it. -/
def untidyPlan : Plan :=
  { goal := " g ", tasks := [{ id := "", goal := "a" },
      { id := " b", goal := "c ", dependsOn := ["task_1", " task_1", ""] }] }

def tidyPlan : Plan :=
  { goal := "g", strategy := .serial, failurePolicy := .failFast, finalTask := "b"
    tasks := [{ id := "task_1", kind := .execute, goal := "a" },
      { id := "b", kind := .execute, goal := "c", dependsOn := ["task_1"] }] }

theorem untidyPlan_is_tidied :
    validate untidyPlan = .ok tidyPlan ∧ Accepted tidyPlan ∧ validate tidyPlan = .ok tidyPlan :=
  have h : validate untidyPlan = .ok tidyPlan := by decide +kernel
  ⟨h, validated_plan_is_fixed h⟩

end Hopclaw.Planner
