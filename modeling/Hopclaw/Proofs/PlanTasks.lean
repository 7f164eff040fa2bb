import Hopclaw.Planner.State
import Mathlib.Data.List.Nodup

/-! # Looking up and editing one task

The plan operations find a task by its id and edit it in place. In a plan whose ids are distinct
and not blank the first task with an id is the only one, and what an edit does can be said of the
tasks as a set: one of them is replaced, the others are as they were. -/

namespace Hopclaw.Planner

open List GoStrings List.Forall₂

theorem TaskStatus.normalize_running (s : TaskStatus) : s.normalize = .running ↔ s = .running := by
  cases s <;> simp [TaskStatus.normalize]

theorem TaskStatus.normalize_normalize (s : TaskStatus) : s.normalize.normalize = s.normalize := by
  cases s <;> rfl

/-- A status that normalizing leaves alone is over unless it is queued or running. -/
theorem TaskStatus.terminal_of_normal {s : TaskStatus} (hn : s.normalize = s) (hq : s ≠ .queued)
    (hr : s ≠ .running) : s.terminal = true := by
  cases s <;> simp_all [TaskStatus.terminal, TaskStatus.normalize]

namespace Plan

variable {p q : Plan} {id x : String} {i : ℕ} {t u : Task} {f : Task → Task}

/-- Every task can be addressed: no id is blank or given twice. -/
structure Named (p : Plan) : Prop where
  distinct : (p.tasks.map Task.id).Nodup
  nonblank : ∀ t ∈ p.tasks, trimSpace t.id ≠ ""

/-- Names depend on the ids alone. -/
theorem Named.congr (h : p.Named) (hids : q.tasks.map Task.id = p.tasks.map Task.id) :
    q.Named where
  distinct := hids ▸ h.distinct
  nonblank := by
    intro t ht
    have hid : t.id ∈ p.tasks.map Task.id := hids ▸ mem_map_of_mem ht
    obtain ⟨u, hu, heq⟩ := mem_map.mp hid
    exact heq ▸ h.nonblank u hu

theorem Named.eq_of_id (h : p.Named) (ht : t ∈ p.tasks) (hu : u ∈ p.tasks) (hid : t.id = u.id) :
    t = u :=
  inj_on_of_nodup_map h.distinct ht hu hid

/-! ## Lookups -/

/-- The two lookups agree: there is no task to address, or both give the first one. -/
theorem find_cases (p : Plan) (id : String) :
    (p.findIdx id = none ∧ p.findTask id = none ∧ ∀ t ∈ p.tasks, t.id = id → trimSpace id = "") ∨
    ∃ i t, p.findIdx id = some i ∧ p.findTask id = some t ∧ p.tasks[i]? = some t ∧ t.id = id := by
  by_cases hblank : trimSpace id = ""
  · exact .inl ⟨by rw [findIdx, if_pos hblank], by rw [findTask, if_pos hblank],
      fun _ _ _ => hblank⟩
  rw [findIdx, findTask, if_neg hblank, if_neg hblank]
  cases hidx : p.tasks.findIdx? fun t => t.id = id with
  | none =>
    rw [findIdx?_eq_none_iff] at hidx
    refine .inl ⟨rfl, find?_eq_none.mpr fun t ht => ?_, fun t ht hid => ?_⟩
    · simpa using hidx t ht
    · exact absurd hid (by simpa using hidx t ht)
  | some i =>
    obtain ⟨hlt, hid, hfirst⟩ := findIdx?_eq_some_iff_getElem.mp hidx
    refine .inr ⟨i, p.tasks[i], rfl, ?_, getElem?_eq_getElem hlt, by simpa using hid⟩
    exact find?_eq_some_iff_getElem.mpr
      ⟨hid, i, hlt, rfl, fun j hj => by simpa using hfirst j hj⟩

theorem mem_of_findTask (h : p.findTask id = some t) : t ∈ p.tasks ∧ t.id = id := by
  obtain ⟨-, hnone, -⟩ | ⟨i, u, -, hu, hi, hid⟩ := p.find_cases id
  · rw [hnone] at h
    cases h
  · obtain rfl : u = t := Option.some.inj (hu.symm.trans h)
    exact ⟨mem_of_getElem? hi, hid⟩

theorem findTask_of_mem (h : (p.tasks.map Task.id).Nodup) (ht : t ∈ p.tasks)
    (hne : trimSpace t.id ≠ "") : p.findTask t.id = some t := by
  obtain ⟨-, -, hblank⟩ | ⟨i, u, -, hu, hi, hid⟩ := p.find_cases t.id
  · exact absurd (hblank t ht rfl) hne
  · rw [hu, inj_on_of_nodup_map h (mem_of_getElem? hi) ht hid]

theorem Named.findTask (h : p.Named) (ht : t ∈ p.tasks) : p.findTask t.id = some t :=
  findTask_of_mem h.distinct ht (h.nonblank t ht)

/-! ## Edits -/

theorem getElem?_setTask (p : Plan) (i j : ℕ) (f : Task → Task) :
    (p.setTask i f).tasks[j]? = if i = j then (p.tasks[j]?).map f else p.tasks[j]? := by
  rw [setTask, getElem?_modify]
  split <;> simp

/-- An edit of one element does not show in what it leaves alone of it. -/
theorem map_modify_eq {α β : Type} {g : α → β} {f : α → α} {l : List α} {i : ℕ}
    (hf : ∀ a, l[i]? = some a → g (f a) = g a) : (l.modify i f).map g = l.map g := by
  refine ext_getElem? fun j => ?_
  rw [getElem?_map, getElem?_map, getElem?_modify]
  split
  · rename_i hij
    cases ha : l[j]? with
    | none => rfl
    | some a => simp [hf a (hij ▸ ha)]
  · simp

/-! ## Edits task by task -/

/-- Each task of `q` is related to the task of `p` in its place. -/
def Edits (R : Task → Task → Prop) (p q : Plan) : Prop :=
  List.Forall₂ R p.tasks q.tasks

section Edits

variable {R S T : Task → Task → Prop}

theorem Edits.refl (hR : ∀ t, R t t) (p : Plan) : Edits R p p :=
  forall₂_same.mpr fun t _ => hR t

theorem Edits.trans {r : Plan} (hRS : ∀ t u v, R t u → S u v → T t v) (h1 : Edits R p q)
    (h2 : Edits S q r) : Edits T p r := by
  rw [Edits] at *
  generalize p.tasks = l, q.tasks = m, r.tasks = n at h1 h2 ⊢
  induction h1 generalizing n with
  | nil =>
    rw [forall₂_nil_left_iff.mp h2]
    exact .nil
  | cons htu _ ih =>
    obtain ⟨v, vs, huv, hrest, rfl⟩ := forall₂_cons_left_iff.mp h2
    exact .cons (hRS _ _ _ htu huv) (ih vs hrest)

theorem Edits.mono (hRS : ∀ t u, R t u → S t u) (h : Edits R p q) : Edits S p q :=
  imp hRS h

theorem edits_map (hq : q.tasks = p.tasks.map f) (hf : ∀ t ∈ p.tasks, R t (f t)) : Edits R p q := by
  rw [Edits, hq, forall₂_map_right_iff]
  exact forall₂_same.mpr hf

theorem edits_setTask (hR : ∀ t, R t t) (hf : ∀ t, p.tasks[i]? = some t → R t (f t)) :
    Edits R p (p.setTask i f) := by
  refine forall₂_iff_get.mpr ⟨by simp [setTask], fun j hj hj' => ?_⟩
  have hget := getElem?_setTask p i j f
  rw [getElem?_eq_getElem hj', getElem?_eq_getElem hj] at hget
  rw [get_eq_getElem, get_eq_getElem]
  split at hget
  · rename_i hij
    subst hij
    rw [Option.some.inj hget]
    exact hf _ (getElem?_eq_getElem hj)
  · rw [Option.some.inj hget]
    exact hR _

theorem Edits.and (h1 : Edits R p q) (h2 : Edits S p q) : Edits (fun t u => R t u ∧ S t u) p q :=
  forall₂_iff_get.mpr ⟨h1.length_eq, fun _ hi hi' => ⟨h1.get hi hi', h2.get hi hi'⟩⟩

variable (h : Edits R p q)
include h

theorem Edits.mem : Edits (fun t u => t ∈ p.tasks ∧ u ∈ q.tasks ∧ R t u) p q :=
  forall₂_iff_get.mpr ⟨h.length_eq, fun _ hi hi' =>
    ⟨get_mem _ _, get_mem _ _, h.get hi hi'⟩⟩

/-- A task of the edited plan comes from one of the plan before. -/
theorem Edits.of_mem (hu : u ∈ q.tasks) : ∃ t ∈ p.tasks, R t u := by
  obtain ⟨j, hj, rfl⟩ := getElem_of_mem hu
  have hlen : j < p.tasks.length := (length_eq h) ▸ hj
  exact ⟨_, getElem_mem hlen, get h hlen hj⟩

theorem Edits.to_mem (ht : t ∈ p.tasks) : ∃ u ∈ q.tasks, R t u := by
  obtain ⟨j, hj, rfl⟩ := getElem_of_mem ht
  have hlen : j < q.tasks.length := (length_eq h) ▸ hj
  exact ⟨_, getElem_mem hlen, get h hj hlen⟩

theorem Edits.ids (hR : ∀ t u, R t u → u.id = t.id) :
    q.tasks.map Task.id = p.tasks.map Task.id := by
  rw [Edits] at h
  generalize p.tasks = l, q.tasks = m at h ⊢
  induction h with
  | nil => rfl
  | cons htu _ ih => rw [map_cons, map_cons, hR _ _ htu, ih]

theorem Edits.named (hR : ∀ t u, R t u → u.id = t.id) (hp : p.Named) : q.Named :=
  hp.congr (h.ids hR)

section Count

variable {P : Task → Bool}

/-- Edits after which no task passes the check that has not passed it before. -/
theorem Edits.countP_le (hR : ∀ t u, R t u → P u = true → P t = true) :
    q.tasks.countP P ≤ p.tasks.countP P := by
  rw [Edits] at h
  generalize p.tasks = l, q.tasks = m at h ⊢
  induction h with
  | nil => exact le_rfl
  | @cons t u _ _ htu _ ih =>
    have := hR t u htu
    rw [countP_cons, countP_cons]
    split_ifs <;> first | omega | exact absurd (this ‹_›) ‹_›

/-- There are fewer if one task does not pass it any more. -/
theorem Edits.countP_lt (hR : ∀ t u, R t u → P u = true → P t = true)
    (ht : p.tasks[i]? = some t) (hu : q.tasks[i]? = some u) (hPt : P t = true)
    (hPu : P u = false) : q.tasks.countP P < p.tasks.countP P := by
  have hsplit : ∀ {l : List Task} {a}, l[i]? = some a →
      l.countP P = (l.take i).countP P + (a :: l.drop (i + 1)).countP P := by
    intro l a hget
    obtain ⟨hlt, rfl⟩ := List.getElem?_eq_some_iff.mp hget
    rw [cons_getElem_drop_succ, ← countP_append, take_append_drop]
  have hbefore := Edits.countP_le (p := { tasks := p.tasks.take i })
    (q := { tasks := q.tasks.take i }) (forall₂_take i h) hR
  have hafter := Edits.countP_le (p := { tasks := p.tasks.drop (i + 1) })
    (q := { tasks := q.tasks.drop (i + 1) }) (forall₂_drop (i + 1) h) hR
  rw [hsplit ht, hsplit hu, countP_cons_of_pos hPt, countP_cons_of_neg (by simp [hPu])]
  dsimp only at hbefore hafter
  omega

end Count

end Edits

/-! ## Operations on one task -/

/-- What the operations do that are addressed to one task: the first task with the id is edited if
    it passes the check. -/
def editTask (p : Plan) (id : String) (c : Task → Bool) (f : Task → Task) : Plan :=
  match p.findIdx id, p.findTask id with
  | some i, some t => if c t then p.setTask i f else p
  | _, _ => p

theorem editTask_tracking (p : Plan) (id : String) (c : Task → Bool) (f : Task → Task) :
    (p.editTask id c f).runningTasks = p.runningTasks ∧
      (p.editTask id c f).activeTask = p.activeTask := by
  unfold editTask
  rcases p.findIdx id with _ | i <;> rcases p.findTask id with _ | t <;> try exact ⟨rfl, rfl⟩
  dsimp only
  split_ifs <;> exact ⟨rfl, rfl⟩

theorem editTask_edits {R : Task → Task → Prop} {c : Task → Bool} (hR : ∀ t, R t t)
    (hf : ∀ t, t.id = id → c t = true → R t (f t)) : Edits R p (p.editTask id c f) := by
  unfold editTask
  obtain ⟨hi, ht, -⟩ | ⟨i, t, hi, ht, hget, hid⟩ := p.find_cases id <;> rw [hi, ht]
  · exact .refl hR p
  dsimp only
  split_ifs with hc
  · refine edits_setTask hR fun u hu => ?_
    obtain rfl : t = u := Option.some.inj (hget.symm.trans hu)
    exact hf t hid hc
  · exact .refl hR p

/-- Where the ids are distinct it is the one task with this id that is edited. -/
theorem Named.editTask_tasks (h : p.Named) (id : String) (c : Task → Bool) (f : Task → Task) :
    (p.editTask id c f).tasks =
      p.tasks.map fun t => if t.id = id then if c t then f t else t else t := by
  unfold editTask
  obtain ⟨hi, ht, hnone⟩ | ⟨i, t, hi, ht, hget, rfl⟩ := p.find_cases id <;> rw [hi, ht]
  · refine ((map_congr_left fun t ht => if_neg fun hid => ?_).trans (map_id _)).symm
    exact h.nonblank t ht (hid ▸ hnone t ht hid)
  refine ext_getElem? fun j => ?_
  have htasks : ∀ j, (if c t then p.setTask i f else p).tasks[j]? =
      if i = j ∧ c t then (p.tasks[j]?).map f else p.tasks[j]? := fun j => by
    by_cases hc : c t = true <;> simp [hc, getElem?_setTask]
  rw [htasks, getElem?_map]
  by_cases hij : i = j
  · subst hij
    simp only [hget, Option.map_some, true_and, if_true]
    split_ifs <;> rfl
  · rw [if_neg fun hc => hij hc.1]
    cases hu : p.tasks[j]? with
    | none => rfl
    | some u =>
      refine (congrArg some (if_neg fun hid => hij ?_)).symm
      have hlt : i < (p.tasks.map Task.id).length := by
        rw [length_map]
        exact (List.getElem?_eq_some_iff.mp hget).1
      refine (getElem?_inj hlt h.distinct).mp ?_
      rw [getElem?_map, getElem?_map, hget, hu, Option.map_some, Option.map_some, hid]

/-- Operations on one task after another make of the tasks what the last of them makes of each, if
    a second one on the same task changes nothing. -/
theorem foldl_tasks {α : Type} {op : Plan → α → Plan} {K : α → String → Prop}
    [∀ a x, Decidable (K a x)] {g : Task → Task} (hid : ∀ t, (g t).id = t.id)
    (hg : ∀ t, g (g t) = g t) {ids : List String} (hop : ∀ q, q.tasks.map Task.id = ids →
      ∀ a, (op q a).tasks = q.tasks.map fun t => if K a t.id then g t else t)
    (hp : p.tasks.map Task.id = ids) (l : List α) :
    (l.foldl op p).tasks = p.tasks.map fun t => if ∃ a ∈ l, K a t.id then g t else t := by
  induction l generalizing p with
  | nil => simp
  | cons a l ih =>
    have hids : (op p a).tasks.map Task.id = ids := by
      rw [hop p hp, map_map, ← hp]
      refine map_congr_left fun t _ => ?_
      dsimp only [Function.comp]
      split_ifs
      · exact hid t
      · rfl
    rw [foldl_cons, ih hids, hop p hp, map_map]
    refine map_congr_left fun t _ => ?_
    by_cases ha : K a t.id
    · simp [ha, hg]
    · simp [ha]

/-- The same edit of the tasks with these ids, which none of them passes the check for twice. -/
theorem Named.foldl_editTask {o : Plan → String → Plan} {c : Task → Bool} (hp : p.Named)
    (hop : ∀ q id, (o q id).tasks = (q.editTask id c f).tasks)
    (hf : ∀ t, (f t).id = t.id ∧ c (f t) = false) (ids : List String) :
    (ids.foldl o p).tasks =
      p.tasks.map fun t => if t.id ∈ ids then if c t then f t else t else t := by
  have hloop := foldl_tasks (K := fun id x => x = id)
    (fun t => ?_) (fun t => ?_)
    (fun q hids id => (hop q id).trans ((hp.congr hids).editTask_tasks id c f)) rfl ids
  · simpa using hloop
  · split_ifs
    · exact (hf t).1
    · rfl
  · by_cases hc : c t = true <;> simp [hc, (hf t).2]

/-! ## Skipping dependents -/

/-- What the propagation may do to a task. -/
def Skips (t u : Task) : Prop :=
  u = t ∨ t.status = .queued ∧ ∃ e, u = { t with status := .skipped, error := e }

theorem Skips.id_eq (h : Skips t u) : u.id = t.id := by
  obtain rfl | ⟨-, e, rfl⟩ := h <;> rfl

theorem Skips.trans {v : Task} (h1 : Skips t u) (h2 : Skips u v) : Skips t v := by
  obtain rfl | ⟨hq, e, rfl⟩ := h1
  · exact h2
  · obtain rfl | ⟨hq', -⟩ := h2
    · exact .inr ⟨hq, e, rfl⟩
    · cases hq'

/-- `q` is `p` with some of its queued tasks skipped. -/
structure SkipsTo (p q : Plan) : Prop where
  edits : Edits Skips p q
  frame : q = { p with tasks := q.tasks }

theorem SkipsTo.refl (p : Plan) : SkipsTo p p :=
  ⟨.refl (fun _ => .inl rfl) p, rfl⟩

theorem SkipsTo.trans {r : Plan} (h1 : SkipsTo p q) (h2 : SkipsTo q r) : SkipsTo p r where
  edits := Edits.trans (fun _ _ _ htu huv => htu.trans huv) h1.edits h2.edits
  frame := by
    have h := h2.frame
    rw [h1.frame] at h
    exact h

/-- One position: a queued task with a broken dependency is skipped. -/
theorem skipAt_edits (p : Plan) (i : ℕ) :
    Edits (fun t u => u = t ∨ t.status = .queued ∧ (∃ dep ∈ t.dependsOn, p.brokenDep dep = true) ∧
      ∃ e, u = { t with status := .skipped, error := e }) p (p.skipAt i).1 ∧
    (p.skipAt i).1 = { p with tasks := (p.skipAt i).1.tasks } := by
  rw [skipAt]
  cases ht : p.tasks[i]? with
  | none => exact ⟨.refl (fun _ => .inl rfl) p, rfl⟩
  | some t =>
    dsimp only
    split_ifs with hq
    · exact ⟨.refl (fun _ => .inl rfl) p, rfl⟩
    cases hdep : t.dependsOn.find? p.brokenDep with
    | none => exact ⟨.refl (fun _ => .inl rfl) p, rfl⟩
    | some dep =>
      refine ⟨edits_setTask (fun _ => .inl rfl) fun u hu => .inr ?_, rfl⟩
      obtain rfl := Option.some.inj (ht.symm.trans hu)
      exact ⟨not_not.mp hq, ⟨dep, mem_of_find?_eq_some hdep, find?_some hdep⟩, _, rfl⟩

theorem skipAt_skipsTo (p : Plan) (i : ℕ) : SkipsTo p (p.skipAt i).1 :=
  ⟨(p.skipAt_edits i).1.mono fun _ _ => Or.imp_right fun h => ⟨h.1, h.2.2⟩, (p.skipAt_edits i).2⟩

/-- What every position keeps is kept by the whole propagation. -/
theorem skipDependentsOf_inv {I : Plan → Prop} (hstep : ∀ q i, I q → I (q.skipAt i).1) (h : I p)
    (id : String) : I (p.skipDependentsOf id) := by
  have hpass : ∀ q, I q → I q.skipPass.1 := by
    intro q hq
    rw [skipPass]
    generalize range _ = is, false = changed
    induction is generalizing q changed with
    | nil => exact hq
    | cons i is ih => exact ih _ (hstep q i hq) _
  rw [skipDependentsOf]
  generalize p.tasks.length + 1 = fuel
  induction fuel generalizing p with
  | zero => exact h
  | succ fuel ih =>
    rw [skipLoop]
    split_ifs
    · exact ih (hpass p h)
    · exact hpass p h

theorem skipDependentsOf_skipsTo (p : Plan) (id : String) : SkipsTo p (p.skipDependentsOf id) :=
  skipDependentsOf_inv (I := SkipsTo p) (fun q i h => h.trans (q.skipAt_skipsTo i)) (.refl p) id

/-! ## The propagation is complete -/

/-- How many tasks are still queued. -/
def queuedCount (p : Plan) : ℕ :=
  p.tasks.countP fun t => t.status = .queued

theorem Skips.queued (h : Skips t u) (hu : u.status = .queued) : u = t := by
  obtain h | ⟨-, e, rfl⟩ := h
  · exact h
  · cases hu

theorem SkipsTo.queuedCount_le (h : SkipsTo p q) : q.queuedCount ≤ p.queuedCount :=
  h.edits.countP_le fun t u htu hu => htu.queued (by simpa using hu) ▸ hu

theorem skipAt_eq_self (h : (p.skipAt i).2 = false) : (p.skipAt i).1 = p := by
  rw [skipAt] at h ⊢
  cases ht : p.tasks[i]? with
  | none => rfl
  | some t =>
    simp only [ht] at h ⊢
    split_ifs at h ⊢ with hq
    · rfl
    · cases hdep : t.dependsOn.find? p.brokenDep with
      | none => rfl
      | some dep => simp [hdep] at h

/-- A position that is left alone holds no queued task with a broken dependency. -/
theorem not_brokenDep_of_skipAt (h : (p.skipAt i).2 = false) (ht : p.tasks[i]? = some t)
    (hq : t.status = .queued) : ∀ dep ∈ t.dependsOn, p.brokenDep dep = false := by
  rw [skipAt, ht] at h
  simp only [hq, ne_eq, not_true_eq_false] at h
  cases hdep : t.dependsOn.find? p.brokenDep with
  | none => simpa using find?_eq_none.mp hdep
  | some dep => simp [hdep] at h

theorem skipAt_queuedCount_lt (h : (p.skipAt i).2 = true) :
    (p.skipAt i).1.queuedCount < p.queuedCount := by
  rw [skipAt] at h ⊢
  cases ht : p.tasks[i]? with
  | none => simp [ht] at h
  | some t =>
    simp only [ht] at h ⊢
    split_ifs at h ⊢ with hq
    cases hdep : t.dependsOn.find? p.brokenDep with
    | none => simp [hdep] at h
    | some dep =>
      have hskips := (p.skipAt_skipsTo i).edits
      rw [skipAt, ht] at hskips
      simp only [hq, if_false, hdep] at hskips
      refine hskips.countP_lt (fun t u htu hu => htu.queued (by simpa using hu) ▸ hu) ht
        (u := { t with status := .skipped, error := "dependency " ++ dep ++ " failed" }) ?_ ?_ rfl
      · rw [getElem?_setTask, if_pos rfl, ht, Option.map_some]
      · simpa using hq

theorem skipPass_spec (p : Plan) :
    (p.skipPass.2 = false → p.skipPass.1 = p ∧
      ∀ i < p.tasks.length, (p.skipAt i).2 = false) ∧
    (p.skipPass.2 = true → p.skipPass.1.queuedCount < p.queuedCount) := by
  -- over any list of positions, from any accumulated plan
  suffices h : ∀ (is : List ℕ) (acc : Plan × Bool),
      let r := is.foldl (fun acc i => ((acc.1.skipAt i).1, acc.2 || (acc.1.skipAt i).2)) acc
      (r.2 = false → acc.2 = false ∧ r.1 = acc.1 ∧ ∀ i ∈ is, (acc.1.skipAt i).2 = false) ∧
      r.1.queuedCount ≤ acc.1.queuedCount ∧
      (r.2 = true → acc.2 = true ∨ r.1.queuedCount < acc.1.queuedCount) by
    obtain ⟨hfalse, -, htrue⟩ := h (range p.tasks.length) (p, false)
    refine ⟨fun h => ?_, fun h => (htrue h).resolve_left (by simp)⟩
    obtain ⟨-, heq, hall⟩ := hfalse h
    exact ⟨heq, fun i hi => hall i (mem_range.mpr hi)⟩
  intro is
  induction is with
  | nil => exact fun acc => ⟨fun h => ⟨h, rfl, by simp⟩, le_rfl, .inl⟩
  | cons i is ih =>
    intro acc
    obtain ⟨hfalse, hle, htrue⟩ := ih ((acc.1.skipAt i).1, acc.2 || (acc.1.skipAt i).2)
    have hle1 := (acc.1.skipAt_skipsTo i).queuedCount_le
    refine ⟨fun h => ?_, hle.trans hle1, fun h => ?_⟩
    · obtain ⟨hor, heq, hall⟩ := hfalse h
      obtain ⟨hacc, hi⟩ := Bool.or_eq_false_iff.mp hor
      have hsame := skipAt_eq_self hi
      refine ⟨hacc, heq.trans hsame, fun j hj => ?_⟩
      obtain rfl | hj := mem_cons.mp hj
      · exact hi
      · rw [← hsame]
        exact hall j hj
    · obtain hor | hlt := htrue h
      · obtain hacc | hi := Bool.or_eq_true_iff.mp hor
        · exact .inl hacc
        · exact .inr (hle.trans_lt (skipAt_queuedCount_lt hi))
      · exact .inr (hlt.trans_le hle1)

theorem skipLoop_complete (fuel : ℕ) (p : Plan) (h : p.queuedCount < fuel) :
    ∀ t ∈ (skipLoop fuel p).tasks, t.status = .queued →
      ∀ dep ∈ t.dependsOn, (skipLoop fuel p).brokenDep dep = false := by
  induction fuel generalizing p with
  | zero => omega
  | succ fuel ih =>
    rw [skipLoop]
    obtain ⟨hfalse, htrue⟩ := p.skipPass_spec
    split_ifs with hchanged
    · exact ih _ (by have := htrue hchanged; omega)
    · obtain ⟨heq, hall⟩ := hfalse (by simpa using hchanged)
      rw [heq]
      intro t ht hq
      obtain ⟨i, hi, rfl⟩ := getElem_of_mem ht
      exact not_brokenDep_of_skipAt (hall i hi) (getElem?_eq_getElem hi) hq

/-- After the propagation no queued task has a failed or skipped dependency. -/
theorem skipDependentsOf_complete (p : Plan) (id : String) :
    ∀ t ∈ (p.skipDependentsOf id).tasks, t.status = .queued →
      ∀ dep ∈ t.dependsOn, (p.skipDependentsOf id).brokenDep dep = false :=
  skipLoop_complete _ p (Nat.lt_succ_of_le countP_le_length)

end Plan

end Hopclaw.Planner
