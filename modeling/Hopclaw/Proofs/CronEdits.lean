import Hopclaw.Cron.Edits

/-! # Edits and outcomes

An operation computes what it writes from the job as it read it. As long as what it reads is still
stored when it writes, operations have the effect of being made one after the other: no edit and no
outcome is lost, the next run of a job comes from its schedule, and its errors are counted right. -/

namespace Hopclaw.Cron

open Interleaving Tracked Op Keyed List

variable {lib : TimeLib}

/-! ## Schedules from which nothing can be computed -/

theorem nextRunTime_eq_anchored (schedule : Schedule) (now : ℤ) :
    nextRunTime lib schedule now = nextRunTimeAnchored lib schedule now now := by
  unfold nextRunTimeAnchored
  split_ifs with hkind
  · simp only [nextRunTime, hkind]
    rfl
  · rfl

/-- Whether a next run can be computed does not depend on the times. -/
theorem error_of_error {schedule : Schedule} {after anchor : ℤ} {e : String}
    (h : nextRunTimeAnchored lib schedule after anchor = .error e) (after' anchor' : ℤ) :
    ∃ e, nextRunTimeAnchored lib schedule after' anchor' = .error e := by
  have hevery : ∀ a b a' b' e, nextRunEveryAnchored lib schedule a b = .error e →
      ∃ e, nextRunEveryAnchored lib schedule a' b' = .error e := by
    intro a b a' b' e h
    unfold nextRunEveryAnchored at h ⊢
    by_cases hraw : GoStrings.trimSpace schedule.everyText = ""
    · exact ⟨_, if_pos hraw⟩
    rw [if_neg hraw] at h ⊢
    cases hd : lib.parseDuration (GoStrings.trimSpace schedule.everyText) with
    | none => exact ⟨_, rfl⟩
    | some d =>
      simp only [hd] at h ⊢
      by_cases hpos : d ≤ 0
      · exact ⟨_, if_pos hpos⟩
      · rw [if_neg hpos] at h
        cases h
  unfold nextRunTimeAnchored at h ⊢
  split_ifs at h ⊢ with hkind
  · exact hevery _ _ _ _ e h
  · unfold nextRunTime at h ⊢
    split at h
    · simp only [nextRunAt] at h ⊢
      split_ifs at h ⊢ with htext
      · exact ⟨_, rfl⟩
      · cases ht : lib.parseTime (GoStrings.trimSpace schedule.atText) with
        | none => exact ⟨_, rfl⟩
        | some t =>
          simp only [ht] at h
          split_ifs at h
    · exact hevery _ _ _ _ e h
    · simp only [nextRunCron] at h ⊢
      split_ifs at h ⊢ with h1 h2 h3
      · exact ⟨_, rfl⟩
      · exact ⟨_, rfl⟩
      · exact ⟨_, rfl⟩
    · exact ⟨_, rfl⟩

/-! ## One write -/

/-- What the operation has read of the job is still stored, as far as it uses it; and a `PATCH` that
    enables a job without a next run also sets its schedule. -/
def Op.Undisturbed (op : Op) (read current : Job) : Prop :=
  match op with
  | .execution _ status =>
    current.schedule = read.schedule ∧
      (status = .error → current.consecutiveErrors = read.consecutiveErrors)
  | .patch _ enabled schedule =>
    current = read ∧ (enabled = some true → schedule = none →
      read.enabled = true ∨ read.nextRunAt ≠ 0)
  | .cronUpdate _ _ _ => current = read
  | .toggle _ _ => True

instance (op : Op) (read current : Job) : Decidable (op.Undisturbed read current) :=
  match op with
  | .execution _ _ => inferInstanceAs (Decidable (_ ∧ (_ → _)))
  | .patch _ _ _ => inferInstanceAs (Decidable (_ ∧ (_ → _ → _)))
  | .cronUpdate _ _ _ => inferInstanceAs (Decidable (_ = _))
  | .toggle _ _ => .isTrue trivial

/-- The errors in a row after an operation. -/
def Op.errors (op : Op) (n : ℤ) : ℤ :=
  match op with
  | .execution _ status => if status = .error then n + 1 else 0
  | _ => n

variable {now : ℤ} {status : RunStatus} {enabled : Option Bool}

section Write

variable {op : Op} {t current : Tracked}

theorem written_execution (hcreated : current.job.createdAt = t.job.createdAt)
    (h : (execution now status).Undisturbed t.job current.job) :
    (execution now status).written lib t.job current.job =
      (execution now status).written lib current.job current.job := by
  obtain ⟨hschedule, herrors⟩ := h
  have hcount : errorsAfter t.job status = errorsAfter current.job status := by
    unfold errorsAfter
    split_ifs with hstatus
    · rw [herrors hstatus]
    · rfl
  simp only [written, recordOutcome, disables, hcount, hschedule, hcreated]

/-- An undisturbed operation writes what it would write if it read the job now. -/
theorem write_job (hcreated : current.job.createdAt = t.job.createdAt)
    (h : op.Undisturbed t.job current.job) : (t.write lib op current).job =
      op.alone lib current.job := by
  have hsame : op.written lib t.job current.job = op.written lib current.job current.job := by
    cases op with
    | execution now status => exact written_execution hcreated h
    | patch now enabled schedule => rw [h.1]
    | cronUpdate now enabled edit => rw [show current.job = t.job from h]
    | toggle now enabled => rfl
  rw [write, alone, ← hsame]
  cases op.written lib t.job current.job with
  | none => rfl
  | some job => rfl

/-- No operation changes the id of a job. -/
theorem write_id (hid : current.id = t.id) : (t.write lib op current).id = t.id := by
  unfold write
  split
  · exact hid
  · next job hwritten =>
    cases op with
    | execution now status =>
      cases hwritten
      exact recordOutcome_id.trans hid
    | patch now enabled schedule =>
      simp only [written] at hwritten
      split at hwritten
      · cases hwritten
        rfl
      · split at hwritten <;> cases hwritten
        rfl
    | cronUpdate now enabled edit =>
      simp only [written] at hwritten
      split_ifs at hwritten
      · split at hwritten <;> cases hwritten
        rfl
      · cases hwritten
        rfl
    | toggle now enabled =>
      simp only [written] at hwritten
      by_cases henabled : enabled = false
      · rw [if_pos henabled] at hwritten
        cases hwritten
        exact hid
      · rw [if_neg henabled] at hwritten
        split at hwritten <;> cases hwritten <;> exact hid

/-- Only an execution changes the errors in a row, and nothing the time of creation. -/
theorem alone_spec (job : Job) : (op.alone lib job).createdAt = job.createdAt ∧
    (op.alone lib job).consecutiveErrors = op.errors job.consecutiveErrors := by
  unfold alone
  cases op with
  | execution now status =>
    exact ⟨recordOutcome_createdAt, recordOutcome_consecutiveErrors⟩
  | patch now enabled schedule =>
    cases schedule with
    | none => exact ⟨rfl, rfl⟩
    | some schedule =>
      simp only [written]
      cases nextRunTime lib schedule now <;> exact ⟨rfl, rfl⟩
  | cronUpdate now enabled edit =>
    simp only [written]
    by_cases henabled : enabled.getD job.enabled = true
    · rw [if_pos henabled]
      cases nextRunTime lib (edit.apply job.schedule) now <;> exact ⟨rfl, rfl⟩
    · rw [if_neg henabled]
      exact ⟨rfl, rfl⟩
  | toggle now enabled =>
    simp only [written]
    by_cases henabled : enabled = false
    · rw [if_pos henabled]
      exact ⟨rfl, rfl⟩
    · rw [if_neg henabled]
      generalize nextRunTimeAnchored lib job.schedule now _ = result
      cases result <;> exact ⟨rfl, rfl⟩

theorem consistent_computed {job : Job} {source : Source}
    (hschedule : source.schedule = job.schedule) (hnext : job.nextRunAt = source.value lib) :
    Tracked.Consistent lib ⟨job, some source⟩ :=
  ⟨hschedule, hnext⟩

theorem consistent_disabled {job : Job} (hnext : job.nextRunAt = 0) (hoff : job.enabled = false) :
    Tracked.Consistent lib ⟨job, none⟩ :=
  ⟨hnext, .inl hoff⟩

theorem write_execution_consistent (hschedule : current.job.schedule = t.job.schedule) :
    (t.write lib (.execution now status) current).Consistent lib := by
  simp only [write, Op.source]
  by_cases hoff : disables t.job status = true
  · rw [if_pos hoff]
    refine consistent_disabled ?_ ?_
    · rw [recordOutcome_nextRunAt, if_pos hoff]
    · simp only [recordOutcome, if_pos hoff]
  · rw [if_neg hoff]
    refine consistent_computed (hschedule.symm.trans recordOutcome_schedule.symm) ?_
    rw [recordOutcome_nextRunAt, if_neg hoff]
    rfl

theorem write_patch_consistent {schedule : Option Schedule} (ht : t.Consistent lib)
    (hcurrent : current.Consistent lib)
    (hon : enabled = some true → schedule = none → t.job.enabled = true ∨ t.job.nextRunAt ≠ 0) :
    (t.write lib (.patch now enabled schedule) current).Consistent lib := by
  cases schedule with
  | some schedule =>
    cases hnext : nextRunTime lib schedule now with
    | error e =>
      simp only [write, written, hnext]
      exact hcurrent
    | ok next =>
      simp only [write, written, hnext]
      refine consistent_computed rfl ?_
      rw [Source.value, ← nextRunTime_eq_anchored, hnext]
      rfl
  | none =>
    simp only [write, Op.source]
    unfold Tracked.Consistent at ht ⊢
    cases hsource : t.source with
    | some source =>
      rw [hsource] at ht
      exact ht
    | none =>
      -- a next run that was cleared stays away only from a job that stays disabled
      rw [hsource] at ht
      refine ⟨ht.1, ?_⟩
      cases enabled with
      | none => exact ht.2
      | some enabled =>
        cases enabled with
        | false => exact .inl rfl
        | true =>
          refine .inr (ht.2.resolve_left fun hoff => ?_)
          rcases hon rfl rfl with hwas | hnext
          · rw [hoff] at hwas
            cases hwas
          · exact hnext ht.1

theorem write_cronUpdate_consistent {edit : ScheduleEdit} (hcurrent : current.Consistent lib) :
    (t.write lib (.cronUpdate now enabled edit) current).Consistent lib := by
  by_cases hon : enabled.getD t.job.enabled = true
  · cases hnext : nextRunTime lib (edit.apply t.job.schedule) now with
    | error e =>
      simp only [write, written, if_pos hon, hnext]
      exact hcurrent
    | ok next =>
      simp only [write, written, Op.source, if_pos hon, hnext]
      refine consistent_computed rfl ?_
      rw [Source.value, ← nextRunTime_eq_anchored, hnext]
      rfl
  · simp only [write, written, Op.source, if_neg hon]
    exact consistent_disabled rfl (Bool.not_eq_true _ ▸ hon)

theorem write_toggle_consistent {enabled : Bool} (hcurrent : current.Consistent lib) :
    (t.write lib (.toggle now enabled) current).Consistent lib := by
  cases enabled with
  | false =>
    exact consistent_disabled rfl rfl
  | true =>
    set anchor := if current.job.lastRunAt = 0 then current.job.createdAt else current.job.lastRunAt
      with hanchor
    simp only [write, written, Op.source, Bool.true_eq_false]
    cases hnext : nextRunTimeAnchored lib current.job.schedule now anchor with
    | ok next =>
      refine consistent_computed rfl ?_
      rw [Source.value, hnext]
      rfl
    | error e =>
      unfold Tracked.Consistent at hcurrent ⊢
      cases hsource : current.source with
      | some source =>
        rw [hsource] at hcurrent
        exact hcurrent
      | none =>
        rw [hsource] at hcurrent
        exact ⟨hcurrent.1, .inr (error_of_error hnext)⟩

theorem write_consistent (ht : t.Consistent lib) (hcurrent : current.Consistent lib)
    (h : op.Undisturbed t.job current.job) : (t.write lib op current).Consistent lib := by
  cases op with
  | execution now status => exact write_execution_consistent h.1
  | patch now enabled schedule => exact write_patch_consistent ht hcurrent h.2
  | cronUpdate now enabled edit => exact write_cronUpdate_consistent hcurrent
  | toggle now enabled => exact write_toggle_consistent hcurrent

end Write

/-! ## Counting errors -/

theorem errorsInARow_cons (before : ℤ) (status : RunStatus) (rest : List RunStatus) :
    errorsInARow before (status :: rest) =
      if status = .error then errorsInARow before rest + 1 else 0 := by
  unfold errorsInARow
  by_cases hstatus : status = .error
  · simp only [hstatus, takeWhile_cons, decide_true, if_true, length_cons, Nat.add_right_cancel_iff]
    split_ifs <;> push_cast <;> ring
  · simp [hstatus]

theorem errors_outcomes (before : ℤ) (id k : String) (op : Op) (history : List (String × Op)) :
    errorsInARow before (outcomes id ((k, op) :: history)) =
      if id = k then op.errors (errorsInARow before (outcomes id history))
      else errorsInARow before (outcomes id history) := by
  unfold outcomes
  cases op with
  | execution now status =>
    by_cases hid : id = k
    · simp [hid, errorsInARow_cons, errors]
    · simp [hid, Ne.symm hid]
  | _ =>
    simp only [filterMap_cons, errors, ite_self]

/-! ## Whole runs -/

namespace Editing

/-- The operation that writes is undisturbed. -/
def Undisturbed (s : Editing) : Event → Prop
  | .read _ _ => True
  | .write task =>
    ∀ entry ∈ s.tasks[task]?, ∀ current ∈ get Tracked.id entry.1.id s.store,
      entry.2.Undisturbed entry.1.job current.job

instance (s : Editing) (ev : Event) : Decidable (Undisturbed s ev) :=
  match ev with
  | .read _ _ => .isTrue trivial
  | .write _ => inferInstanceAs (Decidable (∀ _ ∈ _, ∀ _ ∈ _, Op.Undisturbed ..))

/-- What holds along the way: operations in progress have read a consistent job that is still
    there. -/
structure Kept (lib : TimeLib) (jobs : List Tracked) (s : Editing) : Prop where
  consistent : ∀ t ∈ s.store, t.Consistent lib
  tasks : ∀ t op, (t, op) ∈ s.tasks → t.Consistent lib ∧
    ∃ current, get Tracked.id t.id s.store = some current ∧
      current.job.createdAt = t.job.createdAt
  errors : ∀ id t, get Tracked.id id s.store = some t →
    ∃ t₀, get Tracked.id id jobs = some t₀ ∧ t.job.consecutiveErrors =
      errorsInARow t₀.job.consecutiveErrors (outcomes id s.history)
  replayed : s.store.map Tracked.job = replay lib s.history (jobs.map Tracked.job)

variable {jobs : List Tracked} {s : Editing}

theorem Kept.start (h : ∀ t ∈ jobs, t.Consistent lib) : Kept lib jobs { store := jobs } where
  consistent := h
  tasks t op ht := absurd ht not_mem_nil
  errors id t ht := ⟨t, ht, by simp [errorsInARow, outcomes]⟩
  replayed := rfl

theorem Kept.write (h : Kept lib jobs s) {task : ℕ} {t : Tracked} {op : Op}
    (htask : s.tasks[task]? = some (t, op))
    (hP : Undisturbed s (.write task)) : Kept lib jobs (s.step lib (.write task)) := by
  obtain ⟨ht, current, hget, hcreated⟩ := h.tasks t op (mem_of_getElem? htask)
  have hcurrent := h.consistent current (mem_of_get hget)
  have hP' : op.Undisturbed t.job current.job := hP (t, op) htask current hget
  have hjob : (t.write lib op current).job = op.alone lib current.job := write_job hcreated hP'
  have hlookup : ∀ id,
      get Tracked.id id (update Tracked.id t.id (t.write lib op) s.store) =
        if id = t.id then some (t.write lib op current) else get Tracked.id id s.store := by
    intro id
    rw [get_update fun x hx => write_id hx, hget]
    rfl
  simp only [step, htask]
  refine ⟨fun t' ht' => ?_, fun t' op' ht' => ?_, fun id t' ht' => ?_, ?_⟩
  · rcases mem_update ht' with ht' | ⟨x, hx, rfl⟩
    · exact h.consistent t' ht'
    · obtain rfl : current = x := Option.some.inj (hget.symm.trans hx)
      exact write_consistent ht hcurrent hP'
  · obtain ⟨hcons, current', hget', hcreated'⟩ := h.tasks t' op' (mem_of_mem_eraseIdx ht')
    refine ⟨hcons, ?_⟩
    rw [hlookup]
    split_ifs with hid
    · refine ⟨_, rfl, ?_⟩
      rw [hid, hget, Option.some.injEq] at hget'
      rw [hjob, (alone_spec _).1, hget', hcreated']
    · exact ⟨current', hget', hcreated'⟩
  · rw [hlookup] at ht'
    simp only [errors_outcomes]
    split_ifs at ht' ⊢ with hid
    · obtain ⟨t₀, hget0, herrors⟩ := h.errors t.id current hget
      refine ⟨t₀, hid ▸ hget0, ?_⟩
      rw [← Option.some.inj ht', hjob, (alone_spec _).2, herrors, hid]
    · exact h.errors id t' ht'
  · refine (map_update Job.id (op.alone lib) (fun _ => rfl) fun x hx => ?_).trans ?_
    · obtain rfl : current = x := Option.some.inj (hget.symm.trans hx)
      exact hjob
    · rw [h.replayed]
      rfl

theorem Kept.step {ev : Event} (h : Kept lib jobs s) (hP : Undisturbed s ev) :
    Kept lib jobs (s.step lib ev) := by
  cases ev with
  | read id op =>
    simp only [Editing.step]
    split
    · exact h
    · next t hget =>
      refine ⟨h.consistent, fun t' op' ht' => ?_, h.errors, h.replayed⟩
      rcases mem_append.mp ht' with ht' | ht'
      · exact h.tasks t' op' ht'
      · obtain ⟨rfl, rfl⟩ := Prod.mk.inj (mem_singleton.mp ht')
        refine ⟨h.consistent t' (mem_of_get hget), t', ?_, rfl⟩
        rw [key_of_get hget]
        exact hget
  | write task =>
    cases htask : s.tasks[task]? with
    | none =>
      simp only [Editing.step, htask]
      exact h
    | some entry => exact h.write htask hP

/-- In every run in which each operation finds what it has read, the next run of every job was
    computed from the schedule that is stored, the errors in a row are those recorded since the last
    other outcome, and the jobs are what the operations make of them one after the other. -/
theorem edits_and_outcomes_kept {run : List Event} (hstart : ∀ t ∈ jobs, t.Consistent lib)
    (hrun : Meets (step lib) Undisturbed { store := jobs } run) :
    (∀ t ∈ (runAll (step lib) { store := jobs } run).store, t.Consistent lib) ∧
      (∀ id t, get Tracked.id id (runAll (step lib) { store := jobs } run).store = some t →
        ∃ t₀, get Tracked.id id jobs = some t₀ ∧ t.job.consecutiveErrors =
          errorsInARow t₀.job.consecutiveErrors
            (outcomes id (runAll (step lib) { store := jobs } run).history)) ∧
      (runAll (step lib) { store := jobs } run).store.map Tracked.job =
        replay lib (runAll (step lib) { store := jobs } run).history (jobs.map Tracked.job) := by
  have h : Kept lib jobs (runAll (step lib) { store := jobs } run) :=
    Meets.inv (fun s ev h hP => h.step hP) (Kept.start hstart) hrun
  exact ⟨h.consistent, h.errors, h.replayed⟩

/-- A job that runs every half hour. -/
def halfHourly : Tracked where
  job :=
    { id := "report", schedule := { kind := .kindEvery, everyText := "30m" }, createdAt := second
      nextRunAt := 1801 * second }
  source := some ⟨{ kind := .kindEvery, everyText := "30m" }, second, second⟩

def hourly : Schedule where
  kind := .kindEvery
  everyText := "1h"

theorem halfHourly_consistent : ∀ t ∈ [halfHourly], t.Consistent intervals := by
  intro t ht
  rw [mem_singleton.mp ht]
  exact ⟨rfl, by decide +kernel⟩

/-- An execution that fails, a change of the schedule, and another execution, in turn. -/
def inTurn : Editing :=
  runAll (step intervals) { store := [halfHourly] }
    [.read "report" (.execution (3601 * second) .error), .write 0,
      .read "report" (.patch (3700 * second) none (some hourly)), .write 0,
      .read "report" (.execution (7300 * second) .error), .write 0]

theorem operations_in_turn_kept : (∀ t ∈ inTurn.store, t.Consistent intervals) ∧
    (∀ id t, get Tracked.id id inTurn.store = some t →
      ∃ t₀, get Tracked.id id [halfHourly] = some t₀ ∧ t.job.consecutiveErrors =
        errorsInARow t₀.job.consecutiveErrors (outcomes id inTurn.history)) ∧
    inTurn.store.map Tracked.job = replay intervals inTurn.history [halfHourly.job] :=
  edits_and_outcomes_kept halfHourly_consistent (by decide +kernel)

/-- The schedule is changed during an execution. -/
def staleNextRun : Editing :=
  runAll (step intervals) { store := [halfHourly] }
    [.read "report" (.execution (3601 * second) .ok),
      .read "report" (.patch (3700 * second) none (some hourly)), .write 1, .write 0]

/-- Two executions at the same time fail. -/
def lostError : Editing :=
  runAll (step intervals) { store := [halfHourly] }
    [.read "report" (.execution (3601 * second) .error),
      .read "report" (.execution (3602 * second) .error), .write 0, .write 0]

/-- The next run comes from the old schedule, and one of two errors is counted. -/
theorem stale_execution_overwrites_edit :
    (staleNextRun.store.map fun t => (t.job.schedule, t.job.nextRunAt, t.source)) =
      [(hourly, 5401 * second, some ⟨halfHourly.job.schedule, 3601 * second, second⟩)] ∧
    (lostError.store.map fun t => t.job.consecutiveErrors) = [1] ∧
    errorsInARow 0 (outcomes "report" lostError.history) = 2 := by
  decide +kernel

end Editing

end Hopclaw.Cron
