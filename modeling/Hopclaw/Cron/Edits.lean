import Hopclaw.Cron.Jobs
import Hopclaw.Interleaving.Trace

/-! # Edits of cron jobs

What changes a stored job while it is being executed: the end of an execution, a `PATCH` of the
operator API (`gateway/operator_cron_surface.go`), the tool `cron.update`
(`toolruntime/builtin_cron.go`) and the switch of the command line
(`internal/cli/interactive_automation_service.go`). All but the last read the job in one step and
write it in another. -/

namespace Hopclaw.Cron

/-- The change of a schedule by `cron.update`. -/
structure ScheduleEdit where
  kind : Option ScheduleKind := none
  expression : Option String := none
  timezone : Option String := none
deriving DecidableEq

def ScheduleEdit.apply (edit : ScheduleEdit) (schedule : Schedule) : Schedule :=
  let schedule := { schedule with kind := edit.kind.getD schedule.kind }
  let schedule :=
    match edit.expression with
    | none => schedule
    | some expr =>
      let blank : Schedule := { kind := schedule.kind, timezone := schedule.timezone }
      match schedule.kind with
      | .kindCron => { blank with expression := expr }
      | .kindEvery => { blank with everyText := expr }
      | .kindAt => { blank with atText := expr }
      | .other _ => blank
  { schedule with timezone := edit.timezone.getD schedule.timezone }

/-- An operation on a job, with its reading of the clock. -/
inductive Op
  /-- `executeAndUpdate`, with the outcome of the execution. -/
  | execution (now : ℤ) (status : RunStatus)
  | patch (now : ℤ) (enabled : Option Bool) (schedule : Option Schedule)
  | cronUpdate (now : ℤ) (enabled : Option Bool) (edit : ScheduleEdit)
  /-- `updateCronAutomation`. -/
  | toggle (now : ℤ) (enabled : Bool)
deriving DecidableEq

variable (lib : TimeLib)

/-- The record an operation writes, given the job as it was read and the record it finds; none where
    the operation fails before it writes. -/
def Op.written (op : Op) (read current : Job) : Option Job :=
  match op with
  | .execution now status => some (recordOutcome lib read now status current)
  | .patch now enabled schedule =>
    let updated := { read with enabled := enabled.getD read.enabled }
    match schedule with
    | none => some updated
    | some schedule =>
      match nextRunTime lib schedule now with
      | .error _ => none
      | .ok next => some { updated with schedule, nextRunAt := next }
  | .cronUpdate now enabled edit =>
    let updated :=
      { read with enabled := enabled.getD read.enabled, schedule := edit.apply read.schedule }
    if updated.enabled then
      match nextRunTime lib updated.schedule now with
      | .error _ => none
      | .ok next => some { updated with nextRunAt := next }
    else some { updated with nextRunAt := 0 }
  | .toggle now enabled =>
    if enabled = false then some { current with enabled := false, nextRunAt := 0 }
    else
      let anchor := if current.lastRunAt = 0 then current.createdAt else current.lastRunAt
      match nextRunTimeAnchored lib current.schedule now anchor with
      | .error _ => some { current with enabled := true }
      | .ok next => some { current with enabled := true, nextRunAt := next }

/-- The operation on a job that nothing else touches. -/
def Op.alone (op : Op) (job : Job) : Job :=
  (op.written lib job job).getD job

/-! ## Where a next run comes from -/

/-- A computation of a next run. -/
structure Source where
  schedule : Schedule
  after : ℤ
  anchor : ℤ
deriving DecidableEq

def Source.value (source : Source) : ℤ :=
  orZero (nextRunTimeAnchored lib source.schedule source.after source.anchor)

/-- A stored job with the computation its next run comes from, if it was not cleared. -/
structure Tracked where
  job : Job
  source : Option Source := none
deriving DecidableEq

def Tracked.id (t : Tracked) : String := t.job.id

def Op.source (op : Op) (read current : Tracked) : Option Source :=
  match op with
  | .execution now status =>
    if disables read.job status then none
    else some ⟨read.job.schedule, now, read.job.createdAt⟩
  | .patch now _ (some schedule) => some ⟨schedule, now, now⟩
  | .patch _ _ none => read.source
  | .cronUpdate now enabled edit =>
    if enabled.getD read.job.enabled then some ⟨edit.apply read.job.schedule, now, now⟩ else none
  | .toggle now enabled =>
    if enabled = false then none
    else
      let anchor :=
        if current.job.lastRunAt = 0 then current.job.createdAt else current.job.lastRunAt
      match nextRunTimeAnchored lib current.job.schedule now anchor with
      | .error _ => current.source
      | .ok _ => some ⟨current.job.schedule, now, anchor⟩

/-- The write of an operation that read `t`. -/
def Tracked.write (op : Op) (t current : Tracked) : Tracked :=
  match op.written lib t.job current.job with
  | none => current
  | some job => ⟨job, op.source lib t current⟩

/-- The next run was computed from the schedule that is stored. A job without a next run is disabled
    or has a schedule from which none can be computed. -/
def Tracked.Consistent (t : Tracked) : Prop :=
  match t.source with
  | some source => source.schedule = t.job.schedule ∧ t.job.nextRunAt = source.value lib
  | none => t.job.nextRunAt = 0 ∧ (t.job.enabled = false ∨
      ∀ after anchor, ∃ e, nextRunTimeAnchored lib t.job.schedule after anchor = .error e)

/-! ## Interleavings -/

/-- The stored jobs, the operations that have read their job and not yet written it, and what was
    written, the latest first. -/
structure Editing where
  store : List Tracked
  tasks : List (Tracked × Op) := []
  history : List (String × Op) := []

namespace Editing

inductive Event
  /-- An operation reads its job. -/
  | read (id : String) (op : Op)
  /-- An operation in progress writes. -/
  | write (task : ℕ)
deriving DecidableEq

def step (s : Editing) : Event → Editing
  | .read id op =>
    match Keyed.get Tracked.id id s.store with
    | none => s
    | some t => { s with tasks := s.tasks ++ [(t, op)] }
  | .write task =>
    match s.tasks[task]? with
    | none => s
    | some (t, op) =>
      { store := Keyed.update Tracked.id t.id (t.write lib op) s.store
        tasks := s.tasks.eraseIdx task
        history := (t.id, op) :: s.history }

end Editing

/-- The operations one after the other. -/
def replay (history : List (String × Op)) (jobs : List Job) : List Job :=
  history.foldr (fun w jobs => updateJob w.1 (w.2.alone lib) jobs) jobs

/-- The outcomes recorded for a job, the latest first. -/
def outcomes (id : String) (history : List (String × Op)) : List RunStatus :=
  history.filterMap fun w =>
    match w.2 with
    | .execution _ status => if w.1 = id then some status else none
    | _ => none

/-- The errors since the last other outcome; those counted before are added while there is none. -/
def errorsInARow (before : ℤ) (outcomes : List RunStatus) : ℤ :=
  let recent := outcomes.takeWhile fun status => status = .error
  if recent.length = outcomes.length then before + recent.length else recent.length

end Hopclaw.Cron
