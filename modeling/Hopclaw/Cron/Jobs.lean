import Hopclaw.Cron.Schedule
import Hopclaw.Domain.Keyed

/-! # Cron jobs

A job as the scheduler sees it (`cron/types.go`), what the outcome of an execution does to it
(`executeAndUpdate` in `cron/service.go`), and which jobs are to be run. The list of jobs is that of
the job store, whose `Update` changes the first job with an id. -/

namespace Hopclaw.Cron

inductive RunStatus
  | ok | error | skipped
deriving DecidableEq

/-- A job, without what only its execution and the delivery of its results read. -/
structure Job where
  id : String
  enabled : Bool := true
  schedule : Schedule
  lastRunAt : ℤ := 0
  lastStatus : Option RunStatus := none
  nextRunAt : ℤ := 0
  consecutiveErrors : ℤ := 0
  backoffUntil : ℤ := 0
  createdAt : ℤ := 0
deriving DecidableEq

def getJob (id : String) (jobs : List Job) : Option Job :=
  Keyed.get Job.id id jobs

def updateJob (id : String) (f : Job → Job) (jobs : List Job) : List Job :=
  Keyed.update Job.id id f jobs

/-! ## Outcomes -/

def maxConsecutiveErrors : ℤ := 10

def backoffBase : ℤ := 30 * second

def backoffMax : ℤ := 3600 * second

/-- The loop of `computeBackoff`, with the number of rounds left. -/
def doubled : ℕ → ℤ → ℤ
  | 0, d => d
  | n + 1, d => if d < backoffMax then doubled n (d * 2) else d

def computeBackoff (consecutiveErrors : ℤ) : ℤ :=
  if consecutiveErrors ≤ 0 then 0
  else min (doubled (consecutiveErrors - 1).toNat backoffBase) backoffMax

/-- The errors in a row, counted from those of the snapshot. -/
def errorsAfter (job : Job) (status : RunStatus) : ℤ :=
  if status = .error then job.consecutiveErrors + 1 else 0

/-- A one-shot job is disabled when it has run, any other after too many errors. -/
def disables (job : Job) (status : RunStatus) : Bool :=
  job.schedule.kind = .kindAt || maxConsecutiveErrors ≤ errorsAfter job status

/-- What `executeAndUpdate` writes into the stored job `j` at its end. All it computes is computed
    from `job`, the job as it was read before the execution that began at `now`. -/
def recordOutcome (lib : TimeLib) (job : Job) (now : ℤ) (status : RunStatus) (j : Job) : Job :=
  let nextRun := orZero (nextRunTimeAnchored lib job.schedule now job.createdAt)
  let autoDisable := maxConsecutiveErrors ≤ errorsAfter job status
  let backoffUntil :=
    if status = .error ∧ ¬ autoDisable then now + computeBackoff (errorsAfter job status) else 0
  let j :=
    { j with
      lastRunAt := now
      lastStatus := some status
      nextRunAt := nextRun
      consecutiveErrors := if status = .ok then 0 else errorsAfter job status
      backoffUntil := if status = .ok then 0 else backoffUntil }
  if disables job status then { j with enabled := false, nextRunAt := 0 } else j

variable {lib : TimeLib} {job j : Job} {now : ℤ} {status : RunStatus}

@[simp] theorem recordOutcome_id : (recordOutcome lib job now status j).id = j.id := by
  unfold recordOutcome
  dsimp only
  split_ifs <;> rfl

@[simp] theorem recordOutcome_schedule :
    (recordOutcome lib job now status j).schedule = j.schedule := by
  unfold recordOutcome
  dsimp only
  split_ifs <;> rfl

@[simp] theorem recordOutcome_createdAt :
    (recordOutcome lib job now status j).createdAt = j.createdAt := by
  unfold recordOutcome
  dsimp only
  split_ifs <;> rfl

theorem recordOutcome_consecutiveErrors :
    (recordOutcome lib job now status j).consecutiveErrors = errorsAfter job status := by
  have hreset : (if status = .ok then 0 else errorsAfter job status) = errorsAfter job status := by
    cases status <;> rfl
  unfold recordOutcome
  dsimp only
  rw [hreset]
  split <;> rfl

theorem recordOutcome_nextRunAt : (recordOutcome lib job now status j).nextRunAt =
    if disables job status then 0
    else orZero (nextRunTimeAnchored lib job.schedule now job.createdAt) := by
  unfold recordOutcome
  dsimp only
  split_ifs <;> rfl

/-- The next run is later than the beginning of the execution, or there is none. -/
theorem recordOutcome_later (status : RunStatus) (j : Job)
    (hrange : InRange lib job.schedule now job.createdAt) :
    (recordOutcome lib job now status j).nextRunAt = 0 ∨
      now < (recordOutcome lib job now status j).nextRunAt := by
  rw [recordOutcome_nextRunAt]
  split_ifs
  · exact .inl rfl
  · cases h : nextRunTimeAnchored lib job.schedule now job.createdAt with
    | error e => exact .inl rfl
    | ok t => exact nextRunTimeAnchored_later hrange h

/-! ## Jobs to run -/

/-- One round of `seedNextRunTimes`: a job without a next run gets one. -/
def seedOne (lib : TimeLib) (now : ℤ) (jobs : List Job) (job : Job) : List Job :=
  if job.enabled = false ∨ job.nextRunAt ≠ 0 then jobs
  else
    let anchor := if job.lastRunAt = 0 then job.createdAt else job.lastRunAt
    match nextRunTimeAnchored lib job.schedule now anchor with
    | .error _ => jobs
    | .ok next =>
      if next = 0 then jobs else updateJob job.id (fun j => { j with nextRunAt := next }) jobs

def seedNextRunTimes (lib : TimeLib) (now : ℤ) (jobs : List Job) : List Job :=
  jobs.foldl (seedOne lib now) jobs

def maxCatchUpJobs : ℕ := 5

/-- The jobs `catchUpMissedJobs` runs. -/
def missedJobs (now : ℤ) (jobs : List Job) : List Job :=
  (jobs.filter fun job => job.enabled && job.nextRunAt ≠ 0 && job.nextRunAt < now).take
    maxCatchUpJobs

/-- The test of `fireDueJobs`. -/
def due (now : ℤ) (job : Job) : Bool :=
  job.enabled && job.nextRunAt ≠ 0 && job.nextRunAt ≤ now &&
    !(job.backoffUntil ≠ 0 && now < job.backoffUntil)

theorem map_id_seedNextRunTimes (jobs : List Job) :
    (seedNextRunTimes lib now jobs).map Job.id = jobs.map Job.id := by
  have hone : ∀ (acc : List Job) (job : Job), (seedOne lib now acc job).map Job.id =
      acc.map Job.id := by
    intro acc job
    unfold seedOne
    dsimp only
    by_cases hskip : job.enabled = false ∨ job.nextRunAt ≠ 0
    · rw [if_pos hskip]
    · rw [if_neg hskip]
      split
      · rfl
      · next next _ =>
        by_cases hzero : next = 0
        · rw [if_pos hzero]
        · rw [if_neg hzero]
          exact Keyed.map_key_update fun _ h => h
  have hall : ∀ (rest acc : List Job), (rest.foldl (seedOne lib now) acc).map Job.id =
      acc.map Job.id := by
    intro rest
    induction rest with
    | nil => exact fun acc => rfl
    | cons job rest ih => exact fun acc => (ih _).trans (hone acc job)
  exact hall jobs jobs

end Hopclaw.Cron
