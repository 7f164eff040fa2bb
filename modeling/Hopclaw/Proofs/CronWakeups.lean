import Hopclaw.Cron.Jobs

/-! # The timer of the scheduler

The loop of `cron/service.go` sleeps for `nextDelay` and then fires the jobs that are due. Both go
through the stored jobs, but only the second looks at the backoff of a job: a job that has failed
and whose next run comes before its backoff ends wakes the loop for nothing. -/

namespace Hopclaw.Cron

/-- How far ahead the timer sleeps at most. -/
def maxTimerDuration : ℤ := 24 * 3600 * second

/-- The delay for jobs that are past their next run, which is to keep the loop from spinning. -/
def minTimerDelay : ℤ := second / 1000

/-- Whether `nextDelay` looks at a job. -/
def scheduled (job : Job) : Bool :=
  job.enabled && job.nextRunAt != 0

/-- The loop of `nextDelay`; zero is the zero time. -/
def earliestRun (jobs : List Job) : ℤ :=
  jobs.foldl (fun earliest job =>
    if scheduled job && (earliest == 0 || job.nextRunAt < earliest) then job.nextRunAt
    else earliest) 0

def nextDelay (now : ℤ) (jobs : List Job) : ℤ :=
  let earliest := earliestRun jobs
  if earliest = 0 then maxTimerDuration
  else if earliest - now ≤ 0 then minTimerDelay
  else if earliest - now > maxTimerDuration then maxTimerDuration
  else earliest - now

/-- A wake-up before the cap is one at which `fireDueJobs` executes a job. -/
def WakesToFire (now : ℤ) (jobs : List Job) : Prop :=
  nextDelay now jobs < maxTimerDuration → ∃ job ∈ jobs, due (now + nextDelay now jobs) job

variable {jobs : List Job} {now : ℤ}

/-- The earliest next run is that of a job and none is before it, or there is none. -/
theorem earliestRun_cases (jobs : List Job) :
    (earliestRun jobs = 0 ∧ ∀ job ∈ jobs, ¬ scheduled job) ∨
      (∃ job ∈ jobs, scheduled job ∧ job.nextRunAt = earliestRun jobs) ∧
        ∀ job ∈ jobs, scheduled job → earliestRun jobs ≤ job.nextRunAt := by
  induction jobs using List.reverseRecOn with
  | nil => simp [earliestRun]
  | append_singleton jobs last ih =>
    have hfold : earliestRun (jobs ++ [last]) =
        if scheduled last && (earliestRun jobs == 0 || last.nextRunAt < earliestRun jobs) then
          last.nextRunAt
        else earliestRun jobs := by simp [earliestRun]
    have hnonzero : ∀ job, scheduled job → job.nextRunAt ≠ 0 := by simp [scheduled]
    rcases ih with ⟨hzero, hnone⟩ | ⟨⟨job, hjob, hsched, hat⟩, hle⟩
    · -- No job before the last is looked at.
      grind
    · -- The last one is looked at and is earlier, or what was found so far stays.
      grind

theorem due_iff {t : ℤ} {job : Job} :
    due t job ↔
      scheduled job ∧ job.nextRunAt ≤ t ∧ (job.backoffUntil = 0 ∨ job.backoffUntil ≤ t) := by
  simp [due, scheduled, and_assoc]

/-- The loop wakes to fire a job in exactly these cases: no job has its next run within the cap;
    the earliest next run is still to come and a job has it whose backoff ends by then; or it is
    past and some job, its next run and its backoff are over within the shortest delay. -/
theorem wakesToFire_iff (now : ℤ) (jobs : List Job) :
    WakesToFire now jobs ↔
      earliestRun jobs = 0 ∨ now + maxTimerDuration ≤ earliestRun jobs ∨
        (now < earliestRun jobs ∧ ∃ job ∈ jobs, scheduled job ∧
          job.nextRunAt = earliestRun jobs ∧
            (job.backoffUntil = 0 ∨ job.backoffUntil ≤ earliestRun jobs)) ∨
        earliestRun jobs ≤ now ∧ ∃ job ∈ jobs, scheduled job ∧
          job.nextRunAt ≤ now + minTimerDelay ∧
            (job.backoffUntil = 0 ∨ job.backoffUntil ≤ now + minTimerDelay) := by
  have hcap : minTimerDelay < maxTimerDuration := by decide
  unfold WakesToFire
  rcases earliestRun_cases jobs with ⟨hzero, -⟩ | ⟨-, hleast⟩
  · simp [nextDelay, hzero]
  by_cases hzero : earliestRun jobs = 0
  · simp [nextDelay, hzero]
  rcases le_or_gt (earliestRun jobs) now with hpast | hfuture
  · -- The earliest next run is past: the delay is the shortest one.
    have hdelay : nextDelay now jobs = minTimerDelay := by simp [nextDelay, hzero, hpast]
    have hnear : ¬ now + maxTimerDuration ≤ earliestRun jobs := by
      have : 0 < maxTimerDuration := by decide
      omega
    simp [hdelay, hcap, due_iff, hzero, hnear, hpast]
  rcases le_or_gt (now + maxTimerDuration) (earliestRun jobs) with hfar | hnear
  · have hdelay : ¬ nextDelay now jobs < maxTimerDuration := by
      simp only [nextDelay]
      split_ifs <;> omega
    simp [hdelay, hfar]
  · -- It is to come: the loop wakes at it, and a job due then has it.
    have hdelay : nextDelay now jobs = earliestRun jobs - now := by
      simp only [nextDelay]
      split_ifs <;> omega
    have hshort : earliestRun jobs - now < maxTimerDuration := by omega
    rw [hdelay, add_sub_cancel]
    simp only [hshort, due_iff, hzero, hnear.not_ge, hfuture, hfuture.not_ge, true_imp_iff,
      false_or, true_and, false_and, or_false]
    refine exists_congr fun job => and_congr_right fun hmem => and_congr_right fun hsched => ?_
    rw [(hleast job hmem hsched).ge_iff_eq']

/-- A job to be run every ten seconds has failed: at its next run it is still in its backoff. -/
def failedJob : Job :=
  { id := "job", schedule := { kind := .kindEvery, everyText := "10s" },
    lastRunAt := 100 * second, lastStatus := some .error, nextRunAt := 110 * second,
    consecutiveErrors := 1, backoffUntil := 130 * second }

/-- The loop wakes, executes nothing, and is to wake again a millisecond later. -/
theorem wakes_for_nothing_in_backoff :
    ¬ WakesToFire (110 * second) [failedJob] ∧
      nextDelay (110 * second) [failedJob] = minTimerDelay ∧
      nextDelay (110 * second + minTimerDelay) [failedJob] = minTimerDelay := by
  refine ⟨fun h => ?_, by decide, by decide⟩
  obtain ⟨job, hmem, hdue⟩ := h (by decide)
  obtain rfl := List.mem_singleton.mp hmem
  exact absurd hdue (by decide)

end Hopclaw.Cron
