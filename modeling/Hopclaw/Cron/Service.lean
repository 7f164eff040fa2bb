import Hopclaw.Cron.Jobs
import Hopclaw.Interleaving.Trace

/-! # The scheduler

The two goroutines that `Start` leaves behind (`cron/service.go`): the one that catches up on jobs
missed while the service was stopped, and the loop that fires due jobs whenever its timer expires.
Both go through a list of jobs they have read before, one execution after the other, and both write
the next run of a job only when its execution has ended. -/

namespace Hopclaw.Cron

/-- An execution in progress: the job as it was read, and when the execution began. -/
structure Execution where
  job : Job
  now : ℤ
deriving DecidableEq

/-- The end of an execution. -/
def Execution.record (lib : TimeLib) (e : Execution) (status : RunStatus) (jobs : List Job) :
    List Job :=
  updateJob e.job.id (recordOutcome lib e.job e.now status) jobs

structure Service where
  store : List Job
  /-- The time; the clock does not go back. -/
  clock : ℤ
  /-- The missed jobs the first goroutine has not begun, and the one it executes. -/
  missed : List Job := []
  catchUp : Option Execution := none
  /-- What is left of the round of the loop, with the time at which it began, and the job the loop
      executes. -/
  round : Option (ℤ × List Job) := none
  running : Option Execution := none
  /-- The occurrences that were executed: a job and the next run it had. -/
  executed : List (String × ℤ) := []
deriving DecidableEq

namespace Service

/-- `Start` on a list of jobs: the next runs are seeded, and some time later the missed jobs are
    read. -/
def start (lib : TimeLib) (jobs : List Job) (now : ℤ) (delay : ℕ) : Service :=
  let store := seedNextRunTimes lib now jobs
  { store, clock := now + delay, missed := missedJobs (now + delay) store }

inductive Event
  /-- Time passes. -/
  | wait (delay : ℕ)
  /-- The first goroutine begins with the next missed job, or ends an execution. -/
  | catchUpNext
  | catchUpDone (status : RunStatus)
  /-- The timer of the loop expires. -/
  | fire
  /-- The loop looks at the next job of its round, or ends an execution. -/
  | fireNext
  | fireDone (status : RunStatus)
deriving DecidableEq

/-- What an execution of the job executes. -/
def occurrence (job : Job) : String × ℤ :=
  (job.id, job.nextRunAt)

/-- A goroutine that waits for something else takes no step. -/
def step (lib : TimeLib) (s : Service) : Event → Service
  | .wait delay => { s with clock := s.clock + delay }
  | .catchUpNext =>
    match s.catchUp, s.missed with
    | none, job :: rest =>
      { s with
        missed := rest
        catchUp := some ⟨job, s.clock⟩
        executed := occurrence job :: s.executed }
    | _, _ => s
  | .catchUpDone status =>
    match s.catchUp with
    | some e => { s with catchUp := none, store := e.record lib status s.store }
    | none => s
  | .fire =>
    match s.round with
    | none => { s with round := some (s.clock, s.store) }
    | some _ => s
  | .fireNext =>
    match s.running, s.round with
    | none, some (_, []) => { s with round := none }
    | none, some (now, job :: rest) =>
      if due now job then
        { s with
          round := some (now, rest)
          running := some ⟨job, s.clock⟩
          executed := occurrence job :: s.executed }
      else { s with round := some (now, rest) }
    | _, _ => s
  | .fireDone status =>
    match s.running with
    | some e => { s with running := none, store := e.record lib status s.store }
    | none => s

variable (s : Service)

/-- The job whose execution begins with the event. -/
def starting? : Event → Option Job
  | .catchUpNext => if s.catchUp = none then s.missed.head? else none
  | .fireNext =>
    match s.running, s.round with
    | none, some (now, job :: _) => if due now job then some job else none
    | _, _ => none
  | _ => none

/-- The execution that ends with the event. -/
def ending? : Event → Option Execution
  | .catchUpDone _ => s.catchUp
  | .fireDone _ => s.running
  | _ => none

def executions : List Execution :=
  s.catchUp.toList ++ s.running.toList

/-- The jobs that were read and not yet looked at. -/
def snapshots : List Job :=
  s.missed ++ (s.round.map Prod.snd).getD []

end Service

end Hopclaw.Cron
