import Hopclaw.Cron.Schedule
import Hopclaw.Domain.Keyed
import Hopclaw.Interleaving.Trace

/-! # Wakeup triggers

The wakeup service (`wakeup/wakeup.go`): calls that add and edit triggers, and the rounds of its
loop. A round reads the triggers that are due, submits one after the other, and writes each outcome
together with a next run computed from the trigger as it was read. -/

namespace Hopclaw.Wakeup

open GoStrings Cron

variable {X : Type}

/-- A trigger. `details` are the fields the service passes on without reading them. -/
structure Trigger (X : Type) where
  id : String
  schedule : String
  timezone : String := ""
  enabled : Bool := true
  createdAt : ℤ := 0
  lastRunAt : ℤ := 0
  lastStatus : String := ""
  lastError : String := ""
  nextRunAt : ℤ := 0
  details : X
deriving DecidableEq

def Trigger.setNextRunAt (t : Trigger X) (next : ℤ) : Trigger X :=
  { t with nextRunAt := next }

section SetNextRunAt

variable (t : Trigger X) (next : ℤ)

@[simp] theorem Trigger.setNextRunAt_enabled : (t.setNextRunAt next).enabled = t.enabled := rfl

end SetNextRunAt

def parseSchedule (schedule timezone : String) : Schedule :=
  if 6 < schedule.toList.length ∧ hasPrefix schedule "every " = true then
    { kind := .kindEvery, everyText := String.ofList (schedule.toList.drop 6), timezone }
  else { kind := .kindCron, expression := schedule, timezone }

def computeNextRun (lib : TimeLib) (schedule timezone : String) (after : ℤ) : Except String ℤ :=
  nextRunTime lib (parseSchedule schedule timezone) after

/-- A computation of a next run. -/
structure Source where
  schedule : String
  timezone : String
  after : ℤ
deriving DecidableEq

/-- A stored trigger with the computation its next run comes from. -/
structure Tracked (X : Type) where
  trigger : Trigger X
  source : Option Source := none
deriving DecidableEq

def Tracked.id (t : Tracked X) : String := t.trigger.id

variable (lib : TimeLib)

/-- A disabled trigger has no next run, an enabled one has one computed from its schedule and
    timezone. -/
def Tracked.Consistent (t : Tracked X) : Prop :=
  if t.trigger.enabled = true then
    ∃ source, t.source = some source ∧ source.schedule = t.trigger.schedule ∧
      source.timezone = t.trigger.timezone ∧
      computeNextRun lib source.schedule source.timezone source.after = .ok t.trigger.nextRunAt
  else t.trigger.nextRunAt = 0

structure Service (X : Type) where
  store : List (Tracked X)
  /-- The rounds in progress: when each began, and the triggers it has still to fire. -/
  rounds : List (ℤ × List (Trigger X)) := []
  /-- The calls of `Update` and `Enable` that returned an error: the stored trigger before and
      after. -/
  failed : List (Option (Trigger X) × Option (Trigger X)) := []

/-! ## Calls -/

/-- The schedule, the timezone or the state has changed. -/
def NeedsRecompute (prev t : Trigger X) : Prop :=
  t.schedule ≠ prev.schedule ∨ t.timezone ≠ prev.timezone ∨ t.enabled ≠ prev.enabled

instance (prev t : Trigger X) : Decidable (NeedsRecompute prev t) :=
  inferInstanceAs (Decidable (_ ∨ _ ∨ _))

/-- The function `Update` applies to the stored trigger, and whether it reports an error. -/
def updated (now : ℤ) (fn : Trigger X → Trigger X) (t : Tracked X) : Tracked X × Bool :=
  let changed := fn t.trigger
  if ¬ NeedsRecompute t.trigger changed then (⟨changed, t.source⟩, false)
  else if changed.enabled then
    match computeNextRun lib changed.schedule changed.timezone now with
    | .error _ => (⟨changed, t.source⟩, true)
    | .ok next =>
      (⟨changed.setNextRunAt next, some ⟨changed.schedule, changed.timezone, now⟩⟩, false)
  else (⟨changed.setNextRunAt 0, none⟩, false)

/-- Likewise for `Enable`. -/
def enabled (now : ℤ) (t : Tracked X) : Tracked X × Bool :=
  let trigger : Trigger X := { t.trigger with enabled := true }
  match computeNextRun lib trigger.schedule trigger.timezone now with
  | .error _ => (⟨trigger, t.source⟩, true)
  | .ok next =>
    (⟨trigger.setNextRunAt next, some ⟨trigger.schedule, trigger.timezone, now⟩⟩, false)

def disabled (t : Tracked X) : Tracked X :=
  ⟨({ t.trigger with enabled := false } : Trigger X).setNextRunAt 0, none⟩

/-- The trigger `Add` stores, if its next run can be computed. The clock is read twice. -/
def added (created now : ℤ) (trigger : Trigger X) : Option (Tracked X) :=
  let trigger := if trigger.createdAt = 0 then { trigger with createdAt := created } else trigger
  if trigger.enabled then
    match computeNextRun lib trigger.schedule trigger.timezone now with
    | .error _ => none
    | .ok next =>
      some ⟨trigger.setNextRunAt next, some ⟨trigger.schedule, trigger.timezone, now⟩⟩
  else some ⟨trigger.setNextRunAt 0, none⟩

/-! ## Rounds -/

/-- The test of `fireDueTriggers`. -/
def due (now : ℤ) (trigger : Trigger X) : Bool :=
  trigger.enabled && trigger.nextRunAt ≠ 0 && trigger.nextRunAt ≤ now

/-- What submitting a trigger led to. -/
structure Outcome (X : Type) where
  status : String
  error : String := ""
  details : X → X := fun d => d

/-- What `fireTrigger` writes: the next run is computed from `read`, the trigger as it was read. -/
def fired (now : ℤ) (read : Trigger X) (outcome : Outcome X) (current : Tracked X) : Tracked X :=
  ⟨{ current.trigger with
      lastRunAt := now
      lastStatus := outcome.status
      lastError := outcome.error
      nextRunAt := orZero (computeNextRun lib read.schedule read.timezone now)
      details := outcome.details current.trigger.details },
    some ⟨read.schedule, read.timezone, now⟩⟩

namespace Service

/-- A call, with its reading of the clock and whether `Save` succeeds at its end, or a step of a
    round. -/
inductive Event (X : Type)
  | add (created now : ℤ) (trigger : Trigger X) (saved : Bool)
  | update (now : ℤ) (id : String) (fn : Trigger X → Trigger X) (saved : Bool)
  | enable (now : ℤ) (id : String) (saved : Bool)
  | disable (id : String) (saved : Bool)
  /-- A round reads the due triggers. -/
  | fire (now : ℤ)
  /-- The next trigger of a round was submitted. -/
  | write (round : ℕ) (outcome : Outcome X)

/-- A call that changes a stored trigger and may report an error. A missing trigger is an error that
    changes nothing. -/
def edit (s : Service X) (id : String) (f : Tracked X → Tracked X × Bool) (saved : Bool) :
    Service X :=
  match Keyed.get Tracked.id id s.store with
  | none => { s with failed := (none, none) :: s.failed }
  | some t =>
    { s with
      store := Keyed.update Tracked.id id (fun t => (f t).1) s.store
      failed :=
        if (f t).2 = true ∨ saved = false then
          (some t.trigger, some (f t).1.trigger) :: s.failed
        else s.failed }

def step (s : Service X) : Event X → Service X
  | .add created now trigger _ =>
    match added lib created now trigger with
    | none => s
    | some t =>
      match Keyed.get Tracked.id t.id s.store with
      | some _ => s
      | none => { s with store := s.store ++ [t] }
  | .update now id fn saved => s.edit id (updated lib now fn) saved
  | .enable now id saved => s.edit id (enabled lib now) saved
  | .disable id _ => { s with store := Keyed.update Tracked.id id disabled s.store }
  | .fire now =>
    { s with rounds := s.rounds ++ [(now, (s.store.map Tracked.trigger).filter (due now))] }
  | .write round outcome =>
    match s.rounds[round]? with
    | some (now, trigger :: rest) =>
      { s with
        store := Keyed.update Tracked.id trigger.id (fired lib now trigger outcome) s.store
        rounds := s.rounds.set round (now, rest) }
    | _ => s

end Service

end Hopclaw.Wakeup
