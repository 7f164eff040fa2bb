import Hopclaw.Text.GoStrings
import Mathlib.Tactic.Ring

/-! # Schedules of cron jobs

When a job runs next (`cron/schedule.go`): at an absolute time, at the ticks of an interval, or by a
cron expression. Instants and durations are counted in nanoseconds, `0` being Go's zero time;
durations are 64 bits wide. -/

namespace Hopclaw.Cron

open GoStrings

/-- What is called of the standard library and of the parser of cron expressions. -/
structure TimeLib where
  /-- `time.Parse(time.RFC3339, s)`. -/
  parseTime : String → Option ℤ
  /-- `time.ParseDuration`. -/
  parseDuration : String → Option ℤ
  parseDuration_lt : ∀ {s d}, parseDuration s = some d → d < 2 ^ 63
  /-- `cronParser.Parse` accepts the expression. -/
  parseCron : String → Bool
  /-- `time.LoadLocation` knows the name. -/
  loadLocation : String → Bool
  /-- `Next` of an expression, in a location (the local one for the empty name). -/
  cronNext : String → String → ℤ → ℤ
  /-- It is later than the given time, or the zero time. -/
  cronNext_later : ∀ expr tz after, cronNext expr tz after = 0 ∨ after < cronNext expr tz after

/-- The kind of a schedule, a free string in the source: `other` is any text that is none of the
    three as it stands. -/
inductive ScheduleKind
  | kindAt | kindEvery | kindCron
  | other (text : String)
deriving DecidableEq

def ScheduleKind.text : ScheduleKind → String
  | .kindAt => "at"
  | .kindEvery => "every"
  | .kindCron => "cron"
  | .other text => text

/-- The kind with case and surrounding blanks set aside. -/
def ScheduleKind.normalized : ScheduleKind → ScheduleKind
  | .other text =>
    let t := trimSpace (toLower text)
    if t = "at" then .kindAt
    else if t = "every" then .kindEvery
    else if t = "cron" then .kindCron
    else .other text
  | kind => kind

structure Schedule where
  kind : ScheduleKind
  atText : String := ""
  everyText : String := ""
  expression : String := ""
  timezone : String := ""
deriving DecidableEq

def invalidSchedule (text : String) : String :=
  "invalid schedule: " ++ text

def second : ℤ := 10 ^ 9

/-- The largest duration. -/
def maxDuration : ℤ := 2 ^ 63 - 1

/-- A 64-bit signed result. -/
def wrap64 (x : ℤ) : ℤ := x.bmod (2 ^ 64)

variable (lib : TimeLib)

/-- One time only; afterwards the zero time. -/
def nextRunAt (schedule : Schedule) (after : ℤ) : Except String ℤ :=
  let text := trimSpace schedule.atText
  if text = "" then .error (invalidSchedule "at field is required for kind \"at\"")
  else
    match lib.parseTime text with
    | none => .error (invalidSchedule ("parse at \"" ++ text ++ "\""))
    | some t => if after < t then .ok t else .ok 0

/-- The first tick of an interval after the given time; before the anchor that is the anchor. -/
def firstTick (after anchor d : ℤ) : ℤ :=
  if after < anchor then anchor
  else
    -- `Sub` saturates, the product wraps around
    let elapsed := min (after - anchor) maxDuration
    let steps := wrap64 (elapsed / d + 1)
    anchor + wrap64 (steps * d)

section

variable (schedule : Schedule)

def nextRunEveryAnchored (after anchor : ℤ) : Except String ℤ :=
  let raw := trimSpace schedule.everyText
  if raw = "" then .error (invalidSchedule "every field is required for kind \"every\"")
  else
    match lib.parseDuration raw with
    | none => .error (invalidSchedule ("parse every \"" ++ raw ++ "\""))
    | some d =>
      if d ≤ 0 then .error (invalidSchedule "every duration must be positive")
      else .ok (firstTick after (if anchor = 0 then after else anchor) d)

def nextRunEvery (after : ℤ) : Except String ℤ :=
  nextRunEveryAnchored lib schedule after after

def nextRunCron (after : ℤ) : Except String ℤ :=
  let expr := trimSpace schedule.expression
  if expr = "" then .error (invalidSchedule "expression field is required for kind \"cron\"")
  else if lib.parseCron expr = false then
    .error (invalidSchedule ("parse cron expression \"" ++ expr ++ "\""))
  else
    let tz := trimSpace schedule.timezone
    if tz ≠ "" ∧ lib.loadLocation tz = false then
      .error (invalidSchedule ("load timezone \"" ++ tz ++ "\""))
    else .ok (lib.cronNext expr tz after)

def nextRunTime (after : ℤ) : Except String ℤ :=
  match schedule.kind.normalized with
  | .kindAt => nextRunAt lib schedule after
  | .kindEvery => nextRunEvery lib schedule after
  | .kindCron => nextRunCron lib schedule after
  | .other _ => .error (invalidSchedule ("unknown kind \"" ++ schedule.kind.text ++ "\""))

/-- Only the kind `every` as it stands uses the anchor. -/
def nextRunTimeAnchored (after anchor : ℤ) : Except String ℤ :=
  if schedule.kind = .kindEvery then nextRunEveryAnchored lib schedule after anchor
  else nextRunTime lib schedule after

end

/-- The time that is stored when the error of the computation is only logged. -/
def orZero (result : Except String ℤ) : ℤ :=
  match result with
  | .ok t => t
  | .error _ => 0

/-! ## The next run is later -/

variable {lib} {schedule : Schedule} {after anchor t : ℤ}

/-- The arithmetic of an interval schedule stays within 64 bits: about 292 years between the anchor
    and the tick. -/
def InRange (lib : TimeLib) (schedule : Schedule) (after anchor : ℤ) : Prop :=
  schedule.kind = .kindEvery → anchor ≠ 0 →
    ∀ d ∈ lib.parseDuration (trimSpace schedule.everyText), after - anchor + d < 2 ^ 63

instance (schedule : Schedule) (after anchor : ℤ) :
    Decidable (InRange lib schedule after anchor) :=
  inferInstanceAs (Decidable (_ → _ → _))

theorem wrap64_of_lt {x : ℤ} (h0 : 0 ≤ x) (h : x < 2 ^ 63) : wrap64 x = x := by
  unfold wrap64
  rw [Int.bmod_def]
  omega

theorem nextRunAt_later (h : nextRunAt lib schedule after = .ok t) : t = 0 ∨ after < t := by
  unfold nextRunAt at h
  dsimp only at h
  split_ifs at h
  split at h
  · cases h
  · split_ifs at h with hlt
    · cases h
      exact .inr hlt
    · cases h
      exact .inl rfl

theorem nextRunCron_later (h : nextRunCron lib schedule after = .ok t) : t = 0 ∨ after < t := by
  unfold nextRunCron at h
  dsimp only at h
  split_ifs at h
  cases h
  exact lib.cronNext_later _ _ _

/-- The first tick is the right one exactly if its distance from the anchor is a duration. -/
theorem firstTick_eq_iff {d : ℤ} (hd : 0 < d) (hle : anchor ≤ after) :
    firstTick after anchor d = anchor + ((after - anchor) / d + 1) * d ↔
      ((after - anchor) / d + 1) * d < 2 ^ 63 := by
  have hlater : after - anchor < ((after - anchor) / d + 1) * d :=
    Int.lt_ediv_add_one_mul_self _ hd
  simp only [firstTick, if_neg (not_lt.mpr hle), add_right_inj, wrap64, Int.bmod_mul_bmod]
  constructor
  · intro h
    have := Int.bmod_lt (x := (min (after - anchor) maxDuration / d + 1) * d) (m := 2 ^ 64)
    omega
  · intro h
    have hmin : min (after - anchor) maxDuration = after - anchor := by
      unfold maxDuration
      omega
    rw [hmin]
    exact wrap64_of_lt (by omega) h

theorem firstTick_later {d : ℤ} (hd : 0 < d) (hrange : after - anchor + d < 2 ^ 63) :
    after < firstTick after anchor d := by
  rcases lt_or_ge after anchor with hlt | hle
  · rwa [firstTick, if_pos hlt]
  have hlater := Int.lt_ediv_add_one_mul_self (after - anchor) hd
  have hfloor := Int.ediv_mul_le (after - anchor) hd.ne'
  rw [add_mul] at hlater
  rw [(firstTick_eq_iff hd hle).mpr (by rw [add_mul]; omega), add_mul]
  omega

theorem nextRunEveryAnchored_later
    (hrange : ∀ d, lib.parseDuration (trimSpace schedule.everyText) = some d →
      after - (if anchor = 0 then after else anchor) + d < 2 ^ 63)
    (h : nextRunEveryAnchored lib schedule after anchor = .ok t) : after < t := by
  unfold nextRunEveryAnchored at h
  by_cases hraw : trimSpace schedule.everyText = ""
  · rw [if_pos hraw] at h
    cases h
  rw [if_neg hraw] at h
  cases hd : lib.parseDuration (trimSpace schedule.everyText) with
  | none =>
    rw [hd] at h
    cases h
  | some d =>
    simp only [hd] at h
    by_cases hpos : d ≤ 0
    · rw [if_pos hpos] at h
      cases h
    · rw [if_neg hpos] at h
      rw [← Except.ok.inj h]
      exact firstTick_later (not_le.mp hpos) (hrange d hd)

/-- A computed run is later than the reference, or none. -/
theorem nextRunTimeAnchored_later (hrange : InRange lib schedule after anchor)
    (h : nextRunTimeAnchored lib schedule after anchor = .ok t) : t = 0 ∨ after < t := by
  unfold nextRunTimeAnchored at h
  split_ifs at h with hkind
  · refine .inr (nextRunEveryAnchored_later (fun d hd => ?_) h)
    split_ifs with hanchor
    · rw [sub_self, zero_add]
      exact lib.parseDuration_lt hd
    · exact hrange hkind hanchor d hd
  · unfold nextRunTime at h
    split at h
    · exact nextRunAt_later h
    · refine .inr (nextRunEveryAnchored_later (fun d hd => ?_) h)
      rw [ite_self, sub_self, zero_add]
      exact lib.parseDuration_lt hd
    · exact nextRunCron_later h
    · cases h

/-- A library that knows two intervals, for concrete runs. -/
def intervals : TimeLib where
  parseTime _ := none
  parseDuration s :=
    if s = "30m" then some (1800 * second) else if s = "1h" then some (3600 * second) else none
  parseDuration_lt := by
    intro s d h
    split_ifs at h <;> cases h <;> decide
  parseCron _ := false
  loadLocation _ := false
  cronNext _ _ _ := 0
  cronNext_later _ _ _ := .inl rfl

end Hopclaw.Cron
