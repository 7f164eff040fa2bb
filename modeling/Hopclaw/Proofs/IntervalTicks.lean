import Hopclaw.Cron.Schedule
import Mathlib.Order.Bounds.Basic

/-! # The ticks of an interval

A job that runs every `d` nanoseconds runs at its anchor and at the ticks after it. The next tick is
counted in 64 bits: the time since the anchor saturates and the product wraps around, so the tick is
the right one as long as its distance from the anchor is a duration, about 292 years. -/

namespace Hopclaw.Cron

open GoStrings

variable {after anchor d : ℤ}

/-- The ticks that are later than the reference. -/
def laterTicks (after anchor d : ℤ) : Set ℤ :=
  {t | after < t ∧ ∃ k : ℕ, t = anchor + k * d}

theorem isLeast_anchor (hd : 0 < d) (hlt : after < anchor) :
    IsLeast (laterTicks after anchor d) anchor := by
  refine ⟨⟨hlt, 0, by simp⟩, ?_⟩
  rintro t ⟨-, k, rfl⟩
  have := Int.mul_nonneg (Int.natCast_nonneg k) hd.le
  omega

theorem isLeast_tick (hd : 0 < d) (hle : anchor ≤ after) :
    IsLeast (laterTicks after anchor d) (anchor + ((after - anchor) / d + 1) * d) := by
  have hnonneg : 0 ≤ (after - anchor) / d := Int.ediv_nonneg (by omega) hd.le
  have hlater := Int.lt_ediv_add_one_mul_self (after - anchor) hd
  refine ⟨⟨by omega, ((after - anchor) / d + 1).toNat, ?_⟩, ?_⟩
  · rw [Int.toNat_of_nonneg (by omega)]
  · rintro t ⟨ht, k, rfl⟩
    -- a tick with a smaller number is not later than the reference
    have hk : (after - anchor) / d < k := Int.ediv_lt_of_lt_mul hd (by omega)
    have := Int.mul_le_mul_of_nonneg_right (show (after - anchor) / d + 1 ≤ k by omega) hd.le
    omega

/-- The next run of an interval schedule is the least tick after the reference exactly if the
    reference is before the anchor or the tick's distance from it fits in 63 bits. Without an anchor
    the ticks are counted from the reference. -/
theorem next_interval_run_least_iff (lib : TimeLib) (schedule : Schedule) (after anchor d : ℤ)
    (htext : trimSpace schedule.everyText ≠ "")
    (hparse : lib.parseDuration (trimSpace schedule.everyText) = some d) (hd : 0 < d) :
    (∃ t, nextRunEveryAnchored lib schedule after anchor = .ok t ∧
        IsLeast (laterTicks after (if anchor = 0 then after else anchor) d) t) ↔
      after < (if anchor = 0 then after else anchor) ∨
        ((after - if anchor = 0 then after else anchor) / d + 1) * d < 2 ^ 63 := by
  simp only [nextRunEveryAnchored, htext, hparse, if_false, not_le.mpr hd, Except.ok.injEq,
    exists_eq_left']
  generalize (if anchor = 0 then after else anchor) = anchor
  rcases lt_or_ge after anchor with hlt | hle
  · refine iff_of_true ?_ (.inl hlt)
    rw [firstTick, if_pos hlt]
    exact isLeast_anchor hd hlt
  · rw [or_iff_right (not_lt.mpr hle), ← firstTick_eq_iff hd hle]
    exact ⟨fun h => h.unique (isLeast_tick hd hle), fun h => h ▸ isLeast_tick hd hle⟩

/-- A job that runs every half hour and was created at noon runs at one o'clock after half past
    twelve. -/
theorem half_hour_run :
    let next := nextRunEveryAnchored intervals { kind := .kindEvery, everyText := "30m" }
      (45000 * second) (43200 * second)
    next = .ok (46800 * second) ∧
      ∃ t, next = .ok t ∧
        IsLeast (laterTicks (45000 * second) (43200 * second) (1800 * second)) t :=
  ⟨by decide +kernel, (next_interval_run_least_iff intervals _ _ _ (1800 * second)
    (by decide +kernel) (by decide +kernel) (by decide)).mpr (by decide)⟩

/-- A library that knows an interval of 200 years. -/
def twoCenturies : TimeLib :=
  { intervals with
    parseDuration := fun s => if s = "1752000h" then some (1752000 * 3600 * second) else none
    parseDuration_lt := by
      intro s d h
      split_ifs at h
      cases h
      decide }

/-- A job that runs every 200 years: at its first tick the next one is computed to be in the past,
    before the job was created. -/
theorem long_interval_runs_in_the_past :
    nextRunEveryAnchored twoCenturies { kind := .kindEvery, everyText := "1752000h" }
      (second + 1752000 * 3600 * second) second = .ok (-5832344072709551616) := by
  decide +kernel

end Hopclaw.Cron
