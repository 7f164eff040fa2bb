import Hopclaw.Wakeup.Triggers

/-! # The next run of a trigger

`Update` and `Enable` change the stored trigger before they know whether its next run can be
computed, and a round writes a next run computed from the trigger it has read. The triggers stay
consistent, and failed calls without effect, exactly if no call fails after it has changed its
trigger and no round writes to a trigger that was edited in the meantime. -/

namespace Hopclaw.Wakeup

open Cron Interleaving Keyed List Option
open Wakeup.Tracked (Consistent)

variable {X : Type} {lib : TimeLib}

/-! ## One trigger -/

section One

variable {now : ℤ} {t : Tracked X} {trigger : Trigger X}

theorem consistent_enabled {next : ℤ} (hon : trigger.enabled = true)
    (hnext : computeNextRun lib trigger.schedule trigger.timezone now = .ok next) :
    Consistent lib
      ⟨trigger.setNextRunAt next, some ⟨trigger.schedule, trigger.timezone, now⟩⟩ := by
  rw [Consistent, Trigger.setNextRunAt_enabled, if_pos hon]
  exact ⟨_, rfl, rfl, rfl, hnext⟩

theorem consistent_disabled {source : Option Source} (hoff : ¬ trigger.enabled = true) :
    Consistent lib ⟨trigger.setNextRunAt 0, source⟩ := by
  rw [Consistent, Trigger.setNextRunAt_enabled, if_neg hoff]
  rfl

/-- With the same schedule, timezone and state a trigger stays consistent only with the same next
    run. -/
theorem consistent_iff_nextRunAt (ht : t.Consistent lib)
    (hsame : ¬ NeedsRecompute t.trigger trigger) :
    Consistent lib ⟨trigger, t.source⟩ ↔ trigger.nextRunAt = t.trigger.nextRunAt := by
  simp only [NeedsRecompute, not_or, not_not] at hsame
  obtain ⟨hschedule, htimezone, henabled⟩ := hsame
  unfold Consistent at ht ⊢
  simp only [henabled, hschedule, htimezone]
  split_ifs at ht ⊢ with hon
  · obtain ⟨source, hsource, hs, hz, hnext⟩ := ht
    constructor
    · rintro ⟨source', hsource', -, -, hnext'⟩
      rw [hsource, some.injEq] at hsource'
      subst hsource'
      exact Except.ok.inj (hnext'.symm.trans hnext)
    · intro heq
      exact ⟨source, hsource, hs, hz, heq ▸ hnext⟩
  · rw [ht]

/-- A trigger with the changed schedule, timezone and state is not the one before. -/
theorem NeedsRecompute.ne {prev changed : Trigger X} (h : NeedsRecompute prev changed)
    (hschedule : trigger.schedule = changed.schedule)
    (htimezone : trigger.timezone = changed.timezone)
    (henabled : trigger.enabled = changed.enabled) : trigger ≠ prev := by
  rintro rfl
  rcases h with h | h | h
  · exact h hschedule.symm
  · exact h htimezone.symm
  · exact h henabled.symm

/-- The edit leads to a consistent trigger, and fails only without effect. -/
def EditOk (lib : TimeLib) (f : Tracked X → Tracked X × Bool) (saved : Bool) (t : Tracked X) :
    Prop :=
  (f t).1.Consistent lib ∧ ((f t).2 = true ∨ saved = false → (f t).1.trigger = t.trigger)

/-- Where the schedule, the timezone or the state changes, the trigger is saved, and its next run
    can be computed if it is enabled; otherwise the next run is left alone, and the trigger is saved
    if anything changes. -/
def UpdateSafe (lib : TimeLib) (now : ℤ) (fn : Trigger X → Trigger X) (saved : Bool)
    (t : Trigger X) : Prop :=
  if NeedsRecompute t (fn t) then
    saved = true ∧ ((fn t).enabled = true →
      (computeNextRun lib (fn t).schedule (fn t).timezone now).isOk = true)
  else (fn t).nextRunAt = t.nextRunAt ∧ (saved = true ∨ fn t = t)

instance [DecidableEq X] (lib : TimeLib) (now : ℤ) (fn : Trigger X → Trigger X) (saved : Bool)
    (t : Trigger X) : Decidable (UpdateSafe lib now fn saved t) :=
  inferInstanceAs (Decidable (if NeedsRecompute t (fn t) then _ ∧ (_ → _) else _ ∧ (_ ∨ _)))

theorem updated_iff {fn : Trigger X → Trigger X} (ht : t.Consistent lib) (saved : Bool) :
    EditOk lib (updated lib now fn) saved t ↔ UpdateSafe lib now fn saved t.trigger := by
  unfold EditOk UpdateSafe updated
  by_cases hre : NeedsRecompute t.trigger (fn t.trigger)
  · rw [if_neg (not_not.mpr hre), if_pos hre]
    by_cases hon : (fn t.trigger).enabled = true
    · rw [if_pos hon]
      cases hnext : computeNextRun lib (fn t.trigger).schedule (fn t.trigger).timezone now with
      | error e =>
        simp only [Except.isOk, Except.toBool, Bool.false_eq_true, hon, true_or, true_imp_iff,
          imp_false, not_true_eq_false, and_false, iff_false, not_and]
        exact fun _ => hre.ne rfl rfl rfl
      | ok next =>
        have hne : (fn t.trigger).setNextRunAt next ≠ t.trigger := hre.ne rfl rfl rfl
        simp [consistent_enabled hon hnext, hne, Except.toBool]
    · rw [if_neg hon]
      have hne : (fn t.trigger).setNextRunAt 0 ≠ t.trigger := hre.ne rfl rfl rfl
      have hcons : Consistent lib ⟨(fn t.trigger).setNextRunAt 0, none⟩ :=
        consistent_disabled hon
      simp only [hcons, hne, hon, false_or, true_and, imp_false, Bool.not_eq_false, and_true,
        Bool.false_eq_true, false_imp_iff]
  · rw [if_pos hre, if_neg hre, consistent_iff_nextRunAt ht hre]
    cases saved <;> simp

/-- A trigger whose next run cannot be computed is enabled already; any other is saved if anything
    changes. -/
def EnableSafe (lib : TimeLib) (now : ℤ) (saved : Bool) (t : Trigger X) : Prop :=
  ((computeNextRun lib t.schedule t.timezone now).isOk = false → t.enabled = true) ∧
    ∀ next ∈ (computeNextRun lib t.schedule t.timezone now).toOption,
      saved = true ∨ ({ t with enabled := true } : Trigger X).setNextRunAt next = t

instance [DecidableEq X] (lib : TimeLib) (now : ℤ) (saved : Bool) (t : Trigger X) :
    Decidable (EnableSafe lib now saved t) :=
  inferInstanceAs (Decidable ((_ → _) ∧ ∀ next ∈ (Except.toOption _), _ ∨ _))

theorem enabled_iff (ht : t.Consistent lib) (saved : Bool) :
    EditOk lib (enabled lib now) saved t ↔ EnableSafe lib now saved t.trigger := by
  unfold EditOk EnableSafe enabled
  dsimp only
  cases hnext : computeNextRun lib t.trigger.schedule t.trigger.timezone now with
  | error e =>
    simp only [true_or, true_imp_iff, Except.toBool, Except.toOption,
      not_mem_none, false_imp_iff, implies_true, and_true]
    constructor
    · rintro ⟨-, heq⟩
      exact (congrArg Trigger.enabled heq).symm
    · intro hon
      have heq : { t.trigger with enabled := true } = t.trigger := by rw [← hon]
      rw [heq]
      exact ⟨ht, rfl⟩
  | ok next =>
    have hcons : Consistent lib
        ⟨({ t.trigger with enabled := true } : Trigger X).setNextRunAt next,
          some ⟨t.trigger.schedule, t.trigger.timezone, now⟩⟩ := consistent_enabled rfl hnext
    cases saved <;> simp [hcons, Except.toBool, Except.toOption]

/-- The trigger is enabled with the schedule and the timezone that were read, from which a next run
    can be computed; or it is disabled, and there is no next run to be written. -/
def WriteSafe (lib : TimeLib) (now : ℤ) (read current : Trigger X) : Prop :=
  if current.enabled = true then
    read.schedule = current.schedule ∧ read.timezone = current.timezone ∧
      (computeNextRun lib read.schedule read.timezone now).isOk = true
  else orZero (computeNextRun lib read.schedule read.timezone now) = 0

instance (lib : TimeLib) (now : ℤ) (read current : Trigger X) :
    Decidable (WriteSafe lib now read current) :=
  inferInstanceAs (Decidable (if current.enabled = true then _ ∧ _ ∧ _ else _ = _))

theorem fired_iff {read : Trigger X} {outcome : Outcome X} :
    (fired lib now read outcome t).Consistent lib ↔ WriteSafe lib now read t.trigger := by
  unfold Consistent WriteSafe fired
  split_ifs with hon
  · cases hnext : computeNextRun lib read.schedule read.timezone now with
    | error e => simp [hnext, Except.toBool]
    | ok next => simp [hnext, Except.toBool, orZero]
  · rfl

theorem added_consistent {created : ℤ} (h : added lib created now trigger = some t) :
    t.Consistent lib := by
  unfold added at h
  generalize (if trigger.createdAt = 0 then { trigger with createdAt := created } else trigger)
    = trigger at h
  by_cases hon : trigger.enabled = true
  · rw [if_pos hon] at h
    cases hnext : computeNextRun lib trigger.schedule trigger.timezone now with
    | error e => simp [hnext] at h
    | ok next =>
      rw [hnext] at h
      cases h
      exact consistent_enabled hon hnext
  · rw [if_neg hon] at h
    cases h
    exact consistent_disabled hon

end One

/-! ## Whole runs -/

namespace Service

/-- Every trigger is consistent, and no failed call has changed one. -/
structure Good (lib : TimeLib) (s : Service X) : Prop where
  consistent : ∀ t ∈ s.store, t.Consistent lib
  failed : ∀ before after, (before, after) ∈ s.failed → after = before

/-- The call does not fail after it has changed its trigger, and the round does not write to a
    trigger that was edited. -/
def Safe (lib : TimeLib) (s : Service X) : Event X → Prop
  | .update now id fn saved =>
    ∀ t ∈ Keyed.get Tracked.id id s.store, UpdateSafe lib now fn saved t.trigger
  | .enable now id saved =>
    ∀ t ∈ Keyed.get Tracked.id id s.store, EnableSafe lib now saved t.trigger
  | .write round _ =>
    ∀ entry ∈ s.rounds[round]?, ∀ read ∈ entry.2.head?,
      ∀ current ∈ Keyed.get Tracked.id read.id s.store,
        WriteSafe lib entry.1 read current.trigger
  | _ => True

instance [DecidableEq X] (lib : TimeLib) (s : Service X) (ev : Event X) :
    Decidable (Safe lib s ev) :=
  match ev with
  | .update .. => inferInstanceAs (Decidable (∀ _ ∈ _, UpdateSafe ..))
  | .enable .. => inferInstanceAs (Decidable (∀ _ ∈ _, EnableSafe ..))
  | .write .. => inferInstanceAs (Decidable (∀ _ ∈ _, ∀ _ ∈ _, ∀ _ ∈ _, WriteSafe ..))
  | .add .. | .disable .. | .fire _ => .isTrue trivial

variable {s : Service X}

/-- After a change of one trigger all are consistent exactly if that one is. -/
theorem consistent_update (id : String) (f : Tracked X → Tracked X)
    (h : ∀ t ∈ s.store, t.Consistent lib) :
    (∀ t ∈ update Tracked.id id f s.store, t.Consistent lib) ↔
      ∀ t ∈ get Tracked.id id s.store, (f t).Consistent lib := by
  constructor
  · intro hall t ht
    exact hall (f t) (mem_update_self ht)
  · intro hchanged t ht
    rcases mem_update ht with ht | ⟨t', hget, rfl⟩
    · exact h t ht
    · exact hchanged t' hget

theorem good_edit_iff (h : Good lib s) {id : String} {f : Tracked X → Tracked X × Bool}
    {saved : Bool} :
    Good lib (s.edit id f saved) ↔ ∀ t ∈ get Tracked.id id s.store, EditOk lib f saved t := by
  unfold edit
  cases hget : get Tracked.id id s.store with
  | none =>
    refine iff_of_true ⟨h.consistent, fun before after hmem => ?_⟩ (by simp)
    rcases mem_cons.mp hmem with heq | hmem
    · obtain ⟨rfl, rfl⟩ := Prod.mk.inj heq
      rfl
    · exact h.failed before after hmem
  | some t =>
    have hstore := consistent_update id (fun t => (f t).1) h.consistent
    rw [hget] at hstore
    simp only [mem_some_iff, forall_eq'] at hstore ⊢
    constructor
    · intro hgood
      refine ⟨hstore.mp hgood.consistent, fun hfail => ?_⟩
      have hmem := hgood.failed (some t.trigger) (some (f t).1.trigger) (by simp [hfail])
      exact some.inj hmem
    · rintro ⟨hcons, hfail⟩
      refine ⟨hstore.mpr hcons, fun before after hmem => ?_⟩
      split_ifs at hmem with hbad
      · rcases mem_cons.mp hmem with heq | hmem
        · obtain ⟨rfl, rfl⟩ := Prod.mk.inj heq
          rw [hfail hbad]
        · exact h.failed before after hmem
      · exact h.failed before after hmem

theorem good_step_iff (h : Good lib s) (ev : Event X) :
    Good lib (s.step lib ev) ↔ Safe lib s ev := by
  cases ev with
  | add created now trigger saved =>
    refine iff_of_true ?_ trivial
    simp only [step]
    split
    · exact h
    · next t ht =>
      split
      · exact h
      · refine ⟨fun t' ht' => ?_, h.failed⟩
        rcases mem_append.mp ht' with ht' | ht'
        · exact h.consistent t' ht'
        · rw [mem_singleton.mp ht']
          exact added_consistent ht
  | update now id fn saved =>
    refine (good_edit_iff h).trans (forall₂_congr fun t ht => ?_)
    exact updated_iff (h.consistent t (mem_of_get ht)) saved
  | enable now id saved =>
    refine (good_edit_iff h).trans (forall₂_congr fun t ht => ?_)
    exact enabled_iff (h.consistent t (mem_of_get ht)) saved
  | disable id saved =>
    have hstore := consistent_update id disabled h.consistent
    refine iff_of_true ⟨hstore.mpr fun t _ => ?_, h.failed⟩ trivial
    exact consistent_disabled (by simp)
  | fire now => exact iff_of_true ⟨h.consistent, h.failed⟩ trivial
  | write round outcome =>
    simp only [step, Safe]
    split
    · next now trigger rest hround =>
      simp only [hround, mem_some_iff, forall_eq', head?_cons]
      have hstore := consistent_update trigger.id (fired lib now trigger outcome) h.consistent
      refine ⟨fun hgood t ht => fired_iff.mp (hstore.mp hgood.consistent t ht), fun hsafe => ?_⟩
      exact ⟨hstore.mpr fun t ht => fired_iff.mpr (hsafe t ht), h.failed⟩
    · next hnone =>
      refine iff_of_true h fun entry hentry read hread => ?_
      obtain ⟨rest, hrest⟩ := head?_eq_some_iff.mp hread
      exact absurd (hentry.trans (by rw [← hrest])) (hnone entry.1 read rest)

/-- Along a run every disabled trigger is without a next run, every enabled one has one computed
    from its schedule and timezone, and failed calls change nothing, exactly if every step is
    safe. -/
theorem triggers_consistent_iff {store : List (Tracked X)} (hstart : ∀ t ∈ store, t.Consistent lib)
    (run : List (Event X)) :
    (∀ done, done <+: run → Good lib (runAll (step lib) { store := store } done)) ↔
      Meets (step lib) (Safe lib) { store := store } run := by
  have hgood : Good lib { store := store } :=
    ⟨hstart, fun _ _ hmem => absurd hmem List.not_mem_nil⟩
  exact Meets.iff_always (K := Good lib) (fun _ h => h)
    (fun _ ev h => ⟨(good_step_iff h ev).mpr, (good_step_iff h ev).mp⟩) hgood

/-- A trigger that fires every half hour. -/
def halfHourly : Tracked Unit where
  trigger := { id := "stretch", schedule := "every 30m", nextRunAt := 1800 * second, details := () }
  source := some ⟨"every 30m", "", 0⟩

theorem halfHourly_consistent : ∀ t ∈ [halfHourly], t.Consistent intervals := by
  intro t ht
  rw [mem_singleton.mp ht]
  exact ⟨_, rfl, rfl, rfl, by decide +kernel⟩

/-- Calls that succeed, made while no round is in progress. -/
def inTurn : List (Event Unit) :=
  [.fire (1801 * second), .write 0 { status := "triggered" },
    .update (1900 * second) "stretch" (fun t => { t with schedule := "every 1h" }) true,
    .disable "stretch" true, .enable (2000 * second) "stretch" true,
    .add (2100 * second) (2100 * second)
      { id := "walk", schedule := "every 1h", details := () } true]

theorem triggers_consistent_in_turn :
    Meets (step intervals) (Safe intervals) { store := [halfHourly] } inTurn ∧
      ∀ done, done <+: inTurn →
        Good intervals (runAll (step intervals) { store := [halfHourly] } done) :=
  ⟨by decide +kernel,
    (triggers_consistent_iff halfHourly_consistent inTurn).mpr (by decide +kernel)⟩

/-- A schedule that does not parse. -/
def rejectedUpdate : Service Unit :=
  runAll (step intervals) { store := [halfHourly] }
    [.update (100 * second) "stretch" (fun t => { t with schedule := "every day" }) true]

/-- The trigger is disabled while it fires. -/
def disabledInRound : Service Unit :=
  runAll (step intervals) { store := [halfHourly] }
    [.fire (1801 * second), .disable "stretch" true, .write 0 { status := "triggered" }]

/-- The schedule is changed while the trigger fires. -/
def rescheduledInRound : Service Unit :=
  runAll (step intervals) { store := [halfHourly] }
    [.fire (1801 * second),
      .update (1802 * second) "stretch" (fun t => { t with schedule := "every 1h" }) true,
      .write 0 { status := "triggered" }]

/-- The rejected schedule is stored, a disabled trigger has a next run, and an enabled one has a
    next run from a schedule it no longer has. -/
theorem rejected_update_stored_and_rounds_overwrite :
    (rejectedUpdate.failed.map fun call =>
        (call.1.map Trigger.schedule, call.2.map Trigger.schedule)) =
      [(some "every 30m", some "every day")] ∧
    (disabledInRound.store.map fun t => (t.trigger.enabled, t.trigger.nextRunAt)) =
      [(false, 3601 * second)] ∧
    (rescheduledInRound.store.map fun t =>
        (t.trigger.schedule, t.trigger.nextRunAt, t.source)) =
      [("every 1h", 3601 * second, some ⟨"every 30m", "", 1801 * second⟩)] := by
  decide +kernel

end Service

end Hopclaw.Wakeup
