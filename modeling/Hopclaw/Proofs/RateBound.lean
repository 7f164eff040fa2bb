import Hopclaw.Interleaving.Trace
import Hopclaw.Runtime.RateLimit
import Mathlib.Tactic.Positivity

/-! # The bound of the rate limiter

What was accepted since `a` and what is still available at `c` stay together below the burst and
the refill from `a` to `c`. A bucket that is dropped counts as full from then on, so the bound
survives exactly if every bucket that old was full anyway. -/

namespace Hopclaw.Runtime

open SessionRateLimiter Interleaving List

/-! ## What a key may still take -/

namespace SessionRateLimiter

variable (rl : SessionRateLimiter)

/-- The tokens a call would find; no bucket is a full one. -/
def available (key : String) (now : Time) : ℚ :=
  ((rl.buckets.lookup key).elim (rl.burst : ℚ) fun b =>
    min (b.tokens + seconds b.lastTime now * rl.rate) rl.burst)

/-- The limiter after a call. -/
def take (key : String) (now : Time) : SessionRateLimiter :=
  let tokens := rl.available key now
  { rl with
    buckets := rl.buckets.insert key ⟨tokens - if 1 ≤ tokens then 1 else 0, now⟩ }

theorem available_le (key : String) (now : Time) : rl.available key now ≤ rl.burst := by
  unfold available
  cases rl.buckets.lookup key with
  | none => exact le_rfl
  | some b => exact min_le_right _ _

variable {rl} {key : String} {now : Time}

theorem lookup_take (key' : String) : (rl.take key now).buckets.lookup key' =
    if key' = key then
      some ⟨rl.available key now - if 1 ≤ rl.available key now then 1 else 0, now⟩
    else rl.buckets.lookup key' :=
  Maps.lookup_insert_if ..

theorem allow_eq (hburst : 1 ≤ rl.burst) :
    rl.allow key now = (decide (1 ≤ rl.available key now), rl.take key now) := by
  unfold allow take available
  cases rl.buckets.lookup key with
  | none => simp [hburst]
  | some b =>
    simp only [Option.elim_some, ← not_lt]
    split_ifs <;> simp [*]

theorem available_take_ne {key' : String} (h : key' ≠ key) (c : Time) :
    (rl.take key now).available key' c = rl.available key' c := by
  rw [available, lookup_take, if_neg h]
  rfl

theorem available_take (c : Time) : (rl.take key now).available key c =
    min (rl.available key now - (if 1 ≤ rl.available key now then 1 else 0)
      + seconds now c * rl.rate) rl.burst := by
  rw [available, lookup_take, if_pos rfl]
  rfl

theorem lookup_cleanup : (rl.cleanup now).buckets.lookup key =
    (rl.buckets.lookup key).filter fun b => now ≤ b.lastTime + rateLimitBucketExpiry := by
  have hgone : (∃ e ∈ rl.buckets.entries,
      decide (e.2.lastTime + rateLimitBucketExpiry < now) = true ∧ e.1 = key) ↔
      ∃ b, rl.buckets.lookup key = some b ∧ b.lastTime + rateLimitBucketExpiry < now := by
    simp [← AList.mem_lookup_iff, and_comm]
  simp only [cleanup, Maps.lookup_eraseAll, hgone]
  cases rl.buckets.lookup key with
  | none => simp
  | some b =>
    by_cases h : b.lastTime + rateLimitBucketExpiry < now <;> simp [h, Option.filter]

end SessionRateLimiter

/-! ## The invariant -/

def acceptedIn (accepted : List (String × Time)) (key : String) (a b : Time) : ℕ :=
  accepted.countP fun call => call.1 = key ∧ a ≤ call.2 ∧ call.2 ≤ b

/-- The burst and the refill over a window. -/
def allowance (rl : SessionRateLimiter) (a b : Time) : ℚ :=
  rl.burst + seconds a b * rl.rate

structure WithinRate (rl : SessionRateLimiter) (clock : Time) (accepted : List (String × Time)) :
    Prop where
  burst : 1 ≤ rl.burst
  rate : 0 < rl.rate
  tokens : ∀ key, ∀ b ∈ rl.buckets.lookup key, 0 ≤ b.tokens ∧ b.lastTime ≤ clock
  past : ∀ call ∈ accepted, call.2 ≤ clock
  account : ∀ key a c, clock ≤ c → a ≤ c →
    acceptedIn accepted key a c + rl.available key c ≤ allowance rl a c
  window : ∀ key a b, a ≤ b → acceptedIn accepted key a b ≤ allowance rl a b

theorem seconds_nonneg {a b : Time} (h : a ≤ b) : 0 ≤ seconds a b :=
  div_nonneg (sub_nonneg.mpr (Nat.cast_le.mpr h)) (by norm_num)

theorem seconds_add (a b c : Time) : seconds a b + seconds b c = seconds a c := by
  unfold seconds
  ring

theorem acceptedIn_append (accepted : List (String × Time)) (key key' : String)
    (a b now : Time) : acceptedIn (accepted ++ [(key', now)]) key a b =
      acceptedIn accepted key a b + if key' = key ∧ a ≤ now ∧ now ≤ b then 1 else 0 := by
  simp [acceptedIn]

theorem acceptedIn_le {accepted : List (String × Time)} {clock : Time}
    (hpast : ∀ call ∈ accepted, call.2 ≤ clock) (key : String) {a c : Time} (hc : clock ≤ c)
    (b : Time) : acceptedIn accepted key a b ≤ acceptedIn accepted key a c := by
  refine countP_mono_left fun call hcall h => ?_
  simp only [decide_eq_true_eq] at h ⊢
  exact ⟨h.1, h.2.1, (hpast call hcall).trans hc⟩

namespace WithinRate

variable {rl : SessionRateLimiter} {clock : Time} {accepted : List (String × Time)}

theorem available_nonneg (h : WithinRate rl clock accepted) (key : String) {c : Time}
    (hc : clock ≤ c) : 0 ≤ rl.available key c := by
  unfold available
  cases hb : rl.buckets.lookup key with
  | none => exact Nat.cast_nonneg _
  | some b =>
    obtain ⟨htokens, hlast⟩ := h.tokens key b hb
    have hrefill := mul_nonneg (seconds_nonneg (hlast.trans hc)) h.rate.le
    exact le_min (add_nonneg htokens hrefill) (Nat.cast_nonneg _)

/-- What a call takes it had found available. -/
theorem take (h : WithinRate rl clock accepted) (key : String) {now : Time}
    (hnow : clock ≤ now) : WithinRate (rl.take key now) now
      (if 1 ≤ rl.available key now then accepted ++ [(key, now)] else accepted) := by
  set accepted' := if 1 ≤ rl.available key now then accepted ++ [(key, now)] else accepted
    with haccepted
  have hcount : ∀ key' a b, (acceptedIn accepted' key' a b : ℚ) = acceptedIn accepted key' a b +
      if 1 ≤ rl.available key now ∧ key = key' ∧ a ≤ now ∧ now ≤ b then 1 else 0 := by
    intro key' a b
    rw [haccepted]
    by_cases hok : 1 ≤ rl.available key now
    · rw [if_pos hok, acceptedIn_append]
      push_cast
      simp only [hok, true_and]
    · simp [hok]
  have hpast : ∀ call ∈ accepted', call.2 ≤ now := by
    intro call hcall
    rw [haccepted] at hcall
    split_ifs at hcall with hok
    · rcases mem_append.mp hcall with hold | hnew
      · exact (h.past call hold).trans hnow
      · exact (congrArg Prod.snd (mem_singleton.mp hnew)).le
    · exact (h.past call hcall).trans hnow
  have hleft : 0 ≤ rl.available key now - if 1 ≤ rl.available key now then 1 else 0 := by
    have hav := h.available_nonneg key hnow
    split_ifs <;> linarith
  have htokens : ∀ key', ∀ b ∈ (rl.take key now).buckets.lookup key',
      0 ≤ b.tokens ∧ b.lastTime ≤ now := by
    intro key' b hb
    rw [lookup_take] at hb
    by_cases hkey : key' = key
    · rw [if_pos hkey] at hb
      obtain rfl := Option.some.inj hb
      exact ⟨hleft, le_rfl⟩
    · rw [if_neg hkey] at hb
      exact (h.tokens key' b hb).imp_right hnow.trans'
  have haccount : ∀ key' a c, now ≤ c → a ≤ c →
      acceptedIn accepted' key' a c + (rl.take key now).available key' c ≤ allowance rl a c := by
    intro key' a c hc hac
    rw [hcount]
    by_cases hkey : key' = key
    · subst hkey
      by_cases ha : a ≤ now
      · -- The window reaches back to before the call: what it took is paid by what was available.
        have hold := h.account key' a now hnow ha
        have hcut : (acceptedIn accepted key' a c : ℚ) ≤ acceptedIn accepted key' a now :=
          Nat.cast_le.mpr (acceptedIn_le h.past key' hnow c)
        have hsplit := seconds_add a now c
        simp only [available_take, ha, hc, and_true, allowance] at hold ⊢
        have hmin := min_le_left (rl.available key' now -
          (if 1 ≤ rl.available key' now then 1 else 0) + seconds now c * rl.rate) (rl.burst : ℚ)
        rw [← hsplit]
        linarith
      · -- Nothing was accepted after `a`.
        have hnone : acceptedIn accepted key' a c = 0 := by
          refine countP_eq_zero.mpr fun call hcall hin => ha ?_
          simp only [decide_eq_true_eq] at hin
          exact hin.2.1.trans ((h.past call hcall).trans hnow)
        have hle := (rl.take key' now).available_le key' c
        have hrefill := mul_nonneg (seconds_nonneg hac) h.rate.le
        simp only [hnone, ha, false_and, and_false, allowance]
        change _ ≤ (rl.burst : ℚ) at hle
        push_cast
        linarith
    · rw [available_take_ne hkey, if_neg fun hin => hkey hin.2.1.symm]
      simpa using h.account key' a c (hnow.trans hc) hac
  refine ⟨h.burst, h.rate, htokens, hpast, haccount, fun key' a b hab => ?_⟩
  by_cases hin : a ≤ now ∧ now ≤ b
  · have hnow' := haccount key' a b hin.2 hab
    have hrest : 0 ≤ (rl.take key now).available key' b := by
      by_cases hkey : key' = key
      · subst hkey
        rw [available_take]
        have hrefill := mul_nonneg (seconds_nonneg hin.2) h.rate.le
        exact le_min (add_nonneg hleft hrefill) (Nat.cast_nonneg _)
      · rw [available_take_ne hkey]
        exact h.available_nonneg key' (hnow.trans hin.2)
    change _ ≤ allowance rl a b
    linarith
  · rw [hcount, if_neg fun h => hin h.2.2]
    rw [add_zero]
    exact h.window key' a b hab

/-- Dropping buckets changes nothing, if they were full. -/
theorem cleanup (h : WithinRate rl clock accepted) (now : Time)
    (hfull : rl.burst ≤ seconds 0 (rateLimitBucketExpiry + 1) * rl.rate) :
    WithinRate (rl.cleanup now) (max clock now) accepted := by
  have hsame : ∀ key c, max clock now ≤ c →
      (rl.cleanup now).available key c = rl.available key c := by
    intro key c hc
    simp only [available, lookup_cleanup]
    cases hb : rl.buckets.lookup key with
    | none => rfl
    | some b =>
      by_cases hkeep : now ≤ b.lastTime + rateLimitBucketExpiry
      · simp only [Option.filter_some, hkeep, decide_true]
        rfl
      · have hold : b.lastTime + (rateLimitBucketExpiry + 1) ≤ c :=
          (not_le.mp hkeep).trans_le ((le_max_right _ _).trans hc)
        have hlong : seconds 0 (rateLimitBucketExpiry + 1) ≤ seconds b.lastTime c := by
          have : ((b.lastTime + (rateLimitBucketExpiry + 1) : ℕ) : ℚ) ≤ c := Nat.cast_le.mpr hold
          push_cast at this
          unfold seconds
          push_cast
          linarith
        have hrefill := mul_le_mul_of_nonneg_right hlong h.rate.le
        have htokens := (h.tokens key b hb).1
        simp only [Option.filter_some, hkeep, decide_false, Bool.false_eq_true, if_false]
        refine (min_eq_right ?_).symm
        change (rl.burst : ℚ) ≤ _
        linarith
  refine ⟨h.burst, h.rate, fun key b hb => ?_, fun call hcall => ?_, fun key a c hc hac => ?_,
    h.window⟩
  · rw [lookup_cleanup, Option.mem_def, Option.filter_eq_some_iff] at hb
    exact (h.tokens key b hb.1).imp_right (le_max_of_le_left ·)
  · exact le_max_of_le_left (h.past call hcall)
  · rw [hsame key c hc]
    exact h.account key a c ((le_max_left _ _).trans hc) hac

end WithinRate

/-! ## Runs -/

def limiterStart (requestsPerMinute burstSize : ℤ) : LimiterRun :=
  { limiter := newSessionRateLimiter requestsPerMinute burstSize }

theorem limiterStep_allow {rl : SessionRateLimiter} (hburst : 1 ≤ rl.burst) (clock : Time)
    (accepted : List (String × Time)) (key : String) (now : Time) :
    limiterStep ⟨some rl, clock, accepted⟩ (.allow key now) = ⟨some (rl.take key now), now,
      if 1 ≤ rl.available key now then accepted ++ [(key, now)] else accepted⟩ := by
  simp [limiterStep, allow_eq hburst]

/-- Every run of a limiter whose dropped buckets are full stays within its rate. -/
theorem withinRate_run (rl : SessionRateLimiter) (hburst : 1 ≤ rl.burst) (hrate : 0 < rl.rate)
    (hempty : rl.buckets = ∅)
    (hfull : rl.burst ≤ seconds 0 (rateLimitBucketExpiry + 1) * rl.rate) {run : List LimiterOp}
    (hrun : Meets limiterStep Timely ⟨some rl, 0, []⟩ run) :
    ∃ rl' clock accepted, runAll limiterStep ⟨some rl, 0, []⟩ run = ⟨some rl', clock, accepted⟩ ∧
      rl'.burst = rl.burst ∧ rl'.rate = rl.rate ∧ WithinRate rl' clock accepted := by
  refine Meets.inv (I := fun s => ∃ rl' clock accepted,
    s = ⟨some rl', clock, accepted⟩ ∧ rl'.burst = rl.burst ∧ rl'.rate = rl.rate ∧
      WithinRate rl' clock accepted) ?_ ⟨rl, 0, [], rfl, rfl, rfl, ?_⟩ hrun
  · rintro _ op ⟨rl', clock, accepted, rfl, hb, hr, h⟩ htimely
    cases op with
    | allow key now =>
      exact ⟨_, _, _, limiterStep_allow h.burst .., hb, hr, h.take key htimely⟩
    | tick now =>
      exact ⟨_, _, _, rfl, hb, hr, h.cleanup now (by rw [hb, hr]; exact hfull)⟩
  · have hrefill : ∀ {a c : Time}, a ≤ c → 0 ≤ seconds a c * rl.rate :=
      fun hac => mul_nonneg (seconds_nonneg hac) hrate.le
    refine ⟨hburst, hrate, by simp [hempty], by simp, fun key a c _ hac => ?_,
      fun key a b hab => ?_⟩
    · have := rl.available_le key c
      have := hrefill hac
      simp only [acceptedIn, allowance, countP_nil]
      push_cast
      linarith
    · have := hrefill hab
      simp only [acceptedIn, allowance]
      positivity

/-! ## Bursts -/

variable (key : String) (now : Time) (n : ℕ)

/-- Calls in a row, all at one time. -/
def callsAt : List LimiterOp :=
  replicate n (.allow key now)

theorem timely_callsAt {now : Time} :
    ∀ {s : LimiterRun}, s.clock ≤ now → Meets limiterStep Timely s (callsAt key now n) := by
  induction n with
  | zero => exact fun _ => trivial
  | succ n ih =>
    intro s hclock
    refine ⟨hclock, ih ?_⟩
    obtain ⟨_ | rl, clock, accepted⟩ := s <;> exact le_rfl

theorem callsAt_unlimited :
    ∀ accepted, runAll limiterStep ⟨none, now, accepted⟩ (callsAt key now n) =
      ⟨none, now, accepted ++ replicate n (key, now)⟩ := by
  induction n with
  | zero => simp [callsAt]
  | succ n ih => exact fun accepted => (ih _).trans (by simp [replicate_succ])

/-- What is available is accepted. -/
theorem callsAt_available :
    ∀ (rl : SessionRateLimiter) (accepted), 1 ≤ rl.burst → (n : ℚ) ≤ rl.available key now →
      ∃ rl', runAll limiterStep ⟨some rl, now, accepted⟩ (callsAt key now n) =
          ⟨some rl', now, accepted ++ replicate n (key, now)⟩ ∧ rl'.burst = rl.burst ∧
        (0 < n → ∃ b ∈ rl'.buckets.lookup key, b.lastTime = now) := by
  induction n with
  | zero => exact fun rl _ _ _ => ⟨rl, by simp [callsAt], rfl, fun h => absurd h (lt_irrefl 0)⟩
  | succ n ih =>
    intro rl accepted hburst hav
    have hone : 1 ≤ rl.available key now := le_trans (by simp) hav
    have hleft : (n : ℚ) ≤ (rl.take key now).available key now := by
      have hle := rl.available_le key now
      have hzero : seconds now now = 0 := by simp [seconds]
      push_cast at hav
      rw [available_take, if_pos hone, hzero]
      exact le_min (by linarith) (by linarith)
    obtain ⟨rl', hrun, hb, hlast⟩ := ih (rl.take key now) (accepted ++ [(key, now)]) hburst hleft
    refine ⟨rl', ?_, hb, fun _ => ?_⟩
    · rw [callsAt, replicate_succ, runAll_cons, limiterStep_allow hburst, if_pos hone]
      exact hrun.trans (by simp [replicate_succ])
    · cases n with
      | zero =>
        obtain rfl : rl.take key now = rl' := Option.some.inj (congrArg LimiterRun.limiter hrun)
        exact ⟨_, by rw [lookup_take, if_pos rfl]; rfl, rfl⟩
      | succ n => exact hlast n.succ_pos

theorem acceptedIn_replicate {a b now : Time} (ha : a ≤ now) (hb : now ≤ b) :
    acceptedIn (replicate n (key, now)) key a b = n := by
  simp [acceptedIn, countP_replicate, ha, hb]

/-- No window holds more accepted calls of a key than the burst and the refill, in any run, exactly
    if there is a limit and an idle bucket is full again by the time it is dropped. -/
theorem rate_bound_iff (requestsPerMinute burstSize : ℤ) :
    (∀ run, Meets limiterStep Timely (limiterStart requestsPerMinute burstSize) run →
      ∀ key (a length : Time),
        (acceptedIn (runAll limiterStep (limiterStart requestsPerMinute burstSize) run).accepted
          key a (a + length) : ℚ) ≤
        (max burstSize 1 : ℤ) + length * requestsPerMinute / 60000000000) ↔
      0 < requestsPerMinute ∧
        60000000000 * max burstSize 1 ≤ requestsPerMinute * (rateLimitBucketExpiry + 1) := by
  obtain ⟨burst, hburst⟩ : ∃ burst : ℕ, max burstSize 1 = burst :=
    ⟨(max burstSize 1).toNat, by omega⟩
  have hone : 1 ≤ burst := by omega
  have hif : (if burstSize ≤ 0 then 1 else burstSize.toNat) = burst := by split_ifs <;> omega
  simp only [limiterStart, newSessionRateLimiter, hif, hburst]
  by_cases hlimit : requestsPerMinute ≤ 0
  · refine iff_of_false (fun hall => ?_) fun h => not_lt.mpr hlimit h.1
    rw [if_pos hlimit] at hall
    have hmany := hall _ (timely_callsAt "" (burst + 1) le_rfl) "" 0 0
    rw [callsAt_unlimited, nil_append, acceptedIn_replicate _ _ le_rfl le_rfl] at hmany
    push_cast at hmany
    linarith
  have hrate : (0 : ℚ) < requestsPerMinute / 60 :=
    div_pos (Int.cast_pos.mpr (not_le.mp hlimit)) (by norm_num)
  rw [if_neg hlimit]
  set rl : SessionRateLimiter := { rate := requestsPerMinute / 60, burst } with hrl
  constructor
  · intro hall
    refine ⟨not_le.mp hlimit, ?_⟩
    -- A burst, the tick that drops the bucket, and a second burst.
    obtain ⟨rl₁, hfirst, hb₁, hlast⟩ :=
      callsAt_available "" 0 burst rl [] hone (by simp [available, hrl])
    obtain ⟨b, hb, hold⟩ := hlast hone
    have hfresh : ((rl₁.cleanup (rateLimitBucketExpiry + 1)).buckets.lookup "") = none := by
      rw [lookup_cleanup, hb]
      simp [hold]
    obtain ⟨rl₂, hsecond, -, -⟩ := callsAt_available "" (rateLimitBucketExpiry + 1) burst
      (rl₁.cleanup (rateLimitBucketExpiry + 1)) ([] ++ replicate burst ("", 0))
      (hone.trans hb₁.ge) (by
        rw [available, hfresh]
        exact Nat.cast_le.mpr hb₁.ge)
    have htick : limiterStep ⟨some rl₁, 0, [] ++ replicate burst ("", 0)⟩
        (.tick (rateLimitBucketExpiry + 1)) = ⟨some (rl₁.cleanup (rateLimitBucketExpiry + 1)),
          rateLimitBucketExpiry + 1, [] ++ replicate burst ("", 0)⟩ := rfl
    have htwice := hall (callsAt "" 0 burst ++ .tick (rateLimitBucketExpiry + 1) ::
        callsAt "" (rateLimitBucketExpiry + 1) burst)
      (Meets.append.mpr ⟨timely_callsAt _ _ le_rfl, trivial,
        timely_callsAt _ _ (by rw [hfirst, htick])⟩) "" 0 (rateLimitBucketExpiry + 1)
    rw [runAll_append, hfirst, runAll_cons, htick, hsecond, acceptedIn, countP_append,
      ← acceptedIn, ← acceptedIn, nil_append, acceptedIn_replicate _ _ le_rfl (by simp),
      acceptedIn_replicate _ _ (by simp) (by simp)] at htwice
    push_cast at htwice
    have : (60000000000 * burst : ℚ) ≤ requestsPerMinute * (rateLimitBucketExpiry + 1) := by
      linarith
    exact_mod_cast this
  · rintro ⟨-, hfull⟩ run hrun key a length
    have hfull' : (60000000000 * burst : ℚ) ≤ requestsPerMinute * (rateLimitBucketExpiry + 1) := by
      exact_mod_cast hfull
    obtain ⟨rl', clock, accepted, hend, hb, hr, h⟩ := withinRate_run rl hone hrate rfl
      (by simp only [seconds, hrl]; push_cast; linarith) hrun
    rw [hend]
    refine (h.window key a (a + length) (Nat.le_add_right a length)).trans (le_of_eq ?_)
    rw [allowance, hb, hr, seconds]
    push_cast
    ring

/-- One request a minute with a burst of eleven: after ten minutes and a tick the bucket, not yet
    full again, is dropped, and all of a second burst is accepted. -/
theorem dropped_bucket_doubles_burst :
    let run := callsAt "a" 0 11 ++ .tick 600000000001 :: callsAt "a" 600000000001 11
    Meets limiterStep Timely (limiterStart 1 11) run ∧
      acceptedIn (runAll limiterStep (limiterStart 1 11) run).accepted "a" 0 600000000001 = 22 ∧
      (11 : ℚ) + 600000000001 * 1 / 60000000000 < 22 := by
  decide +kernel

end Hopclaw.Runtime
