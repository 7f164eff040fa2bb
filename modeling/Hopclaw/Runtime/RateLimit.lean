import Hopclaw.Domain.Err
import Hopclaw.Domain.Maps
import Mathlib.Data.Rat.Floor

/-! # The rate limiter of submissions

A bucket of tokens for each session key (`runtime/ratelimit.go`). Times are nanoseconds, and the
tokens are exact. -/

namespace Hopclaw.Runtime

/-- Ten minutes. -/
def rateLimitBucketExpiry : ℕ := 600000000000

structure Bucket where
  tokens : ℚ
  lastTime : Time

structure SessionRateLimiter where
  buckets : AList fun _ : String => Bucket := ∅
  /-- Tokens per second. -/
  rate : ℚ
  burst : ℕ

/-- `NewSessionRateLimiter`; no limiter is nil. -/
def newSessionRateLimiter (requestsPerMinute burstSize : ℤ) : Option SessionRateLimiter :=
  if requestsPerMinute ≤ 0 then none
  else some {
    rate := requestsPerMinute / 60
    burst := if burstSize ≤ 0 then 1 else burstSize.toNat }

/-- `now.Sub(last).Seconds()`. -/
def seconds (last now : Time) : ℚ :=
  ((now : ℚ) - last) / 1000000000

namespace SessionRateLimiter

variable (rl : SessionRateLimiter)

def allow (key : String) (now : Time) : Bool × SessionRateLimiter :=
  match rl.buckets.lookup key with
  | none => (true, { rl with buckets := rl.buckets.insert key ⟨rl.burst - 1, now⟩ })
  | some b =>
    let tokens := min (b.tokens + seconds b.lastTime now * rl.rate) rl.burst
    if tokens < 1 then (false, { rl with buckets := rl.buckets.insert key ⟨tokens, now⟩ })
    else (true, { rl with buckets := rl.buckets.insert key ⟨tokens - 1, now⟩ })

/-- One tick of `cleanup`. -/
def cleanup (now : Time) : SessionRateLimiter :=
  { rl with
    buckets := Maps.eraseAll (fun e => e.2.lastTime + rateLimitBucketExpiry < now) Sigma.fst
      rl.buckets.entries rl.buckets }

end SessionRateLimiter

/-! ## Runs -/

inductive LimiterOp
  | allow (key : String) (now : Time)
  | tick (now : Time)

structure LimiterRun where
  limiter : Option SessionRateLimiter
  /-- The latest time read so far. -/
  clock : Time := 0
  /-- The calls that were accepted. -/
  accepted : List (String × Time) := []

/-- A nil limiter accepts everything. -/
def limiterStep (s : LimiterRun) : LimiterOp → LimiterRun
  | .allow key now =>
    match s.limiter with
    | none => { s with clock := now, accepted := s.accepted ++ [(key, now)] }
    | some rl =>
      let (ok, rl) := rl.allow key now
      { limiter := some rl, clock := now
        accepted := if ok then s.accepted ++ [(key, now)] else s.accepted }
  | .tick now =>
    { s with limiter := s.limiter.map (·.cleanup now), clock := max s.clock now }

/-- The clock does not go back: a call reads a time no earlier than those read before it. A tick is
    delivered at any moment after its time. -/
def Timely (s : LimiterRun) : LimiterOp → Prop
  | .allow _ now => s.clock ≤ now
  | .tick _ => True

instance (s : LimiterRun) (op : LimiterOp) : Decidable (Timely s op) :=
  match op with
  | .allow _ now => inferInstanceAs (Decidable (s.clock ≤ now))
  | .tick _ => .isTrue trivial

end Hopclaw.Runtime
