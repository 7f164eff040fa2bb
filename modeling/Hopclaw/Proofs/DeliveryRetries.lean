import Hopclaw.Governance.Delivery
import Hopclaw.Interleaving.Trace
import Mathlib.Data.List.Chain

/-! # Retries of a delivery

Calls of `processOne` that fail, one after another. A call of the adapter counts and is dated; the
failure of an entry whose adapter is not configured does neither. -/

namespace Hopclaw.Governance

open GoStrings Interleaving ReliableDispatcher DeliveryEntry List

variable {A G S : Type} (lib : RecordLib A G S) (d : ReliableDispatcher)

/-- A failing call, at a time and with a cause. Only pending entries are processed. -/
def failingCall (e : Entry A G S) (call : Time × String) : Entry A G S :=
  if e.status = .pending then d.processOne lib e (some call.2) call.1 else e

/-- The attempts an entry is to have. -/
def limit (e : Entry A G S) : ℤ :=
  (e.normalized lib).maxAttempts

def backoff (attempts : ℕ) : ℤ :=
  computeBackoff d.config.baseBackoff d.config.maxBackoff attempts

/-- Every reschedule is later than its call by the backoff, and the calls end with a dead letter. -/
def Retried (e : Entry A G S) (calls : List (Time × String)) : Prop :=
  (∀ done call, done ++ [call] <+: calls →
    (runAll (failingCall lib d) e (done ++ [call])).status = .pending →
    (runAll (failingCall lib d) e (done ++ [call])).nextAttemptAt =
      addDuration call.1 (backoff d (runAll (failingCall lib d) e (done ++ [call])).attempts) ∧
    call.1 < (runAll (failingCall lib d) e (done ++ [call])).nextAttemptAt) ∧
  (limit lib e ≤ calls.length → (runAll (failingCall lib d) e calls).status = .deadLetter)

theorem lt_addDuration_iff (t : ℕ) (delay : ℤ) : t < addDuration t delay ↔ 0 < delay := by
  unfold addDuration
  omega

theorem limit_pos (e : Entry A G S) : 0 < limit lib e := by
  simp only [limit, normalized, defaultDeliveryMaxAttempts]
  split_ifs <;> omega

@[simp] theorem limit_normalized (e : Entry A G S) :
    limit lib (e.normalized lib) = limit lib e := by
  rw [limit, normalized_normalized, limit]

theorem failEntry_spec (e : Entry A G S) (cause : String) (now : Time) :
    let e' := d.failEntry lib e cause now
    limit lib e' = limit lib e ∧ d.configured e' = d.configured e ∧ e'.attempts = e.attempts ∧
      e'.status = (if limit lib e ≤ e.attempts then .deadLetter else .pending) ∧
      (e'.status = .pending → e'.nextAttemptAt = addDuration
        (if e.lastAttemptAt ≠ 0 then e.lastAttemptAt else now) (backoff d e.attempts)) := by
  have hlimit : ∀ e' : Entry A G S, e'.maxAttempts = (e.normalized lib).maxAttempts →
      limit lib e' = limit lib e := fun e' h =>
    (congrArg (fun m : ℤ => if m ≤ 0 then defaultDeliveryMaxAttempts else m) h).trans
      (limit_normalized lib e)
  have hname : trimSpace (trimSpace e.adapterName) = trimSpace e.adapterName := trimSpace_trimSpace _
  unfold failEntry
  by_cases hdone : limit lib e ≤ (e.normalized lib).attempts
  · rw [if_pos (show (e.normalized lib).maxAttempts ≤ _ from hdone)]
    refine ⟨hlimit _ rfl, ?_, rfl, (if_pos hdone).symm, nofun⟩
    simp only [configured, normalized, hname]
  · rw [if_neg (show ¬ (e.normalized lib).maxAttempts ≤ _ from hdone)]
    refine ⟨hlimit _ rfl, ?_, rfl, (if_neg hdone).symm, fun _ => rfl⟩
    simp only [configured, normalized, hname]

/-- What is left of an entry whose adapter is or is not configured after a failing call. -/
theorem failingCall_spec {e : Entry A G S} (hpending : e.status = .pending)
    (call : Time × String) :
    let e' := failingCall lib d e call
    limit lib e' = limit lib e ∧ d.configured e' = d.configured e ∧
      e'.attempts = e.attempts + (if d.configured e then 1 else 0) ∧
      e'.status = (if limit lib e ≤ e'.attempts then .deadLetter else .pending) ∧
      (d.configured e = true → e'.status = .pending →
        e'.nextAttemptAt = addDuration call.1 (backoff d e'.attempts)) := by
  rw [failingCall, if_pos hpending, processOne]
  by_cases hconf : d.configured e = true
  · obtain ⟨h1, h2, h3, h4, h5⟩ := failEntry_spec lib d (attempted lib e call.1) call.2 call.1
    have hlimit : limit lib (attempted lib e call.1) = limit lib e := limit_normalized lib e
    have hconf' : d.configured (attempted lib e call.1) = d.configured e := by
      simp only [configured, attempted, normalized, trimSpace_trimSpace]
    simp only [hconf, if_true]
    rw [h3]
    refine ⟨h1.trans hlimit, h2.trans (hconf'.trans hconf), rfl, hlimit ▸ h4, fun _ hp => ?_⟩
    rw [h5 hp]
    exact congrArg (addDuration · _) (ite_self _)
  · simp only [hconf, if_false, Bool.false_eq_true]
    obtain ⟨h1, h2, h3, h4, -⟩ := failEntry_spec lib d e
      ("adapter " ++ quoted e.adapterName ++ " not configured") call.1
    rw [h3]
    exact ⟨h1, h2.trans (Bool.eq_false_iff.mpr hconf), rfl, h4, fun h => absurd h (by simp)⟩

/-- After some calls the entry is pending and was counted, or the limit was reached. -/
theorem runAll_failingCall {e : Entry A G S} (hpending : e.status = .pending)
    (calls : List (Time × String)) :
    let e' := runAll (failingCall lib d) e calls
    let n := e.attempts + if d.configured e then calls.length else 0
    limit lib e' = limit lib e ∧ d.configured e' = d.configured e ∧
      ((e'.status = .pending ∧ e'.attempts = n ∧ (calls = [] ∨ n < limit lib e)) ∨
        e'.status = .deadLetter ∧ calls ≠ [] ∧ limit lib e ≤ n) := by
  induction calls using reverseRecOn with
  | nil => simp [hpending]
  | append_singleton calls call ih =>
    obtain ⟨hlimit, hconf, hcases⟩ := ih
    simp only [runAll_append, runAll_cons, runAll_nil, length_append]
    rcases hcases with ⟨hp, hn, -⟩ | ⟨hdead, -, hle⟩
    · obtain ⟨h1, h2, h3, h4, -⟩ := failingCall_spec lib d hp call
      have hcount : (failingCall lib d (runAll (failingCall lib d) e calls) call).attempts =
          e.attempts + if d.configured e then calls.length + 1 else 0 := by
        rw [h3, hn, hconf]
        split_ifs <;> omega
      refine ⟨h1.trans hlimit, h2.trans hconf, ?_⟩
      rw [hcount, hlimit] at h4
      by_cases hreached : limit lib e ≤
          ((e.attempts + if d.configured e then calls.length + 1 else 0 : ℕ) : ℤ)
      · exact .inr ⟨by rw [h4, if_pos hreached], by simp, hreached⟩
      · exact .inl ⟨by rw [h4, if_neg hreached], hcount, .inr (not_le.mp hreached)⟩
    · rw [failingCall, if_neg (by simp [hdead])]
      refine ⟨hlimit, hconf, .inr ⟨hdead, by simp, hle.trans ?_⟩⟩
      split_ifs <;> push_cast <;> omega

/-- Failing calls are spaced by the backoff and end with a dead letter, whatever their times,
    exactly if the attempts are used up, or the adapter is configured and no backoff is without
    delay. -/
theorem retried_iff (e : Entry A G S) (hpending : e.status = .pending) :
    (∀ calls : List (Time × String), (calls.map Prod.fst).IsChain (· ≤ ·) →
      Retried lib d e calls) ↔
      limit lib e ≤ e.attempts ∨ d.configured e = true ∧
        ∀ k : ℕ, e.attempts < k → k < limit lib e → 0 < backoff d k := by
  have hpos := limit_pos lib e
  constructor
  · intro hall
    by_contra hnot
    obtain ⟨hleft, hbad⟩ := not_or.mp hnot
    -- Calls that all come at one time.
    have hrep : ∀ n, Retried lib d e (replicate n (1, "")) := fun n =>
      hall _ (by rw [map_replicate]; exact isChain_replicate_of_rel n le_rfl)
    by_cases hconf : d.configured e = true
    · obtain ⟨k, hk, hlt, hdelay⟩ :
          ∃ k : ℕ, e.attempts < k ∧ k < limit lib e ∧ backoff d k ≤ 0 := by
        by_contra hnone
        exact hbad ⟨hconf, fun k hk hlt => not_le.mp fun h => hnone ⟨k, hk, hlt, h⟩⟩
      obtain ⟨n, rfl⟩ := Nat.exists_eq_add_of_lt hk
      have hsnoc : replicate (n + 1) ((1, "") : Time × String) =
          replicate n (1, "") ++ [(1, "")] := replicate_succ'
      obtain ⟨-, -, hcases⟩ := runAll_failingCall lib d hpending
        (replicate (n + 1) (1, ""))
      rw [if_pos hconf, length_replicate] at hcases
      rcases hcases with ⟨hp, hn, -⟩ | ⟨-, -, hle⟩
      · rw [hsnoc] at hp hn
        obtain ⟨hnext, hlater⟩ := (hrep (n + 1)).1 (replicate n (1, "")) (1, "")
          (by rw [hsnoc]) hp
        rw [hnext, lt_addDuration_iff, hn] at hlater
        exact absurd hlater (not_lt.mpr hdelay)
      · omega
    · obtain ⟨-, -, hcases⟩ := runAll_failingCall lib d hpending
        (replicate (limit lib e).toNat (1, ""))
      have hdead := (hrep (limit lib e).toNat).2 (by simp)
      rw [if_neg hconf] at hcases
      rcases hcases with ⟨hp, -, -⟩ | ⟨-, -, hle⟩
      · simp [hp] at hdead
      · exact hleft hle
  · intro hgood calls _
    have hend := fun calls => (runAll_failingCall lib d hpending calls).2.2
    refine ⟨fun done call _ hp => ?_, fun hlen => ?_⟩
    · rcases hend (done ++ [call]) with ⟨-, hn, hlt⟩ | ⟨hdead, -, -⟩
      · have hlt := hlt.resolve_left (by simp)
        rcases hgood with hused | ⟨hconf, hdelay⟩
        · omega
        · obtain ⟨-, hconf', hcases⟩ := runAll_failingCall lib d hpending done
          rcases hcases with ⟨hp', -, -⟩ | ⟨hdead, -, -⟩
          · have hspec := (failingCall_spec lib d hp' call).2.2.2.2
              (hconf'.trans hconf)
            simp only [runAll_append, runAll_cons, runAll_nil] at hp hn ⊢
            rw [if_pos hconf] at hn hlt
            have hlater := hdelay _ (by simp) hlt
            rw [hspec hp, lt_addDuration_iff, hn]
            exact ⟨rfl, hlater⟩
          · simp [runAll_append, failingCall, hdead] at hp
      · simp [hp] at hdead
    · rcases hend calls with ⟨-, -, hnil | hlt⟩ | ⟨hdead, -, -⟩
      · rw [hnil, length_nil] at hlen
        omega
      · rcases hgood with hused | ⟨hconf, -⟩
        · omega
        · rw [if_pos hconf] at hlt
          omega
      · exact hdead

/-- The only adapter of the dispatcher fails three times, and the entry is put off twice. -/
theorem retried_with_adapter :
    let d := newReliableDispatcher {} [some ⟨some "a", "webhook"⟩]
    let e : Entry Unit Unit Unit := { adapterName := "a", record := bareRecord, maxAttempts := 3 }
    let calls := [(1, "refused"), (6000000000, "refused"), (20000000000, "refused")]
    calls.inits.map (fun done => (runAll (failingCall bareRecords d) e done).status) =
      [.pending, .pending, .pending, .deadLetter] ∧ Retried bareRecords d e calls := by
  refine ⟨by decide +kernel, (retried_iff _ _ _ rfl).mpr (.inr ⟨by decide +kernel, ?_⟩) _
    (by decide)⟩
  have hdelays : ∀ k < 3, 0 < k → 0 < backoff (newReliableDispatcher {}
      [some ⟨some "a", "webhook"⟩]) k := by decide +kernel
  intro k hk hlt
  exact hdelays k (Int.ofNat_lt.mp hlt) hk

/-- The adapter was removed from the configuration: the second call, ten seconds after the first,
    reschedules the entry to a time that is already past, and the entry whose only attempt is over
    stays pending. -/
theorem removed_adapter_retried_forever :
    let e : Entry Unit Unit Unit := { adapterName := "a", record := bareRecord, maxAttempts := 1 }
    let e' := runAll (failingCall bareRecords (newReliableDispatcher {} [])) e
      [(1, ""), (10000000001, "")]
    e'.status = .pending ∧ e'.nextAttemptAt = 5000000001 := by
  decide +kernel

end Hopclaw.Governance
