import Hopclaw.Interleaving.Trace

/-! # Machines that answer

A machine takes a state and a label to an answer and the next state. Two machines over the same
labels are compared by their answers and by what can be seen of their states. -/

namespace Interleaving

open List

variable {σ τ ι α : Type}

/-- The system a machine is without its answers. -/
def next (f : σ → ι → α × σ) (s : σ) (i : ι) : σ :=
  (f s i).2

/-- The answers of a machine in a run. -/
def answers (f : σ → ι → α × σ) : σ → List ι → List α
  | _, [] => []
  | s, i :: run => (f s i).1 :: answers f (f s i).2 run

variable (f : σ → ι → α × σ) (g : τ → ι → α × τ) (V : σ → τ → Prop)

/-- In every part of the run, from its beginning, the machines give the same answers and end in
    states that look the same. -/
def AgreeAlong (s : σ) (t : τ) (run : List ι) : Prop :=
  ∀ done, done <+: run → answers f s done = answers g t done ∧
    V (runAll (next f) s done) (runAll (next g) t done)

variable {f g V}

variable {run : List ι}

theorem agreeAlong_cons {s : σ} {t : τ} {i : ι} : AgreeAlong f g V s t (i :: run) ↔
      V s t ∧ (f s i).1 = (g t i).1 ∧ AgreeAlong f g V (f s i).2 (g t i).2 run := by
  constructor
  · intro h
    refine ⟨(h [] nil_prefix).2, ?_, fun done hdone => ?_⟩
    · have := (h [i] (prefix_append [i] run)).1
      simpa [answers] using this
    · obtain ⟨hans, hV⟩ := h (i :: done) ((prefix_cons_inj i).mpr hdone)
      simp only [answers, cons.injEq] at hans
      exact ⟨hans.2, hV⟩
  · rintro ⟨hV, hans, hrest⟩ done hdone
    cases done with
    | nil => exact ⟨rfl, hV⟩
    | cons j done =>
      obtain ⟨rfl, htail⟩ := cons_prefix_cons.mp hdone
      obtain ⟨hans', hV'⟩ := hrest done htail
      exact ⟨by simp only [answers, hans, hans'], hV'⟩

variable {R : σ → τ → Prop} {P : σ → ι → Prop}

/-- Let `R` relate states that look the same. If from related states a step that `P` allows gives
    the same answers and related states, and any other step different answers or states that look
    different, then two machines agree along a run exactly if all its steps are allowed. -/
theorem agreeAlong_iff (hV : ∀ s t, R s t → V s t)
    (hstep : ∀ s t i, R s t → P s i → (f s i).1 = (g t i).1 ∧ R (f s i).2 (g t i).2)
    (hback : ∀ s t i, R s t → (f s i).1 = (g t i).1 → V (f s i).2 (g t i).2 → P s i) :
    ∀ {s : σ} {t : τ}, R s t →
      (AgreeAlong f g V s t run ↔ Meets (next f) P s run) := by
  induction run with
  | nil =>
    intro s t h
    refine iff_of_true (fun done hdone => ?_) trivial
    rw [prefix_nil.mp hdone]
    exact ⟨rfl, hV s t h⟩
  | cons i run ih =>
    intro s t h
    rw [agreeAlong_cons]
    constructor
    · rintro ⟨-, hans, hrest⟩
      have hP : P s i := hback s t i h hans (hrest [] nil_prefix).2
      exact ⟨hP, (ih (hstep s t i h hP).2).mp hrest⟩
    · rintro ⟨hP, hrun⟩
      obtain ⟨hans, hR⟩ := hstep s t i h hP
      exact ⟨hV s t h, hans, (ih hR).mpr hrun⟩

/-- Likewise for the answers alone, where a step that is not allowed shows in its answer. -/
theorem answers_eq_iff
    (hstep : ∀ s t i, R s t → ((f s i).1 = (g t i).1 ↔ P s i) ∧ (P s i → R (f s i).2 (g t i).2)) :
    ∀ {s : σ} {t : τ}, R s t → (answers f s run = answers g t run ↔ Meets (next f) P s run) := by
  induction run with
  | nil => exact fun _ => iff_of_true rfl trivial
  | cons i run ih =>
    intro s t h
    obtain ⟨hans, hR⟩ := hstep s t i h
    simp only [answers, cons.injEq, hans]
    exact and_congr_right fun hP => ih (hR hP)

end Interleaving
