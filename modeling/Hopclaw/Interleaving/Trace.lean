import Mathlib.Data.List.Infix

/-! # Runs of a deterministic system

A system is a step function: a state and a label give the next state. A run is a list of labels.
`Meets` says that every step of a run is taken where it is allowed; what every allowed step
preserves holds after every such run. -/

namespace Interleaving

variable {σ ι : Type} (step : σ → ι → σ)

/-- The state after a run. -/
def runAll (s : σ) (run : List ι) : σ :=
  run.foldl step s

@[simp] theorem runAll_nil (s : σ) : runAll step s [] = s := rfl

@[simp] theorem runAll_cons (s : σ) (i : ι) (run : List ι) :
    runAll step s (i :: run) = runAll step (step s i) run := rfl

theorem runAll_append (s : σ) (r₁ r₂ : List ι) :
    runAll step s (r₁ ++ r₂) = runAll step (runAll step s r₁) r₂ :=
  List.foldl_append

variable {I : σ → Prop}

/-- What every step preserves holds after every run. -/
theorem runAll_inv (hstep : ∀ s i, I s → I (step s i)) {s : σ} (h : I s) (run : List ι) :
    I (runAll step s run) := by
  induction run generalizing s with
  | nil => exact h
  | cons i run ih => exact ih (hstep s i h)

/-- Every step of the run is taken in a state where `P` allows it. -/
def Meets (P : σ → ι → Prop) : σ → List ι → Prop
  | _, [] => True
  | s, i :: run => P s i ∧ Meets P (step s i) run

instance decidableMeets {P : σ → ι → Prop} [∀ s i, Decidable (P s i)] :
    (s : σ) → (run : List ι) → Decidable (Meets step P s run)
  | _, [] => .isTrue trivial
  | s, i :: run =>
    haveI : Decidable (Meets step P (step s i) run) := decidableMeets _ run
    inferInstanceAs (Decidable (P s i ∧ Meets step P (step s i) run))

variable {step} {P : σ → ι → Prop}

variable {run : List ι}

/-- What every allowed step preserves holds after every run of allowed steps. -/
theorem Meets.inv (hstep : ∀ s i, I s → P s i → I (step s i)) :
    ∀ {s : σ}, I s → Meets step P s run → I (runAll step s run) := by
  induction run with
  | nil => exact fun h _ => h
  | cons i run ih => exact fun h hm => ih (hstep _ i h hm.1) hm.2

/-- What an allowed step means where the invariant holds, it means in every run of allowed steps. -/
theorem Meets.strengthen {Q : σ → ι → Prop} (hstep : ∀ s i, I s → P s i → I (step s i))
    (hQ : ∀ s i, I s → P s i → Q s i) :
    ∀ {s : σ}, I s → Meets step P s run → Meets step Q s run := by
  induction run with
  | nil => exact fun _ _ => trivial
  | cons i run ih => exact fun h hm => ⟨hQ _ i h hm.1, ih (hstep _ i h hm.1) hm.2⟩

theorem Meets.append {r₁ r₂ : List ι} :
    ∀ {s : σ}, Meets step P s (r₁ ++ r₂) ↔
      Meets step P s r₁ ∧ Meets step P (runAll step s r₁) r₂ := by
  induction r₁ with
  | nil => exact fun {s} => ⟨fun h => ⟨trivial, h⟩, fun h => h.2⟩
  | cons i r₁ ih =>
    intro s
    simp only [List.cons_append, Meets, ih, runAll_cons, and_assoc]

/-- A run stays among states with `I` exactly if all its steps are allowed, where good states have
    it, allowed steps lead from good states to good ones, and other steps lose it. -/
theorem Meets.iff_always {K : σ → Prop} (hI : ∀ s, K s → I s)
    (hstep : ∀ s i, K s → (P s i → K (step s i)) ∧ (I (step s i) → P s i)) : ∀ {s : σ}, K s →
      ((∀ done, done <+: run → I (runAll step s done)) ↔ Meets step P s run) := by
  induction run with
  | nil =>
    intro s hs
    refine ⟨fun _ => trivial, fun _ done hdone => ?_⟩
    rw [List.prefix_nil.mp hdone]
    exact hI s hs
  | cons i run ih =>
    intro s hs
    constructor
    · intro hall
      have hi : P s i := (hstep s i hs).2 (hall [i] (List.prefix_append [i] run))
      refine ⟨hi, (ih ((hstep s i hs).1 hi)).mp fun done hdone => ?_⟩
      exact hall (i :: done) ((List.prefix_cons_inj i).mpr hdone)
    · rintro ⟨hi, hrun⟩ done hdone
      cases done with
      | nil => exact hI s hs
      | cons j done =>
        obtain ⟨rfl, hrest⟩ := List.cons_prefix_cons.mp hdone
        exact (ih ((hstep s j hs).1 hi)).mpr hrun done hrest

/-- A property that is lost for good holds at the end of a run exactly if all its steps are allowed,
    where good states have it, allowed steps lead from good states to good ones, and other steps lose
    it. `Q` is what is known of the steps of the run anyway. -/
theorem Meets.iff_safe {Q : σ → ι → Prop} {G : σ → Prop}
    (hG : ∀ s i, G s → Q s i → P s i → G (step s i)) (hI : ∀ s, G s → I s)
    (hback : ∀ s i, G s → Q s i → I (step s i) → P s i) (hlost : ∀ s i, I (step s i) → I s) :
    ∀ {s : σ}, Meets step Q s run → G s → (I (runAll step s run) ↔ Meets step P s run) := by
  have hlostAll : ∀ (run : List ι) (s : σ), I (runAll step s run) → I s := by
    intro run
    induction run with
    | nil => exact fun s h => h
    | cons i run ih => exact fun s h => hlost s i (ih _ h)
  induction run with
  | nil => exact fun {s} _ h => iff_of_true (hI s h) trivial
  | cons i run ih =>
    intro s hQ h
    constructor
    · intro hend
      have hP : P s i := hback s i h hQ.1 (hlostAll run _ hend)
      exact ⟨hP, (ih hQ.2 (hG s i h hQ.1 hP)).mp hend⟩
    · rintro ⟨hP, hrun⟩
      exact (ih hQ.2 (hG s i h hQ.1 hP)).mpr hrun

end Interleaving
