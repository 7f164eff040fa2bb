import Hopclaw.Interleaving.Prog

/-! # Programs that run undisturbed

Rules for what a program does when nothing else runs between its commands. `Ends` is the
postcondition of one uninterrupted execution; the rules follow the ways programs are put together,
and let a proof about a function use what was proved about the functions it calls. -/

namespace Interleaving.Prog

variable {S : Signature} {σ α β ε : Type} {exec : (o : S.Op) → σ → S.Resp o × σ}

variable (exec) in
/-- Executed from `s` with nothing else running, the program ends with a value and a state that
    satisfy `Q`. -/
def Ends (p : Prog S α) (s : σ) (Q : α → σ → Prop) : Prop :=
  Q (p.run exec s).1 (p.run exec s).2

variable {s : σ} {p : Prog S α}

theorem Ends.mono {Q R : α → σ → Prop} (hp : p.Ends exec s Q) (h : ∀ a s', Q a s' → R a s') :
    p.Ends exec s R :=
  h _ _ hp

theorem Ends.and {Q R : α → σ → Prop} (hq : p.Ends exec s Q) (hr : p.Ends exec s R) :
    p.Ends exec s fun a s' => Q a s' ∧ R a s' :=
  ⟨hq, hr⟩

theorem Ends.bind {f : α → Prog S β} {Q : α → σ → Prop} {R : β → σ → Prop} (hp : p.Ends exec s Q)
    (hf : ∀ a s', Q a s' → (f a).Ends exec s' R) : (p >>= f).Ends exec s R := by
  unfold Ends
  rw [run_bind]
  exact hf _ _ hp

/-- A program whose commands all respect a preorder between states. -/
theorem Uses.ends {R : σ → σ → Prop} (hrefl : ∀ s, R s s)
    (htrans : ∀ {a b c}, R a b → R b c → R a c) {P : S.Op → Prop}
    (hstep : ∀ o s, P o → R s (exec o s).2) (hp : p.Uses P) (s : σ) :
    p.Ends exec s fun _ s' => R s s' :=
  hp.run_rel hrefl htrans hstep s

/-! ## Programs that may fail -/

section Fail

variable {x : ExceptT ε (Prog S) α} {f : α → ExceptT ε (Prog S) β} {s : σ}
  {Q : Except ε α → σ → Prop} {R : Except ε β → σ → Prop}

theorem Ends.pureE {a : α} (h : Q (.ok a) s) :
    (pure a : ExceptT ε (Prog S) α).run.Ends exec s Q := h

theorem Ends.throwE {e : ε} (h : Q (.error e) s) :
    (throw e : ExceptT ε (Prog S) α).run.Ends exec s Q := h

theorem Ends.bindE (hx : x.run.Ends exec s Q)
    (hok : ∀ a s', Q (.ok a) s' → (f a).run.Ends exec s' R)
    (herr : ∀ e s', Q (.error e) s' → R (.error e) s') : (x >>= f).run.Ends exec s R := by
  refine hx.bind fun r s' hr => ?_
  cases r with
  | ok a => exact hok a s' hr
  | error e => exact herr e s' hr

/-- A part that cannot fail, in a program that may. -/
theorem Ends.liftE {Q : α → σ → Prop} (hp : p.Ends exec s Q)
    (hf : ∀ a s', Q a s' → (f a).run.Ends exec s' R) :
    ((liftM p : ExceptT ε (Prog S) α) >>= f).run.Ends exec s R := by
  have hlift : (liftM p : ExceptT ε (Prog S) α).run.Ends exec s fun r s' =>
      ∃ a, r = .ok a ∧ Q a s' :=
    hp.bind fun a s' ha => ⟨a, rfl, ha⟩
  refine hlift.bindE (fun a s' ha => ?_) (fun e s' he => ?_)
  · obtain ⟨_, ⟨⟩, ha⟩ := ha
    exact hf a s' ha
  · obtain ⟨_, ⟨⟩, -⟩ := he

theorem Ends.tryCatch {g : ε → ExceptT ε (Prog S) α} {R : Except ε α → σ → Prop}
    (hx : x.run.Ends exec s Q) (hok : ∀ a s', Q (.ok a) s' → R (.ok a) s')
    (herr : ∀ e s', Q (.error e) s' → (g e).run.Ends exec s' R) :
    (MonadExcept.tryCatch x g).run.Ends exec s R := by
  refine hx.bind fun r s' hr => ?_
  cases r with
  | ok a => exact hok a s' hr
  | error e => exact herr e s' hr

/-- A loop that ends at the first error. The invariant speaks of the elements done so far. -/
theorem Ends.forM {l : List α} {g : α → ExceptT ε (Prog S) PUnit} {I : List α → σ → Prop}
    {E : ε → σ → Prop} (h0 : I [] s)
    (hstep : ∀ done a rest s, l = done ++ a :: rest → I done s → (g a).run.Ends exec s fun r s' =>
      match r with
      | .ok _ => I (done ++ [a]) s'
      | .error e => E e s') :
    (l.forM g).run.Ends exec s fun r s' =>
      match r with
      | .ok _ => I l s'
      | .error e => E e s' := by
  -- the induction is on the elements still to do; the done ones move into the invariant
  suffices h : ∀ rest done s, l = done ++ rest → I done s →
      (rest.forM g).run.Ends exec s fun r s' =>
        match r with
        | .ok _ => I l s'
        | .error e => E e s' from h l [] s rfl h0
  intro rest
  induction rest with
  | nil =>
    intro done s hl hI
    rw [List.append_nil] at hl
    exact hl ▸ hI
  | cons a rest ih =>
    intro done s hl hI
    refine Ends.bindE (hstep done a rest s hl hI) (fun _ s' h => ?_) fun _ _ h => h
    exact ih (done ++ [a]) s' (by simp [hl]) h

end Fail

end Interleaving.Prog
