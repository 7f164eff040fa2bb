import Hopclaw.Interleaving.Prog

/-! # Interleaving a pool of programs

A `Config` holds the shared state and one program per thread, together with the history the
thread's protocol keeps. One step executes the next command of one thread; a schedule is the list
of the threads in the order they step, so that quantifying over schedules quantifies over all
interleavings and all prefixes of them. The history is an observer's bookkeeping: it never
influences a step.

A pool is a system in the sense of `Interleaving.Trace`, with the threads as labels. The rule at the
end, `Config.Conforms.step`, keeps every thread conforming. -/

namespace Interleaving

variable {S : Signature} {ι σ γ α : Type}

/-- The rest of a thread's program and what is remembered of its past. -/
structure Thread (S : Signature) (γ α : Type) where
  hist : γ
  prog : Prog S α

/-- The command a thread issues next, if it has not finished. -/
def Thread.next (t : Thread S γ α) : Option S.Op :=
  match t.prog with
  | .ret _ => none
  | .call o _ => some o

/-- The value a finished thread returned. -/
def Thread.result (t : Thread S γ α) : Option α :=
  match t.prog with
  | .ret a => some a
  | .call _ _ => none

structure Config (S : Signature) (ι σ γ α : Type) where
  state : σ
  threads : ι → Thread S γ α

variable [DecidableEq ι] (exec : (o : S.Op) → σ → S.Resp o × σ) (T : Prog.Protocol S γ)

/-- Thread `i` executes its next command; a finished thread does nothing. -/
def Config.step (c : Config S ι σ γ α) (i : ι) : Config S ι σ γ α :=
  match (c.threads i).prog with
  | .ret _ => c
  | .call o k =>
    { state := (exec o c.state).2
      threads := Function.update c.threads i
        ⟨T.note o (exec o c.state).1 (c.threads i).hist, k (exec o c.state).1⟩ }

/-! ## What one step does -/

variable {exec T}

variable {c : Config S ι σ γ α}

omit [DecidableEq ι] in
variable {o : S.Op}

theorem Thread.exists_call {t : Thread S γ α} (h : t.next = some o) : ∃ k, t.prog = .call o k := by
  rw [Thread.next] at h
  split at h
  · cases h
  · rename_i k hprog
    obtain rfl := Option.some.inj h
    exact ⟨k, hprog⟩

variable {i : ι}

theorem Config.step_of_next_none (h : (c.threads i).next = none) : c.step exec T i = c := by
  rw [Thread.next] at h
  rw [Config.step]
  cases hprog : (c.threads i).prog with
  | ret a => rfl
  | call o k => simp [hprog] at h

/-- A step of an unfinished thread executes its next command on the shared state. -/
theorem Config.step_state (h : (c.threads i).next = some o) :
    (c.step exec T i).state = (exec o c.state).2 := by
  obtain ⟨k, hprog⟩ := Thread.exists_call h
  rw [Config.step, hprog]

/-- ... and records the command and its answer in that thread's history. -/
theorem Config.step_hist (h : (c.threads i).next = some o) :
    ((c.step exec T i).threads i).hist = T.note o (exec o c.state).1 (c.threads i).hist := by
  obtain ⟨k, hprog⟩ := Thread.exists_call h
  simp only [Config.step, hprog, Function.update_self]

/-- No other thread is touched. -/
theorem Config.step_threads_ne {j : ι} (h : j ≠ i) : (c.step exec T i).threads j = c.threads j := by
  unfold Config.step
  split
  · rfl
  · exact Function.update_of_ne h _ _

/-! ## Conforming pools -/

/-- Every thread conforms to the protocol from its present history; `Q i` is what thread `i`
    guarantees of its result. -/
def Config.Conforms (T : Prog.Protocol S γ) (Q : ι → γ → α → Prop) (c : Config S ι σ γ α) : Prop :=
  ∀ i, (c.threads i).prog.Conforms T (Q i) (c.threads i).hist

variable {Q : ι → γ → α → Prop}

omit [DecidableEq ι] in
theorem Config.Conforms.guar (hc : c.Conforms T Q) (h : (c.threads i).next = some o) :
    T.guar (c.threads i).hist o := by
  obtain ⟨k, hprog⟩ := Thread.exists_call h
  have hi := hc i
  rw [hprog] at hi
  exact hi.1

omit [DecidableEq ι] in
theorem Config.Conforms.result (hc : c.Conforms T Q) {a : α} (h : (c.threads i).result = some a) :
    Q i (c.threads i).hist a := by
  have hi := hc i
  unfold Thread.result at h
  split at h
  · rename_i heq
    rw [heq] at hi
    obtain rfl := Option.some.inj h
    exact hi
  · exact absurd h (by simp)

theorem Config.Conforms.step (hc : c.Conforms T Q) (i : ι) : (c.step exec T i).Conforms T Q := by
  intro j
  by_cases hj : j = i
  · subst hj
    have hi := hc j
    unfold Config.step
    split
    · exact hc j
    · rename_i heq
      rw [heq] at hi
      simp only [Function.update_self]
      exact hi.2 _
  · rw [Config.step_threads_ne hj]
    exact hc j

end Interleaving
