import Mathlib.Tactic.Common

/-! # Programs as trees of atomic commands

A *signature* lists the atomic commands a program may issue against shared state, each with the
type of its answer. A `Prog` is a sequential program over such a signature: it either has finished
with a value, or issues one command and continues with the answer. Nothing here fixes what the
commands do; an interpretation `exec` says that, and `Prog.run` executes a whole program without
interruption. `Pool.lean` interleaves several programs command by command.

Two ways to reason about a program are developed here:

* `Prog.run` with `run_bind`, for calls that run undisturbed;
* `Prog.Conforms`, for calls that run among others. It says what the *sequence of commands* of a
  program looks like, whatever the answers are: each command must meet a guarantee `G` about the
  history of the program's own earlier commands and answers. -/

namespace Interleaving

/-- The atomic commands of a system and the type of the answer to each. -/
structure Signature where
  Op : Type
  Resp : Op → Type

/-- A sequential program over `S`: finished with a value, or one command and what to do with its
    answer. -/
inductive Prog (S : Signature) (α : Type) : Type where
  | ret (a : α)
  | call (o : S.Op) (k : S.Resp o → Prog S α)

namespace Prog

variable {S : Signature} {α β : Type}

/-! ## The monad structure -/

def bind (p : Prog S α) (f : α → Prog S β) : Prog S β :=
  match p with
  | ret a => f a
  | call o k => call o fun r => (k r).bind f

instance : Monad (Prog S) where
  pure := ret
  bind := bind

/-- Issue one command and return its answer. -/
def op (o : S.Op) : Prog S (S.Resp o) :=
  call o ret

@[simp] theorem ret_bind (a : α) (f : α → Prog S β) : (ret a >>= f) = f a := rfl

@[simp] theorem call_bind (o : S.Op) (k : S.Resp o → Prog S α) (f : α → Prog S β) :
    (call o k >>= f) = call o fun r => k r >>= f := rfl

@[simp] theorem pure_eq_ret (a : α) : (pure a : Prog S α) = ret a := rfl

theorem bind_ret (p : Prog S α) : (p >>= ret) = p := by
  induction p with
  | ret a => rfl
  | call o k ih => simp only [call_bind, ih]

theorem bind_bind {δ : Type} (p : Prog S α) (f : α → Prog S β) (g : β → Prog S δ) :
    (p >>= f >>= g) = p >>= fun a => f a >>= g := by
  induction p with
  | ret a => rfl
  | call o k ih => simp only [call_bind, ih]

instance : LawfulMonad (Prog S) :=
  LawfulMonad.mk' _ bind_ret (fun _ _ => rfl) bind_bind

/-! ## Uninterrupted execution -/

section Run

variable {σ : Type} (exec : (o : S.Op) → σ → S.Resp o × σ)

/-- Execute the program from `s` with nothing else running. -/
def run : Prog S α → σ → α × σ
  | ret a, s => (a, s)
  | call o k, s => run (k (exec o s).1) (exec o s).2

@[simp] theorem run_ret (a : α) (s : σ) : (ret a : Prog S α).run exec s = (a, s) := rfl

@[simp] theorem run_call (o : S.Op) (k : S.Resp o → Prog S α) (s : σ) :
    (call o k).run exec s = (k (exec o s).1).run exec (exec o s).2 := rfl

@[simp] theorem run_op (o : S.Op) (s : σ) : (op o : Prog S (S.Resp o)).run exec s = exec o s := rfl

@[simp] theorem run_bind (p : Prog S α) (f : α → Prog S β) (s : σ) :
    (p >>= f).run exec s = (f (p.run exec s).1).run exec (p.run exec s).2 := by
  induction p generalizing s with
  | ret a => rfl
  | call o k ih => simp only [call_bind, run_call, ih]

end Run

/-! ## Which commands a program may issue -/

/-- Every command the program may issue, whatever the answers, satisfies `P`. -/
def Uses (P : S.Op → Prop) : Prog S α → Prop
  | ret _ => True
  | call o k => P o ∧ ∀ r, (k r).Uses P

@[simp] theorem uses_ret (P : S.Op → Prop) (a : α) : (ret a : Prog S α).Uses P := trivial

@[simp] theorem uses_call (P : S.Op → Prop) (o : S.Op) (k : S.Resp o → Prog S α) :
    (call o k).Uses P ↔ P o ∧ ∀ r, (k r).Uses P := Iff.rfl

theorem Uses.bind {P : S.Op → Prop} {p : Prog S α} {f : α → Prog S β} (hp : p.Uses P)
    (hf : ∀ a, (f a).Uses P) : (p >>= f).Uses P := by
  induction p with
  | ret a => exact hf a
  | call o k ih => exact ⟨hp.1, fun r => ih r (hp.2 r)⟩

theorem Uses.forM {P : S.Op → Prop} {f : α → Prog S PUnit} {l : List α}
    (hf : ∀ a, (f a).Uses P) : (l.forM f).Uses P := by
  induction l with
  | nil => trivial
  | cons a l ih => exact (hf a).bind fun _ => ih

/-- A preorder between states that every command of the program respects is respected by its
    uninterrupted execution. -/
theorem Uses.run_rel {σ : Type} {exec : (o : S.Op) → σ → S.Resp o × σ} {R : σ → σ → Prop}
    (hrefl : ∀ s, R s s) (htrans : ∀ {a b c}, R a b → R b c → R a c) {P : S.Op → Prop}
    (hstep : ∀ o s, P o → R s (exec o s).2) {p : Prog S α} (hp : p.Uses P) (s : σ) :
    R s (p.run exec s).2 := by
  induction p generalizing s with
  | ret a => exact hrefl s
  | call o k ih => exact htrans (hstep o s hp.1) (ih _ (hp.2 _) _)

/-! ## Conformance to a protocol

The history `γ` is what an observer of the program's own commands and answers remembers; `note`
updates it. Conformance is about the tree alone: it holds in any surrounding, because it is
required for every answer the shared state might give. -/

/-- What is remembered of a program's own commands, and what each command must satisfy given what
    was remembered so far. -/
structure Protocol (S : Signature) (γ : Type) where
  note : (o : S.Op) → S.Resp o → γ → γ
  guar : γ → S.Op → Prop

variable {γ : Type}

/-- From history `h`, every command of the program meets the guarantee and the result meets `Q`. -/
def Conforms (T : Protocol S γ) (Q : γ → α → Prop) : Prog S α → γ → Prop
  | ret a, h => Q h a
  | call o k, h => T.guar h o ∧ ∀ r, (k r).Conforms T Q (T.note o r h)

variable {T : Protocol S γ} {Q Q' : γ → α → Prop}

theorem Conforms.mono {p : Prog S α} {h : γ} (hp : p.Conforms T Q h)
    (hQ : ∀ h a, Q h a → Q' h a) : p.Conforms T Q' h := by
  induction p generalizing h with
  | ret a => exact hQ h a hp
  | call o k ih => exact ⟨hp.1, fun r => ih r (hp.2 r)⟩

/-- Sequencing: the continuation only has to conform from the histories the first part leaves. -/
theorem Conforms.bind {R : γ → β → Prop} {p : Prog S α} {f : α → Prog S β} {h : γ}
    (hp : p.Conforms T Q h) (hf : ∀ h a, Q h a → (f a).Conforms T R h) :
    (p >>= f).Conforms T R h := by
  induction p generalizing h with
  | ret a => exact hf h a hp
  | call o k ih => exact ⟨hp.1, fun r => ih r (hp.2 r)⟩

/-- A program whose commands the protocol neither constrains nor remembers leaves every history
    alone. -/
theorem Uses.conforms {P : S.Op → Prop} (hguar : ∀ o, P o → ∀ h, T.guar h o)
    (hnote : ∀ o, P o → ∀ r h, T.note o r h = h) {p : Prog S α} (hp : p.Uses P) (h : γ) :
    p.Conforms T (fun h' _ => h' = h) h := by
  induction p with
  | ret a => rfl
  | call o k ih =>
    refine ⟨hguar o hp.1 h, fun r => ?_⟩
    rw [hnote o hp.1 r h]
    exact ih r (hp.2 r)

/-! ## Programs that may fail

A program that may fail ends at the first error of one of its parts. -/

section Fail

variable {ε : Type}

theorem Uses.exceptT_bind {P : S.Op → Prop} {x : ExceptT ε (Prog S) α}
    {f : α → ExceptT ε (Prog S) β} (hx : x.run.Uses P) (hf : ∀ a, (f a).run.Uses P) :
    (x >>= f).run.Uses P := by
  refine hx.bind fun r => ?_
  cases r with
  | ok a => exact hf a
  | error e => trivial

theorem Uses.exceptT_tryCatch {P : S.Op → Prop} {x : ExceptT ε (Prog S) α}
    {f : ε → ExceptT ε (Prog S) α} (hx : x.run.Uses P) (hf : ∀ e, (f e).run.Uses P) :
    (tryCatch x f).run.Uses P := by
  refine hx.bind fun r => ?_
  cases r with
  | ok a => trivial
  | error e => exact hf e

theorem Uses.exceptT_lift {P : S.Op → Prop} {p : Prog S α} (hp : p.Uses P) :
    (liftM p : ExceptT ε (Prog S) α).run.Uses P :=
  hp.bind fun _ => trivial

theorem Conforms.exceptT_bind {Q : γ → Except ε α → Prop} {R : γ → Except ε β → Prop}
    {x : ExceptT ε (Prog S) α} {f : α → ExceptT ε (Prog S) β} {h : γ}
    (hx : x.run.Conforms T Q h) (hok : ∀ h a, Q h (.ok a) → (f a).run.Conforms T R h)
    (herr : ∀ h e, Q h (.error e) → R h (.error e)) : (x >>= f).run.Conforms T R h := by
  refine hx.bind fun h r hr => ?_
  cases r with
  | ok a => exact hok h a hr
  | error e => exact herr h e hr

end Fail

end Prog

end Interleaving
