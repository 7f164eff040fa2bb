import Mathlib.Data.List.Forall2

/-! # Errors and times -/

namespace Hopclaw

/-- The sentinel errors that callers test for with `errors.Is`. -/
inductive Sentinel
  | runCancelled | runRejected
  | alreadyResolved | approvalNotFound | invalidScope | scopePolicy
  | approvalStoreNil | contextEngineNil | modelClientNil
  | contextCanceled | deadlineExceeded
deriving DecidableEq

/-- An error: its text, and the sentinel it wraps. -/
structure Err where
  text : String
  sentinel : Option Sentinel := none
deriving DecidableEq

/-- `errors.Is`. -/
def Err.is (e : Err) (s : Sentinel) : Bool :=
  e.sentinel = some s

/-- An instant. `0` is Go's zero time; a clock never reads it. -/
abbrev Time := ℕ

/-! ## Results that may fail -/

theorem bind_eq_ok {ε α β : Type} {x : Except ε α} {f : α → Except ε β} {b : β} :
    (x >>= f) = .ok b ↔ ∃ a, x = .ok a ∧ f a = .ok b := by
  cases x <;> simp [bind, Except.bind]

theorem mapM_eq_ok {α β ε : Type} {f : α → Except ε β} {l : List α} {bs : List β} :
    l.mapM f = .ok bs ↔ List.Forall₂ (fun a b => f a = .ok b) l bs := by
  induction l generalizing bs with
  | nil => simp [pure, Except.pure]
  | cons a l ih =>
    simp only [List.mapM_cons, bind_eq_ok, pure, Except.pure, Except.ok.injEq,
      List.forall₂_cons_left_iff]
    constructor
    · rintro ⟨b, hb, rest, hrest, rfl⟩
      exact ⟨b, rest, hb, ih.mp hrest, rfl⟩
    · rintro ⟨b, rest, hb, hrest, rfl⟩
      exact ⟨b, hb, rest, ih.mpr hrest, rfl⟩

end Hopclaw
