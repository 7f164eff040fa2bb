import Mathlib.Data.Rat.Defs

/-! # Floating-point numbers

A type of numbers with the operations the program applies to them; nothing is assumed about what the
operations compute. -/

namespace Hopclaw

/-- Floating-point arithmetic as the program uses it. -/
class FloatOps (F : Type) where
  /-- A constant, or a converted integer. -/
  lit : ℚ → F
  add : F → F → F
  sub : F → F → F
  mul : F → F → F
  div : F → F → F
  /-- `math.Max`. -/
  max : F → F → F
  le : F → F → Bool
  lt : F → F → Bool
  eq : F → F → Bool
  /-- `int(math.Ceil(x))`. -/
  ceil : F → ℤ
  /-- The verb `%.2f`. -/
  text : F → String

/-- Exact arithmetic; the text shows the whole fraction. -/
instance : FloatOps ℚ where
  lit := id
  add := (· + ·)
  sub := (· - ·)
  mul := (· * ·)
  div := (· / ·)
  max := fun a b => if a < b then b else a
  le := fun a b => decide (a ≤ b)
  lt := fun a b => decide (a < b)
  eq := fun a b => decide (a = b)
  ceil := Rat.ceil
  text := toString

end Hopclaw
