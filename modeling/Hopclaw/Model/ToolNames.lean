import Mathlib.Data.List.AList
import Hopclaw.Text.Bytes

/-! # Tool names on the wire

Providers take only names of letters, digits, `-` and `_`. `sanitizeToolName` writes every other
byte, and `_` itself, as `_xHH_`; `restoreToolName` brings back the name of a tool call
(`model/provider_helpers.go`). -/

namespace Hopclaw.Model

open GoBytes

/-- The bytes that are written as they are. -/
def keptByte (ch : UInt8) : Bool :=
  (97 ≤ ch && ch ≤ 122) || (65 ≤ ch && ch ≤ 90) || (48 ≤ ch && ch ≤ 57) || ch = 45

/-- The digit `%X` writes. -/
def upperHex (d : UInt8) : UInt8 :=
  if d < 10 then 48 + d else 55 + d

def sanitizeByte (ch : UInt8) : Bytes :=
  if keptByte ch then [ch] else [95, 120, upperHex (ch / 16), upperHex (ch % 16), 95]

def sanitizeToolName (name : Bytes) : Bytes :=
  name.flatMap sanitizeByte

def hexValue (ch : UInt8) : Option UInt8 :=
  if 48 ≤ ch ∧ ch ≤ 57 then some (ch - 48)
  else if 65 ≤ ch ∧ ch ≤ 70 then some (ch - 55)
  else if 97 ≤ ch ∧ ch ≤ 102 then some (ch - 87)
  else none

/-- `fmt.Sscanf` with `%02X` on two bytes: white space before the digits is skipped, a line break is
    an error, and what comes after the digits is not looked at. With `%02x` it does the same. -/
def scanHex (a b : UInt8) : Option UInt8 :=
  match hexValue a, hexValue b with
  | some x, some y => some (16 * x + y)
  | some x, none => some x
  | none, some y => if a = 9 ∨ 11 ≤ a ∧ a ≤ 13 ∨ a = 32 then some y else none
  | none, none => none

def desanitizeToolName : Bytes → Bytes
  | c₀ :: c₁ :: a :: b :: c₄ :: rest =>
    if c₀ = 95 ∧ c₁ = 120 ∧ c₄ = 95 then
      match scanHex a b with
      | some ch => ch :: desanitizeToolName rest
      | none => c₀ :: desanitizeToolName (c₁ :: a :: b :: c₄ :: rest)
    else c₀ :: desanitizeToolName (c₁ :: a :: b :: c₄ :: rest)
  | ch :: rest => ch :: desanitizeToolName rest
  | [] => []

def restoreToolName (name : Bytes) (wireToInternal : AList fun _ : Bytes => Bytes) : Bytes :=
  let name := trimSpace name
  if name = [] then []
  else
    match (wireToInternal.lookup name).filter fun original => trimSpace original ≠ [] with
    | some original => trimSpace original
    | none => if [95, 120] <:+: name then desanitizeToolName name else name

/-- The map a request keeps of the tools it offers. -/
def wireToInternal (names : List Bytes) : AList fun _ : Bytes => Bytes :=
  names.foldl (fun m name => m.insert (sanitizeToolName name) name) ∅

end Hopclaw.Model
