import Hopclaw.Domain.Err
import Hopclaw.Domain.Value

/-! # Reading the input of a tool call

The readers of single fields that the tools share (`toolruntime/builtin.go`). -/

namespace Hopclaw.Tools

open GoStrings

/-- `%T` of an input value. -/
def typeName : Value → String
  | .null => "<nil>"
  | .bool _ => "bool"
  | .number _ => "float64"
  | .str _ => "string"
  | .strs _ => "[]string"
  | .list _ => "[]interface \x7b\x7d"
  | .object _ => "map[string]interface \x7b\x7d"

def failure {α : Type} (text : String) : Except Err α :=
  .error ⟨text, none⟩

def stringFrom : Value → Except Err String
  | .null => .ok ""
  | .str s => .ok s
  | v => failure ("expected string, got " ++ typeName v)

def requiredString (input : List (String × Value)) (key : String) : Except Err String := do
  let value ← stringFrom (Value.index input key)
  if trimSpace value = "" then failure (key ++ " is required") else return value

def stringItems : List Value → Except Err (List String)
  | [] => .ok []
  | .str s :: rest => (stringItems rest).map (s :: ·)
  | v :: _ => failure ("expected string array element, got " ++ typeName v)

def stringSliceFrom : Value → Except Err (List String)
  | .null => .ok []
  | .strs items => .ok items
  | .list items => stringItems items
  | v => failure ("expected string array, got " ++ typeName v)

/-- `strconv.ParseBool`. -/
def parseBool (s : String) : Except Err Bool :=
  if s ∈ ["1", "t", "T", "TRUE", "true", "True"] then .ok true
  else if s ∈ ["0", "f", "F", "FALSE", "false", "False"] then .ok false
  else failure ("strconv.ParseBool: parsing " ++ quoted s ++ ": invalid syntax")

def boolFrom : Value → Except Err Bool
  | .null => .ok false
  | .bool b => .ok b
  | .str s => parseBool s
  | v => failure ("expected boolean, got " ++ typeName v)

end Hopclaw.Tools
