import Hopclaw.Text.GoStrings
import Mathlib.Data.List.Sort

/-! # Tool inputs

A tool call's input is a decoded JSON object, a Go `map[string]any`. -/

namespace Hopclaw

open GoStrings

/-- A value of type `any` as it occurs in tool inputs and ticket metadata. A number is given by
    the text Go prints for it. The fields of an object are listed in the order a `range` loop
    visits them, which Go leaves open. -/
inductive Value
  | null
  | bool (b : Bool)
  | number (text : String)
  | str (s : String)
  | strs (items : List String)
  | list (items : List Value)
  | object (fields : List (String × Value))

namespace Value

mutual

/-- `fmt.Sprint`. Map entries are printed in the order of their keys. -/
def sprint : Value → String
  | null => "<nil>"
  | bool b => if b then "true" else "false"
  | number text => text
  | str s => s
  | strs items => "[" ++ join " " items ++ "]"
  | list items => "[" ++ join " " (sprintList items) ++ "]"
  | object fields =>
    "map[" ++ join " " (((sprintFields fields).insertionSort (fun a b => a.1 ≤ b.1)).map
      fun f => f.1 ++ ":" ++ f.2) ++ "]"

def sprintList : List Value → List String
  | [] => []
  | v :: rest => v.sprint :: sprintList rest

def sprintFields : List (String × Value) → List (String × String)
  | [] => []
  | (k, v) :: rest => (k, v.sprint) :: sprintFields rest

end

/-- The entry of a `map[string]any`, `nil` where there is none. -/
def index (fields : List (String × Value)) (key : String) : Value :=
  ((fields.find? fun f => f.1 = key).map Prod.snd).getD null

end Value

end Hopclaw
