import Hopclaw.Text.GoStrings

/-! # Lexical paths

`path.Clean` of slash-separated paths, by way of the list of segments: empty and `.` segments go,
a `..` removes the segment before it, and where there is none it stays in a relative path and
goes in a rooted one. -/

namespace GoPath

/-- The pieces of a text between the separators. -/
def splitOn (sep : Char) : List Char → List (List Char)
  | [] => [[]]
  | c :: cs =>
    if c = sep then [] :: splitOn sep cs
    else
      match splitOn sep cs with
      | [] => [[c]]
      | piece :: rest => (c :: piece) :: rest

/-- One segment against the segments kept so far, last one first. -/
def pushSegment (rooted : Bool) (kept : List (List Char)) (seg : List Char) : List (List Char) :=
  if seg = [] || seg = ['.'] then kept
  else if seg = ['.', '.'] then
    match kept with
    | [] => if rooted then [] else [seg]
    | top :: rest => if top = ['.', '.'] then seg :: kept else rest
  else seg :: kept

def cleanSegments (rooted : Bool) (segs : List (List Char)) : List (List Char) :=
  (segs.foldl (pushSegment rooted) []).reverse

def joinSegments : List (List Char) → List Char
  | [] => []
  | [seg] => seg
  | seg :: next :: rest => seg ++ '/' :: joinSegments (next :: rest)

/-- `path.Clean`. -/
def clean (p : String) : String :=
  let rooted : Bool := p.toList.head? = some '/'
  match rooted, joinSegments (cleanSegments rooted (splitOn '/' p.toList)) with
  | true, cs => String.ofList ('/' :: cs)
  | false, [] => "."
  | false, cs => String.ofList cs

example : clean "a//b/./../c/" = "a/c" := by decide

example : clean "/../x/.." = "/" := by decide

example : clean "../a/../.." = "../.." := by decide

end GoPath
