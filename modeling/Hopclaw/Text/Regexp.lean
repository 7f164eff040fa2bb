import Mathlib.Data.List.Infix
import Mathlib.Data.List.TakeWhile

/-! # Regular expressions

The part of the syntax of Go's `regexp` package that is made of literal characters, `.`, `\s`, the
anchors, groups, alternatives and the three postfix operators, with a parser and a matcher, which
computes the places of a text that an expression reaches. -/

namespace Regexp

inductive CharClass
  | lit (c : Char)
  /-- The class `\s`: five ASCII characters, fewer than Unicode's blanks. -/
  | space
  | notNewline
deriving DecidableEq

def CharClass.accepts : CharClass → Char → Bool
  | .lit c, d => c = d
  | .space, d => d = '\t' || d = '\n' || d = '\x0c' || d = '\r' || d = ' '
  | .notNewline, d => d ≠ '\n'

inductive Expr
  | empty
  | atom (k : CharClass)
  | bol
  | eol
  | seq (r s : Expr)
  | alt (r s : Expr)
  | star (r : Expr)
deriving DecidableEq

/-- A place in a text: what follows it, and whether nothing precedes it. -/
structure Place where
  atStart : Bool
  rest : List Char
deriving DecidableEq

/-! ## The matcher -/

/-- The places reached by repeating `f`; a turn that consumes nothing leads nowhere new. -/
def starEnds (f : Place → List Place) : ℕ → Place → List Place
  | 0, p => [p]
  | fuel + 1, p =>
    p :: ((f p).filter fun q => q.rest.length < p.rest.length).flatMap (starEnds f fuel)

def Expr.ends : Expr → Place → List Place
  | .empty, p => [p]
  | .atom k, p =>
    match p.rest with
    | c :: rest => if k.accepts c then [⟨false, rest⟩] else []
    | [] => []
  | .bol, p => if p.atStart then [p] else []
  | .eol, p => if p.rest = [] then [p] else []
  | .seq r s, p => (r.ends p).flatMap s.ends
  | .alt r s, p => r.ends p ++ s.ends p
  | .star r, p => starEnds r.ends p.rest.length p

theorem ends_seq {r s : Expr} {p : Place} (h : (Expr.seq r s).ends p ≠ []) :
    ∃ q ∈ r.ends p, s.ends q ≠ [] := by
  obtain ⟨t, ht⟩ := List.exists_mem_of_ne_nil _ h
  obtain ⟨q, hq, ht⟩ := List.mem_flatMap.mp ht
  exact ⟨q, hq, List.ne_nil_of_mem ht⟩

theorem ends_atom {k : CharClass} {p q : Place} (h : q ∈ (Expr.atom k).ends p) :
    ∃ c, k.accepts c = true ∧ p.rest = c :: q.rest := by
  unfold Expr.ends at h
  split at h
  · rename_i c rest hp
    split_ifs at h with hc
    · exact ⟨c, hc, by rw [hp, List.mem_singleton.mp h]⟩
    · cases h
  · cases h

/-- `MatchString`: the expression matches some part of the text. -/
def Expr.matchString (r : Expr) (s : String) : Bool :=
  (List.range (s.toList.length + 1)).any fun i => (r.ends ⟨i = 0, s.toList.drop i⟩) ≠ []

/-- An expression that starts with `^` matches from the start of the text or not at all. -/
theorem ends_of_matchString_bol {r : Expr} {s : String}
    (h : (Expr.seq .bol r).matchString s = true) : r.ends ⟨true, s.toList⟩ ≠ [] := by
  simp only [Expr.matchString, List.any_eq_true, decide_eq_true_eq, Expr.ends] at h
  obtain ⟨i, -, h⟩ := h
  split_ifs at h with hi
  · obtain rfl : i = 0 := by simpa using hi
    simpa using h
  · exact absurd rfl h

/-! ## Parsing -/

/-- A backslash makes any ASCII character literal that is no letter or digit. -/
def escaped? (c : Char) : Option Expr :=
  if c = 's' then some (.atom .space)
  else if c.toNat < 128 && !c.isAlphanum then some (.atom (.lit c))
  else none

def special (c : Char) : Bool :=
  c ∈ ['\\', '.', '+', '*', '?', '(', ')', '|', '[', ']', '\x7b', '\x7d', '^', '$']

/-- The postfix operator after an atom; two in a row are outside the part modelled here. -/
def postfixed (r : Expr) : List Char → Option (Expr × List Char)
  | c :: rest =>
    let again := match rest with
      | d :: _ => d = '*' || d = '+' || d = '?' || d = '\x7b'
      | [] => false
    if c = '*' then if again then none else some (.star r, rest)
    else if c = '+' then if again then none else some (.seq r (.star r), rest)
    else if c = '?' then if again then none else some (.alt r .empty, rest)
    else some (r, c :: rest)
  | [] => some (r, [])

mutual

def parseAlt : ℕ → List Char → Option (Expr × List Char)
  | 0, _ => none
  | fuel + 1, s => do
    let (r, s) ← parseSeq fuel s
    match s with
    | '|' :: s => do
      let (r', s) ← parseAlt fuel s
      return (.alt r r', s)
    | s => return (r, s)

def parseSeq : ℕ → List Char → Option (Expr × List Char)
  | 0, _ => none
  | fuel + 1, s =>
    match s with
    | [] => some (.empty, [])
    | '|' :: s => some (.empty, '|' :: s)
    | ')' :: s => some (.empty, ')' :: s)
    | s => do
      let (r, s) ← parseAtom fuel s
      let (r, s) ← postfixed r s
      match s with
      | [] => return (r, [])
      | '|' :: s => return (r, '|' :: s)
      | ')' :: s => return (r, ')' :: s)
      | s => do
        let (r', s) ← parseSeq fuel s
        return (.seq r r', s)

def parseAtom : ℕ → List Char → Option (Expr × List Char)
  | 0, _ => none
  | fuel + 1, s =>
    match s with
    | '^' :: s => some (.bol, s)
    | '$' :: s => some (.eol, s)
    | '.' :: s => some (.atom .notNewline, s)
    | '\\' :: c :: s => (escaped? c).map fun r => (r, s)
    | '(' :: '?' :: _ => none
    | '(' :: s => do
      let (r, s) ← parseAlt fuel s
      match s with
      | ')' :: s => return (r, s)
      | _ => none
    | c :: s => if special c then none else some (.atom (.lit c), s)
    | [] => none

end

/-- The expression a text denotes, if it is in the part of the syntax modelled here. -/
def parse (s : String) : Option Expr :=
  match parseAlt (3 * s.toList.length + 3) s.toList with
  | some (r, []) => some r
  | _ => none

/-- The literal text `s`. -/
def literal (s : String) (r : Expr) : Expr :=
  s.toList.foldr (fun c r => .seq (.atom (.lit c)) r) r

/-- What an expression that begins with a literal text matches begins with that text. -/
theorem ends_literal {s : String} {r : Expr} {p : Place} (h : (literal s r).ends p ≠ []) :
    ∃ b rest, p.rest = s.toList ++ rest ∧ r.ends ⟨b, rest⟩ ≠ [] := by
  rw [literal] at h
  generalize s.toList = cs at h ⊢
  induction cs generalizing p with
  | nil => exact ⟨p.atStart, p.rest, rfl, h⟩
  | cons c cs ih =>
    obtain ⟨q, hq, hrest⟩ := ends_seq h
    obtain ⟨d, hd, hp⟩ := ends_atom hq
    obtain rfl : c = d := by simpa [CharClass.accepts] using hd
    obtain ⟨b, rest, hqrest, hr⟩ := ih hrest
    exact ⟨b, rest, by rw [hp, hqrest, List.cons_append], hr⟩

example : parse "^ls(\\s|$)" =
    some (.seq .bol (literal "ls" (.alt (.atom .space) .eol))) := by decide +kernel

end Regexp
