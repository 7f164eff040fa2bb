import Hopclaw.Text.GoStrings
import Hopclaw.Text.Regexp

/-! # Command lists

The list of blocked commands and the allowlist of safe ones (`policy/blocked_commands.go`,
`policy/safe_commands.go`). -/

namespace Hopclaw.Policy

open GoStrings

/-- Without empty texts, each text at its first occurrence. -/
def dedupeReasons (items : List String) : List String :=
  items.foldl (fun out item => if item = "" || item ∈ out then out else out ++ [item]) []

/-! ## Blocked commands -/

structure BlockedCommandMatcher where
  names : List String
  prefixes : List String
deriving DecidableEq

def normalizeBlockedCommand (raw : String) : String :=
  toLower (join " " (fields (trimSpace raw)))

/-- An entry with a blank in it is a prefix, the others are names. -/
def newBlockedCommandMatcher (items : List String) : Option BlockedCommandMatcher :=
  let normalized := (items.map normalizeBlockedCommand).filter fun item => item ≠ ""
  let names := normalized.filter fun item => !contains item " "
  let prefixes := normalized.filter fun item => contains item " "
  if names = [] && prefixes = [] then none
  else some { names, prefixes := dedupeReasons prefixes }

/-- `Match`: the entry that blocks the command. -/
def BlockedCommandMatcher.blockedBy (m : BlockedCommandMatcher) (command : String) :
    Option String :=
  let normalized := normalizeBlockedCommand command
  if normalized = "" then none
  else
    match fields normalized with
    | [] => none
    | first :: _ =>
      if first ∈ m.names then some first
      else m.prefixes.find? fun p => normalized = p || hasPrefix normalized (p ++ " ")

/-! ## Safe commands -/

def defaultSafePatterns : List String :=
  ["^ls(\\s|$)", "^cat\\s", "^head\\s", "^tail\\s", "^wc(\\s|$)", "^echo(\\s|$)", "^date(\\s|$)",
    "^whoami(\\s|$)", "^pwd(\\s|$)", "^uname(\\s|$)", "^env(\\s|$)", "^printenv(\\s|$)",
    "^git\\s+(status|log|diff|show|branch|tag|remote|rev-parse)(\\s|$)", "^which\\s", "^file\\s",
    "^stat\\s", "^df(\\s|$)", "^du\\s", "^hostname(\\s|$)", "^uptime(\\s|$)", "^id(\\s|$)",
    "^groups(\\s|$)"]

/-- The patterns that could be compiled, as the functions that match them. -/
structure SafeCommandMatcher where
  patterns : List (String → Bool)

/-- `regexp.Compile`. A pattern outside the modelled part of the syntax is left to `other`. -/
def compile (other : String → Option (String → Bool)) (pattern : String) :
    Option (String → Bool) :=
  match Regexp.parse pattern with
  | some r => some r.matchString
  | none => other pattern

/-- Invalid patterns are skipped. -/
def newSafeCommandMatcher (other : String → Option (String → Bool)) (patterns : List String) :
    SafeCommandMatcher :=
  ⟨patterns.filterMap (compile other)⟩

def SafeCommandMatcher.isSafe (m : SafeCommandMatcher) (command : String) : Bool :=
  trimSpace command ≠ "" && m.patterns.any fun matchString => matchString (trimSpace command)

end Hopclaw.Policy
