import Hopclaw.Domain.Value
import Hopclaw.Text.GoPath
import Mathlib.Data.List.AList

/-! # Resource scopes of tool calls

What a standing approval is limited to (`approval/resource_scope.go`): the paths, hosts, commands
and parameters read off the approved call, and the test whether a later call stays within them. -/

namespace Hopclaw.Approval

open GoStrings Value

/-- The functions of Go's standard library that the derivation of a scope calls and whose results
    it treats as opaque texts. -/
structure Stdlib where
  /-- `url.Parse(raw)` succeeds, and the `Hostname()` of the result. -/
  urlHostname : String → Option String
  /-- `net.SplitHostPort(raw)` succeeds, and its host. -/
  splitHost : String → Option String
  /-- The hexadecimal SHA-256 digest of a text. -/
  sha256Hex : String → String

/-- Parameter values by key, a Go `map[string][]string`. -/
abbrev Parameters := AList fun _ : String => List String

structure ResourceScope where
  pathPrefixes : List String := []
  hosts : List String := []
  commandPrefixes : List String := []
  parameters : Parameters := ∅

def resourceScopePathKeys : List String :=
  ["path", "paths", "source", "destination", "dir", "cwd", "file", "file_path",
    "source_path", "target_path", "output_path", "download_path"]

def resourceScopeHostKeys : List String :=
  ["url", "urls", "endpoint", "base_url", "host", "hostname", "domain", "source_url"]

def resourceScopeParameterKeys : List String :=
  ["method", "channel", "channel_id", "target_id", "action", "action_type", "model", "provider",
    "folder", "mailbox_folder", "calendar_id", "delivery_channel", "delivery_target"]

/-! ## Normal forms -/

def isASCIILetter (c : Char) : Bool :=
  ('a' ≤ c && c ≤ 'z') || ('A' ≤ c && c ≤ 'Z')

def looksWindowsStylePath (raw : String) : Bool :=
  contains raw "\\" ||
    match (trimSpace (replaceChar raw '\\' '/')).toList with
    | c :: ':' :: _ => isASCIILetter c
    | '/' :: '/' :: _ => true
    | _ => false

def normalizeScopePath (raw : String) : String :=
  let raw := trimSpace raw
  if raw = "" then ""
  else
    let windowsStyle := looksWindowsStylePath raw
    let cleaned := GoPath.clean (replaceChar raw '\\' '/')
    if windowsStyle || looksWindowsStylePath cleaned then toLower cleaned else cleaned

def normalizeScopeHost (lib : Stdlib) (raw : String) : String :=
  let raw := trimSpace raw
  if raw = "" then ""
  else
    match (lib.urlHostname raw).filter fun h => trimSpace h ≠ "" with
    | some host => toLower (trimSpace host)
    | none =>
      match (lib.splitHost raw).filter fun h => trimSpace h ≠ "" with
      | some host => toLower (trimSpace host)
      | none => toLower (trimChar (trimSpace raw) '.')

def normalizeStrings (values : List String) : List String :=
  (values.map trimSpace).filter fun v => v ≠ ""

/-- The loop over the parameter map: entries with a blank key or without values are dropped. -/
def normalizeParameters (params : Parameters) : Parameters :=
  params.entries.foldl (fun (out : Parameters) (e : Sigma fun _ : String => List String) =>
    let key := trimSpace (toLower e.1)
    let values := dedupeStrings (normalizeStrings e.2)
    if key = "" || values = [] then out else out.insert key values) ∅

namespace ResourceScope

variable (lib : Stdlib) (s : ResourceScope)

def normalized : ResourceScope :=
  { pathPrefixes := dedupeStrings (normalizeStrings s.pathPrefixes)
    hosts := dedupeStrings (normalizeStrings s.hosts)
    commandPrefixes := dedupeStrings (normalizeStrings s.commandPrefixes)
    parameters := normalizeParameters s.parameters }

def empty : Bool :=
  let n := s.normalized
  n.pathPrefixes = [] && n.hosts = [] && n.commandPrefixes = [] && n.parameters.entries = []

/-! ## Deriving the scope of a call -/

def appendParameter (key value : String) : ResourceScope :=
  { s with
    parameters := s.parameters.insert key (((s.parameters.lookup key).getD []) ++ [value]) }

def appendScopeParameter (key value : String) : ResourceScope :=
  let key := trimSpace (toLower key)
  let value := trimSpace value
  if key = "" || value = "" then s else s.appendParameter key value

def commandPrefixFromInput (input : List (String × Value)) : String :=
  let command := trimSpace (index input "command").sprint
  if command = "" then ""
  else
    let args :=
      match index input "args" with
      | .strs items => items
      | .list items => items.map sprint
      | _ => []
    join " " (command :: (args.map trimSpace).filter fun a => a ≠ "")

def addCommand (command : String) : ResourceScope :=
  if command = "" then s else { s with commandPrefixes := s.commandPrefixes ++ [command] }

def collectToolSpecific (toolName : String) (input : List (String × Value)) : ResourceScope :=
  let tool := toLower (trimSpace toolName)
  if tool = "exec.run" || tool = "proc.start" then
    s.addCommand (commandPrefixFromInput input)
  else if tool = "exec.shell" then
    s.addCommand (trimSpace (index input "command").sprint)
  else if tool = "exec.script" then
    let interpreter := trimSpace (index input "interpreter").sprint
    let interpreter := if interpreter = "" then "/bin/sh" else interpreter
    let s := s.addCommand interpreter
    let script := trimSpace (index input "script").sprint
    if script = "" then s else s.appendParameter "script_sha256" (lib.sha256Hex script)
  else if tool = "proc.stop" || tool = "proc.logs" || tool = "proc.wait" then
    s.appendScopeParameter "process_id" (index input "id").sprint
  else s

def collectScalar (key raw : String) : ResourceScope :=
  let key := trimSpace (toLower key)
  let raw := trimSpace raw
  if key = "" || raw = "" then s
  else if key ∈ resourceScopePathKeys then
    let path := normalizeScopePath raw
    if path = "" then s else { s with pathPrefixes := s.pathPrefixes ++ [path] }
  else if key ∈ resourceScopeHostKeys then
    let host := normalizeScopeHost lib raw
    if host = "" then s else { s with hosts := s.hosts ++ [host] }
  else if key ∈ resourceScopeParameterKeys then s.appendParameter key raw
  else s

mutual

/-- The walk through the input: strings are read under the key of the innermost object field that
    holds them, everything that is not a string is skipped. -/
def collectValue (lib : Stdlib) (s : ResourceScope) (key : String) : Value → ResourceScope
  | .object fields => collectFields lib s fields
  | .list items => collectItems lib s key items
  | .strs items => items.foldl (fun s item => s.collectScalar lib key item) s
  | .str raw => s.collectScalar lib key raw
  | .null | .bool _ | .number _ => s

def collectItems (lib : Stdlib) (s : ResourceScope) (key : String) : List Value → ResourceScope
  | [] => s
  | v :: rest => collectItems lib (collectValue lib s key v) key rest

def collectFields (lib : Stdlib) (s : ResourceScope) : List (String × Value) → ResourceScope
  | [] => s
  | (key, v) :: rest => collectFields lib (collectValue lib s key v) rest

end

end ResourceScope

open ResourceScope in
def resourceScopeFromToolCall (lib : Stdlib) (toolName : String) (input : List (String × Value)) :
    ResourceScope :=
  let scope : ResourceScope := {}
  (collectValue lib (collectToolSpecific lib scope toolName input) "" (.object input)).normalized

/-! ## Matching -/

def pathWithinScope (allowed requested : String) : Bool :=
  let allowed := normalizeScopePath allowed
  let requested := normalizeScopePath requested
  if allowed = "" || requested = "" then false
  else if allowed = "." then true
  else if requested = allowed then true
  else if !hasPrefix requested allowed then false
  else (requested.toList.drop allowed.toList.length).head? = some '/'

/-- `allRequestPathsWithin` and `allRequestValuesAllowed`: a kind that the grant does not list is
    not restricted; one that it lists must occur in the request, each value within a listed one. -/
def allRequestValuesAllowed (allowed requested : List String) (within : String → String → Bool) :
    Bool :=
  if allowed = [] then true
  else if requested = [] then false
  else requested.all fun r => allowed.any fun a => within a r

def allRequestPathsWithin (allowed requested : List String) : Bool :=
  allRequestValuesAllowed allowed requested pathWithinScope

def hostMatches (allowed requested : String) : Bool :=
  equalFold (trimSpace allowed) (trimSpace requested)

def commandMatches (allowed requested : String) : Bool :=
  let allowed := trimSpace allowed
  let requested := trimSpace requested
  allowed ≠ "" && requested ≠ "" && hasPrefix requested allowed

def exactMatch (allowed requested : String) : Bool :=
  equalFold (trimSpace allowed) (trimSpace requested)

namespace ResourceScope

def matchesRequest (s request : ResourceScope) : Bool :=
  let granted := s.normalized
  let request := request.normalized
  if granted.empty then true
  else
    (granted.pathPrefixes = [] ||
      allRequestPathsWithin granted.pathPrefixes request.pathPrefixes) &&
    (granted.hosts = [] || allRequestValuesAllowed granted.hosts request.hosts hostMatches) &&
    (granted.commandPrefixes = [] ||
      allRequestValuesAllowed granted.commandPrefixes request.commandPrefixes commandMatches) &&
    (granted.parameters.entries = [] ||
      (request.parameters.entries ≠ [] &&
        granted.parameters.entries.all fun e =>
          allRequestValuesAllowed e.2 ((request.parameters.lookup e.1).getD []) exactMatch))

def matchesCall (lib : Stdlib) (s : ResourceScope) (toolName : String)
    (input : List (String × Value)) : Bool :=
  s.matchesRequest (resourceScopeFromToolCall lib toolName input)

def signature (s : ResourceScope) : String :=
  let n := s.normalized
  let keys := (n.parameters.entries.map Sigma.fst).insertionSort (· ≤ ·)
  join "|"
    ((if n.pathPrefixes = [] then [] else ["paths=" ++ join "," n.pathPrefixes]) ++
      (if n.hosts = [] then [] else ["hosts=" ++ join "," n.hosts]) ++
      (if n.commandPrefixes = [] then [] else ["commands=" ++ join "," n.commandPrefixes]) ++
      keys.map fun key =>
        "param:" ++ key ++ "=" ++ join "," ((n.parameters.lookup key).getD []))

end ResourceScope

end Hopclaw.Approval
