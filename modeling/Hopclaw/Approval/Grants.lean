import Hopclaw.Approval.ResourceScope
import Hopclaw.Domain.Err

/-! # Standing grants

How long an approval lasts (`approval/scope.go`, `approval/scope_policy.go`), and the store of the
grants that outlive the call they were given for. -/

namespace Hopclaw.Approval

open GoStrings

/-- The duration of an approval grant, a free string in the source: `unset` is the empty one and
    `other` any text that is none of the named ones as it stands. -/
inductive Scope
  | unset | once | session | always | deny
  | other (text : String)
deriving DecidableEq

def Scope.text : Scope → String
  | .unset => ""
  | .once => "once"
  | .session => "session"
  | .always => "always"
  | .deny => "deny"
  | .other text => text

def normalizeScope (scope : Scope) : Except Err Scope :=
  match scope with
  | .other text =>
    let t := trimSpace (toLower text)
    if t = "" then .ok .unset
    else if t = "once" then .ok .once
    else if t = "session" then .ok .session
    else if t = "always" then .ok .always
    else if t = "deny" then .ok .deny
    else .error ⟨"invalid approval scope: \"" ++ text ++ "\"", some .invalidScope⟩
  | named => .ok named

def scopeRank (scope : Scope) : ℕ :=
  match normalizeScope scope with
  | .ok .once => 1
  | .ok .session => 2
  | .ok .always => 3
  | _ => 0

def isScopeBroader (scope maxScope : Scope) : Bool :=
  if scopeRank scope = 0 then false
  else if scopeRank maxScope = 0 then true
  else scopeRank maxScope < scopeRank scope

theorem not_isScopeBroader_iff {scope maxScope : Scope} :
    isScopeBroader scope maxScope = false ↔ scopeRank scope ≤ scopeRank maxScope := by
  unfold isScopeBroader
  split_ifs with hzero hmax
  · simp [hzero]
  · simp only [hmax, Nat.le_zero, hzero]
  · simp

/-- The narrowest of the scopes that are set; one that does not parse is an error. -/
def narrowerScopeChecked (values : List Scope) : Except Err Scope :=
  values.foldlM (fun winner candidate => do
    let normalized ← normalizeScope candidate
    if normalized = .unset then return winner
    else if winner = .unset ∨ scopeRank normalized < scopeRank winner then return normalized
    else return winner) .unset

/-! ## The grant store -/

structure GrantRecord where
  scope : Scope
  resourceScope : ResourceScope

/-- The records of each session and tool, in the order they were first granted. -/
structure GrantStore where
  session : String → String → List GrantRecord := fun _ _ => []

structure GrantDecision where
  granted : Bool := false
  denied : Bool := false
  scope : Scope := .unset
  resourceScope : ResourceScope := {}

/-- A record with the candidate's signature is replaced, otherwise the candidate is added. -/
def upsertGrantRecord (records : List GrantRecord) (candidate : GrantRecord) : List GrantRecord :=
  match records with
  | [] => [candidate]
  | record :: rest =>
    if record.resourceScope.signature = candidate.resourceScope.signature then candidate :: rest
    else record :: upsertGrantRecord rest candidate

namespace GrantStore

def setRecords (g : GrantStore) (sessionID toolName : String) (records : List GrantRecord) :
    GrantStore :=
  ⟨fun s t => if s = sessionID ∧ t = toolName then records else g.session s t⟩

/-- A grant for one call only is not stored. -/
def grantScoped (g : GrantStore) (sessionID toolName : String) (scope : Scope)
    (resourceScope : ResourceScope) : GrantStore :=
  let record : GrantRecord := ⟨scope, resourceScope.normalized⟩
  match scope with
  | .session | .always | .deny =>
    g.setRecords sessionID toolName (upsertGrantRecord (g.session sessionID toolName) record)
  | _ => g

/-- Deny records are looked at before the grants. -/
def evaluate (lib : Stdlib) (g : GrantStore) (sessionID toolName : String)
    (input : List (String × Value)) : GrantDecision :=
  let records := g.session sessionID toolName
  match records.find? fun r =>
      r.scope = .deny && r.resourceScope.matchesCall lib toolName input with
  | some r => { denied := true, scope := r.scope, resourceScope := r.resourceScope.normalized }
  | none =>
    match records.find? fun r =>
        (r.scope = .session || r.scope = .always) &&
          r.resourceScope.matchesCall lib toolName input with
    | some r => { granted := true, scope := r.scope, resourceScope := r.resourceScope.normalized }
    | none => {}

end GrantStore

end Hopclaw.Approval
