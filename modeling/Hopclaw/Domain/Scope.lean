import Hopclaw.Text.GoStrings

/-! # Automation scopes

The scope a record belongs to (`internal/domain/scope`) and the filter a caller's reads are
confined by (`agent/types.go`, `ScopeFilter`). -/

namespace Hopclaw

open GoStrings

structure Ref where
  automationID : String := ""
deriving DecidableEq

def Ref.normalize (r : Ref) : Ref :=
  ⟨trimSpace r.automationID⟩

structure ScopeFilter where
  automationIDs : List String := []
  deny : Bool := false
deriving DecidableEq

namespace ScopeFilter

def normalize (f : ScopeFilter) : ScopeFilter :=
  { automationIDs := dedupeStrings f.automationIDs, deny := f.deny }

def isZero (f : ScopeFilter) : Bool :=
  !f.normalize.deny && f.normalize.automationIDs = []

/-- `Matches`: a filter that names no automation admits every scope, unless it denies all. -/
def admits (f : ScopeFilter) (scope : Ref) : Bool :=
  let n := f.normalize
  if n.deny then false
  else if n.automationIDs = [] then true
  else scope.normalize.automationID ∈ n.automationIDs

theorem admits_of_isZero {f : ScopeFilter} (h : f.isZero = true) (scope : Ref) :
    f.admits scope = true := by
  simp only [isZero, Bool.and_eq_true] at h
  simp [admits, h.1, h.2]

@[simp] theorem admits_empty (scope : Ref) : ({} : ScopeFilter).admits scope = true :=
  admits_of_isZero (by decide +kernel) scope

end ScopeFilter

end Hopclaw
