import Hopclaw.Approval.Grants
import Hopclaw.Policy.Commands

/-! # Policy decisions

What a policy engine answers about a tool call (`internal/domain/governance/decision.go`), and the
texts the default engine completes an answer with. -/

namespace Hopclaw.Policy

open GoStrings Approval

inductive Action
  | allow | requireApproval | deny
deriving DecidableEq

structure ApprovalPolicy where
  defaultScope : Scope := .unset
  maxScope : Scope := .unset
deriving DecidableEq

structure Decision where
  action : Action
  reasons : List String := []
  reasonCodes : List String := []
  policySource : String := ""
  summary : String := ""
  policyLayers : List String := []
  auditLabels : List String := []
  approvalPolicy : Option ApprovalPolicy := none
deriving DecidableEq

namespace ApprovalPolicy

def empty (p : ApprovalPolicy) : Bool :=
  p.defaultScope = .unset && p.maxScope = .unset

/-- A scope that does not parse counts as the narrowest. -/
def normalizedScope (scope : Scope) : Scope :=
  match normalizeScope scope with
  | .ok scope => scope
  | .error _ => .once

def normalized (p : ApprovalPolicy) : ApprovalPolicy :=
  let defaultScope := normalizedScope p.defaultScope
  let maxScope := normalizedScope p.maxScope
  let maxScope := if maxScope = .unset && defaultScope ≠ .unset then defaultScope else maxScope
  { defaultScope := if isScopeBroader defaultScope maxScope then maxScope else defaultScope
    maxScope }

end ApprovalPolicy

namespace Decision

def normalized (d : Decision) : Decision :=
  { d with
    reasonCodes := dedupeStrings d.reasonCodes
    policySource := trimSpace d.policySource
    summary := trimSpace d.summary
    policyLayers := dedupeStrings d.policyLayers
    auditLabels := dedupeStrings d.auditLabels
    approvalPolicy := (d.approvalPolicy.map ApprovalPolicy.normalized).filter fun p => !p.empty }

end Decision

def summarizeReasons (reasons : List String) : String :=
  match dedupeReasons reasons with
  | [] => ""
  | [r] => r
  | r :: r' :: _ => r ++ "; " ++ r'

/-- The text for an action, with the reasons if there are any. -/
def summarizeAction (text : String) (reasons : List String) : String :=
  if summarizeReasons reasons ≠ "" then text ++ ": " ++ summarizeReasons reasons else text

def summarizeDecision (d : Decision) : String :=
  match d.action with
  | .deny => summarizeAction "denied by policy" d.reasons
  | .requireApproval => summarizeAction "approval required by policy" d.reasons
  | .allow => summarizeAction "allowed by policy" d.reasons

def finalizeDecision (d : Decision) : Decision :=
  let d := d.normalized
  let d := if d.policySource = "" then { d with policySource := "policy.default_engine/rules" } else d
  if d.summary = "" then { d with summary := summarizeDecision d } else d

@[simp] theorem finalizeDecision_action (d : Decision) : (finalizeDecision d).action = d.action := by
  unfold finalizeDecision
  dsimp only
  split_ifs <;> rfl

end Hopclaw.Policy
