import Hopclaw.Approval.Store
import Hopclaw.Policy.Engine

/-! # Chains of policy engines

Several engines answer about one tool call (`policy/chain.go`): the strictest action wins, and the
approval policies are merged. An engine of a chain may be any implementation, so that the action it
returns is a free string. -/

namespace Hopclaw.Policy

open GoStrings Approval

def Action.text : Action → String
  | .allow => "allow"
  | .requireApproval => "require_approval"
  | .deny => "deny"

/-- The action a text is compared with, where everything else counts as `allow`. -/
def Action.ofText (text : String) : Action :=
  if text = "deny" then .deny else if text = "require_approval" then .requireApproval else .allow

@[simp] theorem Action.ofText_text (action : Action) : ofText action.text = action := by
  cases action <;> rfl

/-! ## Decisions with free actions -/

/-- A decision as an engine returns it. -/
structure RawDecision where
  action : String := ""
  reasons : List String := []
  reasonCodes : List String := []
  policySource : String := ""
  summary : String := ""
  policyLayers : List String := []
  auditLabels : List String := []
  approvalPolicy : Option ApprovalPolicy := none
deriving DecidableEq

namespace RawDecision

/-- `Decision.Normalized`: the action is read trimmed, and kept as it is. -/
def normalized (d : RawDecision) : RawDecision :=
  { action :=
      if trimSpace d.action = "require_approval" || trimSpace d.action = "deny" then d.action
      else "allow"
    reasons := d.reasons
    reasonCodes := dedupeStrings d.reasonCodes
    policySource := trimSpace d.policySource
    summary := trimSpace d.summary
    policyLayers := dedupeStrings d.policyLayers
    auditLabels := dedupeStrings d.auditLabels
    approvalPolicy := (d.approvalPolicy.map ApprovalPolicy.normalized).filter fun p => !p.empty }

/-- The text for a decision depends on its action and its reasons. -/
def summarizeDecision (d : RawDecision) : String :=
  Policy.summarizeDecision { action := Action.ofText d.action, reasons := d.reasons }

def finalizeDecision (d : RawDecision) : RawDecision :=
  let d := d.normalized
  let d := if d.policySource = "" then { d with policySource := "policy.default_engine/rules" } else d
  if d.summary = "" then { d with summary := d.summarizeDecision } else d

theorem finalizeDecision_action (d : RawDecision) :
    d.finalizeDecision.action = d.normalized.action := by
  unfold finalizeDecision
  dsimp only
  split_ifs <;> rfl

theorem finalizeDecision_approvalPolicy (d : RawDecision) :
    d.finalizeDecision.approvalPolicy = d.normalized.approvalPolicy := by
  unfold finalizeDecision
  dsimp only
  split_ifs <;> rfl

end RawDecision

theorem trimSpace_text (action : Action) : trimSpace action.text = action.text := by
  cases action <;> decide +kernel

/-! ## The chain -/

structure Layer where
  name : String := ""
  engine : Option (ToolContext → Except Err RawDecision)

structure ChainEngine where
  layers : List Layer := []

def actionPriority (action : String) : ℕ :=
  if action = "deny" then 2 else if action = "require_approval" then 1 else 0

def chainLayerSource (layer : Layer) (decision : RawDecision) : String :=
  if trimSpace decision.policySource ≠ "" then trimSpace decision.policySource
  else if trimSpace layer.name ≠ "" then "policy.chain/" ++ trimSpace layer.name
  else "policy.chain/layer"

/-- `dedupePolicyLayers` is `normalize.DedupeStrings` once more. -/
def dedupePolicyLayers (values : List String) : List String :=
  dedupeStrings values

/-- A scope that cannot be compared counts as the narrowest. -/
def narrowerScopeOrOnce (values : List Scope) : Scope :=
  match narrowerScopeChecked values with
  | .ok scope => scope
  | .error _ => .once

def mergeApprovalPolicies : Option ApprovalPolicy → Option ApprovalPolicy → Option ApprovalPolicy
  | none, none => none
  | none, some policy => some policy.normalized |>.filter fun p => !p.empty
  | some policy, none => some policy.normalized |>.filter fun p => !p.empty
  | some current, some next =>
    let merged : ApprovalPolicy :=
      { defaultScope := narrowerScopeOrOnce [current.defaultScope, next.defaultScope]
        maxScope := narrowerScopeOrOnce [current.maxScope, next.maxScope] }
    some merged.normalized |>.filter fun p => !p.empty

/-- The variables of the loop over the layers. -/
structure ChainState where
  final : RawDecision := { action := "allow" }
  winningPriority : ℕ := 0
  layerSources : List String := []
  evaluated : Bool := false

/-- The body of the loop, for a decision that is normal. -/
def ChainState.merge (s : ChainState) (layer : Layer) (decision : RawDecision) : ChainState :=
  let layerSource := chainLayerSource layer decision
  let priority := actionPriority decision.action
  let final :=
    { s.final with
      reasons := s.final.reasons ++ decision.reasons
      reasonCodes := s.final.reasonCodes ++ decision.reasonCodes
      auditLabels := s.final.auditLabels ++ decision.auditLabels
      approvalPolicy := mergeApprovalPolicies s.final.approvalPolicy decision.approvalPolicy }
  let final :=
    if s.winningPriority < priority then
      { final with
        action := decision.action
        policySource := firstNonEmpty [decision.policySource, layerSource]
        summary := trimSpace decision.summary }
    else if priority = s.winningPriority then
      { final with
        policySource := firstNonEmpty [decision.policySource, layerSource, final.policySource]
        summary :=
          if trimSpace decision.summary ≠ "" then trimSpace decision.summary else final.summary }
    else final
  { final
    winningPriority := max s.winningPriority priority
    layerSources := if layerSource ≠ "" then s.layerSources ++ [layerSource] else s.layerSources
    evaluated := true }

def chainStep (call : ToolContext) (s : ChainState) (layer : Layer) : Except Err ChainState :=
  match layer.engine with
  | none => .ok s
  | some evaluateTool => do
    let decision ← evaluateTool call
    return s.merge layer decision.normalized

/-- The end of `EvaluateTool`. -/
def ChainState.decision (s : ChainState) : RawDecision :=
  if s.evaluated then
    RawDecision.finalizeDecision { s.final with
      policyLayers := dedupePolicyLayers s.layerSources
      approvalPolicy :=
        if s.final.action ≠ "require_approval" then none else s.final.approvalPolicy }
  else
    RawDecision.finalizeDecision {
      action := "allow", policySource := "policy.chain/empty"
      summary := "allowed because no active policy layers are configured" }

def ChainEngine.evaluateTool (e : ChainEngine) (call : ToolContext) : Except Err RawDecision :=
  if e.layers = [] then
    .ok <| RawDecision.finalizeDecision {
      action := "allow", policySource := "policy.chain/empty"
      summary := "allowed because no policy layers are configured" }
  else do
    let s ← e.layers.foldlM (chainStep call) {}
    return s.decision

end Hopclaw.Policy
