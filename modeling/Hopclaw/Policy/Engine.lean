import Hopclaw.Policy.Decision

/-! # The default policy engine

`DefaultEngine.EvaluateTool` (`policy/policy.go`): an ordered chain of rules, the first of which
that has an answer decides. A rule is an optional decision here, and the chain is their
`Option.or`. -/

namespace Hopclaw.Policy

open GoStrings Approval

/-! ## Tools -/

/-- A tool's availability, free text in the source. -/
inductive AvailabilityStatus
  | unset | ready | degraded | blocked | discoverable
  | other (text : String)
deriving DecidableEq

structure ToolAvailability where
  status : AvailabilityStatus := .unset
  reasons : List String := []
deriving DecidableEq

/-- The fields of a tool's descriptor that the engine's view of a tool depends on. -/
structure ToolDefinition where
  name : String := ""
  sideEffectClass : String := ""
  requiresApproval : Bool := false
  eligible : Bool := false
  eligibilityReasons : List String := []
  availability : ToolAvailability := {}
deriving DecidableEq

structure ToolManifest where
  name : String := ""
  sideEffectClass : String := ""
  requiresApproval : Bool := false
deriving DecidableEq

structure EligibilityResult where
  eligible : Bool := false
  reasons : List String := []
deriving DecidableEq

/-- A tool as it is resolved; of its package only the trust level counts, `none` without one. -/
structure ResolvedTool where
  descriptor : ToolDefinition := {}
  manifest : ToolManifest := {}
  trust : Option String := none
  eligibility : EligibilityResult := {}
deriving DecidableEq

structure BoundTool where
  manifest : ToolManifest := {}
  trust : Option String := none
  eligibility : EligibilityResult := {}
deriving DecidableEq

/-- What a call carries as its tool, a Go `any`. -/
inductive RawTool
  | absent
  | resolved (tool : ResolvedTool)
  | bound (tool : BoundTool)
  | other
deriving DecidableEq

def normalizeSideEffectClass (v : String) : String :=
  let v := trimSpace (toLower v)
  if v ∈ ["", "read", "readonly", "read_only"] then "read"
  else if v ∈ ["local_write", "local-write"] then "local_write"
  else if v ∈ ["external_write", "external-write", "remote_write", "remote-write"] then
    "external_write"
  else "destructive"

def mergeManifestFromDescriptor (m : ToolManifest) (d : ToolDefinition) : ToolManifest :=
  { name := trimSpace (if trimSpace m.name ≠ "" then m.name else d.name)
    sideEffectClass := if trimSpace m.sideEffectClass = "" then
      normalizeSideEffectClass d.sideEffectClass else m.sideEffectClass
    requiresApproval := m.requiresApproval || d.requiresApproval }

def mergeDescriptor (d : ToolDefinition) (m : ToolManifest) (e : EligibilityResult) :
    ToolDefinition :=
  { d with
    name := if trimSpace d.name = "" then trimSpace m.name else d.name
    sideEffectClass := if trimSpace d.sideEffectClass = "" then
      normalizeSideEffectClass m.sideEffectClass else d.sideEffectClass
    requiresApproval := d.requiresApproval || m.requiresApproval
    eligible := d.eligible || e.eligible
    eligibilityReasons := if d.eligibilityReasons = [] then e.reasons else d.eligibilityReasons }

def normalizeAvailability (av : ToolAvailability) (eligible : Bool) (reasons : List String) :
    ToolAvailability :=
  let reasons := if av.reasons = [] then reasons else av.reasons
  { reasons
    status :=
      if av.status ≠ .unset then av.status
      else if eligible then .ready
      else if reasons ≠ [] then .blocked
      else .unset }

def normalizeDefinition (d : ToolDefinition) : ToolDefinition :=
  { d with
    name := trimSpace d.name
    sideEffectClass := normalizeSideEffectClass d.sideEffectClass
    availability := normalizeAvailability d.availability d.eligible d.eligibilityReasons }

def normalizeResolvedTool (tool : ResolvedTool) : ResolvedTool :=
  let manifest := if trimSpace tool.manifest.name = "" then
    mergeManifestFromDescriptor tool.manifest tool.descriptor else tool.manifest
  let eligibility : EligibilityResult :=
    { eligible := tool.eligibility.eligible || tool.descriptor.eligible
      reasons := if tool.eligibility.reasons = [] then tool.descriptor.eligibilityReasons
        else tool.eligibility.reasons }
  { tool with
    manifest, eligibility
    descriptor := normalizeDefinition (mergeDescriptor tool.descriptor manifest eligibility) }

def normalizeTool : RawTool → Option ResolvedTool
  | .resolved tool => some (normalizeResolvedTool tool)
  | .bound tool => some (normalizeResolvedTool
      { descriptor :=
          { name := tool.manifest.name
            sideEffectClass := tool.manifest.sideEffectClass
            requiresApproval := tool.manifest.requiresApproval
            eligible := tool.eligibility.eligible
            eligibilityReasons := tool.eligibility.reasons }
        manifest := tool.manifest
        trust := tool.trust
        eligibility := tool.eligibility })
  | .absent | .other => none

/-! ## Configuration -/

structure Config where
  allowUnknownTools : Bool := false
  requireApprovalForWrite : Bool := false
  allowLocalWriteWithoutApproval : Bool := false
  requireApprovalCommunity : Bool := false
  skipManifestApproval : Bool := false
  denyDestructive : Bool := false
  skillInstallPolicy : String := ""
  defaultApprovalScope : Scope := .unset
  maxApprovalScope : Scope := .unset
  skillInstallDefaultScope : Scope := .unset
  skillInstallMaxScope : Scope := .unset
  safePatterns : List String := []
  blockedCommands : List String := []
  dangerousTools : List String := []
deriving DecidableEq

def normalizeApprovalScopeWithFallback (raw fallback : Scope) : Scope :=
  match normalizeScope raw with
  | .ok .unset => fallback
  | .ok scope => scope
  | .error _ => fallback

/-- A default scope is cut down to the largest one. -/
def narrowed (scope maxScope : Scope) : Scope :=
  if isScopeBroader scope maxScope then maxScope else scope

def Config.normalized (c : Config) : Config :=
  let maxApprovalScope := normalizeApprovalScopeWithFallback c.maxApprovalScope .session
  let skillInstallMaxScope := normalizeApprovalScopeWithFallback c.skillInstallMaxScope .once
  { c with
    defaultApprovalScope := narrowed
      (normalizeApprovalScopeWithFallback c.defaultApprovalScope .once) maxApprovalScope
    maxApprovalScope
    skillInstallDefaultScope := narrowed
      (normalizeApprovalScopeWithFallback c.skillInstallDefaultScope .once) skillInstallMaxScope
    skillInstallMaxScope }

def Config.approvalDefaults (c : Config) : ApprovalPolicy :=
  let c := c.normalized
  ApprovalPolicy.normalized ⟨c.defaultApprovalScope, c.maxApprovalScope⟩

def Config.skillInstallApprovalDefaults (c : Config) : ApprovalPolicy :=
  let c := c.normalized
  ApprovalPolicy.normalized ⟨c.skillInstallDefaultScope, c.skillInstallMaxScope⟩

/-- The fields of a finding of the security auditor that the engine reads. -/
structure SecurityRisk where
  type : String
  detail : String
  severity : String
deriving DecidableEq

structure ToolContext where
  runID : String := ""
  sessionID : String := ""
  toolName : String
  input : List (String × Value) := []
  tool : RawTool := .absent

/-- The engine. The auditor is the function that lists the risks of a tool call. -/
structure DefaultEngine where
  config : Config
  safeMatcher : SafeCommandMatcher
  blockedMatcher : Option BlockedCommandMatcher
  grants : Option GrantStore := none
  auditor : Option (String → List (String × Value) → List SecurityRisk) := none
  dangerousTools : List String

/-- A tool name as the engine compares it. -/
def normalizeToolName (name : String) : String :=
  trimSpace (toLower name)

def newDefaultEngine (other : String → Option (String → Bool)) (cfg : Config) : DefaultEngine :=
  let cfg := cfg.normalized
  { config := cfg
    safeMatcher := newSafeCommandMatcher other
      (if cfg.safePatterns = [] then defaultSafePatterns else cfg.safePatterns)
    blockedMatcher := newBlockedCommandMatcher cfg.blockedCommands
    dangerousTools := (cfg.dangerousTools.map normalizeToolName).filter fun name => name ≠ "" }

/-! ## The rules -/

def isExecTool (name : String) : Bool :=
  normalizeToolName name ∈ ["exec.run", "exec.shell", "exec.script"]

def isSkillInstallTool (name : String) : Bool :=
  normalizeToolName name ∈ ["skill.install", "skill.ensure"]

def extractExecCommand (call : ToolContext) : String :=
  match Value.index call.input "command" with
  | .str cmd => trimSpace cmd
  | _ => ""

def unknownToolDecision (config : Config) : Decision :=
  if config.allowUnknownTools then
    { action := .allow
      reasonCodes := ["unknown_tool_allowed"]
      policySource := "policy.default_engine/unknown_tool"
      summary := "allowed because unknown tools are permitted by policy" }
  else
    { action := .deny
      reasons := ["unknown tool"]
      reasonCodes := ["unknown_tool"]
      auditLabels := ["tool_unknown"]
      policySource := "policy.default_engine/unknown_tool"
      summary := "denied because the tool is unknown" }

def availabilityRule (tool : ResolvedTool) : Option Decision :=
  match tool.descriptor.availability.status with
  | .blocked | .discoverable =>
    some
      { action := .deny
        reasons := if tool.descriptor.availability.reasons = [] then ["tool is unavailable"]
          else tool.descriptor.availability.reasons
        reasonCodes := ["tool_unavailable"]
        auditLabels := ["tool_unavailable"]
        policySource := "policy.default_engine/availability"
        summary := "denied because the tool is unavailable" }
  | _ => none

def eligibilityRule (tool : ResolvedTool) : Option Decision :=
  if tool.eligibility.eligible then none
  else
    some
      { action := .deny
        reasons := tool.eligibility.reasons
        reasonCodes := ["tool_ineligible"]
        auditLabels := ["tool_ineligible"]
        policySource := "policy.default_engine/eligibility"
        summary := "denied because the tool is not eligible in the current runtime" }

variable (lib : Stdlib)
variable (e : DefaultEngine) (call : ToolContext) (tool : ResolvedTool)

/-- What the standing grants answer; a deny record goes before a grant. -/
def grantRule : Option Decision :=
  match e.grants with
  | none => none
  | some grants =>
    if call.sessionID = "" then none
    else
      let grantDecision := grants.evaluate lib call.sessionID call.toolName call.input
      if grantDecision.denied then
        some
          { action := .deny
            reasons := ["tool denied by session grant"]
            reasonCodes := ["session_denied_grant"]
            auditLabels := ["approval_grant"]
            policySource := "policy.default_engine/grant"
            summary := "denied by session grant policy" }
      else if grantDecision.granted then
        some
          { action := .allow
            reasonCodes := ["approval_grant"]
            policySource := "policy.default_engine/grant"
            summary := "allowed by approval grant" }
      else none

/-- The entry of the list of blocked commands that the call's command is under. -/
def blockedBy : Option String :=
  if isExecTool call.toolName && extractExecCommand call ≠ "" then
    e.blockedMatcher.bind fun m => m.blockedBy (extractExecCommand call)
  else none

def blockedCommandRule : Option Decision :=
  (blockedBy e call).map fun blockedBy =>
    { action := .deny
      reasons := ["command \"" ++ blockedBy ++ "\" is blocked by policy"]
      reasonCodes := ["blocked_command"]
      auditLabels := ["blocked_command"]
      policySource := "policy.default_engine/blocked_command"
      summary := "denied because the exec command is blocked by policy" }

/-- The call's command is on the allowlist. -/
def isSafeExec : Bool :=
  isExecTool call.toolName && extractExecCommand call ≠ "" &&
    e.safeMatcher.isSafe (extractExecCommand call)

def safeExecRule : Option Decision :=
  if isSafeExec e call then
    some
      { action := .allow
        reasonCodes := ["safe_exec_allowlist"]
        policySource := "policy.default_engine/safe_exec"
        summary := "allowed by safe exec allowlist" }
  else none

def destructiveRule : Option Decision :=
  if e.config.denyDestructive &&
      normalizeSideEffectClass tool.manifest.sideEffectClass = "destructive" then
    some
      { action := .deny
        reasons := ["destructive tools are denied by policy"]
        reasonCodes := ["destructive_tool_blocked"]
        auditLabels := ["destructive_tool"]
        policySource := "policy.default_engine/destructive"
        summary := "denied because destructive tools are blocked" }
  else none

def normalizeSkillInstallPolicy (raw : String) : String :=
  let raw := trimSpace (toLower raw)
  if raw = "" then "ask" else raw

/-- The first of the call's fields that names what is to be installed. -/
def describeSkillInstallTarget : String :=
  ((["name", "skill_id", "query", "goal"].map fun key =>
      trimSpace (Value.index call.input key).sprint).find? fun text =>
    text ≠ "" && text ≠ "<nil>").getD ""

def describeSkillInstall (verdict : String) : String :=
  let target := describeSkillInstallTarget call
  if target = "" then "skill installation " ++ verdict
  else "install skill \"" ++ target ++ "\" " ++ verdict

def describeSkillInstallApproval : String :=
  describeSkillInstall call "requires approval by policy"

def describeSkillInstallDenial : String :=
  describeSkillInstall call "is denied by policy"

def ptrDecisionApprovalPolicy (policy : ApprovalPolicy) : Option ApprovalPolicy :=
  if policy.empty then none else some policy.normalized

def skillInstallRule : Option Decision :=
  if !isSkillInstallTool call.toolName then none
  else if normalizeSkillInstallPolicy e.config.skillInstallPolicy = "auto" then
    some
      { action := .allow
        reasonCodes := ["skill_install_auto_allowed"]
        auditLabels := ["skill_install"]
        policySource := "policy.default_engine/skill_install"
        summary := "allowed because skill installation is auto-approved by policy" }
  else if normalizeSkillInstallPolicy e.config.skillInstallPolicy = "deny" then
    some
      { action := .deny
        reasons := [describeSkillInstallDenial call]
        reasonCodes := ["skill_install_denied"]
        auditLabels := ["skill_install"]
        policySource := "policy.default_engine/skill_install"
        summary := "denied by skill installation policy" }
  else
    some
      { action := .requireApproval
        reasons := [describeSkillInstallApproval call]
        reasonCodes := ["skill_install_requires_approval"]
        auditLabels := ["skill_install"]
        policySource := "policy.default_engine/skill_install"
        summary := "approval is required by skill installation policy"
        approvalPolicy := ptrDecisionApprovalPolicy e.config.skillInstallApprovalDefaults }

/-! ## The rules that add up -/

/-- A decision in the making: an action, and what speaks for it. -/
def Decision.add (d : Decision) (action : Action) (reason : String) (codes labels : List String) :
    Decision :=
  { d with
    action
    reasons := d.reasons ++ [reason]
    reasonCodes := d.reasonCodes ++ codes
    auditLabels := d.auditLabels ++ labels }

def manifestApproval (d : Decision) : Decision :=
  if !tool.manifest.requiresApproval then d
  else if e.config.skipManifestApproval then
    d.add d.action
      "tool manifest requires approval, but policy is configured to bypass manifest approval" [] []
  else d.add .requireApproval "tool manifest requires approval" ["manifest_requires_approval"] []

def sideEffectApproval (d : Decision) : Decision :=
  let sideEffect := normalizeSideEffectClass tool.manifest.sideEffectClass
  if !(e.config.requireApprovalForWrite && sideEffect ≠ "" && sideEffect ≠ "read") then d
  else if sideEffect = "local_write" && e.config.allowLocalWriteWithoutApproval then
    d.add d.action "local write tools are auto-approved by policy" ["local_write_auto_allowed"] []
  else
    d.add .requireApproval ("side effect class \"" ++ sideEffect ++ "\" requires approval")
      ["side_effect_requires_approval"] ["write_tool"]

def communityApproval (d : Decision) : Decision :=
  if e.config.requireApprovalCommunity && tool.trust = some "community" then
    d.add .requireApproval "community tools require approval" ["community_tool_requires_approval"] []
  else d

def dangerousToolApproval (d : Decision) : Decision :=
  if normalizeToolName call.toolName ∈ e.dangerousTools then
    d.add .requireApproval "tool is marked as dangerous" ["dangerous_tool_requires_approval"]
      ["dangerous_tool"]
  else d

/-- The high-severity findings of the auditor, as reasons. -/
def auditReasons : List String :=
  match e.auditor with
  | none => []
  | some auditToolCall =>
    ((auditToolCall call.toolName call.input).filter fun r => r.severity = "high").map fun r =>
      "security: " ++ r.type ++ " — " ++ r.detail

/-- A high-severity finding of the security audit denies the call where destructive tools are
    denied. -/
def securityAuditRule : Option Decision :=
  if auditReasons e call ≠ [] && e.config.denyDestructive then
    some
      { action := .deny
        reasons := dedupeReasons (auditReasons e call)
        reasonCodes := ["high_security_risk"]
        auditLabels := ["security_risk"]
        policySource := "policy.default_engine/security_audit"
        summary := "denied because high-severity security risks were detected" }
  else none

/-- Elsewhere it asks for an approval. -/
def securityAuditApproval (d : Decision) : Decision :=
  if auditReasons e call = [] then d
  else
    { d with
      action := .requireApproval
      reasons := d.reasons ++ auditReasons e call
      reasonCodes := d.reasonCodes ++ ["high_security_risk"]
      auditLabels := d.auditLabels ++ ["security_risk"] }

/-- The end of the chain: what no rule has decided. -/
def rulesDecision : Decision :=
  let d := manifestApproval e tool { action := .allow }
  let d := sideEffectApproval e tool d
  let d := communityApproval e tool d
  let d := dangerousToolApproval e call d
  let d := securityAuditApproval e call d
  { d with
    reasons := dedupeReasons d.reasons
    policySource := "policy.default_engine/rules"
    approvalPolicy := if d.action = .requireApproval then
      ptrDecisionApprovalPolicy e.config.approvalDefaults else none }

/-- The rules that look at the tool alone. -/
def earlierRules : Option Decision :=
  (availabilityRule tool).or (eligibilityRule tool)

/-- The rules after the grants. -/
def laterRules : Decision :=
  (blockedCommandRule e call).or (safeExecRule e call) |>.or (destructiveRule e tool)
    |>.or (skillInstallRule e call) |>.or (securityAuditRule e call)
    |>.getD (rulesDecision e call tool)

def evaluateTool : Decision :=
  finalizeDecision <|
    match normalizeTool call.tool with
    | none => unknownToolDecision e.config
    | some tool =>
      (earlierRules tool).or (grantRule lib e call) |>.getD (laterRules e call tool)

end Hopclaw.Policy
