import Hopclaw.Policy.Engine

/-! # Standing grants and deny rules

What the grant store changes about the engine's decisions. The grants are consulted after the rules
about the tool itself and before every rule about the call, so a standing grant goes before the
blocked commands, the ban on destructive tools, the skill installation policy and the audit. -/

namespace Hopclaw.Policy

open Option Approval List

variable (lib : Stdlib) (e : DefaultEngine) (call : ToolContext) (tool : ResolvedTool)

/-- The engine without its grant store. -/
def DefaultEngine.withoutGrants (e : DefaultEngine) : DefaultEngine :=
  { e with grants := none }

/-- A standing grant covers the call: the engine has a grant store, the call a session, and of the
    session's records for the tool one allows the call and none denies it. -/
def Granted (e : DefaultEngine) (call : ToolContext) : Prop :=
  ∃ grants, e.grants = some grants ∧ call.sessionID ≠ "" ∧
    (∀ r ∈ grants.session call.sessionID call.toolName,
      r.scope = .deny → r.resourceScope.matchesCall lib call.toolName call.input = false) ∧
    ∃ r ∈ grants.session call.sessionID call.toolName, (r.scope = .session ∨ r.scope = .always) ∧
      r.resourceScope.matchesCall lib call.toolName call.input = true

/-- A record of the session's denies the call. -/
def GrantDenied (e : DefaultEngine) (call : ToolContext) : Prop :=
  ∃ grants, e.grants = some grants ∧ call.sessionID ≠ "" ∧
    ∃ r ∈ grants.session call.sessionID call.toolName, r.scope = .deny ∧
      r.resourceScope.matchesCall lib call.toolName call.input = true

/-- One of the deny rules about the call applies, with no rule before it that allows the call. -/
def DeniedLater (e : DefaultEngine) (call : ToolContext) (tool : ResolvedTool) : Prop :=
  (∃ entry, blockedBy e call = some entry) ∨ isSafeExec e call = false ∧
    (e.config.denyDestructive = true ∧
        normalizeSideEffectClass tool.manifest.sideEffectClass = "destructive" ∨
      isSkillInstallTool call.toolName = true ∧
        normalizeSkillInstallPolicy e.config.skillInstallPolicy = "deny" ∨
      isSkillInstallTool call.toolName = false ∧ e.config.denyDestructive = true ∧
        auditReasons e call ≠ [])

/-! ## The grant rule -/

variable {lib}

variable {g : GrantStore} {input : List (String × Value)}

theorem evaluate_denied {sessionID toolName : String} :
    (g.evaluate lib sessionID toolName input).denied = true ↔
      ∃ r ∈ g.session sessionID toolName, r.scope = .deny ∧
        r.resourceScope.matchesCall lib toolName input = true := by
  unfold GrantStore.evaluate
  dsimp only
  split
  · rename_i r hr
    have hspec := find?_some hr
    simp only [Bool.and_eq_true, decide_eq_true_eq] at hspec
    exact iff_of_true rfl ⟨r, mem_of_find?_eq_some hr, hspec⟩
  · rename_i hnone
    refine iff_of_false ?_ ?_
    · split <;> simp
    · rintro ⟨r, hr, hscope, hmatch⟩
      have := find?_eq_none.mp hnone r hr
      simp [hscope, hmatch] at this

theorem evaluate_granted {sessionID toolName : String} :
    (g.evaluate lib sessionID toolName input).granted = true ↔
      (∀ r ∈ g.session sessionID toolName, r.scope = .deny →
        r.resourceScope.matchesCall lib toolName input = false) ∧
      ∃ r ∈ g.session sessionID toolName, (r.scope = .session ∨ r.scope = .always) ∧
        r.resourceScope.matchesCall lib toolName input = true := by
  unfold GrantStore.evaluate
  dsimp only
  split
  · rename_i r hr
    have hspec := find?_some hr
    simp only [Bool.and_eq_true, decide_eq_true_eq] at hspec
    refine iff_of_false (by simp) fun ⟨hnot, _⟩ => ?_
    rw [hnot r (mem_of_find?_eq_some hr) hspec.1] at hspec
    exact absurd hspec.2 (by simp)
  · rename_i hnone
    have hnot : ∀ r ∈ g.session sessionID toolName, r.scope = .deny →
        r.resourceScope.matchesCall lib toolName input = false := by
      intro r hr hscope
      have := find?_eq_none.mp hnone r hr
      simpa [hscope] using this
    split
    · rename_i r hr
      have hspec := find?_some hr
      simp only [Bool.and_eq_true, Bool.or_eq_true, decide_eq_true_eq] at hspec
      exact iff_of_true rfl ⟨hnot, r, mem_of_find?_eq_some hr, hspec⟩
    · rename_i hnone'
      refine iff_of_false (by simp) ?_
      rintro ⟨-, r, hr, hscope, hmatch⟩
      have := find?_eq_none.mp hnone' r hr
      obtain hscope | hscope := hscope <;> simp [hscope, hmatch] at this

/-- The three answers of the grant rule. -/
theorem grantRule_cases (lib : Stdlib) (e : DefaultEngine) (call : ToolContext) :
    (GrantDenied lib e call ∧ ¬ Granted lib e call ∧
      ∃ d, grantRule lib e call = some d ∧ d.action = .deny) ∨
    (Granted lib e call ∧ ∃ d, grantRule lib e call = some d ∧ d.action = .allow) ∨
    (¬ GrantDenied lib e call ∧ ¬ Granted lib e call ∧ grantRule lib e call = none) := by
  unfold grantRule
  cases hg : e.grants with
  | none => exact .inr (.inr ⟨by simp [GrantDenied, hg], by simp [Granted, hg], rfl⟩)
  | some grants =>
    dsimp only
    split_ifs with hsession hdenied hgranted
    · exact .inr (.inr ⟨by simp [GrantDenied, hsession], by simp [Granted, hsession], rfl⟩)
    · have hrecord := evaluate_denied.mp hdenied
      refine .inl ⟨⟨grants, hg, hsession, hrecord⟩, ?_, _, rfl, rfl⟩
      rintro ⟨_, hg', -, hnot, -⟩
      obtain rfl : grants = _ := some.inj (hg.symm.trans hg')
      obtain ⟨r, hr, hscope, hmatch⟩ := hrecord
      rw [hnot r hr hscope] at hmatch
      cases hmatch
    · exact .inr (.inl ⟨⟨grants, hg, hsession, evaluate_granted.mp hgranted⟩, _, rfl, rfl⟩)
    · refine .inr (.inr ⟨?_, ?_, rfl⟩)
      · rintro ⟨_, hg', -, hrecord⟩
        obtain rfl : grants = _ := some.inj (hg.symm.trans hg')
        exact hdenied (evaluate_denied.mpr hrecord)
      · rintro ⟨_, hg', -, hrecord⟩
        obtain rfl : grants = _ := some.inj (hg.symm.trans hg')
        exact hgranted (evaluate_granted.mpr hrecord)

/-! ## The deny rules -/

theorem earlierRules_deny {d : Decision} (h : earlierRules tool = some d) : d.action = .deny := by
  obtain h | ⟨-, h⟩ := or_eq_some_iff.mp h
  · unfold availabilityRule at h
    split at h
    · obtain rfl := some.inj h
      rfl
    · obtain rfl := some.inj h
      rfl
    · cases h
  · unfold eligibilityRule at h
    split_ifs at h
    obtain rfl := some.inj h
    rfl

/-- What is added up at the end of the chain never denies. -/
theorem rulesDecision_ne_deny : (rulesDecision e call tool).action ≠ .deny := by
  have hadd : ∀ (d : Decision) (a : Action) (r : String) (codes labels : List String),
      (d.add a r codes labels).action = a := fun _ _ _ _ _ => rfl
  have h1 : (manifestApproval e tool { action := .allow }).action ≠ .deny := by
    unfold manifestApproval
    split_ifs <;> simp [hadd]
  have h2 : ∀ d, d.action ≠ .deny → (sideEffectApproval e tool d).action ≠ .deny := by
    intro d hd
    unfold sideEffectApproval
    dsimp only
    split_ifs <;> simp [hadd, hd]
  have h3 : ∀ d, d.action ≠ .deny → (communityApproval e tool d).action ≠ .deny := by
    intro d hd
    unfold communityApproval
    split_ifs <;> simp [hadd, hd]
  have h4 : ∀ d, d.action ≠ .deny → (dangerousToolApproval e call d).action ≠ .deny := by
    intro d hd
    unfold dangerousToolApproval
    split_ifs <;> simp [hadd, hd]
  have h5 : ∀ d, d.action ≠ .deny → (securityAuditApproval e call d).action ≠ .deny := by
    intro d hd
    unfold securityAuditApproval
    split_ifs
    · exact hd
    · simp
  exact h5 _ (h4 _ (h3 _ (h2 _ h1)))

theorem laterRules_deny_iff :
    (laterRules e call tool).action = .deny ↔ DeniedLater e call tool := by
  have hrules := rulesDecision_ne_deny e call tool
  unfold laterRules DeniedLater blockedCommandRule safeExecRule destructiveRule skillInstallRule
    securityAuditRule
  cases blockedBy e call with
  | some entry => simp
  | none =>
    cases isSafeExec e call with
    | true => simp
    | false =>
      cases e.config.denyDestructive <;> cases isSkillInstallTool call.toolName <;>
        by_cases hclass : normalizeSideEffectClass tool.manifest.sideEffectClass = "destructive" <;>
        by_cases hauto : normalizeSkillInstallPolicy e.config.skillInstallPolicy = "auto" <;>
        by_cases hdeny : normalizeSkillInstallPolicy e.config.skillInstallPolicy = "deny" <;>
        by_cases haudit : auditReasons e call = [] <;>
        simp_all

/-! ## What the grants change -/

/-- A denial of the engine without grants stands with the grants exactly if the call is not covered
    by a standing grant, or its tool is refused for itself, or no deny rule about the call applies;
    and a call that the grants say nothing about is decided as without them. -/
theorem denial_stands_iff (lib : Stdlib) (e : DefaultEngine) (call : ToolContext) :
    (((evaluateTool lib e.withoutGrants call).action = .deny →
        (evaluateTool lib e call).action = .deny) ↔
      (Granted lib e call → ∀ tool, normalizeTool call.tool = some tool →
        earlierRules tool = none → ¬ DeniedLater e call tool)) ∧
    (¬ Granted lib e call → ¬ GrantDenied lib e call →
      evaluateTool lib e call = evaluateTool lib e.withoutGrants call) := by
  unfold evaluateTool
  cases normalizeTool call.tool with
  | none => simp [DefaultEngine.withoutGrants]
  | some tool =>
    have hlater : laterRules e.withoutGrants call tool = laterRules e call tool := rfl
    have hgrants : grantRule lib e.withoutGrants call = none := rfl
    simp only [finalizeDecision_action, hgrants, hlater, some.injEq, forall_eq']
    cases earlierRules tool with
    | some d => simp
    | none =>
      simp only [none_or, getD_none, laterRules_deny_iff]
      obtain ⟨hdenied, hnot, d, hd, haction⟩ | ⟨hgranted, d, hd, haction⟩ | ⟨hdenied, hnot, hd⟩ :=
        grantRule_cases lib e call
      · simp [hd, haction, hnot, hdenied]
      · simp [hd, haction, hgranted]
      · simp [hd, hnot, laterRules_deny_iff]

/-- A grant of the shell for the session goes before the list of blocked commands. -/
theorem grant_allows_blocked_command :
    let engine : DefaultEngine :=
      { newDefaultEngine (fun _ => none) { blockedCommands := ["rm"] } with
        grants := some (({} : GrantStore).grantScoped "s" "exec.shell" .session {}) }
    let call : ToolContext :=
      { sessionID := "s", toolName := "exec.shell", input := [("command", .str "rm -rf /")]
        tool := .bound { manifest := { name := "exec.shell" }, eligibility := { eligible := true } } }
    let lib : Stdlib := ⟨fun _ => none, fun _ => none, fun s => s⟩
    (evaluateTool lib engine.withoutGrants call).action = .deny ∧
      (evaluateTool lib engine call).action = .allow := by
  decide +kernel

end Hopclaw.Policy
