import Hopclaw.Proofs.GrantPrecedence
import Hopclaw.Proofs.SafeExec

/-! # Which blocked commands are denied

The list of blocked commands is compared with the field `command` of an exec call alone, from the
beginning of its text. The arguments of `exec.run` stand in another field, and a text for the shell
may hold more than one command. -/

namespace Hopclaw.Tools

open GoStrings Approval Policy

/-- The simple commands of a call, as words. A text for the shell is cut at its operators. -/
def Invocation.simpleCommands : Invocation → List (List String)
  | .command name args => [name :: args]
  | .shell _ text => (text.toList.splitOnP fun c => ShellWords.operator c || c = '\n').map
      fun command => fields (String.ofList command)
  | .script .. => []

/-- One of the simple commands starts with the words of an entry of the list. -/
def StartsBlocked (cfg : Config) (inv : Invocation) : Prop :=
  ∃ entry ∈ cfg.blockedCommands.map normalizeBlockedCommand, entry ≠ "" ∧
    ∃ words ∈ inv.simpleCommands, fields entry <+: words.map toLower

theorem isSkillInstallTool_of_invocation {checks : List (String × Value) → Except Err Unit}
    {envShell : String} {call : ToolContext} {inv : Invocation}
    (h : invocation checks envShell call = .ok inv) : isSkillInstallTool call.toolName = false := by
  unfold invocation at h
  dsimp only at h
  split_ifs at h with hrun hshell hscript
  · simp [isSkillInstallTool, hrun]
  · simp [isSkillInstallTool, hshell]
  · simp [isSkillInstallTool, hscript]
  · cases h

/-- A call that starts with the words of a blocked entry is denied exactly if its tool is refused
    for itself, if its field `command` alone is under an entry of the list, or if destructive tools
    are denied, the command is not on the allowlist, and the tool is one or the audit finds a risk. -/
theorem blocked_call_denied_iff (lib : Stdlib) (other : String → Option (String → Bool))
    (cfg : Config) (auditor : Option (String → List (String × Value) → List SecurityRisk))
    (checks : List (String × Value) → Except Err Unit) (envShell : String) (call : ToolContext)
    (inv : Invocation) (hinv : invocation checks envShell call = .ok inv) :
    let e : DefaultEngine := { newDefaultEngine other cfg with grants := some {}, auditor }
    (StartsBlocked cfg inv → (evaluateTool lib e call).action = .deny) ↔
      (StartsBlocked cfg inv → normalizeTool call.tool = none ∧ cfg.allowUnknownTools = false ∨
        ∃ tool, normalizeTool call.tool = some tool ∧ ((∃ d, earlierRules tool = some d) ∨
          (∃ entry, blockedBy e call = some entry) ∨
          isSafeExec e call = false ∧ cfg.denyDestructive = true ∧
            (normalizeSideEffectClass tool.manifest.sideEffectClass = "destructive" ∨
              auditReasons e call ≠ []))) := by
  intro e
  have hgrants : grantRule lib e call = none := by simp [grantRule, e, GrantStore.evaluate]
  have hinstall := isSkillInstallTool_of_invocation hinv
  refine imp_congr_right fun _ => ?_
  rw [evaluateTool, finalizeDecision_action]
  cases normalizeTool call.tool with
  | none =>
    have hconfig : e.config.allowUnknownTools = cfg.allowUnknownTools := rfl
    simp only [unknownToolDecision, hconfig]
    split_ifs with hallow <;> simp [hallow]
  | some tool =>
    simp only [hgrants, Option.or_none]
    cases hearlier : earlierRules tool with
    | some d => simp [hearlier, earlierRules_deny tool hearlier]
    | none =>
      have hconfig : e.config.denyDestructive = cfg.denyDestructive := rfl
      simp only [Option.getD_none, laterRules_deny_iff, DeniedLater, hinstall, hconfig,
        Option.some.injEq, exists_eq_left', hearlier]
      simp [and_or_left]

theorem removal_is_denied : (evaluateTool noStdlib
    { newDefaultEngine (fun _ => none) rmBlocked with grants := some {}, auditor := none }
    (execCall "exec.run" [("command", .str "rm"), ("args", .strs ["-r"])])).action = .deny :=
  (blocked_call_denied_iff noStdlib (fun _ => none) rmBlocked none (fun _ => .ok ()) "" _
    (.command "rm" ["-r"]) (by decide +kernel)).mpr
    (fun _ => .inr ⟨_, rfl, .inr (.inl ⟨"rm", by decide +kernel⟩)⟩)
    ⟨"rm", by decide +kernel, by decide, _, List.mem_singleton_self _, by decide +kernel⟩

/-- The arguments of `exec.run` are not looked at. -/
theorem arguments_are_not_looked_at :
    invocation (fun _ => .ok ()) ""
        (execCall "exec.run" [("command", .str "git"), ("args", .strs ["push"])]) =
      .ok (.command "git" ["push"]) ∧
    StartsBlocked { blockedCommands := ["git push"] } (.command "git" ["push"]) ∧
    (evaluateTool noStdlib { newDefaultEngine (fun _ => none) { blockedCommands := ["git push"] }
      with grants := some {} }
      (execCall "exec.run" [("command", .str "git"), ("args", .strs ["push"])])).action =
        .allow := by
  unfold StartsBlocked
  decide +kernel

end Hopclaw.Tools
