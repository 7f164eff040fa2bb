import Hopclaw.Tools.Exec

/-! # What the allowlist of safe commands lets through

The allowlist is asked about the field `command` of an exec call and matches how the text begins.
What the tool executes is another text: `exec.run` starts the program of that name with arguments of
its own, `exec.shell` gives the whole text to a shell and `exec.script` runs another field. -/

namespace Hopclaw.Tools

open List GoStrings Approval Policy ShellWords ShellWords.Scanner Regexp.CharClass Regexp Except

/-- The programs that the default patterns name. -/
def safePrograms : List String :=
  ["ls", "cat", "head", "tail", "wc", "echo", "date", "whoami", "pwd", "uname", "env", "printenv",
    "git", "which", "file", "stat", "df", "du", "hostname", "uptime", "id", "groups"]

/-- The call executes one simple command of an allowlisted program that runs no other program, and
    the command is not blocked. -/
def Contained (e : DefaultEngine) (inv : Invocation) : Prop :=
  ∃ program args, inv.words = some (program :: args) ∧ program ∈ safePrograms ∧
    (program = "env" → envRunsProgram false args = false) ∧
    ∀ m ∈ e.blockedMatcher, m.blockedBy (join " " (program :: args)) = none

/-! ## The patterns -/

/-- The three shapes of the default patterns, after the program's name. -/
def patternTails : List Regexp.Expr :=
  let space := Regexp.Expr.atom .space
  let git := ["status", "log", "diff", "show", "branch", "tag", "remote"].foldr
    (fun s r => .alt (Regexp.literal (s.dropEnd 1).toString (.atom (.lit (s.toList.getLastD ' ')))) r)
    (Regexp.literal "rev-pars" (.atom (.lit 'e')))
  [space, .alt space .eol, .seq (.seq space (.star space)) (.seq git (.alt space .eol))]

theorem defaultSafePatterns_parse : ∀ p ∈ defaultSafePatterns, ∃ name ∈ safePrograms,
    ∃ tail ∈ patternTails, parse p = some (.seq .bol (literal name tail)) := by
  decide +kernel

variable {rest : List Char}

theorem patternTails_ends {tail : Regexp.Expr} (htail : tail ∈ patternTails) {b : Bool}
    (h : tail.ends ⟨b, rest⟩ ≠ []) : ∀ c ∈ rest.head?, space.accepts c = true := by
  have hspace : ∀ q ∈ (Regexp.Expr.atom .space).ends ⟨b, rest⟩,
      ∀ c ∈ rest.head?, space.accepts c = true := by
    intro q hq c hc
    obtain ⟨d, hd, hrest⟩ := ends_atom hq
    obtain rfl : d = c := by simpa [show rest = d :: q.rest from hrest] using hc
    exact hd
  simp only [patternTails, mem_cons, not_mem_nil, or_false] at htail
  obtain rfl | rfl | rfl := htail
  · obtain ⟨q, hq⟩ := exists_mem_of_ne_nil _ h
    exact hspace q hq
  · obtain ⟨q, hq⟩ := exists_mem_of_ne_nil _ h
    obtain hq | hq := mem_append.mp hq
    · exact hspace q hq
    · unfold Regexp.Expr.ends at hq
      split_ifs at hq with hrest
      · simp [show rest = [] from hrest]
      · cases hq
  · obtain ⟨q, hq, -⟩ := ends_seq h
    obtain ⟨q', hq', -⟩ := ends_seq (ne_nil_of_mem hq)
    exact hspace q' hq'

theorem isSpace_of_accepts {c : Char} (h : space.accepts c = true) : isSpace c = true := by
  simp only [accepts, Bool.or_eq_true, decide_eq_true_eq] at h
  obtain (((rfl | rfl) | rfl) | rfl) | rfl := h <;> decide

/-- A name that is a word of lower-case letters. -/
structure Lowercase (name : String) : Prop where
  nonempty : name.toList ≠ []
  nospace : ∀ c ∈ name.toList, isSpace c = false
  ordinary : ∀ c ∈ name.toList, ordinary c = true
  lower : name.toList.map lowerRune = name.toList

variable {name : String}

theorem safePrograms_lowercase (h : name ∈ safePrograms) : Lowercase name := by
  have hall : ∀ name ∈ safePrograms, name.toList ≠ [] ∧
      (name.toList.all fun c => !isSpace c) = true ∧
      name.toList.all ordinary = true ∧
      name.toList.map lowerRune = name.toList := by decide +kernel
  obtain ⟨hne, hspace, hordinary, hlower⟩ := hall name h
  exact ⟨hne, by simpa using hspace, by simpa using hordinary, hlower⟩

variable {text : String}

/-- The first word of a text that begins with a name and goes on, if at all, with space. -/
theorem Lowercase.first (hname : Lowercase name) (htext : text.toList = name.toList ++ rest)
    (hrest : ∀ c ∈ rest.head?, isSpace c = true) : (fields text).head? = some name := by
  rw [fields_eq, htext, words_append hname.nonempty hname.nospace hrest, map_cons,
    String.ofList_toList]
  rfl

/-- The first word of a text that the allowlist accepts is the name of one of its programs. -/
theorem isSafe_first {other : String → Option (String → Bool)} {command : String}
    (h : (newSafeCommandMatcher other defaultSafePatterns).isSafe command = true) :
    ∃ name ∈ safePrograms, (fields command).head? = some name := by
  simp only [SafeCommandMatcher.isSafe, newSafeCommandMatcher, Bool.and_eq_true, any_eq_true,
    mem_filterMap] at h
  obtain ⟨-, matchString, ⟨p, hp, hcompile⟩, hmatch⟩ := h
  obtain ⟨name, hname, tail, htail, hparse⟩ := defaultSafePatterns_parse p hp
  rw [compile, hparse] at hcompile
  obtain rfl := Option.some.inj hcompile
  obtain ⟨b, rest, htext, hends⟩ := ends_literal (ends_of_matchString_bol hmatch)
  rw [← fields_trimSpace]
  refine ⟨name, hname, (safePrograms_lowercase hname).first htext fun c hc => ?_⟩
  exact isSpace_of_accepts (patternTails_ends htail hends c hc)

/-! ## Blocked commands -/

theorem toList_join (name : String) (args : List String) : ∃ rest,
    (join " " (name :: args)).toList = name.toList ++ rest ∧ ∀ c ∈ rest.head?, c = ' ' := by
  cases args with
  | nil => exact ⟨[], (append_nil _).symm, by simp⟩
  | cons a as =>
    refine ⟨(" " ++ join " " (a :: as)).toList, ?_, by simp⟩
    rw [join, String.append_assoc, String.toList_append]

theorem first_join (hname : Lowercase name) (args : List String) :
    (fields (join " " (name :: args))).head? = some name := by
  obtain ⟨rest, htext, hrest⟩ := toList_join name args
  refine hname.first htext fun c hc => ?_
  rw [hrest c hc]
  decide

theorem first_normalizeBlockedCommand (hname : Lowercase name)
    (h : (fields text).head? = some name) :
    (fields (normalizeBlockedCommand text)).head? = some name := by
  obtain ⟨args, hfields⟩ := head?_eq_some_iff.mp h
  obtain ⟨rest, htext, hrest⟩ := toList_join name args
  rw [normalizeBlockedCommand, fields_trimSpace, hfields]
  have hlower : (toLower (join " " (name :: args))).toList =
      name.toList ++ rest.map lowerRune := by
    rw [toLower, String.toList_ofList, htext, map_append, hname.lower]
  refine hname.first hlower fun c hc => ?_
  rw [head?_map] at hc
  obtain ⟨d, hd, rfl⟩ := Option.map_eq_some_iff.mp hc
  rw [hrest d hd]
  decide

/-- A multi-word entry of the list that the text is under. -/
def underPrefix (m : BlockedCommandMatcher) (text : String) : Prop :=
  ∃ p ∈ m.prefixes, normalizeBlockedCommand text = p ∨
    hasPrefix (normalizeBlockedCommand text) (p ++ " ") = true

theorem blockedBy_none_iff {m : BlockedCommandMatcher} (hname : Lowercase name)
    (h : (fields text).head? = some name) :
    m.blockedBy text = none ↔ name ∉ m.names ∧ ¬ underPrefix m text := by
  obtain ⟨rest, hfields⟩ := head?_eq_some_iff.mp (first_normalizeBlockedCommand hname h)
  have hne : normalizeBlockedCommand text ≠ "" := by
    intro hempty
    rw [hempty, fields_eq] at hfields
    cases hfields
  unfold BlockedCommandMatcher.blockedBy underPrefix
  rw [if_neg hne, hfields]
  dsimp only
  split_ifs with hmem
  · simp [hmem]
  · rw [find?_eq_none]
    simp only [Bool.or_eq_true, decide_eq_true_eq, hmem, not_false_eq_true, true_and,
      not_exists, not_and]

/-! ## Calls that the allowlist lets through -/

/-- Where the decision names the allowlist, the command is not blocked and on the list. -/
def SafelySourced (e : DefaultEngine) (call : ToolContext) (d : Decision) : Prop :=
  trimSpace d.policySource = "policy.default_engine/safe_exec" →
    blockedBy e call = none ∧ isSafeExec e call = true

section Sources

variable {Q : Decision → Prop} {o o' : Option Decision} {d : Decision} {e : DefaultEngine}
  {call : ToolContext}

theorem forall_or (ho : ∀ x ∈ o, Q x) (ho' : ∀ x ∈ o', Q x) : ∀ x ∈ o.or o', Q x := by
  intro x hx
  obtain hx | ⟨-, hx⟩ := Option.or_eq_some_iff.mp hx
  · exact ho x hx
  · exact ho' x hx

theorem forall_getD (ho : ∀ x ∈ o, Q x) (hd : Q d) : Q (o.getD d) := by
  cases o with
  | none => exact hd
  | some x => exact ho x rfl

/-- A decision of another rule. -/
theorem sourced_of_other (rule : String) (h : d.policySource = "policy.default_engine/" ++ rule)
    (hrule : trimSpace ("policy.default_engine/" ++ rule) ≠ "policy.default_engine/safe_exec") :
    SafelySourced e call d :=
  fun hsafe => absurd (h ▸ hsafe) hrule

theorem earlierRules_sourced (tool : ResolvedTool) :
    ∀ d ∈ earlierRules tool, SafelySourced e call d := by
  refine forall_or (fun d hd => ?_) fun d hd => ?_
  · refine sourced_of_other "availability" ?_ (by decide +kernel)
    unfold availabilityRule at hd
    split at hd
    · exact Option.some.inj hd ▸ rfl
    · exact Option.some.inj hd ▸ rfl
    · cases hd
  · refine sourced_of_other "eligibility" ?_ (by decide +kernel)
    unfold eligibilityRule at hd
    split_ifs at hd
    · cases hd
    · exact Option.some.inj hd ▸ rfl

theorem grantRule_sourced (lib : Stdlib) : ∀ d ∈ grantRule lib e call, SafelySourced e call d := by
  intro d hd
  refine sourced_of_other "grant" ?_ (by decide +kernel)
  unfold grantRule at hd
  split at hd
  · cases hd
  · dsimp only at hd
    split_ifs at hd
    · cases hd
    · exact Option.some.inj hd ▸ rfl
    · exact Option.some.inj hd ▸ rfl
    · cases hd

theorem laterRules_sourced (e : DefaultEngine) (call : ToolContext) (tool : ResolvedTool) :
    SafelySourced e call (laterRules e call tool) := by
  unfold laterRules blockedCommandRule
  cases hblocked : blockedBy e call with
  | some entry => exact sourced_of_other "blocked_command" rfl (by decide +kernel)
  | none =>
    refine forall_getD (forall_or (forall_or (forall_or (forall_or ?_ ?_) ?_) ?_) ?_) ?_
    · simp
    · intro d hd
      unfold safeExecRule at hd
      split_ifs at hd with hsafe
      · obtain rfl := Option.some.inj hd
        exact fun _ => ⟨hblocked, hsafe⟩
      · cases hd
    · intro d hd
      refine sourced_of_other "destructive" ?_ (by decide +kernel)
      unfold destructiveRule at hd
      split_ifs at hd
      · exact Option.some.inj hd ▸ rfl
      · cases hd
    · intro d hd
      refine sourced_of_other "skill_install" ?_ (by decide +kernel)
      unfold skillInstallRule at hd
      split_ifs at hd
      · cases hd
      all_goals exact Option.some.inj hd ▸ rfl
    · intro d hd
      refine sourced_of_other "security_audit" ?_ (by decide +kernel)
      unfold securityAuditRule at hd
      split_ifs at hd
      · exact Option.some.inj hd ▸ rfl
      · cases hd
    · exact sourced_of_other "rules" rfl (by decide +kernel)

theorem SafelySourced.finalized (h : SafelySourced e call d)
    (hsafe : (finalizeDecision d).policySource = "policy.default_engine/safe_exec") :
    blockedBy e call = none ∧ isSafeExec e call = true := by
  have hrules : "policy.default_engine/rules" ≠ "policy.default_engine/safe_exec" := by decide
  unfold finalizeDecision at hsafe
  dsimp only at hsafe
  split_ifs at hsafe
  · exact absurd hsafe hrules
  · exact absurd hsafe hrules
  · exact h hsafe
  · exact h hsafe

/-- A decision that names the allowlist was made about a command that is on it and not blocked. -/
theorem evaluateTool_safeExec {lib : Stdlib}
    (h : (evaluateTool lib e call).policySource = "policy.default_engine/safe_exec") :
    blockedBy e call = none ∧ isSafeExec e call = true := by
  unfold evaluateTool at h
  refine SafelySourced.finalized ?_ h
  split
  · refine sourced_of_other "unknown_tool" ?_ (by decide +kernel)
    unfold unknownToolDecision
    split_ifs <;> rfl
  · rename_i tool _
    exact forall_getD (forall_or (earlierRules_sourced tool) (grantRule_sourced lib))
      (laterRules_sourced e call tool)

end Sources

/-! ## What the shell reads -/

/-- White space to a shell. Go has more of it. -/
def shellSpace (c : Char) : Bool :=
  blank c || c = '\n'

/-- The white space before the first word of the text and after it is white space to a shell. -/
def ReadAsWritten (text : String) : Prop :=
  (∀ c ∈ text.toList.takeWhile isSpace, shellSpace c = true) ∧
    ∀ c ∈ ((text.toList.dropWhile isSpace).dropWhile fun c => !isSpace c).head?, shellSpace c = true

/-- Other white space is a character like any other to a shell. -/
theorem ordinary_of_space {c : Char} (h : isSpace c = true) (hshell : shellSpace c = false) :
    ordinary c = true := by
  have hne : ∀ d : Char, isSpace d = false → c ≠ d := by
    rintro d hd rfl
    rw [h] at hd
    cases hd
  simp only [shellSpace, Bool.or_eq_false_iff, decide_eq_false_iff_not] at hshell
  simp only [ordinary, operator, hshell.1, Bool.and_eq_true, Bool.not_eq_true',
    decide_eq_true_eq, decide_eq_false_iff_not, mem_cons, not_mem_nil, or_false, not_or]
  refine ⟨⟨⟨⟨⟨⟨trivial, hshell.2⟩, ?_⟩, ?_⟩, ?_⟩, ?_⟩, ?_⟩
  · refine ⟨?_, ?_, ?_, ?_, ?_, ?_, ?_, ?_⟩ <;> exact hne _ (by decide)
  all_goals exact hne _ (by decide)

variable {args : List String}

variable {program : String}

section Shell

variable {name text : String} {lead rest : List Char} {words : List String}

/-- The words begin with what the scanner has read of the first one. -/
theorem scan_first {before after : List Char} {s : Scanner} {v : List Char}
    (htext : text.toList = before ++ after) (hbefore : run {} before = some s)
    (hfirst : s.first = some v) (hscan : scan text = some words) :
    ∃ program args, words = program :: args ∧ v <+: program.toList ∧
      (s.words.head? = some v → program.toList = v) := by
  rw [scan, htext, run_append, hbefore] at hscan
  obtain ⟨ws, hws, rfl⟩ := Option.map_eq_some_iff.mp hscan
  obtain ⟨t, ht, hfinish⟩ := Option.bind_eq_some_iff.mp hws
  have hgrows := (grows_run ht).trans (grows_finish hfinish)
  obtain ⟨v', hv', hpre⟩ := hgrows.extends_ v hfirst
  rw [first, Option.toList_none, append_nil] at hv'
  obtain ⟨rest, rfl⟩ := head?_eq_some_iff.mp hv'
  refine ⟨String.ofList v', rest.map String.ofList, rfl, ?_, fun hcomplete => ?_⟩
  · rwa [String.toList_ofList]
  · rw [String.toList_ofList]
    exact Option.some.inj (hgrows.complete v hcomplete)

theorem run_name (hname : Lowercase name) (hspace : ∀ c ∈ lead, shellSpace c = true) :
    run {} (lead ++ name.toList) = some { current := some name.toList } := by
  rw [run_append, run_blanks fun c hc => by
    simpa [shellSpace] using hspace c hc]
  exact run_ordinary hname.ordinary hname.nonempty

/-- A text that is read as written begins with the name for the shell too. -/
theorem scan_eq_name (hname : Lowercase name) (htext : text.toList = lead ++ name.toList ++ rest)
    (hspace : ∀ c ∈ lead, shellSpace c = true) (hnext : ∀ c ∈ rest.head?, shellSpace c = true)
    (hscan : scan text = some words) : ∃ args, words = name :: args := by
  have hlead := run_name hname hspace
  cases rest with
  | nil =>
    have hone : scan text = some [name] := by
      rw [scan, htext, append_nil, hlead]
      simp [finish, flush]
    exact ⟨[], Option.some.inj (hscan.symm.trans hone)⟩
  | cons c rest =>
    -- the space after the name completes the first word
    obtain ⟨s, hs, hwords⟩ : ∃ s, step { current := some name.toList } c = some s ∧
        s.words.head? = some name.toList := by
      have hc := hnext c rfl
      simp only [shellSpace, Bool.or_eq_true, decide_eq_true_eq] at hc
      obtain hblank | rfl := hc
      · refine ⟨flush { current := some name.toList }, ?_, rfl⟩
        show stepPlain _ c = _
        rw [stepPlain, if_pos hblank]
      · exact ⟨_, rfl, rfl⟩
    have hbefore : run {} (lead ++ name.toList ++ [c]) = some s := by
      rw [run_append, hlead]
      show run _ [c] = _
      rw [run_cons, hs]
      rfl
    have hfirst : s.first = some name.toList := by
      obtain ⟨ws, hws⟩ := head?_eq_some_iff.mp hwords
      rw [first, hws]
      rfl
    obtain ⟨program, args, rfl, -, hprogram⟩ := scan_first
      (by rw [htext, append_cons]) hbefore hfirst hscan
    exact ⟨args, by rw [String.toList_injective (hprogram hwords)]⟩

/-- A text whose first word is a program's name for the shell is read as written. -/
theorem read_of_scan (hname : Lowercase name) (hprogram : Lowercase program)
    (htext : text.toList = lead ++ name.toList ++ rest) (hleading : ∀ c ∈ lead, isSpace c = true)
    (hrest : ∀ c ∈ rest.head?, isSpace c = true)
    (hscan : scan text = some (program :: args)) :
    (∀ c ∈ lead, shellSpace c = true) ∧ ∀ c ∈ rest.head?, shellSpace c = true := by
  -- white space that the shell reads as part of the first word would be in the program's name
  have hread : ∀ (before after : List Char) (cur : Option (List Char)) (c : Char),
      text.toList = before ++ c :: after → run {} before = some { current := cur } →
      isSpace c = true → shellSpace c = true := by
    intro before after cur c hcut hbefore hc
    by_contra hshell
    have hordinary := ordinary_of_space hc (by simpa using hshell)
    have hstep : run {} (before ++ [c]) =
        some { current := some (cur.getD [] ++ [c]) } := by
      rw [run_append, hbefore]
      show run _ [c] = _
      rw [run_cons, step, stepPlain_ordinary hordinary]
      rfl
    obtain ⟨program', args', hwords, hpre, -⟩ := scan_first (hcut.trans (append_cons ..))
      hstep rfl hscan
    obtain ⟨rfl, -⟩ := cons.inj hwords
    have hmem : c ∈ program.toList := hpre.subset (by simp)
    rw [hprogram.nospace c hmem] at hc
    cases hc
  have hspace : ∀ c ∈ lead, shellSpace c = true := by
    cases hdrop : lead.dropWhile shellSpace with
    | nil => exact fun c hc => dropWhile_eq_nil_iff.mp hdrop c hc
    | cons c after =>
      have hlead : lead = lead.takeWhile shellSpace ++ c :: after := by
        rw [← hdrop, takeWhile_append_dropWhile]
      have hc : shellSpace c = true := by
        refine hread (lead.takeWhile shellSpace) (after ++ name.toList ++ rest) none c ?_ ?_ ?_
        · rw [htext]
          nth_rewrite 1 [hlead]
          simp
        · refine run_blanks fun d hd => ?_
          simpa [shellSpace] using mem_takeWhile_imp hd
        · exact hleading c (by rw [hlead]; simp)
      have hhead := head?_dropWhile_not shellSpace lead
      rw [hdrop] at hhead
      simp [hc] at hhead
  refine ⟨hspace, fun c hc => ?_⟩
  obtain ⟨after, rfl⟩ := head?_eq_some_iff.mp hc
  exact hread _ after _ c htext (run_name hname hspace) (hrest c rfl)

end Shell

/-! ## What is contained -/

/-- For a call that the allowlist lets through, what has to be true of the input for the command it
    executes to be contained. `exec.run` must be given a name without white space. The text of
    `exec.shell` must be one simple command to the shell, with white space around its first word
    that is white space to a shell too. Where the program is `env`, its arguments must name no
    program, and no entry of several words on the list of blocked commands may match the words
    that are executed. Of `exec.script` nothing is known beforehand. -/
def Fits (e : DefaultEngine) : Invocation → Prop
  | .command name args =>
    (∀ c ∈ name.toList, isSpace c = false) ∧
      (name = "env" → envRunsProgram false args = false) ∧
      ∀ m ∈ e.blockedMatcher, ¬ underPrefix m (join " " (name :: args))
  | .shell _ text =>
    ReadAsWritten text ∧ ∃ words, scan text = some words ∧
      (words.head? = some "env" → envRunsProgram false words.tail = false) ∧
      ∀ m ∈ e.blockedMatcher, ¬ underPrefix m (join " " words)
  | .script interpreter text => Contained e (.script interpreter text)

variable {inv : Invocation}

/-- A command of a program that is not blocked by its name is blocked by an entry of several words
    or not at all. -/
theorem contained_iff_of_program {e : DefaultEngine} (hwords : inv.words = some (program :: args))
    (hprogram : program ∈ safePrograms) (hname : ∀ m ∈ e.blockedMatcher, program ∉ m.names) :
    Contained e inv ↔ (program = "env" → envRunsProgram false args = false) ∧
      ∀ m ∈ e.blockedMatcher, ¬ underPrefix m (join " " (program :: args)) := by
  have hblocked : ∀ m : BlockedCommandMatcher, m.blockedBy (join " " (program :: args)) = none ↔
      program ∉ m.names ∧ ¬ underPrefix m (join " " (program :: args)) := fun m =>
    blockedBy_none_iff (safePrograms_lowercase hprogram)
      (first_join (safePrograms_lowercase hprogram) args)
  constructor
  · rintro ⟨program', args', hwords', -, henv, hnone⟩
    obtain ⟨rfl, rfl⟩ := cons.inj (Option.some.inj (hwords.symm.trans hwords'))
    exact ⟨henv, fun m hm => ((hblocked m).mp (hnone m hm)).2⟩
  · rintro ⟨henv, hnone⟩
    exact ⟨program, args, hwords, hprogram, henv, fun m hm =>
      (hblocked m).mpr ⟨hname m hm, hnone m hm⟩⟩

theorem requiredString_ok {input : List (String × Value)} {key : String}
    (h : requiredString input key = .ok text) : Value.index input key = .str text := by
  simp only [requiredString, bind, Except.bind] at h
  split at h
  · cases h
  · rename_i value hvalue
    split_ifs at h with hblank
    · cases h
    obtain rfl := ok.inj h
    cases hv : Value.index input key with
    | str s =>
      rw [hv] at hvalue
      rw [ok.inj hvalue]
    | null =>
      rw [hv] at hvalue
      obtain rfl : "" = value := ok.inj hvalue
      exact absurd trimSpace_empty hblank
    | _ =>
      rw [hv] at hvalue
      cases hvalue

/-- What an exec call starts: its field `command`, unless it is a script. -/
theorem invocation_cases {checks : List (String × Value) → Except Err Unit} {envShell : String}
    {call : ToolContext} (h : invocation checks envShell call = .ok inv) :
    (∃ name args, Value.index call.input "command" = .str name ∧ inv = .command name args) ∨
    (∃ shell text, Value.index call.input "command" = .str text ∧ inv = .shell shell text) ∨
    ∃ interpreter text, inv = .script interpreter text := by
  unfold invocation at h
  dsimp only at h
  split_ifs at h
  · rw [handleRun, bind_eq_ok] at h
    obtain ⟨name, hname, h⟩ := h
    obtain ⟨args, -, h⟩ := bind_eq_ok.mp h
    obtain ⟨_, -, h⟩ := bind_eq_ok.mp h
    exact .inl ⟨name, args, requiredString_ok hname, (ok.inj h).symm⟩
  · rw [handleShell, bind_eq_ok] at h
    obtain ⟨text, htext, h⟩ := h
    obtain ⟨_, -, h⟩ := bind_eq_ok.mp h
    exact .inr (.inl ⟨_, text, requiredString_ok htext, (ok.inj h).symm⟩)
  · rw [handleScript, bind_eq_ok] at h
    obtain ⟨text, -, h⟩ := h
    obtain ⟨_, -, h⟩ := bind_eq_ok.mp h
    exact .inr (.inr ⟨_, _, (ok.inj h).symm⟩)
  · cases h

/-- The engine of the examples, with `rm` on the list of blocked commands, and a call of a tool. -/
def rmBlocked : Config :=
  { blockedCommands := ["rm"] }

def execCall (toolName : String) (input : List (String × Value)) : ToolContext :=
  { toolName, input
    tool := .bound { manifest := { name := toolName, sideEffectClass := "destructive" }
                     eligibility := { eligible := true } } }

def noStdlib : Stdlib :=
  ⟨fun _ => none, fun _ => none, fun s => s⟩

end Hopclaw.Tools
