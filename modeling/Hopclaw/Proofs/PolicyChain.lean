import Hopclaw.Policy.Chain

/-! # The strictest layer wins

What a chain of policy engines answers, compared with the answers of its layers. Its action is the
strictest of the actions the layers give literally, whatever their order. An action with blanks
around it is read as the action without them when a decision is normalized, and is not found when
priorities are compared. The merged approval policy is as narrow as the narrowest of those that are
given; a layer that gives none does not count. -/

namespace Hopclaw.Policy

open List GoStrings Approval RawDecision Policy.Action Option
open ApprovalPolicy (normalizedScope)

/-! ## What the layers answer -/

/-- The answer of a layer, if it has an engine. -/
def Layer.answer (layer : Layer) (call : ToolContext) : Except Err (Option RawDecision) :=
  match layer.engine with
  | none => .ok none
  | some evaluateTool => (evaluateTool call).map some

/-- The layers give these decisions, in this order. -/
inductive Answers (call : ToolContext) : List Layer → List RawDecision → Prop
  | nil : Answers call [] []
  | skip {layer : Layer} {layers : List Layer} {ds : List RawDecision}
      (engine : layer.answer call = .ok none) (rest : Answers call layers ds) :
      Answers call (layer :: layers) ds
  | decide {layer : Layer} {layers : List Layer} {d : RawDecision} {ds : List RawDecision}
      (engine : layer.answer call = .ok (some d)) (rest : Answers call layers ds) :
      Answers call (layer :: layers) (d :: ds)

/-- The action a decision is meant to have. -/
def RawDecision.reads (d : RawDecision) : Action :=
  ofText (trimSpace d.action)

/-- Deny over require approval over allow. -/
def strictest (actions : List Action) : Action :=
  if .deny ∈ actions then .deny
  else if .requireApproval ∈ actions then .requireApproval
  else .allow

/-- The broadest scope a policy leaves to an approval: once, if it is not set. -/
def effectiveMaxScope (policy : Option ApprovalPolicy) : Scope :=
  match policy.map ApprovalPolicy.normalized with
  | none => .once
  | some p => p.maxScope.orElse .once

/-- The approval policy of a decision, if it says anything. -/
def RawDecision.policy (d : RawDecision) : Option ApprovalPolicy :=
  (d.approvalPolicy.map ApprovalPolicy.normalized).filter fun p => !p.empty

/-! ## Actions -/

theorem Action.ofText_normalized (d : RawDecision) :
    ofText d.normalized.action = ofText d.action := by
  have hdeny : trimSpace "deny" = "deny" := trimSpace_text .deny
  have happroval : trimSpace "require_approval" = "require_approval" :=
    trimSpace_text .requireApproval
  simp only [normalized]
  split_ifs with h
  · rfl
  · -- a text that is one of the two would have been read as such
    simp only [Bool.or_eq_true, decide_eq_true_eq, not_or] at h
    have h1 : d.action ≠ "deny" := fun heq => h.2 (heq ▸ hdeny)
    have h2 : d.action ≠ "require_approval" := fun heq => h.1 (heq ▸ happroval)
    simp [ofText, h1, h2]

theorem Action.actionPriority_text (action : Action) :
    actionPriority action.text = match action with
      | .allow => 0
      | .requireApproval => 1
      | .deny => 2 := by
  cases action <;> rfl

theorem actionPriority_eq (text : String) :
    actionPriority text = actionPriority (ofText text).text := by
  unfold ofText
  split_ifs with hdeny happroval
  · rw [hdeny]
    rfl
  · rw [happroval]
    rfl
  · simp [actionPriority, hdeny, happroval, Action.text]

/-- A text that counts as more than `allow` is the text of the action. -/
theorem Action.text_ofText {text : String} (h : ofText text ≠ .allow) :
    (ofText text).text = text := by
  unfold ofText at h ⊢
  split_ifs at h ⊢ with hdeny happroval
  · exact hdeny.symm
  · exact happroval.symm
  · exact absurd rfl h

theorem strictest_append (actions : List Action) (action : Action) :
    strictest (actions ++ [action]) =
      if actionPriority (strictest actions).text < actionPriority action.text then action
      else strictest actions := by
  unfold strictest
  cases action <;> simp only [mem_append] <;> split_ifs <;>
    simp_all [actionPriority_text]

theorem strictest_perm {actions actions' : List Action} (h : actions.Perm actions') :
    strictest actions = strictest actions' := by
  simp only [strictest, h.mem_iff]

theorem Action.actionPriority_injective {a b : Action}
    (h : actionPriority a.text = actionPriority b.text) : a = b := by
  cases a <;> cases b <;> simp_all [actionPriority_text]

theorem strictest_le_iff {actions : List Action} {n : ℕ} :
    actionPriority (strictest actions).text ≤ n ↔
      ∀ action ∈ actions, actionPriority action.text ≤ n := by
  constructor
  · intro h action haction
    refine le_trans ?_ h
    unfold strictest
    cases action <;> split_ifs <;> simp_all [actionPriority_text]
  · intro h
    have hdeny := h .deny
    have happroval := h .requireApproval
    unfold strictest
    split_ifs <;> simp_all [actionPriority_text]

theorem strictest_mem {actions : List Action} (h : strictest actions ≠ .allow) :
    strictest actions ∈ actions := by
  unfold strictest at h ⊢
  split_ifs at h ⊢ <;> simp_all

/-- An action counts as what it is meant to be, or as `allow`. -/
theorem RawDecision.ofText_action (d : RawDecision) :
    ofText d.action = .allow ∨ ofText d.action = d.reads := by
  by_cases hallow : ofText d.action = .allow
  · exact .inl hallow
  · refine .inr ?_
    rw [reads, ← text_ofText hallow, trimSpace_text]

/-! ## Approval policies -/

/-- A scope that is set, in its normal form. -/
structure Settled (scope : Scope) : Prop where
  set : scope ≠ .unset
  normal : normalizeScope scope = .ok scope

theorem normalizeScope_normalizedScope (scope : Scope) :
    normalizeScope (normalizedScope scope) = .ok (normalizedScope scope) := by
  cases scope with
  | other text =>
    simp only [normalizedScope, normalizeScope]
    split_ifs <;> rfl
  | _ => rfl

variable {p : ApprovalPolicy}

/-- A normal policy that says anything has a maximal scope. -/
theorem settled_of_nonempty (h : p.normalized.empty = false) : Settled p.normalized.maxScope := by
  have hdefault := normalizeScope_normalizedScope p.defaultScope
  have hmax := normalizeScope_normalizedScope p.maxScope
  simp only [ApprovalPolicy.normalized] at h ⊢
  by_cases hset : normalizedScope p.maxScope = .unset
  · by_cases hset' : normalizedScope p.defaultScope = .unset
    · simp [ApprovalPolicy.empty, hset, hset', isScopeBroader, scopeRank] at h
    · simp only [hset, hset', decide_true, ne_eq, not_false_eq_true, Bool.and_self]
      exact ⟨hset', hdefault⟩
  · simp only [hset, decide_false, Bool.false_and, Bool.false_eq_true]
    exact ⟨hset, hmax⟩

theorem normalized_maxScope (h : Settled p.maxScope) : p.normalized.maxScope = p.maxScope := by
  have hmax : normalizedScope p.maxScope = p.maxScope := by
    rw [normalizedScope, h.normal]
  simp [ApprovalPolicy.normalized, hmax, h.set]

theorem not_empty_of_settled (h : Settled p.maxScope) : p.normalized.empty = false := by
  simp [ApprovalPolicy.empty, normalized_maxScope h, h.set]

/-- Of two scopes that are set the narrower one is taken, the first of equal ones. -/
theorem narrowerScopeOrOnce_settled {a b : Scope} (ha : Settled a) (hb : Settled b) :
    narrowerScopeOrOnce [a, b] = if scopeRank b < scopeRank a then b else a := by
  have hchecked : narrowerScopeChecked [a, b] =
      .ok (if scopeRank b < scopeRank a then b else a) := by
    simp only [narrowerScopeChecked, foldlM_cons, foldlM_nil, ha.normal, hb.normal, bind,
      Except.bind, pure, Except.pure, if_neg ha.set, if_neg hb.set, true_or]
    by_cases hlt : scopeRank b < scopeRank a
    · simp [hlt]
    · simp [hlt, ha.set]
  rw [narrowerScopeOrOnce, hchecked]

/-- The policy, if there is one, leaves a scope of at least this rank. -/
def AtLeast (n : ℕ) (policy : Option ApprovalPolicy) : Prop :=
  ∀ p ∈ policy, n ≤ scopeRank p.maxScope

/-- What merging the policies of some layers gives is as broad as the narrowest of them. -/
structure MergedPolicy (policies : List (Option ApprovalPolicy)) (merged : Option ApprovalPolicy) :
    Prop where
  settled : ∀ p ∈ merged, Settled p.maxScope
  atLeast_iff : ∀ n, AtLeast n merged ↔ ∀ policy ∈ policies, AtLeast n policy

/-- Of two policies the narrower one is kept. -/
theorem mergeApprovalPolicies_spec {a b : Option ApprovalPolicy} (ha : ∀ p ∈ a, Settled p.maxScope)
    (hb : ∀ p ∈ b, Settled p.maxScope) :
    (∀ p ∈ mergeApprovalPolicies a b, Settled p.maxScope) ∧
      ∀ n, AtLeast n (mergeApprovalPolicies a b) ↔ AtLeast n a ∧ AtLeast n b := by
  -- the normal form of a policy that has a maximal scope is kept, and with it the scope
  have hkept : ∀ p : ApprovalPolicy, Settled p.maxScope →
      (∀ q ∈ (some p.normalized).filter fun p => !p.empty, Settled q.maxScope) ∧
        ∀ n, AtLeast n ((some p.normalized).filter fun p => !p.empty) ↔
          n ≤ scopeRank p.maxScope := by
    intro p hp
    have hmax := normalized_maxScope hp
    simp [AtLeast, not_empty_of_settled hp, hmax, hp]
  cases a with
  | none =>
    cases b with
    | none => exact ⟨nofun, fun n => iff_of_true nofun ⟨nofun, nofun⟩⟩
    | some q =>
      obtain ⟨hsettled, hiff⟩ := hkept q (hb q rfl)
      exact ⟨hsettled, fun n => (hiff n).trans (by simp [AtLeast])⟩
  | some p =>
    have hp := ha p rfl
    cases b with
    | none =>
      obtain ⟨hsettled, hiff⟩ := hkept p hp
      exact ⟨hsettled, fun n => (hiff n).trans (by simp [AtLeast])⟩
    | some q =>
      have hmax := narrowerScopeOrOnce_settled hp (hb q rfl)
      obtain ⟨hsettled, hiff⟩ := hkept
        { defaultScope := narrowerScopeOrOnce [p.defaultScope, q.defaultScope]
          maxScope := narrowerScopeOrOnce [p.maxScope, q.maxScope] }
        (by rw [hmax]; split_ifs; exacts [hb q rfl, hp])
      refine ⟨hsettled, fun n => (hiff n).trans ?_⟩
      simp only [AtLeast, mem_some_iff, forall_eq', hmax]
      split_ifs <;> omega

theorem MergedPolicy.merge {policies : List (Option ApprovalPolicy)}
    {current next : Option ApprovalPolicy} (h : MergedPolicy policies current)
    (hnext : ∀ p ∈ next, Settled p.maxScope) :
    MergedPolicy (policies ++ [next]) (mergeApprovalPolicies current next) := by
  obtain ⟨hsettled, hiff⟩ := mergeApprovalPolicies_spec h.settled hnext
  refine ⟨hsettled, fun n => ?_⟩
  rw [hiff, h.atLeast_iff]
  simp [or_imp, forall_and]

theorem RawDecision.policy_settled {d : RawDecision} (h : p ∈ d.policy) : Settled p.maxScope := by
  obtain ⟨hmap, hempty⟩ := filter_eq_some_iff.mp h
  obtain ⟨q, -, rfl⟩ := map_eq_some_iff.mp hmap
  exact settled_of_nonempty (by simpa using hempty)

/-! ## The loop -/

/-- What the loop has found out after these decisions. -/
structure Merged (ds : List RawDecision) (s : ChainState) : Prop where
  action : s.final.action = (strictest (ds.map fun d => ofText d.action)).text
  priority : s.winningPriority = actionPriority s.final.action
  policy : MergedPolicy (ds.map policy) s.final.approvalPolicy
  evaluated : s.evaluated = false → ds = []

theorem merged_start : Merged [] {} :=
  ⟨rfl, rfl, ⟨nofun, fun _ => iff_of_true nofun nofun⟩, fun _ => rfl⟩

variable {ds : List RawDecision}

theorem Merged.merge {s : ChainState} (h : Merged ds s) (layer : Layer) (d : RawDecision) :
    Merged (ds ++ [d]) (s.merge layer d.normalized) := by
  have hpolicy : (s.merge layer d.normalized).final.approvalPolicy =
      mergeApprovalPolicies s.final.approvalPolicy d.policy := by
    simp only [ChainState.merge]
    split_ifs <;> rfl
  have haction : (s.merge layer d.normalized).final.action =
      if s.winningPriority < actionPriority d.normalized.action then d.normalized.action
      else s.final.action := by
    simp only [ChainState.merge]
    split_ifs <;> rfl
  have hpriority : actionPriority d.normalized.action =
      actionPriority (ofText d.action).text := by
    rw [actionPriority_eq, ofText_normalized]
  refine ⟨?_, ?_, ?_, fun hfalse => absurd hfalse (by simp [ChainState.merge])⟩
  · rw [haction, map_append, map_singleton, strictest_append, h.priority, h.action, hpriority]
    split_ifs with hlt
    · -- what beats another action is not `allow`, so it is given literally
      have hne : ofText d.normalized.action ≠ .allow := by
        intro hallow
        rw [← ofText_normalized, hallow] at hlt
        simp [actionPriority_text] at hlt
      rw [← text_ofText hne, ofText_normalized]
    · rfl
  · rw [haction]
    simp only [ChainState.merge, h.priority]
    split_ifs with hlt <;> omega
  · rw [hpolicy, map_append]
    exact h.policy.merge fun p hp => policy_settled hp

theorem chainStep_eq (call : ToolContext) (s : ChainState) (layer : Layer) :
    chainStep call s layer = (layer.answer call).map fun answer =>
      match answer with
      | none => s
      | some d => s.merge layer d.normalized := by
  unfold chainStep Layer.answer
  cases layer.engine with
  | none => rfl
  | some evaluateTool =>
    dsimp only
    cases evaluateTool call <;> rfl

variable {call : ToolContext}

theorem Merged.foldlM {layers : List Layer} {ds' : List RawDecision} {s : ChainState}
    (hanswers : Answers call layers ds') (h : Merged ds s) :
    ∃ s', layers.foldlM (chainStep call) s = .ok s' ∧ Merged (ds ++ ds') s' := by
  induction hanswers generalizing ds s with
  | nil => exact ⟨s, rfl, by simpa using h⟩
  | skip hanswer _ ih =>
    obtain ⟨s', hs', hmerged⟩ := ih h
    refine ⟨s', ?_, hmerged⟩
    rw [foldlM_cons, chainStep_eq, hanswer]
    exact hs'
  | @decide layer layers d ds' hanswer _ ih =>
    obtain ⟨s', hs', hmerged⟩ := ih (h.merge layer d)
    refine ⟨s', ?_, by simpa using hmerged⟩
    rw [foldlM_cons, chainStep_eq, hanswer]
    exact hs'

/-! ## The answer -/

/-- A policy that is set leaves its maximal scope. -/
theorem effectiveMaxScope_some (h : Settled p.maxScope) :
    effectiveMaxScope (some p) = p.maxScope := by
  simp [effectiveMaxScope, normalized_maxScope h, Scope.orElse, h.set]

/-- An empty policy is none. -/
theorem effectiveMaxScope_policy (d : RawDecision) :
    effectiveMaxScope d.approvalPolicy = effectiveMaxScope d.policy := by
  cases hp : d.approvalPolicy with
  | none => simp [policy, hp]
  | some p =>
    cases hempty : p.normalized.empty with
    | true =>
      have hunset : p.normalized.maxScope = .unset := by
        simp only [ApprovalPolicy.empty, Bool.and_eq_true, decide_eq_true_eq] at hempty
        exact hempty.2
      simp [policy, hp, Option.filter, hempty, effectiveMaxScope, hunset, Scope.orElse]
    | false =>
      have hsettled := settled_of_nonempty hempty
      have hpolicy : d.policy = some p.normalized := by
        simp [policy, hp, hempty]
      rw [hpolicy, effectiveMaxScope_some hsettled]
      simp [effectiveMaxScope, Scope.orElse, hsettled.set]

theorem RawDecision.finalizeDecision_text (action : Action) {d : RawDecision}
    (h : d.action = action.text) : d.finalizeDecision.action = action.text := by
  rw [finalizeDecision_action]
  simp only [normalized, h, trimSpace_text]
  cases action <;> rfl

/-- The chain answers with the strictest of the actions that are given literally, and if that asks
    for an approval, with the merged policy. -/
theorem evaluateTool_answer {e : ChainEngine} (h : Answers call e.layers ds) :
    ∃ d, e.evaluateTool call = .ok d ∧
      d.action = (strictest (ds.map fun d => ofText d.action)).text ∧
      (d.action = "require_approval" → ∃ policy, MergedPolicy (ds.map RawDecision.policy) policy ∧
        effectiveMaxScope d.approvalPolicy = effectiveMaxScope policy) := by
  unfold ChainEngine.evaluateTool
  by_cases hnil : e.layers = []
  · rw [hnil] at h
    cases h
    rw [if_pos hnil]
    refine ⟨_, rfl, finalizeDecision_text .allow rfl, fun happroval => ?_⟩
    exact absurd ((finalizeDecision_text .allow rfl).symm.trans happroval) (by decide)
  · rw [if_neg hnil]
    obtain ⟨s, hs, hmerged⟩ := Merged.foldlM h merged_start
    rw [nil_append] at hmerged
    refine ⟨s.decision, by rw [hs]; rfl, ?_⟩
    unfold ChainState.decision
    cases hev : s.evaluated with
    | false =>
      rw [hmerged.evaluated hev]
      refine ⟨finalizeDecision_text .allow rfl, fun happroval => ?_⟩
      exact absurd ((finalizeDecision_text .allow rfl).symm.trans happroval) (by decide)
    | true =>
      simp only [if_true]
      have haction := finalizeDecision_text _ (d := { s.final with
        policyLayers := dedupePolicyLayers s.layerSources
        approvalPolicy :=
          if s.final.action ≠ "require_approval" then none else s.final.approvalPolicy })
        hmerged.action
      refine ⟨haction, fun happroval => ⟨s.final.approvalPolicy, hmerged.policy, ?_⟩⟩
      rw [haction, ← hmerged.action] at happroval
      rw [finalizeDecision_approvalPolicy]
      exact (effectiveMaxScope_policy { s.final with
        approvalPolicy :=
          if s.final.action ≠ "require_approval" then none else s.final.approvalPolicy }).symm.trans
        (by rw [if_neg (not_not.mpr happroval)])

/-! ## Other chains -/

theorem Answers.perm {layers layers' : List Layer} (hperm : layers.Perm layers') :
    ∀ {ds : List RawDecision}, Answers call layers ds →
      ∃ ds', Answers call layers' ds' ∧ ds.Perm ds' := by
  induction hperm with
  | nil => exact fun {ds} h => ⟨ds, h, List.Perm.refl _⟩
  | cons layer _ ih =>
    intro ds h
    cases h with
    | skip engine rest =>
      obtain ⟨ds', h', hds⟩ := ih rest
      exact ⟨ds', .skip engine h', hds⟩
    | decide engine rest =>
      obtain ⟨ds', h', hds⟩ := ih rest
      exact ⟨_, .decide engine h', hds.cons _⟩
  | swap layer layer' layers =>
    intro ds h
    cases h with
    | skip engine rest =>
      cases rest with
      | skip engine' rest => exact ⟨_, .skip engine' (.skip engine rest), List.Perm.refl _⟩
      | decide engine' rest => exact ⟨_, .decide engine' (.skip engine rest), List.Perm.refl _⟩
    | decide engine rest =>
      cases rest with
      | skip engine' rest => exact ⟨_, .skip engine' (.decide engine rest), List.Perm.refl _⟩
      | decide engine' rest => exact ⟨_, .decide engine' (.decide engine rest), List.Perm.swap _ _ _⟩
  | trans _ _ ih ih' =>
    intro ds h
    obtain ⟨ds', h', hds⟩ := ih h
    obtain ⟨ds'', h'', hds'⟩ := ih' h'
    exact ⟨ds'', h'', hds.trans hds'⟩

theorem Answers.insert {pre post : List Layer} {layer : Layer} {answer : Option RawDecision}
    (h : Answers call (pre ++ post) ds) (hlayer : layer.answer call = .ok answer) :
    ∃ ds', Answers call (pre ++ layer :: post) ds' ∧ ds ⊆ ds' := by
  have hperm : (layer :: (pre ++ post)).Perm (pre ++ layer :: post) := perm_middle.symm
  cases answer with
  | none =>
    obtain ⟨ds', h', hds⟩ := (Answers.skip hlayer h).perm hperm
    exact ⟨ds', h', hds.subset⟩
  | some d =>
    obtain ⟨ds', h', hds⟩ := (Answers.decide hlayer h).perm hperm
    exact ⟨ds', h', fun _ hmem => hds.subset (mem_cons_of_mem _ hmem)⟩

/-! ## The law -/

/-- The action is the strictest of those the layers mean, in whatever order they come; another layer
    does not make it less strict; and the scope that is left to an approval is no broader than the
    one any layer leaves that asks for approval. -/
structure StrictestWins (e : ChainEngine) (call : ToolContext) (ds : List RawDecision) : Prop where
  strictest : (e.evaluateTool call).map action =
    .ok (strictest (ds.map reads)).text
  order : ∀ e' : ChainEngine, e.layers.Perm e'.layers →
    (e'.evaluateTool call).map action = (e.evaluateTool call).map action
  added : ∀ pre layer post answer, e.layers = pre ++ post → layer.answer call = .ok answer →
    ∃ d d', e.evaluateTool call = .ok d ∧
      ChainEngine.evaluateTool ⟨pre ++ layer :: post⟩ call = .ok d' ∧
      actionPriority d.action ≤ actionPriority d'.action
  scope : ∀ d, e.evaluateTool call = .ok d → d.action = requireApproval.text →
    ∀ d' ∈ ds, d'.reads = .requireApproval →
      isScopeBroader (effectiveMaxScope d.approvalPolicy) (effectiveMaxScope d'.approvalPolicy) =
        false

/-- No action is meant but `allow`, or a layer gives the strictest one without blanks around it. -/
def GivenLiterally (ds : List RawDecision) : Prop :=
  strictest (ds.map reads) = .allow ∨
    ∃ d ∈ ds, d.action = (strictest (ds.map reads)).text

/-- Where a layer asks for approval and gives no policy, no layer gives one, or one of the policies
    is as narrow as if nothing were given. -/
def PoliciesSuffice (ds : List RawDecision) : Prop :=
  strictest (ds.map reads) = .requireApproval →
    (∃ d ∈ ds, d.reads = .requireApproval ∧ d.policy = none) →
      (∀ d ∈ ds, d.policy = none) ∨ ∃ d ∈ ds, ∃ p ∈ d.policy, scopeRank p.maxScope ≤ scopeRank .once

instance (ds : List RawDecision) : Decidable (GivenLiterally ds) :=
  inferInstanceAs (Decidable (_ ∨ ∃ _ ∈ _, _))

instance (ds : List RawDecision) : Decidable (PoliciesSuffice ds) :=
  inferInstanceAs (Decidable (_ → (∃ _ ∈ _, _) → (∀ _ ∈ _, _) ∨ ∃ _ ∈ _, ∃ _ ∈ _, _))

/-- The literal actions are as strict as those that are meant exactly if the strictest is given
    literally. -/
theorem strictest_literal_iff (ds : List RawDecision) :
    strictest (ds.map fun d => ofText d.action) = strictest (ds.map reads) ↔
      GivenLiterally ds := by
  have hle : actionPriority (strictest (ds.map fun d => ofText d.action)).text ≤
      actionPriority (strictest (ds.map reads)).text := by
    rw [strictest_le_iff]
    intro action haction
    obtain ⟨d, hd, rfl⟩ := mem_map.mp haction
    rcases d.ofText_action with hallow | hreads
    · rw [hallow]
      exact Nat.zero_le _
    · rw [hreads]
      exact strictest_le_iff.mp le_rfl _ (mem_map_of_mem hd)
  constructor
  · intro heq
    by_cases hallow : strictest (ds.map reads) = .allow
    · exact .inl hallow
    · rw [← heq] at hallow
      obtain ⟨d, hd, hdaction⟩ := mem_map.mp (strictest_mem hallow)
      refine .inr ⟨d, hd, ?_⟩
      rw [← heq, ← hdaction]
      exact (text_ofText (hdaction ▸ hallow)).symm
  · rintro (hallow | ⟨d, hd, haction⟩)
    · refine actionPriority_injective (le_antisymm hle ?_)
      rw [hallow, actionPriority_text]
      exact Nat.zero_le _
    · refine actionPriority_injective (le_antisymm hle ?_)
      have hmem : strictest (ds.map reads) ∈ ds.map fun d => ofText d.action :=
        mem_map.mpr ⟨d, hd, by rw [haction, ofText_text]⟩
      exact strictest_le_iff.mp le_rfl _ hmem

/-- A merged policy is no broader than what the layers that ask for approval leave exactly if it is
    as narrow as the default wherever one of them gives no policy. -/
theorem merged_no_broader_iff {policy : Option ApprovalPolicy}
    (h : MergedPolicy (ds.map RawDecision.policy) policy) :
    (∀ d' ∈ ds, d'.reads = .requireApproval →
      scopeRank (effectiveMaxScope policy) ≤ scopeRank (effectiveMaxScope d'.approvalPolicy)) ↔
    ((∃ d ∈ ds, d.reads = .requireApproval ∧ d.policy = none) →
      (∀ d ∈ ds, d.policy = none) ∨
        ∃ d ∈ ds, ∃ p ∈ d.policy, scopeRank p.maxScope ≤ scopeRank .once) := by
  have hnone : scopeRank (effectiveMaxScope none) = scopeRank .once := rfl
  have hle : ∀ n, AtLeast n policy ↔ ∀ d ∈ ds, ∀ p ∈ d.policy, n ≤ scopeRank p.maxScope := by
    intro n
    rw [h.atLeast_iff]
    simp [AtLeast]
  cases policy with
  | none =>
    have hall : ∀ d ∈ ds, d.policy = none := by
      refine fun d hd => eq_none_iff_forall_ne_some.mpr fun p hp => ?_
      exact absurd ((hle (scopeRank p.maxScope + 1)).mp nofun d hd p hp) (by omega)
    refine iff_of_true (fun d hd _ => ?_) fun _ => .inl hall
    rw [effectiveMaxScope_policy, hall d hd]
  | some merged =>
    rw [effectiveMaxScope_some (h.settled merged rfl)]
    simp only [AtLeast, mem_some_iff, forall_eq'] at hle
    constructor
    · rintro hbroad ⟨d, hd, hreads, hnopolicy⟩
      have hd' := hbroad d hd hreads
      rw [effectiveMaxScope_policy, hnopolicy] at hd'
      refine .inr ?_
      by_contra hnarrow
      push Not at hnarrow
      exact absurd ((hle (scopeRank .once + 1)).mpr hnarrow) (by omega)
    · intro hsuffice d hd hreads
      rw [effectiveMaxScope_policy]
      cases hdp : d.policy with
      | some q =>
        rw [effectiveMaxScope_some (policy_settled hdp)]
        exact (hle _).mp le_rfl d hd q hdp
      | none =>
        rcases hsuffice ⟨d, hd, hreads, hdp⟩ with hall | ⟨d', hd', q, hq, hqrank⟩
        · exact absurd ((hle (scopeRank merged.maxScope + 1)).mpr fun d hd p hp => by
            simp [hall d hd] at hp) (by omega)
        · exact ((hle _).mp le_rfl d' hd' q hq).trans hqrank

/-- A chain keeps the law exactly if the strictest action is given literally and, where approval is
    asked for, a layer without a policy is not alone in its strictness. -/
theorem strictest_wins_iff (e : ChainEngine) (call : ToolContext) (ds : List RawDecision)
    (h : Answers call e.layers ds) :
    StrictestWins e call ds ↔ GivenLiterally ds ∧ PoliciesSuffice ds := by
  obtain ⟨d, hd, haction, hscope⟩ := evaluateTool_answer h
  have hmap : (e.evaluateTool call).map RawDecision.action =
      .ok (strictest (ds.map fun d => ofText d.action)).text := by
    rw [hd, ← haction]
    rfl
  have hstrictest : (e.evaluateTool call).map action =
      .ok (strictest (ds.map reads)).text ↔ GivenLiterally ds := by
    rw [hmap, ← strictest_literal_iff]
    constructor
    · intro heq
      exact actionPriority_injective (congrArg actionPriority (Except.ok.inj heq))
    · intro heq
      rw [heq]
  have hsuffice : GivenLiterally ds → ((∀ d, e.evaluateTool call = .ok d →
      d.action = requireApproval.text → ∀ d' ∈ ds, d'.reads = .requireApproval →
        isScopeBroader (effectiveMaxScope d.approvalPolicy)
          (effectiveMaxScope d'.approvalPolicy) = false) ↔ PoliciesSuffice ds) := by
    intro hliteral
    have heq := (strictest_literal_iff ds).mpr hliteral
    unfold PoliciesSuffice
    simp only [hd, Except.ok.injEq, forall_eq', haction, heq, not_isScopeBroader_iff]
    by_cases happroval : strictest (ds.map reads) = .requireApproval
    · rw [happroval] at heq ⊢
      obtain ⟨policy, hmerged, hpolicy⟩ := hscope (haction.trans (by rw [heq]; rfl))
      simp only [forall_const, hpolicy]
      exact merged_no_broader_iff hmerged
    · refine iff_of_true (fun htext => absurd ?_ happroval) fun heq' => absurd heq' happroval
      exact actionPriority_injective (congrArg actionPriority htext)
  constructor
  · intro hlaw
    have hliteral := hstrictest.mp hlaw.strictest
    exact ⟨hliteral, (hsuffice hliteral).mp hlaw.scope⟩
  · rintro ⟨hliteral, hpolicies⟩
    refine ⟨hstrictest.mpr hliteral, fun e' hperm => ?_, fun pre layer post answer hlayers ha => ?_,
      (hsuffice hliteral).mpr hpolicies⟩
    · obtain ⟨ds', h', hds⟩ := h.perm hperm
      obtain ⟨d', hd', haction', -⟩ := evaluateTool_answer h'
      rw [hmap, strictest_perm (hds.map fun d => ofText d.action), hd', ← haction']
      rfl
    · obtain ⟨ds', h', hsub⟩ := (hlayers ▸ h : Answers call (pre ++ post) ds).insert ha
      obtain ⟨d', hd', haction', -⟩ := evaluateTool_answer h'
      refine ⟨d, d', hd, hd', ?_⟩
      rw [haction, haction', strictest_le_iff]
      intro action hmem
      exact strictest_le_iff.mp le_rfl action (map_subset _ hsub hmem)

/-- A layer that gives the same decision about every call. -/
def fixedLayer (name : String) (d : RawDecision) : Layer where
  name
  engine := some fun _ => .ok d

/-- A base layer that leaves approvals to a session, and an overlay that asks for single ones. -/
def overlayDecisions : List RawDecision :=
  [{ action := "require_approval", approvalPolicy := some { maxScope := .session } },
    { action := "require_approval", approvalPolicy := some { defaultScope := .once } },
    { action := " allow " }]

theorem strictest_wins_overlay :
    Answers { toolName := "fs.write" } (overlayDecisions.map (fixedLayer "layer"))
        overlayDecisions ∧
      StrictestWins ⟨overlayDecisions.map (fixedLayer "layer")⟩ { toolName := "fs.write" }
        overlayDecisions := by
  have hanswers : Answers { toolName := "fs.write" } (overlayDecisions.map (fixedLayer "layer"))
      overlayDecisions := .decide rfl (.decide rfl (.decide rfl .nil))
  exact ⟨hanswers, (strictest_wins_iff _ _ _ hanswers).mpr (by decide +kernel)⟩

/-- A layer that denies, with a blank before the word. -/
def blankDenial : List RawDecision :=
  [{ action := " deny" }]

/-- A layer that asks for approval and gives no policy, and one that leaves approvals open-ended. -/
def openEndedApproval : List RawDecision :=
  [{ action := "require_approval" },
    { action := "require_approval", approvalPolicy := some { maxScope := .always } }]

/-- The denial is overlooked, and the approval may be given for always. -/
theorem chain_overlooks_blank_denial_and_missing_policy :
    ¬ StrictestWins ⟨blankDenial.map (fixedLayer "layer")⟩ { toolName := "fs.write" } blankDenial ∧
      ¬ StrictestWins ⟨openEndedApproval.map (fixedLayer "layer")⟩ { toolName := "fs.write" }
        openEndedApproval := by
  constructor
  · intro h
    have hmeant : strictest (blankDenial.map reads) = .deny := by decide +kernel
    have hallow : (ChainEngine.evaluateTool ⟨blankDenial.map (fixedLayer "layer")⟩
        { toolName := "fs.write" }).map action = .ok "allow" := by decide +kernel
    have heq := hallow.symm.trans h.strictest
    rw [hmeant] at heq
    exact absurd (Except.ok.inj heq) (by decide)
  · intro h
    obtain ⟨d, hd, haction, hbroad⟩ : ∃ d, ChainEngine.evaluateTool
        ⟨openEndedApproval.map (fixedLayer "layer")⟩ { toolName := "fs.write" } = .ok d ∧
        d.action = requireApproval.text ∧
        isScopeBroader (effectiveMaxScope d.approvalPolicy) .once = true := by
      exact ⟨_, rfl, by decide +kernel, by decide +kernel⟩
    have hlaw := h.scope d hd haction { action := "require_approval" } (by decide +kernel)
      (by decide +kernel)
    exact absurd (hbroad.symm.trans hlaw) (by simp)

end Hopclaw.Policy
