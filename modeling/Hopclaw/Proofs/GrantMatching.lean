import Hopclaw.Domain.Maps
import Hopclaw.Proofs.GrantPrecedence
import Hopclaw.Proofs.ScopePaths

/-! # What a standing grant covers

A scope is matched kind by kind: of every kind of resource that the recorded call touched, the later
call has to touch some, each within a recorded one. A kind that the recorded call did not touch is
not restricted, so a grant reaches further than the call it was given for; and a denial, which is
matched by the same rule, does not hold of a call that touches anything besides what is denied. -/

namespace Hopclaw.Approval

open List GoStrings ResourceScope

/-! ## Normal scopes -/

/-- The values a scope lists for a parameter. -/
def ResourceScope.values (s : ResourceScope) (key : String) : List String :=
  (s.parameters.lookup key).getD []

/-- Keys in normal form, each with at least one value. -/
def NormalEntry (e : Sigma fun _ : String => List String) : Prop :=
  e.1 ≠ "" ∧ trimSpace (toLower e.1) = e.1 ∧ Deduped e.2 ∧ e.2 ≠ []

/-- The scope is in the form `Normalized` returns. -/
structure NormalScope (s : ResourceScope) : Prop where
  paths : Deduped s.pathPrefixes
  hosts : Deduped s.hosts
  commands : Deduped s.commandPrefixes
  parameters : ∀ e ∈ s.parameters.entries, NormalEntry e

variable {l : List String}

theorem normalizeStrings_eq (h : Deduped l) : normalizeStrings l = l := by
  have hmap : l.map trimSpace = l := by
    conv_rhs => rw [← map_id l]
    exact map_congr_left fun s hs => h.trimmed s hs
  rw [normalizeStrings, hmap, filter_eq_self]
  exact fun s hs => decide_eq_true (h.nonblank s hs)

theorem dedupe_normalizeStrings (h : Deduped l) : dedupeStrings (normalizeStrings l) = l := by
  rw [normalizeStrings_eq h, h.dedupeStrings_eq]

/-- One turn of the loop of `normalizeParameters`. -/
def addParameter (out : Parameters) (e : Sigma fun _ : String => List String) : Parameters :=
  let key := trimSpace (toLower e.1)
  let values := dedupeStrings (normalizeStrings e.2)
  if key = "" || values = [] then out else out.insert key values

theorem normalizeParameters_eq (params : Parameters) :
    normalizeParameters params = params.entries.foldl addParameter ∅ :=
  rfl

theorem normalEntry_addParameter {out : Parameters} (hout : ∀ e ∈ out.entries, NormalEntry e)
    (e : Sigma fun _ : String => List String) : ∀ x ∈ (addParameter out e).entries, NormalEntry x := by
  unfold addParameter
  dsimp only
  split_ifs with hskip
  · exact hout
  · simp only [Bool.or_eq_true, decide_eq_true_eq, not_or] at hskip
    intro x hx
    rw [AList.entries_insert, mem_cons] at hx
    rcases hx with rfl | hx
    · exact ⟨hskip.1, by rw [toLower_trimSpace_toLower, trimSpace_trimSpace],
        deduped_dedupeStrings _, hskip.2⟩
    · exact hout x ((kerase_sublist _ _).mem hx)

theorem normalScope_normalized (s : ResourceScope) : NormalScope s.normalized where
  paths := deduped_dedupeStrings _
  hosts := deduped_dedupeStrings _
  commands := deduped_dedupeStrings _
  parameters := by
    show ∀ e ∈ (normalizeParameters s.parameters).entries, NormalEntry e
    exact List.foldlRecOn (motive := fun out : Parameters => ∀ e ∈ out.entries, NormalEntry e)
      s.parameters.entries addParameter (by simp) fun _ hout e _ => normalEntry_addParameter hout e

theorem addParameter_normal {e : Sigma fun _ : String => List String} (he : NormalEntry e)
    (out : Parameters) : addParameter out e = out.insert e.1 e.2 := by
  obtain ⟨hblank, hkey, hvalues, hne⟩ := he
  simp only [addParameter, hkey, dedupe_normalizeStrings hvalues, hblank, hne, decide_false,
    Bool.or_self, Bool.false_eq_true, if_false]

/-- Normal parameters are looked up as before after another normalization. -/
theorem lookup_normalizeParameters {params : Parameters}
    (h : ∀ e ∈ params.entries, NormalEntry e) (key : String) :
    (normalizeParameters params).lookup key = params.lookup key := by
  have hloop : ∀ (es : List (Sigma fun _ : String => List String)), es.NodupKeys →
      (∀ e ∈ es, NormalEntry e) → ∀ out : Parameters,
        (es.foldl addParameter out).lookup key = (es.dlookup key).or (out.lookup key) := by
    intro es
    induction es with
    | nil => simp
    | cons e es ih =>
      intro hnodup hnormal out
      obtain ⟨hfresh, hnodup⟩ := nodupKeys_cons.mp hnodup
      rw [foldl_cons, ih hnodup fun x hx => hnormal x (mem_cons_of_mem _ hx),
        addParameter_normal (hnormal e mem_cons_self), Maps.lookup_insert_if]
      obtain ⟨k, values⟩ := e
      by_cases hkey : key = k
      · subst hkey
        rw [dlookup_cons_eq, dlookup_eq_none.mpr hfresh, if_pos rfl]
        rfl
      · rw [if_neg hkey, dlookup_cons_ne _ _ hkey]
  rw [normalizeParameters_eq, hloop _ params.nodupKeys h ∅]
  simp [AList.lookup]

namespace NormalScope

variable {s r : ResourceScope}

theorem normalized_paths (h : NormalScope s) : s.normalized.pathPrefixes = s.pathPrefixes :=
  dedupe_normalizeStrings h.paths

theorem normalized_hosts (h : NormalScope s) : s.normalized.hosts = s.hosts :=
  dedupe_normalizeStrings h.hosts

theorem normalized_commands (h : NormalScope s) :
    s.normalized.commandPrefixes = s.commandPrefixes :=
  dedupe_normalizeStrings h.commands

theorem normalized_values (h : NormalScope s) (key : String) :
    s.normalized.values key = s.values key :=
  congrArg (Option.getD · []) (lookup_normalizeParameters h.parameters key)

/-- A parameter that is listed has values. -/
theorem entries_eq_nil_iff (h : NormalScope s) :
    s.parameters.entries = [] ↔ ∀ key, s.values key = [] := by
  constructor
  · intro hnil key
    simp [values, AList.lookup, hnil]
  · intro hvalues
    by_contra hne
    obtain ⟨e, he⟩ := exists_mem_of_ne_nil _ hne
    have hlookup := AList.mem_lookup_iff.mpr he
    have hvalue := hvalues e.1
    rw [values, Option.mem_def.mp hlookup] at hvalue
    exact (h.parameters e he).2.2.2 hvalue

end NormalScope

/-! ## Matching, kind by kind -/

/-- Every value requested is within an allowed one, and there is one if any is allowed. -/
def AllWithin (within : String → String → Bool) (allowed requested : List String) : Prop :=
  allowed ≠ [] → requested ≠ [] ∧ ∀ r ∈ requested, ∃ a ∈ allowed, within a r = true

/-- Of each kind of resource that the first scope lists, the second one lists some, all of them
    within those of the first. -/
@[mk_iff]
structure CoversAll (granted request : ResourceScope) : Prop where
  paths : AllWithin pathWithinScope granted.pathPrefixes request.pathPrefixes
  hosts : AllWithin hostMatches granted.hosts request.hosts
  commands : AllWithin commandMatches granted.commandPrefixes request.commandPrefixes
  parameters : ∀ key, AllWithin exactMatch (granted.values key) (request.values key)

/-- Some resource of the second scope is within one of the first, or the first is not restricted. -/
def CoversSome (granted request : ResourceScope) : Prop :=
  granted.empty = true ∨
    (∃ r ∈ request.pathPrefixes, ∃ a ∈ granted.pathPrefixes, pathWithinScope a r = true) ∨
    (∃ r ∈ request.hosts, ∃ a ∈ granted.hosts, hostMatches a r = true) ∨
    (∃ r ∈ request.commandPrefixes, ∃ a ∈ granted.commandPrefixes, commandMatches a r = true) ∨
    ∃ key, ∃ r ∈ request.values key, ∃ a ∈ granted.values key, exactMatch a r = true

variable {within : String → String → Bool}

theorem allRequestValuesAllowed_iff {allowed requested : List String} :
    allRequestValuesAllowed allowed requested within = true ↔
      AllWithin within allowed requested := by
  unfold allRequestValuesAllowed AllWithin
  split_ifs with hallowed hrequested
  · simp [hallowed]
  · simp [hallowed, hrequested]
  · simp [hallowed, hrequested]

/-- The guard before a kind that is not listed says nothing more. -/
theorem unlisted_or_iff {allowed requested : List String} :
    (decide (allowed = []) || allRequestValuesAllowed allowed requested within) = true ↔
      AllWithin within allowed requested := by
  rw [Bool.or_eq_true, decide_eq_true_eq, allRequestValuesAllowed_iff]
  exact ⟨fun h hne => h.elim (fun hnil => absurd hnil hne) fun h => h hne, .inr⟩

variable {s : ResourceScope}

theorem parameters_iff {r : ResourceScope} (hs : NormalScope s) (hr : NormalScope r) :
    (decide (s.parameters.entries = []) || (decide (r.parameters.entries ≠ []) &&
        s.parameters.entries.all fun e =>
          allRequestValuesAllowed e.2 ((r.parameters.lookup e.1).getD []) exactMatch)) = true ↔
      ∀ key, AllWithin exactMatch (s.values key) (r.values key) := by
  have hall : (s.parameters.entries.all fun e =>
      allRequestValuesAllowed e.2 ((r.parameters.lookup e.1).getD []) exactMatch) = true ↔
      ∀ key, AllWithin exactMatch (s.values key) (r.values key) := by
    simp only [all_eq_true, allRequestValuesAllowed_iff]
    constructor
    · intro h key hne
      cases hlookup : s.parameters.lookup key with
      | none => simp [values, hlookup] at hne
      | some values =>
        have hmem : (⟨key, values⟩ : Sigma fun _ : String => List String) ∈ s.parameters.entries :=
          AList.mem_lookup_iff.mp hlookup
        simpa [ResourceScope.values, hlookup] using
          h _ hmem (hs.parameters _ hmem).2.2.2
    · intro h e he
      have hlookup : s.parameters.lookup e.1 = some e.2 := AList.mem_lookup_iff.mpr he
      simpa [ResourceScope.values, hlookup] using h e.1
  rw [Bool.or_eq_true, Bool.and_eq_true, hall, decide_eq_true_eq, decide_eq_true_eq,
    hs.entries_eq_nil_iff, Ne, hr.entries_eq_nil_iff]
  constructor
  · rintro (hnil | ⟨-, h⟩)
    · exact fun key hne => absurd (hnil key) hne
    · exact h
  · intro h
    by_cases hnil : ∀ key, s.values key = []
    · exact .inl hnil
    · push Not at hnil
      obtain ⟨key, hkey⟩ := hnil
      exact .inr ⟨fun hr => (h key hkey).1 (hr key), h⟩

theorem NormalScope.empty_iff (h : NormalScope s) : s.empty = true ↔
    s.pathPrefixes = [] ∧ s.hosts = [] ∧ s.commandPrefixes = [] ∧ ∀ key, s.values key = [] := by
  have hvalues : s.normalized.parameters.entries = [] ↔ ∀ key, s.values key = [] := by
    rw [(normalScope_normalized s).entries_eq_nil_iff]
    exact forall_congr' fun key => by rw [h.normalized_values key]
  simp only [empty, h.normalized_paths, h.normalized_hosts, h.normalized_commands,
    Bool.and_eq_true, decide_eq_true_eq, hvalues, and_assoc]

theorem matchesRequest_iff (s r : ResourceScope) :
    s.matchesRequest r = true ↔ CoversAll s.normalized r.normalized := by
  have hs := normalScope_normalized s
  unfold matchesRequest
  dsimp only
  split_ifs with hempty
  · -- a scope without resources restricts nothing
    obtain ⟨hpaths, hhosts, hcommands, hvalues⟩ := hs.empty_iff.mp hempty
    simp [coversAll_iff, AllWithin, hpaths, hhosts, hcommands, hvalues]
  · rw [Bool.and_eq_true, Bool.and_eq_true, Bool.and_eq_true,
      parameters_iff hs (normalScope_normalized r), allRequestPathsWithin, unlisted_or_iff,
      unlisted_or_iff, unlisted_or_iff, coversAll_iff, and_assoc, and_assoc]

/-- Normalizing a normal scope does not change what it lists. -/
theorem NormalScope.coversAll_left {r : ResourceScope} (hs : NormalScope s) :
    CoversAll s.normalized r ↔ CoversAll s r := by
  simp only [coversAll_iff, hs.normalized_paths, hs.normalized_hosts, hs.normalized_commands,
    hs.normalized_values]

theorem NormalScope.coversAll_right {r : ResourceScope} (hr : NormalScope r) :
    CoversAll s r.normalized ↔ CoversAll s r := by
  simp only [coversAll_iff, hr.normalized_paths, hr.normalized_hosts, hr.normalized_commands,
    hr.normalized_values]

variable {lib : Stdlib} {toolName : String} {input : List (String × Value)}

theorem normalScope_fromToolCall : NormalScope (resourceScopeFromToolCall lib toolName input) :=
  normalScope_normalized _

theorem matchesCall_iff (s : ResourceScope) : s.matchesCall lib toolName input = true ↔
    CoversAll s.normalized (resourceScopeFromToolCall lib toolName input) := by
  rw [matchesCall, matchesRequest_iff, normalScope_fromToolCall.coversAll_right]

/-! ## Grants -/

/-- The record because of which `Evaluate` grants a call that no record denies. -/
def GrantStore.grantingRecord (lib : Stdlib) (g : GrantStore) (sessionID toolName : String)
    (input : List (String × Value)) : Option GrantRecord :=
  (g.session sessionID toolName).find? fun r =>
    (r.scope = .session || r.scope = .always) && r.resourceScope.matchesCall lib toolName input

/-- The same command, or the same with further arguments. -/
def continuesCommand (granted request : String) : Bool :=
  request = granted || hasPrefix request (granted ++ " ")

/-- Every resource of the second scope is one of the first, or one below or after it. -/
structure Includes (granted request : ResourceScope) : Prop where
  paths : ∀ r ∈ request.pathPrefixes, ∃ a ∈ granted.pathPrefixes,
    InSubtree (normalizeScopePath a) (normalizeScopePath r)
  hosts : ∀ r ∈ request.hosts, ∃ a ∈ granted.hosts, hostMatches a r = true
  commands : ∀ r ∈ request.commandPrefixes, ∃ a ∈ granted.commandPrefixes,
    continuesCommand a r = true
  parameters : ∀ key, ∀ r ∈ request.values key, ∃ a ∈ granted.values key, exactMatch a r = true

/-- The second scope lists no kind of resource that the first does not; the paths are such that
    `pathWithinScope` decides rightly; and no command goes on within a word of another. -/
structure Comparably (granted request : ResourceScope) : Prop where
  paths : granted.pathPrefixes = [] → request.pathPrefixes = []
  hosts : granted.hosts = [] → request.hosts = []
  commands : granted.commandPrefixes = [] → request.commandPrefixes = []
  parameters : ∀ key, granted.values key = [] → request.values key = []
  comparable : ∀ a ∈ granted.pathPrefixes, ∀ r ∈ request.pathPrefixes,
    Comparable (normalizeScopePath a) (normalizeScopePath r)
  words : ∀ a ∈ granted.commandPrefixes, ∀ r ∈ request.commandPrefixes,
    hasPrefix r a = true → continuesCommand a r = true

theorem AllWithin.all {allowed requested : List String} (h : AllWithin within allowed requested)
    (hkind : allowed = [] → requested = []) :
    ∀ r ∈ requested, ∃ a ∈ allowed, within a r = true := by
  by_cases hallowed : allowed = []
  · simp [hkind hallowed]
  · exact (h hallowed).2

theorem CoversAll.includes {r : ResourceScope} (h : CoversAll s r) (hs : NormalScope s)
    (hr : NormalScope r) (hc : Comparably s r) : Includes s r where
  paths x hx := by
    obtain ⟨a, ha, hwithin⟩ := h.paths.all hc.paths x hx
    exact ⟨a, ha, (right_iff_comparable.mpr (hc.comparable a ha x hx)).mp hwithin⟩
  hosts := h.hosts.all hc.hosts
  commands x hx := by
    obtain ⟨a, ha, hmatch⟩ := h.commands.all hc.commands x hx
    refine ⟨a, ha, hc.words a ha x hx ?_⟩
    simp only [commandMatches, hs.commands.trimmed a ha, hr.commands.trimmed x hx,
      Bool.and_eq_true] at hmatch
    exact hmatch.2
  parameters key := (h.parameters key).all (hc.parameters key)

instance : DecidableEq Parameters := fun a b =>
  decidable_of_iff (a.entries = b.entries) AList.ext_iff.symm

deriving instance DecidableEq for ResourceScope, GrantRecord

def bareStdlib : Stdlib where
  urlHostname _ := none
  splitHost _ := none
  sha256Hex s := s

/-- A standing grant for the call in one session. -/
def grantFor (toolName : String) (approved : List (String × Value)) : GrantStore :=
  ({} : GrantStore).grantScoped "s" toolName .session
    (resourceScopeFromToolCall bareStdlib toolName approved)

/-- A record of the session for the tool with one of the scopes covers the call. -/
def Covered (covers : ResourceScope → ResourceScope → Prop) (scopes : List Scope) (lib : Stdlib)
    (g : GrantStore) (sessionID toolName : String) (input : List (String × Value)) : Prop :=
  ∃ r ∈ g.session sessionID toolName, r.scope ∈ scopes ∧
    covers r.resourceScope.normalized (resourceScopeFromToolCall lib toolName input)

/-- A denial of one of the resources of a call keeps the call from being granted exactly if some
    denial covers all of the call or no grant does. -/
theorem denied_resource_iff (g : GrantStore) (sessionID : String) :
    (Covered CoversSome [.deny] lib g sessionID toolName input →
        (g.evaluate lib sessionID toolName input).granted = false) ↔
      (Covered CoversSome [.deny] lib g sessionID toolName input →
        Covered CoversAll [.deny] lib g sessionID toolName input ∨
          ¬ Covered CoversAll [.session, .always] lib g sessionID toolName input) := by
  have hgranted : (g.evaluate lib sessionID toolName input).granted = true ↔
      ¬ Covered CoversAll [.deny] lib g sessionID toolName input ∧
        Covered CoversAll [.session, .always] lib g sessionID toolName input := by
    rw [Policy.evaluate_granted]
    simp only [Covered, ← matchesCall_iff]
    simp
  rw [← Bool.not_eq_true]
  tauto

/-- The tool may be used in the session, but not on the path `a`. -/
def grantsExceptA : GrantStore :=
  (({} : GrantStore).grantScoped "s" "t" .deny { pathPrefixes := ["a"] }).grantScoped "s" "t"
    .session {}

/-- A call that touches another path as well is granted. -/
theorem denied_path_granted :
    Covered CoversSome [.deny] bareStdlib grantsExceptA "s" "t"
        [("source", .str "a"), ("destination", .str "b")] ∧
      (grantsExceptA.evaluate bareStdlib "s" "t"
        [("source", .str "a"), ("destination", .str "b")]).granted = true := by
  refine ⟨⟨⟨.deny, { pathPrefixes := ["a"] }⟩, by decide +kernel, by decide, ?_⟩, by decide +kernel⟩
  exact .inr (.inl ⟨"a", by decide +kernel, "a", by decide +kernel, by decide +kernel⟩)

end Hopclaw.Approval
