import Hopclaw.Proofs.GrantMatching

/-! # What recording a grant replaces

The store finds the record of a scope by a signature, a text in which the values of the scope are
joined. Values that contain the separators make two scopes share a signature, and then a grant for
one of them replaces the record of the other, which may be a denial. -/

namespace Hopclaw.Approval

open List GoStrings GrantStore ResourceScope

/-! ## Scopes as sets -/

/-- The scopes list the same resources. -/
structure SameResources (a b : ResourceScope) : Prop where
  paths : ∀ x, x ∈ a.normalized.pathPrefixes ↔ x ∈ b.normalized.pathPrefixes
  hosts : ∀ x, x ∈ a.normalized.hosts ↔ x ∈ b.normalized.hosts
  commands : ∀ x, x ∈ a.normalized.commandPrefixes ↔ x ∈ b.normalized.commandPrefixes
  parameters : ∀ key x, x ∈ a.normalized.values key ↔ x ∈ b.normalized.values key

theorem sameResources_normalized (s : ResourceScope) : SameResources s.normalized s := by
  have h := normalScope_normalized s
  exact ⟨fun x => by rw [h.normalized_paths], fun x => by rw [h.normalized_hosts],
    fun x => by rw [h.normalized_commands], fun key x => by rw [h.normalized_values]⟩

/-! ## The frame of a grant -/

theorem getElem?_upsertGrantRecord (records : List GrantRecord) (c : GrantRecord) (i : ℕ) :
    (upsertGrantRecord records c)[i]? =
      if i = records.findIdx (fun r => r.resourceScope.signature = c.resourceScope.signature)
      then some c else records[i]? := by
  induction records generalizing i with
  | nil => cases i <;> simp [upsertGrantRecord]
  | cons r rest ih =>
    rw [upsertGrantRecord, List.findIdx_cons]
    by_cases hsig : r.resourceScope.signature = c.resourceScope.signature
    · cases i <;> simp [hsig]
    · cases i with
      | zero => simp [hsig]
      | succ i => simp [hsig, ih]

/-- Every record but that of the granted scope is where it was, and what is new is for the granted
    scope. -/
def Framed (before after : GrantStore) (sessionID toolName : String) (granted : ResourceScope) :
    Prop :=
  (∀ (s t : String) (i : ℕ) (r : GrantRecord), (before.session s t)[i]? = some r →
      ¬(s = sessionID ∧ t = toolName ∧ SameResources r.resourceScope granted) →
      (after.session s t)[i]? = some r) ∧
    ∀ (s t : String) (i : ℕ) (r : GrantRecord), (after.session s t)[i]? = some r →
      (before.session s t)[i]? = some r ∨
        s = sessionID ∧ t = toolName ∧ SameResources r.resourceScope granted

/-- The scope is one that `GrantScoped` stores. -/
def Stored (scope : Scope) : Prop :=
  scope = .session ∨ scope = .always ∨ scope = .deny

variable (g : GrantStore) (sessionID toolName : String) (scope : Scope) (granted : ResourceScope)

/-- The record that has the signature of the granted scope, the first one of the session and tool,
    is for the same resources. -/
def SignatureTells : Prop :=
  ∀ r ∈ (g.session sessionID toolName).find?
    (fun r => r.resourceScope.signature = granted.normalized.signature),
    SameResources r.resourceScope granted

theorem framed_self : Framed g g sessionID toolName granted :=
  ⟨fun _ _ _ _ h _ => h, fun _ _ _ _ h => .inl h⟩

/-! ## Scopes that their signatures tell apart -/

/-- The resources of a scope with the labels that its signature gives them. -/
def ResourceScope.labelled (s : ResourceScope) : List (String × List String) :=
  let n := s.normalized
  [("paths", n.pathPrefixes), ("hosts", n.hosts), ("commands", n.commandPrefixes)].filter
      (·.2 ≠ []) ++
    ((n.parameters.entries.map Sigma.fst).insertionSort (· ≤ ·)).map fun key =>
      ("param:" ++ key, n.values key)

/-- No value of the scope contains a comma or a bar, and no key a bar or an equals sign. -/
def Plain (s : ResourceScope) : Prop :=
  ∀ f ∈ s.labelled, ('=' ∉ f.1.toList ∧ '|' ∉ f.1.toList) ∧
    ∀ v ∈ f.2, ',' ∉ v.toList ∧ '|' ∉ v.toList

variable {s a b : ResourceScope} {f : String × List String}

theorem signature_eq (s : ResourceScope) :
    s.signature = join "|" (s.labelled.map fun f => f.1 ++ "=" ++ join "," f.2) := by
  simp only [signature, labelled, values, map_append, map_map, filter_cons, filter_nil]
  split_ifs <;> simp_all [Function.comp_def]

theorem entry_of_mem_values {key x : String} (hx : x ∈ s.values key) :
    ⟨key, s.values key⟩ ∈ s.parameters.entries := by
  cases hlookup : s.parameters.lookup key with
  | none => simp [values, hlookup] at hx
  | some vs => simpa [values, hlookup] using AList.mem_lookup_iff.mp hlookup

theorem nonblank_labelled (hf : f ∈ s.labelled) : ∀ v ∈ f.2, v ≠ "" := by
  have h := normalScope_normalized s
  simp only [labelled, mem_append, mem_filter, mem_cons, mem_map, not_mem_nil, or_false] at hf
  rcases hf with ⟨rfl | rfl | rfl, -⟩ | ⟨key, -, rfl⟩
  · exact h.paths.nonblank
  · exact h.hosts.nonblank
  · exact h.commands.nonblank
  · exact fun v hv => (h.parameters _ (entry_of_mem_values hv)).2.2.1.nonblank v hv

/-- The labels are distinct. -/
theorem sameResources_of_labelled (h : ∀ f, f ∈ a.labelled ↔ f ∈ b.labelled) :
    SameResources a b := by
  have hlisted label x : (∃ vs, (label, vs) ∈ a.labelled ∧ x ∈ vs) ↔
      ∃ vs, (label, vs) ∈ b.labelled ∧ x ∈ vs := by
    simp only [h]
  have hlabel key : "param:" ++ key ≠ "paths" ∧ "param:" ++ key ≠ "hosts" ∧
      "param:" ++ key ≠ "commands" := by
    refine ⟨?_, ?_, ?_⟩ <;> exact fun h => absurd (congrArg String.toList h) (by simp)
  have hne (l : List String) x : ¬ l = [] ∧ x ∈ l ↔ x ∈ l := and_iff_right_of_imp ne_nil_of_mem
  refine ⟨fun x => ?_, fun x => ?_, fun x => ?_, fun key x => ?_⟩
  · simpa [labelled, hlabel, and_assoc, hne] using hlisted "paths" x
  · simpa [labelled, hlabel, and_assoc, hne] using hlisted "hosts" x
  · simpa [labelled, hlabel, and_assoc, hne] using hlisted "commands" x
  · have hkey (s : ResourceScope) : (∃ vs, ⟨key, vs⟩ ∈ s.parameters.entries) ∧ x ∈ s.values key ↔
        x ∈ s.values key := and_iff_right_of_imp fun hx => ⟨_, entry_of_mem_values hx⟩
    obtain ⟨hpaths, hhosts, hcommands⟩ := hlabel key
    simpa [labelled, hpaths, hhosts, hcommands, and_assoc, hkey] using hlisted ("param:" ++ key) x

/-- The bars of the signature are those between the labelled lists. -/
theorem Plain.no_bar (h : Plain s) :
    ∀ part ∈ s.labelled.map fun f => f.1 ++ "=" ++ join "," f.2,
      part ≠ "" ∧ '|' ∉ part.toList := by
  intro part hpart
  obtain ⟨f, hf, rfl⟩ := mem_map.mp hpart
  refine ⟨by simp, ?_⟩
  simp only [String.toList_append, mem_append, not_or]
  refine ⟨⟨(h f hf).1.2, by decide⟩, fun hmem => ?_⟩
  rcases mem_join hmem with hsep | ⟨v, hv, hbar⟩
  · exact absurd hsep (by decide)
  · exact ((h f hf).2 v hv).2 hbar

theorem Plain.mem_labelled (ha : Plain a) (hb : Plain b) (h : a.signature = b.signature)
    (hf : f ∈ a.labelled) : f ∈ b.labelled := by
  rw [signature_eq, signature_eq] at h
  have hparts := join_injective (by decide) ha.no_bar hb.no_bar h
  obtain ⟨g, hg, heq⟩ := mem_map.mp (hparts ▸ mem_map_of_mem hf)
  have hchars := congrArg String.toList heq
  simp only [String.toList_append, append_assoc] at hchars
  -- the label ends at the first equals sign
  obtain ⟨hlabel, hvalues⟩ : g.1.toList = f.1.toList ∧
      (join "," g.2).toList = (join "," f.2).toList := by
    have hg := (hb g hg).1.1
    have hf := (ha f hf).1.1
    rcases append_eq_append_iff.mp hchars with ⟨l, hl, hl'⟩ | ⟨l, hl, hl'⟩ <;> cases l <;> simp_all
  have hsame : g.2 = f.2 := join_injective (by decide)
    (fun v hv => ⟨nonblank_labelled hg v hv, ((hb g hg).2 v hv).1⟩)
    (fun v hv => ⟨nonblank_labelled hf v hv, ((ha f hf).2 v hv).1⟩) (String.toList_inj.mp hvalues)
  rwa [← Prod.ext (String.toList_inj.mp hlabel) hsame]

/-- Where no record has separators in its values, the signature tells which record is replaced. -/
theorem signatureTells_of_plain (hgranted : Plain granted.normalized)
    (hrecords : ∀ r ∈ g.session sessionID toolName, Plain r.resourceScope) :
    SignatureTells g sessionID toolName granted := by
  intro r hr
  have hr' := hrecords r (mem_of_find?_eq_some hr)
  have hsig : r.resourceScope.signature = granted.normalized.signature := by
    simpa using find?_some hr
  have hsame := sameResources_of_labelled fun f =>
    ⟨hr'.mem_labelled hgranted hsig, hgranted.mem_labelled hr' hsig.symm⟩
  have hself := sameResources_normalized granted
  exact ⟨fun x => (hsame.paths x).trans (hself.paths x),
    fun x => (hsame.hosts x).trans (hself.hosts x),
    fun x => (hsame.commands x).trans (hself.commands x),
    fun key x => (hsame.parameters key x).trans (hself.parameters key x)⟩

/-- The record a grant puts in, at the place of the first one with its signature. -/
theorem framed_upsert_iff :
    Framed g (g.setRecords sessionID toolName
        (upsertGrantRecord (g.session sessionID toolName) ⟨scope, granted.normalized⟩))
      sessionID toolName granted ↔ SignatureTells g sessionID toolName granted := by
  constructor
  · rintro ⟨hkept, -⟩ r hr
    by_contra hother
    rw [List.find?_eq_getElem?_findIdx] at hr
    have hafter := hkept sessionID toolName _ r hr fun h => hother h.2.2
    simp only [setRecords, and_self, if_true, getElem?_upsertGrantRecord,
      Option.some.injEq] at hafter
    exact hother (hafter ▸ sameResources_normalized granted)
  · intro htells
    refine ⟨fun s t i r hr hother => ?_, fun s t i r hr => ?_⟩
    · by_cases hst : s = sessionID ∧ t = toolName
      · obtain ⟨rfl, rfl⟩ := hst
        simp only [setRecords, and_self, if_true, getElem?_upsertGrantRecord]
        split_ifs with hi
        · refine absurd ⟨rfl, rfl, htells r ?_⟩ hother
          rw [Option.mem_def, List.find?_eq_getElem?_findIdx, ← hr, hi]
        · exact hr
      · simpa only [setRecords, hst, if_false] using hr
    · by_cases hst : s = sessionID ∧ t = toolName
      · obtain ⟨rfl, rfl⟩ := hst
        simp only [setRecords, and_self, if_true, getElem?_upsertGrantRecord] at hr
        split_ifs at hr with hi
        · obtain rfl := Option.some.inj hr
          exact .inr ⟨rfl, rfl, sameResources_normalized granted⟩
        · exact .inl hr
      · exact .inl (by simpa only [setRecords, hst, if_false] using hr)

theorem grantScoped_framed_iff :
    Framed g (g.grantScoped sessionID toolName scope granted) sessionID toolName granted ↔
      (Stored scope → SignatureTells g sessionID toolName granted) := by
  cases scope with
  | session | always | deny =>
    simpa [Stored, GrantStore.grantScoped] using
      framed_upsert_iff g sessionID toolName _ granted
  | unset | once | other text =>
    exact iff_of_true (framed_self _ _ _ _) (by simp [Stored])

/-- The grant for the paths `a` and `b` replaces the denial of the path `a,b`. -/
theorem grant_replaces_denial :
    let denied := ({} : GrantStore).grantScoped "s" "t" .deny { pathPrefixes := ["a,b"] }
    let granted := denied.grantScoped "s" "t" .session { pathPrefixes := ["a", "b"] }
    ¬ SameResources { pathPrefixes := ["a,b"] } { pathPrefixes := ["a", "b"] } ∧
      denied.session "s" "t" = [⟨.deny, { pathPrefixes := ["a,b"] }⟩] ∧
      granted.session "s" "t" = [⟨.session, { pathPrefixes := ["a", "b"] }⟩] := by
  refine ⟨fun h => ?_, by decide +kernel, by decide +kernel⟩
  exact absurd ((h.paths "a").mpr (by decide +kernel)) (by decide +kernel)

end Hopclaw.Approval
