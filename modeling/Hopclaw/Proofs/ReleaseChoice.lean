import Hopclaw.Update.Releases

/-! # Which release a requested version selects

A release is selected where its version compares equal to the requested one. Equal parsed versions
compare equal, but so does everything a text that does not parse is compared with, and parsing
forgets how a pre-release was written. What a request selects is therefore right exactly for the
version texts it is told apart from by more than the comparison.

Of the sort nothing is known but that it permutes the releases: what is said of a selection is said
for every sort, and then every release that passes the filter may be the first. -/

namespace Hopclaw.Update

open GoStrings Std List

/-! ## The comparison -/

instance : LawfulEqCmp comparePrereleasePart where
  compare_self {a} := by cases a <;> exact ReflOrd.compare_self
  eq_of_compare {a b} h := by
    cases a <;> cases b
    · exact congrArg _ (LawfulEqOrd.eq_of_compare h)
    · cases h
    · cases h
    · exact congrArg _ (LawfulEqOrd.eq_of_compare h)

/-- Two versions compare equal if one of them does not parse, or if they parse to the same value. -/
theorem sameVersion_iff (v req : String) :
    sameVersion v req = true ↔ ∀ a b, parseComparableVersion v = some a →
      parseComparableVersion req = some b → a = b := by
  cases hv : parseComparableVersion v with
  | none => simp [sameVersion, compareVersions, hv]
  | some a =>
    cases hreq : parseComparableVersion req with
    | none => simp [sameVersion, compareVersions, hreq]
    | some b =>
      have hsame : sameVersion v req = true ↔ a.base = b.base ∧
          stageRank a.stageLabel = stageRank b.stageLabel ∧ a.stageLabel = b.stageLabel ∧
          a.parts = b.parts := by
        simp only [sameVersion, compareVersions, hv, hreq, decide_eq_true_iff,
          Ordering.then_eq_eq, LawfulEqCmp.compare_eq_iff_eq]
      rw [hsame]
      constructor
      · rintro ⟨hbase, -, hlabel, hparts⟩ _ _ ⟨⟩ ⟨⟩
        exact ComparableVersion.ext hbase hlabel hparts
      · intro h
        obtain rfl := h a b rfl rfl
        exact ⟨rfl, rfl, rfl, rfl⟩

/-! ## Selections -/

/-- A `sort.Slice` that leaves the order as it is and begins `k` items later. -/
def Lib.rotating (k : ℕ) : Lib where
  parseReleaseTime _ := 0
  sortSlice _ items := ⟨items.rotate k, items.rotate_perm k⟩

/-- Any of the items can be the first of them, but nothing else. -/
theorem forall_firstSorted_iff {α : Type} {P : α → Prop} (less : Lib → α → α → Bool)
    (items : List α) (err : String) :
    (∀ (lib : Lib) (item : α), lib.firstSorted (less lib) items err = .ok item → P item) ↔
      ∀ item ∈ items, P item := by
  constructor
  · intro h item hitem
    obtain ⟨before, after, rfl⟩ := append_of_mem hitem
    refine h (.rotating before.length) item ?_
    simp [Lib.firstSorted, Lib.rotating]
  · intro h lib item hfirst
    have hperm := (lib.sortSlice (less lib) items).2
    rw [Lib.firstSorted] at hfirst
    split at hfirst
    case h_1 first rest hsorted =>
      cases hfirst
      exact h _ (hperm.mem_iff.mp (hsorted ▸ mem_cons_self))
    case h_2 => cases hfirst

variable {channel requested : String}

/-- The releases of a manifest that are looked at for a channel. -/
def ReleaseManifestFile.considered (manifest : ReleaseManifestFile) (channel : String) :
    List ReleaseManifest :=
  dedupeManifestReleases []
    (manifest.releases ++ (manifest.channels (normalizeChannel channel)).elim [] (·.releases))

theorem forall_selectManifestRelease_iff {P : String → Prop} (manifest : ReleaseManifestFile)
    (hreq : requested ≠ "") :
    (∀ lib rel, selectManifestRelease lib manifest channel requested = .ok rel → P rel.version) ↔
      ∀ rel ∈ manifest.considered channel, sameVersion rel.version requested = true →
        P rel.version := by
  have hlatest : (manifest.channels (normalizeChannel channel)).bind
      (latestRelease manifest · requested) = none := by
    simp [latestRelease, hreq]
  simp only [selectManifestRelease, hlatest, if_pos hreq]
  split_ifs with hempty
  · simp [ReleaseManifestFile.considered, isEmpty_iff.mp hempty, dedupeManifestReleases]
  · rw [forall_firstSorted_iff]
    simp [ReleaseManifestFile.considered]

theorem forall_selectGitHubRelease_iff {P : String → Prop} (items : List GithubRelease)
    (hreq : requested ≠ "") :
    (∀ lib item, selectGitHubRelease lib items channel requested = .ok item → P item.tagName) ↔
      ∀ item ∈ items, (normalizeChannel channel = "stable" → item.prerelease = false) →
        sameVersion item.tagName requested = true → P item.tagName := by
  simp only [selectGitHubRelease, forall_firstSorted_iff, hreq, mem_filter, decide_false,
    Bool.false_or, Bool.and_eq_true, Bool.not_eq_true', Bool.and_eq_false_iff, decide_eq_false_iff_not,
    ← imp_iff_not_or, and_imp]
  exact forall₂_congr fun item _ => forall_comm

/-- A release that is alone and compares equal to the request is selected. -/
theorem selectGitHubRelease_singleton {v : String} (hsame : sameVersion v requested = true) :
    selectGitHubRelease (.rotating 0) [{ tagName := v }] channel requested =
      .ok { tagName := v } := by
  simp [selectGitHubRelease, hsame, Lib.firstSorted, Lib.rotating]

/-! ## What a selected version denotes -/

/-- Both texts are versions, with the same base numbers and the same pre-release text. -/
def Denotes (v requested : String) : Prop :=
  ∃ a b, parseComparableVersion v = some a ∧ parseComparableVersion requested = some b ∧
    a.base = b.base ∧ trimSpace (versionTexts v).2 = trimSpace (versionTexts requested).2

/-- Both texts are versions, and if they parse to the same value their pre-releases are written
    alike. -/
def ToldApart (v requested : String) : Prop :=
  ∃ a b, parseComparableVersion v = some a ∧ parseComparableVersion requested = some b ∧
    (a = b → trimSpace (versionTexts v).2 = trimSpace (versionTexts requested).2)

theorem toldApart_iff {v : String} :
    ToldApart v requested ↔ (sameVersion v requested = true → Denotes v requested) := by
  rw [sameVersion_iff]
  constructor
  · rintro ⟨a, b, hv, hreq, hpre⟩ hsame
    obtain rfl := hsame a b hv hreq
    exact ⟨a, a, hv, hreq, rfl, hpre rfl⟩
  · intro h
    by_cases hsame : ∀ a b, parseComparableVersion v = some a →
        parseComparableVersion requested = some b → a = b
    · obtain ⟨a, b, hv, hreq, -, hpre⟩ := h hsame
      exact ⟨a, b, hv, hreq, fun _ => hpre⟩
    · push Not at hsame
      obtain ⟨a, b, hv, hreq, hne⟩ := hsame
      exact ⟨a, b, hv, hreq, fun heq => absurd heq hne⟩

/-- Whatever release is selected for a requested version denotes that version exactly if the request
    and the versions of all releases that are looked at parse, and none of them parses to the
    request's value with another pre-release text. -/
theorem selected_version_denotes_iff (manifest : ReleaseManifestFile) (items : List GithubRelease)
    (channel requested : String) (hreq : requested ≠ "") :
    ((∀ lib rel, selectManifestRelease lib manifest channel requested = .ok rel →
        Denotes rel.version requested) ↔
      ∀ rel ∈ manifest.considered channel, ToldApart rel.version requested) ∧
    ((∀ lib item, selectGitHubRelease lib items channel requested = .ok item →
        Denotes item.tagName requested) ↔
      ∀ item ∈ items, (normalizeChannel channel = "stable" → item.prerelease = false) →
        ToldApart item.tagName requested) := by
  simp only [toldApart_iff]
  exact ⟨forall_selectManifestRelease_iff (P := (Denotes · requested)) manifest hreq,
    forall_selectGitHubRelease_iff (P := (Denotes · requested)) items hreq⟩

theorem metadata_is_ignored : "1.2.3" ≠ "" ∧ Denotes "v1.2.3+linux" "1.2.3" := by
  refine ⟨by decide, ?_⟩
  refine ((selected_version_denotes_iff ⟨fun _ => none, []⟩ [{ tagName := "v1.2.3+linux" }] "beta"
    "1.2.3" (by decide)).2.mpr ?_) (.rotating 0) _
      (selectGitHubRelease_singleton (by decide +kernel))
  simp only [mem_singleton, forall_eq]
  exact fun _ => ⟨{ base := [1, 2, 3] }, { base := [1, 2, 3] }, by decide +kernel,
    by decide +kernel, fun _ => by decide +kernel⟩

/-- A release tagged `latest` is installed for every requested version, and `rc1` for `rc.1`. -/
theorem unparseable_tag_is_selected :
    selectGitHubRelease (.rotating 0) [{ tagName := "latest" }] "stable" "1.2.3" =
        .ok { tagName := "latest" } ∧ ¬ Denotes "latest" "1.2.3" ∧
      selectGitHubRelease (.rotating 0) [{ tagName := "1.0.0-rc1" }] "beta" "1.0.0-rc.1" =
        .ok { tagName := "1.0.0-rc1" } ∧ ¬ Denotes "1.0.0-rc1" "1.0.0-rc.1" := by
  refine ⟨selectGitHubRelease_singleton (by decide +kernel), ?_,
    selectGitHubRelease_singleton (by decide +kernel), ?_⟩
  · rintro ⟨a, b, hv, -⟩
    have hnone : parseComparableVersion "latest" = none := by decide +kernel
    cases hnone.symm.trans hv
  · rintro ⟨a, b, -, -, -, hpre⟩
    revert hpre
    decide +kernel

end Hopclaw.Update
