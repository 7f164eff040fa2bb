import Hopclaw.Approval.ResourceScope
import Hopclaw.Text.NormalPath

/-! # Paths within a scope

A grant for a path covers what `pathWithinScope` finds at or below it, which it decides on the texts
of the two normalized paths. This is right for every allowed path that names a directory, and wrong
for `/`, whose descendants it rejects, and for `.` and chains of `..`. -/

namespace Hopclaw.Approval

open GoStrings GoPath NormalPath

/-! ## Normalized paths -/

theorem exists_normal_normalizeScopePath {raw : String} (h : normalizeScopePath raw ≠ "") :
    ∃ p : NormalPath, (normalizeScopePath raw).toList = p.chars := by
  unfold normalizeScopePath at h ⊢
  dsimp only at h ⊢
  split_ifs at h ⊢ with hblank hwindows
  · exact absurd rfl h
  · obtain ⟨p, hp⟩ := exists_normal_clean (replaceChar (trimSpace raw) '\\' '/')
    have hlower : ∀ d, d = '/' ∨ d = '.' → ∀ c, lowerRune c = d ↔ c = d := by
      rintro d (rfl | rfl) c <;> exact lowerRune_eq_iff (by decide) (by decide)
    exact ⟨p.map (hlower '/' (.inl rfl)) (hlower '.' (.inr rfl)),
      by rw [toLower, String.toList_ofList, hp, chars_map]⟩
  · exact exists_normal_clean _

/-- The comparison of two normalized paths in `pathWithinScope`. -/
theorem pathWithinScope_normal {allowed requested : String} {p q : NormalPath}
    (hp : (normalizeScopePath allowed).toList = p.chars)
    (hq : (normalizeScopePath requested).toList = q.chars) :
    pathWithinScope allowed requested = true ↔
      p.rooted = false ∧ p.segments = [] ∨ p.rooted = q.rooted ∧ p.segments <+: q.segments ∧
        (p.segments = [] → q.segments = []) := by
  have hblank : ∀ {s : String} {r : NormalPath}, s.toList = r.chars → s ≠ "" := by
    rintro s r hs rfl
    exact chars_ne_nil hs.symm
  have hdot : normalizeScopePath allowed = "." ↔ p.rooted = false ∧ p.segments = [] := by
    rw [← String.toList_inj, hp]
    exact chars_eq_dot
  have hsame : normalizeScopePath requested = normalizeScopePath allowed ↔
      p.rooted = q.rooted ∧ p.segments = q.segments := by
    rw [← String.toList_inj, hp, hq, eq_comm, chars_eq_iff]
  have hbelow : (hasPrefix (normalizeScopePath requested) (normalizeScopePath allowed) = true ∧
      ((normalizeScopePath requested).toList.drop
        (normalizeScopePath allowed).toList.length).head? = some '/') ↔
      p.rooted = q.rooted ∧ p.segments ≠ [] ∧
        ∃ more, more ≠ [] ∧ q.segments = p.segments ++ more := by
    rw [← continues_iff, hasPrefix_iff, hp, hq]
    constructor
    · rintro ⟨⟨rest, hrest⟩, hnext⟩
      rw [← hrest, List.drop_left] at hnext
      obtain ⟨tail, rfl⟩ := List.head?_eq_some_iff.mp hnext
      exact ⟨tail, hrest.symm⟩
    · rintro ⟨rest, hrest⟩
      exact ⟨⟨_, hrest.symm⟩, by rw [hrest, List.drop_left]; rfl⟩
  have hcode : pathWithinScope allowed requested = true ↔ normalizeScopePath allowed = "." ∨
      normalizeScopePath requested = normalizeScopePath allowed ∨
        hasPrefix (normalizeScopePath requested) (normalizeScopePath allowed) = true ∧
          ((normalizeScopePath requested).toList.drop
            (normalizeScopePath allowed).toList.length).head? = some '/' := by
    unfold pathWithinScope
    simp only [hblank hp, hblank hq, decide_false, Bool.or_self, Bool.false_eq_true]
    split_ifs <;> simp_all
  rw [hcode, hdot, hsame, hbelow]
  constructor
  · rintro (h | ⟨hroot, hsegs⟩ | ⟨hroot, hne, more, -, hsegs⟩)
    · exact .inl h
    · exact .inr ⟨hroot, hsegs ▸ List.prefix_refl _, fun hnil => hsegs ▸ hnil⟩
    · exact .inr ⟨hroot, ⟨more, hsegs.symm⟩, fun hnil => absurd hnil hne⟩
  · rintro (h | ⟨hroot, ⟨more, hsegs⟩, hnil⟩)
    · exact .inl h
    · by_cases hmore : more = []
      · exact .inr (.inl ⟨hroot, by rw [← hsegs, hmore, List.append_nil]⟩)
      · refine .inr (.inr ⟨hroot, fun hp => hmore ?_, more, hmore, hsegs.symm⟩)
        simpa [hnil hp, hp] using hsegs

/-! ## What the comparison decides -/

/-- Of the two normalized paths, one is blank; or the allowed one names a directory; or it is `/` and
    so is the other; or it is `.` or a chain of `..`, and the other climbs as often or, unless the
    allowed one is `.`, is rooted. -/
def Comparable (allowed requested : String) : Prop :=
  allowed = "" ∨ requested = "" ∨ (∃ seg ∈ splitOn '/' allowed.toList, Named seg) ∨
    if allowed.toList.head? = some '/' then requested = "/"
    else if requested.toList.head? = some '/' then allowed ≠ "."
    else (splitOn '/' allowed.toList).count up = (splitOn '/' requested.toList).count up

/-- The paths name places, and the requested one is at or below the allowed one. -/
def InSubtree (allowed requested : String) : Prop :=
  allowed ≠ "" ∧ requested ≠ "" ∧ Within allowed.toList requested.toList

/-- The comparison decides what it should exactly for comparable paths. -/
theorem right_iff_comparable {allowed requested : String} :
    (pathWithinScope allowed requested = true ↔
        InSubtree (normalizeScopePath allowed) (normalizeScopePath requested)) ↔
      Comparable (normalizeScopePath allowed) (normalizeScopePath requested) := by
  by_cases hblank : normalizeScopePath allowed = "" ∨ normalizeScopePath requested = ""
  · have hfalse : pathWithinScope allowed requested = false := by
      rcases hblank with h | h <;> simp [pathWithinScope, h]
    refine iff_of_true (iff_of_false (by simp [hfalse]) ?_) (by tauto)
    rintro ⟨hallowed, hrequested, -⟩
    exact hblank.elim hallowed hrequested
  rw [not_or] at hblank
  obtain ⟨p, hp⟩ := exists_normal_normalizeScopePath hblank.1
  obtain ⟨q, hq⟩ := exists_normal_normalizeScopePath hblank.2
  have hslash : normalizeScopePath requested = "/" ↔ q.rooted = true ∧ q.segments = [] := by
    rw [← String.toList_inj, hq]
    exact chars_eq_slash
  have hdot : normalizeScopePath allowed = "." ↔ p.rooted = false ∧ p.segments = [] := by
    rw [← String.toList_inj, hp]
    exact chars_eq_dot
  simp only [pathWithinScope_normal hp hq, InSubtree, Comparable, hslash, hdot, hp, hq, ne_eq,
    hblank, not_false_eq_true, exists_named_iff,
    head?_chars, count_up_splitOn, within_iff,
    segments_prefix_iff]
  by_cases hnames : p.names = []
  · have hnil : p.segments = [] ↔ p.ups = 0 := by simp [segments, hnames]
    simp only [hnames, hnil, if_true]
    cases hroot : p.rooted with
    | true => simp [p.ups_rooted hroot]
    | false =>
      cases q.rooted with
      | true => simp
      | false =>
        simp only [not_true_eq_false, Bool.false_eq_true, if_false, true_and, false_or]
        by_cases hups : p.ups = 0
        · simp [hups, eq_comm (a := 0)]
        · omega
  · have hne : p.segments ≠ [] := by simp [segments, hnames]
    simp [hne, hnames]

theorem pathWithinScope_iff (allowed requested : String) :
    (pathWithinScope allowed requested = true ↔
        InSubtree (normalizeScopePath allowed) (normalizeScopePath requested)) ↔
      Comparable (normalizeScopePath allowed) (normalizeScopePath requested) :=
  right_iff_comparable

/-- `/` does not cover its descendants, and `.` and `..` cover what is not below them. -/
theorem pathWithinScope_misjudges :
    (pathWithinScope "/" "/etc" = false ∧
      InSubtree (normalizeScopePath "/") (normalizeScopePath "/etc")) ∧
    (pathWithinScope "." "/etc" = true ∧
      ¬ InSubtree (normalizeScopePath ".") (normalizeScopePath "/etc")) ∧
    (pathWithinScope ".." "../.." = true ∧
      ¬ InSubtree (normalizeScopePath "..") (normalizeScopePath "../..")) := by
  have hroot : normalizeScopePath "/" = "/" := by decide +kernel
  have hetc : normalizeScopePath "/etc" = "/etc" := by decide +kernel
  have hdot : normalizeScopePath "." = "." := by decide +kernel
  have hup : normalizeScopePath ".." = ".." := by decide +kernel
  have hupup : normalizeScopePath "../.." = "../.." := by decide +kernel
  let etc : NormalPath := ⟨true, 0, ["etc".toList], by decide, by simp⟩
  rw [hroot, hetc, hdot, hup, hupup]
  refine ⟨⟨by decide +kernel, by decide, by decide, ?_⟩, ⟨by decide +kernel, fun h => ?_⟩,
    ⟨by decide +kernel, fun h => ?_⟩⟩
  · exact (within_iff (p := ⟨true, 0, [], by simp, by simp⟩) (q := etc)).mpr (.inl rfl)
  · have := (within_iff (p := ⟨false, 0, [], by simp, by simp⟩) (q := etc)).mp h.2.2
    simp [etc] at this
  · have := (within_iff (p := ⟨false, 1, [], by simp, by simp⟩)
      (q := ⟨false, 2, [], by simp, by simp⟩)).mp h.2.2
    simp at this

end Hopclaw.Approval
