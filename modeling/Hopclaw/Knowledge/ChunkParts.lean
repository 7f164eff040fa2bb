import Hopclaw.Text.GoStrings

/-!
# Splitting a document into chunks

`splitIntoChunkParts` of `knowledge/metadata_helpers.go` cuts the runes of a document into windows
of `limit` runes that start `step` runes apart, and skips those with white space only.
-/

namespace Hopclaw.Knowledge

open List GoStrings String

/-- `chunkPart`. -/
structure ChunkPart where
  content : String
  startRune : ℕ
  endRune : ℕ
  deriving DecidableEq

/-- `strings.TrimSpace(string(runes[start:end]))`. -/
def window (runes : List Char) (start stop : ℕ) : String :=
  trimSpace (ofList ((runes.take stop).drop start))

/-- How far a window starts from the one before: an overlap as long as the window counts as none. -/
def stepOf (limit : ℕ) (overlap : ℤ) : ℕ :=
  let overlap := if overlap < 0 then 0 else overlap
  let step := limit - overlap
  if step ≤ 0 then limit else step.toNat

variable {limit : ℕ}

theorem stepOf_bounds {overlap : ℤ} (hlimit : 0 < limit) :
    0 < stepOf limit overlap ∧ stepOf limit overlap ≤ limit := by
  simp only [stepOf]
  split_ifs <;> omega

/-- The values of `start` in the loop. -/
def starts (length limit step : ℕ) (hstep : 0 < step) (start : ℕ) : List ℕ :=
  if start < length then
    start :: if length ≤ start + limit then [] else starts length limit step hstep (start + step)
  else []
termination_by length - start

/-- What one round of the loop appends. -/
def round (runes : List Char) (limit start : ℕ) : Option ChunkPart :=
  let stop := min (start + limit) runes.length
  let part := window runes start stop
  if part ≠ "" then some ⟨part, start, stop⟩ else none

/-- The loop over the windows. -/
def loop (runes : List Char) (limit : ℕ) (overlap : ℤ) (hlimit : 0 < limit) : List ChunkPart :=
  (starts runes.length limit (stepOf limit overlap) (stepOf_bounds hlimit).1 0).filterMap
    (round runes limit)

/-- `splitIntoChunkParts`. -/
def splitIntoChunkParts (content : String) (limit overlap : ℤ) : List ChunkPart :=
  let runes := content.toList
  if h : limit ≤ 0 ∨ runes.length ≤ limit then [⟨trimSpace content, 0, runes.length⟩]
  else loop runes limit.toNat overlap (by omega)

theorem window_length_le (runes : List Char) (start stop : ℕ) :
    (window runes start stop).toList.length ≤ stop - start := by
  rw [window, trimSpace, toList_ofList, toList_ofList]
  refine (( rdropWhile_prefix isSpace _).length_le.trans
    (dropWhile_sublist _).length_le).trans ?_
  simp only [length_drop, length_take]
  omega

variable {p : ChunkPart} {runes : List Char}

theorem round_eq_some {start : ℕ} (h : round runes limit start = some p) : p.startRune = start ∧
      p.endRune = min (start + limit) runes.length ∧ p.content = window runes start p.endRune := by
  simp only [round] at h
  split_ifs at h
  cases h
  exact ⟨rfl, rfl, rfl⟩

theorem exists_round {start i : ℕ} {c : Char} (hc : runes[i]? = some c) (hspace : isSpace c = false)
    (hstart : start ≤ i) (hstop : i < start + limit) : ∃ p, round runes limit start = some p := by
  have hlen := (List.getElem?_eq_some_iff.mp hc).1
  have hmem : c ∈ (runes.take (min (start + limit) runes.length)).drop start := by
    refine mem_of_getElem? (i := i - start) ?_
    rw [List.getElem?_drop, Nat.add_sub_cancel' hstart, List.getElem?_take_of_lt (by omega), hc]
  refine ⟨_, if_pos fun h => ?_⟩
  -- in a blank window both what is cut off first and what is left are white space
  rw [window, trimSpace, toList_ofList, ofList_eq_empty_iff,
    rdropWhile_eq_nil_iff] at h
  rw [← takeWhile_append_dropWhile (l := List.drop _ _), mem_append] at hmem
  have hblank : isSpace c := hmem.elim mem_takeWhile_imp (h c)
  simp [hspace] at hblank

section Starts

variable {length limit step : ℕ} {hstep : 0 < step} {start : ℕ}

theorem starts_sorted : (starts length limit step hstep start).Pairwise (· < ·) ∧
    ∀ s ∈ starts length limit step hstep start, start ≤ s := by
  fun_induction starts length limit step hstep start <;> grind [pairwise_cons]

theorem starts_cover (hle : step ≤ limit) {i : ℕ} (hi : i < length) (hs : start ≤ i) :
    ∃ s ∈ starts length limit step hstep start, s ≤ i ∧ i < s + limit := by
  fun_induction starts length limit step hstep start with
  | case1 start hlt ih =>
    by_cases hin : i < start + limit
    · exact ⟨start, mem_cons_self, hs, hin⟩
    · obtain ⟨s, hmem, h⟩ := ih (by omega)
      rw [if_neg (by omega)]
      exact ⟨s, mem_cons_of_mem _ hmem, h⟩
  | case2 => omega

theorem starts_head {t : ℕ} (ht : t ∈ starts length limit step hstep start) :
    start ∈ starts length limit step hstep start := by
  rw [starts] at ht ⊢
  split_ifs at ht ⊢ <;> simp_all

theorem starts_next {s t : ℕ} (hs : s ∈ starts length limit step hstep start)
    (ht : t ∈ starts length limit step hstep start) (hlt : s < t) :
    s + limit < length ∧ s + step ≤ t ∧ s + step ∈ starts length limit step hstep start := by
  fun_induction starts length limit step hstep start <;> grind [starts_sorted, starts_head]

end Starts

section Loop

variable {runes : List Char} {limit : ℕ} {overlap : ℤ} {hlimit : 0 < limit}

theorem mem_loop : p ∈ loop runes limit overlap hlimit ↔
    p.startRune ∈ starts runes.length limit (stepOf limit overlap) (stepOf_bounds hlimit).1 0 ∧
      round runes limit p.startRune = some p := by
  rw [loop, mem_filterMap]
  refine ⟨fun ⟨start, hs, hp⟩ => ?_, fun hp => ⟨_, hp⟩⟩
  rw [(round_eq_some hp).1]
  exact ⟨hs, hp⟩

theorem loop_sorted :
    (loop runes limit overlap hlimit).Pairwise fun p q => p.startRune < q.startRune := by
  refine starts_sorted.1.filterMap _ fun s t hlt p hp q hq => ?_
  rw [(round_eq_some hp).1, (round_eq_some hq).1]
  exact hlt

theorem loop_overlap (hoverlap : 0 ≤ overlap) (hless : overlap < limit) {pre post : List ChunkPart}
    {q : ChunkPart} (heq : loop runes limit overlap hlimit = pre ++ p :: q :: post)
    (hblank : ∀ start : ℕ, start = p.startRune + (limit - overlap) → start < q.startRune →
      round runes limit start ≠ none) :
    (p.endRune : ℤ) = q.startRune + overlap := by
  have hp := mem_loop.mp (heq ▸ by simp : p ∈ loop runes limit overlap hlimit)
  have hq := mem_loop.mp (heq ▸ by simp : q ∈ loop runes limit overlap hlimit)
  have hsorted := heq ▸ loop_sorted
  have hstepOf : stepOf limit overlap = limit - overlap := by
    simp only [stepOf]
    split_ifs <;> omega
  simp only [pairwise_append, pairwise_cons, mem_cons] at hsorted
  obtain ⟨hfits, hle, hnext⟩ := starts_next hp.1 hq.1 (hsorted.2.1.1 q (.inl rfl))
  have hend := (round_eq_some hp.2).2.1
  rcases hle.lt_or_eq with hlt | hadjacent
  · -- the window after that of `p` would have given a part between the two
    obtain ⟨r, hr⟩ := Option.ne_none_iff_exists'.mp (hblank _ (by omega) hlt)
    have hstart := (round_eq_some hr).1
    have hmem : r ∈ loop runes limit overlap hlimit := mem_loop.mpr (hstart ▸ ⟨hnext, hr⟩)
    simp only [heq, mem_append] at hmem
    grind
  · omega

end Loop

/-- The parts come in increasing order, hold the trimmed runes of their windows, no more than the
    limit, and cover what is not white space; of two parts with no blank window between them the
    first ends `overlap` runes after the second starts. -/
theorem splitIntoChunkParts_spec (content : String) (limit overlap : ℤ) :
    let runes := content.toList
    let parts := splitIntoChunkParts content limit overlap
    parts.Pairwise (fun p q => p.startRune < q.startRune) ∧
    (∀ p ∈ parts, p.endRune ≤ runes.length ∧ p.content = window runes p.startRune p.endRune ∧
      (0 < limit → p.content.toList.length ≤ limit)) ∧
    (∀ i c, runes[i]? = some c → isSpace c = false →
      ∃ p ∈ parts, p.startRune ≤ i ∧ i < p.endRune) ∧
    (0 ≤ overlap → overlap < limit → ∀ pre p q post, parts = pre ++ p :: q :: post →
      (∀ start : ℕ, start = p.startRune + (limit - overlap) → start < q.startRune →
        round runes limit.toNat start ≠ none) →
      (p.endRune : ℤ) = q.startRune + overlap) := by
  intro runes parts
  by_cases h : limit ≤ 0 ∨ runes.length ≤ limit
  · have hparts : parts = [⟨trimSpace content, 0, runes.length⟩] := dif_pos h
    have hall : trimSpace content = window runes 0 runes.length := by simp [window, runes]
    have hlen := window_length_le runes 0 runes.length
    rw [hparts]
    refine ⟨pairwise_singleton .., ?_, fun i c hc _ => ?_, fun _ _ pre p q post heq => ?_⟩
    · simp only [mem_singleton, forall_eq, hall, true_and]
      omega
    · exact ⟨_, mem_singleton_self _, Nat.zero_le _, (List.getElem?_eq_some_iff.mp hc).1⟩
    · simp [singleton_eq_append_iff] at heq
  · lift limit to ℕ using by omega
    have hlimit : 0 < limit := by omega
    have hparts : parts = loop runes limit overlap hlimit := dif_neg h
    rw [hparts]
    refine ⟨loop_sorted, fun p hp => ?_, fun i c hc hspace => ?_, ?_⟩
    · obtain ⟨-, hend, hcontent⟩ := round_eq_some (mem_loop.mp hp).2
      have hlen := window_length_le runes p.startRune p.endRune
      rw [← hcontent] at hlen
      exact ⟨by omega, hcontent, fun _ => by omega⟩
    · have hi := (List.getElem?_eq_some_iff.mp hc).1
      obtain ⟨s, hs, hle, hlt⟩ := starts_cover (stepOf_bounds hlimit).2 hi (Nat.zero_le i)
      obtain ⟨p, hp⟩ := exists_round hc hspace hle hlt
      obtain ⟨hstart, hend, -⟩ := round_eq_some hp
      exact ⟨p, mem_loop.mpr (hstart ▸ ⟨hs, hp⟩), by omega, by omega⟩
    · exact fun hoverlap hless pre p q post => loop_overlap hoverlap hless

end Hopclaw.Knowledge
