import Mathlib.Data.List.AList

/-! # Maps

Look-ups after an assignment, and loops that delete entries. -/

namespace Maps

open AList List Sigma

variable {α κ β : Type} [DecidableEq κ]

theorem lookup_insert_if (m : AList fun _ : κ => β) (k k' : κ) (b : β) :
    (m.insert k b).lookup k' = if k' = k then some b else m.lookup k' := by
  split_ifs with h
  · subst h
    exact lookup_insert _
  · exact lookup_insert_ne h

theorem lookup_erase_if (m : AList fun _ : κ => β) (k k' : κ) :
    (m.erase k).lookup k' = if k' = k then none else m.lookup k' := by
  split_ifs with h
  · rw [h, lookup_erase]
  · exact lookup_erase_ne h

variable {m : AList fun _ : κ => β}

/-- What holds of the new entry and of every old one holds of every entry. -/
theorem forall_insert {P : κ → β → Prop} {k₀ k : κ} {b₀ b : β}
    (h : ∀ {k b}, m.lookup k = some b → P k b) (hnew : P k₀ b₀)
    (hl : (m.insert k₀ b₀).lookup k = some b) : P k b := by
  rw [lookup_insert_if] at hl
  split_ifs at hl with hk
  · cases hl
    rwa [hk]
  · exact h hl

theorem lookup_of_erase {k₀ k : κ} {b : β} (h : (m.erase k₀).lookup k = some b) :
    k ≠ k₀ ∧ m.lookup k = some b := by
  rw [lookup_erase_if] at h
  split_ifs at h with hk
  exact ⟨hk, h⟩

/-- A map with no value twice takes one more value that it does not have. -/
theorem distinct_insert {k₀ k k' : κ} {b₀ b : β}
    (h : ∀ {k k' b}, m.lookup k = some b → m.lookup k' = some b → k = k')
    (hnew : ∀ {k}, m.lookup k ≠ some b₀) (hl : (m.insert k₀ b₀).lookup k = some b)
    (hl' : (m.insert k₀ b₀).lookup k' = some b) : k = k' := by
  rw [lookup_insert_if] at hl hl'
  split_ifs at hl hl' with hk hk' hk'
  · rw [hk, hk']
  · exact absurd (hl'.trans hl.symm) hnew
  · exact absurd (hl.trans hl'.symm) hnew
  · exact h hl hl'

theorem mem_values {b : β} : b ∈ m.entries.map Sigma.snd ↔ ∃ k, m.lookup k = some b := by
  simp only [mem_map, Sigma.exists, exists_eq_right]
  exact exists_congr fun k => mem_lookup_iff.symm

/-- A map with some of the entries of another has their values, in some order. -/
theorem values_perm_filter {m' : AList fun _ : κ => β} {p : β → Bool}
    (h : ∀ k, m'.lookup k = (m.lookup k).filter p) :
    (m'.entries.map snd).Perm ((m.entries.map snd).filter p) := by
  have hentries : m'.entries.Perm (m.entries.filter fun e => p e.2) := by
    refine (perm_ext_iff_of_nodup m'.nodupKeys.nodup (m.nodupKeys.nodup.filter _)).mpr ?_
    rintro ⟨k, b⟩
    rw [mem_filter, ← mem_lookup_iff, ← mem_lookup_iff, h]
    simp
  rw [filter_map]
  exact hentries.map _

/-- A map with the images of the entries of another has their values, in some order. -/
theorem values_perm_map {γ : Type} {m' : AList fun _ : κ => γ} {f : β → γ}
    (h : ∀ k, m'.lookup k = (m.lookup k).map f) :
    (m'.entries.map snd).Perm ((m.entries.map snd).map f) := by
  have hkeys : (m.entries.map fun e => (⟨e.1, f e.2⟩ : Sigma fun _ : κ => γ)).Nodup :=
    List.Nodup.of_map fst (by rw [map_map]; exact m.nodupKeys)
  have hentries : m'.entries.Perm (m.entries.map fun e => ⟨e.1, f e.2⟩) := by
    refine (perm_ext_iff_of_nodup m'.nodupKeys.nodup hkeys).mpr ?_
    rintro ⟨k, b⟩
    rw [← mem_lookup_iff, h]
    simp [mem_lookup_iff.symm]
  have hvalues := hentries.map snd
  rw [map_map] at hvalues ⊢
  exact hvalues

/-- Delete the key of every element that is to go. -/
def eraseAll (gone : α → Bool) (key : α → κ) (xs : List α) (m : AList fun _ : κ => β) :
    AList fun _ : κ => β :=
  xs.foldl (fun m x => if gone x then m.erase (key x) else m) m

theorem lookup_eraseAll (gone : α → Bool) (key : α → κ) (xs : List α)
    (m : AList fun _ : κ => β) (k : κ) : (eraseAll gone key xs m).lookup k =
      if ∃ x ∈ xs, gone x = true ∧ key x = k then none else m.lookup k := by
  unfold eraseAll
  induction xs generalizing m with
  | nil => simp
  | cons x xs ih =>
    rw [foldl_cons, ih]
    by_cases hx : gone x = true ∧ key x = k
    · obtain ⟨hgone, rfl⟩ := hx
      rw [if_pos hgone, lookup_erase, ite_self, if_pos ⟨x, mem_cons_self, hgone, rfl⟩]
    · have hstay : (if gone x then m.erase (key x) else m).lookup k = m.lookup k := by
        split_ifs with hgone
        · exact lookup_erase_ne fun h => hx ⟨hgone, h.symm⟩
        · rfl
      simp only [hstay, exists_mem_cons_iff, hx, false_or]

end Maps
