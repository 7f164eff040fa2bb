import Mathlib.Data.List.Nodup

/-! # Lists of records with a key

A list whose records are found and changed by a key; where a key occurs twice the first record
counts. -/

namespace Keyed

open List

variable {α κ : Type} [DecidableEq κ] (key : α → κ)

def get (k : κ) (xs : List α) : Option α :=
  xs.find? fun x => key x = k

/-- Change the record with this key. -/
def update (k : κ) (f : α → α) : List α → List α
  | [] => []
  | x :: xs => if key x = k then f x :: xs else x :: update k f xs

variable {key} {k k' : κ} {f : α → α} {xs : List α} {x y : α}

theorem mem_of_get (h : get key k xs = some x) : x ∈ xs :=
  mem_of_find?_eq_some h

theorem key_of_get (h : get key k xs = some x) : key x = k := by
  simpa using List.find?_some h

/-- A change of the records that keeps their keys. -/
theorem get_map (hf : ∀ x, key (f x) = key x) : get key k (xs.map f) = (get key k xs).map f := by
  rw [get, get, List.find?_map]
  simp only [Function.comp_def, hf]

theorem get_update (hf : ∀ x, key x = k → key (f x) = k) :
    get key k' (update key k f xs) = if k' = k then (get key k xs).map f else get key k' xs := by
  unfold get
  induction xs with
  | nil => simp [update]
  | cons x xs ih =>
    rw [update]
    by_cases hx : key x = k
    · by_cases hk : k' = k
      · simp [hk, hf x hx, hx]
      · have hne : ¬ k = k' := fun h => hk h.symm
        simp [hk, hf x hx, hx, hne]
    · rw [if_neg hx]
      by_cases hk : k' = k
      · subst hk
        simp [hx, ih]
      · simp only [List.find?_cons, if_neg hk, ih]

theorem map_key_update (hf : ∀ x, key x = k → key (f x) = k) :
    (update key k f xs).map key = xs.map key := by
  induction xs with
  | nil => rfl
  | cons x xs ih =>
    rw [update]
    split_ifs with hx
    · simp [hf x hx, hx]
    · simp [ih]

/-- A change seen through a projection that keeps the key. -/
theorem map_update {β : Type} (key' : β → κ) {p : α → β} (g : β → β)
    (hkey : ∀ x, key' (p x) = key x)
    (hg : ∀ x, get key k xs = some x → p (f x) = g (p x)) :
    (update key k f xs).map p = update key' k g (xs.map p) := by
  induction xs with
  | nil => rfl
  | cons x xs ih =>
    rw [update, map_cons, update, hkey]
    split_ifs with hx
    · rw [map_cons, hg x (by simp [get, hx])]
    · rw [map_cons, ih fun y hy => hg y (by simpa [get, hx] using hy)]

/-- A record after a change is an old one, or the one that was changed. -/
theorem mem_update (h : y ∈ update key k f xs) : y ∈ xs ∨ ∃ x, get key k xs = some x ∧ y = f x := by
  induction xs with
  | nil => exact .inl h
  | cons x xs ih =>
    rw [update] at h
    split_ifs at h with hx
    · rcases mem_cons.mp h with rfl | h
      · exact .inr ⟨x, by simp [get, hx], rfl⟩
      · exact .inl (mem_cons_of_mem _ h)
    · rcases mem_cons.mp h with rfl | h
      · exact .inl mem_cons_self
      · rcases ih h with h | ⟨x', hget, rfl⟩
        · exact .inl (mem_cons_of_mem _ h)
        · exact .inr ⟨x', by simpa [get, hx] using hget, rfl⟩

/-- The changed record is there. -/
theorem mem_update_self (h : get key k xs = some x) : f x ∈ update key k f xs := by
  induction xs with
  | nil => simp [get] at h
  | cons z xs ih =>
    rw [update]
    split_ifs with hz
    · have hzx : z = x := by simpa [get, hz] using h
      rw [hzx]
      exact mem_cons_self
    · exact mem_cons_of_mem _ (ih (by simpa [get, hz] using h))

/-- With distinct keys every record is found by its own. -/
theorem get_of_mem (hnodup : (xs.map key).Nodup) (h : x ∈ xs) : get key (key x) xs = some x := by
  induction xs with
  | nil => exact absurd h not_mem_nil
  | cons z xs ih =>
    rw [map_cons, nodup_cons] at hnodup
    rcases mem_cons.mp h with rfl | h
    · simp [get]
    · have hne : ¬ key z = key x := fun heq => hnodup.1 (heq ▸ mem_map_of_mem h)
      simpa [get, hne] using ih hnodup.2 h

omit [DecidableEq κ] in
theorem nodup_concat (hnodup : (xs.map key).Nodup) (h : ∀ y ∈ xs, key y ≠ key x) :
    ((xs ++ [x]).map key).Nodup := by
  rw [map_append, map_singleton, ← concat_eq_append]
  exact hnodup.concat (by simpa using h)

end Keyed
