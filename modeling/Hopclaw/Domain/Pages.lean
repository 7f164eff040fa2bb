import Mathlib.Data.List.Sort

/-! # Pages

A listing sorts what it found and cuts the result at a limit. What is found comes in some order, and
the sort may leave equal elements in any order. -/

namespace Pages

open List

variable {α : Type}

/-- The order in which elements are found. -/
abbrev Order (α : Type) : Type := (l : List α) → { l' : List α // l'.Perm l }

/-- A limit of zero is no limit. -/
def cut (limit : ℕ) (l : List α) : List α :=
  if limit > 0 then l.take limit else l

variable (r : α → α → Prop) [DecidableRel r]

def page (limit : ℕ) (l : List α) : List α :=
  cut limit (l.insertionSort r)

variable {limit : ℕ} {l : List α}

theorem mem_of_mem_cut {x : α} (h : x ∈ cut limit l) : x ∈ l := by
  unfold cut at h
  split_ifs at h
  · exact mem_of_mem_take h
  · exact h

theorem mem_of_mem_page {x : α} (h : x ∈ page r limit l) : x ∈ l :=
  (perm_insertionSort r l).mem_iff.mp (mem_of_mem_cut h)

/-- What a page does not show can be left out before the cut. -/
theorem cut_filter {p : α → Bool} (h : ∀ x ∈ cut limit l, p x = true) :
    cut limit (l.filter p) = cut limit l := by
  unfold cut at h ⊢
  split_ifs at h ⊢ with hlimit
  · clear hlimit
    induction limit generalizing l with
    | zero => rfl
    | succ n ih =>
      cases l with
      | nil => rfl
      | cons x l =>
        have hx : p x = true := h x (by simp)
        rw [filter_cons_of_pos hx, take_succ_cons, take_succ_cons,
          ih fun y hy => h y (by simp [hy])]
  · exact filter_eq_self.mpr h

variable {r} in
/-- Sorting by a key that tells the elements apart leaves nothing to the order in which they were
    found. -/
theorem insertionSort_eq_of_perm {κ : Type} [LinearOrder κ] (key : α → κ)
    (hr : ∀ a b, r a b ↔ key a ≤ key b) {l' : List α} (hperm : l.Perm l')
    (hkey : ∀ a ∈ l, ∀ b ∈ l, key a = key b → a = b) : l.insertionSort r = l'.insertionSort r := by
  have htotal : Std.Total r := ⟨fun a b => by simpa only [hr] using le_total (key a) (key b)⟩
  have htrans : IsTrans α r :=
    ⟨fun a b d hab hbd => (hr a d).mpr (((hr a b).mp hab).trans ((hr b d).mp hbd))⟩
  have hl := perm_insertionSort r l
  have hl' := (perm_insertionSort r l').trans hperm.symm
  refine List.Perm.eq_of_pairwise (fun a b ha hb hab hba => ?_)
    (pairwise_insertionSort _ l) (pairwise_insertionSort _ l') (hl.trans hl'.symm)
  exact hkey a (hl.mem_iff.mp ha) b (hl'.mem_iff.mp hb)
    (le_antisymm ((hr a b).mp hab) ((hr b a).mp hba))

/-- Some order of finding leads to any given permutation. -/
theorem exists_order {l' : List α} (h : l'.Perm l) : ∃ order : Order α, (order l).1 = l' := by
  classical
  refine ⟨fun k => if hk : k = l then ⟨l', hk ▸ h⟩ else ⟨k, List.Perm.refl k⟩, ?_⟩
  simp

/-- The same elements can be found in the same order. -/
theorem exists_order_eq {l' : List α} (h : l'.Perm l) (order : Order α) :
    ∃ order' : Order α, (order' l').1 = (order l).1 :=
  exists_order ((order l).2.trans h.symm)

/-- Whatever the order of finding, a page shows only elements with a property exactly if a full page
    precedes each element without it. -/
theorem forall_page_iff [Std.Total r] [IsTrans α r] {p : α → Prop} :
    (∀ order : Order α, ∀ x ∈ page r limit (order l).1, p x) ↔
      ∀ x ∈ l, ¬p x → 0 < limit ∧ limit ≤ l.countP fun y => ¬r x y := by
  constructor
  · intro h x hx hp
    -- Found first, the element is preceded only by those that must precede it.
    obtain ⟨before, after, rfl⟩ := append_of_mem hx
    obtain ⟨order, horder⟩ := exists_order
      (show (x :: (before ++ after)).Perm (before ++ x :: after) from perm_middle.symm)
    have hpage := mt (h order x) hp
    rw [horder, page, insertionSort_cons, orderedInsert_eq_take_drop, cut] at hpage
    split_ifs at hpage with hlimit
    · refine ⟨hlimit, not_lt.mp fun hlt => hpage ?_⟩
      set sorted := insertionSort r (before ++ after)
      have hlength : (sorted.takeWhile fun y => ¬r x y).length < limit := by
        calc (sorted.takeWhile fun y => ¬r x y).length
            = (sorted.takeWhile fun y => ¬r x y).countP fun y => ¬r x y :=
              (countP_eq_length.mpr (all_eq_true.mp all_takeWhile)).symm
          _ ≤ sorted.countP fun y => ¬r x y := (takeWhile_sublist _).countP_le
          _ = (before ++ after).countP fun y => ¬r x y := (perm_insertionSort r _).countP_eq _
          _ ≤ (before ++ x :: after).countP fun y => ¬r x y :=
              ((sublist_cons_self x after).append_left before).countP_le
          _ < limit := hlt
      obtain ⟨k, hk⟩ := Nat.exists_eq_succ_of_ne_zero (Nat.sub_ne_zero_of_lt hlength)
      rw [take_append, hk, take_succ_cons]
      exact mem_append_right _ mem_cons_self
    · simp at hpage
  · intro h order x hx
    by_contra hp
    obtain ⟨hlimit, hcount⟩ := h x (((order l).2.mem_iff).mp (mem_of_mem_page r hx)) hp
    rw [page, cut, if_pos hlimit] at hx
    obtain ⟨before, after, hsplit⟩ := append_of_mem hx
    have hsorted := pairwise_insertionSort r (order l).1
    have hperm := (perm_insertionSort r _).trans (order l).2
    have hlength := length_take_le limit ((order l).1.insertionSort r)
    rw [← take_append_drop limit (insertionSort r _), hsplit, append_assoc] at hsorted hperm
    rw [hsplit, length_append, length_cons] at hlength
    -- What comes after the element need not precede it.
    have hafter : (x :: after ++ drop limit (insertionSort r (order l).1)).countP
        (fun y => ¬r x y) = 0 := by
      refine countP_eq_zero.mpr fun y hy => ?_
      rcases mem_cons.mp hy with rfl | hy
      · simp [Std.Refl.refl]
      · simp [rel_of_pairwise_cons (pairwise_append.mp hsorted).2.1 hy]
    rw [← hperm.countP_eq, countP_append, hafter] at hcount
    have hbefore := countP_le_length (p := fun y => ¬r x y) (l := before)
    omega

/-- If a page shows only elements with a property, it is also a page of the elements with the
    property. -/
theorem exists_order_page [Std.Total r] [IsTrans α r] {p : α → Bool} {l' : List α}
    (hl : l'.Perm (l.filter p)) (order : Order α) (h : ∀ x ∈ page r limit (order l).1, p x = true) :
    ∃ order' : Order α, page r limit (order' l').1 = page r limit (order l).1 := by
  have hperm : (((order l).1.insertionSort r).filter p).Perm l' :=
    (((perm_insertionSort r _).trans (order l).2).filter p).trans hl.symm
  obtain ⟨order', horder'⟩ := exists_order hperm
  refine ⟨order', ?_⟩
  have hsorted : (((order l).1.insertionSort r).filter p).Pairwise r :=
    (pairwise_insertionSort r (order l).1).filter p
  rw [horder', page, hsorted.insertionSort_eq]
  exact cut_filter h

end Pages
