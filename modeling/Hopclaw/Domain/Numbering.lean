import Mathlib.Data.List.Induction
import Mathlib.Data.List.Pairwise
import Mathlib.Order.Basic

/-! # Numbers that are given out in order

New numbers are one above the largest one so far. Lists of numbers that were given out in this way
are increasing, and what lies above one of them is an end of the list. -/

namespace Hopclaw

open List

/-- The largest number of a list, or `0`. -/
def top (ns : List ℕ) : ℕ :=
  ns.foldl max 0

@[simp] theorem top_concat (ns : List ℕ) (n : ℕ) : top (ns ++ [n]) = max (top ns) n := by
  simp [top]

variable {ns : List ℕ}

theorem le_top {n : ℕ} (h : n ∈ ns) : n ≤ top ns := by
  induction ns using reverseRecOn with
  | nil => simp at h
  | append_singleton ns m ih =>
    rw [top_concat]
    rcases mem_append.mp h with h | h
    · exact Nat.le_trans (ih h) (Nat.le_max_left _ _)
    · rw [mem_singleton.mp h]
      exact Nat.le_max_right _ _

/-- The largest number occurs, unless it is `0`. -/
theorem top_eq_zero_or_mem (ns : List ℕ) : top ns = 0 ∨ top ns ∈ ns := by
  induction ns using reverseRecOn with
  | nil => exact .inl rfl
  | append_singleton ns m ih =>
    rw [top_concat]
    rcases Nat.le_total (top ns) m with hle | hle
    · rw [Nat.max_eq_right hle]
      exact .inr (mem_append_right _ (mem_singleton_self m))
    · rw [Nat.max_eq_left hle]
      exact ih.imp_right (mem_append_left _)

/-- The numbers are positive and grow along the list. -/
structure Increasing (ns : List ℕ) : Prop where
  grows : ns.Pairwise (· < ·)
  pos : ∀ n ∈ ns, 0 < n

/-- The next `n` numbers. -/
theorem Increasing.extend (h : Increasing ns) (n : ℕ) :
    Increasing (ns ++ range' (top ns + 1) n) := by
  refine ⟨pairwise_append.mpr ⟨h.grows, pairwise_lt_range', ?_⟩, ?_⟩
  · intro a ha b hb
    have := le_top ha
    have := (mem_range'_1.mp hb).1
    omega
  · intro m hm
    rcases mem_append.mp hm with hm | hm
    · exact h.pos m hm
    · have := (mem_range'_1.mp hm).1
      omega

theorem top_le_append (ns ms : List ℕ) : top ns ≤ top (ns ++ ms) := by
  rcases top_eq_zero_or_mem ns with h0 | hmem
  · omega
  · exact le_top (mem_append_left _ hmem)

/-! ## What lies above a number -/

variable {w : ℕ}

section Above

variable {α : Type} (f : α → ℕ)

/-- The elements whose number is above `w`. -/
def above (w : ℕ) (l : List α) : List α :=
  l.filter fun a => w < f a

variable {f}

theorem mem_above {l : List α} {a : α} : a ∈ above f w l ↔ a ∈ l ∧ w < f a := by
  simp [above]

/-- A higher mark leaves a part of what a lower one leaves. -/
theorem above_above {v : ℕ} (h : v ≤ w) (l : List α) : above f w (above f v l) = above f w l := by
  rw [above, above, filter_filter]
  refine filter_congr fun a _ => ?_
  simp only [Bool.and_eq_left_iff_imp, decide_eq_true_eq]
  exact Nat.lt_of_le_of_lt h

theorem above_append (w : ℕ) (l l' : List α) : above f w (l ++ l') = above f w l ++ above f w l' :=
  filter_append ..

theorem above_eq_self {l : List α} (h : ∀ a ∈ l, w < f a) : above f w l = l :=
  filter_eq_self.mpr fun a ha => decide_eq_true (h a ha)

theorem above_eq_nil {l : List α} (h : ∀ a ∈ l, f a ≤ w) : above f w l = [] :=
  filter_eq_nil_iff.mpr fun a ha => by simpa using h a ha

theorem le_getLastD_of_grows (h : ns.Pairwise (· < ·)) {n : ℕ} (hn : n ∈ ns) (d : ℕ) :
    n ≤ ns.getLastD d := by
  cases ns using reverseRecOn with
  | nil => simp at hn
  | append_singleton ns m =>
    rw [getLastD_concat]
    rcases mem_append.mp hn with hn | hn
    · exact Nat.le_of_lt ((pairwise_append.mp h).2.2 n hn m (by simp))
    · exact Nat.le_of_eq (mem_singleton.mp hn)

/-- Above the last of the first `k` numbers lie the other ones. -/
theorem above_getLastD_take {l : List α} (h : (l.map f).Pairwise (· < ·)) (hw : ∀ a ∈ l, w < f a)
    (k : ℕ) : above f (((l.map f).take k).getLastD w) l = l.drop k := by
  have hsplit : ((l.take k).map f ++ (l.drop k).map f).Pairwise (· < ·) := by
    rw [← map_append, take_append_drop]
    exact h
  obtain ⟨hbefore, -, hacross⟩ := pairwise_append.mp hsplit
  rw [← map_take]
  conv_lhs => rw [← take_append_drop k l, above_append]
  rw [take_append_drop]
  rw [above_eq_nil fun a ha => le_getLastD_of_grows hbefore (mem_map_of_mem ha) w]
  refine above_eq_self fun a ha => ?_
  rcases eq_nil_or_concat ((l.take k).map f) with hlast | ⟨ns, n, hlast⟩
  · rw [hlast]
    exact hw a (mem_of_mem_drop ha)
  · have hn : n ∈ (l.take k).map f := by
      rw [hlast]
      simp
    rw [hlast, concat_eq_append, getLastD_concat]
    exact hacross n hn _ (mem_map_of_mem ha)

/-- The last number above a mark, or the mark itself, is the largest number. -/
theorem getLastD_above {l : List α} (h : (l.map f).Pairwise (· < ·)) (hw : w ≤ top (l.map f)) :
    ((above f w l).map f).getLastD w = top (l.map f) := by
  cases l using reverseRecOn with
  | nil => exact Nat.le_zero.mp hw ▸ rfl
  | append_singleton l a =>
    rw [map_append, map_singleton] at h hw ⊢
    have htop : top (l.map f ++ [f a]) = f a := by
      rw [top_concat]
      refine Nat.max_eq_right ?_
      rcases top_eq_zero_or_mem (l.map f) with h0 | hmem
      · omega
      · exact Nat.le_of_lt ((pairwise_append.mp h).2.2 _ hmem _ (by simp))
    rw [htop] at hw ⊢
    rcases Nat.lt_or_eq_of_le hw with hlt | rfl
    · rw [above_append, above_eq_self (l := [a]) (by simpa using hlt), map_append,
        map_singleton, getLastD_concat]
    · have hle : ∀ b ∈ l ++ [a], f b ≤ f a := by
        intro b hb
        have := le_top (mem_map_of_mem (f := f) hb)
        rwa [map_append, map_singleton, htop] at this
      rw [above_eq_nil hle]
      rfl

end Above

end Hopclaw
