import Mathlib.Algebra.BigOperators.Fin
import Hopclaw.Text.GoStrings

/-!
# Sharing out the token budget

`PlanBudget` of `contextengine/budget.go` gives each of the five sections of a prompt its share of
the tokens, rounded down, and one token more to those with the largest remainders.
-/

namespace Hopclaw.Context.Budget

open List GoStrings

/-- The results of `normalizeBudgetClass`. -/
inductive BudgetClass
  | debug | writing | research | default
  deriving DecidableEq

/-- The class of a job without a telling type, by its domains. -/
def classOfDomains (domains : List String) : BudgetClass :=
  let domainSet := (domains.map fun domain => toLower (trimSpace domain)).filter (· ≠ "")
  let hasAnyBudgetDomain (candidates : List String) := candidates.any (· ∈ domainSet)
  if hasAnyBudgetDomain ["search", "news", "browser", "web", "docs", "research", "knowledge"] then
    .research
  else if hasAnyBudgetDomain
      ["document", "presentation", "spreadsheet", "canvas", "email", "text"] then .writing
  else if hasAnyBudgetDomain ["git", "fs", "exec", "desktop", "terminal", "runtime"] then .debug
  else .default

/-- `normalizeBudgetClass`. -/
def normalizeBudgetClass (jobType : String) (domains : List String) : BudgetClass :=
  let job := toLower (trimSpace jobType)
  if job ∈ ["debug", "development", "deployment", "automation", "monitor", "ops", "incident"] then
    .debug
  else if job ∈ ["writing", "write", "report", "delivery", "document", "presentation"] then .writing
  else if job ∈ ["research", "analysis", "browse", "browser", "search"] then .research
  else if job ∈ ["", "default", "general"] then classOfDomains domains
  else .default

/-- The percentages of `budgetProfileFor`, for pinned facts, task state, recalled context, recent
    messages and knowledge. -/
def budgetProfileFor : BudgetClass → Fin 5 → ℕ
  | .debug => ![8, 10, 15, 60, 7]
  | .writing => ![12, 5, 20, 50, 13]
  | .research => ![8, 5, 25, 45, 17]
  | .default => ![10, 8, 18, 55, 9]

/-- `allocation`; the remainder in hundredths of a token. -/
structure Allocation where
  index : Fin 5
  remainder : ℕ
  percent : ℕ

/-- The order of the allocations. -/
def less (a b : Allocation) : Bool :=
  if a.remainder = b.remainder then
    if a.percent = b.percent then a.index < b.index else a.percent > b.percent
  else a.remainder > b.remainder

/-- The last loop, over the first `n` allocations; `none` is an index out of range. -/
def award : ℕ → List Allocation → (Fin 5 → ℕ) → Option (Fin 5 → ℕ)
  | 0, _, plan => some plan
  | _ + 1, [], _ => none
  | n + 1, a :: rest, plan => award n rest (Function.update plan a.index (plan a.index + 1))

/-- The sorted list `remainders`. -/
def remainders (total : ℕ) (percent : Fin 5 → ℕ) : List Allocation :=
  ((List.finRange 5).map fun i => ⟨i, total * percent i % 100, percent i⟩).mergeSort
    fun a b => !less b a

/-- `PlanBudget`: the five parts in the order of the percentages. -/
def planBudget (totalTokens : ℤ) (jobType : String) (domains : List String) :
    Option (Fin 5 → ℕ) :=
  if totalTokens ≤ 0 then some fun _ => 0
  else
    let total := totalTokens.toNat
    let percent := budgetProfileFor (normalizeBudgetClass jobType domains)
    let base i := total * percent i / 100
    award (total - ∑ i, base i) (remainders total percent) base

theorem sum_budgetProfileFor (budgetClass : BudgetClass) :
    ∑ index, budgetProfileFor budgetClass index = 100 := by
  cases budgetClass <;> decide

section Remainders

variable {total : ℕ} {percent : Fin 5 → ℕ}

theorem remainders_sorted :
    (remainders total percent).Pairwise fun a b => b.remainder ≤ a.remainder := by
  refine (pairwise_mergeSort (fun a b c hab hbc => ?_) (fun a b => ?_) _).imp fun {a b} h => ?_
  all_goals
    simp only [less] at *
    split_ifs at * <;> simp_all <;> omega

theorem remainder_eq {a : Allocation} (ha : a ∈ remainders total percent) :
    a.remainder = total * percent a.index % 100 := by
  obtain ⟨i, -, rfl⟩ := mem_map.mp (mem_mergeSort.mp ha)
  rfl

theorem remainders_indices : ((remainders total percent).map (·.index)).Perm (List.finRange 5) := by
  refine ((mergeSort_perm _ _).map _).trans ?_
  simp [Function.comp_def]

end Remainders

theorem award_eq (n : ℕ) (l : List Allocation) (plan : Fin 5 → ℕ) (h : n ≤ l.length) :
    award n l plan = some fun i => plan i + ((l.take n).map (·.index)).count i := by
  induction n, l, plan using award.induct with
  | case1 => simp [award]
  | case2 => simp at h
  | case3 n a rest plan ih =>
    rw [award, ih (Nat.le_of_succ_le_succ h)]
    congr! 2 with i
    simp only [Function.update_apply, take_succ_cons, map_cons, count_cons]
    split_ifs <;> simp_all; omega

/-- The parts add up to all the tokens; each is its share rounded down or one more, and a part that
    is rounded up has no smaller remainder than one that is not. -/
theorem planBudget_spec {totalTokens : ℤ} (hpos : 0 < totalTokens) (jobType : String)
    (domains : List String) :
    ∃ plan, planBudget totalTokens jobType domains = some plan ∧ ∑ i, plan i = totalTokens ∧
      let raw i := totalTokens.toNat * budgetProfileFor (normalizeBudgetClass jobType domains) i
      (∀ i, plan i = raw i / 100 ∨ plan i = raw i / 100 + 1) ∧
      ∀ i j, plan i = raw i / 100 + 1 → plan j = raw j / 100 → raw j % 100 ≤ raw i % 100 := by
  have hsum := sum_budgetProfileFor (normalizeBudgetClass jobType domains)
  rw [planBudget, if_neg hpos.not_ge]
  generalize budgetProfileFor (normalizeBudgetClass jobType domains) = percent at hsum ⊢
  set raw := fun i => totalTokens.toNat * percent i
  set sorted := remainders totalTokens.toNat percent
  -- the remainders are less than five tokens together
  have hraw : ∑ i, raw i = totalTokens.toNat * 100 := by rw [← Finset.mul_sum, hsum]
  obtain ⟨n, hn, hle⟩ : ∃ n, totalTokens.toNat = n + ∑ i, raw i / 100 ∧ n ≤ 5 := by
    refine ⟨totalTokens.toNat - ∑ i, raw i / 100, ?_⟩
    simp only [Fin.sum_univ_five] at hraw ⊢
    omega
  have hlength : sorted.length = 5 := by simpa using remainders_indices.length_eq
  let up := (sorted.take n).map (·.index)
  have hcount : ∑ i, up.count i = n := by
    have := Multiset.sum_count_eq_card (s := Finset.univ) (m := Multiset.ofList up) (by simp)
    simpa [up, hlength, hle] using this
  have honce : ∀ i, up.count i ≤ 1 := nodup_iff_count_le_one.mp
    ((remainders_indices.nodup_iff.mpr (nodup_finRange 5)).sublist
      ((take_sublist n sorted).map _))
  have haward : award (totalTokens.toNat - ∑ i, raw i / 100) sorted (fun i => raw i / 100) =
      some fun i => raw i / 100 + up.count i := by
    rw [Nat.sub_eq_of_eq_add hn, award_eq n sorted _ (by omega)]
  refine ⟨_, haward, ?_, fun i => ?_, fun i j hi hj => ?_⟩
  · rw [Finset.sum_add_distrib]
    omega
  · have := honce i
    omega
  · obtain ⟨a, ha, rfl⟩ := mem_map.mp (count_pos_iff.mp (by omega : 0 < up.count i))
    have hmem : j ∈ sorted.map (·.index) := remainders_indices.mem_iff.mpr (mem_finRange j)
    have hnot : j ∉ up := count_eq_zero.mp (by omega)
    obtain ⟨b, hb, rfl⟩ := mem_map.mp hmem
    -- `a` is in the first part of the sorted list, `b` in the rest
    have hrest := (mem_append.mp ((take_append_drop n sorted).symm ▸ hb)).resolve_left
      fun h => hnot (mem_map_of_mem h)
    have hsorted : (sorted.take n ++ sorted.drop n).Pairwise fun a b => b.remainder ≤ a.remainder :=
      (take_append_drop n sorted).symm ▸ remainders_sorted
    have := (pairwise_append.mp hsorted).2.2 a ha b hrest
    rwa [remainder_eq hb, remainder_eq (mem_of_mem_take ha)] at this

theorem planBudget_ten : (0 : ℤ) < 10 ∧ ∃ plan, planBudget 10 "debug" [] = some plan ∧
    ∑ i, plan i = (10 : ℤ) := by
  obtain ⟨plan, hplan, hsum, -⟩ := planBudget_spec (by decide : (0 : ℤ) < 10) "debug" []
  exact ⟨by decide, plan, hplan, mod_cast hsum⟩

end Hopclaw.Context.Budget
