import Hopclaw.Context.Prompt

/-! # Messages dropped to fit the budget

`trimMessagesToBudget` (`contextengine/engine_budgeting.go`) drops one message after the other until
the rest fits, the least important one behind the first `KeepFirstN` as long as there is one. -/

namespace Hopclaw.Context

open List Store

variable {F : Type} [FloatOps F] (importance : PromptMessage → ℕ → ℕ → F)

/-- What is left of a list of messages has all of the first `k`, or only messages of these. -/
def HeadProtected (k : ℕ) (messages left : List PromptMessage) : Prop :=
  ∃ head tail, left = head ++ tail ∧ head.Sublist (messages.take k) ∧
    tail.Sublist (messages.drop k) ∧ (head = messages.take k ∨ tail = [])

variable {messages left : List PromptMessage}

theorem HeadProtected.sublist {k : ℕ} (h : HeadProtected k messages left) :
    left.Sublist messages := by
  obtain ⟨head, tail, rfl, hhead, htail, -⟩ := h
  rw [← take_append_drop k messages]
  exact hhead.append htail

theorem leastImportant_bounds (total : ℕ) (rest : List PromptMessage) {idx dropIdx : ℕ}
    (minScore : F) (hlt : dropIdx < idx) :
    dropIdx ≤ leastImportant importance total rest idx dropIdx minScore ∧
      leastImportant importance total rest idx dropIdx minScore < idx + rest.length := by
  induction rest generalizing idx dropIdx minScore with
  | nil => exact ⟨le_rfl, hlt⟩
  | cons m rest ih =>
    rw [leastImportant, length_cons]
    split_ifs
    · have := ih (importance m idx total) (Nat.lt_add_one idx)
      omega
    · have := ih minScore (hlt.trans (Nat.lt_add_one idx))
      omega

/-- The message that is dropped is one of the list, and behind the first `KeepFirstN` if there is
    one behind them. -/
theorem dropIndex_bounds (e : SlidingWindowEngine) (h : messages ≠ []) :
    e.dropIndex importance messages < messages.length ∧
      (e.keepFirstN < messages.length → e.keepFirstN ≤ e.dropIndex importance messages) := by
  have hpos : 0 < messages.length := length_pos_iff.mpr h
  unfold SlidingWindowEngine.dropIndex
  generalize hstart : (if e.keepFirstN ≥ messages.length then 0 else e.keepFirstN) = start
  have hin : start < messages.length ∧ (e.keepFirstN < messages.length → start = e.keepFirstN) := by
    split_ifs at hstart <;> omega
  have hrest : messages.drop start = messages.get ⟨start, hin.1⟩ :: messages.drop (start + 1) :=
    drop_eq_getElem_cons hin.1
  have hbounds := leastImportant_bounds importance messages.length
    (messages.drop (start + 1)) (importance (messages.get ⟨start, hin.1⟩) start messages.length)
    (Nat.lt_add_one start)
  rw [length_drop] at hbounds
  simp only [hrest]
  omega

/-- One round of the loop. -/
theorem HeadProtected.drop {e : SlidingWindowEngine}
    (h : HeadProtected e.keepFirstN messages left) :
    HeadProtected e.keepFirstN messages (left.eraseIdx (e.dropIndex importance left)) := by
  obtain ⟨head, tail, rfl, hhead, htail, hall⟩ := h
  by_cases hempty : tail = []
  · subst hempty
    refine ⟨_, [], (append_nil _).symm, ?_, htail, .inr rfl⟩
    rw [append_nil]
    exact (eraseIdx_sublist ..).trans hhead
  · -- There are others, so all of the first messages are there and the index lies behind them.
    obtain rfl : head = messages.take e.keepFirstN := hall.resolve_right hempty
    have hpos : 0 < tail.length := length_pos_iff.mpr hempty
    have hlength : (messages.take e.keepFirstN).length = e.keepFirstN := by
      have := htail.length_le
      rw [length_drop] at this
      rw [length_take]
      omega
    have hlong : e.keepFirstN < (messages.take e.keepFirstN ++ tail).length := by
      rw [length_append]
      omega
    have hle := (dropIndex_bounds importance e (append_ne_nil_of_right_ne_nil _ hempty)).2 hlong
    rw [eraseIdx_append_of_length_le (hlength.le.trans hle)]
    exact ⟨_, _, rfl, hhead, (eraseIdx_sublist ..).trans htail, .inl rfl⟩

/-- What the loop compares with the budget. -/
def SlidingWindowEngine.promptTokens (e : SlidingWindowEngine) (systemPrompt summary : String)
    (messages : List PromptMessage) : ℤ :=
  e.estimator.estimate systemPrompt + (if summary ≠ "" then e.estimator.estimate summary else 0) +
    e.estimator.estimateMessages messages

section Loop

variable (e : SlidingWindowEngine) (systemPrompt summary : String) (maxInput : ℤ)

theorem trimLoop_succ (rounds : ℕ) (left : List PromptMessage) :
    e.trimLoop importance systemPrompt summary maxInput (rounds + 1) left =
      if left = [] ∨ e.promptTokens systemPrompt summary left ≤ maxInput then left
      else e.trimLoop importance systemPrompt summary maxInput rounds
        (left.eraseIdx (e.dropIndex importance left)) :=
  rfl

theorem trimLoop_protected (rounds : ℕ) (h : HeadProtected e.keepFirstN messages left) :
    HeadProtected e.keepFirstN messages
      (e.trimLoop importance systemPrompt summary maxInput rounds left) := by
  induction rounds generalizing left with
  | zero => exact h
  | succ rounds ih =>
    rw [trimLoop_succ]
    split_ifs
    · exact h
    · exact ih (h.drop importance)

/-- The loop ends in as many rounds as there are messages. -/
theorem trimLoop_ends {rounds : ℕ} {result : List PromptMessage} (h : left.length ≤ rounds)
    (hresult : e.trimLoop importance systemPrompt summary maxInput rounds left = result) :
    result = [] ∨ e.promptTokens systemPrompt summary result ≤ maxInput := by
  induction rounds generalizing left with
  | zero => exact .inl (hresult ▸ length_eq_zero_iff.mp (Nat.le_zero.mp h))
  | succ rounds ih =>
    rw [trimLoop_succ] at hresult
    split_ifs at hresult with hstop
    · exact hresult ▸ hstop
    · refine ih ?_ hresult
      rw [length_eraseIdx_of_lt (dropIndex_bounds importance e (not_or.mp hstop).1).1]
      omega

/-- What is returned is a subsequence, empty or within the budget; and after any number of rounds
    one of the first `KeepFirstN` messages is gone only if all others are. -/
theorem trimMessagesToBudget_spec (messages : List PromptMessage) :
    (e.trimMessagesToBudget importance systemPrompt summary messages maxInput).Sublist messages ∧
      (e.trimMessagesToBudget importance systemPrompt summary messages maxInput = [] ∨
        e.promptTokens systemPrompt summary
          (e.trimMessagesToBudget importance systemPrompt summary messages maxInput) ≤ maxInput) ∧
      ∀ rounds, HeadProtected e.keepFirstN messages
        (e.trimLoop importance systemPrompt summary maxInput rounds messages) := by
  have hall : HeadProtected e.keepFirstN messages messages :=
    ⟨_, _, (take_append_drop _ _).symm, List.Sublist.refl _, List.Sublist.refl _, .inl rfl⟩
  have hrounds := fun rounds =>
    trimLoop_protected importance e systemPrompt summary maxInput rounds hall
  exact ⟨(hrounds messages.length).sublist,
    trimLoop_ends importance e systemPrompt summary maxInput le_rfl rfl, hrounds⟩

end Loop

end Hopclaw.Context
