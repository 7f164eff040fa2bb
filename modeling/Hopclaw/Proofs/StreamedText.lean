import Hopclaw.Model.Streaming

/-! # What a streaming call shows

The callback sees the text of every attempt that is made, and the caller gets the response of the
last one. The two agree if no attempt shows anything that it does not return.

For one stream this is a matter of its events. Blocks are returned by their index, so what was shown
is what is returned if the blocks come one after the other, from index 0 on, and text comes only in
text blocks; and a stream that breaks off returns nothing, so it must not have sent text. The
induction over the events carries that the blocks so far hold the text shown so far. A loop over
attempts that all have this property has it too, whatever errors it goes on after, and the layers of
a call are such loops. -/

namespace Hopclaw.Model

open StreamState List String BlockAcc

theorem concat_append (texts more : List String) :
    concat (texts ++ more) = concat texts ++ concat more := by
  induction texts with
  | nil => exact String.empty_append.symm
  | cons first texts ih =>
    calc concat (first :: texts ++ more) = first ++ concat (texts ++ more) := rfl
      _ = concat (first :: texts) ++ concat more := by rw [ih, ← String.append_assoc]; rfl

/-! ## Streams that come in order -/

variable {E : Type} {readErr : Option E}

/-- After `n` blocks, the last one of the given kind, and with text shown or not: the next block has
    the next index; the deltas are for the last block, those of text only if it is a text block; and
    the stream breaks off only as long as no text was shown. -/
def InOrder (readErr : Option E) (n : ℕ) (kind : BlockKind) (shown : Bool) :
    List (SSEEvent E) → Prop
  | [] => readErr = none ∨ shown = false
  | .contentBlockStart index kind' :: rest => index = n ∧ InOrder readErr (n + 1) kind' shown rest
  | .textDelta index text :: rest =>
    0 ≤ index ∧ index + 1 = n ∧ kind = .text ∧ InOrder readErr n kind (shown || text ≠ "") rest
  | .otherDelta index :: rest => 0 ≤ index ∧ index + 1 = n ∧ InOrder readErr n kind shown rest
  | .error _ :: _ => shown = false
  | .ignored :: rest => InOrder readErr n kind shown rest

/-- The text of the first `n` blocks. -/
def textOf (s : StreamState) (n : ℕ) : String :=
  concat (((range n).map fun i : ℕ => s.block i).filterMap textPart)

/-- The blocks are those with an index below `n`, and their text is what was shown. -/
structure Returns (s : StreamState) (n : ℕ) (kind : BlockKind) (shown : Bool) : Prop where
  present : ∀ i : ℕ, (s.blocks i).isSome ↔ i < n
  text : s.shown = textOf s n
  kind : ∀ m, n = m + 1 → (s.block m).kind = kind
  silent : shown = false → s.shown = ""

theorem textOf_succ (s : StreamState) (n : ℕ) :
    textOf s (n + 1) = textOf s n ++ ((s.block n).textPart).getD "" := by
  rw [textOf, range_succ, map_append, filterMap_append, concat_append, textOf]
  cases hpart : (s.block n).textPart <;> simp [hpart, concat]

/-- Other blocks than the first `n` do not matter for their text. -/
theorem textOf_put {s : StreamState} {n : ℕ} {index : ℤ} (h : ∀ i < n, index ≠ (i : ℤ))
    (b : BlockAcc) (text : String) : textOf (s.put index b text) n = textOf s n := by
  rw [textOf, textOf]
  congr 2
  refine map_congr_left fun i hi => ?_
  simp only [block, put]
  rw [Function.update_of_ne (h i (mem_range.mp hi)).symm]

theorem block_put (s : StreamState) (index : ℤ) (b : BlockAcc) (text : String) :
    (s.put index b text).block index = b := by
  simp [block, put]

theorem isSome_put {s : StreamState} {index : ℤ} {b : BlockAcc} {text : String} (i : ℤ) :
    ((s.put index b text).blocks i).isSome ↔ i = index ∨ (s.blocks i).isSome := by
  by_cases hi : i = index <;> simp [put, hi]

namespace Returns

variable {s : StreamState} {n : ℕ} {kind : BlockKind} {shown : Bool}

theorem start (h : Returns s n kind shown) (kind' : BlockKind) :
    Returns (s.put n { kind := kind' }) (n + 1) kind' shown where
  present i := by
    rw [isSome_put, h.present]
    omega
  text := by
    rw [textOf_succ, textOf_put (by omega), ← h.text, block_put]
    by_cases hkind : kind' = .text <;> simp [put, textPart, hkind]
  kind m hm := by
    obtain rfl : n = m := by omega
    rw [block_put]
  silent hshown := by rw [put, h.silent hshown, append_empty]

/-- The last block is set, and grows by the text that is shown. -/
theorem grow (h : Returns s (n + 1) kind shown) {b : BlockAcc} {text : String}
    (hkind : b.kind = kind) (htext : b.textPart.getD "" = (s.block n).textPart.getD "" ++ text) :
    Returns (s.put n b text) (n + 1) kind (shown || text ≠ "") where
  present i := by
    rw [isSome_put, h.present]
    omega
  text := by
    rw [textOf_succ, textOf_put (by omega), block_put, htext, ← String.append_assoc,
      ← textOf_succ, ← h.text]
    rfl
  kind m hm := by
    obtain rfl : n = m := by omega
    rw [block_put, hkind]
  silent hshown := by
    simp only [Bool.or_eq_false_iff, decide_eq_false_iff_not, ne_eq, not_not] at hshown
    rw [put, h.silent hshown.1, hshown.2, append_empty]

/-- What is left of a stream that is read to its end or breaks off. -/
theorem consume (h : Returns s n kind shown) {events : List (SSEEvent E)}
    (horder : InOrder readErr n kind shown events) :
    match s.consume readErr events with
    | (s', some _) => s'.shown = ""
    | (s', none) => ∃ m ≤ n + events.length, ∃ kind' shown', Returns s' m kind' shown' := by
  induction events generalizing s n kind shown with
  | nil =>
    cases readErr with
    | none => exact ⟨n, Nat.le_refl n, kind, shown, h⟩
    | some err => exact h.silent (horder.resolve_left (by simp))
  | cons event rest ih =>
    -- The next event leaves the number of blocks or adds one.
    have hnext : ∀ {s' n' kind' shown'}, n' ≤ n + 1 → Returns s' n' kind' shown' →
        InOrder readErr n' kind' shown' rest → s.consume readErr (event :: rest) =
          s'.consume readErr rest → match s.consume readErr (event :: rest) with
        | (s', some _) => s'.shown = ""
        | (s', none) => ∃ m ≤ n + (event :: rest).length, ∃ kind' shown',
            Returns s' m kind' shown' := by
      intro s' n' kind' shown' hn h' hrest hstep
      have hdone := ih h' hrest
      rw [hstep]
      split at hdone
      · exact hdone
      · obtain ⟨m, hm, hreturns⟩ := hdone
        exact ⟨m, by rw [length_cons]; omega, hreturns⟩
    cases event with
    | contentBlockStart index kind' =>
      obtain ⟨rfl, hrest⟩ := horder
      exact hnext (Nat.le_refl _) (h.start kind') hrest rfl
    | textDelta index text =>
      obtain ⟨hindex, hn, rfl, hrest⟩ := horder
      obtain ⟨m, rfl⟩ := Int.eq_ofNat_of_zero_le hindex
      obtain rfl : n = m + 1 := by omega
      have hkind := h.kind m rfl
      have hgrown : Returns (s.put m { s.block m with text := (s.block m).text ++ text } text)
          (m + 1) .text (shown || text ≠ "") :=
        h.grow hkind (by simp [textPart, hkind])
      exact hnext (Nat.le_succ _) hgrown hrest rfl
    | otherDelta index =>
      obtain ⟨hindex, hn, hrest⟩ := horder
      obtain ⟨m, rfl⟩ := Int.eq_ofNat_of_zero_le hindex
      obtain rfl : n = m + 1 := by omega
      refine hnext (Nat.le_succ _) (h.grow (h.kind m rfl) append_empty.symm) ?_ rfl
      simpa using hrest
    | error err => exact h.silent horder
    | ignored => exact hnext (Nat.le_succ _) h horder rfl

/-- All blocks are found in order. -/
theorem content (h : Returns s n kind shown) {bound : ℕ} (hn : n ≤ bound) :
    concat ((s.inOrder bound).filterMap textPart) = s.shown := by
  have htake : (range bound).takeWhile (fun i : ℕ => (s.blocks i).isSome) = range n := by
    obtain ⟨k, rfl⟩ := Nat.exists_eq_add_of_le hn
    rw [range_add, takeWhile_append_of_pos fun i hi =>
      (h.present i).mpr (mem_range.mp hi)]
    cases k with
    | zero => simp
    | succ k =>
      have hnone : ¬ (s.blocks n).isSome := by simp [h.present]
      rw [range_succ_eq_map, map_cons, Nat.add_zero, takeWhile_cons, if_neg hnone,
        append_nil]
  rw [inOrder, htake, h.text]
  rfl

end Returns

/-! ## The attempts of a call -/

/-- The stream of a response comes in order. -/
def Attempt.Clean : Attempt E → Prop
  | .consumed events readErr => InOrder readErr 0 .other false events
  | _ => True

/-- What the callback was passed by the attempts made. -/
def shownBy (made : List (Attempt E)) : String :=
  concat (made.map Attempt.shown)

/-- The text shown is the content returned; where nothing is returned, none was shown. -/
def Faithful (outcome : List (Attempt E) × Except E ModelResponse) : Prop :=
  match outcome.2 with
  | .ok resp => shownBy outcome.1 = resp.content
  | .error _ => shownBy outcome.1 = ""

theorem Attempt.Clean.faithful {a : Attempt E} (h : a.Clean) : Faithful ([a], a.result) := by
  cases a with
  | consumed events readErr =>
    have hempty : Returns {} 0 .other false := ⟨by simp, rfl, by simp, fun _ => rfl⟩
    have hdone := hempty.consume h
    unfold Faithful Attempt.result shownBy
    rcases hend : consume readErr {} events with ⟨s, _ | err⟩ <;>
      simp only [hend] at hdone <;>
      simp only [consumeAnthropicSSEStream, hend, map_singleton, Attempt.shown]
    · obtain ⟨m, hm, kind, shown, hreturns⟩ := hdone
      rw [hreturns.content (by omega)]
      exact append_empty
    · exact append_empty.trans hdone
  | _ => rfl

/-- A loop over items that are faithful is so, whatever errors it goes on after. -/
theorem faithful_tryInTurn {ι : Type} {noAttempt : E}
    {run : ι → List (Attempt E) × Except E ModelResponse} {again : ι → E → Bool} {items : List ι}
    (h : ∀ item ∈ items, Faithful (run item)) : Faithful (tryInTurn noAttempt run again items) := by
  induction items with
  | nil => rfl
  | cons item rest ih =>
    obtain ⟨hitem, hrest⟩ := forall_mem_cons.mp h
    rw [tryInTurn]
    rcases hrun : run item with ⟨made, err | resp⟩
    · rw [hrun] at hitem
      dsimp only
      split_ifs
      · exact hitem
      · -- nothing was shown before the next item
        have hshown : ∀ made', shownBy (made ++ made') = shownBy made' := fun made' => by
          rw [shownBy, map_append, concat_append, show concat _ = "" from hitem,
            empty_append, shownBy]
        simp only [Faithful, hshown]
        exact ih hrest
    · rw [hrun] at hitem
      exact hitem

/-- One provider with one key, whose transport goes on after a broken connection. -/
def callOf (first second : Attempt String) : List (Attempt String) × Except String ModelResponse :=
  callWithFallback
    { retryOnError := (· == "unexpected EOF")
      isKeyRotatable := fun _ => false
      shouldRegistryFailover := fun _ => false }
    "" [(false, [.inr [first, second]])]

def helloEvents : List (SSEEvent String) :=
  [.contentBlockStart 0 .text, .textDelta 0 "Hel", .textDelta 0 "lo"]

end Hopclaw.Model
