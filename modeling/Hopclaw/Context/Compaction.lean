import Hopclaw.Domain.Err
import Mathlib.Data.Int.Notation

/-! # What a compaction keeps

The engine shortens a session by dropping its oldest messages
(`contextengine/engine_compaction.go`). How many depends on the number of messages and on the tokens
of the last ones. The messages a store has written are known by their numbers; dropping some of them
moves the session's watermark to the last number dropped. -/

namespace Hopclaw.Context

open List

variable {Msg : Type}

/-- The messages of a session that are loaded. The numbers are those of the messages that were read
    from a store, or written to it; they are the first ones. -/
structure HotSession (Msg : Type) where
  id : String
  messages : List Msg := []
  executionWatermark : ℕ := 0
  loadedMessageSeqs : List ℕ := []

structure CompactConfig (Msg : Type) where
  compactKeepLastN : ℤ := 0
  compactKeepRecentTokens : ℤ := 0
  estimateMessages : List Msg → ℤ

/-- What `NewSlidingWindowEngine` makes of the settings for compaction. -/
structure CompactEngine (Msg : Type) where
  compactKeepLastN : ℕ
  compactKeepLastN_pos : 0 < compactKeepLastN
  compactKeepRecentTokens : ℤ
  estimateMessages : List Msg → ℤ

def newCompactEngine (cfg : CompactConfig Msg) : CompactEngine Msg where
  compactKeepLastN := if cfg.compactKeepLastN ≤ 0 then 20 else cfg.compactKeepLastN.toNat
  compactKeepLastN_pos := by
    split_ifs
    · exact Nat.succ_pos 19
    · omega
  compactKeepRecentTokens := cfg.compactKeepRecentTokens
  estimateMessages := cfg.estimateMessages

/-- How many messages come before those that use up the budget. The messages are given from the last
    one on. -/
def cutByTokens (estimateMessages : List Msg → ℤ) : ℤ → List Msg → ℕ
  | _, [] => 0
  | tokenBudget, msg :: before =>
    if tokenBudget > 0 then
      cutByTokens estimateMessages (tokenBudget - estimateMessages [msg]) before
    else before.length + 1

/-- How many messages `Compact` drops. -/
def CompactEngine.cut (e : CompactEngine Msg) (messages : List Msg) : ℕ :=
  let cutByCount := messages.length - e.compactKeepLastN
  if e.compactKeepRecentTokens > 0 then
    min cutByCount (cutByTokens e.estimateMessages e.compactKeepRecentTokens messages.reverse)
  else cutByCount

/-- The numbers of the first and the last message dropped, if all of them have one. -/
def compactedDiscardedRange (loadedSeqs : List ℕ) (discardedCount discardedPersisted : ℕ) :
    Option (ℕ × ℕ) :=
  if discardedPersisted = 0 ∨ discardedPersisted ≠ discardedCount then none
  else
    match loadedSeqs[0]?, loadedSeqs[discardedPersisted - 1]? with
    | some first, some last => some (first, last)
    | _, _ => none

/-- What `Compact` has worked out before it writes anything. -/
structure Compaction (Msg : Type) where
  older : List Msg
  segmentRange : Option (ℕ × ℕ)
  nextSession : HotSession Msg

/-- The session without its first `cut` messages. -/
def HotSession.dropped (session : HotSession Msg) (cut : ℕ) : HotSession Msg :=
  let discardedPersisted := min cut session.loadedMessageSeqs.length
  let nextSession := { session with messages := session.messages.drop cut }
  if discardedPersisted > 0 then
    { nextSession with
      executionWatermark :=
        session.loadedMessageSeqs.getD (discardedPersisted - 1) session.executionWatermark
      loadedMessageSeqs := session.loadedMessageSeqs.drop discardedPersisted }
  else nextSession

/-- Nothing is compacted where no message would be dropped. -/
def CompactEngine.compaction (e : CompactEngine Msg) (session : HotSession Msg) :
    Option (Compaction Msg) :=
  let cut := e.cut session.messages
  if cut = 0 then none
  else
    some
      { older := session.messages.take cut
        segmentRange := compactedDiscardedRange session.loadedMessageSeqs cut
          (min cut session.loadedMessageSeqs.length)
        nextSession := session.dropped cut }

/-- `Compact`, given the outcome of what it writes elsewhere and of its hooks: the session is
    replaced last. -/
def CompactEngine.compact (e : CompactEngine Msg) (writes : Except Err Unit)
    (session : HotSession Msg) : Except Err Unit × HotSession Msg :=
  match e.compaction session with
  | none => (.ok (), session)
  | some c =>
    match writes with
    | .error err => (.error err, session)
    | .ok _ => (.ok (), c.nextSession)

@[simp] theorem HotSession.dropped_id (session : HotSession Msg) (cut : ℕ) :
    (session.dropped cut).id = session.id := by
  simp only [HotSession.dropped]
  split_ifs <;> rfl

@[simp] theorem HotSession.dropped_messages (session : HotSession Msg) (cut : ℕ) :
    (session.dropped cut).messages = session.messages.drop cut := by
  simp only [HotSession.dropped]
  split_ifs <;> rfl

/-- The numbers that stay are those of the messages that stay. -/
theorem HotSession.dropped_loadedMessageSeqs (session : HotSession Msg) (cut : ℕ) :
    (session.dropped cut).loadedMessageSeqs = session.loadedMessageSeqs.drop cut := by
  simp only [HotSession.dropped]
  split_ifs with hd
  · rcases Nat.le_total cut session.loadedMessageSeqs.length with hle | hle
    · rw [Nat.min_eq_left hle]
    · rw [Nat.min_eq_right hle, drop_length, drop_eq_nil_of_le hle]
  · rcases Nat.eq_zero_or_pos cut with rfl | hcut
    · rfl
    · have hnil : session.loadedMessageSeqs = [] := length_eq_zero_iff.mp (by omega)
      simp [hnil]

/-- The watermark is the last number dropped. -/
theorem HotSession.dropped_executionWatermark (session : HotSession Msg) (cut : ℕ) :
    (session.dropped cut).executionWatermark =
      (session.loadedMessageSeqs.take cut).getLastD session.executionWatermark := by
  simp only [HotSession.dropped]
  split_ifs with hd
  · rw [getLastD_eq_getLast?, getLast?_eq_getElem?, length_take,
      getElem?_take_of_lt (by omega), getD_eq_getElem?_getD]
  · have hnil : session.loadedMessageSeqs.take cut = [] := by
      rw [← length_eq_zero_iff, length_take]
      omega
    simp [hnil]

/-- Every compaction drops the first messages, and the message that is dropped last is not the last
    one. -/
theorem CompactEngine.compaction_eq_some {e : CompactEngine Msg} {session : HotSession Msg}
    {c : Compaction Msg} (h : e.compaction session = some c) :
    ∃ cut, 0 < cut ∧ cut < session.messages.length ∧ cut = e.cut session.messages ∧
      c.older = session.messages.take cut ∧ c.nextSession = session.dropped cut ∧
      c.segmentRange = compactedDiscardedRange session.loadedMessageSeqs cut
        (min cut session.loadedMessageSeqs.length) := by
  simp only [CompactEngine.compaction] at h
  split_ifs at h with hcut
  obtain rfl := Option.some.inj h
  refine ⟨e.cut session.messages, Nat.pos_of_ne_zero hcut, ?_, rfl, rfl, rfl, rfl⟩
  have hle : e.cut session.messages ≤ session.messages.length - e.compactKeepLastN := by
    simp only [CompactEngine.cut]
    split_ifs
    · exact Nat.min_le_left _ _
    · exact Nat.le_refl _
  have := e.compactKeepLastN_pos
  omega

end Hopclaw.Context
