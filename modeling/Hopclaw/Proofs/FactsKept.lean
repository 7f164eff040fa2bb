import Hopclaw.Context.PinnedFacts

/-! # Facts across a compaction

What a merge gives under an identity is the last fact with it. `Prepare` prefers the messages to the
session, `Compact` the session to the messages it drops: a fact that was pinned anew is lost again
when its message is dropped. -/

namespace Hopclaw.Context

open GoStrings List CompactEngine PinnedFact

/-- A fact that counts under an identity. -/
def PinnedFact.Under (id : String) (f : PinnedFact) : Prop :=
  trimSpace f.content ≠ "" ∧ pinnedFactIdentity f = id

instance (id : String) : DecidablePred (PinnedFact.Under id) :=
  fun _ => inferInstanceAs (Decidable (_ ∧ _))

/-- The fact under an identity: the last one in a list. -/
def newest (id : String) (facts : List PinnedFact) : Option PinnedFact :=
  (facts.reverse.find? fun f => f.Under id).map normalizePinnedFact

/-! ## Merging -/

variable {id : String}

theorem newest_append (l₁ l₂ : List PinnedFact) :
    newest id (l₁ ++ l₂) = (newest id l₂).or (newest id l₁) := by
  simp [newest, Option.map_or]

theorem newest_concat (l : List PinnedFact) (f : PinnedFact) :
    newest id (l ++ [f]) = if f.Under id then some (normalizePinnedFact f) else newest id l := by
  by_cases h : f.Under id <;> simp [newest, h]

theorem identity_normalize (f : PinnedFact) :
    pinnedFactIdentity (normalizePinnedFact f) = pinnedFactIdentity f := by
  simp [pinnedFactIdentity, normalizePinnedFact, trimSpace_trimSpace]

theorem normalizePinnedFact_idem (f : PinnedFact) :
    normalizePinnedFact (normalizePinnedFact f) = normalizePinnedFact f := by
  simp [normalizePinnedFact, trimSpace_trimSpace]

/-- A fact that takes the place of those with its identity. -/
theorem newest_replace (out : List PinnedFact) {fact : PinnedFact}
    (hblank : trimSpace fact.content ≠ "") :
    newest id (out.map fun f =>
        if pinnedFactIdentity f = pinnedFactIdentity fact then fact else f) =
      if pinnedFactIdentity fact = id ∧ ∃ f ∈ out, pinnedFactIdentity f = id then
        some (normalizePinnedFact fact) else newest id out := by
  induction out using reverseRecOn with
  | nil => simp
  | append_singleton l f ih =>
    rw [map_append, map_singleton, newest_concat, newest_concat, ih]
    by_cases hf : pinnedFactIdentity f = pinnedFactIdentity fact
    · by_cases hid : pinnedFactIdentity fact = id <;> simp [hf, hid, hblank, PinnedFact.Under]
    · by_cases hid : pinnedFactIdentity fact = id
      · subst hid
        simp [hf, PinnedFact.Under]
      · simp [hf, hid]

theorem newest_mergePinnedFact (out : List PinnedFact) (raw : PinnedFact) :
    newest id (mergePinnedFact out raw) = newest id (out ++ [raw]) := by
  simp only [mergePinnedFact, identity_normalize]
  rw [newest_concat]
  by_cases hblank : (normalizePinnedFact raw).content = ""
  · rw [if_pos hblank, if_neg fun h => h.1 hblank]
  have hcontent : trimSpace (normalizePinnedFact raw).content ≠ "" := by
    simpa [normalizePinnedFact, trimSpace_trimSpace] using hblank
  rw [if_neg hblank]
  by_cases hold : ∃ f ∈ out, pinnedFactIdentity f = pinnedFactIdentity raw
  · rw [if_pos hold, ← identity_normalize raw, newest_replace out hcontent,
      normalizePinnedFact_idem, identity_normalize]
    exact if_congr ⟨fun h => ⟨hblank, h.1⟩, fun h => ⟨h.2, h.2 ▸ hold⟩⟩ rfl rfl
  · rw [if_neg hold, newest_concat, normalizePinnedFact_idem]
    have hid := identity_normalize raw
    exact if_congr ⟨fun h => ⟨hblank, hid.symm.trans h.2⟩, fun h => ⟨hcontent, hid.trans h.2⟩⟩ rfl rfl

theorem newest_mergePinnedFacts (groups : List (List PinnedFact)) :
    newest id (mergePinnedFacts groups) = newest id groups.flatten := by
  have hfold : ∀ (l out : List PinnedFact),
      newest id (l.foldl mergePinnedFact out) = newest id (out ++ l) := by
    intro l
    induction l with
    | nil => simp
    | cons raw l ih =>
      intro out
      rw [foldl_cons, ih, newest_append, newest_mergePinnedFact, ← newest_append, ← append_cons]
  exact hfold groups.flatten []

/-! ## Compactions -/

variable (parse : String → Option Time) (durableFacts : List PinnedFact)

theorem newest_collect_append (id : String) (l₁ l₂ : List PromptMessage) :
    newest id (collectPinnedFacts parse (l₁ ++ l₂)) =
      (newest id (collectPinnedFacts parse l₂)).or (newest id (collectPinnedFacts parse l₁)) := by
  simp only [collectPinnedFacts, newest_mergePinnedFacts, flatMap_append,
    flatten_singleton, newest_append]

theorem newest_refresh (session : FactSession) :
    newest id (refreshPinnedFacts parse durableFacts session) =
      (newest id (collectPinnedFacts parse session.messages)).or
        ((newest id session.pinnedFacts).or (newest id durableFacts)) := by
  simp [refreshPinnedFacts, newest_mergePinnedFacts, newest_append, Option.or_assoc]

/-- What is left after a compaction. -/
theorem newest_compactFacts (id : String) (e : CompactEngine PromptMessage)
    (session : FactSession) :
    (e.compactFacts parse session).messages = session.messages.drop (e.cut session.messages) ∧
      newest id (e.compactFacts parse session).pinnedFacts =
        (newest id session.pinnedFacts).or (newest id
          (collectPinnedFacts parse (session.messages.take (e.cut session.messages)))) := by
  rw [compactFacts]
  cases hc : e.compaction session.toHotSession with
  | none =>
    have hcut : e.cut session.messages = 0 := by
      by_contra hne
      simp [compaction, hne] at hc
    have hnone : newest id (collectPinnedFacts parse []) = none := rfl
    simp [hcut, hnone]
  | some c =>
    obtain ⟨cut, -, -, rfl, holder, hnext, -⟩ := compaction_eq_some hc
    simp [holder, hnext, newest_mergePinnedFacts, newest_append]

/-- The facts are the same after a compaction exactly if each fact that is pinned in a message that
    is dropped, and in none that stays, agrees with the fact the session has already. -/
theorem facts_kept_iff (e : CompactEngine PromptMessage) (session : FactSession) :
    (∀ id, (newest id (refreshPinnedFacts parse durableFacts
          (e.compactFacts parse session))).map content =
        (newest id (refreshPinnedFacts parse durableFacts session)).map content) ↔
      ∀ id, newest id (collectPinnedFacts parse
          (session.messages.drop (e.cut session.messages))) = none →
        ∀ dropped ∈ newest id
          (collectPinnedFacts parse (session.messages.take (e.cut session.messages))),
        ∀ pinned ∈ newest id session.pinnedFacts, pinned.content = dropped.content := by
  refine forall_congr' fun id => ?_
  obtain ⟨hmessages, hfacts⟩ := newest_compactFacts parse id e session
  have hsplit := newest_collect_append parse id
    (session.messages.take (e.cut session.messages)) (session.messages.drop (e.cut session.messages))
  rw [List.take_append_drop] at hsplit
  rw [newest_refresh, newest_refresh, hmessages, hfacts, hsplit]
  cases newest id (collectPinnedFacts parse (session.messages.drop (e.cut session.messages))) <;>
    cases newest id (collectPinnedFacts parse (session.messages.take (e.cut session.messages))) <;>
    cases newest id session.pinnedFacts <;> simp

/-- A session with a pinned fact, a message that pins another value, and a last message. -/
def repinnedSession : FactSession where
  id := "s"
  messages :=
    [{ role := .user, content := "", createdAt := 1
       metadata := [("pinned_fact", .object [("key", .str "target"), ("content", .str "prod")])] },
      { role := .user, content := "go on", createdAt := 2, metadata := [] }]
  pinnedFacts := [{ key := "target", content := "staging" }]

def keepsLast : CompactEngine PromptMessage :=
  newCompactEngine { compactKeepLastN := 1, estimateMessages := fun _ => 0 }

/-- The older value is back once the message is dropped. -/
theorem dropped_fact_is_lost :
    (newest "key:target" (refreshPinnedFacts (fun _ => none) [] repinnedSession)).map
      content = some "prod" ∧
    (newest "key:target" (refreshPinnedFacts (fun _ => none) []
      (keepsLast.compactFacts (fun _ => none) repinnedSession))).map content =
        some "staging" := by
  decide +kernel

end Hopclaw.Context
