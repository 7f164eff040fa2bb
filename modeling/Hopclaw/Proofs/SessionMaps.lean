import Hopclaw.Interleaving.Trace
import Hopclaw.Store.SessionStore

/-! # The maps of the session store stay in step

`InStep` relates the five maps of `InMemorySessionStore`. Appending messages and the episode
operations always keep it; creating, saving, deleting and pruning do so exactly under a condition on
the sessions they meet. -/

namespace Hopclaw.Store.InMemorySessionStore

open Option GoStrings Interleaving InMemorySessionStore AList Maps

variable {M : Type} {s : InMemorySessionStore M}

/-- A call of the store, with the clock it reads. -/
inductive SessionOp (M : Type)
  | getOrCreate (now : Time) (sessionKey defaultModel : String) (chosen : List String)
  | appendUserMessage (now : Time) (id : String) (msg : UserInput M)
  | save (session : StoredSession M)
  | ensureActiveEpisode (now : Time) (id : String)
  | startNewEpisode (now : Time) (id : String)
  | createEpisode (now : Time) (id : String)
  | sealEpisode (now : Time) (episode : String) (seqEnd : ℤ)
  | deleteSession (id : String)
  | pruneSessionsExcept (before : Time) (excludeSessionIDs : List String)

/-- The store after a call. -/
def after (s : InMemorySessionStore M) : SessionOp M → InMemorySessionStore M
  | .getOrCreate now sessionKey defaultModel chosen =>
    (s.getOrCreate now sessionKey defaultModel chosen).2
  | .appendUserMessage now id msg => (s.appendUserMessage now id msg).2
  | .save session => (s.save session).2
  | .ensureActiveEpisode now id => (s.ensureActiveEpisode now id).2
  | .startNewEpisode now id => (s.startNewEpisode now id).2
  | .createEpisode now id => (s.createEpisode now id).2
  | .sealEpisode now episode seqEnd => (s.sealEpisode now episode seqEnd).2
  | .deleteSession id => (s.deleteSession id).2
  | .pruneSessionsExcept before ids => (s.pruneSessionsExcept before ids).2

/-- A key leads to a session with that key; a session has a lock and a key that leads to it; only
    stored sessions have episodes. -/
structure InStep (s : InMemorySessionStore M) : Prop where
  key : ∀ k id, s.byKey.lookup k = some id → ∃ session, s.byID.lookup id = some session ∧
    session.key = k
  lock : ∀ id session, s.byID.lookup id = some session → id ∈ s.locks
  reachable : ∀ id session, s.byID.lookup id = some session → ∃ k, s.byKey.lookup k = some id
  episodes : ∀ id, id ∈ s.episodes → id ∈ s.byID
  active : ∀ id, id ∈ s.activeEpisode → id ∈ s.byID

/-- A new session gets an id that is not in use; a saved session keeps its key; a deleted session
    has a key; a pruned session has no episodes. -/
def Careful (s : InMemorySessionStore M) : SessionOp M → Prop
  | .getOrCreate _ sessionKey _ chosen =>
    s.byKey.lookup sessionKey = none → s.newID chosen ∉ s.byID
  | .save session => ∀ current, s.byID.lookup session.id = some current → session.key = current.key
  | .deleteSession id => ∀ session, s.byID.lookup id = some session → session.key ≠ ""
  | .pruneSessionsExcept before ids => before ≠ 0 → ∀ id session,
    s.byID.lookup id = some session → expired before (excluded ids) id session = true →
      id ∉ s.episodes ∧ id ∉ s.activeEpisode
  | _ => True

/-- The key of the session with an id. -/
def keyOf (s : InMemorySessionStore M) (id : String) : Option String :=
  (s.byID.lookup id).map StoredSession.key

theorem isSome_keyOf {id : String} : (s.keyOf id).isSome = true ↔ id ∈ s.byID := by
  rw [keyOf, isSome_map, lookup_isSome]

/-- In other words, keys and ids lead to each other. -/
theorem inStep_iff : InStep s ↔ (∀ k id, s.byKey.lookup k = some id ↔ s.keyOf id = some k) ∧
    (∀ id, id ∈ s.byID → id ∈ s.locks) ∧
    ∀ id, (id ∈ s.episodes → id ∈ s.byID) ∧ (id ∈ s.activeEpisode → id ∈ s.byID) := by
  constructor
  · intro h
    refine ⟨fun k id => ⟨fun hk => ?_, fun hid => ?_⟩, fun id hid => ?_,
      fun id => ⟨h.episodes id, h.active id⟩⟩
    · exact map_eq_some_iff.mpr (h.key k id hk)
    · obtain ⟨session, hs, rfl⟩ := map_eq_some_iff.mp hid
      obtain ⟨k, hk⟩ := h.reachable id session hs
      obtain ⟨session', hs', rfl⟩ := h.key k id hk
      rwa [some.inj (hs.symm.trans hs')]
    · obtain ⟨session, hid⟩ := isSome_iff_exists.mp (lookup_isSome.mpr hid)
      exact h.lock id session hid
  · rintro ⟨hkeys, hlock, hepisodes⟩
    refine ⟨fun k id hk => map_eq_some_iff.mp ((hkeys k id).mp hk),
      fun id session hid => hlock id (lookup_isSome.mp (by rw [hid]; rfl)),
      fun id session hid => ⟨session.key, (hkeys _ id).mpr (by rw [keyOf, hid]; rfl)⟩,
      fun id => (hepisodes id).1, fun id => (hepisodes id).2⟩

namespace InStep

variable (h : InStep s) (now : Time) (id : String)

include h

theorem keys (k id : String) : s.byKey.lookup k = some id ↔ s.keyOf id = some k :=
  (inStep_iff.mp h).1 k id

/-- In a store in step the session alone decides whether it is found. -/
theorem find_eq : s.find id =
    match s.byID.lookup id with
    | some session => .ok session
    | none => .error (SessionStore.notFound id) := by
  unfold find
  cases hid : s.byID.lookup id with
  | none => cases s.locks.lookup id <;> rfl
  | some session =>
    obtain ⟨lock, hlock⟩ := isSome_iff_exists.mp
      (lookup_isSome.mpr (h.lock id session hid))
    rw [hlock]

omit h in
theorem empty : InStep ({} : InMemorySessionStore M) :=
  ⟨by simp, by simp, by simp, by simp, by simp⟩

/-! ## Calls that always keep the maps in step -/

/-- A session is replaced by one with the same key. -/
theorem replaced {id : String} {session session' : StoredSession M}
    (hid : s.byID.lookup id = some session) (hkey : session'.key = session.key) :
    InStep { s with byID := s.byID.insert id session' } := by
  have hsame : keyOf { s with byID := s.byID.insert id session' } = s.keyOf := by
    funext id'
    simp only [keyOf, lookup_insert_if]
    split_ifs with heq
    · rw [heq, hid]
      exact congrArg some hkey
    · rfl
  have hmem : ∀ id', id' ∈ s.byID.insert id session' ↔ id' ∈ s.byID := by
    intro id'
    rw [← isSome_keyOf, ← hsame]
    exact (isSome_keyOf (s := { s with byID := s.byID.insert id session' })).symm
  rw [inStep_iff, hsame]
  simpa only [hmem] using inStep_iff.mp h

theorem appendUserMessage (msg : UserInput M) : InStep (s.appendUserMessage now id msg).2 := by
  unfold InMemorySessionStore.appendUserMessage
  rw [h.find_eq]
  cases hid : s.byID.lookup id with
  | none => exact h
  | some session => exact h.replaced hid rfl

theorem createEpisodeLocked : InStep (s.createEpisodeLocked now id).2 := by
  unfold InMemorySessionStore.createEpisodeLocked
  cases hid : s.byID.lookup id with
  | none => exact h
  | some session =>
    have hmem : id ∈ s.byID := lookup_isSome.mp (by rw [hid]; rfl)
    split_ifs
    · exact h
    · refine ⟨h.key, h.lock, h.reachable, fun id' hid' => ?_, fun id' hid' => ?_⟩
      · exact ((mem_insert _).mp hid').elim (· ▸ hmem) (h.episodes id')
      · exact ((mem_insert _).mp hid').elim (· ▸ hmem) (h.active id')

theorem sealEpisodeLocked (episode : String) (seqEnd : ℤ) :
    InStep (s.sealEpisodeLocked now episode seqEnd).2 := by
  unfold InMemorySessionStore.sealEpisodeLocked
  split_ifs
  · exact h
  · cases hfind : s.episodes.entries.find? fun e => e.2.any fun summary => summary.id = episode with
    | none => exact h
    | some entry =>
      have hmem := h.episodes _ (List.mem_keys_of_mem (List.mem_of_find?_eq_some hfind))
      refine ⟨h.key, h.lock, h.reachable, fun id' hid' => ?_, fun id' hid' => ?_⟩
      · exact ((mem_insert _).mp hid').elim (· ▸ hmem) (h.episodes id')
      · dsimp only at hid'
        split_ifs at hid'
        · exact h.active id' (mem_erase.mp hid').2
        · exact h.active id' hid'

theorem createEpisode : InStep (s.createEpisode now id).2 := by
  unfold InMemorySessionStore.createEpisode
  split
  · exact h
  · exact h.createEpisodeLocked now id

theorem ensureActiveEpisode : InStep (s.ensureActiveEpisode now id).2 := by
  unfold InMemorySessionStore.ensureActiveEpisode
  split
  · exact h
  · split_ifs
    · exact h
    · exact h.createEpisodeLocked now id

theorem startNewEpisode : InStep (s.startNewEpisode now id).2 := by
  unfold InMemorySessionStore.startNewEpisode
  split
  · exact h
  · next session _ =>
    split_ifs
    · have hsealed := h.sealEpisodeLocked now (s.active id) session.messages.length
      cases hseal : s.sealEpisodeLocked now (s.active id) session.messages.length with
      | mk result s' =>
        rw [hseal] at hsealed
        cases result with
        | error e => exact hsealed
        | ok _ => exact hsealed.createEpisodeLocked now id
    · exact h.createEpisodeLocked now id

/-! ## Calls that need care -/

theorem getOrCreate_iff (sessionKey defaultModel : String) (chosen : List String) :
    InStep (s.getOrCreate now sessionKey defaultModel chosen).2 ↔
      Careful s (.getOrCreate now sessionKey defaultModel chosen) := by
  simp only [getOrCreate, Careful]
  cases hkey : s.byKey.lookup sessionKey with
  | some id => exact iff_of_true h (by simp)
  | none =>
    have hnone : ∀ id, s.keyOf id ≠ some sessionKey := by
      intro id hid
      rw [← h.keys, hkey] at hid
      cases hid
    simp only [true_imp_iff]
    generalize s.newID chosen = id
    rw [inStep_iff]
    simp only [keyOf, lookup_insert_if, mem_insert]
    constructor
    · -- the old session's key would still lead to the new one
      rintro ⟨hkeys, -, -⟩ hmem
      obtain ⟨k, hk⟩ := isSome_iff_exists.mp (isSome_keyOf.mpr hmem)
      have hne : k ≠ sessionKey := fun heq => hnone id (heq ▸ hk)
      have hk' := hkeys k id
      rw [if_neg hne, if_pos rfl, h.keys, iff_true_left hk] at hk'
      exact hne (some.inj hk').symm
    · intro hfresh
      have hout : s.keyOf id = none := by
        rw [← not_isSome_iff_eq_none, isSome_keyOf]
        exact hfresh
      obtain ⟨-, hlock, hepisodes⟩ := inStep_iff.mp h
      refine ⟨fun k id' => ?_, fun id' => Or.imp_right (hlock id'), fun id' =>
        ⟨fun hid' => .inr ((hepisodes id').1 hid'), fun hid' => .inr ((hepisodes id').2 hid')⟩⟩
      have hold := h.keys k id'
      split_ifs with hk hid' hid'
      · simp [hid', hk, newSession]
      · exact iff_of_false (fun heq => hid' (some.inj heq).symm) (hk ▸ hnone id')
      · rw [hold, hid', hout]
        exact iff_of_false nofun fun heq => hk (some.inj heq).symm
      · exact hold

theorem save_iff (session : StoredSession M) :
    InStep (s.save session).2 ↔ Careful s (.save session) := by
  simp only [save, Careful]
  cases hid : s.byID.lookup session.id with
  | none => exact iff_of_true h (by simp)
  | some current =>
    simp only [some.injEq, forall_eq']
    refine ⟨fun h' => ?_, fun hkey => h.replaced hid hkey⟩
    have hk := (h'.keys current.key session.id).mp ((h.keys _ _).mpr (by rw [keyOf, hid]; rfl))
    rw [keyOf, lookup_insert] at hk
    exact some.inj hk

theorem deleteSession_iff : InStep (s.deleteSession id).2 ↔ Careful s (.deleteSession id) := by
  simp only [deleteSession, Careful]
  rw [h.find_eq]
  cases hid : s.byID.lookup id with
  | none => exact iff_of_true h (by simp)
  | some session =>
    have hkey : s.keyOf id = some session.key := by rw [keyOf, hid]; rfl
    simp only [some.injEq, forall_eq']
    rw [inStep_iff]
    simp only [keyOf, lookup_erase_if, mem_erase]
    constructor
    · -- an empty key stays, and leads to a session that is gone
      rintro ⟨hkeys, -, -⟩ hempty
      have hk := hkeys session.key id
      rw [if_neg (not_not.mpr hempty), if_pos rfl, h.keys, iff_true_left hkey] at hk
      cases hk
    · intro hne
      obtain ⟨-, hlock, hepisodes⟩ := inStep_iff.mp h
      refine ⟨fun k id' => ?_, fun id' => And.imp_right (hlock id'), fun id' =>
        ⟨And.imp_right (hepisodes id').1, And.imp_right (hepisodes id').2⟩⟩
      have hold := h.keys k id'
      rw [if_pos hne, lookup_erase_if]
      split_ifs with hk hid' hid'
      · simp
      · rw [hk, (h.keys _ _).mpr hkey] at hold
        exact iff_of_false nofun fun heq => hid' (some.inj (hold.mpr (hk ▸ heq))).symm
      · rw [hold, hid', hkey]
        exact iff_of_false (fun heq => hk (some.inj heq).symm) nofun
      · exact hold

end InStep

theorem pruneLoop_eq (before : Time) (keep : List String)
    (entries : List (Σ _ : String, StoredSession M)) (n : ℕ) (s : InMemorySessionStore M) :
    (entries.foldl (pruneOne before keep) (n, s)).2 =
      { s with
        byID := eraseAll (fun e => expired before keep e.1 e.2) Sigma.fst entries s.byID
        byKey := eraseAll (fun e => expired before keep e.1 e.2) (fun e => e.2.key) entries
          s.byKey
        locks := eraseAll (fun e => expired before keep e.1 e.2) Sigma.fst entries
          s.locks } := by
  induction entries generalizing n s with
  | nil => rfl
  | cons e entries ih =>
    simp only [List.foldl_cons, eraseAll]
    by_cases hexp : expired before keep e.1 e.2 = true
    · simp only [pruneOne, hexp]
      exact ih _ _
    · simp only [pruneOne, hexp]
      exact ih _ _

theorem InStep.prune_iff (h : InStep s) (before : Time) (ids : List String) :
    InStep (s.pruneSessionsExcept before ids).2 ↔
      Careful s (.pruneSessionsExcept before ids) := by
  simp only [Careful]
  by_cases hbefore : before = 0
  · rw [pruneSessionsExcept, if_pos hbefore]
    exact iff_of_true h fun hne => absurd hbefore hne
  -- the ids that are pruned, and the keys that go with them
  let dead : String → Prop := fun id => ∃ session, s.byID.lookup id = some session ∧
    expired before (excluded ids) id session = true
  have hdead : ∀ id, (∃ e ∈ s.byID.entries, expired before (excluded ids) e.1 e.2 = true ∧
      e.1 = id) ↔ dead id := by
    intro id
    refine ⟨fun ⟨e, he, hexp, hid⟩ => ?_, fun ⟨session, hs, hexp⟩ => ?_⟩
    · exact hid ▸ ⟨e.2, mem_lookup_iff.mpr he, hexp⟩
    · exact ⟨⟨id, session⟩, mem_lookup_iff.mp hs, hexp, rfl⟩
  have hkeys : ∀ k, (∃ e ∈ s.byID.entries, expired before (excluded ids) e.1 e.2 = true ∧
      e.2.key = k) ↔ ∃ id, dead id ∧ s.keyOf id = some k := by
    intro k
    refine ⟨fun ⟨e, he, hexp, hk⟩ => ?_, fun ⟨id, ⟨session, hs, hexp⟩, hk⟩ => ?_⟩
    · have hs := mem_lookup_iff.mpr he
      exact ⟨e.1, ⟨e.2, hs, hexp⟩, map_eq_some_iff.mpr ⟨e.2, hs, hk⟩⟩
    · rw [keyOf, hs] at hk
      exact ⟨⟨id, session⟩, mem_lookup_iff.mp hs, hexp, some.inj hk⟩
  have hmem : ∀ {β : Type} (m : AList fun _ : String => β) id, id ∈ eraseAll
      (fun e => expired before (excluded ids) e.1 e.2) Sigma.fst s.byID.entries m ↔
        ¬ dead id ∧ id ∈ m := by
    intro β m id
    rw [← lookup_isSome, lookup_eraseAll, ← lookup_isSome, ← hdead]
    split_ifs with hgone <;> simp [hgone]
  obtain ⟨-, hlock, hepisodes⟩ := inStep_iff.mp h
  simp only [ne_eq, hbefore, not_false_iff, true_imp_iff]
  rw [inStep_iff, pruneSessionsExcept, if_neg hbefore, pruneLoop_eq]
  simp only [keyOf, hmem]
  constructor
  · -- a pruned session is gone from the sessions, but not from the episodes
    rintro ⟨-, -, hleft⟩ id session hid hexp
    exact ⟨fun hep => ((hleft id).1 hep).1 ⟨session, hid, hexp⟩,
      fun hac => ((hleft id).2 hac).1 ⟨session, hid, hexp⟩⟩
  · intro hcare
    refine ⟨fun k id => ?_, fun id => And.imp_right (hlock id), fun id =>
      ⟨fun hep => ⟨fun ⟨session, hs, hexp⟩ => (hcare id session hs hexp).1 hep,
        (hepisodes id).1 hep⟩,
      fun hac => ⟨fun ⟨session, hs, hexp⟩ => (hcare id session hs hexp).2 hac,
        (hepisodes id).2 hac⟩⟩⟩
    rw [lookup_eraseAll, lookup_eraseAll]
    have hold := h.keys k id
    split_ifs with hk hid hid
    · simp
    · -- no other session has this key
      obtain ⟨id', hdead', hk'⟩ := (hkeys k).mp hk
      refine iff_of_false nofun fun heq => hid ((hdead id).mpr ?_)
      have hsame := (hold.mpr heq).symm.trans ((h.keys k id').mpr hk')
      exact some.inj hsame ▸ hdead'
    · exact iff_of_false (fun heq => hk ((hkeys k).mpr ⟨id, (hdead id).mp hid, hold.mp heq⟩))
        nofun
    · exact hold

/-! ## Whole histories -/

theorem InStep.after_iff (h : InStep s) (op : SessionOp M) : InStep (s.after op) ↔ Careful s op := by
  cases op with
  | getOrCreate now sessionKey defaultModel chosen =>
    exact h.getOrCreate_iff now sessionKey defaultModel chosen
  | appendUserMessage now id msg => exact iff_of_true (h.appendUserMessage now id msg) trivial
  | save session => exact h.save_iff session
  | ensureActiveEpisode now id => exact iff_of_true (h.ensureActiveEpisode now id) trivial
  | startNewEpisode now id => exact iff_of_true (h.startNewEpisode now id) trivial
  | createEpisode now id => exact iff_of_true (h.createEpisode now id) trivial
  | sealEpisode now episode seqEnd =>
    exact iff_of_true (h.sealEpisodeLocked now (trimSpace episode) seqEnd) trivial
  | deleteSession id => exact h.deleteSession_iff id
  | pruneSessionsExcept before ids => exact h.prune_iff before ids

/-- The maps are in step after every part of a history exactly if all its calls are careful. -/
theorem session_maps_in_step_iff (ops : List (SessionOp M)) :
    (∀ done, done <+: ops → InStep (runAll after {} done)) ↔ Meets after Careful {} ops :=
  Meets.iff_always (fun _ h => h) (fun _ op h => ⟨(h.after_iff op).mpr, (h.after_iff op).mp⟩)
    InStep.empty

/-- A session with an episode is pruned. -/
def prunedWithEpisode : InMemorySessionStore Unit :=
  runAll after {} [.getOrCreate 1 "chat" "" [], .createEpisode 1 "sess-000001",
    .pruneSessionsExcept 2 []]

/-- A session id that is in use is chosen for another key. -/
def chosenTwice : InMemorySessionStore Unit :=
  runAll after {} [.getOrCreate 1 "chat" "" ["mine"], .getOrCreate 1 "mail" "" ["mine"]]

/-- The episode of a pruned session stays; and with a session id chosen twice, the key of the first
    session leads to the second one. -/
theorem pruning_leaves_episodes :
    ("sess-000001" ∈ prunedWithEpisode.episodes ∧ "sess-000001" ∉ prunedWithEpisode.byID) ∧
    (chosenTwice.byKey.lookup "chat" = some "mine" ∧
      (chosenTwice.byID.lookup "mine").map StoredSession.key = some "mail") ∧
    ¬ InStep prunedWithEpisode ∧ ¬ InStep chosenTwice := by
  have hpruned : "sess-000001" ∈ prunedWithEpisode.episodes ∧
      "sess-000001" ∉ prunedWithEpisode.byID := by decide +kernel
  have hkey : chosenTwice.byKey.lookup "chat" = some "mine" := by decide +kernel
  have hchosen : (chosenTwice.byID.lookup "mine").map StoredSession.key = some "mail" := by
    decide +kernel
  refine ⟨hpruned, ⟨hkey, hchosen⟩, fun h => hpruned.2 (h.episodes _ hpruned.1), fun h => ?_⟩
  obtain ⟨session, hsession, hk⟩ := h.key _ _ hkey
  rw [hsession, map_some, hk] at hchosen
  exact absurd hchosen (by decide)

end Hopclaw.Store.InMemorySessionStore
