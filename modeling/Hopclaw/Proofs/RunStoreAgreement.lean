import Hopclaw.Interleaving.Machine
import Hopclaw.Store.RunStores

/-! # The two run stores compared

`InMemoryRunStore` and `JSONLRunStore` implement one interface. Their maps stay equal, and their
answers with them, as long as no call does what only one of them handles: a run created with a
parent, an update with a record that the two ways of copying treat differently, and a look-up of an
event whose run was deleted. -/

namespace Hopclaw.Store

open GoStrings Interleaving RunTable RunAnswer InMemoryRunStore RunRecord Cloning
open JSONLRunStore (returned newRun_stable Stable)

variable {X : Type} {c : Cloning X} {t : RunTable X}

/-- What callers can read of the runs of the two stores is the same. -/
def SameVisible (c : Cloning X) (t : RunTable X) (s : JSONLRunStore X) : Prop :=
  (∀ id scope, getScoped c t id scope = s.getScoped c id scope) ∧
    ∀ filter order, list c t filter order = s.list c filter order

/-- The call is one that both stores handle alike. -/
def HandledAlike (c : Cloning X) (t : RunTable X) : RunOp X → Prop
  | .create _ _ msg _ => trimSpace msg.parentRunID = ""
  | .update _ r =>
    match t.find? r.run.id with
    | none => (cloneAgentRun c r).isSome = true
    | some _ => cloneAgentRun c r = some r ∧ cloneRun c r = r
  | .findByExternalEvent e => ∀ id, t.byEventID.lookup e = some id → (t.find? id).isSome = true
  | _ => True

/-- The maps are equal, and no record in them is changed by copying it. -/
structure SameTables (c : Cloning X) (t : RunTable X) (s : JSONLRunStore X) : Prop where
  table : s.table = t
  stable : Stable c t
  copied : ∀ id r, t.find? id = some r → cloneRun c r = r

/-! ## Reading -/

namespace SameTables

variable {s : JSONLRunStore X}

theorem getScoped (h : SameTables c t s) (id : String) (scope : ScopeFilter) :
    InMemoryRunStore.getScoped c t id scope = s.getScoped c id scope := by
  simp only [InMemoryRunStore.getScoped, JSONLRunStore.getScoped, h.table]
  cases hf : t.find? id with
  | none => rfl
  | some r => simp only [returned, h.stable id r hf, h.copied id r hf]

theorem list (h : SameTables c t s) (filter : RunListFilter) (order : RunTable.Order X) :
    InMemoryRunStore.list c t filter order = s.list c filter order := by
  have hstored : ∀ r ∈ t.selected filter, t.find? r.run.id = some r :=
    fun r hr => mem_records.mp (List.mem_filter.mp hr).1
  have hcopy : (t.selected filter).map (cloneRun c) = t.selected filter := by
    rw [List.map_congr_left (g := id) fun r hr => h.copied _ r (hstored r hr), List.map_id]
  have hjson : (t.selected filter).filterMap (cloneAgentRun c) = t.selected filter := by
    rw [List.filterMap_congr fun r hr => h.stable _ r (hstored r hr), List.filterMap_some]
  rw [InMemoryRunStore.list, JSONLRunStore.list, h.table, hcopy, hjson]

theorem visible (h : SameTables c t s) : SameVisible c t s :=
  ⟨h.getScoped, h.list⟩

theorem empty : SameTables c ({} : RunTable X) {} where
  table := rfl
  stable := JSONLRunStore.stable_empty
  copied := by
    intro id r h
    simp [find?] at h

/-! ## Writing -/

/-- A record that copying does not change may be stored. -/
theorem stored (h : SameTables c t s) {r : RunRecord X} (hr : cloneAgentRun c r = some r)
    (hcopy : cloneRun c r = r) {t' : RunTable X}
    (hfind : ∀ id, t'.find? id = if id = r.run.id then some r else t.find? id)
    (files : AList fun _ : String => List (RunRecord X)) :
    SameTables c t' { table := t', files } :=
  ⟨rfl, RunTable.All.stored h.stable hr hfind, RunTable.All.stored h.copied hcopy hfind⟩

theorem prune (h : SameTables c t s) (before : Time)
    (files : AList fun _ : String => List (RunRecord X)) :
    SameTables c (t.pruneRuns before).2 { table := (t.pruneRuns before).2, files } where
  table := rfl
  stable := fun id r hf => h.stable id r (find?_of_pruneRuns hf)
  copied := fun id r hf => h.copied id r (find?_of_pruneRuns hf)

end SameTables

/-! ## One call -/

variable {s : JSONLRunStore X}

/-- Without a parent the two stores make the same new run. -/
theorem newRun_eq (htable : s.table = t) {msg : IncomingMessage}
    (hparent : trimSpace msg.parentRunID = "") (now : Time) (sessionID : String)
    (cfg : AgentConfig) : newRun c t now sessionID msg cfg =
      s.newRun c now sessionID msg cfg := by
  simp only [newRun, createdRun, JSONLRunStore.newRun, hparent, htable]

theorem cloneRun_newRun (now : Time) (sessionID : String) (msg : IncomingMessage)
    (cfg : AgentConfig) : cloneRun c (newRun c t now sessionID msg cfg) =
      newRun c t now sessionID msg cfg := by
  simp only [cloneRun, newRun, c.copy_fresh]

theorem agree_of_handledAlike (h : SameTables c t s) (op : RunOp X) (hop : HandledAlike c t op) :
    (step c t op).1 = (s.step c op).1 ∧
      SameTables c (step c t op).2 (s.step c op).2 := by
  cases op with
  | create now sessionID msg cfg =>
    have hnew := newRun_eq h.table hop now sessionID cfg (c := c)
    have hstable := newRun_stable (c := c) (s := s) now sessionID msg cfg
    obtain rfl := h.table
    constructor
    · simp only [step, create, JSONLRunStore.step,
        JSONLRunStore.create, returned, hstable, hnew]
    · have hcopy : cloneRun c (s.newRun c now sessionID msg cfg) =
          s.newRun c now sessionID msg cfg :=
        hnew ▸ cloneRun_newRun now sessionID msg cfg
      have hadd := h.stored hstable hcopy (add_find? rfl)
        (s.appended c (s.newRun c now sessionID msg cfg))
      simp only [step, create, JSONLRunStore.step]
      rwa [add_congr ((cloneRun_newRun now sessionID msg cfg).trans hnew) rfl rfl]
  | update now r =>
    simp only [HandledAlike] at hop
    cases hf : t.find? r.run.id with
    | none =>
      simp only [hf] at hop
      obtain ⟨cloned, hc⟩ := Option.isSome_iff_exists.mp hop
      simp only [step, update, JSONLRunStore.step,
        JSONLRunStore.update, h.table, hf, hc]
      exact ⟨trivial, h⟩
    | some old =>
      simp only [hf] at hop
      obtain ⟨hjson, hcopy⟩ := hop
      have hstamped : cloneRun c (r.stamped now) = r.stamped now := by
        rw [stamped, ← congrArg rest hcopy]
        exact congrArg (mk _) (congrArg rest (cloneRun_cloneRun c r))
      have hfind : ∀ id, (t.replace (r.stamped now)).find? id = _ := put_find? hf
      have hput := h.stored (cloneAgentRun_stamped hjson now) hstamped hfind
        (s.appended c (r.stamped now))
      simp only [step, update, JSONLRunStore.step,
        JSONLRunStore.update, h.table, hf, hjson, hstamped]
      exact ⟨trivial, hput⟩
  | claimQueuedRun started now id =>
    have hjson := JSONLRunStore.claimQueuedRun_cases (h.table ▸ h.stable) started now id
    rw [h.table] at hjson
    simp only [step, claimQueuedRun, JSONLRunStore.step]
    rcases hjson with ⟨heq, hf⟩ | ⟨current, hf, hq, heq⟩ | ⟨current, hf, hq, heq⟩
    · simp only [heq, hf]
      exact ⟨trivial, h⟩
    · simp only [heq, hf, if_pos hq, h.copied id current hf]
      exact ⟨trivial, h⟩
    · obtain rfl := id_of_find? hf
      have hcopy := h.copied _ current hf
      have hclaimed : cloneRun c (current.claimed started now) = current.claimed started now :=
        congrArg (mk _) (congrArg rest hcopy)
      have hput := h.stored (cloneAgentRun_claimed (h.stable _ current hf) started now) hclaimed
        (put_find? hf) (s.appended c (current.claimed started now))
      simp only [heq, hf, if_neg (not_not.mpr hq), hcopy, hclaimed]
      exact ⟨trivial, hput⟩
  | getScoped id scope => exact ⟨congrArg RunAnswer.run (h.getScoped id scope), h⟩
  | list filter order => exact ⟨congrArg RunAnswer.page (h.list filter order), h⟩
  | findByExternalEvent e =>
    refine ⟨congrArg RunAnswer.run ?_, h⟩
    simp only [findByExternalEvent, JSONLRunStore.findByExternalEvent, h.table]
    cases hl : t.byEventID.lookup e with
    | none => rfl
    | some id =>
      obtain ⟨r, hf⟩ := Option.isSome_iff_exists.mp (hop id hl)
      simp only [hf, returned, h.stable id r hf, h.copied id r hf]
  | seen now e within =>
    refine ⟨?_, h⟩
    simp only [step, JSONLRunStore.step, h.table]
  | pruneRuns before =>
    obtain rfl := h.table
    simp only [step, JSONLRunStore.step, JSONLRunStore.pruneRuns]
    split_ifs with hbefore
    · simp only [pruneRuns, if_pos hbefore]
      exact ⟨trivial, h⟩
    · exact ⟨rfl, h.prune before _⟩

theorem notFound_ne_encodeError (id : String) : notFound id ≠ encodeError := by
  intro h
  have := congrArg (fun e : Err => e.text.toList.head?) h
  simp [notFound, encodeError] at this

/-- An update of a known run that both stores answer and show alike is one with a record that
    copying does not change. -/
theorem unchanged_of_update (h : SameTables c t s) {now : Time} {r old : RunRecord X}
    (hold : t.find? r.run.id = some old)
    (hans : (step c t (.update now r)).1 =
      (s.step c (.update now r)).1)
    (hvisible : SameVisible c (step c t (.update now r)).2
      (s.step c (.update now r)).2) :
    cloneAgentRun c r = some r ∧ cloneRun c r = r := by
  simp only [step, update, JSONLRunStore.step,
    JSONLRunStore.update, h.table, hold] at hans hvisible
  cases hc : cloneAgentRun c r with
  | none => simp [hc] at hans
  | some cloned =>
    simp only [hc, updated.injEq, Except.ok.injEq] at hans hvisible
    -- the caller's record shows that the encoding changed nothing
    have hcloned : cloned = r := by
      obtain ⟨tools, rest, -, -, rfl⟩ := cloneAgentRun_eq_some.mp hc
      have htools := congrArg (fun r : RunRecord X => r.run.pendingTools) hans
      have hrest := congrArg RunRecord.rest hans
      simp only [stamped, Run.stamped] at htools hrest
      rw [← htools, ← hrest]
    subst hcloned
    refine ⟨rfl, ?_⟩
    -- what is read afterwards shows that the deep copy changed nothing
    have hget := hvisible.1 cloned.run.id {}
    simp only [getScoped, JSONLRunStore.getScoped, replace_find?] at hget
    have hput : ∀ r', r'.run.id = cloned.run.id → (t.put r').find? cloned.run.id = some r' := by
      intro r' hid
      rw [put_find? (hid ▸ hold), if_pos hid.symm]
    have hm := hput (cloneRun c (cloned.stamped now)) rfl
    have hj := hput (cloned.stamped now) rfl
    simp only [hm, hj, ScopeFilter.admits_empty, if_true, returned,
      cloneAgentRun_stamped hc now, cloneRun_cloneRun, Except.ok.injEq, Option.some.injEq] at hget
    have hrest : c.copyRest cloned.rest = cloned.rest := congrArg rest hget
    rw [cloneRun, hrest]

theorem handledAlike_of_agree (h : SameTables c t s) (op : RunOp X)
    (hans : (step c t op).1 = (s.step c op).1)
    (hvisible : SameVisible c (step c t op).2 (s.step c op).2) :
    HandledAlike c t op := by
  cases op with
  | create now sessionID msg cfg =>
    have hstable := newRun_stable (c := c) (s := s) now sessionID msg cfg
    simp only [step, JSONLRunStore.step,
      JSONLRunStore.create, returned, hstable, run.injEq, Except.ok.injEq,
      Option.some.injEq] at hans
    exact congrArg (fun r : RunRecord X => r.run.parentRunID) hans
  | update now r =>
    simp only [HandledAlike]
    cases hf : t.find? r.run.id with
    | none =>
      cases hc : cloneAgentRun c r with
      | none =>
        simp only [step, update, JSONLRunStore.step,
          JSONLRunStore.update, hf, hc, updated.injEq, Except.error.injEq] at hans
        exact absurd hans (notFound_ne_encodeError _)
      | some cloned => rfl
    | some old => exact unchanged_of_update h hf hans hvisible
  | findByExternalEvent e =>
    intro id hl
    simp only [step, findByExternalEvent, JSONLRunStore.step,
      JSONLRunStore.findByExternalEvent, h.table, hl] at hans
    cases hf : t.find? id with
    | none => simp [hf] at hans
    | some r => rfl
  | claimQueuedRun started now id => trivial
  | getScoped id scope => trivial
  | list filter order => trivial
  | seen now e within => trivial
  | pruneRuns before => trivial

/-! ## Whole histories -/

/-- The two stores give the same answers, field by field, and show the same runs after every part of
    a history, exactly if both handle all its calls alike. -/
theorem run_stores_agree_iff (c : Cloning X) (ops : List (RunOp X)) :
    AgreeAlong (step c) (JSONLRunStore.step c) (SameVisible c) {} {} ops ↔
      Meets (next (step c)) (HandledAlike c) {} ops :=
  agreeAlong_iff (R := SameTables c) (fun _ _ h => h.visible)
    (fun _ _ op h hop => agree_of_handledAlike h op hop)
    (fun _ _ op h hans hvisible => handledAlike_of_agree h op hans hvisible) SameTables.empty

/-- A run with a parent is created. -/
def parentOps : List (RunOp Unit) :=
  [.create 1 "sess" { sessionKey := "chat", parentRunID := "run-000007" } {}]

/-- The parent run an answer shows. -/
def RunAnswer.parent? : RunAnswer X → Option String
  | .run (.ok (some r)) => some r.run.parentRunID
  | _ => none

/-- Only one of the stores keeps the parent of a new run. -/
theorem jsonl_store_loses_parent :
    (answers (step plain) {} parentOps).map parent? =
      [some "run-000007"] ∧
    (answers (JSONLRunStore.step plain) {} parentOps).map parent? = [some ""] ∧
    ¬ AgreeAlong (step plain) (JSONLRunStore.step plain)
      (SameVisible plain) {} {} parentOps := by
  refine ⟨by decide +kernel, by decide +kernel, fun hagree => ?_⟩
  have hans := congrArg (List.map parent?) (hagree parentOps (List.prefix_refl _)).1
  exact absurd hans (by decide +kernel)

end Hopclaw.Store
