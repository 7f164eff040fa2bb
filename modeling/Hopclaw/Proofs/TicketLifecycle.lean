import Hopclaw.Interleaving.Machine
import Hopclaw.Store.ApprovalStores

/-! # The life of an approval ticket

Whatever calls `approval.InMemoryStore` gets, a run has at most one pending ticket, a decision is
never changed, and an approval is no broader than the ticket's metadata allow. Every call holds the
lock of the store, so that the calls of all callers form one list. -/

namespace Hopclaw.Approval

/-- The broadest scope an approval of the ticket may have: the maximum its metadata give, their
    default where they give no maximum, and `once` where they give neither. -/
def TicketRecord.maximumScope (ticket : TicketRecord) : Scope :=
  let (defaultScope, maxScope) := scopePolicyFromTicket ticket.toTicket
  (maxScope.orElse defaultScope).orElse .once

/-- A normal resolution decides as it was asked to, and an approval keeps to the maximal scope. -/
theorem normalizeResolution_ok {ticket : TicketRecord} {resolution normal : Resolution}
    (h : normalizeResolution ticket.toTicket resolution = .ok normal) :
    normal.status = resolution.status ∧
      (normal.status = .approved → scopeRank normal.scope ≤ scopeRank ticket.maximumScope) := by
  unfold normalizeResolution at h
  cases hs : normalizeScope resolution.scope with
  | error e => simp [hs, bind, Except.bind] at h
  | ok scope =>
    simp only [hs, bind, Except.bind] at h
    split_ifs at h with hstatus hbroad
    · cases h
      exact ⟨rfl, fun happroved => absurd happroved hstatus⟩
    · cases h
      exact ⟨rfl, fun _ => not_isScopeBroader_iff.mp (Bool.eq_false_iff.mpr hbroad)⟩

end Hopclaw.Approval

namespace Hopclaw.Store

open GoStrings Interleaving Approval InMemoryStore Maps

variable {t : TicketTable}

/-- The tables after a list of calls. -/
abbrev ticketsAfter (t : TicketTable) (calls : List ApprovalCall) : TicketTable :=
  runAll (next InMemoryStore.step) t calls

/-! ## What a call can do -/

/-- The reference whose id `UpsertExternalRef` takes out of the index. -/
def previousReference (ticket : TicketRecord) (ref : ExternalReference) :
    Option ExternalReference :=
  (externalReferenceByProvider ticket.external ref.provider).map normalizeExternalReference

/-- A call leaves the tables as they are, or it enters a ticket for a run that has none pending, or
    decides a pending ticket, or changes the references of a ticket. -/
inductive Changes (t : TicketTable) : ApprovalCall → TicketTable → Prop
  | nothing (call : ApprovalCall) : Changes t call t
  | entered (now : Time) (ticket : TicketRecord) (run : ticket.runID ≠ "")
      (free : t.pendingFor ticket.runID = none) :
      Changes t (.create now ticket) (t.enter (InMemoryStore.newTicket t now ticket).clone)
  | resolved (now : Time) (id : String) (input : ResolutionInput) (ticket : TicketRecord)
      (resolution normal : Resolution) (found : t.byID.lookup id = some ticket)
      (pending : ticket.status = .pending) (decision : input.resolution? = some resolution)
      (allowed : normalizeResolution ticket.toTicket resolution = .ok normal) :
      Changes t (.resolve now id input)
        { t with byID := t.byID.insert id (ticket.resolved now normal) }
  | upserted (now : Time) (id : String) (ref : ExternalReference) (ticket : TicketRecord)
      (refs : List ExternalReference) (merged : ExternalReference)
      (found : t.byID.lookup id = some ticket)
      (written : upsertExternalReferences now ticket.external ref = .ok (refs, merged)) :
      Changes t (.upsertExternalRef now id ref)
        (t.upsert ticket (previousReference ticket ref) refs merged id)

theorem step_changes (t : TicketTable) (call : ApprovalCall) :
    Changes t call (next step t call) := by
  cases call with
  | create now ticket =>
    simp only [next, step, create]
    by_cases hrun : ticket.runID = ""
    · rw [if_pos hrun]
      exact .nothing _
    · rw [if_neg hrun]
      cases hp : t.pendingFor ticket.runID with
      | some existing => exact .nothing _
      | none => exact .entered now ticket hrun hp
  | resolve now id input =>
    simp only [next, step, resolve]
    cases hl : t.byID.lookup id with
    | none => exact .nothing _
    | some ticket =>
      by_cases hp : ticket.status = .pending
      · simp only [hp, ne_eq, not_true_eq_false, if_false]
        cases hd : input.resolution? with
        | none => exact .nothing _
        | some resolution =>
          cases hn : normalizeResolution ticket.toTicket resolution with
          | error e =>
            simp only [hn]
            exact .nothing _
          | ok normal =>
            simp only [hn]
            exact .resolved now id input ticket resolution normal hl hp hd hn
      · simp only [hp, ne_eq, not_false_eq_true, if_true]
        exact .nothing _
  | upsertExternalRef now id ref =>
    simp only [next, step, upsertExternalRef]
    cases hl : t.byID.lookup id with
    | none => exact .nothing _
    | some ticket =>
      cases hu : upsertExternalReferences now ticket.external ref with
      | error e =>
        simp only [hu]
        exact .nothing _
      | ok result =>
        simp only [hu]
        exact .upserted now id ref ticket result.1 result.2 hl hu
  | get id => exact .nothing _
  | getByRun runID => exact .nothing _
  | getByExternal provider externalID => exact .nothing _
  | list filter order order' => exact .nothing _

/-! ## Ids -/

theorem ticketID_injective : Function.Injective ticketID := by
  intro m n h
  have hlist := congrArg String.toList h
  simp only [ticketID, String.toList_append, List.append_cancel_left_eq,
    String.toList_ofList] at hlist
  exact zeroPadded_injective 6 hlist

/-- Tickets are stored under their ids, and ids are given out in order. -/
structure Numbered (t : TicketTable) : Prop where
  keyed : ∀ id ticket, t.byID.lookup id = some ticket → ticket.id = id
  given : ∀ id ticket, t.byID.lookup id = some ticket → ∃ n < t.nextID, id = ticketID (n + 1)

theorem Numbered.fresh (h : Numbered t) : t.byID.lookup (ticketID (t.nextID + 1)) = none := by
  cases hl : t.byID.lookup (ticketID (t.nextID + 1)) with
  | none => rfl
  | some ticket =>
    obtain ⟨n, hn, hid⟩ := h.given _ ticket hl
    have := ticketID_injective hid
    omega

variable {id : String} {old : TicketRecord}

/-- A ticket that is written keeps the id it is stored under. -/
theorem Numbered.write (h : Numbered t) (hl : t.byID.lookup id = some old) (ticket : TicketRecord)
    (hid : ticket.id = old.id) (byExtID : AList fun _ : String => String) :
    Numbered { t with byID := t.byID.insert id ticket, byExtID } := by
  refine ⟨fun _ _ => forall_insert (h.keyed _ _) ?_,
    fun _ _ => forall_insert (h.given _ _) (h.given id old hl)⟩
  rw [hid, h.keyed id old hl]

theorem Numbered.enter (h : Numbered t) (now : Time) (ticket : TicketRecord) :
    Numbered (t.enter (newTicket t now ticket).clone) := by
  refine ⟨fun _ _ => forall_insert (h.keyed _ _) rfl,
    fun _ _ => forall_insert (P := fun id _ => ∃ n < t.nextID + 1, id = ticketID (n + 1))
      (fun hl => ?_) ⟨_, Nat.lt_succ_self _, rfl⟩⟩
  obtain ⟨n, hn, hgiven⟩ := h.given _ _ hl
  exact ⟨n, by omega, hgiven⟩

variable {t' : TicketTable} {call : ApprovalCall}

theorem Numbered.changes (h : Numbered t) (hc : Changes t call t') : Numbered t' := by
  cases hc with
  | nothing => exact h
  | entered now ticket => exact h.enter now ticket
  | resolved now id input ticket resolution normal found =>
    exact h.write found (ticket.resolved now normal) rfl _
  | upserted now id ref ticket refs merged found =>
    exact h.write found { ticket with external := refs } rfl _

/-! ## One pending ticket a run -/

/-- A run has at most one pending ticket. -/
def OnePending (t : TicketTable) : Prop :=
  ∀ id id' ticket ticket', t.byID.lookup id = some ticket → t.byID.lookup id' = some ticket' →
    ticket.status = .pending → ticket'.status = .pending → ticket.runID = ticket'.runID → id = id'

/-- A pending ticket is the one its run leads to. -/
def PendingIndexed (t : TicketTable) : Prop :=
  ∀ id ticket, t.byID.lookup id = some ticket → ticket.status = .pending →
    t.byRunID.lookup ticket.runID = some id

theorem PendingIndexed.onePending (h : PendingIndexed t) : OnePending t := by
  intro id id' ticket ticket' hl hl' hp hp' hrun
  have hid := h id ticket hl hp
  have hid' := h id' ticket' hl' hp'
  rw [hrun, hid'] at hid
  exact (Option.some.inj hid).symm

theorem PendingIndexed.pendingFor (h : PendingIndexed t) {ticket : TicketRecord}
    (hl : t.byID.lookup id = some ticket) (hp : ticket.status = .pending) :
    t.pendingFor ticket.runID = some ticket := by
  simp [TicketTable.pendingFor, h id ticket hl hp, hl, hp]

/-- A ticket that is written stays with its run and does not become pending. -/
theorem PendingIndexed.write (h : PendingIndexed t) (hl : t.byID.lookup id = some old)
    (ticket : TicketRecord) (hrun : ticket.runID = old.runID)
    (hp : ticket.status = .pending → old.status = .pending)
    (byExtID : AList fun _ : String => String) :
    PendingIndexed { t with byID := t.byID.insert id ticket, byExtID } := by
  refine fun _ _ => forall_insert (h _ _) fun hpending => ?_
  rw [hrun]
  exact h id old hl (hp hpending)

theorem PendingIndexed.changes (h : PendingIndexed t) (hc : Changes t call t') :
    PendingIndexed t' := by
  cases hc with
  | nothing => exact h
  | entered now ticket run free =>
    intro id ticket' hl hp
    simp only [TicketTable.enter] at hl ⊢
    rw [lookup_insert_if] at hl ⊢
    split_ifs at hl with hid
    · cases hl
      rw [if_pos rfl, hid]
    · -- an older pending ticket belongs to another run: this one had none
      have hother : ticket'.runID ≠ (newTicket t now ticket).clone.runID := by
        intro hrun
        have hpending := h.pendingFor hl hp
        rw [hrun] at hpending
        exact absurd (free.symm.trans hpending) (by simp)
      rw [if_neg hother]
      exact h id ticket' hl hp
  | resolved now id input ticket resolution normal found pending decision allowed =>
    exact h.write found (ticket.resolved now normal) rfl (fun _ => pending) _
  | upserted now id ref ticket refs merged found =>
    exact h.write found { ticket with external := refs } rfl (fun hp => hp) _

/-! ## Decisions -/

/-- The same decision, taken by the same resolver. -/
structure SameDecision (ticket ticket' : TicketRecord) : Prop where
  status : ticket'.status = ticket.status
  scope : ticket'.scope = ticket.scope
  resolvedBy : ticket'.resolvedBy = ticket.resolvedBy
  note : ticket'.note = ticket.note

/-- Every ticket that is decided in the first store is in the second, decided in the same way. -/
def DecisionsStand (t t' : TicketTable) : Prop :=
  ∀ id ticket, t.byID.lookup id = some ticket → ticket.status ≠ .pending →
    ∃ ticket', t'.byID.lookup id = some ticket' ∧ SameDecision ticket ticket'

theorem DecisionsStand.refl (t : TicketTable) : DecisionsStand t t :=
  fun _ ticket hl _ => ⟨ticket, hl, rfl, rfl, rfl, rfl⟩

theorem DecisionsStand.trans {t₁ t₂ t₃ : TicketTable} (h : DecisionsStand t₁ t₂)
    (h' : DecisionsStand t₂ t₃) : DecisionsStand t₁ t₃ := by
  intro id ticket hl hp
  obtain ⟨ticket₂, hl2, hsame⟩ := h id ticket hl hp
  obtain ⟨ticket₃, hl3, hsame'⟩ := h' id ticket₂ hl2 (hsame.status ▸ hp)
  exact ⟨ticket₃, hl3, hsame'.status.trans hsame.status, hsame'.scope.trans hsame.scope,
    hsame'.resolvedBy.trans hsame.resolvedBy, hsame'.note.trans hsame.note⟩

theorem DecisionsStand.write (hl : t.byID.lookup id = some old) (ticket : TicketRecord)
    (hsame : old.status ≠ .pending → SameDecision old ticket)
    (byExtID : AList fun _ : String => String) :
    DecisionsStand t { t with byID := t.byID.insert id ticket, byExtID } := by
  intro id' ticket' hl' hp
  by_cases hid : id' = id
  · subst hid
    rw [hl] at hl'
    cases hl'
    exact ⟨ticket, AList.lookup_insert _, hsame hp⟩
  · exact ⟨ticket', (AList.lookup_insert_ne hid).trans hl', rfl, rfl, rfl, rfl⟩

theorem DecisionsStand.changes (hn : Numbered t) (hc : Changes t call t') :
    DecisionsStand t t' := by
  cases hc with
  | nothing => exact .refl t
  | entered now ticket =>
    intro id ticket' hl hp
    have hid : id ≠ ticketID (t.nextID + 1) := by
      intro hid
      rw [hid, hn.fresh] at hl
      cases hl
    exact ⟨ticket', (AList.lookup_insert_ne hid).trans hl, rfl, rfl, rfl, rfl⟩
  | resolved now id input ticket resolution normal found pending =>
    exact .write found (ticket.resolved now normal) (fun hdecided => absurd pending hdecided) _
  | upserted now id ref ticket refs merged found =>
    exact .write found { ticket with external := refs } (fun _ => ⟨rfl, rfl, rfl, rfl⟩) _

/-- No approval has a broader scope than the ticket allows. -/
def WithinMaximum (t : TicketTable) : Prop :=
  ∀ id ticket, t.byID.lookup id = some ticket → ticket.status = .approved →
    scopeRank ticket.scope ≤ scopeRank ticket.maximumScope

theorem WithinMaximum.write (h : WithinMaximum t) (id : String) (ticket : TicketRecord)
    (hticket : ticket.status = .approved → scopeRank ticket.scope ≤ scopeRank ticket.maximumScope)
    (nextID : ℕ) (byRunID byExtID : AList fun _ : String => String) :
    WithinMaximum { nextID, byRunID, byExtID, byID := t.byID.insert id ticket } := by
  intro id' ticket' hl happroved
  rw [lookup_insert_if] at hl
  split_ifs at hl with hid
  · cases hl
    exact hticket happroved
  · exact h id' ticket' hl happroved

theorem WithinMaximum.changes (h : WithinMaximum t) (hc : Changes t call t') :
    WithinMaximum t' := by
  cases hc with
  | nothing => exact h
  | entered now ticket => exact h.write _ _ (fun happroved => by cases happroved) _ _ _
  | resolved now id input ticket resolution normal found pending decision allowed =>
    exact h.write id (ticket.resolved now normal) (normalizeResolution_ok allowed).2 _ _ _
  | upserted now id ref ticket refs merged found =>
    exact h.write id { ticket with external := refs } (h id ticket found) _ _ _

/-! ## All runs -/

/-- What holds in every state the store can reach. -/
structure Orderly (t : TicketTable) : Prop where
  numbered : Numbered t
  pending : PendingIndexed t
  scopes : WithinMaximum t

theorem orderly_empty : Orderly {} := by
  refine ⟨⟨?_, ?_⟩, ?_, ?_⟩ <;> intro id ticket hl <;> simp at hl

theorem Orderly.step (h : Orderly t) (call : ApprovalCall) : Orderly (next step t call) :=
  let hc := step_changes t call
  ⟨h.numbered.changes hc, h.pending.changes hc, h.scopes.changes hc⟩

theorem orderly_ticketsAfter (calls : List ApprovalCall) : Orderly (ticketsAfter {} calls) :=
  runAll_inv _ (fun _ call h => h.step call) orderly_empty calls

theorem decisionsStand_ticketsAfter (h : Orderly t) (calls : List ApprovalCall) :
    DecisionsStand t (ticketsAfter t calls) := by
  induction calls generalizing t with
  | nil => exact .refl t
  | cons call calls ih =>
    exact (DecisionsStand.changes h.numbered (step_changes t call)).trans (ih (h.step call))

/-- After any calls a run has at most one pending ticket and no approval is broader than its ticket
    allows; a decision stands whatever calls follow. -/
theorem tickets_decided_once (calls later : List ApprovalCall) :
    OnePending (ticketsAfter {} calls) ∧
      DecisionsStand (ticketsAfter {} calls) (ticketsAfter {} (calls ++ later)) ∧
      WithinMaximum (ticketsAfter {} calls) := by
  have h := orderly_ticketsAfter calls
  have happend : ticketsAfter {} (calls ++ later) = ticketsAfter (ticketsAfter {} calls) later :=
    runAll_append _ _ _ _
  refine ⟨h.pending.onePending, ?_, h.scopes⟩
  rw [happend]
  exact decisionsStand_ticketsAfter h later

/-- A ticket whose metadata give a default scope and no maximal one, approved without a scope. -/
def sessionDefaultCalls : List ApprovalCall :=
  [.create 1
    { runID := "run-1", metadata := [("policy_approval_default_scope", .str "session")] },
    .resolve 2 (ticketID 1) { status := .named .approved }]

/-- The metadata give no maximum and the approval lasts for the session, not for the one call. -/
theorem default_scope_serves_as_maximum :
    ∃ ticket, (ticketsAfter {} sessionDefaultCalls).byID.lookup (ticketID 1) = some ticket ∧
      ticket.status = .approved ∧ (scopePolicyFromTicket ticket.toTicket).2 = .unset ∧
      scopeRank .once < scopeRank ticket.scope := by
  have hany : ((ticketsAfter {} sessionDefaultCalls).byID.lookup (ticketID 1)).any (fun ticket =>
      ticket.status = .approved ∧ (scopePolicyFromTicket ticket.toTicket).2 = .unset ∧
        scopeRank .once < scopeRank ticket.scope) = true := by
    decide +kernel
  obtain ⟨ticket, hl, hticket⟩ := (Option.any_eq_true _ _).mp hany
  exact ⟨ticket, hl, of_decide_eq_true hticket⟩

/-- After any calls the ids are those given out, the next one is free, and a run leads to its
    pending ticket. -/
theorem tickets_found_by_id_and_run (calls : List ApprovalCall) :
    let t := ticketsAfter {} calls
    Numbered t ∧ t.byID.lookup (ticketID (t.nextID + 1)) = none ∧ PendingIndexed t := by
  have h := orderly_ticketsAfter calls
  exact ⟨h.numbered, h.numbered.fresh, h.pending⟩

end Hopclaw.Store
