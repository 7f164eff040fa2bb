import Mathlib.Data.Prod.Lex
import Mathlib.Data.String.Basic
import Hopclaw.Domain.Pages
import Hopclaw.Interleaving.Machine
import Hopclaw.Store.ApprovalStores

/-! # The two approval stores compared

`approval.InMemoryStore` and `JSONLApprovalStore` implement one interface. The second has no default
for the kind of a ticket, writes neither normal forms nor summaries, copies by way of JSON, takes
every scope of a decision as it is, and reports a missing or resolved ticket without the sentinel
errors of the first. As long as no call is one where this shows, every ticket of the second is the
copy the first would return. -/

namespace Hopclaw.Store

open List GoStrings Interleaving Approval TicketTable Maps JSONLApprovalStore
open ApprovalAnswer (ofTicket ofOption ofList)
open JSONLApprovalStore (returned)

variable {c : JSONCoding Fields} {s t : TicketTable}

/-- The call is one that both stores treat alike. -/
def TreatedAlike (c : JSONCoding Fields) (t : TicketTable) : ApprovalCall → Prop
  | .create _ ticket =>
    ticket.runID = "" ∨ (t.pendingFor ticket.runID).isSome = true ∨
      ticket.kind ≠ .unset ∧ ticket.clone.clone = ticket ∧ jsonTicket c ticket = some ticket
  | .resolve _ id input =>
    ∃ ticket, t.byID.lookup id = some ticket ∧ ticket.status = .pending ∧
      ∀ resolution, input.resolution? = some resolution →
        normalizeResolution ticket.toTicket resolution = .ok resolution
  | .upsertExternalRef now id ref =>
    ∀ ticket refs merged, t.byID.lookup id = some ticket →
      upsertExternalReferences now ticket.external ref = .ok (refs, merged) →
        c.json merged.metadata = some merged.metadata
  | _ => True

/-! ## Copies by way of JSON -/

section Lists

variable {α β : Type} {f : α → Option β}

theorem mapM_eq_some {xs : List α} {ys : List β} :
    xs.mapM f = some ys ↔ List.Forall₂ (fun x y => f x = some y) xs ys := by
  induction xs generalizing ys with
  | nil => simp
  | cons x xs ih =>
    simp only [mapM_cons, Option.bind_eq_bind, Option.bind_eq_some_iff, ih, Option.pure_def,
      Option.some.injEq, forall₂_cons_left_iff]
    exact ⟨fun ⟨y, hy, rest, hrest, heq⟩ => ⟨y, rest, hy, hrest, heq.symm⟩,
      fun ⟨y, rest, hy, hrest, heq⟩ => ⟨y, hy, rest, hrest, heq.symm⟩⟩

theorem mapM_eq_some_map_iff {g : α → β} (xs : List α) :
    xs.mapM f = some (xs.map g) ↔ ∀ x ∈ xs, f x = some (g x) := by
  rw [mapM_eq_some, forall₂_map_right_iff, forall₂_same]

theorem exists_of_mem_mapM {xs : List α} {ys : List β} (h : xs.mapM f = some ys) :
    ∀ y ∈ ys, ∃ x, f x = some y := by
  induction mapM_eq_some.mp h with
  | nil => simp
  | cons hxy hrest ih => exact forall_mem_cons.mpr ⟨⟨_, hxy⟩, ih (mapM_eq_some.mpr hrest)⟩

end Lists

/-- JSON does not change the inputs and metadata of the ticket. -/
structure Encoded (c : JSONCoding Fields) (ticket : TicketRecord) : Prop where
  toolCalls : ∀ call ∈ ticket.toolCalls, c.json call.input = some call.input
  metadata : c.json ticket.metadata = some ticket.metadata
  external : ∀ ref ∈ ticket.external, c.json ref.metadata = some ref.metadata

theorem jsonCall_eq_some {call call' : RecordedCall} : jsonCall c call = some call' ↔
    c.json call.input = some call'.input ∧ call' = { call with input := call'.input } := by
  rw [jsonCall, Option.map_eq_some_iff]
  constructor
  · rintro ⟨input, hinput, rfl⟩
    exact ⟨hinput, rfl⟩
  · rintro ⟨hinput, hcall⟩
    exact ⟨_, hinput, hcall.symm⟩

variable {ref : ExternalReference}

theorem jsonReference_eq_some {ref' : ExternalReference} : jsonReference c ref = some ref' ↔
    c.json ref.metadata = some ref'.metadata ∧ ref' = { ref with metadata := ref'.metadata } := by
  rw [jsonReference, Option.map_eq_some_iff]
  constructor
  · rintro ⟨metadata, hmetadata, rfl⟩
    exact ⟨hmetadata, rfl⟩
  · rintro ⟨hmetadata, href⟩
    exact ⟨_, hmetadata, href.symm⟩

variable {ticket : TicketRecord}

theorem jsonTicket_eq_some {cloned : TicketRecord} : jsonTicket c ticket = some cloned ↔
    ticket.toolCalls.mapM (jsonCall c) = some cloned.toolCalls ∧
      c.json ticket.metadata = some cloned.metadata ∧
      ticket.external.mapM (jsonReference c) = some cloned.external ∧
      cloned = { ticket with
        toolCalls := cloned.toolCalls, metadata := cloned.metadata
        external := cloned.external } := by
  simp only [jsonTicket, Option.pure_def, Option.bind_eq_bind, Option.bind_eq_some_iff,
    Option.some.injEq]
  constructor
  · rintro ⟨toolCalls, hcalls, metadata, hmetadata, external, hexternal, rfl⟩
    exact ⟨hcalls, hmetadata, hexternal, rfl⟩
  · rintro ⟨hcalls, hmetadata, hexternal, hcloned⟩
    exact ⟨_, hcalls, _, hmetadata, _, hexternal, hcloned.symm⟩

theorem jsonTicket_eq_self_iff : jsonTicket c ticket = some ticket ↔ Encoded c ticket := by
  have hcalls := mapM_eq_some_map_iff (f := jsonCall c) (g := id) ticket.toolCalls
  have hrefs := mapM_eq_some_map_iff (f := jsonReference c) (g := id) ticket.external
  simp only [map_id, id_eq, jsonCall_eq_some, jsonReference_eq_some, and_true]
    at hcalls hrefs
  rw [jsonTicket_eq_some, hcalls, hrefs]
  exact ⟨fun ⟨h1, h2, h3, _⟩ => ⟨h1, h2, h3⟩, fun h => ⟨h.1, h.2, h.3, rfl⟩⟩

/-- What was decoded is not changed by another round trip. -/
theorem Encoded.of_jsonTicket {cloned : TicketRecord} (h : jsonTicket c ticket = some cloned) :
    Encoded c cloned := by
  obtain ⟨hcalls, hmetadata, hexternal, -⟩ := jsonTicket_eq_some.mp h
  refine ⟨fun call hcall => ?_, c.json_json hmetadata, fun ref href => ?_⟩
  · obtain ⟨call', hjson⟩ := exists_of_mem_mapM hcalls call hcall
    exact c.json_json (jsonCall_eq_some.mp hjson).1
  · obtain ⟨ref', hjson⟩ := exists_of_mem_mapM hexternal ref href
    exact c.json_json (jsonReference_eq_some.mp hjson).1

theorem returned_eq (h : Encoded c ticket) : returned c ticket = .ok ticket := by
  rw [returned, jsonTicket_eq_self_iff.mpr h]

/-! ## References -/

@[simp] theorem normalizeExternalReference_idem (ref : ExternalReference) :
    normalizeExternalReference (normalizeExternalReference ref) =
      normalizeExternalReference ref := by
  simp [normalizeExternalReference, trimSpace_trimSpace]

theorem map_normalizeExternalReference_idem (refs : List ExternalReference) :
    (refs.map normalizeExternalReference).map normalizeExternalReference =
      refs.map normalizeExternalReference := by
  rw [map_map]
  exact map_congr_left fun ref _ => normalizeExternalReference_idem ref

theorem upsertExternalReferences_normalized (now : Time) (refs : List ExternalReference)
    (update : ExternalReference) :
    upsertExternalReferences now (refs.map normalizeExternalReference) update =
      upsertExternalReferences now refs update := by
  simp only [upsertExternalReferences, map_normalizeExternalReference_idem]

theorem externalReferenceByProvider_normalized (refs : List ExternalReference)
    (provider : String) :
    externalReferenceByProvider (refs.map normalizeExternalReference) provider =
      (externalReferenceByProvider refs provider).map normalizeExternalReference := by
  simp only [externalReferenceByProvider, List.find?_map]
  split_ifs with hprovider
  · rfl
  · congr 2
    funext ref
    simp [normalizeExternalReference, trimSpace_trimSpace]

theorem normalize_mergeExternalReference (now : Time) (current update : ExternalReference) :
    normalizeExternalReference
        (mergeExternalReference now current (normalizeExternalReference update)) =
      mergeExternalReference now current (normalizeExternalReference update) := by
  unfold mergeExternalReference normalizeExternalReference
  congr 1 <;> rw [apply_ite trimSpace, trimSpace_trimSpace, trimSpace_trimSpace]

variable {now : Time}

/-- An upsert keeps the other references, normalized, and writes one that is normal too. -/
theorem mem_upsertExternalReferences {existing refs : List ExternalReference}
    {update merged : ExternalReference}
    (h : upsertExternalReferences now existing update = .ok (refs, merged)) :
    normalizeExternalReference merged = merged ∧ merged ∈ refs ∧
      ∀ ref ∈ refs, ref = merged ∨ ∃ old ∈ existing, ref = normalizeExternalReference old := by
  obtain ⟨others, hrefs, hexisting, hmerged, -⟩ := upsertExternalReferences_perm h
  refine ⟨?_, hrefs.mem_iff.mpr mem_cons_self, fun ref href => ?_⟩
  · rw [hmerged]
    exact normalize_mergeExternalReference _ _ _
  · refine (mem_cons.mp (hrefs.mem_iff.mp href)).imp_right fun hother => ?_
    obtain ⟨old, hold, rfl⟩ :=
      mem_map.mp (hexisting.mem_iff.mpr (mem_append_right _ hother))
    exact ⟨old, hold, rfl⟩

/-! ## What shows in the answers -/

section Answers

variable {e e' : Err} {ticket' : TicketRecord}

@[simp] theorem ofTicket_ok_inj :
    ofTicket (.ok ticket) = .ofTicket (.ok ticket') ↔ ticket = ticket' := by
  simp [ofTicket, ofOption, Except.map, Except.mapError]

@[simp] theorem ofTicket_error_inj :
    ofTicket (.error e) = .ofTicket (.error e') ↔ e.sentinel = e'.sentinel := by
  simp [ofTicket, ofOption, Except.map, Except.mapError]

@[simp] theorem ofTicket_ok_ne : ofTicket (.ok ticket) ≠ .ofTicket (.error e) := by
  simp [ofTicket, ofOption, Except.map, Except.mapError]

@[simp] theorem ofTicket_error_ne : ofTicket (.error e) ≠ .ofTicket (.ok ticket) :=
  ofTicket_ok_ne.symm

theorem ofTicket_returned_iff :
    ofTicket (.ok ticket) = .ofTicket (returned c ticket) ↔
      Encoded c ticket := by
  rw [returned, ← jsonTicket_eq_self_iff]
  cases jsonTicket c ticket with
  | none => simp
  | some cloned => simp [eq_comm]

end Answers

/-! ## The stores side by side -/

@[simp] theorem clone_status (ticket : TicketRecord) : ticket.clone.status = ticket.status := rfl

@[simp] theorem clone_id (ticket : TicketRecord) : ticket.clone.id = ticket.id := rfl

/-- The second store holds the copies the first one returns, and JSON does not change them; the
    indexes are equal and name tickets that are stored. -/
structure SameTickets (c : JSONCoding Fields) (s t : TicketTable) : Prop where
  nextID : t.nextID = s.nextID
  byRunID : t.byRunID = s.byRunID
  byExtID : t.byExtID = s.byExtID
  tickets : ∀ id, t.byID.lookup id = (s.byID.lookup id).map TicketRecord.clone
  encoded : ∀ id ticket, t.byID.lookup id = some ticket → Encoded c ticket
  keyed : ∀ id ticket, s.byID.lookup id = some ticket → ticket.id = id
  runs : ∀ runID id, s.byRunID.lookup runID = some id → (s.byID.lookup id).isSome = true
  references : ∀ key id, s.byExtID.lookup key = some id → (s.byID.lookup id).isSome = true

theorem sameTickets_empty : SameTickets c {} {} := by
  constructor <;> simp

variable {id : String}

namespace SameTickets

variable (h : SameTickets c s t)

include h

theorem copy (hl : s.byID.lookup id = some ticket) :
    t.byID.lookup id = some ticket.clone ∧ Encoded c ticket.clone := by
  have hcopy : t.byID.lookup id = some ticket.clone := by rw [h.tickets, hl]; rfl
  exact ⟨hcopy, h.encoded id _ hcopy⟩

theorem missing (hl : s.byID.lookup id = none) : t.byID.lookup id = none := by
  rw [h.tickets, hl]
  rfl

/-! ### Reading -/

theorem get (id : String) : InMemoryStore.get s id = JSONLApprovalStore.get c t id := by
  cases hl : s.byID.lookup id with
  | none => simp only [InMemoryStore.get, JSONLApprovalStore.get, hl, h.missing hl]
  | some ticket =>
    obtain ⟨hcopy, henc⟩ := h.copy hl
    simp only [InMemoryStore.get, JSONLApprovalStore.get, hl, hcopy, returned_eq henc]

theorem returnedAt (hl : s.byID.lookup id = some ticket) :
    JSONLApprovalStore.returnedAt c t id = .ok (some ticket.clone) := by
  obtain ⟨hcopy, henc⟩ := h.copy hl
  simp only [JSONLApprovalStore.returnedAt, hcopy, returned_eq henc, Except.map]

theorem getByRun (runID : String) :
    (InMemoryStore.getByRun s runID).map some = JSONLApprovalStore.getByRun c t runID := by
  simp only [InMemoryStore.getByRun, JSONLApprovalStore.getByRun, h.byRunID]
  cases hrun : s.byRunID.lookup runID with
  | none => rfl
  | some id =>
    obtain ⟨ticket, hl⟩ := Option.isSome_iff_exists.mp (h.runs runID id hrun)
    simp only [InMemoryStore.get, hl, h.returnedAt hl, Except.map]

theorem getByExternal (provider externalID : String) :
    (InMemoryStore.getByExternal s provider externalID).map some =
      JSONLApprovalStore.getByExternal c t provider externalID := by
  simp only [InMemoryStore.getByExternal, JSONLApprovalStore.getByExternal, h.byExtID]
  cases hext : s.byExtID.lookup (externalReferenceLookupKey provider externalID) with
  | none => rfl
  | some id =>
    obtain ⟨ticket, hl⟩ := Option.isSome_iff_exists.mp (h.references _ id hext)
    simp only [hl, h.returnedAt hl, Except.map]

theorem pendingFor (runID : String) :
    t.pendingFor runID = (s.pendingFor runID).map TicketRecord.clone := by
  simp only [TicketTable.pendingFor, h.byRunID]
  cases s.byRunID.lookup runID with
  | none => rfl
  | some id =>
    simp only [h.tickets]
    cases s.byID.lookup id with
    | none => rfl
    | some ticket =>
      by_cases hp : ticket.status = .pending
      · simp [Option.filter, hp]
      · simp [Option.filter, hp]

/-! ### Lists -/

theorem list (filter : ListFilter) (order order' : VisitOrder) :
    list c t filter order' = .ok (InMemoryStore.list s filter order) := by
  have hvisit := (order (s.byID.entries.map Sigma.snd)).2
  have hvisit' := (order' (t.byID.entries.map Sigma.snd)).2
  have hstored : ∀ ticket ∈ (order' (t.byID.entries.map Sigma.snd)).1.filter filter.admits,
      t.byID.lookup ticket.id = some ticket := by
    intro ticket hticket
    obtain ⟨id, hl⟩ := mem_values.mp (hvisit'.mem_iff.mp (mem_filter.mp hticket).1)
    obtain ⟨old, hold, rfl⟩ := Option.map_eq_some_iff.mp ((h.tickets id).symm.trans hl)
    rwa [clone_id, h.keyed id old hold]
  have hjson := (mapM_eq_some_map_iff (f := jsonTicket c) (g := id) _).mpr fun ticket hticket =>
    jsonTicket_eq_self_iff.mpr (h.encoded _ ticket (hstored ticket hticket))
  rw [map_id] at hjson
  simp only [JSONLApprovalStore.list, hjson]
  -- sorting leaves nothing to the orders in which the maps were visited
  have hearlier : ∀ a b : TicketRecord, a.Earlier b ↔
      toLex (a.createdAt, a.id) ≤ toLex (b.createdAt, b.id) := by
    intro a b
    rw [Prod.Lex.toLex_le_toLex]
    rfl
  refine congrArg (fun l => Except.ok (filter.page l))
    (Pages.insertionSort_eq_of_perm _ hearlier ?_ fun a ha b hb hab => ?_)
  · have hvalues := (hvisit'.trans (values_perm_map h.tickets)).trans (hvisit.map _).symm
    have hfiltered := hvalues.filter filter.admits
    rwa [filter_map] at hfiltered
  · have hid : a.id = b.id := congrArg (fun p => (ofLex p).2) hab
    have hla := hstored a ha
    rw [hid, hstored b hb] at hla
    exact (Option.some.inj hla).symm

/-! ### Writing -/

/-- A ticket is written into both stores, and the indexes name nothing else that is new. -/
theorem put (new : TicketRecord) (henc : Encoded c new.clone) {s' t' : TicketTable}
    (hs : s'.byID = s.byID.insert new.id new) (ht : t'.byID = t.byID.insert new.id new.clone)
    (hnext : t'.nextID = s'.nextID) (hruns : t'.byRunID = s'.byRunID)
    (hexts : t'.byExtID = s'.byExtID)
    (hrun : ∀ runID id, s'.byRunID.lookup runID = some id →
      id = new.id ∨ s.byRunID.lookup runID = some id)
    (href : ∀ key id, s'.byExtID.lookup key = some id →
      id = new.id ∨ s.byExtID.lookup key = some id) : SameTickets c s' t' := by
  have hsome : ∀ id, id = new.id ∨ (s.byID.lookup id).isSome = true →
      (s'.byID.lookup id).isSome = true := by
    intro id hid
    rw [hs, lookup_insert_if]
    split_ifs with heq
    · rfl
    · exact hid.resolve_left heq
  refine ⟨hnext, hruns, hexts, fun id => ?_, ht ▸ fun _ _ => forall_insert (h.encoded _ _) henc,
    hs ▸ fun _ _ => forall_insert (h.keyed _ _) rfl,
    fun runID id hl => hsome id ((hrun runID id hl).imp_right (h.runs runID id)),
    fun key id hl => hsome id ((href key id hl).imp_right (h.references key id))⟩
  rw [hs, ht, lookup_insert_if, lookup_insert_if, h.tickets]
  split_ifs <;> rfl

omit h in
theorem mem_of_lookup_upsert (ticket : TicketRecord) (previous : Option ExternalReference)
    (refs : List ExternalReference) (merged : ExternalReference) {key id' : String}
    (hl : (s.upsert ticket previous refs merged id).byExtID.lookup key = some id') :
    id' = id ∨ s.byExtID.lookup key = some id' := by
  rw [lookup_upsert] at hl
  split_ifs at hl
  · exact .inl (Option.some.inj hl).symm
  · exact .inr hl

omit h in
/-- The references after an upsert are normal, so a copy of the ticket has them as they are. -/
theorem clone_upserted {merged : ExternalReference} {refs : List ExternalReference}
    (hup : upsertExternalReferences now ticket.external ref = .ok (refs, merged)) :
    TicketRecord.clone { ticket with external := refs } =
      { ticket.clone with external := refs } := by
  obtain ⟨hnormal, -, hmem⟩ := mem_upsertExternalReferences hup
  have hrefs : refs.map normalizeExternalReference = refs := by
    rw [map_congr_left (g := id), map_id]
    intro r hr
    rcases hmem r hr with rfl | ⟨old, -, rfl⟩
    · exact hnormal
    · exact normalizeExternalReference_idem old
  simp only [TicketRecord.clone, hrefs]

theorem existing_encoded {runID : String} {existing : TicketRecord}
    (hp : s.pendingFor runID = some existing) : Encoded c existing.clone := by
  simp only [TicketTable.pendingFor] at hp
  split at hp
  · exact absurd hp (by simp)
  · next id _ =>
    exact (h.copy (Option.filter_eq_some_iff.mp hp).1).2

/-! ### Calls that write -/

omit h in
/-- The answers are equal exactly if both stores treat the call alike, and then the stores hold the
    same tickets again. -/
def SameStep (c : JSONCoding Fields) (s : TicketTable) (call : ApprovalCall)
    (x y : Except Err TicketRecord × TicketTable) : Prop :=
  (ofTicket x.1 = .ofTicket y.1 ↔ TreatedAlike c s call) ∧
    (TreatedAlike c s call → SameTickets c x.2 y.2)

theorem resolve (now : Time) (id : String) (input : ResolutionInput) :
    SameStep c s (.resolve now id input) (InMemoryStore.resolve s now id input)
      (resolve c t now id input) := by
  unfold SameStep InMemoryStore.resolve JSONLApprovalStore.resolve
  cases hl : s.byID.lookup id with
  | none => simp [TreatedAlike, hl, h.missing hl, ticketNotFound]
  | some ticket =>
    obtain ⟨hcopy, henc⟩ := h.copy hl
    simp only [TreatedAlike, hl, hcopy, clone_status, Option.some.injEq, exists_eq_left']
    by_cases hpending : ticket.status = .pending
    · simp only [hpending, ne_eq, not_true_eq_false, if_false, true_and]
      cases input.resolution? with
      | none => simp [h]
      | some resolution =>
        have henc' : Encoded c (ticket.clone.resolved now resolution) := ⟨henc.1, henc.2, henc.3⟩
        obtain rfl := h.keyed id ticket hl
        simp only [returned_eq henc', Option.some.injEq, forall_eq']
        rcases normalizeResolution_cases ticket.toTicket resolution with ⟨e, he, -⟩ | ⟨scope, hok⟩
        · simp [he]
        · simp only [hok, ofTicket_ok_inj, Except.ok.injEq]
          refine ⟨⟨fun hans => ?_, fun hres => by rw [hres]; rfl⟩, fun hres => ?_⟩
          · rw [show scope = resolution.scope from congrArg TicketRecord.scope hans]
          · rw [hres]
            exact h.put (ticket.resolved now resolution) henc' rfl rfl h.nextID h.byRunID h.byExtID
              (fun _ _ => .inr) fun _ _ => .inr
    · simp [hpending]

theorem upsertExternalRef (now : Time) (id : String) (ref : ExternalReference) :
    SameStep c s (.upsertExternalRef now id ref) (InMemoryStore.upsertExternalRef s now id ref)
      (upsertExternalRef c t now id ref) := by
  unfold SameStep InMemoryStore.upsertExternalRef JSONLApprovalStore.upsertExternalRef
  cases hl : s.byID.lookup id with
  | none => simp [TreatedAlike, hl, h.missing hl, h]
  | some ticket =>
    obtain ⟨hcopy, henc⟩ := h.copy hl
    have hext : ticket.clone.external = ticket.external.map normalizeExternalReference := rfl
    have halike : TreatedAlike c s (.upsertExternalRef now id ref) ↔ ∀ refs merged,
        upsertExternalReferences now ticket.external ref = .ok (refs, merged) →
          c.json merged.metadata = some merged.metadata := by
      refine ⟨fun hall refs merged => hall ticket refs merged hl, ?_⟩
      intro hall ticket' refs merged hl'
      obtain rfl := Option.some.inj (hl.symm.trans hl')
      exact hall refs merged
    simp only [halike, hcopy, hext, externalReferenceByProvider_normalized,
      upsertExternalReferences_normalized]
    cases hup : upsertExternalReferences now ticket.external ref with
    | error e => simp [h]
    | ok result =>
      obtain ⟨refs, merged⟩ := result
      obtain ⟨-, hmerged, hmem⟩ := mem_upsertExternalReferences hup
      have hclone := clone_upserted hup
      have hiff : Encoded c { ticket.clone with external := refs } ↔
          c.json merged.metadata = some merged.metadata := by
        refine ⟨fun henc' => henc'.3 merged hmerged, fun hjson => ⟨henc.1, henc.2, fun r hr => ?_⟩⟩
        rcases hmem r hr with rfl | ⟨old, hold, rfl⟩
        · exact hjson
        · exact henc.3 _ (mem_map_of_mem hold)
      obtain rfl := h.keyed id ticket hl
      simp only [Except.ok.injEq, Prod.mk.injEq, and_imp, forall_apply_eq_imp_iff, forall_eq',
        ← hiff, hclone, ofTicket_returned_iff, true_and]
      intro henc'
      refine h.put { ticket with external := refs } (hclone ▸ henc') rfl (by rw [hclone]; rfl)
        h.nextID h.byRunID ?_ (fun _ _ => .inr)
        fun key id' => mem_of_lookup_upsert ticket _ refs merged
      simp only [upsert, h.byExtID]

omit h in
theorem clone_clone_eq_iff : ticket.clone.clone = ticket ↔
    (∀ call ∈ ticket.toolCalls, call.normalized.normalized = call) ∧
      ∀ ref ∈ ticket.external, normalizeExternalReference ref = ref := by
  have hcalls := map_inj_left (f := fun call => call.normalized.normalized) (g := id)
    (l := ticket.toolCalls)
  have hrefs := map_inj_left (f := normalizeExternalReference) (g := id) (l := ticket.external)
  simp only [map_id, id_eq] at hcalls hrefs
  rw [← hcalls, ← hrefs]
  refine ⟨fun heq => ⟨?_, ?_⟩, fun ⟨h1, h2⟩ => ?_⟩
  · exact map_map.symm.trans (congrArg TicketRecord.toolCalls heq)
  · exact (map_normalizeExternalReference_idem _).symm.trans (congrArg TicketRecord.external heq)
  · simp only [TicketRecord.clone, h2, map_map]
    exact congrArg (fun calls => { ticket with toolCalls := calls }) h1

/-- Copying normal forms and copying by way of JSON come to the same where neither changes the
    ticket. -/
theorem jsonTicket_new_iff (now : Time) (ticket : TicketRecord) :
    jsonTicket c (newTicket t now ticket) =
        some (InMemoryStore.newTicket s now ticket).clone.clone ↔
      ticket.kind ≠ .unset ∧ ticket.clone.clone = ticket ∧ jsonTicket c ticket = some ticket := by
  have hcalls : ticket.toolCalls.mapM (jsonCall c) =
      some ((ticket.toolCalls.map RecordedCall.normalized).map RecordedCall.normalized) ↔
        ∀ call ∈ ticket.toolCalls, c.json call.input = some call.input ∧
          call.normalized.normalized = call := by
    rw [map_map, mapM_eq_some_map_iff]
    exact forall₂_congr fun call _ => jsonCall_eq_some
  have hrefs : ticket.external.mapM (jsonReference c) =
      some (ticket.external.map normalizeExternalReference) ↔
        ∀ ref ∈ ticket.external, c.json ref.metadata = some ref.metadata ∧
          normalizeExternalReference ref = ref := by
    rw [mapM_eq_some_map_iff]
    exact forall₂_congr fun ref _ => jsonReference_eq_some
  rw [jsonTicket_eq_some, clone_clone_eq_iff, jsonTicket_eq_self_iff]
  simp only [InMemoryStore.newTicket, newTicket, TicketRecord.clone,
    map_normalizeExternalReference_idem, hcalls, hrefs, h.nextID]
  constructor
  · rintro ⟨h1, h2, h3, h4⟩
    refine ⟨fun hunset => ?_, ⟨fun call hc => (h1 call hc).2, fun ref hr => (h3 ref hr).2⟩,
      fun call hc => (h1 call hc).1, h2, fun ref hr => (h3 ref hr).1⟩
    simpa [hunset] using congrArg TicketRecord.kind h4
  · rintro ⟨hkind, ⟨h1, h3⟩, henc⟩
    exact ⟨fun call hc => ⟨henc.1 call hc, h1 call hc⟩, henc.2,
      fun ref hr => ⟨henc.3 ref hr, h3 ref hr⟩, by rw [if_neg hkind]⟩

theorem create (now : Time) (ticket : TicketRecord) :
    SameStep c s (.create now ticket) (InMemoryStore.create s now ticket)
      (create c t now ticket) := by
  unfold SameStep InMemoryStore.create JSONLApprovalStore.create
  by_cases hrun : ticket.runID = ""
  · simp [TreatedAlike, hrun, h]
  simp only [TreatedAlike, hrun, if_false, h.pendingFor]
  cases hpending : s.pendingFor ticket.runID with
  | some existing => simp [returned_eq (h.existing_encoded hpending), h]
  | none =>
    simp only [Option.map_none, Option.isSome_none, Bool.false_eq_true, false_or,
      ← h.jsonTicket_new_iff now ticket]
    cases hjson : jsonTicket c (newTicket t now ticket) with
    | none => simp
    | some cloned =>
      have henc := Encoded.of_jsonTicket hjson
      simp only [returned_eq henc, ofTicket_ok_inj, Option.some.injEq]
      refine ⟨eq_comm, fun hsame => ?_⟩
      rw [hsame] at henc ⊢
      refine h.put _ henc rfl rfl (congrArg (· + 1) h.nextID) ?_ ?_ (fun runID id hl => ?_)
        fun key id hl => ?_
      · exact congrArg (AList.insert _ _) h.byRunID
      · exact congrArg₂ (indexReferences _)
          (map_normalizeExternalReference_idem _) h.byExtID
      · simp only [enter, lookup_insert_if] at hl
        split_ifs at hl
        · exact .inl (Option.some.inj hl).symm
        · exact .inr hl
      · simp only [enter, lookup_indexReferences] at hl
        split_ifs at hl
        · exact .inl (Option.some.inj hl).symm
        · exact .inr hl

end SameTickets

/-! ## Whole histories -/

/-- The two stores answer every call of a history with the same tickets and the same sentinel
    errors, exactly if all its calls are such that both stores treat them alike. -/
theorem approval_stores_agree_iff (c : JSONCoding Fields) (calls : List ApprovalCall) :
    answers InMemoryStore.step {} calls = answers (step c) {} calls ↔
      Meets (next InMemoryStore.step) (TreatedAlike c) {} calls := by
  refine answers_eq_iff (R := SameTickets c) (fun s t call h => ?_) sameTickets_empty
  cases call with
  | create now ticket => exact h.create now ticket
  | resolve now id input => exact h.resolve now id input
  | upsertExternalRef now id ref => exact h.upsertExternalRef now id ref
  | get id =>
    exact ⟨iff_of_true (congrArg ofTicket (h.get id)) trivial, fun _ => h⟩
  | getByRun runID =>
    exact ⟨iff_of_true (congrArg ofOption (h.getByRun runID)) trivial, fun _ => h⟩
  | getByExternal provider externalID =>
    exact ⟨iff_of_true (congrArg ofOption (h.getByExternal provider externalID))
      trivial, fun _ => h⟩
  | list filter order order' =>
    exact ⟨iff_of_true (congrArg ofList (h.list filter order order').symm) trivial,
      fun _ => h⟩

/-- The sentinel of an answer that is an error. -/
def ApprovalAnswer.error? : ApprovalAnswer → Option (Option Sentinel)
  | .ticket (.error e) => some e
  | .tickets (.error e) => some e
  | _ => none

/-- A ticket is created and a grant for all times asked for; then the ticket is denied twice, and a
    ticket that does not exist is resolved. -/
def broadGrantCalls : List ApprovalCall :=
  [.create 1 { runID := "run-000001", kind := .toolCalls },
    .resolve 2 "appr-000001" { status := .named .approved, scope := .always },
    .resolve 3 "appr-000001" { status := .named .denied },
    .resolve 4 "appr-000001" { status := .named .denied },
    .resolve 5 "appr-000002" { status := .named .denied }]

/-- Only the first store refuses the grant and reports the last two errors with a sentinel. -/
theorem jsonl_store_accepts_broad_grant :
    (answers InMemoryStore.step {} broadGrantCalls).map ApprovalAnswer.error? =
      [none, some (some .scopePolicy), none, some (some .alreadyResolved),
        some (some .approvalNotFound)] ∧
    (answers (step (.plain Fields)) {} broadGrantCalls).map
        ApprovalAnswer.error? =
      [none, none, some none, some none, some none] := by
  decide +kernel

end Hopclaw.Store
