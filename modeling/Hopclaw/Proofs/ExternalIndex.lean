import Hopclaw.Proofs.TicketLifecycle

/-! # The index by external approvals

`InMemoryStore` finds a ticket by the provider and the id of an approval in another system. The
index has one entry for a pair, whoever carries it, and an upsert that moves a reference to another
id deletes the entry of the old one. The index is right as long as no such move takes the entry away
from the one other ticket that carries the pair. -/

namespace Hopclaw.Approval

open GoStrings

/-- The ticket has a reference to the approval of the provider with this id. Providers are compared
    without case, and a pair has both parts. -/
def TicketRecord.Carries (ticket : TicketRecord) (provider externalID : String) : Prop :=
  toLower (trimSpace provider) ≠ "" ∧ trimSpace externalID ≠ "" ∧
    ∃ ref ∈ ticket.external, toLower (trimSpace ref.provider) = toLower (trimSpace provider) ∧
      trimSpace ref.externalID = trimSpace externalID

/-- No part of the reference's key contains the character that separates the parts. -/
def ExternalReference.Separable (ref : ExternalReference) : Prop :=
  '\x00' ∉ (toLower (trimSpace ref.provider)).toList ∧ '\x00' ∉ (trimSpace ref.externalID).toList

instance (ref : ExternalReference) : Decidable ref.Separable :=
  inferInstanceAs (Decidable (_ ∧ _))

variable {ref : ExternalReference}

theorem ExternalReference.Separable.normalize (h : ref.Separable) :
    (normalizeExternalReference ref).Separable := by
  simpa [Separable, normalizeExternalReference, trimSpace_trimSpace] using h

/-! ## Keys -/

theorem key_ne_empty_iff {provider externalID : String} :
    externalReferenceLookupKey provider externalID ≠ "" ↔
      toLower (trimSpace provider) ≠ "" ∧ trimSpace externalID ≠ "" := by
  unfold externalReferenceLookupKey
  dsimp only
  split_ifs with h
  · simpa [or_iff_not_imp_left] using h
  · simp only [Bool.or_eq_true, decide_eq_true_eq, not_or] at h
    simp [h.1, h.2]

/-- Lists with one separator are equal exactly if their parts are. -/
theorem append_separator_inj {a b a' b' : List Char} {c : Char} (ha : c ∉ a) (hb : c ∉ b)
    (h : a ++ c :: b = a' ++ c :: b') : a = a' ∧ b = b' := by
  rcases List.append_eq_append_iff.mp h with ⟨as, rfl, hrest⟩ | ⟨bs, rfl, hrest⟩
  · cases as with
    | nil => simpa using hrest
    | cons x as =>
      simp only [List.cons_append, List.cons.injEq] at hrest
      exact absurd (hrest.2 ▸ by simp) hb
  · cases bs with
    | nil => simpa [eq_comm] using hrest
    | cons x bs =>
      simp only [List.cons_append, List.cons.injEq] at hrest
      exact absurd (hrest.1 ▸ by simp) ha

theorem ExternalReference.Separable.key_eq_iff (h : ref.Separable) {provider externalID : String}
    (hkey : externalReferenceLookupKey provider externalID ≠ "") :
    ref.key = externalReferenceLookupKey provider externalID ↔
      toLower (trimSpace ref.provider) = toLower (trimSpace provider) ∧
        trimSpace ref.externalID = trimSpace externalID := by
  constructor
  · intro heq
    have hparts := key_ne_empty_iff.mp hkey
    have hparts' := key_ne_empty_iff.mp (heq ▸ hkey : ref.key ≠ "")
    simp only [key, externalReferenceLookupKey, hparts.1, hparts.2, hparts'.1, hparts'.2,
      decide_false, Bool.or_self, Bool.false_eq_true, if_false] at heq
    have hlist := congrArg String.toList heq
    simp only [String.toList_append, List.append_assoc] at hlist
    obtain ⟨hprovider, hid⟩ := append_separator_inj h.1 h.2 hlist
    exact ⟨String.toList_injective hprovider, String.toList_injective hid⟩
  · rintro ⟨hprovider, hid⟩
    simp only [key, externalReferenceLookupKey, hprovider, hid]

end Hopclaw.Approval

namespace Hopclaw.Store

open GoStrings Interleaving Approval
open InMemoryStore (newTicket getByExternal)

variable {t : TicketTable}

/-! ## Who carries what -/

/-- The ticket with this id has a reference with this key. -/
def Carried (t : TicketTable) (key id : String) : Prop :=
  ∃ ticket, t.byID.lookup id = some ticket ∧ ∃ ref ∈ ticket.external, ref.key = key

/-- The ids of the tickets that have a reference with this key. -/
def carriers (t : TicketTable) (key : String) : List String :=
  (t.byID.entries.filter fun e => e.2.external.any fun ref => ref.key = key).map Sigma.fst

variable {id : String}

theorem mem_carriers {key : String} : id ∈ carriers t key ↔ Carried t key id := by
  simp only [carriers, List.mem_map, List.mem_filter, List.any_eq_true, decide_eq_true_eq]
  constructor
  · rintro ⟨e, ⟨he, href⟩, rfl⟩
    exact ⟨e.2, AList.mem_lookup_iff.mpr he, href⟩
  · rintro ⟨ticket, hl, href⟩
    exact ⟨⟨id, ticket⟩, ⟨AList.mem_lookup_iff.mp hl, href⟩, rfl⟩

theorem carriers_nodup (t : TicketTable) (key : String) : (carriers t key).Nodup :=
  t.byID.keys_nodup.sublist (List.filter_sublist.map _)

/-- A ticket that is the only one beside `id` to carry a key. -/
theorem others_length_eq_one {key id' : String} (hcarried : Carried t key id') (hne : id' ≠ id)
    (honly : ∀ id'', Carried t key id'' → id'' ≠ id → id'' = id') :
    ((carriers t key).filter (· ≠ id)).length = 1 := by
  have hperm : ((carriers t key).filter (· ≠ id)).Perm [id'] := by
    refine (List.perm_ext_iff_of_nodup ((carriers_nodup t key).filter _)
      (List.nodup_singleton _)).mpr fun id'' => ?_
    simp only [List.mem_filter, mem_carriers, decide_eq_true_eq, List.mem_singleton]
    constructor
    · rintro ⟨h, h'⟩
      exact honly id'' h h'
    · rintro rfl
      exact ⟨hcarried, hne⟩
  exact hperm.length_eq

/-- A ticket is written: the others carry what they carried. -/
theorem carried_write (id : String) (ticket : TicketRecord) {t' : TicketTable}
    (hbyID : t'.byID = t.byID.insert id ticket) (key id' : String) :
    Carried t' key id' ↔
      if id' = id then ∃ ref ∈ ticket.external, ref.key = key else Carried t key id' := by
  simp only [Carried, hbyID, Maps.lookup_insert_if]
  split_ifs <;> simp

/-! ## The condition -/

/-- A reference that is given can be told apart by its key. An upsert finds the reference it deletes
    the key of where it finds the one it replaces; if that one gets another key, the ticket does not
    carry the old one any more, and the tickets that still do are not one. -/
def KeepsEntries (t : TicketTable) : ApprovalCall → Prop
  | .create _ ticket => ∀ ref ∈ ticket.external, ref.Separable
  | .upsertExternalRef now id ref =>
    ref.Separable ∧ ∀ ticket ∈ t.byID.lookup id,
      ∀ result ∈ (upsertExternalReferences now ticket.external ref).toOption,
        (previousReference ticket ref).map ExternalReference.key =
            (foldedReference ticket.external ref).map ExternalReference.key ∧
          ∀ old ∈ previousReference ticket ref, old.key = "" ∨ old.key = result.2.key ∨
            old.key ∉ result.1.map ExternalReference.key ∧
              ((carriers t old.key).filter (· ≠ id)).length ≠ 1
  | _ => True

instance (t : TicketTable) : (call : ApprovalCall) → Decidable (KeepsEntries t call)
  | .create _ _ => inferInstanceAs (Decidable (∀ _ ∈ _, _))
  | .upsertExternalRef _ _ _ => inferInstanceAs (Decidable (_ ∧ ∀ _ ∈ _, ∀ _ ∈ _, _ ∧ ∀ _ ∈ _, _))
  | .resolve .. | .get _ | .getByRun _ | .getByExternal .. | .list .. => .isTrue trivial

/-- A pair that one ticket carries leads to that ticket, and a pair that none carries to an
    error. -/
def ExternalIndexed (t : TicketTable) : Prop :=
  ∀ provider externalID,
    (∀ id ticket, t.byID.lookup id = some ticket → ticket.Carries provider externalID →
      (∀ id' ticket', t.byID.lookup id' = some ticket' → ticket'.Carries provider externalID →
        id' = id) →
      getByExternal t provider externalID = .ok ticket.clone) ∧
    ((∀ id ticket, t.byID.lookup id = some ticket → ¬ ticket.Carries provider externalID) →
      ∃ e, getByExternal t provider externalID = .error e)

/-! ## The invariant -/

/-- The same for one key. -/
structure RightAt (t : TicketTable) (key : String) : Prop where
  one : ∀ id, Carried t key id → (∀ id', Carried t key id' → id' = id) →
    t.byExtID.lookup key = some id
  unused : (∀ id, ¬ Carried t key id) → t.byExtID.lookup key = none

structure KeyIndexed (t : TicketTable) : Prop where
  numbered : Numbered t
  separable : ∀ id ticket, t.byID.lookup id = some ticket → ∀ ref ∈ ticket.external, ref.Separable
  right : ∀ key, key ≠ "" → RightAt t key
  blank : t.byExtID.lookup "" = none

theorem keyIndexed_empty : KeyIndexed {} := by
  refine ⟨orderly_empty.numbered, ?_, fun key _ => ⟨?_, ?_⟩, ?_⟩ <;> simp [Carried]

section Writes

variable {t' : TicketTable} {key : String}

theorem RightAt.same (h : RightAt t key) (hindex : t'.byExtID.lookup key = t.byExtID.lookup key)
    (hcarried : ∀ id, Carried t' key id ↔ Carried t key id) : RightAt t' key := by
  refine ⟨fun id hcar honly => ?_, fun hnone => ?_⟩
  · rw [hindex]
    exact h.one id ((hcarried id).mp hcar) fun id' hcar' => honly id' ((hcarried id').mpr hcar')
  · rw [hindex]
    exact h.unused fun id hcar => hnone id ((hcarried id).mpr hcar)

/-- The entry leads to a ticket that carries the key. -/
theorem rightAt_written (hindex : t'.byExtID.lookup key = some id) (hcarried : Carried t' key id) :
    RightAt t' key :=
  ⟨fun _ _ honly => honly id hcarried ▸ hindex, fun hnone => absurd hcarried (hnone id)⟩

end Writes

theorem KeyIndexed.externalIndexed (h : KeyIndexed t) : ExternalIndexed t := by
  intro provider externalID
  by_cases hkey : externalReferenceLookupKey provider externalID = ""
  · -- such a pair is not a pair, and its key is not in the index
    have hnone : ∀ ticket : TicketRecord, ¬ ticket.Carries provider externalID :=
      fun ticket hc => key_ne_empty_iff.mpr ⟨hc.1, hc.2.1⟩ hkey
    refine ⟨fun id ticket _ hc => absurd hc (hnone ticket), fun _ => ?_⟩
    refine ⟨externalNotFound provider externalID, ?_⟩
    rw [getByExternal, hkey, h.blank]
  · have hparts := key_ne_empty_iff.mp hkey
    have hcarries : ∀ id ticket, t.byID.lookup id = some ticket →
        (ticket.Carries provider externalID ↔
          ∃ ref ∈ ticket.external, ref.key = externalReferenceLookupKey provider externalID) := by
      intro id ticket hl
      simp only [TicketRecord.Carries, hparts.1, hparts.2, ne_eq, not_false_eq_true, true_and]
      refine exists_congr fun ref => and_congr_right fun href => ?_
      exact ((h.separable id ticket hl ref href).key_eq_iff hkey).symm
    constructor
    · intro id ticket hl hc honly
      have hindex := (h.right _ hkey).one id ⟨ticket, hl, (hcarries id ticket hl).mp hc⟩
        fun id' ⟨ticket', hl', hc'⟩ => honly id' ticket' hl' ((hcarries id' ticket' hl').mpr hc')
      simp only [getByExternal, hindex, hl]
    · intro hnone
      have hindex := (h.right _ hkey).unused fun id ⟨ticket, hl, hc⟩ =>
        hnone id ticket hl ((hcarries id ticket hl).mpr hc)
      refine ⟨externalNotFound provider externalID, ?_⟩
      rw [getByExternal, hindex]

variable {ticket : TicketRecord}

/-- A new ticket takes over the entries of its references; it is the last to carry them. -/
theorem KeyIndexed.enter (h : KeyIndexed t) (now : Time)
    (hsep : ∀ ref ∈ ticket.external, ref.Separable) :
    KeyIndexed (t.enter (newTicket t now ticket).clone) := by
  set new := (newTicket t now ticket).clone with hnew
  have hcarried : ∀ key id, Carried (t.enter new) key id ↔
      if id = new.id then ∃ ref ∈ new.external, ref.key = key else Carried t key id :=
    carried_write new.id new rfl
  have hfresh : ∀ key, ¬ Carried t key new.id := by
    rintro key ⟨old, hl, -⟩
    exact absurd (h.numbered.fresh.symm.trans hl) (by simp)
  refine ⟨h.numbered.enter now ticket,
    fun _ _ => Maps.forall_insert (h.separable _ _) fun ref href => ?_, fun key hkey => ?_, ?_⟩
  · simp only [hnew, TicketRecord.clone, newTicket, List.map_map] at href
    obtain ⟨given, hgiven, rfl⟩ := List.mem_map.mp href
    exact (hsep given hgiven).normalize.normalize
  · have hlookup := TicketTable.lookup_indexReferences new.id new.external t.byExtID key
    simp only [hkey, ne_eq, not_false_eq_true, true_and] at hlookup
    by_cases hown : ∃ ref ∈ new.external, ref.key = key
    · exact rightAt_written (hlookup.trans (if_pos hown))
        ((hcarried key new.id).mpr (by rwa [if_pos rfl]))
    · refine (h.right key hkey).same (hlookup.trans (if_neg hown)) fun id => ?_
      rw [hcarried]
      split_ifs with hid
      · exact iff_of_false hown (hid ▸ hfresh key)
      · exact Iff.rfl
  · simp only [TicketTable.enter, TicketTable.lookup_indexReferences, ne_eq, not_true_eq_false,
      false_and]
    exact h.blank

/-- A decision does not touch references. -/
theorem KeyIndexed.resolved (h : KeyIndexed t) (now : Time) (resolution : Resolution)
    (found : t.byID.lookup id = some ticket) :
    KeyIndexed { t with byID := t.byID.insert id (ticket.resolved now resolution) } := by
  refine ⟨h.numbered.write found (ticket.resolved now resolution) rfl _,
    fun _ _ => Maps.forall_insert (h.separable _ _) (h.separable id ticket found),
    fun key hkey => (h.right key hkey).same rfl fun id' => ?_, h.blank⟩
  rw [carried_write id (ticket.resolved now resolution) rfl]
  split_ifs with hid
  · rw [hid, Carried]
    simp only [found, Option.some.injEq, exists_eq_left']
    rfl
  · exact Iff.rfl

/-! ### Upserts -/

variable {refs : List ExternalReference}

variable {now : Time} {merged ref : ExternalReference}

/-- The keys of a ticket before and after an upsert. -/
theorem upsert_keys
    (written : upsertExternalReferences now ticket.external ref = .ok (refs, merged)) {key : String}
    (hne : merged.key ≠ key) (hold : ∀ old ∈ foldedReference ticket.external ref, old.key ≠ key) :
    (∃ r ∈ refs, r.key = key) ↔ ∃ r ∈ ticket.external, r.key = key := by
  obtain ⟨others, hrefs, hexisting, -, -⟩ := upsertExternalReferences_perm written
  have hnormal : (∃ r ∈ ticket.external, r.key = key) ↔
      ∃ r ∈ ticket.external.map normalizeExternalReference, r.key = key := by
    simp [key_normalizeExternalReference]
  have hreplaced : ¬ ∃ r ∈ (foldedReference ticket.external ref).toList, r.key = key := by
    rintro ⟨r, hr, hkey⟩
    exact hold r (Option.mem_toList.mp hr) hkey
  rw [hnormal]
  simp only [hrefs.mem_iff, hexisting.mem_iff, List.mem_cons, List.mem_append, or_and_right,
    exists_or, exists_eq_left, hne, hreplaced]

variable {existing : List ExternalReference}

/-- The reference that is written has a provider. -/
theorem merged_key_ne_empty
    (written : upsertExternalReferences now existing ref = .ok (refs, merged))
    (hid : trimSpace merged.externalID ≠ "") : merged.key ≠ "" := by
  obtain ⟨-, -, -, hmerged, hprovider⟩ := upsertExternalReferences_perm written
  refine key_ne_empty_iff.mpr ⟨fun hempty => hprovider ?_, hid⟩
  have hmergedProvider : merged.provider = trimSpace ref.provider := by
    rw [hmerged]
    exact if_pos hprovider
  rwa [hmergedProvider, trimSpace_trimSpace, toLower_eq_empty_iff] at hempty

theorem separable_upsert (written : upsertExternalReferences now existing ref = .ok (refs, merged))
    (hsep : ref.Separable) (hexist : ∀ r ∈ existing, r.Separable) : ∀ r ∈ refs, r.Separable := by
  obtain ⟨others, hrefs, hexisting, hmerged, hprovider⟩ := upsertExternalReferences_perm written
  have hnormal : ∀ r ∈ (foldedReference existing ref).toList ++ others, r.Separable := by
    intro r hr
    obtain ⟨old, hold, rfl⟩ := List.mem_map.mp (hexisting.mem_iff.mpr hr)
    exact (hexist old hold).normalize
  have hcurrent : ((foldedReference existing ref).getD {}).Separable := by
    cases hf : foldedReference existing ref with
    | none => decide +kernel
    | some old => exact hnormal old (by simp [hf])
  intro r hr
  rcases List.mem_cons.mp (hrefs.mem_iff.mp hr) with rfl | hother
  · -- the provider is the one given, the id the one given or the old one
    rw [hmerged]
    refine ⟨?_, ?_⟩
    · simp only [mergeExternalReference, if_pos hprovider]
      exact hsep.normalize.1
    · simp only [mergeExternalReference]
      split_ifs
      · exact hsep.normalize.2
      · exact hcurrent.normalize.2
  · exact hnormal r (List.mem_append_right _ hother)

theorem KeyIndexed.upsert (h : KeyIndexed t) (found : t.byID.lookup id = some ticket)
    (written : upsertExternalReferences now ticket.external ref = .ok (refs, merged))
    (hkeep : KeepsEntries t (.upsertExternalRef now id ref)) :
    KeyIndexed (t.upsert ticket (previousReference ticket ref) refs merged id) := by
  set t' := t.upsert ticket (previousReference ticket ref) refs merged id
  obtain ⟨hsep, hkeep⟩ := hkeep
  obtain ⟨hfound, hmoved⟩ := hkeep ticket found (refs, merged) (by rw [written]; rfl)
  have hcarried : ∀ key id', Carried t' key id' ↔
      if id' = id then ∃ r ∈ refs, r.key = key else Carried t key id' :=
    carried_write id { ticket with external := refs } rfl
  have hid : merged.key ≠ "" → trimSpace merged.externalID ≠ "" :=
    fun hkey => (key_ne_empty_iff.mp hkey).2
  have hmergedCarried : Carried t' merged.key id := by
    rw [hcarried, if_pos rfl]
    obtain ⟨others, hrefs, -⟩ := upsertExternalReferences_perm written
    exact ⟨merged, hrefs.mem_iff.mpr List.mem_cons_self, rfl⟩
  refine ⟨h.numbered.write found { ticket with external := refs } rfl _,
    fun _ _ => Maps.forall_insert (h.separable _ _)
      (separable_upsert written hsep (h.separable id ticket found)), fun key hkey => ?_, ?_⟩
  · have hlookup := t.lookup_upsert ticket (previousReference ticket ref) refs merged id key
    by_cases hm : merged.key = key
    · subst hm
      exact rightAt_written (hlookup.trans (if_pos ⟨hid hkey, rfl⟩)) hmergedCarried
    rw [if_neg fun hand => hm hand.2.symm] at hlookup
    by_cases hold : ∃ old ∈ previousReference ticket ref,
        trimSpace old.externalID ≠ "" ∧ key = old.key
    · -- the entry is deleted: by the condition the ticket that is left is not the only one
      refine ⟨fun id' hcar honly => ?_, fun _ => hlookup.trans (if_pos hold)⟩
      obtain ⟨old, hmem, -, rfl⟩ := hold
      rcases hmoved old hmem with hblank | hsameKey | ⟨hgone, hcount⟩
      · exact absurd hblank hkey
      · exact absurd hsameKey.symm hm
      · have hne : id' ≠ id := by
          rintro rfl
          obtain ⟨r, hr, hrkey⟩ := (if_pos rfl ▸ (hcarried old.key id').mp hcar :)
          exact hgone (hrkey ▸ List.mem_map_of_mem hr)
        refine absurd (others_length_eq_one ?_ hne fun id'' hcar'' hne'' => ?_) hcount
        · exact (if_neg hne ▸ (hcarried old.key id').mp hcar :)
        · exact honly id'' ((hcarried old.key id'').mpr (by rwa [if_neg hne'']))
    · -- a key that is neither deleted nor written is carried by the same tickets
      refine (h.right key hkey).same (hlookup.trans (if_neg hold)) fun id' => ?_
      rw [hcarried]
      split_ifs with heq
      · rw [upsert_keys written hm fun old hfolded hkeyOld => hold ?_, heq, Carried]
        · simp [found]
        · have hmap : (previousReference ticket ref).map ExternalReference.key = some key := by
            rw [hfound, Option.mem_def.mp hfolded, ← hkeyOld]
            rfl
          obtain ⟨previous, hprev, hprevKey⟩ := Option.map_eq_some_iff.mp hmap
          refine ⟨previous, hprev, ?_, hprevKey.symm⟩
          exact (key_ne_empty_iff.mp (hprevKey ▸ hkey : previous.key ≠ "")).2
      · exact Iff.rfl
  · rw [TicketTable.lookup_upsert,
      if_neg fun hand => merged_key_ne_empty written hand.1 hand.2.symm]
    split_ifs
    · rfl
    · exact h.blank

theorem KeyIndexed.step (h : KeyIndexed t) (call : ApprovalCall) (hkeep : KeepsEntries t call) :
    KeyIndexed (next InMemoryStore.step t call) := by
  generalize hnext : next InMemoryStore.step t call = t'
  have hc : Changes t call t' := hnext ▸ step_changes t call
  cases hc with
  | nothing => exact h
  | entered now ticket run free => exact h.enter now hkeep
  | resolved now id input ticket resolution normal found => exact h.resolved now normal found
  | upserted now id ref ticket refs merged found written => exact h.upsert found written hkeep

/-! ## All runs -/

/-- As long as no upsert takes the entry of a pair away from the one other ticket that carries it,
    the index is right. -/
theorem external_index_right (calls : List ApprovalCall)
    (hcalls : Meets (next InMemoryStore.step) KeepsEntries {} calls) :
    ExternalIndexed (ticketsAfter {} calls) := by
  have hindexed : KeyIndexed (ticketsAfter {} calls) :=
    Meets.inv (fun _ call h hkeep => h.step call hkeep) keyIndexed_empty hcalls
  exact hindexed.externalIndexed

/-- Two tickets with references of one provider, the first of which moves to another id. -/
def referenceMoves : List ApprovalCall :=
  [.create 1 { runID := "run-1", external := [{ provider := "Jira", externalID := "OPS-1" }] },
    .create 2 { runID := "run-2" },
    .upsertExternalRef 3 (ticketID 2) { provider := "jira", externalID := "OPS-2" },
    .upsertExternalRef 4 (ticketID 1) { provider := "jira", externalID := "OPS-3" }]

theorem external_index_right_of_moves :
    Meets (next InMemoryStore.step) KeepsEntries {} referenceMoves ∧
      ExternalIndexed (ticketsAfter {} referenceMoves) := by
  have hmeets : Meets (next InMemoryStore.step) KeepsEntries {} referenceMoves := by decide +kernel
  exact ⟨hmeets, external_index_right referenceMoves hmeets⟩

/-- Both tickets refer to `OPS-1`, then the second is moved to `OPS-2`. -/
def sharedReference : List ApprovalCall :=
  [.create 1 { runID := "run-1", external := [{ provider := "jira", externalID := "OPS-1" }] },
    .create 2 { runID := "run-2", external := [{ provider := "jira", externalID := "OPS-1" }] },
    .upsertExternalRef 3 (ticketID 2) { provider := "jira", externalID := "OPS-2" }]

/-- The first ticket is now the only one that refers to `OPS-1`, and is not found by it. -/
theorem moved_reference_takes_entry_along :
    ¬ ExternalIndexed (ticketsAfter {} sharedReference) := by
  intro h
  have hfound : ((ticketsAfter {} sharedReference).byID.lookup (ticketID 1)).any (fun ticket =>
      ticket.external.any fun ref => toLower (trimSpace ref.provider) = "jira" ∧
        trimSpace ref.externalID = "OPS-1") = true := by
    decide +kernel
  have honly : carriers (ticketsAfter {} sharedReference)
      (externalReferenceLookupKey "jira" "OPS-1") = [ticketID 1] := by
    decide +kernel
  have herror : (getByExternal (ticketsAfter {} sharedReference)
      "jira" "OPS-1").toOption.isSome = false := by
    decide +kernel
  have hpair : toLower (trimSpace "jira") = "jira" ∧ trimSpace "OPS-1" = "OPS-1" := by
    decide +kernel
  obtain ⟨ticket, hl, hrefs⟩ := (Option.any_eq_true _ _).mp hfound
  obtain ⟨ref, href, hparts⟩ := List.any_eq_true.mp hrefs
  have hcarries : ticket.Carries "jira" "OPS-1" := by
    rw [TicketRecord.Carries, hpair.1, hpair.2]
    exact ⟨by simp, by simp, ref, href, of_decide_eq_true hparts⟩
  have hok := (h "jira" "OPS-1").1 (ticketID 1) ticket hl hcarries
    fun id' ticket' hl' hcarries' => by
      obtain ⟨-, -, ref', href', hprovider, hid⟩ := hcarries'
      have hmem : id' ∈ carriers (ticketsAfter {} sharedReference)
          (externalReferenceLookupKey "jira" "OPS-1") :=
        mem_carriers.mpr ⟨ticket', hl', ref', href', by
          simp only [ExternalReference.key, externalReferenceLookupKey, hprovider, hid]⟩
      rw [honly] at hmem
      exact List.mem_singleton.mp hmem
  rw [hok] at herror
  cases herror

end Hopclaw.Store
