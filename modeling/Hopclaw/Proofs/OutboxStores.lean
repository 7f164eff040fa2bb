import Hopclaw.Domain.Maps
import Hopclaw.Governance.DeliveryStores

/-! # What the outboxes hold

An outbox is seen as the set of the items its entries are for: an adapter, a key and a record. In
all three stores `Enqueue` adds the item unless one with the same key is held, and nothing else
changes the set: neither `Update` of an entry nor the end of the process. The stores differ in what
they take for the same key. -/

namespace Hopclaw.Governance

open Option GoStrings DeliveryEntry Function

variable {A G S : Type} {lib : RecordLib A G S}

/-- What an entry is for. -/
structure OutboxItem (A G S : Type) where
  adapterName : String
  idempotencyKey : String
  record : Record A G S
deriving DecidableEq

def DeliveryEntry.item (e : Entry A G S) : OutboxItem A G S :=
  ⟨e.adapterName, e.idempotencyKey, e.record⟩

/-- The items of the entries that are kept under the ids. -/
def items (book : String → Option (Entry A G S)) (id : String) : Option (OutboxItem A G S) :=
  (book id).map item

/-- What `Enqueue` does to the entries: it finds one with the same key, or adds one. -/
def Queued (key : OutboxItem A G S → String × String) (before after : String → Option (Entry A G S))
    (item : OutboxItem A G S) (answer : Option (Entry A G S) × Bool) : Prop :=
  (∃ id x, before id = some x ∧ key x.item = key item) ∧ after = before ∧ answer.2 = false ∨
    ∃ e, e.item = item ∧ answer = (some e, true) ∧ before e.id = none ∧
      after = update before e.id (some e)

/-- A store whose contents are entries for items with different keys. -/
structure LawfulOutbox (lib : RecordLib A G S) (store : DeliveryStore A G S) where
  key : OutboxItem A G S → String × String
  Inv : store.State → Prop
  /-- The entries by their ids. -/
  book : store.State → String → Option (Entry A G S)
  fresh : Inv store.fresh ∧ ∀ id, book store.fresh id = none
  list : ∀ {st e}, Inv st → (e ∈ store.list st ↔ book st e.id = some e)
  entry : ∀ {st id e}, Inv st → book st id = some e → e.id = id
  key_inj : ∀ {st id id' e e'}, Inv st → book st id = some e → book st id' = some e' →
    key e.item = key e'.item → id = id'
  enqueue : ∀ {st st' : store.State} {entry : Entry A G S} {now fault answer}, Inv st →
    entry.id = "" → store.enqueue st entry now fault = (.ok answer, st') →
    Inv st' ∧ Queued key (book st) (book st') (entry.normalized lib).item answer
  get : ∀ {st : store.State} {id e}, Inv st → store.get st id = .ok e → book st e.id = some e
  /-- Writing another version of an entry that is stored, even if the call fails. -/
  update : ∀ {st : store.State} {e : Entry A G S} (next : Entry A G S) (fault : store.Fault),
    Inv st → book st e.id = some e → next.id = e.id → next.item = e.item →
    Inv (store.update st next fault).2 ∧
      items (book (store.update st next fault).2) = items (book st)
  reopen : ∀ {st : store.State}, Inv st →
    Inv (store.reopen st) ∧ items (book (store.reopen st)) = items (book st)

variable {e x : Entry A G S} {book : String → Option (Entry A G S)}

/-- Only the other fields of one entry change. -/
theorem items_update (hx : book e.id = some x) (hitem : e.item = x.item) :
    items (update book e.id (some e)) = items book := by
  funext id
  by_cases hid : id = e.id
  · rw [items, items, hid, update_self, hx, map_some, map_some, hitem]
  · rw [items, items, update_of_ne hid]

theorem Queued.keeps {key : OutboxItem A G S → String × String} {item : OutboxItem A G S}
    {after : String → Option (Entry A G S)} {answer : Option (Entry A G S) × Bool}
    (h : Queued key book after item answer) {id : String} (hx : book id = some x) :
    after id = some x := by
  obtain ⟨-, rfl, -⟩ | ⟨e, -, -, hnone, rfl⟩ := h
  · exact hx
  · rwa [update_of_ne]
    rintro rfl
    rw [hnone] at hx
    cases hx

/-! ## Entries -/

theorem deliveryID_injective : Function.Injective deliveryID := by
  intro m n h
  have hlist := congrArg String.toList h
  simp only [deliveryID, String.toList_append, String.toList_ofList, List.append_cancel_left_eq]
    at hlist
  exact zeroPadded_injective 6 hlist

theorem trimSpace_deliveryID (n : ℕ) : trimSpace (deliveryID n) = deliveryID n :=
  trimSpace_formatted ⟨'g', ['d', 'e', 'l', '-'], by decide, by decide⟩ 6 n

/-- The entry is in normal form and names its adapter. -/
structure WellFormed (lib : RecordLib A G S) (e : Entry A G S) : Prop where
  normal : e.normalized lib = e
  adapterName : e.adapterName ≠ ""

namespace WellFormed

variable {next : Entry A G S}

theorem normalized (h : (e.normalized lib).adapterName ≠ "") : WellFormed lib (e.normalized lib) :=
  ⟨normalized_normalized lib e, h⟩

section

variable (h : WellFormed lib e)
include h

theorem trimSpace_adapterName : trimSpace e.adapterName = e.adapterName :=
  congrArg DeliveryEntry.adapterName h.normal

theorem trimSpace_id : trimSpace e.id = e.id :=
  congrArg DeliveryEntry.id h.normal

theorem trimSpace_idempotencyKey : trimSpace e.idempotencyKey = e.idempotencyKey := by
  rw [← congrArg idempotencyKey h.normal, normalized_idempotencyKey]
  split_ifs
  · exact trimSpace_defaultDeliveryIdempotencyKey lib _ _
  · exact trimSpace_trimSpace _

/-- The key of the event stands in for one that is missing. -/
theorem idempotencyKey_ne_empty : e.idempotencyKey ≠ "" := by
  rw [← congrArg idempotencyKey h.normal, normalized_idempotencyKey]
  split_ifs with hkey
  · refine defaultDeliveryIdempotencyKey_ne_empty lib ?_ _
    rw [h.trimSpace_adapterName]
    exact h.adapterName
  · exact hkey

theorem outboxKey_ne_empty : e.outboxKey ≠ "" := by
  have hnone : ¬(toLower (trimSpace e.adapterName) = "" ∨ trimSpace e.idempotencyKey = "") := by
    rw [toLower_eq_empty_iff, h.trimSpace_adapterName, h.trimSpace_idempotencyKey]
    exact not_or.mpr ⟨h.adapterName, h.idempotencyKey_ne_empty⟩
  rw [outboxKey, deliveryOutboxKey, if_neg hnone]
  intro hempty
  have := congrArg String.toList hempty
  simp at this

/-- The normal form of another version of an entry is for the same item. -/
theorem normalized_item (hitem : next.item = e.item) : (next.normalized lib).item = e.item := by
  obtain ⟨hname, hkey, hrecord⟩ : next.adapterName = e.adapterName ∧
      next.idempotencyKey = e.idempotencyKey ∧ next.record = e.record := by
    simpa [DeliveryEntry.item] using hitem
  conv_rhs => rw [← h.normal]
  simp only [DeliveryEntry.normalized, DeliveryEntry.item, hname, hkey, hrecord]

theorem normalized_id (hid : next.id = e.id) : (next.normalized lib).id = e.id := by
  rw [DeliveryEntry.normalized, hid, h.trimSpace_id]

theorem of_item (hitem : next.item = e.item) : WellFormed lib (next.normalized lib) := by
  refine normalized ?_
  rw [show (next.normalized lib).adapterName = e.adapterName from
    congrArg OutboxItem.adapterName (h.normalized_item hitem)]
  exact h.adapterName

end

end WellFormed

theorem DeliveryEntry.outboxKey_congr {next : Entry A G S} (h : next.item = e.item) :
    next.outboxKey = e.outboxKey :=
  congrArg (fun item : OutboxItem A G S => deliveryOutboxKey item.adapterName item.idempotencyKey) h

/-! ## Entries under their ids -/

/-- The entries are kept under ids the counter has passed, and no two have the same key. -/
structure Filed (lib : RecordLib A G S) (key : OutboxItem A G S → String × String) (n : ℕ)
    (book : String → Option (Entry A G S)) : Prop where
  entry : ∀ {id e}, book id = some e → WellFormed lib e ∧ e.id = id ∧ ∃ m ≤ n, id = deliveryID m
  keys : ∀ {id id' e e'}, book id = some e → book id' = some e' → key e.item = key e'.item → id = id'

section Filed

variable {key : OutboxItem A G S → String × String} {n : ℕ}

/-- A number the counter has not reached is no id. -/
theorem Filed.next (h : Filed lib key n book) : book (deliveryID (n + 1)) = none := by
  rw [eq_none_iff_forall_ne_some]
  intro e he
  obtain ⟨-, -, m, hm, hid⟩ := h.entry he
  exact absurd (deliveryID_injective hid) (by omega)

/-- A new entry, or another version of one. -/
theorem Filed.put (h : Filed lib key n book) {m n' : ℕ} (hwell : WellFormed lib e)
    (hid : e.id = deliveryID m) (hm : m ≤ n') (hn : n ≤ n')
    (hkey : ∀ {id x}, book id = some x → key x.item = key e.item → id = e.id) :
    Filed lib key n' (update book e.id (some e)) := by
  refine ⟨fun {id x} hx => ?_, fun {id id' x x'} hx hx' hxx' => ?_⟩
  · rw [update_apply] at hx
    split_ifs at hx with heq
    · obtain rfl := some.inj hx
      exact ⟨hwell, heq.symm, m, hm, heq.trans hid⟩
    · obtain ⟨hx, hxid, k, hk, hxk⟩ := h.entry hx
      exact ⟨hx, hxid, k, hk.trans hn, hxk⟩
  · rw [update_apply] at hx hx'
    split_ifs at hx hx' with heq heq' heq'
    · exact heq.trans heq'.symm
    · obtain rfl := some.inj hx
      exact heq.trans (hkey hx' hxx'.symm).symm
    · obtain rfl := some.inj hx'
      exact (hkey hx hxx').trans heq'.symm
    · exact h.keys hx hx' hxx'

/-- Another version of an entry. -/
theorem Filed.replace (h : Filed lib key n book) (hx : book x.id = some x)
    (hwell : WellFormed lib e) (hid : e.id = x.id) (hitem : e.item = x.item) :
    Filed lib key n (update book e.id (some e)) := by
  obtain ⟨-, -, m, hm, hxm⟩ := h.entry hx
  exact h.put hwell (hid.trans hxm) hm le_rfl fun hy hkey =>
    (h.keys hy hx (hkey.trans (congrArg key hitem))).trans hid.symm

end Filed

/-! ## The index in memory -/

/-- The key of the in-memory index. -/
def indexKey (item : OutboxItem A G S) : String × String :=
  (deliveryOutboxKey item.adapterName item.idempotencyKey, "")

theorem indexKey_eq_iff : indexKey e.item = indexKey x.item ↔ e.outboxKey = x.outboxKey := by
  simp [indexKey, outboxKey, item]

variable {entry : Entry A G S}

namespace InMemoryDeliveryStore

variable {s : InMemoryDeliveryStore A G S}

/-- The entries are filed, and the index has exactly their keys. -/
structure Indexed (lib : RecordLib A G S) (s : InMemoryDeliveryStore A G S) : Prop where
  filed : Filed lib indexKey s.nextID s.byID.lookup
  index : ∀ {key id}, s.byOutbox.lookup key = some id ↔
    ∃ e, s.byID.lookup id = some e ∧ e.outboxKey = key

theorem Indexed.empty : Indexed lib ({} : InMemoryDeliveryStore A G S) :=
  ⟨⟨by simp, by simp⟩, by simp⟩

theorem Indexed.mem_list (h : Indexed lib s) : e ∈ s.list lib ↔ s.byID.lookup e.id = some e := by
  rw [list, List.mem_insertionSort]
  constructor
  · intro he
    obtain ⟨x, hx, rfl⟩ := List.mem_map.mp he
    obtain ⟨id, hid⟩ := Maps.mem_values.mp hx
    obtain ⟨hwell, rfl, -⟩ := h.filed.entry hid
    rwa [hwell.normal]
  · intro he
    exact List.mem_map.mpr ⟨e, Maps.mem_values.mpr ⟨_, he⟩, (h.filed.entry he).1.normal⟩

theorem Indexed.wellFormed (h : Indexed lib s) (he : e ∈ s.list lib) : WellFormed lib e :=
  (h.filed.entry (h.mem_list.mp he)).1

theorem Indexed.eq_of_id (h : Indexed lib s) (he : e ∈ s.list lib) (hx : x ∈ s.list lib)
    (hid : e.id = x.id) : e = x :=
  some.inj ((h.mem_list.mp he).symm.trans (hid ▸ h.mem_list.mp hx))

theorem lookup_put (s : InMemoryDeliveryStore A G S) (e : Entry A G S) :
    (s.put e).byID.lookup = Function.update s.byID.lookup e.id (some e) := by
  funext id
  rw [Function.update_apply]
  exact Maps.lookup_insert_if _ _ _ _

/-- An entry is put under an id that is new, or was the one of an entry with the same key. -/
theorem Indexed.put (h : Indexed lib s) {n : ℕ} (hwell : WellFormed lib e)
    (hfiled : Filed lib indexKey n (Function.update s.byID.lookup e.id (some e)))
    (hkey : ∀ x, s.byID.lookup e.id = some x → x.outboxKey = e.outboxKey) :
    Indexed lib (InMemoryDeliveryStore.put { s with nextID := n } e) := by
  have hlookup := lookup_put { s with nextID := n } e
  refine ⟨hlookup ▸ hfiled, fun {key id} => ?_⟩
  rw [show (InMemoryDeliveryStore.put { s with nextID := n } e).byID.lookup id = _ from
    congrFun hlookup id]
  simp only [InMemoryDeliveryStore.put, indexed, if_neg hwell.outboxKey_ne_empty,
    Maps.lookup_insert_if]
  by_cases hid : id = e.id
  · subst hid
    rw [update_self]
    split_ifs with heq
    · exact iff_of_true rfl ⟨e, rfl, heq.symm⟩
    · rw [h.index]
      refine iff_of_false ?_ ?_
      · rintro ⟨x, hx, rfl⟩
        exact heq (hkey x hx)
      · rintro ⟨x, hx, rfl⟩
        exact heq (congrArg _ (some.inj hx).symm)
  · rw [update_of_ne hid]
    split_ifs with heq
    · subst heq
      refine iff_of_false (fun hsome => hid (some.inj hsome).symm) ?_
      -- the entry is the only one with its key
      rintro ⟨x, hx, hxkey⟩
      exact hid (hfiled.keys (by rwa [update_of_ne hid]) (update_self ..)
        (indexKey_eq_iff.mpr hxkey))
    · exact h.index

/-- Another version of a stored entry. -/
theorem Indexed.replace (h : Indexed lib s) (hx : s.byID.lookup x.id = some x)
    (hwell : WellFormed lib e) (hid : e.id = x.id) (hitem : e.item = x.item) :
    Indexed lib (s.put e) := by
  refine h.put hwell (h.filed.replace hx hwell hid hitem) fun y hy => ?_
  rw [hid] at hy
  rw [some.inj (hy.symm.trans hx), outboxKey_congr hitem]

theorem stamped_spec (hwell : WellFormed lib entry) (hitem : e.item = entry.item) {n : ℕ}
    (hid : e.id = deliveryID n) (now : Time) :
    WellFormed lib (stamped lib e now) ∧ (stamped lib e now).id = deliveryID n ∧
      (stamped lib e now).item = entry.item := by
  refine ⟨hwell.of_item hitem, ?_, hwell.normalized_item hitem⟩
  simp only [stamped, normalized, hid, trimSpace_deliveryID]

/-- A new entry under the next number. -/
theorem Indexed.put_next (h : Indexed lib s) (hwell : WellFormed lib e)
    (hid : e.id = deliveryID (s.nextID + 1)) (hnew : s.byOutbox.lookup e.outboxKey = none) :
    Indexed lib (InMemoryDeliveryStore.put { s with nextID := s.nextID + 1 } e) ∧
      s.byID.lookup e.id = none := by
  have hnone : s.byID.lookup e.id = none := hid ▸ h.filed.next
  refine ⟨h.put hwell (h.filed.put hwell hid le_rfl (Nat.le_succ _) fun {id x} hx hkey => ?_) ?_,
    hnone⟩
  · rw [h.index.mpr ⟨x, hx, indexKey_eq_iff.mp hkey⟩] at hnew
    cases hnew
  · intro x hx
    rw [hnone] at hx
    cases hx

/-- Looking an entry up by id. -/
theorem Indexed.get (h : Indexed lib s) {id : String} (hget : s.get lib id = .ok e) :
    s.byID.lookup e.id = some e := by
  rw [InMemoryDeliveryStore.get] at hget
  split at hget
  · cases hget
  · rename_i x hx
    obtain ⟨hwell, hid, -⟩ := h.filed.entry hx
    obtain rfl := Except.ok.inj hget
    rwa [hwell.normal, hid]

theorem Indexed.enqueue (h : Indexed lib s) {s' : InMemoryDeliveryStore A G S} {now : Time}
    {created : Bool} (hid : entry.id = "")
    (hok : s.enqueue lib entry now = (.ok (e, created), s')) :
    Indexed lib s' ∧ Queued indexKey s.byID.lookup s'.byID.lookup (entry.normalized lib).item
      (some e, created) := by
  simp only [InMemoryDeliveryStore.enqueue] at hok
  by_cases hname : (entry.normalized lib).adapterName = ""
  · simp [hname] at hok
  have hwell : WellFormed lib (entry.normalized lib) := .normalized hname
  have hempty : (entry.normalized lib).id = "" := by
    rw [normalized, hid, trimSpace_empty]
  simp only [if_neg hname, if_pos hempty, existing?, if_neg hwell.outboxKey_ne_empty] at hok
  cases hold : s.byOutbox.lookup (entry.normalized lib).outboxKey with
  | some id =>
    obtain ⟨x, hx, hkey⟩ := h.index.mp hold
    simp only [hold, bind_some, hx, Prod.mk.injEq] at hok
    obtain ⟨⟨-, rfl⟩, rfl⟩ := hok
    exact ⟨h, .inl ⟨⟨id, x, hx, indexKey_eq_iff.mpr hkey⟩, rfl, rfl⟩⟩
  | none =>
    simp only [hold, bind_none, Prod.mk.injEq] at hok
    obtain ⟨⟨rfl, rfl⟩, rfl⟩ := hok
    obtain ⟨hstamped, hid', hitem⟩ := stamped_spec
      (e := { entry.normalized lib with id := deliveryID (s.nextID + 1) }) hwell rfl rfl now
    obtain ⟨hput, hnone⟩ := h.put_next hstamped hid'
      (outboxKey_congr hitem ▸ hold)
    exact ⟨hput, .inr ⟨_, hitem, rfl, hnone, lookup_put _ _⟩⟩

/-- `Update` with another version of a stored entry. -/
theorem Indexed.update (h : Indexed lib s) {next : Entry A G S} (he : s.byID.lookup e.id = some e)
    (hid : next.id = e.id) (hitem : next.item = e.item) :
    s.update lib next = (.ok (), s.put (next.normalized lib)) ∧
      Indexed lib (s.put (next.normalized lib)) := by
  have hwell := (h.filed.entry he).1
  have hsame := hwell.normalized_item hitem
  have hlookup : s.byID.lookup (trimSpace next.id) = some e := by
    rw [hid, hwell.trimSpace_id]
    exact he
  have hkey : e.outboxKey = (next.normalized lib).outboxKey :=
    (outboxKey_congr hsame).symm
  refine ⟨?_, h.replace he (hwell.of_item hitem) (hwell.normalized_id hid) hsame⟩
  simp only [InMemoryDeliveryStore.update, hlookup, hkey, ne_eq, not_true_eq_false, and_false]
  rfl

/-- It is for the same items. -/
theorem Indexed.items_update (h : Indexed lib s) {next : Entry A G S}
    (he : s.byID.lookup e.id = some e) (hid : next.id = e.id) (hitem : next.item = e.item) :
    items (s.put (next.normalized lib)).byID.lookup = items s.byID.lookup := by
  have hwell := (h.filed.entry he).1
  rw [lookup_put]
  exact Governance.items_update ((hwell.normalized_id hid).symm ▸ he) (hwell.normalized_item hitem)

end InMemoryDeliveryStore

open InMemoryDeliveryStore in
/-- The store in memory. -/
def inMemoryOutbox (lib : RecordLib A G S) : LawfulOutbox lib (inMemoryStore lib) where
  key := indexKey
  Inv := Indexed lib
  book s := s.byID.lookup
  fresh := ⟨Indexed.empty, fun _ => rfl⟩
  list h := h.mem_list
  entry h he := (h.filed.entry he).2.1
  key_inj h := h.filed.keys
  enqueue {st st' entry now fault answer} h hid hok := by
    cases hanswer : st.enqueue lib entry now with
    | mk result s' =>
      cases result with
      | error err =>
        simp only [inMemoryStore, hanswer, Except.map] at hok
        cases hok
      | ok result =>
        simp only [inMemoryStore, hanswer, Except.map] at hok
        cases hok
        exact h.enqueue hid hanswer
  get h hget := h.get hget
  update {st e} next fault h he hid hitem := by
    obtain ⟨hupdate, hinv⟩ := h.update he hid hitem
    simp only [inMemoryStore, hupdate]
    exact ⟨hinv, h.items_update he hid hitem⟩
  reopen h := ⟨h, rfl⟩

end Hopclaw.Governance
