import Hopclaw.Interleaving.Trace
import Hopclaw.Proofs.OutboxStores

/-! # Deliveries that are revived

`Handle`, the delivery loop and `Redrive` each take a copy of an entry, do something slow, and write
the copy back. Their steps may come in any order, and `Update` overwrites whatever is stored. A
delivered entry stays delivered, and its adapter is not called again, if every participant acts only
while the stored entry has the status of its copy. -/

namespace Hopclaw.Governance

open List Interleaving ReliableDispatcher InMemoryDeliveryStore

variable {A G S : Type}

/-! ## The participants -/

/-- A participant about to call `Update`: the copy it took, and what it writes. -/
structure PendingWrite (A G S : Type) where
  copy : Entry A G S
  next : Entry A G S

structure DeliveryState (A G S : Type) where
  store : InMemoryDeliveryStore A G S := {}
  /-- The entries `processDue` has read and not yet processed. -/
  due : List (Entry A G S) := []
  writes : List (PendingWrite A G S) := []
  /-- The ids of the entries for which an adapter was called. -/
  calls : List String := []

/-- One step of one participant. -/
inductive DeliveryOp (A G S : Type)
  /-- `Handle` calls `Enqueue` for a target; it arms a new entry at the time `armAt`. -/
  | enqueue (record : Record A G S) (target : String) (now armAt : Time)
  /-- `processDue` calls `ListDue`. -/
  | listDue (before : Time)
  /-- `processOne` handles the `i`-th entry read, up to its `Update` or that of `failEntry`. -/
  | call (i : ℕ) (outcome : Option String) (now : Time)
  /-- `Redrive` calls `Get`. -/
  | get (id : String) (resetAttempts clearError : Bool) (now : Time)
  /-- The `i`-th participant calls `Update`, which may fail. -/
  | update (i : ℕ) (ok : Bool)

variable (lib : RecordLib A G S) (d : ReliableDispatcher)

def deliveryStep (s : DeliveryState A G S) : DeliveryOp A G S → DeliveryState A G S
  | .enqueue record target now armAt =>
    match s.store.enqueue lib (d.queuedEntry lib record now target) now with
    | (.ok (entry, true), store) =>
      { s with store, writes := s.writes ++ [⟨entry, armed entry armAt⟩] }
    | (_, store) => { s with store }
  | .listDue before =>
    { s with due := s.due ++ s.store.listDue lib before d.config.batchSize.toNat }
  | .call i outcome now =>
    match s.due[i]? with
    | none => s
    | some entry =>
      { s with
        due := s.due.eraseIdx i
        writes := s.writes ++ [⟨entry, d.processOne lib entry outcome now⟩]
        calls := if d.configured entry then s.calls ++ [entry.id] else s.calls }
  | .get id resetAttempts clearError now =>
    match s.store.get lib id with
    | .error _ => s
    | .ok entry =>
      match redriven lib entry resetAttempts clearError now with
      | none => s
      | some new => { s with writes := s.writes ++ [⟨entry, new⟩] }
  | .update i ok =>
    match s.writes[i]? with
    | none => s
    | some w =>
      { s with
        store := if ok then (s.store.update lib w.next).2 else s.store
        writes := s.writes.eraseIdx i }

/-- The entry with the id of the copy still has its status. -/
def SameStatus (s : DeliveryState A G S) (copy : Entry A G S) : Prop :=
  ∀ e ∈ s.store.list lib, e.id = copy.id → e.status = copy.status

/-- An adapter is called, and an entry is written as not delivered, only while the stored entry has
    the status of the copy. -/
def Current (s : DeliveryState A G S) : DeliveryOp A G S → Prop
  | .call i _ _ => ∀ entry ∈ s.due[i]?, d.configured entry = true → SameStatus lib s entry
  | .update i ok => ∀ w ∈ s.writes[i]?, ok = true → w.next.status ≠ .delivered →
      SameStatus lib s w.copy
  | _ => True

/-- The entry is stored as delivered. -/
def Delivered (s : DeliveryState A G S) (id : String) : Prop :=
  ∃ e ∈ s.store.list lib, e.id = id ∧ e.status = .delivered

/-! ## Copies are versions of stored entries -/

/-- There is a stored entry with the same id and for the same item. -/
def IsVersion (s : InMemoryDeliveryStore A G S) (e : Entry A G S) : Prop :=
  ∃ x ∈ s.list lib, e.id = x.id ∧ e.item = x.item

structure Versions (s : DeliveryState A G S) : Prop where
  store : Indexed lib s.store
  due : ∀ e ∈ s.due, IsVersion lib s.store e ∧ e.status = .pending
  writes : ∀ w ∈ s.writes, IsVersion lib s.store w.next ∧ w.next.id = w.copy.id ∧
    w.copy.status ≠ .delivered

variable {lib d} {s : DeliveryState A G S}

theorem Versions.mono (h : Versions lib s) {store : InMemoryDeliveryStore A G S}
    (hstore : Indexed lib store) (hsub : ∀ e, IsVersion lib s.store e → IsVersion lib store e) :
    Versions lib { s with store } :=
  ⟨hstore, fun e he => ⟨hsub e (h.due e he).1, (h.due e he).2⟩,
    fun w hw => ⟨hsub _ (h.writes w hw).1, (h.writes w hw).2⟩⟩

/-- A copy that is written back later. -/
theorem Versions.write (h : Versions lib s) {w : PendingWrite A G S}
    (hversion : IsVersion lib s.store w.next) (hid : w.next.id = w.copy.id)
    (hstatus : w.copy.status ≠ .delivered) : Versions lib { s with writes := s.writes ++ [w] } := by
  refine ⟨h.store, h.due, fun v hv => ?_⟩
  rcases mem_append.mp hv with hv | hv
  · exact h.writes v hv
  · rw [mem_singleton.mp hv]
    exact ⟨hversion, hid, hstatus⟩

variable {e : Entry A G S} {t : InMemoryDeliveryStore A G S}

theorem IsVersion.of_mem (h : e ∈ t.list lib) : IsVersion lib t e :=
  ⟨e, h, rfl, rfl⟩

variable {next : Entry A G S}

/-- Normalizing a version, or changing the fields of its delivery, gives a version. -/
theorem IsVersion.congr (ht : Indexed lib t) (h : IsVersion lib t e)
    (hid : next.id = (e.normalized lib).id) (hitem : next.item = (e.normalized lib).item) :
    IsVersion lib t next ∧ next.id = e.id := by
  obtain ⟨x, hx, heid, heitem⟩ := h
  have hwell := ht.wellFormed hx
  have hnormal : (e.normalized lib).id = x.id := by
    rw [DeliveryEntry.normalized, heid, hwell.trimSpace_id]
  exact ⟨⟨x, hx, hid.trans hnormal, hitem.trans (hwell.normalized_item heitem)⟩,
    hid.trans (hnormal.trans heid.symm)⟩

theorem failEntry_version (lib : RecordLib A G S) (d : ReliableDispatcher) (e : Entry A G S)
    (cause : String) (now : Time) :
    (d.failEntry lib e cause now).id = (e.normalized lib).id ∧
      (d.failEntry lib e cause now).item = (e.normalized lib).item := by
  simp only [failEntry]
  split_ifs <;> exact ⟨rfl, rfl⟩

theorem processOne_version (lib : RecordLib A G S) (d : ReliableDispatcher) (e : Entry A G S)
    (outcome : Option String) (now : Time) :
    (d.processOne lib e outcome now).id = (e.normalized lib).id ∧
      (d.processOne lib e outcome now).item = (e.normalized lib).item := by
  simp only [processOne]
  split_ifs
  · cases outcome with
    | none => exact ⟨rfl, rfl⟩
    | some cause =>
      -- `failEntry` normalizes the copy once more
      have hfailed := failEntry_version lib d (attempted lib e now) cause now
      have htwice := DeliveryEntry.normalized_normalized lib e
      exact ⟨hfailed.1.trans (congrArg DeliveryEntry.id htwice :
          ((e.normalized lib).normalized lib).id = _),
        hfailed.2.trans (congrArg DeliveryEntry.item htwice :
          ((e.normalized lib).normalized lib).item = _)⟩
  · exact failEntry_version lib d e _ now

variable {now : Time}

theorem redriven_version {resetAttempts clearError : Bool}
    (h : redriven lib e resetAttempts clearError now = some next) :
    next.id = (e.normalized lib).id ∧ next.item = (e.normalized lib).item ∧
      e.status ≠ .delivered := by
  simp only [redriven] at h
  by_cases hstatus : (e.normalized lib).status = .delivered
  · rw [if_pos hstatus] at h
    cases h
  · rw [if_neg hstatus] at h
    obtain rfl := Option.some.inj h
    exact ⟨rfl, rfl, hstatus⟩

theorem mem_listDue {before : Time} {limit : ℕ} (h : e ∈ t.listDue lib before limit) :
    e ∈ t.list lib ∧ e.status = .pending := by
  have hmem : e ∈ ((t.byID.entries.map Sigma.snd).filter (due before)).map
      (DeliveryEntry.normalized lib) := by
    rw [listDue] at h
    split_ifs at h
    · exact (mem_insertionSort _).mp (mem_of_mem_take h)
    · exact (mem_insertionSort _).mp h
  obtain ⟨x, hx, rfl⟩ := mem_map.mp hmem
  obtain ⟨hvalue, hdue⟩ := mem_filter.mp hx
  refine ⟨?_, (of_decide_eq_true hdue).1⟩
  rw [list, mem_insertionSort]
  exact mem_map_of_mem hvalue

variable {entry : Entry A G S} {t' : InMemoryDeliveryStore A G S}

theorem enqueue_created (h : t.enqueue lib entry now = (.ok (e, true), t')) :
    e.status = entry.status := by
  simp only [enqueue] at h
  split_ifs at h
  · cases h
  · split at h
    · cases h
    · obtain ⟨hentry, -⟩ := Prod.mk.inj h
      rw [← (Prod.mk.inj (Except.ok.inj hentry)).1]
      rfl
  · obtain ⟨hentry, -⟩ := Prod.mk.inj h
    rw [← (Prod.mk.inj (Except.ok.inj hentry)).1]
    rfl

theorem enqueue_failed {err : Err} (h : t.enqueue lib entry now = (.error err, t')) : t' = t := by
  simp only [enqueue] at h
  split_ifs at h
  · exact (Prod.mk.inj h).2.symm
  · split at h <;> cases h
  · cases h

/-! ## One step -/

/-- The entries after an `Update` with a version of one of them. -/
theorem update_mem (ht : Indexed lib t) (h : IsVersion lib t next) :
    Indexed lib (t.update lib next).2 ∧
      (next.normalized lib).id = next.id ∧
      ∀ y, y ∈ (t.update lib next).2.list lib ↔
        y = next.normalized lib ∨ y ∈ t.list lib ∧ y.id ≠ next.id := by
  obtain ⟨x, hx, hid, hitem⟩ := h
  obtain ⟨hupdate, hindexed⟩ := ht.update (ht.mem_list.mp hx) hid hitem
  have hsame : (next.normalized lib).id = next.id :=
    ((ht.wellFormed hx).normalized_id hid).trans hid.symm
  rw [hupdate]
  refine ⟨hindexed, hsame, fun y => ?_⟩
  rw [hindexed.mem_list, ht.mem_list, show (t.put (next.normalized lib)).byID.lookup y.id = _ from
    congrFun (lookup_put _ _) y.id, Function.update_apply, hsame]
  split_ifs with heq
  · simp [heq, eq_comm]
  · simp only [heq, ne_eq, not_false_eq_true, and_true]
    refine ⟨.inr, fun hy => hy.resolve_left ?_⟩
    rintro rfl
    exact heq hsame

/-- A version stays a version when another one is stored. -/
theorem IsVersion.update (ht : Indexed lib t) (he : IsVersion lib t e)
    (hnext : IsVersion lib t next) : IsVersion lib (t.update lib next).2 e := by
  obtain ⟨-, hsame, hlist⟩ := update_mem ht hnext
  obtain ⟨x, hx, hid, hitem⟩ := he
  obtain ⟨y, hy, hyid, hyitem⟩ := hnext
  by_cases hxy : x.id = next.id
  · obtain rfl := ht.eq_of_id hx hy (hxy.trans hyid)
    exact ⟨next.normalized lib, (hlist _).mpr (.inl rfl), hid.trans (hxy.trans hsame.symm),
      hitem.trans ((ht.wellFormed hx).normalized_item hyitem).symm⟩
  · exact ⟨x, (hlist x).mpr (.inr ⟨hx, hxy⟩), hid, hitem⟩

theorem Versions.enqueue (h : Versions lib s) (record : Record A G S) (target : String)
    (now armAt : Time) :
    Versions lib (deliveryStep lib d s (.enqueue record target now armAt)) ∧
      ∀ x ∈ s.store.list lib,
        x ∈ (deliveryStep lib d s (.enqueue record target now armAt)).store.list lib := by
  simp only [deliveryStep]
  cases hcall : s.store.enqueue lib (d.queuedEntry lib record now target) now with
  | mk result store =>
    cases result with
    | error err =>
      rw [enqueue_failed hcall]
      exact ⟨h, fun _ hx => hx⟩
    | ok answer =>
      obtain ⟨e, created⟩ := answer
      obtain ⟨hstore, hqueued⟩ := h.store.enqueue rfl hcall
      have hsub : ∀ x ∈ s.store.list lib, x ∈ store.list lib := fun x hx =>
        hstore.mem_list.mpr (hqueued.keeps (h.store.mem_list.mp hx))
      have hmono := h.mono hstore fun x ⟨y, hy, hxy⟩ => ⟨y, hsub y hy, hxy⟩
      rcases hqueued with ⟨-, -, hcreated⟩ | ⟨e', -, hanswer, -, hbook⟩
      · obtain rfl : created = false := hcreated
        exact ⟨hmono, hsub⟩
      · obtain ⟨rfl, rfl⟩ : e = e' ∧ created = true := by simpa using hanswer
        have hmem : e ∈ store.list lib :=
          hstore.mem_list.mpr ((congrFun hbook e.id).trans (Function.update_self ..))
        refine ⟨hmono.write ⟨e, hmem, rfl, rfl⟩ rfl ?_, hsub⟩
        simp only [enqueue_created hcall, queuedEntry]
        decide

theorem Versions.step (h : Versions lib s) (op : DeliveryOp A G S) :
    Versions lib (deliveryStep lib d s op) := by
  cases op with
  | enqueue record target now armAt => exact (h.enqueue record target now armAt).1
  | listDue before =>
    refine ⟨h.store, fun e he => ?_, h.writes⟩
    rcases mem_append.mp he with he | he
    · exact h.due e he
    · obtain ⟨hmem, hpending⟩ := mem_listDue he
      exact ⟨.of_mem hmem, hpending⟩
  | call i outcome now =>
    simp only [deliveryStep]
    cases hi : s.due[i]? with
    | none => exact h
    | some entry =>
      obtain ⟨hversion, hpending⟩ := h.due entry (mem_of_getElem? hi)
      obtain ⟨hid, hitem⟩ := processOne_version lib d entry outcome now
      obtain ⟨hnext, hsame⟩ := hversion.congr h.store hid hitem
      have hwrite := h.write (w := ⟨entry, d.processOne lib entry outcome now⟩) hnext hsame
        (by rw [hpending]; decide)
      exact ⟨hwrite.store, fun e he => h.due e ((eraseIdx_sublist ..).subset he), hwrite.writes⟩
  | get id resetAttempts clearError now =>
    simp only [deliveryStep]
    cases hget : s.store.get lib id with
    | error err => exact h
    | ok entry =>
      cases hredriven : redriven lib entry resetAttempts clearError now with
      | none =>
        simp only [hredriven]
        exact h
      | some next =>
        simp only [hredriven]
        obtain ⟨hid, hitem, hstatus⟩ := redriven_version hredriven
        obtain ⟨hnext, hsame⟩ := (IsVersion.of_mem (h.store.mem_list.mpr (h.store.get hget))).congr
          h.store hid hitem
        exact h.write hnext hsame hstatus
  | update i ok =>
    simp only [deliveryStep]
    cases hi : s.writes[i]? with
    | none => exact h
    | some w =>
      have hrest : Versions lib { s with writes := s.writes.eraseIdx i } :=
        ⟨h.store, h.due, fun v hv => h.writes v ((eraseIdx_sublist ..).subset hv)⟩
      cases ok with
      | false => exact hrest
      | true =>
        obtain ⟨hnext, -, -⟩ := h.writes w (mem_of_getElem? hi)
        exact hrest.mono (update_mem h.store hnext).1 fun e he => he.update h.store hnext

/-- A delivered entry stays delivered, and its adapter is not called. -/
theorem Versions.delivered_step (h : Versions lib s) {op : DeliveryOp A G S}
    (hop : Current lib d s op) {id : String} (hid : Delivered lib s id) :
    Delivered lib (deliveryStep lib d s op) id ∧
      (deliveryStep lib d s op).calls.count id = s.calls.count id := by
  obtain ⟨x, hx, rfl, hdelivered⟩ := hid
  cases op with
  | enqueue record target now armAt =>
    refine ⟨⟨x, (h.enqueue record target now armAt).2 x hx, rfl, hdelivered⟩, ?_⟩
    simp only [deliveryStep]
    split <;> rfl
  | listDue before => exact ⟨⟨x, hx, rfl, hdelivered⟩, rfl⟩
  | call i outcome now =>
    simp only [deliveryStep]
    cases hi : s.due[i]? with
    | none => exact ⟨⟨x, hx, rfl, hdelivered⟩, rfl⟩
    | some entry =>
      refine ⟨⟨x, hx, rfl, hdelivered⟩, ?_⟩
      by_cases hconfigured : d.configured entry = true
      · -- a copy is pending, so it is not one of this entry
        have hne : entry.id ≠ x.id := by
          intro heq
          have hsame := hop entry hi hconfigured x hx heq.symm
          rw [hdelivered, (h.due entry (mem_of_getElem? hi)).2] at hsame
          cases hsame
        simp [hconfigured, hne]
      · simp [hconfigured]
  | get id resetAttempts clearError now =>
    simp only [deliveryStep]
    cases s.store.get lib id with
    | error err => exact ⟨⟨x, hx, rfl, hdelivered⟩, rfl⟩
    | ok entry =>
      cases hredriven : redriven lib entry resetAttempts clearError now <;>
        (simp only [hredriven, and_true]; exact ⟨x, hx, rfl, hdelivered⟩)
  | update i ok =>
    simp only [deliveryStep]
    cases hi : s.writes[i]? with
    | none => exact ⟨⟨x, hx, rfl, hdelivered⟩, rfl⟩
    | some w =>
      refine ⟨?_, rfl⟩
      cases ok with
      | false => exact ⟨x, hx, rfl, hdelivered⟩
      | true =>
        obtain ⟨hnext, hcopy, hstatus⟩ := h.writes w (mem_of_getElem? hi)
        obtain ⟨-, hsame, hlist⟩ := update_mem h.store hnext
        by_cases heq : x.id = w.next.id
        · refine ⟨w.next.normalized lib, (hlist _).mpr (.inl rfl), hsame.trans heq.symm, ?_⟩
          -- otherwise the copy would have to be delivered
          by_contra hwritten
          exact hstatus (hop w hi rfl hwritten x hx (heq.trans hcopy) ▸ hdelivered)
        · exact ⟨x, (hlist x).mpr (.inr ⟨hx, heq⟩), rfl, hdelivered⟩

/-! ## Whole runs -/

/-- In every run in which the participants act on copies with the status of the stored entry, an entry
    that is stored as delivered stays so, and its adapter is not called again. -/
theorem delivered_stays_delivered (lib : RecordLib A G S) (d : ReliableDispatcher)
    (ops more : List (DeliveryOp A G S)) (id : String)
    (hcurrent : Meets (deliveryStep lib d) (Current lib d) {} (ops ++ more))
    (hdelivered : Delivered lib (runAll (deliveryStep lib d) {} ops) id) :
    Delivered lib (runAll (deliveryStep lib d) {} (ops ++ more)) id ∧
      (runAll (deliveryStep lib d) {} (ops ++ more)).calls.count id =
        (runAll (deliveryStep lib d) {} ops).calls.count id := by
  have hversions : Versions lib (runAll (deliveryStep lib d) {} ops) :=
    runAll_inv (deliveryStep lib d) (fun _ op h => h.step op)
      ⟨Indexed.empty, by simp, by simp⟩ ops
  rw [runAll_append]
  set s := runAll (deliveryStep lib d) {} ops
  have hmore : Meets (deliveryStep lib d) (Current lib d) s more := (Meets.append.mp hcurrent).2
  obtain ⟨-, hend⟩ := hmore.inv
    (I := fun t => Versions lib t ∧ Delivered lib t id ∧ t.calls.count id = s.calls.count id)
    (fun t op ⟨hv, hd, hcalls⟩ hop =>
      ⟨hv.step op, (hv.delivered_step hop hd).1, (hv.delivered_step hop hd).2.trans hcalls⟩)
    ⟨hversions, hdelivered, rfl⟩
  exact hend

instance (s : DeliveryState A G S) (copy : Entry A G S) : Decidable (SameStatus lib s copy) :=
  inferInstanceAs (Decidable (∀ _ ∈ _, _ = _ → _ = _))

instance (s : DeliveryState A G S) (op : DeliveryOp A G S) : Decidable (Current lib d s op) :=
  match op with
  | .call .. => inferInstanceAs (Decidable (∀ _ ∈ _, _ = true → SameStatus ..))
  | .update .. => inferInstanceAs (Decidable (∀ _ ∈ _, _ = true → _ ≠ _ → SameStatus ..))
  | .enqueue .. | .listDue .. | .get .. => .isTrue trivial

instance (s : DeliveryState A G S) (id : String) : Decidable (Delivered lib s id) :=
  inferInstanceAs (Decidable (∃ _ ∈ _, _ = _ ∧ _ = _))

def oneAdapter : ReliableDispatcher :=
  newReliableDispatcher {} [some ⟨some "a", "webhook"⟩]

/-- An entry is queued, armed, and delivered. -/
def deliveredInOrder : List (DeliveryOp Unit Unit Unit) :=
  [.enqueue bareRecord "a" 1 2, .update 0 true, .listDue 3, .call 0 none 4, .update 0 true]

theorem delivered_stays_delivered_in_order :
    Delivered bareRecords (runAll (deliveryStep bareRecords oneAdapter) {}
        (deliveredInOrder ++ [.get (deliveryID 1) true true 5, .listDue 6, .update 0 true]))
      (deliveryID 1) ∧
    (runAll (deliveryStep bareRecords oneAdapter) {} (deliveredInOrder ++
        [.get (deliveryID 1) true true 5, .listDue 6, .update 0 true])).calls.count (deliveryID 1) =
      (runAll (deliveryStep bareRecords oneAdapter) {} deliveredInOrder).calls.count (deliveryID 1) :=
  delivered_stays_delivered bareRecords oneAdapter deliveredInOrder _ (deliveryID 1)
    (by decide +kernel) (by decide +kernel)

/-- The entry is due before `Handle` arms it: the loop delivers it in between. -/
def deliveredBeforeArmed : List (DeliveryOp Unit Unit Unit) :=
  [.enqueue bareRecord "a" 1 2000000, .listDue 1000001, .call 0 none 1000002, .update 1 true]

/-- `Redrive` has read the entry when the loop delivers it. -/
def deliveredBeforeRedriven : List (DeliveryOp Unit Unit Unit) :=
  [.enqueue bareRecord "a" 1 2, .update 0 true, .get (deliveryID 1) false false 3, .listDue 3,
    .call 0 none 4, .update 1 true]

/-- After the steps the entry is delivered; the write that is still pending makes it due again, and
    the loop calls the adapter a second time. -/
def Revived (ops : List (DeliveryOp Unit Unit Unit)) : Prop :=
  Delivered bareRecords (runAll (deliveryStep bareRecords oneAdapter) {} ops) (deliveryID 1) ∧
    ¬ Delivered bareRecords (runAll (deliveryStep bareRecords oneAdapter) {}
        (ops ++ [.update 0 true])) (deliveryID 1) ∧
    (runAll (deliveryStep bareRecords oneAdapter) {} (ops ++
        [.update 0 true, .listDue 2000000, .call 0 none 2000001])).calls =
      [deliveryID 1, deliveryID 1]

instance (ops : List (DeliveryOp Unit Unit Unit)) : Decidable (Revived ops) :=
  inferInstanceAs (Decidable (_ ∧ _ ∧ _))

theorem late_write_revives_delivery :
    Revived deliveredBeforeArmed ∧ Revived deliveredBeforeRedriven := by
  decide +kernel

end Hopclaw.Governance
