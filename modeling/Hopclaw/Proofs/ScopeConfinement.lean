import Hopclaw.Store.ScopedReads

/-! # Confined readers

A read with a scope filter returns only records the filter admits, and is answered as if the store
held no others. The stores in memory and those with log files keep to this. The SQLite stores do
only where what they find, regardless of scopes, happens to be admitted: the row itself, or each row
that no full page of newer rows keeps off the list.

Rows with equal times come in an order that neither Go's maps nor SQL determine. What is said of a
list is said for every such order. -/

namespace Hopclaw.Store

open List ReadAnswer RunBackend Pages

variable {X M : Type}

/-- What is found first and has the property is found first among those that have it. -/
theorem find?_filter_of_admitted {α : Type} {p q : α → Bool} {l : List α}
    (h : ∀ x ∈ l.find? q, p x = true) : (l.filter p).find? q = l.find? q := by
  induction l with
  | nil => rfl
  | cons x l ih =>
    by_cases hq : q x = true
    · have hp : p x = true := h x (by simp [hq])
      simp [hp, hq]
    · have hrest : ∀ y ∈ l.find? q, p y = true := by simpa [hq] using h
      by_cases hp : p x = true <;> simp [hp, hq, ih hrest]

/-! ## The caller's part of a store -/

section Own

variable (scope : ScopeFilter)

/-- `own` has the records of `all` that the filter admits, and no others. -/
def RunTable.Own (all own : RunTable X) : Prop :=
  ∀ id, own.find? id = (all.find? id).filter fun r => scope.admits r.run.scope

def RunBackend.Own : RunBackend X → RunBackend X → Prop
  | .inMemory all, .inMemory own => all.Own scope own
  | .jsonl all, .jsonl own => all.table.Own scope own.table
  | .sqlite all, .sqlite own => own.rows = all.rows.filter fun r => scope.admits r.run.scope
  | _, _ => False

/-- Likewise for sessions in maps. A key of a session that is not admitted is not there. -/
structure OwnSessions (byID byID' : AList fun _ : String => StoredSession M)
    (byKey byKey' : AList fun _ : String => String) : Prop where
  ids : ∀ id, byID'.lookup id = (byID.lookup id).filter fun s => scope.admits s.scope
  keys : ∀ key, byKey'.lookup key = (byKey.lookup key).filter fun id =>
    (byID.lookup id).all fun s => scope.admits s.scope

/-- The scope a row decodes to. -/
def SessionRow.ref (row : SessionRow) : Ref :=
  (row.scan [] 0 : StoredSession Unit).scope

/-- Likewise for rows. The messages of admitted sessions are all there. -/
structure OwnRows (all own : SQLiteSessionStore M) : Prop where
  sessions : own.sessions = all.sessions.filter fun row => scope.admits row.ref
  messages : ∀ row ∈ own.sessions,
    (own.messages.filter fun m => m.sessionID = row.id) =
      all.messages.filter fun m => m.sessionID = row.id

def SessionBackend.Own : SessionBackend M → SessionBackend M → Prop
  | .inMemory all, .inMemory own => OwnSessions scope all.byID own.byID all.byKey own.byKey
  | .jsonl all, .jsonl own => OwnSessions scope all.byID own.byID all.byKey own.byKey
  | .sqlite all, .sqlite own => OwnRows scope all own
  | _, _ => False

structure Stores.Own (all own : Stores X M) : Prop where
  runs : all.runs.Own scope own.runs
  sessions : all.sessions.Own scope own.sessions

end Own

/-! ## Runs -/

variable {scope : ScopeFilter} {env : ReadEnv X M}

/-- A record found by SQLite, if any, is admitted. -/
def RunBackend.GetHonours (id : String) (scope : ScopeFilter) : RunBackend X → Prop
  | .sqlite s => ∀ r ∈ s.rows.find? fun r => r.run.id = id, scope.admits r.run.scope = true
  | _ => True

/-- A row SQLite selects is admitted, or there is a limit and as many selected rows are newer. -/
def RunBackend.ListHonours (formatTime : Time → String) (filter : RunListFilter) :
    RunBackend X → Prop
  | .sqlite s => ∀ r ∈ s.selected filter, ¬filter.scope.admits r.run.scope = true →
    0 < filter.limit ∧ filter.limit ≤ (s.selected filter).countP fun r' =>
      formatTime r.run.updatedAt < formatTime r'.run.updatedAt
  | _ => True

/-- The environment in which runs are found in another order. -/
def ReadEnv.withRunOrder (env : ReadEnv X M) (runOrder : RunTable.Order X) : ReadEnv X M :=
  { env with runOrder }

section Runs

variable {b own : RunBackend X} {id : String} {filter : RunListFilter}

theorem returned_scope {c : Cloning X} {r r' : RunRecord X}
    (h : JSONLRunStore.returned c r = .ok (some r')) : r'.run.scope = r.run.scope := by
  unfold JSONLRunStore.returned at h
  split at h
  · cases h
  · next cloned hcloned =>
    obtain ⟨tools, rest, -, -, rfl⟩ := cloneAgentRun_eq_some.mp hcloned
    cases h
    rfl

theorem getRunScoped_admits_iff :
    (∀ r, b.getScoped env id scope = .ok (some r) → scope.admits r.run.scope = true) ↔
      b.GetHonours id scope := by
  cases b with
  | inMemory t =>
    refine iff_of_true (fun r h => ?_) trivial
    simp only [getScoped, InMemoryRunStore.getScoped] at h
    split at h
    · cases h
    · split_ifs at h with hadmits
      cases h
      exact hadmits
  | jsonl s =>
    refine iff_of_true (fun r h => ?_) trivial
    simp only [getScoped, JSONLRunStore.getScoped] at h
    split at h
    · cases h
    · split_ifs at h with hadmits
      rw [returned_scope h]
      exact hadmits
  | sqlite s =>
    simp only [getScoped, SQLiteRunStore.getScoped, RunBackend.GetHonours]
    cases s.rows.find? fun r => r.run.id = id <;> simp

theorem getRunScoped_own (hown : b.Own scope own) (h : b.GetHonours id scope) :
    own.getScoped env id scope = b.getScoped env id scope := by
  cases b <;> cases own <;> try exact hown.elim
  case inMemory.inMemory t own =>
    simp only [getScoped, InMemoryRunStore.getScoped, hown id]
    cases t.find? id with
    | none => rfl
    | some r => by_cases hadmits : scope.admits r.run.scope = true <;> simp [Option.filter, hadmits]
  case jsonl.jsonl s own =>
    simp only [getScoped, JSONLRunStore.getScoped, hown id]
    cases s.table.find? id with
    | none => rfl
    | some r => by_cases hadmits : scope.admits r.run.scope = true <;> simp [Option.filter, hadmits]
  case sqlite.sqlite s own =>
    simp only [getScoped, SQLiteRunStore.getScoped]
    rw [show own.rows = _ from hown, find?_filter_of_admitted h]

theorem admits_of_selected {t : RunTable X} {r : RunRecord X} (h : r ∈ t.selected filter) :
    filter.scope.admits r.run.scope = true := by
  have hkeep := (mem_filter.mp h).2
  simp only [Bool.and_eq_true] at hkeep
  exact hkeep.2

theorem selected_own {all own : RunTable X} (h : all.Own filter.scope own) :
    (own.selected filter).Perm (all.selected filter) := by
  have hvalues := Maps.values_perm_filter h
  refine (hvalues.filter _).trans (List.Perm.of_eq ?_)
  rw [filter_filter]
  refine filter_congr fun r _ => ?_
  cases filter.scope.admits r.run.scope <;> simp

theorem listRuns_admits_iff :
    (∀ order, ∀ r ∈ b.list (env.withRunOrder order) filter,
      filter.scope.admits r.run.scope = true) ↔ b.ListHonours env.formatTime filter := by
  cases b with
  | inMemory t =>
    refine iff_of_true (fun order r h => ?_) trivial
    have hmem := (order _).2.mem_iff.mp (mem_of_mem_page _ h)
    obtain ⟨r', hr', rfl⟩ := mem_map.mp hmem
    have hadmits := admits_of_selected hr'
    exact hadmits
  | jsonl s =>
    refine iff_of_true (fun order r h => ?_) trivial
    have hmem := (order _).2.mem_iff.mp (mem_of_mem_page _ h)
    obtain ⟨r', hr', hclone⟩ := mem_filterMap.mp hmem
    obtain ⟨tools, rest, -, -, rfl⟩ := cloneAgentRun_eq_some.mp hclone
    have hadmits := admits_of_selected hr'
    exact hadmits
  | sqlite s =>
    refine (forall_page_iff (SQLiteRunStore.Newer env.formatTime)).trans ?_
    simp only [not_le]
    rfl

theorem listRuns_own (hown : b.Own filter.scope own)
    (h : ∀ r ∈ b.list env filter, filter.scope.admits r.run.scope = true) :
    ∃ order, own.list (env.withRunOrder order) filter = b.list env filter := by
  cases b <;> cases own <;> try exact hown.elim
  case inMemory.inMemory t own =>
    obtain ⟨order, horder⟩ := exists_order_eq
      ((selected_own hown).map (cloneRun env.cloning)) env.runOrder
    exact ⟨order, congrArg (RunTable.page filter) horder⟩
  case jsonl.jsonl s own =>
    obtain ⟨order, horder⟩ := exists_order_eq
      ((selected_own hown).filterMap (cloneAgentRun env.cloning)) env.runOrder
    exact ⟨order, congrArg (RunTable.page filter) horder⟩
  case sqlite.sqlite s own =>
    have hrows : (own.selected filter).Perm
        ((s.selected filter).filter fun r => filter.scope.admits r.run.scope) := by
      rw [SQLiteRunStore.selected, show own.rows = _ from hown, filter_comm]
      rfl
    exact exists_order_page _ hrows env.runOrder h

end Runs

/-! ## Sessions -/

/-- A row found by SQLite, if any, is admitted. -/
def SessionBackend.GetHonours (matching : SessionRow → Bool) (scope : ScopeFilter) :
    SessionBackend M → Prop
  | .sqlite s => ∀ row ∈ s.sessions.find? matching, scope.admits row.ref = true
  | _ => True

/-- A row is admitted, or there is a limit and as many rows are newer. -/
def SessionBackend.ListHonours (formatTime : Time → String) (filter : SessionListFilter) :
    SessionBackend M → Prop
  | .sqlite s => ∀ row ∈ s.sessions, ¬filter.scope.admits row.ref = true →
    0 < filter.limit ∧ filter.limit ≤ s.sessions.countP fun row' =>
      formatTime row.updatedAt < formatTime row'.updatedAt
  | _ => True

variable {filter : SessionListFilter}

section Maps

variable {byID byID' : AList fun _ : String => StoredSession M}
  {byKey byKey' : AList fun _ : String => String}
  {copy : SessionCopy M} {session : StoredSession M}

/-- A copy has the scope of the original. -/
def KeepsScope (copy : SessionCopy M) : Prop :=
  ∀ session session', copy session = .ok session' → session'.scope = session.scope

theorem keepsScope_clone : KeepsScope fun session : StoredSession M => .ok session.clone := by
  rintro session _ ⟨⟩
  rfl

theorem keepsScope_metadataOnly :
    KeepsScope fun session : StoredSession M => .ok session.metadataOnly := by
  rintro session _ ⟨⟩
  rfl

theorem keepsScope_returned (c : JSONCoding M) : KeepsScope (JSONLSessionStore.returned c) := by
  intro session session' h
  unfold JSONLSessionStore.returned at h
  split at h
  · cases h
  · next cloned hcloned =>
    cases h
    simp only [cloneAgentSession, Option.bind_eq_bind, Option.bind_eq_some_iff, pure,
      Option.some.injEq] at hcloned
    obtain ⟨messages, -, rfl⟩ := hcloned
    rfl

/-- A read of sessions in maps that checks the filter. -/
structure MapRead (scope : ScopeFilter) (read : (AList fun _ : String => StoredSession M) →
    (AList fun _ : String => String) → SessionCopy M → Except Err (StoredSession M)) : Prop where
  admits : ∀ {byID byKey copy session}, KeepsScope copy → read byID byKey copy = .ok session →
    scope.admits session.scope = true
  own : ∀ {byID byID' byKey byKey' copy}, OwnSessions scope byID byID' byKey byKey' →
    read byID' byKey' copy = read byID byKey copy

theorem mapRead_id (id : String) :
    MapRead (M := M) scope fun byID _ copy => mapGetScoped byID copy id scope where
  admits := by
    intro byID byKey copy session hcopy h
    unfold mapGetScoped at h
    split at h
    · cases h
    · split_ifs at h with hadmits
      rw [hcopy _ _ h]
      exact hadmits
  own := by
    intro byID byID' byKey byKey' copy h
    simp only [mapGetScoped, h.ids]
    cases byID.lookup id with
    | none => rfl
    | some s => by_cases hadmits : scope.admits s.scope = true <;> simp [Option.filter, hadmits]

theorem mapRead_key (key : String) :
    MapRead (M := M) scope fun byID byKey copy => mapGetByKeyScoped byID byKey copy key scope where
  admits := by
    intro byID byKey copy session hcopy h
    unfold mapGetByKeyScoped at h
    split at h
    · cases h
    · split at h
      · cases h
      · split_ifs at h with hadmits
        rw [hcopy _ _ h]
        exact hadmits
  own := by
    intro byID byID' byKey byKey' copy h
    simp only [mapGetByKeyScoped, h.keys]
    cases byKey.lookup key with
    | none => rfl
    | some id =>
      cases hid : byID.lookup id with
      | none => simp [Option.filter, hid, h.ids]
      | some s =>
        by_cases hadmits : scope.admits s.scope = true <;> simp [Option.filter, hid, h.ids, hadmits]

theorem mapListScoped_admits {order : Pages.Order (StoredSession M)}
    (h : session ∈ mapListScoped byID filter order) : filter.scope.admits session.scope = true := by
  have hmem := (order _).2.mem_iff.mp (mem_of_mem_page _ h)
  obtain ⟨s, hs, rfl⟩ := mem_map.mp hmem
  exact (mem_filter.mp hs).2

theorem mapListScoped_own (h : OwnSessions filter.scope byID byID' byKey byKey')
    (order : Pages.Order (StoredSession M)) :
    ∃ order', mapListScoped byID' filter order' = mapListScoped byID filter order := by
  have hvalues := Maps.values_perm_filter h.ids
  have hselected : (mapSelected byID' filter.scope).Perm (mapSelected byID filter.scope) := by
    refine (hvalues.filter _).trans (List.Perm.of_eq ?_)
    rw [filter_filter]
    exact filter_congr fun s _ => Bool.and_self _
  obtain ⟨order', horder'⟩ :=
    exists_order_eq (hselected.map StoredSession.metadataOnly) order
  exact ⟨order', congrArg (page StoredSession.Newer filter.limit) horder'⟩

end Maps

section Rows

variable {s own : SQLiteSessionStore M}

/-- What is read of a session's row: its scope, and nothing of other sessions. -/
structure RowLoad (load : SQLiteSessionStore M → SessionRow → StoredSession M) : Prop where
  scope : ∀ s row, (load s row).scope = row.ref
  own : ∀ {scope s own}, OwnRows scope s own → ∀ row ∈ own.sessions, load own row = load s row

theorem rowLoad_withCount : RowLoad (SQLiteSessionStore.withCount (M := M)) where
  scope _ _ := rfl
  own h row hrow := by
    simp only [SQLiteSessionStore.withCount, SQLiteSessionStore.messageCount, h.messages row hrow]

theorem rowLoad_withMessages : RowLoad (SQLiteSessionStore.withMessages (M := M)) where
  scope _ _ := rfl
  own h row hrow := by
    simp only [SQLiteSessionStore.withMessages, SQLiteSessionStore.storedMessages,
      h.messages row hrow]

theorem sqliteList_own (hown : OwnRows filter.scope s own)
    (h : ∀ session ∈ s.listScoped env.formatTime filter env.sessionOrder,
      filter.scope.admits session.scope = true) :
    ∃ order, own.listScoped env.formatTime filter order =
      s.listScoped env.formatTime filter env.sessionOrder := by
  have hrows : (own.sessions.map own.withCount).Perm
      ((s.sessions.map s.withCount).filter fun session => filter.scope.admits session.scope) := by
    rw [map_congr_left (rowLoad_withCount.own hown), hown.sessions, filter_map]
    rfl
  exact exists_order_page _ hrows env.sessionOrder h

end Rows

section Sessions

variable {b own : SessionBackend M}

/-- The environment in which sessions are found in another order. -/
def ReadEnv.withSessionOrder (env : ReadEnv X M) (sessionOrder : Pages.Order (StoredSession M)) :
    ReadEnv X M :=
  { env with sessionOrder }

theorem listScoped_admits_iff :
    (∀ order, ∀ session ∈ b.listScoped (env.withSessionOrder order) filter,
      filter.scope.admits session.scope = true) ↔ b.ListHonours env.formatTime filter := by
  cases b with
  | inMemory s => exact iff_of_true (fun _ _ => mapListScoped_admits) trivial
  | jsonl s => exact iff_of_true (fun _ _ => mapListScoped_admits) trivial
  | sqlite s =>
    refine (forall_page_iff (SQLiteSessionStore.Newer env.formatTime)).trans ?_
    simp only [forall_mem_map, countP_map, not_le]
    rfl

theorem listScoped_own (hown : b.Own filter.scope own)
    (h : ∀ session ∈ b.listScoped env filter, filter.scope.admits session.scope = true) :
    ∃ order, own.listScoped (env.withSessionOrder order) filter = b.listScoped env filter := by
  cases b <;> cases own <;> try exact hown.elim
  case inMemory.inMemory => exact mapListScoped_own hown env.sessionOrder
  case jsonl.jsonl => exact mapListScoped_own hown env.sessionOrder
  case sqlite.sqlite => exact sqliteList_own hown h

end Sessions

/-! ## Every read -/

/-- What SQLite finds regardless of scopes is admitted. -/
def Stores.Honours (formatTime : Time → String) (st : Stores X M) : ScopedRead → Prop
  | .getRunScoped id scope => st.runs.GetHonours id scope
  | .listRuns filter => st.runs.ListHonours formatTime filter
  | .getScoped id scope | .getMetadataScoped id scope =>
    st.sessions.GetHonours (fun row => row.id = id) scope
  | .getByKeyScoped key scope | .getByKeyMetadataScoped key scope =>
    st.sessions.GetHonours (fun row => row.key = key) scope
  | .listScoped filter => st.sessions.ListHonours formatTime filter

/-- The records of the answer are admitted, and a store that holds just the admitted records can
    give the same answer. -/
def Stores.Confined (env : ReadEnv X M) (st : Stores X M) (q : ScopedRead) : Prop :=
  (∀ ref ∈ (st.read env q).scopes, q.scope.admits ref = true) ∧
    ∀ own, st.Own q.scope own → ∃ runOrder sessionOrder,
      own.read ((env.withRunOrder runOrder).withSessionOrder sessionOrder) q = st.read env q

theorem confined_of {A E H : Prop} (hA : A ↔ H) (hE : H → E) : A ∧ E ↔ H :=
  ⟨fun h => hA.mp h.1, fun h => ⟨hA.mpr h, hE h⟩⟩

/-- A list is confined if it is admitted, in whatever order its records are found. -/
theorem list_confined_of {S T : Type} {A E : S → T → Prop} {H : Prop} (hA : (∀ s t, A s t) ↔ H)
    (hE : ∀ s t, A s t → E s t) : (∀ s t, A s t ∧ E s t) ↔ H :=
  ⟨fun h => hA.mp fun s t => (h s t).1, fun h s t => ⟨hA.mpr h s t, hE s t (hA.mpr h s t)⟩⟩

/-- The order in which records are found is nothing to a read of one record. -/
theorem forall_orders_iff (env : ReadEnv X M) {A H : Prop} (h : A ↔ H) :
    (∀ (_ : RunTable.Order X) (_ : Pages.Order (StoredSession M)), A) ↔ H :=
  ⟨fun hA => h.mp (hA env.runOrder env.sessionOrder), fun hH _ _ => h.mpr hH⟩

/-- A read of one session, by what it is in each of the three stores. -/
theorem session_read_iff (env : ReadEnv X M) (st : Stores X M)
    (get : SessionBackend M → Except Err (StoredSession M))
    {read : (AList fun _ : String => StoredSession M) → (AList fun _ : String => String) →
      SessionCopy M → Except Err (StoredSession M)}
    {load : SQLiteSessionStore M → SessionRow → StoredSession M}
    {copy copy' : SessionCopy M}
    {matching : SessionRow → Bool} {missing : Err}
    (hread : MapRead scope read) (hload : RowLoad load) (hcopy : KeepsScope copy)
    (hcopy' : KeepsScope copy') (hinMemory : ∀ s, get (.inMemory s) = read s.byID s.byKey copy)
    (hjsonl : ∀ s, get (.jsonl s) = read s.byID s.byKey copy')
    (hsqlite : ∀ s, get (.sqlite s) = s.read matching missing (load s)) :
    ((∀ ref ∈ (session (get st.sessions) : ReadAnswer X M).scopes,
        scope.admits ref = true) ∧
      ∀ own : Stores X M, st.Own scope own → ∃ (_ : RunTable.Order X)
        (_ : Pages.Order (StoredSession M)), (session (get own.sessions) :
          ReadAnswer X M) = .session (get st.sessions)) ↔ st.sessions.GetHonours matching scope := by
  refine confined_of ?_ fun h own hown =>
    ⟨env.runOrder, env.sessionOrder, congrArg session ?_⟩
  · have hscopes : (∀ ref ∈ (session (get st.sessions) : ReadAnswer X M).scopes,
        scope.admits ref = true) ↔
        ∀ session, get st.sessions = .ok session → scope.admits session.scope = true := by
      cases get st.sessions <;> simp [scopes]
    rw [hscopes]
    cases st.sessions with
    | inMemory s => exact iff_of_true (fun _ h => hread.admits hcopy (hinMemory s ▸ h)) trivial
    | jsonl s => exact iff_of_true (fun _ h => hread.admits hcopy' (hjsonl s ▸ h)) trivial
    | sqlite s =>
      rw [hsqlite, SQLiteSessionStore.read, SessionBackend.GetHonours]
      cases s.sessions.find? matching <;> simp [hload.scope]
  · have hsessions := hown.sessions
    revert h hsessions
    cases st.sessions <;> cases own.sessions <;> intro h hown <;> try exact hown.elim
    case inMemory.inMemory => rw [hinMemory, hinMemory, hread.own hown]
    case jsonl.jsonl => rw [hjsonl, hjsonl, hread.own hown]
    case sqlite.sqlite s own =>
      have hfind : own.sessions.find? matching = s.sessions.find? matching := by
        rw [hown.sessions, find?_filter_of_admitted h]
      rw [hsqlite, hsqlite, SQLiteSessionStore.read, SQLiteSessionStore.read, ← hfind]
      cases hrow : own.sessions.find? matching with
      | none => rfl
      | some row =>
        exact congrArg Except.ok (hload.own hown row (mem_of_find?_eq_some hrow))

theorem forall_scopes_run {result : Except Err (Option (RunRecord X))} :
    (∀ ref ∈ (run result : ReadAnswer X M).scopes, scope.admits ref = true) ↔
      ∀ r, result = .ok (some r) → scope.admits r.run.scope = true := by
  rcases result with e | (_ | r) <;> simp [scopes]

/-- A read is confined, in whatever order records are found, exactly if its store checks the filter
    or finds only admitted records. -/
theorem reads_confined_iff (env : ReadEnv X M) (st : Stores X M) (q : ScopedRead) :
    (∀ runOrder sessionOrder,
      st.Confined ((env.withRunOrder runOrder).withSessionOrder sessionOrder) q) ↔
      st.Honours env.formatTime q := by
  cases q with
  | getRunScoped id scope =>
    refine forall_orders_iff (A := st.Confined env (.getRunScoped id scope)) env (confined_of
      (forall_scopes_run.trans getRunScoped_admits_iff) fun h own hown => ?_)
    exact ⟨env.runOrder, env.sessionOrder, congrArg run (getRunScoped_own hown.runs h)⟩
  | listRuns filter =>
    refine list_confined_of ⟨fun h => ?_, fun h order _ => ?_⟩ fun _ _ h own hown => ?_
    · exact listRuns_admits_iff.mp fun order => forall_mem_map.mp (h order env.sessionOrder)
    · exact forall_mem_map.mpr (listRuns_admits_iff.mpr h order)
    · obtain ⟨order, horder⟩ := listRuns_own hown.runs (forall_mem_map.mp h)
      exact ⟨order, _, congrArg runs horder⟩
  | getScoped id scope =>
    exact forall_orders_iff env <| session_read_iff env st (fun b => b.getScoped env id scope)
      (mapRead_id id) rowLoad_withMessages keepsScope_clone (keepsScope_returned _)
      (fun _ => rfl) (fun _ => rfl) fun _ => rfl
  | getMetadataScoped id scope =>
    exact forall_orders_iff env <| session_read_iff env st (fun b => b.getMetadataScoped id scope)
      (mapRead_id id) rowLoad_withCount keepsScope_metadataOnly keepsScope_metadataOnly
      (fun _ => rfl) (fun _ => rfl) fun _ => rfl
  | getByKeyScoped key scope =>
    exact forall_orders_iff env <| session_read_iff env st (fun b => b.getByKeyScoped env key scope)
      (mapRead_key key) rowLoad_withMessages keepsScope_clone (keepsScope_returned _)
      (fun _ => rfl) (fun _ => rfl) fun _ => rfl
  | getByKeyMetadataScoped key scope =>
    exact forall_orders_iff env <| session_read_iff env st (fun b => b.getByKeyMetadataScoped key scope)
      (mapRead_key key) rowLoad_withCount keepsScope_metadataOnly keepsScope_metadataOnly
      (fun _ => rfl) (fun _ => rfl) fun _ => rfl
  | listScoped filter =>
    refine list_confined_of ⟨fun h => ?_, fun h _ order => ?_⟩ fun _ _ h own hown => ?_
    · exact listScoped_admits_iff.mp fun order => forall_mem_map.mp (h env.runOrder order)
    · exact forall_mem_map.mpr (listScoped_admits_iff.mpr h order)
    · obtain ⟨order, horder⟩ := listScoped_own hown.sessions (forall_mem_map.mp h)
      exact ⟨_, order, congrArg sessions horder⟩

/-- Records come as they are stored. -/
def plainEnv : ReadEnv Unit Unit where
  cloning := .plain
  coding := .plain Unit
  formatTime := toString
  runOrder l := ⟨l, List.Perm.refl l⟩
  sessionOrder l := ⟨l, List.Perm.refl l⟩

/-- SQLite stores with a run and a session of one automation. -/
def billingStores : Stores Unit Unit where
  runs := .sqlite
    { rows := [{ run := { id := "run-000001", sessionID := "sess-000001"
                          scope := ⟨"billing"⟩, model := "m" }
                 rest := () }] }
  sessions := .sqlite
    { sessions := [{ id := "sess-000001", key := "web:1", model := "m", revision := 1
                     scope := ⟨"billing"⟩, createdAt := 1, updatedAt := 1 }] }

/-- A caller confined to another automation. -/
def supportOnly : ScopeFilter where
  automationIDs := ["support"]

/-- Each read returns the record of the other automation. -/
theorem sqlite_reads_ignore_scope :
    ([.getRunScoped "run-000001" supportOnly, .listRuns { scope := supportOnly },
        .getScoped "sess-000001" supportOnly, .getMetadataScoped "sess-000001" supportOnly,
        .getByKeyScoped "web:1" supportOnly, .getByKeyMetadataScoped "web:1" supportOnly,
        .listScoped { scope := supportOnly }].map fun q =>
      (billingStores.read plainEnv q).scopes) = List.replicate 7 [⟨"billing"⟩] ∧
    supportOnly.admits ⟨"billing"⟩ = false := by
  decide +kernel

end Hopclaw.Store
