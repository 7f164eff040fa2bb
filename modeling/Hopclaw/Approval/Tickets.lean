import Hopclaw.Approval.Store
import Hopclaw.Domain.Maps
import Mathlib.Data.List.Perm.Basic

/-! # Approval tickets in full

The ticket with all its fields, and `InMemoryStore` (`approval/store.go`) with all its operations:
`Store` is what is left of it when the kind of a ticket and its references to external approval
systems are forgotten. An absent map or list is an empty one. -/

namespace Hopclaw.Approval

open GoStrings List

/-- The entries of a `map[string]any`. -/
abbrev Fields := List (String × Value)

def Fields.set (key : String) (value : Value) : Fields → Fields
  | [] => [(key, value)]
  | f :: rest => if f.1 = key then (key, value) :: rest else f :: Fields.set key value rest

/-- The workflow behind a ticket, a free string in the source: `unset` is the empty one and `other`
    any text that is none of the named ones. -/
inductive Kind
  | unset | toolCalls | skillInstall
  | other (text : String)
deriving DecidableEq

/-- A status as a caller gives it, a free string in the source. -/
inductive StatusText
  | unset
  | named (status : Status)
  | other (text : String)
deriving DecidableEq

def StatusText.text : StatusText → String
  | .unset => ""
  | .named status => status.text
  | .other text => text

/-! ## References to external systems -/

structure ExternalReference where
  provider : String := ""
  externalID : String := ""
  url : String := ""
  status : String := ""
  metadata : Fields := []
  syncedAt : Time := 0

def normalizeExternalReference (ref : ExternalReference) : ExternalReference :=
  { ref with
    provider := trimSpace ref.provider
    externalID := trimSpace ref.externalID
    url := trimSpace ref.url
    status := trimSpace ref.status }

def mergeExternalReference (now : Time) (current update : ExternalReference) : ExternalReference :=
  let out := normalizeExternalReference current
  { provider := if update.provider ≠ "" then update.provider else out.provider
    externalID := if update.externalID ≠ "" then update.externalID else out.externalID
    url := if update.url ≠ "" then update.url else out.url
    status := if update.status ≠ "" then update.status else out.status
    metadata := update.metadata.foldl (fun fields f => fields.set f.1 f.2) out.metadata
    syncedAt :=
      if update.syncedAt ≠ 0 then update.syncedAt
      else if out.syncedAt = 0 then now
      else out.syncedAt }

/-- By provider, then by id. -/
def sortExternalReferences (items : List ExternalReference) : List ExternalReference :=
  items.insertionSort fun a b =>
    let left := toLower (trimSpace a.provider)
    let right := toLower (trimSpace b.provider)
    if left = right then trimSpace a.externalID ≤ trimSpace b.externalID else left < right

/-- `UpsertExternalReferences`: the new list, and the reference that was written. -/
def upsertExternalReferences (now : Time) (existing : List ExternalReference)
    (update : ExternalReference) :
    Except Err (List ExternalReference × ExternalReference) :=
  let update := normalizeExternalReference update
  if update.provider = "" then .error ⟨"external provider is required", none⟩
  else
    let out := existing.map normalizeExternalReference
    match out.findIdx? fun ref => equalFold (trimSpace ref.provider) update.provider with
    | some index =>
      let merged := mergeExternalReference now (out.getD index {}) update
      .ok (sortExternalReferences (out.set index merged), merged)
    | none =>
      let merged := mergeExternalReference now {} update
      .ok (sortExternalReferences (out ++ [merged]), merged)

/-- The reference an update replaces: the first whose provider is the same but for case. -/
def foldedReference (existing : List ExternalReference) (update : ExternalReference) :
    Option ExternalReference :=
  (existing.map normalizeExternalReference).find? fun ref =>
    equalFold (trimSpace ref.provider) (normalizeExternalReference update).provider

/-- An upsert replaces one reference, or adds one, and keeps the others. -/
theorem upsertExternalReferences_perm {now : Time} {existing refs : List ExternalReference}
    {update merged : ExternalReference}
    (h : upsertExternalReferences now existing update = .ok (refs, merged)) :
    ∃ others, refs.Perm (merged :: others) ∧
      (existing.map normalizeExternalReference).Perm
        ((foldedReference existing update).toList ++ others) ∧
      merged = mergeExternalReference now ((foldedReference existing update).getD {})
        (normalizeExternalReference update) ∧
      (normalizeExternalReference update).provider ≠ "" := by
  simp only [upsertExternalReferences] at h
  split_ifs at h with hprovider
  have hsort : ∀ items, (sortExternalReferences items).Perm items :=
    fun items => perm_insertionSort _ items
  split at h
  · next index hindex =>
    obtain ⟨hlt, hfound, hfirst⟩ := findIdx?_eq_some_iff_getElem.mp hindex
    have hold : foldedReference existing update =
        some ((existing.map normalizeExternalReference)[index]) :=
      find?_eq_some_iff_getElem.mpr ⟨hfound, index, hlt, rfl, fun j hj => by
        simpa using hfirst j hj⟩
    have hgetD : (existing.map normalizeExternalReference).getD index {} =
        (existing.map normalizeExternalReference)[index] := by
      rw [getD_eq_getElem?_getD, getElem?_eq_getElem hlt]
      rfl
    obtain ⟨rfl, rfl⟩ := Prod.mk.injEq .. ▸ Except.ok.inj h
    refine ⟨(existing.map normalizeExternalReference).eraseIdx index,
      (hsort _).trans (set_perm_cons_eraseIdx hlt _), ?_, ?_, hprovider⟩
    · rw [hold]
      exact (getElem_cons_eraseIdx_perm hlt).symm
    · rw [hold, hgetD]
      rfl
  · next hindex =>
    have hold : foldedReference existing update = none := by
      refine find?_eq_none.mpr fun ref href => ?_
      simpa using findIdx?_eq_none_iff.mp hindex ref href
    obtain ⟨rfl, rfl⟩ := Prod.mk.injEq .. ▸ Except.ok.inj h
    refine ⟨existing.map normalizeExternalReference,
      (hsort _).trans (perm_append_singleton _ _), ?_, ?_, hprovider⟩
    · rw [hold]
      exact List.Perm.refl _
    · rw [hold]
      rfl

def externalReferenceLookupKey (provider externalID : String) : String :=
  let provider := toLower (trimSpace provider)
  let externalID := trimSpace externalID
  if provider = "" || externalID = "" then "" else provider ++ "\x00" ++ externalID

/-- The entry of a reference in the index by external ids. -/
def ExternalReference.key (ref : ExternalReference) : String :=
  externalReferenceLookupKey ref.provider ref.externalID

theorem key_normalizeExternalReference (ref : ExternalReference) :
    (normalizeExternalReference ref).key = ref.key := by
  simp [ExternalReference.key, externalReferenceLookupKey, normalizeExternalReference,
    trimSpace_trimSpace]

/-- The reference of a provider, as it stands in the list. -/
def externalReferenceByProvider (refs : List ExternalReference) (provider : String) :
    Option ExternalReference :=
  let provider := toLower (trimSpace provider)
  if provider = "" then none
  else refs.find? fun ref => toLower (trimSpace ref.provider) = provider

/-! ## Tickets -/

def limitScopeValues (values : List String) : List String :=
  if values.length ≤ 3 then values
  else values.take 3 ++ ["+" ++ toString (values.length - 3) ++ " more"]

def ResourceScope.summary (s : ResourceScope) : String :=
  let keys := (s.parameters.entries.map Sigma.fst).insertionSort (· ≤ ·)
  let params := keys.map fun key =>
    key ++ "=" ++ join "," (limitScopeValues ((s.parameters.lookup key).getD []))
  join " | "
    ((if s.pathPrefixes = [] then []
        else ["paths=" ++ join "," (limitScopeValues s.pathPrefixes)]) ++
      (if s.hosts = [] then [] else ["hosts=" ++ join "," (limitScopeValues s.hosts)]) ++
      (if s.commandPrefixes = [] then []
        else ["commands=" ++ join "," (limitScopeValues s.commandPrefixes)]) ++
      (if params = [] then [] else ["params=" ++ join ";" (limitScopeValues params)]))

/-- A tool call with the summary of its resource scope. -/
structure RecordedCall extends ToolCall where
  summary : String := ""

/-- `ResourceScope.Normalized`, with the summary: one that is missing is written. -/
def RecordedCall.normalized (call : RecordedCall) : RecordedCall :=
  let scope := call.resourceScope.normalized
  let summary := trimSpace call.summary
  { call with resourceScope := scope, summary := if summary = "" then scope.summary else summary }

structure TicketRecord where
  id : String := ""
  runID : String
  sessionID : String := ""
  kind : Kind := .unset
  status : Status := .pending
  toolCalls : List RecordedCall := []
  reasons : List String := []
  metadata : Fields := []
  createdAt : Time := 0
  resolvedAt : Time := 0
  resolvedBy : String := ""
  note : String := ""
  scope : Scope := .unset
  external : List ExternalReference := []

namespace TicketRecord

/-- What the evaluation of approvals reads of a ticket. -/
def toTicket (ticket : TicketRecord) : Ticket where
  id := ticket.id
  runID := ticket.runID
  sessionID := ticket.sessionID
  status := ticket.status
  toolCalls := ticket.toolCalls.map RecordedCall.toToolCall
  reasons := ticket.reasons
  metadata := some ticket.metadata
  createdAt := ticket.createdAt
  resolvedAt := ticket.resolvedAt
  resolvedBy := ticket.resolvedBy
  note := ticket.note
  scope := ticket.scope

/-- `cloneTicket` of the package `approval`. -/
def clone (ticket : TicketRecord) : TicketRecord :=
  { ticket with
    toolCalls := ticket.toolCalls.map RecordedCall.normalized
    external := ticket.external.map normalizeExternalReference }

/-- The ticket with a decision written into it. -/
def resolved (ticket : TicketRecord) (now : Time) (resolution : Resolution) : TicketRecord :=
  { ticket with
    status := resolution.status
    resolvedAt := now
    resolvedBy := resolution.resolvedBy
    note := resolution.note
    scope := resolution.scope }

/-- The order of `List`: by creation time, then by id. -/
def Earlier (a b : TicketRecord) : Prop :=
  a.createdAt < b.createdAt ∨ a.createdAt = b.createdAt ∧ a.id ≤ b.id

instance : DecidableRel Earlier := fun a b => by
  unfold Earlier
  infer_instance

end TicketRecord

/-- A decision as a caller gives it. -/
structure ResolutionInput where
  status : StatusText
  resolvedBy : String := ""
  note : String := ""
  scope : Scope := .unset

/-- Only the three decisions are taken. -/
def ResolutionInput.resolution? (input : ResolutionInput) : Option Resolution :=
  match input.status with
  | .named .approved => some ⟨.approved, input.resolvedBy, input.note, input.scope⟩
  | .named .denied => some ⟨.denied, input.resolvedBy, input.note, input.scope⟩
  | .named .cancelled => some ⟨.cancelled, input.resolvedBy, input.note, input.scope⟩
  | _ => none

def invalidResolution (input : ResolutionInput) : Err :=
  ⟨"invalid approval resolution \"" ++ input.status.text ++ "\"", none⟩

structure ListFilter where
  status : StatusText := .unset
  limit : ℤ := 0
  offset : ℤ := 0

namespace ListFilter

def normalize (f : ListFilter) : ListFilter :=
  { f with limit := max f.limit 0, offset := max f.offset 0 }

def admits (f : ListFilter) (ticket : TicketRecord) : Bool :=
  f.status = .unset || f.status = .named ticket.status

/-- The end of `List`: the offset, then the limit. -/
def page (f : ListFilter) (out : List TicketRecord) : List TicketRecord :=
  let f := f.normalize
  if f.offset > 0 ∧ f.offset ≥ out.length then []
  else
    let out := if f.offset > 0 then out.drop f.offset.toNat else out
    if f.limit > 0 ∧ out.length > f.limit then out.take f.limit.toNat else out

end ListFilter

/-! ## The maps of a store -/

structure TicketTable where
  nextID : ℕ := 0
  byID : AList (fun _ : String => TicketRecord) := ∅
  byRunID : AList (fun _ : String => String) := ∅
  byExtID : AList (fun _ : String => String) := ∅

/-- The order in which a map is visited. -/
abbrev VisitOrder : Type :=
  (l : List TicketRecord) → { l' : List TicketRecord // l'.Perm l }

namespace TicketTable

variable (t : TicketTable)

def pendingFor (runID : String) : Option TicketRecord :=
  match t.byRunID.lookup runID with
  | none => none
  | some id => (t.byID.lookup id).filter fun ticket => ticket.status = .pending

/-- The references of a ticket are indexed, those without a key apart. -/
def indexReferences (id : String) (refs : List ExternalReference)
    (byExtID : AList fun _ : String => String) : AList fun _ : String => String :=
  refs.foldl (fun m ref =>
    let key := externalReferenceLookupKey ref.provider ref.externalID
    if key ≠ "" then m.insert key id else m) byExtID

/-- A ticket gets the next number and enters the maps. -/
def enter (ticket : TicketRecord) : TicketTable where
  nextID := t.nextID + 1
  byID := t.byID.insert ticket.id ticket
  byRunID := t.byRunID.insert ticket.runID ticket.id
  byExtID := indexReferences ticket.id ticket.external t.byExtID

/-- The end of `UpsertExternalRef`: the old id of the reference leaves the index, the new one
    enters it. -/
def upsert (ticket : TicketRecord) (previous : Option ExternalReference)
    (refs : List ExternalReference) (merged : ExternalReference) (id : String) : TicketTable :=
  let byExtID :=
    match previous.filter fun ref => trimSpace ref.externalID ≠ "" with
    | some ref => t.byExtID.erase (externalReferenceLookupKey ref.provider ref.externalID)
    | none => t.byExtID
  let byExtID :=
    if trimSpace merged.externalID ≠ "" then
      byExtID.insert (externalReferenceLookupKey merged.provider merged.externalID) id
    else byExtID
  { t with byID := t.byID.insert id { ticket with external := refs }, byExtID }

theorem lookup_indexReferences (id : String) (refs : List ExternalReference)
    (m : AList fun _ : String => String) (key : String) :
    (indexReferences id refs m).lookup key =
      if key ≠ "" ∧ ∃ ref ∈ refs, ref.key = key then some id else m.lookup key := by
  unfold indexReferences
  induction refs generalizing m with
  | nil => simp
  | cons ref refs ih =>
    rw [foldl_cons, ih]
    have hhead : (if externalReferenceLookupKey ref.provider ref.externalID ≠ "" then
        m.insert (externalReferenceLookupKey ref.provider ref.externalID) id else m).lookup key =
        if key ≠ "" ∧ ref.key = key then some id else m.lookup key := by
      rw [show externalReferenceLookupKey ref.provider ref.externalID = ref.key from rfl]
      by_cases hempty : ref.key = ""
      · rw [if_neg (not_not.mpr hempty), if_neg fun h => h.1 (h.2.symm.trans hempty)]
      · rw [if_pos hempty, Maps.lookup_insert_if]
        exact if_congr ⟨fun h => ⟨h ▸ hempty, h.symm⟩, fun h => h.2.symm⟩ rfl rfl
    simp only [hhead]
    by_cases hrest : ∃ ref ∈ refs, ref.key = key
    · by_cases hempty : key = "" <;> simp [hrest, hempty]
    · simp [hrest]

theorem lookup_upsert (ticket : TicketRecord) (previous : Option ExternalReference)
    (refs : List ExternalReference) (merged : ExternalReference) (id key : String) :
    (t.upsert ticket previous refs merged id).byExtID.lookup key =
      if trimSpace merged.externalID ≠ "" ∧ key = merged.key then some id
      else if ∃ ref ∈ previous, trimSpace ref.externalID ≠ "" ∧ key = ref.key then none
      else t.byExtID.lookup key := by
  have hwritten : ∀ m : AList fun _ : String => String,
      (if trimSpace merged.externalID ≠ "" then
        m.insert (externalReferenceLookupKey merged.provider merged.externalID) id
        else m).lookup key =
      if trimSpace merged.externalID ≠ "" ∧ key = merged.key then some id else m.lookup key := by
    intro m
    by_cases hid : trimSpace merged.externalID = ""
    · simp [hid]
    · simp only [hid, ne_eq, not_false_eq_true, true_and]
      exact Maps.lookup_insert_if m _ key id
  simp only [upsert, hwritten]
  congr 1
  cases previous with
  | none => simp
  | some ref =>
    by_cases hid : trimSpace ref.externalID = ""
    · simp [Option.filter, hid]
    · simp only [Option.filter, hid, ne_eq, not_false_eq_true, decide_true, Option.mem_def,
        Option.some.injEq, exists_eq_left', true_and]
      exact Maps.lookup_erase_if ..

end TicketTable

def externalNotFound (provider externalID : String) : Err :=
  ⟨"ticket for external approval " ++ trimSpace provider ++ "/" ++ trimSpace externalID ++
    ": approval not found", some .approvalNotFound⟩

def ticketNotFound (id : String) : Err :=
  ⟨"ticket " ++ id ++ ": approval not found", some .approvalNotFound⟩

/-! ## `InMemoryStore` -/

namespace InMemoryStore

variable (t : TicketTable)

/-- The ticket `Create` makes. -/
def newTicket (now : Time) (ticket : TicketRecord) : TicketRecord :=
  { ticket with
    id := ticketID (t.nextID + 1)
    kind := if ticket.kind = .unset then .toolCalls else ticket.kind
    status := .pending
    createdAt := now
    external := ticket.external.map normalizeExternalReference }

def create (now : Time) (ticket : TicketRecord) : Except Err TicketRecord × TicketTable :=
  if ticket.runID = "" then (.error ⟨"run id is required", none⟩, t)
  else
    match t.pendingFor ticket.runID with
    | some existing => (.ok existing.clone, t)
    | none =>
      let copied := (newTicket t now ticket).clone
      (.ok copied.clone, t.enter copied)

def get (id : String) : Except Err TicketRecord :=
  match t.byID.lookup id with
  | none => .error ⟨"ticket " ++ id ++ " not found", none⟩
  | some ticket => .ok ticket.clone

def getByRun (runID : String) : Except Err TicketRecord :=
  match t.byRunID.lookup runID with
  | none => .error ⟨"ticket for run " ++ runID ++ " not found", none⟩
  | some id => get t id

def getByExternal (provider externalID : String) : Except Err TicketRecord :=
  match t.byExtID.lookup (externalReferenceLookupKey provider externalID) with
  | none => .error (externalNotFound provider externalID)
  | some id =>
    match t.byID.lookup id with
    | none => .error (ticketNotFound id)
    | some ticket => .ok ticket.clone

def list (filter : ListFilter) (order : VisitOrder) : List TicketRecord :=
  let out := ((order (t.byID.entries.map Sigma.snd)).1.filter filter.admits).map TicketRecord.clone
  filter.page (out.insertionSort TicketRecord.Earlier)

def resolve (now : Time) (id : String) (input : ResolutionInput) :
    Except Err TicketRecord × TicketTable :=
  match t.byID.lookup id with
  | none => (.error (ticketNotFound id), t)
  | some ticket =>
    if ticket.status ≠ .pending then
      (.error ⟨"ticket " ++ id ++ ": approval already resolved", some .alreadyResolved⟩, t)
    else
      match input.resolution? with
      | none => (.error (invalidResolution input), t)
      | some resolution =>
        match normalizeResolution ticket.toTicket resolution with
        | .error e => (.error e, t)
        | .ok resolution =>
          let ticket := ticket.resolved now resolution
          (.ok ticket.clone, { t with byID := t.byID.insert id ticket })

def upsertExternalRef (now : Time) (id : String) (ref : ExternalReference) :
    Except Err TicketRecord × TicketTable :=
  match t.byID.lookup id with
  | none => (.error (ticketNotFound id), t)
  | some ticket =>
    let previous :=
      (externalReferenceByProvider ticket.external ref.provider).map normalizeExternalReference
    match upsertExternalReferences now ticket.external ref with
    | .error e => (.error e, t)
    | .ok (refs, merged) =>
      (.ok { ticket with external := refs }.clone, t.upsert ticket previous refs merged id)

end InMemoryStore

end Hopclaw.Approval
