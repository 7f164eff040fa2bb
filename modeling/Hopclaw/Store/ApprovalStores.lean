import Hopclaw.Approval.Tickets
import Hopclaw.Store.SessionStores

/-! # The approval store that persists

`JSONLApprovalStore` (`store/jsonl.go`) has the operations of `approval.InMemoryStore` in code of
its own: tickets are copied by a JSON round trip, and each change is appended to a log. -/

namespace Hopclaw.Store

open Approval InMemoryStore

def jsonCall (c : JSONCoding Fields) (call : RecordedCall) : Option RecordedCall :=
  (c.json call.input).map fun input => { call with input }

def jsonReference (c : JSONCoding Fields) (ref : ExternalReference) : Option ExternalReference :=
  (c.json ref.metadata).map fun metadata => { ref with metadata }

/-- `cloneTicket` of the package `store`: a ticket encoded and decoded again. -/
def jsonTicket (c : JSONCoding Fields) (ticket : TicketRecord) : Option TicketRecord := do
  let toolCalls ← ticket.toolCalls.mapM (jsonCall c)
  let metadata ← c.json ticket.metadata
  let external ← ticket.external.mapM (jsonReference c)
  return { ticket with toolCalls, metadata, external }

namespace JSONLApprovalStore

variable (c : JSONCoding Fields) (t : TicketTable)

/-- A ticket that is returned. -/
def returned (ticket : TicketRecord) : Except Err TicketRecord :=
  match jsonTicket c ticket with
  | none => .error sessionEncodeError
  | some cloned => .ok cloned

/-- The ticket an index names. Where it is missing the answer is no ticket and no error. -/
def returnedAt (id : String) : Except Err (Option TicketRecord) :=
  match t.byID.lookup id with
  | none => .ok none
  | some ticket => (returned c ticket).map some

/-- The ticket `Create` makes. -/
def newTicket (now : Time) (ticket : TicketRecord) : TicketRecord :=
  { ticket with id := ticketID (t.nextID + 1), status := .pending, createdAt := now }

/-- The number is used up even if the ticket cannot be encoded. -/
def create (now : Time) (ticket : TicketRecord) : Except Err TicketRecord × TicketTable :=
  if ticket.runID = "" then (.error ⟨"run id is required", none⟩, t)
  else
    match t.pendingFor ticket.runID with
    | some existing => (returned c existing, t)
    | none =>
      match jsonTicket c (newTicket t now ticket) with
      | none => (.error sessionEncodeError, { t with nextID := t.nextID + 1 })
      | some cloned => (returned c cloned, t.enter cloned)

def get (id : String) : Except Err TicketRecord :=
  match t.byID.lookup id with
  | none => .error ⟨"ticket " ++ id ++ " not found", none⟩
  | some ticket => returned c ticket

def getByRun (runID : String) : Except Err (Option TicketRecord) :=
  match t.byRunID.lookup runID with
  | none => .error ⟨"ticket for run " ++ runID ++ " not found", none⟩
  | some id => returnedAt c t id

def getByExternal (provider externalID : String) : Except Err (Option TicketRecord) :=
  match t.byExtID.lookup (externalReferenceLookupKey provider externalID) with
  | none => .error (externalNotFound provider externalID)
  | some id => returnedAt c t id

def list (filter : ListFilter) (order : VisitOrder) : Except Err (List TicketRecord) :=
  match ((order (t.byID.entries.map Sigma.snd)).1.filter filter.admits).mapM (jsonTicket c) with
  | none => .error sessionEncodeError
  | some items => .ok (filter.page (items.insertionSort TicketRecord.Earlier))

/-- Neither of the first two errors wraps a sentinel, and the scope is stored as it is given. -/
def resolve (now : Time) (id : String) (input : ResolutionInput) :
    Except Err TicketRecord × TicketTable :=
  match t.byID.lookup id with
  | none => (.error ⟨"ticket " ++ id ++ " not found", none⟩, t)
  | some ticket =>
    if ticket.status ≠ .pending then
      (.error ⟨"ticket " ++ id ++ " already resolved", none⟩, t)
    else
      match input.resolution? with
      | none => (.error (invalidResolution input), t)
      | some resolution =>
        let ticket := ticket.resolved now resolution
        (returned c ticket, { t with byID := t.byID.insert id ticket })

/-- The ticket is changed before it is encoded. -/
def upsertExternalRef (now : Time) (id : String) (ref : ExternalReference) :
    Except Err TicketRecord × TicketTable :=
  match t.byID.lookup id with
  | none => (.error (ticketNotFound id), t)
  | some ticket =>
    let previous := externalReferenceByProvider ticket.external ref.provider
    match upsertExternalReferences now ticket.external ref with
    | .error e => (.error e, t)
    | .ok (refs, merged) =>
      (returned c { ticket with external := refs }, t.upsert ticket previous refs merged id)

end JSONLApprovalStore

/-! ## Calls -/

/-- A call of an approval store, with the clock reading it makes and, for `List`, the orders in
    which the one and the other store visit their maps. -/
inductive ApprovalCall
  | create (now : Time) (ticket : TicketRecord)
  | resolve (now : Time) (id : String) (input : ResolutionInput)
  | upsertExternalRef (now : Time) (id : String) (ref : ExternalReference)
  | get (id : String)
  | getByRun (runID : String)
  | getByExternal (provider externalID : String)
  | list (filter : ListFilter) (order order' : VisitOrder)

/-- What a caller sees: tickets, or the sentinel an error wraps. -/
inductive ApprovalAnswer
  | ticket (result : Except (Option Sentinel) (Option TicketRecord))
  | tickets (result : Except (Option Sentinel) (List TicketRecord))

namespace ApprovalAnswer

def ofOption (result : Except Err (Option TicketRecord)) : ApprovalAnswer :=
  .ticket (result.mapError Err.sentinel)

def ofTicket (result : Except Err TicketRecord) : ApprovalAnswer :=
  ofOption (result.map some)

def ofList (result : Except Err (List TicketRecord)) : ApprovalAnswer :=
  .tickets (result.mapError Err.sentinel)

end ApprovalAnswer

def InMemoryStore.step (t : TicketTable) : ApprovalCall → ApprovalAnswer × TicketTable
  | .create now ticket =>
    let (result, t') := create t now ticket
    (.ofTicket result, t')
  | .resolve now id input =>
    let (result, t') := resolve t now id input
    (.ofTicket result, t')
  | .upsertExternalRef now id ref =>
    let (result, t') := upsertExternalRef t now id ref
    (.ofTicket result, t')
  | .get id => (.ofTicket (get t id), t)
  | .getByRun runID => (.ofTicket (getByRun t runID), t)
  | .getByExternal provider externalID =>
    (.ofTicket (getByExternal t provider externalID), t)
  | .list filter order _ => (.ofList (.ok (list t filter order)), t)

def JSONLApprovalStore.step (c : JSONCoding Fields) (t : TicketTable) :
    ApprovalCall → ApprovalAnswer × TicketTable
  | .create now ticket =>
    let (result, t') := create c t now ticket
    (.ofTicket result, t')
  | .resolve now id input =>
    let (result, t') := resolve c t now id input
    (.ofTicket result, t')
  | .upsertExternalRef now id ref =>
    let (result, t') := upsertExternalRef c t now id ref
    (.ofTicket result, t')
  | .get id => (.ofTicket (get c t id), t)
  | .getByRun runID => (.ofOption (getByRun c t runID), t)
  | .getByExternal provider externalID => (.ofOption (getByExternal c t provider externalID), t)
  | .list filter _ order => (.ofList (list c t filter order), t)

end Hopclaw.Store
