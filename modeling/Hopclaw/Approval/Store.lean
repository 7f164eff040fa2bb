import Hopclaw.Approval.Grants

/-! # Approval tickets

The in-memory ticket store (`approval/store.go`). A run has at most one pending ticket: creating
one for a run that has a pending ticket returns that ticket. -/

namespace Hopclaw.Approval

open GoStrings

inductive Status
  | pending | approved | denied | cancelled
deriving DecidableEq

def Status.text : Status → String
  | .pending => "pending"
  | .approved => "approved"
  | .denied => "denied"
  | .cancelled => "cancelled"

structure ToolCall where
  id : String
  name : String
  input : List (String × Value) := []
  resourceScope : ResourceScope := {}

/-- A ticket, without the references to external approval systems. -/
structure Ticket where
  id : String := ""
  runID : String
  sessionID : String
  status : Status := .pending
  toolCalls : List ToolCall := []
  reasons : List String := []
  metadata : Option (List (String × Value)) := none
  createdAt : Time := 0
  resolvedAt : Time := 0
  resolvedBy : String := ""
  note : String := ""
  scope : Scope := .unset

structure Resolution where
  status : Status
  resolvedBy : String := ""
  note : String := ""
  scope : Scope := .unset

/-- The ticket with a decision written into it. -/
def Ticket.resolved (ticket : Ticket) (now : Time) (resolution : Resolution) : Ticket :=
  { ticket with
    status := resolution.status
    resolvedAt := now
    resolvedBy := resolution.resolvedBy
    note := resolution.note
    scope := resolution.scope }

/-- `scopePolicyFromTicket`: default and maximal scope from the ticket's metadata; a text that is
    no scope counts as absent. -/
def scopePolicyFromTicket (ticket : Ticket) : Scope × Scope :=
  match ticket.metadata with
  | none => (.unset, .unset)
  | some fields =>
    let read (key : String) : Scope :=
      match normalizeScope (.other (trimSpace (Value.index fields key).sprint)) with
      | .ok s => s
      | .error _ => .unset
    (read "policy_approval_default_scope", read "policy_approval_max_scope")

def Scope.orElse (s t : Scope) : Scope :=
  if s = .unset then t else s

def normalizeResolution (ticket : Ticket) (resolution : Resolution) : Except Err Resolution := do
  let scope ← normalizeScope resolution.scope
  if resolution.status ≠ .approved then
    return { resolution with scope }
  let (defaultScope, maxScope) := scopePolicyFromTicket ticket
  let scope := (scope.orElse defaultScope).orElse .once
  let maxScope := (maxScope.orElse defaultScope).orElse .once
  if isScopeBroader scope maxScope then
    throw ⟨"approval scope violates policy: requested=" ++ scope.text ++ " max=" ++ maxScope.text,
      some .scopePolicy⟩
  return { resolution with scope }

theorem normalizeScope_error {scope : Scope} {e : Err} (h : normalizeScope scope = .error e) :
    e.sentinel = some .invalidScope := by
  unfold normalizeScope at h
  split at h
  · dsimp only at h
    split_ifs at h
    cases h
    rfl
  · exact absurd h (by simp)

/-- Normalizing a resolution fails for one of two reasons, or changes its scope only. -/
theorem normalizeResolution_cases (ticket : Ticket) (resolution : Resolution) :
    (∃ e, normalizeResolution ticket resolution = .error e ∧
      (e.sentinel = some .invalidScope ∨ e.sentinel = some .scopePolicy)) ∨
    ∃ scope, normalizeResolution ticket resolution = .ok { resolution with scope } := by
  unfold normalizeResolution
  cases hs : normalizeScope resolution.scope with
  | error e => exact .inl ⟨e, rfl, .inl (normalizeScope_error hs)⟩
  | ok scope =>
    simp only [bind, Except.bind]
    split_ifs
    · exact .inr ⟨_, rfl⟩
    · exact .inl ⟨_, rfl, .inr rfl⟩
    · exact .inr ⟨_, rfl⟩

/-! ## The store -/

def ticketID (n : ℕ) : String :=
  "appr-" ++ String.ofList (zeroPadded 6 n)

structure Store where
  nextID : ℕ := 0
  byID : AList (fun _ : String => Ticket) := ∅
  byRunID : AList (fun _ : String => String) := ∅

namespace Store

def pendingFor (s : Store) (runID : String) : Option Ticket :=
  match s.byRunID.lookup runID with
  | none => none
  | some id => (s.byID.lookup id).filter fun t => t.status = .pending

def create (now : Time) (ticket : Ticket) (s : Store) : Except Err Ticket × Store :=
  if ticket.runID = "" then (.error ⟨"run id is required", none⟩, s)
  else
    match s.pendingFor ticket.runID with
    | some existing => (.ok existing, s)
    | none =>
      let id := ticketID (s.nextID + 1)
      let ticket :=
        { ticket with
          id
          status := .pending
          createdAt := now
          toolCalls := ticket.toolCalls.map fun c =>
            { c with resourceScope := c.resourceScope.normalized } }
      (.ok ticket,
        { nextID := s.nextID + 1
          byID := s.byID.insert id ticket
          byRunID := s.byRunID.insert ticket.runID id })

def get (ticketID : String) (s : Store) : Except Err Ticket :=
  match s.byID.lookup ticketID with
  | none => .error ⟨"ticket " ++ ticketID ++ " not found", none⟩
  | some ticket => .ok ticket

def getByRun (runID : String) (s : Store) : Except Err Ticket :=
  match s.byRunID.lookup runID with
  | none => .error ⟨"ticket for run " ++ runID ++ " not found", none⟩
  | some ticketID => s.get ticketID

/-- Only a pending ticket is resolved, and only to one of the three decisions. -/
def resolve (now : Time) (ticketID : String) (resolution : Resolution) (s : Store) :
    Except Err Ticket × Store :=
  match s.byID.lookup ticketID with
  | none => (.error ⟨"ticket " ++ ticketID ++ ": approval not found", some .approvalNotFound⟩, s)
  | some ticket =>
    if ticket.status ≠ .pending then
      (.error ⟨"ticket " ++ ticketID ++ ": approval already resolved", some .alreadyResolved⟩, s)
    else if resolution.status = .pending then
      (.error ⟨"invalid approval resolution \"" ++ resolution.status.text ++ "\"", none⟩, s)
    else
      match normalizeResolution ticket resolution with
      | .error e => (.error e, s)
      | .ok resolution =>
        let ticket := ticket.resolved now resolution
        (.ok ticket, { s with byID := s.byID.insert ticketID ticket })

/-- A resolution fails for none of the reasons that have to do with runs. -/
theorem resolve_error {now : Time} {ticketID : String} {resolution : Resolution} {s : Store}
    {e : Err} (h : (s.resolve now ticketID resolution).1 = .error e) :
    e.sentinel ≠ some .runCancelled := by
  unfold resolve at h
  split at h
  · cases h; simp
  · rename_i t _
    split_ifs at h
    · cases h; simp
    · cases h; simp
    · rcases normalizeResolution_cases t resolution with ⟨e', he, hs⟩ | ⟨scope, he⟩ <;> rw [he] at h
      · cases h
        rcases hs with hs | hs <;> rw [hs] <;> simp
      · cases h

end Store

end Hopclaw.Approval
