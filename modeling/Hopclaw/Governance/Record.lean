import Hopclaw.Eventbus.Bus

/-! # Governance records

The record of an approval or security event
(`internal/controlplane/governanceadapter/dispatcher.go`) and the key under which its delivery is
queued. How the governance context, the severity and the
summary are read from the attributes of an event is a parameter. -/

namespace Hopclaw.Governance

open GoStrings Eventbus

inductive Kind
  | approvalRequested | approvalResolved | approvalTimedOut | approvalGraceWarning | securityEvent
deriving DecidableEq

def Kind.text : Kind → String
  | .approvalRequested => "approval_requested"
  | .approvalResolved => "approval_resolved"
  | .approvalTimedOut => "approval_timed_out"
  | .approvalGraceWarning => "approval_grace_warning"
  | .securityEvent => "security_event"

/-- `Record`, with attributes in `A`, a governance context in `G` and a configuration snapshot in
    `S`. A nil map and a nil snapshot are `none`. -/
structure Record (A G S : Type) where
  kind : Kind
  eventID : String
  eventType : EventType
  runID : String
  sessionID : String
  time : Time
  severity : String
  summary : String
  securityCategory : String
  governance : G
  snapshot : Option S := none
  attrs : Option A
deriving DecidableEq

/-- What the records are made from. -/
structure RecordLib (A G S : Type) where
  /-- `len(attrs) == 0`. -/
  noEntries : A → Bool
  /-- `domaingov.EventContextFromEvent`. -/
  governanceFromEvent : EventType → Option A → G
  /-- `EventContext.Normalized`. -/
  normalizeGovernance : G → G
  normalizeGovernance_idem :
    ∀ g, normalizeGovernance (normalizeGovernance g) = normalizeGovernance g
  /-- The fields `Summary` and `EffectiveConfigSnapshotID` of a context. -/
  governanceSummary : G → String
  effectiveConfigSnapshotID : G → String
  eventSeverity : Eventbus.Event A → String
  eventSummary : Eventbus.Event A → G → String
  /-- `PolicySummary` of the governance payload of the attributes. -/
  policySummary : A → String
  /-- The field `ID` of a snapshot. -/
  snapshotID : S → String
  /-- The hexadecimal SHA-1 digest of a text. -/
  sha1Hex : String → String
  sha1Hex_ne_empty : ∀ s, sha1Hex s ≠ ""
  trimSpace_sha1Hex : ∀ s, trimSpace (sha1Hex s) = sha1Hex s

variable {A G S : Type} (lib : RecordLib A G S) (attrs : Option A) (adapterName : String)
  (r : Record A G S)

/-- A map without entries counts as nil. -/
def nonEmptyAttrs : Option A :=
  attrs.filter fun a => !lib.noEntries a

def governancePolicySummary : String :=
  match nonEmptyAttrs lib attrs with
  | none => ""
  | some a => trimSpace (lib.policySummary a)

def Record.normalized : Record A G S :=
  let governance := lib.normalizeGovernance r.governance
  { r with
    eventID := trimSpace r.eventID
    runID := trimSpace r.runID
    sessionID := trimSpace r.sessionID
    severity := trimSpace r.severity
    summary :=
      if trimSpace r.summary = "" then
        firstNonEmpty [trimSpace (lib.governanceSummary governance),
          governancePolicySummary lib r.attrs]
      else trimSpace r.summary
    securityCategory := trimSpace r.securityCategory
    governance
    attrs := nonEmptyAttrs lib r.attrs }

def classifyEvent (eventType : EventType) : Option Kind :=
  if eventType = eventApprovalRequested then some .approvalRequested
  else if eventType = eventApprovalResolved then some .approvalResolved
  else if eventType = eventApprovalTimedOut then some .approvalTimedOut
  else if eventType = eventApprovalGraceWarning then some .approvalGraceWarning
  else if hasPrefix eventType.text "security." then some .securityEvent
  else none

def securityCategory (eventType : EventType) : String :=
  if hasPrefix eventType.text "security." = false then ""
  else trimSpace (trimPrefix eventType.text "security.")

def project (event : Eventbus.Event A) : Option (Record A G S) :=
  (classifyEvent event.type).map fun kind =>
    let governance := lib.governanceFromEvent event.type event.attrs
    Record.normalized lib
      { kind
        eventID := trimSpace event.id
        eventType := event.type
        runID := trimSpace event.runID
        sessionID := trimSpace event.sessionID
        time := event.time
        severity := trimSpace (lib.eventSeverity event)
        summary := lib.eventSummary event governance
        securityCategory := securityCategory event.type
        governance
        attrs := event.attrs }

/-- The record with the configuration snapshot it refers to, if that is the effective one. -/
def withSnapshot (effective : Option S) (r : Record A G S) : Record A G S :=
  let id := lib.effectiveConfigSnapshotID r.governance
  match effective with
  | none => r
  | some snapshot =>
    if trimSpace id ≠ "" ∧ trimSpace (lib.snapshotID snapshot) = id then
      { r with snapshot := some snapshot }
    else r

/-- The record `Handle` queues for an event, if it is a governance event. -/
def handledRecord (effective : Option S) (event : Eventbus.Event A) : Option (Record A G S) :=
  (project lib event).map fun r => (withSnapshot lib effective r).normalized lib

/-- The key of a record in the outbox of an adapter: the id of its event, or else a digest of what
    it says. -/
def defaultDeliveryIdempotencyKey : String :=
  let record := r.normalized lib
  let parts := [record.kind.text, record.eventType.text, trimSpace record.runID,
    trimSpace record.sessionID, trimSpace record.summary]
  if toLower (trimSpace adapterName) = "" then ""
  else if trimSpace record.eventID ≠ "" then trimSpace record.eventID
  else if parts.all (fun part => trimSpace part = "") then ""
  else lib.sha1Hex (join "\x00" parts)

/-- Records without attributes, context or snapshot. -/
def bareRecords : RecordLib Unit Unit Unit where
  noEntries _ := true
  governanceFromEvent _ _ := ()
  normalizeGovernance g := g
  normalizeGovernance_idem _ := rfl
  governanceSummary _ := ""
  effectiveConfigSnapshotID _ := ""
  eventSeverity _ := ""
  eventSummary _ _ := ""
  policySummary _ := ""
  snapshotID _ := ""
  sha1Hex _ := "0"
  sha1Hex_ne_empty _ := by decide
  trimSpace_sha1Hex _ := by decide +kernel

def bareRecord : Record Unit Unit Unit :=
  { kind := .approvalRequested, eventID := "e1", eventType := Eventbus.eventApprovalRequested
    runID := "r1", sessionID := "", time := 1, severity := "", summary := ""
    securityCategory := "", governance := (), attrs := none }

/-! ## Normal records -/

theorem nonEmptyAttrs_nonEmptyAttrs :
    nonEmptyAttrs lib (nonEmptyAttrs lib attrs) = nonEmptyAttrs lib attrs := by
  simp [nonEmptyAttrs]

theorem governancePolicySummary_nonEmptyAttrs :
    governancePolicySummary lib (nonEmptyAttrs lib attrs) = governancePolicySummary lib attrs := by
  rw [governancePolicySummary, nonEmptyAttrs_nonEmptyAttrs, governancePolicySummary]

theorem trimSpace_firstNonEmpty (values : List String) :
    trimSpace (firstNonEmpty values) = firstNonEmpty values := by
  rw [firstNonEmpty]
  cases h : (values.map trimSpace).find? (· ≠ "") with
  | none => exact trimSpace_empty
  | some v =>
    obtain ⟨w, -, rfl⟩ := List.mem_map.mp (List.mem_of_find?_eq_some h)
    exact trimSpace_trimSpace w

@[simp] theorem Record.normalized_normalized :
    (r.normalized lib).normalized lib = r.normalized lib := by
  simp only [Record.normalized, trimSpace_trimSpace, lib.normalizeGovernance_idem,
    governancePolicySummary_nonEmptyAttrs, nonEmptyAttrs_nonEmptyAttrs, Record.mk.injEq, true_and,
    and_true]
  by_cases hsummary : trimSpace r.summary = ""
  · simp only [hsummary, if_true, trimSpace_firstNonEmpty, ite_self]
  · simp [hsummary, trimSpace_trimSpace]

@[simp] theorem normalized_of_handledRecord {effective : Option S} {event : Eventbus.Event A}
    {r : Record A G S} (h : handledRecord lib effective event = some r) : r.normalized lib = r := by
  obtain ⟨r₀, -, rfl⟩ := Option.map_eq_some_iff.mp h
  exact Record.normalized_normalized lib _

theorem Kind.text_not_blank (kind : Kind) : trimSpace kind.text ≠ "" := by
  cases kind <;> decide +kernel

/-- A record has a key for every adapter with a name. -/
theorem defaultDeliveryIdempotencyKey_ne_empty {adapterName : String}
    (hname : trimSpace adapterName ≠ "") (r : Record A G S) :
    defaultDeliveryIdempotencyKey lib adapterName r ≠ "" := by
  simp only [defaultDeliveryIdempotencyKey, toLower_eq_empty_iff, if_neg hname]
  split_ifs with hid hparts
  · exact hid
  · have hkind := List.all_eq_true.mp hparts _ List.mem_cons_self
    exact absurd (of_decide_eq_true hkind) (Kind.text_not_blank _)
  · exact lib.sha1Hex_ne_empty _

theorem trimSpace_defaultDeliveryIdempotencyKey :
    trimSpace (defaultDeliveryIdempotencyKey lib adapterName r) =
      defaultDeliveryIdempotencyKey lib adapterName r := by
  simp only [defaultDeliveryIdempotencyKey]
  split_ifs
  · exact trimSpace_empty
  · exact trimSpace_trimSpace _
  · exact trimSpace_empty
  · exact lib.trimSpace_sha1Hex _

@[simp] theorem defaultDeliveryIdempotencyKey_trimSpace :
    defaultDeliveryIdempotencyKey lib (trimSpace adapterName) r =
      defaultDeliveryIdempotencyKey lib adapterName r := by
  simp only [defaultDeliveryIdempotencyKey, trimSpace_trimSpace]

@[simp] theorem defaultDeliveryIdempotencyKey_normalized :
    defaultDeliveryIdempotencyKey lib adapterName (r.normalized lib) =
      defaultDeliveryIdempotencyKey lib adapterName r := by
  simp only [defaultDeliveryIdempotencyKey, Record.normalized_normalized]

end Hopclaw.Governance
