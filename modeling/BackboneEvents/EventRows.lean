import BackboneEvents.ConstrainedTables
import Mathlib.Algebra.GroupWithZero.Nat
import Mathlib.Data.Int.Notation

/-!
# The rows of the event schema

Every table that the seat, sale-seam, scheduler and lead code reads or writes, with
the columns that code uses. A table carries the unique indexes of its migrations.
Identifiers are the numeric values of uuids, instants are microseconds.
-/
namespace BackboneEvents
open ConstrainedTables

abbrev Uuid := ℕ
abbrev Timestamp := ℤ

/-- The indices of a few parties to a run. -/
instance oneParty : NeZero 1 := ⟨Nat.one_ne_zero⟩
instance twoParties : NeZero 2 := ⟨Nat.succ_ne_zero _⟩
instance threeParties : NeZero 3 := ⟨Nat.succ_ne_zero _⟩

inductive RegistrationState where
  | draft | «open» | done | cancel
  deriving DecidableEq, Repr

inductive SaleOrderState where
  | draft | sent | sale | cancel
  deriving DecidableEq, Repr

inductive SaleStatus where
  | free | sold | toPay
  deriving DecidableEq, Repr

inductive KanbanState where
  | normal | done | blocked | cancel
  deriving DecidableEq, Repr

inductive BoothState where
  | available | unavailable
  deriving DecidableEq, Repr

inductive BookingStatus where
  | pending | confirmed
  deriving DecidableEq, Repr

inductive IntervalUnit where
  | now | hours | days | weeks | months
  deriving DecidableEq, Repr

inductive IntervalKind where
  | afterSub | beforeEvent | afterEventStart | afterEvent | beforeEventEnd
  deriving DecidableEq, Repr

inductive NotificationChannel where
  | mail | sms
  deriving DecidableEq, Repr

inductive MailErrorKind where
  | templateUnresolved | templateRendererNotComposed | renderFailed
  | enqueueRefused | recipientInvalid | smsEnqueueRefused
  deriving DecidableEq, Repr

inductive ReceiptOutcome where
  | queued | droppedWindowClosed
  deriving DecidableEq, Repr

inductive LeadGrouping where
  | perOrder | perEventDay
  deriving DecidableEq, Repr

inductive LeadBasis where
  | registration | attendee
  deriving DecidableEq, Repr

inductive LeadPredicateAxis where
  | event | eventType | company | questionAnswer
  deriving DecidableEq, Repr

structure Event where
  id : Uuid
  name : String
  eventTypeId : Option Uuid
  kanbanState : KanbanState
  dateBegin : Timestamp
  dateEnd : Timestamp
  dateTz : String
  isMultiSlots : Bool
  seatsLimited : Bool
  seatsMax : ℤ
  orgUnitId : Option Uuid
  deriving DecidableEq, Repr

structure Slot where
  id : Uuid
  eventId : Uuid
  deriving DecidableEq, Repr

structure Ticket where
  id : Uuid
  eventId : Uuid
  startSaleDatetime : Option Timestamp
  endSaleDatetime : Option Timestamp
  deriving DecidableEq, Repr

structure Registration where
  id : Uuid
  eventId : Uuid
  eventSlotId : Option Uuid
  eventTicketId : Option Uuid
  name : String
  email : String
  phone : Option String
  companyName : Option String
  partnerId : Option Uuid
  state : RegistrationState
  dateClosed : Option Timestamp
  saleOrderId : Option Uuid
  saleOrderState : Option SaleOrderState
  saleStatus : Option SaleStatus
  active : Bool
  barcode : String
  orgUnitId : Option Uuid
  createdAt : Option Timestamp
  deriving DecidableEq, Repr

/-- The counting domain, and the mail and lead eligibility:
`state IN ('open','done') AND active`. -/
def Registration.eligible (r : Registration) : Bool :=
  (r.state == .open || r.state == .done) && r.active

/-- `state IN ('draft','cancel')`. -/
def Registration.outside (r : Registration) : Bool :=
  r.state == .draft || r.state == .cancel

@[simp] theorem Registration.eligible_of_outside {r : Registration} (h : r.outside = true) :
    r.eligible = false := by
  cases r with
  | mk id eventId slot ticket name email phone company partner state =>
    cases state <;> simp_all [Registration.outside, Registration.eligible]

structure Mail where
  id : Uuid
  eventId : Uuid
  intervalNbr : ℕ
  intervalUnit : IntervalUnit
  intervalKind : IntervalKind
  notificationChannel : NotificationChannel
  scheduledDate : Option Timestamp
  mailDone : Bool
  lastRegistrationId : Option Uuid
  templateRef : Option Uuid
  templateKind : Option String
  errorDatetime : Option Timestamp
  errorKind : Option MailErrorKind
  deriving DecidableEq, Repr

/-- One receipt: a scheduler row's message to one registration. -/
structure MailRegistration where
  id : Uuid
  schedulerId : Uuid
  registrationId : Uuid
  scheduledDate : Option Timestamp
  mailSent : Bool
  outcome : Option ReceiptOutcome
  deriving DecidableEq, Repr

structure InboxRow where
  consumer : String
  externalId : String
  deriving DecidableEq, Repr

structure Booth where
  id : Uuid
  eventId : Uuid
  state : BoothState
  partnerId : Option Uuid
  contactName : Option String
  contactEmail : Option String
  contactPhone : Option String
  saleOrderLineId : Option Uuid
  isPaid : Bool
  deriving DecidableEq, Repr

structure BoothBooking where
  id : Uuid
  eventBoothId : Uuid
  saleOrderLineId : Option Uuid
  status : BookingStatus
  partnerId : Option Uuid
  contactName : Option String
  contactEmail : Option String
  contactPhone : Option String
  deriving DecidableEq, Repr

structure LeadRequest where
  id : Uuid
  eventId : Uuid
  done : Bool
  errorDetail : Option String
  claimedAt : Option Timestamp
  deriving DecidableEq, Repr

structure LeadRule where
  id : Uuid
  name : String
  eventId : Option Uuid
  basis : LeadBasis
  onCreate : Bool
  onConfirm : Bool
  onDone : Bool
  active : Bool
  deriving DecidableEq, Repr

/-- `active AND (event_id IS NULL OR event_id = $1)`. -/
def LeadRule.inScope (lr : LeadRule) (eventId : Uuid) : Bool :=
  lr.active && (lr.eventId == none || lr.eventId == some eventId)

structure LeadPredicate where
  id : Uuid
  ruleId : Uuid
  axis : LeadPredicateAxis
  questionId : Option Uuid
  valueIds : List Uuid
  deriving DecidableEq, Repr

structure LeadProvenance where
  id : Uuid
  ruleId : Uuid
  eventId : Uuid
  leadId : Option Uuid
  groupKey : String
  grouping : LeadGrouping
  deriving DecidableEq, Repr

structure LeadProvenanceRegistration where
  id : Uuid
  provenanceId : Uuid
  registrationId : Uuid
  deriving DecidableEq, Repr

structure RegistrationAnswer where
  id : Uuid
  registrationId : Uuid
  questionId : Uuid
  valueAnswerId : Option Uuid
  deriving DecidableEq, Repr

/-- The payloads of the audited facts. -/
inductive AuditDetail where
  | registrationCreated (eventId : Uuid) (email : String) (state : RegistrationState)
      (saleMinted : Bool)
  | stateChanged (before after : RegistrationState)
  | mint (free : Bool) (minted : ℕ) (saleStatus : SaleStatus)
  | healFree (healedToOpen : ℕ)
  | healHeld (held : ℕ)
  | cancelCascade (cancelled : ℕ)
  | paidHeal (healed boothsLatched : ℕ)
  | cancellationPropagation (deletedPendingReceipts : ℕ)
  | ruleCreated (name : String) (predicates : ℕ) (eventId : Option Uuid)
  | rulePatched (active : Option Bool)
  | leadRelinked (absorbed : Uuid) (moved : ℕ)
  | boothConfirmed (bookingId : Uuid)
  | boothReleased
  | bookingCreated (bookingId : Uuid) (status : BookingStatus)
  | bookingDeleted
  | boothDeleted
  | boothCreated (eventId : Uuid) (name : String)
  | boothPatched
  | eventCreated (name : String) (eventTypeId : Option Uuid)
  | eventPatched
  | eventPublished
  | eventUnpublished
  | eventMarkedDone
  | doneSweep
  | templateCascade (templateKind : String) (mailsDeleted typeMailsDeleted : ℕ)
  | partnerSynced (partnerId : Uuid)
  deriving DecidableEq, Repr

structure AuditRow where
  action : String
  actor : Option Uuid
  subjectType : String
  subjectId : Option Uuid
  detail : AuditDetail
  deriving DecidableEq, Repr

instance : Keyed Event where
  clash a b := a.id == b.id
  clash_self _ := by simp
  clash_comm _ _ := BEq.comm

instance : Keyed Slot where
  clash a b := a.id == b.id
  clash_self _ := by simp
  clash_comm _ _ := BEq.comm

instance : Keyed Ticket where
  clash a b := a.id == b.id
  clash_self _ := by simp
  clash_comm _ _ := BEq.comm

/-- The primary key, and the barcode unique across events. -/
instance : Keyed Registration where
  clash a b := a.id == b.id || a.barcode == b.barcode
  clash_self _ := by simp
  clash_comm a b := by rw [BEq.comm (a := a.id), BEq.comm (a := a.barcode)]

instance : Keyed Mail where
  clash a b := a.id == b.id
  clash_self _ := by simp
  clash_comm _ _ := BEq.comm

/-- The primary key, and one receipt for each scheduler and registration. -/
instance : Keyed MailRegistration where
  clash a b := a.id == b.id ||
    (a.schedulerId == b.schedulerId && a.registrationId == b.registrationId)
  clash_self _ := by simp
  clash_comm a b := by
    rw [BEq.comm (a := a.id), BEq.comm (a := a.schedulerId), BEq.comm (a := a.registrationId)]

instance : Keyed InboxRow where
  clash a b := a.consumer == b.consumer && a.externalId == b.externalId
  clash_self _ := by simp
  clash_comm a b := by rw [BEq.comm (a := a.consumer), BEq.comm (a := a.externalId)]

instance : Keyed Booth where
  clash a b := a.id == b.id
  clash_self _ := by simp
  clash_comm _ _ := BEq.comm

/-- The primary key, and one row for each line and booth; rows without a line do not clash. -/
instance : Keyed BoothBooking where
  clash a b := a.id == b.id || (a.saleOrderLineId.isSome &&
    a.saleOrderLineId == b.saleOrderLineId && a.eventBoothId == b.eventBoothId)
  clash_self _ := by simp
  clash_comm a b := by
    have hline : (a.saleOrderLineId.isSome && a.saleOrderLineId == b.saleOrderLineId) =
        (b.saleOrderLineId.isSome && b.saleOrderLineId == a.saleOrderLineId) := by
      cases a.saleOrderLineId <;> cases b.saleOrderLineId <;> simp [eq_comm]
    rw [BEq.comm (a := a.id), BEq.comm (a := a.eventBoothId), hline]

/-- One queue row for each event. -/
instance : Keyed LeadRequest where
  clash a b := a.eventId == b.eventId
  clash_self _ := by simp
  clash_comm _ _ := BEq.comm

instance : Keyed LeadRule where
  clash a b := a.id == b.id
  clash_self _ := by simp
  clash_comm _ _ := BEq.comm

instance : Keyed LeadPredicate where
  clash a b := a.id == b.id
  clash_self _ := by simp
  clash_comm _ _ := BEq.comm

/-- The primary key, and one provenance for each rule and group. -/
instance : Keyed LeadProvenance where
  clash a b := a.id == b.id || (a.ruleId == b.ruleId && a.groupKey == b.groupKey)
  clash_self _ := by simp
  clash_comm a b := by
    rw [BEq.comm (a := a.id), BEq.comm (a := a.ruleId), BEq.comm (a := a.groupKey)]

/-- The primary key, and one junction for each provenance and registration. -/
instance : Keyed LeadProvenanceRegistration where
  clash a b := a.id == b.id ||
    (a.provenanceId == b.provenanceId && a.registrationId == b.registrationId)
  clash_self _ := by simp
  clash_comm a b := by
    rw [BEq.comm (a := a.id), BEq.comm (a := a.provenanceId), BEq.comm (a := a.registrationId)]

instance : Keyed RegistrationAnswer where
  clash a b := a.id == b.id ||
    (a.registrationId == b.registrationId && a.questionId == b.questionId)
  clash_self _ := by simp
  clash_comm a b := by
    rw [BEq.comm (a := a.id), BEq.comm (a := a.registrationId), BEq.comm (a := a.questionId)]

/-- The database: the tables, the audit trail, and whether the composing service
has added `org_unit_id` to `event.events`. -/
structure Db where
  events : Table Event
  slots : Table Slot
  tickets : Table Ticket
  registrations : Table Registration
  mails : Table Mail
  mailRegistrations : Table MailRegistration
  seamInbox : Table InboxRow
  booths : Table Booth
  boothBookings : Table BoothBooking
  leadRequests : Table LeadRequest
  leadRules : Table LeadRule
  leadPredicates : Table LeadPredicate
  leadProvenances : Table LeadProvenance
  leadProvenanceRegistrations : Table LeadProvenanceRegistration
  registrationAnswers : Table RegistrationAnswer
  auditTrails : List AuditRow
  orgAxis : Bool
  deriving DecidableEq

def Db.empty : Db :=
  ⟨.empty, .empty, .empty, .empty, .empty, .empty, .empty, .empty, .empty, .empty, .empty, .empty,
    .empty, .empty, .empty, [], false⟩

/-- The row locks a transaction can hold; an insert holds the unique keys of its row. -/
inductive Lock where
  | event (id : Uuid)
  | slot (id : Uuid)
  | registration (id : Uuid)
  | barcode (text : String)
  | mail (id : Uuid)
  | inbox (consumer externalId : String)
  | booth (id : Uuid)
  | booking (id : Uuid)
  | bookingLine (saleOrderLineId eventBoothId : Uuid)
  | confirmedBooking (eventBoothId : Uuid)
  | leadRequest (eventId : Uuid)
  deriving DecidableEq, Repr

inductive EventError where
  | eventNotFound
  | eventSeatsExhausted (eventId : Uuid)
  | eventSaleWindowClosed (eventTicketId : Uuid)
  | eventSlotRequired (eventId : Uuid)
  | eventSlotNotOfEvent (eventSlotId : Uuid)
  | eventTicketNotOfEvent (eventTicketId : Uuid)
  | registrationNotFound
  | eventNotPublished
  | eventCapabilitySecretNotConfigured
  | eventThrottled (retryAfterSecs : ℕ)
  | publishRefused (fields : String)
  | boothNotFound (boothId : Uuid)
  | boothBookingNotFound (bookingId : Uuid)
  | boothAlreadyConfirmed (eventBoothId : Uuid)
  | boothBookingLineCrossEvent (saleOrderLineId : Uuid)
  | boothDeleteRefusedSaleLinked (boothId : Uuid)
  | leadRuleNotFound (ruleId : Uuid)
  | leadRequestBusy (eventId : Uuid)
  | leadRequestNotFound (eventId : Uuid)
  | deskInvalidTicket
  | deskCanceledRegistration
  | deskUnconfirmedRegistration
  | deskNotOngoingEvent
  | deskNeedManualConfirmation
  | deskAlreadyRegistered
  | validation (message : String)
  | database (message : String)
  | internal (message : String)
  deriving DecidableEq, Repr

end BackboneEvents
