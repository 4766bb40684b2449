import BackboneEvents.EventRows
import BackboneEvents.TransactionPrograms

/-!
# The seat repository

The one register transaction and the state verbs, statement by statement. Locks are
taken in the order event, slot, new row; the count is over `open` and `done` rows
that are active; nothing is written before the seat is granted.
-/
namespace BackboneEvents
open ConstrainedTables TransactionPrograms

abbrev Tx := Program Db Lock AuditRow EventError

/-- What one run of the register head draws: a uuid, eight urandom bytes and a
reading of the wall clock. -/
structure Draw where
  id : Uuid
  bytes : UInt64
  utcNow : Timestamp

/-- What a call finds outside the database: the transaction's `now()`, its draws, the
default ids of `lead_requests` rows, and the row CHECK constraints on registrations. -/
structure Env where
  now : Timestamp
  draw : ℕ → Draw
  requestId : Uuid → Uuid
  checks : Registration → Bool

/-- Draws that count up from a base, at the epoch, with no row CHECK failing. -/
def Env.counting (base : ℕ) : Env where
  now := 0
  draw k := ⟨base + k, .ofNat (base + k), 0⟩
  requestId e := e
  checks _ := true

structure RegisterCommand where
  eventId : Uuid
  eventSlotId : Option Uuid
  eventTicketId : Option Uuid
  name : String
  email : String
  phone : Option String
  companyName : Option String
  partnerId : Option Uuid
  actor : Option Uuid
  leadRuleSkip : Bool
  deriving DecidableEq, Repr

/-- The sale linkage a minted registration is born with. -/
structure SaleLink where
  saleOrderId : Uuid
  saleOrderState : SaleOrderState
  saleStatus : SaleStatus
  initialState : RegistrationState
  deriving DecidableEq, Repr

def mintBarcode (bytes : UInt64) : String := toString bytes.toNat

/-- The schema-qualified subject the trail keys on. -/
def auditSubject (subjectType : String) : String :=
  if subjectType.toList.contains '.' then subjectType else "event." ++ subjectType ++ "s"

def auditRow (action : String) (actor : Option Uuid) (subjectType : String)
    (subjectId : Option Uuid) (detail : AuditDetail) : AuditRow :=
  ⟨action, actor, auditSubject subjectType, subjectId, detail⟩

/-- An audited fact in the caller's transaction. -/
def recordAudit (row : AuditRow) : Tx Unit :=
  .update (fun _ => []) (fun _ s => { s with auditTrails := s.auditTrails ++ [row] }) (fun _ => ())

def Db.event? (s : Db) (eventId : Uuid) : Option Event := s.events.find (·.id == eventId)

def Db.registration? (s : Db) (registrationId : Uuid) : Option Registration :=
  s.registrations.find (·.id == registrationId)

def Db.slotOf (s : Db) (slot eventId : Uuid) : Option Slot :=
  s.slots.find (fun x => x.id == slot && x.eventId == eventId)

def Db.ticketOf (s : Db) (ticket eventId : Uuid) : Option Ticket :=
  s.tickets.find (fun x => x.id == ticket && x.eventId == eventId)

/-- The rows one seat count ranges over: the slot's when a slot is given, else the event's. -/
def countingScope (eventId : Uuid) : Option Uuid → Registration → Bool
  | some slot, r => r.eventId == eventId && r.eventSlotId == some slot && r.eligible
  | none, r => r.eventId == eventId && r.eligible

def Db.taken (s : Db) (eventId : Uuid) (slotId : Option Uuid) : ℕ :=
  s.registrations.count (countingScope eventId slotId)

/-- `seats_limited && seats_max > 0 && taken >= seats_max`. -/
def Event.exhausted (event : Event) (taken : ℕ) : Bool :=
  event.seatsLimited && decide (0 < event.seatsMax) && decide (event.seatsMax ≤ taken)

/-- Lock 1. -/
def lockEvent (eventId : Uuid) : Tx Event := do
  let event ← Program.selectForUpdate
    (fun s => if (s.event? eventId).isSome then [.event eventId] else [])
    (fun s => s.event? eventId)
  Program.require event .eventNotFound

/-- Lock 2, on a multi-slot event only, which is also the belonging check. -/
def lockSlot (event : Event) (cmd : RegisterCommand) : Tx (Option Uuid) :=
  if event.isMultiSlots then do
    let slot ← Program.require cmd.eventSlotId (.eventSlotRequired cmd.eventId)
    let belongs ← Program.selectForUpdate
      (fun s => if (s.slotOf slot cmd.eventId).isSome then [.slot slot] else [])
      (fun s => s.slotOf slot cmd.eventId)
    Program.refuseWhen belongs.isNone (.eventSlotNotOfEvent slot)
    return some slot
  else return cmd.eventSlotId

def Ticket.shut (t : Ticket) (now : Timestamp) : Bool :=
  (t.startSaleDatetime.map (fun s => decide (now < s))).getD false ||
    (t.endSaleDatetime.map (fun e => decide (e < now))).getD false

def ticketWindow (draw : Draw) (cmd : RegisterCommand) : Tx Unit :=
  match cmd.eventTicketId with
  | none => return ()
  | some ticket => do
    let window ← Program.select (fun s : Db => s.ticketOf ticket cmd.eventId)
    let t ← Program.require window (.eventTicketNotOfEvent ticket)
    Program.refuseWhen (t.shut draw.utcNow) (.eventSaleWindowClosed ticket)

/-- The trigger on a registration's references: its event exists, a multi-slot event
has a slot, and slot and ticket are the event's. -/
def assertRegistrationBelonging (s : Db) (r : Registration) : Bool :=
  match s.event? r.eventId with
  | none => false
  | some event =>
    !(event.isMultiSlots && r.eventSlotId.isNone) &&
      r.eventSlotId.all (fun slot => (s.slotOf slot r.eventId).isSome) &&
      r.eventTicketId.all (fun ticket => (s.ticketOf ticket r.eventId).isSome)

def insertable (s : Db) (env : Env) (r : Registration) : Bool :=
  assertRegistrationBelonging s r && env.checks r && s.registrations.accepts r

def insertRegistration (env : Env) (r : Registration) : Tx Unit :=
  .statement (fun _ => [.registration r.id, .barcode r.barcode])
    (fun v s => if insertable v env r then { s with registrations := s.registrations.push r } else s)
    (fun v => if insertable v env r then .done () else
      .refuse (.database "registrations: constraint violated"))

def Mail.armed (now : Timestamp) : Update Mail where
  toFun m := { m with scheduledDate := some now, mailDone := false }
  keeps _ _ := rfl

def afterSubOf (events : Uuid → Bool) (m : Mail) : Bool :=
  events m.eventId && m.intervalKind == .afterSub

/-- The arm: the after_sub schedulers of some events become due and re-open. -/
def armAfterSub (env : Env) (events : Db → Uuid → Bool) : Tx Unit :=
  .update (fun v => (v.mails.rows.filter (afterSubOf (events v))).map (fun m => .mail m.id))
    (fun v s => { s with
      mails := s.mails.modify (v.mails.matched (afterSubOf (events v))) (Mail.armed env.now) })
    (fun _ => ())

def LeadRequest.reopened : Update LeadRequest where
  toFun q := { q with done := false }
  keeps _ _ := rfl

/-- `INSERT .. ON CONFLICT (event_id) DO UPDATE SET done = false WHERE lead_requests.done`. -/
def armRequest (requestId : Uuid → Uuid) (eventId : Uuid) (requests : Table LeadRequest) :
    Table LeadRequest :=
  let fresh : LeadRequest := ⟨requestId eventId, eventId, false, none, none⟩
  if requests.accepts fresh then requests.push fresh
  else requests.modify (fun q => q.eventId == eventId && q.done) LeadRequest.reopened

/-- Some active rule in the event's scope fires on one of the given triggers. -/
def Db.fires (s : Db) (eventId : Uuid) (trigger : LeadRule → Bool) : Bool :=
  s.leadRules.rows.any (fun lr => lr.inScope eventId && trigger lr)

def armLeadRequest (env : Env) (eventId : Uuid) (trigger : LeadRule → Bool) : Tx Unit :=
  .update (fun v => if v.fires eventId trigger then [.leadRequest eventId] else [])
    (fun v s => if v.fires eventId trigger then
      { s with leadRequests := armRequest env.requestId eventId s.leadRequests } else s)
    (fun _ => ())

/-- The row the insert stages. On a decorated schema it is anchored to its event's unit. -/
def bornRow (env : Env) (draw : Draw) (cmd : RegisterCommand) (link : Option SaleLink)
    (event : Event) (slotId : Option Uuid) (orgAxis : Bool) : Registration where
  id := draw.id
  eventId := cmd.eventId
  eventSlotId := slotId
  eventTicketId := cmd.eventTicketId
  name := cmd.name
  email := cmd.email
  phone := cmd.phone
  companyName := cmd.companyName
  partnerId := cmd.partnerId
  state := (link.map SaleLink.initialState).getD .open
  dateClosed := none
  saleOrderId := link.map SaleLink.saleOrderId
  saleOrderState := link.map SaleLink.saleOrderState
  saleStatus := link.map SaleLink.saleStatus
  active := true
  barcode := mintBarcode draw.bytes
  orgUnitId := if orgAxis then event.orgUnitId else none
  createdAt := some env.now

/-- The register head over a transaction of the caller. -/
def registerCore (env : Env) (draw : Draw) (cmd : RegisterCommand) (link : Option SaleLink) :
    Tx Registration := do
  let event ← lockEvent cmd.eventId
  Program.refuseWhen (event.kanbanState == .cancel)
    (.validation "event is cancelled — registrations refused")
  let slotId ← lockSlot event cmd
  ticketWindow draw cmd
  let taken ← Program.select (fun s : Db => s.taken cmd.eventId slotId)
  Program.refuseWhen (event.exhausted taken) (.eventSeatsExhausted cmd.eventId)
  let orgAxis ← Program.select Db.orgAxis
  let row := bornRow env draw cmd link event slotId orgAxis
  insertRegistration env row
  Program.onlyIf (row.state == .open) (armAfterSub env (fun _ e => e == cmd.eventId))
  Program.onlyIf (!cmd.leadRuleSkip)
    (armLeadRequest env cmd.eventId (fun lr => lr.onCreate || lr.onConfirm))
  recordAudit (auditRow "registration_created" cmd.actor "registration" (some row.id)
    (.registrationCreated cmd.eventId cmd.email row.state link.isSome))
  return row

def register (env : Env) (cmd : RegisterCommand) : Tx Registration :=
  registerCore env (env.draw 0) cmd none

/-- The state a verb writes, and the closing stamp a first `done` sets. -/
def Registration.moved (now : Timestamp) (target : RegistrationState) : Update Registration where
  toFun r := { r with
    state := target
    dateClosed := if target == .done && r.dateClosed.isNone then some now else r.dateClosed }
  keeps _ _ := rfl

/-- The update under the row lock, answering with the state before it and `active`. -/
def moveState (env : Env) (registrationId : Uuid) (target : RegistrationState) :
    Tx (Option Registration) :=
  .update
    (fun v => if (v.registration? registrationId).isSome then [.registration registrationId] else [])
    (fun v s => { s with
      registrations := s.registrations.modify
        (v.registrations.matched (·.id == registrationId)) (Registration.moved env.now target) })
    (fun v => v.registration? registrationId)

/-- The one count without the row under transition. -/
def Db.takenWithout (s : Db) (registrationId eventId : Uuid) (slotId : Option Uuid) : ℕ :=
  s.registrations.count (fun r => countingScope eventId slotId r && r.id != registrationId)

/-- The seat head of a verb that enters the counting domain. -/
def seatHead (registrationId : Uuid) : Tx Unit := do
  let found ← Program.select (fun s : Db => s.registration? registrationId)
  let r ← Program.require found (.database "registrations: no rows returned")
  let event ← lockEvent r.eventId
  let taken ← Program.select (fun s : Db => s.takenWithout registrationId r.eventId r.eventSlotId)
  Program.refuseWhen (event.exhausted taken) (.eventSeatsExhausted r.eventId)

/-- The arms and the audited fact of a state change, once its seat is granted. -/
def settleMove (env : Env) (before : Registration) (target : RegistrationState)
    (actor : Option Uuid) : Tx Unit := do
  Program.onlyIf (before.active && target == .open && before.outside)
    (armAfterSub env (fun s e => (s.registration? before.id).any (·.eventId == e)))
  Program.onlyIf (before.active && (target == .open || target == .done) && before.state != target)
    (armLeadRequest env before.eventId
      (fun lr => if target == .done then lr.onDone else lr.onConfirm))
  Program.onlyIf (before.state != target)
    (recordAudit (auditRow "registration_state_changed" actor "registration"
      (some before.id) (.stateChanged before.state target)))

/-- A verb from `draft` or `cancel` into `open` or `done` on an active row takes a seat. -/
def takesSeat (before : Registration) (target : RegistrationState) : Bool :=
  before.active && (target == .open || target == .done) && before.outside

/-- Any state to any state. The answer is the state before, the state after and `active`. -/
def transition (env : Env) (registrationId : Uuid) (target : RegistrationState)
    (actor : Option Uuid) : Tx (RegistrationState × RegistrationState × Bool) := do
  let found ← moveState env registrationId target
  let before ← Program.require found .registrationNotFound
  Program.onlyIf (takesSeat before target) (seatHead registrationId)
  settleMove env before target actor
  return (before.state, target, before.active)

/-- `COALESCE(column, $n)`, column by column; a name is never null. -/
def Registration.synced (partnerId : Uuid) (name phone companyName : Option String) :
    Update Registration where
  toFun r := { r with
    partnerId := r.partnerId.or (some partnerId)
    name := ((some r.name).or name).getD r.name
    phone := r.phone.or phone
    companyName := r.companyName.or companyName }
  keeps _ _ := rfl

/-- Fill-only-when-empty identity fields on an active row. The CHECKs are those on the new row;
the audit row follows on the pool. -/
def syncFromPartner (checks : Registration → Bool) (registrationId partnerId : Uuid)
    (name phone companyName : Option String) (actor : Option Uuid) : Tx Registration :=
  let found (s : Db) := s.registrations.find fun r => r.id == registrationId && r.active
  let synced := Registration.synced partnerId name phone companyName
  .statement (fun v => if (found v).isSome then [.registration registrationId] else [])
    (fun v s => if (found v).any fun r => checks (synced r) then
      { s with registrations :=
        s.registrations.modify (fun r => r.id == registrationId && r.active) synced } else s)
    (fun v => match found v with
      | none => .refuse .registrationNotFound
      | some r =>
        if checks (synced r) then
          .noteAfter (auditRow "registration_updated" actor "registration" (some registrationId)
            (.partnerSynced partnerId)) (.done (synced r))
        else .refuse (.database "registrations: constraint violated"))

end BackboneEvents
