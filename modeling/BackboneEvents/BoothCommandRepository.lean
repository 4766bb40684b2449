import BackboneEvents.SaleSeamRepository

/-!
# The booth command repository

The booking lifecycle of a booth, statement by statement: a booking is born pending, a
confirm flips it and takes the booth under both row locks, a release deletes the bookings of
the booth and reopens it. The partial unique index on confirmed bookings is the wall.
-/
namespace BackboneEvents
open ConstrainedTables TransactionPrograms

def Db.booth? (s : Db) (boothId : Uuid) : Option Booth := s.booths.find (·.id == boothId)

def Db.booking? (s : Db) (bookingId : Uuid) : Option BoothBooking :=
  s.boothBookings.find (·.id == bookingId)

def ofBooth (boothId : Uuid) (k : BoothBooking) : Bool := k.eventBoothId == boothId

def pendingRow (bookingId : Uuid) (k : BoothBooking) : Bool :=
  k.id == bookingId && k.status == .pending

def confirmedOf (boothId : Uuid) (k : BoothBooking) : Bool :=
  ofBooth boothId k && k.status == .confirmed

def unavailableRow (boothId : Uuid) (b : Booth) : Bool := b.id == boothId && b.state == .unavailable

/-- A booth as it is born, on sale and empty. -/
def Booth.born (boothId eventId : Uuid) : Booth where
  id := boothId
  eventId := eventId
  state := .available
  partnerId := none
  contactName := none
  contactEmail := none
  contactPhone := none
  saleOrderLineId := none
  isPaid := false

/-- What the insert of a booth answers: its key is checked first, then its two references. -/
def Db.boothInsert (s : Db) (categoryStored : Bool) (row : Booth) : Except EventError Booth :=
  if !s.booths.accepts row then .error (.database "booths: duplicate key")
  else if (s.event? row.eventId).isSome && categoryStored then .ok row
  else .error (.validation "booth create refused — event or category does not resolve")

/-- The categories are not stored here: `categoryStored` answers for the one given. -/
def createBooth (boothId eventId : Uuid) (categoryStored : Bool) (name : String)
    (actor : Option Uuid) : Tx Booth := do
  let inserted ← .update (fun _ => [.booth boothId])
    (fun v s => match v.boothInsert categoryStored (Booth.born boothId eventId) with
      | .ok row => { s with booths := s.booths.push row }
      | .error _ => s)
    (fun v : Db => v.boothInsert categoryStored (Booth.born boothId eventId))
  match inserted with
  | .error e => .refuse e
  | .ok row => .noteAfter (auditRow "booth_created" actor "booth" (some row.id)
      (.boothCreated eventId name)) (.done row)

/-- The booths a new event copies from its type: names and categories only. -/
def copyTypeBooths (eventId : Uuid) (boothIds : List Uuid) : Tx Unit :=
  let rows := boothIds.map (Booth.born · eventId)
  .statement (fun _ => boothIds.map Lock.booth)
    (fun _ s => { s with booths := (s.booths.insertAll rows).getD s.booths })
    (fun v => if (v.booths.insertAll rows).isSome then .done () else
      .refuse (.database "booths: duplicate key"))

/-- The partner and the contact are filled where they are empty. -/
def Booth.patched (partnerId : Option Uuid) (contactName contactEmail contactPhone : Option String) :
    Update Booth where
  toFun b := { b with
    partnerId := b.partnerId.or partnerId
    contactName := b.contactName.or contactName
    contactEmail := b.contactEmail.or contactEmail
    contactPhone := b.contactPhone.or contactPhone }
  keeps _ _ := rfl

/-- `categoryStored` answers for the new category, where one is given. -/
def patchBooth (boothId : Uuid) (categoryStored : Bool) (partnerId : Option Uuid)
    (contactName contactEmail contactPhone : Option String) (actor : Option Uuid) : Tx Booth := do
  let patch := Booth.patched partnerId contactName contactEmail contactPhone
  let patched ← .update
    (fun v => if (v.booth? boothId).isSome then [.booth boothId] else [])
    (fun v s => if categoryStored then
      { s with booths := s.booths.modify (v.booths.matched (·.id == boothId)) patch } else s)
    (fun v : Db => (v.booth? boothId).map patch)
  let booth ← Program.require patched (.boothNotFound boothId)
  Program.refuseWhen (!categoryStored) (.database "booths: foreign key violated")
  .noteAfter (auditRow "booth_updated" actor "booth" (some boothId) .boothPatched) (.done booth)

/-- The row of a booking and the unique keys it stands under. -/
def BoothBooking.keys (k : BoothBooking) : List Lock :=
  .booking k.id :: (k.saleOrderLineId.toList.map (.bookingLine · k.eventBoothId) ++
    if k.status == .confirmed then [.confirmedBooking k.eventBoothId] else [])

/-- The one message of `fetch_one` on no row. -/
def noRows : EventError :=
  .database "no rows returned by a query that expected to return at least one row"

/-- A booking of the line on a booth of another event. -/
def Db.crossEvent (s : Db) (saleOrderLineId eventId : Uuid) : Bool :=
  s.boothBookings.rows.any (fun k => k.saleOrderLineId == some saleOrderLineId &&
    (s.booth? k.eventBoothId).any (·.eventId != eventId))

/-- One order line books booths of one event. -/
def lineGuard (eventId : Uuid) : Option Uuid → Tx Unit
  | none => return ()
  | some line => do
    let cross ← Program.select (fun s : Db => s.crossEvent line eventId)
    Program.refuseWhen cross (.boothBookingLineCrossEvent line)

/-- The insert, its unique violation read as the loser of the wall, and the audited fact. -/
def insertBooking (row : BoothBooking) (actor : Option Uuid) : Tx BoothBooking := do
  let fits ← .update (fun _ => row.keys)
    (fun _ s => { s with boothBookings := s.boothBookings.push row })
    (fun v => v.boothBookings.accepts row)
  Program.refuseWhen (!fits) (.boothAlreadyConfirmed row.eventBoothId)
  .noteAfter (auditRow "booth_booking_created" actor "booth" (some row.eventBoothId)
    (.bookingCreated row.id .pending)) (.done row)

def createBooking (bookingId eventBoothId : Uuid) (saleOrderLineId partnerId : Option Uuid)
    (contactName contactEmail contactPhone : Option String) (actor : Option Uuid) :
    Tx BoothBooking := do
  let found ← Program.select (fun s : Db => s.booth? eventBoothId)
  let booth ← Program.require found (.boothNotFound eventBoothId)
  lineGuard booth.eventId saleOrderLineId
  insertBooking ⟨bookingId, eventBoothId, saleOrderLineId, .pending, partnerId, contactName,
    contactEmail, contactPhone⟩ actor

/-- The booking joined with its booth. -/
def Db.pair (s : Db) (bookingId : Uuid) : Option (BoothBooking × Booth) :=
  (s.booking? bookingId).bind (fun k => (s.booth? k.eventBoothId).map (fun b => (k, b)))

def BoothBooking.flipped : Update BoothBooking where
  toFun k := { k with status := .confirmed }
  keeps _ _ := rfl

/-- What the flip answers: the flipped row, or why there is none. -/
def Db.flip (s : Db) (bookingId eventBoothId : Uuid) : Except EventError BoothBooking :=
  match s.boothBookings.find (pendingRow bookingId) with
  | none => .error noRows
  | some k =>
    if s.boothBookings.rows.any (confirmedOf k.eventBoothId) then
      .error (.boothAlreadyConfirmed eventBoothId)
    else .ok (BoothBooking.flipped k)

/-- The five booth values of a confirm: unavailable, the others where they are empty. -/
def Booth.filled (k : BoothBooking) : Update Booth where
  toFun b := { b with
    state := .unavailable
    saleOrderLineId := b.saleOrderLineId.or k.saleOrderLineId
    partnerId := b.partnerId.or k.partnerId
    contactName := b.contactName.or k.contactName
    contactEmail := b.contactEmail.or k.contactEmail
    contactPhone := b.contactPhone.or k.contactPhone }
  keeps _ _ := rfl

/-- The audited fact of a confirm, in its transaction. -/
def confirmAudit (booking : BoothBooking) (booth : Booth) (actor : Option Uuid) :
    Tx (BoothBooking × Booth) := do
  recordAudit (auditRow "booth_confirmed" actor "booth" (some booking.eventBoothId)
    (.boothConfirmed booking.id))
  return (booking, booth)

/-- The booth writes of a confirm. -/
def confirmFill (booking : BoothBooking) (actor : Option Uuid) : Tx (BoothBooking × Booth) := do
  let filled ← .update
    (fun v => if (v.booth? booking.eventBoothId).isSome then [.booth booking.eventBoothId] else [])
    (fun v s => { s with
      booths := s.booths.modify (v.booths.matched (·.id == booking.eventBoothId))
        (Booth.filled booking) })
    (fun v : Db => (v.booth? booking.eventBoothId).map (Booth.filled booking))
  let booth ← Program.require filled noRows
  confirmAudit booking booth actor

/-- The flip of a confirm whose booth is available. -/
def confirmFlip (bookingId eventBoothId : Uuid) (actor : Option Uuid) :
    Tx (BoothBooking × Booth) := do
  let flipped ← .update
    (fun v => match v.boothBookings.find (pendingRow bookingId) with
      | some k => [.booking k.id, .confirmedBooking k.eventBoothId]
      | none => [])
    (fun v s => { s with
      boothBookings := s.boothBookings.modify (v.boothBookings.matched (pendingRow bookingId))
        BoothBooking.flipped })
    (fun v : Db => v.flip bookingId eventBoothId)
  match flipped with
  | .error e => .refuse e
  | .ok booking => confirmFill booking actor

def confirmBooking (bookingId : Uuid) (actor : Option Uuid) : Tx (BoothBooking × Booth) := do
  let locked ← .selectForUpdate
    (fun v => match v.pair bookingId with
      | some (k, b) => [.booking k.id, .booth b.id]
      | none => [])
    (fun v : Db => v.pair bookingId)
  let (booking, booth) ← Program.require locked (.boothBookingNotFound bookingId)
  Program.refuseWhen (booth.state != .available) (.boothAlreadyConfirmed booking.eventBoothId)
  confirmFlip bookingId booking.eventBoothId actor

def Booth.reopened : Update Booth where
  toFun b := { b with state := .available }
  keeps _ _ := rfl

/-- The second statement of a release, and the audited fact in its transaction. -/
def releaseReopen (eventBoothId : Uuid) (actor : Option Uuid) : Tx Booth := do
  let reopened ← .update
    (fun v => if (v.booths.find (unavailableRow eventBoothId)).isSome then [.booth eventBoothId]
      else [])
    (fun v s => { s with
      booths := s.booths.modify (v.booths.matched (unavailableRow eventBoothId)) Booth.reopened })
    (fun v : Db => (v.booths.find (unavailableRow eventBoothId)).map Booth.reopened)
  let booth ← Program.require reopened (.boothNotFound eventBoothId)
  recordAudit (auditRow "booth_released" actor "booth" (some eventBoothId) .boothReleased)
  return booth

def releaseBooth (eventBoothId : Uuid) (actor : Option Uuid) : Tx Booth := do
  .update (fun v => (v.boothBookings.rows.filter (ofBooth eventBoothId)).flatMap BoothBooking.keys)
    (fun v s => { s with
      boothBookings := s.boothBookings.remove (v.boothBookings.matched (ofBooth eventBoothId)) })
    (fun _ : Db => ())
  releaseReopen eventBoothId actor

/-- Withdraw an intent; a confirmed booking is refused as a missing one is. -/
def deleteBooking (bookingId : Uuid) (actor : Option Uuid) : Tx Unit := do
  let deleted ← .update
    (fun v => (v.boothBookings.rows.filter (pendingRow bookingId)).flatMap BoothBooking.keys)
    (fun v s => { s with
      boothBookings := s.boothBookings.remove (v.boothBookings.matched (pendingRow bookingId)) })
    (fun v : Db => (v.boothBookings.find (pendingRow bookingId)).isSome)
  Program.refuseWhen (!deleted) (.boothBookingNotFound bookingId)
  .noteAfter (auditRow "booth_booking_deleted" actor "booth_booking" (some bookingId)
    .bookingDeleted) (.done ())

/-- The delete of a booth row, which the reference of its bookings forbids. -/
def removeBooth (boothId : Uuid) : Tx Unit :=
  .statement (fun v => if (v.booth? boothId).isSome then [.booth boothId] else [])
    (fun v s => if v.boothBookings.rows.any (ofBooth boothId) then s else
      { s with booths := s.booths.remove (v.booths.matched (·.id == boothId)) })
    (fun v => if v.boothBookings.rows.any (ofBooth boothId) then
      .refuse (.database "booth_bookings: foreign key violated") else .done ())

/-- Refused while the booth is sale-linked or has a booking. -/
def deleteBooth (boothId : Uuid) (actor : Option Uuid) : Tx Unit := do
  let linked ← .selectForUpdate
    (fun v => if (v.booth? boothId).isSome then [.booth boothId] else [])
    (fun v : Db => (v.booth? boothId).map (fun b =>
      (b.saleOrderLineId, v.boothBookings.count (ofBooth boothId))))
  let (saleOrderLineId, bookings) ← Program.require linked (.boothNotFound boothId)
  Program.refuseWhen saleOrderLineId.isSome (.boothDeleteRefusedSaleLinked boothId)
  Program.refuseWhen (decide (0 < bookings)) (.validation
    ("booth delete refused — " ++ toString bookings ++ " booking rows exist (release first)"))
  removeBooth boothId
  .noteAfter (auditRow "booth_deleted" actor "booth" (some boothId) .boothDeleted) (.done ())

/-- The paid-hook latch, by the same statement as the seam's paid fact. -/
def markBoothsPaid (lineIds : List Uuid) : Tx ℕ := latchBooths lineIds

end BackboneEvents
