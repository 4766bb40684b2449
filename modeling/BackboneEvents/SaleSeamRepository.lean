import BackboneEvents.GrandTotal
import BackboneEvents.SeatRepository

/-!
# The sale seam repository

The three verbs of the selling subscription. Each claims its delivery in the inbox
inside the transaction of its effect; a delivery already claimed answers without one.
-/
namespace BackboneEvents
open ConstrainedTables TransactionPrograms GrandTotal

structure SeamOutcome where
  alreadyApplied : Bool
  registrationsTouched : ℕ
  boothsLatchedPaid : ℕ
  deriving DecidableEq, Repr

def hexDigit (n : ℕ) : Char := "0123456789abcdef".toList.getD (n % 16) '0'

def hexText (width n : ℕ) : List Char :=
  match width with
  | 0 => []
  | w + 1 => hexText w (n / 16) ++ [hexDigit n]

/-- The hyphenated lower-case form of a uuid. -/
def uuidText (u : Uuid) : String :=
  let digits := hexText 32 u
  String.ofList (digits.take 8 ++ ['-'] ++ (digits.drop 8).take 4 ++ ['-'] ++
    (digits.drop 12).take 4 ++ ['-'] ++ (digits.drop 16).take 4 ++ ['-'] ++ digits.drop 20)

/-- The exactly-once key: the delivery id when there is one, else the order. -/
def claimKey (verb : String) (deliveryId : Option String) (orderId : Uuid) : String :=
  match deliveryId with
  | some d => verb ++ ":" ++ d
  | none => verb ++ ":" ++ uuidText orderId

/-- `INSERT .. ON CONFLICT DO NOTHING`; true when the row was new. -/
def claim (consumer externalId : String) : Tx Bool :=
  .update (fun _ => [.inbox consumer externalId])
    (fun _ s => { s with seamInbox := s.seamInbox.push ⟨consumer, externalId⟩ })
    (fun v => v.seamInbox.accepts ⟨consumer, externalId⟩)

def Registration.ofOrder (orderId : Uuid) (r : Registration) : Bool :=
  r.saleOrderId == some orderId

def Db.linked (s : Db) (orderId : Uuid) : ℕ := s.registrations.count (Registration.ofOrder orderId)

def Registration.freeHealed : Update Registration where
  toFun r := { r with state := .open, saleOrderState := some .sale, saleStatus := some .free }
  keeps _ _ := rfl

def Registration.held : Update Registration where
  toFun r := { r with saleOrderState := some .sale, saleStatus := some .toPay }
  keeps _ _ := rfl

def Registration.orderCancelled : Update Registration where
  toFun r := { r with state := .cancel, saleOrderState := some .cancel }
  keeps _ _ := rfl

def Registration.paidHealed : Update Registration where
  toFun r := { r with state := .open, saleOrderState := some .sale, saleStatus := some .sold }
  keeps _ _ := rfl

def Registration.sold : Update Registration where
  toFun r := { r with saleStatus := some .sold }
  keeps _ _ := rfl

def freeHeals (orderId : Uuid) (r : Registration) : Bool :=
  r.ofOrder orderId && r.outside && r.active

def activeOfOrder (orderId : Uuid) (r : Registration) : Bool := r.ofOrder orderId && r.active

def paidHeals (orderId : Uuid) (r : Registration) : Bool :=
  r.ofOrder orderId && r.outside && r.saleStatus == some .toPay && r.active

def paidSells (orderId : Uuid) (r : Registration) : Bool :=
  r.ofOrder orderId && r.saleStatus == some .toPay && r.active

/-- One `UPDATE event.registrations .. RETURNING id`, answering the number of rows. -/
def updateRegistrations (p : Registration → Bool) (f : Update Registration) : Tx ℕ :=
  .update (fun v => (v.registrations.rows.filter p).map (fun r => .registration r.id))
    (fun v s => { s with registrations := s.registrations.modify (v.registrations.matched p) f })
    (fun v => v.registrations.count p)

/-- The events that own a row linked to the order. -/
def Db.linkedEvent (s : Db) (orderId : Uuid) (eventId : Uuid) : Bool :=
  s.registrations.rows.any (fun r => r.ofOrder orderId && r.eventId == eventId)

/-- Every spec through the one register head, in the delivery's transaction. -/
def mint (env : Env) (link : SaleLink) : ℕ → List RegisterCommand → Tx ℕ
  | touched, [] => return touched
  | touched, spec :: specs => do
    let _ ← registerCore env (env.draw touched) spec (some link)
    mint env link (touched + 1) specs

def bornLink (orderId : Uuid) (free : Bool) : SaleLink where
  saleOrderId := orderId
  saleOrderState := .sale
  saleStatus := if free then .free else .toPay
  initialState := if free then .open else .draft

def seamAudit (action : String) (actor : Option Uuid) (orderId : Uuid) (detail : AuditDetail) :
    AuditRow := auditRow action actor "sale_order" (some orderId) detail

def alreadyApplied : SeamOutcome := ⟨true, 0, 0⟩

/-- The mint of an order that owns no rows yet. -/
def mintOrder (env : Env) (orderId : Uuid) (free : Bool) (specs : List RegisterCommand)
    (actor : Option Uuid) : Tx SeamOutcome := do
  let touched ← mint env (bornLink orderId free) 0 specs
  .noteAfter (seamAudit "sale_seam_confirmed" actor orderId
    (.mint free touched (bornLink orderId free).saleStatus)) (.done ⟨false, touched, 0⟩)

/-- The heal of an order that owns rows: free orders lift, paid orders hold. -/
def healOrder (env : Env) (orderId : Uuid) (free : Bool) (actor : Option Uuid) :
    Tx SeamOutcome :=
  if free then do
    let touched ← updateRegistrations (freeHeals orderId) Registration.freeHealed
    armAfterSub env (fun s e => s.linkedEvent orderId e)
    .note (seamAudit "sale_seam_confirmed" actor orderId (.healFree touched))
      (.done ⟨false, touched, 0⟩)
  else do
    let touched ← updateRegistrations (activeOfOrder orderId) Registration.held
    .note (seamAudit "sale_seam_confirmed" actor orderId (.healHeld touched))
      (.done ⟨false, touched, 0⟩)

/-- The replay question, decided by the rows, and the branch it takes. -/
def mintOrHeal (env : Env) (orderId : Uuid) (free : Bool) (specs : List RegisterCommand)
    (actor : Option Uuid) : Tx SeamOutcome := do
  let linked ← Program.select (fun s : Db => s.linked orderId)
  if linked == 0 then mintOrder env orderId free specs actor
  else healOrder env orderId free actor

def onOrderConfirmed (env : Env) (consumerKey : String) (deliveryId : Option String)
    (orderId : Uuid) (grandTotal : String) (specs : List RegisterCommand) (actor : Option Uuid) :
    Tx SeamOutcome := do
  let claimed ← claim consumerKey (claimKey "confirmed" deliveryId orderId)
  if !claimed then return alreadyApplied
  else mintOrHeal env orderId (grandTotalIsZero grandTotal) specs actor

/-- The cascade: the linked group moves to `cancel`; the sale status is kept. -/
def cancelOrder (orderId : Uuid) (actor : Option Uuid) : Tx SeamOutcome := do
  let touched ← updateRegistrations (activeOfOrder orderId) Registration.orderCancelled
  .note (seamAudit "sale_seam_cancelled" actor orderId (.cancelCascade touched))
    (.done ⟨false, touched, 0⟩)

def onOrderCancelled (consumerKey : String) (deliveryId : Option String) (orderId : Uuid)
    (actor : Option Uuid) : Tx SeamOutcome := do
  let claimed ← claim consumerKey (claimKey "cancelled" deliveryId orderId)
  if !claimed then return alreadyApplied
  else cancelOrder orderId actor

def latches (lineIds : List Uuid) (b : Booth) : Bool :=
  b.saleOrderLineId.any (lineIds.contains ·) && !b.isPaid

def Booth.paid : Update Booth where
  toFun b := { b with isPaid := true }
  keeps _ _ := rfl

/-- The one-way booth latch. -/
def latchBooths (lineIds : List Uuid) : Tx ℕ :=
  if lineIds.isEmpty then return 0
  else .update (fun v => (v.booths.rows.filter (latches lineIds)).map (fun b => .booth b.id))
    (fun v s => { s with
      booths := s.booths.modify (v.booths.matched (latches lineIds)) Booth.paid })
    (fun v => v.booths.count (latches lineIds))

/-- The paid fact: held rows lift, to-pay rows are sold, linked events are armed, booths latch. -/
def payOrder (env : Env) (orderId : Uuid) (lineIds : List Uuid) (actor : Option Uuid) :
    Tx SeamOutcome := do
  let touched ← updateRegistrations (paidHeals orderId) Registration.paidHealed
  let _ ← updateRegistrations (paidSells orderId) Registration.sold
  armAfterSub env (fun s e => s.linkedEvent orderId e)
  let latched ← latchBooths lineIds
  .note (seamAudit "sale_seam_paid" actor orderId (.paidHeal touched latched))
    (.done ⟨false, touched, latched⟩)

def onOrderPaid (env : Env) (consumerKey : String) (deliveryId : Option String)
    (orderId : Uuid) (lineIds : List Uuid) (actor : Option Uuid) : Tx SeamOutcome := do
  let claimed ← claim consumerKey (claimKey "paid" deliveryId orderId)
  if !claimed then return alreadyApplied
  else payOrder env orderId lineIds actor

end BackboneEvents
