import BackboneEvents.SeatRepository
import Mathlib.Data.List.Sort

/-!
# The scheduler repository

Every method is one transaction or one statement, so it is a function of the database it
runs on. Receipts are materialized lazily, and completion is recomputed from them: a
scheduler is done when every eligible registration of its event has a sent receipt.
-/
namespace BackboneEvents
open ConstrainedTables

/-- One claimed scheduler row. -/
structure SchedulerRow where
  id : Uuid
  eventId : Uuid
  intervalNbr : ℕ
  intervalUnit : IntervalUnit
  intervalKind : IntervalKind
  notificationChannel : NotificationChannel
  templateRef : Option Uuid
  templateKind : Option String
  mailDone : Bool
  lastRegistrationId : Option Uuid
  deriving DecidableEq, Repr

def Mail.schedulerRow (m : Mail) : SchedulerRow where
  id := m.id
  eventId := m.eventId
  intervalNbr := m.intervalNbr
  intervalUnit := m.intervalUnit
  intervalKind := m.intervalKind
  notificationChannel := m.notificationChannel
  templateRef := m.templateRef
  templateKind := m.templateKind
  mailDone := m.mailDone
  lastRegistrationId := m.lastRegistrationId

/-- One due receipt joined to its registration. -/
structure DueReceipt where
  receiptId : Uuid
  registrationId : Uuid
  attendeeName : String
  attendeeEmail : String
  attendeePhone : Option String
  barcode : String
  scheduledDate : Option Timestamp
  deriving DecidableEq, Repr

/-- The interval arithmetic on a creation stamp; it fails out of the timestamp range. -/
abbrev Shift := Timestamp → ℕ → IntervalUnit → Option Timestamp

def Db.mail? (s : Db) (schedulerId : Uuid) : Option Mail := s.mails.find (·.id == schedulerId)

/-- A receipt for the scheduler and the registration exists. -/
def Db.hasReceipt (s : Db) (schedulerId registrationId : Uuid) : Bool :=
  s.mailRegistrations.rows.any (fun x =>
    x.schedulerId == schedulerId && x.registrationId == registrationId)

def Db.hasSentReceipt (s : Db) (schedulerId registrationId : Uuid) : Bool :=
  s.mailRegistrations.rows.any (fun x =>
    x.schedulerId == schedulerId && x.registrationId == registrationId && x.mailSent)

/-- An eligible registration of the scheduler's event has no sent receipt. -/
def Db.workRemains (s : Db) (m : Mail) : Bool :=
  s.registrations.rows.any (fun r =>
    r.eventId == m.eventId && r.eligible && !s.hasSentReceipt m.id r.id)

/-- The claim domain: not done, due, on an event that is not cancelled, with work left. -/
def Db.claimable (s : Db) (now : Timestamp) (m : Mail) : Bool :=
  !m.mailDone && m.scheduledDate.any (fun d => decide (d ≤ now)) &&
    (s.event? m.eventId).any (·.kanbanState != .cancel) && s.workRemains m

/-- The order of a scan. A statement that fixes no order returns its rows in any. -/
def scanned {ρ : Type} (scan : Uuid → ℕ) (id : ρ → Uuid) (rows : List ρ) : List ρ :=
  rows.insertionSort (fun a b => scan (id a) ≤ scan (id b))

/-- The claim skips rows that another statement holds locked, and keeps no lock. -/
def claimDue (limit : ℕ) (now : Timestamp) (scan : Uuid → ℕ) (locked : Uuid → Bool) (s : Db) :
    List SchedulerRow :=
  let due := s.mails.rows.filter (fun m => s.claimable now m && !locked m.id)
  let earliest := ((scanned scan Mail.id due).insertionSort
    (fun a b => a.scheduledDate.getD 0 ≤ b.scheduledDate.getD 0)).take limit
  (scanned scan Mail.id earliest).map Mail.schedulerRow

/-- The anti-join: the eligible registrations of the event without any receipt. -/
def Db.unmaterialized (s : Db) (m : Mail) : List Registration :=
  s.registrations.rows.filter (fun r =>
    r.eventId == m.eventId && r.eligible && !s.hasReceipt m.id r.id)

/-- A missing receipt, due one interval after the creation stamp of its registration. -/
def newReceipt (receiptId : Uuid → Uuid) (shift : Shift) (m : Mail) (r : Registration) :
    Option MailRegistration :=
  let receipt (due : Option Timestamp) : MailRegistration :=
    ⟨receiptId r.id, m.id, r.id, due, false, none⟩
  match r.createdAt with
  | none => some (receipt none)
  | some created =>
    if m.intervalUnit == .now then some (receipt (some created))
    else (shift created m.intervalNbr m.intervalUnit).map (fun due => receipt (some due))

/-- `last_registration_id = GREATEST(last_registration_id, $2)`. -/
def Mail.watermarked (last : Uuid) : Update Mail where
  toFun m := { m with lastRegistrationId := some (max (m.lastRegistrationId.getD last) last) }
  keeps _ _ := rfl

def materializeReceipts (receiptId : Uuid → Uuid) (shift : Shift) (scheduler : SchedulerRow)
    (cap : ℕ) (s : Db) : Except EventError (List Uuid × Db) :=
  match s.mail? scheduler.id with
  | none => .ok ([], s)
  | some m =>
    let missing := ((s.unmaterialized m).insertionSort (fun a b => a.id ≤ b.id)).take cap
    match (missing.mapM (newReceipt receiptId shift m)).bind s.mailRegistrations.insertAll with
    | none => .error (.database "mail_registrations: insert failed")
    | some receipts =>
      let ids := missing.map Registration.id
      .ok (ids, { s with
        mailRegistrations := receipts
        mails := match ids.getLast? with
          | none => s.mails
          | some last => s.mails.modify (·.id == scheduler.id) (Mail.watermarked last) })

def unmaterializedCount (schedulerId : Uuid) (s : Db) : ℕ :=
  ((s.mail? schedulerId).map (fun m => (s.unmaterialized m).length)).getD 0

/-- `ORDER BY scheduled_date NULLS FIRST, registration_id`. -/
def DueReceipt.notAfter (a b : DueReceipt) : Bool :=
  match a.scheduledDate, b.scheduledDate with
  | none, none => decide (a.registrationId ≤ b.registrationId)
  | none, some _ => true
  | some _, none => false
  | some d, some d' => decide (d < d' ∨ d = d' ∧ a.registrationId ≤ b.registrationId)

/-- The receipt joined to its registration, when it is due. -/
def Db.dueReceipt? (s : Db) (schedulerId : Uuid) (now : Timestamp) (x : MailRegistration) :
    Option DueReceipt :=
  if x.schedulerId == schedulerId && !x.mailSent &&
      x.scheduledDate.all (fun d => decide (d ≤ now)) then
    (s.registration? x.registrationId).bind (fun r => if r.eligible then
      some ⟨x.id, x.registrationId, r.name, r.email, r.phone, r.barcode, x.scheduledDate⟩ else none)
  else none

/-- All due receipts of a scheduler, in the order of the walk. -/
def Db.due (s : Db) (schedulerId : Uuid) (now : Timestamp) : List DueReceipt :=
  (s.mailRegistrations.rows.filterMap (s.dueReceipt? schedulerId now)).insertionSort
    (fun a b => a.notAfter b = true)

def dueReceipts (schedulerId : Uuid) (limit : ℕ) (now : Timestamp) (s : Db) : List DueReceipt :=
  (s.due schedulerId now).take limit

def MailRegistration.closed (outcome : ReceiptOutcome) : Update MailRegistration where
  toFun x := { x with mailSent := true, outcome := some outcome }
  keeps _ _ := rfl

/-- Only the first writer flips the flag. -/
def closeReceipt (outcome : ReceiptOutcome) (receiptId : Uuid) (s : Db) : Db :=
  { s with
    mailRegistrations := s.mailRegistrations.modify (fun x => x.id == receiptId && !x.mailSent)
      (MailRegistration.closed outcome) }

def markReceiptQueued : Uuid → Db → Db := closeReceipt .queued

def markReceiptDroppedWindowClosed : Uuid → Db → Db := closeReceipt .droppedWindowClosed

def Mail.failed (now : Timestamp) (kind : MailErrorKind) : Update Mail where
  toFun m := { m with errorKind := some kind, errorDatetime := some now }
  keeps _ _ := rfl

def recordFailure (now : Timestamp) (schedulerId : Uuid) (kind : MailErrorKind) (s : Db) : Db :=
  { s with mails := s.mails.modify (·.id == schedulerId) (Mail.failed now kind) }

def Mail.cleared : Update Mail where
  toFun m := { m with errorKind := none, errorDatetime := none }
  keeps _ _ := rfl

def clearFailure (schedulerId : Uuid) (s : Db) : Db :=
  { s with mails := s.mails.modify (·.id == schedulerId) Mail.cleared }

def Mail.recomputed (s : Db) : Update Mail where
  toFun m := { m with mailDone := !s.workRemains m }
  keeps _ _ := rfl

/-- The receipt-truth completion; a missing row counts as done. -/
def recomputeMailDone (schedulerId : Uuid) (s : Db) : Bool × Db :=
  (((s.mail? schedulerId).map (fun m => !s.workRemains m)).getD true,
    { s with mails := s.mails.modify (·.id == schedulerId) (Mail.recomputed s) })

def Mail.dueFrom (now : Timestamp) : Update Mail where
  toFun m := { m with scheduledDate := some now }
  keeps _ _ := rfl

/-- The overflow re-arm. -/
def rearm (now : Timestamp) (schedulerId : Uuid) (s : Db) : Db :=
  { s with
    mails := s.mails.modify (fun m => m.id == schedulerId && !m.mailDone) (Mail.dueFrom now) }

/-- An unsent receipt of a cancelled registration. -/
def Db.moot (s : Db) (x : MailRegistration) : Bool :=
  !x.mailSent && (s.registration? x.registrationId).any (·.state == .cancel)

/-- Moot receipts are deleted, in any order up to the limit; the audit row is the trace. -/
def propagateCancellations (limit : ℕ) (scan : Uuid → ℕ) (s : Db) : ℕ × Db :=
  let deleted := (scanned scan MailRegistration.id (s.mailRegistrations.rows.filter s.moot)).take
    limit
  (deleted.length, { s with
    mailRegistrations := s.mailRegistrations.remove (fun x => deleted.any (·.id == x.id))
    auditTrails := if deleted.length = 0 then s.auditTrails else
      s.auditTrails ++ [auditRow "scheduler_run" none "mail_scheduler" (some 0)
        (.cancellationPropagation deleted.length)] })

/-- The officer's read of one scheduler row. -/
def findScheduler (schedulerId : Uuid) (s : Db) : Except EventError SchedulerRow :=
  match s.mail? schedulerId with
  | none => .error .eventNotFound
  | some m => .ok m.schedulerRow

/-- The event row a walk reads. -/
def findEvent (eventId : Uuid) (s : Db) : Except EventError Event :=
  match s.event? eventId with
  | none => .error .eventNotFound
  | some event => .ok event

theorem findEvent_eq_ok {s : Db} {eventId : Uuid} {event : Event} :
    findEvent eventId s = .ok event ↔ s.event? eventId = some event := by
  simp only [findEvent]
  split <;> simp_all

section receipts

variable {s : Db} {schedulerId registrationId : Uuid} {now : Timestamp}

theorem hasSentReceipt_iff : s.hasSentReceipt schedulerId registrationId = true ↔
    ∃ x ∈ s.mailRegistrations.rows, x.schedulerId = schedulerId ∧
      x.registrationId = registrationId ∧ x.mailSent = true := by
  simp [Db.hasSentReceipt, and_assoc]

theorem workRemains_eq_false_iff {m : Mail} : s.workRemains m = false ↔
    ∀ r ∈ s.registrations.rows, r.eventId = m.eventId → r.eligible = true →
      s.hasSentReceipt m.id r.id = true := by
  simp [Db.workRemains]

theorem mail?_eq_some {m : Mail} (h : m ∈ s.mails.rows) : s.mail? m.id = some m :=
  Table.find_eq_some h (by simp) (fun x hx => by simp only [beq_iff_eq] at hx; simp [clash, hx])

/-- Two receipts of one scheduler and registration are one. -/
theorem receipt_eq_of_pair {t : Table MailRegistration} {x y : MailRegistration}
    (hx : x ∈ t.rows) (hy : y ∈ t.rows) (hs : x.schedulerId = y.schedulerId)
    (hr : x.registrationId = y.registrationId) : x = y :=
  Table.eq_of_clash hx hy (by simp [clash, hs, hr])

theorem receipt_eq_of_id {t : Table MailRegistration} {x y : MailRegistration}
    (hx : x ∈ t.rows) (hy : y ∈ t.rows) (h : x.id = y.id) : x = y :=
  Table.eq_of_clash hx hy (by simp [clash, h])

theorem newReceipt_eq_some {receiptId : Uuid → Uuid} {shift : Shift} {m : Mail} {r : Registration}
    {x : MailRegistration} (h : newReceipt receiptId shift m r = some x) :
    x.schedulerId = m.id ∧ x.registrationId = r.id ∧ x.mailSent = false := by
  simp only [newReceipt] at h
  split at h
  · obtain rfl := Option.some.inj h
    exact ⟨rfl, rfl, rfl⟩
  · split at h
    · obtain rfl := Option.some.inj h
      exact ⟨rfl, rfl, rfl⟩
    · obtain ⟨due, -, rfl⟩ := Option.map_eq_some_iff.mp h
      exact ⟨rfl, rfl, rfl⟩

theorem exists_of_mem_mapM {α β : Type} {f : α → Option β} {l : List α} {l' : List β}
    (h : l.mapM f = some l') : ∀ b ∈ l', ∃ a ∈ l, f a = some b := by
  induction l generalizing l' with
  | nil =>
    obtain rfl : [] = l' := by simpa using h
    simp
  | cons a l ih =>
    simp only [List.mapM_cons, Option.bind_eq_bind, Option.bind_eq_some_iff] at h
    obtain ⟨b, hb, rest, hrest, hcons⟩ := h
    obtain rfl := Option.some.inj hcons
    intro c hc
    rcases List.mem_cons.mp hc with rfl | hc
    · exact ⟨a, List.mem_cons_self, hb⟩
    · obtain ⟨a', ha', hf⟩ := ih hrest c hc
      exact ⟨a', List.mem_cons_of_mem _ ha', hf⟩

/-- What materialization leaves: further unsent receipts of stored registrations, and the
watermark. -/
structure Materialized (s t : Db) : Prop where
  events : t.events = s.events
  registrations : t.registrations = s.registrations
  mails : t.mails = s.mails ∨
    ∃ schedulerId last, t.mails = s.mails.modify (·.id == schedulerId) (Mail.watermarked last)
  receipts : ∃ born, t.mailRegistrations.rows = s.mailRegistrations.rows ++ born ∧
    ∀ x ∈ born, x.mailSent = false ∧ ∃ r ∈ s.registrations.rows, r.id = x.registrationId

theorem materialized_of_ok {receiptId : Uuid → Uuid} {shift : Shift} {scheduler : SchedulerRow}
    {cap : ℕ} {ids : List Uuid} {t : Db}
    (h : materializeReceipts receiptId shift scheduler cap s = .ok (ids, t)) :
    Materialized s t := by
  simp only [materializeReceipts] at h
  split at h
  · obtain ⟨-, rfl⟩ := Prod.mk.inj (Except.ok.inj h)
    exact ⟨rfl, rfl, .inl rfl, [], by simp⟩
  · split at h
    · cases h
    · next m _ _ receipts hreceipts =>
      obtain ⟨-, rfl⟩ := Prod.mk.inj (Except.ok.inj h)
      obtain ⟨born, hborn, hinsert⟩ := Option.bind_eq_some_iff.mp hreceipts
      refine ⟨rfl, rfl, ?_, born, Table.rows_insertAll hinsert, fun x hx => ?_⟩
      · dsimp only
        split
        · exact .inl rfl
        · exact .inr ⟨_, _, rfl⟩
      · obtain ⟨r, hr, hnew⟩ := exists_of_mem_mapM hborn x hx
        obtain ⟨-, hregistration, hunsent⟩ := newReceipt_eq_some hnew
        have hmissing := (List.mem_insertionSort _).mp (List.mem_of_mem_take hr)
        exact ⟨hunsent, r, (List.mem_filter.mp hmissing).1, hregistration.symm⟩

theorem dueReceipt?_eq_some {x : MailRegistration} {d : DueReceipt}
    (h : s.dueReceipt? schedulerId now x = some d) :
    x.schedulerId = schedulerId ∧ x.mailSent = false ∧ d.receiptId = x.id ∧
      d.registrationId = x.registrationId := by
  simp only [Db.dueReceipt?] at h
  split at h
  · next hdue =>
    obtain ⟨r, -, h⟩ := Option.bind_eq_some_iff.mp h
    split at h
    · obtain rfl := Option.some.inj h
      simp only [Bool.and_eq_true, beq_iff_eq, Bool.not_eq_true'] at hdue
      exact ⟨hdue.1.1, hdue.1.2, rfl, rfl⟩
    · cases h
  · cases h

/-- A due receipt is an unsent receipt of the scheduler. -/
theorem exists_of_mem_due {d : DueReceipt} (h : d ∈ s.due schedulerId now) :
    ∃ x ∈ s.mailRegistrations.rows, s.dueReceipt? schedulerId now x = some d := by
  simpa [Db.due] using h

/-- The walk meets every receipt once. -/
theorem pairwise_due : (s.due schedulerId now).Pairwise
    (fun d d' => d.receiptId ≠ d'.receiptId) := by
  have hperm := List.perm_insertionSort (fun a b => DueReceipt.notAfter a b = true)
    (s.mailRegistrations.rows.filterMap (s.dueReceipt? schedulerId now))
  refine (hperm.pairwise_iff fun hne => hne.symm).mpr ?_
  refine List.pairwise_filterMap.mpr (s.mailRegistrations.unique.imp ?_)
  intro x y hxy d hd d' hd' hsame
  rw [(dueReceipt?_eq_some hd).2.2.1, (dueReceipt?_eq_some hd').2.2.1] at hsame
  simp [clash, hsame] at hxy

end receipts

end BackboneEvents
