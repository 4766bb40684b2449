import BackboneEvents.BoothCommandRepository
import BackboneEvents.GuardedRuns
import BackboneEvents.VerbCalls

/-!
# The paid latch of a booth

Runs of the booking verbs and the two paid verbs, each committed or rolled back as a whole.
The latch is keyed on the copy of a line that the first confirm of a booth leaves on it, not
on the confirmed booking, and a confirm does not ask what has been paid.
-/
namespace BackboneEvents
open ConstrainedTables TransactionPrograms GuardedRuns

inductive BoothCall where
  | createBooking (bookingId eventBoothId : Uuid) (saleOrderLineId partnerId : Option Uuid)
      (contactName contactEmail contactPhone : Option String) (actor : Option Uuid)
  | confirmBooking (bookingId : Uuid) (actor : Option Uuid)
  | releaseBooth (eventBoothId : Uuid) (actor : Option Uuid)
  | onOrderPaid (env : Env) (consumer : String) (deliveryId : Option String) (orderId : Uuid)
      (lineIds : List Uuid) (actor : Option Uuid)
  | markBoothsPaid (lineIds : List Uuid)

def BoothCall.apply (s : Db) : BoothCall → Db
  | .createBooking bookingId eventBoothId line partner name email phone actor =>
    ((BackboneEvents.createBooking bookingId eventBoothId line partner name email phone
      actor).execute Db.absorb s).2
  | .confirmBooking bookingId actor =>
    ((BackboneEvents.confirmBooking bookingId actor).execute Db.absorb s).2
  | .releaseBooth eventBoothId actor =>
    ((BackboneEvents.releaseBooth eventBoothId actor).execute Db.absorb s).2
  | .onOrderPaid env consumer deliveryId orderId lineIds actor =>
    ((BackboneEvents.onOrderPaid env consumer deliveryId orderId lineIds actor).execute
      Db.absorb s).2
  | .markBoothsPaid lineIds => ((BackboneEvents.markBoothsPaid lineIds).execute Db.absorb s).2

/-- The lines of the paid fact the call applies; a claimed delivery applies none. -/
def BoothCall.named (s : Db) : BoothCall → List Uuid
  | .onOrderPaid _ consumer deliveryId orderId lineIds _ =>
    if s.seamInbox.accepts ⟨consumer, claimKey "paid" deliveryId orderId⟩ then lineIds else []
  | .markBoothsPaid lineIds => lineIds
  | .createBooking _ _ _ _ _ _ _ _ | .confirmBooking _ _ | .releaseBooth _ _ => []

/-- The pending booking a confirm finds on an available booth that has no confirmed one. -/
def Db.confirmable (s : Db) (bookingId : Uuid) : Option (BoothBooking × Booth) :=
  (s.pair bookingId).filter (fun p => p.2.state == .available && p.1.status == .pending &&
    !s.boothBookings.rows.any (confirmedOf p.1.eventBoothId))

def BoothCall.confirms (s : Db) : BoothCall → Option (BoothBooking × Booth)
  | .confirmBooking bookingId _ => s.confirmable bookingId
  | .createBooking _ _ _ _ _ _ _ _ | .releaseBooth _ _ | .onOrderPaid _ _ _ _ _ _
  | .markBoothsPaid _ => none

/-- The database with every line a paid fact has named. -/
structure Ledger where
  db : Db
  paid : List Uuid

def Ledger.next (w : Ledger) (c : BoothCall) : Ledger := ⟨c.apply w.db, w.paid ++ c.named w.db⟩

/-- A confirmed booking of the booth is on one of the lines. -/
def confirmedOn (s : Db) (lines : List Uuid) (boothId : Uuid) : Bool :=
  s.boothBookings.rows.any
    (fun k => confirmedOf boothId k && k.saleOrderLineId.any (lines.contains ·))

/-- The line copy of the booth is one of the lines. -/
def copyOn (lines : List Uuid) (b : Booth) : Bool := b.saleOrderLineId.any (lines.contains ·)

/-- A booth whose confirmed booking is on a paid line is paid. -/
def FollowsLine (w : Ledger) : Prop :=
  ∀ b ∈ w.db.booths.rows, confirmedOn w.db w.paid b.id = true → b.isPaid = true

/-- The call pays only booths whose confirmed booking is on a line it names. -/
def LatchesConfirmed (w : Ledger) (c : BoothCall) : Prop :=
  ∀ b ∈ w.db.booths.rows, ∀ b' ∈ (w.next c).db.booths.rows, b'.id = b.id → b.isPaid = false →
    b'.isPaid = true → confirmedOn w.db (c.named w.db) b.id = true

/-- Every paid booth is still there and paid. -/
def KeepsPaid (w w' : Ledger) : Prop :=
  ∀ b ∈ w.db.booths.rows, b.isPaid = true → ∃ b' ∈ w'.db.booths.rows, b'.id = b.id ∧ b'.isPaid = true

/-- The law of the latch over a run from a database without a paid fact. -/
def PaidLatch (s : Db) (calls : List BoothCall) : Prop :=
  Throughout Ledger.next FollowsLine ⟨s, []⟩ calls ∧
    Along Ledger.next LatchesConfirmed ⟨s, []⟩ calls ∧
    Steadily Ledger.next KeepsPaid ⟨s, []⟩ calls

/-- The call confirms no booking of an unpaid booth on a line already paid, and the line copy
of an unpaid booth is among the lines the call names just when its confirmed line is. -/
def CopyInStep (w : Ledger) (c : BoothCall) : Prop :=
  (∀ p ∈ c.confirms w.db, p.1.saleOrderLineId.any (w.paid.contains ·) = true → p.2.isPaid = true) ∧
    ∀ b ∈ w.db.booths.rows, b.isPaid = false →
      copyOn (c.named w.db) b = confirmedOn w.db (c.named w.db) b.id

section run

variable {s t : Db} {boothId bookingId eventBoothId : Uuid} {actor : Option Uuid}

theorem booth?_mem {b : Booth} (h : s.booth? boothId = some b) : b ∈ s.booths.rows ∧ b.id = boothId :=
  ⟨Table.find_mem h, by simpa using Table.find_spec h⟩

theorem booth?_of_mem {b : Booth} (h : b ∈ s.booths.rows) : s.booth? b.id = some b :=
  Table.find_eq_some h (by simp) fun _ hx => hx

theorem booking?_mem {k : BoothBooking} (h : s.booking? bookingId = some k) :
    k ∈ s.boothBookings.rows ∧ k.id = bookingId :=
  ⟨Table.find_mem h, by simpa using Table.find_spec h⟩

theorem pair_eq_some {k : BoothBooking} {b : Booth} : s.pair bookingId = some (k, b) ↔
    s.booking? bookingId = some k ∧ s.booth? k.eventBoothId = some b := by
  simp only [Db.pair, Option.bind_eq_some_iff, Option.map_eq_some_iff, Prod.mk.injEq]
  constructor
  · rintro ⟨k', hk, b', hb, rfl, rfl⟩
    exact ⟨hk, hb⟩
  · rintro ⟨hk, hb⟩
    exact ⟨k, hk, b, hb, rfl, rfl⟩

theorem run_lineGuard {eventId : Uuid} {line : Option Uuid} {u : Unit}
    (h : (lineGuard eventId line).run s = .ok (u, t)) : t = s := by
  cases line with
  | none => exact (Prod.mk.inj (Except.ok.inj h)).2.symm
  | some line =>
    obtain ⟨cross, s', hselect, hrun⟩ := Program.run_bind_ok h
    obtain ⟨rfl, rfl⟩ := Prod.mk.inj (Except.ok.inj hselect)
    rw [Program.run_refuseWhen] at hrun
    split at hrun
    · cases hrun
    · exact (Prod.mk.inj (Except.ok.inj hrun)).2.symm

/-- What a create leaves behind. -/
theorem run_insertBooking_ok {row k : BoothBooking} (h : (insertBooking row actor).run s = .ok (k, t)) :
    s.boothBookings.accepts row = true ∧ t = { s with boothBookings := s.boothBookings.push row } := by
  obtain ⟨fits, s', hinsert, hrun⟩ := Program.run_bind_ok h
  obtain ⟨rfl, rfl⟩ := Prod.mk.inj (Except.ok.inj hinsert)
  cases hfits : s.boothBookings.accepts row with
  | false => simp [hfits, Program.run_bind, Program.run_refuseWhen, Except.bind] at hrun
  | true =>
    simp only [hfits, Program.bind_eq, Program.run_bind, Program.run_refuseWhen, Bool.not_true,
      Bool.false_eq_true, if_false, Except.bind, Program.run_noteAfter, Program.run_done] at hrun
    exact ⟨rfl, (Prod.mk.inj (Except.ok.inj hrun)).2.symm⟩

theorem run_createBooking_ok {line partner : Option Uuid} {name email phone : Option String}
    {k : BoothBooking}
    (h : (createBooking bookingId eventBoothId line partner name email phone actor).run s =
      .ok (k, t)) : ∃ row, row.status = .pending ∧ s.boothBookings.accepts row = true ∧
      t = { s with boothBookings := s.boothBookings.push row } := by
  obtain ⟨found, s', hselect, hrun⟩ := Program.run_bind_ok h
  obtain ⟨rfl, rfl⟩ := Prod.mk.inj (Except.ok.inj hselect)
  cases hfound : s.booth? eventBoothId with
  | none => simp [hfound, Program.run_bind, Except.bind] at hrun
  | some booth =>
    simp only [hfound] at hrun
    obtain ⟨u, s', hguard, hinsert⟩ := Program.run_bind_ok (x := lineGuard booth.eventId line) hrun
    obtain rfl := run_lineGuard hguard
    exact ⟨_, rfl, run_insertBooking_ok hinsert⟩

/-- What a confirm of the booking leaves behind. -/
def Db.bookingConfirmed (s : Db) (k : BoothBooking) (actor : Option Uuid) : Db :=
  { s with
    boothBookings := s.boothBookings.modify (pendingRow k.id) BoothBooking.flipped
    booths := s.booths.modify (·.id == k.eventBoothId) (Booth.filled (BoothBooking.flipped k))
    auditTrails := s.auditTrails ++ [auditRow "booth_confirmed" actor "booth" (some k.eventBoothId)
      (.boothConfirmed k.id)] }

theorem find_pendingRow {k : BoothBooking} (h : s.booking? bookingId = some k) :
    s.boothBookings.find (pendingRow bookingId) = if k.status == .pending then some k else none := by
  obtain ⟨hk, hid⟩ := booking?_mem h
  cases hstatus : k.status == .pending with
  | true =>
    refine Table.find_eq_some hk (by simp [pendingRow, hid, hstatus]) fun x hx => ?_
    simp only [pendingRow, Bool.and_eq_true, beq_iff_eq] at hx
    simp [clash, hx.1, hid]
  | false =>
    refine List.find?_eq_none.mpr fun x hx hpending => ?_
    simp only [pendingRow, Bool.and_eq_true, beq_iff_eq] at hpending
    have heq : x = k := Table.eq_of_clash hx hk (by simp [clash, hpending.1, hid])
    rw [heq] at hpending
    simp [hpending.2] at hstatus

theorem confirmable_eq_some {k : BoothBooking} {b : Booth} :
    s.confirmable bookingId = some (k, b) ↔ s.pair bookingId = some (k, b) ∧
      b.state = .available ∧ k.status = .pending ∧
      s.boothBookings.rows.any (confirmedOf k.eventBoothId) = false := by
  simp [Db.confirmable, Option.filter_eq_some_iff, and_assoc]

theorem run_confirmFill {k : BoothBooking} {b : Booth} (h : s.booth? k.eventBoothId = some b) :
    (confirmFill k actor).run s = .ok ((k, Booth.filled k b), { s with
      booths := s.booths.modify (·.id == k.eventBoothId) (Booth.filled k)
      auditTrails := s.auditTrails ++ [auditRow "booth_confirmed" actor "booth"
        (some k.eventBoothId) (.boothConfirmed k.id)] }) := by
  simp [confirmFill, confirmAudit, recordAudit, h, Program.run_bind, Except.bind]

theorem run_confirmFlip : (confirmFlip bookingId eventBoothId actor).run s =
    match s.flip bookingId eventBoothId with
    | .error e => .error e
    | .ok booking => (confirmFill booking actor).run { s with
        boothBookings := s.boothBookings.modify (pendingRow bookingId) BoothBooking.flipped } := by
  simp only [confirmFlip, Program.bind_eq, Program.run_bind, Program.run_update, Except.bind,
    Table.modify_matched_self]
  cases s.flip bookingId eventBoothId <;> rfl

theorem run_confirmBooking_pair {k : BoothBooking} {b : Booth}
    (h : s.pair bookingId = some (k, b)) : (confirmBooking bookingId actor).run s =
      if b.state = .available then (confirmFlip bookingId k.eventBoothId actor).run s
      else .error (.boothAlreadyConfirmed k.eventBoothId) := by
  cases hstate : b.state <;>
    simp [confirmBooking, h, hstate, Program.run_bind, Program.run_refuseWhen, Except.bind]

variable (actor) in
theorem run_confirmBooking_some {k : BoothBooking} {b : Booth}
    (h : s.confirmable bookingId = some (k, b)) :
    (confirmBooking bookingId actor).run s =
      .ok ((BoothBooking.flipped k, Booth.filled (BoothBooking.flipped k) b),
        s.bookingConfirmed k actor) := by
  obtain ⟨hpair, hstate, hstatus, hwall⟩ := confirmable_eq_some.mp h
  obtain ⟨hk, hb⟩ := pair_eq_some.mp hpair
  have hflip : s.flip bookingId k.eventBoothId = .ok (BoothBooking.flipped k) := by
    simp only [Db.flip, find_pendingRow hk, hstatus, BEq.rfl, if_true, hwall, Bool.false_eq_true,
      if_false]
  rw [run_confirmBooking_pair hpair, if_pos hstate, run_confirmFlip, hflip, ← (booking?_mem hk).2]
  exact run_confirmFill hb

variable (actor) in
theorem run_confirmBooking_none (h : s.confirmable bookingId = none) :
    ∃ e, (confirmBooking bookingId actor).run s = .error e := by
  cases hpair : s.pair bookingId with
  | none => exact ⟨.boothBookingNotFound bookingId, by simp [confirmBooking, hpair,
      Program.run_bind, Except.bind]⟩
  | some p =>
    obtain ⟨k, b⟩ := p
    rw [run_confirmBooking_pair hpair]
    split
    · next hstate =>
      have hfind := find_pendingRow (pair_eq_some.mp hpair).1
      rw [run_confirmFlip]
      cases hstatus : k.status with
      | confirmed => exact ⟨noRows, by simp [Db.flip, hfind, hstatus]⟩
      | pending =>
        have hwall : s.boothBookings.rows.any (confirmedOf k.eventBoothId) = true := by
          by_contra hfalse
          have hsome := confirmable_eq_some.mpr ⟨hpair, hstate, hstatus, by simpa using hfalse⟩
          rw [h] at hsome
          cases hsome
        exact ⟨.boothAlreadyConfirmed k.eventBoothId, by
          simp only [Db.flip, hfind, hstatus, BEq.rfl, if_true, hwall]⟩
    · exact ⟨_, rfl⟩

/-- What a release of the booth leaves behind. -/
def Db.boothReleased (s : Db) (boothId : Uuid) (actor : Option Uuid) : Db :=
  { s with
    boothBookings := s.boothBookings.remove (ofBooth boothId)
    booths := s.booths.modify (unavailableRow boothId) Booth.reopened
    auditTrails := s.auditTrails ++
      [auditRow "booth_released" actor "booth" (some boothId) .boothReleased] }

theorem run_releaseBooth_ok {b : Booth} (h : (releaseBooth boothId actor).run s = .ok (b, t)) :
    t = s.boothReleased boothId actor := by
  cases hfind : s.booths.find (unavailableRow boothId) with
  | none => simp [releaseBooth, releaseReopen, hfind, Program.run_bind, Except.bind] at h
  | some b' =>
    simp only [releaseBooth, releaseReopen, recordAudit, hfind, Program.bind_eq, Program.run_bind,
      Program.run_update, Except.bind, Option.map_some, Program.run_require_some, Program.pure_eq,
      Program.run_done, Table.remove_matched_self, Table.modify_matched_self] at h
    exact (Prod.mk.inj (Except.ok.inj h)).2.symm

end run

/-- What one call can do to the booths and their bookings. -/
inductive BoothCall.Effect (c : BoothCall) (s t : Db) : Prop
  | unchanged (confirms : c.confirms s = none) (named : c.named s = [])
      (booths : t.booths = s.booths) (bookings : t.boothBookings = s.boothBookings)
  | created (row : BoothBooking) (confirms : c.confirms s = none) (named : c.named s = [])
      (pending : row.status = .pending) (accepts : s.boothBookings.accepts row = true)
      (booths : t.booths = s.booths) (bookings : t.boothBookings = s.boothBookings.push row)
  | confirmed (k : BoothBooking) (b : Booth) (confirms : c.confirms s = some (k, b))
      (named : c.named s = []) (found : s.confirmable k.id = some (k, b))
      (booths : t.booths = s.booths.modify (·.id == k.eventBoothId)
        (Booth.filled (BoothBooking.flipped k)))
      (bookings : t.boothBookings = s.boothBookings.modify (pendingRow k.id) BoothBooking.flipped)
  | released (boothId : Uuid) (confirms : c.confirms s = none) (named : c.named s = [])
      (booths : t.booths = s.booths.modify (unavailableRow boothId) Booth.reopened)
      (bookings : t.boothBookings = s.boothBookings.remove (ofBooth boothId))
  | latched (confirms : c.confirms s = none)
      (booths : t.booths = s.booths.modify (latches (c.named s)) Booth.paid)
      (bookings : t.boothBookings = s.boothBookings)

section effect

variable {s : Db} {lines : List Uuid}

theorem BoothCall.Effect.audited {c : BoothCall} {t : Db} (h : c.Effect s t)
    (rows : List AuditRow) : c.Effect s (t.audited rows) := by
  cases h with
  | unchanged confirms named booths bookings => exact .unchanged confirms named booths bookings
  | created row confirms named pending accepts booths bookings =>
    exact .created row confirms named pending accepts booths bookings
  | confirmed k b confirms named found booths bookings =>
    exact .confirmed k b confirms named found booths bookings
  | released boothId confirms named booths bookings =>
    exact .released boothId confirms named booths bookings
  | latched confirms booths bookings => exact .latched confirms booths bookings

/-- Every call has one of the effects. -/
theorem BoothCall.apply_effect (c : BoothCall) (s : Db) : c.Effect s (c.apply s) := by
  cases c with
  | createBooking bookingId eventBoothId line partner name email phone actor =>
    cases h : (BackboneEvents.createBooking bookingId eventBoothId line partner name email phone
        actor).run s with
    | error e =>
      simp only [apply, execute_error h]
      refine Effect.audited ?_ _
      exact .unchanged rfl rfl rfl rfl
    | ok r =>
      obtain ⟨row, hpending, haccepts, ht⟩ := run_createBooking_ok h
      simp only [apply, execute_ok h, ht]
      refine Effect.audited ?_ _
      exact .created row rfl rfl hpending haccepts rfl rfl
  | confirmBooking bookingId actor =>
    cases hfound : s.confirmable bookingId with
    | none =>
      obtain ⟨e, h⟩ := run_confirmBooking_none actor hfound
      simp only [apply, execute_error h]
      refine Effect.audited ?_ _
      exact .unchanged hfound rfl rfl rfl
    | some p =>
      have h := run_confirmBooking_some actor hfound
      have hid := (booking?_mem (pair_eq_some.mp (confirmable_eq_some.mp hfound).1).1).2
      simp only [apply, execute_ok h]
      refine Effect.audited ?_ _
      exact .confirmed p.1 p.2 hfound rfl (hid ▸ hfound) rfl rfl
  | releaseBooth eventBoothId actor =>
    cases h : (BackboneEvents.releaseBooth eventBoothId actor).run s with
    | error e =>
      simp only [apply, execute_error h]
      refine Effect.audited ?_ _
      exact .unchanged rfl rfl rfl rfl
    | ok r =>
      simp only [apply, execute_ok h, run_releaseBooth_ok h]
      refine Effect.audited ?_ _
      exact .released eventBoothId rfl rfl rfl rfl
  | onOrderPaid env consumer deliveryId orderId lineIds actor =>
    have hrun := (⟨env, consumer, deliveryId, orderId, actor, .paid lineIds⟩ : SeamCall).run_program s
    simp only [SeamCall.key, SeamVerb.name, SeamCall.body, run_payOrder] at hrun
    cases hfresh : s.seamInbox.accepts ⟨consumer, claimKey "paid" deliveryId orderId⟩ with
    | false =>
      have h : (BackboneEvents.onOrderPaid env consumer deliveryId orderId lineIds actor).run s =
        .ok (alreadyApplied, s) := hrun.trans (if_neg (by simp [hfresh]))
      simp only [apply, execute_ok h]
      refine Effect.audited ?_ _
      exact .unchanged rfl (by simp [named, hfresh]) rfl rfl
    | true =>
      have hnamed : named s (.onOrderPaid env consumer deliveryId orderId lineIds actor) = lineIds := by
        simp [named, hfresh]
      have h : (BackboneEvents.onOrderPaid env consumer deliveryId orderId lineIds actor).run s =
        .ok (_, _) := hrun.trans (if_pos hfresh)
      simp only [apply, execute_ok h]
      refine Effect.audited ?_ _
      exact .latched rfl (by rw [hnamed]; rfl) rfl
  | markBoothsPaid lineIds =>
    have h : (BackboneEvents.markBoothsPaid lineIds).run s = .ok (_, _) := run_latchBooths lineIds s
    simp only [apply, execute_ok h]
    refine Effect.audited ?_ _
    exact .latched rfl rfl rfl

theorem confirmedOn_iff {boothId : Uuid} : confirmedOn s lines boothId = true ↔
    ∃ k ∈ s.boothBookings.rows, confirmedOf boothId k = true ∧
      k.saleOrderLineId.any (lines.contains ·) = true := by
  simp [confirmedOn]

theorem confirmedOn_append {more : List Uuid} {boothId : Uuid} :
    confirmedOn s (lines ++ more) boothId = true ↔
      confirmedOn s lines boothId = true ∨ confirmedOn s more boothId = true := by
  have hany : ∀ line : Option Uuid, line.any ((lines ++ more).contains ·) = true ↔
      line.any (lines.contains ·) = true ∨ line.any (more.contains ·) = true := by
    intro line
    cases line <;> simp
  simp only [confirmedOn_iff, hany, ← exists_or, ← and_or_left]

@[simp] theorem confirmedOn_nil {boothId : Uuid} : confirmedOn s [] boothId = false := by
  refine Bool.eq_false_iff.mpr fun h => ?_
  obtain ⟨k, -, -, hline⟩ := confirmedOn_iff.mp h
  cases hk : k.saleOrderLineId <;> simp [hk] at hline

@[simp] theorem copyOn_nil {b : Booth} : copyOn [] b = false := by
  cases hb : b.saleOrderLineId <;> simp [copyOn, hb]

variable {c : BoothCall} {t : Db}

theorem BoothCall.named_of_confirms {p : BoothBooking × Booth} (h : c.confirms s = some p) :
    c.named s = [] := by
  cases c with
  | confirmBooking bookingId actor => rfl
  | createBooking | releaseBooth | onOrderPaid | markBoothsPaid => cases h

/-- Every booth stays, and the paid ones afterwards are the old ones and those whose copy is
on a named line. -/
theorem BoothCall.Effect.booths_map (h : c.Effect s t) : ∃ g : Booth → Booth,
    t.booths.rows = s.booths.rows.map g ∧
      ∀ b, (g b).id = b.id ∧ (g b).isPaid = (b.isPaid || copyOn (c.named s) b) := by
  cases h with
  | unchanged confirms named booths bookings =>
    exact ⟨id, by simp [booths], fun b => ⟨rfl, by simp [named]⟩⟩
  | created row confirms named pending accepts booths bookings =>
    exact ⟨id, by simp [booths], fun b => ⟨rfl, by simp [named]⟩⟩
  | confirmed k b confirms named found booths bookings =>
    refine ⟨_, by rw [booths, Table.rows_modify], fun b => ?_⟩
    split <;> simp [named, Booth.filled]
  | released boothId confirms named booths bookings =>
    refine ⟨_, by rw [booths, Table.rows_modify], fun b => ?_⟩
    split <;> simp [named, Booth.reopened]
  | latched confirms booths bookings =>
    refine ⟨_, by rw [booths, Table.rows_modify], fun b => ?_⟩
    split
    · next hlatch =>
      have hcopy : copyOn (c.named s) b = true := (Bool.and_eq_true_iff.mp hlatch).1
      exact ⟨rfl, by simp [Booth.paid, hcopy]⟩
    · next hlatch =>
      refine ⟨rfl, ?_⟩
      cases hpaid : b.isPaid <;> simp_all [latches, copyOn]

/-- A confirmed booking afterwards was one before, or is the one the call confirms. -/
theorem BoothCall.Effect.confirmedOn_of (h : c.Effect s t) {boothId : Uuid}
    (hon : confirmedOn t lines boothId = true) : confirmedOn s lines boothId = true ∨
      ∃ p, c.confirms s = some p ∧ p.1.eventBoothId = boothId ∧
        p.1.saleOrderLineId.any (lines.contains ·) = true := by
  obtain ⟨x, hx, hof, hline⟩ := confirmedOn_iff.mp hon
  cases h with
  | unchanged confirms named booths bookings =>
    exact .inl (confirmedOn_iff.mpr ⟨x, bookings ▸ hx, hof, hline⟩)
  | latched confirms booths bookings =>
    exact .inl (confirmedOn_iff.mpr ⟨x, bookings ▸ hx, hof, hline⟩)
  | created row confirms named pending accepts booths bookings =>
    rw [bookings, Table.rows_push accepts, List.mem_append, List.mem_singleton] at hx
    rcases hx with hx | rfl
    · exact .inl (confirmedOn_iff.mpr ⟨x, hx, hof, hline⟩)
    · simp [confirmedOf, pending] at hof
  | released id confirms named booths bookings =>
    rw [bookings, Table.rows_remove] at hx
    exact .inl (confirmedOn_iff.mpr ⟨x, List.mem_of_mem_filter hx, hof, hline⟩)
  | confirmed k b confirms named found booths bookings =>
    rw [bookings] at hx
    obtain ⟨y, hy, rfl⟩ := Table.mem_modify.mp hx
    by_cases hpending : pendingRow k.id y = true
    · rw [if_pos hpending] at hof hline
      simp only [pendingRow, Bool.and_eq_true, beq_iff_eq] at hpending
      have hk := (booking?_mem (pair_eq_some.mp (confirmable_eq_some.mp found).1).1).1
      obtain rfl : y = k := Table.eq_of_clash hy hk (by simp [clash, hpending.1])
      refine .inr ⟨_, confirms, ?_, hline⟩
      simpa [confirmedOf, ofBooth, BoothBooking.flipped] using hof
    · rw [if_neg hpending] at hof hline
      exact .inl (confirmedOn_iff.mpr ⟨y, hy, hof, hline⟩)

/-- The booking the call confirms is confirmed afterwards. -/
theorem BoothCall.Effect.confirmedOn_new (h : c.Effect s t) {p : BoothBooking × Booth}
    (hp : c.confirms s = some p) (hline : p.1.saleOrderLineId.any (lines.contains ·) = true) :
    confirmedOn t lines p.1.eventBoothId = true := by
  cases h with
  | unchanged confirms | created row confirms | released boothId confirms | latched confirms =>
    rw [hp] at confirms
    cases confirms
  | confirmed k b confirms named found booths bookings =>
    obtain rfl : p = (k, b) := Option.some.inj (hp.symm.trans confirms)
    obtain ⟨hpair, -, hstatus, -⟩ := confirmable_eq_some.mp found
    have hk := (booking?_mem (pair_eq_some.mp hpair).1).1
    have hpending : pendingRow k.id k = true := by simp [pendingRow, hstatus]
    refine confirmedOn_iff.mpr ⟨BoothBooking.flipped k, ?_, ?_, hline⟩
    · rw [bookings]
      exact Table.mem_modify.mpr ⟨k, hk, if_pos hpending⟩
    · simp [confirmedOf, ofBooth, BoothBooking.flipped]

/-- A call that names lines leaves the confirmed bookings alone. -/
theorem BoothCall.Effect.confirmedOn_named (h : c.Effect s t) {boothId : Uuid}
    (hon : confirmedOn s (c.named s) boothId = true) :
    confirmedOn t (c.named s) boothId = true := by
  cases h with
  | unchanged confirms named | created row confirms named | confirmed k b confirms named
  | released id confirms named => simp [named] at hon
  | latched confirms booths bookings =>
    rw [confirmedOn_iff] at hon ⊢
    rwa [bookings]

end effect

section law

variable {s : Db} {w : Ledger} {c : BoothCall} {calls : List BoothCall}

theorem latchesConfirmed_iff : LatchesConfirmed w c ↔ ∀ b ∈ w.db.booths.rows, b.isPaid = false →
    copyOn (c.named w.db) b = true → confirmedOn w.db (c.named w.db) b.id = true := by
  obtain ⟨g, hrows, hg⟩ := (c.apply_effect w.db).booths_map
  constructor
  · intro h b hb hunpaid hcopy
    have hb' : g b ∈ (c.apply w.db).booths.rows := hrows ▸ List.mem_map_of_mem hb
    exact h b hb (g b) hb' (hg b).1 hunpaid (by simp [(hg b).2, hcopy])
  · intro h b hb b' hb' hid hunpaid hpaid
    have hb' : b' ∈ (c.apply w.db).booths.rows := hb'
    rw [hrows] at hb'
    obtain ⟨x, hx, rfl⟩ := List.mem_map.mp hb'
    obtain rfl : x = b := Table.eq_of_clash hx hb (by simpa [clash, (hg x).1] using hid)
    exact h x hx hunpaid (by simpa [(hg x).2, hunpaid] using hpaid)

theorem keepsPaid_next : KeepsPaid w (w.next c) := by
  obtain ⟨g, hrows, hg⟩ := (c.apply_effect w.db).booths_map
  intro b hb hpaid
  refine ⟨g b, ?_, (hg b).1, by simp [(hg b).2, hpaid]⟩
  have hmem : g b ∈ (c.apply w.db).booths.rows := hrows ▸ List.mem_map_of_mem hb
  exact hmem

/-- What keeps the first law over one call. -/
theorem followsLine_next (h : FollowsLine w) : FollowsLine (w.next c) ↔
    (∀ p ∈ c.confirms w.db, p.1.saleOrderLineId.any (w.paid.contains ·) = true →
      p.2.isPaid = true) ∧
    ∀ b ∈ w.db.booths.rows, b.isPaid = false →
      confirmedOn w.db (c.named w.db) b.id = true → copyOn (c.named w.db) b = true := by
  have heffect := c.apply_effect w.db
  obtain ⟨g, hrows, hg⟩ := heffect.booths_map
  constructor
  · intro hnext
    have hpaid : ∀ b ∈ w.db.booths.rows,
        confirmedOn (c.apply w.db) (w.paid ++ c.named w.db) b.id = true →
        (b.isPaid || copyOn (c.named w.db) b) = true := fun b hb hon => by
      rw [← (hg b).2]
      have hmem : g b ∈ (c.apply w.db).booths.rows := hrows ▸ List.mem_map_of_mem hb
      exact hnext (g b) hmem ((hg b).1 ▸ hon)
    refine ⟨fun p hp hline => ?_, fun b hb hunpaid hon => ?_⟩
    · have hnamed := BoothCall.named_of_confirms hp
      obtain ⟨hbooth, hid⟩ : p.2 ∈ w.db.booths.rows ∧ p.2.id = p.1.eventBoothId := by
        cases c with
        | confirmBooking bookingId actor =>
          exact booth?_mem (pair_eq_some.mp (confirmable_eq_some.mp hp).1).2
        | createBooking | releaseBooth | onOrderPaid | markBoothsPaid => cases hp
      have hon := heffect.confirmedOn_new hp hline
      simpa [hnamed] using hpaid p.2 hbooth (hid ▸ confirmedOn_append.mpr (.inl hon))
    · simpa [hunpaid] using
        hpaid b hb (confirmedOn_append.mpr (.inr (heffect.confirmedOn_named hon)))
  · rintro ⟨hconfirm, hcopy⟩ b' hb' hon
    have hb' : b' ∈ (c.apply w.db).booths.rows := hb'
    rw [hrows] at hb'
    obtain ⟨b, hb, rfl⟩ := List.mem_map.mp hb'
    rw [(hg b).2]
    have hon : confirmedOn (c.apply w.db) (w.paid ++ c.named w.db) b.id = true := (hg b).1 ▸ hon
    cases hunpaid : b.isPaid with
    | true => rfl
    | false =>
      rcases heffect.confirmedOn_of hon with hold | ⟨p, hp, hid, hline⟩
      · rcases confirmedOn_append.mp hold with hpaid | hnamed
        · rw [h b hb hpaid] at hunpaid
          cases hunpaid
        · exact hcopy b hb hunpaid hnamed
      · rw [BoothCall.named_of_confirms hp, List.append_nil] at hline
        cases c with
        | confirmBooking bookingId actor =>
          have hfound := booth?_mem (pair_eq_some.mp (confirmable_eq_some.mp hp).1).2
          obtain rfl : p.2 = b := Table.eq_of_clash hfound.1 hb (by simp [clash, hfound.2, hid])
          rw [hconfirm p hp hline] at hunpaid
          cases hunpaid
        | createBooking | releaseBooth | onOrderPaid | markBoothsPaid => cases hp

/-- The latch follows the paid line over a run just when no unpaid booth is confirmed on a
line already paid and every paid fact names the copy of an unpaid booth with its line. -/
theorem paidLatch_iff_copyInStep (s : Db) (calls : List BoothCall) :
    PaidLatch s calls ↔ Along Ledger.next CopyInStep ⟨s, []⟩ calls := by
  have hstart : FollowsLine ⟨s, []⟩ := fun b _ hon => by simp at hon
  have hkeeps : Steadily Ledger.next KeepsPaid ⟨s, []⟩ calls :=
    steadily_of_step (fun w b hb hpaid => ⟨b, hb, rfl, hpaid⟩)
      (fun w w' w'' h h' b hb hpaid => by
        obtain ⟨b', hb', hid, hpaid'⟩ := h b hb hpaid
        obtain ⟨b'', hb'', hid', hpaid''⟩ := h' b' hb' hpaid'
        exact ⟨b'', hb'', hid'.trans hid, hpaid''⟩)
      fun w c => keepsPaid_next
  rw [PaidLatch, throughout_iff_along hstart fun w c h => followsLine_next h,
    along_congr fun w c => latchesConfirmed_iff, ← and_assoc, and_iff_left hkeeps, ← along_and]
  refine along_congr fun w c => ?_
  constructor
  · rintro ⟨⟨hconfirm, hcopy⟩, hlatch⟩
    refine ⟨hconfirm, fun b hb hunpaid => ?_⟩
    exact Bool.eq_iff_iff.mpr ⟨hlatch b hb hunpaid, hcopy b hb hunpaid⟩
  · rintro ⟨hconfirm, hsame⟩
    refine ⟨⟨hconfirm, fun b hb hunpaid hon => ?_⟩, fun b hb hunpaid hcopy => ?_⟩
    · rw [hsame b hb hunpaid, hon]
    · rw [← hsame b hb hunpaid, hcopy]

/-- Booth 1 of event 1, free and unpaid. -/
def freeBooth : Db := { Db.empty with
  booths := Table.empty.push ⟨1, 1, .available, none, none, none, none, none, false⟩ }

/-- Booked and confirmed on line 5, released, re-booked and confirmed on line 6, then paid. -/
def rebooked : List BoothCall :=
  [.createBooking 10 1 (some 5) none none none none none, .confirmBooking 10 none,
    .releaseBooth 1 none, .createBooking 11 1 (some 6) none none none none none,
    .confirmBooking 11 none, .markBoothsPaid [6]]

/-- Line 6 is paid and the booth confirmed on it is not. -/
theorem rebooked_unpaid : ¬ PaidLatch freeBooth rebooked := by
  rintro ⟨hfollows, -, -⟩
  have hbooth : (⟨1, 1, .unavailable, none, none, none, none, some 5, false⟩ : Booth) ∈
      (rebooked.foldl Ledger.next ⟨freeBooth, []⟩).db.booths.rows := by decide
  have hpaid := hfollows.last _ hbooth (by decide)
  cases hpaid

end law
end BackboneEvents
