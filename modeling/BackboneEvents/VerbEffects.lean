import BackboneEvents.SaleSeamRepository

/-!
# What one verb does to the database

For each verb run alone in its transaction: when it succeeds, and the database it
leaves. Everything proved about runs of verbs goes through these statements.
-/
namespace BackboneEvents
open ConstrainedTables TransactionPrograms

section register

/-- The slot a registration of the event is booked in. -/
def slotAdmission (s : Db) (event : Event) (cmd : RegisterCommand) :
    Except EventError (Option Uuid) :=
  if event.isMultiSlots then
    match cmd.eventSlotId with
    | none => .error (.eventSlotRequired cmd.eventId)
    | some slot =>
      if (s.slotOf slot cmd.eventId).isNone then .error (.eventSlotNotOfEvent slot)
      else .ok (some slot)
  else .ok cmd.eventSlotId

def ticketAdmission (s : Db) (draw : Draw) (cmd : RegisterCommand) : Except EventError Unit :=
  match cmd.eventTicketId with
  | none => .ok ()
  | some ticket =>
    match s.ticketOf ticket cmd.eventId with
    | none => .error (.eventTicketNotOfEvent ticket)
    | some t => if t.shut draw.utcNow then .error (.eventSaleWindowClosed ticket) else .ok ()

/-- The command passes every check before the count. -/
structure Admitted (s : Db) (draw : Draw) (cmd : RegisterCommand) (event : Event)
    (slotId : Option Uuid) : Prop where
  found : s.event? cmd.eventId = some event
  notCancelled : event.kanbanState ≠ .cancel
  slot : slotAdmission s event cmd = .ok slotId
  ticket : ticketAdmission s draw cmd = .ok ()

/-- The database after the register head, given the row it stages. -/
def Db.registered (s : Db) (env : Env) (cmd : RegisterCommand) (sale : Bool)
    (row : Registration) : Db :=
  { s with
    registrations := s.registrations.push row
    mails := if row.state == .open then
      s.mails.modify (afterSubOf (· == cmd.eventId)) (Mail.armed env.now) else s.mails
    leadRequests :=
      if !cmd.leadRuleSkip && s.fires cmd.eventId (fun lr => lr.onCreate || lr.onConfirm) then
        armRequest env.requestId cmd.eventId s.leadRequests else s.leadRequests
    auditTrails := s.auditTrails ++ [auditRow "registration_created" cmd.actor "registration"
      (some row.id) (.registrationCreated cmd.eventId cmd.email row.state sale)] }

@[simp] theorem run_lockEvent (eventId : Uuid) (s : Db) :
    (lockEvent eventId).run s =
      match s.event? eventId with
      | some event => .ok (event, s)
      | none => .error .eventNotFound := by
  cases h : s.event? eventId <;>
    simp [lockEvent, Program.run_bind, Except.bind, h]

@[simp] theorem run_lockSlot (event : Event) (cmd : RegisterCommand) (s : Db) :
    (lockSlot event cmd).run s = (slotAdmission s event cmd).map (fun slotId => (slotId, s)) := by
  cases hm : event.isMultiSlots with
  | false => simp [lockSlot, slotAdmission, hm, Except.map]
  | true =>
    cases hc : cmd.eventSlotId with
    | none =>
      simp [lockSlot, slotAdmission, hm, hc, Program.run_bind, Except.map, Except.bind]
    | some slot =>
      cases hb : s.slotOf slot cmd.eventId <;>
        simp [lockSlot, slotAdmission, hm, hc, hb, Program.run_bind, Program.run_refuseWhen,
          Except.map, Except.bind]

@[simp] theorem run_ticketWindow (draw : Draw) (cmd : RegisterCommand) (s : Db) :
    (ticketWindow draw cmd).run s = (ticketAdmission s draw cmd).map (fun u => (u, s)) := by
  cases ht : cmd.eventTicketId with
  | none => simp [ticketWindow, ticketAdmission, ht, Except.map]
  | some ticket =>
    cases hw : s.ticketOf ticket cmd.eventId with
    | none =>
      simp [ticketWindow, ticketAdmission, ht, hw, Program.run_bind, Except.map, Except.bind]
    | some t =>
      cases hs : t.shut draw.utcNow <;>
        simp [ticketWindow, ticketAdmission, ht, hw, hs, Program.run_bind,
          Program.run_refuseWhen, Except.map, Except.bind]

@[simp] theorem run_insertRegistration (env : Env) (r : Registration) (s : Db) :
    (insertRegistration env r).run s =
      if insertable s env r then .ok ((), { s with registrations := s.registrations.push r })
      else .error (.database "registrations: constraint violated") := by
  cases h : insertable s env r <;> simp [insertRegistration, h]

@[simp] theorem run_armAfterSub (env : Env) (events : Db → Uuid → Bool) (s : Db) :
    (armAfterSub env events).run s = .ok ((), { s with
      mails := s.mails.modify (afterSubOf (events s)) (Mail.armed env.now) }) := by
  simp [armAfterSub]

@[simp] theorem run_armLeadRequest (env : Env) (eventId : Uuid) (trigger : LeadRule → Bool)
    (s : Db) :
    (armLeadRequest env eventId trigger).run s = .ok ((), { s with
      leadRequests := if s.fires eventId trigger then
        armRequest env.requestId eventId s.leadRequests else s.leadRequests }) := by
  cases h : s.fires eventId trigger <;> simp [armLeadRequest, h]

@[simp] theorem run_recordAudit (row : AuditRow) (s : Db) :
    (recordAudit row).run s = .ok ((), { s with auditTrails := s.auditTrails ++ [row] }) := rfl

variable {env : Env} {draw : Draw} {cmd : RegisterCommand} {link : Option SaleLink} {s : Db}

/-- The head after its checks: the count, then the staged row and its arms. -/
theorem run_registerCore_of_admitted {event : Event} {slotId : Option Uuid}
    (h : Admitted s draw cmd event slotId) :
    (registerCore env draw cmd link).run s =
      if event.exhausted (s.taken cmd.eventId slotId) then
        .error (.eventSeatsExhausted cmd.eventId)
      else if insertable s env (bornRow env draw cmd link event slotId s.orgAxis) then
        .ok (bornRow env draw cmd link event slotId s.orgAxis,
          s.registered env cmd link.isSome (bornRow env draw cmd link event slotId s.orgAxis))
      else .error (.database "registrations: constraint violated") := by
  have hk : (event.kanbanState == KanbanState.cancel) = false := by simpa using h.notCancelled
  cases he : event.exhausted (s.taken cmd.eventId slotId) with
  | true =>
    simp [registerCore, Program.run_bind, Except.bind, Except.map, Program.run_refuseWhen,
      h.found, hk, h.slot, h.ticket, he]
  | false =>
    generalize hrow : bornRow env draw cmd link event slotId s.orgAxis = row
    cases hi : insertable s env row with
    | false =>
      simp [registerCore, Program.run_bind, Except.bind, Except.map, Program.run_refuseWhen,
        h.found, hk, h.slot, h.ticket, he, hrow, hi]
    | true =>
      cases hs : (row.state == RegistrationState.open) <;> cases hl : cmd.leadRuleSkip <;>
        simp [registerCore, Program.run_bind, Except.bind, Except.map, Program.run_refuseWhen,
          Program.run_onlyIf, h.found, hk, h.slot, h.ticket, he, hrow, hi, hs, hl,
          Db.registered, Db.fires]

/-- A register head that succeeds has passed its checks and its count. -/
theorem run_registerCore_ok {row : Registration} {t : Db}
    (h : (registerCore env draw cmd link).run s = .ok (row, t)) :
    ∃ event slotId, Admitted s draw cmd event slotId ∧
      event.exhausted (s.taken cmd.eventId slotId) = false ∧
      row = bornRow env draw cmd link event slotId s.orgAxis ∧
      insertable s env row = true ∧ t = s.registered env cmd link.isSome row := by
  have hadm : ∃ event slotId, Admitted s draw cmd event slotId := by
    obtain ⟨event, s₁, he, h⟩ := Program.run_bind_ok h
    rw [run_lockEvent] at he
    cases hf : s.event? cmd.eventId with
    | none => simp [hf] at he
    | some ev =>
      obtain ⟨rfl, rfl⟩ : ev = event ∧ s = s₁ := by simpa [hf] using he
      obtain ⟨_, s₂, hk, h⟩ := Program.run_bind_ok h
      rw [Program.run_refuseWhen] at hk
      split at hk
      · cases hk
      · next hk' =>
        cases hk
        obtain ⟨slotId, s₃, hs, h⟩ := Program.run_bind_ok h
        rw [run_lockSlot] at hs
        cases hsl : slotAdmission s ev cmd with
        | error e => simp [hsl, Except.map] at hs
        | ok slot =>
          obtain ⟨rfl, rfl⟩ : slot = slotId ∧ s = s₃ := by simpa [hsl, Except.map] using hs
          obtain ⟨_, s₄, ht, -⟩ := Program.run_bind_ok h
          rw [run_ticketWindow] at ht
          cases htk : ticketAdmission s draw cmd with
          | error e => simp [htk, Except.map] at ht
          | ok u => exact ⟨ev, slot, hf, by simpa using hk', hsl, htk⟩
  obtain ⟨event, slotId, hadm⟩ := hadm
  refine ⟨event, slotId, hadm, ?_⟩
  rw [run_registerCore_of_admitted hadm] at h
  split at h
  · cases h
  · next he =>
    split at h
    · next hi =>
      obtain ⟨rfl, rfl⟩ := Prod.mk.inj (Except.ok.inj h)
      exact ⟨by simpa using he, rfl, hi, rfl⟩
    · cases h

end register

section mint

/-- The specs of a mint, each through the register head on what the ones before left. -/
inductive Minted (env : Env) (link : SaleLink) : ℕ → List RegisterCommand → Db → Db → Prop
  | nil (k : ℕ) (s : Db) : Minted env link k [] s s
  | cons {k : ℕ} {spec : RegisterCommand} {specs : List RegisterCommand} {s s' t : Db}
      {row : Registration}
      (head : (registerCore env (env.draw k) spec (some link)).run s = .ok (row, s'))
      (tail : Minted env link (k + 1) specs s' t) : Minted env link k (spec :: specs) s t

theorem run_mint_ok {env : Env} {link : SaleLink} {specs : List RegisterCommand} {k n : ℕ}
    {s t : Db} (h : (mint env link k specs).run s = .ok (n, t)) :
    n = k + specs.length ∧ Minted env link k specs s t := by
  induction specs generalizing k s with
  | nil =>
    obtain ⟨rfl, rfl⟩ := Prod.mk.inj (Except.ok.inj h)
    exact ⟨rfl, .nil k s⟩
  | cons spec specs ih =>
    obtain ⟨row, s', hhead, h⟩ := Program.run_bind_ok h
    obtain ⟨hn, htail⟩ := ih h
    exact ⟨by simp only [List.length_cons]; omega, .cons hhead htail⟩

theorem Minted.run {env : Env} {link : SaleLink} {specs : List RegisterCommand} {k : ℕ}
    {s t : Db} (h : Minted env link k specs s t) :
    (mint env link k specs).run s = .ok (k + specs.length, t) := by
  induction h with
  | nil k s => rfl
  | @cons k spec specs s s' t row head tail ih =>
    simp only [mint, Program.bind_eq, Program.run_bind, head, Except.bind, ih, List.length_cons]
    congr 2
    omega

/-- A part of the database that no register head writes is as the mint found it. -/
theorem Minted.keeps {γ : Type} {env : Env} {link : SaleLink} {specs : List RegisterCommand}
    {k : ℕ} {s t : Db} (h : Minted env link k specs s t) (part : Db → γ)
    (hpart : ∀ u cmd row, part (u.registered env cmd true row) = part u) : part t = part s := by
  induction h with
  | nil k s => rfl
  | cons head tail ih =>
    obtain ⟨event, slotId, -, -, -, -, rfl⟩ := run_registerCore_ok head
    exact ih.trans (hpart _ _ _)

end mint

section transition

section moved

variable (now : Timestamp) (target : RegistrationState) (r : Registration)

@[simp] theorem moved_id : (Registration.moved now target r).id = r.id := rfl

@[simp] theorem moved_eventId : (Registration.moved now target r).eventId = r.eventId := rfl

@[simp] theorem moved_eventSlotId :
    (Registration.moved now target r).eventSlotId = r.eventSlotId := rfl

@[simp] theorem moved_eventTicketId :
    (Registration.moved now target r).eventTicketId = r.eventTicketId := rfl

@[simp] theorem moved_state : (Registration.moved now target r).state = target := rfl

@[simp] theorem moved_active : (Registration.moved now target r).active = r.active := rfl

@[simp] theorem moved_saleStatus :
    (Registration.moved now target r).saleStatus = r.saleStatus := rfl

end moved

/-- The state verb's own update. -/
def Db.moved (s : Db) (now : Timestamp) (registrationId : Uuid) (target : RegistrationState) : Db :=
  { s with registrations :=
      s.registrations.modify (·.id == registrationId) (Registration.moved now target) }

theorem run_moveState (env : Env) (registrationId : Uuid) (target : RegistrationState) (s : Db) :
    (moveState env registrationId target).run s =
      .ok (s.registration? registrationId, s.moved env.now registrationId target) := by
  simp [moveState, Db.moved]

theorem countingScope_outside {r : Registration} (h : r.outside = true) (eventId : Uuid)
    (slotId : Option Uuid) : countingScope eventId slotId r = false := by
  cases slotId <;> simp [countingScope, Registration.eligible_of_outside h]

theorem registration?_mem {s : Db} {registrationId : Uuid} {r : Registration}
    (h : s.registration? registrationId = some r) :
    r ∈ s.registrations.rows ∧ r.id = registrationId :=
  ⟨Table.find_mem h, by simpa using Table.find_spec h⟩

theorem registration_eq_of_id {s : Db} {a b : Registration} (ha : a ∈ s.registrations.rows)
    (hb : b ∈ s.registrations.rows) (h : a.id = b.id) : a = b :=
  Table.eq_of_clash ha hb (by simp [clash, h])

theorem registration?_eq_some {s : Db} {r : Registration} (h : r ∈ s.registrations.rows) :
    s.registration? r.id = some r :=
  Table.find_eq_some h (by simp) (fun x hx => by simp only [beq_iff_eq] at hx; simp [clash, hx])

theorem registration?_modify {s : Db} {r : Registration} {f : Update Registration} (id : Uuid)
    (hr : r ∈ s.registrations.rows) (hf : ∀ x, (f x).id = x.id) :
    ({ s with registrations := s.registrations.modify (·.id == r.id) f } : Db).registration? id =
      if id = r.id then some (f r) else s.registration? id := by
  rw [Db.registration?, Table.find_modify fun x => by rw [hf]]
  split
  · next heq =>
    subst heq
    have hfound := registration?_eq_some hr
    rw [Db.registration?] at hfound
    rw [hfound]
    simp
  · next hne =>
    rw [Db.registration?]
    cases hfind : s.registrations.find (·.id == id) with
    | none => rfl
    | some x =>
      have heq : x.id = id := by simpa using Table.find_spec hfind
      simp [heq, hne]

theorem registration?_moved {s : Db} {registrationId : Uuid} {r : Registration}
    (h : s.registration? registrationId = some r) (now : Timestamp)
    (target : RegistrationState) :
    (s.moved now registrationId target).registration? registrationId =
      some (Registration.moved now target r) := by
  have hid := (registration?_mem h).2
  rw [Db.registration?, Db.moved, Table.find_modify (fun _ => rfl)]
  simp only [Db.registration?] at h
  simp [h, hid]

/-- The seat head counts what the register head would count for the row it admits. -/
theorem takenWithout_moved {s : Db} {r : Registration} (h : s.registration? r.id = some r)
    (hout : r.outside = true) (now : Timestamp) (target : RegistrationState) (eventId : Uuid)
    (slotId : Option Uuid) :
    (s.moved now r.id target).takenWithout r.id eventId slotId = s.taken eventId slotId := by
  have hr := (registration?_mem h).1
  rw [Db.takenWithout, Db.moved, Table.count_modify_of_eq, Db.taken]
  · refine List.countP_congr fun x hx => ?_
    by_cases hid : x.id = r.id
    · obtain rfl := registration_eq_of_id hx hr hid
      simp [countingScope_outside hout]
    · simp [hid]
  · intro x _ hx
    simp only [beq_iff_eq] at hx
    simp [Registration.moved, hx]

/-- The database after a state verb on the row `r`. -/
def Db.transitioned (s : Db) (env : Env) (r : Registration) (target : RegistrationState)
    (actor : Option Uuid) : Db :=
  { s with
    registrations := s.registrations.modify (·.id == r.id) (Registration.moved env.now target)
    mails := if r.active && target == .open && r.outside then
      s.mails.modify (afterSubOf (r.eventId == ·)) (Mail.armed env.now) else s.mails
    leadRequests := if r.active && (target == .open || target == .done) && r.state != target &&
        s.fires r.eventId (fun lr => if target == .done then lr.onDone else lr.onConfirm) then
      armRequest env.requestId r.eventId s.leadRequests else s.leadRequests
    auditTrails := if r.state != target then
      s.auditTrails ++ [auditRow "registration_state_changed" actor "registration" (some r.id)
        (.stateChanged r.state target)] else s.auditTrails }

theorem run_transition_none (env : Env) {registrationId : Uuid} (target : RegistrationState)
    (actor : Option Uuid) {s : Db} (h : s.registration? registrationId = none) :
    (transition env registrationId target actor).run s = .error .registrationNotFound := by
  simp [transition, Program.run_bind, Except.bind, run_moveState, h]

theorem run_settleMove {env : Env} {r : Registration} {target : RegistrationState}
    {actor : Option Uuid} {s : Db} (h : s.registration? r.id = some r) :
    (settleMove env r target actor).run (s.moved env.now r.id target) =
      .ok ((), s.transitioned env r target actor) := by
  have hfound := registration?_moved h env.now target
  have hfires : ∀ t : Db, t.leadRules = s.leadRules → ∀ e g, t.fires e g = s.fires e g :=
    fun t ht e g => by simp only [Db.fires, ht]
  simp only [settleMove, Db.transitioned]
  generalize (r.active && target == .open && r.outside) = opens
  generalize (r.active && (target == .open || target == .done) && r.state != target) = enters
  generalize (r.state != target) = changes
  simp only [Db.moved] at hfound ⊢
  cases opens <;> cases enters <;> cases changes <;>
    simp [Program.run_bind, Except.bind, Program.run_onlyIf, hfound, hfires]

/-- A state verb on a stored row: the seat head where it takes a seat, then its effect. -/
theorem run_transition_some (env : Env) {r : Registration} (target : RegistrationState)
    (actor : Option Uuid) {s : Db} (h : s.registration? r.id = some r) :
    (transition env r.id target actor).run s =
      if takesSeat r target then
        match s.event? r.eventId with
        | none => .error .eventNotFound
        | some event =>
          if event.exhausted (s.taken r.eventId r.eventSlotId) then
            .error (.eventSeatsExhausted r.eventId)
          else .ok ((r.state, target, r.active), s.transitioned env r target actor)
      else .ok ((r.state, target, r.active), s.transitioned env r target actor) := by
  have hfound := registration?_moved h env.now target
  have hevent : (s.moved env.now r.id target).event? r.eventId = s.event? r.eventId := rfl
  have hsettle : (settleMove env r target actor).run (s.moved env.now r.id target) =
      .ok ((), s.transitioned env r target actor) := run_settleMove h
  cases ht : takesSeat r target with
  | false =>
    simp [transition, Program.run_bind, Except.bind, run_moveState, h, Program.run_onlyIf, ht,
      hsettle]
  | true =>
    have hout : r.outside = true := by
      simp only [takesSeat, Bool.and_eq_true] at ht
      exact ht.2
    have hcount := takenWithout_moved h hout env.now target r.eventId r.eventSlotId
    cases he : s.event? r.eventId with
    | none =>
      simp [transition, seatHead, Program.run_bind, Except.bind, run_moveState, h,
        Program.run_onlyIf, ht, hfound, Registration.moved, hevent, he]
    | some event =>
      cases hx : event.exhausted (s.taken r.eventId r.eventSlotId) <;>
        simp [transition, seatHead, Program.run_bind, Except.bind, run_moveState, h,
          Program.run_onlyIf, ht, hfound, Registration.moved, hevent, he, hcount,
          Program.run_refuseWhen, hx, hsettle]

end transition

section seam

/-- The claimed delivery in the inbox. -/
def Db.claimed (s : Db) (consumer externalId : String) : Db :=
  { s with seamInbox := s.seamInbox.push ⟨consumer, externalId⟩ }

theorem run_claim (consumer externalId : String) (s : Db) :
    (claim consumer externalId).run s = .ok (s.seamInbox.accepts ⟨consumer, externalId⟩,
      s.claimed consumer externalId) := rfl

@[simp] theorem run_updateRegistrations (p : Registration → Bool) (f : Update Registration)
    (s : Db) :
    (updateRegistrations p f).run s =
      .ok (s.registrations.count p, { s with registrations := s.registrations.modify p f }) := by
  simp [updateRegistrations]

@[simp] theorem run_latchBooths (lineIds : List Uuid) (s : Db) :
    (latchBooths lineIds).run s = .ok (s.booths.count (latches lineIds),
      { s with booths := s.booths.modify (latches lineIds) Booth.paid }) := by
  cases lineIds with
  | nil =>
    have hnone : ∀ b ∈ s.booths.rows, latches [] b = false := fun b _ => by
      cases hb : b.saleOrderLineId <;> simp [latches, hb]
    have hcount : s.booths.count (latches []) = 0 :=
      List.countP_eq_zero.mpr fun b hb => by simp [hnone b hb]
    simp [latchBooths, hcount, Table.modify_eq_self hnone]
  | cons l ls => simp [latchBooths]

/-- The free heal: draft and cancelled rows lift, every linked event is armed. -/
def Db.freeHealed (s : Db) (env : Env) (orderId : Uuid) : Db :=
  { s with
    registrations := s.registrations.modify (freeHeals orderId) Registration.freeHealed
    mails := s.mails.modify (afterSubOf (s.linkedEvent orderId)) (Mail.armed env.now) }

/-- The paid branch of a re-confirm: the mirrors of every active row. -/
def Db.heldBack (s : Db) (orderId : Uuid) : Db :=
  { s with registrations := s.registrations.modify (activeOfOrder orderId) Registration.held }

def Db.orderCancelled (s : Db) (orderId : Uuid) : Db :=
  { s with
    registrations := s.registrations.modify (activeOfOrder orderId) Registration.orderCancelled }

def Db.paid (s : Db) (env : Env) (orderId : Uuid) (lineIds : List Uuid) : Db :=
  { s with
    registrations := (s.registrations.modify (paidHeals orderId) Registration.paidHealed).modify
      (paidSells orderId) Registration.sold
    mails := s.mails.modify (afterSubOf (s.linkedEvent orderId)) (Mail.armed env.now)
    booths := s.booths.modify (latches lineIds) Booth.paid }

/-- Neither the order nor the event of a row is ever updated. -/
theorem linkedEvent_modify {s : Db} {p : Registration → Bool} {f : Update Registration}
    (horder : ∀ r, (f r).saleOrderId = r.saleOrderId) (hevent : ∀ r, (f r).eventId = r.eventId)
    (orderId : Uuid) :
    Db.linkedEvent { s with registrations := s.registrations.modify p f } orderId =
      s.linkedEvent orderId := by
  funext e
  simp only [Db.linkedEvent, Table.rows_modify, List.any_map]
  congr 1
  funext r
  by_cases hp : p r = true <;> simp [hp, Registration.ofOrder, horder, hevent]

variable {env : Env} {orderId : Uuid} {actor : Option Uuid} {s : Db}

theorem run_cancelOrder : (cancelOrder orderId actor).run s =
    .ok (⟨false, s.registrations.count (activeOfOrder orderId), 0⟩, s.orderCancelled orderId) := by
  simp [cancelOrder, Program.run_bind, Except.bind, Db.orderCancelled]

theorem run_payOrder {lineIds : List Uuid} : (payOrder env orderId lineIds actor).run s =
    .ok (⟨false, s.registrations.count (paidHeals orderId), s.booths.count (latches lineIds)⟩,
      s.paid env orderId lineIds) := by
  have hlinked : Db.linkedEvent { s with
      registrations := (s.registrations.modify (paidHeals orderId) Registration.paidHealed).modify
        (paidSells orderId) Registration.sold } orderId = s.linkedEvent orderId :=
    (linkedEvent_modify (s := { s with
      registrations := s.registrations.modify (paidHeals orderId) Registration.paidHealed })
      (fun _ => rfl) (fun _ => rfl) orderId).trans
      (linkedEvent_modify (fun _ => rfl) (fun _ => rfl) orderId)
  simp [payOrder, Program.run_bind, Except.bind, Db.paid, hlinked]

theorem run_mintOrHeal_linked {free : Bool} {specs : List RegisterCommand}
    (h : s.linked orderId ≠ 0) :
    (mintOrHeal env orderId free specs actor).run s = if free then
      .ok (⟨false, s.registrations.count (freeHeals orderId), 0⟩, s.freeHealed env orderId)
    else .ok (⟨false, s.registrations.count (activeOfOrder orderId), 0⟩, s.heldBack orderId) := by
  have hlinked : Db.linkedEvent { s with
      registrations := s.registrations.modify (freeHeals orderId) Registration.freeHealed }
      orderId = s.linkedEvent orderId :=
    linkedEvent_modify (fun _ => rfl) (fun _ => rfl) orderId
  cases free with
  | true =>
    simp [mintOrHeal, healOrder, Program.run_bind, Except.bind, h, Db.freeHealed, hlinked]
  | false => simp [mintOrHeal, healOrder, Program.run_bind, Except.bind, h, Db.heldBack]

theorem run_mintOrHeal_unlinked {free : Bool} {specs : List RegisterCommand}
    (h : s.linked orderId = 0) :
    (mintOrHeal env orderId free specs actor).run s =
      ((mint env (bornLink orderId free) 0 specs).run s).map
        (fun r => (⟨false, r.1, 0⟩, r.2)) := by
  simp only [mintOrHeal, mintOrder, Program.bind_eq, Program.run_bind, Program.run_select,
    Except.bind, h, beq_self_eq_true, if_true]
  cases (mint env (bornLink orderId free) 0 specs).run s <;> rfl

end seam

end BackboneEvents
