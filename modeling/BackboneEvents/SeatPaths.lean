import BackboneEvents.AuditTruth
import BackboneEvents.SeatCapacity

/-!
# The two seat paths

A state verb that takes a seat counts after it has staged its own change, without the row it
moves. It refuses where the register head would, which counts before it inserts. A verb that
takes no seat runs as it would with any other seat head.
-/
namespace BackboneEvents
open ConstrainedTables TransactionPrograms SeatCapacity

/-- The state verb with another program in the place of its seat head. -/
def transitionWith (head : Uuid → Tx Unit) (env : Env) (registrationId : Uuid)
    (target : RegistrationState) (actor : Option Uuid) :
    Tx (RegistrationState × RegistrationState × Bool) := do
  let found ← moveState env registrationId target
  let before ← Program.require found .registrationNotFound
  Program.onlyIf (takesSeat before target) (head registrationId)
  settleMove env before target actor
  return (before.state, target, before.active)

/-- A multi-slot event takes registrations in a slot of its own. -/
def SlotRules (s : Db) (event : Event) (slotId : Option Uuid) : Prop :=
  event.isMultiSlots = true → ∃ slot, slotId = some slot ∧ (s.slotOf slot event.id).isSome = true

/-- A move of the row into the counting domain is a registration of it. -/
structure SeatedAsRegistered (s : Db) (r : Registration) (move : Call) : Prop where
  refused : ∀ (env : Env) (cmd : RegisterCommand), cmd.eventId = r.eventId →
    cmd.eventSlotId = r.eventSlotId → cmd.eventTicketId = none →
    (move.answer s = .error (.eventSeatsExhausted r.eventId) ↔
      (Call.register env cmd).answer s = .error (.eventSeatsExhausted r.eventId))
  unchanged : ∀ e, move.answer s = .error e → move.apply s = s
  counted : ∀ a, move.answer s = .ok a →
    (move.apply s).taken r.eventId r.eventSlotId = s.taken r.eventId r.eventSlotId + 1

/-- The move succeeds, and whatever stands for the seat head plays no part in it. -/
structure MovedUncounted (s : Db) (env : Env) (r : Registration) (target : RegistrationState)
    (actor : Option Uuid) : Prop where
  answered : (Call.transition env r.id target actor).answer s = .ok (.moved r.state target r.active)
  uncounted : ∀ head, (transition env r.id target actor).execute Db.absorb s =
    (transitionWith head env r.id target actor).execute Db.absorb s

section paths

variable {s : Db} {r : Registration} {event : Event} {target : RegistrationState}

theorem takesSeat_iff : takesSeat r target = true ↔ r.active = true ∧
    (target = .open ∨ target = .done) ∧ (r.state = .draft ∨ r.state = .cancel) := by
  simp [takesSeat, Registration.outside, and_assoc]

theorem slotAdmission_of_rules {cmd : RegisterCommand} (hid : cmd.eventId = event.id)
    (h : SlotRules s event cmd.eventSlotId) : slotAdmission s event cmd = .ok cmd.eventSlotId := by
  cases hmulti : event.isMultiSlots with
  | false => simp [slotAdmission, hmulti]
  | true =>
    obtain ⟨slot, hslot, hbelongs⟩ := h hmulti
    obtain ⟨row, hrow⟩ := Option.isSome_iff_exists.mp hbelongs
    simp [slotAdmission, hmulti, hslot, hid, hrow]

/-- A registration without a ticket that passes the other checks is refused for its seats
exactly when the count has no room. -/
theorem register_refused_iff (env : Env) {cmd : RegisterCommand}
    (hevent : s.event? cmd.eventId = some event) (hlive : event.kanbanState ≠ .cancel)
    (hslot : SlotRules s event cmd.eventSlotId) (hticket : cmd.eventTicketId = none) :
    (Call.register env cmd).answer s = .error (.eventSeatsExhausted cmd.eventId) ↔
      event.exhausted (s.taken cmd.eventId cmd.eventSlotId) = true := by
  have hid : event.id = cmd.eventId := by simpa using Table.find_spec hevent
  have hadm : Admitted s (env.draw 0) cmd event cmd.eventSlotId :=
    ⟨hevent, hlive, slotAdmission_of_rules hid.symm hslot, by simp [ticketAdmission, hticket]⟩
  have hrun := @run_registerCore_of_admitted env (env.draw 0) cmd none s event _ hadm
  simp only [Call.answer, Program.execute, Call.program, register, Program.bind_eq,
    Program.run_bind, hrun]
  cases event.exhausted (s.taken cmd.eventId cmd.eventSlotId) with
  | true => simp [Except.bind]
  | false =>
    cases insertable s env (bornRow env (env.draw 0) cmd none event cmd.eventSlotId s.orgAxis) <;>
      simp [Except.bind]

/-- A move that takes a seat is refused for it exactly when the count has no room. -/
theorem transition_refused_iff (env : Env) (actor : Option Uuid)
    (hr : s.registration? r.id = some r) (hseat : takesSeat r target = true)
    (hevent : s.event? r.eventId = some event) :
    (Call.transition env r.id target actor).answer s = .error (.eventSeatsExhausted r.eventId) ↔
      event.exhausted (s.taken r.eventId r.eventSlotId) = true := by
  have hrun := run_transition_some env target actor hr
  simp only [Call.answer, Program.execute, Call.program, Program.bind_eq, Program.run_bind, hrun,
    hseat, hevent, if_true]
  cases event.exhausted (s.taken r.eventId r.eventSlotId) <;> simp [Except.bind]

theorem taken_of_moved {env : Env} {actor : Option Uuid} {a : Answer}
    (hr : s.registration? r.id = some r) (hseat : takesSeat r target = true)
    (h : (Call.transition env r.id target actor).answer s = .ok a) :
    ((Call.transition env r.id target actor).apply s).taken r.eventId r.eventSlotId =
      s.taken r.eventId r.eventSlotId + 1 := by
  obtain ⟨t, rows, hrun, happly⟩ := Call.apply_of_answer h
  have hbooked : (bookingIn r.eventId r.eventSlotId).holds r = true := by
    cases hslot : r.eventSlotId <;> simp [bookingIn, Booking.holds, hslot]
  have hentering : entering s (bookingIn r.eventId r.eventSlotId)
      (.transition env r.id target actor) = 1 := by
    simp [entering, hr, hseat, hbooked]
  have hcommitted := @seated_of_committed s t (bookingIn r.eventId r.eventSlotId) _ a hrun
  have haudited : (t.audited rows).taken r.eventId r.eventSlotId =
    t.taken r.eventId r.eventSlotId := rfl
  rw [happly, haudited, taken_eq_seated, taken_eq_seated]
  omega

theorem movedUncounted (env : Env) (actor : Option Uuid) (hr : s.registration? r.id = some r)
    (hseat : takesSeat r target = false) : MovedUncounted s env r target actor := by
  constructor
  · have hrun := run_transition_some env target actor hr
    simp only [hseat, Bool.false_eq_true, if_false] at hrun
    simp only [Call.answer, Program.execute, Call.program, Program.bind_eq, Program.run_bind, hrun,
      Except.bind]
    rfl
  · intro head
    simp [transition, transitionWith, moveState, Program.execute, Program.update, Program.bind,
      Program.notes, Program.notesAfter, Program.require, Program.onlyIf, hr, hseat]

end paths

/-- The state verb takes a seat exactly as the register head would, for a row from outside the
counting domain of an event that is not cancelled; between any other states it does not count. -/
theorem seatPaths_agree {s : Db} {r : Registration} (hr : s.registration? r.id = some r)
    (env : Env) (target : RegistrationState) (actor : Option Uuid) :
    (r.active = true → (r.state = .draft ∨ r.state = .cancel) →
      (target = .open ∨ target = .done) →
      ∀ event, s.event? r.eventId = some event → event.kanbanState ≠ .cancel →
        SlotRules s event r.eventSlotId →
        SeatedAsRegistered s r (.transition env r.id target actor)) ∧
    ((r.active = false ∨ r.state = .open ∨ r.state = .done ∨ target = .draft ∨ target = .cancel) →
      MovedUncounted s env r target actor) := by
  constructor
  · intro hactive hout htarget event hevent hlive hslot
    have hseat : takesSeat r target = true := takesSeat_iff.mpr ⟨hactive, htarget, hout⟩
    constructor
    · intro env' cmd hid hslot' hticket
      rw [transition_refused_iff env actor hr hseat hevent, ← hid, ← hslot']
      rw [← hid] at hevent
      rw [← hslot'] at hslot
      exact (register_refused_iff env' hevent hlive hslot hticket).symm
    · intro e hrefused
      exact AuditTruth.apply_of_refused hrefused
    · intro a hmoved
      exact taken_of_moved hr hseat hmoved
  · intro hother
    refine movedUncounted env actor hr ?_
    by_contra hseat
    obtain ⟨hactive, htarget, hout⟩ := takesSeat_iff.mp (by simpa using hseat)
    rcases hother with h | h | h | h | h <;> simp_all

section sample

/-- The one seat is free, and a draft row of the event waits for it. -/
def heldDraft : Registration where
  id := 9
  eventId := 1
  eventSlotId := none
  eventTicketId := none
  name := "Ann"
  email := "ann@x"
  phone := none
  companyName := none
  partnerId := none
  state := .draft
  dateClosed := none
  saleOrderId := none
  saleOrderState := none
  saleStatus := none
  active := true
  barcode := "9"
  orgUnitId := none
  createdAt := none

def oneDraft : Db := { oneSeat with registrations := Table.empty.push heldDraft }

theorem seatPaths_agree_heldDraft :
    SeatedAsRegistered oneDraft heldDraft (.transition (.counting 1) 9 .open none) :=
  (@seatPaths_agree oneDraft heldDraft (by decide) (.counting 1) .open none).1 rfl (.inl rfl)
    (.inl rfl) gig (by decide) (by decide) fun h => absurd h (by decide)

end sample

end BackboneEvents
