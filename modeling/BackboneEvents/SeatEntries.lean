import BackboneEvents.VerbCalls

/-!
# What a call brings into the counting domain

A booking chooses registrations by event, slot and ticket, which no verb changes. For
every booking, a committed call adds the rows it mints or lifts from outside the counting
domain, whether or not it counts them first.
-/
namespace BackboneEvents
open ConstrainedTables TransactionPrograms GrandTotal

abbrev Booking := Uuid → Option Uuid → Option Uuid → Bool

def Booking.holds (b : Booking) (r : Registration) : Bool :=
  b r.eventId r.eventSlotId r.eventTicketId

def Booking.wanted (b : Booking) (cmd : RegisterCommand) : Bool :=
  b cmd.eventId cmd.eventSlotId cmd.eventTicketId

/-- The seats taken by the rows of a booking. -/
def Db.seated (s : Db) (b : Booking) : ℕ :=
  s.registrations.count (fun r => b.holds r && r.eligible)

/-- The rows of a booking that a committed call brings into the counting domain. -/
def entering (s : Db) (b : Booking) : Call → ℕ
  | .register _ cmd => if b.wanted cmd then 1 else 0
  | .transition _ registrationId target _ =>
    match s.registration? registrationId with
    | none => 0
    | some r => if takesSeat r target && b.holds r then 1 else 0
  | .seam c =>
    if !s.seamInbox.accepts c.key then 0
    else match c.verb with
      | .confirmed grandTotal specs =>
        if !grandTotalIsZero grandTotal then 0
        else if s.linked c.orderId == 0 then specs.countP b.wanted
        else s.registrations.count (fun r => freeHeals c.orderId r && b.holds r)
      | .cancelled => 0
      | .paid _ => s.registrations.count (fun r => paidHeals c.orderId r && b.holds r)

/-- The call passes every check that the verbs make: the event, its slot, the sale window, the
seats of the event or slot, and the constraints on the rows it inserts. -/
def Admits (s : Db) : Call → Prop
  | .register env cmd => ∃ event slotId, Admitted s (env.draw 0) cmd event slotId ∧
      event.exhausted (s.taken cmd.eventId slotId) = false ∧
      insertable s env (bornRow env (env.draw 0) cmd none event slotId s.orgAxis) = true
  | .transition _ registrationId target _ => ∃ r, s.registration? registrationId = some r ∧
      (takesSeat r target = true → ∃ event, s.event? r.eventId = some event ∧
        event.exhausted (s.taken r.eventId r.eventSlotId) = false)
  | .seam c => s.seamInbox.accepts c.key = true → s.linked c.orderId = 0 →
      match c.verb with
      | .confirmed grandTotal specs =>
        ∃ t, Minted c.env (bornLink c.orderId (grandTotalIsZero grandTotal)) 0 specs
          (s.claimed c.key.consumer c.key.externalId) t
      | .cancelled | .paid _ => True

/-- A multi-slot event admits a command in one of its own slots. -/
theorem slotOf_of_admission {s : Db} {event : Event} {cmd : RegisterCommand} {slotId : Option Uuid}
    (h : slotAdmission s event cmd = .ok slotId) (hmulti : event.isMultiSlots = true) :
    ∃ slot, cmd.eventSlotId = some slot ∧ (s.slotOf slot cmd.eventId).isSome = true := by
  cases hslot : cmd.eventSlotId with
  | none => simp [slotAdmission, hmulti, hslot] at h
  | some slot =>
    refine ⟨slot, rfl, ?_⟩
    cases hbelongs : s.slotOf slot cmd.eventId with
    | none => simp [slotAdmission, hmulti, hslot, hbelongs] at h
    | some _ => rfl

/-- An admitted row is booked in the slot its command names. -/
theorem slotAdmission_eq {s : Db} {event : Event} {cmd : RegisterCommand} {slotId : Option Uuid}
    (h : slotAdmission s event cmd = .ok slotId) : slotId = cmd.eventSlotId := by
  cases hmulti : event.isMultiSlots with
  | false => simpa [slotAdmission, hmulti] using h.symm
  | true =>
    obtain ⟨slot, hslot, hbelongs⟩ := slotOf_of_admission h hmulti
    obtain ⟨row, hrow⟩ := Option.isSome_iff_exists.mp hbelongs
    simpa [slotAdmission, hmulti, hslot, hrow] using h.symm

theorem accepts_of_insertable {s : Db} {env : Env} {row : Registration}
    (h : insertable s env row = true) : s.registrations.accepts row = true := by
  simp only [insertable, Bool.and_eq_true] at h
  exact h.2

section counts

variable {s t : Db} {b : Booking}

theorem seated_registered {env : Env} {cmd : RegisterCommand} {sale : Bool} {row : Registration}
    (h : s.registrations.accepts row = true) :
    (s.registered env cmd sale row).seated b =
      s.seated b + if b.holds row && row.eligible then 1 else 0 :=
  Table.count_push h _

theorem seated_outside {r : Registration} (h : r.outside = true) :
    (b.holds r && r.eligible) = false := by
  simp [Registration.eligible_of_outside h]

/-- A state verb that takes a seat brings its one row into the bookings that hold it. -/
theorem seated_transitioned {env : Env} {r : Registration} {target : RegistrationState}
    {actor : Option Uuid} (hr : r ∈ s.registrations.rows) (hseat : takesSeat r target = true) :
    (s.transitioned env r target actor).seated b = s.seated b + if b.holds r then 1 else 0 := by
  simp only [takesSeat, Bool.and_eq_true] at hseat
  obtain ⟨⟨hactive, htarget⟩, hout⟩ := hseat
  have hpin : ∀ x ∈ s.registrations.rows, (x.id == r.id) = true ↔ x = r := fun x hx =>
    ⟨fun h => registration_eq_of_id hx hr (by simpa using h), fun h => by simp [h]⟩
  rw [← Table.count_pinned hr hpin]
  apply Table.count_modify_enter
  · intro x hx h
    rw [(hpin x hx).mp h]
    exact seated_outside hout
  · intro x hx h
    obtain rfl := (hpin x hx).mp h
    simp [Booking.holds, Registration.eligible, hactive, htarget]

/-- Any other state verb brings no row into the counting domain. -/
theorem seated_transitioned_le {env : Env} {r : Registration} {target : RegistrationState}
    {actor : Option Uuid} (hr : r ∈ s.registrations.rows) (hseat : takesSeat r target = false) :
    (s.transitioned env r target actor).seated b ≤ s.seated b := by
  apply Table.count_modify_le
  intro x hx hid hin
  obtain rfl := registration_eq_of_id hx hr (by simpa using hid)
  simp only [Booking.holds, Bool.and_eq_true, Registration.eligible, moved_eventId,
    moved_eventSlotId, moved_eventTicketId, moved_state, moved_active] at hin ⊢
  obtain ⟨hholds, htarget, hactive⟩ := hin
  have hout : x.outside = false := by simpa [takesSeat, hactive, htarget] using hseat
  refine ⟨hholds, ?_, hactive⟩
  cases hstate : x.state <;> simp_all [Registration.outside]

/-- A heal brings in the rows it lifts. -/
theorem seated_lifted {p : Registration → Bool} {f : Update Registration}
    (hout : ∀ r, p r = true → r.outside = true ∧ r.active = true)
    (hstate : ∀ r, (f r).state = .open) (hactive : ∀ r, (f r).active = r.active)
    (hholds : ∀ r, b.holds (f r) = b.holds r) :
    (s.registrations.modify p f).count (fun r => b.holds r && r.eligible) =
      s.seated b + s.registrations.count (fun r => p r && b.holds r) := by
  apply Table.count_modify_enter
  · intro r _ h
    exact seated_outside (hout r h).1
  · intro r _ h
    simp [Registration.eligible, hholds, hstate, hactive, (hout r h).2]

theorem seated_freeHealed {env : Env} {orderId : Uuid} :
    (s.freeHealed env orderId).seated b = s.seated b +
      s.registrations.count (fun r => freeHeals orderId r && b.holds r) := by
  refine seated_lifted (fun r h => ?_) (fun _ => rfl) (fun _ => rfl) (fun _ => rfl)
  simp only [freeHeals, Bool.and_eq_true] at h
  exact ⟨h.1.2, h.2⟩

theorem seated_paid {env : Env} {orderId : Uuid} {lineIds : List Uuid} :
    (s.paid env orderId lineIds).seated b = s.seated b +
      s.registrations.count (fun r => paidHeals orderId r && b.holds r) := by
  rw [Db.seated, Db.paid, Table.count_modify_of_eq (fun _ _ _ => rfl)]
  refine seated_lifted (fun r h => ?_) (fun _ => rfl) (fun _ => rfl) (fun _ => rfl)
  simp only [paidHeals, Bool.and_eq_true] at h
  exact ⟨h.1.1.2, h.2⟩

theorem seated_heldBack {orderId : Uuid} : (s.heldBack orderId).seated b = s.seated b :=
  Table.count_modify_of_eq fun _ _ _ => rfl

theorem seated_orderCancelled_le {orderId : Uuid} :
    (s.orderCancelled orderId).seated b ≤ s.seated b := by
  apply Table.count_modify_le
  intro r _ _ h
  simp [Registration.eligible, Registration.orderCancelled] at h

theorem holds_bornRow {env : Env} {draw : Draw} {cmd : RegisterCommand} {link : Option SaleLink}
    {event : Event} {slotId : Option Uuid} {orgAxis : Bool} (h : slotId = cmd.eventSlotId) :
    b.holds (bornRow env draw cmd link event slotId orgAxis) = b.wanted cmd := by
  rw [h]
  rfl

variable {env : Env} {link : SaleLink} {k : ℕ} {specs : List RegisterCommand}

/-- A paid mint is born in draft, outside the counting domain. -/
theorem seated_minted_draft (h : Minted env link k specs s t) (hdraft : link.initialState = .draft) :
    t.seated b = s.seated b := by
  induction h with
  | nil k s => rfl
  | cons head tail ih =>
    obtain ⟨event, slotId, -, -, rfl, hfits, rfl⟩ := run_registerCore_ok head
    rw [ih, seated_registered (accepts_of_insertable hfits)]
    simp [bornRow, Registration.eligible, hdraft]

theorem seated_minted_open (h : Minted env link k specs s t) (hopen : link.initialState = .open) :
    t.seated b = s.seated b + specs.countP b.wanted := by
  induction h with
  | nil k s => simp
  | cons head tail ih =>
    obtain ⟨event, slotId, hadm, -, rfl, hfits, rfl⟩ := run_registerCore_ok head
    rw [ih, seated_registered (accepts_of_insertable hfits),
      holds_bornRow (slotAdmission_eq hadm.slot), List.countP_cons]
    simp only [bornRow, Registration.eligible, hopen, Option.map_some, Option.getD_some,
      beq_self_eq_true, Bool.true_or, Bool.and_true]
    omega

end counts

section calls

variable {s t : Db} {b : Booking} {c : Call} {a : Answer}

/-- A committed call adds what it brings in; one that brings nothing in adds nothing. -/
theorem seated_of_committed (h : c.program.run s = .ok (a, t)) :
    t.seated b = s.seated b + entering s b c ∨
      entering s b c = 0 ∧ t.seated b ≤ s.seated b := by
  cases Call.effect_of_run h with
  | refused hrefused =>
    rw [h] at hrefused
    cases hrefused
  | replayed hclaimed =>
    left
    simp [entering, hclaimed]
  | @registered env cmd _ event slotId admitted room fits =>
    left
    rw [seated_registered (accepts_of_insertable fits),
      holds_bornRow (slotAdmission_eq admitted.slot)]
    simp [entering, bornRow, Registration.eligible]
  | @transitioned env r target actor _ found seat =>
    have hr := (registration?_mem found).1
    cases hseat : takesSeat r target with
    | true =>
      left
      rw [seated_transitioned hr hseat]
      simp [entering, found, hseat]
    | false =>
      right
      refine ⟨by simp [entering, found, hseat], seated_transitioned_le hr hseat⟩
  | @minted c _ _ grandTotal specs verb fresh unlinked mint =>
    left
    cases hfree : grandTotalIsZero grandTotal with
    | true =>
      rw [seated_minted_open mint (by simp [bornLink, hfree])]
      simp only [entering, fresh, verb, hfree, unlinked]
      rfl
    | false =>
      rw [seated_minted_draft mint (by simp [bornLink, hfree])]
      simp only [entering, fresh, verb, hfree]
      rfl
  | @freeHealed c _ _ _ verb fresh linked free =>
    left
    have hlinked : (s.linked c.orderId == 0) = false := by simpa using linked
    rw [seated_freeHealed]
    simp only [entering, fresh, verb, free, hlinked]
    rfl
  | heldBack verb fresh linked paid =>
    left
    rw [seated_heldBack]
    simp only [entering, fresh, verb, paid]
    rfl
  | cancelled verb fresh =>
    right
    exact ⟨by simp [entering, fresh, verb], seated_orderCancelled_le⟩
  | paid verb fresh =>
    left
    rw [seated_paid]
    simp only [entering, fresh, verb]
    rfl

end calls

section admission

variable {s : Db} {c : Call}

theorem admits_of_run {a : Answer} {t : Db} (h : c.program.run s = .ok (a, t)) : Admits s c := by
  cases Call.effect_of_run h with
  | refused hrefused =>
    rw [h] at hrefused
    cases hrefused
  | replayed hclaimed => exact fun hfresh => absurd hfresh (by simp [hclaimed])
  | @registered env cmd _ event slotId admitted room fits =>
    exact ⟨event, slotId, admitted, room, fits⟩
  | @transitioned env r target actor _ found seat => exact ⟨r, found, seat⟩
  | @minted c _ t grandTotal specs verb fresh unlinked mint =>
    intro _ _
    rw [verb]
    exact ⟨t, mint⟩
  | freeHealed verb fresh linked free => exact fun _ hunlinked => absurd hunlinked linked
  | heldBack verb fresh linked paid => exact fun _ hunlinked => absurd hunlinked linked
  | cancelled verb fresh =>
    intro _ _
    rw [verb]
    trivial
  | paid verb fresh =>
    intro _ _
    rw [verb]
    trivial

/-- A delivery that is a replay, a heal, or has a mint that goes through runs to its answer. -/
theorem seam_run_of_admits {c : SeamCall} (h : Admits s (.seam c)) :
    ∃ r, c.program.run s = .ok r := by
  rw [c.run_program]
  cases hfresh : s.seamInbox.accepts c.key with
  | false => exact ⟨_, rfl⟩
  | true =>
    simp only [if_true]
    have hcount : (s.claimed c.key.consumer c.key.externalId).linked c.orderId =
      s.linked c.orderId := rfl
    cases hverb : c.verb with
    | confirmed grandTotal specs =>
      simp only [SeamCall.body, hverb]
      by_cases hlinked : s.linked c.orderId = 0
      · have hmint := h hfresh hlinked
        rw [hverb] at hmint
        obtain ⟨t, hmint⟩ := hmint
        rw [run_mintOrHeal_unlinked (hcount.trans hlinked), hmint.run]
        exact ⟨_, rfl⟩
      · rw [run_mintOrHeal_linked (hcount.trans_ne hlinked)]
        split <;> exact ⟨_, rfl⟩
    | cancelled =>
      simp only [SeamCall.body, hverb, run_cancelOrder]
      exact ⟨_, rfl⟩
    | paid lineIds =>
      simp only [SeamCall.body, hverb, run_payOrder]
      exact ⟨_, rfl⟩

theorem run_of_admits (h : Admits s c) : ∃ r, c.program.run s = .ok r := by
  cases c with
  | register env cmd =>
    obtain ⟨event, slotId, hadm, hroom, hfits⟩ := h
    have hrun := @run_registerCore_of_admitted env (env.draw 0) cmd none s event slotId hadm
    simp only [hroom, hfits, Bool.false_eq_true, if_false, if_true] at hrun
    exact ⟨_, by simp only [Call.program, register, Program.bind_eq, Program.run_bind, hrun,
      Except.bind]; rfl⟩
  | transition env registrationId target actor =>
    obtain ⟨r, hfound, hseat⟩ := h
    obtain ⟨-, rfl⟩ := registration?_mem hfound
    have hrun := run_transition_some env target actor hfound
    cases htakes : takesSeat r target with
    | true =>
      obtain ⟨event, hevent, hroom⟩ := hseat htakes
      simp only [htakes, hevent, hroom, Bool.false_eq_true, if_false, if_true] at hrun
      exact ⟨_, by simp only [Call.program, Program.bind_eq, Program.run_bind, hrun,
        Except.bind]; rfl⟩
    | false =>
      simp only [htakes, Bool.false_eq_true, if_false] at hrun
      exact ⟨_, by simp only [Call.program, Program.bind_eq, Program.run_bind, hrun,
        Except.bind]; rfl⟩
  | seam c =>
    obtain ⟨r, hrun⟩ := seam_run_of_admits h
    exact ⟨_, by simp only [Call.program, Program.bind_eq, Program.run_bind, hrun,
      Except.bind]; rfl⟩

/-- A call answers exactly when it is admitted. -/
theorem admits_iff : Admits s c ↔ ∃ a, c.answer s = .ok a := by
  constructor
  · intro h
    obtain ⟨r, hrun⟩ := run_of_admits h
    exact ⟨r.1, by simp only [Call.answer, Program.execute, hrun]⟩
  · rintro ⟨a, hanswer⟩
    obtain ⟨t, rows, hrun, -⟩ := Call.apply_of_answer hanswer
    exact admits_of_run hrun

end admission

end BackboneEvents
