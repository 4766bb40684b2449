import Mathlib.Algebra.Ring.Int.Defs
import BackboneEvents.AuditTruth
import BackboneEvents.SeatCapacity

/-!
# The seat service

The availability read takes the event's cap and the count over the rows that the register
head counts. In a slot that registrations are accepted in, it tells how many more of them the
head will grant. Over all slots of a multi-slot event it sets the cap of one slot against the
seats of all of them.
-/
namespace BackboneEvents.SeatService
open ConstrainedTables TransactionPrograms GuardedRuns SeatCapacity

structure SeatCounts where
  limited : Bool
  capacity : ℤ
  taken : ℕ
  deriving DecidableEq, Repr

def SeatCounts.available (c : SeatCounts) : ℤ :=
  if !c.limited || c.capacity == 0 then 2 ^ 63 - 1 else max (c.capacity - c.taken) 0

structure SeatAvailability where
  eventId : Uuid
  eventSlotId : Option Uuid
  limited : Bool
  capacity : ℤ
  taken : ℕ
  available : Option ℤ
  deriving DecidableEq, Repr

def SeatAvailability.fromCounts (eventId : Uuid) (slotId : Option Uuid) (c : SeatCounts) :
    SeatAvailability where
  eventId := eventId
  eventSlotId := slotId
  limited := c.limited
  capacity := c.capacity
  taken := c.taken
  available := if c.limited && decide (0 < c.capacity) then some c.available else none

def seatCounts (eventId : Uuid) (slotId : Option Uuid) : Tx SeatCounts := do
  let found ← Program.select (fun s : Db => s.event? eventId)
  let event ← Program.require found .eventNotFound
  let taken ← Program.select (fun s : Db => s.taken eventId slotId)
  return ⟨event.seatsLimited, event.seatsMax, taken⟩

/-- The event is read twice: for the typed refusal, and with the counts. -/
def availability (eventId : Uuid) (slotId : Option Uuid) : Tx SeatAvailability := do
  let found ← Program.select (fun s : Db => s.event? eventId)
  let _ ← Program.require found .eventNotFound
  let counts ← seatCounts eventId slotId
  return .fromCounts eventId slotId counts

/-- A register call on the event and slot that passes every check but the count. -/
def Fitting (eventId : Uuid) (slotId : Option Uuid) (s : Db) : Call → Prop
  | .register env cmd => cmd.eventId = eventId ∧ cmd.eventSlotId = slotId ∧
      ∃ event, Admitted s (env.draw 0) cmd event slotId ∧
        insertable s env (bornRow env (env.draw 0) cmd none event slotId s.orgAxis) = true
  | .transition _ _ _ _ | .seam _ => False

/-- How many of the calls, made one after the other, are granted. -/
def granted (s : Db) : List Call → ℕ
  | [] => 0
  | c :: calls => (if (c.answer s).toOption.isSome then 1 else 0) + granted (c.apply s) calls

/-- What the read should tell. `slotCount` is the column `event_slot_count`, by event. -/
structure Agrees (slotCount : Uuid → ℤ) (s : Db) (event : Event) (slotId : Option Uuid)
    (read : SeatAvailability) : Prop where
  soldOut : ∀ c, Fitting event.id slotId s c →
    (read.available = some 0 ↔ c.answer s = .error (.eventSeatsExhausted event.id))
  left : ∀ (calls : List Call) (k : ℕ), 0 < k → k < calls.length →
    Along Db.next (Fitting event.id slotId) s calls →
      (read.available = some (k : ℤ) ↔ granted s calls = k)
  unlimited : read.available = none ↔ ¬ Capped event
  whole : event.isMultiSlots = true → slotId = none →
    read.capacity = event.seatsMax * slotCount event.id ∧
      (read.available = some 0 → ∀ slot ∈ s.slots.rows, slot.eventId = event.id →
        event.seatsMax ≤ s.taken event.id (some slot.id))

def ReadAgrees (slotCount : Uuid → ℤ) (s : Db) (eventId : Uuid) (slotId : Option Uuid) : Prop :=
  ∀ event, s.event? eventId = some event →
    ∃ read, (availability eventId slotId).run s = .ok (read, s) ∧
      Agrees slotCount s event slotId read

/-- A multi-slot event read without a slot has the capacity of one slot, and its rows reach
the cap only when those of every slot do. -/
def OneSlotWide (slotCount : Uuid → ℤ) (s : Db) (eventId : Uuid) (slotId : Option Uuid) : Prop :=
  ∀ event, s.event? eventId = some event → event.isMultiSlots = true → slotId = none →
    (event.seatsMax = 0 ∨ slotCount event.id = 1) ∧
      (Capped event → event.seatsMax ≤ s.taken event.id none →
        ∀ slot ∈ s.slots.rows, slot.eventId = event.id →
          event.seatsMax ≤ s.taken event.id (some slot.id))

section read

variable {s : Db} {event : Event} {eventId : Uuid} {slotId : Option Uuid}

theorem run_availability (h : s.event? eventId = some event) :
    (availability eventId slotId).run s = .ok (.fromCounts eventId slotId
      ⟨event.seatsLimited, event.seatsMax, s.taken eventId slotId⟩, s) := by
  simp [availability, seatCounts, Program.run_bind, Except.bind, h]

/-- What is reported as available, and of which event. -/
theorem available_of_run {read : SeatAvailability} (h : s.event? eventId = some event)
    (hrun : (availability eventId slotId).run s = .ok (read, s)) :
    read.capacity = event.seatsMax ∧
      (Capped event → read.available = some (max (event.seatsMax - s.taken eventId slotId) 0)) ∧
      (¬ Capped event → read.available = none) := by
  rw [run_availability h] at hrun
  obtain ⟨rfl, -⟩ := Prod.mk.inj (Except.ok.inj hrun)
  refine ⟨rfl, fun hcap => ?_, fun hfree => ?_⟩
  · have hcap' : event.seatsMax ≠ 0 := Int.ne_of_gt hcap.2
    simp [SeatAvailability.fromCounts, SeatCounts.available, hcap.1, hcap.2, hcap']
  · have hoff : (event.seatsLimited && decide (0 < event.seatsMax)) = false := by
      simpa [Capped, Bool.and_eq_false_iff] using hfree
    simp [SeatAvailability.fromCounts, hoff]

end read

section registers

variable {s : Db} {event : Event} {slotId : Option Uuid} {c : Call}

/-- The event that admits a fitting register is the one it is counted in. -/
theorem fitting_register {env : Env} {cmd : RegisterCommand}
    (h : Fitting event.id slotId s (.register env cmd)) (hevent : s.event? event.id = some event) :
    cmd.eventId = event.id ∧ cmd.eventSlotId = slotId ∧
      Admitted s (env.draw 0) cmd event slotId ∧
      insertable s env (bornRow env (env.draw 0) cmd none event slotId s.orgAxis) = true := by
  obtain ⟨hid, hslot, admitting, hadm, hfits⟩ := h
  have hfound := hadm.found
  rw [hid, hevent] at hfound
  obtain rfl := Option.some.inj hfound
  exact ⟨hid, hslot, hadm, hfits⟩

/-- With no room in the count, a fitting call is refused. -/
theorem refused_of_exhausted (h : Fitting event.id slotId s c)
    (hevent : s.event? event.id = some event)
    (hroom : event.exhausted (s.taken event.id slotId) = true) :
    c.answer s = .error (.eventSeatsExhausted event.id) := by
  cases c with
  | transition env registrationId target actor => exact h.elim
  | seam c => exact h.elim
  | register env cmd =>
    obtain ⟨hid, -, hadm, -⟩ := fitting_register h hevent
    have hrun := @run_registerCore_of_admitted env (env.draw 0) cmd none s event slotId hadm
    rw [hid, hroom] at hrun
    simp only [if_true] at hrun
    simp only [Call.answer, Program.execute, Call.program, register, Program.bind_eq,
      Program.run_bind, hrun, Except.bind]

/-- With room in the count, a fitting call takes one seat. -/
theorem granted_of_room (h : Fitting event.id slotId s c)
    (hevent : s.event? event.id = some event)
    (hroom : event.exhausted (s.taken event.id slotId) = false) :
    (∃ a, c.answer s = .ok a) ∧ (c.apply s).event? event.id = some event ∧
      (c.apply s).taken event.id slotId = s.taken event.id slotId + 1 := by
  cases c with
  | transition env registrationId target actor => exact h.elim
  | seam c => exact h.elim
  | register env cmd =>
    obtain ⟨hid, hslot, hadm, hfits⟩ := fitting_register h hevent
    have hrun := @run_registerCore_of_admitted env (env.draw 0) cmd none s event slotId hadm
    rw [hid, hroom] at hrun
    simp only [hfits, Bool.false_eq_true, if_false, if_true] at hrun
    have hanswer : ∃ a, (Call.register env cmd).answer s = .ok a :=
      ⟨_, by simp only [Call.answer, Program.execute, Call.program, register, Program.bind_eq,
        Program.run_bind, hrun, Except.bind]; rfl⟩
    refine ⟨hanswer, ?_⟩
    obtain ⟨a, ha⟩ := hanswer
    obtain ⟨t, rows, hcommit, happly⟩ := Call.apply_of_answer ha
    have hevents := (Call.effect_of_run hcommit).events
    have hentering : entering s (bookingIn event.id slotId) (.register env cmd) = 1 := by
      cases slotId <;> simp [entering, Booking.wanted, bookingIn, hid, hslot]
    have hcommitted :=
      @seated_of_committed s t (bookingIn event.id slotId) (.register env cmd) a hcommit
    rw [happly]
    constructor
    · simpa only [Db.event?, audited_events, hevents] using hevent
    · have haudited : (t.audited rows).taken event.id slotId = t.taken event.id slotId := rfl
      rw [haudited, taken_eq_seated, taken_eq_seated]
      omega

/-- A run of fitting calls is granted what the cap leaves. -/
theorem granted_of_fitting {calls : List Call}
    (h : Along Db.next (Fitting event.id slotId) s calls)
    (hevent : s.event? event.id = some event) :
    (Capped event → (granted s calls : ℤ) =
      min (max (event.seatsMax - s.taken event.id slotId) 0) calls.length) ∧
    (¬ Capped event → granted s calls = calls.length) := by
  induction calls generalizing s with
  | nil => simp [granted]
  | cons c calls ih =>
    cases hroom : event.exhausted (s.taken event.id slotId) with
    | true =>
      have hrefused := refused_of_exhausted h.1 hevent hroom
      have hsame : Db.next s c = s := AuditTruth.apply_of_refused hrefused
      have htail := h.2
      rw [hsame] at htail
      have hrest := ih htail hevent
      have hgranted : granted s (c :: calls) = granted s calls := by
        have happly : c.apply s = s := hsame
        simp [granted, hrefused, happly, Except.toOption]
      obtain ⟨hcapped, hreached⟩ := exhausted_iff.mp hroom
      rw [hgranted, List.length_cons]
      constructor
      · intro hcap
        have hcount := hrest.1 hcap
        omega
      · intro hfree
        exact absurd hcapped hfree
    | false =>
      obtain ⟨⟨a, ha⟩, hstill, htaken⟩ := granted_of_room h.1 hevent hroom
      have hrest := ih h.2 hstill
      have hgranted : granted s (c :: calls) = 1 + granted (Db.next s c) calls := by
        simp [granted, ha, Except.toOption, Db.next]
      have htaken' : (Db.next s c).taken event.id slotId = s.taken event.id slotId + 1 := htaken
      rw [hgranted, List.length_cons]
      constructor
      · intro hcap
        have hcount := hrest.1 hcap
        have hbelow : (s.taken event.id slotId : ℤ) < event.seatsMax := by
          simpa [Event.exhausted, hcap.1, hcap.2] using hroom
        rw [htaken'] at hcount
        push_cast at hcount ⊢
        omega
      · intro hfree
        have hcount := hrest.2 hfree
        omega

end registers

section agreement

variable {s : Db} {event : Event} {slotId : Option Uuid} {read : SeatAvailability}

theorem soldOut_iff {c : Call} (hevent : s.event? event.id = some event)
    (hrun : (availability event.id slotId).run s = .ok (read, s))
    (hfits : Fitting event.id slotId s c) :
    read.available = some 0 ↔ c.answer s = .error (.eventSeatsExhausted event.id) := by
  obtain ⟨-, hcapped, hfree⟩ := available_of_run hevent hrun
  cases hroom : event.exhausted (s.taken event.id slotId) with
  | true =>
    obtain ⟨hcap, hreached⟩ := exhausted_iff.mp hroom
    refine iff_of_true ?_ (refused_of_exhausted hfits hevent hroom)
    rw [hcapped hcap, Option.some_inj]
    omega
  | false =>
    obtain ⟨⟨a, ha⟩, -, -⟩ := granted_of_room hfits hevent hroom
    have hbelow : Capped event → (s.taken event.id slotId : ℤ) < event.seatsMax := fun hcap => by
      simpa [Event.exhausted, hcap.1, hcap.2] using hroom
    apply iff_of_false
    · intro hsold
      by_cases hcap : Capped event
      · rw [hcapped hcap, Option.some_inj] at hsold
        have hroom := hbelow hcap
        omega
      · rw [hfree hcap] at hsold
        cases hsold
    · intro hrefused
      rw [ha] at hrefused
      cases hrefused

theorem left_iff {calls : List Call} {k : ℕ} (hevent : s.event? event.id = some event)
    (hrun : (availability event.id slotId).run s = .ok (read, s))
    (hfits : Along Db.next (Fitting event.id slotId) s calls) (hlonger : k < calls.length) :
    read.available = some (k : ℤ) ↔ granted s calls = k := by
  obtain ⟨-, hcapped, hfree⟩ := available_of_run hevent hrun
  obtain ⟨hcount, hall⟩ := granted_of_fitting hfits hevent
  by_cases hcap : Capped event
  · have hcount := hcount hcap
    rw [hcapped hcap, Option.some_inj]
    omega
  · have hall := hall hcap
    rw [hfree hcap]
    exact iff_of_false (fun h => by cases h) fun h => by omega

theorem unlimited_iff (hevent : s.event? event.id = some event)
    (hrun : (availability event.id slotId).run s = .ok (read, s)) :
    read.available = none ↔ ¬ Capped event := by
  obtain ⟨-, hcapped, hfree⟩ := available_of_run hevent hrun
  by_cases hcap : Capped event
  · rw [hcapped hcap]
    exact iff_of_false (fun h => by cases h) fun h => h hcap
  · exact iff_of_true (hfree hcap) hcap

end agreement

theorem eq_mul_iff (a n : ℤ) : a = a * n ↔ a = 0 ∨ n = 1 := by
  constructor
  · intro h
    by_cases ha : a = 0
    · exact .inl ha
    · exact .inr (Int.eq_one_of_mul_eq_self_right ha h.symm)
  · rintro (rfl | rfl)
    · rw [Int.zero_mul]
    · rw [Int.mul_one]

/-- The read agrees with the register head in every slot that it accepts. Over a multi-slot
event without a slot it does exactly where one slot's cap is the event's. -/
theorem readAgrees_iff (slotCount : Uuid → ℤ) (s : Db) (eventId : Uuid) (slotId : Option Uuid) :
    ReadAgrees slotCount s eventId slotId ↔ OneSlotWide slotCount s eventId slotId := by
  refine forall_congr' fun event => forall_congr' fun hevent => ?_
  obtain rfl : event.id = eventId := by simpa using Table.find_spec hevent
  constructor
  · rintro ⟨read, hrun, hagrees⟩ hmulti hnone
    obtain ⟨hcapacity, hcapped, -⟩ := available_of_run hevent hrun
    obtain ⟨hsize, hfull⟩ := hagrees.whole hmulti hnone
    refine ⟨(eq_mul_iff _ _).mp (hcapacity.symm.trans hsize), fun hcap hreached => hfull ?_⟩
    rw [hcapped hcap, hnone, Option.some_inj]
    omega
  · intro hwide
    obtain ⟨read, hrun⟩ : ∃ read, (availability event.id slotId).run s = .ok (read, s) :=
      ⟨_, run_availability hevent⟩
    obtain ⟨hcapacity, hcapped, hfree⟩ := available_of_run hevent hrun
    refine ⟨read, hrun, fun c => soldOut_iff hevent hrun,
      fun calls k _ hlonger hfits => left_iff hevent hrun hfits hlonger,
      unlimited_iff hevent hrun, fun hmulti hnone => ?_⟩
    obtain ⟨hsize, hfull⟩ := hwide hmulti hnone
    refine ⟨hcapacity.trans ((eq_mul_iff _ _).mpr hsize), fun hsold => ?_⟩
    by_cases hcap : Capped event
    · rw [hcapped hcap, Option.some_inj, hnone] at hsold
      exact hfull hcap (by omega)
    · rw [hfree hcap] at hsold
      cases hsold

section sample

/-- An event of two slots with one seat each. -/
def twoSlots : Db := { Db.empty with
  events := Table.empty.push { gig with isMultiSlots := true }
  slots := (Table.empty.push ⟨11, 1⟩).push ⟨12, 1⟩ }

def inSlot (slot : Uuid) : RegisterCommand := { ann with eventSlotId := some slot }

def oneSlotFull : Db := (Call.register (.counting 1) (inSlot 11)).apply twoSlots

/-- The second slot is empty, and the event reads as sold out with a capacity of one. -/
theorem oneSlotFull_misread : ¬ ReadAgrees (fun _ => 2) oneSlotFull 1 none := by
  intro h
  obtain ⟨read, hrun, hagrees⟩ := h { gig with isMultiSlots := true } (by decide)
  have hcapacity := (hagrees.whole rfl rfl).1
  have hread : (availability 1 none).run oneSlotFull =
      .ok (⟨1, none, true, 1, 1, some 0⟩, oneSlotFull) := by
    rw [@run_availability oneSlotFull { gig with isMultiSlots := true } 1 none (by decide)]
    rfl
  obtain ⟨rfl, -⟩ := Prod.mk.inj (Except.ok.inj (hread.symm.trans hrun))
  exact absurd hcapacity (by decide)

end sample

end BackboneEvents.SeatService
