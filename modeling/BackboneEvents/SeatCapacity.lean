import BackboneEvents.GuardedRuns
import BackboneEvents.SeatEntries

/-!
# Capacity over runs

The cap of a limited event bounds its seats in each scope it is counted over: the event,
or every slot of a multi-slot event. Two kinds of entry never count that scope: the heals,
which lift rows with no count at all, and a slotted row of a single-slot event, which is
counted over its slot. A run keeps every cap when such entries find enough seats free.
-/
namespace BackboneEvents.SeatCapacity
open ConstrainedTables TransactionPrograms GrandTotal GuardedRuns

def Capped (event : Event) : Prop := event.seatsLimited = true ∧ 0 < event.seatsMax

/-- A cap is counted per slot for a multi-slot event, else over the event. -/
def CapScope (event : Event) (scope : Option Uuid) : Prop := scope.isSome = event.isMultiSlots

def CapHolds (s : Db) (event : Event) (scope : Option Uuid) : Prop :=
  (s.taken event.id scope : ℤ) ≤ event.seatsMax

instance {s : Db} {event : Event} {scope : Option Uuid} : Decidable (CapHolds s event scope) :=
  inferInstanceAs (Decidable (_ ≤ _))

def CapsRespected (s : Db) : Prop :=
  ∀ event ∈ s.events.rows, Capped event → ∀ scope, CapScope event scope → CapHolds s event scope

/-- The row is booked in the scope, whether or not it is eligible. -/
def bookedIn (eventId : Uuid) (scope : Option Uuid) (r : Registration) : Bool :=
  r.eventId == eventId && scope.all (fun slot => r.eventSlotId == some slot)

/-- A row of the event that the verbs count over a slot although the scope is the event. -/
def slotted (eventId : Uuid) (scope : Option Uuid) (rowEvent : Uuid) (rowSlot : Option Uuid) :
    Bool :=
  rowEvent == eventId && scope.isNone && rowSlot.isSome

/-- The rows a call would bring into the scope by an entry that does not count it. -/
def uncounted (s : Db) (eventId : Uuid) (scope : Option Uuid) : Call → ℕ
  | .register _ cmd => if slotted eventId scope cmd.eventId cmd.eventSlotId then 1 else 0
  | .transition _ registrationId target _ =>
    match s.registration? registrationId with
    | none => 0
    | some r =>
      if takesSeat r target && slotted eventId scope r.eventId r.eventSlotId then 1 else 0
  | .seam c =>
    if !s.seamInbox.accepts c.key then 0
    else match c.verb with
      | .confirmed grandTotal specs =>
        if !grandTotalIsZero grandTotal then 0
        else if s.linked c.orderId == 0 then
          if specs.any (fun spec => slotted eventId scope spec.eventId spec.eventSlotId) then
            specs.countP (fun spec => spec.eventId == eventId)
          else 0
        else s.registrations.count (fun r => freeHeals c.orderId r && bookedIn eventId scope r)
      | .cancelled => 0
      | .paid _ =>
        s.registrations.count (fun r => paidHeals c.orderId r && bookedIn eventId scope r)

/-- The entries that do not count a capped scope find enough seats free in it. -/
def FreeSeats (s : Db) (c : Call) : Prop :=
  ∀ event ∈ s.events.rows, Capped event → ∀ scope, CapScope event scope →
    uncounted s event.id scope c ≠ 0 →
      (s.taken event.id scope + uncounted s event.id scope c : ℤ) ≤ event.seatsMax

theorem exhausted_iff {event : Event} {taken : ℕ} :
    event.exhausted taken = true ↔ Capped event ∧ event.seatsMax ≤ taken := by
  simp [Event.exhausted, Capped]

theorem countingScope_eq (eventId : Uuid) (scope : Option Uuid) (r : Registration) :
    countingScope eventId scope r = (bookedIn eventId scope r && r.eligible) := by
  cases scope <;> simp [countingScope, bookedIn]

section counts

variable {s t : Db} {eventId : Uuid} {scope : Option Uuid}

/-- The booking that a count of the scope ranges over. -/
def bookingIn (eventId : Uuid) (scope : Option Uuid) : Booking :=
  fun rowEvent rowSlot _ => rowEvent == eventId && scope.all (fun slot => rowSlot == some slot)

theorem taken_eq_seated (s : Db) (eventId : Uuid) (scope : Option Uuid) :
    s.taken eventId scope = s.seated (bookingIn eventId scope) :=
  congrArg s.registrations.count (funext (countingScope_eq eventId scope))

theorem taken_registered {env : Env} {cmd : RegisterCommand} {sale : Bool} {row : Registration}
    (h : s.registrations.accepts row = true) :
    (s.registered env cmd sale row).taken eventId scope =
      s.taken eventId scope + if countingScope eventId scope row then 1 else 0 :=
  Table.count_push h _

theorem taken_transitioned_of_takesSeat {env : Env} {r : Registration}
    {target : RegistrationState} {actor : Option Uuid} (hr : r ∈ s.registrations.rows)
    (hseat : takesSeat r target = true) :
    (s.transitioned env r target actor).taken eventId scope =
      s.taken eventId scope + if bookedIn eventId scope r then 1 else 0 := by
  rw [taken_eq_seated, taken_eq_seated, seated_transitioned hr hseat]
  rfl

/-- Entries that do not count the scope are entries into its booking. -/
theorem entering_of_uncounted {c : Call} (h : uncounted s eventId scope c ≠ 0) :
    entering s (bookingIn eventId scope) c = uncounted s eventId scope c := by
  have hwanted : ∀ e slot ticket, slotted eventId scope e slot = true →
      bookingIn eventId scope e slot ticket = true := by
    intro e slot ticket hslotted
    simp only [slotted, Bool.and_eq_true] at hslotted
    simp [bookingIn, hslotted.1.1, Option.isNone_iff_eq_none.mp hslotted.1.2]
  cases c with
  | register env cmd =>
    have hslotted : slotted eventId scope cmd.eventId cmd.eventSlotId = true := by
      simpa [uncounted] using h
    simp [uncounted, entering, Booking.wanted, hslotted, hwanted _ _ _ hslotted]
  | transition env registrationId target actor =>
    cases hfound : s.registration? registrationId with
    | none => simp [uncounted, hfound] at h
    | some r =>
      have hboth : takesSeat r target = true ∧
          slotted eventId scope r.eventId r.eventSlotId = true := by
        simpa [uncounted, hfound] using h
      simp [uncounted, entering, hfound, Booking.holds, hboth.1, hboth.2, hwanted _ _ _ hboth.2]
  | seam c =>
    cases hverb : c.verb with
    | confirmed grandTotal specs =>
      simp only [uncounted, entering, hverb] at h ⊢
      by_cases hlinked : s.linked c.orderId = 0
      · have hslotted : specs.any (fun spec =>
            slotted eventId scope spec.eventId spec.eventSlotId) = true := by
          by_contra hnone
          simp [hlinked, hnone] at h
        have hscope : scope = none := by
          obtain ⟨spec, -, hspec⟩ := List.any_eq_true.mp hslotted
          simp only [slotted, Bool.and_eq_true] at hspec
          exact Option.isNone_iff_eq_none.mp hspec.1.2
        have hbooking : (bookingIn eventId scope).wanted = fun spec => spec.eventId == eventId := by
          funext spec
          simp [Booking.wanted, bookingIn, hscope]
        rw [hbooking, hslotted]
        rfl
      · have hlinked' : (s.linked c.orderId == 0) = false := by simpa using hlinked
        rw [hlinked']
        rfl
    | cancelled => simp [uncounted, entering, hverb]
    | paid lineIds =>
      simp only [uncounted, entering, hverb]
      rfl

end counts

section guarded

variable {s : Db} {draw : Draw} {cmd : RegisterCommand} {event admitting : Event}
  {slotId scope : Option Uuid}

/-- The head that grants a seat has counted every capped scope the row is booked in,
unless the row is slotted on a single-slot event. -/
theorem room_of_admitted (hadm : Admitted s draw cmd admitting slotId)
    (hroom : admitting.exhausted (s.taken cmd.eventId slotId) = false)
    (hevent : event ∈ s.events.rows) (hcap : Capped event) (hscope : CapScope event scope)
    (hid : cmd.eventId = event.id) (hslot : scope.all (fun slot => slotId == some slot) = true)
    (hcounted : slotted event.id scope cmd.eventId cmd.eventSlotId = false) :
    (s.taken event.id scope : ℤ) < event.seatsMax := by
  have hsame : admitting = event := by
    have hadmId : admitting.id = cmd.eventId := by simpa using Table.find_spec hadm.found
    exact Table.eq_of_clash (Table.find_mem hadm.found) hevent (by simp [clash, hadmId, hid])
  subst hsame
  have hkey : slotId = scope := by
    have hslotAdm := hadm.slot
    cases scope with
    | some slot => simpa using hslot
    | none =>
      have hsingle : admitting.isMultiSlots = false := hscope.symm
      have hnone : cmd.eventSlotId = none := by simpa [slotted, hid] using hcounted
      simpa [slotAdmission, hsingle, hnone] using hslotAdm.symm
  rw [hkey, hid] at hroom
  simpa [Event.exhausted, hcap.1, hcap.2] using hroom

theorem countingScope_bornRow {env : Env} {link : Option SaleLink} {orgAxis : Bool}
    {eventId : Uuid} :
    countingScope eventId scope (bornRow env draw cmd link event slotId orgAxis) =
      (cmd.eventId == eventId && scope.all (fun slot => slotId == some slot) &&
        ((link.map SaleLink.initialState).getD .open == .open ||
          (link.map SaleLink.initialState).getD .open == .done)) := by
  rw [countingScope_eq]
  simp [bookedIn, bornRow, Registration.eligible]

end guarded

section mint

variable {env : Env} {link : SaleLink} {k : ℕ} {specs : List RegisterCommand} {s t : Db}
  {event : Event} {scope : Option Uuid}

/-- A free mint keeps a cap: each spec is counted, or all specs find free seats together. -/
theorem capHolds_minted (h : Minted env link k specs s t) (hopen : link.initialState = .open)
    (hevent : event ∈ s.events.rows) (hcap : Capped event) (hscope : CapScope event scope)
    (hholds : CapHolds s event scope)
    (hfree : specs.any (fun spec => slotted event.id scope spec.eventId spec.eventSlotId) = true →
      (s.taken event.id scope + specs.countP (fun spec => spec.eventId == event.id) : ℤ) ≤
        event.seatsMax) :
    CapHolds t event scope := by
  induction h with
  | nil k s => exact hholds
  | @cons k spec specs s s' t row head tail ih =>
    obtain ⟨ev, slotId, hadm, hroom, rfl, hfits, rfl⟩ := run_registerCore_ok head
    generalize hrow : bornRow env (env.draw k) spec (some link) ev slotId s.orgAxis = row at *
    have htaken : (s.registered env spec true row).taken event.id scope =
        s.taken event.id scope + if countingScope event.id scope row then 1 else 0 :=
      taken_registered (accepts_of_insertable hfits)
    have hin : countingScope event.id scope row =
        (spec.eventId == event.id && scope.all (fun slot => slotId == some slot)) := by
      rw [← hrow, countingScope_bornRow]
      simp [hopen]
    have hcount : (if countingScope event.id scope row then 1 else 0) +
        specs.countP (fun spec => spec.eventId == event.id) ≤
          (spec :: specs).countP (fun spec => spec.eventId == event.id) := by
      rw [hin, List.countP_cons]
      cases spec.eventId == event.id with
      | false => simp
      | true =>
        simp only [Bool.true_and, if_true]
        split <;> omega
    have hhead : CapHolds (s.registered env spec true row) event scope := by
      rw [CapHolds, htaken]
      cases hsl : slotted event.id scope spec.eventId spec.eventSlotId with
      | true =>
        have hsum := hfree (by simp [hsl])
        omega
      | false =>
        cases hscoped : countingScope event.id scope row with
        | false => simpa [CapHolds] using hholds
        | true =>
          rw [hin, Bool.and_eq_true] at hscoped
          have hroomEvent := room_of_admitted hadm hroom hevent hcap hscope
            (by simpa using hscoped.1) hscoped.2 hsl
          simp only [if_true]
          omega
    refine ih hevent hhead fun htail => ?_
    have hsum := hfree (by rw [List.any_cons, htail, Bool.or_true])
    change ((s.registered env spec true row).taken event.id scope + _ : ℤ) ≤ _
    rw [htaken]
    omega

end mint

section step

variable {s t : Db} {c : Call} {a : Answer} {event : Event} {scope : Option Uuid}

theorem countingScope_registered {env : Env} {draw : Draw} {cmd : RegisterCommand} {ev : Event}
    {slotId : Option Uuid} {orgAxis : Bool} {eventId : Uuid} :
    countingScope eventId scope (bornRow env draw cmd none ev slotId orgAxis) =
      (cmd.eventId == eventId && scope.all (fun slot => slotId == some slot)) := by
  rw [countingScope_bornRow]
  simp

/-- What enters without being counted is what the count of the scope grows by. -/
theorem taken_of_uncounted (h : c.program.run s = .ok (a, t))
    (hentries : uncounted s event.id scope c ≠ 0) :
    t.taken event.id scope = s.taken event.id scope + uncounted s event.id scope c := by
  have hentering := entering_of_uncounted hentries
  have hcommitted := @seated_of_committed s t (bookingIn event.id scope) c a h
  rw [taken_eq_seated, taken_eq_seated]
  omega

/-- A call keeps a cap when its uncounted entries find free seats. -/
theorem capHolds_step (h : c.program.run s = .ok (a, t)) (hevent : event ∈ s.events.rows)
    (hcap : Capped event) (hscope : CapScope event scope) (hholds : CapHolds s event scope)
    (hfree : uncounted s event.id scope c ≠ 0 →
      (s.taken event.id scope + uncounted s event.id scope c : ℤ) ≤ event.seatsMax) :
    CapHolds t event scope := by
  by_cases hentries : uncounted s event.id scope c ≠ 0
  · rw [CapHolds, taken_of_uncounted h hentries]
    exact_mod_cast hfree hentries
  · have hzero : uncounted s event.id scope c = 0 := by simpa using hentries
    have hkeeps : entering s (bookingIn event.id scope) c = 0 → CapHolds t event scope := by
      intro hnone
      have hcommitted := @seated_of_committed s t (bookingIn event.id scope) c a h
      simp only [CapHolds, taken_eq_seated] at hholds ⊢
      omega
    cases Call.effect_of_run h with
    | refused | replayed => exact hholds
    | @registered env cmd _ ev slotId admitted room fits =>
      have hcounted : slotted event.id scope cmd.eventId cmd.eventSlotId = false := by
        simpa [uncounted] using hzero
      rw [CapHolds, taken_registered (accepts_of_insertable fits), countingScope_registered]
      cases hin : cmd.eventId == event.id && scope.all (fun slot => slotId == some slot) with
      | false => simpa [CapHolds] using hholds
      | true =>
        rw [Bool.and_eq_true] at hin
        have hroom := room_of_admitted admitted room hevent hcap hscope (by simpa using hin.1)
          hin.2 hcounted
        simp only [if_true]
        omega
    | @transitioned env r target actor _ found seat =>
      have hr := (registration?_mem found).1
      cases hseat : takesSeat r target with
      | false => exact hkeeps (by simp [entering, found, hseat])
      | true =>
        obtain ⟨ev, hfound, hroom⟩ := seat hseat
        rw [CapHolds, taken_transitioned_of_takesSeat hr hseat]
        cases hbooked : bookedIn event.id scope r with
        | false => simpa [CapHolds] using hholds
        | true =>
          simp only [bookedIn, Bool.and_eq_true, beq_iff_eq] at hbooked
          have hsame : ev = event := Table.eq_of_clash (Table.find_mem hfound) hevent (by
            have hid : ev.id = r.eventId := by simpa using Table.find_spec hfound
            simp [clash, hid, hbooked.1])
          have hkey : r.eventSlotId = scope := by
            cases scope with
            | some slot => simpa using hbooked.2
            | none => simpa [uncounted, found, hseat, slotted, hbooked.1] using hzero
          rw [hsame, hbooked.1, hkey] at hroom
          simp only [Event.exhausted, hcap.1, hcap.2, decide_true, Bool.true_and,
            decide_eq_false_iff_not] at hroom
          simp only [if_true]
          omega
    | @minted c _ _ grandTotal specs verb fresh unlinked mint =>
      cases hfree' : grandTotalIsZero grandTotal with
      | false => exact hkeeps (by simp [entering, fresh, verb, hfree'])
      | true =>
        refine capHolds_minted mint (by simp [bornLink, hfree']) hevent hcap hscope hholds
          fun hslotted => ?_
        have hnone : specs.countP (fun spec => spec.eventId == event.id) = 0 := by
          simpa [uncounted, fresh, verb, unlinked, hfree', hslotted] using hzero
        rw [hnone, Int.natCast_zero, Int.add_zero]
        exact hholds
    | @freeHealed c _ _ _ verb fresh linked free =>
      apply hkeeps
      have hlinked : (s.linked c.orderId == 0) = false := by simpa using linked
      simp only [uncounted, entering, fresh, verb, free, hlinked] at hzero ⊢
      exact hzero
    | heldBack verb fresh linked paid => exact hkeeps (by simp [entering, fresh, verb, paid])
    | cancelled verb fresh => exact hkeeps (by simp [entering, fresh, verb])
    | paid verb fresh =>
      apply hkeeps
      simp only [uncounted, entering, fresh, verb] at hzero ⊢
      exact hzero

theorem capsRespected_audited {rows : List AuditRow} :
    CapsRespected (s.audited rows) ↔ CapsRespected s := Iff.rfl

/-- A committed call keeps the caps exactly when its uncounted entries find free seats. -/
theorem capsRespected_apply_iff (hs : CapsRespected s) (h : c.answer s = .ok a) :
    CapsRespected (c.apply s) ↔ FreeSeats s c := by
  obtain ⟨t, rows, hrun, happly⟩ := Call.apply_of_answer h
  have hevents := (Call.effect_of_run hrun).events
  rw [happly, capsRespected_audited]
  constructor
  · intro ht event hevent hcap scope hscope hentries
    have hholds := ht event (hevents ▸ hevent) hcap scope hscope
    rw [CapHolds, taken_of_uncounted hrun hentries] at hholds
    exact_mod_cast hholds
  · intro hfree event hevent hcap scope hscope
    rw [hevents] at hevent
    exact capHolds_step hrun hevent hcap hscope (hs event hevent hcap scope hscope)
      (hfree event hevent hcap scope hscope)

theorem capsRespected_apply_of_refused {e : EventError} (h : c.answer s = .error e) :
    CapsRespected (c.apply s) ↔ CapsRespected s := by
  rw [Call.apply_of_refused h]
  rfl

end step

/-- A committed call finds the seats free that it does not count. -/
def Provided (s : Db) (c : Call) : Prop := ∀ a, c.answer s = .ok a → FreeSeats s c

/-- No state of a run oversells a cap, exactly when every committed call of the run finds
free the seats that it takes without counting them. -/
theorem caps_throughout_iff {s : Db} (hs : CapsRespected s) (calls : List Call) :
    Throughout Db.next CapsRespected s calls ↔
      Along Db.next Provided s calls := by
  refine throughout_iff_along hs fun s c hs => ?_
  rw [Db.next]
  cases hanswer : c.answer s with
  | error e =>
    rw [capsRespected_apply_of_refused hanswer]
    refine ⟨fun _ a ha => ?_, fun _ => hs⟩
    rw [hanswer] at ha
    cases ha
  | ok a =>
    rw [capsRespected_apply_iff hs hanswer]
    exact ⟨fun h _ _ => h, fun h => h a hanswer⟩

theorem oneSeat_respected : CapsRespected oneSeat := by
  intro event hevent hcap scope hscope
  obtain rfl : event = gig := List.mem_singleton.mp hevent
  cases scope with
  | none => decide
  | some slot => cases hscope

theorem caps_throughout_iff_register :
    Throughout Db.next CapsRespected oneSeat [.register (.counting 1) ann] := by
  refine (caps_throughout_iff oneSeat_respected _).mpr ⟨?_, trivial⟩
  intro a ha event hevent hcap scope hscope hentries
  simp [uncounted, slotted, ann] at hentries

/-- Ann's order is minted as held drafts, Bob registers, then Ann's order is paid. -/
def oversale : List Call :=
  [.seam ⟨.counting 1, "events", some "a", 7, none, .confirmed "100" [ann]⟩,
    .register (.counting 2) { ann with name := "Bob" },
    .seam ⟨.counting 3, "events", some "b", 7, none, .paid []⟩]

theorem oneSeat_oversold :
    CapsRespected oneSeat ∧
    Along Db.next (fun s c => (c.answer s).toOption.isSome = true) oneSeat oversale ∧
    ¬ Throughout Db.next CapsRespected oneSeat oversale := by
  refine ⟨oneSeat_respected, ⟨by decide, by decide, by decide, trivial⟩, fun h => ?_⟩
  have hend := h.last gig (by decide) ⟨rfl, by decide⟩ none rfl
  exact absurd hend (by decide)

end BackboneEvents.SeatCapacity
