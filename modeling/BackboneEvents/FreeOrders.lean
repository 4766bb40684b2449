import BackboneEvents.SeatPaths

/-!
# Free orders

The mint of a free order puts its specs through the register head one after the other, each
counted over the rows of those before it. Where the rows of an event share one counting scope,
the order is admitted as a whole exactly when every capped scope that its specs are in has
seats for all of them, in whatever order they stand.
-/
namespace BackboneEvents.FreeOrders
open ConstrainedTables TransactionPrograms GrandTotal SeatCapacity

/-- The delivery that confirms the order with these specs. -/
def confirmation (c : SeamCall) (grandTotal : String) (specs : List RegisterCommand) : Call :=
  .seam { c with verb := .confirmed grandTotal specs }

/-- The seats taken in a scope and the specs in it are at most the cap. -/
def ScopeFits (s : Db) (specs : List RegisterCommand) (event : Event) (scope : Option Uuid) : Prop :=
  (s.taken event.id scope + specs.countP (bookingIn event.id scope).wanted : ℤ) ≤ event.seatsMax

instance {s : Db} {specs : List RegisterCommand} {event : Event} {scope : Option Uuid} :
    Decidable (ScopeFits s specs event scope) := inferInstanceAs (Decidable (_ ≤ _))

/-- Every capped scope that a spec is in fits. -/
def OrderFits (s : Db) (specs : List RegisterCommand) : Prop :=
  ∀ event ∈ s.events.rows, Capped event → ∀ scope, CapScope event scope →
    specs.countP (bookingIn event.id scope).wanted ≠ 0 → ScopeFits s specs event scope

/-- The rows of a spec's event are counted over one scope: by slot, or with no slot at all. -/
def OneScope (s : Db) (specs : List RegisterCommand) : Prop :=
  ∀ spec ∈ specs, ∀ event, s.event? spec.eventId = some event → event.isMultiSlots = false →
    spec.eventSlotId = none

/-- The specs pass every check but the count, with any of the draws from `k` to `n`, and the ids
and barcodes of these draws are new. -/
structure Passing (s : Db) (env : Env) (link : SaleLink) (k n : ℕ)
    (specs : List RegisterCommand) : Prop where
  admitted : ∀ spec ∈ specs, ∀ j, k ≤ j → j < n → ∃ event,
    Admitted s (env.draw j) spec event spec.eventSlotId ∧
      env.checks (bornRow env (env.draw j) spec (some link) event spec.eventSlotId s.orgAxis) = true
  fresh : ∀ j, k ≤ j → j < n → ∀ r ∈ s.registrations.rows,
    r.id ≠ (env.draw j).id ∧ r.barcode ≠ mintBarcode (env.draw j).bytes
  apart : ∀ i j, k ≤ i → i < j → j < n → (env.draw i).id ≠ (env.draw j).id ∧
    mintBarcode (env.draw i).bytes ≠ mintBarcode (env.draw j).bytes

/-- The row of a spec of a free order. -/
structure BornOf (orderId : Uuid) (spec : RegisterCommand) (r : Registration) : Prop where
  event : r.eventId = spec.eventId
  slot : r.eventSlotId = spec.eventSlotId
  ticket : r.eventTicketId = spec.eventTicketId
  attendee : r.name = spec.name ∧ r.email = spec.email
  state : r.state = .open ∧ r.active = true
  sale : r.saleOrderId = some orderId ∧ r.saleStatus = some .free

/-- The order is admitted exactly when it fits, mints one row for each spec and changes no other,
and changes nothing when it is refused. -/
structure AdmittedByCapacity (s : Db) (c : SeamCall) (grandTotal : String)
    (specs : List RegisterCommand) : Prop where
  granted : (∃ a, (confirmation c grandTotal specs).answer s = .ok a) ↔ OrderFits s specs
  minted : ∀ a, (confirmation c grandTotal specs).answer s = .ok a →
    ∃ born, ((confirmation c grandTotal specs).apply s).registrations.rows =
      s.registrations.rows ++ born ∧ List.Forall₂ (BornOf c.orderId) specs born
  unchanged : ∀ e, (confirmation c grandTotal specs).answer s = .error e →
    (confirmation c grandTotal specs).apply s = s

section head

variable {s : Db} {env : Env} {link : SaleLink} {k n : ℕ} {spec : RegisterCommand}
  {specs : List RegisterCommand} {event : Event}

theorem oneScope_iff (hevent : event ∈ s.events.rows) (hone : OneScope s (spec :: specs))
    (hfound : ∃ ev, s.event? spec.eventId = some ev ∧
      slotAdmission s ev spec = .ok spec.eventSlotId) {scope : Option Uuid}
    (hscope : CapScope event scope) :
    (bookingIn event.id scope).wanted spec = true ↔
      spec.eventId = event.id ∧ spec.eventSlotId = scope := by
  simp only [Booking.wanted, bookingIn, Bool.and_eq_true, beq_iff_eq]
  constructor
  · rintro ⟨hid, hslot⟩
    refine ⟨hid, ?_⟩
    obtain ⟨ev, hev, -⟩ := hfound
    obtain rfl : ev = event := Table.eq_of_clash (Table.find_mem hev) hevent (by
      have hevId : ev.id = spec.eventId := by simpa using Table.find_spec hev
      simp [clash, hevId, hid])
    cases scope with
    | some slot => simpa using hslot
    | none => exact hone spec List.mem_cons_self ev hev hscope.symm
  · rintro ⟨hid, hslot⟩
    refine ⟨hid, ?_⟩
    cases scope <;> simp [hslot]

/-- The seats of an admitted spec are counted in the scope it names. -/
theorem capScope_of_admission (hone : OneScope s (spec :: specs))
    (hfound : s.event? spec.eventId = some event)
    (hslot : slotAdmission s event spec = .ok spec.eventSlotId) :
    CapScope event spec.eventSlotId := by
  cases hmulti : event.isMultiSlots with
  | false =>
    have hnone := hone spec List.mem_cons_self event hfound hmulti
    simp [CapScope, hnone, hmulti]
  | true =>
    obtain ⟨slot, hslot', -⟩ := slotOf_of_admission hslot hmulti
    simp [CapScope, hslot', hmulti]

/-- The row of a passing spec belongs to its event and clashes with no stored row. -/
theorem Passing.insertable (h : Passing s env link k n (spec :: specs))
    (hone : OneScope s (spec :: specs)) (hk : k < n) :
    ∃ event, Admitted s (env.draw k) spec event spec.eventSlotId ∧
      insertable s env
        (bornRow env (env.draw k) spec (some link) event spec.eventSlotId s.orgAxis) = true := by
  obtain ⟨event, hadm, hchecks⟩ := h.admitted spec List.mem_cons_self k (Nat.le_refl k) hk
  refine ⟨event, hadm, ?_⟩
  have hticket := hadm.ticket
  have hbelongs : assertRegistrationBelonging s
      (bornRow env (env.draw k) spec (some link) event spec.eventSlotId s.orgAxis) = true := by
    have htickets : spec.eventTicketId.all (fun t => (s.ticketOf t spec.eventId).isSome) = true := by
      cases ht : spec.eventTicketId with
      | none => rfl
      | some ticket =>
        cases hof : s.ticketOf ticket spec.eventId with
        | none => simp [ticketAdmission, ht, hof] at hticket
        | some _ => simp [hof]
    cases hmulti : event.isMultiSlots with
    | false =>
      have hnone := hone spec List.mem_cons_self event hadm.found hmulti
      simp [assertRegistrationBelonging, bornRow, hadm.found, hmulti, hnone, htickets]
    | true =>
      obtain ⟨slot, hslot', hof⟩ := slotOf_of_admission hadm.slot hmulti
      simp [assertRegistrationBelonging, bornRow, hadm.found, hslot', hof, htickets]
  have haccepts : s.registrations.accepts
      (bornRow env (env.draw k) spec (some link) event spec.eventSlotId s.orgAxis) = true := by
    refine Table.accepts_iff.mpr fun r hr => ?_
    have hnew := h.fresh k (Nat.le_refl k) hk r hr
    simp [clash, bornRow, hnew.1, hnew.2]
  simp only [BackboneEvents.insertable, hbelongs, hchecks, haccepts, Bool.and_self]

theorem Passing.registered {row : Registration} (h : Passing s env link k n (spec :: specs))
    (hid : row.id = (env.draw k).id)
    (hbarcode : row.barcode = mintBarcode (env.draw k).bytes) :
    Passing (s.registered env spec true row) env link (k + 1) n specs := by
  constructor
  · intro spec' hspec' j hj hn
    obtain ⟨event, hadm, hchecks⟩ :=
      h.admitted spec' (List.mem_cons_of_mem _ hspec') j (by omega) hn
    exact ⟨event, ⟨hadm.found, hadm.notCancelled, hadm.slot, hadm.ticket⟩, hchecks⟩
  · intro j hj hn r hr
    rcases Table.mem_of_mem_push hr with hr | rfl
    · exact h.fresh j (by omega) hn r hr
    · rw [hid, hbarcode]
      exact h.apart k j (Nat.le_refl k) (by omega) hn
  · intro i j hi hij hn
    exact h.apart i j (by omega) hij hn

/-- The row of the first spec takes its seat out of what the order still wants. -/
theorem taken_registered_add {row : Registration} (haccepts : s.registrations.accepts row = true)
    (heligible : row.eligible = true) (hrow : ∀ b : Booking, b.holds row = b.wanted spec)
    (eventId : Uuid) (scope : Option Uuid) :
    (s.registered env spec true row).taken eventId scope +
        specs.countP (bookingIn eventId scope).wanted =
      s.taken eventId scope + (spec :: specs).countP (bookingIn eventId scope).wanted := by
  rw [taken_eq_seated, taken_eq_seated, seated_registered haccepts, hrow, heligible,
    Bool.and_true, List.countP_cons]
  omega

/-- A fitting order leaves room for its first spec. -/
theorem OrderFits.room (h : OrderFits s (spec :: specs)) (hone : OneScope s (spec :: specs))
    (hfound : s.event? spec.eventId = some event)
    (hslot : slotAdmission s event spec = .ok spec.eventSlotId) :
    event.exhausted (s.taken spec.eventId spec.eventSlotId) = false := by
  have hid : event.id = spec.eventId := by simpa using Table.find_spec hfound
  have hmem : event ∈ s.events.rows := Table.find_mem hfound
  have hown := capScope_of_admission hone hfound hslot
  have hfirst : (bookingIn event.id spec.eventSlotId).wanted spec = true :=
    (oneScope_iff hmem hone ⟨event, hfound, hslot⟩ hown).mpr ⟨hid.symm, rfl⟩
  have hcounted : (spec :: specs).countP (bookingIn event.id spec.eventSlotId).wanted =
      specs.countP (bookingIn event.id spec.eventSlotId).wanted + 1 := by
    rw [List.countP_cons, if_pos hfirst]
  by_contra hexhausted
  obtain ⟨hcap, hfull⟩ : Capped event ∧
      event.seatsMax ≤ (s.taken spec.eventId spec.eventSlotId : ℤ) :=
    exhausted_iff.mp (by simpa using hexhausted)
  have hroom := h event hmem hcap _ hown (by omega)
  rw [ScopeFits, hcounted, hid] at hroom
  omega

/-- After the first spec the others still fit. -/
theorem OrderFits.rest {row : Registration} (h : OrderFits s (spec :: specs))
    (haccepts : s.registrations.accepts row = true) (heligible : row.eligible = true)
    (hrow : ∀ b : Booking, b.holds row = b.wanted spec) :
    OrderFits (s.registered env spec true row) specs := by
  intro ev hev hcap scope hscope hcount
  have hroom := h ev hev hcap scope hscope (by rw [List.countP_cons]; omega)
  have hsame := @taken_registered_add s env spec specs row haccepts heligible hrow ev.id scope
  simp only [ScopeFits] at hroom ⊢
  omega

theorem orderFits_of_rest {row : Registration} (hone : OneScope s (spec :: specs))
    (hfound : s.event? spec.eventId = some event)
    (hslot : slotAdmission s event spec = .ok spec.eventSlotId)
    (haccepts : s.registrations.accepts row = true) (heligible : row.eligible = true)
    (hrow : ∀ b : Booking, b.holds row = b.wanted spec)
    (hroom : event.exhausted (s.taken spec.eventId spec.eventSlotId) = false)
    (hrest : OrderFits (s.registered env spec true row) specs) : OrderFits s (spec :: specs) := by
  have hid : event.id = spec.eventId := by simpa using Table.find_spec hfound
  have hmem : event ∈ s.events.rows := Table.find_mem hfound
  intro ev hev hcap scope hscope hcount
  have hsame := @taken_registered_add s env spec specs row haccepts heligible hrow ev.id scope
  have htail := hrest ev hev hcap scope hscope
  simp only [ScopeFits] at htail ⊢
  by_cases hnone : specs.countP (bookingIn ev.id scope).wanted = 0
  · -- Only the first spec wants a seat of this scope, so its room is enough.
    have hmine : (bookingIn ev.id scope).wanted spec = true := by
      by_contra hother
      rw [List.countP_cons, if_neg hother] at hcount
      omega
    obtain ⟨hevId, rfl⟩ := (oneScope_iff hev hone ⟨event, hfound, hslot⟩ hscope).mp hmine
    obtain rfl : ev = event := Table.eq_of_clash hev hmem (by simp [clash, ← hevId, hid])
    have hbelow : (s.taken spec.eventId spec.eventSlotId : ℤ) < ev.seatsMax := by
      simpa [Event.exhausted, hcap.1, hcap.2] using hroom
    rw [List.countP_cons, if_pos hmine, hnone, hid]
    omega
  · have hkept := htail hnone
    omega

/-- An order fits when its first spec finds room and the others fit after it. -/
theorem orderFits_cons {row : Registration} (hone : OneScope s (spec :: specs))
    (hfound : s.event? spec.eventId = some event)
    (hslot : slotAdmission s event spec = .ok spec.eventSlotId)
    (haccepts : s.registrations.accepts row = true) (heligible : row.eligible = true)
    (hrow : ∀ b : Booking, b.holds row = b.wanted spec) :
    OrderFits s (spec :: specs) ↔
      event.exhausted (s.taken spec.eventId spec.eventSlotId) = false ∧
        OrderFits (s.registered env spec true row) specs := by
  constructor
  · intro hfits
    exact ⟨hfits.room hone hfound hslot, hfits.rest haccepts heligible hrow⟩
  · rintro ⟨hroom, hrest⟩
    exact orderFits_of_rest hone hfound hslot haccepts heligible hrow hroom hrest

end head

section mint

variable {s t : Db} {env : Env} {link : SaleLink} {k n : ℕ} {specs : List RegisterCommand}

/-- The mint of passing specs goes through exactly when they fit. -/
theorem minted_iff (hopen : link.initialState = .open)
    (h : Passing s env link k (k + specs.length) specs) (hone : OneScope s specs) :
    (∃ t, Minted env link k specs s t) ↔ OrderFits s specs := by
  induction specs generalizing k s with
  | nil =>
    refine iff_of_true ⟨s, .nil k s⟩ fun event _ _ scope _ hcount => ?_
    exact absurd List.countP_nil hcount
  | cons spec specs ih =>
    have hk : k < k + (spec :: specs).length := by simp
    obtain ⟨event, hadm, hfits⟩ := h.insertable hone hk
    have hrun := @run_registerCore_of_admitted env (env.draw k) spec (some link) s event _ hadm
    generalize hrow : bornRow env (env.draw k) spec (some link) event spec.eventSlotId s.orgAxis =
      row at hfits hrun
    have haccepts := accepts_of_insertable hfits
    have heligible : row.eligible = true := by
      rw [← hrow]
      simp [bornRow, Registration.eligible, hopen]
    have hholds : ∀ b : Booking, b.holds row = b.wanted spec := fun b => by
      rw [← hrow]
      exact holds_bornRow rfl
    have hnext : Passing (s.registered env spec true row) env link (k + 1)
        (k + 1 + specs.length) specs := by
      have hlength : k + (spec :: specs).length = k + 1 + specs.length := by
        simp only [List.length_cons]
        omega
      rw [← hlength]
      exact h.registered (by rw [← hrow]; rfl) (by rw [← hrow]; rfl)
    have hone' : OneScope (s.registered env spec true row) specs :=
      fun spec' hspec' => hone spec' (List.mem_cons_of_mem _ hspec')
    rw [orderFits_cons hone hadm.found hadm.slot haccepts heligible hholds, ← ih hnext hone']
    constructor
    · rintro ⟨t, hmint⟩
      cases hmint with
      | cons head tail =>
        cases hroom : event.exhausted (s.taken spec.eventId spec.eventSlotId) with
        | true => simp [hrun, hroom] at head
        | false =>
          obtain ⟨-, rfl⟩ : row = _ ∧ s.registered env spec true row = _ := by
            simpa [hrun, hroom, hfits] using head
          exact ⟨rfl, t, tail⟩
    · rintro ⟨hroom, t, tail⟩
      refine ⟨t, @Minted.cons env link k spec specs s _ t row ?_ tail⟩
      rw [hrun, hroom, hfits]
      rfl

theorem minted_born (h : Minted env link k specs s t) (hopen : link.initialState = .open)
    (hfree : link.saleStatus = .free) : ∃ born,
      t.registrations.rows = s.registrations.rows ++ born ∧
        List.Forall₂ (BornOf link.saleOrderId) specs born := by
  induction h with
  | nil k s => exact ⟨[], by simp, .nil⟩
  | @cons k spec specs s s' t row head tail ih =>
    obtain ⟨born, hrows, hborn⟩ := ih
    obtain ⟨event, slotId, hadm, -, hrow, hfits, rfl⟩ := run_registerCore_ok head
    refine ⟨row :: born, ?_, .cons ?_ hborn⟩
    · rw [hrows, Db.registered, Table.rows_push (accepts_of_insertable hfits), List.append_assoc]
      rfl
    · subst hrow
      exact ⟨rfl, slotAdmission_eq hadm.slot, rfl, ⟨rfl, rfl⟩, ⟨hopen, rfl⟩,
        ⟨rfl, congrArg some hfree⟩⟩

end mint

section order

variable {s : Db} {c : SeamCall} {grandTotal : String} {specs specs' : List RegisterCommand}

theorem orderFits_perm (h : specs'.Perm specs) : OrderFits s specs' ↔ OrderFits s specs := by
  simp only [OrderFits, ScopeFits, h.countP_eq]

theorem Passing.perm {env : Env} {link : SaleLink} {k n : ℕ} (hpass : Passing s env link k n specs)
    (h : specs'.Perm specs) : Passing s env link k n specs' :=
  ⟨fun spec hspec => hpass.admitted spec (h.mem_iff.mp hspec), hpass.fresh, hpass.apart⟩

theorem Passing.claimed {env : Env} {link : SaleLink} {k n : ℕ} {consumer externalId : String}
    (h : Passing s env link k n specs) :
    Passing (s.claimed consumer externalId) env link k n specs := by
  refine ⟨fun spec hspec j hk hn => ?_, h.fresh, h.apart⟩
  obtain ⟨event, hadm, hchecks⟩ := h.admitted spec hspec j hk hn
  exact ⟨event, ⟨hadm.found, hadm.notCancelled, hadm.slot, hadm.ticket⟩, hchecks⟩

/-- A delivery that mints is admitted exactly when its mint goes through. -/
theorem granted_iff (hfresh : s.seamInbox.accepts ⟨c.consumer,
      claimKey "confirmed" c.deliveryId c.orderId⟩ = true) (hunlinked : s.linked c.orderId = 0) :
    (∃ a, (confirmation c grandTotal specs).answer s = .ok a) ↔
      ∃ t, Minted c.env (bornLink c.orderId (grandTotalIsZero grandTotal)) 0 specs
        (s.claimed c.consumer (claimKey "confirmed" c.deliveryId c.orderId)) t := by
  rw [← admits_iff]
  exact ⟨fun h => h hfresh hunlinked, fun h _ _ => h⟩

end order

/-- A free order without rows, under a fresh key, whose specs pass every check but the count, is
admitted exactly when every capped scope of its specs fits, whatever order the specs are in. -/
theorem freeOrder_admitted {s : Db} {c : SeamCall} {grandTotal : String}
    {specs : List RegisterCommand} (hfree : grandTotalIsZero grandTotal = true)
    (hfresh : s.seamInbox.accepts ⟨c.consumer,
      claimKey "confirmed" c.deliveryId c.orderId⟩ = true)
    (hunlinked : s.linked c.orderId = 0)
    (hpass : Passing s c.env (bornLink c.orderId true) 0 specs.length specs)
    (hone : OneScope s specs) (specs' : List RegisterCommand) (hperm : specs'.Perm specs) :
    (OrderFits s specs' ↔ OrderFits s specs) ∧ AdmittedByCapacity s c grandTotal specs' := by
  refine ⟨orderFits_perm hperm, ?_, ?_, ?_⟩
  · rw [granted_iff hfresh hunlinked, hfree]
    have hpass' : Passing s c.env (bornLink c.orderId true) 0 (0 + specs'.length) specs' := by
      rw [Nat.zero_add, hperm.length_eq]
      exact hpass.perm hperm
    have hone' : OneScope s specs' := fun spec hspec => hone spec (hperm.mem_iff.mp hspec)
    exact minted_iff rfl hpass'.claimed hone'
  · intro a hanswer
    obtain ⟨t, rows, hrun, happly⟩ := Call.apply_of_answer hanswer
    have hminted : ∃ born, t.registrations.rows = s.registrations.rows ++ born ∧
        List.Forall₂ (BornOf c.orderId) specs' born := by
      cases Call.effect_of_run hrun with
      | refused hrefused =>
        rw [hrun] at hrefused
        cases hrefused
      | replayed hclaimed => exact absurd hfresh (by simpa [SeamCall.key, SeamVerb.name] using hclaimed)
      | minted verb fresh unlinked mint =>
        cases verb
        rw [hfree] at mint
        exact minted_born mint rfl rfl
      | freeHealed verb fresh linked free => exact absurd hunlinked linked
      | heldBack verb fresh linked paid => exact absurd hunlinked linked
      | cancelled verb fresh => cases verb
      | paid verb fresh => cases verb
    rw [happly]
    exact hminted
  · intro e hrefused
    exact AuditTruth.apply_of_refused hrefused

section sample

/-- A confirmed order for one attendee of the open event. -/
def oneOrder : SeamCall := ⟨.counting 20, "events", some "b", 8, none, .confirmed "0" []⟩

/-- An event with so many seats. -/
def seats (n : ℤ) : Db := { Db.empty with events := Table.empty.push { gig with seatsMax := n } }

/-- An order for two attendees. -/
def pair : List RegisterCommand := [ann, { ann with name := "Bob" }]

theorem pair_passing (n : ℤ) : Passing (seats n) oneOrder.env (bornLink 8 true) 0 2 pair := by
  refine ⟨fun spec hspec j _ _ => ?_, fun j _ _ r hr => (by cases hr), fun i j _ hij hj => ?_⟩
  · refine ⟨{ gig with seatsMax := n }, ?_, rfl⟩
    rcases List.mem_pair.mp hspec with rfl | rfl
    · exact ⟨rfl, nofun, rfl, rfl⟩
    · exact ⟨rfl, nofun, rfl, rfl⟩
  · obtain ⟨rfl, rfl⟩ : i = 0 ∧ j = 1 := by omega
    decide

theorem pair_oneScope (n : ℤ) : OneScope (seats n) pair := by
  intro spec hspec event _ _
  rcases List.mem_pair.mp hspec with rfl | rfl <;> rfl

/-- Two seats admit the order, and one seat does not. -/
theorem freeOrder_admitted_pair :
    AdmittedByCapacity (seats 2) oneOrder "0" pair ∧ OrderFits (seats 2) pair ∧
    AdmittedByCapacity (seats 1) oneOrder "0" pair ∧ ¬ OrderFits (seats 1) pair := by
  refine ⟨(@freeOrder_admitted (seats 2) oneOrder "0" pair (by decide) (by decide) (by decide)
    (pair_passing 2) (pair_oneScope 2) pair (.refl _)).2, ?_,
    (@freeOrder_admitted (seats 1) oneOrder "0" pair (by decide) (by decide) (by decide)
    (pair_passing 1) (pair_oneScope 1) pair (.refl _)).2, ?_⟩
  · intro event hevent hcap scope hscope _
    obtain rfl : event = { gig with seatsMax := 2 } := List.mem_singleton.mp hevent
    obtain rfl : scope = none := by cases scope with
      | none => rfl
      | some slot => cases hscope
    decide
  · intro hfits
    exact absurd (hfits { gig with seatsMax := 1 } (by decide) ⟨rfl, by decide⟩ none rfl (by decide))
      (by decide)

/-- Two rows hold seats of an event that has one, beside an event without a limit. -/
def crowded : Db := { Db.empty with
  events := (Table.empty.push gig).push { gig with id := 2, seatsLimited := false }
  registrations := (Table.empty.push { heldDraft with state := .open }).push
    { heldDraft with id := 10, barcode := "10", state := .open } }

def elsewhere : List RegisterCommand := [{ ann with eventId := 2 }]

theorem elsewhere_passing : Passing crowded oneOrder.env (bornLink 8 true) 0 1 elsewhere := by
  refine ⟨fun spec hspec j _ hj => ?_, fun j _ hj r hr => ?_, fun i j _ _ _ => by omega⟩
  · obtain rfl := List.mem_singleton.mp hspec
    obtain rfl : j = 0 := by omega
    exact ⟨{ gig with id := 2, seatsLimited := false },
      ⟨by decide, by decide, by decide, by decide⟩, rfl⟩
  · obtain rfl : j = 0 := by omega
    revert r
    decide

theorem elsewhere_oneScope : OneScope crowded elsewhere := by
  intro spec hspec event _ _
  rw [List.mem_singleton.mp hspec]
  rfl

/-- The order is admitted, and a capped scope that none of its specs is in is over its cap. -/
theorem elsewhere_granted :
    grandTotalIsZero "0" = true ∧
    crowded.seamInbox.accepts ⟨"events", claimKey "confirmed" (some "b") 8⟩ = true ∧
    crowded.linked 8 = 0 ∧ Passing crowded oneOrder.env (bornLink 8 true) 0 1 elsewhere ∧
    OneScope crowded elsewhere ∧
    ((confirmation oneOrder "0" elsewhere).answer crowded).toOption.isSome = true ∧
    ¬ ∀ event ∈ crowded.events.rows, Capped event → ∀ scope, CapScope event scope →
      ScopeFits crowded elsewhere event scope := by
  refine ⟨by decide, by decide, by decide, elsewhere_passing, elsewhere_oneScope, by decide, ?_⟩
  intro h
  exact absurd (h gig (by decide) ⟨rfl, by decide⟩ none rfl) (by decide)

end sample

end BackboneEvents.FreeOrders
