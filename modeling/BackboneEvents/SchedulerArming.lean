import BackboneEvents.SeamDeliveries

/-!
# Which calls arm the after_sub schedulers

An event's after_sub schedulers should become due exactly when one of its active rows
enters `open` from `draft`, `cancel` or non-existence. The register head and the state
verbs arm so. A free heal and a paid fact arm every event that owns a linked row, whether
or not they lift a row of it.
-/
namespace BackboneEvents.SchedulerArming
open ConstrainedTables TransactionPrograms GrandTotal SeamDeliveries

def opensFor (eventId : Uuid) (r : Registration) : Bool :=
  r.eventId == eventId && r.active && r.state == .open

/-- An active row of the event is open in `t` that `s` has outside the domain or not at all. -/
def entered (s t : Db) (eventId : Uuid) : Bool :=
  t.registrations.rows.any (fun r =>
    opensFor eventId r && (s.registration? r.id).all Registration.outside)

def armedFor (s : Db) (now : Timestamp) (events : Uuid → Bool) : Table Mail :=
  s.mails.modify (afterSubOf events) (Mail.armed now)

def callTime : Call → Timestamp
  | .register env _ => env.now
  | .transition env _ _ _ => env.now
  | .seam c => c.env.now

/-- The call arms the after_sub schedulers of the events with an entering row, and leaves
every other scheduler row as it is. -/
def ArmsExactly (s : Db) (c : Call) : Prop :=
  (s.next c).mails = armedFor s (callTime c) (entered s (s.next c))

theorem armedFor_none (s : Db) (now : Timestamp) (events : Uuid → Bool)
    (h : ∀ e, events e = false) : armedFor s now events = s.mails :=
  Table.modify_eq_self fun m _ => by simp [afterSubOf, h]

section entered

variable {s t : Db} {eventId : Uuid}

theorem registration?_eq_none {id : Uuid} (h : ∀ r ∈ s.registrations.rows, r.id ≠ id) :
    s.registration? id = none := by
  cases hfound : s.registration? id with
  | none => rfl
  | some r => exact absurd (registration?_mem hfound).2 (h r (registration?_mem hfound).1)

/-- Entering rows are the stored rows that a step opens from outside, and open new rows. -/
theorem entered_of_rows {image : Registration → Registration} {born : List Registration}
    (hrows : t.registrations.rows = s.registrations.rows.map image ++ born)
    (hid : ∀ r ∈ s.registrations.rows, (image r).id = r.id) :
    entered s t eventId =
      (s.registrations.rows.any (fun r => opensFor eventId (image r) && r.outside) ||
        born.any (opensFor eventId)) := by
  have hstored : ∀ r ∈ s.registrations.rows, s.registration? (image r).id = some r := fun r hr => by
    rw [hid r hr, registration?_eq_some hr]
  have hnew : ∀ b ∈ born, s.registration? b.id = none := fun b hb => by
    refine registration?_eq_none fun r hr hsame => ?_
    have hnodup := t.registrations.nodup
    rw [hrows, List.nodup_append] at hnodup
    refine hnodup.2.2 (image r) (List.mem_map_of_mem hr) b hb ?_
    exact registration_eq_of_id (s := t) (by simp [hrows, List.mem_map_of_mem hr])
      (by simp [hrows, hb]) ((hid r hr).trans hsame)
  rw [entered, hrows, List.any_append, List.any_map]
  congr 1
  · exact any_congr fun r hr => by simp [hstored r hr]
  · exact any_congr fun b hb => by simp [hnew b hb]

theorem opensFor_of_outside {r : Registration} (h : r.outside = true) :
    opensFor eventId r = false := by
  cases hstate : r.state <;> simp_all [Registration.outside, opensFor]

/-- Rows that enter when no stored row changes. -/
theorem entered_of_born {born : List Registration}
    (hrows : t.registrations.rows = s.registrations.rows ++ born) :
    entered s t eventId = born.any (opensFor eventId) := by
  have hstored : s.registrations.rows.any (fun r => opensFor eventId r && r.outside) = false :=
    List.any_eq_false.mpr fun r _ h => by
      rw [Bool.and_eq_true] at h
      rw [opensFor_of_outside h.2] at h
      cases h.1
  rw [entered_of_rows (hrows.trans (congrArg (· ++ born) (List.map_id _).symm)) fun _ _ => rfl]
  simp only [id_eq, hstored, Bool.false_or]

/-- Rows that enter when the rows under `p` are updated. -/
theorem entered_of_modify {p : Registration → Bool} {f : Update Registration}
    (hrows : t.registrations.rows = s.registrations.rows.map (fun r => if p r then f r else r))
    (hid : ∀ r, (f r).id = r.id) :
    entered s t eventId =
      s.registrations.rows.any (fun r => p r && (opensFor eventId (f r) && r.outside)) := by
  have himage : ∀ r ∈ s.registrations.rows, (if p r then f r else r).id = r.id := fun r _ => by
    split
    · exact hid r
    · rfl
  rw [entered_of_rows (hrows.trans (List.append_nil _).symm) himage, List.any_nil, Bool.or_false]
  refine any_congr fun r _ => ?_
  cases hp : p r with
  | true => simp
  | false =>
    cases hout : r.outside with
    | false => simp
    | true => simp [opensFor_of_outside hout]

theorem entered_self : entered s s eventId = false :=
  entered_of_born (List.append_nil _).symm

end entered

/-- The rows a heal lifts into `open`. -/
def lifts (c : SeamCall) (r : Registration) : Bool :=
  match c.verb with
  | .confirmed grandTotal _ => grandTotalIsZero grandTotal && freeHeals c.orderId r
  | .cancelled => false
  | .paid _ => paidHeals c.orderId r

/-- The events whose after_sub schedulers a committed call arms. -/
def armsFor (s : Db) : Call → Uuid → Bool
  | .register _ cmd, e => e == cmd.eventId
  | .transition _ registrationId target _, e => (s.registration? registrationId).any
      (fun r => r.active && target == .open && r.outside && r.eventId == e)
  | .seam c, e => s.seamInbox.accepts c.key &&
    match c.verb with
    | .confirmed grandTotal specs => grandTotalIsZero grandTotal &&
      if s.linked c.orderId == 0 then specs.any (·.eventId == e) else s.linkedEvent c.orderId e
    | .cancelled => false
    | .paid _ => s.linkedEvent c.orderId e

section mails

variable {s t : Db} {c : Call} {a : Answer}

theorem armed_armed (now : Timestamp) (m : Mail) :
    Mail.armed now (Mail.armed now m) = Mail.armed now m := rfl

theorem minted_mails_draft {env : Env} {link : SaleLink} {k : ℕ} {specs : List RegisterCommand}
    (h : Minted env link k specs s t) (hdraft : link.initialState = .draft) :
    t.mails = s.mails := by
  induction h with
  | nil k s => rfl
  | cons head tail ih =>
    obtain ⟨event, slotId, -, -, rfl, -, rfl⟩ := run_registerCore_ok head
    rw [ih]
    simp [Db.registered, bornRow, hdraft]

theorem minted_mails_open {env : Env} {link : SaleLink} {k : ℕ} {specs : List RegisterCommand}
    (h : Minted env link k specs s t) (hopen : link.initialState = .open) :
    t.mails = armedFor s env.now (fun e => specs.any (·.eventId == e)) := by
  induction h with
  | nil k s => exact (armedFor_none _ _ _ fun _ => rfl).symm
  | @cons k spec specs s s' t row head tail ih =>
    obtain ⟨event, slotId, -, -, rfl, -, rfl⟩ := run_registerCore_ok head
    have hfirst : (s.registered env spec true
        (bornRow env (env.draw k) spec (some link) event slotId s.orgAxis)).mails =
          armedFor s env.now (· == spec.eventId) := by
      simp [Db.registered, bornRow, hopen, armedFor]
    rw [ih]
    change Table.modify (Db.registered s env spec true _).mails _ _ = _
    rw [hfirst, armedFor, Table.modify_modify (fun _ => rfl) (armed_armed _), armedFor]
    congr 1
    funext m
    simp only [afterSubOf, List.any_cons, BEq.comm (a := m.eventId)]
    cases spec.eventId == m.eventId <;> simp

/-- A committed call arms its events and no other. -/
theorem mails_of_run (h : c.program.run s = .ok (a, t)) :
    t.mails = armedFor s (callTime c) (armsFor s c) := by
  cases Call.effect_of_run h with
  | refused hrefused => rw [h] at hrefused; cases hrefused
  | replayed hclaimed => exact (armedFor_none _ _ _ fun e => by simp [armsFor, hclaimed]).symm
  | registered admitted room fits => rfl
  | @transitioned env r target actor _ found seat =>
    cases hopens : r.active && target == .open && r.outside with
    | true =>
      have harms : armsFor s (.transition env r.id target actor) = (r.eventId == ·) := by
        funext e
        simp only [armsFor, found, Option.any_some, hopens, Bool.true_and]
      rw [harms, Db.transitioned, if_pos hopens]
      rfl
    | false =>
      rw [armedFor_none _ _ _ fun e => by simp [armsFor, found, hopens]]
      simp [Db.transitioned, hopens]
  | @minted c _ _ grandTotal specs verb fresh unlinked mint =>
    cases hfree : grandTotalIsZero grandTotal with
    | true =>
      have harms : armsFor s (.seam c) = fun e => specs.any (·.eventId == e) := by
        funext e
        simp [armsFor, fresh, verb, hfree, unlinked]
      rw [minted_mails_open mint (by simp [bornLink, hfree]), harms]
      rfl
    | false =>
      rw [minted_mails_draft mint (by simp [bornLink, hfree])]
      exact (armedFor_none _ _ _ fun e => by simp [armsFor, verb, hfree]).symm
  | @freeHealed c _ _ _ verb fresh linked free =>
    have harms : armsFor s (.seam c) = s.linkedEvent c.orderId := by
      funext e
      simp [armsFor, fresh, verb, free, linked]
    rw [harms]
    rfl
  | heldBack verb fresh linked paid =>
    exact (armedFor_none _ _ _ fun e => by simp [armsFor, verb, paid]).symm
  | cancelled verb fresh => exact (armedFor_none _ _ _ fun e => by simp [armsFor, verb]).symm
  | @paid c _ lineIds verb fresh =>
    have harms : armsFor s (.seam c) = s.linkedEvent c.orderId := by
      funext e
      simp [armsFor, fresh, verb]
    rw [harms]
    rfl

end mails

/-- The events a committed call brings an active row into `open` for. -/
def opensIn (s : Db) : Call → Uuid → Bool
  | .register env cmd, e => armsFor s (.register env cmd) e
  | .transition env registrationId target actor, e =>
    armsFor s (.transition env registrationId target actor) e
  | .seam c, e => s.seamInbox.accepts c.key &&
    match c.verb with
    | .confirmed grandTotal specs => grandTotalIsZero grandTotal &&
      if s.linked c.orderId == 0 then specs.any (·.eventId == e)
      else s.registrations.rows.any (fun r => lifts c r && r.eventId == e)
    | .cancelled => false
    | .paid _ => s.registrations.rows.any (fun r => lifts c r && r.eventId == e)

section opens

variable {s t : Db} {c : Call} {a : Answer} {eventId : Uuid}

/-- A heal brings in the rows it lifts. -/
theorem entered_of_heal {p : Registration → Bool} {f : Update Registration}
    (hrows : t.registrations.rows = s.registrations.rows.map (fun r => if p r then f r else r))
    (hid : ∀ r, (f r).id = r.id) (hevent : ∀ r, (f r).eventId = r.eventId)
    (hactive : ∀ r, (f r).active = r.active) (hopen : ∀ r, (f r).state = .open)
    (hp : ∀ r, p r = true → r.outside = true ∧ r.active = true) :
    entered s t eventId = s.registrations.rows.any (fun r => p r && r.eventId == eventId) := by
  rw [entered_of_modify hrows hid]
  refine any_congr fun r _ => ?_
  cases hpr : p r with
  | true => simp [opensFor, hevent, hactive, hopen, hp r hpr]
  | false => simp

/-- A committed call brings rows into `open` for just these events. -/
theorem entered_of_run (h : c.program.run s = .ok (a, t)) :
    entered s t eventId = opensIn s c eventId := by
  cases Call.effect_of_run h with
  | refused hrefused => rw [h] at hrefused; cases hrefused
  | replayed hclaimed => simp [entered_self, opensIn, hclaimed]
  | @registered env cmd _ event slotId admitted room fits =>
    simp only [insertable, Bool.and_eq_true] at fits
    rw [entered_of_born (Table.rows_push fits.2)]
    simp [opensFor, bornRow, opensIn, armsFor, BEq.comm (a := eventId)]
  | @transitioned env r target actor _ found seat =>
    have hr := (registration?_mem found).1
    rw [entered_of_modify rfl fun _ => rfl]
    simp only [opensIn, armsFor, found, Option.any_some]
    apply Bool.eq_iff_iff.mpr
    simp only [List.any_eq_true, Bool.and_eq_true, beq_iff_eq, opensFor, moved_eventId,
      moved_active, moved_state]
    constructor
    · rintro ⟨x, hx, hid, ⟨⟨hevent, hactive⟩, htarget⟩, hout⟩
      obtain rfl := registration_eq_of_id hx hr hid
      exact ⟨⟨⟨hactive, htarget⟩, hout⟩, hevent⟩
    · rintro ⟨⟨⟨hactive, htarget⟩, hout⟩, hevent⟩
      exact ⟨r, hr, rfl, ⟨⟨hevent, hactive⟩, htarget⟩, hout⟩
  | @minted c _ _ grandTotal specs verb fresh unlinked mint =>
    obtain ⟨born, hrows, hevents, hborn⟩ := minted_rows mint
    rw [entered_of_born (show t.registrations.rows = s.registrations.rows ++ born from hrows)]
    cases hfree : grandTotalIsZero grandTotal with
    | true =>
      have hopens : born.any (opensFor eventId) = born.any ((· == eventId) ∘ (·.eventId)) :=
        any_congr fun r hr => by
          obtain ⟨hstate, hactive, -, -⟩ := hborn r hr
          simp [opensFor, hstate, hactive, bornLink, hfree]
      rw [hopens, ← List.any_map, hevents, List.any_map]
      simp [opensIn, fresh, verb, hfree, unlinked, Function.comp_def]
    | false =>
      have hopens : born.any (opensFor eventId) = false := List.any_eq_false.mpr fun r hr h => by
        obtain ⟨hstate, -⟩ := hborn r hr
        simp [opensFor, hstate, bornLink, hfree] at h
      rw [hopens]
      simp [opensIn, verb, hfree]
  | @freeHealed c _ _ _ verb fresh linked free =>
    rw [entered_of_heal rfl (fun _ => rfl) (fun _ => rfl) (fun _ => rfl) (fun _ => rfl)
      fun r hr => by
        simp only [freeHeals, Bool.and_eq_true] at hr
        exact ⟨hr.1.2, hr.2⟩]
    simp [opensIn, lifts, fresh, verb, free, linked]
  | @heldBack c _ _ _ verb fresh linked paid =>
    rw [entered_of_modify rfl fun _ => rfl]
    have hnone : ∀ r, (opensFor eventId (Registration.held r) && r.outside) = false := fun r => by
      cases hout : r.outside with
      | true => exact Bool.and_eq_false_imp.mpr fun h =>
          absurd h (Bool.eq_false_iff.mp (opensFor_of_outside hout))
      | false => exact Bool.and_false _
    simp [hnone, opensIn, verb, paid]
  | @cancelled c _ verb fresh =>
    rw [entered_of_modify rfl fun _ => rfl]
    have hnone : ∀ r, opensFor eventId (Registration.orderCancelled r) = false := fun r => by
      simp [opensFor, Registration.orderCancelled]
    simp [hnone, opensIn, verb]
  | @paid c _ lineIds verb fresh =>
    have hlifted : entered s (s.paid c.env c.orderId lineIds) eventId =
        entered s { s with registrations :=
          s.registrations.modify (paidHeals c.orderId) Registration.paidHealed } eventId := by
      rw [entered, entered, Db.paid, Table.rows_modify, List.any_map]
      refine any_congr fun r _ => ?_
      by_cases hsells : paidSells c.orderId r = true <;> simp only [Function.comp_apply, hsells] <;> rfl
    refine (hlifted.trans (entered_of_heal rfl (fun _ => rfl) (fun _ => rfl) (fun _ => rfl)
      (fun _ => rfl) fun r hr => ?_)).trans ?_
    · simp only [paidHeals, Bool.and_eq_true] at hr
      exact ⟨hr.1.1.2, hr.2⟩
    · simp [opensIn, lifts, fresh, verb]

end opens

/-- A fresh free heal or paid fact rewrites an after_sub scheduler of an event that owns a
linked row but no row the delivery lifts. -/
def armsIdly (s : Db) : Call → Bool
  | .register _ _ => false
  | .transition _ _ _ _ => false
  | .seam c => s.seamInbox.accepts c.key &&
    (match c.verb with
      | .confirmed grandTotal _ => grandTotalIsZero grandTotal
      | .cancelled => false
      | .paid _ => true) &&
    s.mails.rows.any (fun m => m.intervalKind == .afterSub && s.linkedEvent c.orderId m.eventId &&
      !s.registrations.rows.any (fun r => lifts c r && r.eventId == m.eventId) &&
      Mail.armed c.env.now m != m)

section exactness

variable {s : Db} {c : Call} {a : Answer}

/-- Arming more events than asked goes unseen only where it rewrites no scheduler row. -/
theorem armedFor_eq_iff {now : Timestamp} {some more : Uuid → Bool}
    (hsub : ∀ e, some e = true → more e = true) :
    armedFor s now more = armedFor s now some ↔
      s.mails.rows.any (fun m => m.intervalKind == .afterSub && more m.eventId &&
        !some m.eventId && Mail.armed now m != m) = false := by
  rw [armedFor, armedFor, Table.modify_eq_iff, List.any_eq_false]
  refine forall₂_congr fun m _ => ?_
  have hm := hsub m.eventId
  cases hmore : more m.eventId <;> cases hsome : some m.eventId <;>
    cases hkind : m.intervalKind == IntervalKind.afterSub <;>
    simp_all [afterSubOf]

theorem linkedEvent_of_lifts {d : SeamCall} {e : Uuid}
    (h : s.registrations.rows.any (fun r => lifts d r && r.eventId == e) = true) :
    s.linkedEvent d.orderId e = true := by
  obtain ⟨r, hr, hlifts⟩ := List.any_eq_true.mp h
  rw [Bool.and_eq_true] at hlifts
  refine List.any_eq_true.mpr ⟨r, hr, ?_⟩
  rw [hlifts.2, Bool.and_true]
  cases hverb : d.verb <;> simp_all [lifts, freeHeals, paidHeals]

theorem linkedEvent_eq_false {orderId : Uuid} (h : s.linked orderId = 0) (e : Uuid) :
    s.linkedEvent orderId e = false := by
  refine List.any_eq_false.mpr fun r hr hlinked => ?_
  rw [Bool.and_eq_true] at hlinked
  exact List.countP_eq_zero.mp h r hr hlinked.1

theorem armsFor_of_opensIn {e : Uuid} (h : opensIn s c e = true) : armsFor s c e = true := by
  cases c with
  | register env cmd => exact h
  | transition env registrationId target actor => exact h
  | seam d =>
    simp only [opensIn, armsFor, Bool.and_eq_true] at h ⊢
    refine ⟨h.1, ?_⟩
    cases hverb : d.verb with
    | cancelled => simp [hverb] at h
    | paid lineIds => exact linkedEvent_of_lifts (by simpa [hverb] using h.2)
    | confirmed grandTotal specs =>
      by_cases hlinked : s.linked d.orderId = 0
      · simpa [hverb, hlinked] using h.2
      · simp only [hverb, Bool.and_eq_true] at h ⊢
        exact ⟨h.2.1, by simpa [hlinked] using linkedEvent_of_lifts (by simpa [hlinked] using h.2.2)⟩

/-- The events a call arms for nothing are those of `armsIdly`. -/
theorem armed_eq_iff (s : Db) (c : Call) :
    armedFor s (callTime c) (armsFor s c) = armedFor s (callTime c) (opensIn s c) ↔
      armsIdly s c = false := by
  have hsub : ∀ e, opensIn s c e = true → armsFor s c e = true := fun _ => armsFor_of_opensIn
  cases c with
  | register env cmd => exact iff_of_true rfl rfl
  | transition env registrationId target actor => exact iff_of_true rfl rfl
  | seam d =>
    rw [armedFor_eq_iff hsub]
    cases hfresh : s.seamInbox.accepts d.key with
    | false => simp [armsFor, armsIdly, hfresh]
    | true =>
      cases hverb : d.verb with
      | cancelled => simp [armsFor, armsIdly, hverb]
      | paid lineIds => simp [armsFor, opensIn, armsIdly, hfresh, hverb, callTime]
      | confirmed grandTotal specs =>
        cases htotal : grandTotalIsZero grandTotal with
        | false => simp [armsFor, armsIdly, hverb, htotal]
        | true =>
          by_cases hlinked : s.linked d.orderId = 0
          · refine iff_of_true (List.any_eq_false.mpr fun m _ h => ?_)
              (by simp [armsIdly, linkedEvent_eq_false hlinked])
            have hsame : opensIn s (.seam d) m.eventId = armsFor s (.seam d) m.eventId := by
              simp [armsFor, opensIn, hfresh, hverb, htotal, hlinked]
            simp only [hsame, Bool.and_eq_true, Bool.not_eq_true'] at h
            rw [h.1.1.2] at h
            exact Bool.noConfusion h.1.2
          · simp [armsFor, opensIn, armsIdly, hfresh, hverb, htotal, hlinked, callTime]

end exactness

/-- A committed call arms the after_sub schedulers of just the events that a row entered,
exactly when it is no heal that rewrites a scheduler of an event it lifts no row of. -/
theorem armsExactly_iff {s : Db} {c : Call} {a : Answer} (h : c.answer s = .ok a) :
    ArmsExactly s c ↔ armsIdly s c = false := by
  obtain ⟨t, rows, hrun, happly⟩ := Call.apply_of_answer h
  have hentered : entered s (s.next c) = opensIn s c := funext fun e => by
    rw [Db.next, happly, ← entered_of_run hrun]
    rfl
  rw [ArmsExactly, hentered, Db.next, happly, audited_mails, mails_of_run hrun]
  exact armed_eq_iff s c

/-- The gig with one after_sub scheduler. -/
def gigWithMail : Db := { oneSeat with
  mails := Table.empty.push ⟨1, 1, 0, .now, .afterSub, .mail, none, false, none, none, none, none,
    none⟩ }

theorem armsExactly_iff_register : ArmsExactly gigWithMail (.register (.counting 1) ann) :=
  (armsExactly_iff (a := .registered (bornRow (.counting 1) ((Env.counting 1).draw 0) ann none gig
    none false)) rfl).mpr rfl

/-- The order is confirmed and paid; a second paid fact arrives five microseconds later. -/
def paidOrder : Db := gigWithMail.applyAll
  [.seam ⟨.counting 1, "events", some "a", 7, none, .confirmed "100" [ann]⟩,
    .seam ⟨.counting 2, "events", some "b", 7, none, .paid []⟩]

def paidAgain : Call :=
  .seam ⟨{ Env.counting 3 with now := 5 }, "events", some "c", 7, none, .paid []⟩

theorem paidAgain_rearms :
    paidAgain.answer paidOrder = .ok (.seam ⟨false, 0, 0⟩) ∧
    (∀ e, entered paidOrder (paidOrder.next paidAgain) e = false) ∧
    paidOrder.mails.rows.map (·.scheduledDate) = [some 0] ∧
    (paidOrder.next paidAgain).mails.rows.map (·.scheduledDate) = [some 5] ∧
    ¬ ArmsExactly paidOrder paidAgain := by
  have hstay : (paidOrder.next paidAgain).registrations.rows.all
      (fun r => !(paidOrder.registration? r.id).all Registration.outside) = true := by decide
  have hentered : ∀ e, entered paidOrder (paidOrder.next paidAgain) e = false := fun e =>
    List.any_eq_false.mpr fun r hr h => by
      have hr' := List.all_eq_true.mp hstay r hr
      simp only [Bool.and_eq_true] at h
      simp [h.2] at hr'
  refine ⟨by decide, hentered, by decide, by decide, fun h => ?_⟩
  rw [ArmsExactly, armedFor_none _ _ _ hentered] at h
  exact absurd (congrArg (fun t => t.rows.map (·.scheduledDate)) h) (by decide)

end BackboneEvents.SchedulerArming
