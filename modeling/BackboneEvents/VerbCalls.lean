import BackboneEvents.VerbEffects

/-!
# Calls of the verbs and their runs

A call is one verb with all its arguments, committed or rolled back as a whole. A run
applies calls one after the other. What one call can do to the database is stated once,
case by case; every property of runs is a case analysis over it.
-/
namespace BackboneEvents
open ConstrainedTables TransactionPrograms GrandTotal

inductive SeamVerb where
  | confirmed (grandTotal : String) (specs : List RegisterCommand)
  | cancelled
  | paid (lineIds : List Uuid)
  deriving DecidableEq, Repr

def SeamVerb.name : SeamVerb → String
  | .confirmed _ _ => "confirmed"
  | .cancelled => "cancelled"
  | .paid _ => "paid"

/-- One delivery to the sale seam. -/
structure SeamCall where
  env : Env
  consumer : String
  deliveryId : Option String
  orderId : Uuid
  actor : Option Uuid
  verb : SeamVerb

def SeamCall.key (c : SeamCall) : InboxRow :=
  ⟨c.consumer, claimKey c.verb.name c.deliveryId c.orderId⟩

def SeamCall.program (c : SeamCall) : Tx SeamOutcome :=
  match c.verb with
  | .confirmed grandTotal specs =>
    onOrderConfirmed c.env c.consumer c.deliveryId c.orderId grandTotal specs c.actor
  | .cancelled => onOrderCancelled c.consumer c.deliveryId c.orderId c.actor
  | .paid lineIds => onOrderPaid c.env c.consumer c.deliveryId c.orderId lineIds c.actor

/-- What the verb does once its delivery is claimed. -/
def SeamCall.body (c : SeamCall) : Tx SeamOutcome :=
  match c.verb with
  | .confirmed grandTotal specs =>
    mintOrHeal c.env c.orderId (grandTotalIsZero grandTotal) specs c.actor
  | .cancelled => cancelOrder c.orderId c.actor
  | .paid lineIds => payOrder c.env c.orderId lineIds c.actor

/-- All three verbs claim first and answer a claimed delivery without an effect. -/
theorem SeamCall.program_eq (c : SeamCall) :
    c.program = (claim c.key.consumer c.key.externalId >>= fun claimed =>
      if !claimed then return alreadyApplied else c.body) := by
  cases hv : c.verb <;> simp only [program, key, body, hv] <;> rfl

/-- A call of the seat repository, a state verb to any target, or a delivery. -/
inductive Call where
  | register (env : Env) (cmd : RegisterCommand)
  | transition (env : Env) (registrationId : Uuid) (target : RegistrationState)
      (actor : Option Uuid)
  | seam (c : SeamCall)

inductive Answer where
  | registered (row : Registration)
  | moved (before after : RegistrationState) (active : Bool)
  | seam (outcome : SeamOutcome)
  deriving DecidableEq, Repr

def Call.program : Call → Tx Answer
  | .register env cmd => do
    let row ← BackboneEvents.register env cmd
    return .registered row
  | .transition env registrationId target actor => do
    let (before, after, active) ← BackboneEvents.transition env registrationId target actor
    return .moved before after active
  | .seam c => do
    let outcome ← c.program
    return .seam outcome

def Db.absorb (s : Db) (row : AuditRow) : Db := { s with auditTrails := s.auditTrails ++ [row] }

def Call.answer (c : Call) (s : Db) : Except EventError Answer := (c.program.execute Db.absorb s).1

/-- The database after the call: its commit, or what a rollback leaves. -/
def Call.apply (c : Call) (s : Db) : Db := (c.program.execute Db.absorb s).2

def Db.next (s : Db) (c : Call) : Db := c.apply s

def Db.applyAll (s : Db) (calls : List Call) : Db := calls.foldl Db.next s

@[simp] theorem applyAll_nil (s : Db) : s.applyAll [] = s := rfl

@[simp] theorem applyAll_cons (s : Db) (c : Call) (cs : List Call) :
    s.applyAll (c :: cs) = (c.apply s).applyAll cs := rfl

theorem applyAll_append (s : Db) (cs ds : List Call) :
    s.applyAll (cs ++ ds) = (s.applyAll cs).applyAll ds := List.foldl_append

/-- The database with further audit rows. -/
def Db.audited (s : Db) (rows : List AuditRow) : Db :=
  { s with auditTrails := s.auditTrails ++ rows }

section audited

variable (s : Db) (rows : List AuditRow)

@[simp] theorem audited_events : (s.audited rows).events = s.events := rfl

@[simp] theorem audited_registrations : (s.audited rows).registrations = s.registrations := rfl

@[simp] theorem audited_mails : (s.audited rows).mails = s.mails := rfl

@[simp] theorem audited_mailRegistrations :
    (s.audited rows).mailRegistrations = s.mailRegistrations := rfl

@[simp] theorem audited_seamInbox : (s.audited rows).seamInbox = s.seamInbox := rfl

@[simp] theorem audited_booths : (s.audited rows).booths = s.booths := rfl

@[simp] theorem audited_leadRequests : (s.audited rows).leadRequests = s.leadRequests := rfl

@[simp] theorem audited_leadRules : (s.audited rows).leadRules = s.leadRules := rfl

theorem foldl_absorb : rows.foldl Db.absorb s = s.audited rows := by
  induction rows generalizing s with
  | nil => simp [Db.audited]
  | cons row rows ih => simp [ih, Db.absorb, Db.audited]

variable {s} {α : Type} {p : Tx α}

theorem execute_error {e : EventError} (h : p.run s = .error e) :
    p.execute Db.absorb s = (.error e, s.audited (p.notes s)) := by
  simp only [Program.execute, h, foldl_absorb]

theorem execute_ok {a : α} {t : Db} (h : p.run s = .ok (a, t)) :
    p.execute Db.absorb s = (.ok a, t.audited (p.notes s ++ p.notesAfter s)) := by
  simp only [Program.execute, h, foldl_absorb]

end audited

/-- What one call can do, up to the audit trail. -/
inductive Call.Effect : Call → Db → Db → Prop
  | refused {c : Call} {s : Db} {e : EventError} (h : c.program.run s = .error e) :
      Effect c s s
  | replayed {c : SeamCall} {s : Db} (h : s.seamInbox.accepts c.key = false) :
      Effect (.seam c) s s
  | registered {env : Env} {cmd : RegisterCommand} {s : Db} {event : Event}
      {slotId : Option Uuid} (admitted : Admitted s (env.draw 0) cmd event slotId)
      (room : event.exhausted (s.taken cmd.eventId slotId) = false)
      (fits : insertable s env
        (bornRow env (env.draw 0) cmd none event slotId s.orgAxis) = true) :
      Effect (.register env cmd) s (s.registered env cmd false
        (bornRow env (env.draw 0) cmd none event slotId s.orgAxis))
  | transitioned {env : Env} {r : Registration} {target : RegistrationState}
      {actor : Option Uuid} {s : Db} (found : s.registration? r.id = some r)
      (seat : takesSeat r target = true → ∃ event, s.event? r.eventId = some event ∧
        event.exhausted (s.taken r.eventId r.eventSlotId) = false) :
      Effect (.transition env r.id target actor) s (s.transitioned env r target actor)
  | minted {c : SeamCall} {s t : Db} {grandTotal : String} {specs : List RegisterCommand}
      (verb : c.verb = .confirmed grandTotal specs) (fresh : s.seamInbox.accepts c.key = true)
      (unlinked : s.linked c.orderId = 0)
      (mint : Minted c.env (bornLink c.orderId (grandTotalIsZero grandTotal)) 0 specs
        (s.claimed c.key.consumer c.key.externalId) t) :
      Effect (.seam c) s t
  | freeHealed {c : SeamCall} {s : Db} {grandTotal : String} {specs : List RegisterCommand}
      (verb : c.verb = .confirmed grandTotal specs) (fresh : s.seamInbox.accepts c.key = true)
      (linked : s.linked c.orderId ≠ 0) (free : grandTotalIsZero grandTotal = true) :
      Effect (.seam c) s ((s.claimed c.key.consumer c.key.externalId).freeHealed c.env c.orderId)
  | heldBack {c : SeamCall} {s : Db} {grandTotal : String} {specs : List RegisterCommand}
      (verb : c.verb = .confirmed grandTotal specs) (fresh : s.seamInbox.accepts c.key = true)
      (linked : s.linked c.orderId ≠ 0) (paid : grandTotalIsZero grandTotal = false) :
      Effect (.seam c) s ((s.claimed c.key.consumer c.key.externalId).heldBack c.orderId)
  | cancelled {c : SeamCall} {s : Db} (verb : c.verb = .cancelled)
      (fresh : s.seamInbox.accepts c.key = true) :
      Effect (.seam c) s ((s.claimed c.key.consumer c.key.externalId).orderCancelled c.orderId)
  | paid {c : SeamCall} {s : Db} {lineIds : List Uuid} (verb : c.verb = .paid lineIds)
      (fresh : s.seamInbox.accepts c.key = true) :
      Effect (.seam c) s ((s.claimed c.key.consumer c.key.externalId).paid c.env c.orderId lineIds)

theorem claimed_of_not_accepts {s : Db} {k : InboxRow} (h : s.seamInbox.accepts k = false) :
    s.claimed k.consumer k.externalId = s := by
  simp [Db.claimed, Table.push_of_not_accepts h]

theorem SeamCall.run_program (c : SeamCall) (s : Db) :
    c.program.run s = if s.seamInbox.accepts c.key then
      c.body.run (s.claimed c.key.consumer c.key.externalId) else .ok (alreadyApplied, s) := by
  rw [c.program_eq, Program.bind_eq, Program.run_bind, run_claim]
  cases h : s.seamInbox.accepts c.key with
  | true => simp [Except.bind]
  | false => simp [Except.bind, claimed_of_not_accepts h]

section effect

variable {s t : Db}

theorem register_effect {env : Env} {cmd : RegisterCommand} {a : Answer}
    (h : (Call.register env cmd).program.run s = .ok (a, t)) :
    (Call.register env cmd).Effect s t := by
  obtain ⟨row, t', hrun, hpure⟩ := Program.run_bind_ok h
  obtain ⟨-, rfl⟩ := Prod.mk.inj (Except.ok.inj hpure)
  obtain ⟨event, slotId, hadm, hroom, rfl, hfits, rfl⟩ := run_registerCore_ok hrun
  exact .registered hadm hroom hfits

theorem transition_effect {env : Env} {registrationId : Uuid} {target : RegistrationState}
    {actor : Option Uuid} {a : Answer}
    (h : (Call.transition env registrationId target actor).program.run s = .ok (a, t)) :
    (Call.transition env registrationId target actor).Effect s t := by
  obtain ⟨answer, t', hrun, hpure⟩ := Program.run_bind_ok h
  obtain ⟨-, rfl⟩ := Prod.mk.inj (Except.ok.inj hpure)
  cases hfound : s.registration? registrationId with
  | none =>
    rw [run_transition_none _ _ _ hfound] at hrun
    cases hrun
  | some r =>
    obtain ⟨-, rfl⟩ := registration?_mem hfound
    rw [run_transition_some _ _ _ hfound] at hrun
    split at hrun
    · split at hrun
      · cases hrun
      · next event hevent =>
        split at hrun
        · cases hrun
        · next hroom =>
          obtain ⟨-, rfl⟩ := Prod.mk.inj (Except.ok.inj hrun)
          exact .transitioned hfound fun _ => ⟨event, hevent, by simpa using hroom⟩
    · next hseat =>
      obtain ⟨-, rfl⟩ := Prod.mk.inj (Except.ok.inj hrun)
      exact .transitioned hfound fun h => absurd h hseat

theorem seam_effect {c : SeamCall} {a : Answer} (h : (Call.seam c).program.run s = .ok (a, t)) :
    (Call.seam c).Effect s t := by
  obtain ⟨outcome, t', hrun, hpure⟩ := Program.run_bind_ok h
  obtain ⟨-, rfl⟩ := Prod.mk.inj (Except.ok.inj hpure)
  rw [c.run_program] at hrun
  cases hfresh : s.seamInbox.accepts c.key with
  | false =>
    obtain ⟨-, rfl⟩ : _ ∧ s = t' := by simpa [hfresh] using hrun
    exact .replayed hfresh
  | true =>
    simp only [hfresh, if_true] at hrun
    have hcount : (s.claimed c.key.consumer c.key.externalId).linked c.orderId =
      s.linked c.orderId := rfl
    cases hverb : c.verb with
    | confirmed grandTotal specs =>
      simp only [SeamCall.body, hverb] at hrun
      by_cases hlinked : s.linked c.orderId = 0
      · rw [run_mintOrHeal_unlinked (hcount.trans hlinked)] at hrun
        cases hmint : (mint c.env (bornLink c.orderId (grandTotalIsZero grandTotal)) 0 specs).run
            (s.claimed c.key.consumer c.key.externalId) with
        | error e => simp [hmint, Except.map] at hrun
        | ok r =>
          obtain ⟨n, u⟩ := r
          obtain ⟨-, rfl⟩ : _ ∧ u = t' := by simpa [hmint, Except.map] using hrun
          exact .minted hverb hfresh hlinked (run_mint_ok hmint).2
      · rw [run_mintOrHeal_linked (hcount.trans_ne hlinked)] at hrun
        cases htotal : grandTotalIsZero grandTotal with
        | true =>
          simp only [htotal, if_true] at hrun
          obtain ⟨-, rfl⟩ := Prod.mk.inj (Except.ok.inj hrun)
          exact .freeHealed hverb hfresh hlinked htotal
        | false =>
          simp only [htotal, Bool.false_eq_true, if_false] at hrun
          obtain ⟨-, rfl⟩ := Prod.mk.inj (Except.ok.inj hrun)
          exact .heldBack hverb hfresh hlinked htotal
    | cancelled =>
      simp only [SeamCall.body, hverb, run_cancelOrder] at hrun
      obtain ⟨-, rfl⟩ := Prod.mk.inj (Except.ok.inj hrun)
      exact .cancelled hverb hfresh
    | paid lineIds =>
      simp only [SeamCall.body, hverb, run_payOrder] at hrun
      obtain ⟨-, rfl⟩ := Prod.mk.inj (Except.ok.inj hrun)
      exact .paid hverb hfresh

theorem Call.effect_of_run {c : Call} {a : Answer} (h : c.program.run s = .ok (a, t)) :
    c.Effect s t := by
  cases c with
  | register env cmd => exact register_effect h
  | transition env registrationId target actor => exact transition_effect h
  | seam c => exact seam_effect h

/-- Every call has one of the effects, and leaves further audit rows at most. -/
theorem Call.apply_effect (c : Call) (s : Db) :
    ∃ t rows, c.Effect s t ∧ c.apply s = t.audited rows := by
  cases h : c.program.run s with
  | error e =>
    exact ⟨s, _, .refused h, by simp only [apply, Program.execute, h, foldl_absorb]; rfl⟩
  | ok r =>
    exact ⟨r.2, _, effect_of_run h, by simp only [apply, Program.execute, h, foldl_absorb]; rfl⟩

/-- No verb writes an event row. -/
theorem Call.Effect.events {c : Call} (h : c.Effect s t) : t.events = s.events := by
  cases h with
  | minted verb fresh unlinked mint => exact mint.keeps Db.events fun _ _ _ => rfl
  | refused | replayed | registered | transitioned | freeHealed | heldBack | cancelled | paid => rfl

/-- What one call can do to one stored registration. -/
inductive Call.RowStep : Call → Registration → Registration → Prop
  | same (c : Call) (r : Registration) : RowStep c r r
  | moved (env : Env) (r : Registration) (target : RegistrationState) (actor : Option Uuid) :
      RowStep (.transition env r.id target actor) r (Registration.moved env.now target r)
  | freeHealed {c : SeamCall} {r : Registration} {grandTotal : String}
      {specs : List RegisterCommand} (verb : c.verb = .confirmed grandTotal specs)
      (free : grandTotalIsZero grandTotal = true) (h : freeHeals c.orderId r = true) :
      RowStep (.seam c) r (Registration.freeHealed r)
  | held {c : SeamCall} {r : Registration} {grandTotal : String} {specs : List RegisterCommand}
      (verb : c.verb = .confirmed grandTotal specs) (paid : grandTotalIsZero grandTotal = false)
      (h : activeOfOrder c.orderId r = true) : RowStep (.seam c) r (Registration.held r)
  | orderCancelled {c : SeamCall} {r : Registration} (verb : c.verb = .cancelled)
      (h : activeOfOrder c.orderId r = true) : RowStep (.seam c) r (Registration.orderCancelled r)
  | paidHealed {c : SeamCall} {r : Registration} {lineIds : List Uuid} (verb : c.verb = .paid lineIds)
      (h : paidHeals c.orderId r = true) : RowStep (.seam c) r (Registration.paidHealed r)
  | sold {c : SeamCall} {r : Registration} {lineIds : List Uuid} (verb : c.verb = .paid lineIds)
      (hheals : paidHeals c.orderId r = false) (h : paidSells c.orderId r = true) :
      RowStep (.seam c) r (Registration.sold r)

/-- What one call can add to the registrations. -/
inductive Call.Born : Call → Registration → Prop
  | registered {env : Env} {cmd : RegisterCommand} {r : Registration}
      (event : r.eventId = cmd.eventId) (state : r.state = .open) (active : r.active = true)
      (order : r.saleOrderId = none) (status : r.saleStatus = none) : Born (.register env cmd) r
  | minted {c : SeamCall} {r : Registration} {grandTotal : String} {specs : List RegisterCommand}
      (verb : c.verb = .confirmed grandTotal specs)
      (event : ∃ spec ∈ specs, r.eventId = spec.eventId)
      (state : r.state = (bornLink c.orderId (grandTotalIsZero grandTotal)).initialState)
      (active : r.active = true) (order : r.saleOrderId = some c.orderId)
      (status : r.saleStatus = some (bornLink c.orderId (grandTotalIsZero grandTotal)).saleStatus) :
      Born (.seam c) r

/-- A mint appends one row for each spec, in order. -/
theorem minted_rows {env : Env} {link : SaleLink} {k : ℕ} {specs : List RegisterCommand}
    (h : Minted env link k specs s t) : ∃ born, t.registrations.rows = s.registrations.rows ++ born ∧
      born.map (·.eventId) = specs.map (·.eventId) ∧
      ∀ r ∈ born, r.state = link.initialState ∧ r.active = true ∧
        r.saleOrderId = some link.saleOrderId ∧ r.saleStatus = some link.saleStatus := by
  induction h with
  | nil k s => exact ⟨[], by simp⟩
  | @cons k spec specs s s' t row head tail ih =>
    obtain ⟨born, hrows, hevents, hborn⟩ := ih
    obtain ⟨event, slotId, -, -, hrow, hfits, rfl⟩ := run_registerCore_ok head
    have hevent : row.eventId = spec.eventId := congrArg Registration.eventId hrow
    refine ⟨row :: born, ?_, by rw [List.map_cons, List.map_cons, hevents, hevent], ?_⟩
    · simp only [insertable, Bool.and_eq_true] at hfits
      rw [hrows, Db.registered, Table.rows_push hfits.2, List.append_assoc]
      rfl
    · intro r hr
      rcases List.mem_cons.mp hr with rfl | hr
      · subst hrow
        exact ⟨rfl, rfl, rfl, rfl⟩
      · exact hborn r hr

/-- The registrations after a call: every stored row takes one step, new rows follow. -/
theorem Call.Effect.rows {c : Call} (h : c.Effect s t) : ∃ image born,
    t.registrations.rows = s.registrations.rows.map image ++ born ∧
      (∀ r ∈ s.registrations.rows, c.RowStep r (image r)) ∧ ∀ r ∈ born, c.Born r := by
  cases h with
  | refused | replayed => exact ⟨id, [], by simp, fun r _ => .same _ r, by simp⟩
  | @registered env cmd _ event slotId admitted room fits =>
    simp only [insertable, Bool.and_eq_true] at fits
    refine ⟨id, [bornRow env (env.draw 0) cmd none event slotId s.orgAxis], ?_,
      fun r _ => .same _ r, ?_⟩
    · rw [Db.registered, Table.rows_push fits.2, List.map_id]
    · intro r hr
      rw [List.mem_singleton.mp hr]
      exact .registered rfl rfl rfl rfl rfl
  | @transitioned env r target actor _ found seat =>
    refine ⟨_, [], (List.append_nil _).symm, fun x hx => ?_, by simp⟩
    by_cases hid : x.id = r.id
    · simpa [hid] using RowStep.moved env x target actor
    · simpa [hid] using RowStep.same _ x
  | minted verb fresh unlinked mint =>
    obtain ⟨born, hrows, hevents, hborn⟩ := minted_rows mint
    refine ⟨id, born, by rw [List.map_id]; exact hrows, fun r _ => .same _ r, fun r hr => ?_⟩
    obtain ⟨hstate, hactive, horder, hstatus⟩ := hborn r hr
    have hevent : r.eventId ∈ born.map (·.eventId) := List.mem_map_of_mem hr
    rw [hevents] at hevent
    obtain ⟨spec, hspec, heq⟩ := List.mem_map.mp hevent
    exact .minted verb ⟨spec, hspec, heq.symm⟩ hstate hactive horder hstatus
  | @freeHealed c _ _ _ verb fresh linked free =>
    refine ⟨_, [], (List.append_nil _).symm, fun x hx => ?_, by simp⟩
    cases hx : freeHeals c.orderId x with
    | true => simpa [hx] using RowStep.freeHealed verb free hx
    | false => simpa [hx] using RowStep.same _ x
  | @heldBack c _ _ _ verb fresh linked paid =>
    refine ⟨_, [], (List.append_nil _).symm, fun x hx => ?_, by simp⟩
    cases hx : activeOfOrder c.orderId x with
    | true => simpa [hx] using RowStep.held verb paid hx
    | false => simpa [hx] using RowStep.same _ x
  | @cancelled c _ verb fresh =>
    refine ⟨_, [], (List.append_nil _).symm, fun x hx => ?_, by simp⟩
    cases hx : activeOfOrder c.orderId x with
    | true => simpa [hx] using RowStep.orderCancelled verb hx
    | false => simpa [hx] using RowStep.same _ x
  | @paid c _ lineIds verb fresh =>
    refine ⟨_, [], (by rw [Db.paid, Table.rows_modify, Table.rows_modify, List.map_map,
      List.append_nil]; rfl), fun x hx => ?_, by simp⟩
    cases hx : paidHeals c.orderId x with
    | true =>
      have hsold : paidSells c.orderId (Registration.paidHealed x) = false := by
        simp [paidSells, Registration.paidHealed]
      simpa [hx, hsold] using RowStep.paidHealed verb hx
    | false =>
      cases hsells : paidSells c.orderId x with
      | true => simpa [hx, hsells] using RowStep.sold verb hx hsells
      | false => simpa [hx, hsells] using RowStep.same _ x

/-- An answered call commits what its transaction left. -/
theorem Call.apply_of_answer {c : Call} {a : Answer} (h : c.answer s = .ok a) :
    ∃ t rows, c.program.run s = .ok (a, t) ∧ c.apply s = t.audited rows := by
  cases hrun : c.program.run s with
  | error e => simp [answer, Program.execute, hrun] at h
  | ok r =>
    obtain rfl : r.1 = a := by simpa [answer, Program.execute, hrun] using h
    exact ⟨r.2, _, rfl, by simp only [apply, Program.execute, hrun, foldl_absorb]; rfl⟩

/-- A refused call leaves the audit rows it had made outside its transaction. -/
theorem Call.apply_of_refused {c : Call} {e : EventError} (h : c.answer s = .error e) :
    c.apply s = s.audited (c.program.notes s) := by
  cases hrun : c.program.run s with
  | error e => simp only [apply, Program.execute, hrun, foldl_absorb]
  | ok r => simp [answer, Program.execute, hrun] at h

end effect

section sample

/-- An event with one seat, and an attendee of it. -/
def gig : Event := ⟨1, "Gig", none, .normal, 0, 100, "UTC", false, true, 1, none⟩

def oneSeat : Db := { Db.empty with events := Table.empty.push gig }

/-- The same event without a limit. -/
def openGig : Db := { Db.empty with
  events := Table.empty.push { gig with seatsLimited := false, seatsMax := 0 } }

def ann : RegisterCommand := ⟨1, none, none, "Ann", "ann@x", none, none, none, none, false⟩

end sample

end BackboneEvents
