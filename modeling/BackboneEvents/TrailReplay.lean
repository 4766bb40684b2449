import BackboneEvents.AuditTruth
import BackboneEvents.RegistrationLives
import BackboneEvents.ReplayedTrails

/-!
# The audit trail replayed

Who reads the trail alone can keep a ledger of the registrations: where each stands and what its
order says of it. A mint names its order only after the rows it made, so the reader holds those
back until then. Whatever is called, the ledger read from the trail is the one of the tables.
-/
namespace BackboneEvents.TrailReplay
open ConstrainedTables TransactionPrograms GuardedRuns RegistrationLives GrandTotal Program
  ReplayedTrails

/-- What the ledger says of one registration. -/
structure Entry where
  eventId : Uuid
  state : RegistrationState
  saleOrderId : Option Uuid
  saleOrderState : Option SaleOrderState
  saleStatus : Option SaleStatus
  deriving DecidableEq

abbrev Ledger := Uuid → Option Entry

/-- A reader's ledger, with the minted registrations whose order it has not read yet. -/
@[ext] structure Reader where
  ledger : Ledger
  pending : List Uuid

namespace Entry

def outside (e : Entry) : Bool := e.state == .draft || e.state == .cancel

def moved (target : RegistrationState) (e : Entry) : Entry := { e with state := target }

/-- A minted entry, once its order is told. -/
def told (orderId : Uuid) (status : SaleStatus) (e : Entry) : Entry :=
  { e with saleOrderId := some orderId, saleOrderState := some .sale, saleStatus := some status }

def freeHealed (orderId : Uuid) (e : Entry) : Entry :=
  if e.saleOrderId = some orderId ∧ e.outside = true then
    { e with state := .open, saleOrderState := some .sale, saleStatus := some .free }
  else e

def held (orderId : Uuid) (e : Entry) : Entry :=
  if e.saleOrderId = some orderId then
    { e with saleOrderState := some .sale, saleStatus := some .toPay }
  else e

def orderCancelled (orderId : Uuid) (e : Entry) : Entry :=
  if e.saleOrderId = some orderId then
    { e with state := .cancel, saleOrderState := some .cancel }
  else e

def paid (orderId : Uuid) (e : Entry) : Entry :=
  if e.saleOrderId = some orderId ∧ e.saleStatus = some .toPay then
    if e.outside then
      { e with state := .open, saleOrderState := some .sale, saleStatus := some .sold }
    else { e with saleStatus := some .sold }
  else e

end Entry

namespace Reader

def mapAll (f : Entry → Entry) (d : Reader) : Reader :=
  { d with ledger := fun id => (d.ledger id).map f }

def mapAt (ids : List Uuid) (f : Entry → Entry) (l : Ledger) : Ledger :=
  fun id => if id ∈ ids then (l id).map f else l id

/-- One audited fact read. -/
def read (d : Reader) (row : AuditRow) : Reader :=
  match row.detail, row.subjectId with
  | .registrationCreated eventId _ state saleMinted, some id =>
    { ledger := fun id' =>
        if id' = id then some ⟨eventId, state, none, none, none⟩ else d.ledger id'
      pending := if saleMinted then d.pending ++ [id] else d.pending }
  | .stateChanged _ target, some id => { d with ledger := mapAt [id] (Entry.moved target) d.ledger }
  | .mint _ _ status, some orderId =>
    { ledger := mapAt d.pending (Entry.told orderId status) d.ledger, pending := [] }
  | .healFree _, some orderId => d.mapAll (Entry.freeHealed orderId)
  | .healHeld _, some orderId => d.mapAll (Entry.held orderId)
  | .cancelCascade _, some orderId => d.mapAll (Entry.orderCancelled orderId)
  | .paidHeal _ _, some orderId => d.mapAll (Entry.paid orderId)
  | _, _ => d

def replay (d : Reader) (rows : List AuditRow) : Reader := rows.foldl read d

end Reader

def entryOf (r : Registration) : Entry :=
  ⟨r.eventId, r.state, r.saleOrderId, r.saleOrderState, r.saleStatus⟩

/-- The ledger of the tables. -/
def ledgerOf (s : Db) : Ledger := fun id => (s.registration? id).map entryOf

def readerOf (s : Db) : Reader := ⟨ledgerOf s, []⟩

/-- The acts added these rows to the trail, and they tell the ledger. -/
abbrev Told (s t : Db) : Prop := ReplayedTrails.Told Db.auditTrails readerOf Reader.read s t

section ledgers

variable {s t u : Db}

/-- A change of rows under their ids changes the ledger entry by entry. -/
theorem ledgerOf_image {image : Registration → Registration} {g : Entry → Entry}
    (hid : ∀ r, (image r).id = r.id)
    (hentry : ∀ r ∈ s.registrations.rows, entryOf (image r) = g (entryOf r))
    (ht : t.registrations.rows = s.registrations.rows.map image) :
    ledgerOf t = fun id => (ledgerOf s id).map g := by
  funext id
  have hsame : (fun r : Registration => r.id == id) ∘ image = fun r => r.id == id :=
    funext fun r => by rw [Function.comp_apply, hid]
  have hfind : t.registration? id = (s.registration? id).map image := by
    rw [Db.registration?, Table.find, ht, List.find?_map, hsame]
    rfl
  rw [ledgerOf, hfind, ledgerOf, Option.map_map, Option.map_map]
  cases hr : s.registration? id with
  | none => rfl
  | some r => exact congrArg some (hentry r (registration?_mem hr).1)

/-- A new row is a new entry. -/
theorem ledgerOf_push {row : Registration} (haccepts : s.registrations.accepts row = true)
    (ht : t.registrations = s.registrations.push row) :
    ledgerOf t = fun id => if id = row.id then some (entryOf row) else ledgerOf s id := by
  funext id
  have hrows : t.registrations.rows = s.registrations.rows ++ [row] := by
    rw [ht, Table.rows_push haccepts]
  have hmem : row ∈ t.registrations.rows :=
    hrows ▸ List.mem_append_right _ (List.mem_singleton_self row)
  split
  · next hid =>
    subst hid
    rw [ledgerOf, registration?_eq_some hmem, Option.map_some]
  · next hid =>
    have hfind : t.registration? id = s.registration? id := by
      rw [Db.registration?, Table.find, hrows, List.find?_append, List.find?_singleton,
        if_neg (by simpa using Ne.symm hid), Option.or_none]
      rfl
    rw [ledgerOf, hfind, ledgerOf]

end ledgers

section programs

variable {s t : Db} {c : SeamCall}

theorem plain_armAfterSub (env : Env) (events : Db → Uuid → Bool) :
    (armAfterSub env events).Plain :=
  plain_update _ _ _

theorem plain_lockEvent (eventId : Uuid) : (lockEvent eventId).Plain :=
  (plain_selectForUpdate _ _).bind fun _ => plain_require _ _

theorem plain_registerCore (env : Env) (draw : Draw) (cmd : RegisterCommand)
    (link : Option SaleLink) :
    (registerCore env draw cmd link).Plain := by
  have hslot : ∀ event, (lockSlot event cmd).Plain := by
    intro event
    rw [lockSlot]
    split
    · exact (plain_require _ _).bind fun _ => (plain_selectForUpdate _ _).bind fun _ =>
        (plain_refuseWhen _ _).bind fun _ => trivial
    · trivial
  have hticket : (ticketWindow draw cmd).Plain := by
    rw [ticketWindow]
    split
    · trivial
    · exact (plain_select _).bind fun _ => (plain_require _ _).bind fun _ => plain_refuseWhen _ _
  have hinsert : ∀ row, (insertRegistration env row).Plain := by
    intro row v
    dsimp only
    split <;> trivial
  have haudit : ∀ row, (recordAudit row).Plain := fun _ => plain_update _ _ _
  refine (plain_lockEvent _).bind fun _ => (plain_refuseWhen _ _).bind fun _ => ?_
  refine (hslot _).bind fun _ => hticket.bind fun _ => ?_
  refine (plain_select _).bind fun _ => (plain_refuseWhen _ _).bind fun _ => ?_
  refine (plain_select _).bind fun _ => (hinsert _).bind fun _ => ?_
  refine (plain_onlyIf (plain_armAfterSub _ _)).bind fun _ => ?_
  refine (plain_onlyIf (plain_update _ _ _)).bind fun _ => ?_
  exact (haudit _).bind fun _ => trivial

theorem plain_mint (env : Env) (link : SaleLink) (touched : ℕ) (specs : List RegisterCommand) :
    (mint env link touched specs).Plain := by
  induction specs generalizing touched with
  | nil => trivial
  | cons spec specs ih => exact (plain_registerCore _ _ _ _).bind fun _ => ih _

theorem plain_transition (env : Env) (registrationId : Uuid) (target : RegistrationState)
    (actor : Option Uuid) : (transition env registrationId target actor).Plain := by
  have hhead : (seatHead registrationId).Plain :=
    (plain_select _).bind fun _ => (plain_require _ _).bind fun _ =>
      (plain_lockEvent _).bind fun _ => (plain_select _).bind fun _ => plain_refuseWhen _ _
  have hsettle : ∀ before, (settleMove env before target actor).Plain := fun _ =>
    (plain_onlyIf (plain_armAfterSub _ _)).bind fun _ =>
      (plain_onlyIf (plain_update _ _ _)).bind fun _ => plain_onlyIf (plain_update _ _ _)
  refine Plain.bind (plain_update _ _ _) fun _ => (plain_require _ _).bind fun before => ?_
  exact (plain_onlyIf hhead).bind fun _ => (hsettle before).bind fun _ => trivial

theorem plain_latchBooths (lineIds : List Uuid) : (latchBooths lineIds).Plain := by
  rw [latchBooths]
  split
  · trivial
  · exact plain_update _ _ _

/-- A first claim of a delivery, then its body with its records. -/
theorem apply_fresh {outcome : SeamOutcome} (hfresh : s.seamInbox.accepts c.key = true)
    (hbody : c.body.run (s.claimed c.key.consumer c.key.externalId) = .ok (outcome, t)) :
    (Call.seam c).apply s = t.audited (c.body.notes (s.claimed c.key.consumer c.key.externalId) ++
      c.body.notesAfter (s.claimed c.key.consumer c.key.externalId)) := by
  have hanswer : (Call.seam c).apply s = (c.program.execute Db.absorb s).2 :=
    congrArg Prod.snd (Program.execute_map Db.absorb c.program Answer.seam s)
  have hclaim : (claim c.key.consumer c.key.externalId).run s =
      .ok (true, s.claimed c.key.consumer c.key.externalId) := by rw [run_claim, hfresh]
  have hplain : (claim c.key.consumer c.key.externalId).Plain := plain_update _ _ _
  have hrest := @Plain.execute_bind _ _ _ _ _ _ _
    (fun claimed => if !claimed then return alreadyApplied else c.body) hplain Db.absorb
      _ _ _ _ _ hclaim hbody
  rw [hanswer, c.program_eq]
  refine (congrArg Prod.snd hrest).trans ?_
  exact congrArg Prod.snd (execute_ok hbody)

/-- A delivery that was claimed before leaves nothing. -/
theorem apply_replayed (hreplayed : s.seamInbox.accepts c.key = false) :
    (Call.seam c).apply s = s := by
  have hanswer : (Call.seam c).apply s = (c.program.execute Db.absorb s).2 :=
    congrArg Prod.snd (Program.execute_map Db.absorb c.program Answer.seam s)
  have hclaim : (claim c.key.consumer c.key.externalId).run s = .ok (false, s) := by
    rw [run_claim, hreplayed, claimed_of_not_accepts hreplayed]
  have hplain : (claim c.key.consumer c.key.externalId).Plain := plain_update _ _ _
  have hrest := @Plain.execute_bind _ _ _ _ _ _ _
    (fun claimed => if !claimed then return alreadyApplied else c.body) hplain
      Db.absorb _ _ _ _ _ hclaim rfl
  rw [hanswer, c.program_eq]
  exact congrArg Prod.snd hrest

theorem records_mint {env : Env} {orderId : Uuid} {free : Bool} {specs : List RegisterCommand}
    {actor : Option Uuid} {n : ℕ} (hlinked : s.linked orderId = 0)
    (hmint : (mint env (bornLink orderId free) 0 specs).run s = .ok (n, t)) :
    (mintOrHeal env orderId free specs actor).notes s ++
        (mintOrHeal env orderId free specs actor).notesAfter s =
      [seamAudit "sale_seam_confirmed" actor orderId
        (.mint free n (bornLink orderId free).saleStatus)] := by
  have hbranch : (mintOrHeal env orderId free specs actor).notes s =
      (mintOrder env orderId free specs actor).notes s ∧
    (mintOrHeal env orderId free specs actor).notesAfter s =
      (mintOrder env orderId free specs actor).notesAfter s := by
    simp [mintOrHeal, Program.select, Program.bind, Program.notes, Program.notesAfter, hlinked]
  obtain ⟨hnotes, hafter⟩ := @Plain.records_bind _ _ _ _ _ _ _
    (fun touched => .noteAfter (seamAudit "sale_seam_confirmed" actor orderId
      (.mint free touched (bornLink orderId free).saleStatus))
        (.done (⟨false, touched, 0⟩ : SeamOutcome)))
    (plain_mint env (bornLink orderId free) 0 specs) _ _ _ hmint
  rw [hbranch.1, hbranch.2, mintOrder]
  exact congrArg₂ (· ++ ·) hnotes hafter

theorem records_heal {env : Env} {orderId : Uuid} {free : Bool} {specs : List RegisterCommand}
    {actor : Option Uuid} (hlinked : s.linked orderId ≠ 0) :
    (mintOrHeal env orderId free specs actor).notes s ++
        (mintOrHeal env orderId free specs actor).notesAfter s =
      [seamAudit "sale_seam_confirmed" actor orderId
        (if free then .healFree (s.registrations.count (freeHeals orderId))
        else .healHeld (s.registrations.count (activeOfOrder orderId)))] := by
  cases free <;> simp [mintOrHeal, healOrder, hlinked, Program.select, updateRegistrations,
    armAfterSub, Program.update, Program.bind, Program.notes, Program.notesAfter]

theorem records_cancel {orderId : Uuid} {actor : Option Uuid} :
    (cancelOrder orderId actor).notes s ++ (cancelOrder orderId actor).notesAfter s =
      [seamAudit "sale_seam_cancelled" actor orderId
        (.cancelCascade (s.registrations.count (activeOfOrder orderId)))] := by
  simp [cancelOrder, updateRegistrations, Program.update, Program.bind,
    Program.notes, Program.notesAfter]

theorem records_pay {env : Env} {orderId : Uuid} {lineIds : List Uuid} {actor : Option Uuid} :
    ∃ latched, (payOrder env orderId lineIds actor).notes s ++
      (payOrder env orderId lineIds actor).notesAfter s =
      [seamAudit "sale_seam_paid" actor orderId
        (.paidHeal (s.registrations.count (paidHeals orderId)) latched)] := by
  cases hlines : lineIds.isEmpty with
  | true =>
    exact ⟨0, by simp [payOrder, updateRegistrations, armAfterSub, latchBooths,
      hlines, Program.update, Program.bind, Program.notes, Program.notesAfter]⟩
  | false =>
    exact ⟨s.booths.count (latches lineIds), by simp [payOrder, updateRegistrations, armAfterSub,
      latchBooths, hlines, Program.update, Program.bind, Program.notes, Program.notesAfter]⟩

end programs

section replay

variable {s t : Db}

/-- The fact that a register head leaves. -/
def createdRow (cmd : RegisterCommand) (sale : Bool) (row : Registration) : AuditRow :=
  auditRow "registration_created" cmd.actor "registration" (some row.id)
    (.registrationCreated cmd.eventId cmd.email row.state sale)

/-- A minted entry before its order is told. -/
def Entry.untold (e : Entry) : Entry :=
  { e with saleOrderId := none, saleOrderState := none, saleStatus := none }

/-- What the rows of a mint tell a reader: each new registration stands as pending, with all that
the tables have of it but its order. -/
structure MintRead (link : SaleLink) (s t : Db) (rows : List AuditRow)
    (ids : List Uuid) : Prop where
  trail : t.auditTrails = s.auditTrails ++ rows
  reads : ∀ l pending, (Reader.replay ⟨l, pending⟩ rows) =
    ⟨fun id => if id ∈ ids then (ledgerOf t id).map Entry.untold else l id, pending ++ ids⟩
  born : ∀ id ∈ ids, (ledgerOf t id).map (Entry.told link.saleOrderId link.saleStatus) =
    ledgerOf t id
  others : ∀ id, id ∉ ids → ledgerOf t id = ledgerOf s id

theorem mintRead_of_minted {env : Env} {link : SaleLink} {k : ℕ} {specs : List RegisterCommand}
    (hsale : link.saleOrderState = .sale) (h : Minted env link k specs s t) :
    ∃ rows ids, MintRead link s t rows ids := by
  induction h with
  | nil k s =>
    exact ⟨[], [], (List.append_nil _).symm, fun l pending => by simp [Reader.replay], by simp,
      fun _ _ => rfl⟩
  | @cons k spec specs s s' t row head tail ih =>
    obtain ⟨rows, ids, htrail, hreads, hborn, hothers⟩ := ih
    obtain ⟨event, slotId, -, -, hrow, hfits, rfl⟩ := run_registerCore_ok head
    have haccepts : s.registrations.accepts row = true := by
      rw [insertable, Bool.and_eq_true] at hfits
      exact hfits.2
    have hledger : ledgerOf (s.registered env spec true row) =
        fun id => if id = row.id then some (entryOf row) else ledgerOf s id :=
      ledgerOf_push haccepts rfl
    have hentry : entryOf row = ⟨spec.eventId, row.state, some link.saleOrderId, some .sale,
        some link.saleStatus⟩ := by
      rw [hrow, entryOf, ← hsale]
      rfl
    have hid : ∀ id, id ∉ ids →
        ledgerOf t id = if id = row.id then some (entryOf row) else ledgerOf s id :=
      fun id hid => (hothers id hid).trans (congrFun hledger id)
    refine ⟨createdRow spec true row :: rows, row.id :: ids, ?_, fun l pending => ?_,
      fun id hmem => ?_, fun id hmem => ?_⟩
    · rw [htrail, List.append_cons]
      rfl
    · have hstep : Reader.read ⟨l, pending⟩ (createdRow spec true row) =
          ⟨fun id => if id = row.id then some ⟨spec.eventId, row.state, none, none, none⟩ else l id,
            pending ++ [row.id]⟩ := rfl
      rw [Reader.replay, List.foldl_cons]
      refine (congrArg (Reader.replay · rows) hstep).trans ?_
      rw [hreads, List.append_assoc]
      refine Reader.ext (funext fun id => ?_) rfl
      by_cases hlater : id ∈ ids
      · simp [hlater]
      · by_cases hrow : id = row.id
        · simp [hrow ▸ hlater, hrow, hid row.id (hrow ▸ hlater), hentry, Entry.untold]
        · simp [hlater, hrow]
    · by_cases hlater : id ∈ ids
      · exact hborn id hlater
      · rw [hid id hlater, if_pos ((List.mem_cons.mp hmem).resolve_right hlater), hentry]
        rfl
    · rw [List.mem_cons, not_or] at hmem
      rw [hid id hmem.2, if_neg hmem.1]

/-- Every registration is active, as all are born. -/
def AllActive (s : Db) : Prop := ∀ r ∈ s.registrations.rows, r.active = true

/-- A change of rows that one record tells. -/
theorem told_of_image {u : Db} {row : AuditRow} {image : Registration → Registration}
    {g : Entry → Entry}
    (htrail : u.auditTrails = s.auditTrails) (hid : ∀ r, (image r).id = r.id)
    (hentry : ∀ r ∈ s.registrations.rows, entryOf (image r) = g (entryOf r))
    (hrows : u.registrations.rows = s.registrations.rows.map image)
    (hread : Reader.read (readerOf s) row = (readerOf s).mapAll g) : Told s (u.audited [row]) := by
  refine ⟨[row], congrArg (· ++ [row]) htrail, hread.trans ?_⟩
  exact congrArg (Reader.mk · []) (ledgerOf_image hid hentry hrows).symm

theorem told_register {env : Env} {cmd : RegisterCommand} {row : Registration} {event : Event}
    {slotId : Option Uuid} (hrow : row = bornRow env (env.draw 0) cmd none event slotId s.orgAxis)
    (hfits : insertable s env row = true) : Told s (s.registered env cmd false row) := by
  have haccepts : s.registrations.accepts row = true := by
    rw [insertable, Bool.and_eq_true] at hfits
    exact hfits.2
  refine ⟨[createdRow cmd false row], rfl, ?_⟩
  have hledger : ledgerOf (s.registered env cmd false row) =
      fun id => if id = row.id then some (entryOf row) else ledgerOf s id :=
        ledgerOf_push haccepts rfl
  refine Eq.trans ?_ (congrArg (Reader.mk · []) hledger.symm)
  rw [hrow]
  rfl

theorem map_id_of {o : Option Entry} {f : Entry → Entry}
    (h : ∀ e, o = some e → f e = e) : o.map f = o := by
  cases o with
  | none => rfl
  | some e => exact congrArg some (h e rfl)

/-- A state verb tells its move, or moves nothing. -/
theorem told_transition {env : Env} {r : Registration} {target : RegistrationState}
    {actor : Option Uuid} (hr : s.registration? r.id = some r) :
    Told s (s.transitioned env r target actor) := by
  have hledger : ledgerOf (s.transitioned env r target actor) =
      Reader.mapAt [r.id] (Entry.moved target) (ledgerOf s) := by
    funext id
    have hfind := registration?_modify (f := Registration.moved env.now target) id
      (registration?_mem hr).1 fun _ => rfl
    have hmoved : (s.transitioned env r target actor).registration? id = if id = r.id then
        some (Registration.moved env.now target r) else s.registration? id := hfind
    rw [ledgerOf, hmoved, Reader.mapAt]
    by_cases hid : id = r.id
    · subst hid
      rw [if_pos rfl, if_pos (List.mem_singleton_self _), ledgerOf, hr]
      rfl
    · rw [if_neg hid, if_neg (by simpa using hid), ledgerOf]
  by_cases hsame : r.state = target
  · refine ⟨[], by simp [Db.transitioned, hsame], ?_⟩
    have hunmoved : Reader.mapAt [r.id] (Entry.moved target) (ledgerOf s) = ledgerOf s := by
      funext id
      rw [Reader.mapAt]
      split
      · next hid =>
        obtain rfl := List.mem_singleton.mp hid
        refine map_id_of fun e he => ?_
        rw [ledgerOf, hr, Option.map_some] at he
        obtain rfl := Option.some.inj he
        exact hsame ▸ rfl
      · rfl
    exact congrArg (Reader.mk · []) (hledger.trans hunmoved).symm
  · refine ⟨[auditRow "registration_state_changed" actor "registration" (some r.id)
      (.stateChanged r.state target)], ?_, ?_⟩
    · simp [Db.transitioned, hsame]
    · exact congrArg (Reader.mk · []) hledger.symm

theorem told_mint {env : Env} {orderId : Uuid} {free : Bool} {specs : List RegisterCommand}
    {actor : Option Uuid} {n : ℕ} (hminted : Minted env (bornLink orderId free) 0 specs s t) :
    Told s (t.audited [seamAudit "sale_seam_confirmed" actor orderId
      (.mint free n (bornLink orderId free).saleStatus)]) := by
  obtain ⟨rows, ids, htrail, hreads, hborn, hothers⟩ := mintRead_of_minted rfl hminted
  refine ⟨rows ++ [seamAudit "sale_seam_confirmed" actor orderId
    (.mint free n (bornLink orderId free).saleStatus)], ?_, ?_⟩
  · rw [← List.append_assoc, ← htrail]
    rfl
  · rw [List.foldl_append]
    have hread : List.foldl Reader.read (readerOf s) rows =
        ⟨fun id => if id ∈ ids then (ledgerOf t id).map Entry.untold else ledgerOf s id, ids⟩ :=
      hreads (ledgerOf s) []
    rw [hread]
    refine Reader.ext (funext fun id => ?_) rfl
    change (if id ∈ ids then (if id ∈ ids then (ledgerOf t id).map Entry.untold
      else ledgerOf s id).map
      (Entry.told orderId (bornLink orderId free).saleStatus)
      else if id ∈ ids then (ledgerOf t id).map Entry.untold else ledgerOf s id) = ledgerOf t id
    by_cases hid : id ∈ ids
    · rw [if_pos hid, if_pos hid, Option.map_map]
      exact hborn id hid
    · rw [if_neg hid, if_neg hid, hothers id hid]

section entries

variable {r : Registration} (orderId : Uuid)

theorem entryOf_ite {b : Bool} {P : Prop} [Decidable P] {r' r'' : Registration} {e e' : Entry}
    (h : b = true ↔ P) (he : entryOf r' = e) (he' : entryOf r'' = e') :
    entryOf (if b then r' else r'') = if P then e else e' := by
  by_cases hp : P
  · rw [if_pos (h.mpr hp), if_pos hp, he]
  · rw [if_neg fun hb => hp (h.mp hb), if_neg hp, he']

theorem entryOf_freeHealed (hactive : r.active = true) :
    entryOf (if freeHeals orderId r then Registration.freeHealed r else r) =
      Entry.freeHealed orderId (entryOf r) := by
  have hheals : freeHeals orderId r = true ↔ r.saleOrderId = some orderId ∧ r.outside = true := by
    simp [freeHeals, Registration.ofOrder, hactive]
  exact entryOf_ite hheals rfl rfl

theorem activeOfOrder_iff (hactive : r.active = true) :
    activeOfOrder orderId r = true ↔ r.saleOrderId = some orderId := by
  simp [activeOfOrder, Registration.ofOrder, hactive]

theorem entryOf_held (hactive : r.active = true) :
    entryOf (if activeOfOrder orderId r then Registration.held r else r) =
      Entry.held orderId (entryOf r) :=
  entryOf_ite (activeOfOrder_iff orderId hactive) rfl rfl

theorem entryOf_orderCancelled (hactive : r.active = true) :
    entryOf (if activeOfOrder orderId r then Registration.orderCancelled r else r) =
      Entry.orderCancelled orderId (entryOf r) :=
  entryOf_ite (activeOfOrder_iff orderId hactive) rfl rfl

/-- The two updates of the paid fact: a row that is lifted is sold by that. -/
def paidImage (r : Registration) : Registration :=
  if paidHeals orderId r then Registration.paidHealed r
  else if paidSells orderId r then Registration.sold r else r

theorem paidImage_eq (r : Registration) :
    (if paidSells orderId (if paidHeals orderId r then Registration.paidHealed r else r) then
      Registration.sold (if paidHeals orderId r then Registration.paidHealed r else r)
    else if paidHeals orderId r then Registration.paidHealed r else r) = paidImage orderId r := by
  rw [paidImage]
  split
  · have hsold : paidSells orderId (Registration.paidHealed r) = false := by
      simp [paidSells, Registration.paidHealed]
    rw [hsold]
    rfl
  · rfl

theorem entryOf_paidImage (hactive : r.active = true) :
    entryOf (paidImage orderId r) = Entry.paid orderId (entryOf r) := by
  have hsells : paidSells orderId r = true ↔
      (entryOf r).saleOrderId = some orderId ∧ (entryOf r).saleStatus = some .toPay := by
    simp [paidSells, Registration.ofOrder, hactive, entryOf]
  have hheals : paidHeals orderId r = (paidSells orderId r && r.outside) := by
    simp only [paidHeals, paidSells]
    cases r.ofOrder orderId <;> cases r.outside <;> cases r.active <;> simp
  rw [paidImage, Entry.paid, hheals]
  by_cases hsold : paidSells orderId r = true
  · rw [if_pos (hsells.mp hsold), hsold, Bool.true_and]
    exact entryOf_ite Iff.rfl rfl rfl
  · rw [if_neg fun h => hsold (hsells.mpr h), Bool.eq_false_of_not_eq_true hsold]
    rfl

end entries

/-- A delivery of the seam that goes through tells what it did. -/
theorem told_seam {c : SeamCall} {outcome : SeamOutcome} (hactive : AllActive s)
    (hfresh : s.seamInbox.accepts c.key = true)
    (hbody : c.body.run (s.claimed c.key.consumer c.key.externalId) = .ok (outcome, t)) :
    Told s ((Call.seam c).apply s) := by
  rw [apply_fresh hfresh hbody]
  have hclaimed : Told s (s.claimed c.key.consumer c.key.externalId) := told_of_same rfl rfl
  refine hclaimed.trans ?_
  have hactive' : AllActive (s.claimed c.key.consumer c.key.externalId) := hactive
  generalize s.claimed c.key.consumer c.key.externalId = u at hbody hactive'
  cases hverb : c.verb with
  | confirmed grandTotal specs =>
    simp only [SeamCall.body, hverb] at hbody ⊢
    by_cases hlinked : u.linked c.orderId = 0
    · rw [run_mintOrHeal_unlinked hlinked] at hbody
      cases hmint :
        (mint c.env (bornLink c.orderId (grandTotalIsZero grandTotal)) 0 specs).run u with
      | error e => simp [hmint, Except.map] at hbody
      | ok answer =>
        obtain ⟨n, minted⟩ := answer
        obtain ⟨-, rfl⟩ : _ ∧ minted = t := by simpa [hmint, Except.map] using hbody
        rw [records_mint hlinked hmint]
        exact told_mint (run_mint_ok hmint).2
    · rw [run_mintOrHeal_linked hlinked] at hbody
      rw [records_heal hlinked]
      cases hfree : grandTotalIsZero grandTotal with
      | true =>
        simp only [hfree, if_true] at hbody ⊢
        obtain ⟨-, rfl⟩ := Prod.mk.inj (Except.ok.inj hbody)
        exact told_of_image rfl (fun r => by split <;> rfl)
          (fun r hr => entryOf_freeHealed c.orderId (hactive' r hr)) rfl rfl
      | false =>
        simp only [hfree, Bool.false_eq_true, if_false] at hbody ⊢
        obtain ⟨-, rfl⟩ := Prod.mk.inj (Except.ok.inj hbody)
        exact told_of_image rfl (fun r => by split <;> rfl)
          (fun r hr => entryOf_held c.orderId (hactive' r hr)) rfl rfl
  | cancelled =>
    simp only [SeamCall.body, hverb, run_cancelOrder] at hbody ⊢
    obtain ⟨-, rfl⟩ := Prod.mk.inj (Except.ok.inj hbody)
    rw [records_cancel]
    exact told_of_image rfl (fun r => by split <;> rfl)
      (fun r hr => entryOf_orderCancelled c.orderId (hactive' r hr)) rfl rfl
  | paid lineIds =>
    simp only [SeamCall.body, hverb, run_payOrder] at hbody ⊢
    obtain ⟨-, rfl⟩ := Prod.mk.inj (Except.ok.inj hbody)
    obtain ⟨latched, hrecords⟩ := @records_pay u c.env c.orderId lineIds c.actor
    rw [hrecords]
    refine told_of_image rfl (fun r => ?_)
      (fun r hr => entryOf_paidImage c.orderId (hactive' r hr)) ?_ rfl
    · rw [paidImage]
      split
      · rfl
      · split <;> rfl
    · rw [Db.paid, Table.rows_modify, Table.rows_modify, List.map_map]
      exact List.map_congr_left fun r _ => paidImage_eq c.orderId r

/-- A refused call changes nothing. -/
theorem apply_of_run_error {c : Call} {e : EventError}
    (h : c.program.run s = .error e) : c.apply s = s := by
  have hanswer : c.answer s = .error e := by rw [Call.answer, Program.execute, h]
  exact AuditTruth.apply_of_refused hanswer

/-- What a plain call commits is what its transaction left. -/
theorem apply_of_plain {c : Call} (hplain : c.program.Plain) (s : Db) : c.Effect s (c.apply s) := by
  cases hrun : c.program.run s with
  | error e => rw [apply_of_run_error hrun]; exact .refused hrun
  | ok answer =>
    have happly : c.apply s = answer.2 := congrArg Prod.snd (hplain.execute_ok Db.absorb hrun)
    rw [happly]
    exact Call.effect_of_run hrun

theorem told_step (hactive : AllActive s) (a : RegistrationAct) : Told s (step s a) := by
  cases a with
  | call c =>
    rw [step]
    cases c with
    | register env cmd =>
      have heffect := apply_of_plain
        (c := .register env cmd) ((plain_registerCore _ _ _ _).bind fun _ => trivial) s
      generalize (Call.register env cmd).apply s = t at heffect
      cases heffect with
      | refused h => exact .refl s
      | registered admitted room fits => exact told_register rfl fits
    | transition env registrationId target actor =>
      have heffect := apply_of_plain
        (c := .transition env registrationId target actor)
          ((plain_transition _ _ _ _).bind fun _ => trivial) s
      generalize (Call.transition env registrationId target actor).apply s = t at heffect
      cases heffect with
      | refused h => exact .refl s
      | transitioned found seat => exact told_transition found
    | seam c =>
      cases hfresh : s.seamInbox.accepts c.key with
      | false => rw [apply_replayed hfresh]; exact .refl s
      | true =>
        cases hbody : c.body.run (s.claimed c.key.consumer c.key.externalId) with
        | error e =>
          have hrun : (Call.seam c).program.run s = .error e := by
            rw [Call.program, Program.bind_eq, Program.run_bind,
              c.run_program, if_pos hfresh, hbody]
            rfl
          rw [apply_of_run_error hrun]
          exact .refl s
        | ok answer => exact told_seam hactive hfresh hbody
  | sync checks id partnerId name phone companyName actor =>
    rw [step]
    rcases RegistrationPatches.execute_syncFromPartner checks id partnerId name
      phone companyName actor s
      with ⟨e, hrefused⟩ | ⟨r, hr, hid, hactive, hrun⟩
    · rw [hrefused]
      exact .refl s
    · rw [hrun]
      refine told_of_image (u := RegistrationPatches.changed id
        (Registration.synced partnerId name phone
        companyName) s) (g := fun e => e) rfl (fun r => by split <;> rfl) (fun r _ => ?_) rfl ?_
      · split <;> rfl
      · exact Reader.ext (funext fun id => Option.map_id'.symm) rfl

theorem allActive_step (hactive : AllActive s) (a : RegistrationAct) : AllActive (step s a) := by
  obtain ⟨image, born, hrows, himage, hborn⟩ := rows_step s a
  intro r hr
  rw [hrows, List.mem_append, List.mem_map] at hr
  rcases hr with ⟨old, hold, rfl⟩ | hr
  · rw [(himage old hold).lives.column Registration.active fun _ => rfl]
    exact hactive old hold
  · exact (hborn r hr).1

end replay

/-- Whatever is called, and whatever is refused: the rows a run adds to the trail, read from the
ledger of the tables before it, give the ledger of the tables after it. -/
theorem trail_replays {s : Db} (hactive : AllActive s) (acts : List RegistrationAct) :
    ∃ rows, (acts.foldl step s).auditTrails = s.auditTrails ++ rows ∧
      (Reader.replay ⟨ledgerOf s, []⟩ rows) = ⟨ledgerOf (acts.foldl step s), []⟩ := by
  have htold : Told s (acts.foldl step s) :=
    told_run hactive (fun _ a h => allActive_step h a) (fun _ a h => told_step h a) acts
  exact htold

section sample

/-- An order of two is confirmed, paid, and one of its attendees comes. -/
def paidOrder : List RegistrationAct :=
  [.call (.seam ⟨.counting 5, "sale", none, 4, none, .confirmed "10" [ann, ann]⟩),
    .call (.seam ⟨.counting 5, "sale", none, 4, none, .paid []⟩),
    .call (.transition (.counting 5) 6 .done none)]

theorem trail_replays_paid : ∃ rows, (paidOrder.foldl step openGig).auditTrails = rows ∧
    (Reader.replay ⟨ledgerOf openGig, []⟩ rows).ledger 6 = some
      ⟨1, .done, some 4, some .sale, some .sold⟩ := by
  have hnone : AllActive openGig := fun r hr => by cases hr
  obtain ⟨rows, htrail, hreplay⟩ := trail_replays hnone paidOrder
  refine ⟨rows, htrail, ?_⟩
  rw [hreplay]
  decide

end sample

end BackboneEvents.TrailReplay
