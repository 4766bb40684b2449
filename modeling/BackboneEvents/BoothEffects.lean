import BackboneEvents.BoothRefusals
import BackboneEvents.TrailReplay

/-!
# What the booth verbs do to the rows and the trail

Every verb in one case for each thing it can do: to the booths, to the bookings, and to the audit
trail, where a row goes with its transaction or follows its commit.
-/
namespace BackboneEvents.BoothEffects
open ConstrainedTables TransactionPrograms BoothRefusals Program

/-- The lines of the paid fact a verb applies; a claimed delivery applies none. -/
def paidLines (s : Db) : BoothVerb → List Uuid
  | .onOrderPaid _ consumer deliveryId orderId lineIds _ =>
    if s.seamInbox.accepts ⟨consumer, claimKey "paid" deliveryId orderId⟩ then lineIds else []
  | .markBoothsPaid lineIds => lineIds
  | .createBooth _ _ _ _ _ | .copyTypeBooths _ _ | .patchBooth _ _ _ _ _ _ _ | .deleteBooth _ _
  | .createBooking _ _ _ _ _ _ _ _ | .confirmBooking _ _ | .deleteBooking _ _
  | .releaseBooth _ _ => []

def granted (s : Db) (c : BoothVerb) : Bool := (c.apply s).1.isNone

/-- The booths and the bookings after a verb, and the rows it adds to the trail. -/
structure Leaves (s t : Db) (booths : Table Booth) (bookings : Table BoothBooking)
    (rows : List AuditRow) : Prop where
  booths : t.booths = booths
  bookings : t.boothBookings = bookings
  trail : t.auditTrails = s.auditTrails ++ rows

/-- A verb of the paid fact. -/
def BoothVerb.pays : BoothVerb → Bool
  | .onOrderPaid _ _ _ _ _ _ | .markBoothsPaid _ => true
  | .createBooth _ _ _ _ _ | .copyTypeBooths _ _ | .patchBooth _ _ _ _ _ _ _ | .deleteBooth _ _
  | .createBooking _ _ _ _ _ _ _ _ | .confirmBooking _ _ | .deleteBooking _ _
  | .releaseBooth _ _ => false

/-- What a verb does to the booths, the bookings and the trail. -/
inductive Effect (s : Db) : BoothVerb → Db → Prop where
  | refused {c : BoothVerb} {t : Db} (error : granted s c = false) (free : BoothVerb.pays c = false)
      (leaves : Leaves s t s.booths s.boothBookings []) : Effect s c t
  | boothCreated {boothId eventId : Uuid} {categoryStored : Bool} {name : String}
      {actor : Option Uuid} {t : Db}
      (accepts : s.booths.accepts (Booth.born boothId eventId) = true)
      (leaves : Leaves s t (s.booths.push (Booth.born boothId eventId)) s.boothBookings
        [auditRow "booth_created" actor "booth" (some boothId) (.boothCreated eventId name)]) :
      Effect s (.createBooth boothId eventId categoryStored name actor) t
  | boothsCopied {eventId : Uuid} {boothIds : List Uuid} {t : Db} {booths : Table Booth}
      (fits : s.booths.insertAll (boothIds.map (Booth.born · eventId)) = some booths)
      (leaves : Leaves s t booths s.boothBookings []) :
      Effect s (.copyTypeBooths eventId boothIds) t
  | boothPatched {boothId : Uuid} {categoryStored : Bool} {partner : Option Uuid}
      {name email phone : Option String} {actor : Option Uuid} {t : Db}
      (ok : granted s (.patchBooth boothId categoryStored partner name email phone actor) = true)
      (leaves : Leaves s t
        (s.booths.modify (·.id == boothId) (Booth.patched partner name email phone)) s.boothBookings
        [auditRow "booth_updated" actor "booth" (some boothId) .boothPatched]) :
      Effect s (.patchBooth boothId categoryStored partner name email phone actor) t
  | boothDeleted {boothId : Uuid} {actor : Option Uuid} {t : Db} {b : Booth}
      (ok : granted s (.deleteBooth boothId actor) = true)
      (found : s.booth? boothId = some b) (unlinked : b.saleOrderLineId = none)
      (leaves : Leaves s t (s.booths.remove (·.id == boothId)) s.boothBookings
        [auditRow "booth_deleted" actor "booth" (some boothId) .boothDeleted]) :
      Effect s (.deleteBooth boothId actor) t
  | bookingCreated {bookingId eventBoothId : Uuid} {line partner : Option Uuid}
      {name email phone : Option String} {actor : Option Uuid} {t : Db} {row : BoothBooking}
      (born : row = ⟨bookingId, eventBoothId, line, .pending, partner, name, email, phone⟩)
      (accepts : s.boothBookings.accepts row = true)
      (leaves : Leaves s t s.booths (s.boothBookings.push row) [auditRow "booth_booking_created"
        actor "booth" (some eventBoothId) (.bookingCreated bookingId .pending)]) :
      Effect s (.createBooking bookingId eventBoothId line partner name email phone actor) t
  | confirmed {bookingId : Uuid} {actor : Option Uuid} {t : Db} {k : BoothBooking} {b : Booth}
      (found : s.confirmable bookingId = some (k, b))
      (leaves : Leaves s t
        (s.booths.modify (·.id == k.eventBoothId) (Booth.filled (BoothBooking.flipped k)))
        (s.boothBookings.modify (pendingRow k.id) BoothBooking.flipped)
        [auditRow "booth_confirmed" actor "booth" (some k.eventBoothId) (.boothConfirmed k.id)]) :
      Effect s (.confirmBooking bookingId actor) t
  | bookingDeleted {bookingId : Uuid} {actor : Option Uuid} {t : Db}
      (found : (s.boothBookings.find (pendingRow bookingId)).isSome = true)
      (leaves : Leaves s t s.booths (s.boothBookings.remove (pendingRow bookingId))
        [auditRow "booth_booking_deleted" actor "booth_booking" (some bookingId) .bookingDeleted]) :
      Effect s (.deleteBooking bookingId actor) t
  | released {boothId : Uuid} {actor : Option Uuid} {t : Db}
      (ok : granted s (.releaseBooth boothId actor) = true)
      (found : (s.booths.find (unavailableRow boothId)).isSome = true)
      (leaves : Leaves s t (s.booths.modify (unavailableRow boothId) Booth.reopened)
        (s.boothBookings.remove (ofBooth boothId))
        [auditRow "booth_released" actor "booth" (some boothId) .boothReleased]) :
      Effect s (.releaseBooth boothId actor) t
  | latched {c : BoothVerb} {t : Db} {rows : List AuditRow} (paying : BoothVerb.pays c = true)
      (told : ∀ row ∈ rows, ∃ healed latched, row.detail = .paidHeal healed latched)
      (leaves : Leaves s t (s.booths.modify (latches (paidLines s c)) Booth.paid) s.boothBookings
        rows) : Effect s c t

section effects

variable {s t : Db} {boothId bookingId eventId : Uuid} {actor : Option Uuid} {α : Type} {p : Tx α}
  {rows : List AuditRow}

theorem granted_eq {c : BoothVerb} (h : c.apply s = call p s) : granted s c = (p.run s).toBool := by
  rw [granted, h]
  cases hrun : p.run s with
  | error e => rw [call_error hrun]; rfl
  | ok r => rw [call_ok hrun]; rfl

theorem granted_of_error {c : BoothVerb} {e : EventError} (h : c.apply s = call p s)
    (hrun : p.run s = .error e) : granted s c = false := by
  rw [granted_eq h, hrun]
  rfl

theorem granted_of_ok {c : BoothVerb} {r : α × Db} (h : c.apply s = call p s)
    (hrun : p.run s = .ok r) : granted s c = true := by
  rw [granted_eq h, hrun]
  rfl

theorem leaves_error {e : EventError} (hsilent : p.Silent) (hrun : p.run s = .error e) :
    Leaves s (call p s).2 s.booths s.boothBookings [] := by
  rw [call_error hrun, hsilent.notes_eq_nil]
  exact ⟨rfl, rfl, rfl⟩

theorem leaves_of_silent {a : α} (hsilent : p.Silent) (hrun : p.run s = .ok (a, t))
    (hrows : t.auditTrails ++ p.notesAfter s = s.auditTrails ++ rows) :
    Leaves s (call p s).2 t.booths t.boothBookings rows := by
  rw [call_ok hrun, hsilent.notes_eq_nil, List.nil_append]
  exact ⟨rfl, rfl, hrows⟩

/-- Rows left for after the commit. -/
theorem leaves_of_recordsAfter {a : α} (h : p.RecordsAfter rows) (hrun : p.run s = .ok (a, t))
    (htrail : t.auditTrails = s.auditTrails) :
    Leaves s (call p s).2 t.booths t.boothBookings rows :=
  leaves_of_silent h.silent hrun (by rw [h.notesAfter_eq hrun, htrail])

/-- Rows written in the transaction. -/
theorem leaves_of_plain {a : α} (h : p.Plain) (hsilent : p.Silent) (hrun : p.run s = .ok (a, t))
    (htrail : t.auditTrails = s.auditTrails ++ rows) :
    Leaves s (call p s).2 t.booths t.boothBookings rows :=
  leaves_of_silent hsilent hrun (by rw [(h.records_eq_nil s).2, List.append_nil, htrail])

theorem effect_createBooth (categoryStored : Bool) (name : String) :
    Effect s (.createBooth boothId eventId categoryStored name actor)
      (next s (.createBooth boothId eventId categoryStored name actor)) := by
  have hsilent : (createBooth boothId eventId categoryStored name actor).Silent := by
    refine Silent.bind (silent_update _ _ _) fun inserted => ?_
    cases inserted <;> trivial
  have hrun := @run_createBooth s boothId eventId actor categoryStored name
  cases hinsert : s.boothInsert categoryStored (Booth.born boothId eventId) with
  | error e =>
    rw [hinsert] at hrun
    exact .refused (granted_of_error rfl hrun) rfl (leaves_error hsilent hrun)
  | ok row =>
    obtain rfl := boothInsert_ok hinsert
    have haccepts : s.booths.accepts (Booth.born boothId eventId) = true := by
      by_contra hnot
      simp [Db.boothInsert, Bool.eq_false_of_not_eq_true hnot] at hinsert
    rw [hinsert] at hrun
    refine .boothCreated haccepts (leaves_of_silent hsilent hrun ?_)
    simp [createBooth, Program.update, Program.bind, notesAfter, hinsert]
    rfl

theorem effect_copyTypeBooths (boothIds : List Uuid) :
    Effect s (.copyTypeBooths eventId boothIds) (next s (.copyTypeBooths eventId boothIds)) := by
  have hrecords : (copyTypeBooths eventId boothIds).RecordsAfter [] := by
    intro v
    dsimp only
    split <;> trivial
  have hrun := @run_copyTypeBooths s eventId boothIds
  cases hinsert : s.booths.insertAll (boothIds.map (Booth.born · eventId)) with
  | none =>
    rw [hinsert] at hrun
    exact .refused (granted_of_error rfl hrun) rfl (leaves_error hrecords.silent hrun)
  | some booths =>
    rw [hinsert] at hrun
    exact .boothsCopied hinsert (leaves_of_recordsAfter hrecords hrun rfl)

theorem effect_patchBooth (categoryStored : Bool) (partner : Option Uuid)
    (name email phone : Option String) :
    Effect s (.patchBooth boothId categoryStored partner name email phone actor)
      (next s (.patchBooth boothId categoryStored partner name email phone actor)) := by
  have hrecords : (patchBooth boothId categoryStored partner name email phone actor).RecordsAfter
      [auditRow "booth_updated" actor "booth" (some boothId) .boothPatched] :=
    Plain.recordsAfter_bind (plain_update _ _ _) fun _ =>
      (plain_require _ _).recordsAfter_bind fun _ =>
      (plain_refuseWhen _ _).recordsAfter_bind fun _ => ⟨[], rfl, rfl⟩
  have hrun := @run_patchBooth s boothId actor categoryStored partner name email phone
  cases hbooth : s.booth? boothId with
  | none =>
    rw [hbooth] at hrun
    exact .refused (granted_of_error rfl hrun) rfl (leaves_error hrecords.silent hrun)
  | some b =>
    rw [hbooth] at hrun
    cases categoryStored with
    | false => exact .refused (granted_of_error rfl hrun) rfl (leaves_error hrecords.silent hrun)
    | true =>
      exact .boothPatched (granted_of_ok rfl hrun) (leaves_of_recordsAfter hrecords hrun rfl)

theorem effect_deleteBooth : Effect s (.deleteBooth boothId actor)
    (next s (.deleteBooth boothId actor)) := by
  have hremove : (removeBooth boothId).Plain := by
    intro v
    dsimp only
    split <;> trivial
  have hrecords : (deleteBooth boothId actor).RecordsAfter
      [auditRow "booth_deleted" actor "booth" (some boothId) .boothDeleted] := by
    refine Plain.recordsAfter_bind (plain_selectForUpdate _ _) fun _ => ?_
    refine (plain_require _ _).recordsAfter_bind fun _ =>
      (plain_refuseWhen _ _).recordsAfter_bind fun _ => ?_
    exact (plain_refuseWhen _ _).recordsAfter_bind fun _ =>
      hremove.recordsAfter_bind fun _ => ⟨[], rfl, rfl⟩
  cases hbooth : s.booth? boothId with
  | none =>
    have hrun : (deleteBooth boothId actor).run s = .error (.boothNotFound boothId) := by
      simp [deleteBooth, hbooth, Program.run_bind, Except.bind]
    exact .refused (granted_of_error rfl hrun) rfl (leaves_error hrecords.silent hrun)
  | some b =>
    have hrun := @run_deleteBooth s boothId actor b hbooth
    split at hrun
    · exact .refused (granted_of_error rfl hrun) rfl (leaves_error hrecords.silent hrun)
    · next hlinked =>
      split at hrun
      · exact .refused (granted_of_error rfl hrun) rfl (leaves_error hrecords.silent hrun)
      · exact .boothDeleted (granted_of_ok rfl hrun) hbooth (by simpa using hlinked)
          (leaves_of_recordsAfter hrecords hrun rfl)

/-- What a create leaves that is not refused. -/
theorem run_createBooking_born {eventBoothId : Uuid} {line partner : Option Uuid}
    {name email phone : Option String} {k : BoothBooking}
    (hrun : (createBooking bookingId eventBoothId line partner name email phone actor).run s =
      .ok (k, t)) : s.boothBookings.accepts
        ⟨bookingId, eventBoothId, line, .pending, partner, name, email, phone⟩ = true ∧
      t = { s with
        boothBookings := s.boothBookings.push
          ⟨bookingId, eventBoothId, line, .pending, partner, name, email, phone⟩ } := by
  obtain ⟨found, s', hselect, hrun⟩ := run_bind_ok hrun
  obtain ⟨rfl, rfl⟩ := Prod.mk.inj (Except.ok.inj hselect)
  cases hfound : s.booth? eventBoothId with
  | none => simp [hfound, Program.run_bind, Except.bind] at hrun
  | some booth =>
    simp only [hfound] at hrun
    obtain ⟨u, s', hguard, hinsert⟩ := run_bind_ok (x := lineGuard booth.eventId line) hrun
    obtain rfl := run_lineGuard hguard
    exact run_insertBooking_ok hinsert

theorem effect_createBooking (eventBoothId : Uuid) (line partner : Option Uuid)
    (name email phone : Option String) :
    Effect s (.createBooking bookingId eventBoothId line partner name email phone actor)
      (next s (.createBooking bookingId eventBoothId line partner name email phone actor)) := by
  have hguard : ∀ event, (lineGuard event line).Plain := by
    intro event
    cases line with
    | none => trivial
    | some line => exact (plain_select _).bind fun _ => plain_refuseWhen _ _
  have hrecords :
      (createBooking bookingId eventBoothId line partner name email phone actor).RecordsAfter
      [auditRow "booth_booking_created" actor "booth" (some eventBoothId)
        (.bookingCreated bookingId .pending)] := by
    refine (plain_select _).recordsAfter_bind fun _ =>
      (plain_require _ _).recordsAfter_bind fun _ => ?_
    refine (hguard _).recordsAfter_bind fun _ => ?_
    exact Plain.recordsAfter_bind (plain_update _ _ _) fun _ =>
      (plain_refuseWhen _ _).recordsAfter_bind fun _ => ⟨[], rfl, rfl⟩
  cases hrun : (createBooking bookingId eventBoothId line partner name email phone actor).run s with
  | error e => exact .refused (granted_of_error rfl hrun) rfl (leaves_error hrecords.silent hrun)
  | ok r =>
    obtain ⟨k, t⟩ := r
    obtain ⟨haccepts, rfl⟩ := run_createBooking_born hrun
    exact .bookingCreated rfl haccepts (leaves_of_recordsAfter hrecords hrun rfl)

theorem effect_confirmBooking :
    Effect s (.confirmBooking bookingId actor) (next s (.confirmBooking bookingId actor)) := by
  have hfill : ∀ booking, (confirmFill booking actor).Plain := fun _ =>
    Plain.bind (plain_update _ _ _) fun _ => (plain_require _ _).bind fun _ =>
      Plain.bind (plain_update _ _ _) fun _ => trivial
  have hplain : (confirmBooking bookingId actor).Plain := by
    refine Plain.bind (plain_selectForUpdate _ _) fun _ => (plain_require _ _).bind fun _ => ?_
    refine (plain_refuseWhen _ _).bind fun _ => Plain.bind (plain_update _ _ _) fun flipped => ?_
    cases flipped with
    | error e => trivial
    | ok booking => exact hfill booking
  have hsilent := AuditTruth.silent_confirmBooking bookingId actor
  cases hfound : s.confirmable bookingId with
  | none =>
    obtain ⟨e, hrun⟩ := run_confirmBooking_none actor hfound
    exact .refused (granted_of_error rfl hrun) rfl (leaves_error hsilent hrun)
  | some p =>
    have hrun := run_confirmBooking_some actor hfound
    exact .confirmed (k := p.1) (b := p.2) hfound (leaves_of_plain hplain hsilent hrun rfl)

theorem effect_releaseBooth :
    Effect s (.releaseBooth boothId actor) (next s (.releaseBooth boothId actor)) := by
  have hplain : (releaseBooth boothId actor).Plain :=
    Plain.bind (plain_update _ _ _) fun _ => Plain.bind (plain_update _ _ _) fun _ =>
      (plain_require _ _).bind fun _ => Plain.bind (plain_update _ _ _) fun _ => trivial
  have hsilent := AuditTruth.silent_releaseBooth boothId actor
  cases hrun : (releaseBooth boothId actor).run s with
  | error e => exact .refused (granted_of_error rfl hrun) rfl (leaves_error hsilent hrun)
  | ok r =>
    obtain ⟨b, t⟩ := r
    obtain rfl := run_releaseBooth_ok hrun
    refine .released (granted_of_ok rfl hrun) ?_ (leaves_of_plain hplain hsilent hrun rfl)
    cases hfind : s.booths.find (unavailableRow boothId) with
    | none => simp [releaseBooth, releaseReopen, hfind, Program.run_bind, Except.bind] at hrun
    | some b => rfl

theorem effect_deleteBooking :
    Effect s (.deleteBooking bookingId actor) (next s (.deleteBooking bookingId actor)) := by
  have hrecords : (deleteBooking bookingId actor).RecordsAfter
      [auditRow "booth_booking_deleted" actor "booth_booking" (some bookingId) .bookingDeleted] :=
    Plain.recordsAfter_bind (plain_update _ _ _) fun _ =>
      (plain_refuseWhen _ _).recordsAfter_bind fun _ => ⟨[], rfl, rfl⟩
  have hrun := @run_deleteBooking s bookingId actor
  split at hrun
  · next hfound => exact .bookingDeleted hfound (leaves_of_recordsAfter hrecords hrun rfl)
  · exact .refused (granted_of_error rfl hrun) rfl (leaves_error hrecords.silent hrun)

theorem effect_markBoothsPaid (lineIds : List Uuid) :
    Effect s (.markBoothsPaid lineIds) (next s (.markBoothsPaid lineIds)) := by
  obtain ⟨n, hrun⟩ := run_markBoothsPaid s lineIds
  exact .latched rfl (by simp) (leaves_of_plain (TrailReplay.plain_latchBooths lineIds)
    (AuditTruth.silent_latchBooths lineIds) hrun (List.append_nil _).symm)

theorem call_snd : (call p s).2 = (p.execute Db.absorb s).2 := by
  rw [call]
  split
  · next hexecute => rw [hexecute]
  · next hexecute => rw [hexecute]

theorem effect_onOrderPaid (env : Env) (consumer : String) (deliveryId : Option String)
    (orderId : Uuid) (lineIds : List Uuid) :
    Effect s (.onOrderPaid env consumer deliveryId orderId lineIds actor)
      (next s (.onOrderPaid env consumer deliveryId orderId lineIds actor)) := by
  have hnext : next s (.onOrderPaid env consumer deliveryId orderId lineIds actor) =
      (Call.seam ⟨env, consumer, deliveryId, orderId, actor, .paid lineIds⟩).apply s :=
    call_snd.trans (congrArg Prod.snd (Program.execute_map Db.absorb
      (onOrderPaid env consumer deliveryId orderId lineIds actor) Answer.seam s)).symm
  rw [hnext]
  cases hfresh : s.seamInbox.accepts ⟨consumer, claimKey "paid" deliveryId orderId⟩ with
  | false =>
    have hlines : paidLines s (.onOrderPaid env consumer deliveryId orderId lineIds actor) =
      [] := by
      rw [paidLines, hfresh]
      rfl
    rw [TrailReplay.apply_replayed hfresh]
    refine .latched rfl (by simp) ⟨?_, rfl, (List.append_nil _).symm⟩
    rw [hlines]
    exact (Table.modify_eq_self fun b _ => by simp [latches]).symm
  | true =>
    have hlines : paidLines s (.onOrderPaid env consumer deliveryId orderId lineIds actor) =
      lineIds := by
      rw [paidLines, hfresh]
      rfl
    have hbody : (SeamCall.body ⟨env, consumer, deliveryId, orderId, actor, .paid lineIds⟩).run
        (s.claimed consumer (claimKey "paid" deliveryId orderId)) = .ok (_, _) := run_payOrder
    obtain ⟨latched, hrecords⟩ := @TrailReplay.records_pay
      (s.claimed consumer (claimKey "paid" deliveryId orderId)) env orderId lineIds actor
    rw [@TrailReplay.apply_fresh s _ ⟨env, consumer, deliveryId, orderId, actor, .paid lineIds⟩ _
      hfresh hbody]
    refine .latched rfl (fun row hrow => ?_)
      ⟨by rw [hlines]; rfl, rfl, congrArg (s.auditTrails ++ ·) hrecords⟩
    rw [List.mem_singleton.mp hrow]
    exact ⟨_, latched, rfl⟩

theorem effect_next (s : Db) (c : BoothVerb) : Effect s c (next s c) := by
  cases c with
  | createBooth boothId eventId categoryStored name actor => exact effect_createBooth _ _
  | copyTypeBooths eventId boothIds => exact effect_copyTypeBooths _
  | patchBooth boothId categoryStored partner name email phone actor =>
    exact effect_patchBooth _ _ _ _ _
  | deleteBooth boothId actor => exact effect_deleteBooth
  | createBooking bookingId boothId line partner name email phone actor =>
    exact effect_createBooking _ _ _ _ _ _
  | confirmBooking bookingId actor => exact effect_confirmBooking
  | deleteBooking bookingId actor => exact effect_deleteBooking
  | releaseBooth boothId actor => exact effect_releaseBooth
  | onOrderPaid env consumer deliveryId orderId lineIds actor => exact effect_onOrderPaid _ _ _ _ _
  | markBoothsPaid lineIds => exact effect_markBoothsPaid _

end effects

section rows

variable {s t : Db} {b : Booth}

theorem booth?_modify {p : Booth → Bool} {f : Update Booth} (hid : ∀ b, (f b).id = b.id)
    (ht : t.booths = s.booths.modify p f) (boothId : Uuid) :
    t.booth? boothId = (s.booth? boothId).map (fun b => if p b then f b else b) := by
  rw [Db.booth?, ht, Table.find_modify fun b => by rw [hid]]
  rfl

theorem booth?_more (hb : s.booth? b.id = some b) (ht : s.booths.rows <+: t.booths.rows) :
    t.booth? b.id = some b := by
  obtain ⟨more, ht⟩ := ht
  rw [Db.booth?, Table.find, ← ht, List.find?_append]
  exact (congrArg (Option.or · _) hb).trans rfl

theorem booth?_remove {boothId : Uuid} (hb : s.booth? b.id = some b) (hne : b.id ≠ boothId)
    (ht : t.booths = s.booths.remove (·.id == boothId)) : t.booth? b.id = some b := by
  obtain ⟨hmem, -⟩ := booth?_mem hb
  refine booth?_of_mem ?_
  rw [ht, Table.rows_remove]
  exact List.mem_filter.mpr ⟨hmem, by simpa using hne⟩

end rows

end BackboneEvents.BoothEffects
