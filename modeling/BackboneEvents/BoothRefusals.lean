import BackboneEvents.BoothLatch

/-!
# What a refused booking says

One mapper reads every unique violation of a booking as a booth already confirmed. Runs of all
the booth verbs keep an unavailable booth backed by a confirmed booking, so a confirm is refused
with the truth. A create is not: its insert can also meet the pending booking of the same line
and booth.
-/
namespace BackboneEvents.BoothRefusals
open ConstrainedTables TransactionPrograms GuardedRuns

inductive BoothVerb where
  | createBooth (boothId eventId : Uuid) (categoryStored : Bool) (name : String)
      (actor : Option Uuid)
  | copyTypeBooths (eventId : Uuid) (boothIds : List Uuid)
  | patchBooth (boothId : Uuid) (categoryStored : Bool) (partnerId : Option Uuid)
      (contactName contactEmail contactPhone : Option String) (actor : Option Uuid)
  | deleteBooth (boothId : Uuid) (actor : Option Uuid)
  | createBooking (bookingId eventBoothId : Uuid) (saleOrderLineId partnerId : Option Uuid)
      (contactName contactEmail contactPhone : Option String) (actor : Option Uuid)
  | confirmBooking (bookingId : Uuid) (actor : Option Uuid)
  | deleteBooking (bookingId : Uuid) (actor : Option Uuid)
  | releaseBooth (eventBoothId : Uuid) (actor : Option Uuid)
  | onOrderPaid (env : Env) (consumer : String) (deliveryId : Option String) (orderId : Uuid)
      (lineIds : List Uuid) (actor : Option Uuid)
  | markBoothsPaid (lineIds : List Uuid)

/-- The error a call answers with, and the database it leaves. -/
def call {α : Type} (p : Tx α) (s : Db) : Option EventError × Db :=
  match p.execute Db.absorb s with
  | (.ok _, t) => (none, t)
  | (.error e, t) => (some e, t)

def BoothVerb.apply (s : Db) : BoothVerb → Option EventError × Db
  | .createBooth boothId eventId categoryStored name actor =>
    call (BackboneEvents.createBooth boothId eventId categoryStored name actor) s
  | .copyTypeBooths eventId boothIds =>
    call (BackboneEvents.copyTypeBooths eventId boothIds) s
  | .patchBooth boothId categoryStored partner name email phone actor =>
    call
      (BackboneEvents.patchBooth boothId categoryStored partner name email phone actor) s
  | .deleteBooth boothId actor => call (BackboneEvents.deleteBooth boothId actor) s
  | .createBooking bookingId eventBoothId line partner name email phone actor =>
    call
      (BackboneEvents.createBooking bookingId eventBoothId line partner name email phone actor) s
  | .confirmBooking bookingId actor =>
    call (BackboneEvents.confirmBooking bookingId actor) s
  | .deleteBooking bookingId actor =>
    call (BackboneEvents.deleteBooking bookingId actor) s
  | .releaseBooth eventBoothId actor =>
    call (BackboneEvents.releaseBooth eventBoothId actor) s
  | .onOrderPaid env consumer deliveryId orderId lineIds actor =>
    call
      (BackboneEvents.onOrderPaid env consumer deliveryId orderId lineIds actor) s
  | .markBoothsPaid lineIds => call (BackboneEvents.markBoothsPaid lineIds) s

def next (s : Db) (c : BoothVerb) : Db := (c.apply s).2

def Db.confirmedBooking (s : Db) (boothId : Uuid) : Bool :=
  s.boothBookings.rows.any (confirmedOf boothId)

/-- A call that says a booth is already confirmed is right. -/
def Truthful (s : Db) (c : BoothVerb) : Prop :=
  ∀ boothId, (c.apply s).1 = some (.boothAlreadyConfirmed boothId) →
    Db.confirmedBooking s boothId = true

/-- A create that gets to its insert, on a booth without a confirmed booking, meets no booking of
its line and booth, nor of the id it draws. -/
def MeetsNoTwin (s : Db) : BoothVerb → Prop
  | .createBooking bookingId eventBoothId line _ _ _ _ _ =>
    ∀ booth ∈ s.booth? eventBoothId, line.any (s.crossEvent · booth.eventId) = false →
      Db.confirmedBooking s eventBoothId = false →
      ∀ k ∈ s.boothBookings.rows, k.id ≠ bookingId ∧
        (k.saleOrderLineId = line → k.eventBoothId = eventBoothId → line = none)
  | .createBooth _ _ _ _ _ | .copyTypeBooths _ _ | .patchBooth _ _ _ _ _ _ _ | .deleteBooth _ _
  | .confirmBooking _ _ | .deleteBooking _ _ | .releaseBooth _ _ | .onOrderPaid _ _ _ _ _ _
  | .markBoothsPaid _ => True

/-- Every unavailable booth has a confirmed booking. -/
def Backed (s : Db) : Prop :=
  ∀ b ∈ s.booths.rows, b.state = .unavailable → Db.confirmedBooking s b.id = true

section calls

variable {s t : Db} {α : Type} {p : Tx α} {boothId : Uuid}

theorem call_error {e : EventError} (h : p.run s = .error e) :
    call p s = (some e, s.audited (p.notes s)) := by
  rw [call, execute_error h]

theorem call_ok {a : α} (h : p.run s = .ok (a, t)) :
    call p s = (none, t.audited (p.notes s ++ p.notesAfter s)) := by
  rw [call, execute_ok h]

/-- A call fails with the error of its run. -/
theorem call_refuses {e : EventError} : (call p s).1 = some e ↔ p.run s = .error e := by
  cases h : p.run s with
  | error e' => simp [call_error h]
  | ok r => simp [call_ok h]

theorem confirmedBooking_iff : Db.confirmedBooking s boothId = true ↔
    ∃ k ∈ s.boothBookings.rows, k.eventBoothId = boothId ∧ k.status = .confirmed := by
  simp [Db.confirmedBooking, confirmedOf, ofBooth]

theorem Backed.audited {rows : List AuditRow} (h : Backed s) : Backed (s.audited rows) := h

/-- A call keeps the backing when its run does. -/
theorem backed_call (h : Backed s) (hrun : ∀ a t, p.run s = .ok (a, t) → Backed t) :
    Backed (call p s).2 := by
  cases hp : p.run s with
  | error e =>
    rw [call_error hp]
    exact h.audited
  | ok r =>
    rw [call_ok hp]
    exact (hrun r.1 r.2 hp).audited

/-- No booth becomes unavailable, and the confirmed bookings stay. -/
structure Recedes (s t : Db) : Prop where
  booths : ∀ b ∈ t.booths.rows, b.state = .unavailable →
    ∃ b' ∈ s.booths.rows, b'.state = .unavailable ∧ b'.id = b.id
  bookings : ∀ k ∈ s.boothBookings.rows, k.status = .confirmed → k ∈ t.boothBookings.rows

theorem Recedes.refl (s : Db) : Recedes s s where
  booths b hb hstate := ⟨b, hb, hstate, rfl⟩
  bookings _ hk _ := hk

theorem Recedes.confirmedBooking (h : Recedes s t)
    (hconfirmed : Db.confirmedBooking s boothId = true) :
    Db.confirmedBooking t boothId = true := by
  obtain ⟨k, hk, hof, hstatus⟩ := confirmedBooking_iff.mp hconfirmed
  exact confirmedBooking_iff.mpr ⟨k, h.bookings k hk hstatus, hof, hstatus⟩

theorem Recedes.backed (h : Recedes s t) (hs : Backed s) : Backed t := by
  intro b hb hstate
  obtain ⟨b', hb', hstate', hid⟩ := h.booths b hb hstate
  exact hid ▸ h.confirmedBooking (hs b' hb' hstate')

theorem recedes_booths {booths : Table Booth}
    (h : ∀ b ∈ booths.rows, b.state = .unavailable →
      ∃ b' ∈ s.booths.rows, b'.state = .unavailable ∧ b'.id = b.id) :
    Recedes s { s with booths := booths } where
  booths := h
  bookings _ hk _ := hk

/-- Booths on sale come in, none else. -/
theorem recedes_more {booths : Table Booth} (h : ∀ b ∈ booths.rows, b ∈ s.booths.rows ∨
    b.state = .available) : Recedes s { s with booths := booths } := by
  refine recedes_booths fun b hb hstate => ?_
  rcases h b hb with hold | havailable
  · exact ⟨b, hold, hstate, rfl⟩
  · rw [havailable] at hstate
    cases hstate

theorem recedes_modify {p : Booth → Bool} {f : Update Booth} (hf : ∀ b, (f b).state = b.state)
    (hid : ∀ b, (f b).id = b.id) : Recedes s { s with booths := s.booths.modify p f } := by
  refine recedes_booths fun b hb hstate => ?_
  obtain ⟨b', hb', rfl⟩ := Table.mem_modify.mp hb
  refine ⟨b', hb', ?_, ?_⟩
  · split at hstate
    · rwa [hf] at hstate
    · exact hstate
  · split
    · exact (hid b').symm
    · rfl

end calls

section verbs

variable {s t : Db} {boothId bookingId eventId : Uuid} {actor : Option Uuid}

theorem run_createBooth {categoryStored : Bool} {name : String} :
    (createBooth boothId eventId categoryStored name actor).run s =
      (s.boothInsert categoryStored (Booth.born boothId eventId)).map
        (fun row => (row, { s with booths := s.booths.push row })) := by
  simp only [createBooth, Program.bind_eq, Program.run_bind, Program.run_update, Except.bind]
  cases s.boothInsert categoryStored (Booth.born boothId eventId) <;> rfl

theorem boothInsert_ok {categoryStored : Bool} {row b : Booth}
    (h : s.boothInsert categoryStored row = .ok b) : b = row := by
  simp only [Db.boothInsert] at h
  split at h
  · cases h
  · split at h
    · exact (Except.ok.inj h).symm
    · cases h

theorem recedes_createBooth {categoryStored : Bool} {name : String} {b : Booth}
    (h : (createBooth boothId eventId categoryStored name actor).run s = .ok (b, t)) :
    Recedes s t := by
  rw [run_createBooth] at h
  cases hinsert : s.boothInsert categoryStored (Booth.born boothId eventId) with
  | error e => simp [hinsert, Except.map] at h
  | ok row =>
    rw [hinsert] at h
    obtain rfl := (Prod.mk.inj (Except.ok.inj h)).2
    obtain rfl := boothInsert_ok hinsert
    refine recedes_more fun b hb => (Table.mem_of_mem_push hb).imp_right ?_
    rintro rfl
    rfl

theorem run_copyTypeBooths {boothIds : List Uuid} :
    (copyTypeBooths eventId boothIds).run s =
      match s.booths.insertAll (boothIds.map (Booth.born · eventId)) with
      | some booths => .ok ((), { s with booths := booths })
      | none => .error (.database "booths: duplicate key") := by
  simp only [copyTypeBooths, Program.run_statement]
  cases s.booths.insertAll (boothIds.map (Booth.born · eventId)) <;> rfl

theorem recedes_copyTypeBooths {boothIds : List Uuid}
    (h : (copyTypeBooths eventId boothIds).run s = .ok ((), t)) : Recedes s t := by
  rw [run_copyTypeBooths] at h
  cases hinsert : s.booths.insertAll (boothIds.map (Booth.born · eventId)) with
  | none => simp [hinsert] at h
  | some booths =>
    rw [hinsert] at h
    obtain rfl := (Prod.mk.inj (Except.ok.inj h)).2
    refine recedes_more fun b hb => ?_
    rw [Table.rows_insertAll hinsert, List.mem_append, List.mem_map] at hb
    refine hb.imp_right ?_
    rintro ⟨id, -, rfl⟩
    rfl

theorem run_patchBooth {categoryStored : Bool} {partner : Option Uuid}
    {name email phone : Option String} :
    (patchBooth boothId categoryStored partner name email phone actor).run s =
      match s.booth? boothId with
      | none => .error (.boothNotFound boothId)
      | some b =>
        if categoryStored then .ok (Booth.patched partner name email phone b, { s with
          booths := s.booths.modify (·.id == boothId) (Booth.patched partner name email phone) })
        else .error (.database "booths: foreign key violated") := by
  cases hbooth : s.booth? boothId <;> cases categoryStored <;>
    simp [patchBooth, hbooth, Program.run_bind, Program.run_refuseWhen, Except.bind]

theorem recedes_patchBooth {categoryStored : Bool} {partner : Option Uuid}
    {name email phone : Option String} {b : Booth}
    (h : (patchBooth boothId categoryStored partner name email phone actor).run s = .ok (b, t)) :
    Recedes s t := by
  rw [run_patchBooth] at h
  split at h
  · cases h
  · split at h
    · obtain rfl := (Prod.mk.inj (Except.ok.inj h)).2
      exact recedes_modify (fun _ => rfl) fun _ => rfl
    · cases h

/-- The reference of the bookings is never what refuses a delete: they are counted first. -/
theorem run_removeBooth (h : ¬ 0 < s.boothBookings.count (ofBooth boothId)) :
    (removeBooth boothId).run s = .ok ((), { s with booths := s.booths.remove (·.id == boothId) }) := by
  have hnone : s.boothBookings.rows.any (ofBooth boothId) = false := by
    rw [List.any_eq_false]
    intro k hk hof
    exact h (List.countP_pos_iff.mpr ⟨k, hk, hof⟩)
  simp only [removeBooth, Program.run_statement, hnone, Bool.false_eq_true, if_false,
    Program.run_done, Table.remove_matched_self]

theorem run_deleteBooth {b : Booth} (hbooth : s.booth? boothId = some b) :
    (deleteBooth boothId actor).run s =
      if b.saleOrderLineId.isSome then .error (.boothDeleteRefusedSaleLinked boothId)
      else if 0 < s.boothBookings.count (ofBooth boothId) then .error (.validation
        ("booth delete refused — " ++ toString (s.boothBookings.count (ofBooth boothId)) ++
          " booking rows exist (release first)"))
      else .ok ((), { s with booths := s.booths.remove (·.id == boothId) }) := by
  simp only [deleteBooth, hbooth, Program.bind_eq, Program.run_bind, Program.run_selectForUpdate,
    Except.bind, Option.map_some, Program.run_require_some, Program.run_refuseWhen, decide_eq_true_eq]
  by_cases hlinked : b.saleOrderLineId.isSome = true
  · simp only [hlinked, if_true]
  · by_cases hcount : 0 < s.boothBookings.count (ofBooth boothId)
    · simp only [hlinked, hcount, Bool.false_eq_true, if_true, if_false]
    · simp only [hlinked, hcount, Bool.false_eq_true, if_false, run_removeBooth hcount,
        Program.run_noteAfter, Program.run_done]

theorem recedes_deleteBooth (h : (deleteBooth boothId actor).run s = .ok ((), t)) :
    Recedes s t := by
  cases hbooth : s.booth? boothId with
  | none => simp [deleteBooth, hbooth, Program.run_bind, Except.bind] at h
  | some b =>
    rw [run_deleteBooth hbooth] at h
    split at h
    · cases h
    · split at h
      · cases h
      · obtain rfl := (Prod.mk.inj (Except.ok.inj h)).2
        exact recedes_booths fun b hb hstate => ⟨b, List.mem_of_mem_filter hb, hstate, rfl⟩

theorem run_deleteBooking : (deleteBooking bookingId actor).run s =
    if (s.boothBookings.find (pendingRow bookingId)).isSome then
      .ok ((), { s with boothBookings := s.boothBookings.remove (pendingRow bookingId) })
    else .error (.boothBookingNotFound bookingId) := by
  cases hfind : s.boothBookings.find (pendingRow bookingId) <;>
    simp [deleteBooking, hfind, Program.run_bind, Program.run_refuseWhen, Except.bind]

/-- A withdrawal takes pending bookings only. -/
theorem recedes_deleteBooking (h : (deleteBooking bookingId actor).run s = .ok ((), t)) :
    Recedes s t := by
  rw [run_deleteBooking] at h
  split at h
  · obtain rfl := (Prod.mk.inj (Except.ok.inj h)).2
    refine ⟨fun b hb hstate => ⟨b, hb, hstate, rfl⟩, fun k hk hstatus => ?_⟩
    simp [hk, pendingRow, hstatus]
  · cases h

theorem recedes_createBooking {eventBoothId : Uuid} {line partner : Option Uuid}
    {name email phone : Option String} {k : BoothBooking}
    (h : (createBooking bookingId eventBoothId line partner name email phone actor).run s =
      .ok (k, t)) : Recedes s t := by
  obtain ⟨row, -, -, rfl⟩ := run_createBooking_ok h
  exact ⟨fun b hb hstate => ⟨b, hb, hstate, rfl⟩, fun k hk _ => Table.mem_push hk⟩

variable (s) in
theorem run_markBoothsPaid (lineIds : List Uuid) : ∃ n, (markBoothsPaid lineIds).run s =
    .ok (n, { s with booths := s.booths.modify (latches lineIds) Booth.paid }) :=
  ⟨_, run_latchBooths lineIds s⟩

theorem recedes_paid {p : Booth → Bool} :
    Recedes s { s with booths := s.booths.modify p Booth.paid } :=
  recedes_modify (fun _ => rfl) fun _ => rfl

variable (s actor) in
/-- The paid verb of the seam never fails. -/
theorem run_onOrderPaid (env : Env) (consumer : String) (deliveryId : Option String)
    (orderId : Uuid) (lineIds : List Uuid) : ∃ answer t,
    (onOrderPaid env consumer deliveryId orderId lineIds actor).run s = .ok (answer, t) ∧
      Recedes s t := by
  have hrun := (⟨env, consumer, deliveryId, orderId, actor, .paid lineIds⟩ : SeamCall).run_program s
  simp only [SeamCall.key, SeamVerb.name, SeamCall.body, run_payOrder] at hrun
  cases hfresh : s.seamInbox.accepts ⟨consumer, claimKey "paid" deliveryId orderId⟩ with
  | false => exact ⟨alreadyApplied, s, hrun.trans (if_neg (by simp [hfresh])), .refl s⟩
  | true =>
    have hpaid : Recedes s { s with booths := s.booths.modify (latches lineIds) Booth.paid } :=
      recedes_paid
    exact ⟨_, _, hrun.trans (if_pos hfresh), hpaid.booths, fun k hk _ => hk⟩

theorem backed_confirmBooking {answer : BoothBooking × Booth} (hs : Backed s)
    (h : (confirmBooking bookingId actor).run s = .ok (answer, t)) : Backed t := by
  cases hfound : s.confirmable bookingId with
  | none =>
    obtain ⟨e, hrun⟩ := run_confirmBooking_none actor hfound
    rw [hrun] at h
    cases h
  | some p =>
    rw [run_confirmBooking_some actor hfound] at h
    obtain rfl := (Prod.mk.inj (Except.ok.inj h)).2
    obtain ⟨hpair, -, hstatus, -⟩ := confirmable_eq_some.mp hfound
    have hk := (booking?_mem (pair_eq_some.mp hpair).1).1
    -- The flip confirms this booking, and no booking loses its confirmation.
    have hkept : ∀ boothId, (boothId = p.1.eventBoothId ∨ Db.confirmedBooking s boothId = true) →
        Db.confirmedBooking (s.bookingConfirmed p.1 actor) boothId = true := fun boothId hboth => by
      rcases hboth with rfl | hold
      · refine confirmedBooking_iff.mpr ⟨BoothBooking.flipped p.1, ?_, rfl, rfl⟩
        exact Table.mem_modify.mpr ⟨p.1, hk, if_pos (by simp [pendingRow, hstatus])⟩
      · obtain ⟨k, hk, hof, hconfirmed⟩ := confirmedBooking_iff.mp hold
        refine confirmedBooking_iff.mpr ⟨k, Table.mem_modify.mpr ⟨k, hk, if_neg ?_⟩, hof, hconfirmed⟩
        simp [pendingRow, hconfirmed]
    intro b hb hstate
    obtain ⟨b', hb', rfl⟩ := Table.mem_modify.mp hb
    split at hstate
    · next hbooth =>
      rw [if_pos hbooth]
      exact hkept _ (.inl (beq_iff_eq.mp hbooth))
    · next hbooth =>
      rw [if_neg hbooth]
      exact hkept _ (.inr (hs b' hb' hstate))

theorem backed_releaseBooth {b : Booth} (hs : Backed s)
    (h : (releaseBooth boothId actor).run s = .ok (b, t)) : Backed t := by
  obtain rfl := run_releaseBooth_ok h
  intro b hb hstate
  obtain ⟨b', hb', rfl⟩ := Table.mem_modify.mp hb
  by_cases hreopened : unavailableRow boothId b' = true
  · rw [if_pos hreopened] at hstate
    cases hstate
  · rw [if_neg hreopened] at hstate ⊢
    obtain ⟨k, hk, hof, hstatus⟩ := confirmedBooking_iff.mp (hs b' hb' hstate)
    refine confirmedBooking_iff.mpr ⟨k, List.mem_filter.mpr ⟨hk, ?_⟩, hof, hstatus⟩
    simp only [unavailableRow, hstate, BEq.rfl, Bool.and_true, beq_iff_eq] at hreopened
    simpa [ofBooth, hof] using hreopened

theorem backed_next (h : Backed s) (c : BoothVerb) : Backed (next s c) := by
  cases c with
  | createBooth => exact backed_call h fun _ _ hrun => (recedes_createBooth hrun).backed h
  | copyTypeBooths => exact backed_call h fun _ _ hrun => (recedes_copyTypeBooths hrun).backed h
  | patchBooth => exact backed_call h fun _ _ hrun => (recedes_patchBooth hrun).backed h
  | deleteBooth => exact backed_call h fun _ _ hrun => (recedes_deleteBooth hrun).backed h
  | createBooking => exact backed_call h fun _ _ hrun => (recedes_createBooking hrun).backed h
  | confirmBooking => exact backed_call h fun _ _ hrun => backed_confirmBooking h hrun
  | deleteBooking => exact backed_call h fun _ _ hrun => (recedes_deleteBooking hrun).backed h
  | releaseBooth => exact backed_call h fun _ _ hrun => backed_releaseBooth h hrun
  | onOrderPaid env consumer deliveryId orderId lineIds actor =>
    refine backed_call h fun answer t hrun => ?_
    obtain ⟨answer', t', hpaid, hrecedes⟩ :=
      run_onOrderPaid s actor env consumer deliveryId orderId lineIds
    obtain rfl := (Prod.mk.inj (Except.ok.inj (hpaid.symm.trans hrun))).2
    exact hrecedes.backed h
  | markBoothsPaid lineIds =>
    refine backed_call h fun n t hrun => ?_
    obtain ⟨n', hpaid⟩ := run_markBoothsPaid s lineIds
    obtain rfl := (Prod.mk.inj (Except.ok.inj (hpaid.symm.trans hrun))).2
    exact recedes_paid.backed h

/-- A confirm is told that its booth is confirmed by the booth's state or by the wall. -/
theorem confirmed_of_refusal (hs : Backed s)
    (h : (confirmBooking bookingId actor).run s = .error (.boothAlreadyConfirmed boothId)) :
    Db.confirmedBooking s boothId = true := by
  cases hpair : s.pair bookingId with
  | none => simp [confirmBooking, hpair, Program.run_bind, Except.bind] at h
  | some p =>
    obtain ⟨hk, hb⟩ := pair_eq_some.mp hpair
    have hrun := h
    rw [run_confirmBooking_pair hpair] at h
    split at h
    · next hstate =>
      rw [run_confirmFlip, Db.flip, find_pendingRow hk] at h
      cases hstatus : p.1.status with
      | confirmed => simp [hstatus, noRows] at h
      | pending =>
        cases hwall : s.boothBookings.rows.any (confirmedOf p.1.eventBoothId) with
        | true =>
          simp only [hstatus, BEq.rfl, if_true, hwall] at h
          obtain rfl := EventError.boothAlreadyConfirmed.inj (Except.error.inj h)
          exact hwall
        | false =>
          have hfound := confirmable_eq_some.mpr ⟨hpair, hstate, hstatus, hwall⟩
          rw [run_confirmBooking_some actor hfound] at hrun
          cases hrun
    · next hstate =>
      obtain rfl := EventError.boothAlreadyConfirmed.inj (Except.error.inj h)
      obtain ⟨hmem, hid⟩ := booth?_mem hb
      refine hid ▸ hs p.2 hmem ?_
      cases hb : p.2.state with
      | available => exact absurd hb hstate
      | unavailable => rfl

variable (s eventId) in
theorem lineGuard_cases (line : Option Uuid) :
    (line.any (s.crossEvent · eventId) = false ∧ (lineGuard eventId line).run s = .ok ((), s)) ∨
    (line.any (s.crossEvent · eventId) = true ∧
      ∃ l, (lineGuard eventId line).run s = .error (.boothBookingLineCrossEvent l)) := by
  cases line with
  | none => exact .inl ⟨rfl, rfl⟩
  | some line =>
    cases hcross : s.crossEvent line eventId with
    | true => exact .inr ⟨hcross, line, by
        simp [lineGuard, hcross, Program.run_bind, Program.run_refuseWhen, Except.bind]⟩
    | false => exact .inl ⟨hcross, by
        simp [lineGuard, hcross, Program.run_bind, Program.run_refuseWhen, Except.bind]⟩

theorem run_insertBooking {row : BoothBooking} : (insertBooking row actor).run s =
    if s.boothBookings.accepts row then
      .ok (row, { s with boothBookings := s.boothBookings.push row })
    else .error (.boothAlreadyConfirmed row.eventBoothId) := by
  cases hfits : s.boothBookings.accepts row <;>
    simp [insertBooking, hfits, Program.run_bind, Program.run_refuseWhen, Except.bind]

/-- A create says that its booth is confirmed exactly when its insert conflicts. -/
theorem createBooking_refused {eventBoothId : Uuid} {line partner : Option Uuid}
    {name email phone : Option String} :
    (createBooking bookingId eventBoothId line partner name email phone actor).run s =
        .error (.boothAlreadyConfirmed boothId) ↔
      boothId = eventBoothId ∧ ∃ booth, s.booth? eventBoothId = some booth ∧
        line.any (s.crossEvent · booth.eventId) = false ∧
        s.boothBookings.accepts
          ⟨bookingId, eventBoothId, line, .pending, partner, name, email, phone⟩ = false := by
  simp only [createBooking, Program.bind_eq, Program.run_bind, Program.run_select, Except.bind]
  cases hbooth : s.booth? eventBoothId with
  | none => simp
  | some booth =>
    simp only [Program.run_require_some, Option.some.injEq, exists_eq_left']
    rcases lineGuard_cases s booth.eventId line with
      ⟨hline, hrun⟩ | ⟨hline, l, hrun⟩
    · simp only [hrun, run_insertBooking, hline, true_and]
      split
      · next haccepts => simp [haccepts]
      · next haccepts => simp [haccepts, eq_comm]
    · simp [hrun, hline]

/-- The insert meets a booking of its line and booth, or of its id. -/
theorem accepts_pending {eventBoothId : Uuid} {line : Option Uuid} (partner : Option Uuid)
    (name email phone : Option String) :
    s.boothBookings.accepts
        ⟨bookingId, eventBoothId, line, .pending, partner, name, email, phone⟩ = true ↔
      ∀ k ∈ s.boothBookings.rows, k.id ≠ bookingId ∧
        (k.saleOrderLineId = line → k.eventBoothId = eventBoothId → line = none) := by
  rw [Table.accepts_iff]
  refine forall₂_congr fun k _ => ?_
  simp only [clash, Bool.or_eq_false_iff, beq_eq_false_iff_ne]
  refine and_congr_right' ?_
  cases hline : k.saleOrderLineId <;> cases line <;> simp

/-- A call tells the truth exactly when it is no create that meets a twin. -/
theorem truthful_iff (hs : Backed s) (c : BoothVerb) : Truthful s c ↔ MeetsNoTwin s c := by
  cases c with
  | createBooth boothId' eventId categoryStored name actor =>
    refine iff_of_true (fun boothId h => ?_) trivial
    rw [BoothVerb.apply, call_refuses, run_createBooth, Db.boothInsert] at h
    split at h
    · cases h
    · split at h <;> cases h
  | copyTypeBooths eventId boothIds =>
    refine iff_of_true (fun boothId h => ?_) trivial
    rw [BoothVerb.apply, call_refuses, run_copyTypeBooths] at h
    split at h <;> cases h
  | patchBooth =>
    refine iff_of_true (fun boothId h => ?_) trivial
    rw [BoothVerb.apply, call_refuses, run_patchBooth] at h
    split at h
    · cases h
    · split at h <;> cases h
  | deleteBooth id actor =>
    refine iff_of_true (fun boothId h => ?_) trivial
    rw [BoothVerb.apply, call_refuses] at h
    cases hbooth : s.booth? id with
    | none => simp [deleteBooth, hbooth, Program.run_bind, Except.bind] at h
    | some b =>
      rw [run_deleteBooth hbooth] at h
      split at h
      · cases h
      · split at h <;> cases h
  | createBooking bookingId eventBoothId line partner name email phone actor =>
    simp only [Truthful, BoothVerb.apply, call_refuses, createBooking_refused, MeetsNoTwin,
      ← accepts_pending partner name email phone]
    constructor
    · intro h booth hbooth hline hfree
      by_contra haccepts
      have hconfirmed := h eventBoothId ⟨rfl, booth, hbooth, hline, by simpa using haccepts⟩
      rw [hfree] at hconfirmed
      cases hconfirmed
    · rintro h boothId ⟨rfl, booth, hbooth, hline, haccepts⟩
      by_contra hfree
      rw [h booth hbooth hline (by simpa using hfree)] at haccepts
      cases haccepts
  | confirmBooking bookingId actor =>
    refine iff_of_true (fun boothId h => ?_) trivial
    exact confirmed_of_refusal hs (call_refuses.mp h)
  | deleteBooking =>
    refine iff_of_true (fun boothId h => ?_) trivial
    rw [BoothVerb.apply, call_refuses, run_deleteBooking] at h
    split at h <;> cases h
  | releaseBooth id actor =>
    refine iff_of_true (fun boothId h => ?_) trivial
    rw [BoothVerb.apply, call_refuses] at h
    cases hfind : s.booths.find (unavailableRow id) <;>
      simp [releaseBooth, releaseReopen, recordAudit, hfind, Program.run_bind, Except.bind] at h
  | onOrderPaid env consumer deliveryId orderId lineIds actor =>
    refine iff_of_true (fun boothId h => ?_) trivial
    obtain ⟨answer, t, hpaid, -⟩ := run_onOrderPaid s actor env consumer deliveryId orderId lineIds
    rw [BoothVerb.apply, call_refuses, hpaid] at h
    cases h
  | markBoothsPaid lineIds =>
    refine iff_of_true (fun boothId h => ?_) trivial
    obtain ⟨n, hpaid⟩ := run_markBoothsPaid s lineIds
    rw [BoothVerb.apply, call_refuses, hpaid] at h
    cases h

/-- From any state where the unavailable booths are backed: the refusals of a run are truthful
exactly when no create of the run meets a twin on a booth without a confirmed booking. -/
theorem refusals_truthful_iff (hs : Backed s) (calls : List BoothVerb) :
    Along next Truthful s calls ↔ Along next MeetsNoTwin s calls := by
  constructor
  · intro h
    exact h.mono_within hs (fun s c h => backed_next h c) fun s c h => (truthful_iff h c).mp
  · intro h
    exact h.mono_within hs (fun s c h => backed_next h c) fun s c h => (truthful_iff h c).mpr

end verbs

section samples

instance (s : Db) : Decidable (Backed s) := inferInstanceAs (Decidable (∀ b ∈ s.booths.rows, _))

instance (s : Db) (c : BoothVerb) : Decidable (MeetsNoTwin s c) := by
  cases c <;> unfold MeetsNoTwin <;> infer_instance

/-- Line 5 books booth 1, has it confirmed and books it again. -/
def bookedAgain : List BoothVerb :=
  [.createBooking 10 1 (some 5) none none none none none, .confirmBooking 10 none,
    .createBooking 11 1 (some 5) none none none none none]

theorem refusals_truthful_bookedAgain : Along next Truthful freeBooth bookedAgain :=
  (refusals_truthful_iff (by decide) bookedAgain).mpr (by decide)

/-- Line 5 books booth 1 twice; nobody has confirmed it, and the booth is free. -/
theorem pendingTwin_saysConfirmed : ¬ Along next Truthful freeBooth
    [.createBooking 10 1 (some 5) none none none none none,
      .createBooking 11 1 (some 5) none none none none none] := fun h =>
  absurd (h.2.1 1 (by decide)) (by decide)

end samples

end BackboneEvents.BoothRefusals
