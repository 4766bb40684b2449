import BackboneEvents.BoothEffects
import BackboneEvents.ReplayedTrails

/-!
# The trail of the booths

A release deletes the bookings of its booth and a withdrawal deletes its own, so the audit trail is
all that is left of them. Read from the start of a run it gives the state of every booth and every
booking.
-/
namespace BackboneEvents.BoothTrails
open ConstrainedTables TransactionPrograms BoothRefusals BoothEffects ReplayedTrails

/-- What the trail tells of a booking. -/
structure BookingEntry where
  id : Uuid
  eventBoothId : Uuid
  status : BookingStatus
  deriving DecidableEq, Repr

/-- The booths' states and the bookings; a booth that is not stored counts as available. -/
structure BoothLedger where
  state : Uuid → BoothState
  bookings : List BookingEntry

namespace BoothLedger

def stand (d : BoothLedger) (boothId : Uuid) (state : BoothState) : BoothLedger :=
  { d with state := Function.update d.state boothId state }

/-- One row of the trail read. -/
def read (d : BoothLedger) (row : AuditRow) : BoothLedger :=
  match row.detail, row.subjectId with
  | .boothDeleted, some boothId => d.stand boothId .available
  | .bookingCreated bookingId status, some boothId =>
    { d with bookings := d.bookings ++ [⟨bookingId, boothId, status⟩] }
  | .boothConfirmed bookingId, some boothId =>
    { d.stand boothId .unavailable with
      bookings := d.bookings.map fun k =>
        if k.id = bookingId then { k with status := .confirmed } else k }
  | .bookingDeleted, some bookingId =>
    { d with bookings := d.bookings.filter fun k => k.id != bookingId }
  | .boothReleased, some boothId =>
    { d.stand boothId .available with
      bookings := d.bookings.filter fun k => k.eventBoothId != boothId }
  | _, _ => d

end BoothLedger

def entryOf (k : BoothBooking) : BookingEntry := ⟨k.id, k.eventBoothId, k.status⟩

def stateOf (s : Db) (boothId : Uuid) : BoothState :=
  ((s.booth? boothId).map Booth.state).getD .available

/-- The ledger of the tables. -/
def ledgerOf (s : Db) : BoothLedger := ⟨stateOf s, s.boothBookings.rows.map entryOf⟩

section ledgers

variable {s t : Db} {c : BoothVerb} {boothId : Uuid}

theorem ledger_eq {state : Uuid → BoothState} {bookings : List BookingEntry}
    (hstate : ∀ id, state id = stateOf s id)
    (hbookings : bookings = s.boothBookings.rows.map entryOf) :
    (⟨state, bookings⟩ : BoothLedger) = ledgerOf s := by
  rw [ledgerOf, hbookings, funext hstate]

theorem stateOf_congr (h : t.booths = s.booths) (id : Uuid) : stateOf t id = stateOf s id := by
  rw [stateOf, Db.booth?, h, stateOf, Db.booth?]

/-- Booths that come in are available, as those that are not there. -/
theorem stateOf_more {more : List Booth} (hmore : ∀ b ∈ more, b.state = .available)
    (ht : t.booths.rows = s.booths.rows ++ more) (id : Uuid) : stateOf t id = stateOf s id := by
  rw [stateOf, Db.booth?, Table.find, ht, List.find?_append, stateOf, Db.booth?, Table.find]
  cases hold : s.booths.rows.find? (·.id == id) with
  | some b => rfl
  | none =>
    rw [Option.none_or]
    cases hnew : more.find? (·.id == id) with
    | none => rfl
    | some b => exact hmore b (List.mem_of_find?_eq_some hnew)

theorem stateOf_modify {p : Booth → Bool} {f : Update Booth} (hid : ∀ b, (f b).id = b.id)
    (hstate : ∀ b, (f b).state = b.state) (ht : t.booths = s.booths.modify p f) (id : Uuid) :
    stateOf t id = stateOf s id := by
  rw [stateOf, booth?_modify hid ht, stateOf, Option.map_map]
  refine congrArg (Option.getD · _) (congrArg (Option.map · _) (funext fun b => ?_))
  rw [Function.comp_apply]
  split
  · exact hstate b
  · rfl

theorem stateOf_remove (ht : t.booths = s.booths.remove (·.id == boothId)) (id : Uuid) :
    stateOf t id = Function.update (stateOf s) boothId .available id := by
  have hnone : ∀ {id}, (∀ b ∈ s.booths.rows, b.id = id → b.id = boothId) → t.booth? id = none := by
    intro id h
    refine List.find?_eq_none.mpr fun b hb hid => ?_
    rw [ht, Table.rows_remove, List.mem_filter] at hb
    have hgone := h b hb.1 (beq_iff_eq.mp hid)
    simp [hgone] at hb
  by_cases hne : id = boothId
  · subst hne
    rw [Function.update_self, stateOf, hnone fun b _ hid => hid]
    rfl
  · rw [Function.update_of_ne hne, stateOf, stateOf]
    cases hb : s.booth? id with
    | none =>
      have hfree : ∀ b ∈ s.booths.rows, b.id ≠ id := fun b hmem hid =>
        List.find?_eq_none.mp hb b hmem (beq_iff_eq.mpr hid)
      rw [hnone fun b hmem hid => absurd hid (hfree b hmem)]
    | some b =>
      obtain rfl := (booth?_mem hb).2
      rw [booth?_remove hb hne ht]

/-- The state of the booth, where the update leaves one. -/
theorem stateOf_stand {p : Booth → Bool} {f : Update Booth} {state : BoothState}
    (hid : ∀ b, (f b).id = b.id) (ht : t.booths = s.booths.modify p f)
    (hown : (t.booth? boothId).map Booth.state = some state)
    (hothers : ∀ b, b.id ≠ boothId → p b = false) (id : Uuid) :
    stateOf t id = Function.update (stateOf s) boothId state id := by
  by_cases hne : id = boothId
  · subst hne
    rw [Function.update_self, stateOf, hown, Option.getD_some]
  · rw [Function.update_of_ne hne, stateOf, booth?_modify hid ht, stateOf]
    cases hb : s.booth? id with
    | none => rfl
    | some b =>
      rw [Option.map_some, hothers b ((booth?_mem hb).2 ▸ hne)]
      rfl

theorem stateOf_filled {k : BoothBooking} {b : Booth} (hb : s.booth? k.eventBoothId = some b)
    (ht : t.booths = s.booths.modify (·.id == k.eventBoothId) (Booth.filled k)) (id : Uuid) :
    stateOf t id = Function.update (stateOf s) k.eventBoothId .unavailable id := by
  refine stateOf_stand (fun _ => rfl) ht ?_ (fun b hne => by simpa using hne) id
  rw [booth?_modify (fun _ => rfl) ht, hb, Option.map_some, if_pos (by simp [(booth?_mem hb).2])]
  rfl

theorem stateOf_reopened {b : Booth} (hb : s.booth? boothId = some b)
    (ht : t.booths = s.booths.modify (unavailableRow boothId) Booth.reopened)
    (id : Uuid) : stateOf t id = Function.update (stateOf s) boothId .available id := by
  refine stateOf_stand (fun _ => rfl) ht ?_ (fun b hne => by simp [unavailableRow, hne]) id
  rw [booth?_modify (fun _ => rfl) ht, hb, Option.map_some, Option.map_some]
  cases hstate : b.state with
  | available => rw [if_neg (by simp [unavailableRow, hstate]), hstate]
  | unavailable => rw [if_pos (by simp [unavailableRow, hstate, (booth?_mem hb).2])]; rfl

theorem entries_confirmed {k : BoothBooking} (hk : k ∈ s.boothBookings.rows)
    (hpending : k.status = .pending) :
    (s.boothBookings.modify (pendingRow k.id) BoothBooking.flipped).rows.map entryOf =
      (s.boothBookings.rows.map entryOf).map
        fun x => if x.id = k.id then { x with status := .confirmed } else x := by
  rw [Table.rows_modify, List.map_map, List.map_map]
  refine List.map_congr_left fun x hx => ?_
  rw [Function.comp_apply, Function.comp_apply]
  by_cases hid : x.id = k.id
  · obtain rfl : x = k := Table.eq_of_clash hx hk (by simp [clash, hid])
    simp [pendingRow, hpending, entryOf, BoothBooking.flipped]
  · simp [pendingRow, hid, entryOf]

theorem entries_withdrawn {bookingId : Uuid} {k : BoothBooking}
    (hfound : s.boothBookings.find (pendingRow bookingId) = some k) :
    (s.boothBookings.remove (pendingRow bookingId)).rows.map entryOf =
      (s.boothBookings.rows.map entryOf).filter fun x => x.id != bookingId := by
  have hspec := Table.find_spec hfound
  rw [pendingRow, Bool.and_eq_true, beq_iff_eq, beq_iff_eq] at hspec
  rw [Table.rows_remove, List.filter_map]
  refine congrArg (List.map entryOf) (List.filter_congr fun x hx => ?_)
  rw [Function.comp_apply]
  by_cases hid : x.id = bookingId
  · obtain rfl : x = k := Table.eq_of_clash hx (Table.find_mem hfound)
      (by simp [clash, hid, hspec.1])
    simp [pendingRow, hspec.2, entryOf, hid]
  · simp [pendingRow, hid, entryOf, bne]

theorem entries_released : (s.boothBookings.remove (ofBooth boothId)).rows.map entryOf =
    (s.boothBookings.rows.map entryOf).filter fun x => x.eventBoothId != boothId := by
  rw [Table.rows_remove, List.filter_map]
  rfl

theorem told_next (s : Db) (c : BoothVerb) :
    Told Db.auditTrails ledgerOf BoothLedger.read s (next s c) := by
  have heffect := effect_next s c
  generalize next s c = t at heffect
  cases heffect with
  | refused error free leaves =>
    refine told_of_same (leaves.trail.trans (List.append_nil _)) ?_
    exact (ledger_eq (fun id => (stateOf_congr leaves.booths id).symm)
      (by rw [leaves.bookings])).symm
  | boothCreated accepts leaves =>
    have hrows := (congrArg Table.rows leaves.booths).trans (Table.rows_push accepts)
    refine told_of_row leaves.trail (ledger_eq (fun id => (stateOf_more ?_ hrows id).symm) ?_)
    · simp [Booth.born]
    · rw [leaves.bookings]
  | boothsCopied fits leaves =>
    have hrows := (congrArg Table.rows leaves.booths).trans (Table.rows_insertAll fits)
    refine told_of_same (leaves.trail.trans (List.append_nil _)) ?_
    refine (ledger_eq (fun id => (stateOf_more ?_ hrows id).symm) (by rw [leaves.bookings])).symm
    intro b hb
    obtain ⟨boothId, -, rfl⟩ := List.mem_map.mp hb
    rfl
  | boothPatched ok leaves =>
    refine told_of_row leaves.trail (ledger_eq (fun id => ?_) (by rw [leaves.bookings]))
    exact (stateOf_modify (fun _ => rfl) (fun _ => rfl) leaves.booths id).symm
  | boothDeleted ok found unlinked leaves =>
    exact told_of_row leaves.trail (ledger_eq (fun id => (stateOf_remove leaves.booths id).symm)
      (by rw [leaves.bookings]; rfl))
  | bookingCreated born accepts leaves =>
    refine told_of_row leaves.trail (ledger_eq (fun id => (stateOf_congr leaves.booths id).symm) ?_)
    rw [leaves.bookings, Table.rows_push accepts, List.map_append, born]
    rfl
  | confirmed found leaves =>
    obtain ⟨hpair, -, hpending, -⟩ := confirmable_eq_some.mp found
    obtain ⟨hk, hb⟩ := pair_eq_some.mp hpair
    refine told_of_row leaves.trail
      (ledger_eq (fun id => (stateOf_filled hb leaves.booths id).symm) ?_)
    rw [leaves.bookings, entries_confirmed (booking?_mem hk).1 hpending]
    rfl
  | bookingDeleted found leaves =>
    obtain ⟨k, hk⟩ := Option.isSome_iff_exists.mp found
    refine told_of_row leaves.trail (ledger_eq (fun id => (stateOf_congr leaves.booths id).symm) ?_)
    rw [leaves.bookings, entries_withdrawn hk]
    rfl
  | released ok found leaves =>
    obtain ⟨b, hb⟩ := Option.isSome_iff_exists.mp found
    have hid := Table.find_spec hb
    rw [unavailableRow, Bool.and_eq_true, beq_iff_eq] at hid
    have hstored := hid.1 ▸ booth?_of_mem (Table.find_mem hb)
    refine told_of_row leaves.trail
      (ledger_eq (fun id => (stateOf_reopened hstored leaves.booths id).symm) ?_)
    rw [leaves.bookings, entries_released]
    rfl
  | latched paying told leaves =>
    refine ⟨_, leaves.trail, ?_⟩
    have hread : ∀ rows : List AuditRow, (∀ row ∈ rows, ∃ healed latched,
      row.detail = .paidHeal healed latched) →
        rows.foldl BoothLedger.read (ledgerOf s) = ledgerOf s := by
      intro rows hrows
      induction rows with
      | nil => rfl
      | cons row rows ih =>
        obtain ⟨healed, latched, hdetail⟩ := hrows row List.mem_cons_self
        rw [List.foldl_cons, BoothLedger.read, hdetail]
        exact ih fun x hx => hrows x (List.mem_cons_of_mem _ hx)
    rw [hread _ told]
    refine ledger_eq (fun id => ?_) (by rw [leaves.bookings])
    exact (stateOf_modify (fun _ => rfl) (fun _ => rfl) leaves.booths id).symm

end ledgers

/-- Whatever is called, and whatever is refused: the rows a run adds to the trail, read from the
booths and bookings before it, give the booths and bookings after it. -/
theorem boothTrail_replays (s : Db) (calls : List BoothVerb) :
    ∃ rows, (calls.foldl next s).auditTrails = s.auditTrails ++ rows ∧
      rows.foldl BoothLedger.read (ledgerOf s) = ledgerOf (calls.foldl next s) := by
  have htold : Told Db.auditTrails ledgerOf BoothLedger.read s (calls.foldl next s) :=
    @told_run _ _ _ _ _ _ _ _ _ (fun _ => True) trivial (fun _ _ _ => trivial)
      (fun s c _ => told_next s c) calls
  exact htold

end BackboneEvents.BoothTrails
