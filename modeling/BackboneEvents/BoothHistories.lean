import BackboneEvents.BoothEffects
import BackboneEvents.WriteHistories

/-!
# The history of a booth

Runs of all the booth verbs. A booth keeps its event and the first value of each column that a
patch or a confirm fills, stands as its last accepted confirm or release left it, and is paid
once a paid fact has named the line it has.
-/
namespace BackboneEvents.BoothHistories
open ConstrainedTables TransactionPrograms GuardedRuns BoothRefusals BoothEffects WriteHistories

/-- The booking that an accepted confirm confirms. -/
def confirms (s : Db) : BoothVerb → Option BoothBooking
  | .confirmBooking bookingId actor =>
    if granted s (.confirmBooking bookingId actor) then s.booking? bookingId else none
  | .createBooth _ _ _ _ _ | .copyTypeBooths _ _ | .patchBooth _ _ _ _ _ _ _ | .deleteBooth _ _
  | .createBooking _ _ _ _ _ _ _ _ | .deleteBooking _ _ | .releaseBooth _ _
  | .onOrderPaid _ _ _ _ _ _ | .markBoothsPaid _ => none

/-- The booth an accepted delete removes. -/
def removes (boothId : Uuid) (s : Db) : BoothVerb → Bool
  | .deleteBooth id actor => id == boothId && granted s (.deleteBooth id actor)
  | .createBooth _ _ _ _ _ | .copyTypeBooths _ _ | .patchBooth _ _ _ _ _ _ _
  | .createBooking _ _ _ _ _ _ _ _ | .confirmBooking _ _ | .deleteBooking _ _
  | .releaseBooth _ _ | .onOrderPaid _ _ _ _ _ _ | .markBoothsPaid _ => false

/-- A column of the booth that is filled where it is empty. -/
structure Column (α : Type) where
  ofBooth : Booth → Option α
  ofPatch : Option Uuid → Option String → Option String → Option String → Option α
  ofBooking : BoothBooking → Option α
  patched : ∀ partner name email phone b, ofBooth (Booth.patched partner name email phone b) =
    (ofBooth b).or (ofPatch partner name email phone)
  filled : ∀ k b, ofBooth (Booth.filled k b) = (ofBooth b).or (ofBooking k)
  flipped : ∀ k, ofBooking (BoothBooking.flipped k) = ofBooking k
  reopened : ∀ b, ofBooth (Booth.reopened b) = ofBooth b
  paid : ∀ b, ofBooth (Booth.paid b) = ofBooth b

def partnerColumn : Column Uuid := ⟨Booth.partnerId, fun partner _ _ _ => partner,
  BoothBooking.partnerId, fun _ _ _ _ _ => rfl, fun _ _ => rfl, fun _ => rfl,
    fun _ => rfl, fun _ => rfl⟩

def nameColumn : Column String := ⟨Booth.contactName, fun _ name _ _ => name,
  BoothBooking.contactName, fun _ _ _ _ _ => rfl, fun _ _ => rfl, fun _ => rfl,
    fun _ => rfl, fun _ => rfl⟩

def emailColumn : Column String := ⟨Booth.contactEmail, fun _ _ email _ => email,
  BoothBooking.contactEmail, fun _ _ _ _ _ => rfl, fun _ _ => rfl, fun _ => rfl,
    fun _ => rfl, fun _ => rfl⟩

def phoneColumn : Column String := ⟨Booth.contactPhone, fun _ _ _ phone => phone,
  BoothBooking.contactPhone, fun _ _ _ _ _ => rfl, fun _ _ => rfl, fun _ => rfl,
    fun _ => rfl, fun _ => rfl⟩

/-- A patch has no line. -/
def lineColumn : Column Uuid := ⟨Booth.saleOrderLineId, fun _ _ _ _ => none,
  BoothBooking.saleOrderLineId, fun _ _ _ _ _ => Option.or_none.symm, fun _ _ => rfl, fun _ => rfl,
  fun _ => rfl, fun _ => rfl⟩

/-- What an accepted patch or confirm of the booth has for the column. -/
def offered {α : Type} (col : Column α) (boothId : Uuid) (s : Db) (c : BoothVerb) : Option α :=
  match c with
  | .patchBooth id _ partner name email phone _ =>
    if id = boothId ∧ granted s c = true then col.ofPatch partner name email phone else none
  | .confirmBooking _ _ =>
    (confirms s c).bind fun k => if k.eventBoothId = boothId then col.ofBooking k else none
  | .createBooth _ _ _ _ _ | .copyTypeBooths _ _ | .deleteBooth _ _
  | .createBooking _ _ _ _ _ _ _ _ | .deleteBooking _ _ | .releaseBooth _ _
  | .onOrderPaid _ _ _ _ _ _ | .markBoothsPaid _ => none

/-- How an accepted confirm or release leaves the booth. -/
def stands (boothId : Uuid) (s : Db) (c : BoothVerb) : Option BoothState :=
  match c with
  | .confirmBooking _ _ =>
    (confirms s c).bind fun k => if k.eventBoothId = boothId then some .unavailable else none
  | .releaseBooth id _ => if id = boothId ∧ granted s c = true then some .available else none
  | .createBooth _ _ _ _ _ | .copyTypeBooths _ _ | .patchBooth _ _ _ _ _ _ _ | .deleteBooth _ _
  | .createBooking _ _ _ _ _ _ _ _ | .deleteBooking _ _ | .onOrderPaid _ _ _ _ _ _
  | .markBoothsPaid _ => none

/-- A paid fact names the line that the booth has. -/
def paysFor (boothId : Uuid) (s : Db) (c : BoothVerb) : Option Bool :=
  if (s.booth? boothId).any (copyOn (paidLines s c)) then some true else none

/-- What a run makes of a booth. -/
structure Lived (s : Db) (calls : List BoothVerb) (b b' : Booth) : Prop where
  id : b'.id = b.id
  eventId : b'.eventId = b.eventId
  state : some b'.state = ((written next (stands b.id) s calls).getLast?).or (some b.state)
  isPaid : some b'.isPaid = ((written next (paysFor b.id) s calls).getLast?).or (some b.isPaid)
  partnerId : b'.partnerId =
    b.partnerId.or (written next (offered partnerColumn b.id) s calls).head?
  contactName : b'.contactName =
    b.contactName.or (written next (offered nameColumn b.id) s calls).head?
  contactEmail : b'.contactEmail =
    b.contactEmail.or (written next (offered emailColumn b.id) s calls).head?
  contactPhone : b'.contactPhone =
    b.contactPhone.or (written next (offered phoneColumn b.id) s calls).head?
  saleOrderLineId : b'.saleOrderLineId =
    b.saleOrderLineId.or (written next (offered lineColumn b.id) s calls).head?

section booths

variable {s t : Db} {c : BoothVerb} {b : Booth} {α : Type}

/-- What a verb makes of a stored booth. -/
structure Turned (s : Db) (c : BoothVerb) (b b' : Booth) : Prop where
  id : b'.id = b.id
  eventId : b'.eventId = b.eventId
  state : some b'.state = (stands b.id s c).or (some b.state)
  isPaid : some b'.isPaid = (paysFor b.id s c).or (some b.isPaid)
  column : ∀ {α : Type} (col : Column α), col.ofBooth b' = (col.ofBooth b).or (offered col b.id s c)

theorem confirms_eq {bookingId : Uuid} {actor : Option Uuid} {k : BoothBooking}
    (hfound : s.confirmable bookingId = some (k, b)) :
    confirms s (.confirmBooking bookingId actor) = some k := by
  have hok : granted s (.confirmBooking bookingId actor) = true :=
    granted_of_ok rfl (run_confirmBooking_some actor hfound)
  rw [confirms, hok, if_pos rfl]
  exact (pair_eq_some.mp (confirmable_eq_some.mp hfound).1).1

/-- A verb that has nothing for the booth. -/
structure Idle (boothId : Uuid) (s : Db) (c : BoothVerb) : Prop where
  stands : stands boothId s c = none
  offered : ∀ {α : Type} (col : Column α), offered col boothId s c = none

theorem Idle.turned (h : Idle b.id s c) (hpays : paysFor b.id s c = none) : Turned s c b b :=
  ⟨rfl, rfl, by rw [h.stands, Option.none_or], by rw [hpays, Option.none_or],
    fun col => by rw [h.offered, Option.or_none]⟩

theorem idle_of_refused {boothId : Uuid} (h : granted s c = false) : Idle boothId s c := by
  cases c with
  | patchBooth | releaseBooth => exact ⟨by simp [stands, h], fun col => by simp [offered, h]⟩
  | confirmBooking =>
    exact ⟨by simp [stands, confirms, h], fun col => by simp [offered, confirms, h]⟩
  | createBooth | copyTypeBooths | deleteBooth | createBooking | deleteBooking | onOrderPaid
  | markBoothsPaid => exact ⟨rfl, fun _ => rfl⟩

theorem idle_of_pays {boothId : Uuid} (h : BoothVerb.pays c = true) : Idle boothId s c := by
  cases c with
  | onOrderPaid | markBoothsPaid => exact ⟨rfl, fun _ => rfl⟩
  | createBooth | copyTypeBooths | patchBooth | deleteBooth | createBooking | confirmBooking
  | deleteBooking | releaseBooth => cases h

theorem paysFor_of_free (hfree : BoothVerb.pays c = false) : paysFor b.id s c = none := by
  have hlines : paidLines s c = [] := by
    cases c with
    | onOrderPaid | markBoothsPaid => cases hfree
    | createBooth | copyTypeBooths | patchBooth | deleteBooth | createBooking | confirmBooking
    | deleteBooking | releaseBooth => rfl
  rw [paysFor, hlines, if_neg]
  cases s.booth? b.id <;> simp

theorem turned_patched {boothId : Uuid} {categoryStored : Bool} {partner : Option Uuid}
    {name email phone : Option String} {actor : Option Uuid}
    (ok : granted s (.patchBooth boothId categoryStored partner name email phone actor) = true) :
    Turned s (.patchBooth boothId categoryStored partner name email phone actor) b
      (if b.id == boothId then Booth.patched partner name email phone b else b) := by
  by_cases hid : b.id = boothId
  · rw [if_pos (beq_iff_eq.mpr hid)]
    refine ⟨rfl, rfl, rfl, by rw [paysFor_of_free rfl]; rfl, fun col => ?_⟩
    rw [offered, if_pos ⟨hid.symm, ok⟩, col.patched]
  · rw [if_neg (by simpa using hid)]
    exact Idle.turned ⟨rfl, fun col => if_neg fun h => hid h.1.symm⟩ (paysFor_of_free rfl)

theorem turned_filled {bookingId : Uuid} {actor : Option Uuid} {k : BoothBooking} {b' : Booth}
    (hfound : s.confirmable bookingId = some (k, b')) :
    Turned s (.confirmBooking bookingId actor) b
      (if b.id == k.eventBoothId then Booth.filled (BoothBooking.flipped k) b else b) := by
  by_cases hid : b.id = k.eventBoothId
  · rw [if_pos (beq_iff_eq.mpr hid)]
    refine ⟨rfl, rfl, ?_, by rw [paysFor_of_free rfl]; rfl, fun col => ?_⟩
    · rw [stands, confirms_eq hfound, Option.bind_some, if_pos hid.symm]
      rfl
    · rw [offered, confirms_eq hfound, Option.bind_some, if_pos hid.symm, col.filled, col.flipped]
  · rw [if_neg (by simpa using hid)]
    refine Idle.turned ⟨?_, fun col => ?_⟩ (paysFor_of_free rfl)
    · rw [stands, confirms_eq hfound, Option.bind_some, if_neg (Ne.symm hid)]
    · rw [offered, confirms_eq hfound, Option.bind_some, if_neg (Ne.symm hid)]

theorem turned_reopened {boothId : Uuid} {actor : Option Uuid}
    (ok : granted s (.releaseBooth boothId actor) = true) :
    Turned s (.releaseBooth boothId actor) b
      (if unavailableRow boothId b then Booth.reopened b else b) := by
  by_cases hid : b.id = boothId
  · have hstands : stands b.id s (.releaseBooth boothId actor) = some .available :=
      if_pos ⟨hid.symm, ok⟩
    cases hstate : b.state with
    | available =>
      rw [if_neg (by simp [unavailableRow, hstate])]
      exact ⟨rfl, rfl, by rw [hstands, hstate]; rfl, by rw [paysFor_of_free rfl]; rfl,
        fun col => Option.or_none.symm⟩
    | unavailable =>
      rw [if_pos (by simp [unavailableRow, hid, hstate])]
      exact ⟨rfl, rfl, by rw [hstands]; rfl, by rw [paysFor_of_free rfl]; rfl,
        fun col => by rw [col.reopened]; exact Option.or_none.symm⟩
  · rw [if_neg (by simp [unavailableRow, hid])]
    exact Idle.turned ⟨if_neg fun h => hid h.1.symm, fun _ => rfl⟩ (paysFor_of_free rfl)

theorem turned_paid (hb : s.booth? b.id = some b) (hpays : BoothVerb.pays c = true) :
    Turned s c b (if latches (paidLines s c) b then Booth.paid b else b) := by
  have hidle : Idle b.id s c := idle_of_pays hpays
  have hcopy : paysFor b.id s c = if copyOn (paidLines s c) b then some true else none := by
    rw [paysFor, hb, Option.any_some]
  have hpaid : some (b.isPaid || copyOn (paidLines s c) b) =
    (paysFor b.id s c).or (some b.isPaid) := by
    rw [hcopy]
    cases copyOn (paidLines s c) b <;> simp
  split
  · next hlatches =>
    have hnamed : copyOn (paidLines s c) b = true := (Bool.and_eq_true_iff.mp hlatches).1
    rw [hnamed, Bool.or_true] at hpaid
    exact ⟨rfl, rfl, by rw [hidle.stands]; rfl, hpaid,
      fun col => by rw [hidle.offered, Option.or_none, col.paid]⟩
  · next hlatches =>
    have hnot : (copyOn (paidLines s c) b && !b.isPaid) = false :=
      Bool.eq_false_of_not_eq_true hlatches
    have hsame : (b.isPaid || copyOn (paidLines s c) b) = b.isPaid := by
      revert hnot
      cases copyOn (paidLines s c) b <;> cases b.isPaid <;> simp
    rw [hsame] at hpaid
    exact ⟨rfl, rfl, by rw [hidle.stands]; rfl, hpaid,
      fun col => by rw [hidle.offered, Option.or_none]⟩

theorem turned_next (hb : s.booth? b.id = some b) (hkept : removes b.id s c = false) :
    ∃ b', (next s c).booth? b.id = some b' ∧ Turned s c b b' := by
  have heffect := effect_next s c
  generalize next s c = t at heffect
  have hstays : ∀ {booths : Table Booth}, t.booths = booths → booths = s.booths →
      t.booth? b.id = some b := fun ht hsame => by rw [Db.booth?, ht, hsame]; exact hb
  cases heffect with
  | refused error free leaves =>
    exact ⟨b, hstays leaves.booths rfl, (idle_of_refused error).turned (paysFor_of_free free)⟩
  | boothCreated accepts leaves =>
    have hrows := (congrArg Table.rows leaves.booths).trans (Table.rows_push accepts)
    exact ⟨b, booth?_more hb ⟨_, hrows.symm⟩, Idle.turned ⟨rfl, fun _ => rfl⟩ (paysFor_of_free rfl)⟩
  | boothsCopied fits leaves =>
    have hrows := (congrArg Table.rows leaves.booths).trans (Table.rows_insertAll fits)
    exact ⟨b, booth?_more hb ⟨_, hrows.symm⟩, Idle.turned ⟨rfl, fun _ => rfl⟩ (paysFor_of_free rfl)⟩
  | boothPatched ok leaves =>
    exact ⟨_, by rw [booth?_modify (fun _ => rfl) leaves.booths, hb]; rfl, turned_patched ok⟩
  | @boothDeleted boothId actor _ _ ok found unlinked leaves =>
    have hne : b.id ≠ boothId := by
      intro hid
      rw [removes, ok, Bool.and_true] at hkept
      simp [hid] at hkept
    exact ⟨b, booth?_remove hb hne leaves.booths,
      Idle.turned ⟨rfl, fun _ => rfl⟩ (paysFor_of_free rfl)⟩
  | bookingCreated born accepts leaves =>
    exact ⟨b, hstays leaves.booths rfl, Idle.turned ⟨rfl, fun _ => rfl⟩ (paysFor_of_free rfl)⟩
  | confirmed found leaves =>
    exact ⟨_, by rw [booth?_modify (fun _ => rfl) leaves.booths, hb]; rfl, turned_filled found⟩
  | bookingDeleted found leaves =>
    exact ⟨b, hstays leaves.booths rfl, Idle.turned ⟨rfl, fun _ => rfl⟩ (paysFor_of_free rfl)⟩
  | released ok found leaves =>
    exact ⟨_, by rw [booth?_modify (fun _ => rfl) leaves.booths, hb]; rfl, turned_reopened ok⟩
  | latched paying told leaves =>
    exact ⟨_, by rw [booth?_modify (fun _ => rfl) leaves.booths, hb]; rfl, turned_paid hb paying⟩

/-- A stored booth that is not deleted stays under its id. -/
theorem stored_next {boothId : Uuid} (hs : (s.booth? boothId).isSome = true)
    (hkept : removes boothId s c = false) : ∃ x x', s.booth? boothId = some x ∧
      (next s c).booth? boothId = some x' ∧ Turned s c x x' ∧ x.id = boothId := by
  obtain ⟨x, hx⟩ := Option.isSome_iff_exists.mp hs
  obtain rfl := (booth?_mem hx).2
  obtain ⟨x', hx', hturned⟩ := turned_next hx hkept
  exact ⟨x, x', hx, hx', hturned, rfl⟩

theorem isSome_next {boothId : Uuid} (hs : (s.booth? boothId).isSome = true)
    (hkept : removes boothId s c = false) : ((next s c).booth? boothId).isSome = true := by
  obtain ⟨-, x', -, hx', -⟩ := stored_next hs hkept
  rw [hx', Option.isSome_some]

/-- A booth with a line is never deleted. -/
theorem kept_of_saleLinked (hb : s.booth? b.id = some b) (hline : b.saleOrderLineId.isSome = true)
    (calls : List BoothVerb) : Along next (fun s c => removes b.id s c = false) s calls := by
  induction calls generalizing s b with
  | nil => trivial
  | cons c calls ih =>
    have hkept : removes b.id s c = false := by
      cases c with
      | deleteBooth id actor =>
        by_cases hid : id = b.id
        · subst hid
          have hrun := @run_deleteBooth s b.id actor b hb
          rw [if_pos hline] at hrun
          rw [removes, granted_of_error rfl hrun, Bool.and_false]
        · simp [removes, hid]
      | createBooth | copyTypeBooths | patchBooth | createBooking | confirmBooking | deleteBooking
      | releaseBooth | onOrderPaid | markBoothsPaid => rfl
    obtain ⟨b', hb', hturned⟩ := turned_next hb hkept
    refine ⟨hkept, ?_⟩
    have hline' : b'.saleOrderLineId.isSome = true := by
      have hcolumn : b'.saleOrderLineId = b.saleOrderLineId.or (offered lineColumn b.id s c) :=
        hturned.column lineColumn
      rw [hcolumn, Option.isSome_or, hline, Bool.true_or]
    rw [← hturned.id] at hb' ⊢
    exact ih hb' hline'

variable {calls : List BoothVerb}

/-- The history of a column. -/
theorem column_told (hb : s.booth? b.id = some b)
    (hkept : Along next (fun s c => removes b.id s c = false) s calls) (col : Column α) :
    ((calls.foldl next s).booth? b.id).bind col.ofBooth =
      (col.ofBooth b).or (written next (offered col b.id) s calls).head? := by
  have hobs := @firstWrite_wins_along _ _ _ next (offered col b.id)
    (fun s => (s.booth? b.id).isSome = true) (fun s => (s.booth? b.id).bind col.ofBooth) s calls _
    hkept (by rw [hb, Option.isSome_some]) (fun s c h hc => isSome_next h hc) fun s c h hc => by
      obtain ⟨x, x', hx, hx', hturned, hid⟩ := stored_next h hc
      rw [hx, hx', Option.bind_some, Option.bind_some, hturned.column col, hid]
  rwa [hb, Option.bind_some] at hobs

/-- The history of a value that the last write leaves. -/
theorem value_told (hb : s.booth? b.id = some b)
    (hkept : Along next (fun s c => removes b.id s c = false) s calls) {value : Booth → α}
    {write : Uuid → Db → BoothVerb → Option α}
    (hstep : ∀ {s c b b'}, Turned s c b b' →
      some (value b') = (write b.id s c).or (some (value b))) :
    ((calls.foldl next s).booth? b.id).map value =
      ((written next (write b.id) s calls).getLast?).or (some (value b)) := by
  have hobs := @lastWrite_wins_along _ _ _ next (write b.id)
    (fun s => (s.booth? b.id).isSome = true) (fun s => (s.booth? b.id).map value) s calls _
    hkept (by rw [hb, Option.isSome_some]) (fun s c h hc => isSome_next h hc) fun s c h hc => by
      obtain ⟨x, x', hx, hx', hturned, hid⟩ := stored_next h hc
      rw [hx, hx', Option.map_some, Option.map_some, hstep hturned, hid]
  rwa [hb, Option.map_some] at hobs

theorem event_told (hb : s.booth? b.id = some b)
    (hkept : Along next (fun s c => removes b.id s c = false) s calls) :
    ((calls.foldl next s).booth? b.id).map Booth.eventId = some b.eventId := by
  have hevent := @value_told _ _ _ _ hb hkept Booth.eventId (fun _ _ _ => none)
    fun h => congrArg some h.eventId
  have hnone : ∀ (s : Db) (calls : List BoothVerb),
      written next (fun _ _ => (none : Option Uuid)) s calls = [] := by
    intro s calls
    induction calls generalizing s with
    | nil => rfl
    | cons c calls ih => exact ih _
  rwa [hnone] at hevent

/-- A booth that has a line, or that no accepted delete meets, is there after any run of the
verbs and the run tells all of it. -/
theorem booth_told {s : Db} {b : Booth} (hb : b ∈ s.booths.rows) (calls : List BoothVerb)
    (hkept : b.saleOrderLineId.isSome = true ∨
      Along next (fun s c => removes b.id s c = false) s calls) :
    ∃ b', (calls.foldl next s).booth? b.id = some b' ∧ Lived s calls b b' := by
  have hstored := booth?_of_mem hb
  have halong : Along next (fun s c => removes b.id s c = false) s calls :=
    hkept.elim (fun hline => kept_of_saleLinked hstored hline calls) fun h => h
  obtain ⟨b', hb', hevent⟩ := Option.map_eq_some_iff.mp (event_told hstored halong)
  have hstate := value_told hstored halong fun h => h.state
  have hpaid := value_told hstored halong fun h => h.isPaid
  have hcolumn : ∀ {α : Type} (col : Column α), col.ofBooth b' =
      (col.ofBooth b).or (written next (offered col b.id) s calls).head? := fun col => by
    have htold := column_told hstored halong col
    rwa [hb', Option.bind_some] at htold
  rw [hb', Option.map_some] at hstate hpaid
  exact ⟨b', hb', {
    id := (booth?_mem hb').2
    eventId := hevent
    state := hstate
    isPaid := hpaid
    partnerId := hcolumn partnerColumn
    contactName := hcolumn nameColumn
    contactEmail := hcolumn emailColumn
    contactPhone := hcolumn phoneColumn
    saleOrderLineId := hcolumn lineColumn }⟩

end booths

section sample

/-- Booth 1, on sale. -/
def onSale : Booth := ⟨1, 1, .available, none, none, none, none, none, false⟩

/-- Booked and confirmed on line 5, released, booked and confirmed on line 6; then line 5 is
paid. -/
def bookedOver : List BoothVerb :=
  [.createBooking 10 1 (some 5) none (some "Ann") none none none, .confirmBooking 10 none,
    .releaseBooth 1 none, .createBooking 11 1 (some 6) none (some "Bob") none none none,
    .confirmBooking 11 none, .markBoothsPaid [5]]

theorem booth_told_bookedOver : ∃ b', (bookedOver.foldl next freeBooth).booth? 1 = some b' ∧
    b'.state = .unavailable ∧ b'.isPaid = true ∧ b'.contactName = some "Ann" ∧
    b'.saleOrderLineId = some 5 := by
  obtain ⟨b', hb', hlived⟩ := @booth_told freeBooth onSale (by decide) bookedOver (.inr (by decide))
  refine ⟨b', hb', ?_, ?_, ?_, ?_⟩
  · exact Option.some.inj (hlived.state.trans (by decide))
  · exact Option.some.inj (hlived.isPaid.trans (by decide))
  · exact hlived.contactName.trans (by decide)
  · exact hlived.saleOrderLineId.trans (by decide)

end sample

end BackboneEvents.BoothHistories
