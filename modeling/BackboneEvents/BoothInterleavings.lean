import BackboneEvents.BoothLatch
import BackboneEvents.TransactionInterleavings

/-!
# Concurrent bookings of the booths

Creates, confirms, withdrawals and releases run interleaved. A confirm holds the booking and
its booth from its first statement on. A release deletes the bookings it sees before it
touches the booth, so between its two statements another session can book and confirm, and
the release then reopens a booth under that booking. While no release reopens a booth that
has a confirmed booking, a booth is unavailable exactly when it has one.
-/
namespace BackboneEvents.BoothInterleavings
open ConstrainedTables TransactionPrograms TransactionInterleavings GuardedRuns

inductive BoothVerb where
  | createBooking (bookingId eventBoothId : Uuid) (saleOrderLineId partnerId : Option Uuid)
      (contactName contactEmail contactPhone : Option String) (actor : Option Uuid)
  | confirmBooking (bookingId : Uuid) (actor : Option Uuid)
  | deleteBooking (bookingId : Uuid) (actor : Option Uuid)
  | releaseBooth (eventBoothId : Uuid) (actor : Option Uuid)

inductive BoothAnswer where
  | created (booking : BoothBooking)
  | confirmed (booking : BoothBooking) (booth : Booth)
  | deleted
  | released (booth : Booth)

def confirmedAnswer (p : BoothBooking × Booth) : Tx BoothAnswer := .done (.confirmed p.1 p.2)

def releasedAnswer (b : Booth) : Tx BoothAnswer := .done (.released b)

def BoothVerb.program : BoothVerb → Tx BoothAnswer
  | .createBooking bookingId eventBoothId line partner name email phone actor => do
    let booking ← BackboneEvents.createBooking bookingId eventBoothId line partner name email phone
      actor
    return .created booking
  | .confirmBooking bookingId actor => BackboneEvents.confirmBooking bookingId actor >>= confirmedAnswer
  | .deleteBooking bookingId actor => do
    BackboneEvents.deleteBooking bookingId actor
    return .deleted
  | .releaseBooth eventBoothId actor =>
    BackboneEvents.releaseBooth eventBoothId actor >>= releasedAnswer

abbrev BoothSession := Session Db Lock AuditRow EventError BoothAnswer

abbrev BoothWorld (ι : Type) := TransactionInterleavings.World ι Db Lock AuditRow EventError BoothAnswer

/-- The sessions after a schedule of their steps. -/
def book {ι : Type} [Fintype ι] [DecidableEq ι] (verbs : ι → BoothVerb) (s : Db)
    (schedule : List ι) : BoothWorld ι :=
  schedule.foldl (World.step Db.absorb) (start s fun i => (verbs i).program)

/-- A booth has at most one confirmed booking, and is unavailable just when it has one. -/
def Matched (s : Db) : Prop :=
  ∀ b ∈ s.booths.rows, s.boothBookings.count (confirmedOf b.id) ≤ 1 ∧
    (b.state = .unavailable ↔ s.boothBookings.count (confirmedOf b.id) = 1)

/-- The booth a release is about to reopen: it has deleted, it finds the booth unavailable and
nobody else holds it. -/
def reopens {ι : Type} [Fintype ι] [DecidableEq ι] (verbs : ι → BoothVerb) (w : BoothWorld ι)
    (i : ι) : Option Uuid :=
  match verbs i with
  | .releaseBooth boothId _ =>
    if (w.sessions i).seen.length = 1 ∧
        (((w.sessions i).view w.committed).booths.find (unavailableRow boothId)).isSome ∧
        w.blocked i [.booth boothId] = false then some boothId
    else none
  | .createBooking _ _ _ _ _ _ _ _ | .confirmBooking _ _ | .deleteBooking _ _ => none

/-- A release that reopens a booth sees no confirmed booking on it. -/
def ReopensClear {ι : Type} [Fintype ι] [DecidableEq ι] (verbs : ι → BoothVerb)
    (w : BoothWorld ι) (i : ι) : Prop :=
  ∀ boothId ∈ reopens verbs w i,
    ((w.sessions i).view w.committed).boothBookings.rows.any (confirmedOf boothId) = false

section commits

variable {s t u : Db} {locks : List Lock}

/-- What a commit under these locks may do to the rows: it changes only locked ones, and
confirms bookings only of locked booths. -/
structure Touches (locks : List Lock) (s t : Db) : Prop where
  bookings : ∀ k ∈ s.boothBookings.rows, .booking k.id ∉ locks → k ∈ t.boothBookings.rows
  booths : ∀ b ∈ s.booths.rows, .booth b.id ∉ locks → b ∈ t.booths.rows
  confirmed : ∀ k ∈ t.boothBookings.rows, k.status = .confirmed → k ∈ s.boothBookings.rows ∨
    .booth k.eventBoothId ∈ locks

/-- The count a booth should have. -/
theorem matched_iff : Matched s ↔ ∀ b ∈ s.booths.rows,
    s.boothBookings.count (confirmedOf b.id) = if b.state = .available then 0 else 1 := by
  refine forall_congr' fun b => forall_congr' fun _ => ?_
  cases b.state <;>
    simp only [reduceCtorEq, if_true, if_false, true_iff, false_iff] <;> omega

/-- The same booths and the same confirmed bookings. -/
structure Calm (s t : Db) : Prop where
  booths : t.booths = s.booths
  bookings : ∀ k ∈ s.boothBookings.rows, k ∈ t.boothBookings.rows
  confirmed : ∀ k ∈ t.boothBookings.rows, k.status = .confirmed → k ∈ s.boothBookings.rows
  count : ∀ boothId, t.boothBookings.count (confirmedOf boothId) =
    s.boothBookings.count (confirmedOf boothId)

theorem Calm.refl (s : Db) : Calm s s := ⟨rfl, fun _ h => h, fun _ h _ => h, fun _ => rfl⟩

theorem Calm.trans (h : Calm s t) (h' : Calm t u) : Calm s u where
  booths := h'.booths.trans h.booths
  bookings k hk := h'.bookings k (h.bookings k hk)
  confirmed k hk hstatus := h.confirmed k (h'.confirmed k hk hstatus) hstatus
  count boothId := (h'.count boothId).trans (h.count boothId)

theorem Calm.of_eq (hbooths : t.booths = s.booths) (hbookings : t.boothBookings = s.boothBookings) :
    Calm s t := by
  refine ⟨hbooths, ?_, ?_, ?_⟩ <;> simp_all

theorem Touches.calm (h : Touches locks s t) (h' : Calm t u) : Touches locks s u where
  bookings k hk hfree := h'.bookings k (h.bookings k hk hfree)
  booths b hb hfree := h'.booths ▸ h.booths b hb hfree
  confirmed k hk hstatus := h.confirmed k (h'.confirmed k hk hstatus) hstatus

theorem Calm.touches (h : Calm s t) : Touches locks s t where
  bookings k hk _ := h.bookings k hk
  booths _ hb _ := h.booths ▸ hb
  confirmed k hk hstatus := .inl (h.confirmed k hk hstatus)

theorem Calm.matched (h : Calm s t) (hs : Matched s) : Matched t := by
  intro b hb
  rw [h.count]
  exact hs b (h.booths ▸ hb)

theorem calm_push {row : BoothBooking} (h : row.status = .pending) :
    Calm s { s with boothBookings := s.boothBookings.push row } := by
  cases haccepts : s.boothBookings.accepts row with
  | false => exact .of_eq rfl (Table.push_of_not_accepts haccepts)
  | true =>
    refine ⟨rfl, fun k hk => Table.mem_push hk, fun k hk hstatus => ?_, fun boothId => ?_⟩
    · rw [Table.rows_push haccepts, List.mem_append, List.mem_singleton] at hk
      rcases hk with hk | rfl
      · exact hk
      · rw [h] at hstatus
        cases hstatus
    · rw [Table.count_push haccepts]
      simp [confirmedOf, h]

theorem eq_of_clash_booking {k x : BoothBooking} (hk : k ∈ s.boothBookings.rows)
    (hx : x ∈ s.boothBookings.rows) (h : clash k x = true) : x = k :=
  (Table.eq_of_clash hk hx h).symm

/-- The commit of a withdrawal. -/
theorem removed_commit {k : BoothBooking} (hs : Matched s) (hk : k ∈ s.boothBookings.rows)
    (hpending : k.status = .pending) (hlock : .booking k.id ∈ locks)
    (hbooths : t.booths = s.booths) (hbookings : t.boothBookings = s.boothBookings.remove (clash k)) :
    Matched t ∧ Touches locks s t := by
  have hcount : ∀ boothId, t.boothBookings.count (confirmedOf boothId) =
      s.boothBookings.count (confirmedOf boothId) := fun boothId => by
    rw [hbookings, Table.count_remove]
    refine List.countP_congr fun r hr => ?_
    cases hclash : clash k r with
    | false => simp
    | true =>
      obtain rfl := eq_of_clash_booking hk hr hclash
      simp [confirmedOf, hpending]
  refine ⟨fun b hb => ?_, ⟨fun x hx hfree => ?_, fun b hb _ => hbooths ▸ hb, fun x hx _ => ?_⟩⟩
  · rw [hcount]
    exact hs b (hbooths ▸ hb)
  · rw [hbookings, Table.rows_remove]
    refine List.mem_filter.mpr ⟨hx, ?_⟩
    cases hclash : clash k x with
    | false => rfl
    | true =>
      obtain rfl := eq_of_clash_booking hk hx hclash
      exact absurd hlock hfree
  · rw [hbookings, Table.rows_remove] at hx
    exact .inl (List.mem_of_mem_filter hx)

/-- The commit of a confirm. -/
theorem confirmed_commit {k k' : BoothBooking} {b : Booth} (hs : Matched s)
    (hk : k ∈ s.boothBookings.rows) (hb : b ∈ s.booths.rows) (hown : b.id = k.eventBoothId)
    (havailable : b.state = .available) (hpending : k.status = .pending)
    (hbooking : .booking k.id ∈ locks) (hbooth : .booth b.id ∈ locks)
    (hbookings : t.boothBookings = s.boothBookings.modify (clash k) BoothBooking.flipped)
    (hbooths : t.booths = s.booths.modify (clash b) (Booth.filled k')) :
    Matched t ∧ Touches locks s t := by
  have hpinned : ∀ r ∈ s.boothBookings.rows, clash k r = true ↔ r = k := fun r hr =>
    ⟨eq_of_clash_booking hk hr, fun h => h ▸ clash_self r⟩
  have hcount : ∀ boothId, t.boothBookings.count (confirmedOf boothId) =
      s.boothBookings.count (confirmedOf boothId) + if boothId = b.id then 1 else 0 := fun boothId => by
    have henter := Table.count_modify_enter (t := s.boothBookings) (p := clash k)
      (q := confirmedOf boothId) (f := BoothBooking.flipped) (g := ofBooth boothId)
      (fun r hr hc => by
        rw [(hpinned r hr).mp hc]
        simp [confirmedOf, hpending])
      (fun r _ _ => by simp [confirmedOf, ofBooth, BoothBooking.flipped])
    rw [hbookings, henter, Table.count_pinned hk hpinned, hown]
    simp only [ofBooth, beq_iff_eq, eq_comm (a := boothId)]
  refine ⟨matched_iff.mpr fun b' hb' => ?_, ⟨fun x hx hfree => ?_, fun x hx hfree => ?_,
    fun x hx hstatus => ?_⟩⟩
  · rw [hbooths] at hb'
    obtain ⟨x, hx, rfl⟩ := Table.mem_modify.mp hb'
    have hold := matched_iff.mp hs x hx
    by_cases hc : clash b x = true
    · obtain rfl := Table.eq_of_clash hb hx hc
      rw [if_pos hc, hcount]
      simp [Booth.filled, hold, havailable]
    · have hne : x.id ≠ b.id := fun h => hc (by simp [clash, h])
      rw [if_neg hc, hcount, if_neg hne, hold, Nat.add_zero]
  · rw [hbookings]
    refine Table.mem_modify.mpr ⟨x, hx, if_neg fun hc => ?_⟩
    rw [(hpinned x hx).mp hc] at hfree
    exact hfree hbooking
  · rw [hbooths]
    refine Table.mem_modify.mpr ⟨x, hx, if_neg fun hc => ?_⟩
    rw [← Table.eq_of_clash hb hx hc] at hfree
    exact hfree hbooth
  · rw [hbookings] at hx
    obtain ⟨y, hy, rfl⟩ := Table.mem_modify.mp hx
    by_cases hc : clash k y = true
    · obtain rfl := (hpinned y hy).mp hc
      refine .inr ?_
      rw [if_pos hc]
      simpa [BoothBooking.flipped, ← hown] using hbooth
    · exact .inl (by rwa [if_neg hc])

/-- The bookings of the booth that `v` holds are stored unchanged. -/
def Stored (v s : Db) (boothId : Uuid) : Prop :=
  ∀ k ∈ v.boothBookings.rows, ofBooth boothId k = true → k ∈ s.boothBookings.rows

theorem Stored.matched_iff {v : Db} {boothId : Uuid} {k : BoothBooking} (h : Stored v s boothId)
    (hk : k ∈ s.boothBookings.rows) : v.boothBookings.matched (ofBooth boothId) k = true ↔
      k ∈ v.boothBookings.rows ∧ ofBooth boothId k = true := by
  simp only [Table.matched, List.any_eq_true, Bool.and_eq_true]
  constructor
  · rintro ⟨x, hx, hc, hof⟩
    obtain rfl := eq_of_clash_booking (h x hx hof) hk hc
    exact ⟨hx, hof⟩
  · rintro ⟨hv, hof⟩
    exact ⟨k, hv, clash_self k, hof⟩

/-- The commit of a release that leaves no confirmed booking on its booth. -/
theorem released_commit {v : Db} {b : Booth} (hs : Matched s) (hb : b ∈ s.booths.rows)
    (hstored : Stored v s b.id)
    (hlocked : ∀ k ∈ v.boothBookings.rows, ofBooth b.id k = true → .booking k.id ∈ locks)
    (hclear : ∀ k ∈ s.boothBookings.rows, confirmedOf b.id k = true → k ∈ v.boothBookings.rows)
    (hbooth : .booth b.id ∈ locks)
    (hbookings : t.boothBookings = s.boothBookings.remove (v.boothBookings.matched (ofBooth b.id)))
    (hbooths : t.booths = s.booths.modify (clash b) Booth.reopened) :
    Matched t ∧ Touches locks s t := by
  have hcount : ∀ boothId, t.boothBookings.count (confirmedOf boothId) =
      if boothId = b.id then 0 else s.boothBookings.count (confirmedOf boothId) := fun boothId => by
    rw [hbookings, Table.count_remove]
    split
    · next hid =>
      refine List.countP_eq_zero.mpr fun k hk hleft => ?_
      rw [hid, Bool.and_eq_true] at hleft
      have hof := (Bool.and_eq_true_iff.mp hleft.1).1
      rw [(hstored.matched_iff hk).mpr ⟨hclear k hk hleft.1, hof⟩] at hleft
      cases hleft.2
    · next hid =>
      refine List.countP_congr fun k hk => ?_
      cases hmatch : v.boothBookings.matched (ofBooth b.id) k with
      | false => simp
      | true =>
        have hof := ((hstored.matched_iff hk).mp hmatch).2
        simp only [ofBooth, beq_iff_eq] at hof
        simp [confirmedOf, ofBooth, hof, Ne.symm hid]
  refine ⟨matched_iff.mpr fun b' hb' => ?_, ⟨fun x hx hfree => ?_, fun x hx hfree => ?_,
    fun x hx _ => ?_⟩⟩
  · rw [hbooths] at hb'
    obtain ⟨x, hx, rfl⟩ := Table.mem_modify.mp hb'
    by_cases hc : clash b x = true
    · obtain rfl := Table.eq_of_clash hb hx hc
      rw [if_pos hc, hcount]
      simp [Booth.reopened]
    · have hne : x.id ≠ b.id := fun h => hc (by simp [clash, h])
      rw [if_neg hc, hcount, if_neg hne, BoothInterleavings.matched_iff.mp hs x hx]
  · rw [hbookings, Table.rows_remove]
    refine List.mem_filter.mpr ⟨hx, ?_⟩
    cases hmatch : v.boothBookings.matched (ofBooth b.id) x with
    | false => rfl
    | true =>
      obtain ⟨hv, hof⟩ := (hstored.matched_iff hx).mp hmatch
      exact absurd (hlocked x hv hof) hfree
  · rw [hbooths]
    refine Table.mem_modify.mpr ⟨x, hx, if_neg fun hc => ?_⟩
    rw [← Table.eq_of_clash hb hx hc] at hfree
    exact hfree hbooth
  · rw [hbookings, Table.rows_remove] at hx
    exact .inl (List.mem_of_mem_filter hx)

end commits

section programs

variable {α β : Type}

/-- Every write of the program leaves booths and confirmed bookings as they are. -/
def Drafts : Tx α → Prop
  | .done _ => True
  | .refuse _ => True
  | .statement _ write next => (∀ v t, Calm t (write v t)) ∧ ∀ v, Drafts (next v)
  | .note _ _ => False
  | .noteAfter _ next => Drafts next

/-- What is left of the program writes neither booths nor bookings. -/
def Closing : Tx α → Prop
  | .done _ => True
  | .refuse _ => True
  | .statement _ write next => (∀ v t, (write v t).boothBookings = t.boothBookings ∧
      (write v t).booths = t.booths) ∧ ∀ v, Closing (next v)
  | .note _ _ => False
  | .noteAfter _ next => Closing next

theorem drafts_bind {x : Tx α} {f : α → Tx β} (hx : Drafts x) (hf : ∀ a, Drafts (f a)) :
    Drafts (x.bind f) := by
  induction x with
  | done a => exact hf a
  | refuse e => trivial
  | statement locks write next ih => exact ⟨hx.1, fun v => ih v (hx.2 v)⟩
  | note n next ih => exact hx.elim
  | noteAfter n next ih => exact ih hx

theorem drafts_select (f : Db → α) : Drafts (Program.select f : Tx α) :=
  ⟨fun _ t => .refl t, fun _ => trivial⟩

theorem drafts_require (o : Option α) (e : EventError) : Drafts (Program.require o e : Tx α) := by
  cases o <;> trivial

theorem drafts_refuseWhen (b : Bool) (e : EventError) : Drafts (Program.refuseWhen b e : Tx Unit) := by
  cases b <;> trivial

theorem drafts_lineGuard (eventId : Uuid) (line : Option Uuid) : Drafts (lineGuard eventId line) := by
  cases line with
  | none => trivial
  | some line => exact drafts_bind (drafts_select _) fun cross => drafts_refuseWhen cross _

theorem drafts_insertBooking {row : BoothBooking} (h : row.status = .pending)
    (actor : Option Uuid) : Drafts (insertBooking row actor) := by
  refine drafts_bind ⟨fun _ _ => calm_push h, fun _ => trivial⟩ fun fits => ?_
  exact drafts_bind (drafts_refuseWhen _ _) fun _ => trivial

theorem drafts_createBooking (bookingId eventBoothId : Uuid) (line partner : Option Uuid)
    (name email phone : Option String) (actor : Option Uuid) :
    Drafts (createBooking bookingId eventBoothId line partner name email phone actor) := by
  refine drafts_bind (drafts_select _) fun found => ?_
  refine drafts_bind (drafts_require found _) fun booth => ?_
  refine drafts_bind (drafts_lineGuard _ _) fun _ => ?_
  exact drafts_insertBooking rfl actor

end programs

section sessions

variable {s t : Db} {x : BoothSession} {verb : BoothVerb} {locks : List Lock}

/-- A session that holds a booking and its available booth. -/
structure Holds (s : Db) (x : BoothSession) (k : BoothBooking) (b : Booth) : Prop where
  booking : k ∈ s.boothBookings.rows
  booth : b ∈ s.booths.rows
  own : b.id = k.eventBoothId
  available : b.state = .available
  bookingLock : .booking k.id ∈ x.locks
  boothLock : .booth b.id ∈ x.locks

/-- A session that has deleted the bookings of the booth that `v` held. -/
structure Cleared (s : Db) (x : BoothSession) (v : Db) (boothId : Uuid) : Prop where
  stored : Stored v s boothId
  locked : ∀ k ∈ v.boothBookings.rows, ofBooth boothId k = true → .booking k.id ∈ x.locks
  bookings : ∀ t, (x.view t).boothBookings =
    t.boothBookings.remove (v.boothBookings.matched (ofBooth boothId))

/-- Where an open session stands over the committed database `s`: what is left of its
program, what it holds and what its writes do to whatever they are committed on. -/
inductive Standing (s : Db) (verb : BoothVerb) (x : BoothSession) : Tx BoothAnswer → Prop
  | refusing {e : EventError} : Standing s verb x (.refuse e)
  | drafting {p : Tx BoothAnswer} (drafts : Drafts p) (calm : ∀ t, Calm t (x.view t)) :
      Standing s verb x p
  | deleteStart {bookingId : Uuid} {actor : Option Uuid} (staged : x.staged = []) :
      Standing s verb x (BoothVerb.deleteBooking bookingId actor).program
  | deleted {k : BoothBooking} {p : Tx BoothAnswer} (closing : Closing p)
      (booking : k ∈ s.boothBookings.rows) (pending : k.status = .pending)
      (lock : .booking k.id ∈ x.locks) (booths : ∀ t, (x.view t).booths = t.booths)
      (bookings : ∀ t, (x.view t).boothBookings = t.boothBookings.remove (clash k)) :
      Standing s verb x p
  | confirmStart {bookingId : Uuid} {actor : Option Uuid} (staged : x.staged = []) :
      Standing s verb x (BoothVerb.confirmBooking bookingId actor).program
  | flipping {k : BoothBooking} {b : Booth} {actor : Option Uuid} (holds : Holds s x k b)
      (booths : ∀ t, (x.view t).booths = t.booths)
      (bookings : ∀ t, (x.view t).boothBookings = t.boothBookings) :
      Standing s verb x (confirmFlip k.id k.eventBoothId actor >>= confirmedAnswer)
  | filling {k : BoothBooking} {b : Booth} {actor : Option Uuid} (holds : Holds s x k b)
      (pending : k.status = .pending) (booths : ∀ t, (x.view t).booths = t.booths)
      (bookings : ∀ t, (x.view t).boothBookings =
        t.boothBookings.modify (clash k) BoothBooking.flipped) :
      Standing s verb x (confirmFill (BoothBooking.flipped k) actor >>= confirmedAnswer)
  | confirmed {k : BoothBooking} {b : Booth} {p : Tx BoothAnswer} (closing : Closing p)
      (holds : Holds s x k b) (pending : k.status = .pending)
      (booths : ∀ t, (x.view t).booths =
        t.booths.modify (clash b) (Booth.filled (BoothBooking.flipped k)))
      (bookings : ∀ t, (x.view t).boothBookings =
        t.boothBookings.modify (clash k) BoothBooking.flipped) :
      Standing s verb x p
  | releaseStart {boothId : Uuid} {actor : Option Uuid} (verb_eq : verb = .releaseBooth boothId actor)
      (staged : x.staged = []) (seen : x.seen = []) :
      Standing s verb x (BoothVerb.releaseBooth boothId actor).program
  | reopening {boothId : Uuid} {actor : Option Uuid} {v : Db}
      (verb_eq : verb = .releaseBooth boothId actor) (seen : x.seen.length = 1)
      (cleared : Cleared s x v boothId) (booths : ∀ t, (x.view t).booths = t.booths) :
      Standing s verb x (releaseReopen boothId actor >>= releasedAnswer)
  | released {b : Booth} {v : Db} {p : Tx BoothAnswer} (closing : Closing p)
      (booth : b ∈ s.booths.rows) (lock : .booth b.id ∈ x.locks) (cleared : Cleared s x v b.id)
      (clear : ∀ k ∈ s.boothBookings.rows, confirmedOf b.id k = true → k ∈ v.boothBookings.rows)
      (booths : ∀ t, (x.view t).booths = t.booths.modify (clash b) Booth.reopened) :
      Standing s verb x p

theorem Holds.recommit {k : BoothBooking} {b : Booth} (h : Holds s x k b)
    (htouches : Touches locks s t) (hfree : ∀ l ∈ x.locks, l ∉ locks) : Holds t x k b :=
  { h with
    booking := htouches.bookings k h.booking (hfree _ h.bookingLock)
    booth := htouches.booths b h.booth (hfree _ h.boothLock) }

theorem Cleared.recommit {v : Db} {boothId : Uuid} (h : Cleared s x v boothId)
    (htouches : Touches locks s t) (hfree : ∀ l ∈ x.locks, l ∉ locks) : Cleared t x v boothId :=
  { h with
    stored := fun k hk hof =>
      htouches.bookings k (h.stored k hk hof) (hfree _ (h.locked k hk hof)) }

/-- A commit of another session leaves an open one where it stands. -/
theorem Standing.recommit {p : Tx BoothAnswer} (h : Standing s verb x p)
    (htouches : Touches locks s t) (hfree : ∀ l ∈ x.locks, l ∉ locks) : Standing t verb x p := by
  cases h with
  | refusing => exact .refusing
  | drafting drafts calm => exact .drafting drafts calm
  | deleteStart staged => exact .deleteStart staged
  | deleted closing booking pending lock booths bookings =>
    exact .deleted closing (htouches.bookings _ booking (hfree _ lock)) pending lock booths bookings
  | confirmStart staged => exact .confirmStart staged
  | flipping holds booths bookings =>
    exact .flipping (holds.recommit htouches hfree) booths bookings
  | filling holds pending booths bookings =>
    exact .filling (holds.recommit htouches hfree) pending booths bookings
  | confirmed closing holds pending booths bookings =>
    exact .confirmed closing (holds.recommit htouches hfree) pending booths bookings
  | releaseStart verb_eq staged seen => exact .releaseStart verb_eq staged seen
  | reopening verb_eq seen cleared booths =>
    exact .reopening verb_eq seen (cleared.recommit htouches hfree) booths
  | released closing booth lock cleared clear booths =>
    refine .released closing (htouches.booths _ booth (hfree _ lock)) lock
      (cleared.recommit htouches hfree) (fun k hk hof => ?_) booths
    have hof' := hof
    simp only [confirmedOf, ofBooth, Bool.and_eq_true, beq_iff_eq] at hof'
    rcases htouches.confirmed k hk hof'.2 with hold | hlock
    · exact clear k hold hof
    · exact absurd (hof'.1 ▸ hlock) (hfree _ lock)

/-- The commit of a session that has come to its end. -/
theorem Standing.commit {a : BoothAnswer} (h : Standing s verb x (.done a)) (hs : Matched s) :
    Matched (x.view s) ∧ Touches x.locks s (x.view s) := by
  generalize hp : (Program.done a : Tx BoothAnswer) = p at h
  cases h with
  | refusing => cases hp
  | drafting drafts calm => exact ⟨(calm s).matched hs, (calm s).touches⟩
  | deleteStart staged => cases hp
  | deleted closing booking pending lock booths bookings =>
    exact removed_commit hs booking pending lock (booths s) (bookings s)
  | confirmStart staged => cases hp
  | flipping holds booths bookings => cases hp
  | filling holds pending booths bookings => cases hp
  | confirmed closing holds pending booths bookings =>
    exact confirmed_commit hs holds.booking holds.booth holds.own holds.available pending
      holds.bookingLock holds.boothLock (bookings s) (booths s)
  | releaseStart verb_eq staged seen => cases hp
  | reopening verb_eq seen cleared booths => cases hp
  | released closing booth lock cleared clear booths =>
    exact released_commit hs booth cleared.stored cleared.locked clear lock (cleared.bookings s)
      (booths s)

theorem pendingRow_pinned {bookingId : Uuid} {k : BoothBooking}
    (h : s.boothBookings.find (pendingRow bookingId) = some k) :
    ∀ y ∈ s.boothBookings.rows, pendingRow bookingId y = true ↔ y = k := by
  intro y hy
  constructor
  · intro hpending
    simp only [pendingRow, Bool.and_eq_true, beq_iff_eq] at hpending
    have hk := Table.find_spec h
    simp only [pendingRow, Bool.and_eq_true, beq_iff_eq] at hk
    exact Table.eq_of_clash hy (Table.find_mem h) (by simp [clash, hpending.1, hk.1])
  · rintro rfl
    exact Table.find_spec h

theorem booth_pinned {b : Booth} {p : Booth → Bool} (h : s.booths.find p = some b)
    (hid : ∀ y, p y = true → y.id = b.id) : ∀ y ∈ s.booths.rows, p y = true ↔ y = b := by
  intro y hy
  constructor
  · intro hp
    exact Table.eq_of_clash hy (Table.find_mem h) (by simp [clash, hid y hp])
  · rintro rfl
    exact Table.find_spec h

theorem Holds.stated {k : BoothBooking} {b : Booth} (h : Holds s x k b)
    (locks : Db → List Lock) (write : Db → Db → Db) (next : Db → Tx BoothAnswer) (v : Db) :
    Holds s (x.stated locks write next v) k b :=
  { h with
    bookingLock := List.mem_append_left _ h.bookingLock
    boothLock := List.mem_append_left _ h.boothLock }

section statement

variable {locks : Db → List Lock} {write : Db → Db → Db} {next : Db → Tx BoothAnswer}

theorem Standing.delete {bookingId : Uuid} {actor : Option Uuid} (staged : x.staged = [])
    (hp : .statement locks write next = (BoothVerb.deleteBooking bookingId actor).program) :
    Standing s verb (x.stated locks write next (x.view s)) (next (x.view s)) := by
  obtain ⟨rfl, rfl, rfl⟩ := Program.statement.inj hp
  have hview := Session.view_of_staged staged
  cases hfind : s.boothBookings.find (pendingRow bookingId) with
  | none =>
    simp only [hview, hfind]
    exact .refusing
  | some k =>
    have hk := Table.find_mem hfind
    have hspec := Table.find_spec hfind
    have hpending := hspec
    simp only [pendingRow, Bool.and_eq_true, beq_iff_eq] at hpending
    refine .deleted (k := k) ?_ hk hpending.2 ?_ ?_ ?_
    · simp only [hview, hfind]
      trivial
    · refine List.mem_append_right _ ?_
      simp only [hview]
      exact List.mem_flatMap.mpr ⟨k, List.mem_filter.mpr ⟨hk, hspec⟩, List.mem_cons_self⟩
    · intro t
      simp [hview]
    · intro t
      simp [hview, Table.matched_pinned hk (pendingRow_pinned hfind)]

theorem Standing.lock {bookingId : Uuid} {actor : Option Uuid} (staged : x.staged = [])
    (hp : .statement locks write next = (BoothVerb.confirmBooking bookingId actor).program) :
    Standing s verb (x.stated locks write next (x.view s)) (next (x.view s)) := by
  obtain ⟨rfl, rfl, hnext⟩ := Program.statement.inj hp
  have hview := Session.view_of_staged staged
  cases hpair : s.pair bookingId with
  | none =>
    have hrefuse : next (x.view s) = .refuse (.boothBookingNotFound bookingId) := by
      simp only [hnext, hview, hpair]
      rfl
    rw [hrefuse]
    exact .refusing
  | some p =>
    obtain ⟨k, b⟩ := p
    obtain ⟨hk, hb⟩ := pair_eq_some.mp hpair
    obtain ⟨hkmem, rfl⟩ := booking?_mem hk
    obtain ⟨hbmem, hown⟩ := booth?_mem hb
    cases hstate : b.state with
    | unavailable =>
      have hrefuse : next (x.view s) = .refuse (.boothAlreadyConfirmed k.eventBoothId) := by
        simp [hnext, hview, hpair, Program.bind, Program.require, Program.refuseWhen, hstate]
      rw [hrefuse]
      exact .refusing
    | available =>
      have hflip : next (x.view s) = (confirmFlip k.id k.eventBoothId actor >>= confirmedAnswer) := by
        simp [hnext, hview, hpair, Program.bind, Program.require, Program.refuseWhen, hstate]
      rw [hflip]
      refine .flipping ⟨hkmem, hbmem, hown, hstate, ?_, ?_⟩ (by simp [hview]) (by simp [hview])
      · exact List.mem_append_right _ (by simp [hview, hpair])
      · exact List.mem_append_right _ (by simp [hview, hpair])

theorem Standing.flip {k : BoothBooking} {b : Booth} {actor : Option Uuid} (holds : Holds s x k b)
    (booths : ∀ t, (x.view t).booths = t.booths)
    (bookings : ∀ t, (x.view t).boothBookings = t.boothBookings)
    (hp : .statement locks write next =
      (confirmFlip k.id k.eventBoothId actor >>= confirmedAnswer)) :
    Standing s verb (x.stated locks write next (x.view s)) (next (x.view s)) := by
  obtain ⟨rfl, rfl, hnext⟩ := Program.statement.inj hp
  cases hflip : (x.view s).flip k.id k.eventBoothId with
  | error e =>
    have hrefuse : next (x.view s) = .refuse e := by
      simp only [hnext, hflip]
      rfl
    rw [hrefuse]
    exact .refusing
  | ok booking =>
    have hfill : next (x.view s) = (confirmFill booking actor >>= confirmedAnswer) := by
      simp only [hnext, hflip]
      rfl
    cases hfind : s.boothBookings.find (pendingRow k.id) with
    | none =>
      simp [Db.flip, bookings, hfind] at hflip
    | some k' =>
      have hspec := Table.find_spec hfind
      simp only [pendingRow, Bool.and_eq_true, beq_iff_eq] at hspec
      obtain rfl : k' = k :=
        Table.eq_of_clash (Table.find_mem hfind) holds.booking (by simp [clash, hspec.1])
      obtain rfl : BoothBooking.flipped k' = booking := by
        simp only [Db.flip, bookings, hfind] at hflip
        split at hflip
        · cases hflip
        · exact Except.ok.inj hflip
      rw [hfill]
      refine .filling (holds.stated _ _ _ _) hspec.2 (fun t => ?_) (fun t => ?_)
      · simp [booths]
      · simp [bookings, Table.matched_pinned holds.booking (pendingRow_pinned hfind)]

theorem Standing.fill {k : BoothBooking} {b : Booth} {actor : Option Uuid} (holds : Holds s x k b)
    (pending : k.status = .pending) (booths : ∀ t, (x.view t).booths = t.booths)
    (bookings : ∀ t, (x.view t).boothBookings =
      t.boothBookings.modify (clash k) BoothBooking.flipped)
    (hp : .statement locks write next =
      (confirmFill (BoothBooking.flipped k) actor >>= confirmedAnswer)) :
    Standing s verb (x.stated locks write next (x.view s)) (next (x.view s)) := by
  obtain ⟨rfl, rfl, rfl⟩ := Program.statement.inj hp
  have hfind : s.booths.find (·.id == k.eventBoothId) = some b :=
    holds.own ▸ booth?_of_mem holds.booth
  have hbooth : (x.view s).booth? (BoothBooking.flipped k).eventBoothId = some b := by
    rw [Db.booth?, booths]
    exact hfind
  refine .confirmed ?_ (holds.stated _ _ _ _) pending (fun t => ?_) (fun t => ?_)
  · simp only [hbooth]
    exact ⟨fun _ _ => ⟨rfl, rfl⟩, fun _ => trivial⟩
  · have hpinned := booth_pinned hfind fun y hy => by simpa [holds.own] using hy
    simp only [Session.view_stated, booths]
    rw [← Table.matched_pinned holds.booth hpinned]
    rfl
  · simp [bookings]

theorem Standing.clear {boothId : Uuid} {actor : Option Uuid}
    (verb_eq : verb = .releaseBooth boothId actor) (staged : x.staged = []) (seen : x.seen = [])
    (hp : .statement locks write next = (BoothVerb.releaseBooth boothId actor).program) :
    Standing s verb (x.stated locks write next (x.view s)) (next (x.view s)) := by
  obtain ⟨rfl, rfl, rfl⟩ := Program.statement.inj hp
  have hview := Session.view_of_staged staged
  refine .reopening (v := s) verb_eq (by simp [Session.stated, seen]) ⟨?_, ?_, ?_⟩ ?_
  · exact fun k hk _ => hk
  · intro k hk hof
    refine List.mem_append_right _ ?_
    simp only [hview]
    exact List.mem_flatMap.mpr ⟨k, List.mem_filter.mpr ⟨hk, hof⟩, List.mem_cons_self⟩
  · intro t
    simp [hview]
  · intro t
    simp [hview]

theorem Standing.reopen {boothId : Uuid} {actor : Option Uuid} {v : Db}
    (cleared : Cleared s x v boothId) (booths : ∀ t, (x.view t).booths = t.booths)
    (hclear : ((x.view s).booths.find (unavailableRow boothId)).isSome = true →
      (x.view s).boothBookings.rows.any (confirmedOf boothId) = false)
    (hp : .statement locks write next = (releaseReopen boothId actor >>= releasedAnswer)) :
    Standing s verb (x.stated locks write next (x.view s)) (next (x.view s)) := by
  obtain ⟨rfl, rfl, rfl⟩ := Program.statement.inj hp
  rw [booths] at hclear
  cases hfind : s.booths.find (unavailableRow boothId) with
  | none =>
    simp only [booths, hfind]
    exact .refusing
  | some b =>
    have hb := Table.find_mem hfind
    have hspec := Table.find_spec hfind
    simp only [unavailableRow, Bool.and_eq_true, beq_iff_eq] at hspec
    obtain ⟨rfl, hstate⟩ := hspec
    have hnone := hclear (by rw [hfind]; rfl)
    refine .released (b := b) (v := v) ?_ hb ?_ ⟨cleared.stored, ?_, ?_⟩ ?_ ?_
    · simp only [booths, hfind]
      exact ⟨fun _ _ => ⟨rfl, rfl⟩, fun _ => trivial⟩
    · refine List.mem_append_right _ ?_
      simp [booths, hfind]
    · exact fun k hk hof => List.mem_append_left _ (cleared.locked k hk hof)
    · intro t
      simp [cleared.bookings]
    · intro k hk hof
      by_contra hnew
      have hleft : k ∈ (x.view s).boothBookings.rows := by
        rw [cleared.bookings, Table.rows_remove]
        refine List.mem_filter.mpr ⟨hk, ?_⟩
        cases hmatch : v.boothBookings.matched (ofBooth b.id) k with
        | false => rfl
        | true => exact absurd ((cleared.stored.matched_iff hk).mp hmatch).1 hnew
      exact absurd hof (List.any_eq_false.mp hnone k hleft)
    · intro t
      have hpinned := booth_pinned hfind fun y hy => by
        simp only [unavailableRow, Bool.and_eq_true, beq_iff_eq] at hy
        exact hy.1
      simp [booths, Table.matched_pinned hb hpinned]

/-- A statement that writes neither booths nor bookings keeps what was written before it. -/
theorem Cleared.stated {v : Db} {boothId : Uuid} (h : Cleared s x v boothId) {u : Db}
    (hwrite : ∀ t, (write u t).boothBookings = t.boothBookings) :
    Cleared s (x.stated locks write next u) v boothId where
  stored := h.stored
  locked k hk hof := List.mem_append_left _ (h.locked k hk hof)
  bookings t := by rw [Session.view_stated, hwrite, h.bookings]

/-- A granted statement takes the session to its next standing. -/
theorem Standing.statement (h : Standing s verb x (.statement locks write next))
    (hclear : ∀ boothId actor, verb = .releaseBooth boothId actor → x.seen.length = 1 →
      locks (x.view s) = [.booth boothId] →
      ((x.view s).booths.find (unavailableRow boothId)).isSome = true →
      (x.view s).boothBookings.rows.any (confirmedOf boothId) = false) :
    Standing s verb (x.stated locks write next (x.view s)) (next (x.view s)) := by
  generalize hp : (Program.statement locks write next : Tx BoothAnswer) = p at h
  cases h with
  | refusing => cases hp
  | drafting drafts calm =>
    subst hp
    refine .drafting (drafts.2 _) fun t => ?_
    rw [Session.view_stated]
    exact (calm t).trans (drafts.1 _ _)
  | deleteStart staged => exact .delete staged hp
  | deleted closing booking pending lock booths bookings =>
    subst hp
    refine .deleted (closing.2 _) booking pending (List.mem_append_left _ lock) (fun t => ?_)
      fun t => ?_
    · rw [Session.view_stated, (closing.1 _ _).2, booths]
    · rw [Session.view_stated, (closing.1 _ _).1, bookings]
  | confirmStart staged => exact .lock staged hp
  | flipping holds booths bookings => exact .flip holds booths bookings hp
  | filling holds pending booths bookings => exact .fill holds pending booths bookings hp
  | confirmed closing holds pending booths bookings =>
    subst hp
    refine .confirmed (closing.2 _) (holds.stated _ _ _ _) pending (fun t => ?_) fun t => ?_
    · rw [Session.view_stated, (closing.1 _ _).2, booths]
    · rw [Session.view_stated, (closing.1 _ _).1, bookings]
  | releaseStart verb_eq staged seen => exact .clear verb_eq staged seen hp
  | reopening verb_eq seen cleared booths =>
    refine .reopen cleared booths (fun hfound => ?_) hp
    obtain ⟨rfl, rfl, rfl⟩ := Program.statement.inj hp
    exact hclear _ _ verb_eq seen (if_pos hfound) hfound
  | released closing booth lock cleared clear booths =>
    subst hp
    refine .released (closing.2 _) booth (List.mem_append_left _ lock)
      (cleared.stated fun t => (closing.1 _ _).1) clear fun t => ?_
    rw [Session.view_stated, (closing.1 _ _).2, booths]

end statement

/-- A record left for after the commit changes nothing else. -/
theorem Standing.noteAfter {n : AuditRow} {next : Tx BoothAnswer}
    (h : Standing s verb x (.noteAfter n next)) :
    Standing s verb { x with phase := .running next, after := x.after ++ [n] } next := by
  generalize hp : (Program.noteAfter n next : Tx BoothAnswer) = p at h
  cases h with
  | refusing | deleteStart | confirmStart | flipping | filling | releaseStart | reopening => cases hp
  | drafting drafts calm =>
    subst hp
    exact .drafting drafts calm
  | deleted closing booking pending lock booths bookings =>
    subst hp
    exact .deleted closing booking pending lock booths bookings
  | confirmed closing holds pending booths bookings =>
    subst hp
    exact .confirmed closing { holds with } pending booths bookings
  | released closing booth lock cleared clear booths =>
    subst hp
    exact .released closing booth lock { cleared with } clear booths

/-- None of the verbs records anything before its end. -/
theorem Standing.not_note {n : AuditRow} {next : Tx BoothAnswer} :
    ¬ Standing s verb x (.note n next) := by
  intro h
  generalize hp : (Program.note n next : Tx BoothAnswer) = p at h
  cases h with
  | refusing | deleteStart | confirmStart | flipping | filling | releaseStart | reopening => cases hp
  | drafting drafts calm =>
    subst hp
    exact drafts
  | deleted closing | confirmed closing | released closing =>
    subst hp
    exact closing

theorem standing_start (verb : BoothVerb) :
    Standing s verb ⟨.running verb.program, [], [], [], []⟩ verb.program := by
  cases verb with
  | createBooking bookingId eventBoothId line partner name email phone actor =>
    exact .drafting (drafts_bind (drafts_createBooking ..) fun _ => trivial) fun t => .refl t
  | confirmBooking bookingId actor => exact .confirmStart rfl
  | deleteBooking bookingId actor => exact .deleteStart rfl
  | releaseBooth eventBoothId actor => exact .releaseStart rfl rfl rfl

end sessions

section run

variable {ι : Type} [Fintype ι] [DecidableEq ι] {verbs : ι → BoothVerb} {s : Db}
  {w w' : BoothWorld ι} {i : ι}

structure BoothInvariant (verbs : ι → BoothVerb) (w : BoothWorld ι) : Prop where
  exclusive : World.Exclusive w
  matched : Matched w.committed
  standing : ∀ i p, (w.sessions i).phase = .running p →
    Standing w.committed (verbs i) (w.sessions i) p

omit [Fintype ι] [DecidableEq ι] in
theorem boothInvariant_start (h : Matched s) :
    BoothInvariant verbs (start s fun i => (verbs i).program) where
  exclusive := World.exclusive_start _ _
  matched := h
  standing i p hp := by
    obtain rfl := Phase.running.inj hp
    exact standing_start (verbs i)

omit [Fintype ι] in
/-- A step that leaves the database alone and takes session `i` to a good standing. -/
theorem BoothInvariant.move {x : BoothSession} (h : BoothInvariant verbs w)
    (hexclusive : World.Exclusive (w.set i x))
    (hx : ∀ p, x.phase = .running p → Standing w.committed (verbs i) x p) :
    BoothInvariant verbs (w.set i x) where
  exclusive := hexclusive
  matched := h.matched
  standing j p hp := by
    by_cases hj : j = i
    · subst hj
      simp only [World.set_sessions, Function.update_self] at hp ⊢
      exact hx p hp
    · simp only [World.set_sessions, Function.update_of_ne hj] at hp ⊢
      exact h.standing j p hp

omit [Fintype ι] in
/-- A commit under the locks of session `i`. -/
theorem BoothInvariant.commit {a : BoothAnswer} (h : BoothInvariant verbs w)
    (phase : (w.sessions i).phase = .running (.done a))
    (hw : w'.sessions = (w.set i ((w.sessions i).ended (.committed a))).sessions)
    (hexclusive : World.Exclusive w') {rows : List AuditRow}
    (hcommitted : w'.committed = ((w.sessions i).view w.committed).audited rows) :
    BoothInvariant verbs w' := by
  obtain ⟨hmatched, htouches⟩ := (h.standing i _ phase).commit h.matched
  have hcalm : Calm ((w.sessions i).view w.committed) w'.committed := by
    rw [hcommitted]
    exact .of_eq rfl rfl
  refine ⟨hexclusive, hcalm.matched hmatched, fun j p hp => ?_⟩
  by_cases hj : j = i
  · subst hj
    rw [hw, World.set_sessions, Function.update_self] at hp
    cases hp
  · rw [hw, World.set_sessions, Function.update_of_ne hj] at hp ⊢
    exact (h.standing j p hp).recommit (htouches.calm hcalm) (h.exclusive j i hj)

/-- Every step that reopens no booth under a confirmed booking keeps the invariant. -/
theorem boothInvariant_step (h : BoothInvariant verbs w) (hclear : ReopensClear verbs w i)
    (hstep : World.Step Db.absorb w i w') : BoothInvariant verbs w' := by
  have hexclusive := World.exclusive_step h.exclusive hstep
  cases hstep with
  | stays => exact h
  | commit phase => exact h.commit phase rfl hexclusive (foldl_absorb ..)
  | rollback phase => exact h.move hexclusive fun p hp => by cases hp
  | note phase => exact absurd (h.standing i _ phase) Standing.not_note
  | noteAfter phase =>
    refine h.move hexclusive fun p hp => ?_
    obtain rfl := Phase.running.inj hp
    exact (h.standing i _ phase).noteAfter
  | @statement locks write next phase granted =>
    refine h.move hexclusive fun p hp => ?_
    obtain rfl := Phase.running.inj hp
    refine (h.standing i _ phase).statement fun boothId actor hverb hseen hlocks hfound => ?_
    refine hclear boothId ?_
    have hfree : w.blocked i [.booth boothId] = false := by
      refine decide_eq_false ?_
      rintro ⟨j, hj, l, hl, hheld⟩
      exact granted j hj l (hlocks ▸ hl) hheld
    simp only [reopens, hverb, hseen, hfound, hfree, and_self, if_true, Option.mem_def]

theorem boothInvariant_book (hs : Matched s) {schedule : List ι}
    (hrun : Along (World.step Db.absorb) (ReopensClear verbs)
      (start s fun i => (verbs i).program) schedule) :
    BoothInvariant verbs (book verbs s schedule) :=
  (hrun.throughout (boothInvariant_start hs) fun w i h hclear =>
    boothInvariant_step h hclear (World.step_cases Db.absorb w i)).last

omit [Fintype ι] in
/-- A session that does not commit changes nothing. -/
theorem committed_of_step (h : BoothInvariant verbs w) (hstep : World.Step Db.absorb w i w') :
    (∃ a, (w'.sessions i).phase = .committed a) ∨ w'.committed = w.committed := by
  cases hstep with
  | stays | rollback phase | statement phase granted | noteAfter phase => exact .inr rfl
  | @commit a phase => exact .inl ⟨a, by simp [Session.ended]⟩
  | note phase => exact absurd (h.standing i _ phase) Standing.not_note

/-- When no release reopens a booth under a confirmed booking: after every schedule each booth
has at most one confirmed booking and is unavailable just when it has one, and no step of a
session that is refused changes the database. -/
theorem booths_match (hs : Matched s) {schedule : List ι}
    (hrun : Along (World.step Db.absorb) (ReopensClear verbs)
      (start s fun i => (verbs i).program) schedule) :
    Matched (book verbs s schedule).committed ∧
    ∀ before i after, schedule = before ++ i :: after → ∀ e,
      ((book verbs s schedule).sessions i).phase = .rolledBack e →
      (book verbs s (before ++ [i])).committed = (book verbs s before).committed := by
  refine ⟨(boothInvariant_book hs hrun).matched, ?_⟩
  rintro before i after rfl e hrefused
  have hbefore := boothInvariant_book hs (along_append.mp hrun).1
  have hstep := World.step_cases Db.absorb (book verbs s before) i
  have hnext : book verbs s (before ++ [i]) = (book verbs s before).step Db.absorb i := by
    simp [book]
  have hlast : book verbs s (before ++ i :: after) =
      after.foldl (World.step Db.absorb) ((book verbs s before).step Db.absorb i) := by
    simp [book]
  rw [hnext]
  rcases committed_of_step hbefore hstep with ⟨a, ha⟩ | hsame
  · rw [hlast, World.committed_run after ha] at hrefused
    cases hrefused
  · exact hsame

end run

section sample

instance (s : Db) : Decidable (Matched s) := inferInstanceAs (Decidable (∀ b ∈ s.booths.rows, _))

instance {ι : Type} [Fintype ι] [DecidableEq ι] (verbs : ι → BoothVerb) (w : BoothWorld ι) (i : ι) :
    Decidable (ReopensClear verbs w i) :=
  inferInstanceAs (Decidable (∀ boothId ∈ reopens verbs w i, _))

/-- A release of booth 1, and a booking of it that another officer confirms. -/
def releaseAndBook : Fin 3 → BoothVerb
  | 0 => .releaseBooth 1 none
  | 1 => .createBooking 10 1 none none none none none none
  | 2 => .confirmBooking 10 none

def bookThenRelease : List (Fin 3) :=
  List.replicate 4 1 ++ List.replicate 5 2 ++ List.replicate 4 0

/-- The release deletes, the booking is made and confirmed, the release reopens. -/
def bookWithinRelease : List (Fin 3) :=
  [0] ++ List.replicate 4 1 ++ List.replicate 5 2 ++ List.replicate 3 0

theorem booths_match_inTurn :
    Matched (book releaseAndBook freeBooth bookThenRelease).committed := by
  have hrun : Along (World.step Db.absorb) (ReopensClear releaseAndBook)
      (start freeBooth fun i => (releaseAndBook i).program) bookThenRelease := by decide
  exact (booths_match (by decide) hrun).1

/-- All three have committed, the booking is confirmed and its booth is available. -/
theorem bookWithinRelease_reopens :
    (∀ i, ∃ a, ((book releaseAndBook freeBooth bookWithinRelease).sessions i).phase =
      .committed a) ∧
    ¬ Matched (book releaseAndBook freeBooth bookWithinRelease).committed := by
  decide

end sample

end BackboneEvents.BoothInterleavings
