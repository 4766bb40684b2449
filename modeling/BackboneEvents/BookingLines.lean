import BackboneEvents.BoothInterleavings
import BackboneEvents.LockOrders

/-!
# One event for each order line

The guard of a create reads the bookings of its line and the insert follows in a later
statement, with nothing between two creates of one line on booths of two events. While no such
create reads its guard between another's guard and its commit, the bookings of a line are all
of one event, whatever confirms, releases and deletes run beside them.
-/
namespace BackboneEvents.BookingLines
open ConstrainedTables TransactionPrograms TransactionInterleavings GuardedRuns LockOrders
open BoothInterleavings

inductive LineVerb where
  | booth (verb : BoothVerb)
  | deleteBooth (boothId : Uuid) (actor : Option Uuid)

def LineVerb.program : LineVerb → Tx Unit
  | .booth verb => verb.program.bind fun _ => .done ()
  | .deleteBooth boothId actor => BackboneEvents.deleteBooth boothId actor

abbrev LineSession := Session Db Lock AuditRow EventError Unit

abbrev LineWorld (ι : Type) := TransactionInterleavings.World ι Db Lock AuditRow EventError Unit

def opening {ι : Type} (verbs : ι → LineVerb) (s : Db) : LineWorld ι :=
  start s fun i => (verbs i).program

/-- The booth, as far as it is stored, is of the event. -/
def BoothOf (s : Db) (boothId eventId : Uuid) : Prop :=
  ∀ b ∈ s.booths.rows, b.id = boothId → b.eventId = eventId

/-- The bookings of the line are for booths of the event. -/
def LineOf (s : Db) (line eventId : Uuid) : Prop :=
  ∀ k ∈ s.boothBookings.rows, k.saleOrderLineId = some line → BoothOf s k.eventBoothId eventId

/-- The bookings of each line are for booths of one event. -/
def LinesOneEvent (s : Db) : Prop :=
  ∀ k ∈ s.boothBookings.rows, ∀ line ∈ k.saleOrderLineId,
    ∀ b ∈ s.booths.rows, b.id = k.eventBoothId → LineOf s line b.eventId

/-- The line of a create and the event of the booth it has read. -/
def intent (verb : LineVerb) (x : LineSession) : Option (Uuid × Uuid) :=
  match verb with
  | .booth (.createBooking _ boothId (some line) _ _ _ _ _) =>
    x.seen.head?.bind fun v => (v.booth? boothId).map fun b => (line, b.eventId)
  | .booth _ => none
  | .deleteBooth _ _ => none

/-- The session is neither over nor refused. -/
def underway (x : LineSession) : Bool :=
  match x.phase with
  | .running (.refuse _) => false
  | .running _ => true
  | .committed _ => false
  | .rolledBack _ => false

/-- The create has passed its guard for a booking of the line at the event. -/
def Past (verb : LineVerb) (x : LineSession) (line eventId : Uuid) : Prop :=
  underway x = true ∧ 2 ≤ x.seen.length ∧ intent verb x = some (line, eventId)

/-- No create reads its guard while another of its line has passed it for another event. -/
def GuardsAlone {ι : Type} (verbs : ι → LineVerb) (w : LineWorld ι) (i : ι) : Prop :=
  underway (w.sessions i) = true → (w.sessions i).seen.length = 1 →
    ∀ p ∈ intent (verbs i) (w.sessions i), ∀ j, j ≠ i →
      ∀ q ∈ intent (verbs j) (w.sessions j), underway (w.sessions j) = true →
        2 ≤ (w.sessions j).seen.length → q.1 = p.1 → q.2 = p.2

section writes

variable {s t u : Db} {α β : Type}

/-- No booking gets on a line, and no booth to an event, that was not there before. -/
structure Sober (s t : Db) : Prop where
  booths : ∀ b ∈ t.booths.rows, ∃ b' ∈ s.booths.rows, b'.id = b.id ∧ b'.eventId = b.eventId
  bookings : ∀ k ∈ t.boothBookings.rows, k.saleOrderLineId.isSome = true →
    ∃ k' ∈ s.boothBookings.rows, k'.saleOrderLineId = k.saleOrderLineId ∧
      k'.eventBoothId = k.eventBoothId

theorem Sober.refl (s : Db) : Sober s s where
  booths b hb := ⟨b, hb, rfl, rfl⟩
  bookings k hk _ := ⟨k, hk, rfl, rfl⟩

theorem Sober.of_eq (hbooths : t.booths = s.booths) (hbookings : t.boothBookings = s.boothBookings) :
    Sober s t where
  booths b hb := ⟨b, hbooths ▸ hb, rfl, rfl⟩
  bookings k hk _ := ⟨k, hbookings ▸ hk, rfl, rfl⟩

theorem Sober.trans (h : Sober s t) (h' : Sober t u) : Sober s u where
  booths b hb := by
    obtain ⟨b', hb', hid', hevent'⟩ := h'.booths b hb
    obtain ⟨b'', hb'', hid'', hevent''⟩ := h.booths b' hb'
    exact ⟨b'', hb'', hid''.trans hid', hevent''.trans hevent'⟩
  bookings k hk hline := by
    obtain ⟨k', hk', hline', hbooth'⟩ := h'.bookings k hk hline
    obtain ⟨k'', hk'', hline'', hbooth''⟩ := h.bookings k' hk' (hline' ▸ hline)
    exact ⟨k'', hk'', hline''.trans hline', hbooth''.trans hbooth'⟩

theorem Sober.boothOf {boothId eventId : Uuid} (h : Sober s t) (hs : BoothOf s boothId eventId) :
    BoothOf t boothId eventId := by
  intro b hb hid
  obtain ⟨b', hb', hid', hevent⟩ := h.booths b hb
  rw [← hevent]
  exact hs b' hb' (hid'.trans hid)

theorem Sober.lineOf {line eventId : Uuid} (h : Sober s t) (hs : LineOf s line eventId) :
    LineOf t line eventId := by
  intro k hk hline
  obtain ⟨k', hk', hline', hbooth⟩ := h.bookings k hk (by rw [hline]; rfl)
  rw [← hbooth]
  exact h.boothOf (hs k' hk' (hline'.trans hline))

theorem Sober.linesOneEvent (h : Sober s t) (hs : LinesOneEvent s) : LinesOneEvent t := by
  intro k hk line hline b hb hid
  have hline' : k.saleOrderLineId = some line := hline
  obtain ⟨k', hk', hsame, hbooth⟩ := h.bookings k hk (by rw [hline']; rfl)
  obtain ⟨b', hb', hid', hevent⟩ := h.booths b hb
  rw [← hevent]
  exact h.lineOf (hs k' hk' line (hsame.trans hline') b' hb' (by rw [hid', hid, hbooth]))

/-- Every write of the program is sober, whatever it read. -/
def Quiet (p : Tx α) : Prop := Writes (fun f => ∀ t, Sober t (f t)) p

theorem sober_modify_bookings {p : BoothBooking → Bool} :
    Sober s { s with boothBookings := s.boothBookings.modify p BoothBooking.flipped } where
  booths b hb := ⟨b, hb, rfl, rfl⟩
  bookings k hk _ := by
    obtain ⟨k', hk', rfl⟩ := Table.mem_modify.mp hk
    refine ⟨k', hk', ?_, ?_⟩
    · split <;> rfl
    · split <;> rfl

theorem sober_remove_bookings {p : BoothBooking → Bool} :
    Sober s { s with boothBookings := s.boothBookings.remove p } where
  booths b hb := ⟨b, hb, rfl, rfl⟩
  bookings k hk _ := ⟨k, List.mem_of_mem_filter hk, rfl, rfl⟩

theorem sober_remove_booths {p : Booth → Bool} :
    Sober s { s with booths := s.booths.remove p } where
  booths b hb := ⟨b, List.mem_of_mem_filter hb, rfl, rfl⟩
  bookings k hk _ := ⟨k, hk, rfl, rfl⟩

theorem sober_modify_booths {p : Booth → Bool} {f : Update Booth}
    (h : ∀ b, (f b).id = b.id ∧ (f b).eventId = b.eventId) :
    Sober s { s with booths := s.booths.modify p f } where
  booths b hb := by
    obtain ⟨b', hb', rfl⟩ := Table.mem_modify.mp hb
    refine ⟨b', hb', ?_, ?_⟩
    · split
      · exact (h b').1.symm
      · rfl
    · split
      · exact (h b').2.symm
      · rfl
  bookings k hk _ := ⟨k, hk, rfl, rfl⟩

theorem sober_push {row : BoothBooking} (h : row.saleOrderLineId = none) :
    Sober s { s with boothBookings := s.boothBookings.push row } where
  booths b hb := ⟨b, hb, rfl, rfl⟩
  bookings k hk hline := by
    rcases Table.mem_of_mem_push hk with hk | rfl
    · exact ⟨k, hk, rfl, rfl⟩
    · rw [h] at hline
      cases hline

theorem quiet_recordAudit (row : AuditRow) : Quiet (recordAudit row) :=
  writes_update fun _ _ => .of_eq rfl rfl

theorem quiet_confirmBooking (bookingId : Uuid) (actor : Option Uuid) :
    Quiet (confirmBooking bookingId actor) := by
  refine writes_bind (writes_selectForUpdate .refl) fun locked => ?_
  refine writes_bind (writes_require locked _) fun p => ?_
  refine writes_bind (writes_refuseWhen _ _) fun _ => ?_
  refine writes_bind (writes_update fun _ _ => sober_modify_bookings) fun flipped => ?_
  cases flipped with
  | error e => trivial
  | ok booking =>
    refine writes_bind (writes_update fun _ _ => sober_modify_booths fun _ => ⟨rfl, rfl⟩)
      fun filled => ?_
    refine writes_bind (writes_require filled _) fun booth => ?_
    exact writes_bind (quiet_recordAudit _) fun _ => trivial

theorem quiet_releaseBooth (boothId : Uuid) (actor : Option Uuid) :
    Quiet (releaseBooth boothId actor) := by
  refine writes_bind (writes_update fun _ _ => sober_remove_bookings) fun _ => ?_
  refine writes_bind (writes_update fun _ _ => sober_modify_booths fun _ => ⟨rfl, rfl⟩) fun found => ?_
  refine writes_bind (writes_require found _) fun booth => ?_
  exact writes_bind (quiet_recordAudit _) fun _ => trivial

theorem quiet_deleteBooking (bookingId : Uuid) (actor : Option Uuid) :
    Quiet (deleteBooking bookingId actor) := by
  refine writes_bind (writes_update fun _ _ => sober_remove_bookings) fun deleted => ?_
  exact writes_bind (writes_refuseWhen _ _) fun _ => trivial

theorem quiet_removeBooth (boothId : Uuid) : Quiet (removeBooth boothId) := by
  refine ⟨fun v t => ?_, fun v => ?_⟩
  · dsimp only
    split
    · exact .refl t
    · exact sober_remove_booths
  · dsimp only
    split <;> trivial

theorem quiet_deleteBooth (boothId : Uuid) (actor : Option Uuid) :
    Quiet (deleteBooth boothId actor) := by
  refine writes_bind (writes_selectForUpdate .refl) fun linked => ?_
  refine writes_bind (writes_require linked _) fun p => ?_
  refine writes_bind (writes_refuseWhen _ _) fun _ => ?_
  refine writes_bind (writes_refuseWhen _ _) fun _ => ?_
  exact writes_bind (quiet_removeBooth boothId) fun _ => trivial

/-- A booking without a line meets no guard and belongs to no order. -/
theorem quiet_createBooking (bookingId boothId : Uuid) (partner : Option Uuid)
    (name email phone : Option String) (actor : Option Uuid) :
    Quiet (createBooking bookingId boothId none partner name email phone actor) := by
  refine writes_bind (writes_select .refl) fun found => ?_
  refine writes_bind (writes_require found _) fun booth => ?_
  refine writes_bind trivial fun _ => ?_
  refine writes_bind (writes_update fun _ _ => sober_push rfl) fun fits => ?_
  exact writes_bind (writes_refuseWhen _ _) fun _ => trivial

end writes

section sessions

variable {s t : Db} {verb : LineVerb} {x : LineSession} {p : Tx Unit} {line eventId : Uuid}

/-- What the insert of a create hands over to. -/
def finish (_ : BoothBooking) : Tx Unit := .done ()

/-- The create has read that its booth is of the event. -/
structure Intends (s : Db) (verb : LineVerb) (x : LineSession) (row : BoothBooking)
    (line eventId : Uuid) : Prop where
  intent : intent verb x = some (line, eventId)
  line : row.saleOrderLineId = some line
  booth : BoothOf s row.eventBoothId eventId

/-- Where an open session stands over the committed database `s`. -/
inductive Standing (s : Db) (verb : LineVerb) (x : LineSession) : Tx Unit → Prop
  | refusing {e : EventError} : Standing s verb x (.refuse e)
  | quiet {p : Tx Unit} (aimless : ∀ y, intent verb y = none) (quiet : Quiet p)
      (sober : ∀ t, Sober t (x.view t)) : Standing s verb x p
  | reading {bookingId boothId line : Uuid} {partner : Option Uuid}
      {name email phone : Option String} {actor : Option Uuid}
      (verb_eq : verb = .booth (.createBooking bookingId boothId (some line) partner name email
        phone actor))
      (view : ∀ t, x.view t = t) (seen : x.seen = []) :
      Standing s verb x ((createBooking bookingId boothId (some line) partner name email phone
        actor).bind finish)
  | guarding {row : BoothBooking} {line eventId : Uuid} {actor : Option Uuid}
      (view : ∀ t, x.view t = t) (intends : Intends s verb x row line eventId) :
      Standing s verb x ((lineGuard eventId (some line)).bind fun _ =>
        (insertBooking row actor).bind finish)
  | inserting {row : BoothBooking} {line eventId : Uuid} {actor : Option Uuid}
      (view : ∀ t, x.view t = t) (intends : Intends s verb x row line eventId)
      (long : 2 ≤ x.seen.length) (lines : LineOf s line eventId) :
      Standing s verb x ((insertBooking row actor).bind finish)
  | noting {row : BoothBooking} {line eventId : Uuid} {n : AuditRow}
      (intends : Intends s verb x row line eventId) (long : 2 ≤ x.seen.length)
      (lines : LineOf s line eventId)
      (view : ∀ t, x.view t = { t with boothBookings := t.boothBookings.push row }) :
      Standing s verb x (.noteAfter n (.done ()))
  | ending {row : BoothBooking} {line eventId : Uuid}
      (intends : Intends s verb x row line eventId) (long : 2 ≤ x.seen.length)
      (lines : LineOf s line eventId)
      (view : ∀ t, x.view t = { t with boothBookings := t.boothBookings.push row }) :
      Standing s verb x (.done ())

theorem intent_stated {locks : Db → List Lock} {write : Db → Db → Db} {next : Db → Tx Unit} {v : Db}
    (h : x.seen ≠ []) : intent verb (x.stated locks write next v) = intent verb x := by
  have hhead : (x.stated locks write next v).seen.head? = x.seen.head? := by
    simp [Session.stated, List.head?_append_of_ne_nil _ h]
  unfold intent
  rw [hhead]

theorem underway_of {locks : Db → List Lock} {write : Db → Db → Db} {next : Db → Tx Unit}
    (h : x.phase = .running (.statement locks write next)) : underway x = true := by
  simp only [underway, h]

theorem Intends.stated {row : BoothBooking} {locks : Db → List Lock} {write : Db → Db → Db}
    {next : Db → Tx Unit} {v : Db} (h : Intends s verb x row line eventId) (hseen : x.seen ≠ []) :
    Intends s verb (x.stated locks write next v) row line eventId :=
  { h with intent := (intent_stated hseen).trans h.intent }

theorem Intends.seen {row : BoothBooking} (h : Intends s verb x row line eventId) :
    x.seen ≠ [] := by
  intro hseen
  have hintent := h.intent
  unfold BookingLines.intent at hintent
  rw [hseen] at hintent
  split at hintent <;> cases hintent

theorem Intends.recommit {row : BoothBooking} (h : Intends s verb x row line eventId)
    (hbooths : ∀ b e, BoothOf s b e → BoothOf t b e) : Intends t verb x row line eventId :=
  { h with booth := hbooths _ _ h.booth }

/-- A commit of another session leaves an open one where it stands, when it adds nothing of
another event to the line that one is past its guard for. -/
theorem Standing.recommit (h : Standing s verb x p) (hphase : x.phase = .running p)
    (hbooths : ∀ b e, BoothOf s b e → BoothOf t b e)
    (hlines : ∀ line e, Past verb x line e → LineOf s line e → LineOf t line e) :
    Standing t verb x p := by
  cases h with
  | refusing => exact .refusing
  | quiet aimless quiet sober => exact .quiet aimless quiet sober
  | reading verb_eq view seen => exact .reading verb_eq view seen
  | guarding view intends => exact .guarding view (intends.recommit hbooths)
  | inserting view intends long lines =>
    have hpast : Past verb x _ _ := ⟨underway_of hphase, long, intends.intent⟩
    exact .inserting view (intends.recommit hbooths) long (hlines _ _ hpast lines)
  | noting intends long lines view =>
    have hpast : Past verb x _ _ := ⟨by simp only [underway, hphase], long, intends.intent⟩
    exact .noting (intends.recommit hbooths) long (hlines _ _ hpast lines) view
  | ending intends long lines view =>
    have hpast : Past verb x _ _ := ⟨by simp only [underway, hphase], long, intends.intent⟩
    exact .ending (intends.recommit hbooths) long (hlines _ _ hpast lines) view

section statement

variable {locks : Db → List Lock} {write : Db → Db → Db} {next : Db → Tx Unit}

/-- The first statement of a create reads the event of its booth. -/
theorem Standing.read {bookingId boothId : Uuid} {partner : Option Uuid}
    {name email phone : Option String} {actor : Option Uuid}
    (verb_eq : verb = .booth (.createBooking bookingId boothId (some line) partner name email phone
      actor))
    (view : ∀ t, x.view t = t) (seen : x.seen = [])
    (hp : .statement locks write next = (createBooking bookingId boothId (some line) partner name
      email phone actor).bind finish) :
    Standing s verb (x.stated locks write next (x.view s)) (next (x.view s)) := by
  obtain ⟨rfl, rfl, hnext⟩ := Program.statement.inj hp
  rw [view]
  cases hbooth : s.booth? boothId with
  | none =>
    have hrefuse : next s = .refuse (.boothNotFound boothId) := by
      simp only [hnext, hbooth]
      rfl
    rw [hrefuse]
    exact .refusing
  | some b =>
    let row : BoothBooking := ⟨bookingId, boothId, some line, .pending, partner, name, email, phone⟩
    have hguard : next s = (lineGuard b.eventId (some line)).bind fun _ =>
        (insertBooking row actor).bind finish := by
      simp only [hnext, hbooth]
      exact Program.bind_assoc (lineGuard b.eventId (some line)) (fun _ => insertBooking row actor)
        finish
    have hintent : intent verb (x.stated (fun _ => []) (fun _ s => s) next s) =
        some (line, b.eventId) := by
      simp only [verb_eq, intent, Session.stated, seen, List.nil_append, List.head?_cons,
        Option.bind_some, hbooth, Option.map_some]
    rw [hguard]
    refine .guarding (fun t => ?_) ⟨hintent, rfl, fun b' hb' hid => ?_⟩
    · rw [Session.view_stated, view]
    · have hid' : b'.id = boothId := hid
      rw [Option.some.inj ((booth?_of_mem hb').symm.trans (hid' ▸ hbooth))]

/-- A guard that finds nothing shows that the bookings of the line are of the event. -/
theorem Standing.guard {row : BoothBooking} {actor : Option Uuid} (view : ∀ t, x.view t = t)
    (intends : Intends s verb x row line eventId)
    (hp : .statement locks write next = (lineGuard eventId (some line)).bind fun _ =>
      (insertBooking row actor).bind finish) :
    Standing s verb (x.stated locks write next (x.view s)) (next (x.view s)) := by
  obtain ⟨rfl, rfl, hnext⟩ := Program.statement.inj hp
  have hseen := intends.seen
  rw [view]
  cases hcross : s.crossEvent line eventId with
  | true =>
    have hrefuse : next s = .refuse (.boothBookingLineCrossEvent line) := by
      simp only [hnext, hcross]
      rfl
    rw [hrefuse]
    exact .refusing
  | false =>
    have hinsert : next s = (insertBooking row actor).bind finish := by
      simp only [hnext, hcross]
      rfl
    rw [hinsert]
    refine .inserting (fun t => ?_) (intends.stated hseen) ?_ fun k hk hline b hb hid => ?_
    · rw [Session.view_stated, view]
    · have := List.length_pos_iff.mpr hseen
      simp only [Session.stated, List.length_append, List.length_singleton]
      omega
    · have hnone := List.any_eq_false.mp hcross k hk
      simpa [hline, ← hid, booth?_of_mem hb] using hnone

theorem Standing.insert {row : BoothBooking} {actor : Option Uuid} (view : ∀ t, x.view t = t)
    (intends : Intends s verb x row line eventId) (long : 2 ≤ x.seen.length)
    (lines : LineOf s line eventId)
    (hp : .statement locks write next = (insertBooking row actor).bind finish) :
    Standing s verb (x.stated locks write next (x.view s)) (next (x.view s)) := by
  obtain ⟨rfl, rfl, hnext⟩ := Program.statement.inj hp
  rw [view]
  cases hfits : s.boothBookings.accepts row with
  | false =>
    have hrefuse : next s = .refuse (.boothAlreadyConfirmed row.eventBoothId) := by
      simp only [hnext, hfits]
      rfl
    rw [hrefuse]
    exact .refusing
  | true =>
    have hnote : next s = .noteAfter (auditRow "booth_booking_created" actor "booth"
        (some row.eventBoothId) (.bookingCreated row.id .pending)) (.done ()) := by
      simp only [hnext, hfits]
      rfl
    rw [hnote]
    refine .noting (intends.stated intends.seen) ?_ lines fun t => ?_
    · simp only [Session.stated, List.length_append]
      omega
    · rw [Session.view_stated, view]

/-- A statement takes the session to its next standing. -/
theorem Standing.statement (h : Standing s verb x (.statement locks write next)) :
    Standing s verb (x.stated locks write next (x.view s)) (next (x.view s)) := by
  generalize hp : (Program.statement locks write next : Tx Unit) = p at h
  cases h with
  | refusing | noting | ending => cases hp
  | quiet aimless quiet sober =>
    subst hp
    refine .quiet aimless (quiet.2 _) fun t => ?_
    rw [Session.view_stated]
    exact (sober t).trans (quiet.1 _ _)
  | reading verb_eq view seen => exact .read verb_eq view seen hp
  | guarding view intends => exact .guard view intends hp
  | inserting view intends long lines => exact .insert view intends long lines hp

end statement

/-- A record, at once or for after the commit, changes nothing else. -/
theorem Standing.noteAfter {n : AuditRow} {next : Tx Unit}
    (h : Standing s verb x (.noteAfter n next)) :
    Standing s verb { x with phase := .running next, after := x.after ++ [n] } next := by
  generalize hp : (Program.noteAfter n next : Tx Unit) = p at h
  cases h with
  | refusing | reading | guarding | inserting | ending => cases hp
  | quiet aimless quiet sober =>
    subst hp
    exact .quiet aimless quiet sober
  | noting intends long lines view =>
    obtain ⟨rfl, rfl⟩ := Program.noteAfter.inj hp
    exact .ending { intends with } long lines view

theorem Standing.note {n : AuditRow} {next : Tx Unit} (h : Standing s verb x (.note n next)) :
    Standing s verb { x with phase := .running next } next := by
  generalize hp : (Program.note n next : Tx Unit) = p at h
  cases h with
  | refusing | reading | guarding | inserting | noting | ending => cases hp
  | quiet aimless quiet sober =>
    subst hp
    exact .quiet aimless quiet sober

theorem quiet_discard {α β : Type} {q : Tx α} {f : α → Tx β} (h : Quiet q)
    (hf : ∀ a, Quiet (f a)) : Quiet ((q.bind f).bind fun _ => .done ()) :=
  writes_bind (writes_bind h hf) fun _ => trivial

theorem standing_start (verb : LineVerb) :
    Standing s verb ⟨.running verb.program, [], [], [], []⟩ verb.program := by
  cases verb with
  | deleteBooth boothId actor =>
    exact .quiet (fun _ => rfl) (quiet_deleteBooth boothId actor) .refl
  | booth verb =>
    cases verb with
    | createBooking bookingId boothId line partner name email phone actor =>
      cases line with
      | none =>
        exact .quiet (fun _ => rfl) (quiet_discard (quiet_createBooking ..) fun _ => trivial) .refl
      | some line =>
        have hprogram : (LineVerb.booth (.createBooking bookingId boothId (some line) partner name
            email phone actor)).program =
            (createBooking bookingId boothId (some line) partner name email phone actor).bind
              finish := Program.bind_assoc _ _ _
        rw [hprogram]
        exact .reading rfl (fun _ => rfl) rfl
    | confirmBooking bookingId actor =>
      exact .quiet (fun _ => rfl) (quiet_discard (quiet_confirmBooking ..) fun _ => trivial) .refl
    | deleteBooking bookingId actor =>
      exact .quiet (fun _ => rfl) (quiet_discard (quiet_deleteBooking ..) fun _ => trivial) .refl
    | releaseBooth boothId actor =>
      exact .quiet (fun _ => rfl) (quiet_discard (quiet_releaseBooth ..) fun _ => trivial) .refl

end sessions

section run

variable {ι : Type} {verbs : ι → LineVerb} {s t : Db} {w w' : LineWorld ι} {i : ι}

structure LineInvariant (verbs : ι → LineVerb) (w : LineWorld ι) : Prop where
  lines : LinesOneEvent w.committed
  standing : ∀ i p, (w.sessions i).phase = .running p →
    Standing w.committed (verbs i) (w.sessions i) p
  agree : ∀ i j line e e', Past (verbs i) (w.sessions i) line e →
    Past (verbs j) (w.sessions j) line e' → e = e'

theorem lineInvariant_start (h : LinesOneEvent s) : LineInvariant verbs (opening verbs s) where
  lines := h
  standing i p hp := by
    obtain rfl := Phase.running.inj hp
    exact standing_start (verbs i)
  agree i j line e e' hi _ := absurd hi.2.1 (by simp [opening, start])

theorem lineOf_push {row : BoothBooking} {line eventId : Uuid} (hlines : LineOf s line eventId)
    (hrow : row.saleOrderLineId = some line → BoothOf s row.eventBoothId eventId) :
    LineOf { s with boothBookings := s.boothBookings.push row } line eventId := by
  intro k hk hline
  rcases Table.mem_of_mem_push hk with hk | rfl
  · exact hlines k hk hline
  · exact hrow hline

/-- The insert of a create whose line is of its event. -/
theorem linesOneEvent_push {row : BoothBooking} {line eventId : Uuid} (hs : LinesOneEvent s)
    (hrow : row.saleOrderLineId = some line) (hbooth : BoothOf s row.eventBoothId eventId)
    (hlines : LineOf s line eventId) :
    LinesOneEvent { s with boothBookings := s.boothBookings.push row } := by
  intro k hk l hl b hb hid
  have hl' : k.saleOrderLineId = some l := hl
  rcases Table.mem_of_mem_push hk with hk | rfl
  · refine lineOf_push (hs k hk l hl b hb hid) fun hsame => ?_
    obtain rfl : line = l := Option.some.inj (hrow.symm.trans hsame)
    rw [hlines k hk hl' b hb hid]
    exact hbooth
  · obtain rfl : line = l := Option.some.inj (hrow.symm.trans hl')
    rw [hbooth b hb hid]
    exact lineOf_push hlines fun _ => hbooth

theorem sober_audited (rows : List AuditRow) : Sober s (s.audited rows) := .of_eq rfl rfl

theorem not_past_of_ended {x : LineSession} {verb : LineVerb} {line eventId : Uuid}
    (h : underway x = false) : ¬ Past verb x line eventId := by
  rintro ⟨hopen, -, -⟩
  rw [h] at hopen
  cases hopen

/-- A commit keeps what the others go by: the events of the booths, and of each line the one
they are past their guard for. -/
structure Respects (s t : Db) (verb : LineVerb) (x : LineSession) : Prop where
  lines : LinesOneEvent s → LinesOneEvent t
  booths : ∀ b e, BoothOf s b e → BoothOf t b e
  line : ∀ line e, (∀ e', Past verb x line e' → e' = e) → LineOf s line e → LineOf t line e

theorem Sober.respects {verb : LineVerb} {x : LineSession} (h : Sober s t) :
    Respects s t verb x where
  lines := h.linesOneEvent
  booths _ _ := h.boothOf
  line _ _ _ := h.lineOf

theorem Standing.commit {verb : LineVerb} {x : LineSession} (h : Standing s verb x (.done ()))
    (hphase : x.phase = .running (.done ())) : Respects s (x.view s) verb x := by
  generalize hp : (Program.done () : Tx Unit) = p at h
  cases h with
  | refusing | reading | guarding | inserting | noting => cases hp
  | quiet aimless quiet sober => exact (sober s).respects
  | ending intends long lines view =>
    rw [view]
    refine ⟨fun hs => linesOneEvent_push hs intends.line intends.booth lines, fun _ _ hb => hb, ?_⟩
    intro l e hagree hl
    refine lineOf_push hl fun hsame => ?_
    have hpast : Past verb x l _ := ⟨by simp only [underway, hphase], long,
      (Option.some.inj (intends.line.symm.trans hsame)) ▸ intends.intent⟩
    rw [← hagree _ hpast]
    exact intends.booth

theorem Respects.audited {verb : LineVerb} {x : LineSession} (h : Respects s t verb x)
    (rows : List AuditRow) : Respects s (t.audited rows) verb x where
  lines hs := (sober_audited rows).linesOneEvent (h.lines hs)
  booths b e hb := (sober_audited rows).boothOf (h.booths b e hb)
  line l e hagree hl := (sober_audited rows).lineOf (h.line l e hagree hl)

section step

variable [DecidableEq ι]

/-- A session that is over has passed its guard no longer. -/
theorem LineInvariant.agree_ended {x : LineSession} (h : LineInvariant verbs w)
    (hx : underway x = false) (j k : ι) (line e e' : Uuid)
    (hj : Past (verbs j) (Function.update w.sessions i x j) line e)
    (hk : Past (verbs k) (Function.update w.sessions i x k) line e') : e = e' := by
  by_cases hji : j = i
  · subst hji
    rw [Function.update_self] at hj
    exact absurd hj (not_past_of_ended hx)
  by_cases hki : k = i
  · subst hki
    rw [Function.update_self] at hk
    exact absurd hk (not_past_of_ended hx)
  rw [Function.update_of_ne hji] at hj
  rw [Function.update_of_ne hki] at hk
  exact h.agree j k line e e' hj hk

/-- A session that ends, on a database that respects what the others go by. -/
theorem LineInvariant.ended {x : LineSession} (h : LineInvariant verbs w) (hx : underway x = false)
    (hphase : ∀ p, x.phase ≠ .running p) (hsessions : w'.sessions = (w.set i x).sessions)
    (hrespects : Respects w.committed w'.committed (verbs i) (w.sessions i)) :
    LineInvariant verbs w' where
  lines := hrespects.lines h.lines
  standing j p hp := by
    rw [hsessions, World.set_sessions] at hp ⊢
    by_cases hj : j = i
    · subst hj
      rw [Function.update_self] at hp
      exact absurd hp (hphase p)
    · rw [Function.update_of_ne hj] at hp ⊢
      refine (h.standing j p hp).recommit hp hrespects.booths fun line e hpast => ?_
      exact hrespects.line line e fun e' hpast' => h.agree i j line e' e hpast' hpast
  agree := by
    rw [hsessions, World.set_sessions]
    exact h.agree_ended hx

/-- A session that goes on, on a database with the same lines and booths. -/
theorem LineInvariant.goesOn {x : LineSession} (h : LineInvariant verbs w)
    (hx : ∀ p, x.phase = .running p → Standing w.committed (verbs i) x p)
    (hpast : ∀ line e, Past (verbs i) x line e → ∀ j, j ≠ i → ∀ e',
      Past (verbs j) (w.sessions j) line e' → e' = e)
    (hsessions : w'.sessions = (w.set i x).sessions) (hsober : Sober w.committed w'.committed) :
    LineInvariant verbs w' where
  lines := hsober.linesOneEvent h.lines
  standing j p hp := by
    rw [hsessions, World.set_sessions] at hp ⊢
    by_cases hj : j = i
    · subst hj
      rw [Function.update_self] at hp ⊢
      exact (hx p hp).recommit hp (fun _ _ => hsober.boothOf) fun _ _ _ => hsober.lineOf
    · rw [Function.update_of_ne hj] at hp ⊢
      exact (h.standing j p hp).recommit hp (fun _ _ => hsober.boothOf) fun _ _ _ => hsober.lineOf
  agree j k line e e' hj hk := by
    rw [hsessions, World.set_sessions] at hj hk
    by_cases hji : j = i
    · subst hji
      rw [Function.update_self] at hj
      by_cases hkj : k = j
      · subst hkj
        rw [Function.update_self] at hk
        exact (Prod.mk.inj (Option.some.inj (hj.2.2.symm.trans hk.2.2))).2
      · rw [Function.update_of_ne hkj] at hk
        exact (hpast line e hj k hkj e' hk).symm
    · rw [Function.update_of_ne hji] at hj
      by_cases hki : k = i
      · subst hki
        rw [Function.update_self] at hk
        exact hpast line e' hk j hji e hj
      · rw [Function.update_of_ne hki] at hk
        exact h.agree j k line e e' hj hk

omit [DecidableEq ι] in
/-- A create that comes to stand past its guard did so alone. -/
theorem past_stated {locks : Db → List Lock} {write : Db → Db → Db} {next : Db → Tx Unit} {v : Db}
    (h : LineInvariant verbs w) (halone : GuardsAlone verbs w i)
    (phase : (w.sessions i).phase = .running (.statement locks write next)) (line e : Uuid)
    (hpast : Past (verbs i) ((w.sessions i).stated locks write next v) line e) (j : ι) (hj : j ≠ i)
    (e' : Uuid) (hpast' : Past (verbs j) (w.sessions j) line e') : e' = e := by
  obtain ⟨-, hlong, hintent⟩ := hpast
  simp only [Session.stated, List.length_append, List.length_singleton] at hlong
  have hseen : (w.sessions i).seen ≠ [] := by
    intro hnil
    rw [hnil] at hlong
    exact absurd hlong (by decide)
  rw [intent_stated hseen] at hintent
  by_cases hlast : (w.sessions i).seen.length = 1
  · exact halone (underway_of phase) hlast (line, e) hintent j hj (line, e') hpast'.2.2 hpast'.1
      hpast'.2.1 rfl
  · exact h.agree j i line e' e hpast' ⟨underway_of phase, by omega, hintent⟩

/-- Every step at which a create reads its guard alone keeps the invariant. -/
theorem lineInvariant_step [Fintype ι] (h : LineInvariant verbs w) (halone : GuardsAlone verbs w i)
    (hstep : World.Step Db.absorb w i w') : LineInvariant verbs w' := by
  cases hstep with
  | stays => exact h
  | @commit a phase =>
    refine h.ended rfl (fun p hp => by cases hp) rfl ?_
    have hrespects := (h.standing i _ phase).commit phase
    rw [foldl_absorb]
    exact hrespects.audited _
  | rollback phase => exact h.ended rfl (fun p hp => by cases hp) rfl (Sober.refl _).respects
  | statement phase granted =>
    refine h.goesOn (fun p hp => ?_) (past_stated h halone phase) rfl (.refl _)
    obtain rfl := Phase.running.inj hp
    exact (h.standing i _ phase).statement
  | note phase =>
    refine h.goesOn (fun p hp => ?_) (fun line e hpast j hj e' hpast' => ?_) rfl (.of_eq rfl rfl)
    · obtain rfl := Phase.running.inj hp
      exact (h.standing i _ phase).note
    · exact h.agree j i line e' e hpast' ⟨by simp only [underway, phase], hpast.2.1, hpast.2.2⟩
  | noteAfter phase =>
    refine h.goesOn (fun p hp => ?_) (fun line e hpast j hj e' hpast' => ?_) rfl (.refl _)
    · obtain rfl := Phase.running.inj hp
      exact (h.standing i _ phase).noteAfter
    · exact h.agree j i line e' e hpast' ⟨by simp only [underway, phase], hpast.2.1, hpast.2.2⟩

/-- While no create reads its guard between the guard and the commit of another of its line at
another event, the bookings of each line are for booths of one event in every state reached. -/
theorem lines_oneEvent [Fintype ι] (hs : LinesOneEvent s) {schedule : List ι}
    (hrun : Along (World.step Db.absorb) (GuardsAlone verbs) (opening verbs s) schedule) :
    Throughout (World.step Db.absorb) (fun w => LinesOneEvent w.committed) (opening verbs s)
      schedule := by
  have hinv := hrun.throughout (lineInvariant_start hs) fun w i h halone =>
    lineInvariant_step h halone (World.step_cases Db.absorb w i)
  exact hinv.mono fun w h => h.lines

end step

end run

section sample

instance (s : Db) (boothId eventId : Uuid) : Decidable (BoothOf s boothId eventId) :=
  inferInstanceAs (Decidable (∀ b ∈ s.booths.rows, _))

instance (s : Db) (line eventId : Uuid) : Decidable (LineOf s line eventId) :=
  inferInstanceAs (Decidable (∀ k ∈ s.boothBookings.rows, _))

instance (s : Db) : Decidable (LinesOneEvent s) :=
  inferInstanceAs (Decidable (∀ k ∈ s.boothBookings.rows, ∀ line ∈ k.saleOrderLineId, _))

instance {ι : Type} [Fintype ι] [DecidableEq ι] (verbs : ι → LineVerb) (w : LineWorld ι) (i : ι) :
    Decidable (GuardsAlone verbs w i) :=
  inferInstanceAs (Decidable (_ → _ → ∀ p ∈ intent (verbs i) (w.sessions i), ∀ j, j ≠ i →
    ∀ q ∈ intent (verbs j) (w.sessions j), _))

/-- Booth 1 of event 1 and booth 2 of event 2, both free. -/
def twoEvents : Db := { freeBooth with
  booths := freeBooth.booths.push ⟨2, 2, .available, none, none, none, none, none, false⟩ }

/-- Two bookings on line 7, one at each event. -/
def oneLine (i : Fin 2) : LineVerb :=
  .booth (.createBooking (10 + i) (1 + i) (some 7) none none none none none)

/-- The second create is refused by its guard. -/
theorem lines_oneEvent_inTurn :
    Throughout (World.step Db.absorb) (fun w => LinesOneEvent w.committed) (opening oneLine twoEvents)
      (List.replicate 5 0 ++ List.replicate 3 1) :=
  lines_oneEvent (by decide) (by decide)

/-- Both creates read their guard before either inserts, and both commit. -/
def guardsCrossed : List (Fin 2) := [0, 0, 1, 1] ++ List.replicate 3 0 ++ List.replicate 3 1

theorem guardsCrossed_twoEvents :
    LinesOneEvent twoEvents ∧
    ¬ LinesOneEvent
      (guardsCrossed.foldl (World.step Db.absorb) (opening oneLine twoEvents)).committed := by
  decide

end sample

end BackboneEvents.BookingLines
