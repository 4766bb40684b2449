import Mathlib.Data.Finset.Card
import BackboneEvents.GuardedRuns
import BackboneEvents.LeadFrames

/-!
# The registration desk

A scan reads the registration, reads the event, and decides on what it has read; its one
write is the state verb from any state to any state. Between the two, other desks, officers
and the host write too. A ticket is admitted once exactly as long as every scan that writes
finds the row as it read it: open.
-/
namespace BackboneEvents.DeskService
open ConstrainedTables TransactionPrograms GuardedRuns

def findByBarcode (barcode : String) (s : Db) : Option Registration :=
  s.registrations.find (·.barcode == barcode)

/-- The branches on the row alone. -/
def branchRow (found : Option Registration) : Except EventError Registration :=
  match found.filter Registration.active with
  | none => .error .deskInvalidTicket
  | some reg =>
    if reg.state == .cancel then .error .deskCanceledRegistration
    else if reg.state == .draft then .error .deskUnconfirmedRegistration
    else .ok reg

/-- The branches on the scanned event, then on the row in that event. -/
def branchEvent (reg : Registration) (eventId : Uuid) (now : Timestamp) (found : Option Event) :
    Except EventError Unit :=
  match found with
  | none => .error .eventNotFound
  | some event =>
    if event.kanbanState == .done || event.kanbanState == .cancel || decide (event.dateEnd ≤ now) then
      .error .deskNotOngoingEvent
    else if reg.eventId != eventId then .error .deskNeedManualConfirmation
    else if reg.state == .done then .error .deskAlreadyRegistered
    else .ok ()

/-- Where a scan stands: the call it makes next. -/
inductive Point where
  | lookup
  | event (reg : Registration)
  | write (reg : Registration)
  | refresh (registrationId : Uuid) (before after : RegistrationState)
  deriving DecidableEq, Repr

inductive Desk where
  | idle
  | scanning (barcode : String) (eventId : Uuid) (actor : Option Uuid) (point : Point)
  | returned (result : Except EventError (Registration × RegistrationState × RegistrationState))

def Desk.isScanning : Desk → Bool
  | .scanning _ _ _ _ => true
  | .idle | .returned _ => false

/-- One step of `register_attendee`. -/
def Point.turn (barcode : String) (eventId : Uuid) (actor : Option Uuid) (env : Env) (s : Db) :
    Point → Db × Desk
  | .lookup =>
    match branchRow (findByBarcode (String.ofList (GrandTotal.trim barcode.toList)) s) with
    | .error e => (s, .returned (.error e))
    | .ok reg => (s, .scanning barcode eventId actor (.event reg))
  | .event reg =>
    match branchEvent reg eventId env.now (s.event? eventId) with
    | .error e => (s, .returned (.error e))
    | .ok _ => (s, .scanning barcode eventId actor (.write reg))
  | .write reg =>
    match (transition env reg.id .done actor).execute Db.absorb s with
    | (.error e, t) => (t, .returned (.error e))
    | (.ok (before, after, _), t) =>
      (t, .scanning barcode eventId actor (.refresh reg.id before after))
  | .refresh registrationId before after =>
    match s.registration? registrationId with
    | none => (s, .returned (.error .registrationNotFound))
    | some row => (s, .returned (.ok (row, before, after)))

def Desk.turn (env : Env) (s : Db) : Desk → Db × Desk
  | .scanning barcode eventId actor point => point.turn barcode eventId actor env s
  | .idle => (s, .idle)
  | .returned result => (s, .returned result)

def Event.marked (state : KanbanState) : Update Event where
  toFun event := { event with kanbanState := state }
  keeps _ _ := rfl

structure World (ι : Type) where
  db : Db
  desks : ι → Desk

/-- A verb of an officer or the sale seam, an event closed or cancelled, a scan that starts,
or one step of a scan. -/
inductive Act (ι : Type) where
  | verb (c : Call)
  | mark (eventId : Uuid) (state : KanbanState)
  | registerAttendee (i : ι) (barcode : String) (eventId : Uuid) (actor : Option Uuid)
  | turn (i : ι) (env : Env)

section world

variable {ι : Type} [DecidableEq ι]

def World.next (w : World ι) : Act ι → World ι
  | .verb c => { w with db := w.db.next c }
  | .mark eventId state =>
    { w with db := { w.db with events := w.db.events.modify (·.id == eventId) (Event.marked state) } }
  | .registerAttendee i barcode eventId actor =>
    if (w.desks i).isScanning then w
    else { w with desks := Function.update w.desks i (.scanning barcode eventId actor .lookup) }
  | .turn i env =>
    let turn := (w.desks i).turn env w.db
    ⟨turn.1, Function.update w.desks i turn.2⟩

end world

def stateOf (s : Db) (registrationId : Uuid) : Option RegistrationState :=
  (s.registration? registrationId).map Registration.state

/-- The registration whose refreshed row a scan is about to return. -/
def Desk.refreshes : Desk → Option Uuid
  | .scanning _ _ _ (.refresh registrationId _ _) => some registrationId
  | .scanning _ _ _ .lookup | .scanning _ _ _ (.event _) | .scanning _ _ _ (.write _) => none
  | .idle | .returned _ => none

/-- A scan about to write: its event, its row and its actor. -/
def Desk.writes : Desk → Option (Uuid × Registration × Option Uuid)
  | .scanning _ eventId actor (.write reg) => some (eventId, reg, actor)
  | .scanning _ _ _ .lookup | .scanning _ _ _ (.event _) | .scanning _ _ _ (.refresh _ _ _) => none
  | .idle | .returned _ => none

def Desk.isOk : Desk → Bool
  | .returned (.ok _) => true
  | .returned (.error _) | .idle | .scanning _ _ _ _ => false

/-- The world with how often each registration entered open, and how many scans of it
returned Ok. -/
structure Watched (ι : Type) where
  world : World ι
  opened : Uuid → ℕ
  admitted : Uuid → ℕ

section statements

variable {ι : Type} [DecidableEq ι]

def Watched.start (s : Db) : Watched ι where
  world := ⟨s, fun _ => .idle⟩
  opened id := if stateOf s id = some .open then 1 else 0
  admitted _ := 0

def Watched.next (o : Watched ι) (a : Act ι) : Watched ι where
  world := o.world.next a
  opened id := o.opened id +
    if stateOf o.world.db id ≠ some .open ∧ stateOf (o.world.next a).db id = some .open then 1 else 0
  admitted id :=
    match a with
    | .turn i _ => o.admitted id +
        if (o.world.desks i).refreshes = some id ∧ ((o.world.next a).desks i).isOk = true then 1 else 0
    | .verb _ | .mark _ _ | .registerAttendee _ _ _ _ => o.admitted id

def Watched.AdmitsOnce (o : Watched ι) : Prop := ∀ id, o.admitted id ≤ o.opened id

/-- A scan whose write is answered moves its row, of the scanned event, from open to done,
and no other. -/
def Watched.Moves (o : Watched ι) : Act ι → Prop
  | .turn i env => ∀ x ∈ (o.world.desks i).writes,
    ((o.world.next (.turn i env)).desks i).refreshes = some x.2.1.id →
      ∃ r ∈ o.world.db.registrations.rows, r.id = x.2.1.id ∧ r.eventId = x.1 ∧ r.state = .open ∧
        (o.world.next (.turn i env)).db.registrations =
          o.world.db.registrations.modify (·.id == r.id) (Registration.moved env.now .done)
  | .verb _ | .mark _ _ | .registerAttendee _ _ _ _ => True

/-- A scan writes on a row that is still open, or where the seat head refuses it. -/
def Watched.StillOpen (o : Watched ι) : Act ι → Prop
  | .turn i _ => ∀ x ∈ (o.world.desks i).writes, ∀ r ∈ o.world.db.registration? x.2.1.id,
    r.state = .open ∨ (takesSeat r .done = true ∧ ∀ event ∈ o.world.db.event? r.eventId,
      event.exhausted (o.world.db.taken r.eventId r.eventSlotId) = true)
  | .verb _ | .mark _ _ | .registerAttendee _ _ _ _ => True

end statements

section writes

variable {s : Db} {env : Env} {barcode : String} {eventId : Uuid} {reg : Registration}
  {actor : Option Uuid}

variable (s env barcode eventId reg actor) in
/-- A scan's write is refused with the rows as they were, or moves the stored row. -/
theorem write_cases : (∃ rows e,
      (Point.write reg).turn barcode eventId actor env s = (s.audited rows, .returned (.error e)) ∧
      ∀ r, s.registration? reg.id = some r → takesSeat r .done = true ∧
        ∀ event ∈ s.event? r.eventId, event.exhausted (s.taken r.eventId r.eventSlotId) = true) ∨
    ∃ rows r, s.registration? reg.id = some r ∧
      (takesSeat r .done = true → ∃ event, s.event? r.eventId = some event ∧
        event.exhausted (s.taken r.eventId r.eventSlotId) = false) ∧
      (Point.write reg).turn barcode eventId actor env s =
        ((s.transitioned env r .done actor).audited rows,
          .scanning barcode eventId actor (.refresh reg.id r.state .done)) := by
  cases hfound : s.registration? reg.id with
  | none =>
    have hrun := run_transition_none env .done actor hfound
    exact .inl ⟨_, _, by simp only [Point.turn, execute_error hrun]; rfl, fun r h => by cases h⟩
  | some r =>
    have hid := (registration?_mem hfound).2
    have hrun := run_transition_some env .done actor (hid ▸ hfound)
    rw [hid] at hrun
    cases hseat : takesSeat r .done with
    | false =>
      rw [hseat, if_neg Bool.false_ne_true] at hrun
      exact .inr ⟨_, r, rfl, fun h => absurd (hseat.symm.trans h) Bool.false_ne_true,
        by simp only [Point.turn, execute_ok hrun]; rfl⟩
    | true =>
      rw [hseat, if_pos rfl] at hrun
      cases hevent : s.event? r.eventId with
      | none =>
        rw [hevent] at hrun
        refine .inl ⟨_, _, by simp only [Point.turn, execute_error hrun]; rfl, ?_⟩
        rintro r' hr'
        obtain rfl := Option.some.inj hr'
        exact ⟨hseat, by simp [hevent]⟩
      | some event =>
        rw [hevent] at hrun
        cases hfull : event.exhausted (s.taken r.eventId r.eventSlotId) with
        | true =>
          simp only [hfull, if_true] at hrun
          refine .inl ⟨_, _, by simp only [Point.turn, execute_error hrun]; rfl, ?_⟩
          rintro r' hr'
          obtain rfl := Option.some.inj hr'
          exact ⟨hseat, by simp [hevent, hfull]⟩
        | false =>
          simp only [hfull, Bool.false_eq_true, if_false] at hrun
          exact .inr ⟨_, r, rfl, fun _ => ⟨event, hevent, hfull⟩,
            by simp only [Point.turn, execute_ok hrun]; rfl⟩

theorem writes_iff {d : Desk} {x : Uuid × Registration × Option Uuid} :
    d.writes = some x ↔ ∃ barcode, d = .scanning barcode x.1 x.2.2 (.write x.2.1) := by
  cases d with
  | idle | returned => simp [Desk.writes]
  | scanning barcode eventId actor point =>
    cases point with
    | lookup | event | refresh => simp [Desk.writes]
    | write reg =>
      obtain ⟨e, r, a⟩ := x
      simp only [Desk.writes, Option.some.injEq, Prod.mk.injEq, Desk.scanning.injEq,
        Point.write.injEq]
      constructor
      · rintro ⟨rfl, rfl, rfl⟩
        exact ⟨barcode, rfl, rfl, rfl, rfl⟩
      · rintro ⟨_, -, rfl, rfl, rfl⟩
        exact ⟨rfl, rfl, rfl⟩

/-- Any other step of a desk reads. -/
theorem turn_reads {d : Desk} (h : d.writes = none) : (d.turn env s).1 = s := by
  cases d with
  | idle | returned => rfl
  | scanning barcode eventId actor point =>
    cases point with
    | lookup | event | refresh => simp only [Desk.turn, Point.turn]; split <;> rfl
    | write => cases h

end writes

section runs

variable {ι : Type} [DecidableEq ι]

/-- The row is stored, in its event. -/
def Stored (s : Db) (reg : Registration) : Prop :=
  ∃ r ∈ s.registrations.rows, r.id = reg.id ∧ r.eventId = reg.eventId

/-- What a scan has read is stored, and its row is of the scanned event when it writes. -/
def DeskSound (s : Db) : Desk → Prop
  | .scanning _ _ _ (.event reg) => Stored s reg
  | .scanning _ eventId _ (.write reg) => Stored s reg ∧ reg.eventId = eventId
  | .scanning _ _ _ .lookup | .scanning _ _ _ (.refresh _ _ _) => True
  | .idle | .returned _ => True

theorem Stored.same {s t : Db} {reg : Registration} (h : Stored s reg)
    (hsame : ∀ r ∈ s.registrations.rows, ∃ r' ∈ t.registrations.rows,
      LeadGeneration.SameTicket r r') : Stored t reg := by
  obtain ⟨r, hr, hid, hevent⟩ := h
  obtain ⟨r', hr', hrow⟩ := hsame r hr
  exact ⟨r', hr', hrow.id.trans hid, hrow.eventId.trans hevent⟩

theorem DeskSound.same {s t : Db} {d : Desk} (h : DeskSound s d)
    (hsame : ∀ r ∈ s.registrations.rows, ∃ r' ∈ t.registrations.rows,
      LeadGeneration.SameTicket r r') : DeskSound t d := by
  cases d with
  | idle | returned => trivial
  | scanning barcode eventId actor point =>
    cases point with
    | lookup | refresh => trivial
    | event => exact Stored.same h hsame
    | write => exact ⟨h.1.same hsame, h.2⟩

/-- A scan never takes a row away, nor moves it to another event. -/
theorem turn_same (env : Env) (s : Db) (d : Desk) : ∀ r ∈ s.registrations.rows,
    ∃ r' ∈ (d.turn env s).1.registrations.rows, LeadGeneration.SameTicket r r' := by
  intro r hr
  cases hwrites : d.writes with
  | none =>
    rw [turn_reads hwrites]
    exact ⟨r, hr, .refl r⟩
  | some x =>
    obtain ⟨barcode, rfl⟩ := writes_iff.mp hwrites
    simp only [Desk.turn]
    rcases write_cases s env barcode x.1 x.2.1 x.2.2 with
      ⟨rows, e, heq, -⟩ | ⟨rows, row, hfound, -, heq⟩
    · rw [heq]
      exact ⟨r, hr, .refl r⟩
    · rw [heq]
      refine ⟨_, Table.mem_modify.mpr ⟨r, hr, rfl⟩, ?_⟩
      split
      · exact ⟨rfl, rfl, rfl, rfl, rfl⟩
      · exact .refl r

theorem turn_sound {env : Env} {s : Db} {d : Desk} (h : DeskSound s d) :
    DeskSound (d.turn env s).1 (d.turn env s).2 := by
  cases d with
  | idle | returned => trivial
  | scanning barcode eventId actor point =>
    cases point with
    | lookup =>
      simp only [Desk.turn, Point.turn]
      split
      · trivial
      · next reg hreg =>
        simp only [branchRow] at hreg
        split at hreg
        · cases hreg
        · next row hrow =>
          obtain ⟨hfound, -⟩ := Option.filter_eq_some_iff.mp hrow
          split at hreg
          · cases hreg
          · split at hreg
            · cases hreg
            · obtain rfl := Except.ok.inj hreg
              exact ⟨row, Table.find_mem hfound, rfl, rfl⟩
    | event reg =>
      simp only [Desk.turn, Point.turn]
      split
      · trivial
      · next hbranch =>
        refine ⟨h, ?_⟩
        simp only [branchEvent] at hbranch
        split at hbranch
        · cases hbranch
        · split at hbranch
          · cases hbranch
          · split at hbranch
            · cases hbranch
            · next hevent => simpa using hevent
    | write reg =>
      simp only [Desk.turn]
      rcases write_cases s env barcode eventId reg actor with
        ⟨rows, e, heq, -⟩ | ⟨rows, row, hfound, -, heq⟩ <;> rw [heq] <;> trivial
    | refresh => simp only [Desk.turn, Point.turn]; split <;> trivial

def World.Sound (w : World ι) : Prop := ∀ i, DeskSound w.db (w.desks i)

theorem World.Sound.next {w : World ι} (h : w.Sound) (a : Act ι) : (w.next a).Sound := by
  intro j
  cases a with
  | verb c => exact (h j).same (LeadGeneration.next_kept c w.db).registrations
  | mark eventId state => exact (h j).same (LeadGeneration.Kept.same_registrations rfl)
  | registerAttendee i barcode eventId actor =>
    simp only [World.next]
    split
    · exact h j
    · simp only
      by_cases hj : j = i
      · subst hj
        rw [Function.update_self]
        trivial
      · rw [Function.update_of_ne hj]
        exact h j
  | turn i env =>
    simp only [World.next]
    by_cases hj : j = i
    · subst hj
      rw [Function.update_self]
      exact turn_sound (h j)
    · rw [Function.update_of_ne hj]
      exact (h j).same (turn_same env w.db (w.desks i))

theorem moves_of_stillOpen {o : Watched ι} {a : Act ι} (hsound : o.world.Sound)
    (h : o.StillOpen a) : o.Moves a := by
  cases a with
  | verb | mark | registerAttendee => trivial
  | turn i env =>
    intro x hx hrefreshes
    obtain ⟨barcode, hdesk⟩ := writes_iff.mp hx
    have hread := hsound i
    rw [hdesk] at hread
    obtain ⟨⟨r', hr', hid', hevent'⟩, hscan⟩ := hread
    simp only [World.next, hdesk, Desk.turn, Function.update_self] at hrefreshes ⊢
    rcases write_cases o.world.db env barcode x.1 x.2.1 x.2.2 with
      ⟨rows, e, heq, -⟩ | ⟨rows, r, hfound, hseat, heq⟩
    · rw [heq] at hrefreshes
      cases hrefreshes
    · rw [heq]
      obtain ⟨hr, hid⟩ := registration?_mem hfound
      have hrow : r = r' := Table.eq_of_clash hr hr' (by simp [clash, hid, hid'])
      refine ⟨r, hr, hid, by rw [hrow, hevent', hscan], ?_, rfl⟩
      rcases h x hx r hfound with hopen | ⟨htakes, hfull⟩
      · exact hopen
      · obtain ⟨event, hevent, hroom⟩ := hseat htakes
        rw [hfull event hevent] at hroom
        cases hroom

theorem stillOpen_of_moves {o : Watched ι} {a : Act ι} (h : o.Moves a) : o.StillOpen a := by
  cases a with
  | verb | mark | registerAttendee => trivial
  | turn i env =>
    intro x hx r hfound
    obtain ⟨barcode, hdesk⟩ := writes_iff.mp hx
    have hmoves := h x hx
    simp only [World.next, hdesk, Desk.turn, Function.update_self] at hmoves
    rcases write_cases o.world.db env barcode x.1 x.2.1 x.2.2 with
      ⟨rows, e, heq, hrefused⟩ | ⟨rows, r', hfound', -, heq⟩
    · exact .inr (hrefused r hfound)
    · rw [heq] at hmoves
      obtain ⟨r'', hr'', hid, -, hopen, -⟩ := hmoves rfl
      obtain ⟨hr, hrid⟩ := registration?_mem hfound
      obtain rfl : r'' = r := Table.eq_of_clash hr'' hr (by simp [clash, hid, hrid])
      exact .inl hopen

/-- Whether the registration is open, as a count. -/
def openNow (s : Db) (id : Uuid) : ℕ := if stateOf s id = some .open then 1 else 0

/-- Every Ok scan, every scan about to return Ok and an open row have an entry of their own. -/
def Counted (o : Watched ι) : Prop :=
  ∀ id, ∃ returning : Finset ι, (∀ i, i ∈ returning ↔ (o.world.desks i).refreshes = some id) ∧
    o.admitted id + returning.card + openNow o.world.db id ≤ o.opened id

omit [DecidableEq ι] in
theorem Counted.admitsOnce {o : Watched ι} (h : Counted o) : o.AdmitsOnce := by
  intro id
  obtain ⟨returning, -, hcount⟩ := h id
  omega

omit [DecidableEq ι] in
theorem counted_start (s : Db) : Counted (Watched.start s : Watched ι) := by
  intro id
  refine ⟨∅, fun i => by simp [Watched.start, Desk.refreshes], ?_⟩
  simp only [Watched.start, openNow, Finset.card_empty, Nat.zero_add]
  exact le_refl _

/-- An entry pays for an open row. -/
theorem openNow_next (s t : Db) (id : Uuid) : openNow t id ≤ openNow s id +
    if stateOf s id ≠ some .open ∧ stateOf t id = some .open then 1 else 0 := by
  simp only [openNow]
  by_cases ht : stateOf t id = some .open
  · by_cases hs : stateOf s id = some .open <;> simp [ht, hs]
  · simp [ht]

/-- A step that returns no scan and answers no write. -/
theorem Counted.frame {o : Watched ι} {a : Act ι} (h : Counted o)
    (refreshes : ∀ i, ((o.world.next a).desks i).refreshes = (o.world.desks i).refreshes)
    (admitted : ∀ id, (o.next a).admitted id = o.admitted id) : Counted (o.next a) := by
  intro id
  obtain ⟨returning, hmem, hcount⟩ := h id
  refine ⟨returning, fun i => (hmem i).trans (by rw [← refreshes i]; rfl), ?_⟩
  have hopen := openNow_next o.world.db (o.world.next a).db id
  rw [admitted]
  simp only [Watched.next] at hopen ⊢
  omega

/-- A scan that moves an open row spends its entry. -/
theorem Counted.moved {o : Watched ι} {i : ι} {env : Env} {barcode : String} {eventId : Uuid}
    {actor : Option Uuid} {reg r : Registration} (h : Counted o)
    (desk : o.world.desks i = .scanning barcode eventId actor (.write reg))
    (stored : r ∈ o.world.db.registrations.rows) (same : r.id = reg.id) (hopen : r.state = .open)
    (rows : (o.world.next (.turn i env)).db.registrations =
      o.world.db.registrations.modify (·.id == r.id) (Registration.moved env.now .done))
    (after : ((o.world.next (.turn i env)).desks i).refreshes = some reg.id) :
    Counted (o.next (.turn i env)) := by
  have hstate : ∀ id, stateOf (o.world.next (.turn i env)).db id =
      if id = r.id then some .done else stateOf o.world.db id := by
    intro id
    have hlookup := registration?_modify id stored
      (f := Registration.moved env.now .done) fun _ => rfl
    rw [stateOf, Db.registration?, rows]
    rw [Db.registration?] at hlookup
    rw [hlookup]
    split
    · rfl
    · rfl
  have hnow : stateOf o.world.db r.id = some .open := by
    rw [stateOf, registration?_eq_some stored, Option.map_some, hopen]
  have hothers : ∀ j, j ≠ i → ((o.world.next (.turn i env)).desks j) = o.world.desks j := by
    intro j hj
    simp only [World.next]
    exact Function.update_of_ne hj _ _
  have hbefore : (o.world.desks i).refreshes = none := by
    rw [desk]
    rfl
  intro id
  obtain ⟨returning, hmem, hcount⟩ := h id
  have hadmitted : (o.next (.turn i env)).admitted id = o.admitted id := by
    simp [Watched.next, hbefore]
  rw [hadmitted]
  by_cases hid : id = reg.id
  · subst hid
    have hfresh : i ∉ returning := fun hi => by
      rw [hmem, hbefore] at hi
      cases hi
    refine ⟨insert i returning, fun j => ?_, ?_⟩
    · by_cases hj : j = i
      · subst hj
        exact iff_of_true (Finset.mem_insert_self ..) after
      · rw [Finset.mem_insert, or_iff_right hj, hmem]
        simp only [Watched.next, hothers j hj]
    · rw [Finset.card_insert_of_notMem hfresh]
      simp only [Watched.next, openNow, hstate, same, if_true] at hcount ⊢
      rw [same] at hnow
      simp only [hnow, if_true] at hcount
      simp
      omega
  · refine ⟨returning, fun j => (hmem j).trans ?_, ?_⟩
    · by_cases hj : j = i
      · subst hj
        refine iff_of_false (by rw [hbefore]; simp) fun hj => ?_
        exact hid (Option.some.inj (hj.symm.trans after))
      · simp only [Watched.next, hothers j hj]
    · have hne : id ≠ r.id := fun heq => hid (heq.trans same)
      simp only [Watched.next, openNow, hstate, if_neg hne] at hcount ⊢
      omega

/-- A scan that returns gives its entry to its answer. -/
theorem Counted.returned {o : Watched ι} {i : ι} {env : Env} (rid : Uuid) (h : Counted o)
    (before : (o.world.desks i).refreshes = some rid)
    (db : (o.world.next (.turn i env)).db = o.world.db)
    (after : ((o.world.next (.turn i env)).desks i).refreshes = none) :
    Counted (o.next (.turn i env)) := by
  have hothers : ∀ j, j ≠ i → ((o.world.next (.turn i env)).desks j) = o.world.desks j := by
    intro j hj
    simp only [World.next]
    exact Function.update_of_ne hj _ _
  intro id
  obtain ⟨returning, hmem, hcount⟩ := h id
  have hopened : (o.next (.turn i env)).opened id = o.opened id := by
    simp only [Watched.next, db]
    have hnot : ¬ (stateOf o.world.db id ≠ some .open ∧ stateOf o.world.db id = some .open) :=
      fun hboth => hboth.1 hboth.2
    rw [if_neg hnot, Nat.add_zero]
  have hnow : openNow (o.next (.turn i env)).world.db id = openNow o.world.db id := by
    simp only [Watched.next, db]
  rw [hopened, hnow]
  by_cases hid : id = rid
  · subst hid
    have hi : i ∈ returning := (hmem i).mpr before
    refine ⟨returning.erase i, fun j => ?_, ?_⟩
    · by_cases hj : j = i
      · subst hj
        refine iff_of_false (by simp) ?_
        simp only [Watched.next, after]
        simp
      · rw [Finset.mem_erase, and_iff_right hj, hmem]
        simp only [Watched.next, hothers j hj]
    · have hcard := Finset.card_erase_add_one hi
      have hadmitted : (o.next (.turn i env)).admitted id ≤ o.admitted id + 1 := by
        simp only [Watched.next]
        split <;> omega
      omega
  · refine ⟨returning, fun j => (hmem j).trans ?_, ?_⟩
    · by_cases hj : j = i
      · subst hj
        refine iff_of_false (fun hj => hid (Option.some.inj (hj.symm.trans before))) ?_
        simp only [Watched.next, after]
        simp
      · simp only [Watched.next, hothers j hj]
    · have hadmitted : (o.next (.turn i env)).admitted id = o.admitted id := by
        simp [Watched.next, before, Ne.symm hid]
      omega

/-- A step that meets the condition keeps the count. -/
theorem Counted.next {o : Watched ι} {a : Act ι} (h : Counted o) (hsound : o.world.Sound)
    (hopen : o.StillOpen a) : Counted (o.next a) := by
  have hmoves := moves_of_stillOpen hsound hopen
  cases a with
  | verb | mark => exact h.frame (fun _ => rfl) fun _ => rfl
  | registerAttendee i barcode eventId actor =>
    refine h.frame (fun j => ?_) fun _ => rfl
    simp only [World.next]
    split
    · rfl
    · next hidle =>
      simp only
      by_cases hj : j = i
      · subst hj
        rw [Function.update_self]
        cases hdesk : o.world.desks j with
        | idle | returned => rfl
        | scanning => simp [hdesk, Desk.isScanning] at hidle
      · rw [Function.update_of_ne hj]
  | turn i env =>
    have hframe : (o.world.desks i).refreshes = none →
        ((o.world.next (.turn i env)).desks i).refreshes = none → Counted (o.next (.turn i env)) := by
      intro hbefore hafter
      refine h.frame (fun j => ?_) fun id => by simp [Watched.next, hbefore]
      by_cases hj : j = i
      · subst hj
        rw [hafter, hbefore]
      · simp only [World.next]
        rw [Function.update_of_ne hj]
    have hnext : (o.world.next (.turn i env)).desks i =
        ((o.world.desks i).turn env o.world.db).2 := Function.update_self ..
    have hdb : (o.world.next (.turn i env)).db = ((o.world.desks i).turn env o.world.db).1 := rfl
    cases hdesk : o.world.desks i with
    | idle => exact hframe (by rw [hdesk]; rfl) (by rw [hnext, hdesk]; rfl)
    | returned => exact hframe (by rw [hdesk]; rfl) (by rw [hnext, hdesk]; rfl)
    | scanning barcode eventId actor point =>
      cases point with
      | lookup | event =>
        refine hframe (by rw [hdesk]; rfl) ?_
        rw [hnext, hdesk]
        simp only [Desk.turn, Point.turn]
        split <;> rfl
      | refresh rid before after =>
        refine h.returned rid (by rw [hdesk]; rfl) ?_ ?_
        · rw [hdb, hdesk]
          exact turn_reads rfl
        · rw [hnext, hdesk]
          simp only [Desk.turn, Point.turn]
          split <;> rfl
      | write reg =>
        cases hafter : ((o.world.next (.turn i env)).desks i).refreshes with
        | none => exact hframe (by rw [hdesk]; rfl) hafter
        | some id =>
          have hid : id = reg.id := by
            rw [hnext, hdesk] at hafter
            simp only [Desk.turn] at hafter
            rcases write_cases o.world.db env barcode eventId reg actor with
              ⟨rows, e, heq, -⟩ | ⟨rows, r, -, -, heq⟩
            · rw [heq] at hafter
              cases hafter
            · rw [heq] at hafter
              exact (Option.some.inj hafter).symm
          subst hid
          obtain ⟨r, hr, hsame, -, hopen, hrows⟩ :=
            hmoves (eventId, reg, actor) (by rw [hdesk]; rfl) hafter
          exact h.moved hdesk hr hsame hopen hrows hafter

omit [DecidableEq ι] in
theorem sound_start (s : Db) : (Watched.start s : Watched ι).world.Sound := fun _ => trivial

/-- The desks admit a ticket once, and move open rows alone, exactly in the runs whose
writing scans find their rows still open. -/
theorem admitsOnce_iff_stillOpen (s : Db) (acts : List (Act ι)) :
    (Along Watched.next Watched.Moves (Watched.start s) acts ∧
      Throughout Watched.next Watched.AdmitsOnce (Watched.start s) acts) ↔
    Along Watched.next Watched.StillOpen (Watched.start s) acts := by
  constructor
  · rintro ⟨hmoves, -⟩
    exact hmoves.mono fun _ _ => stillOpen_of_moves
  · intro h
    constructor
    · exact h.mono_within (sound_start s) (fun o a hsound => hsound.next a)
        fun o a hsound hopen => moves_of_stillOpen hsound hopen
    · have hcounted : Throughout Watched.next (fun o : Watched ι => Counted o ∧ o.world.Sound)
          (Watched.start s) acts :=
        h.throughout ⟨counted_start s, sound_start s⟩ fun o a hinv hopen =>
          ⟨hinv.1.next hinv.2 hopen, hinv.2.next a⟩
      exact hcounted.mono fun o hinv => hinv.1.admitsOnce

end runs

section samples

/-- Two desks scan one open ticket. -/
def twoScans : List (Act (Fin 2)) :=
  [.verb (.register (.counting 1) ann), .registerAttendee 0 "1" 1 none,
    .registerAttendee 1 " 1 " 1 none, .turn 0 (.counting 2), .turn 1 (.counting 2),
    .turn 0 (.counting 2), .turn 1 (.counting 2), .turn 0 (.counting 2), .turn 1 (.counting 2),
    .turn 0 (.counting 2), .turn 1 (.counting 2)]

/-- Both read it open, and both are answered Ok. -/
theorem twoScans_admitTwice :
    ¬ (Along Watched.next Watched.Moves (Watched.start openGig) twoScans ∧
      Throughout Watched.next Watched.AdmitsOnce (Watched.start openGig) twoScans) := fun h =>
  absurd (h.2.last 1) (by decide)

end samples

end BackboneEvents.DeskService
