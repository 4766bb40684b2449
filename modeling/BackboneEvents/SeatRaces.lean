import Mathlib.Data.Fintype.Card
import BackboneEvents.AuditTruth
import BackboneEvents.LockedCommits
import BackboneEvents.SeatCapacity

/-!
# Races for the last seats

Registrations and verbs that take a seat of one counting scope run interleaved. A registration
locks the event before it does anything; a verb writes its own row first, and counts the others
under the lock. Either way the count under the lock is that of the committed rows, so the calls
are seated one after the other until the cap is reached, and the others are refused.
-/
namespace BackboneEvents.SeatRaces
open ConstrainedTables TransactionPrograms TransactionInterleavings LockedCommits AuditTruth
  SeatCapacity

/-- A registration, or a verb on the row `r`. -/
inductive SeatCall where
  | register (env : Env) (cmd : RegisterCommand)
  | transition (env : Env) (r : Registration) (target : RegistrationState) (actor : Option Uuid)

namespace SeatCall

def call : SeatCall → Call
  | register env cmd => .register env cmd
  | transition env r target actor => .transition env r.id target actor

/-- The id of the row that gets the seat. -/
def row : SeatCall → Uuid
  | register env _ => (env.draw 0).id
  | transition _ r _ _ => r.id

/-- The barcode minted for it. -/
def barcode? : SeatCall → Option String
  | register env _ => some (mintBarcode (env.draw 0).bytes)
  | transition _ _ _ _ => none

end SeatCall

/-- On this database the call passes every check, the count of the scope apart. -/
inductive Contends (event : Event) (slotId : Option Uuid) (s : Db) : SeatCall → Prop
  | register {env : Env} {cmd : RegisterCommand}
      (admitted : Admitted s (env.draw 0) cmd event slotId)
      (fits : insertable s env (bornRow env (env.draw 0) cmd none event slotId s.orgAxis) = true) :
      Contends event slotId s (.register env cmd)
  | transition {env : Env} {r : Registration} {target : RegistrationState} {actor : Option Uuid}
      (found : s.event? r.eventId = some event) (stored : s.registration? r.id = some r)
      (scope : r.eventSlotId = slotId) (seat : takesSeat r target = true) :
      Contends event slotId s (.transition env r target actor)

/-- They seat different rows, under different barcodes. -/
structure Apart (c d : SeatCall) : Prop where
  rows : c.row ≠ d.row
  barcodes : ∀ text, c.barcode? = some text → d.barcode? ≠ some text

/-- The database after the call got its seat. -/
def seated (event : Event) (slotId : Option Uuid) (s : Db) : SeatCall → Db
  | .register env cmd =>
    s.registered env cmd false (bornRow env (env.draw 0) cmd none event slotId s.orgAxis)
  | .transition env r target actor => s.transitioned env r target actor

section call

variable {event : Event} {slotId : Option Uuid} {s t : Db} {c d : SeatCall}

theorem event_id {eventId : Uuid} (h : s.event? eventId = some event) : event.id = eventId := by
  simpa using Table.find_spec h

/-- Alone the call gets its seat when one is free. -/
theorem run_contends (h : Contends event slotId s c) : ∃ a, c.call.program.run s =
    if event.exhausted (s.taken event.id slotId) then .error (.eventSeatsExhausted event.id)
    else .ok (a, seated event slotId s c) := by
  cases h with
  | @register env cmd admitted fits =>
    have hrun := @run_registerCore_of_admitted env _ _ none _ _ _ admitted
    rw [if_pos fits] at hrun
    rw [event_id admitted.found]
    refine ⟨.registered (bornRow env (env.draw 0) cmd none event slotId s.orgAxis), ?_⟩
    simp only [SeatCall.call, Call.program, BackboneEvents.register, Program.bind_eq, Program.run_bind,
      hrun]
    split <;> rfl
  | @transition env r target actor found stored scope seat =>
    have hrun := run_transition_some env target actor stored
    rw [if_pos seat, found] at hrun
    rw [event_id found, ← scope]
    refine ⟨.moved r.state target r.active, ?_⟩
    simp only [SeatCall.call, Call.program, Program.bind_eq, Program.run_bind, hrun]
    split <;> rfl

/-- A seat given is a seat taken. -/
theorem taken_seated (h : Contends event slotId s c) :
    (seated event slotId s c).taken event.id slotId = s.taken event.id slotId + 1 := by
  cases h with
  | @register env cmd admitted fits =>
    rw [seated, taken_registered (accepts_of_insertable fits), countingScope_bornRow,
      event_id admitted.found]
    cases slotId <;> simp
  | @transition env r target actor found stored scope seat =>
    rw [seated, taken_transitioned_of_takesSeat (registration?_mem stored).1 seat, event_id found,
      ← scope]
    cases hslot : r.eventSlotId <;> simp [bookedIn, hslot]

/-- The id and the barcode of the row a registration stages are the call's own. -/
theorem Apart.clash_false (h : Apart c d) {env : Env} {cmd : RegisterCommand} {env' : Env}
    {cmd' : RegisterCommand} (hc : c = .register env cmd) (hd : d = .register env' cmd')
    (event' : Event) (slotId' : Option Uuid) (orgAxis orgAxis' : Bool) :
    clash (bornRow env' (env'.draw 0) cmd' none event' slotId' orgAxis')
      (bornRow env (env.draw 0) cmd none event slotId orgAxis) = false := by
  subst hc hd
  have hrows := h.rows
  have hbarcodes := h.barcodes _ rfl
  simp only [SeatCall.row, SeatCall.barcode?, ne_eq, Option.some.injEq] at hrows hbarcodes
  simp [clash, bornRow, Ne.symm hrows, hbarcodes]

/-- A call seated leaves the checks of the others as they were. -/
theorem Contends.seated (hc : Contends event slotId s c) (hd : Contends event slotId s d)
    (hcd : Apart c d) : Contends event slotId (seated event slotId s d) c := by
  cases hc with
  | @register env cmd admitted fits =>
    simp only [insertable, Bool.and_eq_true] at fits
    obtain ⟨⟨hbelongs, hchecks⟩, haccepts⟩ := fits
    have hborn : (SeatRaces.seated event slotId s d).registrations.accepts
        (bornRow env (env.draw 0) cmd none event slotId s.orgAxis) = true := by
      rw [Table.accepts_iff] at haccepts ⊢
      cases hd with
      | @register env' cmd' admitted' fits' =>
        intro x hx
        rw [SeatRaces.seated, Db.registered, Table.rows_push (accepts_of_insertable fits')] at hx
        rcases List.mem_append.mp hx with hx | hx
        · exact haccepts x hx
        · rw [List.mem_singleton.mp hx]
          exact hcd.clash_false rfl rfl _ _ _ _
      | @transition env' r target actor found stored scope seat =>
        intro x hx
        obtain ⟨y, hy, rfl⟩ := Table.mem_modify.mp hx
        split
        · rw [(Registration.moved env'.now target).keeps]
          exact haccepts y hy
        · exact haccepts y hy
    have hfits : insertable (SeatRaces.seated event slotId s d) env
        (bornRow env (env.draw 0) cmd none event slotId s.orgAxis) = true := by
      simp only [insertable, Bool.and_eq_true]
      refine ⟨⟨?_, hchecks⟩, hborn⟩
      cases hd <;> exact hbelongs
    cases hd <;> exact .register ⟨admitted.found, admitted.notCancelled, admitted.slot,
      admitted.ticket⟩ hfits
  | @transition env r target actor found stored scope seat =>
    have hstored : (SeatRaces.seated event slotId s d).registration? r.id = some r := by
      cases hd with
      | @register env' cmd' admitted' fits' =>
        rw [Db.registration?, Table.find] at stored
        rw [Db.registration?, SeatRaces.seated, Db.registered, Table.find,
          Table.rows_push (accepts_of_insertable fits'), List.find?_append, stored, Option.some_or]
      | @transition env' q target' actor' found' stored' scope' seat' =>
        have hmodify := registration?_modify (f := Registration.moved env'.now target') r.id
          (registration?_mem stored').1 fun _ => rfl
        exact (hmodify.trans (if_neg hcd.rows)).trans stored
    cases hd <;> exact .transition found hstored scope seat

theorem Contends.audited (h : Contends event slotId s c) (rows : List AuditRow) :
    Contends event slotId (s.audited rows) c := by
  cases h with
  | register admitted fits =>
    exact .register ⟨admitted.found, admitted.notCancelled, admitted.slot, admitted.ticket⟩ fits
  | transition found stored scope seat => exact .transition found stored scope seat

end call

section programs

variable {event : Event} {slotId : Option Uuid} {s : Db} {c : SeatCall}

theorem silent_program (c : SeatCall) : c.call.program.Silent := by
  cases c with
  | register env cmd => exact (silent_registerCore _ _ _ _).bind fun _ => trivial
  | transition env r target actor => exact (silent_transition _ _ _ _).bind fun _ => trivial

/-- The lock statement on the event takes the event's lock. -/
theorem event_mem_locks {t : Db} {eventId : Uuid} (h : t.event? eventId = some event) :
    Lock.event event.id ∈ if (t.event? eventId).isSome then [Lock.event eventId] else [] := by
  rw [h, event_id h]
  exact List.mem_singleton_self _

/-- Whatever the others have committed, a call comes to the event's lock as on its first view. -/
theorem heads_program (h : Contends event slotId s c) :
    Heads (.event event.id) (fun t => Contends event slotId t c) id c.call.program := by
  cases h with
  | @register env cmd admitted fits =>
    refine .takes fun t ht => ?_
    cases ht with
    | register admitted fits => exact event_mem_locks admitted.found
  | @transition env r target actor found stored scope seat =>
    have hcontends : ∀ {t}, Contends event slotId t (.transition env r target actor) →
        t.event? r.eventId = some event ∧ t.registration? r.id = some r := by
      intro t ht
      cases ht with
      | transition found stored scope seat => exact ⟨found, stored⟩
    have hpin : ∀ {t}, Contends event slotId t (.transition env r target actor) →
        t.registrations.matched (·.id == r.id) = clash r := by
      intro t ht
      have hr := (registration?_mem (hcontends ht).2).1
      exact Table.matched_pinned hr fun x hx =>
        ⟨fun h => registration_eq_of_id hx hr (by simpa using h), fun h => by simp [h]⟩
    have hwrites : ∀ v t, Contends event slotId v (.transition env r target actor) →
        Contends event slotId t (.transition env r target actor) →
        ({ t with
          registrations := t.registrations.modify (v.registrations.matched (·.id == r.id))
            (Registration.moved env.now target) } : Db) = t.moved env.now r.id target := by
      intro v t hv ht
      rw [hpin hv, ← hpin ht, Table.modify_matched_self, Db.moved]
    simp only [SeatCall.call, Call.program, BackboneEvents.transition, moveState, Program.bind_eq,
      Program.bind_assoc]
    refine Heads.update (fun t ht => (hcontends ht).2) hwrites ?_
    simp only [Program.require, Program.bind, seat, Program.onlyIf, if_true, seatHead, Program.bind_eq,
      Program.bind_assoc]
    refine Heads.select (fun t ht => registration?_moved (hcontends ht).2 env.now target) ?_
    exact .takes fun t ht => event_mem_locks (hcontends ht).1

end programs

/-- The call's row is stored and counted in the scope. -/
def HoldsSeat (event : Event) (slotId : Option Uuid) (s : Db) (c : SeatCall) : Prop :=
  ∃ r ∈ s.registrations.rows, r.id = c.row ∧ countingScope event.id slotId r = true

section seats

variable {event : Event} {slotId : Option Uuid} {s : Db} {c d : SeatCall}

theorem holdsSeat_seated (h : Contends event slotId s c) :
    HoldsSeat event slotId (seated event slotId s c) c := by
  cases h with
  | @register env cmd admitted fits =>
    refine ⟨bornRow env (env.draw 0) cmd none event slotId s.orgAxis, ?_, rfl, ?_⟩
    · rw [seated, Db.registered, Table.rows_push (accepts_of_insertable fits)]
      exact List.mem_append_right _ (List.mem_singleton_self _)
    · rw [countingScope_registered, event_id admitted.found]
      cases slotId <;> simp
  | @transition env r target actor found stored scope seat =>
    refine ⟨Registration.moved env.now target r,
      Table.mem_modify.mpr ⟨r, (registration?_mem stored).1, by simp⟩, rfl, ?_⟩
    simp only [takesSeat, Bool.and_eq_true] at seat
    rw [countingScope_eq, event_id found, ← scope]
    cases hslot : r.eventSlotId <;> simp [bookedIn, Registration.eligible, hslot, seat.1.1, seat.1.2]

theorem HoldsSeat.seated (h : HoldsSeat event slotId s c) (hd : Contends event slotId s d)
    (hcd : Apart c d) : HoldsSeat event slotId (seated event slotId s d) c := by
  obtain ⟨r, hr, hid, hcounted⟩ := h
  cases hd with
  | @register env cmd admitted fits => exact ⟨r, Table.mem_push hr, hid, hcounted⟩
  | @transition env q target actor found stored scope seat =>
    refine ⟨r, Table.mem_modify.mpr ⟨r, hr, if_neg ?_⟩, hid, hcounted⟩
    rw [beq_iff_eq, hid]
    exact hcd.rows

/-- A call whose checks still pass has no seat yet. -/
theorem Contends.not_holdsSeat (h : Contends event slotId s c) : ¬ HoldsSeat event slotId s c := by
  rintro ⟨x, hx, hid, hcounted⟩
  cases h with
  | @register env cmd admitted fits =>
    have hclash := Table.accepts_iff.mp (accepts_of_insertable fits) x hx
    simp only [clash, bornRow, Bool.or_eq_false_iff, beq_eq_false_iff_ne] at hclash
    exact hclash.1 hid
  | @transition env r target actor found stored scope seat =>
    obtain rfl := registration_eq_of_id hx (registration?_mem stored).1 hid
    simp only [takesSeat, Bool.and_eq_true] at seat
    rw [countingScope_outside seat.2] at hcounted
    cases hcounted

theorem execute_full (h : Contends event slotId s c)
    (hfull : event.exhausted (s.taken event.id slotId) = true) :
    c.call.program.execute Db.absorb s = (.error (.eventSeatsExhausted event.id), s) := by
  obtain ⟨a, hrun⟩ := run_contends h
  rw [if_pos hfull] at hrun
  rw [execute_error hrun, (silent_program c).notes_eq_nil]
  exact congrArg _ (foldl_absorb s []).symm

theorem execute_free (h : Contends event slotId s c)
    (hfree : event.exhausted (s.taken event.id slotId) = false) :
    ∃ a rows, c.call.program.execute Db.absorb s =
      (.ok a, (seated event slotId s c).audited rows) := by
  obtain ⟨a, hrun⟩ := run_contends h
  rw [hfree] at hrun
  exact ⟨a, _, execute_ok hrun⟩

/-- A call that commits found a seat free and took it. -/
theorem seated_of_execute (h : Contends event slotId s c) {a : Answer} {t : Db}
    (hexecute : c.call.program.execute Db.absorb s = (.ok a, t)) :
    event.exhausted (s.taken event.id slotId) = false ∧
      ∃ rows, t = (seated event slotId s c).audited rows := by
  cases hfull : event.exhausted (s.taken event.id slotId) with
  | true =>
    rw [execute_full h hfull] at hexecute
    cases hexecute
  | false =>
    obtain ⟨b, rows, hok⟩ := execute_free h hfull
    rw [hok] at hexecute
    exact ⟨rfl, rows, (Prod.mk.inj hexecute).2.symm⟩

end seats

section race

variable {ι : Type} {event : Event} {slotId : Option Uuid} {s t : Db} {calls : ι → SeatCall}
  {order : List ι}

/-- A call seated leaves the others their checks. -/
theorem contends_execute (hapart : ∀ i j, i ≠ j → Apart (calls i) (calls j)) (i j : ι) (t u : Db)
    (a : Answer) (hij : i ≠ j) (hi : Contends event slotId t (calls i))
    (hj : Contends event slotId t (calls j))
    (h : (calls j).call.program.execute Db.absorb t = (.ok a, u)) :
    Contends event slotId u (calls i) := by
  obtain ⟨-, rows, rfl⟩ := seated_of_execute hj h
  exact (hi.seated hj (hapart i j hij)).audited rows

theorem history_applyAll
    (h : History Db.absorb (fun i => (calls i).call.program) s order t) :
    t = s.applyAll (order.map fun i => (calls i).call) := by
  induction h with
  | nil => rfl
  | snoc before commits ih =>
    rw [List.map_append, applyAll_append, ← ih]
    exact (congrArg Prod.snd commits).symm

/-- Seated one after the other, within the cap. -/
structure Seated (event : Event) (slotId : Option Uuid) (s : Db) (calls : ι → SeatCall)
    (order : List ι) (t : Db) : Prop where
  taken : t.taken event.id slotId = s.taken event.id slotId + order.length
  capped : (t.taken event.id slotId : ℤ) ≤ event.seatsMax
  hold : ∀ i ∈ order, HoldsSeat event slotId t (calls i)

theorem seated_history (hcap : Capped event)
    (hfits : (s.taken event.id slotId : ℤ) ≤ event.seatsMax)
    (hcontends : ∀ i, Contends event slotId s (calls i))
    (hapart : ∀ i j, i ≠ j → Apart (calls i) (calls j))
    (h : History Db.absorb (fun i => (calls i).call.program) s order t) (hnodup : order.Nodup) :
    Seated event slotId s calls order t := by
  induction h with
  | nil => exact ⟨rfl, hfits, fun i hi => absurd hi List.not_mem_nil⟩
  | @snoc order t u j a before commits ih =>
    obtain ⟨hnodup', -, hfresh⟩ := List.nodup_append.mp hnodup
    have hj : j ∉ order := fun hj => hfresh j hj j (List.mem_singleton_self j) rfl
    have hcontendsj := before.keeps hcontends (contends_execute hapart) hnodup' j hj
    obtain ⟨htaken, hcapped, hhold⟩ := ih hnodup'
    obtain ⟨hfree, rows, rfl⟩ := seated_of_execute hcontendsj commits
    have hgrown : ((seated event slotId t (calls j)).audited rows).taken event.id slotId =
      t.taken event.id slotId + 1 := taken_seated hcontendsj
    refine ⟨?_, ?_, fun i hi => ?_⟩
    · rw [hgrown, htaken, List.length_append, List.length_singleton, Nat.add_assoc]
    · simp only [Event.exhausted, hcap.1, hcap.2, decide_true, Bool.true_and,
        decide_eq_false_iff_not, not_le] at hfree
      rw [hgrown]
      push_cast
      omega
    · rcases List.mem_append.mp hi with hi | hi
      · exact (hhold i hi).seated hcontendsj (hapart i j fun hij => hj (hij ▸ hi))
      · rw [List.mem_singleton.mp hi]
        exact holdsSeat_seated hcontendsj

end race

abbrev SeatWorld (ι : Type) := TransactionInterleavings.World ι Db Lock AuditRow EventError Answer

/-- The sessions after a schedule of their steps. -/
def race {ι : Type} [Fintype ι] [DecidableEq ι] (calls : ι → SeatCall) (s : Db)
    (schedule : List ι) : SeatWorld ι :=
  schedule.foldl (World.step Db.absorb) (start s fun i => (calls i).call.program)

def Committed {ι : Type} (w : SeatWorld ι) (i : ι) : Prop :=
  ∃ a, (w.sessions i).phase = .committed a

instance {ι : Type} (w : SeatWorld ι) (i : ι) : Decidable (Committed w i) :=
  inferInstanceAs (Decidable (∃ a, (w.sessions i).phase = .committed a))

/-- The calls in `order` have committed, one after the other, each with its seat; the others are
refused and have none, and nothing else has changed the database. -/
structure Allotted {ι : Type} (event : Event) (slotId : Option Uuid) (s : Db)
    (calls : ι → SeatCall) (w : SeatWorld ι) (order : List ι) : Prop where
  nodup : order.Nodup
  committed : ∀ i, Committed w i ↔ i ∈ order
  changes : w.committed = s.applyAll (order.map fun i => (calls i).call)
  hold : ∀ i, Committed w i ↔ HoldsSeat event slotId w.committed (calls i)
  refused : ∀ i, ¬ Committed w i →
    (w.sessions i).phase = .rolledBack (.eventSeatsExhausted event.id)

section settled

variable {ι : Type} {event : Event} {slotId : Option Uuid} {s : Db} {calls : ι → SeatCall}
  {order : List ι} {w : SeatWorld ι}

/-- A refused call found the cap reached. -/
theorem refused_full (hcap : Capped event)
    (hfits : (s.taken event.id slotId : ℤ) ≤ event.seatsMax)
    (hcontends : ∀ i, Contends event slotId s (calls i))
    (hapart : ∀ i j, i ≠ j → Apart (calls i) (calls j))
    (h : Sequential (.event event.id) (fun i t => Contends event slotId t (calls i)) Db.absorb
      (fun i => (calls i).call.program) s w order) {i : ι} {e : EventError}
    (hi : (w.sessions i).phase = .rolledBack e) :
    e = .eventSeatsExhausted event.id ∧
      event.seatsMax ≤ (s.taken event.id slotId + order.length : ℕ) := by
  obtain ⟨before, after, t, rfl, hbefore, hcontendsi, hexecute⟩ := h.refused i e hi
  have hseated := seated_history hcap hfits hcontends hapart hbefore h.nodup.of_append_left
  cases hfull : event.exhausted (t.taken event.id slotId) with
  | false =>
    obtain ⟨a, rows, hok⟩ := execute_free hcontendsi hfull
    rw [hok] at hexecute
    cases hexecute
  | true =>
    rw [execute_full hcontendsi hfull] at hexecute
    simp only [Event.exhausted, hcap.1, hcap.2, decide_true, Bool.true_and, decide_eq_true_eq,
      hseated.taken] at hfull
    refine ⟨by simpa using (Prod.mk.inj hexecute).1.symm, hfull.trans ?_⟩
    rw [List.length_append]
    omega

variable [Fintype ι] [DecidableEq ι]

/-- When as many seats are free as there are calls all are seated, else the free seats are taken. -/
theorem race_for_seats (hcap : Capped event)
    (hfits : (s.taken event.id slotId : ℤ) ≤ event.seatsMax)
    (hcontends : ∀ i, Contends event slotId s (calls i))
    (hapart : ∀ i j, i ≠ j → Apart (calls i) (calls j)) (schedule : List ι)
    (hfinished : ∀ i, ¬ ∃ p, ((race calls s schedule).sessions i).phase = .running p) :
    (Finset.univ.filter (Committed (race calls s schedule))).card =
        min (Fintype.card ι) (event.seatsMax.toNat - s.taken event.id slotId) ∧
      (race calls s schedule).committed.taken event.id slotId =
        s.taken event.id slotId +
          min (Fintype.card ι) (event.seatsMax.toNat - s.taken event.id slotId) ∧
      ∃ order, Allotted event slotId s calls (race calls s schedule) order := by
  obtain ⟨order, h⟩ : ∃ order, Sequential (.event event.id)
      (fun i t => Contends event slotId t (calls i)) Db.absorb (fun i => (calls i).call.program) s
      (race calls s schedule) order :=
    exists_sequential hcontends (fun i => silent_program _) (fun i => heads_program (hcontends i))
      (contends_execute hapart) schedule
  generalize race calls s schedule = w at h hfinished ⊢
  have hseated := seated_history hcap hfits hcontends hapart h.history h.nodup
  have hcommitted : ∀ i, Committed w i ↔ i ∈ order := fun i => (h.committed i).symm
  have hcontends' := h.history.keeps hcontends (contends_execute hapart) h.nodup
  have hover : ∀ i, i ∉ order → ∃ e, (w.sessions i).phase = .rolledBack e := by
    intro i hi
    cases hphase : (w.sessions i).phase with
    | running p => exact absurd ⟨p, hphase⟩ (hfinished i)
    | committed a => exact absurd ((h.committed i).mpr ⟨a, hphase⟩) hi
    | rolledBack e => exact ⟨e, rfl⟩
  have hlength : order.length =
      min (Fintype.card ι) (event.seatsMax.toNat - s.taken event.id slotId) := by
    have hcapped := hseated.capped
    rw [hseated.taken] at hcapped
    have hcard : order.length ≤ Fintype.card ι := h.nodup.length_le_card
    by_cases hall : ∀ i, i ∈ order
    · have hfull : Fintype.card ι ≤ order.length := calc
        Fintype.card ι = (Finset.univ : Finset ι).card := Finset.card_univ.symm
        _ ≤ order.toFinset.card := Finset.card_le_card fun i _ => List.mem_toFinset.mpr (hall i)
        _ ≤ order.length := order.toFinset_card_le
      omega
    · obtain ⟨i, hi⟩ := not_forall.mp hall
      obtain ⟨e, he⟩ := hover i hi
      have hreached := (refused_full hcap hfits hcontends hapart h he).2
      omega
  refine ⟨?_, hlength ▸ hseated.taken, order, h.nodup, hcommitted, history_applyAll h.history,
    fun i => ?_, fun i hi => ?_⟩
  · rw [← hlength, ← List.toFinset_card_of_nodup h.nodup]
    congr 1
    ext i
    simp [hcommitted]
  · rw [hcommitted]
    exact ⟨hseated.hold i, fun hseat => by_contra fun hi => (hcontends' i hi).not_holdsSeat hseat⟩
  · obtain ⟨e, he⟩ := hover i fun hmem => hi ((hcommitted i).mpr hmem)
    rw [he, (refused_full hcap hfits hcontends hapart h he).1]

end settled

section sample

/-- Another attendee's row on the event, not confirmed yet. -/
def draftRow : Registration :=
  { bornRow (.counting 7) ⟨7, 7, 0⟩ ann none gig none false with state := .draft }

def lastSeat : Db := { oneSeat with registrations := Table.empty.push draftRow }

/-- A registration and a verb race for the one seat. -/
def twoForOne : Fin 2 → SeatCall
  | 0 => .register (.counting 8) ann
  | 1 => .transition (.counting 9) draftRow .done none

/-- The verb writes its row first, and waits while the registration holds the event. -/
def crossed : List (Fin 2) :=
  [1, 1] ++ List.replicate 4 0 ++ [1] ++ List.replicate 8 0 ++ List.replicate 5 1

theorem race_for_seats_twoForOne :
    (Finset.univ.filter (Committed (race twoForOne lastSeat crossed))).card = 1 ∧
      (race twoForOne lastSeat crossed).committed.taken 1 none = 1 := by
  have hregister : Contends gig none lastSeat (twoForOne 0) :=
    .register ⟨by decide, by decide, rfl, rfl⟩ (by decide)
  have htransition : Contends gig none lastSeat (twoForOne 1) :=
    .transition (by decide) (by decide) rfl (by decide)
  have hapart : ∀ i j, i ≠ j → Apart (twoForOne i) (twoForOne j) := by
    rw [Fin.forall_fin_two, Fin.forall_fin_two, Fin.forall_fin_two]
    refine ⟨⟨fun h => absurd rfl h, fun _ => ⟨by decide, by simp [twoForOne, SeatCall.barcode?]⟩⟩,
      ⟨fun _ => ⟨by decide, by simp [twoForOne, SeatCall.barcode?]⟩, fun h => absurd rfl h⟩⟩
  have hrace := race_for_seats ⟨rfl, by decide⟩ (by decide)
    (Fin.forall_fin_two.mpr ⟨hregister, htransition⟩) hapart crossed (by decide)
  exact ⟨hrace.1, hrace.2.1⟩

end sample

end BackboneEvents.SeatRaces
