import BackboneEvents.AuditTruth
import BackboneEvents.KeptLocks
import BackboneEvents.RegistrationLives
import BackboneEvents.SeatCapacity
import BackboneEvents.SeatLocks

/-!
# Seat verbs one after the other

Registrations, state verbs and partner syncs run interleaved, a statement at a time. The lock of an
event guards its seats: while it is held no seat is taken, though some may be given back by verbs
that take no seat. The lock of a registration guards its row, and the keys of an insert that no one
else stores them. Nothing else that these verbs read changes, so the run is a serial one.
-/
namespace BackboneEvents.SerialSeats
open AuditTruth ConstrainedTables KeptLocks SeatCapacity SeatLocks TransactionInterleavings
  TransactionPrograms

/-- What the holder of a lock counts on. -/
def guarded : Lock → Db → Db → Prop
  | .event eventId, s, t => ∀ slotId, t.taken eventId slotId ≤ s.taken eventId slotId
  | .registration id, s, t => t.registration? id = s.registration? id
  | .barcode text, s, t => t.registrations.rows.any (·.barcode == text) =
      s.registrations.rows.any (·.barcode == text)
  | .slot _, _, _ | .mail _, _, _ | .inbox _ _, _, _ | .booth _, _, _ | .booking _, _, _
  | .bookingLine _ _, _, _ | .confirmedBooking _, _, _ | .leadRequest _, _, _ => True

def guards : Guards Lock Db where
  rel := guarded
  refl l s := by cases l <;> simp [guarded]
  trans {l s t u} h h' := by
    cases l with
    | event eventId => exact fun slotId => (h' slotId).trans (h slotId)
    | registration id => exact Eq.trans h' h
    | barcode text => exact Eq.trans h' h
    | slot | mail | inbox | booth | booking | bookingLine | confirmedBooking | leadRequest => trivial

/-- What none of the verbs changes. -/
structure Steady (s t : Db) : Prop where
  events : t.events = s.events
  slots : t.slots = s.slots
  tickets : t.tickets = s.tickets
  leadRules : t.leadRules = s.leadRules
  orgAxis : t.orgAxis = s.orgAxis
  mails : t.mails.rows.map mailKey = s.mails.rows.map mailKey

section steady

variable {s t : Db}

theorem Steady.event? (h : Steady s t) (id : Uuid) : t.event? id = s.event? id := by
  rw [Db.event?, Db.event?, h.events]

theorem Steady.slotOf (h : Steady s t) (slot id : Uuid) : t.slotOf slot id = s.slotOf slot id := by
  rw [Db.slotOf, Db.slotOf, h.slots]

theorem Steady.ticketOf (h : Steady s t) (ticket id : Uuid) :
    t.ticketOf ticket id = s.ticketOf ticket id := by
  rw [Db.ticketOf, Db.ticketOf, h.tickets]

theorem Steady.fires (h : Steady s t) (eventId : Uuid) (trigger : LeadRule → Bool) :
    t.fires eventId trigger = s.fires eventId trigger := by
  rw [Db.fires, Db.fires, h.leadRules]

theorem Steady.belongs (h : Steady s t) (r : Registration) :
    assertRegistrationBelonging t r = assertRegistrationBelonging s r := by
  simp only [assertRegistrationBelonging, h.event?, h.slotOf, h.ticketOf]

/-- Which schedulers an arm meets does not change. -/
theorem Steady.matched (h : Steady s t) (events : Uuid → Bool) :
    t.mails.matched (afterSubOf events) = s.mails.matched (afterSubOf events) := by
  have hkeys : ∀ u : Db, u.mails.matched (afterSubOf events) = fun m =>
      (u.mails.rows.map mailKey).any fun k => k.1 == m.id && (events k.2.1 && k.2.2 == .afterSub) := by
    intro u
    funext m
    rw [List.any_map]
    rfl
  rw [hkeys, hkeys, h.mails]

theorem Steady.armedLocks (h : Steady s t) (events : Uuid → Bool) :
    (t.mails.rows.filter (afterSubOf events)).map (fun m => Lock.mail m.id) =
      (s.mails.rows.filter (afterSubOf events)).map fun m => Lock.mail m.id := by
  have hkeys : ∀ u : Db, (u.mails.rows.filter (afterSubOf events)).map (fun m => Lock.mail m.id) =
      ((u.mails.rows.map mailKey).filter fun k => events k.2.1 && k.2.2 == .afterSub).map
        fun k => Lock.mail k.1 := by
    intro u
    rw [List.filter_map, List.map_map]
    rfl
  rw [hkeys, hkeys, h.mails]

end steady

/-- The row of the id, changed. -/
def touch (id : Uuid) (f : Update Registration) (s : Db) : Db :=
  { s with registrations := s.registrations.modify (·.id == id) f }

section rows

variable {s t v : Db} {id : Uuid} {f : Update Registration} {r row : Registration} {l : Lock}

theorem pinned (hr : s.registration? id = some r) :
    ∀ x ∈ s.registrations.rows, (x.id == id) = true ↔ x = r := by
  obtain ⟨hmem, hid⟩ := registration?_mem hr
  intro x hx
  rw [beq_iff_eq]
  exact ⟨fun h => registration_eq_of_id hx hmem (h.trans hid.symm), fun h => h ▸ hid⟩

theorem unstored (h : s.registration? id = none) :
    ∀ x ∈ s.registrations.rows, (x.id == id) = false := by
  intro x hx
  simpa using List.find?_eq_none.mp h x hx

theorem touch_of_none (h : s.registration? id = none) : touch id f s = s := by
  rw [touch, Table.modify_eq_self (unstored h)]

/-- A row that is stored alike in both is met alike. -/
theorem touch_matched (h : s.registration? id = v.registration? id) :
    ({ s with registrations :=
      s.registrations.modify (v.registrations.matched (·.id == id)) f } : Db) = touch id f s := by
  have hrows : ∀ x ∈ s.registrations.rows,
      v.registrations.matched (·.id == id) x = (x.id == id) := by
    intro x hx
    cases hv : v.registration? id with
    | none =>
      rw [unstored (h.trans hv) x hx, Table.matched, List.any_eq_false]
      intro y hy
      rw [unstored hv y hy, Bool.and_false]
      exact Bool.false_ne_true
    | some r =>
      rw [Table.matched_pinned (registration?_mem hv).1 (pinned hv)]
      refine Bool.eq_iff_iff.mpr
        ((pinned (h.trans hv) x hx).trans ⟨fun hxr => ?_, fun hclash => ?_⟩).symm
      · rw [hxr]
        exact clash_self r
      · exact Table.eq_of_clash hx (registration?_mem (h.trans hv)).1 (by rwa [clash_comm])
  rw [touch]
  refine congrArg (fun table => ({ s with registrations := table } : Db)) (Table.ext ?_)
  rw [Table.rows_modify, Table.rows_modify]
  exact List.map_congr_left fun x hx => by rw [hrows x hx]

theorem count_split (p q : Registration → Bool) (table : Table Registration) :
    table.count q = table.count (fun x => p x && q x) + table.count (fun x => !p x && q x) := by
  simp only [Table.count]
  induction table.rows with
  | nil => rfl
  | cons x rows ih =>
    simp only [List.countP_cons, ih]
    cases p x <;> simp <;> omega

/-- The counts before and after a change of one row. -/
theorem count_touch (hr : s.registration? id = some r) (q : Registration → Bool) :
    (touch id f s).registrations.count q + (if q r then 1 else 0) =
      s.registrations.count q + if q (f r) then 1 else 0 := by
  have hmem := (registration?_mem hr).1
  have hold := count_split (·.id == id) q s.registrations
  have hnew := count_split (·.id == id) (fun x => q (if x.id == id then f x else x)) s.registrations
  rw [Table.count_pinned hmem (pinned hr)] at hold hnew
  have hsame : s.registrations.count (fun x => !(x.id == id) && q (if x.id == id then f x else x)) =
      s.registrations.count fun x => !(x.id == id) && q x := by
    refine congrArg s.registrations.count (funext fun x => ?_)
    cases x.id == id <;> rfl
  rw [hsame, (pinned hr r hmem).mpr rfl, if_pos rfl] at hnew
  rw [touch, Table.count_modify, hnew, hold]
  omega

theorem registration?_touch (hr : s.registration? id = some r) (hf : ∀ x, (f x).id = x.id)
    (k : Uuid) : (touch id f s).registration? k = if k = id then some (f r) else s.registration? k := by
  obtain ⟨hmem, rfl⟩ := registration?_mem hr
  exact registration?_modify k hmem hf

theorem barcodes_touch (hf : ∀ x, (f x).barcode = x.barcode) (text : String) :
    (touch id f s).registrations.rows.any (·.barcode == text) =
      s.registrations.rows.any (·.barcode == text) := by
  rw [touch, Table.rows_modify, List.any_map]
  refine any_congr fun x _ => ?_
  simp only [Function.comp_apply]
  split
  · rw [hf x]
  · rfl

/-- A change of one row that leaves its keys alone is the same for every holder of its lock. -/
theorem guarded_touch (hf : ∀ x, (f x).id = x.id ∧ (f x).barcode = x.barcode)
    (hrow : t.registration? id = s.registration? id) (h : guarded l s t) :
    guarded l (touch id f s) (touch id f t) := by
  cases hs : s.registration? id with
  | none =>
    rw [touch_of_none hs, touch_of_none (hrow.trans hs)]
    exact h
  | some r =>
    have ht := hrow.trans hs
    cases l with
    | event eventId =>
      intro slotId
      have hcount := count_touch (f := f) hs (countingScope eventId slotId)
      have hcount' := count_touch (f := f) ht (countingScope eventId slotId)
      have hle := h slotId
      simp only [Db.taken] at hle ⊢
      omega
    | registration k =>
      rw [guarded, registration?_touch hs fun x => (hf x).1, registration?_touch ht fun x => (hf x).1,
        show t.registration? k = s.registration? k from h]
    | barcode text =>
      rw [guarded, barcodes_touch fun x => (hf x).2, barcodes_touch fun x => (hf x).2]
      exact h
    | slot | mail | inbox | booth | booking | bookingLine | confirmedBooking | leadRequest => trivial

/-- A row is accepted when its id and its barcode are free. -/
theorem accepts_eq : s.registrations.accepts row =
    ((s.registration? row.id).isNone && !s.registrations.rows.any (·.barcode == row.barcode)) := by
  rw [Bool.eq_iff_iff, Table.accepts_iff, Bool.and_eq_true, Option.isNone_iff_eq_none,
    Bool.not_eq_true', List.any_eq_false, Db.registration?, Table.find, List.find?_eq_none,
    ← forall₂_and]
  refine forall₂_congr fun x _ => ?_
  rw [show clash x row = (x.id == row.id || x.barcode == row.barcode) from rfl]
  simp

theorem accepts_congr (hid : t.registration? row.id = s.registration? row.id)
    (hbarcode : guarded (.barcode row.barcode) s t) :
    t.registrations.accepts row = s.registrations.accepts row := by
  rw [accepts_eq, accepts_eq, hid, show t.registrations.rows.any _ = _ from hbarcode]

theorem registration?_push (hs : s.registrations.accepts row = true) (k : Uuid) :
    ({ s with registrations := s.registrations.push row } : Db).registration? k =
      (s.registration? k).or (if row.id == k then some row else none) := by
  rw [Db.registration?, Table.find, Table.rows_push hs, List.find?_append, List.find?_singleton]
  rfl

/-- An insert that both accept is the same for every lock. -/
theorem guarded_push (hs : s.registrations.accepts row = true)
    (ht : t.registrations.accepts row = true) (h : guarded l s t) :
    guarded l { s with registrations := s.registrations.push row }
      { t with registrations := t.registrations.push row } := by
  cases l with
  | event eventId =>
    intro slotId
    have hle := h slotId
    simp only [Db.taken] at hle ⊢
    rw [Table.count_push hs, Table.count_push ht]
    omega
  | registration k =>
    rw [guarded, registration?_push hs, registration?_push ht,
      show t.registration? k = s.registration? k from h]
  | barcode text =>
    rw [guarded, Table.rows_push hs, Table.rows_push ht, List.any_append, List.any_append,
      show t.registrations.rows.any _ = _ from h]
  | slot | mail | inbox | booth | booking | bookingLine | confirmedBooking | leadRequest => trivial

/-- The active row of the id. -/
theorem find_active : s.registrations.find (fun r => r.id == id && r.active) =
    (s.registration? id).filter (·.active) := by
  cases hs : s.registration? id with
  | none =>
    refine List.find?_eq_none.mpr fun x hx => ?_
    simp [unstored hs x hx]
  | some r =>
    obtain ⟨hmem, hid⟩ := registration?_mem hs
    cases hactive : r.active with
    | true =>
      rw [Option.filter_some_pos hactive]
      refine Table.find_eq_some hmem (by simp [hid, hactive]) fun x hx => ?_
      rw [Bool.and_eq_true, beq_iff_eq] at hx
      simp [clash, hx.1, hid]
    | false =>
      rw [Option.filter_some_neg (by simp [hactive])]
      refine List.find?_eq_none.mpr fun x hx => ?_
      rw [Bool.and_eq_true, pinned hs x hx]
      rintro ⟨rfl, h⟩
      rw [hactive] at h
      cases h

theorem touch_active (hr : s.registration? id = some r) (hactive : r.active = true) :
    ({ s with registrations := s.registrations.modify (fun x => x.id == id && x.active) f } : Db) =
      touch id f s := by
  rw [touch]
  refine congrArg (fun table => ({ s with registrations := table } : Db)) (Table.ext ?_)
  rw [Table.rows_modify, Table.rows_modify]
  refine List.map_congr_left fun x hx => ?_
  cases hid : x.id == id with
  | true =>
    obtain rfl := (pinned hr x hx).mp hid
    rw [hactive, Bool.and_self]
  | false => rw [Bool.false_and]

/-- The count without a row, from the count with it. -/
theorem takenWithout_add (eventId : Uuid) (slotId : Option Uuid) :
    s.takenWithout id eventId slotId +
        (if (s.registration? id).any (countingScope eventId slotId) then 1 else 0) =
      s.taken eventId slotId := by
  have hsplit := count_split (·.id == id) (countingScope eventId slotId) s.registrations
  have hwithout : s.takenWithout id eventId slotId =
      s.registrations.count fun x => !(x.id == id) && countingScope eventId slotId x := by
    refine congrArg s.registrations.count (funext fun x => ?_)
    rw [Bool.and_comm]
    rfl
  rw [hwithout, Db.taken, hsplit, Nat.add_comm]
  congr 1
  cases hs : s.registration? id with
  | none =>
    refine (List.countP_eq_zero.mpr fun x hx => ?_).symm
    rw [unstored hs x hx, Bool.false_and]
    exact Bool.false_ne_true
  | some r => rw [Option.any_some, Table.count_pinned (registration?_mem hs).1 (pinned hs)]

theorem takenWithout_le (hrow : t.registration? id = s.registration? id) {eventId : Uuid}
    (h : guarded (.event eventId) s t) (slotId : Option Uuid) :
    t.takenWithout id eventId slotId ≤ s.takenWithout id eventId slotId := by
  have hs := @takenWithout_add s id eventId slotId
  have ht := @takenWithout_add t id eventId slotId
  have hle := h slotId
  rw [hrow] at ht
  omega

end rows

section statements

variable {α β : Type} {s : Db} {held : List Lock} {k : β → Tx α} {next : Unit → Tx α}

/-- The lock of an event, which is where it was. -/
theorem safe_lockEvent {eventId : Uuid} {k : Event → Tx α}
    (h : ∀ event, s.event? eventId = some event →
      Safe guards (Steady s) (held ++ [.event eventId]) (k event)) :
    Safe guards (Steady s) held ((lockEvent eventId).bind k) := by
  rw [lockEvent, Program.bind_eq, Program.bind_assoc]
  refine Safe.selectForUpdate (if (s.event? eventId).isSome then [.event eventId] else [])
    (fun v hv => by rw [hv.event?]) (fun v hv => hv.event? eventId) (.require fun event hevent => ?_)
  rw [hevent, Option.isSome_some, if_pos rfl]
  exact h event hevent

theorem safe_lockSlot {event : Event} {cmd : RegisterCommand} {k : Option Uuid → Tx α}
    (h : ∀ slotId held', (∀ l ∈ held, l ∈ held') → Safe guards (Steady s) held' (k slotId)) :
    Safe guards (Steady s) held ((lockSlot event cmd).bind k) := by
  rw [lockSlot]
  split
  · simp only [Program.bind_eq, Program.bind_assoc]
    refine .require fun slot _ => Safe.selectForUpdate
      (if (s.slotOf slot cmd.eventId).isSome then [.slot slot] else [])
      (fun v hv => by rw [hv.slotOf]) (fun v hv => hv.slotOf slot cmd.eventId)
      (.refuseWhen fun _ => ?_)
    exact h _ _ fun l hl => List.mem_append_left _ hl
  · exact h _ _ fun l hl => hl

theorem safe_ticketWindow {draw : Draw} {cmd : RegisterCommand}
    (h : Safe guards (Steady s) held (next ())) :
    Safe guards (Steady s) held ((ticketWindow draw cmd).bind next) := by
  rw [ticketWindow]
  split
  · exact h
  · simp only [Program.bind_eq, Program.bind_assoc]
    exact Safe.selectFixed (fun v hv => hv.ticketOf _ cmd.eventId)
      (.require fun _ _ => .refuseWhen fun _ => h)

theorem exhausted_mono {event : Event} {m n : ℕ} (h : m ≤ n) (hn : event.exhausted n = false) :
    event.exhausted m = false := by
  simp only [Event.exhausted, Bool.and_eq_false_iff, decide_eq_false_iff_not] at hn ⊢
  exact hn.imp_right fun hmax => by omega

/-- A count that finds room finds it for as long as no one takes a seat. -/
theorem safe_count {f : Db → ℕ} {event : Event} {e : EventError}
    (hf : ∀ v v', Steady s v → Steady s v' → guards.All held v v' → f v' ≤ f v)
    (h : Safe guards (Steady s) held (next ())) :
    Safe guards (Steady s) held
      ((Program.select f).bind fun n => (Program.refuseWhen (event.exhausted n) e).bind next) := by
  refine .select (fun v v' hv hv' hne hall => ?_) fun v _ => .refuseWhen fun _ => h
  cases hfull : event.exhausted (f v) with
  | true =>
    rw [hfull] at hne
    exact absurd rfl (hne e)
  | false => rw [exhausted_mono (hf v v' hv hv' hall) hfull]

/-- The insert, under the locks on its keys. -/
theorem safe_insertRegistration {env : Env} {row : Registration}
    (h : ∀ held', (∀ l ∈ held, l ∈ held') → Safe guards (Steady s) held' (next ())) :
    Safe guards (Steady s) held ((insertRegistration env row).bind next) := by
  have hkeys : ∀ {v t : Db}, guards.All (held ++ [.registration row.id, .barcode row.barcode]) v t →
      t.registrations.accepts row = v.registrations.accepts row := fun hall =>
    accepts_congr (hall (.registration row.id) (by simp)) (hall (.barcode row.barcode) (by simp))
  refine .statement ⟨fun v t hv ht => ?_, fun v v' hv hv' hne hall => ?_,
    fun v t u l hv ht hu hvt htu hl => ?_⟩ fun v hv => ?_
  · split
    · exact ⟨ht.events, ht.slots, ht.tickets, ht.leadRules, ht.orgAxis, ht.mails⟩
    · exact ht
  · have hsame : insertable v' env row = insertable v env row := by
      rw [insertable, insertable, hv'.belongs, hv.belongs, hkeys hall]
    exact ⟨by simp only [hsame], rfl, by simp only [hsame]⟩
  · cases hinsertable : insertable v env row with
    | false => simpa [hinsertable] using hl
    | true =>
      have hv' : v.registrations.accepts row = true := (Bool.and_eq_true_iff.mp hinsertable).2
      have ht' := (hkeys hvt).trans hv'
      have hpush := guarded_push ht' ((hkeys htu).trans ht') hl
      simpa [hinsertable, guards] using hpush
  · cases hinsertable : insertable v env row with
    | false =>
      exact .inl ⟨.database "registrations: constraint violated", by simp [hinsertable, Program.bind]⟩
    | true => simpa [hinsertable, Program.bind] using h _ fun l hl => List.mem_append_left _ hl

/-- A write of other tables. -/
theorem guarded_of_rows (t u : Db) {t' u' : Db} {l : Lock} (ht : t'.registrations = t.registrations)
    (hu : u'.registrations = u.registrations) (h : guarded l t u) : guarded l t' u' := by
  cases l with
  | event eventId => simpa only [guarded, Db.taken, ht, hu] using h
  | registration id => simpa only [guarded, Db.registration?, ht, hu] using h
  | barcode text => simpa only [guarded, ht, hu] using h
  | slot | mail | inbox | booth | booking | bookingLine | confirmedBooking | leadRequest => trivial

/-- The arm of events that the locks fix. -/
theorem safe_armAfterSub {env : Env} {events : Db → Uuid → Bool}
    (hevents : ∀ v v', guards.All held v v' → events v' = events v)
    (h : ∀ held', (∀ l ∈ held, l ∈ held') → Safe guards (Steady s) held' (next ())) :
    Safe guards (Steady s) held ((armAfterSub env events).bind next) := by
  refine .statement ⟨fun v t hv ht => ?_, fun v v' hv hv' _ hall => ?_,
    fun v t u l hv ht hu _ _ hl => guarded_of_rows t u rfl rfl hl⟩ fun v hv => ?_
  · exact ⟨ht.events, ht.slots, ht.tickets, ht.leadRules, ht.orgAxis,
      (mailKeys_modify _ _ t.mails).trans ht.mails⟩
  · have hsame := hevents v v' fun l hl => hall l (List.mem_append_left _ hl)
    refine ⟨rfl, ?_, ?_⟩
    · rw [hsame, hv'.armedLocks, hv.armedLocks]
    · rw [hsame, hv'.matched, hv.matched]
  · exact h _ fun l hl => List.mem_append_left _ hl

theorem safe_armLeadRequest {env : Env} {eventId : Uuid} {trigger : LeadRule → Bool}
    (h : ∀ held', (∀ l ∈ held, l ∈ held') → Safe guards (Steady s) held' (next ())) :
    Safe guards (Steady s) held ((armLeadRequest env eventId trigger).bind next) := by
  refine .update (fun v t hv ht => ?_) (fun v v' hv hv' => ?_) (fun v v' t hv hv' _ => ?_)
    (fun v t u l hv ht hu hl => ?_) h
  · split
    · exact ⟨ht.events, ht.slots, ht.tickets, ht.leadRules, ht.orgAxis, ht.mails⟩
    · exact ht
  · rw [hv'.fires, hv.fires]
  · rw [hv'.fires, hv.fires]
  · split
    · exact guarded_of_rows t u rfl rfl hl
    · exact hl

theorem safe_recordAudit {row : AuditRow}
    (h : ∀ held', (∀ l ∈ held, l ∈ held') → Safe guards (Steady s) held' (next ())) :
    Safe guards (Steady s) held ((recordAudit row).bind next) :=
  .update (fun _ _ _ ht => ⟨ht.events, ht.slots, ht.tickets, ht.leadRules, ht.orgAxis, ht.mails⟩)
    (fun _ _ _ _ => rfl) (fun _ _ _ _ _ _ => rfl)
    (fun _ t u _ _ _ _ hl => guarded_of_rows t u rfl rfl hl) h

/-- The write of a state verb, under the lock on its row. -/
theorem safe_moveState {env : Env} {id : Uuid} {target : RegistrationState} {e : EventError}
    {k : Registration → Tx α}
    (h : ∀ r, r.id = id → Safe guards (Steady s) (held ++ [.registration id]) (k r)) :
    Safe guards (Steady s) held ((moveState env id target).bind fun found =>
      (Program.require found e).bind k) := by
  have hlocks : ∀ {v : Db} {r : Registration}, v.registration? id = some r →
      (if (v.registration? id).isSome then [Lock.registration id] else []) = [.registration id] := by
    intro v r hr
    rw [hr, Option.isSome_some, if_pos rfl]
  refine .statement ⟨fun v t _ ht => ?_, fun v v' hv hv' hne hall => ?_,
    fun v t u l hv ht hu hvt htu hl => ?_⟩ fun v hv => ?_
  · exact ⟨ht.events, ht.slots, ht.tickets, ht.leadRules, ht.orgAxis, ht.mails⟩
  · cases hfound : v.registration? id with
    | none =>
      simp only [Program.bind, hfound, Program.require] at hne
      exact absurd rfl (hne e)
    | some r =>
      rw [hlocks hfound] at hall
      have hrow : v'.registration? id = v.registration? id := hall (.registration id) (by simp)
      refine ⟨by simp only [hrow], by simp only [hrow, hfound], ?_⟩
      exact (touch_matched rfl).trans (touch_matched hrow).symm
  · cases hfound : v.registration? id with
    | none =>
      have hnone : ∀ table : Table Registration, table.modify (v.registrations.matched (·.id == id))
          (Registration.moved env.now target) = table := fun table => by
        refine Table.modify_eq_self fun x _ => ?_
        rw [Table.matched, List.any_eq_false]
        intro y hy
        simp [unstored hfound y hy]
      simpa only [hnone] using hl
    | some r =>
      rw [hlocks hfound] at hvt htu
      have ht' : t.registration? id = v.registration? id := hvt (.registration id) (by simp)
      have hu' : u.registration? id = t.registration? id := htu (.registration id) (by simp)
      rw [touch_matched ht', touch_matched (hu'.trans ht')]
      exact guarded_touch (fun _ => ⟨rfl, rfl⟩) hu' hl
  · simp only [Program.bind]
    cases hfound : v.registration? id with
    | none => exact .inl ⟨e, rfl⟩
    | some r =>
      rw [Option.isSome_some, if_pos rfl]
      exact h r (registration?_mem hfound).2

theorem safe_seatHead {id : Uuid} (hid : .registration id ∈ held)
    (h : ∀ held', (∀ l ∈ held, l ∈ held') → Safe guards (Steady s) held' (next ())) :
    Safe guards (Steady s) held ((seatHead id).bind next) := by
  have hrow : ∀ {v v' : Db}, guards.All held v v' → v'.registration? id = v.registration? id :=
    fun hall => hall _ hid
  simp only [seatHead, Program.bind_eq, Program.bind_assoc]
  refine .select (fun v v' _ _ _ hall => by rw [hrow hall]) fun v _ => .require fun r _ =>
    safe_lockEvent fun event _ => safe_count (fun v v' _ _ hall => ?_) (h _ fun l hl => by simp [hl])
  exact takenWithout_le (hrow fun l hl => hall l (by simp [hl])) (hall (.event r.eventId) (by simp)) _

theorem safe_settleMove {env : Env} {before : Registration} {target : RegistrationState}
    {actor : Option Uuid} (hid : .registration before.id ∈ held)
    (h : ∀ held', Safe guards (Steady s) held' (next ())) :
    Safe guards (Steady s) held ((settleMove env before target actor).bind next) := by
  simp only [settleMove, Program.bind_eq, Program.bind_assoc]
  refine .onlyIf (fun hrest => safe_armAfterSub (fun v v' hall => ?_) hrest) fun _ _ =>
    .onlyIf (fun hrest => safe_armLeadRequest hrest) fun _ _ =>
      .onlyIf (fun hrest => safe_recordAudit hrest) fun held' _ => h held'
  have hrow : v'.registration? before.id = v.registration? before.id := hall _ hid
  simp only [hrow]

theorem safe_transition {env : Env} {id : Uuid} {target : RegistrationState} {actor : Option Uuid}
    {k : RegistrationState × RegistrationState × Bool → Tx α}
    (h : ∀ b held', Safe guards (Steady s) held' (k b)) :
    Safe guards (Steady s) held ((transition env id target actor).bind k) := by
  simp only [transition, Program.bind_eq, Program.bind_assoc]
  refine safe_moveState fun before hid => ?_
  have hsettle : ∀ held', .registration id ∈ held' → Safe guards (Steady s) held'
      ((settleMove env before target actor).bind fun _ =>
        (Program.done (before.state, target, before.active)).bind k) := fun held' hmem =>
    safe_settleMove (hid ▸ hmem) fun held'' => h _ held''
  have hmem : Lock.registration id ∈ held ++ [.registration id] := by simp
  exact .onlyIf (fun hrest => safe_seatHead hmem hrest) fun held' hheld =>
    hsettle held' (hheld _ hmem)

theorem safe_registerCore {env : Env} {draw : Draw} {cmd : RegisterCommand} {link : Option SaleLink}
    {k : Registration → Tx α} (h : ∀ row held', Safe guards (Steady s) held' (k row)) :
    Safe guards (Steady s) held ((registerCore env draw cmd link).bind k) := by
  simp only [registerCore, Program.bind_eq, Program.bind_assoc]
  refine safe_lockEvent fun event _ => .refuseWhen fun _ => safe_lockSlot fun slotId held' hheld =>
    safe_ticketWindow (safe_count (fun v v' _ _ hall => ?_)
      (.selectFixed (fun v hv => hv.orgAxis) ?_))
  · exact hall (.event cmd.eventId) (hheld _ (by simp)) slotId
  · exact safe_insertRegistration fun _ _ =>
      .onlyIf (fun hrest => safe_armAfterSub (fun _ _ _ => rfl) hrest) fun _ _ =>
        .onlyIf (fun hrest => safe_armLeadRequest hrest) fun _ _ =>
          safe_recordAudit fun held' _ => h _ held'

/-- The fill, under the lock on its row. -/
theorem safe_syncFromPartner {s : Db} {held : List Lock} {checks : Registration → Bool}
    {id partnerId : Uuid} {name phone companyName : Option String} {actor : Option Uuid}
    {f : Registration → α} : Safe guards (Steady s) held
      ((syncFromPartner checks id partnerId name phone companyName actor).bind fun row =>
        .done (f row)) := by
  have hfound : ∀ {v : Db} {r : Registration}, (v.registration? id).filter (·.active) = some r →
      v.registration? id = some r ∧ r.active = true := fun h =>
    Option.filter_eq_some_iff.mp h
  have hrow : ∀ {v t u : Db} {r : Registration}, (v.registration? id).filter (·.active) = some r →
      guards.All (held ++ if ((v.registration? id).filter (·.active)).isSome then
        [Lock.registration id] else []) t u → u.registration? id = t.registration? id := by
    intro v t u r hv hall
    rw [hv, Option.isSome_some, if_pos rfl] at hall
    exact hall (.registration id) (by simp)
  simp only [syncFromPartner, find_active, Program.bind]
  refine .statement ⟨fun v t hv ht => ?_, fun v v' hv hv' hne hall => ?_,
    fun v t u l hv ht hu hvt htu hl => ?_⟩ fun v hv => ?_
  · split
    · exact ⟨ht.events, ht.slots, ht.tickets, ht.leadRules, ht.orgAxis, ht.mails⟩
    · exact ht
  · cases hv : (v.registration? id).filter (·.active) with
    | none =>
      rw [hv] at hne
      exact absurd rfl (hne _)
    | some r =>
      have hsame := hrow hv hall
      simp only [hsame, hv, and_self]
  · cases hv : (v.registration? id).filter (·.active) with
    | none => simpa [hv] using hl
    | some r =>
      cases hchecks : checks (Registration.synced partnerId name phone companyName r) with
      | false => simpa [hv, hchecks] using hl
      | true =>
        obtain ⟨hr, hactive⟩ := hfound hv
        have ht' := hrow hv hvt
        have hu' := hrow hv htu
        simp only [Option.any_some, hchecks, if_true]
        rw [touch_active (ht'.trans hr) hactive, touch_active (hu'.trans (ht'.trans hr)) hactive]
        exact guarded_touch (fun _ => ⟨rfl, rfl⟩) hu' hl
  · cases hv : (v.registration? id).filter (·.active) with
    | none => exact .inl ⟨_, rfl⟩
    | some r =>
      cases hchecks : checks (Registration.synced partnerId name phone companyName r) with
      | false =>
        exact .inl ⟨.database "registrations: constraint violated", by simp [hchecks, Program.bind]⟩
      | true =>
        refine .inr ?_
        simp only [hchecks, if_true, Program.bind]
        exact .noteAfter .done

end statements

section confined

variable {s t : Db} {id : Uuid} {r row : Registration} {f : Update Registration} {l : Lock}

/-- A change of one row, for who holds another lock. -/
theorem guarded_self_touch (hr : s.registration? id = some r)
    (hf : ∀ x, (f x).id = x.id ∧ (f x).barcode = x.barcode) (hid : l ≠ .registration id)
    (hseats : ∀ eventId slotId, l = .event eventId → countingScope eventId slotId (f r) = true →
      countingScope eventId slotId r = true) : guarded l s (touch id f s) := by
  cases l with
  | event eventId =>
    intro slotId
    have hcount := count_touch (f := f) hr (countingScope eventId slotId)
    have hseat := hseats eventId slotId rfl
    simp only [Db.taken]
    cases hold : countingScope eventId slotId r with
    | true =>
      rw [hold, if_pos rfl] at hcount
      split at hcount <;> omega
    | false =>
      have hnew : countingScope eventId slotId (f r) = false := by
        rw [← hold, Bool.eq_iff_iff]
        exact ⟨hseat, fun h => by rw [h] at hold; cases hold⟩
      rw [hold, hnew] at hcount
      simpa using hcount.le
  | registration k =>
    rw [guarded, registration?_touch hr fun x => (hf x).1,
      if_neg fun h => hid (congrArg Lock.registration h)]
  | barcode text => exact barcodes_touch (fun x => (hf x).2) text
  | slot | mail | inbox | booth | booking | bookingLine | confirmedBooking | leadRequest => trivial

theorem guarded_self_push (hs : s.registrations.accepts row = true) (hid : l ≠ .registration row.id)
    (hbarcode : l ≠ .barcode row.barcode)
    (hseats : ∀ eventId slotId, l = .event eventId → countingScope eventId slotId row = false) :
    guarded l s { s with registrations := s.registrations.push row } := by
  cases l with
  | event eventId =>
    intro slotId
    simp only [Db.taken]
    rw [Table.count_push hs, hseats eventId slotId rfl]
    simp
  | registration k =>
    have hne : (row.id == k) = false := by
      rw [beq_eq_false_iff_ne]
      exact fun h => hid (congrArg Lock.registration h.symm)
    rw [guarded, registration?_push hs, hne, if_neg Bool.false_ne_true, Option.or_none]
  | barcode text =>
    have hne : (row.barcode == text) = false := by
      rw [beq_eq_false_iff_ne]
      exact fun h => hbarcode (congrArg Lock.barcode h.symm)
    rw [guarded, Table.rows_push hs, List.any_append]
    simp [hne]
  | slot | mail | inbox | booth | booking | bookingLine | confirmedBooking | leadRequest => trivial

/-- The row of a state verb counts only where it did, or takes its seat under the event's lock. -/
theorem countingScope_moved {now : Timestamp} {target : RegistrationState} {eventId : Uuid}
    {slotId : Option Uuid}
    (h : countingScope eventId slotId (Registration.moved now target r) = true) :
    countingScope eventId slotId r = true ∨ takesSeat r target = true ∧ r.eventId = eventId := by
  rw [countingScope_eq, Bool.and_eq_true] at h
  obtain ⟨hbooked, heligible⟩ := h
  have hbooked' : bookedIn eventId slotId r = true := hbooked
  obtain ⟨htarget, hactive⟩ : (target == .open || target == .done) = true ∧ r.active = true := by
    simpa [Registration.eligible, Registration.moved] using heligible
  rw [countingScope_eq, hbooked', Bool.true_and]
  cases hout : r.outside with
  | true =>
    refine .inr ⟨by rw [takesSeat, hactive, htarget, hout]; rfl, ?_⟩
    rw [bookedIn, Bool.and_eq_true, beq_iff_eq] at hbooked'
    exact hbooked'.1
  | false =>
    refine .inl ?_
    rw [Registration.eligible, hactive, Bool.and_true]
    cases hstate : r.state <;> simp [Registration.outside, hstate] at hout ⊢

theorem locks_lockEvent {eventId : Uuid} {event : Event} (h : s.event? eventId = some event) :
    locksTaken (lockEvent eventId) s = [.event eventId] := by
  simp [lockEvent, locksTaken_bind, Program.selectForUpdate, locksTaken, Program.require, h]

theorem locks_register {env : Env} {draw : Draw} {cmd : RegisterCommand} {link : Option SaleLink}
    (h : (registerCore env draw cmd link).run s = .ok (row, t)) :
    .event cmd.eventId ∈ locksTaken (registerCore env draw cmd link) s ∧
      .registration row.id ∈ locksTaken (registerCore env draw cmd link) s ∧
      .barcode row.barcode ∈ locksTaken (registerCore env draw cmd link) s := by
  obtain ⟨event, slotId, hadm, hroom, rfl, hfits, rfl⟩ := run_registerCore_ok h
  have hk : (event.kanbanState == KanbanState.cancel) = false := by simpa using hadm.notCancelled
  simp [registerCore, locksTaken_bind, locks_lockEvent, hadm.found, hk, hadm.slot, hadm.ticket, hroom,
    hfits, Except.map, Program.run_refuseWhen, insertRegistration, locksTaken]

theorem locks_transition {env : Env} {target : RegistrationState} {actor : Option Uuid}
    {answer : RegistrationState × RegistrationState × Bool} (hr : s.registration? r.id = some r)
    (h : (transition env r.id target actor).run s = .ok (answer, t)) :
    .registration r.id ∈ locksTaken (transition env r.id target actor) s ∧
      (takesSeat r target = true →
        .event r.eventId ∈ locksTaken (transition env r.id target actor) s) := by
  have hmoved : (moveState env r.id target).run s = .ok (some r, s.moved env.now r.id target) := by
    rw [run_moveState, hr]
  have hlocks : locksTaken (transition env r.id target actor) s = .registration r.id ::
      locksTaken ((Program.onlyIf (takesSeat r target) (seatHead r.id)).bind fun _ =>
        (settleMove env r target actor).bind fun _ => .done (r.state, target, r.active))
        (s.moved env.now r.id target) := by
    simp only [transition, Program.bind_eq, locksTaken_bind, hmoved]
    simp [moveState, Program.update, locksTaken, Program.require, hr]
  rw [hlocks]
  refine ⟨List.mem_cons_self, fun hseat => List.mem_cons_of_mem _ ?_⟩
  rw [run_transition_some env target actor hr, if_pos hseat] at h
  cases hevent : s.event? r.eventId with
  | none =>
    rw [hevent] at h
    cases h
  | some event =>
    have hfound := registration?_moved hr env.now target
    have hmoved' : (s.moved env.now r.id target).event? r.eventId = some event := hevent
    simp [hseat, Program.onlyIf, seatHead, locksTaken_bind, Program.select, locksTaken,
      Program.require, hfound, Registration.moved, locks_lockEvent hmoved']

theorem locks_sync {checks : Registration → Bool} {partnerId : Uuid}
    {name phone companyName : Option String} {actor : Option Uuid}
    (h : (syncFromPartner checks id partnerId name phone companyName actor).run s = .ok (row, t)) :
    ∃ r, s.registration? id = some r ∧
      t = touch id (Registration.synced partnerId name phone companyName) s ∧
      .registration id ∈
        locksTaken (syncFromPartner checks id partnerId name phone companyName actor) s := by
  simp only [syncFromPartner, find_active, Program.run_statement] at h
  cases hfound : (s.registration? id).filter (·.active) with
  | none =>
    rw [hfound] at h
    cases h
  | some r =>
    obtain ⟨hr, hactive⟩ := Option.filter_eq_some_iff.mp hfound
    cases hchecks : checks (Registration.synced partnerId name phone companyName r) with
    | false => simp [hfound, hchecks] at h
    | true =>
      refine ⟨r, hr, ?_, by simp [syncFromPartner, find_active, hr, hactive, locksTaken]⟩
      simp only [hfound, Option.any_some, hchecks, if_true, Program.run_noteAfter, Program.run_done,
        Except.ok.injEq, Prod.mk.injEq] at h
      rw [← h.2, touch_active hr hactive]

end confined

/-- A call of a verb on seats, or a partner sync. -/
inductive SeatVerb where
  | register (env : Env) (cmd : RegisterCommand)
  | transition (env : Env) (registrationId : Uuid) (target : RegistrationState)
      (actor : Option Uuid)
  | sync (checks : Registration → Bool) (registrationId partnerId : Uuid)
      (name phone companyName : Option String) (actor : Option Uuid)

def SeatVerb.program : SeatVerb → Tx Answer
  | .register env cmd => (Call.register env cmd).program
  | .transition env registrationId target actor =>
    (Call.transition env registrationId target actor).program
  | .sync checks registrationId partnerId name phone companyName actor => do
    let row ← syncFromPartner checks registrationId partnerId name phone companyName actor
    return .registered row

section verbs

variable {s t u : Db}

theorem silent_program (verb : SeatVerb) : verb.program.Silent := by
  cases verb with
  | register env cmd => exact (silent_registerCore _ _ _ _).bind fun _ => trivial
  | transition env id target actor => exact (silent_transition _ _ _ _).bind fun _ => trivial
  | sync checks id partnerId name phone companyName actor =>
    refine Program.Silent.bind (fun v => ?_) fun _ => trivial
    dsimp only
    split
    · trivial
    · split <;> trivial

theorem guarded_program (s : Db) (verb : SeatVerb) : Guarded guards (Steady s) [] verb.program := by
  have hdone : ∀ {held : List Lock} {a : Answer},
      Safe guards (Steady s) held (.done a : Tx Answer) := .inr .done
  cases verb with
  | register env cmd => exact (safe_registerCore fun _ _ => hdone).guarded fun e h => by cases h
  | transition env id target actor =>
    exact (safe_transition fun _ _ => hdone).guarded fun e h => by cases h
  | sync checks id partnerId name phone companyName actor =>
    exact safe_syncFromPartner.guarded fun e h => by cases h

/-- A verb alone leaves to the holders of the locks it does not take what they count on. -/
theorem guarded_run {verb : SeatVerb} {a : Answer} (h : verb.program.run s = .ok (a, t)) {l : Lock}
    (hl : l ∉ locksTaken verb.program s) : guarded l s t := by
  cases verb with
  | register env cmd =>
    obtain ⟨row, u, hrun, hdone⟩ := Program.run_bind_ok h
    cases hdone
    obtain ⟨hevent, hid, hbarcode⟩ := locks_register hrun
    have hfree : ∀ {k}, k ∈ locksTaken (registerCore env (env.draw 0) cmd none) s → l ≠ k := by
      rintro k hk rfl
      exact hl (mem_locksTaken_bind hk _)
    obtain ⟨event, slotId, hadm, -, rfl, hfits, rfl⟩ := run_registerCore_ok hrun
    refine guarded_of_rows s { s with registrations := s.registrations.push _ } rfl rfl
      (guarded_self_push (accepts_of_insertable hfits) (hfree hid) (hfree hbarcode) ?_)
    rintro eventId slotId' rfl
    have hne : (cmd.eventId == eventId) = false := by
      rw [beq_eq_false_iff_ne]
      exact fun h => hfree hevent (congrArg Lock.event h.symm)
    rw [countingScope_eq, bookedIn]
    simp only [bornRow, hne, Bool.false_and]
  | transition env id target actor =>
    obtain ⟨answer, u, hrun, hdone⟩ := Program.run_bind_ok h
    cases hdone
    cases transition_effect h with
    | refused hrefused => cases hrefused.symm.trans h
    | @transitioned _ r _ _ _ hr seat =>
      obtain ⟨hid, hevent⟩ := locks_transition hr hrun
      have hfree : ∀ {k}, k ∈ locksTaken (transition env r.id target actor) s → l ≠ k := by
        rintro k hk rfl
        exact hl (mem_locksTaken_bind hk _)
      have hmoved : guarded l s (touch r.id (Registration.moved env.now target) s) := by
        refine guarded_self_touch hr (fun _ => ⟨rfl, rfl⟩) (hfree hid)
          fun eventId slotId hlock hcounts => ?_
        rcases countingScope_moved hcounts with hcounted | ⟨hseat, heq⟩
        · exact hcounted
        · exact absurd (hlock.trans (congrArg Lock.event heq.symm)) (hfree (hevent hseat))
      exact guarded_of_rows s (touch r.id (Registration.moved env.now target) s) rfl rfl hmoved
  | sync checks id partnerId name phone companyName actor =>
    obtain ⟨row, u, hrun, hdone⟩ := Program.run_bind_ok h
    cases hdone
    obtain ⟨r, hr, rfl, hid⟩ := locks_sync hrun
    refine guarded_self_touch hr (fun _ => ⟨rfl, rfl⟩)
      (fun hlock => hl (mem_locksTaken_bind (hlock ▸ hid) _)) fun eventId slotId _ hcounts => ?_
    rw [countingScope_eq] at hcounts ⊢
    exact hcounts

/-- An audit row. -/
theorem steady_absorb {s t : Db} (h : Steady s t) (row : AuditRow) :
    Steady s (t.absorb row) ∧ ∀ l, guards.rel l t (t.absorb row) :=
  ⟨⟨h.events, h.slots, h.tickets, h.leadRules, h.orgAxis, h.mails⟩,
    fun l => guarded_of_rows t t rfl rfl (guards.refl l t)⟩

end verbs

variable {ι : Type}

/-- The verbs one after the other, each with its outcome, give what the sessions gave. Each session
that is over is in it once, as is one that can only roll back. -/
structure InSerial (s : Db) (verbs : ι → SeatVerb)
    (w : TransactionInterleavings.World ι Db Lock AuditRow EventError Answer)
    (events : List (ι × Except EventError Answer)) : Prop where
  serial : Serial Db.absorb (fun i => (verbs i).program) s events w.committed
  once : (events.map Prod.fst).Nodup
  committed : ∀ i a, (i, .ok a) ∈ events ↔ (w.sessions i).phase = .committed a
  refused : ∀ i e, (i, .error e) ∈ events ↔
    (w.sessions i).phase = .rolledBack e ∨ (w.sessions i).phase = .running (.refuse e)

theorem inSerial_of_serialized {s : Db} {verbs : ι → SeatVerb}
    {w : TransactionInterleavings.World ι Db Lock AuditRow EventError Answer}
    {events : List (ι × Except EventError Answer)}
    (h : Serialized guards (Steady s) Db.absorb (fun i => (verbs i).program) s w events) :
    InSerial s verbs w events where
  serial := h.serial
  once := h.once
  committed i a := by
    rw [h.outcomes]
    unfold outcome
    split <;> simp_all
  refused i e := by
    rw [h.outcomes]
    unfold outcome
    split <;> simp_all

theorem exists_serialized_verbs [Fintype ι] [DecidableEq ι] (s : Db) (verbs : ι → SeatVerb)
    (schedule later : List ι) :
    ∃ events more, Serialized guards (Steady s) Db.absorb (fun i => (verbs i).program) s
        (schedule.foldl (World.step Db.absorb) (start s fun i => (verbs i).program)) events ∧
      Serialized guards (Steady s) Db.absorb (fun i => (verbs i).program) s
        ((schedule ++ later).foldl (World.step Db.absorb) (start s fun i => (verbs i).program))
        (events ++ more) :=
  exists_serialized ⟨rfl, rfl, rfl, rfl, rfl, rfl⟩ (fun i => guarded_program s (verbs i))
    (fun i => silent_program (verbs i)) (fun _ row h => steady_absorb h row)
    (fun _ _ _ _ _ hrun _ hl => guarded_run hrun hl) schedule later

/-- However the verbs interleave, a statement at a time, the run is one in which they come one after
the other, and who is over before another is comes before it. -/
theorem seatVerbs_serial [Fintype ι] [DecidableEq ι] (s : Db) (verbs : ι → SeatVerb)
    (schedule later : List ι) :
    ∃ events more, InSerial s verbs
        (schedule.foldl (World.step Db.absorb) (start s fun i => (verbs i).program)) events ∧
      InSerial s verbs
        ((schedule ++ later).foldl (World.step Db.absorb) (start s fun i => (verbs i).program))
        (events ++ more) := by
  obtain ⟨events, more, hfirst, hlater⟩ := exists_serialized_verbs s verbs schedule later
  exact ⟨events, more, inSerial_of_serialized hfirst, inSerial_of_serialized hlater⟩

/-- A booking of a limited event without slots names no slot. -/
def Plain (event : Event) (eventId : Uuid) (slotId : Option Uuid) : Prop :=
  Capped event → event.isMultiSlots = false → eventId = event.id → slotId = none

def SeatVerb.Plain (s : Db) : SeatVerb → Prop
  | .register _ cmd => ∀ event ∈ s.events.rows, SerialSeats.Plain event cmd.eventId cmd.eventSlotId
  | .transition _ _ _ _ | .sync _ _ _ _ _ _ _ => True

structure WellBooked (s : Db) : Prop where
  caps : CapsRespected s
  plain : ∀ event ∈ s.events.rows, ∀ r ∈ s.registrations.rows, Plain event r.eventId r.eventSlotId

section caps

variable {s t u : Db} {event : Event} {scope : Option Uuid}

theorem slotted_of_plain {eventId : Uuid} {slotId : Option Uuid} (hcap : Capped event)
    (hscope : CapScope event scope) (h : Plain event eventId slotId) :
    slotted event.id scope eventId slotId = false := by
  cases scope with
  | some slot => simp [slotted]
  | none =>
    have hsingle : event.isMultiSlots = false := hscope.symm
    cases hid : eventId == event.id with
    | false => simp [slotted, hid]
    | true => simp [slotted, h hcap hsingle (beq_iff_eq.mp hid)]

theorem wellBooked_touch {id : Uuid} {f : Update Registration} (ht : WellBooked t)
    (hf : ∀ x, (f x).eventId = x.eventId ∧ (f x).eventSlotId = x.eventSlotId)
    (hcaps : CapsRespected (touch id f t)) : WellBooked (touch id f t) where
  caps := hcaps
  plain event hevent r hr := by
    obtain ⟨x, hx, rfl⟩ := Table.mem_modify.mp hr
    have hplain := ht.plain event hevent x hx
    split
    · rwa [(hf x).1, (hf x).2]
    · exact hplain

/-- A call that brings nothing into a scope without counting it keeps the caps. -/
theorem caps_of_run {c : Call} {a : Answer} (ht : CapsRespected t) (h : c.program.run t = .ok (a, u))
    (hnone : ∀ event ∈ t.events.rows, Capped event → ∀ scope, CapScope event scope →
      uncounted t event.id scope c = 0) : CapsRespected u := by
  intro event hevent hcap scope hscope
  rw [(Call.effect_of_run h).events] at hevent
  exact capHolds_step h hevent hcap hscope (ht event hevent hcap scope hscope)
    fun hsome => absurd (hnone event hevent hcap scope hscope) hsome

/-- A verb alone keeps the bookings. -/
theorem wellBooked_run {verb : SeatVerb} {a : Answer} (ht : WellBooked t) (hverb : verb.Plain t)
    (h : verb.program.run t = .ok (a, u)) : WellBooked u := by
  cases verb with
  | register env cmd =>
    have hcaps : CapsRespected u := caps_of_run (c := .register env cmd) ht.caps h
      fun event hevent hcap scope hscope => by
        rw [uncounted, slotted_of_plain hcap hscope (hverb event hevent)]
        rfl
    cases register_effect h with
    | refused hrefused => cases hrefused.symm.trans h
    | @registered _ _ _ found slotId admitted room fits =>
      refine ⟨hcaps, fun event hevent r hr => ?_⟩
      rw [Db.registered, Table.rows_push (accepts_of_insertable fits), List.mem_append,
        List.mem_singleton] at hr
      rcases hr with hr | rfl
      · exact ht.plain event hevent r hr
      · intro hcap hsingle hid
        obtain rfl : found = event := Table.eq_of_clash (Table.find_mem admitted.found) hevent (by
          have hfound : found.id = cmd.eventId := by simpa using Table.find_spec admitted.found
          have hid' : cmd.eventId = event.id := hid
          simp [clash, hfound, hid'])
        have hslot : cmd.eventSlotId = slotId := by
          simpa [slotAdmission, hsingle] using admitted.slot
        exact hslot ▸ hverb found hevent hcap hsingle hid
  | transition env id target actor =>
    have hcaps : CapsRespected u := caps_of_run (c := .transition env id target actor) ht.caps h
      fun event hevent hcap scope hscope => by
        cases hr : t.registration? id with
        | none => simp [uncounted, hr]
        | some r =>
          have hplain := ht.plain event hevent r (registration?_mem hr).1
          simp [uncounted, hr, slotted_of_plain hcap hscope hplain]
    cases transition_effect h with
    | refused hrefused => cases hrefused.symm.trans h
    | @transitioned _ r _ _ _ hr seat =>
      have htouch : WellBooked (touch r.id (Registration.moved env.now target) t) :=
        wellBooked_touch ht (fun _ => ⟨rfl, rfl⟩) hcaps
      exact ⟨hcaps, htouch.plain⟩
  | sync checks id partnerId name phone companyName actor =>
    obtain ⟨row, u, hrun, hdone⟩ := Program.run_bind_ok h
    cases hdone
    obtain ⟨r, hr, rfl, -⟩ := locks_sync hrun
    refine wellBooked_touch ht (fun _ => ⟨rfl, rfl⟩) fun event hevent hcap scope hscope => ?_
    have hcount := count_touch (f := Registration.synced partnerId name phone companyName) hr
      (countingScope event.id scope)
    have hsame : countingScope event.id scope
        (Registration.synced partnerId name phone companyName r) = countingScope event.id scope r := by
      rw [countingScope_eq, countingScope_eq]
      rfl
    rw [hsame] at hcount
    have hholds := ht.caps event hevent hcap scope hscope
    simp only [CapHolds, Db.taken] at hholds ⊢
    omega

theorem events_run {verb : SeatVerb} {a : Answer} (h : verb.program.run t = .ok (a, u)) :
    u.events = t.events := by
  cases verb with
  | register env cmd => exact (register_effect h).events
  | transition env id target actor => exact (transition_effect h).events
  | sync checks id partnerId name phone companyName actor =>
    obtain ⟨row, u, hrun, hdone⟩ := Program.run_bind_ok h
    cases hdone
    obtain ⟨r, -, rfl, -⟩ := locks_sync hrun
    rfl

theorem SeatVerb.Plain.of_events {verb : SeatVerb} (h : verb.Plain s)
    (hevents : t.events = s.events) : verb.Plain t := by
  cases verb with
  | register env cmd => exact fun event hevent => h event (hevents ▸ hevent)
  | transition | sync => trivial

end caps

/-- However the verbs interleave, no limited event is ever oversold, in any of its slots or without
slots as a whole, as long as no booking of the latter names a slot. -/
theorem wellBooked_interleaved [Fintype ι] [DecidableEq ι] {s : Db} {verbs : ι → SeatVerb}
    (hs : WellBooked s) (hverbs : ∀ i, (verbs i).Plain s) (schedule : List ι) :
    WellBooked
      (schedule.foldl (World.step Db.absorb) (start s fun i => (verbs i).program)).committed := by
  obtain ⟨events, -, hrun, -⟩ := exists_serialized_verbs s verbs schedule []
  have hkept := hrun.serial.keeps (P := fun t => t.events = s.events ∧ WellBooked t) ⟨rfl, hs⟩
    fun i t ht => ?_
  · exact hkept.2
  · cases hrun : (verbs i).program.run t with
    | error e =>
      rw [execute_error hrun]
      exact ⟨ht.1, ht.2.caps, ht.2.plain⟩
    | ok r =>
      have hkept := wellBooked_run ht.2 ((hverbs i).of_events ht.1) hrun
      rw [execute_ok hrun]
      exact ⟨(events_run hrun).trans ht.1, hkept.caps, hkept.plain⟩

/-- Ann registers twice, statement by statement, for the one seat. -/
theorem wellBooked_interleaved_race :
    WellBooked (([0, 1, 1, 0, 0, 1, 0, 0, 0, 1, 0, 0, 1, 1, 1, 1] : List (Fin 2)).foldl
      (World.step Db.absorb) (start oneSeat fun i =>
        (SeatVerb.register (.counting i.val) ann).program)).committed := by
  refine wellBooked_interleaved ⟨oneSeat_respected, fun event hevent r hr => ?_⟩ (fun i => ?_) _
  · cases hr
  · exact fun event hevent hcap hsingle hid => rfl

end BackboneEvents.SerialSeats
