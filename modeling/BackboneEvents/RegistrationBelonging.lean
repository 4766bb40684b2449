import BackboneEvents.EventCommandRepository
import BackboneEvents.GuardedRuns
import BackboneEvents.VerbCalls

/-!
# Registrations belong to their event

The trigger on a registration's references fires where one is written, and the multi-slot
flag lives on the event. So the belonging is kept by every verb on registrations, and by a
patch unless it turns the flag on over a slotless registration.
-/
namespace BackboneEvents
open ConstrainedTables TransactionPrograms GuardedRuns EventCommandRepository

/-- A verb on registrations, or a patch of an event. -/
inductive EventAct where
  | call (c : Call)
  | patch (checks : PatchEventInput → Bool) (id : Uuid) (p : PatchEventInput)
      (actor : Option Uuid)

def Db.after (s : Db) : EventAct → Db
  | .call c => s.next c
  | .patch checks id p actor => ((EventCommandRepository.patch checks id p actor).execute
      Db.absorb s).2

/-- The slot and the ticket of a registration are its event's, and on a multi-slot event it has
a slot. -/
structure Belongs (s : Db) (r : Registration) : Prop where
  slot : ∀ slot, r.eventSlotId = some slot →
    ∃ sl ∈ s.slots.rows, sl.id = slot ∧ sl.eventId = r.eventId
  ticket : ∀ ticket, r.eventTicketId = some ticket →
    ∃ t ∈ s.tickets.rows, t.id = ticket ∧ t.eventId = r.eventId
  slotted : ∀ ev ∈ s.events.rows, ev.id = r.eventId → ev.isMultiSlots = true →
    r.eventSlotId.isSome = true

def AllBelong (s : Db) : Prop := ∀ r ∈ s.registrations.rows, Belongs s r

/-- A patch that is accepted turns the flag on only where no registration is slotless. -/
def KeepsSlotted (s : Db) : EventAct → Prop
  | .call _ => True
  | .patch checks id p _ => p.isMultiSlots = some true →
      (s.event? id).any (patchable checks p) = true →
      ∀ r ∈ s.registrations.rows, r.eventId = id → r.eventSlotId.isSome = true

section Verbs

variable {s t : Db}

theorem event?_mem {id : Uuid} {ev : Event} (h : s.event? id = some ev) :
    ev ∈ s.events.rows ∧ ev.id = id :=
  ⟨Table.find_mem h, by simpa using Table.find_spec h⟩

theorem event?_eq_some_of_mem {ev : Event} (h : ev ∈ s.events.rows) : s.event? ev.id = some ev :=
  Table.find_eq_some h (by simp) (fun x hx => by simp only [beq_iff_eq] at hx; simp [clash, hx])

/-- What the trigger checks is the belonging. -/
theorem belongs_of_assert {r : Registration} (h : assertRegistrationBelonging s r = true) :
    Belongs s r := by
  rw [assertRegistrationBelonging] at h
  split at h
  · cases h
  next event hevent =>
  simp only [Bool.and_eq_true, Option.all_eq_true] at h
  obtain ⟨⟨hmulti, hslot⟩, hticket⟩ := h
  refine ⟨fun slot hs => ?_, fun ticket ht => ?_, fun ev hev hid hflag => ?_⟩
  · obtain ⟨sl, hsl⟩ := Option.isSome_iff_exists.mp (hslot slot hs)
    have hspec := Table.find_spec hsl
    simp only [Bool.and_eq_true, beq_iff_eq] at hspec
    exact ⟨sl, Table.find_mem hsl, hspec⟩
  · obtain ⟨tk, htk⟩ := Option.isSome_iff_exists.mp (hticket ticket ht)
    have hspec := Table.find_spec htk
    simp only [Bool.and_eq_true, beq_iff_eq] at hspec
    exact ⟨tk, Table.find_mem htk, hspec⟩
  · have hfound := event?_eq_some_of_mem hev
    rw [hid, hevent] at hfound
    cases hfound
    cases hs : r.eventSlotId with
    | none => simp [hflag, hs] at hmulti
    | some slot => rfl

theorem Belongs.congr {r r' : Registration} (h : Belongs s r) (hevents : t.events = s.events)
    (hslots : t.slots = s.slots) (htickets : t.tickets = s.tickets)
    (hevent : r'.eventId = r.eventId) (hslot : r'.eventSlotId = r.eventSlotId)
    (hticket : r'.eventTicketId = r.eventTicketId) : Belongs t r' := by
  refine ⟨fun slot hs => ?_, fun ticket ht => ?_, fun ev hev hid => ?_⟩
  · rw [hslots, hevent]
    exact h.slot slot (hslot ▸ hs)
  · rw [htickets, hevent]
    exact h.ticket ticket (hticket ▸ ht)
  · rw [hslot]
    exact h.slotted ev (hevents ▸ hev) (hevent ▸ hid)

/-- An update of registrations keeps their references. -/
theorem AllBelong.modified (h : AllBelong s) {p : Registration → Bool} {f : Update Registration}
    (hevents : t.events = s.events) (hslots : t.slots = s.slots) (htickets : t.tickets = s.tickets)
    (hrows : t.registrations = s.registrations.modify p f)
    (hf : ∀ r, (f r).eventId = r.eventId ∧ (f r).eventSlotId = r.eventSlotId ∧
      (f r).eventTicketId = r.eventTicketId) : AllBelong t := by
  intro r hr
  rw [hrows] at hr
  obtain ⟨x, hx, rfl⟩ := Table.mem_modify.mp hr
  split
  · obtain ⟨hevent, hslot, hticket⟩ := hf x
    exact (h x hx).congr hevents hslots htickets hevent hslot hticket
  · exact (h x hx).congr hevents hslots htickets rfl rfl rfl

theorem AllBelong.registered (h : AllBelong s) {env : Env} {row : Registration}
    (hfits : insertable s env row = true) (env' : Env) (cmd : RegisterCommand) (sale : Bool) :
    AllBelong (s.registered env' cmd sale row) := by
  simp only [insertable, Bool.and_eq_true] at hfits
  intro r hr
  rw [Db.registered, Table.rows_push hfits.2, List.mem_append, List.mem_singleton] at hr
  rcases hr with hr | rfl
  · exact (h r hr).congr rfl rfl rfl rfl rfl rfl
  · exact (belongs_of_assert hfits.1.1).congr rfl rfl rfl rfl rfl rfl

theorem AllBelong.minted {env : Env} {link : SaleLink} {k : ℕ} {specs : List RegisterCommand}
    (hmint : Minted env link k specs s t) (h : AllBelong s) : AllBelong t := by
  induction hmint with
  | nil k s => exact h
  | cons head tail ih =>
    obtain ⟨event, slotId, -, -, -, hfits, rfl⟩ := run_registerCore_ok head
    exact ih (h.registered hfits _ _ _)

/-- No verb on registrations lets one stray. -/
theorem AllBelong.effect {c : Call} (hc : c.Effect s t) (h : AllBelong s) : AllBelong t := by
  cases hc with
  | refused | replayed => exact h
  | registered admitted room fits => exact h.registered fits _ _ _
  | transitioned found seat => exact h.modified rfl rfl rfl rfl fun _ => ⟨rfl, rfl, rfl⟩
  | minted verb fresh unlinked mint =>
    exact AllBelong.minted mint fun r hr => (h r hr).congr rfl rfl rfl rfl rfl rfl
  | freeHealed verb fresh linked free =>
    exact h.modified rfl rfl rfl rfl fun _ => ⟨rfl, rfl, rfl⟩
  | heldBack verb fresh linked paid =>
    exact h.modified rfl rfl rfl rfl fun _ => ⟨rfl, rfl, rfl⟩
  | cancelled verb fresh => exact h.modified rfl rfl rfl rfl fun _ => ⟨rfl, rfl, rfl⟩
  | @paid c _ lineIds verb fresh =>
    let healed := s.registrations.modify (paidHeals c.orderId) Registration.paidHealed
    have hheal : AllBelong { s with registrations := healed } :=
      h.modified rfl rfl rfl rfl fun _ => ⟨rfl, rfl, rfl⟩
    exact hheal.modified rfl rfl rfl rfl fun _ => ⟨rfl, rfl, rfl⟩

theorem AllBelong.next (h : AllBelong s) (c : Call) : AllBelong (s.next c) := by
  obtain ⟨t, rows, heffect, happly⟩ := c.apply_effect s
  rw [Db.next, happly]
  exact fun r hr => (h.effect heffect r hr).congr rfl rfl rfl rfl rfl rfl

end Verbs

section Patch

variable {s : Db} {checks : PatchEventInput → Bool} {id : Uuid} {p : PatchEventInput}
  {actor : Option Uuid}

/-- A patch that is accepted changes the columns of its event; any other changes nothing. -/
theorem after_patch_cases : (s.after (.patch checks id p actor) = s ∧
      (s.event? id).any (patchable checks p) = false) ∨
    ∃ ev rows, s.event? id = some ev ∧ patchable checks p ev = true ∧
      s.after (.patch checks id p actor) = Db.audited
        { s with events := s.events.modify (fun ev => ev.id == id) (Event.patched p) } rows := by
  cases hev : s.event? id with
  | none =>
    refine .inl ⟨?_, rfl⟩
    rw [Db.after, execute_error (run_patch_none checks p actor hev)]
    simp [patch, Program.notes, hev, Db.audited]
  | some ev =>
    cases hp : patchable checks p ev with
    | false =>
      refine .inl ⟨?_, hp⟩
      have hrun := run_patch_some checks p actor hev
      rw [hp] at hrun
      rw [Db.after, execute_error hrun]
      simp [patch, Program.notes, hev, hp, Db.audited]
    | true =>
      have hrun := run_patch_some checks p actor hev
      rw [hp, if_pos rfl] at hrun
      have hafter := congrArg Prod.snd (execute_ok hrun)
      exact .inr ⟨ev, _, rfl, hp, hafter⟩

theorem allBelong_patch_iff (h : AllBelong s) :
    AllBelong (s.after (.patch checks id p actor)) ↔
      KeepsSlotted s (.patch checks id p actor) := by
  rcases after_patch_cases with ⟨heq, hrefused⟩ | ⟨ev, rows, hev, hp, heq⟩
  · rw [heq]
    refine iff_of_true h fun _ haccepted => ?_
    rw [hrefused] at haccepted
    cases haccepted
  · rw [heq]
    obtain ⟨hmem, hid⟩ := event?_mem hev
    constructor
    · intro hall hflag _ r hr hevent
      have hpatched : Event.patched p ev ∈
          (s.events.modify (fun ev => ev.id == id) (Event.patched p)).rows :=
        Table.mem_modify.mpr ⟨ev, hmem, if_pos (by simp [hid])⟩
      refine (hall r hr).slotted _ hpatched ?_ ?_
      · rw [hevent]
        exact hid
      · simp [Event.patched, hflag]
    · intro hkeeps r hr
      refine ⟨(h r hr).slot, (h r hr).ticket, fun x hx hxid hxflag => ?_⟩
      obtain ⟨y, hy, rfl⟩ := Table.mem_modify.mp hx
      by_cases hyid : y.id = id
      · rw [if_pos (by simp [hyid])] at hxid hxflag
        have hevent : r.eventId = id := hxid.symm.trans hyid
        cases hflag : p.isMultiSlots with
        | none =>
          have hyflag : y.isMultiSlots = true := by simpa [Event.patched, hflag] using hxflag
          exact (h r hr).slotted y hy (hyid.trans hevent.symm) hyflag
        | some b =>
          have hb : b = true := by simpa [Event.patched, hflag] using hxflag
          subst hb
          exact hkeeps hflag (by rw [hev]; exact hp) r hr hevent
      · rw [if_neg (by simp [hyid])] at hxid hxflag
        exact (h r hr).slotted y hy hxid hxflag

end Patch

/-- Over a run, every registration belongs at every moment if and only if no accepted patch
turns the multi-slot flag on over a slotless registration. -/
theorem belonging_throughout_iff (s : Db) (acts : List EventAct) (h : AllBelong s) :
    Throughout Db.after AllBelong s acts ↔ Along Db.after KeepsSlotted s acts :=
  throughout_iff_along h fun s a hs => by
    cases a with
    | call c => exact iff_of_true (hs.next c) trivial
    | patch checks id p actor => exact allBelong_patch_iff hs

section Sample

/-- A patch of the multi-slot flag alone. -/
def multiSlots : PatchEventInput := { PatchEventInput.empty with isMultiSlots := some true }

theorem allBelong_oneSeat : AllBelong oneSeat := fun r hr => by cases hr

theorem belonging_throughout_iff_patchedFirst : Throughout Db.after AllBelong oneSeat
    [.patch (fun _ => true) 1 multiSlots none, .call (.register (.counting 1) ann)] := by
  rw [belonging_throughout_iff oneSeat _ allBelong_oneSeat]
  refine ⟨fun _ _ r hr => ?_, trivial, trivial⟩
  cases hr

/-- An attendee registers without a slot, and the event turns multi-slot. -/
theorem patchedLast_strays : ¬ Throughout Db.after AllBelong oneSeat
    [.call (.register (.counting 1) ann), .patch (fun _ => true) 1 multiSlots none] := by
  rw [belonging_throughout_iff oneSeat _ allBelong_oneSeat]
  rintro ⟨-, hpatch, -⟩
  have hslotted : ∀ r ∈ (oneSeat.next (.register (.counting 1) ann)).registrations.rows,
      r.eventId = 1 → r.eventSlotId.isSome = true := hpatch rfl (by decide)
  exact absurd hslotted (by decide)

end Sample

end BackboneEvents
