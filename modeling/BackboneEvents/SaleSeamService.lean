import BackboneEvents.LockOrders
import BackboneEvents.RegistrationBelonging
import BackboneEvents.SeamDeliveries

/-!
# The sale seam service

The boundary the host calls. A confirmed order is refused before its delivery is claimed when
it names nobody, or names somebody without a slot at an event that is multi-slot now. So the
answer to a redelivery is the typed no-op exactly while no event of a slotless attendee is
multi-slot.
-/
namespace BackboneEvents
open ConstrainedTables TransactionPrograms SeamDeliveries EventCommandRepository
open LockOrders

/-- One attendee of a confirmed order. -/
structure RegistrationSpec where
  eventId : Uuid
  eventSlotId : Option Uuid
  eventTicketId : Option Uuid
  name : String
  email : String
  phone : Option String
  companyName : Option String
  partnerId : Option Uuid
  deriving DecidableEq, Repr

structure OrderConfirmed where
  deliveryId : Option String
  orderId : Uuid
  grandTotal : String
  registrations : List RegistrationSpec
  deriving DecidableEq, Repr

/-- The system actor registers, and the mint arms the lead queue. -/
def RegistrationSpec.command (spec : RegistrationSpec) : RegisterCommand where
  eventId := spec.eventId
  eventSlotId := spec.eventSlotId
  eventTicketId := spec.eventTicketId
  name := spec.name
  email := spec.email
  phone := spec.phone
  companyName := spec.companyName
  partnerId := spec.partnerId
  actor := none
  leadRuleSkip := false

namespace SaleSeamService

/-- The multi-slot flag of each named event that is stored. -/
def multiSlotFlags (s : Db) (eventIds : List Uuid) : List (Uuid × Bool) :=
  (s.events.rows.filter fun ev => eventIds.contains ev.id).map fun ev => (ev.id, ev.isMultiSlots)

/-- `flags.get(&spec.event_id).copied().unwrap_or(false) && spec.event_slot_id.is_none()` -/
def unroutable (flags : List (Uuid × Bool)) (spec : RegistrationSpec) : Bool :=
  (flags.lookup spec.eventId).getD false && spec.eventSlotId.isNone

/-- The routing guard, refusing at the first attendee it stops at. -/
def routed (flags : List (Uuid × Bool)) (specs : List RegistrationSpec) : Tx Unit :=
  match specs.find? (unroutable flags) with
  | none => .done ()
  | some spec => .refuse (.validation ("event " ++ uuidText spec.eventId ++
      " is multi-slot: a Cart order cannot choose the attendee's slot — " ++
      "route registrations for it through the direct intake"))

def onOrderConfirmed (env : Env) (consumer : String) (cmd : OrderConfirmed) : Tx SeamOutcome := do
  Program.refuseWhen cmd.registrations.isEmpty
    (.validation "SalesOrderConfirmed carries no attendee specs — nothing to mint")
  let flags ← Program.select
    (fun s : Db => multiSlotFlags s (cmd.registrations.map (·.eventId)).eraseDups)
  routed flags cmd.registrations
  BackboneEvents.onOrderConfirmed env consumer cmd.deliveryId cmd.orderId cmd.grandTotal
    (cmd.registrations.map RegistrationSpec.command) none

/-- The delivery that a routed command hands to the repository. -/
def delivery (env : Env) (consumer : String) (cmd : OrderConfirmed) : SeamCall where
  env := env
  consumer := consumer
  deliveryId := cmd.deliveryId
  orderId := cmd.orderId
  actor := none
  verb := .confirmed cmd.grandTotal (cmd.registrations.map RegistrationSpec.command)

def deliver (env : Env) (consumer : String) (cmd : OrderConfirmed) (s : Db) :
    Except EventError SeamOutcome × Db :=
  (onOrderConfirmed env consumer cmd).execute Db.absorb s

/-- The event of the attendee is multi-slot and the attendee names no slot. -/
def Unroutable (s : Db) (spec : RegistrationSpec) : Prop :=
  spec.eventSlotId = none ∧ (s.event? spec.eventId).any (·.isMultiSlots) = true

instance (s : Db) (spec : RegistrationSpec) : Decidable (Unroutable s spec) :=
  inferInstanceAs (Decidable (_ ∧ _))

section deliveries

variable {s : Db} {env : Env} {consumer : String} {cmd : OrderConfirmed}

theorem lookup_multiSlotFlags (s : Db) {eventIds : List Uuid} {eventId : Uuid}
    (h : eventId ∈ eventIds) :
    (multiSlotFlags s eventIds).lookup eventId = (s.event? eventId).map (·.isMultiSlots) := by
  rw [multiSlotFlags, Db.event?, Table.find]
  induction s.events.rows with
  | nil => rfl
  | cons ev rows ih =>
    by_cases hev : ev.id = eventId
    · subst hev
      simp [h]
    · have hne : (eventId == ev.id) = false := by simpa using Ne.symm hev
      cases hnamed : eventIds.contains ev.id with
      | true =>
        simp only [List.filter_cons, hnamed, if_true, List.map_cons, List.lookup_cons, hne, ih,
          List.find?_cons, beq_eq_false_iff_ne.mpr hev]
      | false =>
        simp only [List.filter_cons, hnamed, Bool.false_eq_true, if_false, ih, List.find?_cons,
          beq_eq_false_iff_ne.mpr hev]

theorem unroutable_iff {spec : RegistrationSpec} (h : spec ∈ cmd.registrations) :
    unroutable (multiSlotFlags s (cmd.registrations.map (·.eventId)).eraseDups) spec = true ↔
      Unroutable s spec := by
  have hmem : spec.eventId ∈ (cmd.registrations.map (·.eventId)).eraseDups :=
    List.mem_eraseDups.mpr (List.mem_map_of_mem h)
  rw [unroutable, lookup_multiSlotFlags s hmem, Bool.and_eq_true, Option.isNone_iff_eq_none,
    Unroutable, and_comm]
  refine and_congr_right fun _ => ?_
  cases s.event? spec.eventId <;> simp

/-- A command whose attendees can all be routed is delivered to the repository. -/
theorem deliver_of_routed (hsome : cmd.registrations ≠ [])
    (h : ∀ spec ∈ cmd.registrations, ¬ Unroutable s spec) :
    deliver env consumer cmd s = (delivery env consumer cmd).program.execute Db.absorb s := by
  have hempty : cmd.registrations.isEmpty = false := List.isEmpty_eq_false_iff.mpr hsome
  have hnone : cmd.registrations.find?
      (unroutable (multiSlotFlags s (cmd.registrations.map (·.eventId)).eraseDups)) = none :=
    List.find?_eq_none.mpr fun spec hspec hguard => h spec hspec ((unroutable_iff hspec).mp hguard)
  simp only [deliver, onOrderConfirmed, hempty, Program.refuseWhen, Bool.false_eq_true, if_false]
  simp only [Program.execute, Program.select, Program.bind_eq, Program.bind, Program.run,
    Program.notes, Program.notesAfter, routed, hnone]
  rfl

/-- A command with an attendee that cannot be routed is refused, its delivery unclaimed. -/
theorem deliver_of_unroutable {spec : RegistrationSpec} (hspec : spec ∈ cmd.registrations)
    (h : Unroutable s spec) :
    ∃ message, deliver env consumer cmd s = (.error (.validation message), s) := by
  have hempty : cmd.registrations.isEmpty = false :=
    List.isEmpty_eq_false_iff.mpr (List.ne_nil_of_mem hspec)
  cases hfind : cmd.registrations.find?
      (unroutable (multiSlotFlags s (cmd.registrations.map (·.eventId)).eraseDups)) with
  | none =>
    have hroutable := List.find?_eq_none.mp hfind spec hspec
    exact absurd ((unroutable_iff hspec).mpr h) (by simpa using hroutable)
  | some first =>
    simp only [deliver, onOrderConfirmed, hempty, Program.refuseWhen, Bool.false_eq_true, if_false]
    simp only [Program.execute, Program.select, Program.bind_eq, Program.bind, Program.run,
      Program.notes, routed, hfind]
    exact ⟨_, rfl⟩

theorem deliver_of_empty (h : cmd.registrations = []) :
    ∃ message, deliver env consumer cmd s = (.error (.validation message), s) := by
  simp only [deliver, onOrderConfirmed, h, List.isEmpty_nil]
  exact ⟨_, rfl⟩

end deliveries

/-- Claimed deliveries stay claimed. -/
def KeepsClaims (f : Db → Db) : Prop :=
  ∀ k s, k ∈ s.seamInbox.rows → k ∈ (f s).seamInbox.rows

/-- A verb on registrations or a patch, a confirmed order at the boundary, a mark, or any other
transaction that keeps what is claimed. -/
inductive SeamAct where
  | event (a : EventAct)
  | confirmed (env : Env) (consumer : String) (cmd : OrderConfirmed)
  | markDone (id : Uuid) (actor : Option Uuid)
  | other (p : Tx Unit) (keeps : Writes KeepsClaims p)

def next (s : Db) : SeamAct → Db
  | .event a => s.after a
  | .confirmed env consumer cmd => (deliver env consumer cmd s).2
  | .markDone id actor => ((EventCommandRepository.markDone id actor).execute Db.absorb s).2
  | .other p _ => (p.execute Db.absorb s).2

section runs

variable {s : Db} {k : InboxRow} {env env' : Env} {consumer : String} {cmd : OrderConfirmed}

theorem mem_seamInbox_execute {α : Type} {p : Tx α} (hp : Writes KeepsClaims p)
    (h : k ∈ s.seamInbox.rows) : k ∈ (p.execute Db.absorb s).2.seamInbox.rows := by
  have hwrites : Writes (fun f => ∀ s : Db, k ∈ s.seamInbox.rows → k ∈ (f s).seamInbox.rows) p :=
    hp.imp fun f hf => hf k
  have habsorb : ∀ (s : Db) (row : AuditRow), k ∈ s.seamInbox.rows →
      k ∈ (s.absorb row).seamInbox.rows := fun _ _ hs => hs
  exact hwrites.execute habsorb h

theorem writes_markDone (id : Uuid) (actor : Option Uuid) :
    Writes KeepsClaims (EventCommandRepository.markDone id actor) := by
  have hsame : ∀ f : Db → Db, (∀ s, (f s).seamInbox = s.seamInbox) → KeepsClaims f :=
    fun f hf k s hk => by rwa [hf]
  refine writes_bind (writes_select (hsame _ fun _ => rfl)) fun _ => ?_
  refine writes_bind (writes_update fun _ => hsame _ fun _ => rfl) fun found => ?_
  refine writes_bind (writes_require found _) fun row => ?_
  exact writes_bind (writes_update fun _ => hsame _ fun _ => rfl) fun _ => trivial

/-- A confirmed order at the boundary is refused, or is a delivery to the repository. -/
theorem deliver_cases (env : Env) (consumer : String) (cmd : OrderConfirmed) (s : Db) :
    (∃ message, deliver env consumer cmd s = (.error (.validation message), s)) ∨
      cmd.registrations ≠ [] ∧
        deliver env consumer cmd s = (delivery env consumer cmd).program.execute Db.absorb s := by
  by_cases hempty : cmd.registrations = []
  · exact .inl (deliver_of_empty hempty)
  by_cases hroutable : ∀ spec ∈ cmd.registrations, ¬ Unroutable s spec
  · exact .inr ⟨hempty, deliver_of_routed hempty hroutable⟩
  · simp only [not_forall, not_not] at hroutable
    obtain ⟨spec, hspec, hguard⟩ := hroutable
    exact .inl (deliver_of_unroutable hspec hguard)

theorem mem_seamInbox_next (a : SeamAct) (h : k ∈ s.seamInbox.rows) :
    k ∈ (next s a).seamInbox.rows := by
  cases a with
  | event a =>
    cases a with
    | call c => exact mem_seamInbox_apply c h
    | patch checks id p actor =>
      rcases after_patch_cases with ⟨heq, -⟩ | ⟨ev, rows, -, -, heq⟩
      · rwa [next, heq]
      · rwa [next, heq]
  | confirmed env consumer cmd =>
    rcases deliver_cases env consumer cmd s with ⟨message, hrefused⟩ | ⟨-, hdelivered⟩
    · rwa [next, hrefused]
    · have happly : (next s (.confirmed env consumer cmd)) =
          (Call.seam (delivery env consumer cmd)).apply s := by
        rw [next, hdelivered, Call.apply, execute_seam]
      rw [happly]
      exact mem_seamInbox_apply _ h
  | markDone id actor => exact mem_seamInbox_execute (writes_markDone id actor) h
  | other p keeps => exact mem_seamInbox_execute keeps h

theorem mem_seamInbox_foldl (acts : List SeamAct) (h : k ∈ s.seamInbox.rows) :
    k ∈ (acts.foldl next s).seamInbox.rows := by
  induction acts generalizing s with
  | nil => exact h
  | cons a acts ih => exact ih (mem_seamInbox_next a h)

/-- An applied confirmed order has claimed its delivery, and names somebody. -/
theorem claimed_of_deliver {outcome : SeamOutcome} (h : (deliver env consumer cmd s).1 = .ok outcome) :
    cmd.registrations ≠ [] ∧
      (delivery env consumer cmd).key ∈ (deliver env consumer cmd s).2.seamInbox.rows := by
  rcases deliver_cases env consumer cmd s with ⟨message, hrefused⟩ | ⟨hsome, hdelivered⟩
  · rw [hrefused] at h
    cases h
  · have hanswer : (Call.seam (delivery env consumer cmd)).answer s = .ok (.seam outcome) := by
      rw [Call.answer, execute_seam, ← hdelivered, h]
      rfl
    have happly : (Call.seam (delivery env consumer cmd)).apply s = (deliver env consumer cmd s).2 := by
      rw [Call.apply, execute_seam, hdelivered]
    exact ⟨hsome, happly ▸ mem_seamInbox_of_answer hanswer⟩

/-- A confirmed order applied once: after any run, delivering it again is the typed no-op if and
only if no event of an attendee without a slot is multi-slot then. -/
theorem redelivered_noop_iff {outcome : SeamOutcome}
    (happlied : (deliver env consumer cmd s).1 = .ok outcome) (acts : List SeamAct) :
    deliver env' consumer cmd (acts.foldl next (deliver env consumer cmd s).2) =
        (.ok alreadyApplied, acts.foldl next (deliver env consumer cmd s).2) ↔
      ∀ spec ∈ cmd.registrations,
        ¬ Unroutable (acts.foldl next (deliver env consumer cmd s).2) spec := by
  obtain ⟨hsome, hclaimed⟩ := claimed_of_deliver happlied
  have hkey : (delivery env' consumer cmd).key ∈
      (acts.foldl next (deliver env consumer cmd s).2).seamInbox.rows :=
    mem_seamInbox_foldl acts hclaimed
  constructor
  · intro hnoop spec hspec hguard
    obtain ⟨message, hrefused⟩ := deliver_of_unroutable hspec hguard
    rw [hrefused] at hnoop
    cases hnoop
  · intro hroutable
    rw [deliver_of_routed hsome hroutable]
    exact program_of_claimed hkey

end runs

section sample

/-- One attendee without a slot at event 1, for a free order. -/
def annsOrder : OrderConfirmed :=
  ⟨some "a", 7, "0", [⟨1, none, none, "Ann", "ann@x", none, none, none⟩]⟩

def applied : Db := (deliver (.counting 10) "events" annsOrder oneSeat).2

/-- The event closes its seats, and the order is cancelled. -/
def closedAndCancelled : List SeamAct :=
  [.event (.patch (fun _ => true) 1 { PatchEventInput.empty with seatsMax := some 0 } none),
    .event (.call (.seam ⟨.counting 20, "events", some "b", 7, none, .cancelled⟩))]

theorem redelivered_noop_closedAndCancelled :
    deliver (.counting 30) "events" annsOrder (closedAndCancelled.foldl next applied) =
      (.ok alreadyApplied, closedAndCancelled.foldl next applied) := by
  have happlied : (deliver (.counting 10) "events" annsOrder oneSeat).1 = .ok ⟨false, 1, 0⟩ := by
    decide
  exact (redelivered_noop_iff happlied closedAndCancelled).mpr (by decide)

/-- The event turns multi-slot. -/
def turnedMultiSlot : List SeamAct := [.event (.patch (fun _ => true) 1 multiSlots none)]

theorem turnedMultiSlot_refused :
    (deliver (.counting 10) "events" annsOrder oneSeat).1 = .ok ⟨false, 1, 0⟩ ∧
    ¬ deliver (.counting 30) "events" annsOrder (turnedMultiSlot.foldl next applied) =
      (.ok alreadyApplied, turnedMultiSlot.foldl next applied) := by
  decide

end sample

end SaleSeamService

end BackboneEvents
