import BackboneEvents.SeatRepository

/-! # The event repository: the whole row, its patch, its reads and the publication gate -/
namespace BackboneEvents
open ConstrainedTables TransactionPrograms

inductive BadgeFormat where
  | a4FrenchFold | a6 | fourPerSheet
  deriving DecidableEq, Repr

/-- The cast `::event_badge_format`, which refuses any other text. -/
def BadgeFormat.ofText : String → Option BadgeFormat
  | "a4_french_fold" => some .a4FrenchFold
  | "a6" => some .a6
  | "four_per_sheet" => some .fourPerSheet
  | _ => none

/-- An event with the columns that only the event verbs and the public surface use. -/
structure EventRow extends Event where
  stageId : Uuid
  eventSlotCount : ℤ
  badgeFormat : BadgeFormat
  isPublished : Bool
  datePublish : Option Timestamp
  deriving DecidableEq, Repr

structure SlotRow extends Slot where
  dateBegin : Timestamp
  dateEnd : Option Timestamp
  deriving DecidableEq, Repr

instance : Keyed EventRow where
  clash a b := a.id == b.id
  clash_self _ := by simp
  clash_comm _ _ := BEq.comm

instance : Keyed SlotRow where
  clash a b := a.id == b.id
  clash_self _ := by simp
  clash_comm _ _ := BEq.comm

/-- The tables the public surface reads. -/
structure PublicDb where
  events : Table EventRow
  slots : Table SlotRow
  registrations : Table Registration

/-- The whitelisted patch; `none` leaves the stored value, and the publication pair is absent. -/
structure PatchEventInput where
  name : Option String
  eventTypeId : Option Uuid
  stageId : Option Uuid
  dateBegin : Option Timestamp
  dateEnd : Option Timestamp
  dateTz : Option String
  isMultiSlots : Option Bool
  eventSlotCount : Option ℤ
  seatsLimited : Option Bool
  seatsMax : Option ℤ
  organizerId : Option Uuid
  userId : Option Uuid
  addressId : Option Uuid
  eventUrl : Option String
  badgeFormat : Option String
  deriving DecidableEq, Repr

def PatchEventInput.empty : PatchEventInput :=
  ⟨none, none, none, none, none, none, none, none, none, none, none, none, none, none, none⟩

/-- `COALESCE`, column by column. -/
def Event.patched (p : PatchEventInput) : Update Event where
  toFun ev := { ev with
    name := p.name.getD ev.name
    eventTypeId := p.eventTypeId.or ev.eventTypeId
    dateBegin := p.dateBegin.getD ev.dateBegin
    dateEnd := p.dateEnd.getD ev.dateEnd
    dateTz := p.dateTz.getD ev.dateTz
    isMultiSlots := p.isMultiSlots.getD ev.isMultiSlots
    seatsLimited := p.seatsLimited.getD ev.seatsLimited
    seatsMax := p.seatsMax.getD ev.seatsMax }
  keeps _ _ := rfl

def Event.markedDone : Update Event where
  toFun ev := { ev with kanbanState := .done }
  keeps _ _ := rfl

namespace EventCommandRepository

/-- The CHECKs on the columns of the model; `checks` holds the references and the CHECKs on the
other columns of the patch. -/
def patchable (checks : PatchEventInput → Bool) (p : PatchEventInput) (ev : Event) : Bool :=
  decide ((Event.patched p ev).dateBegin ≤ (Event.patched p ev).dateEnd) &&
    decide (0 ≤ (Event.patched p ev).seatsMax) && checks p

/-- One statement; its audit row follows on the pool. -/
def patch (checks : PatchEventInput → Bool) (id : Uuid) (p : PatchEventInput)
    (actor : Option Uuid) : Tx Event :=
  .statement (fun v => if (v.event? id).isSome then [.event id] else [])
    (fun v s => if (v.event? id).any (patchable checks p) then
      { s with events := s.events.modify (fun ev => ev.id == id) (Event.patched p) } else s)
    (fun v => match v.event? id with
      | none => .refuse .eventNotFound
      | some ev =>
        if patchable checks p ev then
          .noteAfter (auditRow "event_updated" actor "event" (some id) .eventPatched)
            (.done (Event.patched p ev))
        else .refuse (.database "events: constraint violated"))

theorem run_patch_none (checks : PatchEventInput → Bool) (p : PatchEventInput)
    (actor : Option Uuid) {s : Db} {id : Uuid} (h : s.event? id = none) :
    (patch checks id p actor).run s = .error .eventNotFound := by
  simp [patch, h]

theorem run_patch_some (checks : PatchEventInput → Bool) (p : PatchEventInput)
    (actor : Option Uuid) {s : Db} {id : Uuid} {ev : Event} (h : s.event? id = some ev) :
    (patch checks id p actor).run s =
      if patchable checks p ev then
        .ok (Event.patched p ev,
          { s with events := s.events.modify (fun ev => ev.id == id) (Event.patched p) })
      else .error (.database "events: constraint violated") := by
  cases hp : patchable checks p ev <;> simp [patch, h, hp]

/-- The verb moves the row to the closing stage too, a column the event does not show here. -/
def markDone (id : Uuid) (actor : Option Uuid) : Tx Event := do
  Program.select (fun _ : Db => ())
  let found ← .update (fun v => if (v.event? id).isSome then [.event id] else [])
    (fun v s => { s with events := s.events.modify (v.events.matched (·.id == id)) Event.markedDone })
    (fun v : Db => (v.event? id).map Event.markedDone)
  let row ← Program.require found .eventNotFound
  recordAudit (auditRow "event_mark_done" actor "event" (some id) .eventMarkedDone)
  return row

def find (s : PublicDb) (id : Uuid) : Except EventError EventRow :=
  match s.events.find fun ev => ev.id == id with
  | none => .error .eventNotFound
  | some row => .ok row

/-- Only a published row that is not cancelled resolves. -/
def findPublished (s : PublicDb) (id : Uuid) : Except EventError EventRow :=
  match find s id with
  | .error .eventNotFound => .error .eventNotPublished
  | .error other => .error other
  | .ok row =>
    if !row.isPublished || row.kanbanState == .cancel then .error .eventNotPublished else .ok row

/-- A slot's hours, when the slot belongs to the event. -/
def slotWindowOfEvent (s : PublicDb) (slotId eventId : Uuid) :
    Option (Uuid × Timestamp × Timestamp) :=
  (s.slots.find fun sl => sl.id == slotId && sl.eventId == eventId).map fun sl =>
    (sl.id, sl.dateBegin, sl.dateEnd.getD sl.dateBegin)

variable {s : PublicDb} {id : Uuid}

/-- Missing, unpublished and cancelled are one refusal. -/
theorem findPublished_cases (s : PublicDb) (id : Uuid) :
    findPublished s id = .error .eventNotPublished ∨
      ∃ row, findPublished s id = .ok row ∧ row ∈ s.events.rows ∧ row.id = id ∧
        row.isPublished = true ∧ row.kanbanState ≠ .cancel := by
  cases hfound : s.events.find fun ev => ev.id == id with
  | none =>
    have hfind : find s id = .error .eventNotFound := by rw [find, hfound]
    exact .inl (by rw [findPublished, hfind])
  | some row =>
    have hfind : find s id = .ok row := by rw [find, hfound]
    rw [findPublished, hfind]
    by_cases hgate : (!row.isPublished || row.kanbanState == .cancel) = true
    · exact .inl (if_pos hgate)
    · refine .inr ⟨row, if_neg hgate, List.mem_of_find?_eq_some hfound, ?_, ?_⟩
      · simpa using List.find?_some hfound
      · simpa using hgate

end EventCommandRepository

end BackboneEvents
