import BackboneEvents.EventCommandRepository
import BackboneEvents.SchedulerSweeps
import BackboneEvents.TemplateCascade

/-!
# The lifecycle of an event

The event verbs over whole event rows: the stage an event rests in, the kanban axis and the
publication pair, with the stages, the templates of the event types and what a create copies
from them. Each verb is one transaction.
-/
namespace BackboneEvents
open ConstrainedTables TransactionPrograms

/-- `pipe_end` marks a closing stage. -/
structure EventStage where
  id : Uuid
  name : String
  sequence : ℕ
  pipeEnd : Bool
  deriving DecidableEq, Repr

/-- A booth template of an event type. -/
structure TypeBooth where
  id : Uuid
  eventTypeId : Uuid
  deriving DecidableEq, Repr

instance : Keyed EventStage where
  clash a b := a.id == b.id
  clash_self _ := by simp
  clash_comm _ _ := BEq.comm

instance : Keyed TypeBooth where
  clash a b := a.id == b.id
  clash_self _ := by simp
  clash_comm _ _ := BEq.comm

/-- The tables of the event verbs. -/
structure EventDb where
  events : Table EventRow
  stages : Table EventStage
  typeMails : Table TypeMail
  typeBooths : Table TypeBooth
  mails : Table Mail
  booths : Table Booth
  auditTrails : List AuditRow
  deriving DecidableEq

abbrev EventTx := Program EventDb Lock AuditRow EventError

structure CreateEventInput where
  name : String
  eventTypeId : Option Uuid
  dateBegin : Timestamp
  dateEnd : Timestamp
  dateTz : Option String
  isMultiSlots : Bool
  eventSlotCount : ℤ
  seatsLimited : Bool
  seatsMax : ℤ
  organizerId : Option Uuid
  userId : Option Uuid
  addressId : Option Uuid
  eventUrl : Option String
  badgeFormat : Option String
  deriving DecidableEq, Repr

/-- What an event verb finds outside the database: `now()`, the fresh ids, and the references and
CHECKs on the columns that are not stored here. -/
structure EventEnv where
  now : Timestamp
  eventId : Uuid
  stageId : Uuid
  mailId : Uuid → Uuid
  boothId : Uuid → Uuid
  createChecks : CreateEventInput → Bool
  patchChecks : PatchEventInput → Bool

namespace EventDb

def absorb (s : EventDb) (row : AuditRow) : EventDb :=
  { s with auditTrails := s.auditTrails ++ [row] }

def event? (s : EventDb) (id : Uuid) : Option EventRow := s.events.find (·.id == id)

/-- `ORDER BY sequence, id LIMIT 1`. -/
def firstStage (s : EventDb) (p : EventStage → Bool) : Option EventStage :=
  ((s.stages.rows.filter p).insertionSort
    fun a b => a.sequence < b.sequence ∨ a.sequence = b.sequence ∧ a.id ≤ b.id).head?

/-- The event rests in a closing stage. -/
def resting (s : EventDb) (row : EventRow) : Bool :=
  s.stages.rows.any fun st => st.id == row.stageId && st.pipeEnd

end EventDb

/-- An audited fact in the transaction of an event verb. -/
def recordEventAudit (row : AuditRow) : EventTx Unit :=
  .update (fun _ => []) (fun _ s => s.absorb row) (fun _ => ())

def EventRow.patched (p : PatchEventInput) : Update EventRow where
  toFun row := { row with
    toEvent := Event.patched p row.toEvent
    stageId := p.stageId.getD row.stageId
    eventSlotCount := p.eventSlotCount.getD row.eventSlotCount
    badgeFormat := (p.badgeFormat.bind BadgeFormat.ofText).getD row.badgeFormat }
  keeps _ _ := rfl

def EventRow.published (now : Timestamp) : Update EventRow where
  toFun row := { row with isPublished := true, datePublish := row.datePublish.or (some now) }
  keeps _ _ := rfl

def EventRow.unpublished : Update EventRow where
  toFun row := { row with isPublished := false }
  keeps _ _ := rfl

/-- `kanban_state = 'done', stage_id = COALESCE($2, stage_id)`. -/
def EventRow.markedDone (pipeEnd : Option Uuid) : Update EventRow where
  toFun row := { row with
    toEvent := Event.markedDone row.toEvent
    stageId := pipeEnd.getD row.stageId }
  keeps _ _ := rfl

/-- `kanban_state = 'done'` alone. -/
def EventRow.sweptDone : Update EventRow where
  toFun row := { row with toEvent := Event.markedDone row.toEvent }
  keeps _ _ := rfl

namespace EventLifecycle

/-- A badge format that is given is one of the enum's. -/
def castable (badgeFormat : Option String) : Bool :=
  badgeFormat.all fun text => (BadgeFormat.ofText text).isSome

/-- The CHECKs on a stored row: the order of its dates, its seats and its slot count. -/
def storable (row : EventRow) : Bool :=
  decide (row.dateBegin ≤ row.dateEnd) && decide (0 ≤ row.seatsMax) &&
    decide (1 ≤ row.eventSlotCount) && decide (row.eventSlotCount ≤ 100)

def bornEvent (env : EventEnv) (input : CreateEventInput) (stageId : Uuid) : EventRow where
  id := env.eventId
  name := input.name
  eventTypeId := input.eventTypeId
  kanbanState := .normal
  dateBegin := input.dateBegin
  dateEnd := input.dateEnd
  dateTz := input.dateTz.getD "UTC"
  isMultiSlots := input.isMultiSlots
  seatsLimited := input.seatsLimited
  seatsMax := input.seatsMax
  orgUnitId := none
  stageId := stageId
  eventSlotCount := input.eventSlotCount
  badgeFormat := (input.badgeFormat.bind BadgeFormat.ofText).getD .a4FrenchFold
  isPublished := false
  datePublish := none

def constraintViolated : EventError := .database "events: constraint violated"

/-- The first stage, made when there is none. -/
def openingStage (env : EventEnv) : EventTx Uuid := do
  let first ← Program.select (fun s : EventDb => s.firstStage fun _ => true)
  match first with
  | some stage => return stage.id
  | none =>
    .update (fun _ => [])
      (fun _ s => { s with stages := s.stages.push ⟨env.stageId, "New", 1, false⟩ })
      (fun _ => env.stageId)

/-- The row to insert passes its cast, its CHECKs and the unique keys. -/
def insertableEvent (env : EventEnv) (input : CreateEventInput) (row : EventRow) (s : EventDb) : Bool :=
  castable input.badgeFormat && storable row && env.createChecks input && s.events.accepts row

def insertEvent (env : EventEnv) (input : CreateEventInput) (row : EventRow) : EventTx Unit := do
  let fits ← .update (fun _ => [.event row.id])
    (fun v s => if insertableEvent env input row v then { s with events := s.events.push row } else s)
    (fun v : EventDb => insertableEvent env input row v)
  Program.refuseWhen (!fits) constraintViolated

def templateMail (env : EventEnv) (eventId : Uuid) (tm : TypeMail) : Mail :=
  ⟨env.mailId tm.id, eventId, tm.intervalNbr, tm.intervalUnit, tm.intervalKind,
    tm.notificationChannel, some env.now, false, none, tm.templateRef, tm.templateKind, none, none⟩

def templateBooth (env : EventEnv) (eventId : Uuid) (tb : TypeBooth) : Booth :=
  ⟨env.boothId tb.id, eventId, .available, none, none, none, none, none, false⟩

/-- The rows a create copies from its event type. -/
def templateMails (env : EventEnv) (eventId typeId : Uuid) (s : EventDb) : List Mail :=
  (s.typeMails.rows.filter (·.eventTypeId == typeId)).map (templateMail env eventId)

def templateBooths (env : EventEnv) (eventId typeId : Uuid) (s : EventDb) : List Booth :=
  (s.typeBooths.rows.filter (·.eventTypeId == typeId)).map (templateBooth env eventId)

/-- The one place where a type's templates are copied onto an event. -/
def applyTemplates (env : EventEnv) (eventId : Uuid) : Option Uuid → EventTx Unit
  | none => return ()
  | some typeId => do
    let mailsFit ← .update (fun _ => [])
      (fun v s => { s with
        mails := (s.mails.insertAll (templateMails env eventId typeId v)).getD s.mails })
      (fun v : EventDb => (v.mails.insertAll (templateMails env eventId typeId v)).isSome)
    Program.refuseWhen (!mailsFit) (.database "mails: constraint violated")
    let boothsFit ← .update (fun _ => [])
      (fun v s => { s with
        booths := (s.booths.insertAll (templateBooths env eventId typeId v)).getD s.booths })
      (fun v : EventDb => (v.booths.insertAll (templateBooths env eventId typeId v)).isSome)
    Program.refuseWhen (!boothsFit) (.database "booths: constraint violated")

def create (env : EventEnv) (input : CreateEventInput) (actor : Option Uuid) : EventTx EventRow := do
  let stageId ← openingStage env
  insertEvent env input (bornEvent env input stageId)
  applyTemplates env env.eventId input.eventTypeId
  recordEventAudit (auditRow "event_created" actor "event" (some env.eventId)
    (.eventCreated input.name input.eventTypeId))
  return bornEvent env input stageId

/-- The patched row passes its cast and its CHECKs, and its stage exists. -/
def accepted (env : EventEnv) (p : PatchEventInput) (s : EventDb) (row : EventRow) : Bool :=
  castable p.badgeFormat && storable (EventRow.patched p row) &&
    p.stageId.all (fun id => s.stages.rows.any (·.id == id)) && env.patchChecks p

/-- One `UPDATE event.events .. WHERE id = $1 RETURNING ..` whose audit row follows on the pool. -/
def updateEvent (id : Uuid) (allowed : EventDb → EventRow → Bool) (f : Update EventRow)
    (audit : AuditRow) : EventTx EventRow :=
  .statement (fun v => if (v.event? id).isSome then [.event id] else [])
    (fun v s => if (v.event? id).any (allowed v) then
      { s with events := s.events.modify (fun row => row.id == id) f } else s)
    (fun v => match v.event? id with
      | none => .refuse .eventNotFound
      | some row =>
        if allowed v row then .noteAfter audit (.done (f row)) else .refuse constraintViolated)

def patch (env : EventEnv) (id : Uuid) (p : PatchEventInput) (actor : Option Uuid) :
    EventTx EventRow :=
  updateEvent id (accepted env p) (EventRow.patched p)
    (auditRow "event_updated" actor "event" (some id) .eventPatched)

def publish (env : EventEnv) (id : Uuid) (actor : Option Uuid) : EventTx EventRow :=
  updateEvent id (fun _ _ => true) (EventRow.published env.now)
    (auditRow "event_published" actor "event" (some id) .eventPublished)

def unpublish (id : Uuid) (actor : Option Uuid) : EventTx EventRow :=
  updateEvent id (fun _ _ => true) EventRow.unpublished
    (auditRow "event_unpublished" actor "event" (some id) .eventUnpublished)

def markDone (id : Uuid) (actor : Option Uuid) : EventTx EventRow := do
  let pipeEnd ← Program.select (fun s : EventDb => (s.firstStage EventStage.pipeEnd).map EventStage.id)
  let found ← .update (fun v => if (v.event? id).isSome then [.event id] else [])
    (fun _ s => { s with
      events := s.events.modify (fun row => row.id == id) (EventRow.markedDone pipeEnd) })
    (fun v : EventDb => (v.event? id).map (EventRow.markedDone pipeEnd))
  let row ← Program.require found .eventNotFound
  recordEventAudit (auditRow "event_mark_done" actor "event" (some id) .eventMarkedDone)
  return row

/-- A past event that is neither done nor cancelled and rests in no closing stage. -/
def sweepable (now : Timestamp) (s : EventDb) (row : EventRow) : Bool :=
  SchedulerRepository.sweeps now (fun _ => s.resting row) row.toEvent

/-- The events a sweep claims, earliest end first, those locked elsewhere skipped. -/
def swept (now : Timestamp) (scan : Uuid → ℕ) (locked : Uuid → Bool) (limit : ℕ) (s : EventDb) :
    List EventRow :=
  ((scanned scan (fun row : EventRow => row.id)
    (s.events.rows.filter fun row => sweepable now s row && !locked row.id)).insertionSort
      fun a b => a.dateEnd ≤ b.dateEnd).take limit

/-- One audit row for each swept event. -/
def auditSweep : List Uuid → EventTx Unit
  | [] => return ()
  | id :: ids => do
    recordEventAudit (auditRow "event_mark_done" none "event" (some id) .doneSweep)
    auditSweep ids

def sweepMarkDone (now : Timestamp) (scan : Uuid → ℕ) (locked : Uuid → Bool) (limit : ℤ) :
    EventTx (List Uuid) := do
  Program.refuseWhen (decide (limit < 0)) (.database "LIMIT must not be negative")
  let ids ← .update
    (fun v => (swept now scan locked limit.toNat v).map fun row => .event row.id)
    (fun v s => { s with
      events := s.events.modify
        (fun row => (swept now scan locked limit.toNat v).any (·.id == row.id)) EventRow.sweptDone })
    (fun v : EventDb => (swept now scan locked limit.toNat v).map (fun row => row.id))
  auditSweep ids
  return ids

section effects

variable {s : EventDb} {id : Uuid}

theorem event?_mem {row : EventRow} (h : s.event? id = some row) : row ∈ s.events.rows ∧ row.id = id :=
  ⟨Table.find_mem h, by simpa using Table.find_spec h⟩

theorem event?_of_mem {row : EventRow} (h : row ∈ s.events.rows) : s.event? row.id = some row :=
  Table.find_eq_some h (by simp) fun _ hx => hx

theorem row_eq_of_id {row row' : EventRow} (h : row ∈ s.events.rows) (h' : row' ∈ s.events.rows)
    (hid : row'.id = row.id) : row' = row :=
  Table.eq_of_clash h' h (by simp [clash, hid])

/-- An update of one event: nothing, or the row as `f` makes it, with its audit row. -/
theorem execute_updateEvent (allowed : EventDb → EventRow → Bool) (f : Update EventRow)
    (audit : AuditRow) : ((updateEvent id allowed f audit).execute EventDb.absorb s).2 =
      if (s.event? id).any (allowed s) then
        EventDb.absorb { s with events := s.events.modify (fun row => row.id == id) f } audit
      else s := by
  cases hfind : s.event? id with
  | none => simp [updateEvent, Program.execute, Program.notes, hfind]
  | some row =>
    cases hallowed : allowed s row <;>
      simp [updateEvent, Program.execute, Program.notes, Program.notesAfter, hfind, hallowed]

theorem execute_markDone (actor : Option Uuid) :
    ((markDone id actor).execute EventDb.absorb s).2 =
      if (s.event? id).isSome then
        EventDb.absorb { s with
          events := s.events.modify (fun row => row.id == id)
            (EventRow.markedDone ((s.firstStage EventStage.pipeEnd).map EventStage.id)) }
          (auditRow "event_mark_done" actor "event" (some id) .eventMarkedDone)
      else s := by
  cases hfind : s.event? id with
  | none =>
    simp [markDone, Program.execute, Program.select, Program.update, Program.bind, Program.require,
      Program.notes, hfind]
  | some row =>
    simp [markDone, Program.execute, Program.select, Program.update, Program.bind, Program.require,
      recordEventAudit, Program.notes, Program.notesAfter, hfind]

theorem answer_markDone {row : EventRow} (hrow : row ∈ s.events.rows) (actor : Option Uuid) :
    ((markDone row.id actor).execute EventDb.absorb s).1 =
      .ok (EventRow.markedDone ((s.firstStage EventStage.pipeEnd).map EventStage.id) row) := by
  simp [markDone, Program.execute, Program.select, Program.update, Program.bind, Program.require,
    recordEventAudit, event?_of_mem hrow]

theorem firstStage_mem {p : EventStage → Bool} {stage : EventStage}
    (h : s.firstStage p = some stage) : stage ∈ s.stages.rows ∧ p stage = true := by
  have hmem := List.mem_of_head? h
  rw [List.mem_insertionSort] at hmem
  exact List.mem_filter.mp hmem

theorem firstStage_none_iff {p : EventStage → Bool} :
    s.firstStage p = none ↔ ∀ stage ∈ s.stages.rows, p stage = false := by
  rw [EventDb.firstStage, List.head?_eq_none_iff, ← List.length_eq_zero_iff,
    List.length_insertionSort, List.length_eq_zero_iff, List.filter_eq_nil_iff]
  simp

def sweepAudit (id : Uuid) : AuditRow :=
  auditRow "event_mark_done" none "event" (some id) .doneSweep

theorem run_auditSweep {α : Type} (a : α) (ids : List Uuid) (s : EventDb) :
    ((auditSweep ids).bind fun _ => .done a).run s =
        .ok (a, { s with auditTrails := s.auditTrails ++ ids.map sweepAudit }) ∧
      ((auditSweep ids).bind fun _ => .done a).notes s = [] ∧
      ((auditSweep ids).bind fun _ => .done a).notesAfter s = [] := by
  induction ids generalizing s with
  | nil => simp [auditSweep, Program.bind, Program.notes, Program.notesAfter]
  | cons id ids ih =>
    have hnext := ih (s.absorb (sweepAudit id))
    rw [List.map_cons, List.append_cons]
    exact hnext

/-- A sweep marks the events it claims and records each. -/
theorem execute_sweepMarkDone (now : Timestamp) (scan : Uuid → ℕ) (locked : Uuid → Bool)
    {limit : ℤ} (hlimit : 0 ≤ limit) (s : EventDb) :
    (sweepMarkDone now scan locked limit).execute EventDb.absorb s =
      (.ok ((swept now scan locked limit.toNat s).map fun row => row.id),
        { s with
          events := s.events.modify
            (fun row => (swept now scan locked limit.toNat s).any (·.id == row.id)) EventRow.sweptDone
          auditTrails := s.auditTrails ++
            (swept now scan locked limit.toNat s).map (fun row => sweepAudit row.id) }) := by
  obtain ⟨hrun, hnotes, hafter⟩ := run_auditSweep
    ((swept now scan locked limit.toNat s).map fun row => row.id)
    ((swept now scan locked limit.toNat s).map fun row => row.id)
    { s with
      events := s.events.modify
        (fun row => (swept now scan locked limit.toNat s).any (·.id == row.id)) EventRow.sweptDone }
  rw [List.map_map] at hrun
  have hsign : decide (limit < 0) = false := decide_eq_false (by omega)
  simp only [sweepMarkDone, hsign, Program.refuseWhen, Bool.false_eq_true, if_false, Program.bind_eq,
    Program.bind, Program.execute, Program.update, Program.run, Program.notes, Program.notesAfter,
    Program.pure_eq, hrun, hnotes, hafter]
  rfl

theorem execute_sweepMarkDone_negative (now : Timestamp) (scan : Uuid → ℕ) (locked : Uuid → Bool)
    {limit : ℤ} (hlimit : limit < 0) (s : EventDb) :
    (sweepMarkDone now scan locked limit).execute EventDb.absorb s =
      (.error (.database "LIMIT must not be negative"), s) := by
  rw [sweepMarkDone, decide_eq_true hlimit]
  rfl

theorem mem_swept {now : Timestamp} {scan : Uuid → ℕ} {locked : Uuid → Bool} {limit : ℕ}
    {row : EventRow} (h : row ∈ swept now scan locked limit s) :
    row ∈ s.events.rows ∧ sweepable now s row = true := by
  have hsorted := List.mem_of_mem_take h
  rw [List.mem_insertionSort, scanned, List.mem_insertionSort, List.mem_filter,
    Bool.and_eq_true] at hsorted
  exact ⟨hsorted.1, hsorted.2.1⟩

end effects

end EventLifecycle

end BackboneEvents
