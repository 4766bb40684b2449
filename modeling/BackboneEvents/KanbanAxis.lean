import BackboneEvents.EventLifecycle
import BackboneEvents.GuardedRuns
import BackboneEvents.LockOrders

/-!
# The kanban axis of an event

Cancellation should be sticky and a move to another stage should reset the other marks. A patch
writes the stage and never the kanban state, the sweep passes over cancelled events, and the
mark of an officer does not. So the law holds in a run exactly while nobody marks a cancelled
event done, and an event that changes its stage is cancelled or normal before.
-/
namespace BackboneEvents.EventLifecycle
open ConstrainedTables TransactionPrograms GuardedRuns LockOrders

inductive EventVerb where
  | create (env : EventEnv) (input : CreateEventInput) (actor : Option Uuid)
  | patch (env : EventEnv) (id : Uuid) (p : PatchEventInput) (actor : Option Uuid)
  | publish (env : EventEnv) (id : Uuid) (actor : Option Uuid)
  | unpublish (id : Uuid) (actor : Option Uuid)
  | markDone (id : Uuid) (actor : Option Uuid)
  | sweepMarkDone (now : Timestamp) (scan : Uuid → ℕ) (locked : Uuid → Bool) (limit : ℤ)

/-- The database after the verb: its commit, or what a rollback leaves. -/
def next (s : EventDb) : EventVerb → EventDb
  | .create env input actor => ((create env input actor).execute EventDb.absorb s).2
  | .patch env id p actor => ((patch env id p actor).execute EventDb.absorb s).2
  | .publish env id actor => ((publish env id actor).execute EventDb.absorb s).2
  | .unpublish id actor => ((unpublish id actor).execute EventDb.absorb s).2
  | .markDone id actor => ((markDone id actor).execute EventDb.absorb s).2
  | .sweepMarkDone now scan locked limit =>
    ((sweepMarkDone now scan locked limit).execute EventDb.absorb s).2

/-- A cancelled event of `s` is a cancelled event of `t`. -/
def Sticky (s t : EventDb) : Prop :=
  ∀ row ∈ s.events.rows, row.kanbanState = .cancel →
    ∃ row' ∈ t.events.rows, row'.id = row.id ∧ row'.kanbanState = .cancel

/-- A patch that changes the stage of an event that is not cancelled leaves it normal. -/
def Resets (s : EventDb) (verb : EventVerb) : Prop :=
  match verb with
  | .patch _ id _ _ => ∀ row ∈ s.events.rows, row.id = id →
      ∀ row' ∈ (next s verb).events.rows, row'.id = id → row'.stageId ≠ row.stageId →
        row.kanbanState ≠ .cancel → row'.kanbanState = .normal
  | .create _ _ _ | .publish _ _ _ | .unpublish _ _ | .markDone _ _
  | .sweepMarkDone _ _ _ _ => True

/-- Cancellation is sticky from any moment of the run to any later one, and every change of
stage resets. -/
def KanbanLaw (s : EventDb) (verbs : List EventVerb) : Prop :=
  Steadily next Sticky s verbs ∧ Along next Resets s verbs

/-- Who is marked done is not cancelled, and who is moved to another stage is cancelled or
normal. -/
def AxisKept (s : EventDb) : EventVerb → Prop
  | .patch env id p _ => ∀ row ∈ s.events.rows, row.id = id → accepted env p s row = true →
      p.stageId.getD row.stageId ≠ row.stageId →
      row.kanbanState = .cancel ∨ row.kanbanState = .normal
  | .markDone id _ => ∀ row ∈ s.events.rows, row.id = id → row.kanbanState ≠ .cancel
  | .create _ _ _ | .publish _ _ _ | .unpublish _ _ | .sweepMarkDone _ _ _ _ => True

section verbs

variable {s t u : EventDb} {id : Uuid}

theorem Sticky.refl (s : EventDb) : Sticky s s := fun row hrow hcancel => ⟨row, hrow, rfl, hcancel⟩

theorem Sticky.trans (h : Sticky s t) (h' : Sticky t u) : Sticky s u := by
  intro row hrow hcancel
  obtain ⟨row', hrow', hid', hcancel'⟩ := h row hrow hcancel
  obtain ⟨row'', hrow'', hid'', hcancel''⟩ := h' row' hrow' hcancel'
  exact ⟨row'', hrow'', hid''.trans hid', hcancel''⟩

theorem sticky_of_events (h : t.events = s.events) : Sticky s t :=
  fun row hrow hcancel => ⟨row, h ▸ hrow, rfl, hcancel⟩

/-- An update that leaves cancelled events cancelled. -/
theorem sticky_of_modify {p : EventRow → Bool} {f : Update EventRow}
    (hrows : t.events = s.events.modify p f) (hid : ∀ row, (f row).id = row.id)
    (h : ∀ row ∈ s.events.rows, p row = true → row.kanbanState = .cancel →
      (f row).kanbanState = .cancel) : Sticky s t := by
  intro row hrow hcancel
  refine ⟨_, hrows ▸ Table.mem_modify.mpr ⟨row, hrow, rfl⟩, ?_, ?_⟩
  · split
    · exact hid row
    · rfl
  · split
    · next hp => exact h row hrow hp hcancel
    · exact hcancel

theorem sticky_updateEvent {allowed : EventDb → EventRow → Bool} {f : Update EventRow}
    {audit : AuditRow} (hid : ∀ row, (f row).id = row.id)
    (h : ∀ row, (f row).kanbanState = row.kanbanState) :
    Sticky s ((updateEvent id allowed f audit).execute EventDb.absorb s).2 := by
  rw [execute_updateEvent]
  split
  · exact sticky_of_modify rfl hid fun row _ _ hcancel => (h row).trans hcancel
  · exact .refl s

theorem sticky_sweep (now : Timestamp) (scan : Uuid → ℕ) (locked : Uuid → Bool) (limit : ℤ) :
    Sticky s (next s (.sweepMarkDone now scan locked limit)) := by
  rw [next]
  by_cases hlimit : 0 ≤ limit
  · rw [execute_sweepMarkDone now scan locked hlimit]
    refine sticky_of_modify rfl (fun _ => rfl) fun row hrow hswept hcancel => ?_
    obtain ⟨row', hrow', hid⟩ := List.any_eq_true.mp hswept
    obtain ⟨hmem, hsweepable⟩ := mem_swept hrow'
    obtain rfl := row_eq_of_id hrow hmem (beq_iff_eq.mp hid)
    simp [sweepable, SchedulerRepository.sweeps, hcancel] at hsweepable
  · rw [execute_sweepMarkDone_negative now scan locked (by omega)]
    exact .refl s

theorem sticky_create (env : EventEnv) (input : CreateEventInput) (actor : Option Uuid) :
    Sticky s (next s (.create env input actor)) := by
  have hsame : ∀ f : EventDb → EventDb, (∀ t, (f t).events = t.events) → ∀ t, Sticky s t →
      Sticky s (f t) := fun f hf t ht => ht.trans (sticky_of_events (hf t))
  have hstage : Writes (fun f => ∀ t, Sticky s t → Sticky s (f t)) (openingStage env) := by
    refine writes_bind (writes_select fun _ ht => ht) fun first => ?_
    cases first with
    | some stage => trivial
    | none => exact writes_update fun _ => hsame _ fun _ => rfl
  have hinsert : ∀ row, Writes (fun f => ∀ t, Sticky s t → Sticky s (f t))
      (insertEvent env input row) := by
    refine fun row => writes_bind (writes_update fun v t ht => ?_) fun _ => writes_refuseWhen _ _
    split
    · refine ht.trans fun old hold hcancel => ⟨old, Table.mem_push hold, rfl, hcancel⟩
    · exact ht
  have htemplates : ∀ eventId typeId, Writes (fun f => ∀ t, Sticky s t → Sticky s (f t))
      (applyTemplates env eventId typeId) := by
    intro eventId typeId
    cases typeId with
    | none => trivial
    | some typeId =>
      refine writes_bind (writes_update fun _ => hsame _ fun _ => rfl) fun _ => ?_
      refine writes_bind (writes_refuseWhen _ _) fun _ => ?_
      refine writes_bind (writes_update fun _ => hsame _ fun _ => rfl) fun _ => ?_
      exact writes_refuseWhen _ _
  have hwrites : Writes (fun f => ∀ t, Sticky s t → Sticky s (f t)) (create env input actor) := by
    refine writes_bind hstage fun stageId => writes_bind (hinsert _) fun _ => ?_
    refine writes_bind (htemplates _ _) fun _ => ?_
    exact writes_bind (writes_update fun _ => hsame _ fun _ => rfl) fun _ => trivial
  have habsorb : ∀ (t : EventDb) (row : AuditRow), Sticky s t → Sticky s (t.absorb row) :=
    fun _ _ ht => ht.trans (sticky_of_events rfl)
  exact hwrites.execute habsorb (.refl s)

/-- The mark of an officer is the one verb that takes a cancellation away. -/
theorem sticky_markDone_iff (actor : Option Uuid) : Sticky s (next s (.markDone id actor)) ↔
    ∀ row ∈ s.events.rows, row.id = id → row.kanbanState ≠ .cancel := by
  rw [next, execute_markDone]
  constructor
  · rintro h row hrow rfl hcancel
    rw [event?_of_mem hrow] at h
    obtain ⟨row', hrow', hid, hcancel'⟩ := h row hrow hcancel
    obtain ⟨x, hx, rfl⟩ := Table.mem_modify.mp hrow'
    by_cases hp : x.id = row.id
    · rw [if_pos (by simpa using hp)] at hcancel'
      cases hcancel'
    · rw [if_neg (by simpa using hp)] at hid
      exact hp hid
  · intro h
    split
    · refine sticky_of_modify rfl (fun _ => rfl) fun row hrow hp hcancel => ?_
      exact absurd hcancel (h row hrow (beq_iff_eq.mp hp))
    · exact .refl s

/-- The event after a patch of it: the patched row when that is accepted, else the row itself. -/
theorem patched_row {env : EventEnv} {p : PatchEventInput} {actor : Option Uuid} {row : EventRow}
    (hrow : row ∈ s.events.rows) (row' : EventRow) :
    row' ∈ (next s (.patch env row.id p actor)).events.rows ∧ row'.id = row.id ↔
      row' = if accepted env p s row then EventRow.patched p row else row := by
  rw [next, patch, execute_updateEvent, event?_of_mem hrow, Option.any_some]
  cases accepted env p s row with
  | false =>
    simp only [Bool.false_eq_true, if_false]
    constructor
    · rintro ⟨hmem, hid⟩
      exact row_eq_of_id hrow hmem hid
    · rintro rfl
      exact ⟨hrow, rfl⟩
  | true =>
    simp only [if_true]
    constructor
    · rintro ⟨hmem, hid⟩
      obtain ⟨x, hx, rfl⟩ := Table.mem_modify.mp hmem
      by_cases hxid : x.id = row.id
      · rw [if_pos (by simpa using hxid), row_eq_of_id hrow hx hxid]
      · rw [if_neg (by simpa using hxid)] at hid
        exact absurd hid hxid
    · rintro rfl
      exact ⟨Table.mem_modify.mpr ⟨row, hrow, if_pos (by simp)⟩, rfl⟩

theorem resets_patch_iff (env : EventEnv) (p : PatchEventInput) (actor : Option Uuid) :
    Resets s (.patch env id p actor) ↔ AxisKept s (.patch env id p actor) := by
  constructor
  · rintro h row hrow rfl haccepted hstage
    by_cases hcancel : row.kanbanState = .cancel
    · exact .inl hcancel
    · obtain ⟨hmem, hid⟩ := (@patched_row s env p actor row hrow (EventRow.patched p row)).mpr
        (if_pos haccepted).symm
      have hreset := h row hrow rfl (EventRow.patched p row) hmem hid hstage hcancel
      exact .inr hreset
  · rintro h row hrow rfl row' hrow' hid hstage hcancel
    have hrow'' := (patched_row hrow row').mp ⟨hrow', hid⟩
    cases haccepted : accepted env p s row with
    | false =>
      rw [haccepted, if_neg Bool.false_ne_true] at hrow''
      rw [hrow''] at hstage
      exact absurd rfl hstage
    | true =>
      rw [haccepted, if_pos rfl] at hrow''
      rw [hrow''] at hstage ⊢
      exact (h row hrow rfl haccepted hstage).resolve_left hcancel

/-- What a verb has to meet to be sticky, apart from what it has to meet to reset. -/
theorem axisKept_iff (verb : EventVerb) :
    Sticky s (next s verb) ∧ Resets s verb ↔ AxisKept s verb := by
  cases verb with
  | create env input actor => exact iff_of_true ⟨sticky_create env input actor, trivial⟩ trivial
  | patch env id p actor =>
    rw [resets_patch_iff]
    exact and_iff_right (sticky_updateEvent (fun _ => rfl) fun _ => rfl)
  | publish env id actor =>
    exact iff_of_true ⟨sticky_updateEvent (fun _ => rfl) fun _ => rfl, trivial⟩ trivial
  | unpublish id actor =>
    exact iff_of_true ⟨sticky_updateEvent (fun _ => rfl) fun _ => rfl, trivial⟩ trivial
  | markDone id actor => exact (and_iff_left trivial).trans (sticky_markDone_iff actor)
  | sweepMarkDone now scan locked limit =>
    exact iff_of_true ⟨sticky_sweep now scan locked limit, trivial⟩ trivial

end verbs

/-- The law of the kanban axis holds in a run if and only if no cancelled event is marked done,
and every event whose stage an accepted patch changes is cancelled or normal before. -/
theorem kanbanLaw_iff (s : EventDb) (verbs : List EventVerb) :
    KanbanLaw s verbs ↔ Along next AxisKept s verbs := by
  have hsticky : Steadily next Sticky s verbs ↔
      Along next (fun s verb => Sticky s (next s verb)) s verbs :=
    steadily_iff_along .refl (fun _ _ _ => .trans) fun _ _ => Iff.rfl
  rw [KanbanLaw, hsticky, ← along_and]
  exact along_congr fun s verb => axisKept_iff verb

section sample

instance (s t : EventDb) : Decidable (Sticky s t) :=
  inferInstanceAs (Decidable (∀ row ∈ s.events.rows, row.kanbanState = .cancel →
    ∃ row' ∈ t.events.rows, row'.id = row.id ∧ row'.kanbanState = .cancel))

/-- An event in the first of two stages, in the given kanban state. -/
def staged (kanbanState : KanbanState) : EventDb where
  events := Table.empty.push
    ⟨{ gig with kanbanState := kanbanState }, 1, 1, .a4FrenchFold, false, none⟩
  stages := (Table.empty.push ⟨1, "New", 1, false⟩).push ⟨2, "Booked", 2, false⟩
  typeMails := .empty
  typeBooths := .empty
  mails := .empty
  booths := .empty
  auditTrails := []

def sampleEnv : EventEnv := ⟨0, 9, 9, id, id, fun _ => true, fun _ => true⟩

/-- A move to the second stage. -/
def toBooked : EventVerb :=
  .patch sampleEnv 1 { PatchEventInput.empty with stageId := some 2 } none

/-- A cancelled event is marked done, and a blocked event is moved and stays blocked. -/
theorem markedDone_notSticky : ¬ KanbanLaw (staged .cancel) [.markDone 1 none] ∧
    ¬ KanbanLaw (staged .blocked) [toBooked] := by
  constructor
  · rintro ⟨hsticky, -⟩
    have hlost : Sticky (staged .cancel) (next (staged .cancel) (.markDone 1 none)) :=
      hsticky [] [_] [] rfl
    exact absurd hlost (by decide)
  · rintro ⟨-, hresets, -⟩
    have hmoved := hresets _ List.mem_cons_self rfl
      ⟨{ gig with kanbanState := .blocked }, 2, 1, .a4FrenchFold, false, none⟩ (by decide) rfl
      (by decide) (by decide)
    cases hmoved

end sample

end BackboneEvents.EventLifecycle
