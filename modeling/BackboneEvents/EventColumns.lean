import BackboneEvents.EventEffects

/-!
# The event verbs on the columns of an event

The seat, booth and audit verbs know an event by the columns they read. There a patch, a mark and
a sweep do what they do to whole rows, and give the same answers.
-/
namespace BackboneEvents.EventLifecycle
open ConstrainedTables TransactionPrograms

/-- The same events, without the columns of the event verbs, and the same audit trail. -/
structure SameColumns (s : EventDb) (t : Db) : Prop where
  events : t.events.rows = s.events.rows.map EventRow.toEvent
  auditTrails : t.auditTrails = s.auditTrails

/-- The event with this id rests in a closing stage. -/
def closed (s : EventDb) (id : Uuid) : Bool := (s.event? id).any s.resting

/-- What a patch is refused for apart from the dates and the seats. -/
def otherChecks (env : EventEnv) (s : EventDb) (p : PatchEventInput) : Bool :=
  castable p.badgeFormat && p.eventSlotCount.all (fun n => decide (1 ≤ n) && decide (n ≤ 100)) &&
    p.stageId.all (fun id => s.stages.rows.any (·.id == id)) && env.patchChecks p

section verbs

variable {s : EventDb} {t : Db} {id : Uuid}

theorem SameColumns.event? (h : SameColumns s t) (id : Uuid) :
    t.event? id = (s.event? id).map EventRow.toEvent := by
  rw [Db.event?, Table.find, h.events, List.find?_map]
  rfl

/-- A change of these columns, made on both sides to the same events. -/
theorem SameColumns.modify (h : SameColumns s t) {p : EventRow → Bool} {q : Event → Bool}
    {f : Update EventRow} {g : Update Event} (hsame : ∀ row ∈ s.events.rows, q row.toEvent = p row)
    (hshown : ∀ row, (f row).toEvent = g row.toEvent) :
    SameColumns { s with events := s.events.modify p f }
      { t with events := t.events.modify q g } where
  events := by
    rw [Table.rows_modify, Table.rows_modify, h.events, List.map_map, List.map_map]
    refine List.map_congr_left fun row hrow => ?_
    simp only [Function.comp_apply, hsame row hrow]
    split
    · exact (hshown row).symm
    · rfl
  auditTrails := h.auditTrails

theorem SameColumns.absorb (h : SameColumns s t) (row : AuditRow) :
    SameColumns (s.absorb row) (t.absorb row) :=
  ⟨h.events, congrArg (· ++ [row]) h.auditTrails⟩

theorem patchable_eq_accepted {env : EventEnv} {p : PatchEventInput} {row : EventRow}
    (hstorable : storable row = true) :
    EventCommandRepository.patchable (otherChecks env s) p row.toEvent = accepted env p s row := by
  simp only [storable, Bool.and_eq_true, decide_eq_true_eq] at hstorable
  rw [Bool.eq_iff_iff]
  cases hcount : p.eventSlotCount with
  | none =>
    simp only [EventCommandRepository.patchable, otherChecks, accepted, storable, EventRow.patched,
      hcount, Option.all_none, Option.getD_none, Bool.and_eq_true, decide_eq_true_eq]
    tauto
  | some n =>
    simp only [EventCommandRepository.patchable, otherChecks, accepted, storable, EventRow.patched,
      hcount, Option.all_some, Option.getD_some, Bool.and_eq_true, decide_eq_true_eq]
    tauto

/-- Equal answers as far as the columns go, and the same columns afterwards. -/
def Agree (whole : Except EventError EventRow × EventDb) (seen : Except EventError Event × Db) :
    Prop :=
  seen.1 = whole.1.map EventRow.toEvent ∧ SameColumns whole.2 seen.2

theorem agree_patch (h : SameColumns s t) (hstorable : ∀ row ∈ s.events.rows, storable row = true)
    (env : EventEnv) (id : Uuid) (p : PatchEventInput) (actor : Option Uuid) :
    Agree ((patch env id p actor).execute EventDb.absorb s)
      ((EventCommandRepository.patch (otherChecks env s) id p actor).execute Db.absorb t) := by
  have hevent := h.event? id
  cases hfind : s.event? id with
  | none =>
    rw [hfind] at hevent
    refine ⟨?_, ?_⟩ <;>
      simp [patch, updateEvent, EventCommandRepository.patch, Program.execute, Program.notes,
        hfind, hevent, Except.map, h]
  | some row =>
    rw [hfind] at hevent
    have hsame := @patchable_eq_accepted s env p row (hstorable row (event?_mem hfind).1)
    cases haccepted : accepted env p s row with
    | false =>
      rw [haccepted] at hsame
      refine ⟨?_, ?_⟩ <;>
        simp [patch, updateEvent, EventCommandRepository.patch, Program.execute, Program.notes,
          hfind, hevent, haccepted, hsame, Except.map, h, constraintViolated]
    | true =>
      rw [haccepted] at hsame
      have hshown := (h.modify (p := fun row => row.id == id) (q := fun ev => ev.id == id)
        (f := EventRow.patched p) (g := Event.patched p) (fun _ _ => rfl) fun _ => rfl).absorb
          (auditRow "event_updated" actor "event" (some id) .eventPatched)
      refine ⟨?_, ?_⟩
      · simp [patch, updateEvent, EventCommandRepository.patch, Program.execute, hfind, hevent,
          haccepted, hsame, Except.map, EventRow.patched]
      · simpa [patch, updateEvent, EventCommandRepository.patch, Program.execute, Program.notes,
          Program.notesAfter, hfind, hevent, haccepted, hsame] using hshown

theorem agree_markDone (h : SameColumns s t) (id : Uuid) (actor : Option Uuid) :
    Agree ((markDone id actor).execute EventDb.absorb s)
      ((EventCommandRepository.markDone id actor).execute Db.absorb t) := by
  have hevent := h.event? id
  cases hfind : s.event? id with
  | none =>
    rw [hfind] at hevent
    refine ⟨?_, ?_⟩ <;>
      simp [markDone, EventCommandRepository.markDone, Program.execute, Program.select,
        Program.update, Program.bind, Program.require, Program.notes, hfind, hevent, Except.map, h]
  | some row =>
    rw [hfind] at hevent
    have hshown := (h.modify (p := fun row => row.id == id) (q := fun ev => ev.id == id)
      (f := EventRow.markedDone ((s.firstStage EventStage.pipeEnd).map EventStage.id))
      (g := Event.markedDone) (fun _ _ => rfl) fun _ => rfl).absorb
        (auditRow "event_mark_done" actor "event" (some id) .eventMarkedDone)
    refine ⟨?_, ?_⟩
    · simp [markDone, EventCommandRepository.markDone, Program.execute, Program.select,
        Program.update, Program.bind, Program.require, recordEventAudit, recordAudit, hfind, hevent,
        Except.map, EventRow.markedDone]
    · simpa [markDone, EventCommandRepository.markDone, Program.execute, Program.select,
        Program.update, Program.bind, Program.require, recordEventAudit, recordAudit, Program.notes,
        Program.notesAfter, hfind, hevent, Db.absorb] using hshown

/-- Both sweeps claim the same events, in the same order. -/
theorem swept_shown (h : SameColumns s t) (now : Timestamp) (scan : Uuid → ℕ) (locked : Uuid → Bool)
    (limit : ℕ) : SchedulerRepository.swept now scan (closed s) locked limit t =
      (swept now scan locked limit s).map EventRow.toEvent := by
  have hclaimed : t.events.rows.filter (fun ev =>
      SchedulerRepository.sweeps now (closed s) ev && !locked ev.id) =
        (s.events.rows.filter fun row => sweepable now s row && !locked row.id).map
          EventRow.toEvent := by
    rw [h.events, List.filter_map]
    refine congrArg _ (List.filter_congr fun row hrow => ?_)
    simp [sweepable, SchedulerRepository.sweeps, closed, event?_of_mem hrow]
  rw [SchedulerRepository.swept, swept, hclaimed, scanned, scanned, List.map_take]
  refine congrArg _ ?_
  rw [List.map_insertionSort (fun a b : EventRow => a.dateEnd ≤ b.dateEnd)
      (fun a b : Event => a.dateEnd ≤ b.dateEnd) EventRow.toEvent _ fun _ _ _ _ => Iff.rfl,
    List.map_insertionSort (fun a b : EventRow => scan a.id ≤ scan b.id)
      (fun a b : Event => scan a.id ≤ scan b.id) EventRow.toEvent _ fun _ _ _ _ => Iff.rfl]

theorem run_auditSweep_shown {α : Type} (a : α) (ids : List Uuid) (t : Db) :
    ((SchedulerRepository.auditSweep ids).bind fun _ => .done a).run t =
        .ok (a, { t with auditTrails := t.auditTrails ++ ids.map sweepAudit }) ∧
      ((SchedulerRepository.auditSweep ids).bind fun _ => .done a).notes t = [] ∧
      ((SchedulerRepository.auditSweep ids).bind fun _ => .done a).notesAfter t = [] := by
  induction ids generalizing t with
  | nil => simp [SchedulerRepository.auditSweep, Program.bind, Program.notes, Program.notesAfter]
  | cons id ids ih =>
    have hnext := ih (t.absorb (sweepAudit id))
    rw [List.map_cons, List.append_cons]
    exact hnext

/-- The sweep of the columns, where the closing stages are those of `s`. -/
def sweepColumns (s : EventDb) (now : Timestamp) (scan : Uuid → ℕ) (locked : Uuid → Bool)
    (limit : ℤ) (t : Db) : Except EventError (List Uuid) × Db :=
  (SchedulerRepository.sweepMarkDone now scan (closed s) locked limit).execute Db.absorb t

theorem agree_sweepMarkDone (h : SameColumns s t) (now : Timestamp) (scan : Uuid → ℕ)
    (locked : Uuid → Bool) (limit : ℤ) :
    (sweepColumns s now scan locked limit t).1 =
        ((sweepMarkDone now scan locked limit).execute EventDb.absorb s).1 ∧
      SameColumns ((sweepMarkDone now scan locked limit).execute EventDb.absorb s).2
        (sweepColumns s now scan locked limit t).2 := by
  rw [sweepColumns]
  by_cases hlimit : 0 ≤ limit
  · have hsign : decide (limit < 0) = false := decide_eq_false (by omega)
    have hshown := h.modify (f := EventRow.sweptDone) (g := Event.markedDone)
      (p := fun row => (swept now scan locked limit.toNat s).any (·.id == row.id))
      (q := fun ev =>
        ((swept now scan locked limit.toNat s).map EventRow.toEvent).any (·.id == ev.id))
      (fun row _ => by rw [List.any_map]; rfl) fun _ => rfl
    obtain ⟨hrun, hnotes, hafter⟩ := run_auditSweep_shown
      (((swept now scan locked limit.toNat s).map EventRow.toEvent).map Event.id)
      (((swept now scan locked limit.toNat s).map EventRow.toEvent).map Event.id)
      { t with
        events := t.events.modify (fun ev =>
          ((swept now scan locked limit.toNat s).map EventRow.toEvent).any (·.id == ev.id))
          Event.markedDone }
    rw [execute_sweepMarkDone now scan locked hlimit]
    simp only [SchedulerRepository.sweepMarkDone, hsign, Program.refuseWhen, Bool.false_eq_true,
      if_false, Program.bind_eq, Program.bind, Program.execute, Program.update, Program.run,
      Program.notes, Program.notesAfter, Program.pure_eq, swept_shown h, Table.modify_matched_self,
      hrun, hnotes, hafter]
    refine ⟨?_, hshown.events, ?_⟩
    · rw [List.map_map]
      rfl
    · rw [List.nil_append, List.foldl_nil, h.auditTrails, List.map_map, List.map_map]
      rfl
  · rw [execute_sweepMarkDone_negative now scan locked (by omega)]
    have hsign : decide (limit < 0) = true := decide_eq_true (by omega)
    rw [SchedulerRepository.sweepMarkDone, hsign]
    exact ⟨rfl, h⟩

end verbs

/-- The verb on the columns; creates and the publication verbs are verbs of whole rows only. -/
def onColumns (s : EventDb) (t : Db) : EventVerb → Option Db
  | .patch env id p actor =>
    some ((EventCommandRepository.patch (otherChecks env s) id p actor).execute Db.absorb t).2
  | .markDone id actor => some ((EventCommandRepository.markDone id actor).execute Db.absorb t).2
  | .sweepMarkDone now scan locked limit => some (sweepColumns s now scan locked limit t).2
  | .create _ _ _ | .publish _ _ _ | .unpublish _ _ => none

/-- Such verbs one after the other, each on the columns that the ones before it left. -/
def runOnColumns : EventDb → Db → List EventVerb → Option Db
  | _, t, [] => some t
  | s, t, verb :: verbs => (onColumns s t verb).bind fun u => runOnColumns (next s verb) u verbs

section run

variable {s : EventDb} {t u : Db}

theorem sameColumns_next (hsound : Sound s) (h : SameColumns s t) {verb : EventVerb}
    (hverb : onColumns s t verb = some u) : SameColumns (next s verb) u := by
  cases verb with
  | patch env id p actor =>
    rw [← Option.some.inj hverb]
    exact (agree_patch h (fun row hrow => (hsound.events row hrow).storable) env id p actor).2
  | markDone id actor =>
    rw [← Option.some.inj hverb]
    exact (agree_markDone h id actor).2
  | sweepMarkDone now scan locked limit =>
    rw [← Option.some.inj hverb]
    exact (agree_sweepMarkDone h now scan locked limit).2
  | create | publish | unpublish => cases hverb

/-- Whatever the verbs of a run, the columns stay those of the whole rows. -/
theorem sameColumns_run (hsound : Sound s) (h : SameColumns s t) {verbs : List EventVerb}
    (hrun : runOnColumns s t verbs = some u) : SameColumns (verbs.foldl next s) u := by
  induction verbs generalizing s t with
  | nil => exact Option.some.inj hrun ▸ h
  | cons verb verbs ih =>
    obtain ⟨v, hverb, hrest⟩ := Option.bind_eq_some_iff.mp hrun
    exact ih (sound_next hsound verb) (sameColumns_next hsound h hverb) hrest

end run

end BackboneEvents.EventLifecycle
