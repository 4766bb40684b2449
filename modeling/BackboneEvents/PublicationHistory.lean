import BackboneEvents.EventEffects
import BackboneEvents.WriteHistories

/-!
# Publication over a history of verbs

Whether an event is public after any run of verbs is told by the verbs alone: the last fence verb
on it says whether it is published, the first publish stamps it, and only an officer's mark takes
a cancellation away.
-/
namespace BackboneEvents.EventLifecycle
open ConstrainedTables GuardedRuns WriteHistories

/-- What a verb on the event sets `is_published` to. -/
def fencedBy (id : Uuid) : EventVerb → Option Bool
  | .publish _ id' _ => if id = id' then some true else none
  | .unpublish id' _ => if id = id' then some false else none
  | .create _ _ _ | .patch _ _ _ _ | .markDone _ _ | .sweepMarkDone _ _ _ _ => none

/-- When a verb publishes the event. -/
def publishedAt (id : Uuid) : EventVerb → Option Timestamp
  | .publish env id' _ => if id = id' then some env.now else none
  | .create _ _ _ | .patch _ _ _ _ | .unpublish _ _ | .markDone _ _ | .sweepMarkDone _ _ _ _ => none

/-- An officer's mark of the event, which ends a cancellation. -/
def markedBy (id : Uuid) : EventVerb → Option Unit
  | .markDone id' _ => if id = id' then some () else none
  | .create _ _ _ | .patch _ _ _ _ | .publish _ _ _ | .unpublish _ _
  | .sweepMarkDone _ _ _ _ => none

/-- The name an accepted patch of the event gives it. -/
def renamedBy (id : Uuid) (s : EventDb) : EventVerb → Option String
  | .patch env id' p _ =>
    if id = id' ∧ (s.event? id).any (accepted env p s) = true then p.name else none
  | .create _ _ _ | .publish _ _ _ | .unpublish _ _ | .markDone _ _ | .sweepMarkDone _ _ _ _ => none

/-- The event as the last and the first writes of a history leave it. -/
structure PublishedAsTold (s : EventDb) (verbs : List EventVerb) (row row' : EventRow) : Prop where
  id : row'.id = row.id
  name : row'.name = (written next (renamedBy row.id) s verbs).getLast?.getD row.name
  isPublished : row'.isPublished = (verbs.filterMap (fencedBy row.id)).getLast?.getD row.isPublished
  datePublish : row'.datePublish = row.datePublish.or (verbs.filterMap (publishedAt row.id)).head?
  cancelled : row'.kanbanState = .cancel ↔
    row.kanbanState = .cancel ∧ verbs.filterMap (markedBy row.id) = []

section history

variable {s : EventDb} {row : EventRow} {verbs : List EventVerb} {id : Uuid}

/-- A column of one event that each verb leaves or writes, told at the end of a run. -/
theorem column_told {α : Type} {col : EventRow → α} {write : EventDb → EventVerb → Option α}
    (hrow : row ∈ s.events.rows)
    (hstep : ∀ s verb, ∀ old ∈ s.events.rows, old.id = row.id →
      col (rewritten s old verb) = (write s verb).getD (col old)) :
    ((verbs.foldl next s).event? row.id).map col =
      ((written next write s verbs).getLast?).or (some (col row)) := by
  have hobs := @lastWrite_wins _ _ _ next write (fun s => (s.event? row.id).isSome = true)
    (fun s => (s.event? row.id).map col) s verbs (by rw [event?_of_mem hrow]; rfl)
    (fun s verb h => isSome_event?_next h verb) (fun s verb h => ?_)
  · rw [hobs, event?_of_mem hrow, Option.map_some]
  · obtain ⟨old, hold⟩ := Option.isSome_iff_exists.mp h
    obtain ⟨hmem, hid⟩ := event?_mem hold
    rw [event?_next hold, hold, Option.map_some, hstep s verb old hmem hid]
    cases write s verb <;> rfl

theorem written_const {α : Type} (w : EventVerb → Option α) :
    written next (fun _ => w) s verbs = verbs.filterMap w :=
  @written_eq_filterMap _ _ _ next (fun _ => w) (fun _ => True) s verbs w trivial
    (fun _ _ _ => trivial)
    fun _ _ _ => rfl

theorem getD_of_or {α : Type} {o : Option α} {a b : α}
    (h : some a = o.or (some b)) : a = o.getD b := by
  cases o with
  | none => exact Option.some.inj h
  | some c => exact Option.some.inj h

theorem isPublished_rewritten (s : EventDb) (old : EventRow) (verb : EventVerb) :
    (rewritten s old verb).isPublished = (fencedBy old.id verb).getD old.isPublished := by
  cases verb with
  | create | markDone | sweepMarkDone =>
    simp only [rewritten, fencedBy]
    first | rfl | (split <;> rfl)
  | patch env id p actor => simp only [rewritten, fencedBy]; split <;> rfl
  | publish env id actor =>
    rw [rewritten, fencedBy]
    split <;> rfl
  | unpublish id actor =>
    rw [rewritten, fencedBy]
    split <;> rfl

theorem name_rewritten {old : EventRow} (hold : old ∈ s.events.rows) (verb : EventVerb) :
    (rewritten s old verb).name = (renamedBy old.id s verb).getD old.name := by
  cases verb with
  | create | publish | unpublish | markDone | sweepMarkDone =>
    simp only [rewritten, renamedBy]; first | rfl | (split <;> rfl)
  | patch env id p actor =>
    rw [rewritten, renamedBy, event?_of_mem hold, Option.any_some]
    split <;> rfl

/-- The event is not cancelled. -/
def live (row : EventRow) : Option Unit := if row.kanbanState = .cancel then none else some ()

theorem live_eq_none : live row = none ↔ row.kanbanState = .cancel := by
  rw [live]
  split <;> simp [*]

/-- A cancelled event is never swept. -/
theorem live_rewritten (s : EventDb) (old : EventRow) (verb : EventVerb) :
    live (rewritten s old verb) = (markedBy old.id verb).or (live old) := by
  cases verb with
  | create => rfl
  | patch | publish | unpublish => simp only [rewritten, markedBy]; split <;> rfl
  | markDone id actor =>
    rw [rewritten, markedBy]
    split <;> rfl
  | sweepMarkDone now scan locked limit =>
    rw [rewritten, markedBy, Option.none_or]
    split
    · next hswept =>
      obtain ⟨-, hsweepable⟩ := mem_swept hswept.2
      have hlive : old.kanbanState ≠ .cancel := by
        intro hcancel
        simp [sweepable, SchedulerRepository.sweeps, hcancel] at hsweepable
      rw [live, live, if_neg hlive]
      rfl
    · rfl

theorem datePublish_rewritten (s : EventDb) (old : EventRow) (verb : EventVerb) :
    (rewritten s old verb).datePublish = old.datePublish.or (publishedAt old.id verb) := by
  cases verb with
  | create => exact Option.or_none.symm
  | patch | unpublish | markDone | sweepMarkDone =>
    simp only [rewritten, publishedAt, Option.or_none]; split <;> rfl
  | publish env id actor =>
    rw [rewritten, publishedAt]
    split
    · rfl
    · exact Option.or_none.symm

theorem stamp_told (hrow : row ∈ s.events.rows) :
    ((verbs.foldl next s).event? row.id).bind EventRow.datePublish =
      row.datePublish.or (verbs.filterMap (publishedAt row.id)).head? := by
  have hobs := @firstWrite_wins _ _ _ next (fun _ => publishedAt row.id)
    (fun s => (s.event? row.id).isSome = true)
    (fun s => (s.event? row.id).bind EventRow.datePublish)
    s verbs (by rw [event?_of_mem hrow]; rfl) (fun s verb h => isSome_event?_next h verb)
    (fun s verb h => ?_)
  · rw [hobs, event?_of_mem hrow, Option.bind_some, written_const]
  · obtain ⟨old, hold⟩ := Option.isSome_iff_exists.mp h
    rw [event?_next hold, hold, Option.bind_some, Option.bind_some, datePublish_rewritten,
      (event?_mem hold).2]

theorem live_told (hrow : row ∈ s.events.rows) :
    ((verbs.foldl next s).event? row.id).bind live =
      (verbs.filterMap (markedBy row.id)).getLast?.or (live row) := by
  have hobs := @lastWrite_wins _ _ _ next (fun _ => markedBy row.id)
    (fun s => (s.event? row.id).isSome = true) (fun s => (s.event? row.id).bind live)
    s verbs (by rw [event?_of_mem hrow]; rfl) (fun s verb h => isSome_event?_next h verb)
    (fun s verb h => ?_)
  · rw [hobs, event?_of_mem hrow, Option.bind_some, written_const]
  · obtain ⟨old, hold⟩ := Option.isSome_iff_exists.mp h
    rw [event?_next hold, hold, Option.bind_some, Option.bind_some,
      live_rewritten, (event?_mem hold).2]

theorem exists_event?_run (hrow : row ∈ s.events.rows) (verbs : List EventVerb) :
    ∃ row', (verbs.foldl next s).event? row.id = some row' := by
  have hkept : Keeps s (verbs.foldl next s) :=
    steadily_of_step (fun _ _ hid => hid)
      (fun _ _ _ hst htu id hid => htu id (hst id hid)) keeps_next
      [] verbs [] (List.append_nil verbs).symm
  exact Option.isSome_iff_exists.mp (hkept row.id (by rw [event?_of_mem hrow, Option.isSome_some]))

theorem publishedAsTold {row' : EventRow} (hrow : row ∈ s.events.rows)
    (hrow' : (verbs.foldl next s).event? row.id = some row') :
    PublishedAsTold s verbs row row' := by
  have hname := @column_told s row verbs _ (fun row => row.name) (renamedBy row.id) hrow
    fun s verb old hold hid => hid ▸ name_rewritten hold verb
  have hfence := @column_told s row verbs _ EventRow.isPublished (fun _ => fencedBy row.id) hrow
    fun s verb old _ hid => hid ▸ isPublished_rewritten s old verb
  have hstamp := @stamp_told s row verbs hrow
  have hlive := @live_told s row verbs hrow
  rw [hrow'] at hname hfence hstamp hlive
  rw [written_const] at hfence
  rw [Option.bind_some] at hlive
  refine ⟨(event?_mem hrow').2, getD_of_or hname, getD_of_or hfence, hstamp, ?_⟩
  rw [← live_eq_none, hlive, Option.or_eq_none_iff, List.getLast?_eq_none_iff,
    live_eq_none, and_comm]

end history

/-- After any run of verbs a stored event is still there; its name is that of its last accepted
rename, it is published as its last fence verb says, stamped by its first publish, and cancelled if
it was and no officer marked it done. -/
theorem publication_told {s : EventDb} {row : EventRow} (hrow : row ∈ s.events.rows)
    (verbs : List EventVerb) :
    ∃ row', (verbs.foldl next s).event? row.id = some row' ∧ PublishedAsTold s verbs row row' := by
  obtain ⟨row', hrow'⟩ := exists_event?_run hrow verbs
  exact ⟨row', hrow', publishedAsTold hrow hrow'⟩

section sample

/-- An event that is published, renamed and left public. -/
def renamedRun : List EventVerb :=
  [.publish sampleEnv 1 none, .unpublish 1 none,
    .patch sampleEnv 1 { PatchEventInput.empty with name := some "Gala, at dusk" } none,
    .publish sampleEnv 1 none]

/-- The event of `staged .normal`. -/
def normalRow : EventRow := ⟨gig, 1, 1, .a4FrenchFold, false, none⟩

theorem publication_told_renamed :
    ∃ row', (renamedRun.foldl next (staged .normal)).event? 1 = some row' ∧
    PublishedAsTold (staged .normal) renamedRun normalRow row' ∧ row'.name = "Gala, at dusk" := by
  obtain ⟨row', hrow', htold⟩ := @publication_told (staged .normal) normalRow (by decide) renamedRun
  exact ⟨row', hrow', htold, htold.name.trans (by decide)⟩

end sample

end BackboneEvents.EventLifecycle
