import BackboneEvents.EventCommandRepository
import BackboneEvents.SchedulerRepository
import BackboneEvents.VerbCalls

/-! # The sweeps of the scheduler repository, statement by statement -/
namespace BackboneEvents.SchedulerRepository
open ConstrainedTables TransactionPrograms

/-- The receipts a propagation deletes. -/
def moots (limit : ℕ) (scan : Uuid → ℕ) (s : Db) : List MailRegistration :=
  (scanned scan MailRegistration.id (s.mailRegistrations.rows.filter s.moot)).take limit

/-- The audit row goes to the pool while the deletion still waits for its commit. -/
def propagateCancellations (limit : ℕ) (scan : Uuid → ℕ) : Tx ℕ := do
  let n ← .update (fun _ => [])
    (fun v s => { s with
      mailRegistrations := s.mailRegistrations.remove
        (v.mailRegistrations.matched fun x => (moots limit scan v).any (·.id == x.id)) })
    (fun v : Db => (moots limit scan v).length)
  if n = 0 then return n
  else .note (auditRow "scheduler_run" none "mail_scheduler" (some 0)
    (.cancellationPropagation n)) (return n)

/-- Run alone, it is the propagation that a pass starts with. -/
theorem execute_propagateCancellations (limit : ℕ) (scan : Uuid → ℕ) (s : Db) :
    (propagateCancellations limit scan).execute Db.absorb s =
      (.ok (BackboneEvents.propagateCancellations limit scan s).1,
        (BackboneEvents.propagateCancellations limit scan s).2) := by
  have hpure : BackboneEvents.propagateCancellations limit scan s =
      ((moots limit scan s).length, { s with
        mailRegistrations := s.mailRegistrations.remove fun x =>
          (moots limit scan s).any (·.id == x.id)
        auditTrails := if (moots limit scan s).length = 0 then s.auditTrails else s.auditTrails ++
          [auditRow "scheduler_run" none "mail_scheduler" (some 0)
            (.cancellationPropagation (moots limit scan s).length)] }) := rfl
  rw [hpure]
  cases hmoots : moots limit scan s with
  | nil =>
    simp [propagateCancellations, Program.execute, Program.update, Program.bind, Program.notes,
      Program.notesAfter, hmoots]
  | cons x xs =>
    simp [propagateCancellations, Program.execute, Program.update, Program.bind, Program.notes,
      Program.notesAfter, hmoots, Db.absorb]

/-- One audit row for each swept event, in the transaction of the sweep. -/
def auditSweep : List Uuid → Tx Unit
  | [] => return ()
  | id :: ids => do
    recordAudit (auditRow "event_mark_done" none "event" (some id) .doneSweep)
    auditSweep ids

/-- A past event that is neither done nor cancelled, outside the closing stages. -/
def sweeps (now : Timestamp) (pipeEnd : Uuid → Bool) (ev : Event) : Bool :=
  ev.kanbanState != .done && ev.kanbanState != .cancel && decide (ev.dateEnd < now) &&
    !pipeEnd ev.id

/-- The events the sweep claims; those locked elsewhere are skipped. -/
def swept (now : Timestamp) (scan : Uuid → ℕ) (pipeEnd locked : Uuid → Bool) (limit : ℕ) (s : Db) :
    List Event :=
  ((scanned scan Event.id
    (s.events.rows.filter fun ev => sweeps now pipeEnd ev && !locked ev.id)).insertionSort
      fun a b => a.dateEnd ≤ b.dateEnd).take limit

def sweepMarkDone (now : Timestamp) (scan : Uuid → ℕ) (pipeEnd locked : Uuid → Bool) (limit : ℤ) :
    Tx (List Uuid) := do
  Program.refuseWhen (decide (limit < 0)) (.database "LIMIT must not be negative")
  let ids ← .update
    (fun v => (swept now scan pipeEnd locked limit.toNat v).map fun ev => .event ev.id)
    (fun v s => { s with
      events := s.events.modify
        (v.events.matched fun ev =>
          (swept now scan pipeEnd locked limit.toNat v).any (·.id == ev.id))
        Event.markedDone })
    (fun v : Db => (swept now scan pipeEnd locked limit.toNat v).map Event.id)
  auditSweep ids
  return ids

end BackboneEvents.SchedulerRepository
