import BackboneEvents.BoothCommandRepository
import BackboneEvents.SchedulerSweeps
import BackboneEvents.TemplateCascade
import BackboneEvents.TransactionFaults

/-!
# Audit truth

An audited fact written in its transaction, or on the pool after the commit, never outlives
a rollback. The heals, the cascades of a cancelled order and of a template, the paid fact and
the propagation of cancellations write theirs on the pool before the commit, as the last thing
they do, so a commit that fails leaves the fact of an effect that is not there.
-/
namespace BackboneEvents.AuditTruth
open ConstrainedTables TransactionPrograms GrandTotal Program

/-- A verb that audits an effect. -/
inductive AuditedCall where
  | call (c : Call)
  | confirmBooking (bookingId : Uuid) (actor : Option Uuid)
  | releaseBooth (eventBoothId : Uuid) (actor : Option Uuid)
  | markDone (eventId : Uuid) (actor : Option Uuid)
  | sweepMarkDone (now : Timestamp) (scan : Uuid → ℕ) (pipeEnd locked : Uuid → Bool) (limit : ℤ)
  | propagateCancellations (limit : ℕ) (scan : Uuid → ℕ)

/-- What the call leaves under a fault; `recorded` tells whether the pool takes its row. -/
def AuditedCall.left (recorded : Bool) (fault : Fault) (s : Db) : AuditedCall → Aftermath Db AuditRow
  | .call c => c.program.aftermath recorded fault s
  | .confirmBooking bookingId actor =>
    (BackboneEvents.confirmBooking bookingId actor).aftermath recorded fault s
  | .releaseBooth eventBoothId actor =>
    (BackboneEvents.releaseBooth eventBoothId actor).aftermath recorded fault s
  | .markDone eventId actor =>
    (EventCommandRepository.markDone eventId actor).aftermath recorded fault s
  | .sweepMarkDone now scan pipeEnd locked limit =>
    (SchedulerRepository.sweepMarkDone now scan pipeEnd locked limit).aftermath recorded fault s
  | .propagateCancellations limit scan =>
    (SchedulerRepository.propagateCancellations limit scan).aftermath recorded fault s

/-- The call comes to audit on the pool before its commit: a delivery that is not claimed yet
heals, cancels or pays, or a propagation finds a receipt to delete. -/
def AuditedCall.auditsEarly (s : Db) : AuditedCall → Bool
  | .call (.seam c) => s.seamInbox.accepts c.key &&
    match c.verb with
    | .confirmed _ _ => s.linked c.orderId != 0
    | .cancelled | .paid _ => true
  | .propagateCancellations limit _ =>
    decide (0 < limit) && s.mailRegistrations.rows.any s.moot
  | .call (.register _ _) | .call (.transition _ _ _ _) => false
  | .confirmBooking _ _ | .releaseBooth _ _ | .markDone _ _ | .sweepMarkDone _ _ _ _ _ => false

section programs

theorem silent_recordAudit (row : AuditRow) : (recordAudit row).Silent := silent_update _ _ _

theorem silent_lockEvent (eventId : Uuid) : (lockEvent eventId).Silent :=
  (silent_selectForUpdate _ _).bind fun _ => silent_require _ _

theorem silent_lockSlot (event : Event) (cmd : RegisterCommand) : (lockSlot event cmd).Silent := by
  rw [lockSlot]
  split
  · exact (silent_require _ _).bind fun _ => (silent_selectForUpdate _ _).bind fun _ =>
      (silent_refuseWhen _ _).bind fun _ => trivial
  · trivial

theorem silent_ticketWindow (draw : Draw) (cmd : RegisterCommand) :
    (ticketWindow draw cmd).Silent := by
  rw [ticketWindow]
  split
  · trivial
  · exact (silent_select _).bind fun _ => (silent_require _ _).bind fun _ => silent_refuseWhen _ _

theorem silent_insertRegistration (env : Env) (r : Registration) :
    (insertRegistration env r).Silent := by
  intro v
  dsimp only
  split <;> trivial

theorem silent_armAfterSub (env : Env) (events : Db → Uuid → Bool) :
    (armAfterSub env events).Silent := silent_update _ _ _

theorem silent_armLeadRequest (env : Env) (eventId : Uuid) (trigger : LeadRule → Bool) :
    (armLeadRequest env eventId trigger).Silent := silent_update _ _ _

theorem silent_registerCore (env : Env) (draw : Draw) (cmd : RegisterCommand)
    (link : Option SaleLink) : (registerCore env draw cmd link).Silent := by
  refine (silent_lockEvent _).bind fun _ => (silent_refuseWhen _ _).bind fun _ => ?_
  refine (silent_lockSlot _ _).bind fun _ => (silent_ticketWindow _ _).bind fun _ => ?_
  refine (silent_select _).bind fun _ => (silent_refuseWhen _ _).bind fun _ => ?_
  refine (silent_select _).bind fun _ => (silent_insertRegistration _ _).bind fun _ => ?_
  refine (silent_onlyIf (silent_armAfterSub _ _)).bind fun _ => ?_
  refine (silent_onlyIf (silent_armLeadRequest _ _ _)).bind fun _ => ?_
  exact (silent_recordAudit _).bind fun _ => trivial

theorem silent_mint (env : Env) (link : SaleLink) (touched : ℕ) (specs : List RegisterCommand) :
    (mint env link touched specs).Silent := by
  induction specs generalizing touched with
  | nil => trivial
  | cons spec specs ih => exact (silent_registerCore _ _ _ _).bind fun _ => ih _

theorem silent_transition (env : Env) (registrationId : Uuid) (target : RegistrationState)
    (actor : Option Uuid) : (transition env registrationId target actor).Silent := by
  have hhead : (seatHead registrationId).Silent :=
    (silent_select _).bind fun _ => (silent_require _ _).bind fun _ =>
      (silent_lockEvent _).bind fun _ => (silent_select _).bind fun _ => silent_refuseWhen _ _
  have hsettle : ∀ before, (settleMove env before target actor).Silent := fun _ =>
    (silent_onlyIf (silent_armAfterSub _ _)).bind fun _ =>
      (silent_onlyIf (silent_armLeadRequest _ _ _)).bind fun _ =>
        silent_onlyIf (silent_recordAudit _)
  refine Silent.bind (silent_update _ _ _) fun _ => (silent_require _ _).bind fun before => ?_
  exact (silent_onlyIf hhead).bind fun _ => (hsettle before).bind fun _ => trivial

theorem silent_latchBooths (lineIds : List Uuid) : (latchBooths lineIds).Silent := by
  rw [latchBooths]
  split
  · trivial
  · exact silent_update _ _ _

theorem silent_confirmBooking (bookingId : Uuid) (actor : Option Uuid) :
    (confirmBooking bookingId actor).Silent := by
  have hfill : ∀ booking, (confirmFill booking actor).Silent := fun _ =>
    Silent.bind (silent_update _ _ _) fun _ => (silent_require _ _).bind fun _ =>
      (silent_recordAudit _).bind fun _ => trivial
  refine Silent.bind (silent_selectForUpdate _ _) fun _ => (silent_require _ _).bind fun _ => ?_
  refine (silent_refuseWhen _ _).bind fun _ => Silent.bind (silent_update _ _ _) fun flipped => ?_
  cases flipped with
  | error e => trivial
  | ok booking => exact hfill booking

theorem silent_releaseBooth (eventBoothId : Uuid) (actor : Option Uuid) :
    (releaseBooth eventBoothId actor).Silent := by
  refine Silent.bind (silent_update _ _ _) fun _ => Silent.bind (silent_update _ _ _) fun _ => ?_
  exact (silent_require _ _).bind fun _ => (silent_recordAudit _).bind fun _ => trivial

theorem silent_markDone (eventId : Uuid) (actor : Option Uuid) :
    (EventCommandRepository.markDone eventId actor).Silent := by
  refine (silent_select _).bind fun _ => Silent.bind (silent_update _ _ _) fun _ => ?_
  exact (silent_require _ _).bind fun _ => (silent_recordAudit _).bind fun _ => trivial

theorem silent_sweepMarkDone (now : Timestamp) (scan : Uuid → ℕ) (pipeEnd locked : Uuid → Bool)
    (limit : ℤ) : (SchedulerRepository.sweepMarkDone now scan pipeEnd locked limit).Silent := by
  have haudit : ∀ ids, (SchedulerRepository.auditSweep ids).Silent := by
    intro ids
    induction ids with
    | nil => trivial
    | cons id ids ih => exact (silent_recordAudit _).bind fun _ => ih
  exact (silent_refuseWhen _ _).bind fun _ => Silent.bind (silent_update _ _ _) fun _ =>
    (haudit _).bind fun _ => trivial

theorem notesLast_propagateCancellations (limit : ℕ) (scan : Uuid → ℕ) :
    (SchedulerRepository.propagateCancellations limit scan).NotesLast := by
  refine Silent.bind_notesLast (silent_update _ _ _) fun n => ?_
  split
  · trivial
  · exact ⟨_, rfl⟩

/-- What a claimed delivery does. -/
theorem notesLast_body (c : SeamCall) : c.body.NotesLast := by
  rw [SeamCall.body]
  cases c.verb with
  | confirmed grandTotal specs =>
    refine (silent_select _).bind_notesLast fun linked => ?_
    split
    · exact (silent_mint _ _ _ _).bind_notesLast fun _ => trivial
    · rw [healOrder]
      split
      · exact Silent.bind_notesLast (silent_update _ _ _) fun _ =>
          (silent_armAfterSub _ _).bind_notesLast fun _ => ⟨_, rfl⟩
      · exact Silent.bind_notesLast (silent_update _ _ _) fun _ => ⟨_, rfl⟩
  | cancelled => exact Silent.bind_notesLast (silent_update _ _ _) fun _ => ⟨_, rfl⟩
  | paid lineIds =>
    refine Silent.bind_notesLast (silent_update _ _ _) fun _ => ?_
    refine Silent.bind_notesLast (silent_update _ _ _) fun _ => ?_
    exact (silent_armAfterSub _ _).bind_notesLast fun _ =>
      (silent_latchBooths _).bind_notesLast fun _ => ⟨_, rfl⟩

theorem silent_mintOrder (env : Env) (orderId : Uuid) (free : Bool) (specs : List RegisterCommand)
    (actor : Option Uuid) : (mintOrder env orderId free specs actor).Silent :=
  (silent_mint _ _ _ _).bind fun _ => trivial

theorem notesLast_seam (c : SeamCall) : (Call.seam c).program.NotesLast := by
  refine NotesLast.bind_done ?_ Answer.seam
  rw [c.program_eq]
  refine Silent.bind_notesLast (silent_update _ _ _) fun claimed => ?_
  split
  · trivial
  · exact notesLast_body c

theorem notesLast_call (c : Call) : c.program.NotesLast := by
  cases c with
  | register env cmd => exact Silent.notesLast ((silent_registerCore _ _ _ _).bind fun _ => trivial)
  | transition env registrationId target actor =>
    exact Silent.notesLast ((silent_transition _ _ _ _).bind fun _ => trivial)
  | seam c => exact notesLast_seam c

/-- A refused call changes nothing. -/
theorem apply_of_refused {c : Call} {s : Db} {e : EventError} (h : c.answer s = .error e) :
    c.apply s = s := by
  cases hrun : c.program.run s with
  | ok r => simp [Call.answer, Program.execute, hrun] at h
  | error e' =>
    rw [Call.apply_of_refused h, (notesLast_call c).notes_of_refused hrun]
    simp [Db.audited]

theorem notes_healOrder (env : Env) (orderId : Uuid) (free : Bool) (actor : Option Uuid) (s : Db) :
    (healOrder env orderId free actor).notes s ≠ [] := by
  cases free <;> simp [healOrder, updateRegistrations, armAfterSub, Program.update, Program.bind,
    Program.notes]

/-- A delivery that is not claimed yet audits early when it heals, cancels or pays. -/
theorem notes_body (c : SeamCall) (s : Db) : c.body.notes s = [] ↔
    (match c.verb with
    | .confirmed _ _ => s.linked c.orderId != 0
    | .cancelled | .paid _ => true) = false := by
  rw [SeamCall.body]
  cases c.verb with
  | confirmed grandTotal specs =>
    have hbranch : (mintOrHeal c.env c.orderId (grandTotalIsZero grandTotal) specs c.actor).notes s =
        (if s.linked c.orderId == 0 then
          mintOrder c.env c.orderId (grandTotalIsZero grandTotal) specs c.actor
        else healOrder c.env c.orderId (grandTotalIsZero grandTotal) c.actor).notes s := rfl
    rw [hbranch]
    by_cases hlinked : s.linked c.orderId = 0
    · have hmint := (silent_mintOrder c.env c.orderId (grandTotalIsZero grandTotal) specs
        c.actor).notes_eq_nil s
      simp [hlinked, hmint]
    · have hheal := notes_healOrder c.env c.orderId (grandTotalIsZero grandTotal) c.actor s
      simp [hlinked, hheal]
  | cancelled => simp [cancelOrder, updateRegistrations, Program.update, Program.bind, Program.notes]
  | paid lineIds =>
    cases hlines : lineIds.isEmpty <;> simp [payOrder, updateRegistrations, armAfterSub, latchBooths,
      hlines, Program.update, Program.bind, Program.notes]

theorem notes_seam (c : SeamCall) (s : Db) : (Call.seam c).program.notes s = [] ↔
    (AuditedCall.call (.seam c)).auditsEarly s = false := by
  have hprogram : (Call.seam c).program.notes s = c.program.notes s := notes_bind_done _ _ s
  have hclaim : (claim c.key.consumer c.key.externalId).notes s = [] :=
    Silent.notes_eq_nil (silent_update _ _ _) s
  rw [hprogram, c.program_eq, bind_eq, notes_bind, hclaim, run_claim, List.nil_append,
    AuditedCall.auditsEarly]
  cases hfresh : s.seamInbox.accepts c.key with
  | false => simp [Program.notes]
  | true =>
    simp only [Bool.not_true, Bool.false_eq_true, if_false, Bool.true_and]
    exact notes_body c _

theorem notes_propagateCancellations (limit : ℕ) (scan : Uuid → ℕ) (s : Db) :
    (SchedulerRepository.propagateCancellations limit scan).notes s = [] ↔
      (AuditedCall.propagateCancellations limit scan).auditsEarly s = false := by
  have hmoots : SchedulerRepository.moots limit scan s = [] ↔
      limit = 0 ∨ s.mailRegistrations.rows.filter s.moot = [] := by
    rw [SchedulerRepository.moots, List.take_eq_nil_iff, scanned]
    refine or_congr_right ⟨fun h => ?_, fun h => by rw [h]; rfl⟩
    have hperm := List.perm_insertionSort (fun a b : MailRegistration => scan a.id ≤ scan b.id)
      (s.mailRegistrations.rows.filter s.moot)
    rw [h] at hperm
    exact hperm.nil_eq.symm
  have hnotes : (SchedulerRepository.propagateCancellations limit scan).notes s = [] ↔
      SchedulerRepository.moots limit scan s = [] := by
    cases hdeleted : SchedulerRepository.moots limit scan s <;>
      simp [SchedulerRepository.propagateCancellations, Program.update, Program.bind, Program.notes,
        hdeleted]
  rw [hnotes, hmoots, AuditedCall.auditsEarly, Bool.and_eq_false_iff, decide_eq_false_iff_not,
    Nat.not_lt, Nat.le_zero, List.filter_eq_nil_iff, List.any_eq_false]

theorem notesLast_cascade (templateKind : String) (templateRef : Uuid) (actor : Option Uuid) :
    (cascadeDeleteTemplateDependents templateKind templateRef actor).NotesLast :=
  Silent.bind_notesLast (silent_update _ _ _) fun _ =>
    (silent_refuseWhen _ _).bind_notesLast fun _ =>
      Silent.bind_notesLast (silent_update _ _ _) fun _ => ⟨_, rfl⟩

theorem notes_cascade (templateKind : String) (templateRef : Uuid) (actor : Option Uuid)
    (s : TemplateDb) : (cascadeDeleteTemplateDependents templateKind templateRef actor).notes s = [] ↔
      s.referenced templateKind templateRef = true := by
  cases hheld : s.referenced templateKind templateRef <;>
    simp [cascadeDeleteTemplateDependents, Program.update, Program.bind, Program.notes, refuseWhen,
      hheld]

end programs

/-- A call that no fault cuts short leaves the trail that it leaves run alone. -/
theorem trail_of_run {c : Call} {a : Answer} {s t : Db} {k : ℕ} (h : c.program.run s = .ok (a, t))
    (hk : (c.program.notesAfter s).length ≤ k) :
    trailAfter Db.auditTrails s ((AuditedCall.call c).left true (.committed k) s) =
      (c.apply s).auditTrails := by
  rw [AuditedCall.left, aftermath_of_ok h hk, Call.apply, execute_ok h]
  simp [trailAfter, Db.audited]

/-- A verb tells the truth under a fault exactly when the fault does not strike at the commit
of a call that has audited on the pool by then. -/
theorem AuditedCall.tellsTruth_iff (c : AuditedCall) (recorded : Bool) (fault : Fault) (s : Db) :
    TellsTruth Db.auditTrails s (c.left recorded fault s) ↔
      (fault = .commit → recorded = true → c.auditsEarly s = false) := by
  have hsilent : ∀ {α : Type} {p : Tx α}, p.Silent →
      (TellsTruth Db.auditTrails s (p.aftermath recorded fault s) ↔
        (fault = .commit → recorded = true → false = false)) := fun h => by
    rw [h.notesLast.tellsTruth_iff, h.notes_eq_nil]
    exact iff_of_true (fun _ _ => rfl) fun _ _ => rfl
  cases c with
  | call c =>
    cases c with
    | register env cmd => exact hsilent ((silent_registerCore _ _ _ _).bind fun _ => trivial)
    | transition env registrationId target actor =>
      exact hsilent ((silent_transition _ _ _ _).bind fun _ => trivial)
    | seam c =>
      rw [AuditedCall.left, (notesLast_seam c).tellsTruth_iff, notes_seam]
  | confirmBooking bookingId actor => exact hsilent (silent_confirmBooking _ _)
  | releaseBooth eventBoothId actor => exact hsilent (silent_releaseBooth _ _)
  | markDone eventId actor => exact hsilent (silent_markDone _ _)
  | sweepMarkDone now scan pipeEnd locked limit => exact hsilent (silent_sweepMarkDone _ _ _ _ _)
  | propagateCancellations limit scan =>
    rw [AuditedCall.left, (notesLast_propagateCancellations limit scan).tellsTruth_iff,
      notes_propagateCancellations]

/-- For every verb and every place where it can be cut short, the trail tells the truth exactly
when the place is not the commit of a call that has audited on the pool by then: a fresh heal,
cancellation or paid fact, a propagation that deletes, a cascade whose rows are free. -/
theorem audit_truth_iff (recorded : Bool) (fault : Fault) :
    (∀ (c : AuditedCall) (s : Db), TellsTruth Db.auditTrails s (c.left recorded fault s) ↔
      (fault = .commit → recorded = true → c.auditsEarly s = false)) ∧
    ∀ (templateKind : String) (templateRef : Uuid) (actor : Option Uuid) (s : TemplateDb),
      TellsTruth (·.auditTrails) s
        ((cascadeDeleteTemplateDependents templateKind templateRef actor).aftermath recorded fault s) ↔
      (fault = .commit → recorded = true → s.referenced templateKind templateRef = true) := by
  refine ⟨fun c s => c.tellsTruth_iff recorded fault s, fun templateKind templateRef actor s => ?_⟩
  rw [(notesLast_cascade templateKind templateRef actor).tellsTruth_iff, notes_cascade]

section sample

/-- The order is cancelled and audited, and the commit fails. -/
def lostCancellation : AuditedCall :=
  .call (.seam ⟨.counting 1, "events", some "a", 7, none, .cancelled⟩)

theorem lostCancellation_untrue :
    ¬ TellsTruth Db.auditTrails oneSeat (lostCancellation.left true .commit oneSeat) := by
  rw [AuditedCall.tellsTruth_iff]
  exact fun h => absurd (h rfl rfl) (by decide)

end sample

end BackboneEvents.AuditTruth
