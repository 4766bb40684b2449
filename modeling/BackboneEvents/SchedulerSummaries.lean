import Mathlib.Algebra.BigOperators.Group.List.Basic
import Mathlib.Data.List.Perm.Basic
import Mathlib.Data.List.Perm.Lattice
import BackboneEvents.OwnRecords
import BackboneEvents.SchedulerService

/-!
# What the summary of a scheduler pass tells

A pass counts its steps into a summary, which the cron and the officer read. However passes,
verbs and crashes interleave, the summary of a pass that returns is the account of that pass's
own steps: the rows it claimed and how each of them ended, the receipts it wrote and deleted,
the messages it queued, those it dropped, and its typed failures.
-/
namespace BackboneEvents.SchedulerSummaries
open ConstrainedTables OwnRecords

/-- How a claimed row ends: for want of a template, complete, or due again at once. -/
inductive RowEnd where
  | swept
  | completed
  | rearmed
  deriving DecidableEq, Repr

/-- What one step of a pass did: its deeds, the receipts it wrote and deleted, the rows it claimed
and the row it ended. -/
structure OwnStep where
  deeds : List Deed
  inserted : ℕ
  deleted : ℕ
  claimed : List SchedulerRow
  ended : List (RowEnd × SchedulerRow)
  deriving DecidableEq, Repr

/-- The rows that the next step of the pass claims. -/
def claimedBy (tick : Tick) (s : Db) : Pass → List SchedulerRow
  | .running caps .claim _ => claimDue caps.cronLimit tick.now tick.scan tick.locked s
  | .running _ (.find schedulerId) _ =>
    match findScheduler schedulerId s with
    | .ok scheduler => [scheduler]
    | .error _ => []
  | .running _ .propagate _ | .running _ (.row _ _ _) _ | .idle | .returned _ => []

/-- The row that the next step of the pass ends, if it ends one. -/
def endedBy (s : Db) : Pass → List (RowEnd × SchedulerRow)
  | .running _ (.row scheduler _ stage) _ =>
    match stage with
    | .sweep => [(.swept, scheduler)]
    | .recompute => if (recomputeMailDone scheduler.id s).1 then [(.completed, scheduler)] else []
    | .rearm => [(.rearmed, scheduler)]
    | .materialize | .findEvent | .readDue _ | .window _ | .drop _ | .render _ | .enqueue _ _ _
    | .markQueued _ | .fail _ _ | .clear | .countMissing _ | .readStill _ _ => []
  | .running _ .propagate _ | .running _ .claim _ | .running _ (.find _) _ | .idle
  | .returned _ => []

def OwnStep.of (tick : Tick) (s : Db) (p : Pass) (turn : Turn) : OwnStep where
  deeds := turn.deeds
  inserted := turn.db.mailRegistrations.rows.length - s.mailRegistrations.rows.length
  deleted := s.mailRegistrations.rows.length - turn.db.mailRegistrations.rows.length
  claimed := claimedBy tick s p
  ended := endedBy s p

def Deed.isRendered : Deed → Bool
  | .rendered _ => true
  | .enqueued _ | .refused _ | .overdue _ _ _ => false

def Deed.isEnqueued : Deed → Bool
  | .enqueued _ => true
  | .rendered _ | .refused _ | .overdue _ _ _ => false

def Deed.isOverdue : Deed → Bool
  | .overdue _ _ _ => true
  | .rendered _ | .enqueued _ | .refused _ => false

/-- How many deeds of a kind the steps left. -/
def tally (p : Deed → Bool) (own : List OwnStep) : ℕ := (own.map (·.deeds.countP p)).sum

def receiptsWritten (own : List OwnStep) : ℕ := (own.map OwnStep.inserted).sum

def receiptsDeleted (own : List OwnStep) : ℕ := (own.map OwnStep.deleted).sum

def rowsClaimed (own : List OwnStep) : List SchedulerRow := own.flatMap OwnStep.claimed

/-- The claimed rows that ended, in the order in which they did. -/
def rowsEnded (own : List OwnStep) : List (RowEnd × SchedulerRow) := own.flatMap OwnStep.ended

/-- How many rows ended in this way. -/
def ends (e : RowEnd) (rows : List (RowEnd × SchedulerRow)) : ℕ := rows.countP (·.1 == e)

def machine : Machine Db Pass Tick OwnStep where
  turn tick s p :=
    let turn := p.turn tick s
    (turn.db, turn.pass, [.of tick s p turn])

variable {ι : Type} [DecidableEq ι]

/-- A pass starts where none is running. -/
def entering (w : Recorded ι Db Pass OwnStep) (i : ι) (caps : Caps) (point : Point) :
    Move ι Db Pass Tick :=
  if (w.procs i).isRunning then .outside w.shared else .become i (.running caps point .zero)

/-- The move an act is. -/
def moveOf (w : Recorded ι Db Pass OwnStep) : Act ι → Move ι Db Pass Tick
  | .verb c => .outside (w.shared.next c)
  | .runDueSchedulers i caps => entering w i caps .propagate
  | .runSchedulerById i caps schedulerId => entering w i caps (.find schedulerId)
  | .turn i tick => .turn i tick
  | .crash i => .become i .idle

/-- The run of the acts from a state where no pass is under way. -/
def recorded (s : Db) (acts : List (Act ι)) : Recorded ι Db Pass OwnStep :=
  Recorded.run machine moveOf ⟨s, fun _ => .idle, fun _ => []⟩ acts

/-- The summary is the account of the pass's own steps. A row that ends is one the pass claimed, and
ends once; one that is swept has no template. -/
structure Accounts (summary : SchedulerRunSummary) (own : List OwnStep) : Prop where
  queued : summary.receiptsQueued + summary.smsQueued = tally Deed.isEnqueued own
  dropped : summary.receiptsDroppedWindowClosed = tally Deed.isOverdue own
  materialized : summary.receiptsMaterialized = receiptsWritten own
  cancelled : summary.cancellationReceiptsDeleted = receiptsDeleted own
  claimed : summary.schedulersClaimed = (rowsClaimed own).length
  completed : summary.schedulersCompleted = ends .completed (rowsEnded own)
  rearmed : summary.schedulersRearmed = ends .rearmed (rowsEnded own)
  failed : summary.typedFailuresRecorded + tally Deed.isEnqueued own =
    tally Deed.isRendered own + ends .swept (rowsEnded own)
  ended : ((rowsEnded own).map Prod.snd).Sublist (rowsClaimed own)
  untemplated : ∀ row, (.swept, row) ∈ rowsEnded own → row.templateRef = none

section records

variable {own : List OwnStep} {x : OwnStep}

@[simp] theorem tally_concat (p : Deed → Bool) :
    tally p (own ++ [x]) = tally p own + x.deeds.countP p := by
  simp [tally]

@[simp] theorem receiptsWritten_concat :
    receiptsWritten (own ++ [x]) = receiptsWritten own + x.inserted := by
  simp [receiptsWritten]

@[simp] theorem receiptsDeleted_concat :
    receiptsDeleted (own ++ [x]) = receiptsDeleted own + x.deleted := by
  simp [receiptsDeleted]

@[simp] theorem rowsClaimed_concat : rowsClaimed (own ++ [x]) = rowsClaimed own ++ x.claimed := by
  simp [rowsClaimed]

@[simp] theorem rowsEnded_concat : rowsEnded (own ++ [x]) = rowsEnded own ++ x.ended := by
  simp [rowsEnded]

@[simp] theorem ends_append (e : RowEnd) (rows rows' : List (RowEnd × SchedulerRow)) :
    ends e (rows ++ rows') = ends e rows + ends e rows' := List.countP_append

/-- The instrumented run goes through the states of the world. -/
theorem recorded_world (s : Db) (acts : List (Act ι)) :
    ((recorded s acts).shared, (recorded s acts).procs) =
      ((acts.foldl World.next (World.start s)).db, (acts.foldl World.next (World.start s)).passes) := by
  refine run_refines World.next (fun w => (w.db, w.passes)) ?_ rfl acts
  intro w r a hstate
  obtain ⟨hdb, hpasses⟩ := Prod.mk.inj hstate
  have hupdate : ∀ i p, Function.update r.procs i p = (w.setPass i p).passes := fun i p => by
    rw [hpasses]
    funext j
    rw [Function.update_apply]
    rfl
  have henter : ∀ i caps point, ((r.next machine (entering r i caps point)).shared,
      (r.next machine (entering r i caps point)).procs) =
        ((w.enter i caps point).db, (w.enter i caps point).passes) := by
    intro i caps point
    rw [entering, World.enter, ← hpasses]
    by_cases hrunning : (r.procs i).isRunning = true
    · rw [if_pos hrunning, if_pos hrunning]
      exact hstate
    · rw [if_neg hrunning, if_neg hrunning]
      exact Prod.ext hdb (hupdate i _)
  cases a with
  | verb c => exact Prod.ext (congrArg (Db.next · c) hdb) hpasses
  | runDueSchedulers i caps => exact henter i caps .propagate
  | runSchedulerById i caps schedulerId => exact henter i caps (.find schedulerId)
  | turn i tick =>
    simp only [moveOf, Recorded.next, machine, World.next]
    rw [hupdate, hdb, hpasses]
  | crash i => exact Prod.ext hdb (hupdate i .idle)

end records

section receipts

variable {s t : Db}

theorem length_mapM {α β : Type} {f : α → Option β} {l : List α} {l' : List β}
    (h : l.mapM f = some l') : l'.length = l.length := by
  induction l generalizing l' with
  | nil =>
    obtain rfl : [] = l' := by simpa using h
    rfl
  | cons a l ih =>
    simp only [List.mapM_cons, Option.bind_eq_bind, Option.bind_eq_some_iff] at h
    obtain ⟨b, -, rest, hrest, hcons⟩ := h
    obtain rfl := Option.some.inj hcons
    rw [List.length_cons, List.length_cons, ih hrest]

/-- A materialization answers the registrations of the receipts it wrote. -/
theorem length_materialized {receiptId : Uuid → Uuid} {shift : Shift} {scheduler : SchedulerRow}
    {cap : ℕ} {ids : List Uuid}
    (h : materializeReceipts receiptId shift scheduler cap s = .ok (ids, t)) :
    t.mailRegistrations.rows.length = s.mailRegistrations.rows.length + ids.length := by
  simp only [materializeReceipts] at h
  split at h
  · obtain ⟨rfl, rfl⟩ := Prod.mk.inj (Except.ok.inj h)
    rfl
  · split at h
    · cases h
    · next hreceipts =>
      obtain ⟨rfl, rfl⟩ := Prod.mk.inj (Except.ok.inj h)
      obtain ⟨born, hborn, hinsert⟩ := Option.bind_eq_some_iff.mp hreceipts
      rw [Table.rows_insertAll hinsert, List.length_append, length_mapM hborn, List.length_map]

/-- The propagation answers how many receipts it deleted. -/
theorem length_propagated (limit : ℕ) (scan : Uuid → ℕ) :
    (propagateCancellations limit scan s).2.mailRegistrations.rows.length +
      (propagateCancellations limit scan s).1 = s.mailRegistrations.rows.length := by
  simp only [propagateCancellations]
  generalize hdeleted : (scanned scan MailRegistration.id
    (s.mailRegistrations.rows.filter s.moot)).take limit = deleted
  have hsub : deleted.Subperm s.mailRegistrations.rows := by
    rw [← hdeleted]
    exact (List.take_sublist _ _).subperm.trans
      ((List.perm_insertionSort _ _).subperm.trans List.filter_sublist.subperm)
  have hmem : ∀ x ∈ deleted, x ∈ s.mailRegistrations.rows := fun x hx => hsub.subset hx
  have hmatch : ∀ x ∈ s.mailRegistrations.rows,
      deleted.any (·.id == x.id) = true ↔ x ∈ deleted := by
    intro x hx
    rw [List.any_eq_true]
    constructor
    · rintro ⟨y, hy, hid⟩
      rwa [← receipt_eq_of_id (hmem y hy) hx (beq_iff_eq.mp hid)]
    · intro hdel
      exact ⟨x, hdel, beq_self_eq_true _⟩
  have hremoved : (s.mailRegistrations.rows.filter
      (fun x => deleted.any (·.id == x.id))).Perm deleted := by
    obtain ⟨l, hperm, hsublist⟩ := hsub
    have hnodup : deleted.Nodup := hperm.nodup_iff.mp (s.mailRegistrations.nodup.sublist hsublist)
    rw [List.perm_ext_iff_of_nodup (s.mailRegistrations.nodup.filter _) hnodup]
    intro x
    rw [List.mem_filter]
    exact ⟨fun h => (hmatch x h.1).mp h.2, fun h => ⟨hmem x h, (hmatch x (hmem x h)).mpr h⟩⟩
  rw [Table.rows_remove, ← hremoved.length_eq, Nat.add_comm]
  exact (List.length_eq_length_filter_add _).symm

theorem length_closed (outcome : ReceiptOutcome) (receiptId : Uuid) :
    (closeReceipt outcome receiptId s).mailRegistrations.rows.length =
      s.mailRegistrations.rows.length := by
  simp [closeReceipt]

end receipts

section books

/-- What is open of the receipt under way and of the rows claimed: a mark, a drop or a failure
still to be counted, and the rows whose end is not. -/
structure Pending where
  marks : ℕ
  drops : ℕ
  fails : ℕ
  rows : List SchedulerRow

/-- With more claimed rows after it. -/
def Pending.before (owed : Pending) (rest : List SchedulerRow) : Pending :=
  { owed with rows := owed.rows ++ rest }

def Stage.pending (scheduler : SchedulerRow) : Stage → Pending
  | .drop _ => ⟨0, 1, 0, [scheduler]⟩
  | .enqueue _ _ _ | .fail _ _ => ⟨0, 0, 1, [scheduler]⟩
  | .markQueued _ => ⟨1, 0, 0, [scheduler]⟩
  | .clear => ⟨0, 0, 0, []⟩
  | .countMissing done | .readStill done _ => ⟨0, 0, 0, if done then [] else [scheduler]⟩
  | .sweep | .materialize | .findEvent | .readDue _ | .window _ | .render _ | .recompute
  | .rearm => ⟨0, 0, 0, [scheduler]⟩

/-- The account of a pass under way. -/
structure Books (summary : SchedulerRunSummary) (own : List OwnStep) (owed : Pending) : Prop where
  queued : summary.receiptsQueued + summary.smsQueued + owed.marks = tally Deed.isEnqueued own
  dropped : summary.receiptsDroppedWindowClosed + owed.drops = tally Deed.isOverdue own
  materialized : summary.receiptsMaterialized = receiptsWritten own
  cancelled : summary.cancellationReceiptsDeleted = receiptsDeleted own
  claimed : summary.schedulersClaimed = (rowsClaimed own).length
  completed : summary.schedulersCompleted = ends .completed (rowsEnded own)
  rearmed : summary.schedulersRearmed = ends .rearmed (rowsEnded own)
  failed : summary.typedFailuresRecorded + tally Deed.isEnqueued own + owed.fails =
    tally Deed.isRendered own + ends .swept (rowsEnded own)
  ended : ((rowsEnded own).map Prod.snd ++ owed.rows).Sublist (rowsClaimed own)
  untemplated : ∀ row, (.swept, row) ∈ rowsEnded own → row.templateRef = none

/-- A row is swept for want of a template only. -/
def Stage.sound (scheduler : SchedulerRow) : Stage → Prop
  | .sweep => scheduler.templateRef = none
  | .materialize | .findEvent | .readDue _ | .window _ | .drop _ | .render _ | .enqueue _ _ _
  | .markQueued _ | .fail _ _ | .recompute | .clear | .countMissing _ | .readStill _ _
  | .rearm => True

def Booked : Pass → List OwnStep → Prop
  | .running _ .propagate summary, own => summary = .zero ∧ own = []
  | .running _ .claim summary, own | .running _ (.find _) summary, own =>
    Books summary own ⟨0, 0, 0, []⟩ ∧ rowsClaimed own = []
  | .running _ (.row scheduler rest stage) summary, own =>
    Books summary own ((Stage.pending scheduler stage).before rest) ∧ Stage.sound scheduler stage
  | .returned (.ok summary), own => Books summary own ⟨0, 0, 0, []⟩
  | .idle, _ | .returned (.error _), _ => True

variable {caps : Caps} {scheduler : SchedulerRow} {rest : List SchedulerRow} {tick : Tick}
  {summary : SchedulerRunSummary} {s : Db} {own : List OwnStep}

theorem next_open (k : Walk) :
    Stage.pending scheduler k.next = ⟨0, 0, 0, [scheduler]⟩ ∧ Stage.sound scheduler k.next := by
  simp only [Walk.next]
  split
  · exact ⟨rfl, trivial⟩
  · split <;> exact ⟨rfl, trivial⟩

theorem ofBatch_open (caps : Caps) (event : Event) (batch : List DueReceipt) :
    Stage.pending scheduler (.ofBatch caps event batch) = ⟨0, 0, 0, [scheduler]⟩ ∧
      Stage.sound scheduler (.ofBatch caps event batch) := by
  cases batch <;> exact ⟨rfl, trivial⟩

theorem firstStage_open (scheduler : SchedulerRow) :
    Stage.pending scheduler scheduler.firstStage = ⟨0, 0, 0, [scheduler]⟩ ∧
      Stage.sound scheduler scheduler.firstStage := by
  simp only [SchedulerRow.firstStage]
  split
  · next hnone => exact ⟨rfl, Option.isNone_iff_eq_none.mp hnone⟩
  · exact ⟨rfl, trivial⟩

theorem booked_row {stage : Stage} {owed : Pending}
    (hstage : Stage.pending scheduler stage = owed ∧ Stage.sound scheduler stage)
    (h : Books summary own (owed.before rest)) :
    Booked (.running caps (.row scheduler rest stage) summary) own := by
  rw [Booked, hstage.1]
  exact ⟨h, hstage.2⟩

/-- The next claimed row is as open as it was in the list. -/
theorem booked_atRows (h : Books summary own ⟨0, 0, 0, rest⟩) :
    Booked (.atRows caps summary rest) own := by
  cases rest with
  | nil => exact h
  | cons scheduler rest => exact booked_row (firstStage_open scheduler) h

theorem own_same {p : Pass} {turn : Turn}
    (h : turn.db.mailRegistrations.rows.length = s.mailRegistrations.rows.length) :
    (OwnStep.of tick s p turn).inserted = 0 ∧ (OwnStep.of tick s p turn).deleted = 0 := by
  simp [OwnStep.of, h]

/-- A step that claims no row keeps the books where its counts, its deeds and what it leaves open
balance. -/
theorem Books.step {summary' : SchedulerRunSummary} {owed owed' : Pending} {x : OwnStep}
    (inserted : ℕ) (h : Books summary own owed) (hreceipts : x.inserted = inserted ∧ x.deleted = 0)
    (hclaimed : x.claimed = [])
    (queued : summary'.receiptsQueued + summary'.smsQueued + owed'.marks =
      summary.receiptsQueued + summary.smsQueued + owed.marks + x.deeds.countP Deed.isEnqueued)
    (dropped : summary'.receiptsDroppedWindowClosed + owed'.drops =
      summary.receiptsDroppedWindowClosed + owed.drops + x.deeds.countP Deed.isOverdue)
    (receipts : summary'.receiptsMaterialized = summary.receiptsMaterialized + inserted ∧
      summary'.cancellationReceiptsDeleted = summary.cancellationReceiptsDeleted)
    (claimed : summary'.schedulersClaimed = summary.schedulersClaimed)
    (completed : summary'.schedulersCompleted = summary.schedulersCompleted + ends .completed x.ended)
    (rearmed : summary'.schedulersRearmed = summary.schedulersRearmed + ends .rearmed x.ended)
    (failed : summary'.typedFailuresRecorded + x.deeds.countP Deed.isEnqueued + owed'.fails =
      summary.typedFailuresRecorded + owed.fails + x.deeds.countP Deed.isRendered +
        ends .swept x.ended)
    (rows : (x.ended.map Prod.snd ++ owed'.rows).Sublist owed.rows)
    (untemplated : ∀ row, (.swept, row) ∈ x.ended → row.templateRef = none) :
    Books summary' (own ++ [x]) owed' where
  queued := by rw [tally_concat, ← h.queued]; exact queued
  dropped := by rw [tally_concat, ← h.dropped]; exact dropped
  materialized := by rw [receiptsWritten_concat, ← h.materialized, hreceipts.1]; exact receipts.1
  cancelled := by rw [receiptsDeleted_concat, ← h.cancelled, hreceipts.2]; exact receipts.2
  claimed := by rw [rowsClaimed_concat, hclaimed, List.append_nil, claimed]; exact h.claimed
  completed := by rw [rowsEnded_concat, ends_append, ← h.completed]; exact completed
  rearmed := by rw [rowsEnded_concat, ends_append, ← h.rearmed]; exact rearmed
  failed := by
    have hfailed := h.failed
    rw [tally_concat, tally_concat, rowsEnded_concat, ends_append]
    omega
  ended := by
    rw [rowsClaimed_concat, hclaimed, List.append_nil, rowsEnded_concat, List.map_append,
      List.append_assoc]
    exact (rows.append_left _).trans h.ended
  untemplated row hrow := by
    rw [rowsEnded_concat, List.mem_append] at hrow
    exact hrow.elim (h.untemplated row) (untemplated row)

/-- A step that ends no row and counts nothing. -/
theorem Books.quiet {owed owed' : Pending} {x : OwnStep} (h : Books summary own owed)
    (hsame : x.inserted = 0 ∧ x.deleted = 0) (hclaimed : x.claimed = [])
    (hended : x.ended = [])
    (marks : owed'.marks = owed.marks + x.deeds.countP Deed.isEnqueued)
    (drops : owed'.drops = owed.drops + x.deeds.countP Deed.isOverdue)
    (fails : x.deeds.countP Deed.isEnqueued + owed'.fails =
      owed.fails + x.deeds.countP Deed.isRendered)
    (rows : owed'.rows.Sublist owed.rows) : Books summary (own ++ [x]) owed' := by
  refine h.step 0 hsame hclaimed ?_ ?_ ⟨rfl, rfl⟩ rfl ?_ ?_ ?_ ?_ ?_
  · omega
  · omega
  · rw [hended]
    rfl
  · rw [hended]
    rfl
  · rw [hended, show ends .swept [] = 0 from rfl]
    omega
  · rwa [hended]
  · rw [hended]
    exact fun _ h => absurd h List.not_mem_nil

end books

section turns

variable {caps : Caps} {scheduler : SchedulerRow} {rest : List SchedulerRow} {tick : Tick}
  {summary : SchedulerRunSummary} {s : Db} {own : List OwnStep}

theorem stage_booked (stage : Stage)
    (h : Books summary own ((Stage.pending scheduler stage).before rest))
    (hsound : Stage.sound scheduler stage) :
    Booked (stage.turn caps scheduler rest tick summary s).pass
      (own ++ [.of tick s (.running caps (.row scheduler rest stage) summary)
        (stage.turn caps scheduler rest tick summary s)]) := by
  cases stage with
  | sweep =>
    refine booked_atRows (h.step 0 (own_same rfl) rfl rfl rfl ⟨rfl, rfl⟩ rfl rfl rfl rfl
      (List.Sublist.refl _) ?_)
    intro row hrow
    obtain ⟨-, rfl⟩ := Prod.mk.inj (List.mem_singleton.mp hrow)
    exact hsound
  | materialize =>
    simp only [Stage.turn]
    split
    · trivial
    · next ids t hids =>
      have hlength := length_materialized hids
      refine ⟨h.step ids.length ⟨?_, ?_⟩ rfl rfl rfl ⟨rfl, rfl⟩ rfl rfl rfl rfl (List.Sublist.refl _)
        fun _ h => absurd h List.not_mem_nil, trivial⟩
      · rw [OwnStep.of, hlength, Nat.add_sub_cancel_left]
      · rw [OwnStep.of, hlength, Nat.sub_eq_zero_of_le (Nat.le_add_right _ _)]
  | findEvent =>
    simp only [Stage.turn]
    split
    · trivial
    · exact ⟨h.quiet (own_same rfl) rfl rfl rfl rfl rfl (List.Sublist.refl _), trivial⟩
  | readDue event =>
    exact booked_row (ofBatch_open _ _ _)
      (h.quiet (own_same rfl) rfl rfl rfl rfl rfl (List.Sublist.refl _))
  | window k =>
    simp only [Stage.turn]
    split
    · exact ⟨h.quiet (own_same rfl) rfl rfl rfl rfl rfl (List.Sublist.refl _), trivial⟩
    · exact ⟨h.quiet (own_same rfl) rfl rfl rfl rfl rfl (List.Sublist.refl _), trivial⟩
  | drop k =>
    have hsame := @length_closed s .droppedWindowClosed k.receipt.receiptId
    exact booked_row (next_open k) (h.step 0 (own_same hsame) rfl rfl rfl ⟨rfl, rfl⟩ rfl rfl rfl rfl
      (List.Sublist.refl _) fun _ h => absurd h List.not_mem_nil)
  | render k =>
    simp only [Stage.turn]
    split
    · exact ⟨h.quiet (own_same rfl) rfl rfl rfl rfl rfl (List.Sublist.refl _), trivial⟩
    · split
      · exact ⟨h.quiet (own_same rfl) rfl rfl rfl rfl rfl (List.Sublist.refl _), trivial⟩
      · exact ⟨h.quiet (own_same rfl) rfl rfl rfl rfl rfl (List.Sublist.refl _), trivial⟩
  | enqueue k recipient mail =>
    simp only [Stage.turn]
    split
    · exact ⟨h.quiet (own_same rfl) rfl rfl rfl rfl rfl (List.Sublist.refl _), trivial⟩
    · exact ⟨h.quiet (own_same rfl) rfl rfl rfl rfl rfl (List.Sublist.refl _), trivial⟩
  | markQueued k =>
    have hsame := @length_closed s .queued k.receipt.receiptId
    refine booked_row (next_open k) ?_
    cases scheduler.notificationChannel with
    | mail =>
      refine h.step 0 (own_same hsame) rfl ?_ rfl ⟨rfl, rfl⟩ rfl rfl rfl rfl (List.Sublist.refl _)
        fun _ h => absurd h List.not_mem_nil
      simp only [Stage.pending, Pending.before, SchedulerRunSummary.queued, OwnStep.of, Stage.turn,
        List.countP_nil]
      omega
    | sms =>
      exact h.step 0 (own_same hsame) rfl rfl rfl ⟨rfl, rfl⟩ rfl rfl rfl rfl (List.Sublist.refl _)
        fun _ h => absurd h List.not_mem_nil
  | fail k kind =>
    exact booked_row (next_open k) (h.step 0 (own_same rfl) rfl rfl rfl ⟨rfl, rfl⟩ rfl rfl rfl rfl
      (List.Sublist.refl _) fun _ h => absurd h List.not_mem_nil)
  | recompute =>
    simp only [Stage.turn]
    split
    · next hdone =>
      have hended : endedBy s (.running caps (.row scheduler rest .recompute) summary) =
          [(.completed, scheduler)] := if_pos hdone
      refine ⟨h.step 0 (own_same rfl) rfl rfl rfl ⟨rfl, rfl⟩ rfl ?_ ?_ ?_ ?_ ?_, trivial⟩
      · rw [OwnStep.of, hended]
        rfl
      · rw [OwnStep.of, hended]
        rfl
      · rw [OwnStep.of, hended]
        rfl
      · rw [OwnStep.of, hended]
        exact List.Sublist.refl _
      · intro row hrow
        rw [OwnStep.of, hended] at hrow
        cases List.mem_singleton.mp hrow
    · next hdone =>
      have hended : endedBy s (.running caps (.row scheduler rest .recompute) summary) = [] :=
        if_neg hdone
      exact ⟨h.quiet (own_same rfl) rfl hended rfl rfl rfl (List.Sublist.refl _), trivial⟩
  | clear => exact ⟨h.quiet (own_same rfl) rfl rfl rfl rfl rfl (List.Sublist.refl _), trivial⟩
  | countMissing done =>
    exact ⟨h.quiet (own_same rfl) rfl rfl rfl rfl rfl (List.Sublist.refl _), trivial⟩
  | readStill done unmaterialized =>
    simp only [Stage.turn]
    split
    · next hstill =>
      have hdone : done = false := by
        simp only [Bool.and_eq_true, Bool.not_eq_true'] at hstill
        exact hstill.1
      subst hdone
      exact ⟨h.quiet (own_same rfl) rfl rfl rfl rfl rfl (List.Sublist.refl _), trivial⟩
    · refine booked_atRows (h.quiet (own_same rfl) rfl rfl rfl rfl rfl ?_)
      exact List.sublist_append_right _ _
  | rearm =>
    refine booked_atRows (h.step 0 (own_same rfl) rfl rfl rfl ⟨rfl, rfl⟩ rfl rfl rfl rfl
      (List.Sublist.refl _) ?_)
    intro row hrow
    cases List.mem_singleton.mp hrow

/-- The rows just claimed are open. -/
theorem booked_claimed {rows : List SchedulerRow} {x : OwnStep}
    (h : Books summary own ⟨0, 0, 0, []⟩ ∧ rowsClaimed own = [])
    (hsame : x.inserted = 0 ∧ x.deleted = 0) (hdeeds : x.deeds = [])
    (hclaimed : x.claimed = rows) (hended : x.ended = []) :
    Booked (.atRows caps { summary with schedulersClaimed := rows.length } rows) (own ++ [x]) := by
  obtain ⟨hbooks, hnone⟩ := h
  have hempty : rowsEnded own = [] := by
    have hsublist := hbooks.ended
    rw [hnone] at hsublist
    simpa using List.sublist_nil.mp hsublist
  refine booked_atRows ⟨?_, ?_, ?_, ?_, ?_, ?_, ?_, ?_, ?_, ?_⟩
  · rw [tally_concat, ← hbooks.queued, hdeeds]
    rfl
  · rw [tally_concat, ← hbooks.dropped, hdeeds]
    rfl
  · rw [receiptsWritten_concat, ← hbooks.materialized, hsame.1]
    rfl
  · rw [receiptsDeleted_concat, ← hbooks.cancelled, hsame.2]
    rfl
  · rw [rowsClaimed_concat, hnone, hclaimed]
    rfl
  · rw [rowsEnded_concat, hended, List.append_nil]
    exact hbooks.completed
  · rw [rowsEnded_concat, hended, List.append_nil]
    exact hbooks.rearmed
  · rw [tally_concat, tally_concat, rowsEnded_concat, hdeeds, hended, List.append_nil]
    exact hbooks.failed
  · rw [rowsEnded_concat, rowsClaimed_concat, hnone, hclaimed, hended, hempty]
    exact List.Sublist.refl _
  · rw [rowsEnded_concat, hended, List.append_nil]
    exact hbooks.untemplated

theorem pass_booked (p : Pass) (h : Booked p own) :
    Booked (p.turn tick s).pass (own ++ [.of tick s p (p.turn tick s)]) := by
  cases p with
  | idle => trivial
  | returned result =>
    cases result with
    | error e => trivial
    | ok summary =>
      exact Books.quiet h (own_same rfl) rfl rfl rfl rfl rfl (List.Sublist.refl _)
  | running caps point summary =>
    cases point with
    | propagate =>
      obtain ⟨rfl, rfl⟩ := h
      have hlength := @length_propagated s caps.cronLimit tick.scan
      refine ⟨⟨rfl, rfl, ?_, ?_, rfl, rfl, rfl, rfl, List.Sublist.refl _,
        fun _ h => absurd h List.not_mem_nil⟩, rfl⟩
      · change 0 = receiptsWritten ([] ++ [_])
        rw [receiptsWritten_concat]
        have hnone := Nat.sub_eq_zero_of_le (Nat.le.intro hlength)
        exact (congrArg (0 + ·) hnone).symm
      · change (propagateCancellations caps.cronLimit tick.scan s).1 = receiptsDeleted ([] ++ [_])
        rw [receiptsDeleted_concat, ← Nat.sub_eq_of_eq_add' hlength.symm]
        exact (Nat.zero_add _).symm
    | claim => exact booked_claimed h (own_same rfl) rfl rfl rfl
    | find schedulerId =>
      simp only [Pass.turn, Point.turn]
      split
      · trivial
      · next scheduler hfound =>
        refine @booked_claimed caps summary own [scheduler] _ h (own_same rfl) rfl ?_ rfl
        simp only [OwnStep.of, claimedBy, hfound]
    | row scheduler rest stage => exact stage_booked stage h.1 h.2

end turns

section samples

/-- The notice and a second scheduler that has no template. -/
def untemplated : Db :=
  { notice with mails := notice.mails.push { gigScheduler with id := 2, templateRef := none } }

/-- Two passes in step on one receipt, which both of them queue. -/
def inStep : List (Act (Fin 2)) :=
  .runDueSchedulers 0 .default :: .runDueSchedulers 1 .default ::
    (List.replicate 17 [Act.turn (0 : Fin 2) .accepting, .turn 1 .accepting]).flatten

end samples

end BackboneEvents.SchedulerSummaries
