import BackboneEvents.GuardedRuns
import BackboneEvents.SchedulerService

/-!
# What becomes of a receipt

A sent receipt stays as it is. It was sent because an enqueue for it succeeded, or because
the event row its pass had read was over. While passes do not overlap, and none crashes
between an enqueue and the flip of the flag, no message is enqueued a second time.
-/
namespace BackboneEvents.ReceiptDeliveries
open ConstrainedTables GuardedRuns

section receipts

variable {s t : Db}

/-- Sent receipts are in both tables alike. -/
def SentKept (s t : Db) : Prop :=
  ∀ x ∈ s.mailRegistrations.rows, x.mailSent = true → x ∈ t.mailRegistrations.rows

theorem SentKept.trans {u : Db} (h : SentKept s t) (h' : SentKept t u) : SentKept s u :=
  fun x hx hsent => h' x (h x hx hsent) hsent

theorem SentKept.hasSentReceipt {schedulerId registrationId : Uuid} (h : SentKept s t)
    (hs : s.hasSentReceipt schedulerId registrationId = true) :
    t.hasSentReceipt schedulerId registrationId = true := by
  obtain ⟨x, hx, hscheduler, hregistration, hsent⟩ := hasSentReceipt_iff.mp hs
  exact hasSentReceipt_iff.mpr ⟨x, h x hx hsent, hscheduler, hregistration, hsent⟩

theorem effect_mailRegistrations {c : Call} (h : c.Effect s t) :
    t.mailRegistrations = s.mailRegistrations := by
  cases h with
  | minted verb fresh unlinked mint => exact mint.keeps Db.mailRegistrations fun _ _ _ => rfl
  | refused | replayed | registered | transitioned | freeHealed | heldBack | cancelled | paid => rfl

/-- No verb writes a receipt. -/
@[simp] theorem next_mailRegistrations (c : Call) :
    (s.next c).mailRegistrations = s.mailRegistrations := by
  obtain ⟨t, rows, heffect, happly⟩ := c.apply_effect s
  rw [Db.next, happly, audited_mailRegistrations, effect_mailRegistrations heffect]

@[simp] theorem next_events (c : Call) : (s.next c).events = s.events := by
  obtain ⟨t, rows, heffect, happly⟩ := c.apply_effect s
  rw [Db.next, happly, audited_events, heffect.events]

theorem mem_closeReceipt {outcome : ReceiptOutcome} {receiptId : Uuid} {x : MailRegistration} :
    x ∈ (closeReceipt outcome receiptId s).mailRegistrations.rows ↔
      (x ∈ s.mailRegistrations.rows ∧ ¬ (x.id = receiptId ∧ x.mailSent = false)) ∨
      ∃ y ∈ s.mailRegistrations.rows, y.id = receiptId ∧ y.mailSent = false ∧
        x = MailRegistration.closed outcome y := by
  simp only [closeReceipt, Table.mem_modify, Bool.and_eq_true, beq_iff_eq, Bool.not_eq_true']
  constructor
  · rintro ⟨y, hy, rfl⟩
    by_cases h : y.id = receiptId ∧ y.mailSent = false
    · exact .inr ⟨y, hy, h.1, h.2, by rw [if_pos h]⟩
    · exact .inl (by rw [if_neg h]; exact ⟨hy, h⟩)
  · rintro (⟨hx, h⟩ | ⟨y, hy, hid, hsent, rfl⟩)
    · exact ⟨x, hx, if_neg h⟩
    · exact ⟨y, hy, if_pos ⟨hid, hsent⟩⟩

/-- A step of a pass keeps every sent receipt as it is. -/
theorem passEffect_sentKept (h : PassEffect s t) : SentKept s t := by
  intro x hx hsent
  cases h with
  | same => exact hx
  | propagated limit scan =>
    refine List.mem_filter.mpr ⟨hx, ?_⟩
    rw [Bool.not_eq_true', List.any_eq_false]
    intro y hy hid
    have hmoot := List.mem_filter.mp ((List.mem_insertionSort _).mp (List.mem_of_mem_take hy))
    obtain rfl := receipt_eq_of_id hmoot.1 hx (by simpa using hid)
    simp [Db.moot, hsent] at hmoot
  | materialized h =>
    obtain ⟨born, hrows, -⟩ := (materialized_of_ok h).receipts
    rw [hrows]
    exact List.mem_append_left _ hx
  | closed outcome receiptId => exact mem_closeReceipt.mpr (.inl ⟨hx, by simp [hsent]⟩)
  | touched p f keeps => exact hx
  | recomputed schedulerId => exact hx

theorem passEffect_events (h : PassEffect s t) : t.events = s.events := by
  cases h with
  | materialized h => exact (materialized_of_ok h).events
  | same | propagated | closed | touched | recomputed => rfl

end receipts

section world

variable {ι : Type} [DecidableEq ι] {w : World ι} {i : ι} {p : Pass}

/-- A property of passes that the new pass has too. -/
theorem forall_setPass {P : ι → Pass → Prop} (h : ∀ j, P j (w.passes j)) (hp : P i p) (j : ι) :
    P j ((w.setPass i p).passes j) := by
  by_cases hj : j = i
  · subst hj
    rwa [World.setPass_self]
  · rw [World.setPass_of_ne hj]
    exact h j

theorem next_sentKept (w : World ι) (a : Act ι) : SentKept w.db (w.next a).db := by
  cases a with
  | verb c => exact fun x hx _ => by rwa [World.next, next_mailRegistrations]
  | runDueSchedulers i caps =>
    intro x hx _
    simp only [World.next, World.enter]
    split <;> exact hx
  | runSchedulerById i caps schedulerId =>
    intro x hx _
    simp only [World.next, World.enter]
    split <;> exact hx
  | turn i tick => exact passEffect_sentKept (Pass.turn_effect _ _ _)
  | crash i => exact fun x hx _ => hx

end world

section evidence

/-- Why a receipt is sent: it was from the start, an enqueue for it succeeded, or the event
row the pass had read was over. -/
def Justified {ι : Type} (s : Db) (w : World ι) (x : MailRegistration) : Prop :=
  x ∈ s.mailRegistrations.rows ∨
  (x.outcome = some .queued ∧ ∃ p, .enqueued p ∈ w.deeds ∧ p.receiptId = x.id) ∨
  (x.outcome = some .droppedWindowClosed ∧ ∃ p event now, .overdue p event now ∈ w.deeds ∧
    p.receiptId = x.id ∧ event ∈ w.db.events.rows ∧ event.dateEnd ≤ now)

/-- The event row a stage carries is stored, and a stage that closes a receipt has the deed
for it. -/
def stageBacked (s : Db) (deeds : List Deed) (scheduler : SchedulerRow) : Stage → Prop
  | .readDue event => event ∈ s.events.rows
  | .window k | .render k | .enqueue k _ _ | .fail k _ => k.event ∈ s.events.rows
  | .drop k => k.event ∈ s.events.rows ∧
    ∃ now, .overdue (k.parcel scheduler) k.event now ∈ deeds ∧ k.event.dateEnd ≤ now
  | .markQueued k => k.event ∈ s.events.rows ∧ .enqueued (k.parcel scheduler) ∈ deeds
  | .sweep | .materialize | .findEvent | .recompute | .clear | .countMissing _ | .readStill _ _
  | .rearm => True

def passBacked (s : Db) (deeds : List Deed) : Pass → Prop
  | .running _ (.row scheduler _ stage) _ => stageBacked s deeds scheduler stage
  | .running _ .propagate _ | .running _ .claim _ | .running _ (.find _) _ => True
  | .idle | .returned _ => True

section backed

variable {s t : Db} {deeds : List Deed} {scheduler : SchedulerRow} {k : Walk}

theorem passBacked_mono {p : Pass} (more : List Deed) (h : passBacked s deeds p)
    (hevents : t.events = s.events) : passBacked t (deeds ++ more) p := by
  cases p with
  | idle | returned => trivial
  | running caps point summary =>
    cases point with
    | propagate | claim | find => trivial
    | row scheduler rest stage =>
      cases stage <;> simp_all [passBacked, stageBacked]
      obtain ⟨now, hmem, hend⟩ := h.2
      exact ⟨now, .inl hmem, hend⟩

theorem passBacked_atRows (caps : Caps) (summary : SchedulerRunSummary) (rows : List SchedulerRow) :
    passBacked s deeds (.atRows caps summary rows) := by
  cases rows with
  | nil => trivial
  | cons scheduler rest =>
    simp only [Pass.atRows, passBacked, SchedulerRow.firstStage]
    split <;> trivial

theorem stageBacked_next (h : k.event ∈ s.events.rows) : stageBacked s deeds scheduler k.next := by
  simp only [Walk.next]
  split
  · exact h
  · split
    · exact h
    · trivial

theorem stageBacked_ofBatch {caps : Caps} {event : Event} (h : event ∈ s.events.rows)
    (due : List DueReceipt) : stageBacked s deeds scheduler (.ofBatch caps event due) := by
  cases due with
  | nil => trivial
  | cons d later => exact h

/-- Every step of a pass leaves it with the deeds its next call needs. -/
theorem passBacked_turn {p : Pass} (tick : Tick) (h : passBacked s deeds p) :
    passBacked (p.turn tick s).db (deeds ++ (p.turn tick s).deeds) (p.turn tick s).pass := by
  cases p with
  | idle | returned => trivial
  | running caps point summary =>
    cases point with
    | propagate => trivial
    | claim => exact passBacked_atRows _ _ _
    | find schedulerId =>
      simp only [Pass.turn, Point.turn]
      split
      · trivial
      · simp only [passBacked_atRows]
    | row scheduler rest stage =>
      cases stage with
      | sweep => exact passBacked_atRows _ _ _
      | materialize =>
        simp only [Pass.turn, Point.turn, Stage.turn]
        split <;> trivial
      | findEvent =>
        simp only [Pass.turn, Point.turn, Stage.turn]
        split
        · trivial
        · next hevent => exact Table.find_mem (findEvent_eq_ok.mp hevent)
      | readDue event => exact stageBacked_ofBatch h _
      | window k =>
        simp only [Pass.turn, Point.turn, Stage.turn]
        split
        · next hend => exact ⟨h, tick.now, by simp, hend⟩
        · exact h
      | drop k => exact stageBacked_next h.1
      | render k =>
        simp only [Pass.turn, Point.turn, Stage.turn]
        split
        · exact h
        · split <;> exact h
      | enqueue k recipient mail =>
        simp only [Pass.turn, Point.turn, Stage.turn]
        split
        · exact ⟨h, by simp⟩
        · exact h
      | markQueued k => exact stageBacked_next h.1
      | fail k kind => exact stageBacked_next h
      | recompute =>
        simp only [Pass.turn, Point.turn, Stage.turn]
        split <;> trivial
      | clear => trivial
      | countMissing done => trivial
      | readStill done unmaterialized =>
        simp only [Pass.turn, Point.turn, Stage.turn]
        split
        · trivial
        · exact passBacked_atRows _ _ _
      | rearm => exact passBacked_atRows _ _ _

end backed

/-- Every sent receipt is justified, and every pass has the deeds its next call needs. -/
structure Accounted {ι : Type} (s : Db) (w : World ι) : Prop where
  sent : ∀ x ∈ w.db.mailRegistrations.rows, x.mailSent = true → Justified s w x
  backed : ∀ i, passBacked w.db w.deeds (w.passes i)

section accounted

variable {ι : Type} {s : Db} {w : World ι}

/-- A receipt that one step sent is the one its pass was about to close. -/
theorem sent_turn {t : Db} {p : Pass} {tick : Tick} {x : MailRegistration}
    (hx : x ∈ (p.turn tick t).db.mailRegistrations.rows) (hsent : x.mailSent = true) :
    x ∈ t.mailRegistrations.rows ∨
    ∃ caps scheduler rest stage summary, p = .running caps (.row scheduler rest stage) summary ∧
      ((∃ k, stage = .markQueued k ∧ x.id = k.receipt.receiptId ∧ x.outcome = some .queued) ∨
        ∃ k, stage = .drop k ∧ x.id = k.receipt.receiptId ∧
          x.outcome = some .droppedWindowClosed) := by
  have hclosed : ∀ {outcome receiptId},
      x ∈ (closeReceipt outcome receiptId t).mailRegistrations.rows →
      x ∈ t.mailRegistrations.rows ∨ x.id = receiptId ∧ x.outcome = some outcome := by
    intro outcome receiptId hx
    rcases mem_closeReceipt.mp hx with ⟨hx, -⟩ | ⟨y, -, hid, -, rfl⟩
    · exact .inl hx
    · exact .inr ⟨hid, rfl⟩
  cases p with
  | idle | returned => exact .inl hx
  | running caps point summary =>
    cases point with
    | propagate => exact .inl (List.mem_filter.mp hx).1
    | claim => exact .inl hx
    | find schedulerId =>
      simp only [Pass.turn, Point.turn] at hx
      split at hx <;> exact .inl hx
    | row scheduler rest stage =>
      cases stage with
      | materialize =>
        simp only [Pass.turn, Point.turn, Stage.turn] at hx
        split at hx
        · exact .inl hx
        · next h =>
          obtain ⟨born, hrows, hborn⟩ := (materialized_of_ok h).receipts
          rw [hrows] at hx
          rcases List.mem_append.mp hx with hx | hx
          · exact .inl hx
          · rw [(hborn x hx).1] at hsent
            cases hsent
      | drop k =>
        refine (hclosed hx).imp_right fun h => ?_
        exact ⟨_, _, _, _, _, rfl, .inr ⟨k, rfl, h⟩⟩
      | markQueued k =>
        refine (hclosed hx).imp_right fun h => ?_
        exact ⟨_, _, _, _, _, rfl, .inl ⟨k, rfl, h⟩⟩
      | sweep | readDue | fail | clear | countMissing | rearm => exact .inl hx
      | findEvent | window | enqueue | recompute | readStill =>
        simp only [Pass.turn, Point.turn, Stage.turn] at hx
        split at hx <;> exact .inl hx
      | render k =>
        simp only [Pass.turn, Point.turn, Stage.turn] at hx
        split at hx
        · exact .inl hx
        · split at hx <;> exact .inl hx

theorem Justified.mono {w' : World ι} {x : MailRegistration} (h : Justified s w x)
    (hevents : w'.db.events = w.db.events) (hdeeds : w.deeds <+: w'.deeds) :
    Justified s w' x := by
  rcases h with h | ⟨houtcome, p, hp, hid⟩ | ⟨houtcome, p, event, now, hp, hid, hevent, hend⟩
  · exact .inl h
  · exact .inr (.inl ⟨houtcome, p, hdeeds.subset hp, hid⟩)
  · exact .inr (.inr ⟨houtcome, p, event, now, hdeeds.subset hp, hid, hevents ▸ hevent, hend⟩)

theorem accounted_start : Accounted s (World.start s : World ι) :=
  ⟨fun _ hx _ => .inl hx, fun _ => trivial⟩

variable [DecidableEq ι]

/-- A step that only replaces a pass by one with nothing to close. -/
theorem Accounted.setPass {i : ι} {p : Pass} (h : Accounted s w)
    (hp : passBacked w.db w.deeds p) : Accounted s (w.setPass i p) :=
  ⟨h.sent, forall_setPass (P := fun _ => passBacked w.db w.deeds) h.backed hp⟩

theorem Accounted.next (h : Accounted s w) (a : Act ι) : Accounted s (w.next a) := by
  cases a with
  | verb c =>
    refine ⟨fun x hx hsent => ?_, fun i => ?_⟩
    · rw [World.next, next_mailRegistrations] at hx
      exact (h.sent x hx hsent).mono (next_events c) (List.prefix_refl _)
    · simpa [World.next] using passBacked_mono [] (h.backed i) (next_events c)
  | runDueSchedulers i caps =>
    simp only [World.next, World.enter]
    split
    · exact h
    · exact h.setPass trivial
  | runSchedulerById i caps schedulerId =>
    simp only [World.next, World.enter]
    split
    · exact h
    · exact h.setPass trivial
  | turn i tick =>
    have hevents := passEffect_events (Pass.turn_effect tick w.db (w.passes i))
    have hbacked := h.backed i
    refine ⟨fun x hx hsent => ?_, ?_⟩
    · rcases sent_turn hx hsent with hx | ⟨caps, scheduler, rest, stage, summary, hpass, hstage⟩
      · exact (h.sent x hx hsent).mono hevents (List.prefix_append _ _)
      · rw [hpass] at hbacked
        rcases hstage with ⟨k, rfl, hid, houtcome⟩ | ⟨k, rfl, hid, houtcome⟩
        · exact .inr (.inl ⟨houtcome, _, List.mem_append_left _ hbacked.2, hid.symm⟩)
        · obtain ⟨hevent, now, hmem, hend⟩ := hbacked
          exact .inr (.inr ⟨houtcome, _, _, now, List.mem_append_left _ hmem, hid.symm,
            hevents.symm ▸ hevent, hend⟩)
    · exact forall_setPass (P := fun _ => passBacked _ _)
        (fun j => passBacked_mono _ (h.backed j) hevents) (passBacked_turn tick hbacked)
  | crash i => exact h.setPass trivial

end accounted

end evidence

section serial

def sendsTo (schedulerId registrationId : Uuid) : Deed → Bool
  | .enqueued p => p.schedulerId == schedulerId && p.registrationId == registrationId
  | .rendered _ | .refused _ | .overdue _ _ _ => false

/-- The successful enqueues so far for one scheduler and registration. -/
def sends (deeds : List Deed) (schedulerId registrationId : Uuid) : ℕ :=
  deeds.countP (sendsTo schedulerId registrationId)

/-- The receipt whose flag a pass is about to flip after a successful enqueue. -/
def flips : Pass → Option Parcel
  | .running _ (.row scheduler _ (.markQueued k)) _ => some (k.parcel scheduler)
  | _ => none

/-- The receipts of its batch that a stage has yet to close. -/
def stageHeld : Stage → List DueReceipt
  | .window k | .drop k | .render k | .enqueue k _ _ | .markQueued k | .fail k _ =>
    k.receipt :: k.later
  | .sweep | .materialize | .findEvent | .readDue _ | .recompute | .clear | .countMissing _
  | .readStill _ _ | .rearm => []

/-- Distinct unsent receipts of the scheduler. -/
def Unsent (s : Db) (schedulerId : Uuid) (ds : List DueReceipt) : Prop :=
  ds.Pairwise (fun d d' => d.receiptId ≠ d'.receiptId) ∧
  ∀ d ∈ ds, ∃ x ∈ s.mailRegistrations.rows, x.id = d.receiptId ∧ x.schedulerId = schedulerId ∧
    x.registrationId = d.registrationId ∧ x.mailSent = false

def passHolds (s : Db) : Pass → Prop
  | .running _ (.row scheduler _ stage) _ => Unsent s scheduler.id (stageHeld stage)
  | .running _ .propagate _ | .running _ .claim _ | .running _ (.find _) _ => True
  | .idle | .returned _ => True

/-- With this the only pass: its receipts are unsent, no message was enqueued twice, and an
enqueued one has its receipt sent, unless the pass is about to flip it. -/
structure SendsOnce (s : Db) (deeds : List Deed) (p : Pass) : Prop where
  holds : passHolds s p
  once : ∀ a b, sends deeds a b ≤ 1
  settled : ∀ a b, 0 < sends deeds a b → s.hasSentReceipt a b = true ∨
    ∃ q, flips p = some q ∧ q.schedulerId = a ∧ q.registrationId = b

section turns

variable {s t : Db} {deeds more : List Deed} {p p' : Pass} {k : Walk} {schedulerId : Uuid}

theorem sends_append (a b : Uuid) :
    sends (deeds ++ more) a b = sends deeds a b + sends more a b := List.countP_append

theorem unsent_nil : Unsent s schedulerId [] := ⟨.nil, by simp⟩

@[simp] theorem passHolds_atRows (caps : Caps) (summary : SchedulerRunSummary)
    (rows : List SchedulerRow) : passHolds s (.atRows caps summary rows) := by
  cases rows with
  | nil => trivial
  | cons scheduler rest =>
    simp only [Pass.atRows, passHolds, SchedulerRow.firstStage]
    split <;> exact unsent_nil

theorem unsent_due (event : Event) (caps : Caps) (now : Timestamp) :
    Unsent s schedulerId
      (stageHeld (.ofBatch caps event (dueReceipts schedulerId caps.batch now s))) := by
  have hdue : Unsent s schedulerId (dueReceipts schedulerId caps.batch now s) := by
    refine ⟨pairwise_due.sublist (List.take_sublist _ _), fun d hd => ?_⟩
    obtain ⟨x, hx, hdue⟩ := exists_of_mem_due (List.mem_of_mem_take hd)
    obtain ⟨hscheduler, hsent, hid, hregistration⟩ := dueReceipt?_eq_some hdue
    exact ⟨x, hx, hid.symm, hscheduler, hregistration.symm, hsent⟩
  cases hbatch : dueReceipts schedulerId caps.batch now s with
  | nil => exact unsent_nil
  | cons d later => rwa [hbatch] at hdue

/-- Closing one receipt leaves the ones after it. -/
theorem unsent_next (h : Unsent s schedulerId (k.receipt :: k.later))
    (hkeep : ∀ x ∈ s.mailRegistrations.rows, x.id ≠ k.receipt.receiptId →
      x ∈ t.mailRegistrations.rows) : Unsent t schedulerId (stageHeld k.next) := by
  cases hlater : k.later with
  | nil =>
    simp only [Walk.next, hlater]
    split <;> exact unsent_nil
  | cons d later =>
    simp only [Walk.next, hlater, stageHeld]
    rw [hlater] at h
    obtain ⟨hhead, htail⟩ := List.pairwise_cons.mp h.1
    refine ⟨htail, fun e he => ?_⟩
    obtain ⟨x, hx, hid, hrest⟩ := h.2 e (List.mem_cons_of_mem _ he)
    exact ⟨x, hkeep x hx (hid ▸ (hhead e he).symm), hid, hrest⟩

theorem unsent_closed {outcome : ReceiptOutcome}
    (h : Unsent s schedulerId (k.receipt :: k.later)) :
    Unsent (closeReceipt outcome k.receipt.receiptId s) schedulerId (stageHeld k.next) :=
  unsent_next h fun _ hx hne => mem_closeReceipt.mpr (.inl ⟨hx, fun h => hne h.1⟩)

/-- A step that enqueues nothing and follows no successful enqueue. -/
theorem SendsOnce.quiet (h : SendsOnce s deeds p) (hflips : flips p = none) (hkeep : SentKept s t)
    (hmore : ∀ a b, sends more a b = 0) (hp : passHolds t p') : SendsOnce t (deeds ++ more) p' where
  holds := hp
  once a b := by
    rw [sends_append, hmore]
    exact h.once a b
  settled a b hpos := by
    rw [sends_append, hmore] at hpos
    rcases h.settled a b hpos with hsent | ⟨q, hq, -⟩
    · exact .inl (hkeep.hasSentReceipt hsent)
    · rw [hflips] at hq
      cases hq

/-- A pass holds the receipt unsent, so no message went out for it before. -/
theorem SendsOnce.sends_eq_zero {caps : Caps} {scheduler : SchedulerRow} {rest : List SchedulerRow}
    {stage : Stage} {summary : SchedulerRunSummary} {d : DueReceipt}
    (h : SendsOnce s deeds (.running caps (.row scheduler rest stage) summary))
    (hd : d ∈ stageHeld stage)
    (hflips : flips (.running caps (.row scheduler rest stage) summary) = none) :
    sends deeds scheduler.id d.registrationId = 0 := by
  by_contra hne
  rcases h.settled _ _ (Nat.pos_of_ne_zero hne) with hsent | ⟨q, hq, -⟩
  · obtain ⟨y, hy, hscheduler, hregistration, hsent⟩ := hasSentReceipt_iff.mp hsent
    obtain ⟨x, hx, -, hscheduler', hregistration', hunsent⟩ := h.holds.2 d hd
    obtain rfl := receipt_eq_of_pair hx hy (hscheduler'.trans hscheduler.symm)
      (hregistration'.trans hregistration.symm)
    rw [hunsent] at hsent
    cases hsent
  · rw [hflips] at hq
    cases hq

/-- A message goes out for a receipt that none went out for before. -/
theorem SendsOnce.enqueued {caps : Caps} {scheduler : SchedulerRow} {rest : List SchedulerRow}
    {summary : SchedulerRunSummary} {recipient : String} {mail : RenderedMail}
    (h : SendsOnce s deeds
      (.running caps (.row scheduler rest (.enqueue k recipient mail)) summary)) :
    SendsOnce s (deeds ++ [.enqueued (k.parcel scheduler)])
      (.running caps (.row scheduler rest (.markQueued k)) summary) := by
  have hzero := h.sends_eq_zero (List.mem_cons_self) rfl
  have hsends : ∀ a b, sends (deeds ++ [.enqueued (k.parcel scheduler)]) a b =
      sends deeds a b + if scheduler.id = a ∧ k.receipt.registrationId = b then 1 else 0 := by
    intro a b
    simp [sends, sendsTo, Walk.parcel]
  refine ⟨h.holds, fun a b => ?_, fun a b hpos => ?_⟩
  · have honce := h.once a b
    rw [hsends]
    split
    · next hpair => rw [← hpair.1, ← hpair.2, hzero]
    · exact honce
  · rw [hsends] at hpos
    split at hpos
    · next hpair => exact .inr ⟨_, rfl, hpair⟩
    · rcases h.settled a b hpos with hsent | ⟨q, hq, -⟩
      · exact .inl hsent
      · cases hq

/-- The flip after a message closes its receipt. -/
theorem SendsOnce.flipped {caps : Caps} {scheduler : SchedulerRow} {rest : List SchedulerRow}
    {summary summary' : SchedulerRunSummary}
    (h : SendsOnce s deeds (.running caps (.row scheduler rest (.markQueued k)) summary))
    (hkeep : SentKept s (markReceiptQueued k.receipt.receiptId s)) :
    SendsOnce (markReceiptQueued k.receipt.receiptId s) deeds
      (.running caps (.row scheduler rest k.next) summary') := by
  refine ⟨unsent_closed h.holds, h.once, fun a b hpos => .inl ?_⟩
  rcases h.settled a b hpos with hsent | ⟨q, hq, rfl, rfl⟩
  · exact hkeep.hasSentReceipt hsent
  · obtain rfl := Option.some.inj hq
    obtain ⟨x, hx, hid, hscheduler, hregistration, hunsent⟩ := h.holds.2 k.receipt List.mem_cons_self
    exact hasSentReceipt_iff.mpr ⟨MailRegistration.closed .queued x,
      mem_closeReceipt.mpr (.inr ⟨x, hx, hid, hunsent, rfl⟩), hscheduler, hregistration, rfl⟩

/-- One step of a pass that runs alone. -/
theorem SendsOnce.turn (h : SendsOnce s deeds p) (tick : Tick) :
    SendsOnce (p.turn tick s).db (deeds ++ (p.turn tick s).deeds) (p.turn tick s).pass := by
  have hkeep : SentKept s (p.turn tick s).db := passEffect_sentKept (Pass.turn_effect _ _ p)
  cases p with
  | idle | returned => exact h.quiet rfl hkeep (fun _ _ => rfl) trivial
  | running caps point summary =>
    cases point with
    | propagate => exact h.quiet rfl hkeep (fun _ _ => rfl) trivial
    | claim => exact h.quiet rfl hkeep (fun _ _ => rfl) (passHolds_atRows _ _ _)
    | find schedulerId =>
      simp only [Pass.turn, Point.turn] at hkeep ⊢
      split
      · exact h.quiet rfl (fun x hx _ => hx) (fun _ _ => rfl) trivial
      · exact h.quiet rfl (fun x hx _ => hx) (fun _ _ => rfl) (by simp)
    | row scheduler rest stage =>
      have hholds := h.holds
      cases stage with
      | sweep | rearm => exact h.quiet rfl hkeep (fun _ _ => rfl) (passHolds_atRows _ _ _)
      | clear | countMissing done => exact h.quiet rfl hkeep (fun _ _ => rfl) unsent_nil
      | materialize =>
        simp only [Pass.turn, Point.turn, Stage.turn] at hkeep ⊢
        split at hkeep
        · exact h.quiet rfl hkeep (fun _ _ => rfl) trivial
        · exact h.quiet rfl hkeep (fun _ _ => rfl) unsent_nil
      | findEvent =>
        simp only [Pass.turn, Point.turn, Stage.turn] at hkeep ⊢
        split
        · exact h.quiet rfl (fun x hx _ => hx) (fun _ _ => rfl) trivial
        · exact h.quiet rfl (fun x hx _ => hx) (fun _ _ => rfl) unsent_nil
      | readDue event => exact h.quiet rfl hkeep (fun _ _ => rfl) (unsent_due event caps tick.now)
      | window k =>
        simp only [Pass.turn, Point.turn, Stage.turn] at hkeep ⊢
        split
        · exact h.quiet rfl (fun x hx _ => hx) (fun _ _ => rfl) hholds
        · exact h.quiet rfl (fun x hx _ => hx) (fun _ _ => rfl) hholds
      | drop k => exact h.quiet rfl hkeep (fun _ _ => rfl) (unsent_closed hholds)
      | render k =>
        simp only [Pass.turn, Point.turn, Stage.turn] at hkeep ⊢
        split
        · exact h.quiet rfl (fun x hx _ => hx) (fun _ _ => rfl) hholds
        · split
          · exact h.quiet rfl (fun x hx _ => hx) (fun _ _ => rfl) hholds
          · exact h.quiet rfl (fun x hx _ => hx) (fun _ _ => rfl) hholds
      | enqueue k recipient mail =>
        simp only [Pass.turn, Point.turn, Stage.turn] at hkeep ⊢
        split
        · exact h.enqueued
        · exact h.quiet rfl (fun x hx _ => hx) (fun _ _ => rfl) hholds
      | markQueued k =>
        simp only [Pass.turn, Point.turn, Stage.turn, List.append_nil] at hkeep ⊢
        exact h.flipped hkeep
      | fail k kind =>
        exact h.quiet rfl hkeep (fun _ _ => rfl) (unsent_next hholds fun x hx _ => hx)
      | recompute =>
        simp only [Pass.turn, Point.turn, Stage.turn] at hkeep ⊢
        split
        · exact h.quiet rfl (fun x hx _ => hx) (fun _ _ => rfl) unsent_nil
        · exact h.quiet rfl (fun x hx _ => hx) (fun _ _ => rfl) unsent_nil
      | readStill done unmaterialized =>
        simp only [Pass.turn, Point.turn, Stage.turn] at hkeep ⊢
        split
        · exact h.quiet rfl (fun x hx _ => hx) (fun _ _ => rfl) unsent_nil
        · exact h.quiet rfl (fun x hx _ => hx) (fun _ _ => rfl) (passHolds_atRows _ _ _)

theorem passHolds_turn (h : passHolds s p) (tick : Tick) :
    passHolds (p.turn tick s).db (p.turn tick s).pass := by
  have hnone : SendsOnce s [] p :=
    ⟨h, fun _ _ => Nat.zero_le 1, fun _ _ hpos => absurd hpos (Nat.lt_irrefl 0)⟩
  exact (hnone.turn tick).holds

end turns

section world

variable {ι : Type} [DecidableEq ι] {s : Db} {w : World ι}

/-- Passes start one at a time, and none crashes between an enqueue and its flip. -/
def Serial (w : World ι) : Act ι → Prop
  | .verb _ | .turn _ _ => True
  | .runDueSchedulers _ _ | .runSchedulerById _ _ _ => ∀ i, (w.passes i).isRunning = false
  | .crash i => flips (w.passes i) = none

/-- At most one pass runs, and nothing was enqueued twice. -/
structure Serially (w : World ι) : Prop where
  alone : ∀ i j, (w.passes i).isRunning = true → (w.passes j).isRunning = true → i = j
  holds : ∀ i, passHolds w.db (w.passes i)
  once : ∀ a b, sends w.deeds a b ≤ 1
  settled : ∀ a b, 0 < sends w.deeds a b → w.db.hasSentReceipt a b = true ∨
    ∃ i q, flips (w.passes i) = some q ∧ q.schedulerId = a ∧ q.registrationId = b

omit [DecidableEq ι] in
theorem serially_start : Serially (World.start s : World ι) where
  alone := by simp [World.start, Pass.isRunning]
  holds _ := trivial
  once _ _ := Nat.zero_le 1
  settled _ _ h := absurd h (Nat.lt_irrefl 0)

theorem isRunning_of_flips {p : Pass} {q : Parcel} (h : flips p = some q) :
    p.isRunning = true := by
  cases p with
  | running caps point summary => rfl
  | idle | returned => cases h

theorem turn_of_not_running {p : Pass} (h : p.isRunning = false) (tick : Tick) (s : Db) :
    p.turn tick s = ⟨s, p, []⟩ := by
  cases p with
  | running caps point summary => cases h
  | idle | returned => rfl

theorem passHolds_of_not_running {p : Pass} (h : p.isRunning = false) : passHolds s p := by
  cases p with
  | running caps point summary => cases h
  | idle | returned => trivial

theorem flips_of_not_running {p : Pass} (h : p.isRunning = false) : flips p = none := by
  cases p with
  | running caps point summary => cases h
  | idle | returned => rfl

theorem passHolds_congr {t : Db} {p : Pass} (h : t.mailRegistrations = s.mailRegistrations)
    (hp : passHolds s p) : passHolds t p := by
  cases p with
  | idle | returned => trivial
  | running caps point summary =>
    cases point with
    | propagate | claim | find => trivial
    | row scheduler rest stage => simpa only [passHolds, Unsent, h] using hp

omit [DecidableEq ι] in
/-- The pass that runs, if any, sends once. -/
theorem Serially.sendsOnce (h : Serially w) {i : ι} (hi : (w.passes i).isRunning = true) :
    SendsOnce w.db w.deeds (w.passes i) where
  holds := h.holds i
  once := h.once
  settled a b hpos := by
    refine (h.settled a b hpos).imp_right ?_
    rintro ⟨j, q, hq, hpair⟩
    obtain rfl := h.alone i j hi (isRunning_of_flips hq)
    exact ⟨q, hq, hpair⟩

/-- What the one pass does while the others rest. -/
theorem Serially.of_sendsOnce {w' : World ι} {i : ι} (hdb : SendsOnce w'.db w'.deeds (w'.passes i))
    (hothers : ∀ j, j ≠ i → (w'.passes j).isRunning = false) : Serially w' where
  alone j l hj hl := by
    have hat : ∀ j, (w'.passes j).isRunning = true → j = i := fun j hj => by
      by_contra hne
      rw [hothers j hne] at hj
      cases hj
    rw [hat j hj, hat l hl]
  holds j := by
    by_cases hj : j = i
    · exact hj ▸ hdb.holds
    · exact passHolds_of_not_running (hothers j hj)
  once := hdb.once
  settled a b hpos := (hdb.settled a b hpos).imp_right fun h => ⟨i, h⟩

/-- With no pass running, every enqueued receipt is sent. -/
theorem Serially.enter (h : Serially w) (hidle : ∀ i, (w.passes i).isRunning = false) (i : ι)
    (caps : Caps) {point : Point} (hholds : passHolds w.db (.running caps point .zero)) :
    Serially (w.enter i caps point) := by
  simp only [World.enter, hidle i, Bool.false_eq_true, if_false]
  refine .of_sendsOnce (i := i) ⟨by rwa [World.setPass_self], h.once, fun a b hpos => .inl ?_⟩
    fun j hj => by simpa [World.setPass_of_ne hj] using hidle j
  rcases h.settled a b hpos with hsent | ⟨j, q, hq, -⟩
  · exact hsent
  · rw [flips_of_not_running (hidle j)] at hq
    cases hq

theorem Serially.next (h : Serially w) (a : Act ι) (ha : Serial w a) : Serially (w.next a) := by
  cases a with
  | verb c =>
    have hreceipts : (w.db.next c).mailRegistrations = w.db.mailRegistrations :=
      next_mailRegistrations c
    refine ⟨h.alone, fun i => passHolds_congr hreceipts (h.holds i), h.once, fun a b hpos => ?_⟩
    have hsettled := h.settled a b hpos
    rwa [Db.hasSentReceipt, ← hreceipts] at hsettled
  | runDueSchedulers i caps => exact h.enter ha i caps trivial
  | runSchedulerById i caps schedulerId => exact h.enter ha i caps trivial
  | turn i tick =>
    cases hi : (w.passes i).isRunning with
    | false =>
      have hsame : w.next (.turn i tick) = w := by
        simp only [World.next, turn_of_not_running hi, List.append_nil, World.setPass]
        congr 1
        funext j
        split
        · next hj => rw [hj]
        · rfl
      rwa [hsame]
    | true =>
      refine .of_sendsOnce (i := i) ?_ fun j hj => ?_
      · simpa [World.next] using (h.sendsOnce hi).turn tick
      · simp only [World.next, World.setPass_of_ne hj]
        by_contra hrun
        exact hj (h.alone j i (by simpa using hrun) hi)
  | crash i =>
    refine ⟨fun j l hj hl => ?_, forall_setPass (P := fun _ => passHolds w.db) h.holds trivial,
      h.once, fun a b hpos => (h.settled a b hpos).imp_right ?_⟩
    · have hat : ∀ j, ((w.setPass i .idle).passes j).isRunning = true →
          (w.passes j).isRunning = true := fun j hj => by
        by_cases hji : j = i
        · rw [hji, World.setPass_self] at hj
          cases hj
        · rwa [World.setPass_of_ne hji] at hj
      exact h.alone j l (hat j hj) (hat l hl)
    · rintro ⟨j, q, hq, hpair⟩
      have hji : j ≠ i := by
        rintro rfl
        rw [show flips (w.passes j) = none from ha] at hq
        cases hq
      exact ⟨j, q, by rwa [World.next, World.setPass_of_ne hji], hpair⟩

end world

end serial

end BackboneEvents.ReceiptDeliveries
