import BackboneEvents.ReceiptTruth
import BackboneEvents.SchedulerRows

/-!
# The anchor of a receipt

Each interval kind names the instant its receipts are anchored at. Materialization anchors
every receipt at the creation stamp of its registration, and a pass drops every receipt
whose event is over. So a receipt keeps to its kind's anchor only where the creation stamp
plus the interval happens not to come first, and no receipt is anchored at the event's end.
-/
namespace BackboneEvents.SchedulerAnchors
open ConstrainedTables DeterministicRuns SchedulerArming ReceiptDeliveries ReceiptTruth SchedulerWalks
  SchedulerTermination SchedulerRounds

/-- `interval_nbr` units from an instant, and none for the unit `now`. -/
def offset (move : Shift) (m : Mail) (instant : Timestamp) : Option Timestamp :=
  if m.intervalUnit == .now then some instant else move instant m.intervalNbr m.intervalUnit

/-- The due time that the row's kind gives its receipt for a registration. -/
def anchor (shift back : Shift) (m : Mail) (event : Event) (r : Registration) : Option Timestamp :=
  match m.intervalKind with
  | .afterSub => r.createdAt.bind (offset shift m)
  | .beforeEvent => offset back m event.dateBegin
  | .afterEventStart => offset shift m event.dateBegin
  | .afterEvent => offset shift m event.dateEnd
  | .beforeEventEnd => offset back m event.dateEnd

/-- The date that materialization writes, whatever the kind; none when the arithmetic fails. -/
def written (shift : Shift) (m : Mail) (r : Registration) : Option (Option Timestamp) :=
  match r.createdAt with
  | none => some none
  | some created => (offset shift m created).map some

/-- A receipt with this date is due; one without a date always is. -/
def dueBy (t : Timestamp) (date : Option Timestamp) : Bool := date.all (fun d => decide (d ≤ t))

/-- The instant has come. -/
def come (t : Timestamp) (instant : Option Timestamp) : Bool := instant.any (fun d => decide (d ≤ t))

/-- The arithmetic of every pass is the given one. -/
def ByShift {ι : Type} (shift : Shift) : Act ι → Prop
  | .turn _ tick => tick.shift = shift
  | .verb _ | .runDueSchedulers _ _ | .runSchedulerById _ _ _ | .crash _ => True

/-- Verbs and passes lead to the database from one without receipts. -/
def Reached (shift : Shift) (s : Db) : Prop :=
  ∃ (ι : Type) (_ : DecidableEq ι) (origin : Db) (acts : List (Act ι)),
    origin.mailRegistrations.rows = [] ∧ (∀ a ∈ acts, ByShift shift a) ∧
      (acts.foldl World.next (World.start origin)).db = s

/-- A receipt of the row and the registration is enqueued at its anchor at the earliest, and
is not found too late when it is anchored at the event's end. -/
def OnAnchor (shift back : Shift) (m : Mail) (event : Event) (r : Registration) (t : Timestamp) :
    Deed → Prop
  | .enqueued p => p.schedulerId = m.id → p.registrationId = r.id →
      come t (anchor shift back m event r) = true
  | .overdue p _ _ => p.schedulerId = m.id → p.registrationId = r.id → m.intervalKind ≠ .afterEvent
  | .rendered _ | .refused _ => True

/-- Whatever else is stored, and whatever the ports answer, a pass at the time keeps the
receipt of the row and the registration to its anchor. -/
def Punctual (shift back : Shift) (m : Mail) (event : Event) (r : Registration) (t : Timestamp) :
    Prop :=
  ∀ s, Reached shift s → m ∈ s.mails.rows → event ∈ s.events.rows → r ∈ s.registrations.rows →
    ∀ host : Host, host.now = t → host.shift = shift → ∀ caps (entry : Entry) steps k,
      ∀ deed ∈ (host.next^[k] (entry.lone caps steps s)).deeds, OnAnchor shift back m event r t deed

/-- The row has no template, or the registration is not eligible, or its creation stamp plus
the interval is still to come; or the event is over and the kind is not after_event; or the
event is open and the registration has no valid recipient, or the anchor has come too. -/
def AnchorCome (shift back : Shift) (m : Mail) (event : Event) (r : Registration) (t : Timestamp) :
    Prop :=
  m.templateRef ≠ none → r.eligible = true → (written shift m r).any (dueBy t) = true →
    if event.dateEnd ≤ t then m.intervalKind ≠ .afterEvent
    else reachable m.notificationChannel r = true → come t (anchor shift back m event r) = true

section dates

variable {s t : Db} {shift : Shift} {m : Mail} {r : Registration}

/-- Every receipt has the date that materialization writes for its pair. -/
def Dated (shift : Shift) (s : Db) : Prop :=
  ∀ x ∈ s.mailRegistrations.rows, ∀ m ∈ s.mails.rows, m.id = x.schedulerId →
    ∀ r ∈ s.registrations.rows, r.id = x.registrationId → written shift m r = some x.scheduledDate

/-- The date of a receipt that materialization makes. -/
theorem map_newReceipt (receiptId : Uuid → Uuid) (shift : Shift) (m : Mail) (r : Registration) :
    (newReceipt receiptId shift m r).map (·.scheduledDate) = written shift m r := by
  cases hcreated : r.createdAt with
  | none => simp [newReceipt, written, hcreated]
  | some created =>
    by_cases hnow : m.intervalUnit = .now
    · simp [newReceipt, written, offset, hcreated, hnow]
    · simp [newReceipt, written, offset, hcreated, hnow, Function.comp_def]

theorem newReceipt_written {receiptId : Uuid → Uuid} {x : MailRegistration}
    (h : newReceipt receiptId shift m r = some x) : written shift m r = some x.scheduledDate := by
  rw [← map_newReceipt receiptId, h]
  rfl

theorem written_of_plan {m' : Mail} (h : plan m' = plan m) : written shift m' r = written shift m r :=
  (congrArg (written shift · r) h : written shift (plan m') r = written shift (plan m) r)

/-- Steps that keep the plans, the dates of receipts and the creation stamps keep the dating. -/
theorem Dated.of_kept (h : Dated shift s) (hanchored : Anchored s)
    (hplans : t.mails.rows.map plan = s.mails.rows.map plan)
    (hreceipts : ∀ x ∈ t.mailRegistrations.rows, ∃ y ∈ s.mailRegistrations.rows,
      y.schedulerId = x.schedulerId ∧ y.registrationId = x.registrationId ∧
        y.scheduledDate = x.scheduledDate)
    (hrows : ∀ r ∈ s.registrations.rows, ∃ r' ∈ t.registrations.rows, r'.id = r.id ∧
      r'.createdAt = r.createdAt) : Dated shift t := by
  intro x hx m hm hscheduler r hr hregistration
  obtain ⟨y, hy, hys, hyr, hyd⟩ := hreceipts x hx
  obtain ⟨m', hm', hplan⟩ := exists_plan hplans hm
  -- The registration of the receipt is an old one, so the stored row is its image.
  obtain ⟨r₀, hr₀, hid⟩ := hanchored y hy
  obtain ⟨r₁, hr₁, hid₁, hcreated⟩ := hrows r₀ hr₀
  obtain rfl := registration_eq_of_id hr₁ hr (hid₁.trans (hid.trans (hyr.trans hregistration.symm)))
  have hold := h y hy m' hm' ((id_of_plan hplan).trans (hscheduler.trans hys.symm)) r₀ hr₀ hid
  rw [← hyd, ← hold, written_of_plan hplan]
  simp only [written, hcreated]

theorem dated_closed (h : Dated shift s) (outcome : ReceiptOutcome) (receiptId : Uuid) :
    Dated shift (closeReceipt outcome receiptId s) := by
  intro x hx
  rcases mem_closeReceipt.mp hx with ⟨hx, -⟩ | ⟨y, hy, -, -, rfl⟩
  · exact h x hx
  · exact h y hy

theorem dated_mails (h : Dated shift s) {p : Mail → Bool} {f : Update Mail}
    (hf : ∀ m, plan (f m) = plan m) : Dated shift { s with mails := s.mails.modify p f } := by
  intro x hx m hm
  obtain ⟨m', hm', rfl⟩ := Table.mem_modify.mp hm
  have hplan : plan (if p m' then f m' else m') = plan m' := by
    split
    · exact hf m'
    · rfl
  intro hscheduler r hr hregistration
  rw [written_of_plan hplan]
  exact h x hx m' hm' ((id_of_plan hplan).symm.trans hscheduler) r hr hregistration

theorem dated_propagated (h : Dated shift s) (limit : ℕ) (scan : Uuid → ℕ) :
    Dated shift (propagateCancellations limit scan s).2 :=
  fun x hx => h x (List.mem_filter.mp hx).1

theorem dated_materialized (h : Dated shift s) {receiptId : Uuid → Uuid} {scheduler : SchedulerRow}
    {cap : ℕ} {ids : List Uuid}
    (hok : materializeReceipts receiptId shift scheduler cap s = .ok (ids, t)) : Dated shift t := by
  have htouches := touches_materialize hok
  cases hm : s.mail? scheduler.id with
  | none =>
    simp only [materializeReceipts, hm] at hok
    obtain ⟨-, rfl⟩ := Prod.mk.inj (Except.ok.inj hok)
    exact h
  | some m₀ =>
    obtain ⟨born, hmade⟩ := materializes_of_ok hok hm
    intro x hx m hm hscheduler r hr hregistration
    obtain ⟨m', hm', hplan⟩ := exists_plan htouches.plans hm
    rw [hmade.registrations] at hr
    rw [← written_of_plan hplan]
    rw [hmade.receipts] at hx
    rcases List.mem_append.mp hx with hx | hx
    · exact h x hx m' hm' ((id_of_plan hplan).trans hscheduler) r hr hregistration
    · obtain ⟨r', hr', hnew⟩ := exists_of_mem_mapM hmade.made x hx
      obtain ⟨hs, hreg, -⟩ := newReceipt_eq_some hnew
      obtain rfl := registration_eq_of_id (mem_missing hr').1 hr (hreg.symm.trans hregistration.symm)
      obtain rfl := mail_eq_of_id hm' (Table.find_mem ‹s.mail? scheduler.id = some m₀›)
        ((id_of_plan hplan).trans (hscheduler.trans hs))
      exact newReceipt_written hnew

/-- No step of a pass by the same arithmetic breaks the dating. -/
theorem dated_turn {tick : Tick} (h : Dated shift s) (hshift : tick.shift = shift) (p : Pass) :
    Dated shift (p.turn tick s).db := by
  cases p with
  | idle | returned => exact h
  | running caps point summary =>
    cases point with
    | propagate => exact dated_propagated h _ _
    | claim => exact h
    | find schedulerId => simp only [Pass.turn, Point.turn]; split <;> exact h
    | row scheduler rest stage =>
      simp only [Pass.turn, Point.turn]
      cases stage with
      | sweep | clear | rearm | fail => exact dated_mails h fun _ => rfl
      | materialize =>
        simp only [Stage.turn]
        split
        · exact h
        · next hok =>
          rw [hshift] at hok
          exact dated_materialized h hok
      | drop k => exact dated_closed h _ _
      | markQueued k => exact dated_closed h _ _
      | recompute => simp only [Stage.turn]; split <;> exact dated_mails h fun _ => rfl
      | render k =>
        simp only [Stage.turn]
        split
        · exact h
        · split <;> exact h
      | findEvent | window | enqueue | readStill => simp only [Stage.turn]; split <;> exact h
      | readDue | countMissing => exact h

theorem rowStep_createdAt {c : Call} {r r' : Registration} (h : c.RowStep r r') :
    r'.createdAt = r.createdAt := by cases h <;> rfl

theorem dated_next (h : Dated shift s) (hanchored : Anchored s) (c : Call) :
    Dated shift (s.next c) := by
  obtain ⟨t, rows, heffect, happly⟩ := c.apply_effect s
  obtain ⟨image, born, hrows, himage, -⟩ := heffect.rows
  refine h.of_kept hanchored ?_ (fun x hx => ⟨x, by rwa [next_mailRegistrations] at hx, rfl, rfl, rfl⟩)
    fun r hr => ⟨image r, ?_, rowStep_id (himage r hr), rowStep_createdAt (himage r hr)⟩
  · cases hanswer : c.answer s with
    | error e => rw [Db.next, Call.apply_of_refused hanswer, audited_mails]
    | ok a =>
      obtain ⟨u, rows', hrun, happly'⟩ := Call.apply_of_answer hanswer
      rw [Db.next, happly', audited_mails, mails_of_run hrun, armedFor, Table.rows_modify,
        List.map_map]
      refine List.map_congr_left fun m _ => ?_
      simp only [Function.comp_apply]
      split <;> rfl
  · rw [Db.next, happly, audited_registrations, hrows]
    exact List.mem_append_left _ (List.mem_map_of_mem hr)

theorem dated_of_reached (h : Reached shift s) : Dated shift s ∧ Anchored s := by
  obtain ⟨ι, _, origin, acts, hnone, hacts, rfl⟩ := h
  have hstart : Dated shift origin ∧ Anchored origin := by
    constructor <;> intro x hx <;> rw [hnone] at hx <;> cases hx
  have halong : ∀ (acts : List (Act ι)) (w : World ι), (∀ a ∈ acts, ByShift shift a) →
      Dated shift w.db ∧ Anchored w.db →
        Dated shift (acts.foldl World.next w).db ∧ Anchored (acts.foldl World.next w).db := by
    intro acts
    induction acts with
    | nil => exact fun w _ hw => hw
    | cons a acts ih =>
      intro w hby hw
      have ha := hby a List.mem_cons_self
      refine ih (w.next a) (fun b hb => hby b (List.mem_cons_of_mem _ hb)) ⟨?_, anchored_step w a hw.2⟩
      cases a with
      | verb c => exact dated_next hw.1 hw.2 c
      | runDueSchedulers i caps => rw [World.next, enter_db]; exact hw.1
      | runSchedulerById i caps schedulerId => rw [World.next, enter_db]; exact hw.1
      | turn i tick => exact dated_turn hw.1 ha _
      | crash i => exact hw.1
  exact halong acts (World.start origin) hacts hstart

end dates

section pass

variable {shift back : Shift} {m : Mail} {event : Event} {r : Registration} {t : Timestamp}
  {s : Db}

/-- The three rows stand in the database, and its receipts are dated. -/
structure Stands (shift : Shift) (m : Mail) (event : Event) (r : Registration) (s : Db) : Prop where
  mail : ∃ m' ∈ s.mails.rows, plan m' = plan m
  event : event ∈ s.events.rows
  registration : r ∈ s.registrations.rows
  dated : Dated shift s

/-- What a pass may take a due receipt of the row for: when it is the registration's, then the
written date has come. -/
def Owed (shift : Shift) (m : Mail) (r : Registration) (t : Timestamp) (d : DueReceipt) : Prop :=
  d.registrationId = r.id → r.eligible = true ∧ (written shift m r).any (dueBy t) = true ∧
    ∀ channel recipient, d.recipient channel = some recipient → reachable channel r = true

/-- A walk of the row is on its event and over owed receipts. -/
structure Walks (shift : Shift) (m : Mail) (event : Event) (r : Registration) (t : Timestamp)
    (k : Walk) : Prop where
  template : m.templateRef ≠ none
  event : k.event = event
  owed : ∀ d ∈ k.receipt :: k.later, Owed shift m r t d

/-- A receipt is rendered only while the event is open, and enqueued only for a valid
recipient. -/
def stageKeeps (shift : Shift) (m : Mail) (event : Event) (r : Registration) (t : Timestamp) :
    Stage → Prop
  | .materialize | .findEvent => m.templateRef ≠ none
  | .readDue e => m.templateRef ≠ none ∧ e = event
  | .window k | .drop k | .markQueued k | .fail k _ => Walks shift m event r t k
  | .render k => Walks shift m event r t k ∧ ¬ event.dateEnd ≤ t
  | .enqueue k recipient _ => Walks shift m event r t k ∧ ¬ event.dateEnd ≤ t ∧
    k.receipt.recipient m.notificationChannel = some recipient
  | .sweep | .recompute | .clear | .countMissing _ | .readStill _ _ | .rearm => True

def passKeeps (shift : Shift) (m : Mail) (event : Event) (r : Registration) (t : Timestamp) :
    Pass → Prop
  | .running _ (.row scheduler rest stage) _ =>
    (scheduler.id = m.id → Copies m scheduler ∧ stageKeeps shift m event r t stage) ∧
      ∀ other ∈ rest, other.id = m.id → Copies m other
  | .running _ .propagate _ | .running _ .claim _ | .running _ (.find _) _ => True
  | .idle | .returned _ => True

theorem passKeeps_atRows {caps : Caps} {summary : SchedulerRunSummary} {rows : List SchedulerRow}
    (h : ∀ scheduler ∈ rows, scheduler.id = m.id → Copies m scheduler) :
    passKeeps shift m event r t (.atRows caps summary rows) := by
  cases rows with
  | nil => trivial
  | cons scheduler rest =>
    refine ⟨fun hid => ?_, fun other hother => h other (List.mem_cons_of_mem _ hother)⟩
    have hcopies := h scheduler List.mem_cons_self hid
    refine ⟨hcopies, ?_⟩
    cases htemplate : scheduler.templateRef with
    | none => simp [SchedulerRow.firstStage, htemplate, stageKeeps]
    | some ref => simp [SchedulerRow.firstStage, htemplate, stageKeeps, hcopies.templateRef]

theorem Stands.copies (h : Stands shift m event r s) {m' : Mail} (hm' : m' ∈ s.mails.rows)
    (hid : m'.id = m.id) : Copies m m'.schedulerRow := by
  obtain ⟨m₀, hm₀, hplan⟩ := h.mail
  obtain rfl := mail_eq_of_id hm₀ hm' ((id_of_plan hplan).trans hid.symm)
  exact (copies_schedulerRow m₀).of_plan hplan.symm

/-- A due receipt of the row is owed. -/
theorem Stands.owed (h : Stands shift m event r s) {d : DueReceipt} (hd : d ∈ s.due m.id t) :
    Owed shift m r t d := by
  intro hregistration
  obtain ⟨m', hm', hplan⟩ := h.mail
  obtain ⟨x, hx, r', hr', hid, heligible, hscheduler, -, hdue, rfl⟩ := mem_due.mp hd
  obtain rfl := registration_eq_of_id hr' h.registration (hid.trans hregistration)
  refine ⟨heligible, ?_, fun channel recipient hrecipient => ?_⟩
  · rw [← written_of_plan hplan, h.dated x hx m' hm' ((id_of_plan hplan).trans hscheduler.symm) r' hr'
      hid]
    exact hdue
  · have hsame : (⟨0, r'.id, r'.name, r'.email, r'.phone, r'.barcode, none⟩ : DueReceipt).recipient
        channel = some recipient := hrecipient
    rw [reachable, hsame]
    rfl

theorem Walks.next {k : Walk} (h : Walks shift m event r t k) :
    stageKeeps shift m event r t k.next := by
  rw [Walk.next]
  split
  · next d later hlater =>
    exact ⟨h.template, h.event, fun e he => h.owed e (List.mem_cons_of_mem _ (hlater ▸ he))⟩
  · split
    · exact ⟨h.template, h.event⟩
    · trivial

/-- No step of a pass writes a plan. -/
theorem plans_turn (tick : Tick) (s : Db) (p : Pass) :
    (p.turn tick s).db.mails.rows.map plan = s.mails.rows.map plan := by
  have hmails : ∀ (p : Mail → Bool) (f : Update Mail), (∀ m, plan (f m) = plan m) →
      ((s.mails.modify p f).rows).map plan = s.mails.rows.map plan := fun p f hf => by
    rw [Table.rows_modify, List.map_map]
    refine List.map_congr_left fun m _ => ?_
    rw [Function.comp_apply]
    split
    · exact hf m
    · rfl
  cases p with
  | idle | returned => rfl
  | running caps point summary =>
    cases point with
    | propagate | claim => rfl
    | find schedulerId => simp only [Pass.turn, Point.turn]; split <;> rfl
    | row scheduler rest stage =>
      simp only [Pass.turn, Point.turn]
      cases stage with
      | sweep | clear | rearm | fail => exact hmails _ _ fun _ => rfl
      | materialize =>
        simp only [Stage.turn]
        split
        · rfl
        · next hok => exact (touches_materialize hok).plans
      | recompute => simp only [Stage.turn]; split <;> exact hmails _ _ fun _ => rfl
      | render k =>
        simp only [Stage.turn]
        split
        · rfl
        · split <;> rfl
      | findEvent | window | enqueue | readStill => simp only [Stage.turn]; split <;> rfl
      | drop | markQueued | readDue | countMissing => rfl

theorem Stands.turn (h : Stands shift m event r s) {tick : Tick} (hshift : tick.shift = shift)
    (p : Pass) : Stands shift m event r (p.turn tick s).db where
  mail := by
    obtain ⟨m', hm', hplan⟩ := h.mail
    obtain ⟨m'', hm'', hplan'⟩ := exists_plan (plans_turn tick s p).symm hm'
    exact ⟨m'', hm'', hplan'.trans hplan⟩
  event := by rw [passEffect_events (Pass.turn_effect tick s p)]; exact h.event
  registration := by rw [passEffect_registrations (Pass.turn_effect tick s p)]; exact h.registration
  dated := dated_turn h.dated hshift p

theorem Stands.ofBatch (h : Stands shift m event r s) {caps : Caps} {scheduler : SchedulerRow}
    (hid : scheduler.id = m.id) (htemplate : m.templateRef ≠ none) :
    stageKeeps shift m event r t (.ofBatch caps event (dueReceipts scheduler.id caps.batch t s)) := by
  have howed : ∀ d ∈ dueReceipts scheduler.id caps.batch t s, Owed shift m r t d := fun d hd =>
    h.owed (hid ▸ List.mem_of_mem_take hd)
  cases hdue : dueReceipts scheduler.id caps.batch t s with
  | nil => trivial
  | cons d later => exact ⟨htemplate, rfl, fun e he => howed e (hdue ▸ he)⟩

/-- The next stage of a call on the row, and the deed of this one. -/
structure StageStep (shift back : Shift) (m : Mail) (event : Event) (r : Registration)
    (t : Timestamp) (turn : Turn) : Prop where
  keeps : passKeeps shift m event r t turn.pass
  deeds : ∀ deed ∈ turn.deeds, OnAnchor shift back m event r t deed

variable (hcome : AnchorCome shift back m event r t) (hevent : event.id = m.eventId)

include hcome hevent in
/-- One step of a call keeps to the anchor where the anchor comes with the written date. -/
theorem keeps_stage (hstands : Stands shift m event r s) {tick : Tick} (hnow : tick.now = t)
    {caps : Caps} {summary : SchedulerRunSummary} {scheduler : SchedulerRow}
    {rest : List SchedulerRow} {stage : Stage}
    (hkeeps : passKeeps shift m event r t (.running caps (.row scheduler rest stage) summary)) :
    StageStep shift back m event r t (stage.turn caps scheduler rest tick summary s) := by
  obtain ⟨hstage, hrest⟩ := hkeeps
  have hrows : ∀ (summary : SchedulerRunSummary) (u : Db),
      StageStep shift back m event r t ⟨u, .atRows caps summary rest, []⟩ :=
    fun summary u => ⟨passKeeps_atRows hrest, by simp⟩
  have hgo : ∀ (stage' : Stage) (summary : SchedulerRunSummary) (u : Db),
      (scheduler.id = m.id → stageKeeps shift m event r t stage') →
      StageStep shift back m event r t
        ⟨u, .running caps (.row scheduler rest stage') summary, []⟩ :=
    fun stage' summary u h => ⟨⟨fun hid => ⟨(hstage hid).1, h hid⟩, hrest⟩, by simp⟩
  have hend : ∀ (e : EventError) (u : Db),
      StageStep shift back m event r t ⟨u, .returned (.error e), []⟩ := fun _ _ =>
    ⟨trivial, by simp⟩
  cases stage with
  | sweep | rearm => exact hrows _ _
  | materialize =>
    simp only [Stage.turn]
    split
    · exact hend _ _
    · exact hgo _ _ _ fun hid => (hstage hid).2
  | findEvent =>
    simp only [Stage.turn]
    split
    · exact hend _ _
    · next e he =>
      refine hgo _ _ _ fun hid => ⟨(hstage hid).2, ?_⟩
      have hfound := findEvent_eq_ok.mp he
      have hsame : e.id = event.id := by
        have hspec : e.id = scheduler.eventId := by simpa using Table.find_spec hfound
        rw [hspec, ← (hstage hid).1.eventId, hevent]
      exact Table.eq_of_clash (Table.find_mem hfound) hstands.event (by simp [clash, hsame])
  | readDue e =>
    simp only [Stage.turn]
    refine hgo _ _ _ fun hid => ?_
    obtain ⟨htemplate, rfl⟩ := (hstage hid).2
    rw [hnow]
    exact hstands.ofBatch hid htemplate
  | window k =>
    simp only [Stage.turn]
    split
    · next hover =>
      refine ⟨⟨fun hid => ⟨(hstage hid).1, (hstage hid).2⟩, hrest⟩, ?_⟩
      simp only [List.mem_singleton, forall_eq, OnAnchor]
      intro hid hregistration
      have hwalks : Walks shift m event r t k := (hstage hid).2
      obtain ⟨heligible, hwritten, -⟩ := hwalks.owed _ List.mem_cons_self hregistration
      have hcase := hcome hwalks.template heligible hwritten
      rwa [if_pos (by rwa [hwalks.event, hnow] at hover)] at hcase
    · next hopen =>
      refine hgo _ _ _ fun hid => ⟨(hstage hid).2, ?_⟩
      rwa [(hstage hid).2.event, hnow] at hopen
  | drop k => exact hgo _ _ _ fun hid => (hstage hid).2.next
  | markQueued k => exact hgo _ _ _ fun hid => (hstage hid).2.next
  | fail k kind => exact hgo _ _ _ fun hid => (hstage hid).2.next
  | render k =>
    have hquiet : ∀ stage', (scheduler.id = m.id → stageKeeps shift m event r t stage') →
        StageStep shift back m event r t ⟨s, .running caps (.row scheduler rest stage') summary,
          [.rendered (k.parcel scheduler)]⟩ := fun stage' h =>
      ⟨⟨fun hid => ⟨(hstage hid).1, h hid⟩, hrest⟩, by simp [OnAnchor]⟩
    simp only [Stage.turn]
    split
    · exact hquiet _ fun hid => (hstage hid).2.1
    · split
      · exact hquiet _ fun hid => (hstage hid).2.1
      · next recipient hrecipient =>
        refine hquiet _ fun hid => ⟨(hstage hid).2.1, (hstage hid).2.2, ?_⟩
        rwa [(hstage hid).1.channel]
  | enqueue k recipient mail =>
    simp only [Stage.turn]
    split
    · refine ⟨⟨fun hid => ⟨(hstage hid).1, (hstage hid).2.1⟩, hrest⟩, ?_⟩
      simp only [List.mem_singleton, forall_eq, OnAnchor]
      intro hid hregistration
      obtain ⟨hcopies, hwalks, hopen, hrecipient⟩ := hstage hid
      obtain ⟨heligible, hwritten, hreach⟩ := hwalks.owed _ List.mem_cons_self hregistration
      have hcase := hcome hwalks.template heligible hwritten
      rw [if_neg hopen] at hcase
      exact hcase (hreach _ _ hrecipient)
    · exact ⟨⟨fun hid => ⟨(hstage hid).1, (hstage hid).2.1⟩, hrest⟩, by simp [OnAnchor]⟩
  | recompute => simp only [Stage.turn]; split <;> exact hgo _ _ _ fun _ => trivial
  | clear | countMissing => exact hgo _ _ _ fun _ => trivial
  | readStill done unmaterialized =>
    simp only [Stage.turn]
    split
    · exact hgo _ _ _ fun _ => trivial
    · exact hrows _ _

/-- What holds of a lone pass at every step. -/
structure Keeps (shift back : Shift) (m : Mail) (event : Event) (r : Registration) (t : Timestamp)
    (l : Lone) : Prop where
  stands : Stands shift m event r l.db
  pass : passKeeps shift m event r t l.pass
  deeds : ∀ deed ∈ l.deeds, OnAnchor shift back m event r t deed

include hcome hevent in
theorem Keeps.next {host : Host} (hnow : host.now = t) (hshift : host.shift = shift) {l : Lone}
    (h : Keeps shift back m event r t l) : Keeps shift back m event r t (host.next l) := by
  have hstep : StageStep shift back m event r t (l.pass.turn (host.tick l.steps l.deeds) l.db) := by
    have hpass := h.pass
    cases hp : l.pass with
    | idle | returned => exact ⟨trivial, by simp [Pass.turn]⟩
    | running caps point summary =>
      cases point with
      | propagate => exact ⟨trivial, by simp [Pass.turn, Point.turn]⟩
      | claim =>
        refine ⟨passKeeps_atRows fun scheduler hscheduler hid => ?_, by simp [Pass.turn, Point.turn]⟩
        obtain ⟨m', hm', rfl⟩ := exists_of_mem_claimDue hscheduler
        exact h.stands.copies hm' hid
      | find schedulerId =>
        simp only [Pass.turn, Point.turn]
        split
        · exact ⟨trivial, by simp⟩
        · next scheduler hfind =>
          have hrows : ∀ summary', passKeeps shift m event r t
              (.atRows caps summary' [scheduler]) := fun summary' => by
            refine passKeeps_atRows fun other hother hid => ?_
            obtain rfl := List.mem_singleton.mp hother
            simp only [findScheduler] at hfind
            split at hfind
            · cases hfind
            · next m' hm' =>
              obtain rfl := Except.ok.inj hfind
              exact h.stands.copies (Table.find_mem hm') hid
          exact ⟨hrows _, by simp⟩
      | row scheduler rest stage =>
        rw [hp] at hpass
        exact keeps_stage hcome hevent h.stands hnow hpass
  refine ⟨h.stands.turn hshift _, hstep.keeps, fun deed hdeed => ?_⟩
  rcases List.mem_append.mp hdeed with hdeed | hdeed
  · exact h.deeds deed hdeed
  · exact hstep.deeds deed hdeed

include hcome hevent in
theorem punctual_of_anchorCome : Punctual shift back m event r t := by
  intro s hreached hm hevent' hr host hnow hshift caps entry steps k
  have hstart : Keeps shift back m event r t (entry.lone caps steps s) := by
    refine ⟨⟨⟨m, hm, rfl⟩, hevent', hr, (dated_of_reached hreached).1⟩, ?_, by simp [Entry.lone]⟩
    cases entry <;> trivial
  exact (Leads.invariant ⟨k, rfl⟩ hstart fun l hl => hl.next hcome hevent hnow hshift).deeds

end pass

section alone

/-- The three rows and nothing else. -/
def alone (m : Mail) (event : Event) (r : Registration) : Db :=
  { Db.empty with
    events := Table.empty.push event
    registrations := Table.empty.push r
    mails := Table.empty.push m }

/-- A host that accepts everything at the time. -/
def willing (shift : Shift) (t : Timestamp) : Host where
  now := t
  shift := shift
  scan _ := id
  locked _ _ := false
  receiptId _ := id
  renderer _ _ _ _ := .ok ⟨"", "", ""⟩
  queue _ _ _ := .ok ()
  smsQueue _ _ _ := .ok ()

variable {shift back : Shift} {m : Mail} {event : Event} {r : Registration} {t : Timestamp}

theorem obliging_willing (shift : Shift) (t : Timestamp) : Obliging (willing shift t) :=
  ⟨fun _ _ _ _ => rfl, fun _ _ _ => rfl, fun _ _ _ => rfl, fun _ _ => rfl⟩

theorem reached_alone : Reached shift (alone m event r) :=
  ⟨Unit, inferInstance, alone m event r, [], rfl, by simp, rfl⟩

variable (event) in
/-- The pass materializes the one receipt. -/
theorem materialize_alone (hr : r.eventId = m.eventId) (heligible : r.eligible = true)
    (hwritten : (written shift m r).any (dueBy t) = true) (cap : ℕ) (hcap : 0 < cap) :
    ∃ ids u d ds, materializeReceipts id shift m.schedulerRow cap (alone m event r) = .ok (ids, u) ∧
      u.events = (alone m event r).events ∧ u.due m.id t = d :: ds ∧ d.registrationId = r.id ∧
      ∀ channel, reachable channel r = true → (d.recipient channel).isSome = true := by
  have hm : (alone m event r).mail? m.schedulerRow.id = some m :=
    mail?_eq_some (s := alone m event r) List.mem_cons_self
  have hnone : (alone m event r).unmaterialized m = [r] := by
    have hreceipt : (alone m event r).hasReceipt m.id r.id = false := rfl
    have hrows : (alone m event r).registrations.rows = [r] := rfl
    rw [Db.unmaterialized, hrows]
    simp [hr, heligible, hreceipt]
  obtain ⟨date, hdate, hdue⟩ := (Option.any_eq_true _ _).mp hwritten
  obtain ⟨x, hx, hxdate⟩ := Option.map_eq_some_iff.mp ((map_newReceipt id shift m r).trans hdate)
  obtain ⟨hscheduler, hregistration, hunsent⟩ := newReceipt_eq_some hx
  obtain ⟨ids, u, hok⟩ := @materialize_ok m.schedulerRow m id shift cap (alone m event r) hm
    ⟨fun y hy => absurd hy List.not_mem_nil, Function.injective_id⟩
    (fun r' hr' => by
      rw [hnone, List.mem_singleton] at hr'
      rw [hr', hx]
      rfl)
  obtain ⟨born, hmade⟩ := materializes_of_ok hok hm
  have hmissing : r ∈ missing cap (alone m event r) m := by
    rw [missing, hnone, List.insertionSort_cons, List.insertionSort_nil, List.orderedInsert_nil,
      List.take_of_length_le (show [r].length ≤ cap from hcap)]
    exact List.mem_singleton_self r
  obtain ⟨x', hx', hnew⟩ := exists_image_of_mapM hmade.made r hmissing
  obtain rfl := Option.some.inj (hx.symm.trans hnew)
  have hrows : u.registrations.rows = [r] := by rw [hmade.registrations]; rfl
  have hof : ∀ d ∈ u.due m.id t, d.registrationId = r.id ∧
      ∀ channel, reachable channel r = true → (d.recipient channel).isSome = true := by
    intro d hd
    obtain ⟨y, hy, r', hr', hid, -, -, -, -, rfl⟩ := mem_due.mp hd
    rw [hrows, List.mem_singleton] at hr'
    subst hr'
    exact ⟨hid.symm, fun channel h => h⟩
  have hmem : (⟨x.id, x.registrationId, r.name, r.email, r.phone, r.barcode, x.scheduledDate⟩ :
      DueReceipt) ∈ u.due m.id t := by
    refine mem_due.mpr ⟨x, ?_, r, by simp [hrows], hregistration.symm, heligible, hscheduler, hunsent,
      by rw [hxdate]; exact hdue, rfl⟩
    rw [hmade.receipts]
    exact List.mem_append_right _ hx'
  cases hlist : u.due m.id t with
  | nil => rw [hlist] at hmem; cases hmem
  | cons d ds =>
    obtain ⟨hd, hrecipient⟩ := hof d (hlist ▸ List.mem_cons_self)
    exact ⟨ids, u, d, ds, hok, hmade.events, hlist, hd, hrecipient⟩

/-- An officer run comes to the walk of the row. -/
theorem comes_alone (host : Host) {ids : List Uuid} {u : Db} (hevent : event.id = m.eventId)
    (htemplate : m.templateRef ≠ none) (hevents : u.events = (alone m event r).events)
    (hok : ∀ n, materializeReceipts (host.receiptId n) host.shift m.schedulerRow Caps.default.batch
      (alone m event r) = .ok (ids, u)) :
    ∃ n summary, Leads host.next
      ((Entry.runSchedulerById m.id).lone .default 0 (alone m event r))
      (onRow .default m.schedulerRow [] n u (.readDue event) summary []) := by
  have hfind : findScheduler m.id (alone m event r) = .ok m.schedulerRow := by
    simp only [findScheduler, mail?_eq_some (s := alone m event r) List.mem_cons_self]
  have hfound : findEvent m.schedulerRow.eventId u = .ok event := by
    refine findEvent_eq_ok.mpr ?_
    rw [Db.event?, hevents]
    exact Table.find_eq_some (t := (alone m event r).events) List.mem_cons_self
      (by simp [Mail.schedulerRow, hevent]) fun x hx => by simp_all [clash, Mail.schedulerRow]
  have hstart : host.next ((Entry.runSchedulerById m.id).lone .default 0 (alone m event r)) =
      ⟨1, alone m event r, .atRows .default { SchedulerRunSummary.zero with schedulersClaimed := 1 }
        [m.schedulerRow], []⟩ := by
    simp only [Host.next, Entry.lone, Entry.point, Pass.turn, Point.turn, hfind]
    rfl
  obtain ⟨n, summary, hleads⟩ := comes_readDue (l := ⟨1, alone m event r, _, []⟩) [] rfl htemplate
    (hok 1) hfound
  exact ⟨n, summary, .head hstart hleads⟩

theorem anchorCome_of_punctual (hevent : event.id = m.eventId) (hr : r.eventId = m.eventId)
    (h : Punctual shift back m event r t) : AnchorCome shift back m event r t := by
  intro htemplate heligible hwritten
  obtain ⟨ids, u, d, ds, hok, hevents, hdue, hd, hrecipient⟩ :=
    materialize_alone event hr heligible hwritten Caps.default.batch Caps.default.batch_pos
  obtain ⟨n, summary, hleads⟩ := comes_alone (willing shift t) hevent htemplate hevents fun _ => hok
  -- Every deed of the run from here on keeps to the anchor.
  have hdeeds : ∀ {stage v more}, Comes (willing shift t) .default m.schedulerRow []
      (onRow .default m.schedulerRow [] n u (.readDue event) summary []) v stage more →
      ∀ deed ∈ more, OnAnchor shift back m event r t deed := by
    rintro stage v more ⟨n', summary', hrun⟩ deed hdeed
    obtain ⟨k, hk⟩ := hleads.trans hrun
    refine h (alone m event r) reached_alone List.mem_cons_self List.mem_cons_self List.mem_cons_self
      (willing shift t) rfl rfl .default (.runSchedulerById m.id) 0 k deed ?_
    rw [hk]
    exact hdeed
  have hread := turn_readDue (willing shift t) .default m.schedulerRow [] event hdue n summary []
  generalize ds.take (Caps.default.batch - 1) = later at hread
  generalize decide (Caps.default.batch ≤ (d :: ds).length) = full at hread
  split
  · next hover =>
    have hwindow : ∀ n deeds, (Stage.window ⟨event, d, later, full⟩).turn .default m.schedulerRow []
        ((willing shift t).tick n deeds) summary u = ⟨u, .running .default (.row m.schedulerRow []
          (.drop ⟨event, d, later, full⟩)) summary,
          [.overdue ⟨m.id, d.registrationId, d.receiptId⟩ event t]⟩ := fun _ _ => if_pos hover
    exact hdeeds (.turn hread (.turn (hwindow _ _) .here)) _ (List.mem_singleton_self _) rfl hd
  · next hopen =>
    intro hreach
    have hwalk := @walk_closes (willing shift t) .default m.schedulerRow []
      (obliging_willing shift t) ⟨event, d, later, full⟩ (hrecipient _ hreach) (n + 1) u summary
      ([] ++ [])
    have hdealt : dealt m.schedulerRow event t d =
        [.rendered ⟨m.id, d.registrationId, d.receiptId⟩,
          .enqueued ⟨m.id, d.registrationId, d.receiptId⟩] := if_neg hopen
    refine hdeeds (.turn hread hwalk) (.enqueued ⟨m.id, d.registrationId, d.receiptId⟩) ?_ rfl hd
    change _ ∈ [] ++ dealt m.schedulerRow event t d
    rw [hdealt]
    simp

end alone

/-- For every row, its event, a registration of the event and a time: whatever else verbs and
passes have stored, and whatever the ports answer, a pass at the time keeps the receipt to its
kind's anchor exactly when the anchor comes with the date that the code writes. -/
theorem punctual_iff (shift back : Shift) (m : Mail) (event : Event) (r : Registration)
    (t : Timestamp) (hevent : event.id = m.eventId) (hr : r.eventId = m.eventId) :
    Punctual shift back m event r t ↔ AnchorCome shift back m event r t :=
  ⟨anchorCome_of_punctual hevent hr, fun hcome => punctual_of_anchorCome hcome hevent⟩

/-- An after_sub row keeps to its anchor with every registration that has its creation stamp. -/
theorem anchorCome_of_afterSub {shift back : Shift} {m : Mail} {event : Event} {r : Registration}
    {t : Timestamp} (hkind : m.intervalKind = .afterSub) (hcreated : r.createdAt.isSome = true) :
    AnchorCome shift back m event r t := by
  intro _ _ hwritten
  obtain ⟨created, hcreated⟩ := Option.isSome_iff_exists.mp hcreated
  split
  · simp [hkind]
  · intro _
    simp only [written, hcreated, Option.any_map] at hwritten
    simp only [come, anchor, hkind, hcreated, Option.bind_some]
    exact hwritten

section sample

/-- Hours as microseconds; the other units do not occur. -/
def hourly (sign : ℤ) : Shift := fun instant nbr _ => some (instant + sign * (3600000000 * nbr))

/-- An attendee of the gig, created at the epoch. -/
def fan : Registration :=
  ⟨1, 1, none, none, "Ann", "ann@example.com", none, none, none, .open, none, none, none, none, true,
    "EVT-1", none, some 0⟩

/-- A gig a day later, and its reminder an hour before it begins. -/
def lateGig : Event := { gig with dateBegin := 86400000000, dateEnd := 90000000000 }

def hourBefore : Mail :=
  { gigScheduler with intervalNbr := 1, intervalUnit := .hours, intervalKind := .beforeEvent }

/-- Two hours after the registration the reminder goes out, most of a day early. -/
theorem hourBefore_early :
    ¬ Punctual (hourly 1) (hourly (-1)) hourBefore lateGig fan 7200000000 := fun h =>
  absurd ((punctual_iff _ _ _ _ _ _ rfl rfl).mp h (by decide) (by decide) (by decide)) (by decide)

/-- An hour before the gig it is on time. -/
theorem punctual_iff_hourBefore :
    Punctual (hourly 1) (hourly (-1)) hourBefore lateGig fan 82800000000 :=
  (punctual_iff _ _ _ _ _ _ rfl rfl).mpr fun _ _ _ => by decide

end sample

end BackboneEvents.SchedulerAnchors
