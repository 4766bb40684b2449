import BackboneEvents.GrandTotal
import BackboneEvents.SchedulerRepository
import BackboneEvents.VerbCalls

/-!
# The scheduler service

A pass is a machine whose steps are the single repository calls, port calls and window
checks of the service, in source order. It holds no lock and no transaction between them,
so several passes and the verbs interleave at these steps, and a pass can stop after any
of them. Every port call and every window found closed leaves a deed.
-/
namespace BackboneEvents
open ConstrainedTables

/-- What a render needs of the event and the registration. -/
structure RenderContext where
  eventId : Uuid
  eventName : String
  eventDateBegin : Timestamp
  eventDateEnd : Timestamp
  eventDateTz : String
  registrationId : Uuid
  attendeeName : String
  attendeeEmail : String
  attendeePhone : Option String
  registrationBarcode : String
  deriving DecidableEq, Repr

structure RenderedMail where
  subject : String
  bodyHtml : String
  bodyText : String
  deriving DecidableEq, Repr

structure RenderedSms where
  bodyText : String
  deriving DecidableEq, Repr

inductive RenderFailure where
  | templateUnresolved
  | rendererNotComposed
  | renderFailed (detail : String)
  deriving DecidableEq, Repr

def RenderFailure.kind : RenderFailure → MailErrorKind
  | .templateUnresolved => .templateUnresolved
  | .rendererNotComposed => .templateRendererNotComposed
  | .renderFailed _ => .renderFailed

/-- The batch and the claim limit, each at least one. -/
structure Caps where
  batch : ℕ
  cronLimit : ℕ
  batch_pos : 0 < batch
  cronLimit_pos : 0 < cronLimit

def Caps.default : Caps := ⟨50, 1000, by decide, by decide⟩

def Caps.withCaps (batch cronLimit : ℤ) : Caps where
  batch := (max batch 1).toNat
  cronLimit := (max cronLimit 1).toNat
  batch_pos := by omega
  cronLimit_pos := by omega

abbrev Renderer :=
  Option Uuid → Option String → RenderContext → Except RenderFailure RenderedMail

abbrev MailQueue := String → RenderedMail → Except EventError Unit

abbrev SmsQueue := String → RenderedSms → Except String Unit

/-- What one step of a pass finds outside the database: the clock, the order of an
unordered scan, rows locked elsewhere, new ids, interval arithmetic and the ports. -/
structure Tick where
  now : Timestamp
  scan : Uuid → ℕ
  locked : Uuid → Bool
  receiptId : Uuid → Uuid
  shift : Shift
  renderer : Renderer
  queue : MailQueue
  smsQueue : SmsQueue

structure SchedulerRunSummary where
  schedulersClaimed : ℕ
  receiptsMaterialized : ℕ
  receiptsQueued : ℕ
  smsQueued : ℕ
  receiptsDroppedWindowClosed : ℕ
  typedFailuresRecorded : ℕ
  cancellationReceiptsDeleted : ℕ
  schedulersRearmed : ℕ
  schedulersCompleted : ℕ
  deriving DecidableEq, Repr

namespace SchedulerRunSummary

def zero : SchedulerRunSummary := ⟨0, 0, 0, 0, 0, 0, 0, 0, 0⟩

variable (summary : SchedulerRunSummary)

def failed : SchedulerRunSummary :=
  { summary with typedFailuresRecorded := summary.typedFailuresRecorded + 1 }

def queued : NotificationChannel → SchedulerRunSummary
  | .mail => { summary with receiptsQueued := summary.receiptsQueued + 1 }
  | .sms => { summary with smsQueued := summary.smsQueued + 1 }

end SchedulerRunSummary

/-- The event row read, the receipt under way, those after it in its batch, and whether
the batch was full. -/
structure Walk where
  event : Event
  receipt : DueReceipt
  later : List DueReceipt
  full : Bool
  deriving DecidableEq, Repr

/-- Where a pass stands within one scheduler row: the call it makes next. -/
inductive Stage where
  | sweep
  | materialize
  | findEvent
  | readDue (event : Event)
  | window (k : Walk)
  | drop (k : Walk)
  | render (k : Walk)
  | enqueue (k : Walk) (recipient : String) (mail : RenderedMail)
  | markQueued (k : Walk)
  | fail (k : Walk) (kind : MailErrorKind)
  | recompute
  | clear
  | countMissing (done : Bool)
  | readStill (done : Bool) (unmaterialized : ℕ)
  | rearm
  deriving DecidableEq, Repr

/-- The cron pass propagates, claims and walks the claimed rows; the officer run finds
its one row and walks it. -/
inductive Point where
  | propagate
  | claim
  | find (schedulerId : Uuid)
  | row (scheduler : SchedulerRow) (rest : List SchedulerRow) (stage : Stage)
  deriving DecidableEq, Repr

inductive Pass where
  | idle
  | running (caps : Caps) (point : Point) (summary : SchedulerRunSummary)
  | returned (result : Except EventError SchedulerRunSummary)

def Pass.isRunning : Pass → Bool
  | .idle => false
  | .running _ _ _ => true
  | .returned _ => false

/-- One receipt as the ports see it. -/
structure Parcel where
  schedulerId : Uuid
  registrationId : Uuid
  receiptId : Uuid
  deriving DecidableEq, Repr

inductive Deed where
  | rendered (p : Parcel)
  | enqueued (p : Parcel)
  | refused (p : Parcel)
  | overdue (p : Parcel) (event : Event) (now : Timestamp)
  deriving DecidableEq, Repr

/-- What one step of a pass leaves. -/
structure Turn where
  db : Db
  pass : Pass
  deeds : List Deed

/-- The template validity sweep comes first. -/
def SchedulerRow.firstStage (scheduler : SchedulerRow) : Stage :=
  if scheduler.templateRef.isNone then .sweep else .materialize

def Pass.atRows (caps : Caps) (summary : SchedulerRunSummary) : List SchedulerRow → Pass
  | [] => .returned (.ok summary)
  | scheduler :: rest => .running caps (.row scheduler rest scheduler.firstStage) summary

def Stage.ofBatch (caps : Caps) (event : Event) : List DueReceipt → Stage
  | [] => .recompute
  | d :: later => .window ⟨event, d, later, decide (caps.batch ≤ (d :: later).length)⟩

/-- The next receipt of the batch. A full batch is read again, a short one ends the loop. -/
def Walk.next (k : Walk) : Stage :=
  match k.later with
  | d :: later => .window { k with receipt := d, later := later }
  | [] => if k.full then .readDue k.event else .recompute

def Walk.parcel (k : Walk) (scheduler : SchedulerRow) : Parcel :=
  ⟨scheduler.id, k.receipt.registrationId, k.receipt.receiptId⟩

def renderContext (event : Event) (d : DueReceipt) : RenderContext where
  eventId := event.id
  eventName := event.name
  eventDateBegin := event.dateBegin
  eventDateEnd := event.dateEnd
  eventDateTz := event.dateTz
  registrationId := d.registrationId
  attendeeName := d.attendeeName
  attendeeEmail := d.attendeeEmail
  attendeePhone := d.attendeePhone
  registrationBarcode := d.barcode

/-- The recipient on the row's channel: the trimmed phone, or an email with an `@`. -/
def DueReceipt.recipient (d : DueReceipt) : NotificationChannel → Option String
  | .sms =>
    let phone := String.ofList (GrandTotal.trim ((d.attendeePhone.getD "").toList))
    if phone.isEmpty then none else some phone
  | .mail =>
    if d.attendeeEmail.isEmpty || !d.attendeeEmail.toList.contains '@' then none
    else some d.attendeeEmail

/-- The enqueue on the row's channel; an sms carries the text body. -/
def accepted (queue : MailQueue) (smsQueue : SmsQueue) (channel : NotificationChannel)
    (recipient : String) (mail : RenderedMail) : Bool :=
  match channel with
  | .sms => (smsQueue recipient ⟨mail.bodyText⟩).isOk
  | .mail => (queue recipient mail).isOk

def refusalKind : NotificationChannel → MailErrorKind
  | .sms => .smsEnqueueRefused
  | .mail => .enqueueRefused

/-- One step of `run_one` on a scheduler row. -/
def Stage.turn (caps : Caps) (scheduler : SchedulerRow) (rest : List SchedulerRow) (tick : Tick)
    (summary : SchedulerRunSummary) (s : Db) (stage : Stage) : Turn :=
  let go (stage : Stage) (summary : SchedulerRunSummary) : Pass :=
    .running caps (.row scheduler rest stage) summary
  match stage with
  | .sweep =>
    ⟨recordFailure tick.now scheduler.id .templateUnresolved s,
      .atRows caps summary.failed rest, []⟩
  | .materialize =>
    match materializeReceipts tick.receiptId tick.shift scheduler caps.batch s with
    | .error e => ⟨s, .returned (.error e), []⟩
    | .ok (ids, t) => ⟨t, go .findEvent
        { summary with receiptsMaterialized := summary.receiptsMaterialized + ids.length }, []⟩
  | .findEvent =>
    match BackboneEvents.findEvent scheduler.eventId s with
    | .error e => ⟨s, .returned (.error e), []⟩
    | .ok event => ⟨s, go (.readDue event) summary, []⟩
  | .readDue event =>
    ⟨s, go (.ofBatch caps event (dueReceipts scheduler.id caps.batch tick.now s)) summary, []⟩
  | .window k =>
    if k.event.dateEnd ≤ tick.now then
      ⟨s, go (.drop k) summary, [.overdue (k.parcel scheduler) k.event tick.now]⟩
    else ⟨s, go (.render k) summary, []⟩
  | .drop k =>
    ⟨markReceiptDroppedWindowClosed k.receipt.receiptId s, go k.next
      { summary with receiptsDroppedWindowClosed := summary.receiptsDroppedWindowClosed + 1 }, []⟩
  | .render k =>
    let deeds := [Deed.rendered (k.parcel scheduler)]
    match tick.renderer scheduler.templateRef scheduler.templateKind
        (renderContext k.event k.receipt) with
    | .error failure => ⟨s, go (.fail k failure.kind) summary, deeds⟩
    | .ok mail =>
      match k.receipt.recipient scheduler.notificationChannel with
      | none => ⟨s, go (.fail k .recipientInvalid) summary, deeds⟩
      | some recipient => ⟨s, go (.enqueue k recipient mail) summary, deeds⟩
  | .enqueue k recipient mail =>
    if accepted tick.queue tick.smsQueue scheduler.notificationChannel recipient mail then
      ⟨s, go (.markQueued k) summary, [.enqueued (k.parcel scheduler)]⟩
    else ⟨s, go (.fail k (refusalKind scheduler.notificationChannel)) summary,
      [.refused (k.parcel scheduler)]⟩
  | .markQueued k =>
    ⟨markReceiptQueued k.receipt.receiptId s, go k.next
      (summary.queued scheduler.notificationChannel), []⟩
  | .fail k kind => ⟨recordFailure tick.now scheduler.id kind s, go k.next summary.failed, []⟩
  | .recompute =>
    let (done, t) := recomputeMailDone scheduler.id s
    if done then
      ⟨t, go .clear { summary with schedulersCompleted := summary.schedulersCompleted + 1 }, []⟩
    else ⟨t, go (.countMissing false) summary, []⟩
  | .clear => ⟨clearFailure scheduler.id s, go (.countMissing true) summary, []⟩
  | .countMissing done =>
    ⟨s, go (.readStill done (unmaterializedCount scheduler.id s)) summary, []⟩
  | .readStill done unmaterialized =>
    let stillDue := (dueReceipts scheduler.id 1 tick.now s).length
    if !done && (decide (0 < unmaterialized) || decide (0 < stillDue)) then
      ⟨s, go .rearm summary, []⟩
    else ⟨s, .atRows caps summary rest, []⟩
  | .rearm =>
    ⟨BackboneEvents.rearm tick.now scheduler.id s, .atRows caps
      { summary with schedulersRearmed := summary.schedulersRearmed + 1 } rest, []⟩

/-- One step of `run_due_schedulers` or `run_scheduler_by_id`. -/
def Point.turn (caps : Caps) (tick : Tick) (summary : SchedulerRunSummary) (s : Db) : Point → Turn
  | .propagate =>
    let (deleted, t) := propagateCancellations caps.cronLimit tick.scan s
    ⟨t, .running caps .claim { summary with cancellationReceiptsDeleted := deleted }, []⟩
  | .claim =>
    let claimed := claimDue caps.cronLimit tick.now tick.scan tick.locked s
    ⟨s, .atRows caps { summary with schedulersClaimed := claimed.length } claimed, []⟩
  | .find schedulerId =>
    match findScheduler schedulerId s with
    | .error e => ⟨s, .returned (.error e), []⟩
    | .ok scheduler => ⟨s, .atRows caps { summary with schedulersClaimed := 1 } [scheduler], []⟩
  | .row scheduler rest stage => stage.turn caps scheduler rest tick summary s

def Pass.turn (tick : Tick) (s : Db) : Pass → Turn
  | .running caps point summary => point.turn caps tick summary s
  | .idle => ⟨s, .idle, []⟩
  | .returned result => ⟨s, .returned result, []⟩

/-- The database, the passes under way, and every deed so far. -/
structure World (ι : Type) where
  db : Db
  passes : ι → Pass
  deeds : List Deed

/-- A verb, the start of a pass, one step of a pass, or its crash. -/
inductive Act (ι : Type) where
  | verb (c : Call)
  | runDueSchedulers (i : ι) (caps : Caps)
  | runSchedulerById (i : ι) (caps : Caps) (schedulerId : Uuid)
  | turn (i : ι) (tick : Tick)
  | crash (i : ι)

namespace World

variable {ι : Type} [DecidableEq ι]

def start (s : Db) : World ι := ⟨s, fun _ => .idle, []⟩

def setPass (w : World ι) (i : ι) (p : Pass) : World ι :=
  { w with passes := fun j => if j = i then p else w.passes j }

@[simp] theorem setPass_self (w : World ι) (i : ι) (p : Pass) :
    (w.setPass i p).passes i = p := if_pos rfl

theorem setPass_of_ne {w : World ι} {i j : ι} {p : Pass} (h : j ≠ i) :
    (w.setPass i p).passes j = w.passes j := if_neg h

/-- A pass starts where none is running. -/
def enter (w : World ι) (i : ι) (caps : Caps) (point : Point) : World ι :=
  if (w.passes i).isRunning then w else w.setPass i (.running caps point .zero)

def next (w : World ι) : Act ι → World ι
  | .verb c => { w with db := w.db.next c }
  | .runDueSchedulers i caps => w.enter i caps .propagate
  | .runSchedulerById i caps schedulerId => w.enter i caps (.find schedulerId)
  | .turn i tick =>
    let turn := (w.passes i).turn tick w.db
    { (w.setPass i turn.pass) with db := turn.db, deeds := w.deeds ++ turn.deeds }
  | .crash i => w.setPass i .idle

end World

/-- What one step of a pass can do to the database. -/
inductive PassEffect (s : Db) : Db → Prop
  | same : PassEffect s s
  | propagated (limit : ℕ) (scan : Uuid → ℕ) : PassEffect s (propagateCancellations limit scan s).2
  | materialized {receiptId : Uuid → Uuid} {shift : Shift} {scheduler : SchedulerRow} {cap : ℕ}
      {ids : List Uuid} {t : Db}
      (h : materializeReceipts receiptId shift scheduler cap s = .ok (ids, t)) : PassEffect s t
  | closed (outcome : ReceiptOutcome) (receiptId : Uuid) :
      PassEffect s (closeReceipt outcome receiptId s)
  | touched (p : Mail → Bool) (f : Update Mail)
      (keeps : ∀ m, (f m).id = m.id ∧ (f m).eventId = m.eventId ∧ (f m).mailDone = m.mailDone) :
      PassEffect s { s with mails := s.mails.modify p f }
  | recomputed (schedulerId : Uuid) : PassEffect s (recomputeMailDone schedulerId s).2

section effect

variable {caps : Caps} {scheduler : SchedulerRow} {rest : List SchedulerRow} {tick : Tick}
  {summary : SchedulerRunSummary} {s : Db}

theorem Stage.turn_effect (stage : Stage) :
    PassEffect s (stage.turn caps scheduler rest tick summary s).db := by
  cases stage with
  | sweep => exact .touched _ _ fun _ => ⟨rfl, rfl, rfl⟩
  | materialize =>
    simp only [turn]
    split
    · exact .same
    · next h => exact .materialized h
  | findEvent => simp only [turn]; split <;> exact .same
  | readDue event => exact .same
  | window k => simp only [turn]; split <;> exact .same
  | drop k => exact .closed _ _
  | render k =>
    simp only [turn]
    split
    · exact .same
    · split <;> exact .same
  | enqueue k recipient mail => simp only [turn]; split <;> exact .same
  | markQueued k => exact .closed _ _
  | fail k kind => exact .touched _ _ fun _ => ⟨rfl, rfl, rfl⟩
  | recompute => simp only [turn]; split <;> exact .recomputed _
  | clear => exact .touched _ _ fun _ => ⟨rfl, rfl, rfl⟩
  | countMissing done => exact .same
  | readStill done unmaterialized => simp only [turn]; split <;> exact .same
  | rearm => exact .touched _ _ fun _ => ⟨rfl, rfl, rfl⟩

variable (tick s) in
theorem Pass.turn_effect (p : Pass) : PassEffect s (p.turn tick s).db := by
  cases p with
  | idle | returned => exact .same
  | running caps point summary =>
    cases point with
    | propagate => exact .propagated _ _
    | claim => exact .same
    | find schedulerId => simp only [turn, Point.turn]; split <;> exact .same
    | row scheduler rest stage => exact stage.turn_effect

end effect

section sample

/-- Ports that accept everything, at the epoch. -/
def Tick.accepting : Tick where
  now := 0
  scan id := id
  locked _ := false
  receiptId id := id
  shift created _ _ := some created
  renderer _ _ _ := .ok ⟨"", "", ""⟩
  queue _ _ := .ok ()
  smsQueue _ _ := .ok ()

/-- The gig without a limit, with one due scheduler and one attendee. -/
def gigScheduler : Mail :=
  ⟨1, 1, 0, .now, .afterSub, .mail, some 0, false, none, some 1, some "mail", none, none⟩

def notice : Db :=
  { openGig with mails := Table.empty.push gigScheduler }.next (.register (.counting 1) ann)

end sample

end BackboneEvents
