import BackboneEvents.SchedulerTermination

/-!
# A pass whose ports accept everything

Such a call of `run_one` comes down to its statements: it materializes, closes every due
receipt with one deed each, and completes the row. A pass is such calls on the rows it claims.
-/
namespace BackboneEvents.SchedulerRounds
open ConstrainedTables DeterministicRuns SchedulerWalks SchedulerTermination

/-- The ports accept every call, and no row is locked elsewhere. -/
structure Obliging (host : Host) : Prop where
  renders : ∀ k templateRef templateKind ctx,
    (host.renderer k templateRef templateKind ctx).isOk = true
  queues : ∀ k recipient mail, (host.queue k recipient mail).isOk = true
  texts : ∀ k recipient sms, (host.smsQueue k recipient sms).isOk = true
  unlocked : ∀ n id, host.locked n id = false

/-- How a due receipt closes: enqueued, or dropped once the event is over. -/
def closing (event : Event) (now : Timestamp) : ReceiptOutcome :=
  if event.dateEnd ≤ now then .droppedWindowClosed else .queued

/-- The deeds of closing it. -/
def dealt (scheduler : SchedulerRow) (event : Event) (now : Timestamp) (d : DueReceipt) :
    List Deed :=
  let p : Parcel := ⟨scheduler.id, d.registrationId, d.receiptId⟩
  if event.dateEnd ≤ now then [.overdue p event now] else [.rendered p, .enqueued p]

def closeAll (outcome : ReceiptOutcome) (ds : List DueReceipt) (s : Db) : Db :=
  ds.foldl (fun s d => closeReceipt outcome d.receiptId s) s

theorem closeAll_append (outcome : ReceiptOutcome) (ds ds' : List DueReceipt) (s : Db) :
    closeAll outcome (ds ++ ds') s = closeAll outcome ds' (closeAll outcome ds s) :=
  List.foldl_append

theorem due_closeAll (outcome : ReceiptOutcome) (ds : List DueReceipt) (s : Db) (schedulerId : Uuid)
    (now : Timestamp) : (closeAll outcome ds s).due schedulerId now =
      (s.due schedulerId now).filter (fun e => !ds.any (·.receiptId == e.receiptId)) := by
  induction ds generalizing s with
  | nil => simp [closeAll]
  | cons d ds ih =>
    have hfold : closeAll outcome (d :: ds) s =
      closeAll outcome ds (closeReceipt outcome d.receiptId s) := rfl
    rw [hfold, ih, due_closeReceipt, List.filter_filter]
    congr 1
    funext e
    simp [Bool.and_comm, BEq.comm (a := d.receiptId), bne]

section walk

variable {host : Host} {caps : Caps} {scheduler : SchedulerRow} {rest : List SchedulerRow}
  {event : Event}

theorem accepted_of_obliging (h : Obliging host) (k : ℕ) (channel : NotificationChannel)
    (recipient : String) (mail : RenderedMail) :
    accepted (host.queue k) (host.smsQueue k) channel recipient mail = true := by
  cases channel with
  | sms => exact h.texts _ _ _
  | mail => exact h.queues _ _ _

variable (caps rest) in
/-- One receipt is dropped, or rendered, enqueued and marked. -/
theorem walk_closes (h : Obliging host) (k : Walk)
    (hrecipient : (k.receipt.recipient scheduler.notificationChannel).isSome = true) (n : ℕ) (s : Db)
    (summary : SchedulerRunSummary) (deeds : List Deed) :
    Comes host caps scheduler rest (onRow caps scheduler rest n s (.window k) summary deeds)
      (closeReceipt (closing k.event host.now) k.receipt.receiptId s) k.next
      (dealt scheduler k.event host.now k.receipt) := by
  by_cases hover : k.event.dateEnd ≤ host.now
  · have hwindow : (Stage.window k).turn caps scheduler rest (host.tick n deeds) summary s =
        ⟨s, .running caps (.row scheduler rest (.drop k)) summary,
          [.overdue (k.parcel scheduler) k.event host.now]⟩ := if_pos hover
    rw [closing, if_pos hover, dealt, if_pos hover]
    change Comes host caps scheduler rest _ _ _ ([_] ++ ([] ++ []))
    exact .turn hwindow (.turn rfl .here)
  · have hwindow : (Stage.window k).turn caps scheduler rest (host.tick n deeds) summary s =
        ⟨s, .running caps (.row scheduler rest (.render k)) summary, []⟩ := if_neg hover
    obtain ⟨recipient, hsome⟩ := Option.isSome_iff_exists.mp hrecipient
    have hrenders := h.renders (tried deeds) scheduler.templateRef scheduler.templateKind
      (renderContext k.event k.receipt)
    cases hrender : host.renderer (tried deeds) scheduler.templateRef scheduler.templateKind
        (renderContext k.event k.receipt) with
    | error failure =>
      rw [hrender] at hrenders
      cases hrenders
    | ok mail =>
      have hturn : (Stage.render k).turn caps scheduler rest (host.tick (n + 1) (deeds ++ []))
          summary s = ⟨s, .running caps (.row scheduler rest (.enqueue k recipient mail)) summary,
            [.rendered (k.parcel scheduler)]⟩ := by
        simp [Stage.turn, Host.tick, hrender, hsome]
      have henqueue : ∀ n deeds, (Stage.enqueue k recipient mail).turn caps scheduler rest
          (host.tick n deeds) summary s = ⟨s, .running caps (.row scheduler rest (.markQueued k))
            summary, [.enqueued (k.parcel scheduler)]⟩ :=
        fun n deeds => if_pos (accepted_of_obliging h _ _ _ _)
      rw [closing, if_neg hover, dealt, if_neg hover]
      change Comes host caps scheduler rest _ _ _ ([] ++ ([_] ++ ([_] ++ ([] ++ []))))
      exact .turn hwindow (.turn hturn (.turn (henqueue _ _) (.turn rfl .here)))

variable (caps rest event) in
/-- A batch closes its receipts in turn. -/
theorem batch_closes (h : Obliging host) (later : List DueReceipt) (d : DueReceipt) (full : Bool)
    (hrecipients : ∀ e ∈ d :: later, (e.recipient scheduler.notificationChannel).isSome = true)
    (n : ℕ) (s : Db) (summary : SchedulerRunSummary) (deeds : List Deed) :
    Comes host caps scheduler rest
      (onRow caps scheduler rest n s (.window ⟨event, d, later, full⟩) summary deeds)
      (closeAll (closing event host.now) (d :: later) s)
      (if full then .readDue event else .recompute)
      ((d :: later).flatMap (dealt scheduler event host.now)) := by
  induction later generalizing d n s summary deeds with
  | nil =>
    have hclosed := walk_closes caps rest h ⟨event, d, [], full⟩
      (hrecipients d List.mem_cons_self) n s summary deeds
    rw [List.flatMap_singleton]
    exact hclosed
  | cons d' later ih =>
    obtain ⟨n', summary', hleads⟩ := walk_closes caps rest h ⟨event, d, d' :: later, full⟩
      (hrecipients d List.mem_cons_self) n s summary deeds
    rw [List.flatMap_cons]
    exact .of_leads hleads (ih d' (fun e he => hrecipients e (List.mem_cons_of_mem _ he)) n' _
      summary' _)

/-- The loop closes every due receipt, batch after batch, and ends. -/
theorem walk_closesAll (h : Obliging host) (ds : List DueReceipt)
    (hrecipients : ∀ d ∈ ds, (d.recipient scheduler.notificationChannel).isSome = true) (n : ℕ)
    (s : Db) (summary : SchedulerRunSummary) (deeds : List Deed)
    (hdue : s.due scheduler.id host.now = ds) :
    Comes host caps scheduler rest (onRow caps scheduler rest n s (.readDue event) summary deeds)
      (closeAll (closing event host.now) ds s) .recompute
      (ds.flatMap (dealt scheduler event host.now)) := by
  induction hlen : ds.length using Nat.strongRecOn generalizing ds n s summary deeds with
  | ind len ih =>
  cases ds with
  | nil =>
    have hturn : (Stage.readDue event).turn caps scheduler rest (host.tick n deeds) summary s =
        ⟨s, .running caps (.row scheduler rest .recompute) summary, []⟩ := by
      simp only [Stage.turn, dueReceipts, Host.tick, hdue, List.take_nil, Stage.ofBatch]
    exact .turn hturn .here
  | cons d ds =>
    have hread := turn_readDue host caps scheduler rest event hdue n summary deeds
    have hbatch := fun full => batch_closes caps rest event h (ds.take (caps.batch - 1)) d full
      (fun e he => hrecipients e (List.mem_of_mem_take (by rwa [take_batch]))) (n + 1) s summary
      (deeds ++ [])
    simp only [← @take_batch caps] at hbatch
    by_cases hfull : caps.batch ≤ (d :: ds).length
    · have hcomes := hbatch true
      obtain ⟨n', summary', hleads⟩ := hcomes
      have hids : (d :: ds).Pairwise (fun d d' => d.receiptId ≠ d'.receiptId) :=
        hdue ▸ pairwise_due
      have hleft : (closeAll (closing event host.now) ((d :: ds).take caps.batch) s).due scheduler.id
          host.now = (d :: ds).drop caps.batch := by
        rw [due_closeAll, hdue, filter_take DueReceipt.receiptId _ hids]
      have hshort : ((d :: ds).drop caps.batch).length < len := by
        have hpos := caps.batch_pos
        rw [List.length_drop]
        omega
      have hrest := ih _ hshort _ (fun e he => hrecipients e (List.mem_of_mem_drop he)) n' _ summary'
        ((deeds ++ []) ++ ((d :: ds).take caps.batch).flatMap (dealt scheduler event host.now))
        hleft rfl
      have hwhole := Comes.of_leads hleads hrest
      rw [← closeAll_append, ← List.flatMap_append, List.take_append_drop] at hwhole
      rw [decide_eq_true hfull] at hread
      rw [← List.nil_append ((d :: ds).flatMap _)]
      exact .turn hread hwhole
    · have hwhole := hbatch false
      rw [List.take_of_length_le (Nat.le_of_not_le hfull)] at hwhole
      rw [decide_eq_false hfull] at hread
      rw [← List.nil_append ((d :: ds).flatMap _)]
      exact .turn hread hwhole

end walk

/-- What a call of `run_one` does to the database, and its deeds. -/
inductive RowRun (host : Host) (caps : Caps) (scheduler : SchedulerRow) (s : Db) :
    Db → List Deed → Prop
  | swept (template : scheduler.templateRef = none) :
      RowRun host caps scheduler s (recordFailure host.now scheduler.id .templateUnresolved s) []
  | walked {receiptId : Uuid → Uuid} {ids : List Uuid} {t : Db} {event : Event}
      (template : scheduler.templateRef ≠ none)
      (materialize : materializeReceipts receiptId host.shift scheduler caps.batch s = .ok (ids, t))
      (found : findEvent scheduler.eventId t = .ok event) :
      RowRun host caps scheduler s
        (completed host.now scheduler.id
          (closeAll (closing event host.now) (t.due scheduler.id host.now) t))
        ((t.due scheduler.id host.now).flatMap (dealt scheduler event host.now))

/-- The calls on the rows of a pass, in turn. -/
inductive RowsRun (host : Host) (caps : Caps) : List SchedulerRow → Db → Db → List Deed → Prop
  | nil (s : Db) : RowsRun host caps [] s s []
  | cons {scheduler : SchedulerRow} {rest : List SchedulerRow} {s t u : Db} {deeds more : List Deed}
      (head : RowRun host caps scheduler s t deeds) (tail : RowsRun host caps rest t u more) :
      RowsRun host caps (scheduler :: rest) s u (deeds ++ more)

/-- The call on this row goes through: its rows can be inserted, its event is there, and its
recipients are valid. -/
structure Ready (host : Host) (caps : Caps) (scheduler : SchedulerRow) (l : Lone) : Prop where
  materializes : scheduler.templateRef ≠ none → ∃ ids t,
    materializeReceipts (host.receiptId l.steps) host.shift scheduler caps.batch l.db = .ok (ids, t) ∧
    (t.event? scheduler.eventId).isSome = true ∧
    ∀ d ∈ t.due scheduler.id host.now, (d.recipient scheduler.notificationChannel).isSome = true

section rows

variable {host : Host} {caps : Caps} {scheduler : SchedulerRow} {rest : List SchedulerRow} {l : Lone}
  {summary : SchedulerRunSummary}

theorem row_runs (h : Obliging host) (hpass : l.pass = .atRows caps summary (scheduler :: rest))
    (hready : Ready host caps scheduler l) : ∃ n t summary' deeds,
      Leads host.next l ⟨n, t, .atRows caps summary' rest, l.deeds ++ deeds⟩ ∧
        RowRun host caps scheduler l.db t deeds := by
  by_cases htemplate : scheduler.templateRef = none
  · have hfirst : scheduler.firstStage = .sweep := by simp [SchedulerRow.firstStage, htemplate]
    rw [eq_onRow hpass, hfirst]
    exact ⟨_, _, _, [], .head (next_onRow rfl) (.refl _), .swept htemplate⟩
  · obtain ⟨ids, t, hmaterialize, hevent, hrecipients⟩ := hready.materializes htemplate
    obtain ⟨event, hevent⟩ := Option.isSome_iff_exists.mp hevent
    have hfound : findEvent scheduler.eventId t = .ok event := findEvent_eq_ok.mpr hevent
    obtain ⟨n, summary₁, hleads⟩ := comes_readDue _ hpass htemplate hmaterialize hfound
    rw [List.append_nil] at hleads
    obtain ⟨n', summary₂, hwalk⟩ := walk_closesAll h _ hrecipients n t summary₁ l.deeds rfl
    obtain ⟨n'', summary₃, hleaves⟩ := leavesIn_completed _ _ _ _ n' _ summary₂ _
    exact ⟨n'', _, summary₃, _, (hleads.trans hwalk).trans hleaves, .walked htemplate hmaterialize
      hfound⟩

/-- A pass goes through its rows when each call does in the state it starts from. -/
theorem rows_run (h : Obliging host) {rows : List SchedulerRow} {inv : List SchedulerRow → Lone → Prop}
    (hpass : l.pass = .atRows caps summary rows) (hinv : inv rows l)
    (hready : ∀ scheduler rest l summary, inv (scheduler :: rest) l →
      l.pass = .atRows caps summary (scheduler :: rest) → Ready host caps scheduler l)
    (hstep : ∀ scheduler rest l l' deeds, inv (scheduler :: rest) l → Leads host.next l l' →
      RowRun host caps scheduler l.db l'.db deeds → inv rest l') :
    ∃ n t summary' deeds, Leads host.next l ⟨n, t, .returned (.ok summary'), l.deeds ++ deeds⟩ ∧
      RowsRun host caps rows l.db t deeds := by
  induction rows generalizing l summary with
  | nil =>
    refine ⟨l.steps, l.db, summary, [], ?_, .nil _⟩
    obtain ⟨steps, db, pass, deeds⟩ := l
    obtain rfl : pass = _ := hpass
    rw [List.append_nil]
    exact .refl _
  | cons scheduler rest ih =>
    obtain ⟨n, t, summary₁, deeds, hleads, hrow⟩ := row_runs h hpass
      (hready _ _ _ _ hinv hpass)
    obtain ⟨n', u, summary₂, more, hleads', hrows⟩ := ih rfl
      (hstep _ _ _ _ _ hinv hleads hrow)
    refine ⟨n', u, summary₂, deeds ++ more, ?_, .cons hrow hrows⟩
    rw [← List.append_assoc]
    exact hleads.trans hleads'

end rows

end BackboneEvents.SchedulerRounds
