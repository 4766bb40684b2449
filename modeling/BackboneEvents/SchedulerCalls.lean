import BackboneEvents.SchedulerPasses

/-!
# Calls on different rows

What a call of `run_one` reads is the row, its receipts, the events and the registrations; what
it writes is the row and its receipts. So two databases that agree on these are the same to the
call, and calls on other rows leave them agreeing.
-/
namespace BackboneEvents.SchedulerCalls
open ConstrainedTables ReceiptDeliveries SchedulerWalks SchedulerRounds SchedulerConvergence

/-- All that a call on the row reads or writes is the same. -/
structure Alike (schedulerId : Uuid) (s t : Db) : Prop where
  events : t.events = s.events
  registrations : t.registrations = s.registrations
  mail : t.mail? schedulerId = s.mail? schedulerId
  receipts : t.mailRegistrations.rows.filter (·.schedulerId == schedulerId) =
    s.mailRegistrations.rows.filter (·.schedulerId == schedulerId)

section reads

variable {schedulerId : Uuid} {s t u : Db} {m : Mail} {now : Timestamp}

theorem Alike.refl (schedulerId : Uuid) (s : Db) : Alike schedulerId s s := ⟨rfl, rfl, rfl, rfl⟩

theorem Alike.symm (h : Alike schedulerId s t) : Alike schedulerId t s :=
  ⟨h.events.symm, h.registrations.symm, h.mail.symm, h.receipts.symm⟩

theorem Alike.trans (h : Alike schedulerId s t) (h' : Alike schedulerId t u) :
    Alike schedulerId s u :=
  ⟨h'.events.trans h.events, h'.registrations.trans h.registrations, h'.mail.trans h.mail,
    h'.receipts.trans h.receipts⟩

variable (h : Alike schedulerId s t)

include h

theorem Alike.findEvent (eventId : Uuid) :
    BackboneEvents.findEvent eventId t = BackboneEvents.findEvent eventId s := by
  rw [BackboneEvents.findEvent, Db.event?, h.events]
  rfl

theorem Alike.hasReceipt (registrationId : Uuid) :
    t.hasReceipt schedulerId registrationId = s.hasReceipt schedulerId registrationId := by
  simp only [Db.hasReceipt, ← List.any_filter, h.receipts]

theorem Alike.hasSentReceipt (registrationId : Uuid) :
    t.hasSentReceipt schedulerId registrationId = s.hasSentReceipt schedulerId registrationId := by
  simp only [Db.hasSentReceipt, Bool.and_assoc, ← List.any_filter, h.receipts]

theorem Alike.unmaterialized (hm : m.id = schedulerId) : t.unmaterialized m = s.unmaterialized m := by
  simp only [Db.unmaterialized, h.registrations, hm, h.hasReceipt]

theorem Alike.workRemains (hm : m.id = schedulerId) : t.workRemains m = s.workRemains m := by
  simp only [Db.workRemains, h.registrations, hm, h.hasSentReceipt]

theorem Alike.missing (hm : m.id = schedulerId) (cap : ℕ) :
    SchedulerRounds.missing cap t m = SchedulerRounds.missing cap s m := by
  rw [SchedulerRounds.missing, h.unmaterialized hm, SchedulerRounds.missing]

theorem Alike.unmaterializedCount : unmaterializedCount schedulerId t =
    BackboneEvents.unmaterializedCount schedulerId s := by
  rw [BackboneEvents.unmaterializedCount, h.mail, BackboneEvents.unmaterializedCount]
  cases hm : s.mail? schedulerId with
  | none => rfl
  | some m =>
    have hid : m.id = schedulerId := by simpa using Table.find_spec hm
    simp only [Option.map_some, h.unmaterialized hid]

theorem Alike.recomputed :
    (recomputeMailDone schedulerId t).1 = (recomputeMailDone schedulerId s).1 := by
  simp only [recomputeMailDone, h.mail]
  cases hm : s.mail? schedulerId with
  | none => rfl
  | some m =>
    have hid : m.id = schedulerId := by simpa using Table.find_spec hm
    simp only [Option.map_some, h.workRemains hid]

theorem Alike.due (now : Timestamp) : t.due schedulerId now = s.due schedulerId now := by
  have hown : ∀ u : Db, u.mailRegistrations.rows.filterMap (u.dueReceipt? schedulerId now) =
      (u.mailRegistrations.rows.filter (·.schedulerId == schedulerId)).filterMap
        (u.dueReceipt? schedulerId now) := fun u => by
    rw [List.filterMap_filter]
    refine List.filterMap_congr fun x _ => ?_
    by_cases hx : x.schedulerId = schedulerId
    · simp [hx]
    · simp [Db.dueReceipt?, hx]
  have hsame : t.dueReceipt? schedulerId now = s.dueReceipt? schedulerId now := by
    funext x
    simp only [Db.dueReceipt?, Db.registration?, h.registrations]
  rw [Db.due, hown, h.receipts, hsame, ← hown, Db.due]

theorem Alike.dueReceipts (limit : ℕ) : dueReceipts schedulerId limit now t =
    BackboneEvents.dueReceipts schedulerId limit now s := by
  rw [BackboneEvents.dueReceipts, h.due, BackboneEvents.dueReceipts]

end reads

section writes

variable {schedulerId : Uuid} {s t : Db} {scheduler : SchedulerRow}

/-- The same write of mail rows. -/
theorem Alike.mails (h : Alike schedulerId s t) {p : Mail → Bool} {f g : Update Mail}
    (hf : ∀ m, (f m).id = m.id) (hg : ∀ m, (g m).id = m.id)
    (hfg : ∀ m, m.id = schedulerId → g m = f m) :
    Alike schedulerId { s with mails := s.mails.modify p f }
      { t with mails := t.mails.modify p g } := by
  refine ⟨h.events, h.registrations, ?_, h.receipts⟩
  have hmail := h.mail
  simp only [Db.mail?] at hmail ⊢
  rw [Table.find_modify fun m => by rw [hg], Table.find_modify fun m => by rw [hf], hmail]
  cases hm : s.mails.find (·.id == schedulerId) with
  | none => rfl
  | some m =>
    have hid : m.id = schedulerId := by simpa using Table.find_spec hm
    simp only [Option.map_some, hfg m hid]

theorem filter_closed (outcome : ReceiptOutcome) (receiptId : Uuid) (s : Db) :
    (closeReceipt outcome receiptId s).mailRegistrations.rows.filter (·.schedulerId == schedulerId) =
      (s.mailRegistrations.rows.filter (·.schedulerId == schedulerId)).map (fun x =>
        if x.id == receiptId && !x.mailSent then MailRegistration.closed outcome x else x) := by
  rw [closeReceipt, Table.rows_modify, List.filter_map]
  congr 1
  refine List.filter_congr fun x _ => ?_
  simp only [Function.comp_apply]
  split <;> rfl

theorem Alike.closed (h : Alike schedulerId s t) (outcome : ReceiptOutcome) (receiptId : Uuid) :
    Alike schedulerId (closeReceipt outcome receiptId s) (closeReceipt outcome receiptId t) :=
  ⟨h.events, h.registrations, h.mail, by rw [filter_closed, filter_closed, h.receipts]⟩

/-- Materialization fails in both, or makes the same receipts in both. -/
theorem materialize_alike {receiptId : Uuid → Uuid} (h : Alike scheduler.id s t)
    (hs : FreshReceipts s receiptId) (ht : FreshReceipts t receiptId) (shift : Shift) (cap : ℕ) :
    (∃ e, materializeReceipts receiptId shift scheduler cap s = .error e ∧
      materializeReceipts receiptId shift scheduler cap t = .error e) ∨
    ∃ ids s' t', materializeReceipts receiptId shift scheduler cap s = .ok (ids, s') ∧
      materializeReceipts receiptId shift scheduler cap t = .ok (ids, t') ∧
      Alike scheduler.id s' t' := by
  have hmail := h.mail
  cases hm : s.mail? scheduler.id with
  | none =>
    rw [hm] at hmail
    exact .inr ⟨[], s, t, by simp only [materializeReceipts, hm],
      by simp only [materializeReceipts, hmail], h⟩
  | some m =>
    rw [hm] at hmail
    have hid : m.id = scheduler.id := by simpa using Table.find_spec hm
    have hmissing := h.missing hid cap
    cases hborn : (missing cap s m).mapM (newReceipt receiptId shift m) with
    | none =>
      refine .inl ⟨.database "mail_registrations: insert failed", ?_, ?_⟩
      · rw [materialize_eq hm, hborn]
        rfl
      · rw [materialize_eq hmail, hmissing, hborn]
        rfl
    | some born =>
      obtain ⟨receipts, hreceipts⟩ := insertAll_born hs hborn
      obtain ⟨receipts', hreceipts'⟩ := insertAll_born ht (hmissing ▸ hborn)
      refine .inr ⟨_, _, _, by rw [materialize_eq hm, hborn, Option.bind_some, hreceipts],
        by rw [materialize_eq hmail, hmissing, hborn, Option.bind_some, hreceipts'], ?_⟩
      have hborns : (s.mailRegistrations.rows ++ born).filter (·.schedulerId == scheduler.id) =
          (t.mailRegistrations.rows ++ born).filter (·.schedulerId == scheduler.id) := by
        rw [List.filter_append, List.filter_append, h.receipts]
      have hrows : Alike scheduler.id { s with mailRegistrations := receipts }
          { t with mailRegistrations := receipts' } :=
        ⟨h.events, h.registrations, h.mail, by
          rw [Table.rows_insertAll hreceipts, Table.rows_insertAll hreceipts', hborns]⟩
      cases ((missing cap s m).map Registration.id).getLast? with
      | none => exact hrows
      | some last => exact hrows.mails (fun _ => rfl) (fun _ => rfl) fun _ _ => rfl

end writes

section stages

variable {caps : Caps}

theorem next_ne_materialize (k : Walk) : k.next ≠ .materialize := by
  rw [Walk.next]
  split
  · simp
  · split <;> simp

theorem ofBatch_ne_materialize (event : Event) (ds : List DueReceipt) :
    Stage.ofBatch caps event ds ≠ .materialize := by
  cases ds <;> simp [Stage.ofBatch]

end stages

/-- Passes that stand at the same point of a call, or have both left it. -/
inductive AlikePass (caps : Caps) (scheduler : SchedulerRow) (rest rest' : List SchedulerRow) :
    Pass → Pass → Prop
  | within (stage : Stage) (later : stage ≠ .materialize) (summary summary' : SchedulerRunSummary) :
      AlikePass caps scheduler rest rest' (.running caps (.row scheduler rest stage) summary)
        (.running caps (.row scheduler rest' stage) summary')
  | left (summary summary' : SchedulerRunSummary) :
      AlikePass caps scheduler rest rest' (.atRows caps summary rest) (.atRows caps summary' rest')
  | failed (e : EventError) :
      AlikePass caps scheduler rest rest' (.returned (.error e)) (.returned (.error e))

structure AlikeTurn (caps : Caps) (scheduler : SchedulerRow) (rest rest' : List SchedulerRow)
    (turn turn' : Turn) : Prop where
  db : Alike scheduler.id turn.db turn'.db
  pass : AlikePass caps scheduler rest rest' turn.pass turn'.pass
  deeds : turn'.deeds = turn.deeds

section turns

variable {caps : Caps} {scheduler : SchedulerRow} {s t : Db} {rest rest' : List SchedulerRow}
  {tick : Tick}

/-- One step of a call does the same in databases that agree on what it reads. -/
theorem turn_alike (h : Alike scheduler.id s t) (stage : Stage)
    (hfresh : stage = .materialize → FreshReceipts s tick.receiptId ∧ FreshReceipts t tick.receiptId)
    (summary summary' : SchedulerRunSummary) :
    AlikeTurn caps scheduler rest rest' (stage.turn caps scheduler rest tick summary s)
      (stage.turn caps scheduler rest' tick summary' t) := by
  have hgo : ∀ {u u' : Db} (stage : Stage) (deeds : List Deed) (summary summary' : SchedulerRunSummary),
      Alike scheduler.id u u' → stage ≠ .materialize → AlikeTurn caps scheduler rest rest'
        ⟨u, .running caps (.row scheduler rest stage) summary, deeds⟩
        ⟨u', .running caps (.row scheduler rest' stage) summary', deeds⟩ :=
    fun _ _ _ _ hdb hstage => ⟨hdb, .within _ hstage _ _, rfl⟩
  have hrows : ∀ {u u' : Db} (summary summary' : SchedulerRunSummary), Alike scheduler.id u u' →
      AlikeTurn caps scheduler rest rest' ⟨u, .atRows caps summary rest, []⟩
        ⟨u', .atRows caps summary' rest', []⟩ :=
    fun _ _ hdb => ⟨hdb, .left _ _, rfl⟩
  cases stage with
  | sweep => exact hrows _ _ (h.mails (fun _ => rfl) (fun _ => rfl) fun _ _ => rfl)
  | materialize =>
    obtain ⟨hs, ht⟩ := hfresh rfl
    simp only [Stage.turn]
    rcases materialize_alike h hs ht tick.shift caps.batch with
      ⟨e, hes, het⟩ | ⟨ids, s', t', hos, hot, hdb⟩
    · rw [hes, het]
      exact ⟨h, .failed e, rfl⟩
    · rw [hos, hot]
      exact hgo _ _ _ _ hdb (by simp)
  | findEvent =>
    simp only [Stage.turn, h.findEvent]
    split
    · exact ⟨h, .failed _, rfl⟩
    · exact hgo _ _ _ _ h (by simp)
  | readDue event =>
    simp only [Stage.turn, h.dueReceipts]
    exact hgo _ _ _ _ h (ofBatch_ne_materialize _ _)
  | window k => simp only [Stage.turn]; split <;> exact hgo _ _ _ _ h (by simp)
  | drop k => exact hgo _ _ _ _ (h.closed _ _) (next_ne_materialize k)
  | markQueued k => exact hgo _ _ _ _ (h.closed _ _) (next_ne_materialize k)
  | render k =>
    simp only [Stage.turn]
    split
    · exact hgo _ _ _ _ h (by simp)
    · split <;> exact hgo _ _ _ _ h (by simp)
  | enqueue k recipient mail => simp only [Stage.turn]; split <;> exact hgo _ _ _ _ h (by simp)
  | fail k kind =>
    exact hgo _ _ _ _ (h.mails (fun _ => rfl) (fun _ => rfl) fun _ _ => rfl) (next_ne_materialize k)
  | recompute =>
    have hdb : Alike scheduler.id (recomputeMailDone scheduler.id s).2
        (recomputeMailDone scheduler.id t).2 := by
      refine h.mails (fun _ => rfl) (fun _ => rfl) fun m hm => ?_
      simp only [Mail.recomputed, h.workRemains hm]
    have hdone := h.recomputed
    simp only [Stage.turn]
    rw [hdone]
    split <;> exact hgo _ _ _ _ hdb (by simp)
  | clear => exact hgo _ _ _ _ (h.mails (fun _ => rfl) (fun _ => rfl) fun _ _ => rfl) (by simp)
  | countMissing done =>
    simp only [Stage.turn, h.unmaterializedCount]
    exact hgo _ _ _ _ h (by simp)
  | readStill done unmaterialized =>
    simp only [Stage.turn, h.dueReceipts]
    split
    · exact hgo _ _ _ _ h (by simp)
    · exact hrows _ _ h
  | rearm => exact hrows _ _ (h.mails (fun _ => rfl) (fun _ => rfl) fun _ _ => rfl)

end turns

section leaving

variable {caps : Caps} {scheduler : SchedulerRow} {rest : List SchedulerRow} {tick : Tick}
  {summary : SchedulerRunSummary} {s : Db}

/-- A step of a call stays in it, goes on to the rows after it, or fails. -/
theorem turn_pass (stage : Stage) :
    (∃ stage' summary', (stage.turn caps scheduler rest tick summary s).pass =
      .running caps (.row scheduler rest stage') summary') ∨
    (∃ summary', (stage.turn caps scheduler rest tick summary s).pass = .atRows caps summary' rest) ∨
    ∃ e, (stage.turn caps scheduler rest tick summary s).pass = .returned (.error e) := by
  cases stage with
  | sweep | rearm => exact .inr (.inl ⟨_, rfl⟩)
  | materialize | findEvent =>
    simp only [Stage.turn]
    split
    · exact .inr (.inr ⟨_, rfl⟩)
    · exact .inl ⟨_, _, rfl⟩
  | readDue | drop | markQueued | fail | clear | countMissing => exact .inl ⟨_, _, rfl⟩
  | window | enqueue | recompute => simp only [Stage.turn]; split <;> exact .inl ⟨_, _, rfl⟩
  | render k =>
    simp only [Stage.turn]
    split
    · exact .inl ⟨_, _, rfl⟩
    · split <;> exact .inl ⟨_, _, rfl⟩
  | readStill =>
    simp only [Stage.turn]
    split
    · exact .inl ⟨_, _, rfl⟩
    · exact .inr (.inl ⟨_, rfl⟩)

end leaving

/-- What a call on a row leaves of all other rows; its new receipts have the ids it drew. -/
structure Elsewhere (receiptId : Uuid → Uuid) (schedulerId : Uuid) (s t : Db) : Prop where
  alike : ∀ a, a ≠ schedulerId → Alike a s t
  ids : ∀ x ∈ t.mailRegistrations.rows, (∃ y ∈ s.mailRegistrations.rows, y.id = x.id) ∨
    ∃ r, x.id = receiptId r

section elsewhere

variable {receiptId : Uuid → Uuid} {schedulerId : Uuid} {s t u : Db} {scheduler : SchedulerRow}

theorem Elsewhere.refl (receiptId : Uuid → Uuid) (schedulerId : Uuid) (s : Db) :
    Elsewhere receiptId schedulerId s s :=
  ⟨fun _ _ => .refl _ _, fun x hx => .inl ⟨x, hx, rfl⟩⟩

theorem Elsewhere.trans (h : Elsewhere receiptId schedulerId s t)
    (h' : Elsewhere receiptId schedulerId t u) : Elsewhere receiptId schedulerId s u where
  alike a ha := (h.alike a ha).trans (h'.alike a ha)
  ids x hx := by
    rcases h'.ids x hx with ⟨y, hy, hid⟩ | hdrawn
    · rw [← hid]
      exact h.ids y hy
    · exact .inr hdrawn

/-- A write of the row alone. -/
theorem elsewhere_mails {p : Mail → Bool} {f : Update Mail}
    (hp : ∀ m, p m = true → m.id = schedulerId) (hf : ∀ m, plan (f m) = plan m) :
    Elsewhere receiptId schedulerId s { s with mails := s.mails.modify p f } where
  alike a ha := ⟨rfl, rfl, (touches_mails hp hf).others a ha, rfl⟩
  ids x hx := .inl ⟨x, hx, rfl⟩

/-- The close of a receipt of the row. -/
theorem elsewhere_closed {ds : List DueReceipt} {d : DueReceipt} (h : Unsent s schedulerId ds)
    (hd : d ∈ ds) (outcome : ReceiptOutcome) :
    Elsewhere receiptId schedulerId s (closeReceipt outcome d.receiptId s) where
  alike a ha := by
    refine ⟨rfl, rfl, rfl, ?_⟩
    obtain ⟨y, hy, hid, hscheduler, -⟩ := h.2 d hd
    rw [filter_closed]
    refine (List.map_congr_left fun x hx => ?_).trans (List.map_id _)
    obtain ⟨hx, hown⟩ := List.mem_filter.mp hx
    -- The receipt of that id belongs to the row.
    have hother : x.id ≠ d.receiptId := fun hsame => ha (by
      rw [← beq_iff_eq.mp hown, ← hscheduler, receipt_eq_of_id hx hy (hsame.trans hid.symm)])
    simp [hother]
  ids x hx := by
    rcases mem_closeReceipt.mp hx with ⟨hx, -⟩ | ⟨y, hy, -, -, rfl⟩
    · exact .inl ⟨x, hx, rfl⟩
    · exact .inl ⟨y, hy, rfl⟩

theorem elsewhere_materialize {shift : Shift} {cap : ℕ} {ids : List Uuid}
    (h : materializeReceipts receiptId shift scheduler cap s = .ok (ids, t)) :
    Elsewhere receiptId scheduler.id s t := by
  cases hm : s.mail? scheduler.id with
  | none =>
    simp only [materializeReceipts, hm] at h
    obtain ⟨-, rfl⟩ := Prod.mk.inj (Except.ok.inj h)
    exact .refl _ _ _
  | some m =>
    have hid : m.id = scheduler.id := by simpa using Table.find_spec hm
    obtain ⟨born, hmade⟩ := materializes_of_ok h hm
    have htouches := touches_materialize h
    have hborn : ∀ x ∈ born, x.schedulerId = scheduler.id ∧ ∃ r, x.id = receiptId r := by
      intro x hx
      obtain ⟨r, -, hnew⟩ := exists_of_mem_mapM hmade.made x hx
      exact ⟨(newReceipt_eq_some hnew).1.trans hid, r.id, newReceipt_id hnew⟩
    refine ⟨fun a ha => ⟨htouches.events, htouches.registrations, htouches.others a ha, ?_⟩,
      fun x hx => ?_⟩
    · have hnone : born.filter (·.schedulerId == a) = [] := List.filter_eq_nil_iff.mpr fun x hx => by
        simpa [(hborn x hx).1] using Ne.symm ha
      rw [hmade.receipts, List.filter_append, hnone, List.append_nil]
    · rw [hmade.receipts] at hx
      exact (List.mem_append.mp hx).imp (fun hx => ⟨x, hx, rfl⟩) fun hx => (hborn x hx).2

variable {caps : Caps} {rest : List SchedulerRow} {tick : Tick} {summary : SchedulerRunSummary}

/-- One step of a call leaves the other rows. -/
theorem turn_elsewhere {stage : Stage} (h : Unsent s scheduler.id (stageHeld stage)) :
    Elsewhere tick.receiptId scheduler.id s (stage.turn caps scheduler rest tick summary s).db := by
  have hsame : Elsewhere tick.receiptId scheduler.id s s := .refl _ _ _
  cases stage with
  | sweep | fail | clear => exact elsewhere_mails (fun _ hm => beq_iff_eq.mp hm) fun _ => rfl
  | materialize =>
    simp only [Stage.turn]
    split
    · exact hsame
    · next hok => exact elsewhere_materialize hok
  | findEvent => simp only [Stage.turn]; split <;> exact hsame
  | readDue | countMissing => exact hsame
  | window k => simp only [Stage.turn]; split <;> exact hsame
  | drop k | markQueued k => exact elsewhere_closed h List.mem_cons_self _
  | render k =>
    simp only [Stage.turn]
    split
    · exact hsame
    · split <;> exact hsame
  | enqueue k recipient mail => simp only [Stage.turn]; split <;> exact hsame
  | recompute =>
    have hdone : Elsewhere tick.receiptId scheduler.id s (recomputeMailDone scheduler.id s).2 :=
      elsewhere_mails (fun _ hm => beq_iff_eq.mp hm) fun _ => rfl
    simp only [Stage.turn]
    split <;> exact hdone
  | readStill done unmaterialized => simp only [Stage.turn]; split <;> exact hsame
  | rearm => exact elsewhere_mails (fun m hm => by simp_all) fun _ => rfl

/-- The deeds of a call are for its row. -/
theorem turn_deeds (stage : Stage) :
    ∀ deed ∈ (stage.turn caps scheduler rest tick summary s).deeds,
      schedulerOf deed = scheduler.id := by
  cases stage with
  | window k => simp only [Stage.turn]; split <;> simp [schedulerOf, Walk.parcel]
  | render k =>
    simp only [Stage.turn]
    split
    · simp [schedulerOf, Walk.parcel]
    · split <;> simp [schedulerOf, Walk.parcel]
  | enqueue k recipient mail => simp only [Stage.turn]; split <;> simp [schedulerOf, Walk.parcel]
  | materialize | findEvent | recompute | readStill => simp only [Stage.turn]; split <;> simp
  | sweep | readDue | drop | markQueued | fail | clear | countMissing | rearm => simp [Stage.turn]

end elsewhere

end BackboneEvents.SchedulerCalls
