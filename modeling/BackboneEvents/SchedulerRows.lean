import BackboneEvents.ReceiptDeliveries
import BackboneEvents.SchedulerRounds

/-!
# What a call on one row changes

A call of `run_one` writes its own row and the receipts of that row. It never changes what a
row is planned for, never deletes a receipt, and creates receipts only for registrations of
the row's event.
-/
namespace BackboneEvents.SchedulerRounds
open ConstrainedTables ReceiptDeliveries SchedulerWalks

/-- The columns of a row that no pass writes. -/
def plan (m : Mail) : Mail := { m with
  scheduledDate := none
  mailDone := false
  lastRegistrationId := none
  errorDatetime := none
  errorKind := none }

/-- The row as it was claimed, up to the columns that a pass writes. -/
def Copies (m : Mail) (scheduler : SchedulerRow) : Prop :=
  (plan m).schedulerRow = { scheduler with mailDone := false, lastRegistrationId := none }

/-- What the call on the row of this id changes. -/
structure Touches (schedulerId : Uuid) (s t : Db) : Prop where
  events : t.events = s.events
  registrations : t.registrations = s.registrations
  plans : t.mails.rows.map plan = s.mails.rows.map plan
  others : ∀ a, a ≠ schedulerId → t.mail? a = s.mail? a
  receipts : ∀ x : MailRegistration, x.schedulerId ≠ schedulerId →
    (x ∈ t.mailRegistrations.rows ↔ x ∈ s.mailRegistrations.rows)
  grown : ∀ a b, s.hasReceipt a b = true → t.hasReceipt a b = true
  born : ∀ a b, t.hasReceipt a b = true → s.hasReceipt a b = true ∨
    ∃ m ∈ s.mails.rows, m.id = a ∧ ∃ r ∈ s.registrations.rows, r.id = b ∧ r.eventId = m.eventId

section touches

variable {s t u : Db} {schedulerId : Uuid}

theorem Touches.refl (schedulerId : Uuid) (s : Db) : Touches schedulerId s s :=
  ⟨rfl, rfl, rfl, fun _ _ => rfl, fun _ _ => .rfl, fun _ _ => id, fun _ _ => .inl⟩

theorem exists_plan (h : t.mails.rows.map plan = s.mails.rows.map plan) {m : Mail}
    (hm : m ∈ t.mails.rows) : ∃ m' ∈ s.mails.rows, plan m' = plan m :=
  List.mem_map.mp (h ▸ List.mem_map_of_mem hm)

theorem id_of_plan {m m' : Mail} (h : plan m' = plan m) : m'.id = m.id :=
  (congrArg Mail.id h : (plan m').id = (plan m).id)

theorem event_of_plan {m m' : Mail} (h : plan m' = plan m) : m'.eventId = m.eventId :=
  (congrArg Mail.eventId h : (plan m').eventId = (plan m).eventId)

theorem Touches.trans (h : Touches schedulerId s t) (h' : Touches schedulerId t u) :
    Touches schedulerId s u where
  events := h'.events.trans h.events
  registrations := h'.registrations.trans h.registrations
  plans := h'.plans.trans h.plans
  others a ha := (h'.others a ha).trans (h.others a ha)
  receipts x hx := (h'.receipts x hx).trans (h.receipts x hx)
  grown a b hab := h'.grown a b (h.grown a b hab)
  born a b hab := by
    rcases h'.born a b hab with hab | ⟨m, hm, hid, r, hr, hreg, hevent⟩
    · exact h.born a b hab
    · obtain ⟨m', hm', hplan⟩ := exists_plan h.plans hm
      rw [h.registrations] at hr
      exact .inr ⟨m', hm', (id_of_plan hplan).trans hid, r, hr, hreg,
        hevent.trans (event_of_plan hplan).symm⟩

/-- A write of the row alone. -/
theorem touches_mails {p : Mail → Bool} {f : Update Mail} (hp : ∀ m, p m = true → m.id = schedulerId)
    (hf : ∀ m, plan (f m) = plan m) :
    Touches schedulerId s { s with mails := s.mails.modify p f } where
  events := rfl
  registrations := rfl
  plans := by
    rw [Table.rows_modify, List.map_map]
    refine List.map_congr_left fun m _ => ?_
    by_cases h : p m = true <;> simp [h, hf]
  others a ha := by
    have hid : ∀ m, (f m).id = m.id := fun m => id_of_plan (hf m)
    simp only [Db.mail?]
    rw [Table.find_modify fun m => by rw [hid]]
    cases hfound : s.mails.find (·.id == a) with
    | none => rfl
    | some m =>
      have hma : m.id = a := by simpa using Table.find_spec hfound
      have hnot : p m = false := Bool.eq_false_iff.mpr fun h => ha (hma.symm.trans (hp m h))
      simp [hnot]
  receipts _ _ := .rfl
  grown _ _ := id
  born _ _ := .inl

theorem hasReceipt_iff {a b : Uuid} : s.hasReceipt a b = true ↔
    ∃ x ∈ s.mailRegistrations.rows, x.schedulerId = a ∧ x.registrationId = b := by
  simp [Db.hasReceipt]

/-- Each unsent receipt of these is closed. -/
theorem rows_closeAll (outcome : ReceiptOutcome) (ds : List DueReceipt) (s : Db) :
    (closeAll outcome ds s).mailRegistrations.rows = s.mailRegistrations.rows.map (fun x =>
      if !x.mailSent && ds.any (·.receiptId == x.id) then MailRegistration.closed outcome x
      else x) := by
  induction ds generalizing s with
  | nil => simp [closeAll]
  | cons d ds ih =>
    refine (ih _).trans ?_
    change (closeReceipt outcome d.receiptId s).mailRegistrations.rows.map _ = _
    rw [closeReceipt, Table.rows_modify, List.map_map]
    refine List.map_congr_left fun x _ => ?_
    by_cases hx : x.mailSent = true
    · simp [hx]
    · have hunsent : x.mailSent = false := by simpa using hx
      have hclosed : (MailRegistration.closed outcome x).mailSent = true := rfl
      by_cases hid : d.receiptId = x.id
      · simp [hunsent, hclosed, hid]
      · simp [hunsent, hid, Ne.symm hid]

theorem closeAll_frame (outcome : ReceiptOutcome) (ds : List DueReceipt) (s : Db) :
    (closeAll outcome ds s).events = s.events ∧
      (closeAll outcome ds s).registrations = s.registrations ∧
      (closeAll outcome ds s).mails = s.mails := by
  induction ds generalizing s with
  | nil => exact ⟨rfl, rfl, rfl⟩
  | cons d ds ih => exact ih _

/-- Closing keeps the pairs that have a receipt. -/
theorem hasReceipt_closeAll (outcome : ReceiptOutcome) (ds : List DueReceipt) (s : Db) (a b : Uuid) :
    (closeAll outcome ds s).hasReceipt a b = s.hasReceipt a b := by
  rw [Db.hasReceipt, rows_closeAll, List.any_map, Db.hasReceipt]
  congr 1
  funext x
  simp only [Function.comp_apply]
  split <;> rfl

/-- The due receipts are receipts of the row. -/
theorem not_any_due {now : Timestamp} {x : MailRegistration} (hx : x ∈ s.mailRegistrations.rows)
    (hother : x.schedulerId ≠ schedulerId) :
    (s.due schedulerId now).any (·.receiptId == x.id) = false := by
  refine Bool.eq_false_iff.mpr fun h => hother ?_
  obtain ⟨d, hd, hid⟩ := List.any_eq_true.mp h
  obtain ⟨y, hy, hdue⟩ := exists_of_mem_due hd
  obtain ⟨hscheduler, -, hreceipt, -⟩ := dueReceipt?_eq_some hdue
  rw [← hscheduler, receipt_eq_of_id hx hy ((beq_iff_eq.mp hid).symm.trans hreceipt)]

theorem touches_closeAll (outcome : ReceiptOutcome) (now : Timestamp) :
    Touches schedulerId s (closeAll outcome (s.due schedulerId now) s) where
  events := (closeAll_frame _ _ _).1
  registrations := (closeAll_frame _ _ _).2.1
  plans := by rw [(closeAll_frame _ _ _).2.2]
  others a _ := by rw [Db.mail?, (closeAll_frame _ _ _).2.2, Db.mail?]
  receipts x hx := by
    rw [rows_closeAll, List.mem_map]
    constructor
    · rintro ⟨y, hy, rfl⟩
      have hother : y.schedulerId ≠ schedulerId := by
        intro h
        apply hx
        split <;> exact h
      rwa [not_any_due hy hother, Bool.and_false, if_neg (by decide)]
    · intro hmem
      exact ⟨x, hmem, by rw [not_any_due hmem hx, Bool.and_false, if_neg (by decide)]⟩
  grown a b := by rw [hasReceipt_closeAll]; exact id
  born a b := by rw [hasReceipt_closeAll]; exact .inl

end touches

/-- The registrations that a materialization takes. -/
def missing (cap : ℕ) (s : Db) (m : Mail) : List Registration :=
  ((s.unmaterialized m).insertionSort (fun a b => a.id ≤ b.id)).take cap

/-- What a materialization of the row leaves. -/
structure Materializes (receiptId : Uuid → Uuid) (shift : Shift) (cap : ℕ) (m : Mail) (s t : Db)
    (born : List MailRegistration) : Prop where
  events : t.events = s.events
  registrations : t.registrations = s.registrations
  mails : t.mails = s.mails ∨
    ∃ last, t.mails = s.mails.modify (·.id == m.id) (Mail.watermarked last)
  made : (missing cap s m).mapM (newReceipt receiptId shift m) = some born
  receipts : t.mailRegistrations.rows = s.mailRegistrations.rows ++ born

section materialize

variable {s t : Db} {receiptId : Uuid → Uuid} {shift : Shift} {scheduler : SchedulerRow} {cap : ℕ}
  {ids : List Uuid} {m : Mail} {born : List MailRegistration} {r : Registration}

theorem materializes_of_ok
    (h : materializeReceipts receiptId shift scheduler cap s = .ok (ids, t))
    (hm : s.mail? scheduler.id = some m) : ∃ born, Materializes receiptId shift cap m s t born := by
  have hid : m.id = scheduler.id := by simpa using Table.find_spec hm
  simp only [materializeReceipts] at h
  split at h
  · next hnone =>
    rw [hm] at hnone
    cases hnone
  · next m' hm' =>
    obtain rfl := Option.some.inj (hm.symm.trans hm')
    split at h
    · cases h
    · next receipts hreceipts =>
      obtain ⟨-, rfl⟩ := Prod.mk.inj (Except.ok.inj h)
      obtain ⟨born, hborn, hinsert⟩ := Option.bind_eq_some_iff.mp hreceipts
      refine ⟨born, rfl, rfl, ?_, hborn, Table.rows_insertAll hinsert⟩
      dsimp only
      split
      · exact .inl rfl
      · rw [hid]
        exact .inr ⟨_, rfl⟩

theorem mem_missing (hr : r ∈ missing cap s m) :
    r ∈ s.registrations.rows ∧ r.eventId = m.eventId ∧ r.eligible = true ∧
      s.hasReceipt m.id r.id = false := by
  have hmem := (List.mem_insertionSort _).mp (List.mem_of_mem_take hr)
  simpa [Db.unmaterialized, and_assoc] using hmem

theorem mem_unmaterialized : r ∈ s.unmaterialized m ↔ r ∈ s.registrations.rows ∧
    r.eventId = m.eventId ∧ r.eligible = true ∧ s.hasReceipt m.id r.id = false := by
  simp [Db.unmaterialized, and_assoc]

theorem exists_image_of_mapM {α β : Type} {f : α → Option β} {l : List α} {l' : List β}
    (h : l.mapM f = some l') : ∀ a ∈ l, ∃ b ∈ l', f a = some b := by
  induction l generalizing l' with
  | nil => simp
  | cons a l ih =>
    simp only [List.mapM_cons, Option.bind_eq_bind, Option.bind_eq_some_iff] at h
    obtain ⟨b, hb, rest, hrest, hcons⟩ := h
    obtain rfl := Option.some.inj hcons
    intro c hc
    rcases List.mem_cons.mp hc with rfl | hc
    · exact ⟨b, List.mem_cons_self, hb⟩
    · obtain ⟨b', hb', hf⟩ := ih hrest c hc
      exact ⟨b', List.mem_cons_of_mem _ hb', hf⟩

/-- The pairs that have a receipt afterwards. -/
theorem Materializes.hasReceipt_iff (h : Materializes receiptId shift cap m s t born) {a b : Uuid} :
    t.hasReceipt a b = true ↔
      s.hasReceipt a b = true ∨ a = m.id ∧ ∃ r ∈ missing cap s m, r.id = b := by
  rw [SchedulerRounds.hasReceipt_iff, SchedulerRounds.hasReceipt_iff, h.receipts]
  constructor
  · rintro ⟨x, hx, rfl, rfl⟩
    rcases List.mem_append.mp hx with hx | hx
    · exact .inl ⟨x, hx, rfl, rfl⟩
    · obtain ⟨r, hr, hnew⟩ := exists_of_mem_mapM h.made x hx
      obtain ⟨hscheduler, hregistration, -⟩ := newReceipt_eq_some hnew
      exact .inr ⟨hscheduler, r, hr, hregistration.symm⟩
  · rintro (⟨x, hx, rfl, rfl⟩ | ⟨rfl, r, hr, rfl⟩)
    · exact ⟨x, List.mem_append_left _ hx, rfl, rfl⟩
    · obtain ⟨x, hx, hnew⟩ := exists_image_of_mapM h.made r hr
      obtain ⟨hscheduler, hregistration, -⟩ := newReceipt_eq_some hnew
      exact ⟨x, List.mem_append_right _ hx, hscheduler, hregistration⟩

theorem touches_materialize
    (h : materializeReceipts receiptId shift scheduler cap s = .ok (ids, t)) :
    Touches scheduler.id s t := by
  cases hm : s.mail? scheduler.id with
  | none =>
    simp only [materializeReceipts, hm] at h
    obtain ⟨-, rfl⟩ := Prod.mk.inj (Except.ok.inj h)
    exact .refl _ _
  | some m =>
    have hid : m.id = scheduler.id := by simpa using Table.find_spec hm
    obtain ⟨made, hmade⟩ := materializes_of_ok h hm
    have hmails : Touches scheduler.id s { s with mails := t.mails } := by
      rcases hmade.mails with hmails | ⟨last, hmails⟩
      · rw [hmails]
        exact .refl _ _
      · rw [hmails]
        exact touches_mails (fun m' hm' => (beq_iff_eq.mp hm').trans hid) fun _ => rfl
    refine ⟨hmade.events, hmade.registrations, hmails.plans, hmails.others, fun x hx => ?_,
      fun a b hab => hmade.hasReceipt_iff.mpr (.inl hab), fun a b hab => ?_⟩
    · rw [hmade.receipts, List.mem_append, or_iff_left]
      intro hnew
      obtain ⟨r, -, hnew⟩ := exists_of_mem_mapM hmade.made x hnew
      exact hx ((newReceipt_eq_some hnew).1.trans hid)
    · refine (hmade.hasReceipt_iff.mp hab).imp_right ?_
      rintro ⟨rfl, r, hr, rfl⟩
      obtain ⟨hrow, hevent, -, -⟩ := mem_missing hr
      exact ⟨m, Table.find_mem hm, rfl, r, hrow, rfl, hevent⟩

end materialize

section row

variable {host : Host} {caps : Caps} {scheduler : SchedulerRow} {s t : Db} {deeds : List Deed}

theorem touches_completed (now : Timestamp) (schedulerId : Uuid) :
    Touches schedulerId s (completed now schedulerId s) := by
  have hrecompute : Touches schedulerId s (recomputeMailDone schedulerId s).2 :=
    touches_mails (fun _ h => beq_iff_eq.mp h) fun _ => rfl
  simp only [completed]
  split
  · exact hrecompute.trans (touches_mails (fun _ h => beq_iff_eq.mp h) fun _ => rfl)
  · split
    · exact hrecompute.trans (touches_mails (fun _ h => by simp_all) fun _ => rfl)
    · exact hrecompute

/-- A call touches its own row. -/
theorem touches_row (h : RowRun host caps scheduler s t deeds) : Touches scheduler.id s t := by
  cases h with
  | swept => exact touches_mails (fun _ h => beq_iff_eq.mp h) fun _ => rfl
  | walked _ hmaterialize _ =>
    exact ((touches_materialize hmaterialize).trans (touches_closeAll _ _)).trans
      (touches_completed _ _)

end row

/-- The registration can be addressed on the channel. -/
def reachable (channel : NotificationChannel) (r : Registration) : Bool :=
  ((⟨0, r.id, r.name, r.email, r.phone, r.barcode, none⟩ : DueReceipt).recipient channel).isSome

/-- For every row with a template the interval arithmetic stays in range and the recipients are
valid for the channel. -/
structure Fit (shift : Shift) (s : Db) : Prop where
  inRange : ∀ m ∈ s.mails.rows, m.templateRef ≠ none → ∀ r ∈ s.unmaterialized m, ∀ receiptId,
    (newReceipt receiptId shift m r).isSome = true
  valid : ∀ m ∈ s.mails.rows, m.templateRef ≠ none → ∀ r ∈ s.registrations.rows,
    r.eligible = true → r.eventId = m.eventId ∨ s.hasReceipt m.id r.id = true →
      reachable m.notificationChannel r = true

/-- Ids that no stored receipt has. -/
structure FreshReceipts (s : Db) (receiptId : Uuid → Uuid) : Prop where
  fresh : ∀ x ∈ s.mailRegistrations.rows, ∀ r, x.id ≠ receiptId r
  apart : Function.Injective receiptId

/-- What another row's call, or the propagation of cancellations, leaves of a row. -/
structure SameFor (schedulerId : Uuid) (s t : Db) : Prop where
  events : t.events = s.events
  registrations : t.registrations = s.registrations
  mail : t.mail? schedulerId = s.mail? schedulerId
  receipts : ∀ r ∈ s.registrations.rows, r.eligible = true → ∀ x : MailRegistration,
    x.schedulerId = schedulerId → x.registrationId = r.id →
      (x ∈ t.mailRegistrations.rows ↔ x ∈ s.mailRegistrations.rows)

section same

variable {s t u : Db} {schedulerId a b : Uuid} {m : Mail} {r : Registration}

theorem SameFor.refl (schedulerId : Uuid) (s : Db) : SameFor schedulerId s s :=
  ⟨rfl, rfl, rfl, fun _ _ _ _ _ _ => .rfl⟩

theorem SameFor.trans (h : SameFor schedulerId s t) (h' : SameFor schedulerId t u) :
    SameFor schedulerId s u where
  events := h'.events.trans h.events
  registrations := h'.registrations.trans h.registrations
  mail := h'.mail.trans h.mail
  receipts r hr heligible x hx hxr :=
    (h'.receipts r (h.registrations ▸ hr) heligible x hx hxr).trans
      (h.receipts r hr heligible x hx hxr)

theorem Touches.sameFor (h : Touches b s t) (hab : a ≠ b) : SameFor a s t where
  events := h.events
  registrations := h.registrations
  mail := h.others a hab
  receipts _ _ _ x hx _ := h.receipts x (hx ▸ hab)

/-- The receipts of eligible registrations are not moot. -/
theorem sameFor_propagated (limit : ℕ) (scan : Uuid → ℕ) (s : Db) (schedulerId : Uuid) :
    SameFor schedulerId s (propagateCancellations limit scan s).2 where
  events := rfl
  registrations := rfl
  mail := rfl
  receipts r hr heligible x hx hxr := by
    simp only [propagateCancellations, Table.rows_remove, List.mem_filter, Bool.not_eq_true',
      and_iff_left_iff_imp]
    refine fun hmem => Bool.eq_false_iff.mpr fun hdeleted => ?_
    obtain ⟨y, hy, hid⟩ := List.any_eq_true.mp hdeleted
    have hmoot := List.mem_of_mem_take hy
    rw [scanned, List.mem_insertionSort, List.mem_filter] at hmoot
    obtain rfl := receipt_eq_of_id hmoot.1 hmem (beq_iff_eq.mp hid)
    have hstored : s.registration? y.registrationId = some r := by
      rw [hxr]
      exact registration?_eq_some hr
    have hcancel : r.state = .cancel := by
      have := hmoot.2
      simp only [Db.moot, hstored, Option.any_some, Bool.and_eq_true, beq_iff_eq] at this
      exact this.2
    simp [Registration.eligible, hcancel] at heligible

section row

variable (h : SameFor schedulerId s t)
include h

theorem SameFor.hasReceipt (hr : r ∈ s.registrations.rows) (heligible : r.eligible = true) :
    t.hasReceipt schedulerId r.id = s.hasReceipt schedulerId r.id := by
  refine Bool.eq_iff_iff.mpr ?_
  rw [hasReceipt_iff, hasReceipt_iff]
  refine exists_congr fun x => ?_
  constructor
  · rintro ⟨hx, hscheduler, hregistration⟩
    exact ⟨(h.receipts r hr heligible x hscheduler hregistration).mp hx, hscheduler, hregistration⟩
  · rintro ⟨hx, hscheduler, hregistration⟩
    exact ⟨(h.receipts r hr heligible x hscheduler hregistration).mpr hx, hscheduler, hregistration⟩

theorem SameFor.hasSentReceipt (hr : r ∈ s.registrations.rows) (heligible : r.eligible = true) :
    t.hasSentReceipt schedulerId r.id = s.hasSentReceipt schedulerId r.id := by
  refine Bool.eq_iff_iff.mpr ?_
  rw [hasSentReceipt_iff, hasSentReceipt_iff]
  refine exists_congr fun x => ?_
  constructor
  · rintro ⟨hx, hscheduler, hregistration, hsent⟩
    exact ⟨(h.receipts r hr heligible x hscheduler hregistration).mp hx, hscheduler, hregistration,
      hsent⟩
  · rintro ⟨hx, hscheduler, hregistration, hsent⟩
    exact ⟨(h.receipts r hr heligible x hscheduler hregistration).mpr hx, hscheduler, hregistration,
      hsent⟩

theorem SameFor.unmaterialized (hm : m.id = schedulerId) : t.unmaterialized m = s.unmaterialized m := by
  rw [Db.unmaterialized, h.registrations, Db.unmaterialized]
  refine List.filter_congr fun r hr => ?_
  cases heligible : r.eligible with
  | false => simp
  | true => rw [hm, h.hasReceipt hr heligible]

theorem SameFor.workRemains (hm : m.id = schedulerId) : t.workRemains m = s.workRemains m := by
  rw [Db.workRemains, h.registrations, Db.workRemains]
  refine any_congr fun r hr => ?_
  cases heligible : r.eligible with
  | false => simp
  | true => rw [hm, h.hasSentReceipt hr heligible]

end row

end same

section fit

variable {shift : Shift} {s t : Db} {schedulerId : Uuid} {m m' : Mail} {scheduler : SchedulerRow}

theorem template_of_plan (h : plan m' = plan m) : m'.templateRef = m.templateRef :=
  (congrArg Mail.templateRef h : (plan m').templateRef = (plan m).templateRef)

theorem channel_of_plan (h : plan m' = plan m) : m'.notificationChannel = m.notificationChannel :=
  (congrArg Mail.notificationChannel h :
    (plan m').notificationChannel = (plan m).notificationChannel)

theorem newReceipt_of_plan (h : plan m' = plan m) (receiptId : Uuid → Uuid) (r : Registration) :
    newReceipt receiptId shift m' r = newReceipt receiptId shift m r :=
  (congrArg (newReceipt receiptId shift · r) h :
    newReceipt receiptId shift (plan m') r = newReceipt receiptId shift (plan m) r)

theorem mail_eq_of_id {a b : Mail} (ha : a ∈ s.mails.rows) (hb : b ∈ s.mails.rows)
    (h : a.id = b.id) : a = b :=
  Table.eq_of_clash ha hb (by simp [clash, h])

theorem Fit.touches (h : Fit shift s) (htouches : Touches schedulerId s t) : Fit shift t where
  inRange m hm htemplate r hr receiptId := by
    obtain ⟨m', hm', hplan⟩ := exists_plan htouches.plans hm
    obtain ⟨hrow, hevent, heligible, hnone⟩ := mem_unmaterialized.mp hr
    rw [← newReceipt_of_plan hplan]
    refine h.inRange m' hm' (by rwa [template_of_plan hplan]) r (mem_unmaterialized.mpr
      ⟨htouches.registrations ▸ hrow, hevent.trans (event_of_plan hplan).symm, heligible, ?_⟩) _
    refine Bool.eq_false_iff.mpr fun hreceipt => ?_
    rw [htouches.grown _ _ (id_of_plan hplan ▸ hreceipt)] at hnone
    cases hnone
  valid m hm htemplate r hr heligible hrecipient := by
    obtain ⟨m', hm', hplan⟩ := exists_plan htouches.plans hm
    rw [htouches.registrations] at hr
    rw [← channel_of_plan hplan]
    refine h.valid m' hm' (by rwa [template_of_plan hplan]) r hr heligible ?_
    rw [event_of_plan hplan, id_of_plan hplan]
    rcases hrecipient with hevent | hreceipt
    · exact .inl hevent
    · rcases htouches.born _ _ hreceipt with hreceipt | ⟨m'', hm'', hid, r', hr', hreg, hevent⟩
      · exact .inr hreceipt
      · obtain rfl := registration_eq_of_id hr' hr hreg
        obtain rfl := mail_eq_of_id hm'' hm' (hid.trans (id_of_plan hplan).symm)
        exact .inl (hevent.trans (event_of_plan hplan))

theorem Fit.propagated (h : Fit shift s) (limit : ℕ) (scan : Uuid → ℕ) :
    Fit shift (propagateCancellations limit scan s).2 where
  inRange m hm htemplate r hr := by
    rw [(sameFor_propagated limit scan s m.id).unmaterialized rfl] at hr
    exact h.inRange m hm htemplate r hr
  valid m hm htemplate r hr heligible hrecipient := by
    rw [(sameFor_propagated limit scan s m.id).hasReceipt hr heligible] at hrecipient
    exact h.valid m hm htemplate r hr heligible hrecipient

theorem Copies.id (h : Copies m scheduler) : m.id = scheduler.id := congrArg SchedulerRow.id h

theorem Copies.eventId (h : Copies m scheduler) : m.eventId = scheduler.eventId :=
  congrArg SchedulerRow.eventId h

theorem Copies.templateRef (h : Copies m scheduler) : m.templateRef = scheduler.templateRef :=
  congrArg SchedulerRow.templateRef h

theorem Copies.channel (h : Copies m scheduler) :
    m.notificationChannel = scheduler.notificationChannel :=
  congrArg SchedulerRow.notificationChannel h

theorem Copies.of_plan (h : Copies m scheduler) (hplan : plan m' = plan m) : Copies m' scheduler := by
  rw [Copies, hplan]
  exact h

theorem copies_schedulerRow (m : Mail) : Copies m m.schedulerRow := rfl

/-- A due receipt is one of an eligible registration. -/
theorem mem_due {now : Timestamp} {d : DueReceipt} : d ∈ s.due schedulerId now ↔
    ∃ x ∈ s.mailRegistrations.rows, ∃ r ∈ s.registrations.rows, r.id = x.registrationId ∧
      r.eligible = true ∧ x.schedulerId = schedulerId ∧ x.mailSent = false ∧
      x.scheduledDate.all (fun due => decide (due ≤ now)) = true ∧
      d = ⟨x.id, x.registrationId, r.name, r.email, r.phone, r.barcode, x.scheduledDate⟩ := by
  rw [Db.due, List.mem_insertionSort, List.mem_filterMap]
  refine exists_congr fun x => and_congr_right fun _ => ?_
  simp only [Db.dueReceipt?]
  constructor
  · intro h
    split at h
    · next hdue =>
      obtain ⟨r, hr, h⟩ := Option.bind_eq_some_iff.mp h
      split at h
      · next heligible =>
        obtain rfl := Option.some.inj h
        simp only [Bool.and_eq_true, beq_iff_eq, Bool.not_eq_true'] at hdue
        exact ⟨r, (registration?_mem hr).1, (registration?_mem hr).2, heligible, hdue.1.1, hdue.1.2,
          hdue.2, rfl⟩
      · cases h
    · cases h
  · rintro ⟨r, hr, hid, heligible, hscheduler, hunsent, hdue, rfl⟩
    rw [if_pos (by simp [hscheduler, hunsent, hdue]), ← hid, registration?_eq_some hr]
    simp [heligible]

end fit

section ready

variable {host : Host} {caps : Caps} {scheduler : SchedulerRow} {l : Lone} {m : Mail}

theorem mapM_isSome {α β : Type} {f : α → Option β} {l : List α}
    (h : ∀ a ∈ l, (f a).isSome = true) : ∃ l', l.mapM f = some l' := by
  induction l with
  | nil => exact ⟨[], rfl⟩
  | cons a l ih =>
    obtain ⟨b, hb⟩ := Option.isSome_iff_exists.mp (h a List.mem_cons_self)
    obtain ⟨l', hl'⟩ := ih fun c hc => h c (List.mem_cons_of_mem _ hc)
    exact ⟨b :: l', by simp [List.mapM_cons, hb, hl']⟩

theorem mapM_pairwise {α β : Type} {f : α → Option β} {R : α → α → Prop} {S : β → β → Prop}
    {l : List α} {l' : List β} (h : l.mapM f = some l') (hl : l.Pairwise R)
    (hRS : ∀ a a' b b', R a a' → f a = some b → f a' = some b' → S b b') : l'.Pairwise S := by
  induction l generalizing l' with
  | nil =>
    obtain rfl : [] = l' := by simpa using h
    exact .nil
  | cons a l ih =>
    simp only [List.mapM_cons, Option.bind_eq_bind, Option.bind_eq_some_iff] at h
    obtain ⟨b, hb, rest, hrest, hcons⟩ := h
    obtain rfl := Option.some.inj hcons
    obtain ⟨hhead, htail⟩ := List.pairwise_cons.mp hl
    refine List.pairwise_cons.mpr ⟨fun b' hb' => ?_, ih hrest htail⟩
    obtain ⟨a', ha', hf⟩ := exists_of_mem_mapM hrest b' hb'
    exact hRS a a' b b' (hhead a' ha') hb hf

theorem newReceipt_id {receiptId : Uuid → Uuid} {shift : Shift} {r : Registration}
    {x : MailRegistration} (h : newReceipt receiptId shift m r = some x) : x.id = receiptId r.id := by
  simp only [newReceipt] at h
  split at h
  · obtain rfl := Option.some.inj h
    rfl
  · split at h
    · obtain rfl := Option.some.inj h
      rfl
    · obtain ⟨due, -, rfl⟩ := Option.map_eq_some_iff.mp h
      rfl

/-- Rows born with fresh ids can be inserted. -/
theorem insertAll_born {s : Db} {receiptId : Uuid → Uuid} {shift : Shift} {cap : ℕ}
    {born : List MailRegistration} (hfresh : FreshReceipts s receiptId)
    (hborn : (missing cap s m).mapM (newReceipt receiptId shift m) = some born) :
    ∃ receipts, s.mailRegistrations.insertAll born = some receipts := by
  have hids : (missing cap s m).Pairwise (fun r r' => r.id ≠ r'.id) := by
    refine List.Pairwise.sublist (List.take_sublist _ _) ?_
    refine ((List.perm_insertionSort _ _).pairwise_iff fun hne => hne.symm).mpr ?_
    refine (s.registrations.unique.filter _).imp fun hapart hid => ?_
    simp [clash, hid] at hapart
  refine @Table.insertAll_of_apart _ _ s.mailRegistrations born (fun x hx b hb => ?_)
    (mapM_pairwise hborn hids fun r r' b b' hne hb hb' => ?_)
  · obtain ⟨r, hr, hnew⟩ := exists_of_mem_mapM hborn b hb
    obtain ⟨hscheduler, hregistration, -⟩ := newReceipt_eq_some hnew
    have hid : x.id ≠ b.id := by
      rw [newReceipt_id hnew]
      exact hfresh.fresh x hx r.id
    obtain ⟨-, -, -, hnone⟩ := mem_missing hr
    have hpair : ¬ (x.schedulerId = b.schedulerId ∧ x.registrationId = b.registrationId) := by
      rintro ⟨hs, hr'⟩
      rw [hasReceipt_iff.mpr ⟨x, hx, hs.trans hscheduler, hr'.trans hregistration⟩] at hnone
      cases hnone
    simpa [clash, hid] using hpair
  · obtain ⟨-, hregistration, -⟩ := newReceipt_eq_some hb
    obtain ⟨-, hregistration', -⟩ := newReceipt_eq_some hb'
    have hid : b.id ≠ b'.id := by
      rw [newReceipt_id hb, newReceipt_id hb']
      exact fun h => hne (hfresh.apart h)
    have hreg : b.registrationId ≠ b'.registrationId := by rwa [hregistration, hregistration']
    simp [clash, hid, hreg]

theorem materialize_eq {s : Db} (hm : s.mail? scheduler.id = some m) (receiptId : Uuid → Uuid)
    (shift : Shift) (cap : ℕ) : materializeReceipts receiptId shift scheduler cap s =
      match ((missing cap s m).mapM (newReceipt receiptId shift m)).bind
          s.mailRegistrations.insertAll with
      | none => .error (.database "mail_registrations: insert failed")
      | some receipts => .ok ((missing cap s m).map Registration.id, { s with
          mailRegistrations := receipts
          mails := match ((missing cap s m).map Registration.id).getLast? with
            | none => s.mails
            | some last => s.mails.modify (·.id == scheduler.id) (Mail.watermarked last) }) := by
  simp only [materializeReceipts, hm]
  rfl

/-- A materialization goes through in range and with fresh ids. -/
theorem materialize_ok {receiptId : Uuid → Uuid} {shift : Shift} (cap : ℕ) {s : Db}
    (hm : s.mail? scheduler.id = some m) (hfresh : FreshReceipts s receiptId)
    (hrange : ∀ r ∈ s.unmaterialized m, (newReceipt receiptId shift m r).isSome = true) :
    ∃ ids t, materializeReceipts receiptId shift scheduler cap s = .ok (ids, t) := by
  obtain ⟨born, hborn⟩ := mapM_isSome (f := newReceipt receiptId shift m) (l := missing cap s m)
    fun r hr => hrange r ((List.mem_insertionSort _).mp (List.mem_of_mem_take hr))
  obtain ⟨receipts, hreceipts⟩ := insertAll_born hfresh hborn
  exact ⟨_, _, by rw [materialize_eq hm, hborn, Option.bind_some, hreceipts]⟩

/-- The call on a row of a fit database goes through. -/
theorem ready_of_fit (hfit : Fit host.shift l.db)
    (hfresh : FreshReceipts l.db (host.receiptId l.steps)) (hm : m ∈ l.db.mails.rows)
    (hcopies : Copies m scheduler) (hevent : (l.db.event? m.eventId).isSome = true) :
    Ready host caps scheduler l := by
  refine ⟨fun htemplate => ?_⟩
  rw [← hcopies.templateRef] at htemplate
  have hfound : l.db.mail? scheduler.id = some m := by
    rw [← hcopies.id]
    exact mail?_eq_some hm
  obtain ⟨ids, t, hmaterialize⟩ := materialize_ok caps.batch hfound hfresh
    fun r hr => hfit.inRange m hm htemplate r hr _
  have htouches := touches_materialize hmaterialize
  refine ⟨ids, t, hmaterialize, ?_, fun d hd => ?_⟩
  · rw [← hcopies.eventId, Db.event?, htouches.events]
    exact hevent
  · obtain ⟨x, hx, r, hr, hid, heligible, hscheduler, -, -, rfl⟩ := mem_due.mp hd
    obtain ⟨m', hm', hplan⟩ := exists_plan htouches.plans.symm hm
    have hreachable := (hfit.touches htouches).valid m' hm' (by rwa [template_of_plan hplan]) r hr
      heligible (.inr (hasReceipt_iff.mpr ⟨x, hx, ?_, hid.symm⟩))
    · rw [channel_of_plan hplan, hcopies.channel] at hreachable
      exact hreachable
    · rw [hscheduler, id_of_plan hplan, hcopies.id]

end ready

section claim

variable {s : Db} {limit : ℕ} {now : Timestamp} {scan : Uuid → ℕ} {locked : Uuid → Bool}
  {scheduler : SchedulerRow}

/-- A claimed row is a stored one. -/
theorem exists_of_mem_claimDue (h : scheduler ∈ claimDue limit now scan locked s) :
    ∃ m ∈ s.mails.rows, scheduler = m.schedulerRow := by
  obtain ⟨m, hm, rfl⟩ := List.mem_map.mp h
  have hearliest := List.mem_of_mem_take ((List.mem_insertionSort _).mp hm)
  have hdue := (List.mem_insertionSort _).mp ((List.mem_insertionSort _).mp hearliest)
  exact ⟨m, (List.mem_filter.mp hdue).1, rfl⟩

/-- No row is claimed twice. -/
theorem claimDue_pairwise : (claimDue limit now scan locked s).Pairwise (·.id ≠ ·.id) := by
  have hsorted : ∀ {r : Mail → Mail → Prop} [DecidableRel r] {ms : List Mail},
      ms.Pairwise (·.id ≠ ·.id) → (ms.insertionSort r).Pairwise (·.id ≠ ·.id) := fun h =>
    ((List.perm_insertionSort _ _).pairwise_iff fun hne => hne.symm).mpr h
  refine List.pairwise_map.mpr (hsorted ((hsorted (hsorted ?_)).sublist (List.take_sublist _ _)))
  refine (s.mails.unique.filter _).imp fun hapart => ?_
  simp only [clash, beq_eq_false_iff_ne] at hapart
  exact hapart

end claim

end BackboneEvents.SchedulerRounds
