import BackboneEvents.SchedulerRows

/-!
# Passes that drain a scheduler row

A pass materializes a batch of missing receipts and closes every receipt that is due. While
registrations lack a receipt the row stays open and is armed again; the pass that
materializes the last of them, when all receipts are due, leaves nothing unsent and the row
done.
-/
namespace BackboneEvents.SchedulerConvergence
open ConstrainedTables DeterministicRuns ReceiptDeliveries SchedulerWalks SchedulerTermination
  SchedulerRounds

/-- A message that went out for the scheduler and the registration, or was dropped. -/
def delivers (schedulerId registrationId : Uuid) : Deed → Bool
  | .enqueued p | .overdue p _ _ =>
    p.schedulerId == schedulerId && p.registrationId == registrationId
  | .rendered _ | .refused _ => false

/-- The scheduler that a deed is for. -/
def schedulerOf : Deed → Uuid
  | .rendered p | .enqueued p | .refused p | .overdue p _ _ => p.schedulerId

def deliveries (deeds : List Deed) (schedulerId registrationId : Uuid) : ℕ :=
  deeds.countP (delivers schedulerId registrationId)

/-- One when a sent receipt is stored. -/
def sentOf (s : Db) (schedulerId registrationId : Uuid) : ℕ :=
  if s.hasSentReceipt schedulerId registrationId then 1 else 0

/-- No receipt of the row, stored or to come, is due after this time. -/
def DueBy (shift : Shift) (last : Timestamp) (m : Mail) (s : Db) : Prop :=
  ∀ r ∈ s.registrations.rows, r.eventId = m.eventId → r.eligible = true →
    (∀ x ∈ s.mailRegistrations.rows, x.schedulerId = m.id → x.registrationId = r.id →
      x.scheduledDate.all (fun due => decide (due ≤ last)) = true) ∧
    (s.hasReceipt m.id r.id = false → ∀ receiptId x, newReceipt receiptId shift m r = some x →
      x.scheduledDate.all (fun due => decide (due ≤ last)) = true)

section deeds

variable {scheduler : SchedulerRow} {event : Event} {now : Timestamp} {schedulerId b : Uuid}

/-- Closing the due receipts delivers one message for each. -/
theorem deliveries_dealt (ds : List DueReceipt) (b : Uuid) :
    deliveries (ds.flatMap (dealt scheduler event now)) scheduler.id b =
      ds.countP (fun d => d.registrationId == b) := by
  induction ds with
  | nil => rfl
  | cons d ds ih =>
    have hone : deliveries (dealt scheduler event now d) scheduler.id b =
        if d.registrationId == b then 1 else 0 := by
      simp only [dealt]
      split <;> simp [deliveries, delivers, List.countP_cons]
    rw [List.flatMap_cons, deliveries, List.countP_append, List.countP_cons, Nat.add_comm]
    exact congrArg₂ (· + ·) ih hone

/-- The deeds on a row are deeds for its scheduler. -/
theorem schedulerOf_dealt {ds : List DueReceipt} {deed : Deed}
    (h : deed ∈ ds.flatMap (dealt scheduler event now)) : schedulerOf deed = scheduler.id := by
  obtain ⟨d, -, hdeed⟩ := List.mem_flatMap.mp h
  simp only [dealt] at hdeed
  split at hdeed
  · obtain rfl := List.mem_singleton.mp hdeed
    rfl
  · rcases List.mem_cons.mp hdeed with rfl | hdeed
    · rfl
    · obtain rfl := List.mem_singleton.mp hdeed
      rfl

theorem deliveries_of_apart {deeds : List Deed} (h : ∀ deed ∈ deeds, schedulerOf deed ≠ schedulerId) :
    deliveries deeds schedulerId b = 0 := by
  refine List.countP_eq_zero.mpr fun deed hdeed hdelivers => h deed hdeed ?_
  cases deed with
  | rendered | refused => cases hdelivers
  | enqueued | overdue =>
    simp only [delivers, Bool.and_eq_true, beq_iff_eq] at hdelivers
    exact hdelivers.1

/-- A receipt is dropped on an event that is over. -/
theorem over_of_dealt {ds : List DueReceipt} {p : Parcel} {e : Event} {t : Timestamp}
    (h : Deed.overdue p e t ∈ ds.flatMap (dealt scheduler event now)) :
    e = event ∧ e.dateEnd ≤ t := by
  obtain ⟨d, -, hdeed⟩ := List.mem_flatMap.mp h
  simp only [dealt] at hdeed
  split at hdeed
  · next hover =>
    obtain ⟨-, rfl, rfl⟩ := Deed.overdue.inj (List.mem_singleton.mp hdeed)
    exact ⟨rfl, hover⟩
  · rcases List.mem_cons.mp hdeed with hdeed | hdeed
    · cases hdeed
    · cases List.mem_singleton.mp hdeed

end deeds

section closing

variable {s : Db} {schedulerId : Uuid} {now : Timestamp} {b : Uuid}

variable (s schedulerId now) in
theorem pairwise_due_registration : (s.due schedulerId now).Pairwise
    (fun d d' => d.registrationId ≠ d'.registrationId) := by
  refine pairwise_due.imp_of_mem fun hd hd' hne hsame => hne ?_
  obtain ⟨x, hx, hdue⟩ := exists_of_mem_due hd
  obtain ⟨y, hy, hdue'⟩ := exists_of_mem_due hd'
  obtain ⟨hs, -, hid, hr⟩ := dueReceipt?_eq_some hdue
  obtain ⟨hs', -, hid', hr'⟩ := dueReceipt?_eq_some hdue'
  rw [hid, hid', receipt_eq_of_pair hx hy (hs.trans hs'.symm) (hr.symm.trans (hsame.trans hr'))]

/-- Sent afterwards: sent before, or due. -/
theorem hasSent_closeAll (outcome : ReceiptOutcome) :
    (closeAll outcome (s.due schedulerId now) s).hasSentReceipt schedulerId b = true ↔
      s.hasSentReceipt schedulerId b = true ∨ ∃ d ∈ s.due schedulerId now, d.registrationId = b := by
  rw [hasSentReceipt_iff, hasSentReceipt_iff, rows_closeAll]
  constructor
  · rintro ⟨x, hx, hscheduler, hregistration, hsent⟩
    obtain ⟨y, hy, rfl⟩ := List.mem_map.mp hx
    split at hscheduler
    · next hclosed =>
      rw [if_pos hclosed] at hregistration
      simp only [Bool.and_eq_true, Bool.not_eq_true', List.any_eq_true, beq_iff_eq] at hclosed
      obtain ⟨-, d, hd, hid⟩ := hclosed
      obtain ⟨z, hz, hdue⟩ := exists_of_mem_due hd
      obtain ⟨-, -, hreceipt, hr⟩ := dueReceipt?_eq_some hdue
      obtain rfl := receipt_eq_of_id hz hy (hreceipt.symm.trans hid)
      exact .inr ⟨d, hd, hr.trans hregistration⟩
    · next hkept =>
      rw [if_neg hkept] at hregistration hsent
      exact .inl ⟨y, hy, hscheduler, hregistration, hsent⟩
  · rintro (⟨x, hx, hscheduler, hregistration, hsent⟩ | ⟨d, hd, hregistration⟩)
    · exact ⟨x, List.mem_map.mpr ⟨x, hx, by simp [hsent]⟩, hscheduler, hregistration, hsent⟩
    · obtain ⟨x, hx, hdue⟩ := exists_of_mem_due hd
      obtain ⟨hscheduler, hunsent, hreceipt, hr⟩ := dueReceipt?_eq_some hdue
      have hclosed : (!x.mailSent && (s.due schedulerId now).any (·.receiptId == x.id)) = true := by
        simp only [hunsent, Bool.not_false, Bool.true_and, List.any_eq_true, beq_iff_eq]
        exact ⟨d, hd, hreceipt⟩
      exact ⟨MailRegistration.closed outcome x, List.mem_map.mpr ⟨x, hx, if_pos hclosed⟩, hscheduler,
        hr.symm.trans hregistration, rfl⟩

/-- What was due was not sent. -/
theorem not_sent_of_due {d : DueReceipt} (hd : d ∈ s.due schedulerId now) :
    s.hasSentReceipt schedulerId d.registrationId = false := by
  obtain ⟨x, hx, hdue⟩ := exists_of_mem_due hd
  obtain ⟨hscheduler, hunsent, -, hr⟩ := dueReceipt?_eq_some hdue
  refine Bool.eq_false_iff.mpr fun hsent => ?_
  obtain ⟨y, hy, hscheduler', hregistration, hsent⟩ := hasSentReceipt_iff.mp hsent
  obtain rfl := receipt_eq_of_pair hx hy (hscheduler.trans hscheduler'.symm)
    (hr.symm.trans hregistration.symm)
  rw [hunsent] at hsent
  cases hsent

/-- The sent receipts grow by the messages delivered. -/
theorem sentOf_closeAll (outcome : ReceiptOutcome) :
    sentOf (closeAll outcome (s.due schedulerId now) s) schedulerId b =
      sentOf s schedulerId b + (s.due schedulerId now).countP (fun d => d.registrationId == b) := by
  have honce := countP_key_le_one DueReceipt.registrationId
    (pairwise_due_registration s schedulerId now) b
  by_cases hdue : ∃ d ∈ s.due schedulerId now, d.registrationId = b
  · have hafter := (hasSent_closeAll outcome).mpr (.inr hdue)
    obtain ⟨d, hd, rfl⟩ := hdue
    have hpos : 0 < (s.due schedulerId now).countP (fun e => e.registrationId == d.registrationId) :=
      List.countP_pos_iff.mpr ⟨d, hd, beq_self_eq_true _⟩
    rw [sentOf, hafter, sentOf, not_sent_of_due hd]
    simp only [if_true, Bool.false_eq_true, if_false]
    omega
  · have hnone : (s.due schedulerId now).countP (fun d => d.registrationId == b) = 0 :=
      List.countP_eq_zero.mpr fun d hd h => hdue ⟨d, hd, beq_iff_eq.mp h⟩
    have hsame : (closeAll outcome (s.due schedulerId now) s).hasSentReceipt schedulerId b =
        s.hasSentReceipt schedulerId b :=
      Bool.eq_iff_iff.mpr ((hasSent_closeAll outcome).trans (or_iff_left hdue))
    rw [sentOf, hsame, hnone, sentOf, Nat.add_zero]

end closing

section completion

variable {s t : Db} {now : Timestamp} {schedulerId : Uuid} {m m' : Mail}

/-- The completion writes the row alone. -/
theorem completed_frame (now : Timestamp) (schedulerId : Uuid) (s : Db) :
    (completed now schedulerId s).mailRegistrations = s.mailRegistrations ∧
      (completed now schedulerId s).registrations = s.registrations := by
  simp only [completed]
  split
  · exact ⟨rfl, rfl⟩
  · split <;> exact ⟨rfl, rfl⟩

theorem hasSentReceipt_congr (h : t.mailRegistrations = s.mailRegistrations) (a b : Uuid) :
    t.hasSentReceipt a b = s.hasSentReceipt a b := by
  rw [Db.hasSentReceipt, h, Db.hasSentReceipt]

theorem unmaterialized_of_plan (h : plan m' = plan m) : s.unmaterialized m' = s.unmaterialized m := by
  rw [Db.unmaterialized, Db.unmaterialized, event_of_plan h, id_of_plan h]

theorem workRemains_of_plan (h : plan m' = plan m) : s.workRemains m' = s.workRemains m := by
  rw [Db.workRemains, Db.workRemains, event_of_plan h, id_of_plan h]

theorem dueBy_of_plan {shift : Shift} {last : Timestamp} (h : plan m' = plan m)
    (hdue : DueBy shift last m s) : DueBy shift last m' s := by
  intro r hr hevent heligible
  rw [id_of_plan h]
  obtain ⟨hstored, hmissing⟩ := hdue r hr (hevent.trans (event_of_plan h)) heligible
  exact ⟨hstored, fun hnone receiptId x hnew => hmissing hnone receiptId x
    (newReceipt_of_plan h receiptId r ▸ hnew)⟩

theorem unmaterialized_congr (hregistrations : t.registrations = s.registrations)
    (hreceipts : ∀ b, t.hasReceipt m.id b = s.hasReceipt m.id b) :
    t.unmaterialized m = s.unmaterialized m := by
  simp only [Db.unmaterialized, hregistrations, hreceipts]

theorem workRemains_congr (hregistrations : t.registrations = s.registrations)
    (hreceipts : ∀ b, t.hasSentReceipt m.id b = s.hasSentReceipt m.id b) :
    t.workRemains m = s.workRemains m := by
  simp only [Db.workRemains, hregistrations, hreceipts]

/-- A registration without any receipt is work. -/
theorem workRemains_of_unmaterialized (h : s.unmaterialized m ≠ []) : s.workRemains m = true := by
  obtain ⟨r, hr⟩ := List.exists_mem_of_ne_nil _ h
  obtain ⟨hrow, hevent, heligible, hnone⟩ := mem_unmaterialized.mp hr
  refine Bool.not_eq_false _ |>.mp fun hdone => ?_
  have hsent := workRemains_eq_false_iff.mp hdone r hrow hevent heligible
  obtain ⟨x, hx, hscheduler, hregistration, -⟩ := hasSentReceipt_iff.mp hsent
  rw [hasReceipt_iff.mpr ⟨x, hx, hscheduler, hregistration⟩] at hnone
  cases hnone

theorem mail?_modify {p : Mail → Bool} {f : Update Mail} (hf : ∀ m, plan (f m) = plan m)
    (h : s.mail? schedulerId = some m) :
    ({ s with mails := s.mails.modify p f } : Db).mail? schedulerId =
      some (if p m then f m else m) := by
  have hid : ∀ m, (f m).id = m.id := fun m => id_of_plan (hf m)
  simp only [Db.mail?] at h ⊢
  rw [Table.find_modify fun m => by rw [hid], h]
  rfl

variable (now) in
/-- The completed row is done when no work remains, and armed again for registrations without a
receipt. -/
theorem mail?_completed (h : s.mail? schedulerId = some m) : ∃ m',
    (completed now schedulerId s).mail? schedulerId = some m' ∧ plan m' = plan m ∧
      m'.mailDone = !s.workRemains m ∧
      (s.unmaterialized m ≠ [] → m'.scheduledDate = some now) := by
  have hid : (m.id == schedulerId) = true := by simpa using Table.find_spec h
  have hrecomputed : (recomputeMailDone schedulerId s).2.mail? schedulerId =
      some (Mail.recomputed s m) := by
    refine (mail?_modify (fun _ => rfl) h).trans ?_
    rw [hid]
    rfl
  have hdone : (recomputeMailDone schedulerId s).1 = !s.workRemains m := by
    simp [recomputeMailDone, h]
  simp only [completed, hdone]
  cases hwork : s.workRemains m with
  | false =>
    refine ⟨Mail.cleared (Mail.recomputed s m), ?_, rfl, ?_, fun hne => ?_⟩
    · refine (mail?_modify (fun _ => rfl) hrecomputed).trans ?_
      rw [show ((Mail.recomputed s m).id == schedulerId) = true from hid]
      rfl
    · rw [← hwork]
      rfl
    · rw [workRemains_of_unmaterialized hne] at hwork
      cases hwork
  | true =>
    have hopen : (Mail.recomputed s m).mailDone = false := by
      simp [Mail.recomputed, hwork]
    have hcount : unmaterializedCount schedulerId (recomputeMailDone schedulerId s).2 =
        (s.unmaterialized m).length := by
      rw [unmaterializedCount, hrecomputed]
      rfl
    simp only [Bool.not_true, Bool.false_eq_true, if_false, hcount]
    split
    · refine ⟨Mail.dueFrom now (Mail.recomputed s m), ?_, rfl, hopen, fun _ => rfl⟩
      refine (mail?_modify (fun _ => rfl) hrecomputed).trans ?_
      rw [show ((Mail.recomputed s m).id == schedulerId && !(Mail.recomputed s m).mailDone) = true by
        rw [hopen, show ((Mail.recomputed s m).id == schedulerId) = true from hid]; rfl]
      rfl
    · next hnone =>
      refine ⟨Mail.recomputed s m, hrecomputed, rfl, hopen, fun hne => ?_⟩
      exact absurd (.inl (List.length_pos_of_ne_nil hne)) hnone

end completion

/-- What the call on a row with a template, or a whole pass, leaves of the row. -/
structure Drained (host : Host) (caps : Caps) (m : Mail) (s u : Db) (deeds : List Deed) : Prop where
  events : u.events = s.events
  registrations : u.registrations = s.registrations
  ledger : ∀ r ∈ s.registrations.rows, r.eligible = true →
    sentOf u m.id r.id = sentOf s m.id r.id + deliveries deeds m.id r.id
  dropped : ∀ p e now, Deed.overdue p e now ∈ deeds → p.schedulerId = m.id →
    s.event? m.eventId = some e ∧ e.dateEnd ≤ now
  left : (u.unmaterialized m).length = (s.unmaterialized m).length - caps.batch
  dues : ∀ last, DueBy host.shift last m s → DueBy host.shift last m u
  mail : ∃ m', u.mail? m.id = some m' ∧ plan m' = plan m ∧ m'.mailDone = !u.workRemains m ∧
    (u.unmaterialized m ≠ [] → m'.scheduledDate = some host.now)
  done : (s.unmaterialized m).length ≤ caps.batch → DueBy host.shift host.now m s →
    u.workRemains m = false

section drained

variable {host : Host} {caps : Caps} {scheduler : SchedulerRow} {m : Mail} {s t u : Db}
  {deeds : List Deed} {receiptId : Uuid → Uuid} {shift : Shift} {cap : ℕ}
  {born : List MailRegistration}

/-- A materialization sends nothing. -/
theorem hasSent_materializes (h : Materializes receiptId shift cap m s t born) (a b : Uuid) :
    t.hasSentReceipt a b = s.hasSentReceipt a b := by
  refine Bool.eq_iff_iff.mpr ?_
  rw [hasSentReceipt_iff, hasSentReceipt_iff, h.receipts]
  constructor
  · rintro ⟨x, hx, hscheduler, hregistration, hsent⟩
    rcases List.mem_append.mp hx with hx | hx
    · exact ⟨x, hx, hscheduler, hregistration, hsent⟩
    · obtain ⟨r, -, hnew⟩ := exists_of_mem_mapM h.made x hx
      rw [(newReceipt_eq_some hnew).2.2] at hsent
      cases hsent
  · rintro ⟨x, hx, hscheduler, hregistration, hsent⟩
    exact ⟨x, List.mem_append_left _ hx, hscheduler, hregistration, hsent⟩

theorem left_materializes (h : Materializes receiptId shift cap m s t born) :
    (t.unmaterialized m).length = (s.unmaterialized m).length - cap := by
  have hrest : t.unmaterialized m = (s.unmaterialized m).filter (fun r =>
      !(missing cap s m).any (fun r' => r'.id == r.id)) := by
    rw [Db.unmaterialized, h.registrations, Db.unmaterialized, List.filter_filter]
    refine List.filter_congr fun r _ => ?_
    have hiff : t.hasReceipt m.id r.id = (s.hasReceipt m.id r.id ||
        (missing cap s m).any (fun r' => r'.id == r.id)) := by
      refine Bool.eq_iff_iff.mpr ?_
      rw [h.hasReceipt_iff]
      simp
    rw [hiff]
    cases s.hasReceipt m.id r.id <;> cases (missing cap s m).any (fun r' => r'.id == r.id) <;> simp
  have hids : ((s.unmaterialized m).insertionSort (fun a b => a.id ≤ b.id)).Pairwise
      (fun r r' => r.id ≠ r'.id) := by
    refine ((List.perm_insertionSort _ _).pairwise_iff fun hne => hne.symm).mpr ?_
    refine (s.registrations.unique.filter _).imp fun hapart hid => ?_
    simp [clash, hid] at hapart
  have hperm := ((List.perm_insertionSort (fun a b => a.id ≤ b.id) (s.unmaterialized m)).filter
    (fun r => !(missing cap s m).any (fun r' => r'.id == r.id))).length_eq
  rw [hrest, ← hperm, missing, filter_take Registration.id cap hids, List.length_drop,
    List.length_insertionSort]

/-- The receipts born are due by the bound, and those of other rows are not asked. -/
theorem dueBy_materializes (h : Materializes receiptId shift cap m s t born) {last : Timestamp}
    (hdue : DueBy shift last m s) : DueBy shift last m t := by
  intro r hr hevent heligible
  rw [h.registrations] at hr
  obtain ⟨hstored, hmissing⟩ := hdue r hr hevent heligible
  refine ⟨fun x hx hscheduler hregistration => ?_, fun hnone => hmissing ?_⟩
  · rcases List.mem_append.mp (h.receipts ▸ hx) with hx | hx
    · exact hstored x hx hscheduler hregistration
    · obtain ⟨r', hr', hnew⟩ := exists_of_mem_mapM h.made x hx
      obtain ⟨hrow, -, -, hnone⟩ := mem_missing hr'
      obtain rfl := registration_eq_of_id hrow hr
        ((newReceipt_eq_some hnew).2.1.symm.trans hregistration)
      exact hmissing hnone receiptId x hnew
  · refine Bool.eq_false_iff.mpr fun hreceipt => ?_
    rw [h.hasReceipt_iff.mpr (.inl hreceipt)] at hnone
    cases hnone

theorem dueBy_closeAll {last : Timestamp} (outcome : ReceiptOutcome) (ds : List DueReceipt)
    (hdue : DueBy shift last m s) : DueBy shift last m (closeAll outcome ds s) := by
  intro r hr hevent heligible
  rw [(closeAll_frame _ _ _).2.1] at hr
  obtain ⟨hstored, hmissing⟩ := hdue r hr hevent heligible
  refine ⟨fun x hx hscheduler hregistration => ?_, by rwa [hasReceipt_closeAll]⟩
  rw [rows_closeAll] at hx
  obtain ⟨y, hy, rfl⟩ := List.mem_map.mp hx
  have hkept : ∀ b : Bool, (if b = true then MailRegistration.closed outcome y else y).schedulerId =
      y.schedulerId ∧ (if b = true then MailRegistration.closed outcome y else y).registrationId =
      y.registrationId ∧ (if b = true then MailRegistration.closed outcome y else y).scheduledDate =
      y.scheduledDate := by
    rintro (_ | _) <;> exact ⟨rfl, rfl, rfl⟩
  rw [(hkept _).1] at hscheduler
  rw [(hkept _).2.1] at hregistration
  rw [(hkept _).2.2]
  exact hstored y hy hscheduler hregistration

/-- The row is there with its plan after a materialization. -/
theorem mail?_materializes (h : Materializes receiptId shift cap m s t born)
    (hm : s.mail? m.id = some m) : ∃ m', t.mail? m.id = some m' ∧ plan m' = plan m := by
  rcases h.mails with hmails | ⟨last, hmails⟩
  · exact ⟨m, by rw [Db.mail?, hmails]; exact hm, rfl⟩
  · refine ⟨Mail.watermarked last m, ?_, rfl⟩
    rw [Db.mail?, hmails]
    refine (mail?_modify (fun _ => rfl) hm).trans ?_
    rw [if_pos (beq_self_eq_true m.id)]

/-- With every receipt there and due, closing what is due leaves no work. -/
theorem workRemains_closeAll {now : Timestamp} (outcome : ReceiptOutcome)
    (hall : t.unmaterialized m = []) (hdue : DueBy shift now m t) :
    (closeAll outcome (t.due m.id now) t).workRemains m = false := by
  refine workRemains_eq_false_iff.mpr fun r hr hevent heligible => ?_
  rw [(closeAll_frame _ _ _).2.1] at hr
  have hreceipt : t.hasReceipt m.id r.id = true := by
    refine Bool.not_eq_false _ |>.mp fun hnone => ?_
    have hmem := mem_unmaterialized.mpr ⟨hr, hevent, heligible, hnone⟩
    rw [hall] at hmem
    cases hmem
  obtain ⟨x, hx, hscheduler, hregistration⟩ := hasReceipt_iff.mp hreceipt
  refine (hasSent_closeAll outcome).mpr ?_
  cases hsent : x.mailSent with
  | true => exact .inl (hasSentReceipt_iff.mpr ⟨x, hx, hscheduler, hregistration, hsent⟩)
  | false =>
    exact .inr ⟨_, mem_due.mpr ⟨x, hx, r, hr, hregistration.symm, heligible, hscheduler, hsent,
      (hdue r hr hevent heligible).1 x hx hscheduler hregistration, rfl⟩, hregistration⟩

theorem row_drained (h : RowRun host caps scheduler s u deeds) (hm : m ∈ s.mails.rows)
    (hcopies : Copies m scheduler) (htemplate : m.templateRef ≠ none) :
    Drained host caps m s u deeds := by
  have htouches := touches_row h
  have hid := hcopies.id
  have hfound : s.mail? m.id = some m := mail?_eq_some hm
  cases h with
  | swept hnone => exact absurd (hcopies.templateRef.trans hnone) htemplate
  | @walked _ _ t event _ hmaterialize hevent =>
    obtain ⟨born, hmade⟩ := materializes_of_ok hmaterialize (hid ▸ hfound)
    obtain ⟨m₁, hm₁, hplan₁⟩ := mail?_materializes hmade hfound
    rw [← hid] at htouches ⊢
    generalize hv : closeAll (closing event host.now) (t.due m.id host.now) t = v at htouches ⊢
    have hregistrations : (completed host.now m.id v).registrations = t.registrations := by
      rw [(completed_frame _ _ _).2, ← hv, (closeAll_frame _ _ _).2.1]
    have hreceipts : ∀ b, (completed host.now m.id v).hasReceipt m.id b = t.hasReceipt m.id b := by
      intro b
      rw [Db.hasReceipt, (completed_frame _ _ _).1, ← Db.hasReceipt, ← hv, hasReceipt_closeAll]
    have hsent : ∀ b, (completed host.now m.id v).hasSentReceipt m.id b = v.hasSentReceipt m.id b :=
      hasSentReceipt_congr (completed_frame _ _ _).1 m.id
    have hleft : (completed host.now m.id v).unmaterialized m = t.unmaterialized m :=
      unmaterialized_congr hregistrations hreceipts
    have hv₁ : v.mail? m.id = some m₁ := by rw [← hv, Db.mail?, (closeAll_frame _ _ _).2.2]; exact hm₁
    obtain ⟨m₂, hm₂, hplan₂, hdone, harmed⟩ := mail?_completed host.now hv₁
    have hwork : (completed host.now m.id v).workRemains m = v.workRemains m :=
      workRemains_congr (completed_frame _ _ _).2 hsent
    have hmissing : v.unmaterialized m = t.unmaterialized m := by
      subst hv
      exact unmaterialized_congr (closeAll_frame _ _ _).2.1 (hasReceipt_closeAll _ _ _ m.id)
    refine ⟨htouches.events, htouches.registrations, fun r _ _ => ?_, fun p e now hover _ => ?_, ?_,
      fun last hdue => ?_, ⟨m₂, hm₂, hplan₂.trans hplan₁, ?_, fun hne => ?_⟩, fun hcap hdue => ?_⟩
    · rw [sentOf, hsent r.id, ← sentOf, ← hv, sentOf_closeAll, sentOf, hasSent_materializes hmade,
        ← sentOf, hid, deliveries_dealt]
    · obtain ⟨rfl, hended⟩ := over_of_dealt hover
      refine ⟨?_, hended⟩
      rw [hcopies.eventId, Db.event?, ← (touches_materialize hmaterialize).events, ← Db.event?]
      exact findEvent_eq_ok.mp hevent
    · rw [hleft, left_materializes hmade]
    · have hclosed : DueBy host.shift last m v :=
        hv ▸ dueBy_closeAll _ _ (dueBy_materializes hmade hdue)
      simpa only [DueBy, Db.hasReceipt, (completed_frame host.now m.id v).1,
        (completed_frame host.now m.id v).2] using hclosed
    · rw [hdone, workRemains_of_plan hplan₁, hwork]
    · refine harmed ?_
      rwa [unmaterialized_of_plan hplan₁, hmissing, ← hleft]
    · have hnone : t.unmaterialized m = [] :=
        List.eq_nil_of_length_eq_zero ((left_materializes hmade).trans (Nat.sub_eq_zero_of_le hcap))
      rw [hwork, ← hv]
      exact workRemains_closeAll _ hnone (dueBy_materializes hmade hdue)

end drained

end BackboneEvents.SchedulerConvergence
