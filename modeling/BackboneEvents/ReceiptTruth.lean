import BackboneEvents.ReceiptDeliveries
import BackboneEvents.SchedulerArming

/-!
# Receipt truth

A completed scheduler should have a sent receipt for every eligible registration of its
event. Completion is recomputed by the passes alone, so a call that makes a registration
eligible must re-open the schedulers of the event. A call that opens a row re-opens the
after_sub schedulers; schedulers of every other kind, and a row moved straight to `done`,
are re-opened by none.
-/
namespace BackboneEvents.ReceiptTruth
open ConstrainedTables TransactionPrograms GrandTotal GuardedRuns SchedulerArming
  ReceiptDeliveries

/-- Every eligible registration of a completed scheduler's event has a sent receipt. -/
def Truthful (s : Db) : Prop :=
  ∀ m ∈ s.mails.rows, m.mailDone = true → ∀ r ∈ s.registrations.rows, r.eventId = m.eventId →
    r.eligible = true → s.hasSentReceipt m.id r.id = true

/-- The foreign key of receipts on registrations. -/
def Anchored (s : Db) : Prop :=
  ∀ x ∈ s.mailRegistrations.rows, ∃ r ∈ s.registrations.rows, r.id = x.registrationId

/-- The stored registrations that the call makes eligible once it commits. -/
def entersDomain (s : Db) : Call → Registration → Bool
  | .register _ _, _ => false
  | .transition _ registrationId target _, r => r.id == registrationId && takesSeat r target
  | .seam c, r => s.seamInbox.accepts c.key && lifts c r

/-- The events that the call adds an eligible registration to once it commits. -/
def bornInto (s : Db) : Call → Uuid → Bool
  | .register _ cmd, e => e == cmd.eventId
  | .transition _ _ _ _, _ => false
  | .seam c, e => s.seamInbox.accepts c.key &&
    match c.verb with
    | .confirmed grandTotal specs =>
      grandTotalIsZero grandTotal && s.linked c.orderId == 0 && specs.any (·.eventId == e)
    | .cancelled => false
    | .paid _ => false

/-- A committed call leaves no completed scheduler closed over a registration it makes
eligible: the scheduler is an after_sub one that the call arms, or every registration the
call makes eligible for its event has its sent receipt already. -/
def Reopens (s : Db) (c : Call) : Prop :=
  ∀ a, c.answer s = .ok a → ∀ m ∈ s.mails.rows, m.mailDone = true →
    afterSubOf (armsFor s c) m = true ∨
    bornInto s c m.eventId = false ∧ ∀ r ∈ s.registrations.rows, r.eventId = m.eventId →
      entersDomain s c r = true → s.hasSentReceipt m.id r.id = true

section passes

variable {s t : Db}

/-- Steps that leave the registrations and every sent receipt, and complete schedulers
truthfully, keep receipt truth. -/
theorem Truthful.of_kept (h : Truthful s) (hrows : t.registrations = s.registrations)
    (hkeep : SentKept s t)
    (hmails : ∀ m' ∈ t.mails.rows, m'.mailDone = true → s.workRemains m' = false ∨
      ∃ m ∈ s.mails.rows, m.id = m'.id ∧ m.eventId = m'.eventId ∧ m.mailDone = true) :
    Truthful t := by
  intro m' hm' hdone r hr hevent heligible
  rw [hrows] at hr
  apply hkeep.hasSentReceipt
  rcases hmails m' hm' hdone with hnone | ⟨m, hm, hid, heq, hmdone⟩
  · exact workRemains_eq_false_iff.mp hnone r hr hevent heligible
  · exact hid ▸ h m hm hmdone r hr (hevent.trans heq.symm) heligible

theorem mails_touched {p : Mail → Bool} {f : Update Mail} {m' : Mail}
    (hf : ∀ m, (f m).id = m.id ∧ (f m).eventId = m.eventId ∧ (f m).mailDone = m.mailDone)
    (hm' : m' ∈ (s.mails.modify p f).rows) (hdone : m'.mailDone = true) :
    ∃ m ∈ s.mails.rows, m.id = m'.id ∧ m.eventId = m'.eventId ∧ m.mailDone = true := by
  obtain ⟨m, hm, rfl⟩ := Table.mem_modify.mp hm'
  refine ⟨m, hm, ?_⟩
  split at hdone
  · obtain ⟨hid, hevent, hsame⟩ := hf m
    simp_all
  · simp_all

theorem passEffect_registrations (h : PassEffect s t) : t.registrations = s.registrations := by
  cases h with
  | materialized h => exact (materialized_of_ok h).registrations
  | same | propagated | closed | touched | recomputed => rfl

/-- What a step of a pass leaves complete was complete, or has no work left. -/
theorem passEffect_mails (h : PassEffect s t) {m' : Mail} (hm' : m' ∈ t.mails.rows)
    (hdone : m'.mailDone = true) : s.workRemains m' = false ∨
      ∃ m ∈ s.mails.rows, m.id = m'.id ∧ m.eventId = m'.eventId ∧ m.mailDone = true := by
  cases h with
  | same | propagated | closed => exact .inr ⟨m', hm', rfl, rfl, hdone⟩
  | materialized h =>
    rcases (materialized_of_ok h).mails with hmails | ⟨schedulerId, last, hmails⟩
    · exact .inr ⟨m', hmails ▸ hm', rfl, rfl, hdone⟩
    · rw [hmails] at hm'
      exact .inr (mails_touched (fun _ => ⟨rfl, rfl, rfl⟩) hm' hdone)
  | touched p f keeps => exact .inr (mails_touched keeps hm' hdone)
  | recomputed schedulerId =>
    obtain ⟨m, hm, hm'⟩ := Table.mem_modify.mp hm'
    split at hm'
    · subst hm'
      left
      simpa [Mail.recomputed, Db.workRemains] using hdone
    · exact .inr ⟨m, hm, by rw [hm'], by rw [hm'], by rwa [hm']⟩

/-- No step of a pass breaks receipt truth. -/
theorem passEffect_truthful (h : PassEffect s t) (hs : Truthful s) : Truthful t :=
  hs.of_kept (passEffect_registrations h) (passEffect_sentKept h) fun _ => passEffect_mails h

theorem passEffect_anchored (h : PassEffect s t) (hs : Anchored s) : Anchored t := by
  intro x hx
  rw [passEffect_registrations h]
  cases h with
  | same | touched | recomputed => exact hs x hx
  | propagated limit scan => exact hs x (List.mem_filter.mp hx).1
  | materialized h =>
    obtain ⟨born, hrows, hborn⟩ := (materialized_of_ok h).receipts
    rw [hrows] at hx
    rcases List.mem_append.mp hx with hx | hx
    · exact hs x hx
    · exact (hborn x hx).2
  | closed outcome receiptId =>
    rcases mem_closeReceipt.mp hx with ⟨hx, -⟩ | ⟨y, hy, -, -, rfl⟩
    · exact hs x hx
    · exact hs y hy

end passes

section calls

variable {s t : Db} {c : Call} {a : Answer}

theorem rowStep_id {r r' : Registration} (h : c.RowStep r r') : r'.id = r.id := by cases h <;> rfl

theorem next_anchored (c : Call) (hs : Anchored s) : Anchored (s.next c) := by
  obtain ⟨t, rows, heffect, happly⟩ := c.apply_effect s
  intro x hx
  rw [next_mailRegistrations] at hx
  obtain ⟨r, hr, hid⟩ := hs x hx
  obtain ⟨image, born, hrows, himage, -⟩ := heffect.rows
  refine ⟨image r, ?_, (rowStep_id (himage r hr)).trans hid⟩
  rw [Db.next, happly, audited_registrations, hrows]
  exact List.mem_append_left _ (List.mem_map_of_mem hr)

/-- What a committed call does to the eligible set: the rows it brings in, and the rows it
is born with. -/
structure Enters (s t : Db) (c : Call) (image : Registration → Registration)
    (born : List Registration) : Prop where
  rows : t.registrations.rows = s.registrations.rows.map image ++ born
  keepsId : ∀ r ∈ s.registrations.rows, (image r).id = r.id
  keepsEvent : ∀ r ∈ s.registrations.rows, (image r).eventId = r.eventId
  entered : ∀ r ∈ s.registrations.rows, entersDomain s c r = true → (image r).eligible = true
  stayed : ∀ r ∈ s.registrations.rows, (image r).eligible = true →
    r.eligible = true ∨ entersDomain s c r = true
  bornEligible : ∀ e, bornInto s c e = born.any (fun r => r.eventId == e && r.eligible)

/-- A call that updates the rows under `p` and adds none. -/
theorem Enters.of_modify {p : Registration → Bool} {f : Update Registration}
    (hrows : t.registrations.rows = s.registrations.rows.map (fun r => if p r then f r else r))
    (hid : ∀ r, (f r).id = r.id) (hevent : ∀ r, (f r).eventId = r.eventId)
    (henter : ∀ r ∈ s.registrations.rows, entersDomain s c r = true →
      p r = true ∧ (f r).eligible = true)
    (hstay : ∀ r ∈ s.registrations.rows, p r = true → (f r).eligible = true →
      r.eligible = true ∨ entersDomain s c r = true)
    (hborn : ∀ e, bornInto s c e = false) :
    Enters s t c (fun r => if p r then f r else r) [] where
  rows := hrows.trans (List.append_nil _).symm
  keepsId r _ := by split <;> simp [hid]
  keepsEvent r _ := by split <;> simp [hevent]
  entered r hr h := by
    obtain ⟨hp, heligible⟩ := henter r hr h
    simpa [hp] using heligible
  stayed r hr h := by
    split at h
    · next hp => exact hstay r hr hp h
    · exact .inl h
  bornEligible e := by simp [hborn]

/-- A call that leaves the stored rows and adds some. -/
theorem Enters.of_born {born : List Registration}
    (hrows : t.registrations.rows = s.registrations.rows ++ born)
    (henter : ∀ r ∈ s.registrations.rows, entersDomain s c r = false)
    (hborn : ∀ e, bornInto s c e = born.any (fun r => r.eventId == e && r.eligible)) :
    Enters s t c id born where
  rows := by rw [List.map_id]; exact hrows
  keepsId _ _ := rfl
  keepsEvent _ _ := rfl
  entered r hr h := by simp [henter r hr] at h
  stayed _ _ h := .inl h
  bornEligible := hborn

/-- A further update that keeps the eligibility of rows. -/
theorem Enters.modify {image : Registration → Registration} {u : Db} {p : Registration → Bool}
    {f : Update Registration} (h : Enters s t c image [])
    (hrows : u.registrations.rows = t.registrations.rows.map (fun r => if p r then f r else r))
    (hid : ∀ r, (f r).id = r.id) (hevent : ∀ r, (f r).eventId = r.eventId)
    (heligible : ∀ r, (f r).eligible = r.eligible) :
    Enters s u c (fun r => if p (image r) then f (image r) else image r) [] where
  rows := by rw [hrows, h.rows, List.append_nil, List.append_nil, List.map_map]; rfl
  keepsId r hr := by split <;> simp [hid, h.keepsId r hr]
  keepsEvent r hr := by split <;> simp [hevent, h.keepsEvent r hr]
  entered r hr henter := by split <;> simp [heligible, h.entered r hr henter]
  stayed r hr hin := by
    refine h.stayed r hr ?_
    split at hin
    · rwa [heligible] at hin
    · exact hin
  bornEligible := h.bornEligible

theorem enters_of_run (h : c.program.run s = .ok (a, t)) : ∃ image born, Enters s t c image born := by
  cases Call.effect_of_run h with
  | refused hrefused => rw [h] at hrefused; cases hrefused
  | @replayed c _ hclaimed =>
    refine ⟨id, [], .of_born (List.append_nil _).symm ?_ ?_⟩
    · simp [entersDomain, hclaimed]
    · simp [bornInto, hclaimed]
  | @registered env cmd _ event slotId admitted room fits =>
    simp only [insertable, Bool.and_eq_true] at fits
    refine ⟨id, _, .of_born (Table.rows_push fits.2) (fun _ _ => rfl) fun e => ?_⟩
    simp [bornInto, bornRow, Registration.eligible, BEq.comm (a := e)]
  | @transitioned env r target actor _ found seat =>
    have hr := (registration?_mem found).1
    refine ⟨_, [], .of_modify rfl (fun _ => rfl) (fun _ => rfl) ?_ ?_ fun _ => rfl⟩
    · intro x _ henter
      simp only [entersDomain, takesSeat, Bool.and_eq_true, Bool.or_eq_true, beq_iff_eq] at henter
      simp [Registration.eligible, henter.1, henter.2.1.1, henter.2.1.2]
    · intro x _ hid heligible
      cases hx : x.eligible with
      | true => exact .inl rfl
      | false =>
        right
        simp only [Registration.eligible, moved_state, moved_active, Bool.and_eq_true] at heligible
        have hout : x.outside = true := by
          cases hstate : x.state <;>
            simp_all [Registration.eligible, Registration.outside]
        simp_all [entersDomain, takesSeat]
  | @minted c _ _ grandTotal specs verb fresh unlinked mint =>
    obtain ⟨born, hrows, hevents, hborn⟩ := minted_rows mint
    refine ⟨id, born, .of_born hrows (fun r hr => ?_) fun e => ?_⟩
    · have hlinked : r.ofOrder c.orderId = false := by
        simpa using List.countP_eq_zero.mp unlinked r hr
      simp [entersDomain, lifts, verb, freeHeals, hlinked]
    · have heligible : ∀ r ∈ born, r.eligible = grandTotalIsZero grandTotal := fun r hr => by
        obtain ⟨hstate, hactive, -, -⟩ := hborn r hr
        cases hfree : grandTotalIsZero grandTotal <;>
          simp [Registration.eligible, hstate, hactive, bornLink, hfree]
      have hany : born.any (fun r => r.eventId == e && r.eligible) =
          (grandTotalIsZero grandTotal && born.any ((· == e) ∘ (·.eventId))) := by
        rw [List.and_any_distrib_left]
        exact any_congr fun r hr => by simp [heligible r hr, Bool.and_comm]
      rw [hany, ← List.any_map, hevents, List.any_map]
      simp [bornInto, fresh, verb, unlinked, Function.comp_def]
  | @freeHealed c _ _ _ verb fresh linked free =>
    refine ⟨_, [], .of_modify rfl (fun _ => rfl) (fun _ => rfl) (fun r _ h => ?_) ?_ ?_⟩
    · have hp : freeHeals c.orderId r = true := by
        simpa [entersDomain, lifts, verb, free, fresh] using h
      have hactive := hp
      simp only [freeHeals, Bool.and_eq_true] at hactive
      exact ⟨hp, by simp [Registration.eligible, Registration.freeHealed, hactive.2]⟩
    · exact fun r _ hp _ => .inr (by simp [entersDomain, lifts, verb, free, fresh, hp])
    · simp [bornInto, verb, linked]
  | @heldBack c _ _ _ verb fresh linked paid =>
    refine ⟨_, [], .of_modify rfl (fun _ => rfl) (fun _ => rfl) ?_ ?_ ?_⟩
    · simp [entersDomain, lifts, verb, paid]
    · exact fun r _ _ h => .inl h
    · simp [bornInto, verb, paid]
  | @cancelled c _ verb fresh =>
    refine ⟨_, [], .of_modify rfl (fun _ => rfl) (fun _ => rfl) ?_ ?_ ?_⟩
    · simp [entersDomain, lifts, verb]
    · exact fun r _ _ h => by simp [Registration.eligible, Registration.orderCancelled] at h
    · simp [bornInto, verb]
  | @paid c _ lineIds verb fresh =>
    have hhealed : Enters s { s with
        registrations := s.registrations.modify (paidHeals c.orderId) Registration.paidHealed }
        (.seam c) (fun r => if paidHeals c.orderId r then Registration.paidHealed r else r) [] := by
      refine .of_modify rfl (fun _ => rfl) (fun _ => rfl) (fun r _ h => ?_) ?_ ?_
      · have hp : paidHeals c.orderId r = true := by
          simpa [entersDomain, lifts, verb, fresh] using h
        have hactive := hp
        simp only [paidHeals, Bool.and_eq_true] at hactive
        exact ⟨hp, by simp [Registration.eligible, Registration.paidHealed, hactive.2]⟩
      · exact fun r _ hp _ => .inr (by simp [entersDomain, lifts, verb, fresh, hp])
      · simp [bornInto, verb]
    exact ⟨_, [], hhealed.modify rfl (fun _ => rfl) (fun _ => rfl) fun _ => rfl⟩

/-- Rows are born with ids that no receipt refers to. -/
theorem hasSentReceipt_born {image : Registration → Registration} {born : List Registration}
    {r : Registration} (h : Enters s t c image born) (hs : Anchored s) (hr : r ∈ born)
    (schedulerId : Uuid) : s.hasSentReceipt schedulerId r.id = false := by
  rw [← Bool.not_eq_true, hasSentReceipt_iff]
  rintro ⟨x, hx, -, hid, -⟩
  obtain ⟨r', hr', hid'⟩ := hs x hx
  have hnodup := t.registrations.nodup
  rw [h.rows, List.nodup_append] at hnodup
  refine hnodup.2.2 (image r') (List.mem_map_of_mem hr') r hr ?_
  exact registration_eq_of_id (s := t) (by simp [h.rows, List.mem_map_of_mem hr'])
    (by simp [h.rows, hr]) ((h.keepsId r' hr').trans (hid'.trans hid))

/-- A committed call keeps receipt truth exactly when it re-opens what it makes stale. -/
theorem truthful_of_run (h : c.program.run s = .ok (a, t)) (hs : Truthful s) (hanchored : Anchored s)
    (hreceipts : t.mailRegistrations = s.mailRegistrations) :
    Truthful t ↔ ∀ m ∈ s.mails.rows, m.mailDone = true →
      afterSubOf (armsFor s c) m = true ∨
      bornInto s c m.eventId = false ∧ ∀ r ∈ s.registrations.rows, r.eventId = m.eventId →
        entersDomain s c r = true → s.hasSentReceipt m.id r.id = true := by
  obtain ⟨image, born, henters⟩ := enters_of_run h
  have hmails := mails_of_run h
  have hsent : ∀ i j, t.hasSentReceipt i j = s.hasSentReceipt i j := fun i j => by
    simp only [Db.hasSentReceipt, hreceipts]
  constructor
  · intro ht m hm hdone
    cases harm : afterSubOf (armsFor s c) m with
    | true => exact .inl rfl
    | false =>
      have hm' : m ∈ t.mails.rows := by
        rw [hmails]
        exact Table.mem_modify.mpr ⟨m, hm, by simp [harm]⟩
      refine .inr ⟨?_, fun r hr hevent henter => ?_⟩
      · rw [henters.bornEligible]
        refine List.any_eq_false.mpr fun r hr heligible => ?_
        simp only [Bool.and_eq_true, beq_iff_eq] at heligible
        have htrue := ht m hm' hdone r (by simp [henters.rows, hr]) heligible.1 heligible.2
        rw [hsent, hasSentReceipt_born henters hanchored hr] at htrue
        cases htrue
      · have himage : image r ∈ t.registrations.rows := by
          simp [henters.rows, List.mem_map_of_mem hr]
        have htrue := ht m hm' hdone (image r) himage
          ((henters.keepsEvent r hr).trans hevent) (henters.entered r hr henter)
        rwa [hsent, henters.keepsId r hr] at htrue
  · intro hreopens m' hm' hdone r' hr' hevent heligible
    rw [hmails] at hm'
    obtain ⟨m, hm, rfl⟩ := Table.mem_modify.mp hm'
    cases harm : afterSubOf (armsFor s c) m with
    | true => simp [harm, Mail.armed] at hdone
    | false =>
      simp only [harm, Bool.false_eq_true, if_false] at hdone hevent ⊢
      rcases hreopens m hm hdone with harm' | ⟨hborn, hstored⟩
      · rw [harm] at harm'
        cases harm'
      rw [henters.rows] at hr'
      rcases List.mem_append.mp hr' with hr' | hr'
      · obtain ⟨r, hr, rfl⟩ := List.mem_map.mp hr'
        rw [henters.keepsEvent r hr] at hevent
        rw [hsent, henters.keepsId r hr]
        rcases henters.stayed r hr heligible with hbefore | henter
        · exact hs m hm hdone r hr hevent hbefore
        · exact hstored r hr hevent henter
      · rw [henters.bornEligible, List.any_eq_false] at hborn
        exact absurd (by simp [hevent, heligible]) (hborn r' hr')

theorem truthful_audited {rows : List AuditRow} : Truthful (s.audited rows) ↔ Truthful s := Iff.rfl

/-- One call keeps receipt truth exactly when it re-opens what it makes stale. -/
theorem truthful_next (hs : Truthful s) (hanchored : Anchored s) :
    Truthful (s.next c) ↔ Reopens s c := by
  cases hanswer : c.answer s with
  | error e =>
    rw [Db.next, Call.apply_of_refused hanswer, truthful_audited]
    exact iff_of_true hs fun a ha => by rw [hanswer] at ha; cases ha
  | ok a =>
    obtain ⟨t, rows, hrun, happly⟩ := Call.apply_of_answer hanswer
    have hreceipts := effect_mailRegistrations (Call.effect_of_run hrun)
    rw [Db.next, happly, truthful_audited, truthful_of_run hrun hs hanchored hreceipts]
    exact ⟨fun h _ _ => h, fun h => h a hanswer⟩

end calls

section runs

variable {ι : Type} [DecidableEq ι]

/-- The condition on one step: passes have none. -/
def Reopening (w : World ι) : Act ι → Prop
  | .verb c => Reopens w.db c
  | .runDueSchedulers _ _ | .runSchedulerById _ _ _ | .turn _ _ | .crash _ => True

theorem enter_db (w : World ι) (i : ι) (caps : Caps) (point : Point) :
    (w.enter i caps point).db = w.db := by
  simp only [World.enter]
  split <;> rfl

theorem anchored_step (w : World ι) (a : Act ι) (h : Anchored w.db) : Anchored (w.next a).db := by
  cases a with
  | verb c => exact next_anchored c h
  | runDueSchedulers i caps => rwa [World.next, enter_db]
  | runSchedulerById i caps schedulerId => rwa [World.next, enter_db]
  | turn i tick => exact passEffect_anchored (Pass.turn_effect _ _ _) h
  | crash i => exact h

theorem truthful_step (w : World ι) (a : Act ι) (hanchored : Anchored w.db)
    (h : Truthful w.db) : Truthful (w.next a).db ↔ Reopening w a := by
  cases a with
  | verb c => exact truthful_next h hanchored
  | runDueSchedulers i caps => rw [World.next, enter_db]; exact iff_of_true h trivial
  | runSchedulerById i caps schedulerId => rw [World.next, enter_db]; exact iff_of_true h trivial
  | turn i tick => exact iff_of_true (passEffect_truthful (Pass.turn_effect _ _ _) h) trivial
  | crash i => exact iff_of_true h trivial

/-- Completion tells the truth in every state of a run exactly when every committed verb
re-opens the completed schedulers it makes stale. The passes never break it. -/
theorem truthful_throughout_iff {s : Db} (hs : Truthful s) (hanchored : Anchored s)
    (acts : List (Act ι)) :
    Throughout World.next (fun w => Truthful w.db) (World.start s) acts ↔
      Along World.next Reopening (World.start s) acts :=
  throughout_iff_along_of hanchored hs anchored_step truthful_step

end runs

instance decidableTruthful (s : Db) : Decidable (Truthful s) :=
  inferInstanceAs (Decidable (∀ m ∈ s.mails.rows, m.mailDone = true →
    ∀ r ∈ s.registrations.rows, r.eventId = m.eventId → r.eligible = true →
      s.hasSentReceipt m.id r.id = true))

instance decidableAnchored (s : Db) : Decidable (Anchored s) :=
  inferInstanceAs (Decidable (∀ x ∈ s.mailRegistrations.rows,
    ∃ r ∈ s.registrations.rows, r.id = x.registrationId))

section losses

/-- The scheduler is stored as complete, and has sent nothing to the eligible registration. -/
def Lost (s : Db) (schedulerId registrationId : Uuid) : Prop :=
  ∃ m ∈ s.mails.rows, m.id = schedulerId ∧ m.mailDone = true ∧
    ∃ r ∈ s.registrations.rows, r.id = registrationId ∧ r.eventId = m.eventId ∧
      r.eligible = true ∧ s.hasSentReceipt schedulerId registrationId = false

variable {ι : Type}

def isVerb : Act ι → Bool
  | .verb _ => true
  | .runDueSchedulers _ _ | .runSchedulerById _ _ _ | .turn _ _ | .crash _ => false

variable {s t : Db} {w : World ι} {schedulerId registrationId : Uuid}

/-- What is lost after a step of a pass was lost before it. -/
theorem passEffect_lost (h : PassEffect s t) (hlost : Lost t schedulerId registrationId) :
    Lost s schedulerId registrationId := by
  obtain ⟨m', hm', rfl, hdone, r, hr, rfl, hevent, heligible, hunsent⟩ := hlost
  rw [passEffect_registrations h] at hr
  have hbefore : s.hasSentReceipt m'.id r.id = false := by
    by_contra hsent
    rw [(passEffect_sentKept h).hasSentReceipt (by simpa using hsent)] at hunsent
    cases hunsent
  rcases passEffect_mails h hm' hdone with hnone | ⟨m, hm, hid, heq, hmdone⟩
  · rw [workRemains_eq_false_iff.mp hnone r hr hevent heligible] at hbefore
    cases hbefore
  · exact ⟨m, hm, hid, hmdone, r, hr, rfl, hevent.trans heq.symm, heligible, hbefore⟩

variable [DecidableEq ι]

theorem lost_step {a : Act ι} (ha : isVerb a = false)
    (h : Lost (w.next a).db schedulerId registrationId) : Lost w.db schedulerId registrationId := by
  cases a with
  | verb c => cases ha
  | runDueSchedulers i caps => rwa [World.next, enter_db] at h
  | runSchedulerById i caps id => rwa [World.next, enter_db] at h
  | turn i tick => exact passEffect_lost (Pass.turn_effect _ _ _) h
  | crash i => exact h

theorem reopening_of_passes {acts : List (Act ι)} (h : ∀ a ∈ acts, isVerb a = false) :
    Along World.next Reopening w acts := by
  induction acts generalizing w with
  | nil => trivial
  | cons a acts ih =>
    refine ⟨?_, ih fun b hb => h b (List.mem_cons_of_mem a hb)⟩
    have ha := h a List.mem_cons_self
    cases a with
    | verb c => cases ha
    | runDueSchedulers | runSchedulerById | turn | crash => trivial

/-- (a) While passes do not overlap, each scheduler and registration see at most one
successful enqueue. (b) In any interleaving, with crashes anywhere: there is one receipt for
each scheduler and registration; every sent receipt is justified, and stays as it is; no step
of a pass and no crash loses a message; and while the verbs re-open the schedulers they make
stale, no message is lost at all: a scheduler stored as complete has sent a justified receipt
to every eligible registration. -/
theorem receipts_delivered (s : Db) (acts : List (Act ι)) :
    (Along World.next Serial (World.start s) acts →
      Throughout World.next (fun w => ∀ a b, sends w.deeds a b ≤ 1) (World.start s) acts) ∧
    Throughout World.next (fun w =>
      (∀ a b, w.db.mailRegistrations.count
        (fun x => x.schedulerId == a && x.registrationId == b) ≤ 1) ∧
      ∀ x ∈ w.db.mailRegistrations.rows, x.mailSent = true → Justified s w x)
      (World.start s) acts ∧
    Steadily World.next (fun w w' => SentKept w.db w'.db) (World.start s) acts ∧
    Along World.next (fun w a => isVerb a = false →
      ∀ m r, Lost (w.next a).db m r → Lost w.db m r) (World.start s) acts ∧
    (Truthful s → Anchored s → Along World.next Reopening (World.start s) acts →
      Throughout World.next (fun w => ∀ m ∈ w.db.mails.rows, ∀ r ∈ w.db.registrations.rows,
        r.eventId = m.eventId → r.eligible = true → m.mailDone = false ∨
          ∃ x ∈ w.db.mailRegistrations.rows, x.schedulerId = m.id ∧ x.registrationId = r.id ∧
            x.mailSent = true ∧ Justified s w x) (World.start s) acts) := by
  have hrun : Throughout World.next (Accounted s) (World.start s) acts :=
    throughout_of_step accounted_start fun w a hw => hw.next a
  refine ⟨fun h => ?_, ?_, ?_, ?_, fun hs hanchored halong => ?_⟩
  · refine (h.throughout serially_start fun w a hw => hw.next a).mono fun w hw => hw.once
  · refine hrun.mono fun w hw => ⟨fun a b => ?_, hw.sent⟩
    refine Table.count_le_one fun x y hx hy => ?_
    simp only [Bool.and_eq_true, beq_iff_eq] at hx hy
    simp [clash, hx.1, hx.2, hy.1, hy.2]
  · exact steadily_of_step (fun w x hx _ => hx) (fun _ _ _ => SentKept.trans) next_sentKept
  · exact along_of_forall fun w a ha m r => lost_step ha
  · have htruth : Throughout World.next (fun w => Anchored w.db ∧ Truthful w.db) (World.start s)
        acts := halong.throughout ⟨hanchored, hs⟩ fun w a hw ha =>
      ⟨anchored_step w a hw.1, (truthful_step w a hw.1 hw.2).mpr ha⟩
    intro before after hsplit m hm r hr hevent heligible
    cases hdone : m.mailDone with
    | false => exact .inl rfl
    | true =>
      have hsent := (htruth before after hsplit).2 m hm hdone r hr hevent heligible
      obtain ⟨x, hx, hscheduler, hregistration, hxsent⟩ := hasSentReceipt_iff.mp hsent
      have hjustified := (hrun before after hsplit).sent x hx hxsent
      exact .inr ⟨x, hx, hscheduler, hregistration, hxsent, hjustified⟩

/-- One pass from the claim to its summary, with a second attendee in between. -/
def noticeRun : List (Act (Fin 2)) :=
  .runDueSchedulers 0 .default :: List.replicate 8 (.turn 0 .accepting) ++
    .verb (.register (.counting 2) ann) :: List.replicate 5 (.turn 0 .accepting) ++
    [.runSchedulerById 1 .default 1, .turn 1 .accepting]

instance decidableSerial {n : ℕ} (w : World (Fin n)) : ∀ a, Decidable (Serial w a)
  | .verb _ => isTrue trivial
  | .turn _ _ => isTrue trivial
  | .runDueSchedulers _ _ =>
    inferInstanceAs (Decidable (∀ i, (w.passes i).isRunning = false))
  | .runSchedulerById _ _ _ =>
    inferInstanceAs (Decidable (∀ i, (w.passes i).isRunning = false))
  | .crash i => inferInstanceAs (Decidable (flips (w.passes i) = none))

/-- Two passes in step; the first crashes between its enqueue and the flip. Then a second attendee
registers. -/
def crashInStep : List (Act (Fin 2)) :=
  .runDueSchedulers 0 .default :: .runDueSchedulers 1 .default ::
    (List.replicate 8 [Act.turn (0 : Fin 2) .accepting, .turn 1 .accepting]).flatten ++
      .crash 0 :: List.replicate 5 (.turn 1 .accepting)

theorem receipts_delivered_notice :
    Throughout World.next (fun w => ∀ a b, sends w.deeds a b ≤ 1) (World.start notice) noticeRun ∧
    Throughout World.next (fun w => ∀ m ∈ w.db.mails.rows, ∀ r ∈ w.db.registrations.rows,
      r.eventId = m.eventId → r.eligible = true → m.mailDone = false ∨
        ∃ x ∈ w.db.mailRegistrations.rows, x.schedulerId = m.id ∧ x.registrationId = r.id ∧
          x.mailSent = true ∧ Justified notice w x) (World.start notice)
      (crashInStep ++ [.verb (.register (.counting 2) ann)]) :=
  ⟨(receipts_delivered notice noticeRun).1 (by decide),
    (receipts_delivered notice _).2.2.2.2 (by decide) (by decide) (along_append.mpr
      ⟨reopening_of_passes (by decide), fun _ _ => by decide, trivial⟩)⟩

end losses

section sample

/-- One officer run of the scheduler, then a second attendee. -/
def secondAttendee : List (Act (Fin 1)) :=
  .runSchedulerById 0 .default 1 :: List.replicate 12 (.turn 0 .accepting) ++
    [.verb (.register (.counting 2) ann)]

theorem truthful_throughout_iff_notice :
    Throughout World.next (fun w => Truthful w.db) (World.start notice) secondAttendee := by
  refine (truthful_throughout_iff (by decide) (by decide) _).mpr
    (along_append.mpr ⟨?_, ⟨fun _ _ => by decide, trivial⟩⟩)
  exact ⟨trivial, trivial, trivial, trivial, trivial, trivial, trivial, trivial, trivial, trivial,
    trivial, trivial, trivial, trivial⟩

/-- The gig with a before_event scheduler and no attendee yet. -/
def reminder : Db :=
  { openGig with mails := Table.empty.push { gigScheduler with intervalKind := .beforeEvent } }

/-- The officer run completes the scheduler; then the first attendee registers. -/
def lateRegistrant : List (Act (Fin 1)) :=
  .runSchedulerById 0 .default 1 :: List.replicate 8 (.turn 0 .accepting) ++
    [.verb (.register (.counting 1) ann)]

theorem lateRegistrant_unmailed :
    Truthful reminder ∧ Anchored reminder ∧
    (lateRegistrant.foldl World.next (World.start reminder)).db.mails.rows.map
      (fun m => (m.mailDone, m.scheduledDate)) = [(true, some 0)] ∧
    (lateRegistrant.foldl World.next (World.start reminder)).db.registrations.rows.map
      Registration.eligible = [true] ∧
    (lateRegistrant.foldl World.next (World.start reminder)).db.mailRegistrations.rows = [] ∧
    ¬ Throughout World.next (fun w => Truthful w.db) (World.start reminder) lateRegistrant :=
  ⟨by decide, by decide, by decide, by decide, by decide, fun h => absurd h.last (by decide)⟩

end sample

end BackboneEvents.ReceiptTruth
