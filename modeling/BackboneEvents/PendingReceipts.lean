import BackboneEvents.ReceiptTruth
import BackboneEvents.SchedulerRows

/-!
# Pending receipts and cancelled registrations

The propagation deletes the unsent receipts of registrations in state `cancel`. Receipts are
only made for eligible registrations, but a registration can leave eligibility otherwise: a
state verb takes it back to `draft`, or it is archived. The receipts it has pending then stay.
-/
namespace BackboneEvents.PendingReceipts
open ConstrainedTables TransactionPrograms GuardedRuns ReceiptTruth ReceiptDeliveries

/-- The archive flag, which no verb of the registration writes. -/
def Registration.flagged (active : Bool) : Update Registration where
  toFun r := { r with active := active }
  keeps _ _ := rfl

def Db.setActive (s : Db) (registrationId : Uuid) (active : Bool) : Db :=
  { s with
    registrations := s.registrations.modify (·.id == registrationId) (Registration.flagged active) }

/-- A verb, a step of a pass, or a write of the archive flag. -/
inductive Move (ι : Type) where
  | act (a : Act ι)
  | setActive (registrationId : Uuid) (active : Bool)

def next {ι : Type} [DecidableEq ι] (w : World ι) : Move ι → World ι
  | .act a => w.next a
  | .setActive registrationId active => { w with db := Db.setActive w.db registrationId active }

def Db.pending (s : Db) : ℕ := s.mailRegistrations.count (!·.mailSent)

/-- The registration has an unsent receipt. -/
def Db.awaits (s : Db) (registrationId : Uuid) : Bool :=
  s.mailRegistrations.rows.any (fun x => x.registrationId == registrationId && !x.mailSent)

/-- A propagation whose limit covers the pending receipts leaves an unsent receipt to eligible
registrations only, keeps every sent receipt and every unsent one of an eligible registration,
and answers the number of receipts it removed. -/
def PropagatesExactly (s : Db) : Prop :=
  ∀ (limit : ℕ) (scan : Uuid → ℕ), Db.pending s ≤ limit → ∀ n t,
    propagateCancellations limit scan s = (n, t) →
    (∀ x ∈ t.mailRegistrations.rows, x.mailSent = false → ∀ r ∈ t.registrations.rows,
      r.id = x.registrationId → r.eligible = true) ∧
    (∀ x ∈ s.mailRegistrations.rows, x.mailSent = true → x ∈ t.mailRegistrations.rows) ∧
    (∀ x ∈ s.mailRegistrations.rows, x.mailSent = false → ∀ r ∈ s.registrations.rows,
      r.id = x.registrationId → r.eligible = true → x ∈ t.mailRegistrations.rows) ∧
    t.mailRegistrations.rows.length + n = s.mailRegistrations.rows.length

/-- Every registration with an unsent receipt is eligible or cancelled. -/
def Settled (s : Db) : Prop :=
  ∀ r ∈ s.registrations.rows, Db.awaits s r.id = true → r.eligible = true ∨ r.state = .cancel

/-- A verb back to `draft` of a registration with an unsent receipt, a verb to `open` or `done`
of an archived one, or the archiving of one that is not cancelled. -/
def strands (s : Db) {ι : Type} : Move ι → Bool
  | .act (.verb (.transition _ registrationId target _)) =>
    s.registrations.rows.any (fun r => r.id == registrationId && Db.awaits s r.id &&
      (target == .draft || target != .cancel && !r.active))
  | .setActive registrationId active =>
    s.registrations.rows.any (fun r => r.id == registrationId && Db.awaits s r.id &&
      r.state != .cancel && !active)
  | .act _ => false

section propagation

variable {s : Db}

theorem awaits_iff {registrationId : Uuid} : Db.awaits s registrationId = true ↔
    ∃ x ∈ s.mailRegistrations.rows, x.registrationId = registrationId ∧ x.mailSent = false := by
  simp [Db.awaits]

theorem moot_iff {x : MailRegistration} : s.moot x = true ↔ x.mailSent = false ∧
    ∃ r ∈ s.registrations.rows, r.id = x.registrationId ∧ r.state = .cancel := by
  simp only [Db.moot, Bool.and_eq_true, Bool.not_eq_true', Option.any_eq_true, beq_iff_eq]
  refine and_congr_right fun _ => ⟨?_, ?_⟩
  · rintro ⟨r, hr, hstate⟩
    obtain ⟨hmem, hid⟩ := registration?_mem hr
    exact ⟨r, hmem, hid, hstate⟩
  · rintro ⟨r, hr, hid, hstate⟩
    exact ⟨r, hid ▸ registration?_eq_some hr, hstate⟩

theorem length_moot_le : (s.mailRegistrations.rows.filter s.moot).length ≤ Db.pending s := by
  rw [Db.pending, Table.count, ← List.countP_eq_length_filter]
  refine List.countP_mono_left fun x _ hx => ?_
  simp [(moot_iff.mp hx).1]

/-- Under a sufficient limit the receipts deleted are all the moot ones. -/
theorem propagate_eq {limit : ℕ} (scan : Uuid → ℕ) (h : Db.pending s ≤ limit) :
    (propagateCancellations limit scan s).1 = s.mailRegistrations.count s.moot ∧
    (propagateCancellations limit scan s).2.mailRegistrations = s.mailRegistrations.remove s.moot ∧
    (propagateCancellations limit scan s).2.registrations = s.registrations := by
  have hlength : (scanned scan MailRegistration.id
      (s.mailRegistrations.rows.filter s.moot)).length = s.mailRegistrations.count s.moot := by
    rw [scanned, List.length_insertionSort, Table.count, List.countP_eq_length_filter]
  have hall : (scanned scan MailRegistration.id (s.mailRegistrations.rows.filter s.moot)).take
      limit = scanned scan MailRegistration.id (s.mailRegistrations.rows.filter s.moot) := by
    refine List.take_of_length_le ?_
    rw [hlength, Table.count, List.countP_eq_length_filter]
    exact length_moot_le.trans h
  refine ⟨?_, ?_, rfl⟩
  · simp only [propagateCancellations, hall, hlength]
  · simp only [propagateCancellations, hall]
    apply Table.ext
    refine List.filter_congr fun x hx => congrArg _ (Bool.eq_iff_iff.mpr ?_)
    simp only [scanned, List.any_eq_true, List.mem_insertionSort, List.mem_filter, beq_iff_eq]
    constructor
    · rintro ⟨y, ⟨hy, hmoot⟩, hid⟩
      rwa [← receipt_eq_of_id hy hx hid]
    · intro hmoot
      exact ⟨x, ⟨hx, hmoot⟩, rfl⟩

theorem propagatesExactly_iff : PropagatesExactly s ↔ Settled s := by
  constructor
  · intro h r hr hawaits
    obtain ⟨x, hx, hid, hsent⟩ := awaits_iff.mp hawaits
    by_contra hneither
    rw [not_or] at hneither
    obtain ⟨-, hrows, hsame⟩ := propagate_eq (s := s) (fun _ => 0) le_rfl
    have hkept : x ∈ (s.mailRegistrations.remove s.moot).rows := by
      refine List.mem_filter.mpr ⟨hx, ?_⟩
      rw [Bool.not_eq_true', ← Bool.not_eq_true, moot_iff]
      rintro ⟨-, r', hr', hid', hcancel⟩
      obtain rfl := registration_eq_of_id hr' hr (hid'.trans hid)
      exact hneither.2 hcancel
    exact hneither.1 ((h _ _ le_rfl _ _ rfl).1 x (hrows ▸ hkept) hsent r (hsame ▸ hr) hid.symm)
  · intro h limit scan hlimit n t hrun
    obtain ⟨hn, hrows, hsame⟩ := propagate_eq scan hlimit
    rw [hrun] at hn hrows hsame
    dsimp only at hn hrows hsame
    rw [hn, hrows, hsame, Table.rows_remove]
    refine ⟨fun x hx hsent r hr hid => ?_, fun x hx hsent => ?_,
      fun x hx hsent r hr hid heligible => ?_, ?_⟩
    · obtain ⟨hx, hmoot⟩ := List.mem_filter.mp hx
      rcases h r hr (awaits_iff.mpr ⟨x, hx, hid.symm, hsent⟩) with heligible | hcancel
      · exact heligible
      · rw [Bool.not_eq_true', ← Bool.not_eq_true, moot_iff] at hmoot
        exact absurd ⟨hsent, r, hr, hid, hcancel⟩ hmoot
    · refine List.mem_filter.mpr ⟨hx, ?_⟩
      simp [Db.moot, hsent]
    · refine List.mem_filter.mpr ⟨hx, ?_⟩
      rw [Bool.not_eq_true', ← Bool.not_eq_true, moot_iff]
      rintro ⟨-, r', hr', hid', hcancel⟩
      obtain rfl := registration_eq_of_id hr' hr (hid'.trans hid.symm)
      simp [Registration.eligible, hcancel] at heligible
    · have hsplit := List.length_eq_length_filter_add (l := s.mailRegistrations.rows) s.moot
      rw [Table.count, List.countP_eq_length_filter, hsplit]
      exact Nat.add_comm _ _

end propagation

section passes

variable {s t : Db}

/-- Registrations and further unsent receipts of eligible ones keep what is settled. -/
theorem Settled.of_receipts (h : Settled s) (hrows : t.registrations = s.registrations)
    (hreceipts : ∀ x ∈ t.mailRegistrations.rows, x.mailSent = false →
      x ∈ s.mailRegistrations.rows ∨
        ∃ r ∈ s.registrations.rows, r.id = x.registrationId ∧ r.eligible = true) : Settled t := by
  intro r hr hawaits
  rw [hrows] at hr
  obtain ⟨x, hx, hid, hsent⟩ := awaits_iff.mp hawaits
  rcases hreceipts x hx hsent with hx | ⟨r', hr', hid', heligible⟩
  · exact h r hr (awaits_iff.mpr ⟨x, hx, hid, hsent⟩)
  · obtain rfl := registration_eq_of_id hr' hr (hid'.trans hid)
    exact .inl heligible

/-- A pass makes receipts for eligible registrations only. -/
theorem passEffect_settled (h : PassEffect s t) (hs : Settled s) : Settled t := by
  refine hs.of_receipts (passEffect_registrations h) fun x hx hsent => ?_
  cases h with
  | same | touched | recomputed => exact .inl hx
  | propagated limit scan => exact .inl (List.mem_filter.mp hx).1
  | closed outcome receiptId =>
    rcases mem_closeReceipt.mp hx with ⟨hx, -⟩ | ⟨y, -, -, -, rfl⟩
    · exact .inl hx
    · cases hsent
  | @materialized receiptId shift scheduler cap ids _ h =>
    cases hmail : s.mail? scheduler.id with
    | none =>
      simp only [materializeReceipts, hmail, Except.ok.injEq, Prod.mk.injEq] at h
      exact .inl (h.2 ▸ hx)
    | some m =>
      obtain ⟨born, hborn⟩ := SchedulerRounds.materializes_of_ok h hmail
      rw [hborn.receipts] at hx
      rcases List.mem_append.mp hx with hx | hx
      · exact .inl hx
      · obtain ⟨r, hr, hnew⟩ := exists_of_mem_mapM hborn.made x hx
        obtain ⟨hmem, -, heligible, -⟩ := SchedulerRounds.mem_missing hr
        exact .inr ⟨r, hmem, (newReceipt_eq_some hnew).2.1.symm, heligible⟩

end passes

section verbs

variable {s t : Db} {c : Call}

/-- A verb that takes a registration out of the settled states is a state verb to `draft`, or
one to `open` or `done` on an archived row. -/
theorem rowStep_settled {r r' : Registration} (h : c.RowStep r r')
    (hr : r.eligible = true ∨ r.state = .cancel) :
    (r'.eligible = true ∨ r'.state = .cancel) ∨ ∃ env target actor,
      c = .transition env r.id target actor ∧
        (target == .draft || target != .cancel && !r.active) = true := by
  cases h with
  | same => exact .inl hr
  | moved env r target actor =>
    cases hactive : r.active with
    | false =>
      cases target with
      | cancel => exact .inl (.inr rfl)
      | draft | «open» | done => exact .inr ⟨env, _, actor, rfl, rfl⟩
    | true =>
      cases target with
      | cancel => exact .inl (.inr rfl)
      | draft => exact .inr ⟨env, _, actor, rfl, rfl⟩
      | «open» | done => exact .inl (.inl (by simp [Registration.eligible, hactive]))
  | freeHealed verb free h =>
    simp only [freeHeals, Bool.and_eq_true] at h
    exact .inl (.inl (by simp [Registration.eligible, Registration.freeHealed, h.2]))
  | paidHealed verb h =>
    simp only [paidHeals, Bool.and_eq_true] at h
    exact .inl (.inl (by simp [Registration.eligible, Registration.paidHealed, h.2]))
  | orderCancelled => exact .inl (.inr rfl)
  | held | sold => exact .inl hr

theorem awaits_next (registrationId : Uuid) :
    Db.awaits (s.next c) registrationId = Db.awaits s registrationId := by
  rw [Db.awaits, next_mailRegistrations, Db.awaits]

/-- The registration behind a pending receipt was stored before the call. -/
theorem exists_image {r' : Registration} (hanchored : Anchored s)
    (hr' : r' ∈ (s.next c).registrations.rows) (hawaits : Db.awaits s r'.id = true) :
    ∃ r ∈ s.registrations.rows, r.id = r'.id ∧ c.RowStep r r' := by
  obtain ⟨t, rows, heffect, happly⟩ := c.apply_effect s
  obtain ⟨image, born, hrows, himage, -⟩ := heffect.rows
  obtain ⟨x, hx, hid, -⟩ := awaits_iff.mp hawaits
  obtain ⟨r, hr, hrx⟩ := hanchored x hx
  have hid' : r.id = r'.id := hrx.trans hid
  have hmem : image r ∈ (s.next c).registrations.rows := by
    rw [Db.next, happly, audited_registrations, hrows]
    exact List.mem_append_left _ (List.mem_map_of_mem hr)
  have hsame := registration_eq_of_id hmem hr' ((rowStep_id (himage r hr)).trans hid')
  exact ⟨r, hr, hid', hsame ▸ himage r hr⟩

/-- A state verb that takes no seat commits. -/
theorem next_transition (env : Env) {r : Registration} {target : RegistrationState}
    (actor : Option Uuid) (hr : r ∈ s.registrations.rows) (h : takesSeat r target = false) :
    Registration.moved env.now target r ∈
      (s.next (.transition env r.id target actor)).registrations.rows := by
  have hrun : (Call.transition env r.id target actor).program.run s =
      .ok (.moved r.state target r.active, s.transitioned env r target actor) := by
    simp [Call.program, Program.run_bind, run_transition_some, registration?_eq_some hr, h,
      Except.bind]
  rw [Db.next, Call.apply, execute_ok hrun, audited_registrations]
  exact Table.mem_modify.mpr ⟨r, hr, if_pos (by simp)⟩

/-- A verb leaves the pending receipts settled exactly when it strands none. -/
theorem settled_verb {ι : Type} (hanchored : Anchored s) (hs : Settled s) :
    Settled (s.next c) ↔ strands s (.act (.verb c) : Move ι) = false := by
  constructor
  · intro h
    cases c with
    | register | seam => rfl
    | transition env registrationId target actor =>
      refine List.any_eq_false.mpr fun r hr hstrands => ?_
      simp only [Bool.and_eq_true, beq_iff_eq] at hstrands
      obtain ⟨⟨rfl, hawaits⟩, htarget⟩ := hstrands
      have hseat : takesSeat r target = false := by
        cases target <;> simp_all [takesSeat]
      have hmoved := h _ (next_transition env actor hr hseat)
        (by rwa [awaits_next])
      cases target <;> simp_all [Registration.eligible]
  · intro h r' hr' hawaits
    rw [awaits_next] at hawaits
    obtain ⟨r, hr, hid, hstep⟩ := exists_image hanchored hr' hawaits
    rw [← hid] at hawaits
    rcases rowStep_settled hstep (hs r hr hawaits) with hsettled | ⟨env, target, actor, rfl, htarget⟩
    · exact hsettled
    · have hnone := List.any_eq_false.mp h r hr
      simp [hawaits, htarget] at hnone

theorem mem_setActive {registrationId : Uuid} {active : Bool} {r' : Registration} :
    r' ∈ (Db.setActive s registrationId active).registrations.rows ↔ ∃ r ∈ s.registrations.rows,
      (if r.id == registrationId then Registration.flagged active r else r) = r' :=
  Table.mem_modify

theorem settled_setActive {ι : Type} {registrationId : Uuid} {active : Bool} (hs : Settled s) :
    Settled (Db.setActive s registrationId active) ↔
      strands s (.setActive registrationId active : Move ι) = false := by
  constructor
  · intro h
    refine List.any_eq_false.mpr fun r hr hstrands => ?_
    simp only [Bool.and_eq_true, beq_iff_eq, bne_iff_ne, ne_eq, Bool.not_eq_true'] at hstrands
    obtain ⟨⟨⟨rfl, hawaits⟩, hstate⟩, rfl⟩ := hstrands
    rcases h _ (mem_setActive.mpr ⟨r, hr, if_pos (by simp)⟩) hawaits with heligible | hcancel
    · simp [Registration.eligible, Registration.flagged] at heligible
    · exact hstate hcancel
  · intro h r' hr' hawaits
    obtain ⟨r, hr, rfl⟩ := mem_setActive.mp hr'
    split at hawaits
    · next hid =>
      rw [if_pos hid]
      have hnone := List.any_eq_false.mp h r hr
      have hawaits' : Db.awaits s r.id = true := hawaits
      rcases hs r hr hawaits' with heligible | hcancel
      · refine (em (r.state = .cancel)).symm.imp (fun hstate => ?_) id
        simp_all [Registration.eligible, Registration.flagged]
      · exact .inr hcancel
    · next hid =>
      rw [if_neg hid]
      exact hs r hr hawaits

end verbs

section runs

variable {ι : Type} [DecidableEq ι]

theorem anchored_next (w : World ι) (m : Move ι) (h : Anchored w.db) : Anchored (next w m).db := by
  cases m with
  | act a => exact anchored_step w a h
  | setActive registrationId active =>
    intro x hx
    obtain ⟨r, hr, hid⟩ := h x hx
    refine ⟨_, mem_setActive.mpr ⟨r, hr, rfl⟩, ?_⟩
    split <;> exact hid

theorem settled_next (w : World ι) (m : Move ι) (hanchored : Anchored w.db) (h : Settled w.db) :
    Settled (next w m).db ↔ strands w.db m = false := by
  cases m with
  | setActive registrationId active => exact settled_setActive h
  | act a =>
    cases a with
    | verb c => exact settled_verb hanchored h
    | runDueSchedulers i caps => rw [next, World.next, enter_db]; exact iff_of_true h rfl
    | runSchedulerById i caps schedulerId =>
      rw [next, World.next, enter_db]
      exact iff_of_true h rfl
    | turn i tick => exact iff_of_true (passEffect_settled (Pass.turn_effect _ _ _) h) rfl
    | crash i => exact iff_of_true h rfl

/-- A propagation is exact in every state of a run exactly when it is at the start and no step
takes a registration with a pending receipt out of eligibility other than by cancelling it. -/
theorem propagation_throughout_iff {s : Db} (hanchored : Anchored s) (moves : List (Move ι)) :
    Throughout next (fun w => PropagatesExactly w.db) (World.start s) moves ↔
      Settled s ∧ Along next (fun w m => strands w.db m = false) (World.start s) moves := by
  have hrun : Settled s → (Throughout next (fun w => Settled w.db) (World.start s) moves ↔
      Along next (fun w m => strands w.db m = false) (World.start s) moves) := fun hs =>
    throughout_iff_along_of (show (fun w : World ι => Anchored w.db) (World.start s) from hanchored)
      hs anchored_next settled_next
  have hsettled : Throughout next (fun w => PropagatesExactly w.db) (World.start s) moves ↔
      Throughout next (fun w => Settled w.db) (World.start s) moves :=
    ⟨fun h => h.mono fun _ => propagatesExactly_iff.mp,
      fun h => h.mono fun _ => propagatesExactly_iff.mpr⟩
  rw [hsettled]
  constructor
  · intro h
    have hs : Settled s := h [] moves rfl
    exact ⟨hs, (hrun hs).mp h⟩
  · rintro ⟨hs, h⟩
    exact (hrun hs).mpr h

end runs

section sample

instance decidableSettled (s : Db) : Decidable (Settled s) :=
  inferInstanceAs (Decidable (∀ r ∈ s.registrations.rows, Db.awaits s r.id = true →
    r.eligible = true ∨ r.state = .cancel))

/-- An officer run whose mail queue refuses, then a move of the one attendee. -/
def refusedThenMoved (target : RegistrationState) : List (Move (Fin 1)) :=
  .act (.runSchedulerById 0 .default 1) ::
    List.replicate 12 (.act (.turn 0
      { Tick.accepting with queue := fun _ _ => .error (.validation "mailbox full") })) ++
    [.act (.verb (.transition (.counting 2) 1 target none))]

theorem propagation_throughout_iff_cancelled :
    Throughout next (fun w => PropagatesExactly w.db) (World.start notice)
      (refusedThenMoved .cancel) :=
  (propagation_throughout_iff (by decide) _).mpr ⟨by decide, by decide⟩

/-- The attendee is back in `draft`, nothing is deleted, and the receipt is still pending. -/
theorem backToDraft_keepsReceipt :
    let s := ((refusedThenMoved .draft).foldl next (World.start notice)).db
    Settled notice ∧ s.registrations.rows.map (fun r => (r.id, r.state)) = [(1, .draft)] ∧
    Db.pending s = 1 ∧ (propagateCancellations 1 id s).1 = 0 ∧
    (propagateCancellations 1 id s).2.mailRegistrations.rows.map
      (fun x => (x.registrationId, x.mailSent)) = [(1, false)] ∧
    ¬ Throughout next (fun w => PropagatesExactly w.db) (World.start notice)
      (refusedThenMoved .draft) := by
  refine ⟨by decide, by decide, by decide, by decide, by decide, fun h => ?_⟩
  have hlast := propagatesExactly_iff.mp h.last
  exact absurd hlast (by decide)

end sample

end BackboneEvents.PendingReceipts
