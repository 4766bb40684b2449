import BackboneEvents.SeamMirrors

/-!
# The confirmed and the paid fact of one order

The confirmed fact mints the rows of an order as held drafts, the paid fact lifts and
sells the rows it finds. Either takes effect at its first delivery only. A paid fact that
arrives first is consumed without a row to sell, so the order settles exactly when the
first of its deliveries is a confirmed one.
-/
namespace BackboneEvents.SeamConvergence
open ConstrainedTables TransactionPrograms GrandTotal GuardedRuns SeamDeliveries SeamMirrors

/-- The two facts of one order: their keys, and the specs of the confirmed one. -/
structure Facts where
  orderId : Uuid
  confirmedKey : InboxRow
  paidKey : InboxRow
  distinct : confirmedKey ≠ paidKey
  specs : List RegisterCommand

/-- A delivery of the confirmed fact: its order and key, a positive total, its specs. -/
def Facts.confirms (f : Facts) : Call → Bool
  | .seam c => c.orderId == f.orderId && c.key == f.confirmedKey &&
    match c.verb with
    | .confirmed grandTotal specs => !grandTotalIsZero grandTotal && specs == f.specs
    | .cancelled => false
    | .paid _ => false
  | .register _ _ => false
  | .transition _ _ _ _ => false

def Facts.pays (f : Facts) : Call → Bool
  | .seam c => c.orderId == f.orderId && c.key == f.paidKey &&
    match c.verb with
    | .confirmed _ _ => false
    | .cancelled => false
    | .paid _ => true
  | .register _ _ => false
  | .transition _ _ _ _ => false

/-- A call that is no delivery of the order and no state verb on a row of it. -/
def Facts.Elsewhere (f : Facts) (s : Db) : Call → Prop
  | .register _ _ => True
  | .transition _ registrationId _ _ =>
    ∀ r, s.registration? registrationId = some r → r.ofOrder f.orderId = false
  | .seam c => c.orderId ≠ f.orderId ∧ c.key ≠ f.confirmedKey ∧ c.key ≠ f.paidKey

/-- A call of the run: an answered confirmed delivery, a paid delivery, or one elsewhere. -/
def Facts.Arrives (f : Facts) (s : Db) (c : Call) : Prop :=
  (f.confirms c = true ∧ ∃ a, c.answer s = .ok a) ∨ f.pays c = true ∨ f.Elsewhere s c

/-- Neither fact has been delivered, and the order owns no rows. -/
structure Facts.Fresh (f : Facts) (s : Db) : Prop where
  unlinked : s.linked f.orderId = 0
  confirmedKey : f.confirmedKey ∉ s.seamInbox.rows
  paidKey : f.paidKey ∉ s.seamInbox.rows

/-- The first delivery of the order is one of its confirmed fact. -/
def Facts.confirmedFirst (f : Facts) (calls : List Call) : Bool :=
  (calls.find? (fun c => f.confirms c || f.pays c)).any f.confirms

def orderRows (s : Db) (orderId : Uuid) : List Registration :=
  s.registrations.rows.filter (·.ofOrder orderId)

def settled (r : Registration) : Bool := r.state == .open && sold r

def heldDraft (r : Registration) : Bool :=
  r.state == .draft && r.saleStatus == some .toPay && r.active

/-- Every registration of the order is open and sold. -/
def Settled (s : Db) (orderId : Uuid) : Prop := ∀ r ∈ orderRows s orderId, settled r = true

section rows

variable {s t : Db} {c : Call} {r r' : Registration} {orderId : Uuid}

theorem linked_eq_zero_iff : s.linked orderId = 0 ↔ orderRows s orderId = [] := by
  rw [Db.linked, Table.count, List.countP_eq_length_filter, List.length_eq_zero_iff]
  rfl

theorem rowStep_order (h : c.RowStep r r') : r'.saleOrderId = r.saleOrderId := by cases h <;> rfl

/-- A call elsewhere changes no row of the order. -/
theorem rowStep_elsewhere {f : Facts} (helse : f.Elsewhere s c) (hr : r ∈ s.registrations.rows)
    (horder : r.ofOrder f.orderId = true) (h : c.RowStep r r') : r' = r := by
  have hother : ∀ d : SeamCall, d.orderId ≠ f.orderId → r.ofOrder d.orderId = true → r' = r := by
    intro d hne howns
    simp only [Registration.ofOrder, beq_iff_eq] at horder howns
    exact absurd (Option.some.inj (howns.symm.trans horder)) hne
  cases h with
  | same => rfl
  | moved env r target actor =>
    rw [helse r (registration?_eq_some hr)] at horder
    cases horder
  | freeHealed verb free heals =>
    simp only [freeHeals, Bool.and_eq_true] at heals
    exact hother _ helse.1 heals.1.1
  | held verb paid active =>
    simp only [activeOfOrder, Bool.and_eq_true] at active
    exact hother _ helse.1 active.1
  | orderCancelled verb active =>
    simp only [activeOfOrder, Bool.and_eq_true] at active
    exact hother _ helse.1 active.1
  | paidHealed verb heals =>
    simp only [paidHeals, Bool.and_eq_true] at heals
    exact hother _ helse.1 heals.1.1.1
  | sold verb hheals sells =>
    simp only [paidSells, Bool.and_eq_true] at sells
    exact hother _ helse.1 sells.1.1

theorem orderRows_of_rows {image : Registration → Registration} {born : List Registration}
    (hrows : t.registrations.rows = s.registrations.rows.map image ++ born)
    (himage : ∀ r ∈ s.registrations.rows, (image r).saleOrderId = r.saleOrderId) :
    orderRows t orderId =
      (orderRows s orderId).map image ++ born.filter (·.ofOrder orderId) := by
  rw [orderRows, hrows, List.filter_append, List.filter_map, orderRows]
  congr 2
  refine List.filter_congr fun r hr => ?_
  simp [Registration.ofOrder, himage r hr]

theorem orderRows_elsewhere {f : Facts} (helse : f.Elsewhere s c) (h : c.Effect s t) :
    orderRows t f.orderId = orderRows s f.orderId := by
  obtain ⟨image, born, hrows, himage, hborn⟩ := h.rows
  have hnone : born.filter (·.ofOrder f.orderId) = [] := List.filter_eq_nil_iff.mpr fun b hb => by
    cases hborn b hb with
    | registered event state active order => simp [Registration.ofOrder, order]
    | minted verb event state active order => simp [Registration.ofOrder, order, helse.1]
  have hsame : (orderRows s f.orderId).map image = orderRows s f.orderId := by
    refine (List.map_congr_left fun r hr => ?_).trans (List.map_id _)
    obtain ⟨hr, horder⟩ := List.mem_filter.mp hr
    exact rowStep_elsewhere helse hr horder (himage r hr)
  rw [orderRows_of_rows hrows fun r hr => rowStep_order (himage r hr), hnone, hsame,
    List.append_nil]

end rows

/-- How far an order is. -/
inductive Stage where
  | untouched | confirmed | paidFirst | settled | stranded
  deriving DecidableEq, Repr

def Stage.confirm : Stage → Stage
  | .untouched => .confirmed
  | .confirmed => .confirmed
  | .paidFirst => .stranded
  | .settled => .settled
  | .stranded => .stranded

def Stage.pay : Stage → Stage
  | .untouched => .paidFirst
  | .confirmed => .settled
  | .paidFirst => .paidFirst
  | .settled => .settled
  | .stranded => .stranded

def Facts.stageNext (f : Facts) (stage : Stage) (c : Call) : Stage :=
  if f.confirms c then stage.confirm else if f.pays c then stage.pay else stage

/-- What the database holds of the order at a stage: which keys, and which rows. -/
structure Holds (f : Facts) (s : Db) (confirmed paid minted : Bool) (p : Registration → Bool) :
    Prop where
  confirmedKey : f.confirmedKey ∈ s.seamInbox.rows ↔ confirmed = true
  paidKey : f.paidKey ∈ s.seamInbox.rows ↔ paid = true
  minted : orderRows s f.orderId ≠ [] ↔ minted = true
  rows : ∀ r ∈ orderRows s f.orderId, p r = true

def AtStage (f : Facts) (s : Db) : Stage → Prop
  | .untouched => Holds f s false false false heldDraft
  | .confirmed => Holds f s true false true heldDraft
  | .paidFirst => Holds f s false true false heldDraft
  | .settled => Holds f s true true true SeamConvergence.settled
  | .stranded => Holds f s true true true heldDraft

section stages

variable {f : Facts} {s t : Db} {c : Call} {stage : Stage} {confirmed paid minted : Bool}
  {p : Registration → Bool}

theorem Holds.audited {rows : List AuditRow} (h : Holds f s confirmed paid minted p) :
    Holds f (s.audited rows) confirmed paid minted p := ⟨h.1, h.2, h.3, h.4⟩

/-- A call elsewhere leaves all that the order holds. -/
theorem Holds.elsewhere (h : Holds f s confirmed paid minted p) (helse : f.Elsewhere s c) :
    Holds f (s.next c) confirmed paid minted p := by
  obtain ⟨t, rows, heffect, happly⟩ := c.apply_effect s
  rw [Db.next, happly]
  have hrows := orderRows_elsewhere helse heffect
  have hinbox : ∀ k, k = f.confirmedKey ∨ k = f.paidKey →
      (k ∈ t.seamInbox.rows ↔ k ∈ s.seamInbox.rows) := fun k hk => by
    rcases effect_seamInbox heffect with hsame | ⟨d, rfl, hpush⟩
    · rw [hsame]
    · rw [hpush, mem_push_iff]
      have hne : k ≠ d.key := by
        rcases hk with rfl | rfl
        · exact helse.2.1.symm
        · exact helse.2.2.symm
      simp [hne]
  refine Holds.audited ⟨?_, ?_, ?_, ?_⟩
  · rw [hinbox _ (.inl rfl), h.confirmedKey]
  · rw [hinbox _ (.inr rfl), h.paidKey]
  · rw [hrows, h.minted]
  · rw [hrows]
    exact h.rows

theorem confirms_iff : f.confirms c = true ↔ ∃ d grandTotal, c = .seam d ∧
    d.orderId = f.orderId ∧ d.key = f.confirmedKey ∧ d.verb = .confirmed grandTotal f.specs ∧
      grandTotalIsZero grandTotal = false := by
  cases c with
  | register env cmd => simp [Facts.confirms]
  | transition env registrationId target actor => simp [Facts.confirms]
  | seam d =>
    cases hverb : d.verb with
    | confirmed grandTotal specs =>
      simp only [Facts.confirms, hverb, Bool.and_eq_true, beq_iff_eq, Bool.not_eq_true',
        Call.seam.injEq]
      constructor
      · rintro ⟨⟨horder, hkey⟩, htotal, rfl⟩
        exact ⟨d, grandTotal, rfl, horder, hkey, hverb, htotal⟩
      · rintro ⟨d', grandTotal', rfl, horder, hkey, hverb', htotal⟩
        obtain ⟨rfl, rfl⟩ := SeamVerb.confirmed.inj (hverb.symm.trans hverb')
        exact ⟨⟨horder, hkey⟩, htotal, rfl⟩
    | cancelled => simp_all [Facts.confirms]
    | paid lineIds => simp_all [Facts.confirms]

theorem pays_iff : f.pays c = true ↔ ∃ d lineIds, c = .seam d ∧
    d.orderId = f.orderId ∧ d.key = f.paidKey ∧ d.verb = .paid lineIds := by
  cases c with
  | register env cmd => simp [Facts.pays]
  | transition env registrationId target actor => simp [Facts.pays]
  | seam d => cases hverb : d.verb <;> simp_all [Facts.pays]

/-- A fresh confirmed delivery of an order without rows mints held drafts. -/
theorem Holds.mint (h : Holds f s false paid false heldDraft) (hspecs : f.specs ≠ [])
    (hconfirms : f.confirms c = true) {a : Answer} (hanswer : c.answer s = .ok a) :
    Holds f (s.next c) true paid true heldDraft := by
  obtain ⟨d, grandTotal, rfl, horder, hkey, hverb, htotal⟩ := confirms_iff.mp hconfirms
  have hnone : orderRows s f.orderId = [] := by
    by_contra hne
    simpa using h.minted.mp hne
  have hunlinked : s.linked d.orderId = 0 := by rw [horder, linked_eq_zero_iff, hnone]
  have hfree : d.key ∉ s.seamInbox.rows := fun hmem => by simpa using h.confirmedKey.mp (hkey ▸ hmem)
  obtain ⟨t, rows, hrun, happly⟩ := Call.apply_of_answer hanswer
  rw [Db.next, happly]
  cases Call.effect_of_run hrun with
  | refused hrefused => rw [hrun] at hrefused; cases hrefused
  | replayed hclaimed => exact absurd (accepts_eq_false_iff.mp hclaimed) hfree
  | freeHealed verb fresh linked free => exact absurd hunlinked linked
  | heldBack verb fresh linked held => exact absurd hunlinked linked
  | cancelled verb => rw [hverb] at verb; cases verb
  | paid verb => rw [hverb] at verb; cases verb
  | minted verb fresh unlinked mint =>
    obtain ⟨rfl, rfl⟩ := SeamVerb.confirmed.inj (hverb.symm.trans verb)
    obtain ⟨born, hrows, hevents, hborn⟩ := minted_rows mint
    have horders : ∀ r ∈ born, r.ofOrder f.orderId = true := fun r hr => by
      obtain ⟨-, -, hsale, -⟩ := hborn r hr
      simp [Registration.ofOrder, hsale, bornLink, horder]
    have hall : orderRows t f.orderId = born := by
      rw [orderRows, hrows, List.filter_append, List.filter_eq_self.mpr horders]
      exact congrArg (· ++ born) hnone
    have hinbox : t.seamInbox = s.seamInbox.push d.key := minted_seamInbox mint
    refine Holds.audited ⟨?_, ?_, ?_, ?_⟩
    · simp [hinbox, mem_push_iff, hkey]
    · rw [hinbox, mem_push_iff, h.paidKey, hkey]
      simp [f.distinct.symm]
    · have hne : born ≠ [] := fun hnil => hspecs (by simpa [hnil] using hevents.symm)
      simp [hall, hne]
    · intro r hr
      obtain ⟨hstate, hactive, -, hstatus⟩ := hborn r (hall ▸ hr)
      simp [heldDraft, hstate, hactive, hstatus, bornLink, htotal]

/-- What a paid fact does to one row of its order. -/
def paidImage (orderId : Uuid) (r : Registration) : Registration :=
  if paidHeals orderId r then Registration.paidHealed r
  else if paidSells orderId r then Registration.sold r else r

theorem orderRows_paid {env : Env} {orderId : Uuid} {lineIds : List Uuid} :
    orderRows (s.paid env orderId lineIds) orderId =
      (orderRows s orderId).map (paidImage orderId) := by
  have hrows : (s.paid env orderId lineIds).registrations.rows =
      s.registrations.rows.map (paidImage orderId) ++ [] := by
    rw [Db.paid, Table.rows_modify, Table.rows_modify, List.map_map, List.append_nil]
    refine List.map_congr_left fun r _ => ?_
    cases hheals : paidHeals orderId r with
    | true => simp [paidImage, hheals, paidSells, Registration.paidHealed]
    | false => simp [paidImage, hheals]
  have himage : ∀ r ∈ s.registrations.rows, (paidImage orderId r).saleOrderId = r.saleOrderId :=
    fun r _ => by
      rw [paidImage]
      split
      · rfl
      · split <;> rfl
  simpa using orderRows_of_rows hrows himage

theorem settled_paidImage {orderId : Uuid} {r : Registration} (horder : r.ofOrder orderId = true)
    (hheld : heldDraft r = true) : settled (paidImage orderId r) = true := by
  simp only [heldDraft, Bool.and_eq_true, beq_iff_eq] at hheld
  have hheals : paidHeals orderId r = true := by
    simp [paidHeals, horder, Registration.outside, hheld]
  rw [paidImage, if_pos hheals]
  rfl

/-- A fresh paid delivery consumes its key and settles the held drafts there are. -/
theorem Holds.pay (h : Holds f s confirmed false minted heldDraft) (hpays : f.pays c = true) :
    Holds f (s.next c) confirmed true minted settled := by
  obtain ⟨d, lineIds, rfl, horder, hkey, hverb⟩ := pays_iff.mp hpays
  have hfree : d.key ∉ s.seamInbox.rows := fun hmem => by simpa using h.paidKey.mp (hkey ▸ hmem)
  obtain ⟨t, rows, heffect, happly⟩ := (Call.seam d).apply_effect s
  rw [Db.next, happly]
  cases heffect with
  | refused hrefused =>
    rw [Call.program, Program.bind_eq, Program.run_bind, run_of_not_claimed hfree, SeamCall.body,
      hverb, run_payOrder] at hrefused
    cases hrefused
  | replayed hclaimed => exact absurd (accepts_eq_false_iff.mp hclaimed) hfree
  | freeHealed verb => rw [hverb] at verb; cases verb
  | heldBack verb => rw [hverb] at verb; cases verb
  | minted verb => rw [hverb] at verb; cases verb
  | cancelled verb => rw [hverb] at verb; cases verb
  | @paid _ _ lineIds' verb fresh =>
    have hrows : orderRows ((s.claimed d.key.consumer d.key.externalId).paid d.env d.orderId lineIds')
        f.orderId = (orderRows s f.orderId).map (paidImage f.orderId) := by
      rw [horder]
      exact orderRows_paid
    refine Holds.audited ⟨?_, ?_, ?_, ?_⟩
    · change f.confirmedKey ∈ (s.seamInbox.push d.key).rows ↔ _
      rw [mem_push_iff, h.confirmedKey, hkey]
      simp [f.distinct]
    · change f.paidKey ∈ (s.seamInbox.push d.key).rows ↔ _
      simp [mem_push_iff, hkey]
    · rw [hrows, ← h.minted]
      simp
    · intro r hr
      obtain ⟨x, hx, rfl⟩ := List.mem_map.mp (hrows ▸ hr)
      exact settled_paidImage (List.mem_filter.mp hx).2 (h.rows x hx)

theorem next_of_confirms (hconfirms : f.confirms c = true)
    (hclaimed : f.confirmedKey ∈ s.seamInbox.rows) : s.next c = s := by
  obtain ⟨d, grandTotal, rfl, horder, hkey, -, -⟩ := confirms_iff.mp hconfirms
  exact apply_of_claimed (hkey ▸ hclaimed)

theorem next_of_pays (hpays : f.pays c = true) (hclaimed : f.paidKey ∈ s.seamInbox.rows) :
    s.next c = s := by
  obtain ⟨d, lineIds, rfl, horder, hkey, -⟩ := pays_iff.mp hpays
  exact apply_of_claimed (hkey ▸ hclaimed)

/-- No rows meet every property. -/
theorem Holds.of_unminted (h : Holds f s confirmed paid false p) (q : Registration → Bool) :
    Holds f s confirmed paid false q := by
  refine ⟨h.confirmedKey, h.paidKey, h.minted, fun r hr => ?_⟩
  have hne : orderRows s f.orderId ≠ [] := List.ne_nil_of_mem hr
  simpa using h.minted.mp hne

/-- One call moves the order to its next stage. -/
theorem atStage_next (hspecs : f.specs ≠ []) (h : AtStage f s stage) (harrives : f.Arrives s c) :
    AtStage f (s.next c) (f.stageNext stage c) := by
  rw [Facts.stageNext]
  cases hconfirms : f.confirms c with
  | true =>
    have hanswer : ∃ a, c.answer s = .ok a := by
      rcases harrives with ⟨-, hanswer⟩ | hpays | helse
      · exact hanswer
      · obtain ⟨d, lineIds, rfl, -, -, hverb⟩ := pays_iff.mp hpays
        simp [Facts.confirms, hverb] at hconfirms
      · obtain ⟨d, grandTotal, rfl, horder, -, -, -⟩ := confirms_iff.mp hconfirms
        exact absurd horder helse.1
    obtain ⟨a, hanswer⟩ := hanswer
    rw [if_pos rfl]
    cases stage with
    | untouched => exact h.mint hspecs hconfirms hanswer
    | paidFirst => exact h.mint hspecs hconfirms hanswer
    | confirmed => rwa [next_of_confirms hconfirms (h.confirmedKey.mpr rfl)]
    | settled => rwa [next_of_confirms hconfirms (h.confirmedKey.mpr rfl)]
    | stranded => rwa [next_of_confirms hconfirms (h.confirmedKey.mpr rfl)]
  | false =>
    rw [if_neg Bool.false_ne_true]
    cases hpays : f.pays c with
    | true =>
      rw [if_pos rfl]
      cases stage with
      | untouched => exact (h.pay hpays).of_unminted heldDraft
      | confirmed => exact h.pay hpays
      | paidFirst => rwa [next_of_pays hpays (h.paidKey.mpr rfl)]
      | settled => rwa [next_of_pays hpays (h.paidKey.mpr rfl)]
      | stranded => rwa [next_of_pays hpays (h.paidKey.mpr rfl)]
    | false =>
      rw [if_neg Bool.false_ne_true]
      rcases harrives with ⟨hc, -⟩ | hp | helse
      · rw [hconfirms] at hc; cases hc
      · rw [hpays] at hp; cases hp
      · cases stage <;> exact Holds.elsewhere h helse

theorem atStage_run {calls : List Call} (hspecs : f.specs ≠ []) (h : AtStage f s stage)
    (hrun : Along Db.next f.Arrives s calls) :
    AtStage f (s.applyAll calls) (calls.foldl f.stageNext stage) := by
  induction calls generalizing s stage with
  | nil => exact h
  | cons c calls ih => exact ih (atStage_next hspecs h hrun.1) hrun.2

end stages

section order

variable {f : Facts} {s : Db} {calls : List Call}

theorem not_confirms_of_pays {c : Call} (h : f.pays c = true) : f.confirms c = false := by
  obtain ⟨d, lineIds, rfl, -, -, hverb⟩ := pays_iff.mp h
  simp [Facts.confirms, hverb]

theorem stages_settled : calls.foldl f.stageNext .settled = .settled := by
  induction calls with
  | nil => rfl
  | cons c calls ih => simpa [Facts.stageNext, Stage.confirm, Stage.pay] using ih

theorem stages_stranded : calls.foldl f.stageNext .stranded = .stranded := by
  induction calls with
  | nil => rfl
  | cons c calls ih => simpa [Facts.stageNext, Stage.confirm, Stage.pay] using ih

theorem stages_confirmed (hpaid : calls.any f.pays = true) :
    calls.foldl f.stageNext .confirmed = .settled := by
  induction calls with
  | nil => simp at hpaid
  | cons c calls ih =>
    rw [List.foldl_cons]
    cases hpays : f.pays c with
    | true =>
      simp only [Facts.stageNext, not_confirms_of_pays hpays, hpays, Bool.false_eq_true, if_false,
        if_true]
      exact stages_settled
    | false =>
      have hsame : f.stageNext .confirmed c = .confirmed := by
        simp [Facts.stageNext, hpays, Stage.confirm]
      rw [hsame]
      exact ih (by simpa [hpays] using hpaid)

theorem stages_paidFirst (hconfirmed : calls.any f.confirms = true) :
    calls.foldl f.stageNext .paidFirst = .stranded := by
  induction calls with
  | nil => simp at hconfirmed
  | cons c calls ih =>
    rw [List.foldl_cons]
    cases hconfirms : f.confirms c with
    | true =>
      simp only [Facts.stageNext, hconfirms, if_true]
      exact stages_stranded
    | false =>
      have hsame : f.stageNext .paidFirst c = .paidFirst := by
        simp [Facts.stageNext, hconfirms, Stage.pay]
      rw [hsame]
      exact ih (by simpa [hconfirms] using hconfirmed)

/-- Once both facts have been delivered, the order settles or is stranded for good. -/
theorem stages_untouched (hconfirmed : calls.any f.confirms = true)
    (hpaid : calls.any f.pays = true) :
    calls.foldl f.stageNext .untouched =
      if f.confirmedFirst calls then .settled else .stranded := by
  induction calls with
  | nil => simp at hpaid
  | cons c calls ih =>
    rw [List.foldl_cons]
    cases hconfirms : f.confirms c with
    | true =>
      have hnot : f.pays c = false := by
        by_contra hpays
        rw [not_confirms_of_pays (by simpa using hpays)] at hconfirms
        cases hconfirms
      simp only [Facts.stageNext, hconfirms, if_true, Facts.confirmedFirst, List.find?_cons,
        Bool.true_or, Option.any_some]
      exact stages_confirmed (by simpa [hnot] using hpaid)
    | false =>
      cases hpays : f.pays c with
      | true =>
        simp only [Facts.stageNext, hconfirms, hpays, Facts.confirmedFirst, List.find?_cons,
          Bool.or_true, Option.any_some, Bool.false_eq_true, if_false, if_true]
        exact stages_paidFirst (by simpa [hconfirms] using hconfirmed)
      | false =>
        simp only [Facts.stageNext, hconfirms, hpays, Facts.confirmedFirst, List.find?_cons,
          Bool.or_false, Bool.false_eq_true, if_false]
        exact ih (by simpa [hconfirms] using hconfirmed) (by simpa [hpays] using hpaid)

theorem Facts.Fresh.atStage (h : f.Fresh s) : AtStage f s .untouched := by
  have hnone := linked_eq_zero_iff.mp h.unlinked
  refine ⟨?_, ?_, ?_, ?_⟩
  · simpa using h.confirmedKey
  · simpa using h.paidKey
  · simpa using hnone
  · simp [hnone]

/-- With both facts delivered, every registration of the order is open and sold exactly when
the first of its deliveries was one of the confirmed fact. -/
theorem settled_iff_confirmedFirst (hspecs : f.specs ≠ []) (hfresh : f.Fresh s)
    (hrun : Along Db.next f.Arrives s calls) (hconfirmed : calls.any f.confirms = true)
    (hpaid : calls.any f.pays = true) :
    Settled (s.applyAll calls) f.orderId ↔ f.confirmedFirst calls = true := by
  have hstage := atStage_run hspecs hfresh.atStage hrun
  rw [stages_untouched hconfirmed hpaid] at hstage
  cases hfirst : f.confirmedFirst calls with
  | true =>
    rw [hfirst, if_pos rfl] at hstage
    exact iff_of_true hstage.rows rfl
  | false =>
    rw [hfirst, if_neg Bool.false_ne_true] at hstage
    refine iff_of_false (fun hsettled => ?_) Bool.false_ne_true
    obtain ⟨r, hr⟩ := List.exists_mem_of_ne_nil _ (hstage.minted.mpr rfl)
    have hheld := hstage.rows r hr
    have hopen := hsettled r hr
    simp only [heldDraft, settled, Bool.and_eq_true, beq_iff_eq] at hheld hopen
    rw [hheld.1.1] at hopen
    exact RegistrationState.noConfusion hopen.1

end order

/-- Order 7 of one attendee at an event without a limit. -/
def orderFacts : Facts where
  orderId := 7
  confirmedKey := ⟨"events", "confirmed:a"⟩
  paidKey := ⟨"events", "paid:b"⟩
  distinct := by decide
  specs := [ann]

def confirmedFact (base : ℕ) : Call :=
  .seam ⟨.counting base, "events", some "a", 7, none, .confirmed "100" [ann]⟩

def paidFact (base : ℕ) : Call := .seam ⟨.counting base, "events", some "b", 7, none, .paid []⟩

theorem openGig_fresh : orderFacts.Fresh openGig := ⟨by decide, by decide, by decide⟩

theorem settled_iff_confirmedFirst_inOrder :
    Settled (openGig.applyAll [confirmedFact 1, paidFact 2, confirmedFact 3, paidFact 4]) 7 := by
  have hrun : Along Db.next orderFacts.Arrives openGig
      [confirmedFact 1, paidFact 2, confirmedFact 3, paidFact 4] :=
    ⟨.inl ⟨by decide, _, rfl⟩, .inr (.inl (by decide)), .inl ⟨by decide, _, rfl⟩,
      .inr (.inl (by decide)), trivial⟩
  exact (settled_iff_confirmedFirst (by decide) openGig_fresh hrun (by decide)
    (by decide)).mpr (by decide)

/-- The paid fact arrives first, then the confirmed fact, then both again. -/
def paidFirst : List Call := [paidFact 1, confirmedFact 2, paidFact 3, confirmedFact 4]

theorem paidFirst_stranded :
    Along Db.next (fun s c => (c.answer s).toOption.isSome = true) openGig paidFirst ∧
    orderFacts.Fresh openGig ∧
    orderFacts.confirmedKey ∈ (openGig.applyAll paidFirst).seamInbox.rows ∧
    orderFacts.paidKey ∈ (openGig.applyAll paidFirst).seamInbox.rows ∧
    (orderRows (openGig.applyAll paidFirst) 7).map (fun r => (r.state, r.saleStatus)) =
      [(.draft, some .toPay)] ∧
    ¬ Settled (openGig.applyAll paidFirst) 7 := by
  have hheld : (orderRows (openGig.applyAll paidFirst) 7).map
      (fun r => (r.state, r.saleStatus)) = [(.draft, some .toPay)] := by decide
  refine ⟨⟨by decide, by decide, by decide, by decide, trivial⟩, openGig_fresh, by decide,
    by decide, hheld, fun h => ?_⟩
  have hall : (orderRows (openGig.applyAll paidFirst) 7).all settled = true := List.all_eq_true.mpr h
  exact absurd hall (by decide)

end BackboneEvents.SeamConvergence
