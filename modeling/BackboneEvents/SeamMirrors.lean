import BackboneEvents.SeamDeliveries
import BackboneEvents.GuardedRuns

/-!
# The sale mirrors move forward

Only a cancelled order takes a row out of `open` or `done`, and only the paid fact sells.
A sold row stays sold under every verb but one: a fresh confirmed delivery for its order
rewrites its mirrors, to `to_pay` under a positive total, to `free` where the row is outside
the counting domain under a zero total.
-/
namespace BackboneEvents.SeamMirrors
open ConstrainedTables TransactionPrograms GrandTotal GuardedRuns SeamDeliveries

/-- Every row of `s` with the property has it in `t`. -/
def Carried (p : Registration → Bool) (s t : Db) : Prop :=
  ∀ r ∈ s.registrations.rows, p r = true → ∃ r' ∈ t.registrations.rows, r'.id = r.id ∧ p r' = true

def seated (r : Registration) : Bool := r.state == .open || r.state == .done

def sold (r : Registration) : Bool := r.saleStatus == some .sold

@[simp] theorem sold_freeHealed (r : Registration) : sold (Registration.freeHealed r) = false := rfl

@[simp] theorem sold_held (r : Registration) : sold (Registration.held r) = false := rfl

theorem Carried.refl (p : Registration → Bool) (s : Db) : Carried p s s :=
  fun r hr hp => ⟨r, hr, rfl, hp⟩

theorem Carried.trans {p : Registration → Bool} {s t u : Db} (h : Carried p s t)
    (h' : Carried p t u) : Carried p s u := fun r hr hp => by
  obtain ⟨r', hr', hid, hp'⟩ := h r hr hp
  obtain ⟨r'', hr'', hid', hp''⟩ := h' r' hr' hp'
  exact ⟨r'', hr'', hid'.trans hid, hp''⟩

/-- A fresh confirmed delivery that would rewrite the sale status of a sold row. -/
def demotes (s : Db) : Call → Bool
  | .register _ _ => false
  | .transition _ _ _ _ => false
  | .seam c => s.seamInbox.accepts c.key &&
    match c.verb with
    | .confirmed grandTotal _ => s.registrations.rows.any (fun r =>
        activeOfOrder c.orderId r && sold r && (!grandTotalIsZero grandTotal || r.outside))
    | .cancelled => false
    | .paid _ => false

section step

variable {s t : Db} {c : Call} {r r' : Registration}

theorem rowStep_id (h : c.RowStep r r') : r'.id = r.id := by cases h <;> rfl

theorem carried_of_rowStep {p : Registration → Bool} (h : c.Effect s t)
    (hp : ∀ r ∈ s.registrations.rows, ∀ r', c.RowStep r r' → p r = true → p r' = true) :
    Carried p s t := by
  obtain ⟨image, born, hrows, himage, -⟩ := h.rows
  intro r hr hpr
  exact ⟨image r, by simp [hrows, List.mem_map_of_mem hr], rowStep_id (himage r hr),
    hp r hr _ (himage r hr) hpr⟩

/-- A delivery other than a cancelled order leaves every seated row seated. -/
theorem seated_of_rowStep {d : SeamCall} (hverb : d.verb ≠ .cancelled)
    (h : (Call.seam d).RowStep r r') (hr : seated r = true) : seated r' = true := by
  cases h with
  | same | held | sold => exact hr
  | freeHealed | paidHealed => rfl
  | orderCancelled verb => exact absurd verb hverb

/-- A row is sold by the paid fact or was sold before. -/
theorem sold_of_rowStep (hpaid : ∀ d lineIds, c = .seam d → d.verb ≠ .paid lineIds)
    (h : c.RowStep r r') (hr : sold r' = true) : sold r = true := by
  cases h with
  | same | moved | orderCancelled => exact hr
  | freeHealed => simp at hr
  | held => simp at hr
  | paidHealed verb => exact absurd verb (hpaid _ _ rfl)
  | sold verb => exact absurd verb (hpaid _ _ rfl)

/-- A row step that un-sells is the heal of a confirmed delivery. -/
theorem sold_or_demoted {d : SeamCall} (h : (Call.seam d).RowStep r r') (hr : sold r = true) :
    sold r' = true ∨ ∃ grandTotal specs, d.verb = .confirmed grandTotal specs ∧
      activeOfOrder d.orderId r = true ∧
      (!grandTotalIsZero grandTotal || r.outside) = true := by
  cases h with
  | same | orderCancelled => exact .inl hr
  | paidHealed | sold => exact .inl rfl
  | @freeHealed _ _ grandTotal specs verb free heals =>
    simp only [freeHeals, Bool.and_eq_true] at heals
    exact .inr ⟨grandTotal, specs, verb, by simp [activeOfOrder, heals], by simp [heals]⟩
  | @held _ _ grandTotal specs verb paid active =>
    exact .inr ⟨grandTotal, specs, verb, active, by simp [paid]⟩

theorem soldKept_of_not_demotes (h : demotes s c = false) : Carried sold s (c.apply s) := by
  obtain ⟨t, rows, heffect, happly⟩ := c.apply_effect s
  have hkept : (∀ r ∈ s.registrations.rows, ∀ r', c.RowStep r r' → sold r = true →
      sold r' = true) → Carried sold s (c.apply s) := fun hp => by
    have hcarried := carried_of_rowStep heffect hp
    rw [happly]
    exact hcarried
  cases c with
  | register env cmd => exact hkept fun r _ r' hstep hr => by cases hstep; exact hr
  | transition env registrationId target actor =>
    exact hkept fun r _ r' hstep hr => by cases hstep <;> exact hr
  | seam d =>
    by_cases hclaimed : d.key ∈ s.seamInbox.rows
    · rw [apply_of_claimed hclaimed]
      exact .refl _ _
    · refine hkept fun r hmem r' hstep hr => ?_
      rcases sold_or_demoted hstep hr with hsold | ⟨grandTotal, specs, hverb, hactive, hrewrites⟩
      · exact hsold
      · simp only [demotes, accepts_of_not_mem hclaimed, hverb, Bool.true_and,
          List.any_eq_false] at h
        exact absurd (by simp [hactive, hr, hrewrites]) (h r hmem)

/-- A confirmed delivery for an order that owns rows heals them. -/
theorem effect_of_confirmed {d : SeamCall} {grandTotal : String} {specs : List RegisterCommand}
    (hfresh : s.seamInbox.accepts d.key = true) (hverb : d.verb = .confirmed grandTotal specs)
    (hlinked : s.linked d.orderId ≠ 0) : ∃ rows, (Call.seam d).apply s =
      (if grandTotalIsZero grandTotal then
        (s.claimed d.key.consumer d.key.externalId).freeHealed d.env d.orderId
      else (s.claimed d.key.consumer d.key.externalId).heldBack d.orderId).audited rows := by
  have hcount : (s.claimed d.key.consumer d.key.externalId).linked d.orderId = s.linked d.orderId :=
    rfl
  have hanswer : ∃ a, (Call.seam d).answer s = .ok a := by
    rw [answer_eq, Call.program, Program.bind_eq, Program.run_bind, d.run_program, hfresh,
      if_pos rfl, SeamCall.body, hverb, run_mintOrHeal_linked (hcount.trans_ne hlinked)]
    cases grandTotalIsZero grandTotal <;> exact ⟨_, rfl⟩
  obtain ⟨a, hanswer⟩ := hanswer
  obtain ⟨t, rows, hrun, happly⟩ := Call.apply_of_answer hanswer
  refine ⟨rows, happly.trans (congrArg (Db.audited · rows) ?_)⟩
  cases Call.effect_of_run hrun with
  | refused hrefused => rw [hrun] at hrefused; cases hrefused
  | replayed hclaimed => simp [hfresh] at hclaimed
  | minted verb fresh unlinked mint => exact absurd unlinked hlinked
  | freeHealed verb fresh linked free =>
    obtain ⟨rfl, -⟩ := SeamVerb.confirmed.inj (hverb.symm.trans verb)
    simp [free]
  | heldBack verb fresh linked paid =>
    obtain ⟨rfl, -⟩ := SeamVerb.confirmed.inj (hverb.symm.trans verb)
    simp [paid]
  | cancelled verb => rw [hverb] at verb; cases verb
  | paid verb => rw [hverb] at verb; cases verb

theorem not_demotes_of_soldKept (h : Carried sold s (c.apply s)) : demotes s c = false := by
  by_contra hdemotes
  cases c with
  | register env cmd => simp [demotes] at hdemotes
  | transition env registrationId target actor => simp [demotes] at hdemotes
  | seam d =>
    cases hverb : d.verb with
    | cancelled => simp [demotes, hverb] at hdemotes
    | paid lineIds => simp [demotes, hverb] at hdemotes
    | confirmed grandTotal specs =>
      simp only [demotes, hverb, Bool.not_eq_false, Bool.and_eq_true, List.any_eq_true] at hdemotes
      obtain ⟨hfresh, r, hr, ⟨hactive, hsold⟩, hrewrites⟩ := hdemotes
      have horder : r.ofOrder d.orderId = true := by
        simp only [activeOfOrder, Bool.and_eq_true] at hactive
        exact hactive.1
      have hlinked : s.linked d.orderId ≠ 0 :=
        Nat.pos_iff_ne_zero.mp (List.countP_pos_iff.mpr ⟨r, hr, horder⟩)
      obtain ⟨rows, happly⟩ := effect_of_confirmed hfresh hverb hlinked
      obtain ⟨r', hr', hid, hsold'⟩ := h r hr hsold
      rw [happly, audited_registrations] at hr'
      cases htotal : grandTotalIsZero grandTotal with
      | true =>
        rw [htotal, if_pos rfl] at hr'
        obtain ⟨x, hx, rfl⟩ := Table.mem_modify.mp hr'
        have hxr : x = r := registration_eq_of_id hx hr (by rw [← hid]; split <;> rfl)
        subst hxr
        have hheals : freeHeals d.orderId x = true := by
          simp only [activeOfOrder, Bool.and_eq_true] at hactive
          simpa [freeHeals, hactive, htotal] using hrewrites
        rw [if_pos hheals] at hsold'
        simp at hsold'
      | false =>
        rw [htotal, if_neg Bool.false_ne_true] at hr'
        obtain ⟨x, hx, rfl⟩ := Table.mem_modify.mp hr'
        have hxr : x = r := registration_eq_of_id hx hr (by rw [← hid]; split <;> rfl)
        subst hxr
        rw [if_pos hactive] at hsold'
        simp at hsold'

theorem carried_iff : Carried sold s (s.next c) ↔ demotes s c = false :=
  ⟨not_demotes_of_soldKept, soldKept_of_not_demotes⟩

/-- What every single step keeps, whatever the deliveries. -/
structure Forward (s : Db) (c : Call) : Prop where
  seats : ∀ d, c = .seam d → d.verb ≠ .cancelled → Carried seated s (s.next c)
  sales : (∀ d lineIds, c = .seam d → d.verb ≠ .paid lineIds) →
    ∀ r' ∈ (s.next c).registrations.rows, sold r' = true →
      ∃ r ∈ s.registrations.rows, r.id = r'.id ∧ sold r = true

theorem born_not_sold (h : c.Born r) : sold r = false := by
  cases h with
  | registered event state active order status => simp [sold, status]
  | @minted _ _ grandTotal specs verb event state active order status =>
    rw [sold, status]
    cases hfree : grandTotalIsZero grandTotal <;> rfl

theorem forward_next (s : Db) (c : Call) : Forward s c := by
  obtain ⟨t, rows, heffect, happly⟩ := c.apply_effect s
  obtain ⟨image, born, hrows, himage, hborn⟩ := heffect.rows
  constructor
  · rintro d rfl hverb
    have hcarried := carried_of_rowStep heffect fun r _ r' => seated_of_rowStep hverb
    rw [Db.next, happly]
    exact hcarried
  · intro hpaid r' hr' hsold
    rw [Db.next, happly, audited_registrations, hrows, List.mem_append] at hr'
    rcases hr' with hr' | hr'
    · obtain ⟨r, hr, rfl⟩ := List.mem_map.mp hr'
      exact ⟨r, hr, (rowStep_id (himage r hr)).symm, sold_of_rowStep hpaid (himage r hr) hsold⟩
    · rw [born_not_sold (hborn r' hr')] at hsold
      cases hsold

end step

/-- Over every run seats are given up to cancelled orders and state verbs alone and sold
status comes from paid facts alone. Sold rows stay sold between all moments of the run
exactly when none of its calls is a confirmed delivery that rewrites one. -/
theorem mirrors_throughout (s : Db) (calls : List Call) :
    Along Db.next Forward s calls ∧
    (Steadily Db.next (Carried sold) s calls ↔
      Along Db.next (fun s c => demotes s c = false) s calls) := by
  constructor
  · induction calls generalizing s with
    | nil => trivial
    | cons c calls ih => exact ⟨forward_next s c, ih _⟩
  · exact steadily_iff_along (Carried.refl sold) (fun _ _ _ => Carried.trans)
      fun _ _ => carried_iff

/-- An order of one seat is confirmed, paid, and confirmed again under a fresh delivery id. -/
def reconfirmed : List Call :=
  [.seam ⟨.counting 1, "events", some "a", 7, none, .confirmed "100" [ann]⟩,
    .seam ⟨.counting 2, "events", some "b", 7, none, .paid []⟩,
    .seam ⟨.counting 3, "events", some "c", 7, none, .confirmed "100" [ann]⟩]

theorem reconfirmed_unsold :
    Along Db.next (fun s c => (c.answer s).toOption.isSome = true) oneSeat reconfirmed ∧
    ((oneSeat.applyAll (reconfirmed.take 2)).registrations.rows.map (·.saleStatus) = [some .sold]) ∧
    ((oneSeat.applyAll reconfirmed).registrations.rows.map (·.saleStatus) = [some .toPay]) ∧
    ¬ Steadily Db.next (Carried sold) oneSeat reconfirmed := by
  have hbefore : (oneSeat.applyAll (reconfirmed.take 2)).registrations.rows.any sold = true := by
    decide
  have hafter : (oneSeat.applyAll reconfirmed).registrations.rows.any sold = false := by decide
  refine ⟨⟨by decide, by decide, by decide, trivial⟩, by decide, by decide, fun h => ?_⟩
  obtain ⟨r, hr, hsold⟩ := List.any_eq_true.mp hbefore
  obtain ⟨r', hr', -, hsold'⟩ := h (reconfirmed.take 2) (reconfirmed.drop 2) [] rfl r hr hsold
  exact List.any_eq_false.mp hafter r' hr' hsold'

end BackboneEvents.SeamMirrors
