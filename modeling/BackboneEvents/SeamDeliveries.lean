import BackboneEvents.VerbCalls
import Mathlib.Data.List.Induction

/-!
# Deliveries take effect once

The inbox row of a delivery and the effect of the delivery commit together. A claimed
key stays claimed, so a later delivery under it changes nothing; a delivery that fails
claims nothing, so a retry runs in full.
-/
namespace BackboneEvents.SeamDeliveries
open ConstrainedTables TransactionPrograms

theorem accepts_eq_false_iff {t : Table InboxRow} {k : InboxRow} :
    t.accepts k = false ↔ k ∈ t.rows := by
  rw [← Bool.not_eq_true, Table.accepts_iff]
  constructor
  · intro h
    simp only [not_forall] at h
    obtain ⟨x, hx, hclash⟩ := h
    have heq : x = k := by
      cases x; cases k
      simpa [clash] using hclash
    rwa [← heq]
  · intro hk h
    have hself := h k hk
    simp [clash_self] at hself

theorem accepts_of_not_mem {t : Table InboxRow} {k : InboxRow} (h : k ∉ t.rows) :
    t.accepts k = true := by
  rw [← Bool.not_eq_false]
  exact mt accepts_eq_false_iff.mp h

theorem mem_push_iff {t : Table InboxRow} {k k' : InboxRow} :
    k ∈ (t.push k').rows ↔ k ∈ t.rows ∨ k = k' := by
  cases h : t.accepts k' with
  | true => simp [Table.rows_push h]
  | false =>
    have hmem := accepts_eq_false_iff.mp h
    rw [Table.push_of_not_accepts h]
    constructor
    · exact .inl
    · rintro (hk | rfl)
      · exact hk
      · exact hmem

section inbox

variable {s t : Db}

theorem minted_seamInbox {env : Env} {link : SaleLink} {k : ℕ} {specs : List RegisterCommand}
    (h : Minted env link k specs s t) : t.seamInbox = s.seamInbox :=
  h.keeps Db.seamInbox fun _ _ _ => rfl

/-- One call leaves the inbox alone, or claims the key of its delivery in it. -/
theorem effect_seamInbox {c : Call} (h : c.Effect s t) : t.seamInbox = s.seamInbox ∨
    ∃ d, c = .seam d ∧ t.seamInbox = s.seamInbox.push d.key := by
  cases h with
  | refused | replayed | registered | transitioned => exact .inl rfl
  | minted verb fresh unlinked mint => exact .inr ⟨_, rfl, minted_seamInbox mint⟩
  | freeHealed | heldBack | cancelled | paid => exact .inr ⟨_, rfl, rfl⟩

theorem mem_seamInbox_apply {k : InboxRow} (c : Call) (h : k ∈ s.seamInbox.rows) :
    k ∈ (c.apply s).seamInbox.rows := by
  obtain ⟨t, rows, heffect, happly⟩ := c.apply_effect s
  rw [happly, audited_seamInbox]
  rcases effect_seamInbox heffect with hsame | ⟨d, -, hpush⟩
  · rwa [hsame]
  · rw [hpush]
    exact Table.mem_push h

theorem mem_seamInbox_applyAll {k : InboxRow} (cs : List Call) (h : k ∈ s.seamInbox.rows) :
    k ∈ (s.applyAll cs).seamInbox.rows := by
  induction cs generalizing s with
  | nil => exact h
  | cons c cs ih => exact ih (mem_seamInbox_apply c h)

/-- A key appears in the inbox only through a delivery under it. -/
theorem seamInbox_applyAll_of_mem {k : InboxRow} {cs : List Call}
    (h : k ∈ (s.applyAll cs).seamInbox.rows) :
    k ∈ s.seamInbox.rows ∨ ∃ d, Call.seam d ∈ cs ∧ d.key = k := by
  induction cs generalizing s with
  | nil => exact .inl h
  | cons c cs ih =>
    rcases ih (applyAll_cons s c cs ▸ h) with hmem | ⟨d, hd, hkey⟩
    · obtain ⟨t, rows, heffect, happly⟩ := c.apply_effect s
      rw [happly, audited_seamInbox] at hmem
      rcases effect_seamInbox heffect with hsame | ⟨d, rfl, hpush⟩
      · exact .inl (hsame ▸ hmem)
      · rw [hpush] at hmem
        rcases mem_push_iff.mp hmem with hmem | rfl
        · exact .inl hmem
        · exact .inr ⟨d, List.mem_cons_self, rfl⟩
    · exact .inr ⟨d, List.mem_cons_of_mem _ hd, hkey⟩

end inbox

section answers

variable {s : Db} {c : SeamCall}

/-- A delivery under a claimed key answers so and leaves the whole database alone. -/
theorem program_of_claimed (h : c.key ∈ s.seamInbox.rows) :
    c.program.execute Db.absorb s = (.ok alreadyApplied, s) := by
  have hacc := accepts_eq_false_iff.mpr h
  have hsame := claimed_of_not_accepts hacc
  simp only [Db.claimed] at hsame
  simp [c.program_eq, claim, Program.update, Program.bind, Program.execute, Program.notes,
    Program.notesAfter, hacc, hsame]

variable (s c) in
theorem execute_seam : (Call.seam c).program.execute Db.absorb s =
    ((c.program.execute Db.absorb s).1.map .seam, (c.program.execute Db.absorb s).2) :=
  Program.execute_map Db.absorb c.program Answer.seam s

theorem execute_of_claimed (h : c.key ∈ s.seamInbox.rows) :
    (Call.seam c).program.execute Db.absorb s = (.ok (.seam alreadyApplied), s) := by
  rw [execute_seam, program_of_claimed h]
  rfl

theorem answer_of_claimed (h : c.key ∈ s.seamInbox.rows) :
    (Call.seam c).answer s = .ok (.seam alreadyApplied) := by
  rw [Call.answer, execute_of_claimed h]

theorem apply_of_claimed (h : c.key ∈ s.seamInbox.rows) : (Call.seam c).apply s = s := by
  rw [Call.apply, execute_of_claimed h]

theorem answer_eq {c : Call} : c.answer s = (c.program.run s).map Prod.fst := by
  cases h : c.program.run s <;> simp [Call.answer, Program.execute, h, Except.map]

/-- A delivery that is answered has its key in the inbox. -/
theorem mem_seamInbox_of_answer {a : Answer} (h : (Call.seam c).answer s = .ok a) :
    c.key ∈ ((Call.seam c).apply s).seamInbox.rows := by
  by_cases hmem : c.key ∈ s.seamInbox.rows
  · exact mem_seamInbox_apply _ hmem
  · have hacc := accepts_of_not_mem hmem
    obtain ⟨t, rows, heffect, happly⟩ := (Call.seam c).apply_effect s
    rw [happly, audited_seamInbox]
    have hpush : t.seamInbox = s.seamInbox.push c.key := by
      cases heffect with
      | refused hrun => simp [answer_eq, hrun, Except.map] at h
      | replayed hclaimed => exact absurd (accepts_eq_false_iff.mp hclaimed) hmem
      | minted verb fresh unlinked mint => exact minted_seamInbox mint
      | freeHealed | heldBack | cancelled | paid => rfl
    rw [hpush, Table.rows_push hacc]
    simp

/-- A delivery under a free key runs its whole body. -/
theorem run_of_not_claimed (h : c.key ∉ s.seamInbox.rows) :
    c.program.run s = c.body.run (s.claimed c.key.consumer c.key.externalId) := by
  rw [c.run_program, accepts_of_not_mem h, if_pos rfl]

theorem body_outcome {t : Db} {outcome : SeamOutcome} (h : c.body.run s = .ok (outcome, t)) :
    outcome.alreadyApplied = false := by
  cases hverb : c.verb with
  | confirmed grandTotal specs =>
    simp only [SeamCall.body, hverb] at h
    by_cases hlinked : s.linked c.orderId = 0
    · rw [run_mintOrHeal_unlinked hlinked] at h
      cases hmint : (mint c.env (bornLink c.orderId (GrandTotal.grandTotalIsZero grandTotal)) 0
          specs).run s with
      | error e => simp [hmint, Except.map] at h
      | ok r =>
        obtain ⟨rfl, -⟩ : _ = outcome ∧ _ := by simpa [hmint, Except.map] using h
        rfl
    · rw [run_mintOrHeal_linked hlinked] at h
      split at h <;>
      · obtain ⟨rfl, -⟩ := Prod.mk.inj (Except.ok.inj h)
        rfl
  | cancelled =>
    simp only [SeamCall.body, hverb, run_cancelOrder] at h
    obtain ⟨rfl, -⟩ := Prod.mk.inj (Except.ok.inj h)
    rfl
  | paid lineIds =>
    simp only [SeamCall.body, hverb, run_payOrder] at h
    obtain ⟨rfl, -⟩ := Prod.mk.inj (Except.ok.inj h)
    rfl

theorem outcome_of_not_claimed {outcome : SeamOutcome} (h : c.key ∉ s.seamInbox.rows)
    (hanswer : (Call.seam c).answer s = .ok (.seam outcome)) : outcome.alreadyApplied = false := by
  rw [answer_eq, Call.program, Program.bind_eq, Program.run_bind, run_of_not_claimed h] at hanswer
  cases hrun : c.body.run (s.claimed c.key.consumer c.key.externalId) with
  | error e => simp [hrun, Except.map, Except.bind] at hanswer
  | ok r =>
    have heq : r.1 = outcome := by simpa [hrun, Except.map, Except.bind] using hanswer
    exact heq ▸ body_outcome hrun

end answers

section failure

variable {s : Db}

/-- Every table of the schema, without the audit trail. -/
def tables (s : Db) : Db := { s with auditTrails := [] }

/-- A refused call rolls everything back. -/
theorem tables_of_refused {c : Call} {e : EventError} (h : c.answer s = .error e) :
    tables (c.apply s) = tables s := by
  rw [Call.apply_of_refused h]
  rfl

theorem key_free_of_refused {c : SeamCall} {e : EventError}
    (h : (Call.seam c).answer s = .error e) : c.key ∉ s.seamInbox.rows := fun hmem => by
  rw [answer_of_claimed hmem] at h
  cases h

end failure

/-- An entry of a history: a call, or a repetition of a delivery. -/
inductive Entry where
  | call (c : Call)
  | again (c : SeamCall)

/-- The history without its repetitions. -/
def original (history : List Entry) : List Call :=
  history.filterMap fun
    | .call c => some c
    | .again _ => none

/-- The history as it reaches the database. -/
def delivered (history : List Entry) : List Call :=
  history.map fun
    | .call c => c
    | .again c => .seam c

/-- Every repetition repeats a delivery that was answered before it. -/
def RepeatsApplied (s : Db) (history : List Entry) : Prop :=
  ∀ before c after, history = before ++ .again c :: after →
    c.key ∈ s.seamInbox.rows ∨
    ∃ earlier d later a, before = earlier ++ .call (.seam d) :: later ∧ d.key = c.key ∧
      (Call.seam d).answer (s.applyAll (original earlier)) = .ok a

theorem RepeatsApplied.claimed {s : Db} {history before after : List Entry} {c : SeamCall}
    (h : RepeatsApplied s history) (hsplit : history = before ++ .again c :: after) :
    c.key ∈ (s.applyAll (original before)).seamInbox.rows := by
  rcases h before c after hsplit with hmem | ⟨earlier, d, later, a, rfl, hkey, hanswer⟩
  · exact mem_seamInbox_applyAll _ hmem
  · have hclaim := mem_seamInbox_of_answer hanswer
    rw [hkey] at hclaim
    have horig : original (earlier ++ .call (.seam d) :: later) =
        original earlier ++ Call.seam d :: original later := by simp [original]
    rw [horig, applyAll_append, applyAll_cons]
    exact mem_seamInbox_applyAll _ hclaim

/-- Repetitions leave no trace on any prefix of the history. -/
theorem RepeatsApplied.applyAll_eq {s : Db} {history : List Entry} (h : RepeatsApplied s history)
    (before after : List Entry) (hsplit : history = before ++ after) :
    s.applyAll (delivered before) = s.applyAll (original before) := by
  induction before using List.reverseRecOn generalizing after with
  | nil => rfl
  | append_singleton before entry ih =>
    have hprefix := ih (entry :: after) (by simpa using hsplit)
    cases entry with
    | call c =>
      have hdel : delivered (before ++ [.call c]) = delivered before ++ [c] := by simp [delivered]
      have horig : original (before ++ [.call c]) = original before ++ [c] := by simp [original]
      rw [hdel, horig, applyAll_append, applyAll_append, hprefix]
    | again c =>
      have hclaim := h.claimed (show history = before ++ .again c :: after by simpa using hsplit)
      have hdel : delivered (before ++ [.again c]) = delivered before ++ [.seam c] := by
        simp [delivered]
      have horig : original (before ++ [.again c]) = original before := by simp [original]
      rw [hdel, horig, applyAll_append, hprefix]
      exact apply_of_claimed hclaim

/-- Repetitions of applied deliveries are answered and have no effect; a failed delivery
has none either, and a retry under its key runs in full. -/
theorem deliveries_exactlyOnce (s : Db) :
    (∀ history, RepeatsApplied s history → ∀ before after, history = before ++ after →
      s.applyAll (delivered before) = s.applyAll (original before) ∧
      ∀ c rest, after = .again c :: rest →
        (Call.seam c).answer (s.applyAll (delivered before)) = .ok (.seam alreadyApplied)) ∧
    ∀ c e, (Call.seam c).answer s = .error e →
      tables ((Call.seam c).apply s) = tables s ∧
      ∀ cs d, d.key = c.key → (∀ d', Call.seam d' ∈ cs → d'.key ≠ c.key) →
        ∀ u, u = ((Call.seam c).apply s).applyAll cs →
          d.program.run u = d.body.run (u.claimed d.key.consumer d.key.externalId) ∧
          ∀ outcome, (Call.seam d).answer u = .ok (.seam outcome) →
            outcome.alreadyApplied = false := by
  refine ⟨fun history h before after hsplit => ⟨h.applyAll_eq before after hsplit, ?_⟩,
    fun c e hrefused => ⟨tables_of_refused hrefused, ?_⟩⟩
  · rintro c rest rfl
    rw [h.applyAll_eq before _ hsplit]
    exact answer_of_claimed (h.claimed hsplit)
  · rintro cs d hkey hothers u rfl
    have hfree : d.key ∉ (((Call.seam c).apply s).applyAll cs).seamInbox.rows := fun hmem => by
      rcases seamInbox_applyAll_of_mem hmem with hmem | ⟨d', hd', hkey'⟩
      · have hinbox : (tables ((Call.seam c).apply s)).seamInbox = (tables s).seamInbox :=
          congrArg Db.seamInbox (tables_of_refused hrefused)
        simp only [tables] at hinbox
        rw [hkey, hinbox] at hmem
        exact key_free_of_refused hrefused hmem
      · exact hothers d' hd' (hkey'.trans hkey)
    exact ⟨run_of_not_claimed hfree, fun outcome => outcome_of_not_claimed hfree⟩

section sample

/-- Order 7 is confirmed for two attendees of the open event. -/
def confirmedPair : SeamCall :=
  ⟨.counting 1, "events", some "a", 7, none, .confirmed "100" [ann, { ann with name := "Bob" }]⟩

def paidPair : SeamCall := ⟨.counting 5, "events", some "b", 7, none, .paid [3]⟩

/-- Order 8, whose second attendee is of an event that is not there. -/
def confirmedElsewhere : SeamCall :=
  ⟨.counting 9, "events", some "c", 8, none, .confirmed "0" [ann, { ann with eventId := 9 }]⟩

/-- Both facts of the order, each delivered again at the end. -/
def paidHistory : List Entry :=
  [.call (.seam confirmedPair), .call (.seam paidPair), .again confirmedPair, .again paidPair]

theorem paidHistory_repeatsApplied : RepeatsApplied openGig paidHistory := by
  intro before c after hsplit
  match before with
  | [] | [_] => simp [paidHistory] at hsplit
  | [a, b] =>
    obtain ⟨rfl, rfl, rfl, -⟩ : .call (.seam confirmedPair) = a ∧ .call (.seam paidPair) = b ∧
        confirmedPair = c ∧ _ := by simpa [paidHistory] using hsplit
    exact .inr ⟨[], confirmedPair, [.call (.seam paidPair)], _, rfl, rfl, rfl⟩
  | [a, b, d] =>
    obtain ⟨rfl, rfl, rfl, rfl, -⟩ : .call (.seam confirmedPair) = a ∧ .call (.seam paidPair) = b ∧
        .again confirmedPair = d ∧ paidPair = c ∧ _ := by simpa [paidHistory] using hsplit
    exact .inr ⟨[.call (.seam confirmedPair)], paidPair, [.again confirmedPair], _, rfl, rfl, rfl⟩
  | _ :: _ :: _ :: _ :: before => simp [paidHistory] at hsplit

/-- The order is paid once, and the order that is refused at its second attendee leaves no row. -/
theorem deliveries_exactlyOnce_paid :
    openGig.applyAll (delivered paidHistory) = openGig.applyAll (original paidHistory) ∧
    (openGig.applyAll (original paidHistory)).registrations.rows.map (·.state) = [.open, .open] ∧
    tables ((Call.seam confirmedElsewhere).apply openGig) = tables openGig :=
  ⟨((deliveries_exactlyOnce openGig).1 _ paidHistory_repeatsApplied paidHistory [] rfl).1, by decide,
    ((deliveries_exactlyOnce openGig).2 confirmedElsewhere .eventNotFound rfl).1⟩

end sample

end BackboneEvents.SeamDeliveries
