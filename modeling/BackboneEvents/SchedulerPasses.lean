import BackboneEvents.SchedulerConvergence

/-!
# Passes that finish a scheduler

A pass claims every row that is due, each once, so the calls on the other rows stand aside
from a row. What one call leaves of it is then what the pass leaves.
-/
namespace BackboneEvents.SchedulerPasses
open ConstrainedTables DeterministicRuns SchedulerWalks SchedulerTermination SchedulerRounds
  SchedulerConvergence

/-- Calls on other rows: they leave the row alone and do nothing for it. -/
structure Aside (schedulerId : Uuid) (s t : Db) (deeds : List Deed) : Prop where
  same : SameFor schedulerId s t
  apart : ∀ deed ∈ deeds, schedulerOf deed ≠ schedulerId

section aside

variable {host : Host} {caps : Caps} {scheduler : SchedulerRow} {pre post rows : List SchedulerRow}
  {schedulerId : Uuid} {m : Mail} {s t u v : Db} {deeds more : List Deed}

theorem aside_row (h : RowRun host caps scheduler s t deeds) (hother : scheduler.id ≠ schedulerId) :
    Aside schedulerId s t deeds := by
  refine ⟨(touches_row h).sameFor hother.symm, ?_⟩
  cases h with
  | swept => simp
  | walked => exact fun deed hdeed => by rwa [schedulerOf_dealt hdeed]

theorem aside_rows (h : RowsRun host caps rows s t deeds)
    (hothers : ∀ scheduler ∈ rows, scheduler.id ≠ schedulerId) : Aside schedulerId s t deeds := by
  induction h with
  | nil s => exact ⟨.refl _ _, by simp⟩
  | cons head tail ih =>
    have hhead := aside_row head (hothers _ List.mem_cons_self)
    have htail := ih fun _ h => hothers _ (List.mem_cons_of_mem _ h)
    refine ⟨hhead.same.trans htail.same, fun deed hdeed => ?_⟩
    exact (List.mem_append.mp hdeed).elim (hhead.apart deed) (htail.apart deed)

/-- The calls before a row, on it and after it. -/
theorem rowsRun_append (h : RowsRun host caps (pre ++ scheduler :: post) s t deeds) :
    ∃ u v before own after, RowsRun host caps pre s u before ∧ RowRun host caps scheduler u v own ∧
      RowsRun host caps post v t after ∧ deeds = before ++ (own ++ after) := by
  induction pre generalizing s deeds with
  | nil =>
    cases h with
    | cons head tail => exact ⟨_, _, [], _, _, .nil _, head, tail, rfl⟩
  | cons first pre ih =>
    cases h with
    | cons head tail =>
      obtain ⟨u, v, before, own, after, hbefore, hown, hafter, rfl⟩ := ih tail
      exact ⟨u, v, _, own, after, .cons head hbefore, hown, hafter, (List.append_assoc _ _ _).symm⟩

theorem sameFor_dueBy {shift : Shift} {last : Timestamp} (h : SameFor m.id s t)
    (hdue : DueBy shift last m s) : DueBy shift last m t := by
  intro r hr hevent heligible
  rw [h.registrations] at hr
  obtain ⟨hstored, hmissing⟩ := hdue r hr hevent heligible
  refine ⟨fun x hx hscheduler hregistration => ?_, ?_⟩
  · exact hstored x ((h.receipts r hr heligible x hscheduler hregistration).mp hx) hscheduler
      hregistration
  · rwa [h.hasReceipt hr heligible]

theorem sameFor_sentOf (h : SameFor m.id s t) {r : Registration} (hr : r ∈ s.registrations.rows)
    (heligible : r.eligible = true) : sentOf t m.id r.id = sentOf s m.id r.id := by
  rw [sentOf, h.hasSentReceipt hr heligible, sentOf]

/-- The calls on other rows before and after change nothing of it. -/
theorem drained_of_aside {before own after : List Deed} (hbefore : Aside m.id s t before)
    (h : Drained host caps m t u own) (hafter : Aside m.id u v after) :
    Drained host caps m s v (before ++ (own ++ after)) where
  events := hafter.same.events.trans (h.events.trans hbefore.same.events)
  registrations := hafter.same.registrations.trans (h.registrations.trans hbefore.same.registrations)
  ledger r hr heligible := by
    have hrt : r ∈ t.registrations.rows := hbefore.same.registrations ▸ hr
    have hru : r ∈ u.registrations.rows := h.registrations ▸ hrt
    rw [sameFor_sentOf hafter.same hru heligible, h.ledger r hrt heligible,
      sameFor_sentOf hbefore.same hr heligible, deliveries, deliveries, List.countP_append,
      List.countP_append, ← deliveries, ← deliveries, ← deliveries, deliveries_of_apart hbefore.apart,
      deliveries_of_apart hafter.apart, Nat.zero_add, Nat.add_zero]
  dropped p e now hover hp := by
    have hown : Deed.overdue p e now ∈ own := by
      rcases List.mem_append.mp hover with hover | hover
      · exact absurd hp (hbefore.apart _ hover)
      · exact (List.mem_append.mp hover).resolve_right fun hover => hafter.apart _ hover hp
    obtain ⟨hevent, hended⟩ := h.dropped p e now hown hp
    rw [Db.event?, hbefore.same.events] at hevent
    exact ⟨hevent, hended⟩
  left := by
    rw [hafter.same.unmaterialized rfl, h.left, hbefore.same.unmaterialized rfl]
  dues last hdue := sameFor_dueBy hafter.same (h.dues last (sameFor_dueBy hbefore.same hdue))
  mail := by
    obtain ⟨m', hm', hplan, hdone, harmed⟩ := h.mail
    refine ⟨m', hafter.same.mail.trans hm', hplan, ?_, ?_⟩
    · rw [hafter.same.workRemains rfl, hdone]
    · rwa [hafter.same.unmaterialized rfl]
  done hcap hdue := by
    rw [← hbefore.same.unmaterialized rfl] at hcap
    rw [hafter.same.workRemains rfl]
    exact h.done hcap (sameFor_dueBy hbefore.same hdue)

end aside

section claim

variable {s : Db} {now : Timestamp} {scan : Uuid → ℕ} {locked : Uuid → Bool} {limit : ℕ} {m : Mail}

variable (scan) in
/-- A limit that covers the claimable rows claims them all. -/
theorem claimDue_perm (hcap : (s.mails.rows.filter (s.claimable now)).length ≤ limit)
    (hunlocked : ∀ id, locked id = false) :
    (claimDue limit now scan locked s).Perm
      ((s.mails.rows.filter (s.claimable now)).map Mail.schedulerRow) := by
  have hdue : (fun m : Mail => s.claimable now m && !locked m.id) = s.claimable now := by
    funext m
    rw [hunlocked, Bool.not_false, Bool.and_true]
  simp only [claimDue, scanned, hdue]
  rw [List.take_of_length_le (by simpa using hcap)]
  refine List.Perm.map _ ?_
  exact (List.perm_insertionSort _ _).trans
    ((List.perm_insertionSort _ _).trans (List.perm_insertionSort _ _))

variable (scan) in
/-- A claimable row is claimed once among others. -/
theorem exists_claimed (hcap : (s.mails.rows.filter (s.claimable now)).length ≤ limit)
    (hunlocked : ∀ id, locked id = false) (hm : m ∈ s.mails.rows)
    (hclaimable : s.claimable now m = true) :
    ∃ pre post, claimDue limit now scan locked s = pre ++ m.schedulerRow :: post ∧
      (∀ scheduler ∈ pre, scheduler.id ≠ m.id) ∧ ∀ scheduler ∈ post, scheduler.id ≠ m.id := by
  have hperm := claimDue_perm scan hcap hunlocked
  have hids := @claimDue_pairwise s limit now scan locked
  have hmem := hperm.symm.subset
    (List.mem_map_of_mem (f := Mail.schedulerRow) (List.mem_filter.mpr ⟨hm, hclaimable⟩))
  obtain ⟨pre, post, hsplit⟩ := List.append_of_mem hmem
  rw [hsplit, List.pairwise_append, List.pairwise_cons] at hids
  obtain ⟨-, ⟨hpost, -⟩, hpre⟩ := hids
  exact ⟨pre, post, hsplit, fun scheduler h => hpre scheduler h _ List.mem_cons_self,
    fun scheduler h => (hpost scheduler h).symm⟩

theorem mem_claimed (hcap : (s.mails.rows.filter (s.claimable now)).length ≤ limit)
    (hunlocked : ∀ id, locked id = false) {scheduler : SchedulerRow}
    (h : scheduler ∈ claimDue limit now scan locked s) :
    ∃ m ∈ s.mails.rows, Copies m scheduler ∧ (s.event? m.eventId).isSome = true := by
  obtain ⟨m, hm, rfl⟩ := List.mem_map.mp ((claimDue_perm scan hcap hunlocked).subset h)
  obtain ⟨hm, hclaimable⟩ := List.mem_filter.mp hm
  simp only [Db.claimable, Bool.and_eq_true] at hclaimable
  exact ⟨m, hm, rfl, Option.isSome_of_any hclaimable.1.2⟩

end claim

/-- The ports accept every call of the pass, its claim limit covers the rows that are due, and
each materialization draws unused ids. -/
structure Obliges (host : Host) (caps : Caps) (s : Db) : Prop where
  obliging : Obliging host
  capped : (s.mails.rows.filter (s.claimable host.now)).length ≤ caps.cronLimit
  fresh : ∀ l, Leads host.next (Entry.runDueSchedulers.lone caps 0 s) l → l.ended = false →
    FreshReceipts l.db (host.receiptId l.steps)

/-- A pass that still walks these rows. -/
structure Underway (host : Host) (caps : Caps) (s : Db) (rows : List SchedulerRow) (l : Lone) :
    Prop where
  reached : Leads host.next (Entry.runDueSchedulers.lone caps 0 s) l
  fit : Fit host.shift l.db
  stored : ∀ scheduler ∈ rows, ∃ m ∈ l.db.mails.rows, Copies m scheduler ∧
    (l.db.event? m.eventId).isSome = true

section pass

variable {host : Host} {caps : Caps} {m : Mail} {s t : Db} {rows rest : List SchedulerRow} {l l' : Lone}
  {scheduler : SchedulerRow} {summary : SchedulerRunSummary} {deeds : List Deed}

theorem Underway.ready (h : Underway host caps s (scheduler :: rest) l) (hobliges : Obliges host caps s)
    (hpass : l.pass = .atRows caps summary (scheduler :: rest)) : Ready host caps scheduler l := by
  obtain ⟨m, hm, hcopies, hevent⟩ := h.stored scheduler List.mem_cons_self
  have hrunning : l.ended = false := by rw [Lone.ended, hpass]; rfl
  exact ready_of_fit h.fit (hobliges.fresh l h.reached hrunning) hm hcopies hevent

theorem Underway.step (h : Underway host caps s (scheduler :: rest) l)
    (hleads : Leads host.next l l') (hrow : RowRun host caps scheduler l.db l'.db deeds) :
    Underway host caps s rest l' := by
  have htouches := touches_row hrow
  refine ⟨h.reached.trans hleads, h.fit.touches htouches, fun scheduler' hmem => ?_⟩
  obtain ⟨m, hm, hcopies, hevent⟩ := h.stored scheduler' (List.mem_cons_of_mem _ hmem)
  obtain ⟨m', hm', hplan⟩ := exists_plan htouches.plans.symm hm
  refine ⟨m', hm', hcopies.of_plan hplan, ?_⟩
  rwa [event_of_plan hplan, Db.event?, htouches.events]

theorem fit_rows (h : RowsRun host caps rows s t deeds) (hfit : Fit host.shift s) :
    Fit host.shift t := by
  induction h with
  | nil s => exact hfit
  | cons head tail ih => exact ih (hfit.touches (touches_row head))

theorem claimable_propagated (limit : ℕ) (scan : Uuid → ℕ) (now : Timestamp) :
    (propagateCancellations limit scan s).2.claimable now = s.claimable now := by
  funext m
  rw [Db.claimable, (sameFor_propagated limit scan s m.id).workRemains rfl, Db.claimable]
  rfl

/-- The rows a pass claims after it has propagated the cancellations. -/
def claimedBy (host : Host) (caps : Caps) (s : Db) : List SchedulerRow :=
  claimDue caps.cronLimit host.now (host.scan 1) (host.locked 1)
    (propagateCancellations caps.cronLimit (host.scan 0) s).2

theorem leads_claimed (host : Host) (caps : Caps) (s : Db) : ∃ summary,
    Leads host.next (Entry.runDueSchedulers.lone caps 0 s)
      ⟨2, (propagateCancellations caps.cronLimit (host.scan 0) s).2,
        .atRows caps summary (claimedBy host caps s), []⟩ :=
  ⟨_, .head rfl (.head rfl (.refl _))⟩

/-- A pass that claims the row goes through and drains it. -/
theorem pass_drains (h : Obliges host caps s) (hfit : Fit host.shift s) (hm : m ∈ s.mails.rows)
    (htemplate : m.templateRef ≠ none) (hclaimable : s.claimable host.now m = true) :
    ∃ l, Leads host.next (Entry.runDueSchedulers.lone caps 0 s) l ∧ l.ended = true ∧
      Fit host.shift l.db ∧ Drained host caps m s l.db l.deeds := by
  have hsame := sameFor_propagated caps.cronLimit (host.scan 0) s m.id
  have hcapped : ((propagateCancellations caps.cronLimit (host.scan 0) s).2.mails.rows.filter
      ((propagateCancellations caps.cronLimit (host.scan 0) s).2.claimable host.now)).length ≤
        caps.cronLimit := by
    rw [claimable_propagated]
    exact h.capped
  have hunlocked := h.obliging.unlocked 1
  obtain ⟨pre, post, hsplit, hpre, hpost⟩ := exists_claimed (host.scan 1) hcapped hunlocked
    hm (by rwa [claimable_propagated])
  obtain ⟨summary, hclaimed⟩ := leads_claimed host caps s
  have hunderway : Underway host caps s (claimedBy host caps s) _ :=
    ⟨hclaimed, hfit.propagated caps.cronLimit (host.scan 0),
      fun scheduler hmem => mem_claimed hcapped hunlocked hmem⟩
  obtain ⟨n, t, summary', deeds, hleads, hrows⟩ := rows_run h.obliging rfl hunderway
    (fun _ _ _ _ hunder hpass => hunder.ready h hpass)
    (fun _ _ _ _ _ hunder hleads hrow => hunder.step hleads hrow)
  refine ⟨_, hclaimed.trans hleads, rfl, fit_rows hrows hunderway.fit, ?_⟩
  rw [claimedBy, hsplit] at hrows
  obtain ⟨u, v, before, own, after, hbefore, hown, hafter, rfl⟩ := rowsRun_append hrows
  have hbefore := aside_rows hbefore hpre
  have hmu : m ∈ u.mails.rows := Table.find_mem (hbefore.same.mail.trans (mail?_eq_some hm))
  have hstart : Aside m.id s u before := ⟨hsame.trans hbefore.same, hbefore.apart⟩
  have hdrained := drained_of_aside hstart (row_drained hown hmu (copies_schedulerRow m) htemplate)
    (aside_rows hafter hpost)
  exact hdrained

end pass

/-- Passes by these hosts in turn, each where the one before has ended. -/
inductive Passes (caps : Caps) : List Host → Db → Db → List Deed → Prop
  | nil (s : Db) : Passes caps [] s s []
  | cons {host : Host} {hosts : List Host} {s t : Db} {l : Lone} {deeds : List Deed}
      (head : Leads host.next (Entry.runDueSchedulers.lone caps 0 s) l) (ended : l.ended = true)
      (tail : Passes caps hosts l.db t deeds) : Passes caps (host :: hosts) s t (l.deeds ++ deeds)

/-- Each of the passes is obliged in the state it starts from. -/
def Served (caps : Caps) : List Host → Db → Prop
  | [], _ => True
  | host :: hosts, s => Obliges host caps s ∧ ∀ l,
      Leads host.next (Entry.runDueSchedulers.lone caps 0 s) l → l.ended = true →
        Served caps hosts l.db

/-- Every eligible registration of the row's event has one sent receipt, for which one message
went out or was dropped, here or before; and the row is done. -/
structure Converged (m : Mail) (s t : Db) (deeds : List Deed) : Prop where
  registrations : t.registrations = s.registrations
  sent : ∀ r ∈ s.registrations.rows, r.eventId = m.eventId → r.eligible = true →
    t.mailRegistrations.rows.countP (fun x =>
      x.schedulerId == m.id && x.registrationId == r.id && x.mailSent) = 1
  delivered : ∀ r ∈ s.registrations.rows, r.eventId = m.eventId → r.eligible = true →
    sentOf s m.id r.id + deliveries deeds m.id r.id = 1
  dropped : ∀ p e now, Deed.overdue p e now ∈ deeds → p.schedulerId = m.id →
    s.event? m.eventId = some e ∧ e.dateEnd ≤ now
  done : ∃ m' ∈ t.mails.rows, m'.id = m.id ∧ m'.mailDone = true

section passes

variable {host : Host} {hosts : List Host} {caps : Caps} {m m' : Mail} {s t u : Db} {l : Lone}
  {deeds more : List Deed}

/-- A pass has one end. -/
theorem passes_cons (hleads : Leads host.next (Entry.runDueSchedulers.lone caps 0 s) l)
    (hended : l.ended = true) (h : Passes caps (host :: hosts) s t deeds) :
    ∃ more, Passes caps hosts l.db t more ∧ deeds = l.deeds ++ more := by
  cases h with
  | cons hleads' hended' tail =>
    have hsame := hleads'.agree (fun l => (l.db, l.deeds)) hleads hended' hended
      (ended_next host) (fun a ha => by rw [next_of_ended ha])
    obtain ⟨hdb, hdeeds⟩ := Prod.mk.inj hsame
    exact ⟨_, hdb ▸ tail, by rw [hdeeds]⟩

/-- One sent receipt, and not two. -/
theorem countP_sent {schedulerId registrationId : Uuid}
    (h : s.hasSentReceipt schedulerId registrationId = true) :
    s.mailRegistrations.rows.countP (fun x => x.schedulerId == schedulerId &&
      x.registrationId == registrationId && x.mailSent) = 1 := by
  have hpairs : s.mailRegistrations.rows.Pairwise (fun x y =>
      (x.schedulerId, x.registrationId) ≠ (y.schedulerId, y.registrationId)) := by
    refine s.mailRegistrations.unique.imp fun hapart hsame => ?_
    obtain ⟨hs, hr⟩ := Prod.mk.inj hsame
    simp [clash, hs, hr] at hapart
  have hfew := countP_key_le_one _ hpairs (schedulerId, registrationId)
  have hbound : s.mailRegistrations.rows.countP (fun x => x.schedulerId == schedulerId &&
      x.registrationId == registrationId && x.mailSent) ≤ _ :=
    (List.countP_mono_left fun x _ hx => by
      simp only [Bool.and_eq_true, beq_iff_eq] at hx
      simp [hx.1.1, hx.1.2]).trans hfew
  obtain ⟨x, hx, hscheduler, hregistration, hsent⟩ := hasSentReceipt_iff.mp h
  have hpos : 0 < s.mailRegistrations.rows.countP (fun x => x.schedulerId == schedulerId &&
      x.registrationId == registrationId && x.mailSent) :=
    List.countP_pos_iff.mpr ⟨x, hx, by simp [hscheduler, hregistration, hsent]⟩
  omega

/-- The pass that leaves no work converges. -/
theorem converged_of_drained (h : Drained host caps m s t deeds)
    (hdone : t.workRemains m = false) : Converged m s t deeds where
  registrations := h.registrations
  sent r hr hevent heligible :=
    countP_sent (workRemains_eq_false_iff.mp hdone r (h.registrations ▸ hr) hevent heligible)
  delivered r hr hevent heligible := by
    rw [← h.ledger r hr heligible, sentOf,
      workRemains_eq_false_iff.mp hdone r (h.registrations ▸ hr) hevent heligible]
    rfl
  dropped := h.dropped
  done := by
    obtain ⟨m', hm', hplan, hmail, -⟩ := h.mail
    refine ⟨m', Table.find_mem hm', id_of_plan hplan, ?_⟩
    rw [hmail, hdone]
    rfl

/-- An earlier pass adds its own messages. -/
theorem Converged.prepend (h : Converged m' t u more) (hplan : plan m' = plan m)
    (hpass : Drained host caps m s t deeds) : Converged m s u (deeds ++ more) := by
  have hid := id_of_plan hplan
  have hevent' := event_of_plan hplan
  refine ⟨h.registrations.trans hpass.registrations, fun r hr hevent heligible => ?_,
    fun r hr hevent heligible => ?_, fun p e now hover hp => ?_, ?_⟩
  · rw [← hid]
    exact h.sent r (hpass.registrations ▸ hr) (hevent.trans hevent'.symm) heligible
  · have hlater := h.delivered r (hpass.registrations ▸ hr) (hevent.trans hevent'.symm) heligible
    rw [hid, hpass.ledger r hr heligible] at hlater
    rwa [deliveries, List.countP_append, ← Nat.add_assoc]
  · rcases List.mem_append.mp hover with hover | hover
    · exact hpass.dropped p e now hover hp
    · have hlater := h.dropped p e now hover (hp.trans hid.symm)
      rwa [hevent', Db.event?, hpass.events] at hlater
  · rw [← hid]
    exact h.done

/-- The row after a pass that left receipts to materialize is due at once. -/
theorem claimable_drained {now : Timestamp} (h : Drained host caps m s t deeds)
    (hclaimable : s.claimable host.now m = true) (hlater : host.now ≤ now)
    (hleft : t.unmaterialized m ≠ []) :
    ∃ m' ∈ t.mails.rows, plan m' = plan m ∧ t.claimable now m' = true := by
  obtain ⟨m', hm', hplan, hdone, harmed⟩ := h.mail
  have hwork := workRemains_of_unmaterialized hleft
  simp only [Db.claimable, Bool.and_eq_true] at hclaimable
  refine ⟨m', Table.find_mem hm', hplan, ?_⟩
  simp only [Db.claimable, hdone, hwork, harmed hleft, workRemains_of_plan hplan,
    event_of_plan hplan, Db.event?, h.events]
  simp only [Bool.not_not, Option.any_some, Bool.true_and, Bool.and_true, Bool.and_eq_true,
    decide_eq_true_eq]
  exact ⟨hlater, hclaimable.1.2⟩

end passes

/-- As many passes as there are batches of missing receipts, the last one no earlier than any
due date, leave one sent receipt for each eligible registration, and the row done. -/
theorem schedulers_converge {caps : Caps} {shift : Shift} {first : Host} {later : List Host}
    {s : Db} {m : Mail} (hm : m ∈ s.mails.rows) (htemplate : m.templateRef ≠ none)
    (hclaimable : s.claimable first.now m = true)
    (hcount : (first :: later).length =
      max 1 (((s.unmaterialized m).length + caps.batch - 1) / caps.batch))
    (htimes : (first :: later).Pairwise (fun a b => a.now ≤ b.now))
    (hdue : DueBy shift ((first :: later).getLast (List.cons_ne_nil _ _)).now m s)
    (hshift : ∀ host ∈ first :: later, host.shift = shift) (hfit : Fit shift s)
    (hserved : Served caps (first :: later) s) :
    (∃ t deeds, Passes caps (first :: later) s t deeds) ∧
      ∀ t deeds, Passes caps (first :: later) s t deeds → Converged m s t deeds := by
  have hpos := caps.batch_pos
  induction later generalizing first s m with
  | nil =>
    obtain rfl := hshift first List.mem_cons_self
    obtain ⟨l, hleads, hended, -, hdrained⟩ := pass_drains hserved.1 hfit hm htemplate hclaimable
    refine ⟨⟨_, _, .cons hleads hended (.nil _)⟩, fun t deeds hpasses => ?_⟩
    obtain ⟨more, hnil, rfl⟩ := passes_cons hleads hended hpasses
    cases hnil
    rw [List.append_nil]
    have hfew : (s.unmaterialized m).length ≤ caps.batch := by
      by_contra hmany
      have htwo : 2 ≤ ((s.unmaterialized m).length + caps.batch - 1) / caps.batch :=
        (Nat.le_div_iff_mul_le hpos).mpr (by omega)
      rw [List.length_singleton] at hcount
      omega
    exact converged_of_drained hdrained (hdrained.done hfew hdue)
  | cons second rest ih =>
    obtain rfl := hshift first List.mem_cons_self
    obtain ⟨l, hleads, hended, hfit', hdrained⟩ :=
      pass_drains hserved.1 hfit hm htemplate hclaimable
    obtain ⟨hfirst, htimes'⟩ := List.pairwise_cons.mp htimes
    have hceil : (rest.length + 2) = ((s.unmaterialized m).length + caps.batch - 1) / caps.batch := by
      rw [List.length_cons, List.length_cons] at hcount
      omega
    have hmany : caps.batch < (s.unmaterialized m).length := by
      have htwo := (Nat.le_div_iff_mul_le hpos).mp (show 2 ≤ _ from hceil ▸ Nat.le_add_left 2 _)
      omega
    have hleft : l.db.unmaterialized m ≠ [] := by
      refine List.ne_nil_of_length_pos ?_
      rw [hdrained.left]
      omega
    obtain ⟨m', hm', hplan, hclaimable'⟩ := claimable_drained hdrained hclaimable
      (hfirst second List.mem_cons_self) hleft
    have hcount' : (second :: rest).length =
        max 1 (((l.db.unmaterialized m').length + caps.batch - 1) / caps.batch) := by
      have hceil' : ((s.unmaterialized m).length + caps.batch - 1) / caps.batch =
          ((s.unmaterialized m).length - caps.batch + caps.batch - 1) / caps.batch + 1 := by
        rw [← Nat.add_div_right _ hpos]
        congr 1
        omega
      rw [unmaterialized_of_plan hplan, hdrained.left, List.length_cons]
      omega
    have hdue' : DueBy first.shift ((second :: rest).getLast (List.cons_ne_nil _ _)).now m' l.db := by
      have hlast := hdrained.dues _ hdue
      rw [List.getLast_cons (List.cons_ne_nil _ _)] at hlast
      exact dueBy_of_plan hplan hlast
    obtain ⟨⟨t, deeds, hpasses⟩, hall⟩ := ih hm' (by rwa [template_of_plan hplan]) hclaimable' hcount'
      htimes' hdue' (fun host h => hshift host (List.mem_cons_of_mem _ h)) hfit'
      (hserved.2 l hleads hended)
    refine ⟨⟨t, _, .cons hleads hended hpasses⟩, fun t deeds hpasses => ?_⟩
    obtain ⟨more, hmore, rfl⟩ := passes_cons hleads hended hpasses
    exact (hall t more hmore).prepend hplan hdrained

section sample

/-- Ports that accept everything, and ids that grow with the steps from a start. -/
def willing (start : ℕ) : Host where
  now := 0
  shift created _ _ := some created
  scan _ := id
  locked _ _ := false
  receiptId k r := start + 10 * k + r
  renderer _ _ _ _ := .ok ⟨"", "", ""⟩
  queue _ _ _ := .ok ()
  smsQueue _ _ _ := .ok ()

def oneAtATime : Caps := ⟨1, 1000, Nat.one_pos, Caps.default.cronLimit_pos⟩

def willingPass (start : ℕ) (s : Db) (k : ℕ) : Lone :=
  (willing start).next^[k] (Entry.runDueSchedulers.lone oneAtATime 0 s)

def twoGuests : Db := notice.next (.register (.counting 2) ann)

theorem willing_obliges {start n : ℕ} {s : Db} (hend : (willingPass start s n).ended = true)
    (hcap : (s.mails.rows.filter (s.claimable 0)).length ≤ 1000)
    (hids : ∀ k < n, ∀ x ∈ (willingPass start s k).db.mailRegistrations.rows,
      x.id < start + 10 * (willingPass start s k).steps) :
    Obliges (willing start) oneAtATime s := by
  refine ⟨⟨fun _ _ _ _ => rfl, fun _ _ _ => rfl, fun _ _ _ => rfl, fun _ _ => rfl⟩, hcap, ?_⟩
  rintro l ⟨k, rfl⟩ hrunning
  have hkn : k < n := by
    by_contra hnk
    obtain ⟨d, rfl⟩ := Nat.exists_eq_add_of_le (Nat.le_of_not_lt hnk)
    rw [Nat.add_comm, Function.iterate_add_apply] at hrunning
    have hstill : Lone.ended ((willing start).next^[d] (willingPass start s n)) = _ :=
      iterate_of_halted (ended_next _) (fun l h => (ended_next _ l h).trans h.symm) d hend
    exact absurd ((hstill.trans hend).symm.trans hrunning) (by decide)
  refine ⟨fun x hx r => ?_, fun r r' h => Nat.add_left_cancel h⟩
  exact Nat.ne_of_lt (Nat.lt_of_lt_of_le (hids k hkn x hx) (Nat.le_add_right _ _))

theorem willing_end {start n : ℕ} {s : Db} (hend : (willingPass start s n).ended = true) {l : Lone}
    (hleads : Leads (willing start).next (Entry.runDueSchedulers.lone oneAtATime 0 s) l)
    (hended : l.ended = true) : l.db = (willingPass start s n).db :=
  hleads.agree Lone.db ⟨n, rfl⟩ hended hend (ended_next _)
    fun l h => by rw [next_of_ended h]

theorem newReceipt_gig {receiptId : Uuid → Uuid} {shift : Shift} (r : Registration) :
    newReceipt receiptId shift gigScheduler r =
      some ⟨receiptId r.id, gigScheduler.id, r.id, r.createdAt, false, none⟩ := by
  cases h : r.createdAt <;> simp [newReceipt, h, gigScheduler]

/-- Two guests and batches of one: two passes. -/
theorem schedulers_converge_twoGuests :
    (∃ t deeds, Passes oneAtATime [willing 0, willing 1000] twoGuests t deeds) ∧
      ∀ t deeds, Passes oneAtATime [willing 0, willing 1000] twoGuests t deeds →
        Converged gigScheduler twoGuests t deeds := by
  have hmails : ∀ m ∈ twoGuests.mails.rows, m = gigScheduler := by decide
  have hreachable : ∀ r ∈ twoGuests.registrations.rows, reachable .mail r = true := by decide
  have hborn : ∀ r ∈ twoGuests.registrations.rows,
      r.createdAt.all (fun due => decide (due ≤ 0)) = true := by decide
  have hnone : twoGuests.mailRegistrations.rows = [] := by decide
  refine @schedulers_converge oneAtATime (fun created _ _ => some created) (willing 0) _ twoGuests
    gigScheduler (by decide) (by decide) (by decide) (by decide) (by decide) ?_
    (fun host hhost => ?_) ⟨?_, ?_⟩ ?_
  · intro r hr _ _
    refine ⟨fun x hx => ?_, fun _ receiptId x hx => ?_⟩
    · rw [hnone] at hx
      cases hx
    · rw [newReceipt_gig] at hx
      obtain rfl := Option.some.inj hx
      exact hborn r hr
  · rcases List.mem_pair.mp hhost with rfl | rfl <;> rfl
  · intro m hm _ r _ receiptId
    rw [hmails m hm, newReceipt_gig]
    rfl
  · intro m hm _ r hr _ _
    rw [hmails m hm]
    exact hreachable r hr
  · refine ⟨willing_obliges (n := 14) (by decide) (by decide) (by decide), fun l hleads hended => ?_⟩
    rw [willing_end (n := 14) (by decide) hleads hended]
    exact ⟨willing_obliges (n := 14) (by decide) (by decide) (by decide), fun _ _ _ => trivial⟩

end sample

end BackboneEvents.SchedulerPasses
