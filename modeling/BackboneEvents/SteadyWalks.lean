import BackboneEvents.SchedulerCalls

/-!
# Walks with steady answers

When the answers for a row do not change, what the ports refuse stays refused: the loop reads
batches until fewer than a batch is due, so it ends exactly when fewer receipts than a batch
are refused.
-/
namespace BackboneEvents.SteadyWalks
open ConstrainedTables DeterministicRuns SchedulerWalks SchedulerTermination SchedulerRounds
  SchedulerCalls

/-- The same answers at every step. -/
def steady (tick : Tick) : Host where
  now := tick.now
  shift := tick.shift
  scan _ := tick.scan
  locked _ := tick.locked
  receiptId _ := tick.receiptId
  renderer _ := tick.renderer
  queue _ := tick.queue
  smsQueue _ := tick.smsQueue

/-- The receipts that do not close. -/
def refusedOf (tick : Tick) (scheduler : SchedulerRow) (event : Event) (ds : List DueReceipt) :
    List DueReceipt :=
  ds.filter (fun d => !(steady tick).closes scheduler event 0 d)

section walk

variable {tick : Tick} {caps : Caps} {scheduler : SchedulerRow} {rest : List SchedulerRow}
  {event : Event} {s : Db} {d : DueReceipt} {ds : List DueReceipt}

theorem closedOf_steady (k : ℕ) (ds : List DueReceipt) :
    (steady tick).closedOf scheduler event k ds =
      ds.filter ((steady tick).closes scheduler event 0) := by
  induction ds generalizing k with
  | nil => rfl
  | cons d ds ih =>
    have hsame : (steady tick).closes scheduler event k d = (steady tick).closes scheduler event 0 d :=
      rfl
    rw [closedOf_cons, ih, List.filter_cons, hsame]
    split <;> rfl

/-- An event that is over refuses nothing. -/
theorem not_over_of_refused (h : refusedOf tick scheduler event ds ≠ []) :
    ¬ event.dateEnd ≤ tick.now := by
  intro hover
  obtain ⟨e, he⟩ := List.exists_mem_of_ne_nil _ h
  have hopen := (List.mem_filter.mp he).2
  have hcloses : (steady tick).closes scheduler event 0 e = true := by
    simp [Host.closes, steady, hover]
  rw [hcloses] at hopen
  cases hopen

variable (caps rest) in
/-- One round leaves what is refused, and takes away what closes in its batch. -/
theorem steady_round (hdue : s.due scheduler.id tick.now = d :: ds) (n : ℕ)
    (summary : SchedulerRunSummary) (deeds : List Deed) : ∃ t more,
      Comes (steady tick) caps scheduler rest
        (onRow caps scheduler rest n s (.readDue event) summary deeds) t
        (if caps.batch ≤ (d :: ds).length then .readDue event else .recompute) more ∧
      refusedOf tick scheduler event (t.due scheduler.id tick.now) =
        refusedOf tick scheduler event (d :: ds) ∧
      ((∃ e ∈ (d :: ds).take caps.batch, (steady tick).closes scheduler event 0 e = true) →
        (t.due scheduler.id tick.now).length < (d :: ds).length) ∧
      (refusedOf tick scheduler event (d :: ds) ≠ [] → 0 < tried more) := by
  obtain ⟨t, more, hcomes, hleft, htried⟩ := walk_round (steady tick) caps scheduler rest hdue n
    summary deeds
  rw [closedOf_steady] at hleft
  have hids : (d :: ds).Pairwise (fun d d' => d.receiptId ≠ d'.receiptId) := hdue ▸ pairwise_due
  refine ⟨t, more, hcomes, ?_, fun ⟨e, he, hcloses⟩ => ?_, fun hrefused => ?_⟩
  · change refusedOf tick scheduler event (t.due scheduler.id (steady tick).now) = _
    rw [hleft, refusedOf, List.filter_filter]
    refine List.filter_congr fun e he => ?_
    cases hcloses : (steady tick).closes scheduler event 0 e with
    | true => rfl
    | false =>
      simp only [Bool.not_false, Bool.true_and, Bool.not_eq_true', List.any_eq_false, beq_iff_eq]
      intro x hx hsame
      obtain ⟨hx, hclosed⟩ := List.mem_filter.mp hx
      have hkeys : ((d :: ds).map DueReceipt.receiptId).Nodup := List.pairwise_map.mpr hids
      rw [List.inj_on_of_nodup_map hkeys (List.mem_of_mem_take hx) he hsame, hcloses] at hclosed
      cases hclosed
  · change (t.due scheduler.id (steady tick).now).length < _
    rw [hleft, List.length_filter_lt_length_iff_exists]
    refine ⟨e, List.mem_of_mem_take he, ?_⟩
    simp only [Bool.not_eq_true', Bool.not_eq_false, List.any_eq_true, beq_iff_eq]
    exact ⟨e, List.mem_filter.mpr ⟨he, hcloses⟩, rfl⟩
  · have hover : ¬ event.dateEnd ≤ (steady tick).now := not_over_of_refused hrefused
    have htotal := htried.total
    rw [Host.tries, if_neg hover, List.length_take, List.length_cons] at htotal
    have hpos := caps.batch_pos
    omega

variable (rest) in
/-- With fewer refused receipts than a batch the loop ends. -/
theorem steady_ends (ds : List DueReceipt) (n : ℕ) (s : Db) (summary : SchedulerRunSummary)
    (deeds : List Deed) (hdue : s.due scheduler.id tick.now = ds)
    (hfew : (refusedOf tick scheduler event ds).length < caps.batch) : ∃ t more,
      Comes (steady tick) caps scheduler rest
        (onRow caps scheduler rest n s (.readDue event) summary deeds) t .recompute more := by
  induction hlen : ds.length using Nat.strongRecOn generalizing ds n s summary deeds with
  | ind len ih =>
  cases ds with
  | nil =>
    have hturn : (Stage.readDue event).turn caps scheduler rest ((steady tick).tick n deeds) summary s =
        ⟨s, .running caps (.row scheduler rest .recompute) summary, []⟩ := by
      change (Stage.readDue event).turn caps scheduler rest tick summary s = _
      simp only [Stage.turn, dueReceipts, hdue, List.take_nil, Stage.ofBatch]
    exact ⟨s, _, .turn hturn .here⟩
  | cons d ds =>
    obtain ⟨t, more, hcomes, hrefused, hshorter, -⟩ := steady_round caps rest hdue n summary deeds
    by_cases hfull : caps.batch ≤ (d :: ds).length
    · rw [if_pos hfull] at hcomes
      obtain ⟨n', summary', hleads⟩ := hcomes
      -- A full batch cannot hold refused receipts only.
      have hcloses : ∃ e ∈ (d :: ds).take caps.batch,
          (steady tick).closes scheduler event 0 e = true := by
        by_contra hnone
        simp only [not_exists, not_and, Bool.not_eq_true] at hnone
        have hall : refusedOf tick scheduler event ((d :: ds).take caps.batch) =
            (d :: ds).take caps.batch := List.filter_eq_self.mpr fun e he => by simp [hnone e he]
        have hsub : (refusedOf tick scheduler event ((d :: ds).take caps.batch)).length ≤
            (refusedOf tick scheduler event (d :: ds)).length :=
          ((List.take_sublist _ _).filter _).length_le
        rw [hall, List.length_take, Nat.min_eq_left hfull] at hsub
        exact absurd hfew (Nat.not_lt_of_le hsub)
      rw [← hrefused] at hfew
      obtain ⟨u, more', hends⟩ := ih _ (hlen ▸ hshorter hcloses) _ n' t summary' (deeds ++ more) rfl
        hfew rfl
      exact ⟨u, _, .of_leads hleads hends⟩
    · rw [if_neg hfull] at hcomes
      exact ⟨t, more, hcomes⟩

variable (rest) in
/-- With a batch of refused receipts the loop goes on for ever. -/
theorem steady_goes_on (N : ℕ) (n : ℕ) (s : Db) (summary : SchedulerRunSummary) (deeds : List Deed)
    (hmany : caps.batch ≤ (refusedOf tick scheduler event (s.due scheduler.id tick.now)).length) :
    ∃ t more, Comes (steady tick) caps scheduler rest
        (onRow caps scheduler rest n s (.readDue event) summary deeds) t (.readDue event) more ∧
      N ≤ tried more := by
  induction N generalizing n s summary deeds with
  | zero => exact ⟨s, [], .here, Nat.zero_le _⟩
  | succ N ih =>
    have hpos := caps.batch_pos
    cases hdue : s.due scheduler.id tick.now with
    | nil =>
      rw [hdue] at hmany
      exact absurd hmany (Nat.not_le_of_lt hpos)
    | cons d ds =>
      rw [hdue] at hmany
      obtain ⟨t, more, hcomes, hrefused, -, htried⟩ := steady_round caps rest hdue n summary deeds
      have hfull : caps.batch ≤ (d :: ds).length := hmany.trans (List.filter_sublist.length_le)
      have hsome : refusedOf tick scheduler event (d :: ds) ≠ [] := by
        intro hnil
        rw [hnil] at hmany
        exact absurd hmany (Nat.not_le_of_lt hpos)
      rw [if_pos hfull] at hcomes
      obtain ⟨n', summary', hleads⟩ := hcomes
      rw [← hrefused] at hmany
      obtain ⟨u, more', hagain, hgrown⟩ := ih n' t summary' (deeds ++ more) hmany
      refine ⟨u, more ++ more', .of_leads hleads hagain, ?_⟩
      have honce := htried hsome
      simp only [tried, List.countP_append] at honce hgrown ⊢
      omega

end walk

/-- The receipts of the row that are due once the missing ones are made, and do not close. -/
def refused (tick : Tick) (caps : Caps) (scheduler : SchedulerRow) (event : Event) (m : Mail)
    (s : Db) : List DueReceipt :=
  let made := (missing caps.batch s m).filterMap (newReceipt tick.receiptId tick.shift m)
  refusedOf tick scheduler event
    ((s.mailRegistrations.rows ++ made).filterMap (s.dueReceipt? scheduler.id tick.now))

/-- The row has no template; or its missing receipts can be made, its event is there, and
fewer receipts than a batch are refused. -/
def GoesThrough (tick : Tick) (caps : Caps) (scheduler : SchedulerRow) (s : Db) : Prop :=
  scheduler.templateRef = none ∨ ∃ m event, s.mail? scheduler.id = some m ∧
    (∀ r ∈ missing caps.batch s m, (newReceipt tick.receiptId tick.shift m r).isSome = true) ∧
    s.event? scheduler.eventId = some event ∧
    (refused tick caps scheduler event m s).length < caps.batch

section call

variable {tick : Tick} {caps : Caps} {scheduler : SchedulerRow} {event : Event} {s t : Db} {m : Mail}
  {born : List MailRegistration}

theorem filterMap_eq_of_mapM {α β : Type} {f : α → Option β} {l : List α} {bs : List β}
    (h : l.mapM f = some bs) : l.filterMap f = bs := by
  induction l generalizing bs with
  | nil => simpa using h
  | cons a l ih =>
    simp only [List.mapM_cons, Option.bind_eq_bind, Option.bind_eq_some_iff] at h
    obtain ⟨b, hb, rest, hrest, hcons⟩ := h
    obtain rfl := Option.some.inj hcons
    rw [List.filterMap_cons, hb, ih hrest]

/-- What is refused can be told before the receipts are made. -/
theorem length_refused (h : Materializes tick.receiptId tick.shift caps.batch m s t born) :
    (refusedOf tick scheduler event (t.due scheduler.id tick.now)).length =
      (refused tick caps scheduler event m s).length := by
  have hsame : t.dueReceipt? scheduler.id tick.now = s.dueReceipt? scheduler.id tick.now := by
    funext x
    simp only [Db.dueReceipt?, Db.registration?, h.registrations]
  rw [refused, filterMap_eq_of_mapM h.made, ← h.receipts, ← hsame]
  exact ((List.perm_insertionSort _ _).filter _).length_eq

/-- The run comes to a summary. -/
def EndsWell (host : Host) (l : Lone) : Prop :=
  ∃ k summary, (host.next^[k] l).pass = .returned (.ok summary)

section ends

variable {host : Host} {l l' : Lone} {summary : SchedulerRunSummary} {e : EventError}

theorem endsWell_of_leads (h : Leads host.next l l') (hpass : l'.pass = .returned (.ok summary)) :
    EndsWell host l := by
  obtain ⟨k, rfl⟩ := h
  exact ⟨k, summary, hpass⟩

theorem not_endsWell_of_error (h : Leads host.next l l') (hpass : l'.pass = .returned (.error e)) :
    ¬ EndsWell host l := by
  rintro ⟨k, summary, hk⟩
  have hsame := h.agree Lone.pass ⟨k, rfl⟩ (by rw [Lone.ended, hpass]; rfl)
    (by rw [Lone.ended, hk]; rfl) (ended_next host) fun a ha => by rw [next_of_ended ha]
  rw [hpass, hk] at hsame
  cases hsame

/-- A run that tries receipts without end does not come to its end. -/
theorem not_endsWell_of_tries (h : ∀ N, ∃ l', Leads host.next l l' ∧ N ≤ tried l'.deeds) :
    ¬ EndsWell host l := by
  rintro ⟨k, summary, hk⟩
  obtain ⟨l', ⟨j, rfl⟩, hmany⟩ := h (tried (host.next^[k] l).deeds + 1)
  have hlast : Leads host.next l (host.next^[k] l) := ⟨k, rfl⟩
  have hended : (host.next^[k] l).ended = true := by rw [Lone.ended, hk]; rfl
  have hbound : tried (host.next^[j] l).deeds ≤ tried (host.next^[k] l).deeds :=
    hlast.le_of_halted hended (countP_next isRender) (ended_next host)
      (fun a ha => by rw [next_of_ended ha]) j
  omega

end ends

/-- The call that has found the event ends well when fewer receipts than a batch are refused. -/
theorem endsWell_readDue_iff {l : Lone}
    (h : Comes (steady tick) caps scheduler [] l t (.readDue event) []) :
    EndsWell (steady tick) l ↔
      (refusedOf tick scheduler event (t.due scheduler.id tick.now)).length < caps.batch := by
  obtain ⟨n, summary, hleads⟩ := h
  by_cases hfew :
      (refusedOf tick scheduler event (t.due scheduler.id tick.now)).length < caps.batch
  · obtain ⟨u, more, n', summary', hwalk⟩ := steady_ends [] _ n t summary (l.deeds ++ []) rfl hfew
    have hlast : Leaves (steady tick) caps [] (onRow caps scheduler [] n' u .recompute summary'
        (l.deeds ++ [] ++ more)) := leaves_recompute _ _ _ _
    obtain ⟨n'', v, summary'', hleaves⟩ := hlast
    exact iff_of_true (endsWell_of_leads ((hleads.trans hwalk).trans hleaves) rfl) hfew
  · refine iff_of_false (not_endsWell_of_tries fun N => ?_) hfew
    obtain ⟨u, more, ⟨n', summary', hwalk⟩, hmany⟩ := steady_goes_on [] N n t summary (l.deeds ++ [])
      (Nat.le_of_not_lt hfew)
    refine ⟨_, hleads.trans hwalk, ?_⟩
    simp only [tried, onRow, List.countP_append] at hmany ⊢
    omega

theorem firstStage_of_template (htemplate : scheduler.templateRef ≠ none) :
    scheduler.firstStage = .materialize := by simp [SchedulerRow.firstStage, htemplate]

variable (tick caps s) in
/-- A row without a template is swept at once. -/
theorem endsWell_of_blank (htemplate : scheduler.templateRef = none) :
    EndsWell (steady tick) (runOne caps scheduler 0 s .zero) := by
  have hpass : (runOne caps scheduler 0 s .zero).pass = .atRows caps .zero [scheduler] := rfl
  have hfirst : scheduler.firstStage = .sweep := by simp [SchedulerRow.firstStage, htemplate]
  rw [eq_onRow hpass, hfirst]
  exact endsWell_of_leads (.head (next_onRow rfl) (.refl _)) rfl

/-- An instant out of range fails the first step. -/
theorem not_endsWell_of_range (htemplate : scheduler.templateRef ≠ none)
    (hm : s.mail? scheduler.id = some m)
    (hborn : (missing caps.batch s m).mapM (newReceipt tick.receiptId tick.shift m) = none) :
    ¬ EndsWell (steady tick) (runOne caps scheduler 0 s .zero) := by
  have hpass : (runOne caps scheduler 0 s .zero).pass = .atRows caps .zero [scheduler] := rfl
  have hturn : Stage.materialize.turn caps scheduler [] tick .zero s =
      ⟨s, .returned (.error (.database "mail_registrations: insert failed")), []⟩ := by
    simp only [Stage.turn, materialize_eq hm, hborn, Option.bind_none]
  rw [eq_onRow hpass, firstStage_of_template htemplate]
  exact not_endsWell_of_error (.head (next_onRow hturn) (.refl _)) rfl

/-- A row whose event is gone fails once its receipts are there. -/
theorem not_endsWell_of_orphan {ids : List Uuid} (htemplate : scheduler.templateRef ≠ none)
    (hok : materializeReceipts tick.receiptId tick.shift scheduler caps.batch s = .ok (ids, t))
    (hevent : t.event? scheduler.eventId = none) :
    ¬ EndsWell (steady tick) (runOne caps scheduler 0 s .zero) := by
  have hpass : (runOne caps scheduler 0 s .zero).pass = .atRows caps .zero [scheduler] := rfl
  have hmaterialize : ∀ n deeds, Stage.materialize.turn caps scheduler []
      ((steady tick).tick n deeds) .zero s = ⟨t, .running caps (.row scheduler [] .findEvent)
        { SchedulerRunSummary.zero with receiptsMaterialized := 0 + ids.length }, []⟩ := by
    intro n deeds
    change Stage.materialize.turn caps scheduler [] tick .zero s = _
    simp only [Stage.turn, hok]
    rfl
  have hfind : ∀ n deeds summary, Stage.findEvent.turn caps scheduler []
      ((steady tick).tick n deeds) summary t = ⟨t, .returned (.error .eventNotFound), []⟩ := by
    intro n deeds summary
    simp only [Stage.turn, findEvent, hevent]
  rw [eq_onRow hpass, firstStage_of_template htemplate]
  exact not_endsWell_of_error (.head (next_onRow (hmaterialize _ _))
    (.head (next_onRow (hfind _ _ _)) (.refl _))) rfl

/-- A row with a template goes through by its own scheduler and event. -/
theorem goesThrough_iff (htemplate : scheduler.templateRef ≠ none)
    (hm : s.mail? scheduler.id = some m) : GoesThrough tick caps scheduler s ↔
      (∀ r ∈ missing caps.batch s m, (newReceipt tick.receiptId tick.shift m r).isSome = true) ∧
        ∃ event, s.event? scheduler.eventId = some event ∧
          (refused tick caps scheduler event m s).length < caps.batch := by
  constructor
  · rintro (hnone | ⟨m', event, hm', hrange, hevent, hfew⟩)
    · exact absurd hnone htemplate
    · obtain rfl := Option.some.inj (hm.symm.trans hm')
      exact ⟨hrange, event, hevent, hfew⟩
  · rintro ⟨hrange, event, hevent, hfew⟩
    exact .inr ⟨m, event, hm, hrange, hevent, hfew⟩

/-- The call on the row ends well exactly when it goes through. -/
theorem endsWell_iff (hm : s.mail? scheduler.id = some m) (hfresh : FreshReceipts s tick.receiptId) :
    EndsWell (steady tick) (runOne caps scheduler 0 s .zero) ↔ GoesThrough tick caps scheduler s := by
  by_cases htemplate : scheduler.templateRef = none
  · exact iff_of_true (endsWell_of_blank tick caps s htemplate) (.inl htemplate)
  rw [goesThrough_iff htemplate hm]
  cases hborn : (missing caps.batch s m).mapM (newReceipt tick.receiptId tick.shift m) with
  | none =>
    refine iff_of_false (not_endsWell_of_range htemplate hm hborn) ?_
    rintro ⟨hrange, -⟩
    obtain ⟨born, hsome⟩ := mapM_isSome hrange
    rw [hborn] at hsome
    cases hsome
  | some born =>
    obtain ⟨receipts, hreceipts⟩ := insertAll_born hfresh hborn
    obtain ⟨ids, t, hok⟩ : ∃ ids t,
        materializeReceipts tick.receiptId tick.shift scheduler caps.batch s = .ok (ids, t) :=
      ⟨_, _, by rw [materialize_eq hm, hborn, Option.bind_some, hreceipts]⟩
    obtain ⟨born', hmade⟩ := materializes_of_ok hok hm
    have hevents : t.event? scheduler.eventId = s.event? scheduler.eventId := by
      rw [Db.event?, hmade.events, Db.event?]
    cases hevent : s.event? scheduler.eventId with
    | none =>
      refine iff_of_false (not_endsWell_of_orphan htemplate hok (hevents.trans hevent)) ?_
      rintro ⟨-, event, hsome, -⟩
      cases hsome
    | some event =>
      have hfound : findEvent scheduler.eventId t = .ok event :=
        findEvent_eq_ok.mpr (hevents.trans hevent)
      have hrange : ∀ r ∈ missing caps.batch s m,
          (newReceipt tick.receiptId tick.shift m r).isSome = true := by
        intro r hr
        obtain ⟨x, -, hx⟩ := exists_image_of_mapM hborn r hr
        rw [hx]
        rfl
      have hpass : (runOne caps scheduler 0 s .zero).pass = .atRows caps .zero [scheduler] := rfl
      have hcomes : Comes (steady tick) caps scheduler [] _ t (.readDue event) [] :=
        comes_readDue [] hpass htemplate hok hfound
      rw [endsWell_readDue_iff hcomes, length_refused hmade]
      constructor
      · intro hfew
        exact ⟨hrange, event, rfl, hfew⟩
      · rintro ⟨-, event', hevent', hfew⟩
        obtain rfl := Option.some.inj hevent'
        exact hfew

end call

end BackboneEvents.SteadyWalks
