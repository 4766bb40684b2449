import BackboneEvents.DeterministicRuns
import BackboneEvents.SchedulerService

/-!
# One scheduler row walked alone

With the clock frozen and no other writer, a walk reads its due receipts batch after batch.
A receipt that a port refuses stays due, so a full batch that holds one is read again and
the receipt is tried again. The walk ends, and tries no receipt twice, exactly when every
receipt of the full batches closes at its first try.
-/
namespace BackboneEvents.SchedulerWalks
open ConstrainedTables DeterministicRuns

section due

variable {s : Db} {schedulerId : Uuid} {now : Timestamp}

theorem lex_total (d e : ℤ) (i j : ℕ) :
    (d < e ∨ d = e ∧ i ≤ j) ∨ (e < d ∨ e = d ∧ j ≤ i) := by omega

theorem lex_trans {d e f : ℤ} {i j k : ℕ} (h : d < e ∨ d = e ∧ i ≤ j)
    (h' : e < f ∨ e = f ∧ j ≤ k) : d < f ∨ d = f ∧ i ≤ k := by omega

theorem lex_antisymm {d e : ℤ} {i j : ℕ} (h : d < e ∨ d = e ∧ i ≤ j)
    (h' : e < d ∨ e = d ∧ j ≤ i) : i = j := by omega

instance : Std.Total (fun a b : DueReceipt => a.notAfter b = true) where
  total a b := by
    cases ha : a.scheduledDate <;> cases hb : b.scheduledDate <;>
      simp only [DueReceipt.notAfter, ha, hb, decide_eq_true_eq, true_or, or_true]
    · exact Nat.le_total _ _
    · exact lex_total _ _ _ _

instance : IsTrans DueReceipt (fun a b => a.notAfter b = true) where
  trans a b c := by
    cases ha : a.scheduledDate <;> cases hb : b.scheduledDate <;> cases hc : c.scheduledDate <;>
      simp only [DueReceipt.notAfter, ha, hb, hc, decide_eq_true_eq, Bool.false_eq_true,
        false_imp_iff, imp_true_iff]
    · exact Nat.le_trans
    · exact lex_trans

/-- Sorting commutes with a filter when the order separates the elements. -/
theorem filter_insertionSort {α : Type} {r : α → α → Prop} [DecidableRel r] [Std.Total r]
    [IsTrans α r] {l : List α} (hanti : ∀ a ∈ l, ∀ b ∈ l, r a b → r b a → a = b) (p : α → Bool) :
    (l.insertionSort r).filter p = (l.filter p).insertionSort r := by
  refine List.Perm.eq_of_pairwise (fun a b ha hb => ?_)
    ((List.pairwise_insertionSort r l).filter p) (List.pairwise_insertionSort r _)
    (((List.perm_insertionSort r l).filter p).trans (List.perm_insertionSort r _).symm)
  refine hanti a ?_ b ?_
  · exact (List.mem_insertionSort r).mp (List.mem_filter.mp ha).1
  · exact (List.mem_filter.mp ((List.mem_insertionSort r).mp hb)).1

theorem due_antisymm {d d' : DueReceipt}
    (hd : d ∈ s.mailRegistrations.rows.filterMap (s.dueReceipt? schedulerId now))
    (hd' : d' ∈ s.mailRegistrations.rows.filterMap (s.dueReceipt? schedulerId now))
    (h : d.notAfter d' = true) (h' : d'.notAfter d = true) : d = d' := by
  obtain ⟨x, hx, hdx⟩ := List.mem_filterMap.mp hd
  obtain ⟨y, hy, hdy⟩ := List.mem_filterMap.mp hd'
  obtain ⟨hsx, -, -, hrx⟩ := dueReceipt?_eq_some hdx
  obtain ⟨hsy, -, -, hry⟩ := dueReceipt?_eq_some hdy
  have hregistration : d.registrationId = d'.registrationId := by
    cases hs : d.scheduledDate <;> cases hs' : d'.scheduledDate <;>
      simp only [DueReceipt.notAfter, hs, hs', decide_eq_true_eq, Bool.false_eq_true] at h h'
    · exact Nat.le_antisymm h h'
    · exact lex_antisymm h h'
  obtain rfl := receipt_eq_of_pair hx hy (hsx.trans hsy.symm)
    (hrx.symm.trans (hregistration.trans hry))
  exact Option.some.inj (hdx.symm.trans hdy)

/-- A closed receipt is due no more, and no other receipt changes. -/
theorem due_closeReceipt (outcome : ReceiptOutcome) (receiptId : Uuid) :
    (closeReceipt outcome receiptId s).due schedulerId now =
      (s.due schedulerId now).filter (fun d => d.receiptId != receiptId) := by
  rw [Db.due, Db.due, filter_insertionSort (fun _ hd _ hd' => due_antisymm hd hd'),
    List.filter_filterMap]
  congr 1
  rw [closeReceipt, Table.rows_modify, List.filterMap_map]
  refine List.filterMap_congr fun x _ => ?_
  have hsame : ∀ y, Db.dueReceipt? (closeReceipt outcome receiptId s) schedulerId now y =
      s.dueReceipt? schedulerId now y := fun _ => rfl
  rw [Function.comp_apply]
  refine (hsame _).trans ?_
  by_cases hx : x.id = receiptId ∧ x.mailSent = false
  · have hclosed : s.dueReceipt? schedulerId now (MailRegistration.closed outcome x) = none := by
      simp [Db.dueReceipt?, MailRegistration.closed]
    rw [if_pos (by simp [hx]), hclosed]
    cases hdue : s.dueReceipt? schedulerId now x with
    | none => rfl
    | some d => simp [Option.filter, (dueReceipt?_eq_some hdue).2.2.1, hx.1]
  · rw [if_neg (by simpa using hx)]
    cases hdue : s.dueReceipt? schedulerId now x with
    | none => rfl
    | some d =>
      obtain ⟨-, hsent, hid, -⟩ := dueReceipt?_eq_some hdue
      have hne : x.id ≠ receiptId := fun h => hx ⟨h, hsent⟩
      simp [Option.filter, hid, hne]

end due

/-- What one host answers, with its clock frozen. Beside the database, an answer may depend
on the step, and the answers of the ports on how many receipts were tried before. -/
structure Host where
  now : Timestamp
  shift : Shift
  scan : ℕ → Uuid → ℕ
  locked : ℕ → Uuid → Bool
  receiptId : ℕ → Uuid → Uuid
  renderer : ℕ → Renderer
  queue : ℕ → MailQueue
  smsQueue : ℕ → SmsQueue

def isRender : Deed → Bool
  | .rendered _ => true
  | .enqueued _ | .refused _ | .overdue _ _ _ => false

def rendersOf (receiptId : Uuid) : Deed → Bool
  | .rendered p => p.receiptId == receiptId
  | .enqueued _ | .refused _ | .overdue _ _ _ => false

def enqueuesOf (receiptId : Uuid) : Deed → Bool
  | .enqueued p | .refused p => p.receiptId == receiptId
  | .rendered _ | .overdue _ _ _ => false

/-- How many receipts were tried so far. -/
def tried (deeds : List Deed) : ℕ := deeds.countP isRender

/-- The render and the enqueue of the receipt tried after `k` others go by the answers
numbered `k`. -/
def Host.tick (host : Host) (steps : ℕ) (deeds : List Deed) : Tick where
  now := host.now
  scan := host.scan steps
  locked := host.locked steps
  receiptId := host.receiptId steps
  shift := host.shift
  renderer := host.renderer (tried deeds)
  queue := host.queue (tried deeds - 1)
  smsQueue := host.smsQueue (tried deeds - 1)

/-- A pass with no other writer. -/
structure Lone where
  steps : ℕ
  db : Db
  pass : Pass
  deeds : List Deed

def Host.next (host : Host) (l : Lone) : Lone :=
  let turn := l.pass.turn (host.tick l.steps l.deeds) l.db
  ⟨l.steps + 1, turn.db, turn.pass, l.deeds ++ turn.deeds⟩

def Lone.ended (l : Lone) : Bool := !l.pass.isRunning

/-- The try numbered `k` renders the receipt, finds its recipient valid and enqueues it. -/
def Host.accepts (host : Host) (scheduler : SchedulerRow) (event : Event) (k : ℕ)
    (d : DueReceipt) : Bool :=
  match host.renderer k scheduler.templateRef scheduler.templateKind (renderContext event d) with
  | .error _ => false
  | .ok mail =>
    match d.recipient scheduler.notificationChannel with
    | none => false
    | some recipient =>
      accepted (host.queue k) (host.smsQueue k) scheduler.notificationChannel recipient mail

/-- The receipt closes: dropped on an event that is over, or accepted. -/
def Host.closes (host : Host) (scheduler : SchedulerRow) (event : Event) (k : ℕ)
    (d : DueReceipt) : Bool :=
  decide (event.dateEnd ≤ host.now) || host.accepts scheduler event k d

section walk

variable {host : Host} {caps : Caps} {scheduler : SchedulerRow} {rest : List SchedulerRow}
  {event : Event}

/-- A lone pass on one scheduler row. -/
def onRow (caps : Caps) (scheduler : SchedulerRow) (rest : List SchedulerRow) (n : ℕ) (s : Db)
    (stage : Stage) (summary : SchedulerRunSummary) (deeds : List Deed) : Lone :=
  ⟨n, s, .running caps (.row scheduler rest stage) summary, deeds⟩

theorem next_onRow {n : ℕ} {s t : Db} {stage : Stage} {summary : SchedulerRunSummary} {p : Pass}
    {deeds more : List Deed}
    (hturn : stage.turn caps scheduler rest (host.tick n deeds) summary s = ⟨t, p, more⟩) :
    host.next (onRow caps scheduler rest n s stage summary deeds) =
      ⟨n + 1, t, p, deeds ++ more⟩ := by
  simp only [Host.next, onRow, Pass.turn, Point.turn, hturn]

/-- The pass comes to the stage, in some number of steps, with these further deeds. -/
def Comes (host : Host) (caps : Caps) (scheduler : SchedulerRow) (rest : List SchedulerRow)
    (l : Lone) (s : Db) (stage : Stage) (more : List Deed) : Prop :=
  ∃ n summary, Leads host.next l (onRow caps scheduler rest n s stage summary (l.deeds ++ more))

theorem Comes.turn {n : ℕ} {s t u : Db} {stage stage' stage'' : Stage}
    {summary summary' : SchedulerRunSummary} {deeds more more' : List Deed}
    (hturn : stage.turn caps scheduler rest (host.tick n deeds) summary s =
      ⟨t, .running caps (.row scheduler rest stage') summary', more⟩)
    (h : Comes host caps scheduler rest
      (onRow caps scheduler rest (n + 1) t stage' summary' (deeds ++ more)) u stage'' more') :
    Comes host caps scheduler rest (onRow caps scheduler rest n s stage summary deeds) u stage''
      (more ++ more') := by
  obtain ⟨n', summary'', h⟩ := h
  exact ⟨n', summary'', .head (next_onRow hturn) (by rw [← List.append_assoc]; exact h)⟩

theorem Comes.of_leads {l : Lone} {n : ℕ} {t u : Db} {stage stage' : Stage}
    {summary : SchedulerRunSummary} {more more' : List Deed}
    (h : Leads host.next l (onRow caps scheduler rest n t stage summary (l.deeds ++ more)))
    (h' : Comes host caps scheduler rest
      (onRow caps scheduler rest n t stage summary (l.deeds ++ more)) u stage' more') :
    Comes host caps scheduler rest l u stage' (more ++ more') := by
  obtain ⟨n', summary', h'⟩ := h'
  exact ⟨n', summary', by rw [← List.append_assoc]; exact h.trans h'⟩

theorem Comes.here {n : ℕ} {s : Db} {stage : Stage} {summary : SchedulerRunSummary}
    {deeds : List Deed} : Comes host caps scheduler rest
      (onRow caps scheduler rest n s stage summary deeds) s stage [] :=
  ⟨n, summary, by rw [List.append_nil]; exact .refl _⟩

/-- The deeds of trying these receipts once each. -/
structure TriedOnce (ds : List DueReceipt) (deeds : List Deed) : Prop where
  total : tried deeds = ds.length
  renders : ∀ i, deeds.countP (rendersOf i) = ds.countP (·.receiptId == i)
  enqueues : ∀ i, deeds.countP (enqueuesOf i) ≤ ds.countP (·.receiptId == i)

theorem triedOnce_render {d : DueReceipt} {more : List Deed}
    (hmore : more = [] ∨ more = [.enqueued ⟨scheduler.id, d.registrationId, d.receiptId⟩] ∨
      more = [.refused ⟨scheduler.id, d.registrationId, d.receiptId⟩]) :
    TriedOnce [d] (.rendered ⟨scheduler.id, d.registrationId, d.receiptId⟩ :: more) := by
  rcases hmore with rfl | rfl | rfl
  · exact ⟨rfl, fun _ => by simp [List.countP_cons, rendersOf],
      fun _ => by simp [List.countP_cons, enqueuesOf]⟩
  · exact ⟨rfl, fun _ => by simp [List.countP_cons, rendersOf],
      fun _ => by simp [List.countP_cons, enqueuesOf]⟩
  · exact ⟨rfl, fun _ => by simp [List.countP_cons, rendersOf],
      fun _ => by simp [List.countP_cons, enqueuesOf]⟩

/-- What the host tries of these receipts: all, or none when the event is over. -/
def Host.tries (host : Host) (event : Event) (ds : List DueReceipt) : List DueReceipt :=
  if event.dateEnd ≤ host.now then [] else ds

variable (host caps scheduler rest) in
/-- One receipt is tried once, and is due no more exactly when it closed. -/
theorem walk_receipt (k : Walk) (n : ℕ) (s : Db) (summary : SchedulerRunSummary)
    (deeds : List Deed) : ∃ t more,
      Comes host caps scheduler rest (onRow caps scheduler rest n s (.window k) summary deeds) t
        k.next more ∧
      t.due scheduler.id host.now = (s.due scheduler.id host.now).filter (fun d =>
        !(host.closes scheduler k.event (tried deeds) k.receipt &&
          d.receiptId == k.receipt.receiptId)) ∧
      TriedOnce (host.tries k.event [k.receipt]) more := by
  have hsame : ∀ {t : Db}, t.due scheduler.id host.now = s.due scheduler.id host.now →
      host.closes scheduler k.event (tried deeds) k.receipt = false →
      t.due scheduler.id host.now = (s.due scheduler.id host.now).filter (fun d =>
        !(host.closes scheduler k.event (tried deeds) k.receipt &&
          d.receiptId == k.receipt.receiptId)) := by
    intro t ht hcloses
    rw [ht, hcloses]
    simp
  have hclosed : ∀ outcome, host.closes scheduler k.event (tried deeds) k.receipt = true →
      (closeReceipt outcome k.receipt.receiptId s).due scheduler.id host.now =
      (s.due scheduler.id host.now).filter (fun d =>
        !(host.closes scheduler k.event (tried deeds) k.receipt &&
          d.receiptId == k.receipt.receiptId)) := by
    intro outcome hcloses
    rw [due_closeReceipt, hcloses]
    rfl
  by_cases hover : k.event.dateEnd ≤ host.now
  · have hwindow : (Stage.window k).turn caps scheduler rest (host.tick n deeds) summary s =
        ⟨s, .running caps (.row scheduler rest (.drop k)) summary,
          [.overdue (k.parcel scheduler) k.event host.now]⟩ := if_pos hover
    refine ⟨_, _, .turn hwindow (.turn rfl .here), hclosed _ (by simp [Host.closes, hover]), ?_⟩
    simp only [Host.tries, if_pos hover]
    exact ⟨rfl, fun _ => rfl, fun _ => Nat.le_refl _⟩
  · have hwindow : (Stage.window k).turn caps scheduler rest (host.tick n deeds) summary s =
        ⟨s, .running caps (.row scheduler rest (.render k)) summary, []⟩ := if_neg hover
    have htry : ∀ more, TriedOnce [k.receipt] more → TriedOnce (host.tries k.event [k.receipt])
        more := by simp [Host.tries, hover]
    cases hrender : host.renderer (tried deeds) scheduler.templateRef scheduler.templateKind
        (renderContext k.event k.receipt) with
    | error failure =>
      have hturn : (Stage.render k).turn caps scheduler rest (host.tick (n + 1) (deeds ++ []))
          summary s = ⟨s, .running caps (.row scheduler rest (.fail k failure.kind)) summary,
            [.rendered (k.parcel scheduler)]⟩ := by
        simp [Stage.turn, Host.tick, hrender]
      refine ⟨_, _, .turn hwindow (.turn hturn (.turn rfl .here)), hsame rfl ?_, htry _ ?_⟩
      · simp [Host.closes, hover, Host.accepts, hrender]
      · exact triedOnce_render (.inl rfl)
    | ok mail =>
      cases hrecipient : k.receipt.recipient scheduler.notificationChannel with
      | none =>
        have hturn : (Stage.render k).turn caps scheduler rest (host.tick (n + 1) (deeds ++ []))
            summary s = ⟨s, .running caps (.row scheduler rest (.fail k .recipientInvalid)) summary,
              [.rendered (k.parcel scheduler)]⟩ := by
          simp [Stage.turn, Host.tick, hrender, hrecipient]
        refine ⟨_, _, .turn hwindow (.turn hturn (.turn rfl .here)), hsame rfl ?_, htry _ ?_⟩
        · simp [Host.closes, hover, Host.accepts, hrender, hrecipient]
        · exact triedOnce_render (.inl rfl)
      | some recipient =>
        have hturn : (Stage.render k).turn caps scheduler rest (host.tick (n + 1) (deeds ++ []))
            summary s = ⟨s, .running caps (.row scheduler rest (.enqueue k recipient mail)) summary,
              [.rendered (k.parcel scheduler)]⟩ := by
          simp [Stage.turn, Host.tick, hrender, hrecipient]
        have hcount : tried (deeds ++ [] ++ [.rendered (k.parcel scheduler)]) - 1 = tried deeds := by
          simp [tried, isRender]
        cases haccepted : accepted (host.queue (tried deeds)) (host.smsQueue (tried deeds))
            scheduler.notificationChannel recipient mail with
        | false =>
          have hrefused : (Stage.enqueue k recipient mail).turn caps scheduler rest
              (host.tick (n + 1 + 1) (deeds ++ [] ++ [.rendered (k.parcel scheduler)])) summary s =
              ⟨s, .running caps (.row scheduler rest
                (.fail k (refusalKind scheduler.notificationChannel))) summary,
                [.refused (k.parcel scheduler)]⟩ := by
            simp only [Stage.turn, Host.tick, hcount, haccepted]
            rfl
          refine ⟨_, _, .turn hwindow (.turn hturn (.turn hrefused (.turn rfl .here))),
            hsame rfl ?_, htry _ ?_⟩
          · simp [Host.closes, hover, Host.accepts, hrender, hrecipient, haccepted]
          · exact triedOnce_render (.inr (.inr rfl))
        | true =>
          have henqueued : (Stage.enqueue k recipient mail).turn caps scheduler rest
              (host.tick (n + 1 + 1) (deeds ++ [] ++ [.rendered (k.parcel scheduler)])) summary s =
              ⟨s, .running caps (.row scheduler rest (.markQueued k)) summary,
                [.enqueued (k.parcel scheduler)]⟩ := by
            simp only [Stage.turn, Host.tick, hcount, haccepted]
            rfl
          refine ⟨_, _, .turn hwindow (.turn hturn (.turn henqueued (.turn rfl .here))),
            hclosed _ ?_, htry _ ?_⟩
          · simp [Host.closes, Host.accepts, hrender, hrecipient, haccepted]
          · exact triedOnce_render (.inr (.inl rfl))

/-- The receipts that close when these are tried in turn, the first numbered `k`. -/
def Host.closedOf (host : Host) (scheduler : SchedulerRow) (event : Event) :
    ℕ → List DueReceipt → List DueReceipt
  | _, [] => []
  | k, d :: ds => (if host.closes scheduler event k d then [d] else []) ++
    host.closedOf scheduler event (k + 1) ds

theorem closedOf_cons (k : ℕ) (d : DueReceipt) (ds : List DueReceipt) :
    host.closedOf scheduler event k (d :: ds) =
      (if host.closes scheduler event k d then [d] else []) ++
        host.closedOf scheduler event (k + 1) ds := rfl

theorem closedOf_of_over (hover : event.dateEnd ≤ host.now) (k : ℕ) (ds : List DueReceipt) :
    host.closedOf scheduler event k ds = ds := by
  induction ds generalizing k with
  | nil => rfl
  | cons d ds ih => simp [Host.closedOf, Host.closes, hover, ih]

theorem TriedOnce.append {ds ds' : List DueReceipt} {more more' : List Deed}
    (h : TriedOnce ds more) (h' : TriedOnce ds' more') : TriedOnce (ds ++ ds') (more ++ more') where
  total := by
    have ht := h.total
    have ht' := h'.total
    simp only [tried] at ht ht'
    simp [tried, ht, ht']
  renders i := by simp [h.renders, h'.renders]
  enqueues i := by
    rw [List.countP_append, List.countP_append]
    exact Nat.add_le_add (h.enqueues i) (h'.enqueues i)

theorem tries_append (ds ds' : List DueReceipt) :
    host.tries event (ds ++ ds') = host.tries event ds ++ host.tries event ds' := by
  simp only [Host.tries]
  split <;> rfl

variable (host caps scheduler rest event) in
/-- A batch tries each of its receipts once, and leaves due those that did not close. -/
theorem walk_batch (later : List DueReceipt) (d : DueReceipt) (full : Bool) (n : ℕ) (s : Db)
    (summary : SchedulerRunSummary) (deeds : List Deed) : ∃ t more,
      Comes host caps scheduler rest
        (onRow caps scheduler rest n s (.window ⟨event, d, later, full⟩) summary deeds) t
        (if full then .readDue event else .recompute) more ∧
      t.due scheduler.id host.now = (s.due scheduler.id host.now).filter (fun e =>
        !(host.closedOf scheduler event (tried deeds) (d :: later)).any
          (·.receiptId == e.receiptId)) ∧
      TriedOnce (host.tries event (d :: later)) more := by
  induction later generalizing d n s summary deeds with
  | nil =>
    obtain ⟨t, more, hcomes, hdue, htried⟩ := walk_receipt host caps scheduler rest
      ⟨event, d, [], full⟩ n s summary deeds
    refine ⟨t, more, hcomes, ?_, htried⟩
    rw [hdue]
    congr 1
    funext e
    cases hcloses : host.closes scheduler event (tried deeds) d <;>
      simp [Host.closedOf, hcloses, BEq.comm (a := e.receiptId)]
  | cons d' later ih =>
    obtain ⟨t, more, ⟨n', summary', hleads⟩, hdue, htried⟩ := walk_receipt host caps
      scheduler rest ⟨event, d, d' :: later, full⟩ n s summary deeds
    obtain ⟨u, more', hcomes, hdue', htried'⟩ := ih d' n' t summary' (deeds ++ more)
    refine ⟨u, more ++ more', .of_leads hleads hcomes, ?_, ?_⟩
    · have hrest : host.closedOf scheduler event (tried (deeds ++ more)) (d' :: later) =
          host.closedOf scheduler event (tried deeds + 1) (d' :: later) := by
        by_cases hover : event.dateEnd ≤ host.now
        · rw [closedOf_of_over hover, closedOf_of_over hover]
        · have htotal := htried.total
          simp only [Host.tries, if_neg hover] at htotal
          simp only [tried] at htotal ⊢
          rw [List.countP_append, htotal]
          rfl
      rw [hdue', hrest, hdue, List.filter_filter]
      congr 1
      funext e
      rw [closedOf_cons (tried deeds) d (d' :: later), List.any_append]
      cases hcloses : host.closes scheduler event (tried deeds) d <;>
        simp [BEq.comm (a := e.receiptId), Bool.and_comm]
    · rw [show d :: d' :: later = [d] ++ d' :: later from rfl, tries_append]
      exact htried.append htried'

/-- Each of these receipts closes when they are tried in turn, the first numbered `k`. -/
def Host.closesAll (host : Host) (scheduler : SchedulerRow) (event : Event) (k : ℕ)
    (ds : List DueReceipt) : Prop :=
  ∀ p d, ds[p]? = some d → host.closes scheduler event (k + p) d = true

theorem closedOf_eq_self {k : ℕ} {ds : List DueReceipt}
    (h : host.closesAll scheduler event k ds) : host.closedOf scheduler event k ds = ds := by
  induction ds generalizing k with
  | nil => rfl
  | cons d ds ih =>
    have hhead : host.closes scheduler event k d = true := h 0 d rfl
    have htail : host.closesAll scheduler event (k + 1) ds := fun p e hp => by
      rw [Nat.add_assoc, Nat.add_comm 1 p]
      exact h (p + 1) e hp
    rw [closedOf_cons, hhead, ih htail]
    rfl

theorem closedOf_subset (k : ℕ) (ds : List DueReceipt) :
    host.closedOf scheduler event k ds ⊆ ds := by
  induction ds generalizing k with
  | nil => exact List.Subset.refl _
  | cons d ds ih =>
    rw [closedOf_cons]
    refine List.append_subset.mpr ⟨?_, List.Subset.trans (ih (k + 1)) (List.subset_cons_self _ _)⟩
    split <;> simp

/-- A receipt that did not close is none of those that did. -/
theorem not_mem_closedOf {k p : ℕ} {d : DueReceipt} {ds : List DueReceipt}
    (hids : ds.Pairwise (fun d d' => d.receiptId ≠ d'.receiptId)) (hp : ds[p]? = some d)
    (hopen : host.closes scheduler event (k + p) d = false) :
    ∀ c ∈ host.closedOf scheduler event k ds, c.receiptId ≠ d.receiptId := by
  induction ds generalizing k p with
  | nil => simp at hp
  | cons e ds ih =>
    obtain ⟨hhead, htail⟩ := List.pairwise_cons.mp hids
    intro c hc
    rw [closedOf_cons] at hc
    cases p with
    | zero =>
      obtain rfl : e = d := by simpa using hp
      rw [Nat.add_zero] at hopen
      rw [hopen] at hc
      exact (hhead c (closedOf_subset _ _ hc)).symm
    | succ p =>
      have hp' : ds[p]? = some d := hp
      rcases List.mem_append.mp hc with hc | hc
      · split at hc
        · rw [List.mem_singleton.mp hc]
          exact hhead d (List.mem_of_getElem? hp')
        · cases hc
      · refine ih htail hp' ?_ c hc
        rwa [Nat.add_assoc, Nat.add_comm 1 p]

/-- The receipts of the full batches. -/
def fullBatches (caps : Caps) (ds : List DueReceipt) : List DueReceipt :=
  ds.take (caps.batch * (ds.length / caps.batch))

/-- Without the first elements, by a key that separates them, the others are left. -/
theorem filter_take {α κ : Type} [DecidableEq κ] (key : α → κ) {l : List α} (b : ℕ)
    (hkeys : l.Pairwise (fun a a' => key a ≠ key a')) :
    l.filter (fun e => !(l.take b).any (fun a => key a == key e)) = l.drop b := by
  have hsplit := List.take_append_drop b l
  rw [← hsplit] at hkeys
  have hcross := (List.pairwise_append.mp hkeys).2.2
  conv_lhs => rw [← hsplit, List.filter_append, hsplit]
  have htake : (l.take b).filter (fun e => !(l.take b).any (fun a => key a == key e)) = [] :=
    List.filter_eq_nil_iff.mpr fun e he h => by
      simp only [Bool.not_eq_true', List.any_eq_false, beq_iff_eq] at h
      exact h e he rfl
  have hdrop : (l.drop b).filter (fun e => !(l.take b).any (fun a => key a == key e)) = l.drop b :=
    List.filter_eq_self.mpr fun e he => by
      simp only [Bool.not_eq_true', List.any_eq_false, beq_iff_eq]
      exact fun a ha => hcross a ha e he
  rw [htake, hdrop, List.nil_append]

/-- A list that fills a batch: its full batches are the first one and those of the rest. -/
theorem fullBatches_of_le {ds : List DueReceipt} (h : caps.batch ≤ ds.length) :
    fullBatches caps ds = ds.take caps.batch ++ fullBatches caps (ds.drop caps.batch) := by
  rw [fullBatches, Nat.div_eq_sub_div caps.batch_pos h, Nat.mul_succ, Nat.add_comm, List.take_add,
    fullBatches, List.length_drop]

theorem fullBatches_of_lt {ds : List DueReceipt} (h : ds.length < caps.batch) :
    fullBatches caps ds = [] := by
  rw [fullBatches, Nat.div_eq_of_lt h, Nat.mul_zero, List.take_zero]

theorem closesAll_append {k : ℕ} {ds ds' : List DueReceipt} :
    host.closesAll scheduler event k (ds ++ ds') ↔
      host.closesAll scheduler event k ds ∧ host.closesAll scheduler event (k + ds.length) ds' := by
  constructor
  · refine fun h => ⟨fun p d hp => h p d ?_, fun p d hp => ?_⟩
    · rw [List.getElem?_append_left (List.getElem?_eq_some_iff.mp hp).1, hp]
    · rw [Nat.add_assoc]
      refine h (ds.length + p) d ?_
      rw [List.getElem?_append_right (Nat.le_add_right _ _), Nat.add_sub_cancel_left, hp]
  · rintro ⟨h, h'⟩ p d hp
    by_cases hlt : p < ds.length
    · rw [List.getElem?_append_left hlt] at hp
      exact h p d hp
    · rw [List.getElem?_append_right (Nat.le_of_not_lt hlt)] at hp
      have hclose := h' (p - ds.length) d hp
      rwa [Nat.add_assoc, Nat.add_sub_of_le (Nat.le_of_not_lt hlt)] at hclose

/-- Trying receipts numbers the next ones on, unless the event is over and all close. -/
theorem TriedOnce.closesAll_iff {ds ds' : List DueReceipt} {deeds more : List Deed}
    (h : TriedOnce (host.tries event ds) more) :
    host.closesAll scheduler event (tried (deeds ++ more)) ds' ↔
      host.closesAll scheduler event (tried deeds + ds.length) ds' := by
  by_cases hover : event.dateEnd ≤ host.now
  · have hall : ∀ k, host.closesAll scheduler event k ds' := fun k p d _ => by
      simp [Host.closes, hover]
    exact iff_of_true (hall _) (hall _)
  · have htotal := h.total
    rw [Host.tries, if_neg hover] at htotal
    rw [tried, List.countP_append, ← tried, ← tried, htotal]

/-- The batch a read takes: the first due receipt and those after it up to the cap. -/
theorem take_batch (d : DueReceipt) (ds : List DueReceipt) :
    (d :: ds).take caps.batch = d :: ds.take (caps.batch - 1) := by
  conv_lhs => rw [← Nat.sub_add_cancel caps.batch_pos]
  rfl

variable (host caps scheduler rest event) in
theorem turn_readDue {s : Db} {d : DueReceipt} {ds : List DueReceipt}
    (hdue : s.due scheduler.id host.now = d :: ds) (n : ℕ) (summary : SchedulerRunSummary)
    (deeds : List Deed) :
    (Stage.readDue event).turn caps scheduler rest (host.tick n deeds) summary s =
      ⟨s, .running caps (.row scheduler rest (.window ⟨event, d, ds.take (caps.batch - 1),
        decide (caps.batch ≤ (d :: ds).length)⟩)) summary, []⟩ := by
  have hfull : decide (caps.batch ≤ (d :: ds.take (caps.batch - 1)).length) =
      decide (caps.batch ≤ (d :: ds).length) := by
    have hpos := caps.batch_pos
    rw [decide_eq_decide, List.length_cons, List.length_cons, List.length_take]
    omega
  simp only [Stage.turn, dueReceipts, Host.tick, hdue, take_batch, Stage.ofBatch, hfull]

variable (host caps scheduler rest) in
/-- One round of the loop: the first batch of the due receipts. -/
theorem walk_round {s : Db} {d : DueReceipt} {ds : List DueReceipt}
    (hdue : s.due scheduler.id host.now = d :: ds) (n : ℕ) (summary : SchedulerRunSummary)
    (deeds : List Deed) : ∃ t more,
      Comes host caps scheduler rest (onRow caps scheduler rest n s (.readDue event) summary deeds) t
        (if caps.batch ≤ (d :: ds).length then .readDue event else .recompute) more ∧
      t.due scheduler.id host.now = (d :: ds).filter (fun e =>
        !(host.closedOf scheduler event (tried deeds) ((d :: ds).take caps.batch)).any
          (·.receiptId == e.receiptId)) ∧
      TriedOnce (host.tries event ((d :: ds).take caps.batch)) more := by
  obtain ⟨t, more, hcomes, hleft, htried⟩ := walk_batch host caps scheduler rest event
    (ds.take (caps.batch - 1)) d (decide (caps.batch ≤ (d :: ds).length)) (n + 1) s summary
    (deeds ++ [])
  rw [List.append_nil, hdue] at hleft
  simp only [decide_eq_true_eq] at hcomes
  rw [take_batch]
  exact ⟨t, [] ++ more, .turn (turn_readDue host caps scheduler rest event hdue n summary deeds)
    hcomes, hleft, htried⟩

/-- The deeds of trying these receipts at most once each. -/
def TriedAtMostOnce (ds : List DueReceipt) (deeds : List Deed) : Prop :=
  ∀ i, deeds.countP (rendersOf i) ≤ ds.countP (·.receiptId == i) ∧
    deeds.countP (enqueuesOf i) ≤ ds.countP (·.receiptId == i)

theorem TriedOnce.atMostOnce {ds ds' : List DueReceipt} {more : List Deed}
    (h : TriedOnce (host.tries event ds) more) (hsub : ds.Sublist ds') :
    TriedAtMostOnce ds' more := by
  have hle : ∀ i, (host.tries event ds).countP (·.receiptId == i) ≤
      ds'.countP (·.receiptId == i) := fun i => by
    refine Nat.le_trans ?_ (hsub.countP_le)
    simp only [Host.tries]
    split
    · exact Nat.zero_le _
    · exact Nat.le_refl _
  exact fun i => ⟨by rw [h.renders]; exact hle i, Nat.le_trans (h.enqueues i) (hle i)⟩

/-- When all receipts of the full batches close at their first try, the walk ends and
tries each due receipt at most once. -/
theorem walk_ends (ds : List DueReceipt) (n : ℕ) (s : Db) (summary : SchedulerRunSummary)
    (deeds : List Deed) (hdue : s.due scheduler.id host.now = ds)
    (hcloses : host.closesAll scheduler event (tried deeds) (fullBatches caps ds)) :
    ∃ t more, Comes host caps scheduler rest
        (onRow caps scheduler rest n s (.readDue event) summary deeds) t .recompute more ∧
      TriedAtMostOnce ds more := by
  induction hlen : ds.length using Nat.strongRecOn generalizing ds n s summary deeds with
  | ind len ih =>
  cases ds with
  | nil =>
    have hturn : (Stage.readDue event).turn caps scheduler rest (host.tick n deeds) summary s =
        ⟨s, .running caps (.row scheduler rest .recompute) summary, []⟩ := by
      simp only [Stage.turn, dueReceipts, Host.tick, hdue, List.take_nil, Stage.ofBatch]
    exact ⟨s, [] ++ [], .turn hturn .here, fun _ => ⟨Nat.le_refl _, Nat.le_refl _⟩⟩
  | cons d ds =>
    obtain ⟨t, more, hcomes, hleft, htried⟩ := walk_round host caps scheduler rest hdue n summary deeds
    by_cases hfull : caps.batch ≤ (d :: ds).length
    · rw [if_pos hfull] at hcomes
      rw [fullBatches_of_le hfull, closesAll_append] at hcloses
      have hids : (d :: ds).Pairwise (fun d d' => d.receiptId ≠ d'.receiptId) :=
        hdue ▸ pairwise_due
      rw [closedOf_eq_self hcloses.1, filter_take DueReceipt.receiptId _ hids] at hleft
      obtain ⟨n', summary', hleads⟩ := hcomes
      have hrest := htried.closesAll_iff.mpr hcloses.2
      have hshort : ((d :: ds).drop caps.batch).length < len := by
        have hpos := caps.batch_pos
        rw [List.length_drop]
        omega
      obtain ⟨u, more', hcomes', htried'⟩ := ih _ hshort _ n' t summary' (deeds ++ more) hleft
        hrest rfl
      refine ⟨u, more ++ more', .of_leads hleads hcomes', fun i => ?_⟩
      have hfirst := htried.atMostOnce (List.Sublist.refl _) i
      have hsecond := htried' i
      have hsplit : (d :: ds).countP (·.receiptId == i) =
          ((d :: ds).take caps.batch).countP (·.receiptId == i) +
            ((d :: ds).drop caps.batch).countP (·.receiptId == i) := by
        rw [← List.countP_append, List.take_append_drop]
      rw [List.countP_append, List.countP_append, hsplit]
      omega
    · rw [if_neg hfull] at hcomes
      exact ⟨t, more, hcomes, htried.atMostOnce (List.take_sublist _ _)⟩

variable (host caps scheduler rest) in
/-- A due receipt at the head of a read is rendered again, on an event that is not over. -/
theorem walk_renders {s : Db} {d : DueReceipt} {ds : List DueReceipt}
    (hdue : s.due scheduler.id host.now = d :: ds) (hopen : ¬ event.dateEnd ≤ host.now) (n : ℕ)
    (summary : SchedulerRunSummary) (deeds : List Deed) :
    ∃ stage, Comes host caps scheduler rest
      (onRow caps scheduler rest n s (.readDue event) summary deeds) s stage
      [.rendered ⟨scheduler.id, d.registrationId, d.receiptId⟩] := by
  have hread := turn_readDue host caps scheduler rest event hdue n summary deeds
  generalize ds.take (caps.batch - 1) = later at hread
  generalize decide (caps.batch ≤ (d :: ds).length) = full at hread
  have hwindow : ∀ n deeds, (Stage.window ⟨event, d, later, full⟩).turn caps scheduler rest
      (host.tick n deeds) summary s =
        ⟨s, .running caps (.row scheduler rest (.render ⟨event, d, later, full⟩)) summary, []⟩ :=
    fun _ _ => if_neg hopen
  have hrender : ∀ n deeds, ∃ stage, (Stage.render ⟨event, d, later, full⟩).turn caps scheduler rest
      (host.tick n deeds) summary s = ⟨s, .running caps (.row scheduler rest stage) summary,
        [.rendered ⟨scheduler.id, d.registrationId, d.receiptId⟩]⟩ := fun n deeds => by
    simp only [Stage.turn]
    split
    · exact ⟨_, rfl⟩
    · split <;> exact ⟨_, rfl⟩
  obtain ⟨stage, hrender⟩ := hrender (n + 1 + 1) (deeds ++ [] ++ [])
  exact ⟨stage, .turn hread (.turn (hwindow _ _) (.turn hrender .here))⟩

/-- When a receipt of the full batches does not close at its first try, some receipt is
rendered a second time. -/
theorem walk_repeats (ds : List DueReceipt) (n : ℕ) (s : Db) (summary : SchedulerRunSummary)
    (deeds : List Deed) (hdue : s.due scheduler.id host.now = ds)
    (hcloses : ¬ host.closesAll scheduler event (tried deeds) (fullBatches caps ds)) :
    ∃ t stage more i, Comes host caps scheduler rest
        (onRow caps scheduler rest n s (.readDue event) summary deeds) t stage more ∧
      1 < more.countP (rendersOf i) := by
  induction hlen : ds.length using Nat.strongRecOn generalizing ds n s summary deeds with
  | ind len ih =>
  have hfull : caps.batch ≤ ds.length := by
    by_contra hlt
    rw [fullBatches_of_lt (Nat.lt_of_not_le hlt)] at hcloses
    exact hcloses fun p d hp => by simp at hp
  cases ds with
  | nil => exact absurd hfull (Nat.not_le_of_lt caps.batch_pos)
  | cons d ds =>
    have hids : (d :: ds).Pairwise (fun d d' => d.receiptId ≠ d'.receiptId) := hdue ▸ pairwise_due
    obtain ⟨t, more, hcomes, hleft, htried⟩ := walk_round host caps scheduler rest hdue n summary deeds
    rw [if_pos hfull] at hcomes
    obtain ⟨n', summary', hleads⟩ := hcomes
    rw [fullBatches_of_le hfull, closesAll_append] at hcloses
    by_cases hfirst : host.closesAll scheduler event (tried deeds) ((d :: ds).take caps.batch)
    · have hrest : ¬ host.closesAll scheduler event (tried (deeds ++ more))
          (fullBatches caps ((d :: ds).drop caps.batch)) := fun h =>
        hcloses ⟨hfirst, htried.closesAll_iff.mp h⟩
      rw [closedOf_eq_self hfirst, filter_take DueReceipt.receiptId _ hids] at hleft
      have hshort : ((d :: ds).drop caps.batch).length < len := by
        have hpos := caps.batch_pos
        rw [List.length_drop]
        omega
      obtain ⟨u, stage, more', i, hcomes', htwice⟩ := ih _ hshort _ n' t summary' (deeds ++ more)
        hleft hrest rfl
      refine ⟨u, stage, more ++ more', i, .of_leads hleads hcomes', ?_⟩
      rw [List.countP_append]
      omega
    · -- The first batch keeps a receipt, so the next read starts with one of that batch.
      simp only [Host.closesAll, not_forall, Bool.not_eq_true] at hfirst
      obtain ⟨p, e, hp, hopen⟩ := hfirst
      have hover : ¬ event.dateEnd ≤ host.now := fun h => by simp [Host.closes, h] at hopen
      have hnot := not_mem_closedOf (hids.sublist (List.take_sublist _ _)) hp hopen
      rw [← List.take_append_drop caps.batch (d :: ds), List.filter_append,
        List.take_append_drop] at hleft
      cases hkept : ((d :: ds).take caps.batch).filter (fun e =>
          !(host.closedOf scheduler event (tried deeds) ((d :: ds).take caps.batch)).any
            (·.receiptId == e.receiptId)) with
      | nil =>
        have habsent := List.filter_eq_nil_iff.mp hkept e (List.mem_of_getElem? hp)
        simp only [Bool.not_eq_true', List.any_eq_false, beq_iff_eq] at habsent
        exact absurd hnot habsent
      | cons g gs =>
        have hg : g ∈ (d :: ds).take caps.batch :=
          (List.mem_filter.mp (hkept ▸ List.mem_cons_self)).1
        rw [hkept, List.cons_append] at hleft
        obtain ⟨stage, hagain⟩ := walk_renders host caps scheduler rest hleft hover n' summary'
          (deeds ++ more)
        refine ⟨t, stage, _, g.receiptId, .of_leads hleads hagain, ?_⟩
        have honce := htried.renders g.receiptId
        rw [Host.tries, if_neg hover] at honce
        have hpos : 0 < ((d :: ds).take caps.batch).countP (·.receiptId == g.receiptId) :=
          List.countP_pos_iff.mpr ⟨g, hg, by simp⟩
        have hlast : [Deed.rendered ⟨scheduler.id, g.registrationId, g.receiptId⟩].countP
            (rendersOf g.receiptId) = 1 := by simp [rendersOf]
        rw [List.countP_append, honce, hlast]
        omega

/-- The pass has gone on to the rows after this one, with no further deed. -/
def Leaves (host : Host) (caps : Caps) (rest : List SchedulerRow) (l : Lone) : Prop :=
  ∃ n t summary, Leads host.next l ⟨n, t, .atRows caps summary rest, l.deeds⟩

/-- It has left this database. -/
def LeavesIn (host : Host) (caps : Caps) (rest : List SchedulerRow) (l : Lone) (t : Db) : Prop :=
  ∃ n summary, Leads host.next l ⟨n, t, .atRows caps summary rest, l.deeds⟩

theorem LeavesIn.turn {n : ℕ} {s t u : Db} {stage stage' : Stage}
    {summary summary' : SchedulerRunSummary} {deeds : List Deed}
    (hturn : stage.turn caps scheduler rest (host.tick n deeds) summary s =
      ⟨t, .running caps (.row scheduler rest stage') summary', []⟩)
    (h : LeavesIn host caps rest (onRow caps scheduler rest (n + 1) t stage' summary' deeds) u) :
    LeavesIn host caps rest (onRow caps scheduler rest n s stage summary deeds) u := by
  obtain ⟨n', summary'', h⟩ := h
  exact ⟨n', summary'', .head ((next_onRow hturn).trans (by rw [List.append_nil, onRow])) h⟩

theorem LeavesIn.last {n : ℕ} {s t : Db} {stage : Stage} {summary summary' : SchedulerRunSummary}
    {deeds : List Deed}
    (hturn : stage.turn caps scheduler rest (host.tick n deeds) summary s =
      ⟨t, .atRows caps summary' rest, []⟩) :
    LeavesIn host caps rest (onRow caps scheduler rest n s stage summary deeds) t :=
  ⟨n + 1, summary', .head (next_onRow hturn) (by rw [List.append_nil]; exact .refl _)⟩

/-- What the walk of a row is followed by: the completion, then the cleared failure or the
re-arm for work that is left. -/
def completed (now : Timestamp) (schedulerId : Uuid) (s : Db) : Db :=
  let t := (recomputeMailDone schedulerId s).2
  if (recomputeMailDone schedulerId s).1 then clearFailure schedulerId t
  else if 0 < unmaterializedCount schedulerId t ∨ 0 < (dueReceipts schedulerId 1 now t).length then
    rearm now schedulerId t
  else t

variable (host caps scheduler rest) in
/-- After the walk the pass completes the row and goes on to the next one. -/
theorem leavesIn_completed (n : ℕ) (s : Db) (summary : SchedulerRunSummary) (deeds : List Deed) :
    LeavesIn host caps rest (onRow caps scheduler rest n s .recompute summary deeds)
      (completed host.now scheduler.id s) := by
  cases hdone : (recomputeMailDone scheduler.id s).1 with
  | true =>
    have hturn : Stage.recompute.turn caps scheduler rest (host.tick n deeds) summary s =
        ⟨(recomputeMailDone scheduler.id s).2, .running caps (.row scheduler rest .clear)
          { summary with schedulersCompleted := summary.schedulersCompleted + 1 }, []⟩ := by
      simp only [Stage.turn, hdone, if_true]
    have hend : completed host.now scheduler.id s =
        clearFailure scheduler.id (recomputeMailDone scheduler.id s).2 := if_pos hdone
    rw [hend]
    exact .turn hturn (.turn rfl (.turn rfl (.last rfl)))
  | false =>
    have hturn : Stage.recompute.turn caps scheduler rest (host.tick n deeds) summary s =
        ⟨(recomputeMailDone scheduler.id s).2,
          .running caps (.row scheduler rest (.countMissing false)) summary, []⟩ := by
      simp only [Stage.turn, hdone, Bool.false_eq_true, if_false]
    refine .turn hturn (.turn rfl ?_)
    -- The clock of the tick is the host's.
    have hstill : ∀ u, ((!false && (decide (0 < unmaterializedCount scheduler.id u) ||
        decide (0 < (dueReceipts scheduler.id 1 host.now u).length))) = true) ↔
          0 < unmaterializedCount scheduler.id u ∨
            0 < (dueReceipts scheduler.id 1 host.now u).length := fun u => by simp
    by_cases hwork : 0 < unmaterializedCount scheduler.id (recomputeMailDone scheduler.id s).2 ∨
        0 < (dueReceipts scheduler.id 1 host.now (recomputeMailDone scheduler.id s).2).length
    · have hend : completed host.now scheduler.id s =
          rearm host.now scheduler.id (recomputeMailDone scheduler.id s).2 := by
        simp only [completed, hdone, Bool.false_eq_true, if_false, if_pos hwork]
      rw [hend]
      exact .turn (if_pos ((hstill _).mpr hwork)) (.last rfl)
    · have hend : completed host.now scheduler.id s = (recomputeMailDone scheduler.id s).2 := by
        simp only [completed, hdone, Bool.false_eq_true, if_false, if_neg hwork]
      rw [hend]
      exact .last (if_neg fun h => hwork ((hstill _).mp h))

theorem leaves_recompute (n : ℕ) (s : Db) (summary : SchedulerRunSummary) (deeds : List Deed) :
    Leaves host caps rest (onRow caps scheduler rest n s .recompute summary deeds) := by
  obtain ⟨n', summary', h⟩ := leavesIn_completed host caps scheduler rest n s summary deeds
  exact ⟨n', _, summary', h⟩

end walk

end BackboneEvents.SchedulerWalks
