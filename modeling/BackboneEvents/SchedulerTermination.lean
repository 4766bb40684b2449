import BackboneEvents.SchedulerWalks

/-!
# When a pass ends and tries each receipt once

One call of `run_one` goes right exactly when every receipt of its full batches closes at
its first try: otherwise the first batch that keeps a receipt is read again. A whole pass
ends, with every call going right, exactly when each call meets this in the state it
starts from.
-/
namespace BackboneEvents.SchedulerTermination
open DeterministicRuns SchedulerWalks

/-- Nothing to walk, or every receipt of the full batches closes at its first try. -/
def Settles (host : Host) (caps : Caps) (scheduler : SchedulerRow) (l : Lone) : Prop :=
  scheduler.templateRef = none ∨
  match materializeReceipts (host.receiptId l.steps) host.shift scheduler caps.batch l.db with
  | .error _ => True
  | .ok (_, t) =>
    match findEvent scheduler.eventId t with
    | .error _ => True
    | .ok event => host.closesAll scheduler event (tried l.deeds)
        (fullBatches caps (t.due scheduler.id host.now))

section runOne

variable {host : Host} {caps : Caps} {scheduler : SchedulerRow} {rest : List SchedulerRow}
  {l : Lone} {summary : SchedulerRunSummary}

/-- A pass at the start of a row is on its first stage. -/
theorem eq_onRow (h : l.pass = .atRows caps summary (scheduler :: rest)) :
    l = onRow caps scheduler rest l.steps l.db scheduler.firstStage summary l.deeds := by
  cases l with
  | mk steps db pass deeds =>
    obtain rfl : pass = _ := h
    rfl

variable (rest) in
/-- The walk of a row whose template is set starts once its event is found. -/
theorem comes_readDue {ids : List Uuid} {t : Db} {event : Event}
    (h : l.pass = .atRows caps summary (scheduler :: rest)) (htemplate : scheduler.templateRef ≠ none)
    (hmaterialize : materializeReceipts (host.receiptId l.steps) host.shift scheduler caps.batch
      l.db = .ok (ids, t))
    (hevent : findEvent scheduler.eventId t = .ok event) :
    Comes host caps scheduler rest l t (.readDue event) [] := by
  have hfirst : scheduler.firstStage = .materialize := by
    simp [SchedulerRow.firstStage, htemplate]
  have hturn : Stage.materialize.turn caps scheduler rest (host.tick l.steps l.deeds) summary l.db =
      ⟨t, .running caps (.row scheduler rest .findEvent)
        { summary with receiptsMaterialized := summary.receiptsMaterialized + ids.length }, []⟩ := by
    simp only [Stage.turn, Host.tick, hmaterialize]
  have hfind : ∀ n summary deeds, Stage.findEvent.turn caps scheduler rest (host.tick n deeds)
      summary t = ⟨t, .running caps (.row scheduler rest (.readDue event)) summary, []⟩ :=
    fun n summary deeds => by simp only [Stage.turn, hevent]
  rw [eq_onRow h, hfirst]
  exact .turn hturn (.turn (hfind _ _ _) .here)

/-- No receipt is rendered or enqueued twice by these deeds. -/
def NoneTwice (deeds : List Deed) : Prop :=
  ∀ i, deeds.countP (rendersOf i) ≤ 1 ∧ deeds.countP (enqueuesOf i) ≤ 1

/-- Elements that a key separates: one at most has a given key. -/
theorem countP_key_le_one {α κ : Type} [DecidableEq κ] (key : α → κ) {l : List α}
    (hkeys : l.Pairwise (fun a a' => key a ≠ key a')) (k : κ) :
    l.countP (fun a => key a == k) ≤ 1 := by
  induction l with
  | nil => exact Nat.zero_le 1
  | cons a l ih =>
    obtain ⟨hhead, htail⟩ := List.pairwise_cons.mp hkeys
    by_cases hk : key a = k
    · have hrest : l.countP (fun a => key a == k) = 0 := List.countP_eq_zero.mpr fun e he h =>
        hhead e he (hk.trans (beq_iff_eq.mp h).symm)
      simp [hk, hrest]
    · simpa [hk] using ih htail

theorem noneTwice_of_due {s : Db} {now : Timestamp} {more : List Deed}
    (h : TriedAtMostOnce (s.due scheduler.id now) more) : NoneTwice more := fun i =>
  ⟨(h i).1.trans (countP_key_le_one DueReceipt.receiptId pairwise_due i),
    (h i).2.trans (countP_key_le_one DueReceipt.receiptId pairwise_due i)⟩

/-- A call that goes right ends, in an error or at the next row, and tries nothing twice. -/
theorem settles_leads (h : l.pass = .atRows caps summary (scheduler :: rest))
    (hsettles : Settles host caps scheduler l) :
    ∃ l' more, Leads host.next l l' ∧ l'.deeds = l.deeds ++ more ∧
      (l'.ended = true ∨ ∃ summary', l'.pass = .atRows caps summary' rest) ∧ NoneTwice more := by
  have hnothing : NoneTwice [] := fun _ => ⟨Nat.zero_le 1, Nat.zero_le 1⟩
  by_cases htemplate : scheduler.templateRef = none
  · have hfirst : scheduler.firstStage = .sweep := by simp [SchedulerRow.firstStage, htemplate]
    rw [eq_onRow h, hfirst]
    exact ⟨_, [], .head (next_onRow rfl) (.refl _), rfl, .inr ⟨_, rfl⟩, hnothing⟩
  · have hfirst : scheduler.firstStage = .materialize := by
      simp [SchedulerRow.firstStage, htemplate]
    replace hsettles := hsettles.resolve_left htemplate
    cases hmaterialize : materializeReceipts (host.receiptId l.steps) host.shift scheduler caps.batch
        l.db with
    | error e =>
      have hturn : Stage.materialize.turn caps scheduler rest (host.tick l.steps l.deeds) summary
          l.db = ⟨l.db, .returned (.error e), []⟩ := by
        simp only [Stage.turn, Host.tick, hmaterialize]
      rw [eq_onRow h, hfirst]
      exact ⟨_, [], .head (next_onRow hturn) (.refl _), rfl, .inl rfl, hnothing⟩
    | ok r =>
      obtain ⟨ids, t⟩ := r
      have hturn : Stage.materialize.turn caps scheduler rest (host.tick l.steps l.deeds) summary
          l.db = ⟨t, .running caps (.row scheduler rest .findEvent) { summary with
            receiptsMaterialized := summary.receiptsMaterialized + ids.length }, []⟩ := by
        simp only [Stage.turn, Host.tick, hmaterialize]
      cases hevent : findEvent scheduler.eventId t with
      | error e =>
        have hfind : ∀ n summary deeds, Stage.findEvent.turn caps scheduler rest
            (host.tick n deeds) summary t = ⟨t, .returned (.error e), []⟩ :=
          fun n summary deeds => by simp only [Stage.turn, hevent]
        rw [eq_onRow h, hfirst]
        refine ⟨_, [] ++ [], .head (next_onRow hturn) (.head (next_onRow (hfind _ _ _)) (.refl _)),
          ?_, .inl rfl, hnothing⟩
        simp [onRow]
      | ok event =>
        simp only [hmaterialize, hevent] at hsettles
        obtain ⟨n, summary₁, hleads⟩ := comes_readDue _ h htemplate hmaterialize hevent
        rw [List.append_nil] at hleads
        obtain ⟨u, more, ⟨n', summary₂, hwalk⟩, htried⟩ := walk_ends _ n t summary₁ l.deeds rfl
          hsettles
        obtain ⟨n'', v, summary₃, hleaves⟩ := leaves_recompute n' u summary₂ (l.deeds ++ more)
        exact ⟨_, more, (hleads.trans hwalk).trans hleaves, rfl, .inr ⟨_, rfl⟩,
          noneTwice_of_due htried⟩

/-- A call that goes wrong renders a receipt twice before it ends. -/
theorem not_settles_repeats (h : l.pass = .atRows caps summary (scheduler :: rest))
    (hsettles : ¬ Settles host caps scheduler l) :
    ∃ t stage more, Comes host caps scheduler rest l t stage more ∧ ¬ NoneTwice more := by
  have htemplate : scheduler.templateRef ≠ none := fun htemplate => hsettles (.inl htemplate)
  cases hmaterialize : materializeReceipts (host.receiptId l.steps) host.shift scheduler caps.batch
      l.db with
  | error e => exact absurd (.inr (by simp only [hmaterialize])) hsettles
  | ok r =>
    obtain ⟨ids, t⟩ := r
    cases hevent : findEvent scheduler.eventId t with
    | error e => exact absurd (.inr (by simp only [hmaterialize, hevent])) hsettles
    | ok event =>
      have hcloses : ¬ host.closesAll scheduler event (tried l.deeds)
          (fullBatches caps (t.due scheduler.id host.now)) := fun hcloses =>
        hsettles (.inr (by simpa only [hmaterialize, hevent] using hcloses))
      obtain ⟨n, summary₁, hleads⟩ := comes_readDue rest h htemplate hmaterialize hevent
      rw [List.append_nil] at hleads
      obtain ⟨u, stage, more, i, ⟨n', summary₂, hwalk⟩, htwice⟩ := walk_repeats _ n t summary₁
        l.deeds rfl hcloses
      exact ⟨u, stage, more, ⟨n', summary₂, hleads.trans hwalk⟩,
        fun hnone => absurd (hnone i).1 (Nat.not_le_of_lt htwice)⟩

end runOne

section runs

variable {host : Host} {caps : Caps} {scheduler : SchedulerRow} {rest : List SchedulerRow}
  {l l' : Lone} {summary : SchedulerRunSummary}

theorem countP_next (p : Deed → Bool) (l : Lone) :
    l.deeds.countP p ≤ (host.next l).deeds.countP p := by
  simp [Host.next]

theorem next_of_ended (h : l.ended = true) :
    host.next l = { l with steps := l.steps + 1 } := by
  cases l with
  | mk steps db pass deeds =>
    cases pass with
    | running caps point summary => cases h
    | idle | returned => simp [Host.next, Pass.turn]

theorem ended_next (host : Host) (l : Lone) (h : l.ended = true) : (host.next l).ended = true := by
  rw [next_of_ended h]
  exact h

/-- Every state of a run that ends has tried no more than the last one. -/
theorem noneTwice_of_leads (h : Leads host.next l l') (hend : l'.ended = true)
    (hnone : NoneTwice l'.deeds) (k : ℕ) : NoneTwice (host.next^[k] l).deeds := by
  have hbound : ∀ p : Deed → Bool, (host.next^[k] l).deeds.countP p ≤ l'.deeds.countP p :=
    fun p => h.le_of_halted hend (countP_next p)
      (ended_next host) (fun a ha => by rw [next_of_ended ha]) k
  exact fun i => ⟨(hbound _).trans (hnone i).1, (hbound _).trans (hnone i).2⟩

/-- One call of `run_one`. -/
def runOne (caps : Caps) (scheduler : SchedulerRow) (steps : ℕ) (s : Db)
    (summary : SchedulerRunSummary) : Lone := ⟨steps, s, .atRows caps summary [scheduler], []⟩

/-- It ends, and renders and enqueues no receipt twice. -/
def RunsOnce (host : Host) (l : Lone) : Prop :=
  Halts host.next Lone.ended l ∧ ∀ k, NoneTwice (host.next^[k] l).deeds

theorem runsOnce_iff (steps : ℕ) (s : Db) :
    RunsOnce host (runOne caps scheduler steps s summary) ↔
      Settles host caps scheduler (runOne caps scheduler steps s summary) := by
  constructor
  · rintro ⟨-, hnone⟩
    by_contra hsettles
    obtain ⟨t, stage, more, ⟨n, summary', k, hk⟩, htwice⟩ := not_settles_repeats rfl hsettles
    have hat := hnone k
    rw [hk] at hat
    exact htwice hat
  · intro hsettles
    obtain ⟨l', more, hleads, hdeeds, hend, hnone⟩ := settles_leads rfl hsettles
    have hended : l'.ended = true := by
      rcases hend with hend | ⟨summary', hpass⟩
      · exact hend
      · simp [Lone.ended, hpass, Pass.atRows, Pass.isRunning]
    exact ⟨hleads.halts hended, noneTwice_of_leads hleads hended (by rwa [hdeeds])⟩

/-- The two ways a pass starts. -/
inductive Entry where
  | runDueSchedulers
  | runSchedulerById (schedulerId : Uuid)

def Entry.point : Entry → Point
  | .runDueSchedulers => .propagate
  | .runSchedulerById schedulerId => .find schedulerId

def Entry.lone (entry : Entry) (caps : Caps) (steps : ℕ) (s : Db) : Lone :=
  ⟨steps, s, .running caps entry.point .zero, []⟩

/-- Every call of `run_one` in the run goes right in the state it starts from. -/
def SettlesEach (host : Host) (caps : Caps) (l : Lone) : Prop :=
  ∀ k scheduler rest summary,
    (host.next^[k] l).pass = .atRows caps summary (scheduler :: rest) →
      Settles host caps scheduler (host.next^[k] l)

/-- The pass is within the call of `run_one` on this row. -/
def Within (scheduler : SchedulerRow) (rest : List SchedulerRow) (p : Pass) : Prop :=
  ∃ caps stage summary, p = .running caps (.row scheduler rest stage) summary

/-- The pass ends, and no call of `run_one` in it tries a receipt twice. -/
def PassRunsOnce (host : Host) (caps : Caps) (l : Lone) : Prop :=
  Halts host.next Lone.ended l ∧
  ∀ k scheduler rest summary, (host.next^[k] l).pass = .atRows caps summary (scheduler :: rest) →
    ∀ j, Within scheduler rest (host.next^[j] (host.next^[k] l)).pass →
      NoneTwice ((host.next^[j] (host.next^[k] l)).deeds.drop (host.next^[k] l).deeds.length)

theorem SettlesEach.later (h : SettlesEach host caps l) (hleads : Leads host.next l l') :
    SettlesEach host caps l' := by
  obtain ⟨k, rfl⟩ := hleads
  intro j scheduler rest summary hpass
  rw [← Function.iterate_add_apply] at hpass ⊢
  exact h _ scheduler rest summary hpass

theorem halts_rows (rows : List SchedulerRow) (hpass : l.pass = .atRows caps summary rows)
    (h : SettlesEach host caps l) : Halts host.next Lone.ended l := by
  induction rows generalizing l summary with
  | nil => exact ⟨0, by simp [Lone.ended, hpass, Pass.atRows, Pass.isRunning]⟩
  | cons scheduler rest ih =>
    obtain ⟨l', more, hleads, -, hend, -⟩ := settles_leads hpass (h 0 _ _ _ hpass)
    rcases hend with hend | ⟨summary', hpass'⟩
    · exact hleads.halts hend
    · exact hleads.halts_trans (ih hpass' (h.later hleads))

theorem halts_entry (entry : Entry) (steps : ℕ) (s : Db)
    (h : SettlesEach host caps (entry.lone caps steps s)) :
    Halts host.next Lone.ended (entry.lone caps steps s) := by
  cases entry with
  | runDueSchedulers =>
    have hleads : Leads host.next (Entry.runDueSchedulers.lone caps steps s) _ :=
      .head rfl (.head rfl (.refl _))
    exact hleads.halts_trans (halts_rows _ rfl (h.later hleads))
  | runSchedulerById schedulerId =>
    have hleads : Leads host.next ((Entry.runSchedulerById schedulerId).lone caps steps s) _ :=
      .head rfl (.refl _)
    refine hleads.halts_trans ?_
    cases hfind : findScheduler schedulerId s with
    | error e =>
      refine ⟨0, ?_⟩
      simp [Host.next, Entry.lone, Entry.point, Pass.turn, Point.turn, hfind, Lone.ended,
        Pass.isRunning]
    | ok scheduler =>
      have hpass : (host.next ((Entry.runSchedulerById schedulerId).lone caps steps s)).pass =
          .atRows caps { SchedulerRunSummary.zero with schedulersClaimed := 1 } [scheduler] := by
        simp only [Host.next, Entry.lone, Entry.point, Pass.turn, Point.turn, hfind]
      exact halts_rows [scheduler] hpass (h.later hleads)

/-- The rows a pass has yet to finish, the one under way included. -/
def rowsLeft : Pass → ℕ
  | .running _ (.row _ rest _) _ => rest.length + 1
  | .running _ .propagate _ | .running _ .claim _ | .running _ (.find _) _ => 0
  | .idle | .returned _ => 0

/-- The pass has its rows. -/
def Claimed : Pass → Prop
  | .running _ (.row _ _ _) _ | .idle | .returned _ => True
  | .running _ .propagate _ | .running _ .claim _ | .running _ (.find _) _ => False

theorem claimed_atRows (rows : List SchedulerRow) :
    Claimed (.atRows caps summary rows) ∧ rowsLeft (.atRows caps summary rows) = rows.length := by
  cases rows with
  | nil => exact ⟨trivial, rfl⟩
  | cons scheduler rest => exact ⟨trivial, rfl⟩

/-- A pass takes no further row and never returns to a finished one. -/
theorem rowsLeft_turn {p : Pass} (h : Claimed p) (tick : Tick) (s : Db) :
    Claimed (p.turn tick s).pass ∧ rowsLeft (p.turn tick s).pass ≤ rowsLeft p := by
  have hrows : ∀ (caps : Caps) (summary : SchedulerRunSummary) (rest : List SchedulerRow),
      Claimed (.atRows caps summary rest) ∧
        rowsLeft (.atRows caps summary rest) ≤ rest.length + 1 := fun caps summary rest =>
    ⟨(claimed_atRows rest).1, by rw [(claimed_atRows rest).2]; exact Nat.le_succ _⟩
  cases p with
  | idle | returned => exact ⟨trivial, Nat.le_refl _⟩
  | running caps point summary =>
    cases point with
    | propagate | claim | find => exact h.elim
    | row scheduler rest stage =>
      have hstay : ∀ stage summary,
          Claimed (.running caps (.row scheduler rest stage) summary) ∧
          rowsLeft (.running caps (.row scheduler rest stage) summary) ≤ rest.length + 1 :=
        fun _ _ => ⟨trivial, Nat.le_refl _⟩
      cases stage with
      | sweep | rearm => exact hrows _ _ _
      | readDue | drop | markQueued | fail | clear | countMissing => exact hstay _ _
      | materialize | findEvent =>
        simp only [Pass.turn, Point.turn, Stage.turn]
        split
        · exact ⟨trivial, Nat.zero_le _⟩
        · exact hstay _ _
      | window | enqueue | recompute =>
        simp only [Pass.turn, Point.turn, Stage.turn]
        split <;> exact hstay _ _
      | render k =>
        simp only [Pass.turn, Point.turn, Stage.turn]
        split
        · exact hstay _ _
        · split <;> exact hstay _ _
      | readStill done unmaterialized =>
        simp only [Pass.turn, Point.turn, Stage.turn]
        split
        · exact hstay _ _
        · exact hrows _ _ _

variable (host) in
theorem rowsLeft_iterate (h : Claimed l.pass) (k : ℕ) :
    rowsLeft (host.next^[k] l).pass ≤ rowsLeft l.pass := by
  induction k generalizing l with
  | zero => exact Nat.le_refl _
  | succ k ih =>
    obtain ⟨hclaimed, hle⟩ := rowsLeft_turn h (host.tick l.steps l.deeds) l.db
    exact (ih (l := host.next l) hclaimed).trans hle

variable (host) in
theorem deeds_prefix (l : Lone) (k : ℕ) : l.deeds <+: (host.next^[k] l).deeds := by
  induction k generalizing l with
  | zero => exact List.prefix_refl _
  | succ k ih => exact (List.prefix_append _ _).trans (ih (host.next l))

theorem NoneTwice.of_prefix {deeds more : List Deed} (h : NoneTwice more) (hpre : deeds <+: more) :
    NoneTwice deeds := fun i =>
  ⟨(hpre.sublist.countP_le).trans (h i).1, (hpre.sublist.countP_le).trans (h i).2⟩

/-- A call that goes right tries nothing twice as long as it lasts. -/
theorem noneTwice_within (hpass : l.pass = .atRows caps summary (scheduler :: rest))
    (hsettles : Settles host caps scheduler l) (j : ℕ)
    (hwithin : Within scheduler rest (host.next^[j] l).pass) :
    NoneTwice ((host.next^[j] l).deeds.drop l.deeds.length) := by
  obtain ⟨l', more, ⟨k, rfl⟩, hdeeds, hend, hnone⟩ := settles_leads hpass hsettles
  rcases Nat.le_total j k with hjk | hkj
  · refine hnone.of_prefix ?_
    obtain ⟨d, rfl⟩ := Nat.exists_eq_add_of_le hjk
    have hpre := deeds_prefix host (host.next^[j] l) d
    rw [← Function.iterate_add_apply, Nat.add_comm, hdeeds] at hpre
    obtain ⟨early, hearly⟩ := deeds_prefix host l j
    rw [← hearly, List.prefix_append_right_inj] at hpre
    rwa [← hearly, List.drop_left]
  · obtain ⟨d, rfl⟩ := Nat.exists_eq_add_of_le hkj
    rw [Nat.add_comm, Function.iterate_add_apply] at hwithin
    generalize host.next^[k] l = l' at hend hwithin
    obtain ⟨caps', stage, summary', hlast⟩ := hwithin
    have hleft : Claimed l'.pass ∧ rowsLeft l'.pass ≤ rest.length := by
      rcases hend with hend | ⟨summary'', hpass'⟩
      · cases hp : l'.pass with
        | running caps point summary => simp [Lone.ended, hp, Pass.isRunning] at hend
        | idle | returned => exact ⟨trivial, Nat.zero_le _⟩
      · rw [hpass', (claimed_atRows rest).2]
        exact ⟨(claimed_atRows rest).1, Nat.le_refl _⟩
    have hfew := (rowsLeft_iterate host hleft.1 d).trans hleft.2
    rw [hlast] at hfew
    exact absurd hfew (Nat.not_succ_le_self _)

theorem passRunsOnce_iff (entry : Entry) (steps : ℕ) (s : Db) :
    PassRunsOnce host caps (entry.lone caps steps s) ↔
      SettlesEach host caps (entry.lone caps steps s) := by
  constructor
  · rintro ⟨-, hcalls⟩ k scheduler rest summary hpass
    by_contra hsettles
    obtain ⟨t, stage, more, ⟨n, summary', j, hj⟩, htwice⟩ := not_settles_repeats hpass hsettles
    have hcall := hcalls k scheduler rest summary hpass j
    rw [hj] at hcall
    refine htwice ?_
    have hnone := hcall ⟨caps, stage, summary', rfl⟩
    rwa [onRow, List.drop_left] at hnone
  · intro hsettles
    refine ⟨halts_entry entry steps s hsettles, fun k scheduler rest summary hpass j hwithin => ?_⟩
    exact noneTwice_within hpass (hsettles k scheduler rest summary hpass) j hwithin

end runs

/-- One call of `run_one` ends and tries no receipt twice exactly when it settles; a whole
pass ends, with every call doing so, exactly when each call settles. -/
theorem tries_once_iff (host : Host) (caps : Caps) (steps : ℕ) (s : Db) :
    (∀ scheduler summary, RunsOnce host (runOne caps scheduler steps s summary) ↔
      Settles host caps scheduler (runOne caps scheduler steps s summary)) ∧
    ∀ entry : Entry, PassRunsOnce host caps (entry.lone caps steps s) ↔
      SettlesEach host caps (entry.lone caps steps s) :=
  ⟨fun _ _ => runsOnce_iff steps s, fun entry => passRunsOnce_iff entry steps s⟩

section sample

/-- A host whose mail queue takes nothing. -/
def refusing : Host where
  now := 0
  shift created _ _ := some created
  scan _ := id
  locked _ _ := false
  receiptId _ := id
  renderer _ _ _ _ := .ok ⟨"", "", ""⟩
  queue _ _ _ := .error (.validation "refused")
  smsQueue _ _ _ := .ok ()

/-- With one refused receipt and batches of one, the batch is always full and the receipt is
tried again. -/
theorem refused_triedTwice : ¬ RunsOnce refusing
    (runOne ⟨1, 1000, by decide, by decide⟩ gigScheduler.schedulerRow 0 notice .zero) := fun h =>
  absurd ((h.2 10) 1).1 (by decide)

/-- Under the default batch the same receipt waits for the next pass. -/
example : RunsOnce refusing (runOne .default gigScheduler.schedulerRow 0 notice .zero) :=
  (runsOnce_iff 0 notice).mpr (.inr fun p d hd => by
    cases (show ([] : List DueReceipt)[p]? = some d from hd))

end sample

end BackboneEvents.SchedulerTermination
