import BackboneEvents.SteadyWalks
import Mathlib.Data.Nat.Pairing

/-!
# What one row's failure does to the others

Each claimed row has its own answers: of the ports, of the clock, and of the repository, which
may raise an error at any of its calls. The pass propagates such an error, so it goes through,
and leaves every row as its call alone does, exactly when no row's processing errs and no row
has a full batch of receipts that the ports refuse.
-/
namespace BackboneEvents.SchedulerIsolation
open ConstrainedTables DeterministicRuns ReceiptDeliveries SchedulerWalks SchedulerTermination
  SchedulerRounds SchedulerConvergence SchedulerCalls SteadyWalks

/-- What the pass meets outside the database, and what it meets on each row: there, a
repository call may raise an error as well. -/
structure Outcomes where
  pass : Tick
  row : Uuid → Tick
  raises : Uuid → Stage → Option EventError

/-- All but the window check and the calls of the ports. -/
def callsRepository : Stage → Bool
  | .window _ | .render _ | .enqueue _ _ _ => false
  | .sweep | .materialize | .findEvent | .readDue _ | .drop _ | .markQueued _ | .fail _ _
  | .recompute | .clear | .countMissing _ | .readStill _ _ | .rearm => true

namespace Outcomes

variable (o : Outcomes)

def raised (schedulerId : Uuid) (stage : Stage) : Option EventError :=
  if callsRepository stage then o.raises schedulerId stage else none

/-- An error of the repository ends the pass. -/
def turn (s : Db) : Pass → Turn
  | .running caps (.row scheduler rest stage) summary =>
    match o.raised scheduler.id stage with
    | some e => ⟨s, .returned (.error e), []⟩
    | none => stage.turn caps scheduler rest (o.row scheduler.id) summary s
  | p => p.turn o.pass s

def next (l : Lone) : Lone :=
  let turn := o.turn l.db l.pass
  ⟨l.steps + 1, turn.db, turn.pass, l.deeds ++ turn.deeds⟩

/-- The run comes to a summary, with this database and these deeds. -/
def Returns (l : Lone) (t : Db) (deeds : List Deed) : Prop :=
  ∃ n summary, Leads o.next l ⟨n, t, .returned (.ok summary), deeds⟩

end Outcomes

section machine

variable {o : Outcomes} {caps : Caps} {scheduler : SchedulerRow} {rest rest' : List SchedulerRow}
  {stage : Stage} {summary summary' : SchedulerRunSummary} {l l' : Lone} {t u : Db}
  {deeds more : List Deed}

theorem next_of_raised {e : EventError}
    (hpass : l.pass = .running caps (.row scheduler rest stage) summary)
    (hraised : o.raised scheduler.id stage = some e) :
    o.next l = ⟨l.steps + 1, l.db, .returned (.error e), l.deeds⟩ := by
  simp [Outcomes.next, hpass, Outcomes.turn, hraised]

theorem next_of_answered (hpass : l.pass = .running caps (.row scheduler rest stage) summary)
    (hraised : o.raised scheduler.id stage = none) :
    o.next l = (steady (o.row scheduler.id)).next l := by
  simp only [Outcomes.next, hpass, Outcomes.turn, hraised]
  simp only [Host.next, hpass, Pass.turn, Point.turn]
  rfl

theorem next_ended (h : l.ended = true) : o.next l = { l with steps := l.steps + 1 } := by
  cases l with
  | mk steps db pass deeds =>
    cases pass with
    | running caps point summary => cases h
    | idle | returned => simp [Outcomes.next, Outcomes.turn, Pass.turn]

theorem ended_of_ended (l : Lone) (h : l.ended = true) : (o.next l).ended = true := by
  rw [next_ended h]
  exact h

/-- Past its end the pass stands still. -/
theorem pass_of_ended (h : l.ended = true) (k : ℕ) : (o.next^[k] l).pass = l.pass :=
  iterate_of_halted ended_of_ended (fun a ha => by rw [next_ended ha]) k h

theorem returns_unique (h : o.Returns l t deeds) (h' : o.Returns l u more) :
    t = u ∧ deeds = more := by
  obtain ⟨n, summary, hleads⟩ := h
  obtain ⟨n', summary', hleads'⟩ := h'
  have hsame := hleads.agree (fun l => (l.db, l.deeds)) hleads' rfl rfl ended_of_ended
    (fun a ha => by rw [next_ended ha])
  exact Prod.mk.inj hsame

theorem Outcomes.Returns.of_pass (hleads : Leads o.next l l')
    (hpass : l'.pass = .returned (.ok summary)) :
    o.Returns l l'.db l'.deeds := by
  obtain ⟨steps, db, pass, deeds⟩ := l'
  obtain rfl : pass = _ := hpass
  exact ⟨steps, summary, hleads⟩

theorem Outcomes.Returns.exists_pass (h : o.Returns l t deeds) :
    ∃ k summary, (o.next^[k] l).pass = .returned (.ok summary) := by
  obtain ⟨n, summary, k, hk⟩ := h
  exact ⟨k, summary, by rw [hk]⟩

theorem Outcomes.Returns.head (hleads : Leads o.next l l') (h : o.Returns l' t deeds) :
    o.Returns l t deeds := by
  obtain ⟨n, summary, h⟩ := h
  exact ⟨n, summary, hleads.trans h⟩

/-- A run that returns does so from wherever it comes to. -/
theorem exists_pass_of_leads (hleads : Leads o.next l l') {k : ℕ}
    (h : (o.next^[k] l).pass = .returned (.ok summary)) :
    ∃ k', (o.next^[k'] l').pass = .returned (.ok summary) := by
  have hend : (o.next^[k] l).ended = true := by rw [Lone.ended, h]; rfl
  rcases hleads.total ⟨k, rfl⟩ with ⟨d, hd⟩ | ⟨d, rfl⟩
  · exact ⟨d, by rw [hd, h]⟩
  · exact ⟨0, by rw [Function.iterate_zero_apply, pass_of_ended hend, h]⟩

end machine

/-- Two calls on one row, in passes over different rows: since they began each has kept the
other rows, and both have done the same to this one. -/
structure Paired (o : Outcomes) (schedulerId : Uuid) (l₀ l₀' l l' : Lone) : Prop where
  db : Alike schedulerId l.db l'.db
  holds : passHolds l.db l.pass
  holds' : passHolds l'.db l'.pass
  kept : Elsewhere (o.row schedulerId).receiptId schedulerId l₀.db l.db
  kept' : Elsewhere (o.row schedulerId).receiptId schedulerId l₀'.db l'.db
  deeds : ∃ more, l.deeds = l₀.deeds ++ more ∧ l'.deeds = l₀'.deeds ++ more ∧
    ∀ deed ∈ more, schedulerOf deed = schedulerId

section paired

variable {o : Outcomes} {caps : Caps} {scheduler : SchedulerRow} {rest rest' : List SchedulerRow}
  {stage : Stage} {summary summary' : SchedulerRunSummary} {l₀ l₀' l l' : Lone}

theorem Paired.next (h : Paired o scheduler.id l₀ l₀' l l')
    (hpass : l.pass = .running caps (.row scheduler rest stage) summary)
    (hpass' : l'.pass = .running caps (.row scheduler rest' stage) summary')
    (hfresh : stage = .materialize → FreshReceipts l.db (o.row scheduler.id).receiptId ∧
      FreshReceipts l'.db (o.row scheduler.id).receiptId) :
    Paired o scheduler.id l₀ l₀' (o.next l) (o.next l') ∧
      AlikePass caps scheduler rest rest' (o.next l).pass (o.next l').pass := by
  cases hraised : o.raised scheduler.id stage with
  | some e =>
    rw [next_of_raised hpass hraised, next_of_raised hpass' hraised]
    exact ⟨⟨h.db, trivial, trivial, h.kept, h.kept', h.deeds⟩, .failed e⟩
  | none =>
    have hturn : ∀ {l : Lone} {rest : List SchedulerRow} {summary : SchedulerRunSummary},
        l.pass = .running caps (.row scheduler rest stage) summary → o.next l =
          ⟨l.steps + 1, (l.pass.turn (o.row scheduler.id) l.db).db,
            (l.pass.turn (o.row scheduler.id) l.db).pass,
            l.deeds ++ (l.pass.turn (o.row scheduler.id) l.db).deeds⟩ :=
      fun hpass => next_of_answered hpass hraised
    have hholds := passHolds_turn h.holds (o.row scheduler.id)
    have hholds' := passHolds_turn h.holds' (o.row scheduler.id)
    have hunsent := h.holds
    have hunsent' := h.holds'
    rw [hpass] at hunsent
    rw [hpass'] at hunsent'
    obtain ⟨more, hmore, hmore', habout⟩ := h.deeds
    have halike := @turn_alike caps scheduler _ _ rest rest' (o.row scheduler.id) h.db stage hfresh
      summary summary'
    rw [hturn hpass, hturn hpass']
    rw [hpass] at hholds ⊢
    rw [hpass'] at hholds' ⊢
    refine ⟨⟨halike.db, hholds, hholds', h.kept.trans (turn_elsewhere hunsent),
      h.kept'.trans (turn_elsewhere hunsent'),
      more ++ (stage.turn caps scheduler rest (o.row scheduler.id) summary l.db).deeds, ?_, ?_,
      fun deed hdeed => ?_⟩, halike.pass⟩
    · rw [← List.append_assoc, ← hmore]
      rfl
    · rw [← List.append_assoc, ← hmore', ← halike.deeds]
      rfl
    · exact (List.mem_append.mp hdeed).elim (habout deed) (turn_deeds stage deed)

/-- When one of the passes returns a summary, both calls come to their ends, with the same
done to the row. -/
theorem Paired.leave (h : Paired o scheduler.id l₀ l₀' l l')
    (hpass : AlikePass caps scheduler rest rest' l.pass l'.pass) {k : ℕ}
    (hend : (o.next^[k] l).pass = .returned (.ok summary) ∨
      (o.next^[k] l').pass = .returned (.ok summary)) :
    ∃ m m' summary₁ summary₂, Leads o.next l m ∧ Leads o.next l' m' ∧
      m.pass = .atRows caps summary₁ rest ∧ m'.pass = .atRows caps summary₂ rest' ∧
      Paired o scheduler.id l₀ l₀' m m' := by
  induction k generalizing l l' with
  | zero =>
    obtain ⟨p, hp⟩ : ∃ p, p = l.pass := ⟨_, rfl⟩
    obtain ⟨p', hp'⟩ : ∃ p', p' = l'.pass := ⟨_, rfl⟩
    simp only [Function.iterate_zero_apply] at hend
    rw [← hp, ← hp'] at hpass hend
    cases hpass with
    | within stage later summary summary' => simp at hend
    | left summary₁ summary₂ =>
      exact ⟨l, l', _, _, .refl _, .refl _, hp.symm, hp'.symm, h⟩
    | failed e => simp at hend
  | succ k ih =>
    obtain ⟨p, hp⟩ : ∃ p, p = l.pass := ⟨_, rfl⟩
    obtain ⟨p', hp'⟩ : ∃ p', p' = l'.pass := ⟨_, rfl⟩
    rw [← hp, ← hp'] at hpass
    cases hpass with
    | within stage later summary summary' =>
      obtain ⟨hnext, hpass⟩ := h.next hp.symm hp'.symm fun hstage => absurd hstage later
      obtain ⟨m, m', summary₁, summary₂, hm, hm', hrows, hrows', hpaired⟩ := ih hnext hpass hend
      exact ⟨m, m', _, _, .head rfl hm, .head rfl hm', hrows, hrows', hpaired⟩
    | left summary₁ summary₂ =>
      exact ⟨l, l', _, _, .refl _, .refl _, hp.symm, hp'.symm, h⟩
    | failed e =>
      rw [pass_of_ended (by rw [Lone.ended, ← hp]; rfl), pass_of_ended (by rw [Lone.ended, ← hp']; rfl),
        ← hp, ← hp'] at hend
      simp at hend

/-- The calls on a row, from where they begin. -/
theorem calls_leave (hpass : l.pass = .atRows caps summary (scheduler :: rest))
    (hpass' : l'.pass = .atRows caps summary' (scheduler :: rest'))
    (halike : Alike scheduler.id l.db l'.db)
    (hfresh : FreshReceipts l.db (o.row scheduler.id).receiptId)
    (hfresh' : FreshReceipts l'.db (o.row scheduler.id).receiptId) {k : ℕ}
    {final : SchedulerRunSummary}
    (hend : (o.next^[k] l).pass = .returned (.ok final) ∨
      (o.next^[k] l').pass = .returned (.ok final)) :
    ∃ m m' summary₁ summary₂, Leads o.next l m ∧ Leads o.next l' m' ∧
      m.pass = .atRows caps summary₁ rest ∧ m'.pass = .atRows caps summary₂ rest' ∧
      Paired o scheduler.id l l' m m' := by
  have hstart : Paired o scheduler.id l l' l l' := by
    refine ⟨halike, ?_, ?_, .refl _ _ _, .refl _ _ _, [], by simp, by simp, by simp⟩
    · rw [hpass]
      exact passHolds_atRows _ _ _
    · rw [hpass']
      exact passHolds_atRows _ _ _
  obtain ⟨hnext, hafter⟩ := hstart.next hpass hpass' fun _ => ⟨hfresh, hfresh'⟩
  cases k with
  | zero => simp [hpass, hpass', Pass.atRows] at hend
  | succ k =>
    obtain ⟨m, m', summary₁, summary₂, hm, hm', hrows, hrows', hpaired⟩ := hnext.leave hafter hend
    exact ⟨m, m', _, _, .head rfl hm, .head rfl hm', hrows, hrows', hpaired⟩

end paired

/-- The rows still to come are as they were in this state, and can draw unused ids. -/
structure Pending (o : Outcomes) (rows : List SchedulerRow) (s t : Db) : Prop where
  alike : ∀ scheduler ∈ rows, Alike scheduler.id s t
  fresh : ∀ scheduler ∈ rows, FreshReceipts t (o.row scheduler.id).receiptId

/-- No id is drawn twice, and none is in use. -/
structure FreshIds (o : Outcomes) (s : Db) : Prop where
  unused : ∀ x ∈ s.mailRegistrations.rows, ∀ a r, x.id ≠ (o.row a).receiptId r
  apart : ∀ a b r r', (o.row a).receiptId r = (o.row b).receiptId r' → a = b ∧ r = r'

section rows

variable {o : Outcomes} {caps : Caps} {scheduler : SchedulerRow} {rows rest : List SchedulerRow}
  {summary final : SchedulerRunSummary} {s t u : Db} {l : Lone} {deeds : List Deed}

theorem FreshIds.receipts (h : FreshIds o s) (schedulerId : Uuid) :
    FreshReceipts s (o.row schedulerId).receiptId :=
  ⟨fun x hx r => h.unused x hx schedulerId r, fun r r' hsame => (h.apart _ _ r r' hsame).2⟩

/-- A call on another row leaves the rows to come. -/
theorem Pending.kept (h : Pending o (scheduler :: rest) s t) (hfresh : FreshIds o s)
    (hids : ∀ later ∈ rest, scheduler.id ≠ later.id)
    (hkept : Elsewhere (o.row scheduler.id).receiptId scheduler.id t u) : Pending o rest s u where
  alike later hlater := (h.alike later (List.mem_cons_of_mem _ hlater)).trans
    (hkept.alike later.id (hids later hlater).symm)
  fresh later hlater := by
    have hbefore := h.fresh later (List.mem_cons_of_mem _ hlater)
    refine ⟨fun x hx r => ?_, hbefore.apart⟩
    rcases hkept.ids x hx with ⟨y, hy, hid⟩ | ⟨r', hid⟩
    · rw [← hid]
      exact hbefore.fresh y hy r
    · rw [hid]
      exact fun hsame => hids later hlater (hfresh.apart _ _ _ _ hsame).1

theorem filter_about {schedulerId a : Uuid} (h : ∀ deed ∈ deeds, schedulerOf deed = schedulerId) :
    deeds.filter (schedulerOf · == a) = if schedulerId = a then deeds else [] := by
  split
  · next hsame => exact List.filter_eq_self.mpr fun deed hdeed => by simp [h deed hdeed, hsame]
  · next hother => exact List.filter_eq_nil_iff.mpr fun deed hdeed => by simp [h deed hdeed, hother]

/-- What a pass over the rows leaves, when each call returns. -/
structure Through (o : Outcomes) (caps : Caps) (rows : List SchedulerRow) (s : Db) (l : Lone) (t : Db)
    (deeds : List Deed) : Prop where
  returns : o.Returns l t (l.deeds ++ deeds)
  kept : ∀ a, (∀ scheduler ∈ rows, scheduler.id ≠ a) → Alike a l.db t
  about : ∀ deed ∈ deeds, ∃ scheduler ∈ rows, schedulerOf deed = scheduler.id
  alone : ∀ scheduler ∈ rows, ∀ u own, o.Returns (runOne caps scheduler 0 s .zero) u own →
    Alike scheduler.id u t ∧ deeds.filter (schedulerOf · == scheduler.id) = own

/-- Calls that return alone return in the pass as well, and do there what they do alone. -/
theorem rows_through (hids : rows.Pairwise (·.id ≠ ·.id)) (hpass : l.pass = .atRows caps summary rows)
    (hfresh : FreshIds o s) (h : Pending o rows s l.db)
    (hcalls : ∀ scheduler ∈ rows, ∃ u own, o.Returns (runOne caps scheduler 0 s .zero) u own) :
    ∃ t deeds, Through o caps rows s l t deeds := by
  induction rows generalizing l summary with
  | nil =>
    refine ⟨l.db, [], ?_, fun a _ => .refl a _, by simp, by simp⟩
    rw [List.append_nil]
    exact Outcomes.Returns.of_pass (.refl l) hpass
  | cons scheduler rest ih =>
    obtain ⟨hhead, htail⟩ := List.pairwise_cons.mp hids
    obtain ⟨u, own, hown⟩ := hcalls scheduler List.mem_cons_self
    obtain ⟨k, final, hfinal⟩ := hown.exists_pass
    have halike := h.alike scheduler List.mem_cons_self
    obtain ⟨m, m', summary₁, summary₂, hm, hm', hrows, hrows', hpaired⟩ := calls_leave hpass rfl
      halike.symm (h.fresh scheduler List.mem_cons_self) (hfresh.receipts _) (.inr hfinal)
    obtain ⟨rfl, rfl⟩ := returns_unique hown (.of_pass hm' hrows')
    obtain ⟨more, hmore, hmore', habout⟩ := hpaired.deeds
    obtain ⟨t, deeds, hthrough⟩ := ih htail hrows (h.kept hfresh hhead hpaired.kept)
      fun later hlater => hcalls later (List.mem_cons_of_mem _ hlater)
    have hdeeds : ∀ deed ∈ deeds, schedulerOf deed ≠ scheduler.id := fun deed hdeed hsame => by
      obtain ⟨later, hlater, hfor⟩ := hthrough.about deed hdeed
      exact hhead later hlater (hsame.symm.trans hfor)
    refine ⟨t, more ++ deeds, ?_, fun a ha => ?_, fun deed hdeed => ?_, fun row hrow v own' hown' => ?_⟩
    · rw [← List.append_assoc, ← hmore]
      exact .head hm hthrough.returns
    · exact (hpaired.kept.alike a (ha scheduler List.mem_cons_self).symm).trans
        (hthrough.kept a fun later hlater => ha later (List.mem_cons_of_mem _ hlater))
    · rcases List.mem_append.mp hdeed with hdeed | hdeed
      · exact ⟨scheduler, List.mem_cons_self, habout deed hdeed⟩
      · obtain ⟨later, hlater, hfor⟩ := hthrough.about deed hdeed
        exact ⟨later, List.mem_cons_of_mem _ hlater, hfor⟩
    · rw [List.filter_append, filter_about habout]
      rcases List.mem_cons.mp hrow with rfl | hlater
      · obtain ⟨rfl, rfl⟩ := returns_unique hown hown'
        have hnone : deeds.filter (schedulerOf · == row.id) = [] :=
          List.filter_eq_nil_iff.mpr fun deed hdeed => by simpa using hdeeds deed hdeed
        refine ⟨hpaired.db.symm.trans
          (hthrough.kept row.id fun later hlater => (hhead later hlater).symm), ?_⟩
        rw [if_pos rfl, hnone, List.append_nil, hmore']
        rfl
      · rw [if_neg (hhead row hlater), List.nil_append]
        exact hthrough.alone row hlater v own' hown'

/-- Each call of a pass that returns a summary returns alone. -/
theorem calls_return (hids : rows.Pairwise (·.id ≠ ·.id)) (hpass : l.pass = .atRows caps summary rows)
    (hfresh : FreshIds o s) (h : Pending o rows s l.db) {k : ℕ}
    (hend : (o.next^[k] l).pass = .returned (.ok final)) :
    ∀ scheduler ∈ rows, ∃ u own, o.Returns (runOne caps scheduler 0 s .zero) u own := by
  induction rows generalizing l summary k with
  | nil => simp
  | cons scheduler rest ih =>
    obtain ⟨hhead, htail⟩ := List.pairwise_cons.mp hids
    have halike := h.alike scheduler List.mem_cons_self
    have halone : (runOne caps scheduler 0 s .zero).pass = .atRows caps .zero [scheduler] := rfl
    obtain ⟨m, m', summary₁, summary₂, hm, hm', hrows, hrows', hpaired⟩ := calls_leave hpass halone
      halike.symm (h.fresh scheduler List.mem_cons_self) (hfresh.receipts _) (.inl hend)
    obtain ⟨k', hend'⟩ := exists_pass_of_leads hm hend
    intro row hrow
    rcases List.mem_cons.mp hrow with rfl | hlater
    · exact ⟨_, _, .of_pass hm' hrows'⟩
    · exact ih htail hrows (h.kept hfresh hhead hpaired.kept) hend' row hlater

end rows

/-- No call that the row's processing makes, alone from this state, raises an error. -/
def Answered (o : Outcomes) (caps : Caps) (scheduler : SchedulerRow) (l : Lone) : Prop :=
  ∀ n stage summary, ((steady (o.row scheduler.id)).next^[n] l).pass =
    .running caps (.row scheduler [] stage) summary → o.raised scheduler.id stage = none

section alone

variable {o : Outcomes} {caps : Caps} {scheduler : SchedulerRow} {stage : Stage}
  {summary : SchedulerRunSummary} {l : Lone}

/-- In the one call of a pass, or past its end. -/
def OnlyRow (caps : Caps) (scheduler : SchedulerRow) (l : Lone) : Prop :=
  (∃ stage summary, l.pass = .running caps (.row scheduler [] stage) summary) ∨ l.ended = true

theorem OnlyRow.next (host : Host) (h : OnlyRow caps scheduler l) :
    OnlyRow caps scheduler (host.next l) := by
  rcases h with ⟨stage, summary, hpass⟩ | hend
  · have hturn : (host.next l).pass =
        (stage.turn caps scheduler [] (host.tick l.steps l.deeds) summary l.db).pass := by
      simp only [Host.next, hpass, Pass.turn, Point.turn]
    rcases turn_pass stage with ⟨stage', summary', hstay⟩ | ⟨summary', hleave⟩ | ⟨e, herror⟩
    · exact .inl ⟨stage', summary', hturn.trans hstay⟩
    · refine .inr ?_
      rw [Lone.ended, hturn, hleave]
      rfl
    · refine .inr ?_
      rw [Lone.ended, hturn, herror]
      rfl
  · exact .inr (ended_next host l hend)

theorem answered_succ (h : Answered o caps scheduler ((steady (o.row scheduler.id)).next l))
    (hfirst : ∀ stage summary, l.pass = .running caps (.row scheduler [] stage) summary →
      o.raised scheduler.id stage = none) : Answered o caps scheduler l := by
  intro n stage summary hpass
  cases n with
  | zero => exact hfirst stage summary hpass
  | succ n => exact h n stage summary hpass

theorem answered_of_ended (h : l.ended = true) : Answered o caps scheduler l := by
  intro n stage summary hpass
  have hstill : ((steady (o.row scheduler.id)).next^[n] l).pass = l.pass :=
    iterate_of_halted (ended_next _) (fun a ha => by rw [next_of_ended ha]) n h
  rw [Lone.ended, ← hstill, hpass] at h
  cases h

/-- A call that meets errors of the repository ends well when it does so without them, and
meets none. -/
theorem returns_iff (h : OnlyRow caps scheduler l) :
    (∃ u own, o.Returns l u own) ↔
      EndsWell (steady (o.row scheduler.id)) l ∧ Answered o caps scheduler l := by
  constructor
  · rintro ⟨u, own, hreturns⟩
    obtain ⟨k, final, hfinal⟩ := hreturns.exists_pass
    clear hreturns
    induction k generalizing l with
    | zero =>
      rcases h with ⟨stage, summary, hpass⟩ | hend
      · rw [Function.iterate_zero_apply, hpass] at hfinal
        cases hfinal
      · exact ⟨⟨0, final, hfinal⟩, answered_of_ended hend⟩
    | succ k ih =>
      rcases h with ⟨stage, summary, hpass⟩ | hend
      · cases hraised : o.raised scheduler.id stage with
        | some e =>
          rw [Function.iterate_succ_apply, next_of_raised hpass hraised, pass_of_ended rfl] at hfinal
          cases hfinal
        | none =>
          have hnext := OnlyRow.next (steady (o.row scheduler.id)) (.inl ⟨stage, summary, hpass⟩)
          rw [Function.iterate_succ_apply, next_of_answered hpass hraised] at hfinal
          obtain ⟨⟨k', final', hends⟩, hanswered⟩ := ih hnext hfinal
          refine ⟨⟨k' + 1, final', hends⟩, answered_succ hanswered fun stage' summary' hpass' => ?_⟩
          rw [hpass] at hpass'
          cases hpass'
          exact hraised
      · rw [pass_of_ended hend] at hfinal
        exact ⟨⟨0, final, hfinal⟩, answered_of_ended hend⟩
  · rintro ⟨⟨k, final, hfinal⟩, hanswered⟩
    induction k generalizing l with
    | zero => exact ⟨_, _, .of_pass (.refl l) hfinal⟩
    | succ k ih =>
      rcases h with ⟨stage, summary, hpass⟩ | hend
      · have hnext := OnlyRow.next (steady (o.row scheduler.id)) (.inl ⟨stage, summary, hpass⟩)
        obtain ⟨u, own, hreturns⟩ := ih hnext (fun n => hanswered (n + 1)) hfinal
        refine ⟨u, own, .head (.head ?_ (.refl _)) hreturns⟩
        exact next_of_answered hpass (hanswered 0 stage summary hpass)
      · have hstill : ((steady (o.row scheduler.id)).next^[k + 1] l).pass = l.pass :=
          iterate_of_halted (ended_next _) (fun a ha => by rw [next_of_ended ha]) _ hend
        rw [hstill] at hfinal
        exact ⟨_, _, .of_pass (.refl l) hfinal⟩

end alone

namespace Outcomes

variable (o : Outcomes) (caps : Caps) (s : Db)

/-- What the propagation of cancellations leaves. -/
def propagated : Db := (propagateCancellations caps.cronLimit o.pass.scan s).2

def claimed : List SchedulerRow :=
  claimDue caps.cronLimit o.pass.now o.pass.scan o.pass.locked (o.propagated caps s)

end Outcomes

/-- A pass that has claimed these rows. -/
def passOver (caps : Caps) (rows : List SchedulerRow) (s : Db) : Lone :=
  ⟨0, s, .atRows caps .zero rows, []⟩

/-- The pass returns a summary, and whatever other rows had not been there, each row that is
kept would have been left the same, with the same deeds. -/
def Isolated (o : Outcomes) (caps : Caps) (s : Db) : Prop :=
  ∃ t deeds, o.Returns (Entry.runDueSchedulers.lone caps 0 s) t deeds ∧
    ∀ kept : SchedulerRow → Bool, ∃ u own,
      o.Returns (passOver caps ((o.claimed caps s).filter kept) (o.propagated caps s)) u own ∧
      ∀ scheduler ∈ o.claimed caps s, kept scheduler = true → Alike scheduler.id u t ∧
        deeds.filter (schedulerOf · == scheduler.id) = own.filter (schedulerOf · == scheduler.id)

section pass

variable {o : Outcomes} {caps : Caps} {s : Db}

theorem FreshIds.propagated (h : FreshIds o s) : FreshIds o (o.propagated caps s) :=
  ⟨fun x hx => h.unused x (List.mem_filter.mp hx).1, h.apart⟩

theorem leads_passOver (o : Outcomes) (caps : Caps) (s : Db) : ∃ summary,
    Leads o.next (Entry.runDueSchedulers.lone caps 0 s)
      ⟨2, o.propagated caps s, .atRows caps summary (o.claimed caps s), []⟩ :=
  ⟨_, .head rfl (.head rfl (.refl _))⟩

theorem pending_start (h : FreshIds o s) (rows : List SchedulerRow) : Pending o rows s s :=
  ⟨fun _ _ => .refl _ _, fun _ _ => h.receipts _⟩

/-- The pass isolates its rows exactly when each of their calls returns alone. -/
theorem isolated_iff_calls (hfresh : FreshIds o s) : Isolated o caps s ↔
    ∀ scheduler ∈ o.claimed caps s, ∃ u own,
      o.Returns (runOne caps scheduler 0 (o.propagated caps s) .zero) u own := by
  obtain ⟨summary, hleads⟩ := leads_passOver o caps s
  have hids : (o.claimed caps s).Pairwise (·.id ≠ ·.id) := claimDue_pairwise
  have hfresh' : FreshIds o (o.propagated caps s) := hfresh.propagated
  constructor
  · rintro ⟨t, deeds, hreturns, -⟩
    obtain ⟨k, final, hfinal⟩ := hreturns.exists_pass
    obtain ⟨k', hfinal'⟩ := exists_pass_of_leads hleads hfinal
    exact calls_return hids rfl hfresh' (pending_start hfresh' _) hfinal'
  · intro hcalls
    obtain ⟨t, deeds, hthrough⟩ := rows_through (l := ⟨2, o.propagated caps s,
      .atRows caps summary (o.claimed caps s), []⟩) hids rfl hfresh' (pending_start hfresh' _) hcalls
    refine ⟨t, deeds, .head hleads hthrough.returns, fun kept => ?_⟩
    have hsub : ((o.claimed caps s).filter kept).Sublist (o.claimed caps s) := List.filter_sublist
    obtain ⟨u, own, hkept⟩ := rows_through (l := passOver caps ((o.claimed caps s).filter kept)
      (o.propagated caps s)) (hids.sublist hsub) rfl hfresh' (pending_start hfresh' _)
      fun scheduler hmem => hcalls scheduler (hsub.subset hmem)
    refine ⟨u, own, hkept.returns, fun scheduler hmem hkeep => ?_⟩
    obtain ⟨v, alone, halone⟩ := hcalls scheduler hmem
    obtain ⟨hdb, hdeeds⟩ := hthrough.alone scheduler hmem v alone halone
    obtain ⟨hdb', hdeeds'⟩ := hkept.alone scheduler (List.mem_filter.mpr ⟨hmem, hkeep⟩) v alone halone
    exact ⟨hdb'.symm.trans hdb, hdeeds.trans hdeeds'.symm⟩

/-- No row stops the pass or disturbs another exactly when each claimed row goes through and
meets no error of the repository. -/
theorem isolated_iff (o : Outcomes) (caps : Caps) (s : Db) (hfresh : FreshIds o s) :
    Isolated o caps s ↔ ∀ scheduler ∈ o.claimed caps s,
      GoesThrough (o.row scheduler.id) caps scheduler (o.propagated caps s) ∧
      Answered o caps scheduler (runOne caps scheduler 0 (o.propagated caps s) .zero) := by
  rw [isolated_iff_calls hfresh]
  refine forall₂_congr fun scheduler hmem => ?_
  obtain ⟨m, hm, rfl⟩ := exists_of_mem_claimDue hmem
  have honly : OnlyRow caps m.schedulerRow
      (runOne caps m.schedulerRow 0 (o.propagated caps s) .zero) := .inl ⟨_, _, rfl⟩
  rw [returns_iff honly, endsWell_iff (mail?_eq_some hm) (hfresh.propagated.receipts _)]

end pass

section sample

/-- The microseconds of an interval, a month counted as 30 days. -/
def micros (nbr : ℕ) : IntervalUnit → ℤ
  | .now => 0
  | .hours => 3600000000 * nbr
  | .days => 86400000000 * nbr
  | .weeks => 604800000000 * nbr
  | .months => 2592000000000 * nbr

/-- Interval arithmetic that fails beyond the last timestamp, at the end of the year 294276. -/
def ranged : Shift := fun instant nbr unit =>
  if instant + micros nbr unit < 9224318016000000000 then some (instant + micros nbr unit) else none

/-- Ports that accept everything, an hour after the epoch. -/
def willing : Outcomes :=
  let tick (schedulerId : Uuid) : Tick :=
    ⟨3600000000, id, fun _ => false, Nat.pair schedulerId, ranged,
      fun _ _ _ => .ok ⟨"", "", ""⟩, fun _ _ => .ok (), fun _ _ => .ok ()⟩
  ⟨tick 0, tick, fun _ _ => none⟩

/-- Two rows of one event, the second an hourly one, and one attendee. -/
def twoRows (first : Mail) : Db :=
  { openGig with
    mails := (Table.empty.push first).push
      { gigScheduler with id := 2, intervalUnit := .hours, intervalNbr := 1 } }.next
    (.register (.counting 1) ann)

def untemplated : Mail :=
  { gigScheduler with intervalUnit := .hours, intervalNbr := 1, templateRef := none }

/-- The largest number of months its column holds. -/
def boundless : Mail := { gigScheduler with intervalUnit := .months, intervalNbr := 2147483647 }

theorem willing_fresh {s : Db} (h : s.mailRegistrations.rows = []) : FreshIds willing s := by
  refine ⟨fun x hx => ?_, fun a b r r' hsame => Nat.pair_eq_pair.mp hsame⟩
  rw [h] at hx
  cases hx

/-- One row without a template: the other goes through. -/
theorem isolated_iff_untemplated : Isolated willing .default (twoRows untemplated) := by
  have hrows : ∀ scheduler ∈ willing.claimed .default (twoRows untemplated),
      scheduler.templateRef = none ∨
        scheduler = ⟨2, 1, 1, .hours, .afterSub, .mail, some 1, some "mail", false, none⟩ := by decide
  refine (isolated_iff _ _ _ (willing_fresh (by decide))).mpr fun scheduler hmem =>
    ⟨?_, fun n stage summary hpass => by simp [Outcomes.raised, willing]⟩
  rcases hrows scheduler hmem with hnone | rfl
  · exact .inl hnone
  · refine .inr ⟨{ gigScheduler with id := 2, intervalUnit := .hours, intervalNbr := 1 },
      { gig with seatsLimited := false, seatsMax := 0 }, ?_⟩
    exact ⟨by decide, by decide, by decide, by decide⟩

/-- The pass fails at the first row, and does not come to the second. -/
theorem overflowing_stops : FreshIds willing (twoRows boundless) ∧
    ¬ Isolated willing .default (twoRows boundless) := by
  refine ⟨willing_fresh (by decide), ?_⟩
  rintro ⟨t, deeds, ⟨n, summary, hleads⟩, -⟩
  have hfails : (willing.next^[3]
      (Entry.runDueSchedulers.lone .default 0 (twoRows boundless))).pass =
        .returned (.error (.database "mail_registrations: insert failed")) := rfl
  have hsame := hleads.agree Lone.pass ⟨3, rfl⟩ rfl (by rw [Lone.ended, hfails]; rfl) ended_of_ended
    fun l hl => by rw [next_ended hl]
  rw [hfails] at hsame
  cases hsame

end sample

end BackboneEvents.SchedulerIsolation
