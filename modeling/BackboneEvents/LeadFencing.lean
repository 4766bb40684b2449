import BackboneEvents.LeadLeases

/-!
# A walk that outlives its lease

A finish is keyed on the event alone. A walker whose event has been leased again since
clears the newer stamp and writes its own outcome, and the next claim meets a free row while
the newer walker is still at work.
-/
namespace BackboneEvents.LeadGeneration
open ConstrainedTables GuardedRuns

/-- The event an agent is about to finish, and with what outcome. -/
def Agent.finishes : Agent → Option (Uuid × Option String)
  | .running _ (.walk _ e (.finish reason)) _ => some (e, reason)
  | .running _ _ _ | .idle | .returned _ | .patching _ _ _ | .patched _ => none

section statements

variable {ι : Type} [DecidableEq ι]

/-- A finish of an event that someone else has leased since leaves the queue as it is. -/
def Leased.Spares (o : Leased ι) : Act ι → Prop
  | .turn i tick => ∀ f ∈ (o.world.agents i).finishes, o.newest f.1 ≠ some i →
    (o.next (.turn i tick)).world.db.leadRequests = o.world.db.leadRequests
  | .verb _ | .createRule _ _ | .patchRule _ _ _ | .runDueLeadRequests _ _
  | .runRequestOfEvent _ _ _ | .crash _ => True

/-- Nobody can claim an event while its newest walker is unexpired. -/
def Leased.Guarded (o : Leased ι) : Prop :=
  ∀ e i, (o.world.agents i).walks e = true → o.newest e = some i → ∀ now ≤ o.stamp i + lease,
    ∀ q ∈ o.world.db.leadRequests.rows, q.eventId = e → q.leasable now = false

/-- No walker finishes an event that someone else has leased since, but with a reason the
column does not hold, or where the row is free and has this outcome. -/
def Leased.Timed (o : Leased ι) : Act ι → Prop
  | .turn i _ => ∀ f ∈ (o.world.agents i).finishes, o.newest f.1 ≠ some i →
    f.2.any (fun text => decide (500 < text.toList.length)) = true ∨
    ∀ q ∈ o.world.db.leadRequests.rows, q.eventId = f.1 →
      q.claimedAt = none ∧ q.done = f.2.isNone ∧ q.errorDetail = f.2
  | .verb _ | .createRule _ _ | .patchRule _ _ _ | .runDueLeadRequests _ _
  | .runRequestOfEvent _ _ _ | .crash _ => True

end statements

section proofs

variable {ι : Type} [DecidableEq ι] {o : Leased ι} {i : ι} {tick : Tick} {caps : Caps}
  {origin : Origin} {e : Uuid} {reason : Option String} {summary : LeadRunSummary}

theorem finishes_iff {a : Agent} : a.finishes = some (e, reason) ↔
    ∃ caps origin summary, a = .running caps (.walk origin e (.finish reason)) summary := by
  constructor
  · intro h
    simp only [Agent.finishes] at h
    split at h
    · next caps origin e' reason' summary =>
      obtain ⟨rfl, rfl⟩ := Prod.mk.inj (Option.some.inj h)
      exact ⟨caps, origin, summary, rfl⟩
    all_goals cases h
  · rintro ⟨caps, origin, summary, rfl⟩
    rfl

variable (tick caps origin e reason summary) in
/-- A finish rewrites the event's row, or fails on a reason that is too long. -/
theorem finish_requests (s : Db) :
    (reason.any (fun text => decide (500 < text.toList.length)) = true ∧
      ((Stage.finish reason).turn caps origin e tick summary s).db = s ∧
      ∃ error, ((Stage.finish reason).turn caps origin e tick summary s).agent =
        .returned (.error error)) ∨
    (reason.any (fun text => decide (500 < text.toList.length)) = false ∧
      ((Stage.finish reason).turn caps origin e tick summary s).db.leadRequests =
        s.leadRequests.modify (·.eventId == e) (LeadRequest.finished reason)) := by
  have hfits : reason.all (fun text => decide (text.toList.length ≤ 500)) =
      !reason.any (fun text => decide (500 < text.toList.length)) := by
    cases reason with
    | none => rfl
    | some text => simp only [Option.all_some, Option.any_some, ← decide_not, not_lt]
  simp only [Stage.turn, finishRequestByEvent, hfits]
  cases reason.any (fun text => decide (500 < text.toList.length)) with
  | true => exact .inl ⟨rfl, rfl, _, rfl⟩
  | false => exact .inr ⟨rfl, rfl⟩

/-- A finish changes nothing where the row is free and has its outcome. -/
theorem finished_eq_iff {requests : Table LeadRequest} :
    requests.modify (·.eventId == e) (LeadRequest.finished reason) = requests ↔
      ∀ q ∈ requests.rows, q.eventId = e →
        q.claimedAt = none ∧ q.done = reason.isNone ∧ q.errorDetail = reason := by
  have hself : requests.modify (fun _ => false) (LeadRequest.finished reason) = requests :=
    Table.modify_eq_self fun _ _ => rfl
  have hrow : ∀ q : LeadRequest, LeadRequest.finished reason q = q ↔
      q.claimedAt = none ∧ q.done = reason.isNone ∧ q.errorDetail = reason := by
    rintro ⟨id, eventId, done, detail, stamp⟩
    simp only [LeadRequest.finished, LeadRequest.mk.injEq, true_and]
    constructor
    · rintro ⟨hdone, hdetail, hstamp⟩
      exact ⟨hstamp.symm, hdone.symm, hdetail.symm⟩
    · rintro ⟨hstamp, hdone, hdetail⟩
      exact ⟨hdone.symm, hdetail.symm, hstamp.symm⟩
  have hkey := Table.modify_eq_iff (t := requests) (p := (·.eventId == e)) (q := fun _ => false)
    (f := LeadRequest.finished reason)
  rw [hself] at hkey
  refine hkey.trans ⟨?_, ?_⟩
  · intro h q hq hevent
    exact (hrow q).mp (h q hq (by simp [hevent]))
  · intro h q hq hne
    exact (hrow q).mpr (h q hq (by simpa using hne))

theorem spares_iff_timed (o : Leased ι) (a : Act ι) : o.Spares a ↔ o.Timed a := by
  cases a with
  | verb | createRule | patchRule | runDueLeadRequests | runRequestOfEvent | crash => exact Iff.rfl
  | turn i tick =>
    refine forall₂_congr fun f hf => imp_congr_right fun _ => ?_
    obtain ⟨caps, origin, summary, hagent⟩ := finishes_iff.mp hf
    have hnext : (o.next (.turn i tick)).world.db =
        ((Stage.finish f.2).turn caps origin f.1 tick summary o.world.db).db := by
      simp [Leased.next, World.next, hagent, Agent.turn, Point.turn]
    rw [hnext]
    rcases finish_requests tick caps origin f.1 f.2 summary o.world.db with
      ⟨hlong, hsame, -⟩ | ⟨hfits, hmodify⟩
    · exact iff_of_true (by rw [hsame]) (.inl hlong)
    · rw [hmodify, finished_eq_iff, hfits]
      exact ⟨.inr, fun h => h.resolve_left Bool.false_ne_true⟩

omit [DecidableEq ι] in
theorem guarded_of_fenced (h : Leases.Fenced o.leases) : o.Guarded := by
  intro e i hwalks hnewest now hnow q hq hevent
  have hstamp := h i e (o.stamp i) (held_of_walks hwalks) hnewest
  have hclaimed : q.claimedAt = some (o.stamp i) := by
    rw [← stampOf_stored hq, hevent]
    exact hstamp
  have hnot : ¬ o.stamp i < now - lease := fun hlt =>
    absurd (Int.add_lt_of_lt_sub_right hlt) (not_lt.mpr hnow)
  simp [LeadRequest.leasable, hclaimed, hnot]

/-- A finish that meets the condition is the newest walker's, or leaves no stamp behind. -/
theorem fenced_next {a : Act ι} (h : Leases.Fenced o.leases) (htimed : o.Timed a) :
    Leases.Fenced (o.next a).leases := by
  have hstep : Leases.Step lease a.clock
      (fun i e => o.newest e = some i ∨ stampOf o.world.db.leadRequests e = none) o.leases
      (o.next a).leases := leases_step o a ?_
  · exact h.step hstep fun i e hallowed => hallowed
  rintro i tick caps origin e reason summary rfl hagent hafter
  by_cases hnewest : o.newest e = some i
  · exact .inl hnewest
  right
  rcases htimed (e, reason) (finishes_iff.mpr ⟨caps, origin, summary, hagent⟩) hnewest with
    hlong | hfree
  · rcases finish_requests tick caps origin e reason summary o.world.db with
      ⟨-, -, error, heq⟩ | ⟨hfits, -⟩
    · rw [hagent] at hafter
      have hfail : Agent.returned (.error error) =
          origin.after caps e reason (summary.finished reason) := heq.symm.trans hafter
      cases origin <;> cases hfail
    · rw [hlong] at hfits
      cases hfits
  · cases hfind : o.world.db.leadRequests.find (·.eventId == e) with
    | none => simp [stampOf, hfind]
    | some q =>
      have hevent : q.eventId = e := by simpa using Table.find_spec hfind
      rw [← hevent, stampOf_stored (Table.find_mem hfind)]
      exact (hfree q (Table.find_mem hfind) hevent).1

omit [DecidableEq ι] in
theorem fenced_start (s : Db) : Leases.Fenced (Leased.start s : Leased ι).leases := by
  intro i k t h
  cases h

/-- The leases fence exactly the runs whose walkers finish before anyone leases their event
again. -/
theorem fenced_iff_timed (s : Db) (acts : List (Act ι)) :
    (Along Leased.next Leased.Spares (Leased.start s) acts ∧
      Throughout Leased.next Leased.Guarded (Leased.start s) acts) ↔
    Along Leased.next Leased.Timed (Leased.start s) acts := by
  constructor
  · rintro ⟨hspares, -⟩
    exact hspares.mono fun o a => (spares_iff_timed o a).mp
  · intro h
    refine ⟨h.mono fun o a => (spares_iff_timed o a).mpr, ?_⟩
    exact (h.throughout (fenced_start s) fun _ _ hinv htimed => fenced_next hinv htimed).mono
      fun _ hinv => guarded_of_fenced hinv

end proofs

section samples

instance {ι : Type} [DecidableEq ι] (o : Leased ι) : (a : Act ι) → Decidable (o.Spares a)
  | .turn i _ => inferInstanceAs (Decidable (∀ f ∈ (o.world.agents i).finishes, _ → _))
  | .verb _ | .createRule _ _ | .patchRule _ _ _ | .runDueLeadRequests _ _
  | .runRequestOfEvent _ _ _ | .crash _ => isTrue trivial

/-- The first walk outlives its lease and finishes while the second is at work. -/
def lateFinish : List (Act (Fin 3)) :=
  [.createRule ⟨1, id, id⟩ everyGuest, .verb (.register (.counting 1) ann),
    .runDueLeadRequests 0 defaultCaps, .turn 0 (.at 0)] ++ List.replicate 8 (.turn 0 (.at 0)) ++
  [.runDueLeadRequests 1 defaultCaps, .turn 1 (.at (lease + 1)), .turn 0 (.at (lease + 1))]

/-- Its finish frees the row, so the second walker's lease keeps nobody out. -/
theorem lateFinish_clears :
    ¬ Along Leased.next Leased.Spares (Leased.start openGig) lateFinish ∧
    ¬ Throughout Leased.next Leased.Guarded (Leased.start openGig) lateFinish := by
  refine ⟨by decide, fun h => ?_⟩
  have hguarded := h.last 1 1 (by decide) (by decide) (lease + 2) (by decide)
    ⟨1, 1, true, none, none⟩ (by decide) rfl
  exact absurd hguarded (by decide)

end samples

end BackboneEvents.LeadGeneration
