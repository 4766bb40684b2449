import BackboneEvents.EventLifecycle

/-!
# The done sweep against the verb

The sweep claims the right events, touches no other and comes to an end. It writes the kanban
state alone where the verb also moves the event to the closing stage, so the two agree only
where there is no closing stage, or nothing to sweep.
-/
namespace BackboneEvents.EventLifecycle
open ConstrainedTables TransactionPrograms

variable {now : Timestamp} {scan : Uuid → ℕ} {limit : ℤ} {s : EventDb}

/-- A sweep with no other transaction about. -/
def sweepOnce (now : Timestamp) (scan : Uuid → ℕ) (limit : ℤ) (s : EventDb) :
    Except EventError (List Uuid) × EventDb :=
  (sweepMarkDone now scan (fun _ => false) limit).execute EventDb.absorb s

/-- The sweep over and over. -/
def sweepAgain (now : Timestamp) (scan : Uuid → ℕ) (limit : ℤ) : ℕ → EventDb → EventDb
  | 0, s => s
  | n + 1, s => sweepAgain now scan limit n (sweepOnce now scan limit s).2

def allSweepable (now : Timestamp) (s : EventDb) : List EventRow :=
  s.events.rows.filter (sweepable now s)

/-- What a sweep that swept `ids` should have done. -/
structure SweptAsVerb (now : Timestamp) (limit : ℤ) (s t : EventDb) (ids : List Uuid) : Prop where
  verb : ∀ row ∈ t.events.rows, row.id ∈ ids →
    ((markDone row.id none).execute EventDb.absorb s).1 = .ok row
  others : ∀ row ∈ s.events.rows, row.id ∉ ids → row ∈ t.events.rows
  nodup : ids.Nodup
  domain : ∀ id ∈ ids, ∃ row ∈ allSweepable now s, row.id = id
  number : ids.length = min limit.toNat (allSweepable now s).length
  earliest : ∀ row ∈ allSweepable now s, row.id ∈ ids → ∀ row' ∈ allSweepable now s,
    row'.id ∉ ids → row.dateEnd ≤ row'.dateEnd

/-- The sweep is the verb, and sweeping until nothing is returned leaves nothing to sweep. -/
structure SweepIsVerb (now : Timestamp) (scan : Uuid → ℕ) (limit : ℤ) (s : EventDb) : Prop where
  once : ∃ ids, (sweepOnce now scan limit s).1 = .ok ids ∧
    SweptAsVerb now limit s (sweepOnce now scan limit s).2 ids
  ends : ∃ n, (sweepOnce now scan limit (sweepAgain now scan limit n s)).1 = .ok []
  drained : ∀ n, (sweepOnce now scan limit (sweepAgain now scan limit n s)).1 = .ok [] →
    allSweepable now (sweepAgain now scan limit n s) = []

/-- The limit is no error, and nothing is sweepable, or something may be swept and there is no
closing stage to move it to. -/
def NoClosingMove (now : Timestamp) (limit : ℤ) (s : EventDb) : Prop :=
  0 ≤ limit ∧ ((∀ row ∈ s.events.rows, sweepable now s row = false) ∨
    limit ≠ 0 ∧ ∀ stage ∈ s.stages.rows, stage.pipeEnd = false)

section order

variable {α : Type} {r : α → α → Prop} {l : List α} {k : ℕ} {a b : α}

/-- In a sorted list the first ones come before the others. -/
theorem rel_of_mem_take (h : l.Pairwise r) (ha : a ∈ l.take k) (hb : b ∈ l) (hout : b ∉ l.take k) :
    r a b := by
  rw [← List.take_append_drop k l] at h hb
  exact (List.pairwise_append.mp h).2.2 a ha b ((List.mem_append.mp hb).resolve_left hout)

instance : Std.Total (fun a b : EventRow => a.dateEnd ≤ b.dateEnd) where
  total a b := le_total a.dateEnd b.dateEnd

instance : IsTrans EventRow (fun a b => a.dateEnd ≤ b.dateEnd) where
  trans _ _ _ h h' := le_trans h h'

end order

section claimed

/-- The events a sweep may claim, earliest end first. -/
def queued (now : Timestamp) (scan : Uuid → ℕ) (s : EventDb) : List EventRow :=
  (scanned scan (fun row : EventRow => row.id) (allSweepable now s)).insertionSort
    fun a b => a.dateEnd ≤ b.dateEnd

theorem perm_queued (now : Timestamp) (scan : Uuid → ℕ) (s : EventDb) :
    (queued now scan s).Perm (allSweepable now s) :=
  (List.perm_insertionSort _ _).trans (List.perm_insertionSort _ _)

theorem swept_eq_take (now : Timestamp) (scan : Uuid → ℕ) (limit : ℕ) (s : EventDb) :
    swept now scan (fun _ => false) limit s = (queued now scan s).take limit := by
  simp only [swept, queued, allSweepable, Bool.not_false, Bool.and_true]

def claimedBy (now : Timestamp) (scan : Uuid → ℕ) (limit : ℤ) (s : EventDb) : List EventRow :=
  (queued now scan s).take limit.toNat

theorem mem_claimedBy {row : EventRow} (h : row ∈ claimedBy now scan limit s) :
    row ∈ allSweepable now s :=
  (perm_queued now scan s).mem_iff.mp (List.mem_of_mem_take h)

theorem claimedBy_eq_nil (hlimit : 0 < limit) :
    claimedBy now scan limit s = [] ↔ allSweepable now s = [] := by
  rw [claimedBy, List.take_eq_nil_iff, ← List.length_eq_zero_iff, (perm_queued now scan s).length_eq,
    List.length_eq_zero_iff]
  exact or_iff_right (by omega)

/-- What a sweep leaves and answers. -/
theorem sweepOnce_eq (hlimit : 0 ≤ limit) :
    sweepOnce now scan limit s = (.ok ((claimedBy now scan limit s).map fun row => row.id),
      { s with
        events := s.events.modify
          (fun row => (claimedBy now scan limit s).any (·.id == row.id)) EventRow.sweptDone
        auditTrails := s.auditTrails ++
          (claimedBy now scan limit s).map (fun row => sweepAudit row.id) }) := by
  rw [sweepOnce, execute_sweepMarkDone now scan _ hlimit, swept_eq_take]
  rfl

theorem mem_allSweepable {row : EventRow} :
    row ∈ allSweepable now s ↔ row ∈ s.events.rows ∧ sweepable now s row = true := List.mem_filter

theorem nodup_ids (s : EventDb) : (s.events.rows.map fun row => row.id).Nodup := by
  refine List.pairwise_map.mpr (s.events.unique.imp fun h hid => ?_)
  simp [clash, hid] at h

theorem mem_claimedBy_of_id {row : EventRow} (hrow : row ∈ s.events.rows)
    (h : row.id ∈ (claimedBy now scan limit s).map fun row => row.id) :
    row ∈ claimedBy now scan limit s := by
  obtain ⟨x, hx, hid⟩ := List.mem_map.mp h
  have hmem := (mem_allSweepable.mp (mem_claimedBy hx)).1
  rwa [row_eq_of_id hrow hmem hid] at hx

/-- The rows of `t` are those of `s`, the claimed ones swept. -/
def sweptRows (now : Timestamp) (scan : Uuid → ℕ) (limit : ℤ) (s : EventDb) : Table EventRow :=
  s.events.modify (fun row => (claimedBy now scan limit s).any (·.id == row.id)) EventRow.sweptDone

theorem any_claimedBy_iff {x : EventRow} (hx : x ∈ s.events.rows) :
    (claimedBy now scan limit s).any (·.id == x.id) = true ↔ x ∈ claimedBy now scan limit s := by
  constructor
  · intro hany
    obtain ⟨y, hy, hid⟩ := List.any_eq_true.mp hany
    exact mem_claimedBy_of_id hx (List.mem_map.mpr ⟨y, hy, beq_iff_eq.mp hid⟩)
  · exact fun hmem => List.any_eq_true.mpr ⟨x, hmem, beq_self_eq_true x.id⟩

theorem mem_sweptRows {row : EventRow} : row ∈ (sweptRows now scan limit s).rows ↔
    ∃ x ∈ s.events.rows,
      row = if x ∈ claimedBy now scan limit s then EventRow.sweptDone x else x := by
  rw [sweptRows, Table.mem_modify]
  refine exists_congr fun x => and_congr_right fun hx => ?_
  simp only [any_claimedBy_iff hx, eq_comm]

/-- The sweep's write agrees with the verb's where there is no closing stage, or no event. -/
theorem verb_iff : (∀ row ∈ (sweptRows now scan limit s).rows,
      row.id ∈ (claimedBy now scan limit s).map (fun row => row.id) →
        ((markDone row.id none).execute EventDb.absorb s).1 = .ok row) ↔
    claimedBy now scan limit s = [] ∨ ∀ stage ∈ s.stages.rows, stage.pipeEnd = false := by
  constructor
  · intro h
    refine or_iff_not_imp_left.mpr fun hsome => firstStage_none_iff.mp ?_
    obtain ⟨x, hx⟩ := List.exists_mem_of_ne_nil _ hsome
    obtain ⟨hmem, hsweepable⟩ := mem_allSweepable.mp (mem_claimedBy hx)
    have hrow : EventRow.sweptDone x ∈ (sweptRows now scan limit s).rows :=
      mem_sweptRows.mpr ⟨x, hmem, (if_pos hx).symm⟩
    have hverb := h _ hrow (List.mem_map.mpr ⟨x, hx, rfl⟩)
    have hanswer := answer_markDone hmem none
    cases hfirst : s.firstStage EventStage.pipeEnd with
    | none => rfl
    | some stage =>
      have hsame := Except.ok.inj (hanswer.symm.trans hverb)
      rw [hfirst] at hsame
      have hstage : stage.id = x.stageId := congrArg EventRow.stageId hsame
      obtain ⟨hstored, hend⟩ := firstStage_mem hfirst
      have hresting : s.resting x = true :=
        List.any_eq_true.mpr ⟨stage, hstored, by simp [hstage, hend]⟩
      simp [sweepable, SchedulerRepository.sweeps, hresting] at hsweepable
  · intro h row hrow hid
    obtain ⟨x, hx, rfl⟩ := mem_sweptRows.mp hrow
    rcases h with hnone | hstages
    · rw [hnone] at hid
      cases hid
    · have hfirst := firstStage_none_iff.mpr hstages
      by_cases hclaimed : x ∈ claimedBy now scan limit s
      · rw [if_pos hclaimed]
        have hanswer := answer_markDone hx none
        rw [hfirst] at hanswer
        exact hanswer
      · rw [if_neg hclaimed] at hid
        exact absurd (mem_claimedBy_of_id hx hid) hclaimed

theorem sweptAsVerb_of_verb {t : EventDb}
    (hrows : t.events = sweptRows now scan limit s)
    (hverb : ∀ row ∈ (sweptRows now scan limit s).rows,
      row.id ∈ (claimedBy now scan limit s).map (fun row => row.id) →
        ((markDone row.id none).execute EventDb.absorb s).1 = .ok row) :
    SweptAsVerb now limit s t ((claimedBy now scan limit s).map fun row => row.id) where
  verb := by
    rw [hrows]
    exact hverb
  others row hrow hid := by
    rw [hrows]
    exact mem_sweptRows.mpr ⟨row, hrow, (if_neg fun h => hid (List.mem_map_of_mem h)).symm⟩
  nodup := by
    have hperm := (perm_queued now scan s).map fun row : EventRow => row.id
    have hqueued : ((queued now scan s).map fun row => row.id).Nodup :=
      hperm.nodup_iff.mpr ((List.filter_sublist.map _).nodup (nodup_ids s))
    exact ((List.take_sublist _ _).map _).nodup hqueued
  domain id hid := by
    obtain ⟨row, hrow, rfl⟩ := List.mem_map.mp hid
    exact ⟨row, mem_claimedBy hrow, rfl⟩
  number := by
    rw [List.length_map, claimedBy, List.length_take, (perm_queued now scan s).length_eq]
  earliest row hrow hid row' hrow' hid' := by
    have hclaimed := mem_claimedBy_of_id (mem_allSweepable.mp hrow).1 hid
    have hout : row' ∉ claimedBy now scan limit s := fun h => hid' (List.mem_map_of_mem h)
    have hsorted : (queued now scan s).Pairwise fun a b => a.dateEnd ≤ b.dateEnd :=
      List.pairwise_insertionSort _ _
    exact @rel_of_mem_take _ (fun a b : EventRow => a.dateEnd ≤ b.dateEnd) _ _ _ _ hsorted hclaimed
      ((perm_queued now scan s).mem_iff.mpr hrow') hout

end claimed

section repeated

/-- What a sweep leaves to sweep is what it did not claim. -/
theorem allSweepable_sweepOnce (hlimit : 0 ≤ limit) :
    allSweepable now (sweepOnce now scan limit s).2 =
      (allSweepable now s).filter fun row => decide (row ∉ claimedBy now scan limit s) := by
  rw [sweepOnce_eq hlimit, allSweepable, allSweepable, Table.rows_modify, List.filter_map,
    List.filter_filter]
  have hkept : ∀ x ∈ s.events.rows, (sweepable now s ∘ fun row =>
      if (claimedBy now scan limit s).any (·.id == row.id) then EventRow.sweptDone row else row) x =
        (decide (x ∉ claimedBy now scan limit s) && sweepable now s x) := by
    intro x hx
    by_cases hclaimed : x ∈ claimedBy now scan limit s
    · simp only [Function.comp_apply, (any_claimedBy_iff hx).mpr hclaimed, if_true, hclaimed]
      simp [sweepable, SchedulerRepository.sweeps, EventRow.sweptDone, Event.markedDone]
    · simp only [Function.comp_apply, mt (any_claimedBy_iff hx).mp hclaimed, hclaimed]
      simp
  calc _ = ((s.events.rows.filter fun x =>
        decide (x ∉ claimedBy now scan limit s) && sweepable now s x).map fun row =>
          if (claimedBy now scan limit s).any (·.id == row.id) then EventRow.sweptDone row else row) :=
        congrArg _ (List.filter_congr hkept)
    _ = (s.events.rows.filter fun x =>
        decide (x ∉ claimedBy now scan limit s) && sweepable now s x).map id := by
      refine List.map_congr_left fun x hx => ?_
      obtain ⟨hmem, hout⟩ := List.mem_filter.mp hx
      simp only [Bool.and_eq_true, decide_eq_true_eq] at hout
      exact if_neg (mt (any_claimedBy_iff hmem).mp hout.1)
    _ = _ := List.map_id _

/-- Sweeping on comes to an end, as each sweep that returns something leaves less. -/
theorem sweep_ends (hlimit : 0 < limit) (s : EventDb) :
    ∃ n, (sweepOnce now scan limit (sweepAgain now scan limit n s)).1 = .ok [] := by
  induction hlen : (allSweepable now s).length using Nat.strong_induction_on generalizing s with
  | _ len ih =>
    cases hclaimed : claimedBy now scan limit s with
    | nil => exact ⟨0, by rw [sweepAgain, sweepOnce_eq hlimit.le, hclaimed]; rfl⟩
    | cons x rest =>
      have hx : x ∈ claimedBy now scan limit s := hclaimed ▸ List.mem_cons_self
      have hless : (allSweepable now (sweepOnce now scan limit s).2).length < len := by
        rw [allSweepable_sweepOnce hlimit.le, ← hlen]
        refine List.length_filter_lt_length_iff_exists.mpr ⟨x, mem_claimedBy hx, ?_⟩
        simpa using hx
      obtain ⟨n, hn⟩ := ih _ hless (sweepOnce now scan limit s).2 rfl
      exact ⟨n + 1, hn⟩

theorem claimedBy_of_answer (hlimit : 0 ≤ limit) (h : (sweepOnce now scan limit s).1 = .ok []) :
    claimedBy now scan limit s = [] := by
  rw [sweepOnce_eq hlimit] at h
  exact List.map_eq_nil_iff.mp (Except.ok.inj h)

theorem allSweepable_sweepAgain (hlimit : 0 ≤ limit) (h : allSweepable now s = []) (n : ℕ) :
    allSweepable now (sweepAgain now scan limit n s) = [] := by
  induction n generalizing s with
  | zero => exact h
  | succ n ih => exact ih (by rw [allSweepable_sweepOnce hlimit, h]; rfl)

theorem allSweepable_eq_nil :
    allSweepable now s = [] ↔ ∀ row ∈ s.events.rows, sweepable now s row = false := by
  simp [allSweepable]

/-- For every state, limit and order of equal ends: the sweep is the verb, and sweeping on leaves
nothing, if and only if the limit is no error and either nothing is sweepable, or the limit is not
zero and there is no closing stage. -/
theorem sweepIsVerb_iff : SweepIsVerb now scan limit s ↔ NoClosingMove now limit s := by
  constructor
  · rintro ⟨⟨ids, hids, hswept⟩, hends, hdrained⟩
    have hlimit : 0 ≤ limit := by
      by_contra hneg
      rw [sweepOnce, execute_sweepMarkDone_negative now scan _ (by omega)] at hids
      cases hids
    refine ⟨hlimit, ?_⟩
    rw [← allSweepable_eq_nil]
    by_cases hzero : limit = 0
    · refine .inl (hdrained 0 ?_)
      subst hzero
      rw [sweepAgain, sweepOnce_eq hlimit]
      rfl
    · rw [sweepOnce_eq hlimit] at hids hswept
      obtain rfl := Except.ok.inj hids
      rcases verb_iff.mp hswept.verb with hnone | hstages
      · exact .inl ((claimedBy_eq_nil (by omega)).mp hnone)
      · exact .inr ⟨hzero, hstages⟩
  · rintro ⟨hlimit, h⟩
    rw [← allSweepable_eq_nil] at h
    have hverb : claimedBy now scan limit s = [] ∨ ∀ stage ∈ s.stages.rows, stage.pipeEnd = false := by
      rcases h with hnone | ⟨-, hstages⟩
      · exact .inl (List.eq_nil_iff_forall_not_mem.mpr fun row hrow => by
          have hmem := mem_claimedBy hrow
          rw [hnone] at hmem
          cases hmem)
      · exact .inr hstages
    refine ⟨⟨_, by rw [sweepOnce_eq hlimit], ?_⟩, ?_, ?_⟩
    · rw [sweepOnce_eq hlimit]
      exact sweptAsVerb_of_verb rfl (verb_iff.mpr hverb)
    · by_cases hzero : limit = 0
      · refine ⟨0, ?_⟩
        subst hzero
        rw [sweepAgain, sweepOnce_eq hlimit]
        rfl
      · exact sweep_ends (by omega) s
    · intro n hn
      rcases h with hnone | ⟨hzero, -⟩
      · exact allSweepable_sweepAgain hlimit hnone n
      · exact (claimedBy_eq_nil (by omega)).mp (claimedBy_of_answer hlimit hn)

end repeated

section sample

/-- An event that is over, in the first of two stages of which the second is closing. -/
def overGig : EventDb where
  events := Table.empty.push ⟨gig, 1, 1, .a4FrenchFold, false, none⟩
  stages := (Table.empty.push ⟨1, "New", 1, false⟩).push ⟨2, "Ended", 2, true⟩
  typeMails := .empty
  typeBooths := .empty
  mails := .empty
  booths := .empty
  auditTrails := []

/-- The sweep marks it and leaves it in its stage, and the verb moves it. -/
theorem overGig_notMoved : ¬ SweepIsVerb 200 id 10 overGig := by
  rintro ⟨⟨ids, hids, hswept⟩, -, -⟩
  have hanswer : (sweepOnce 200 id 10 overGig).1 = .ok [1] := by decide
  obtain rfl := Except.ok.inj (hanswer.symm.trans hids)
  have hrow : (⟨{ gig with kanbanState := .done }, 1, 1, .a4FrenchFold, false, none⟩ : EventRow) ∈
      (sweepOnce 200 id 10 overGig).2.events.rows := by decide
  have hverb := hswept.verb _ hrow (by decide)
  exact absurd hverb (by decide)

end sample

end BackboneEvents.EventLifecycle
