import BackboneEvents.LeadCreates

/-!
# The relink of a merged lead

The host's merge moves every provenance of the absorbed lead to the survivor in one update. A
walker that has the absorbed lead's id from the sink, and has not recorded it yet, records it
after the update. A walker that only updates a lead it has read records nothing.
-/
namespace BackboneEvents.LeadGeneration
open ConstrainedTables GuardedRuns

/-- No provenance points to the lead. -/
def NoneLeft (leadId : Uuid) (s : Db) : Prop := ∀ p ∈ s.leadProvenances.rows, p.leadId ≠ some leadId

namespace World

variable {ι : Type}

/-- The world once `relink_lead` has returned. -/
def relinked (w : World ι) (oldLeadId newLeadId : Uuid) (actor : Option Uuid) : World ι :=
  { w with db := (relinkLead oldLeadId newLeadId actor w.db).2 }

def Finished (w : World ι) : Prop := ∀ i, (w.agents i).isRunning = false

/-- The sink does not answer a create with the lead in this step. -/
def Withholds (leadId : Uuid) (w : World ι) : Act ι → Prop
  | .turn i tick => ∀ c ∈ ((w.agents i).turn tick w.db).calls,
    c.updates = none → c.lead ≠ some leadId
  | .verb _ | .createRule _ _ | .patchRule _ _ _ | .runDueLeadRequests _ _
  | .runRequestOfEvent _ _ _ | .crash _ => True

variable [DecidableEq ι]

/-- However the run goes on while the sink gives out the absorbed lead no more, no provenance
points to it once every walk is over. -/
def RelinkComplete (w : World ι) (oldLeadId newLeadId : Uuid) (actor : Option Uuid) : Prop :=
  ∀ after, Along World.next (Withholds oldLeadId) (w.relinked oldLeadId newLeadId actor) after →
    (after.foldl World.next (w.relinked oldLeadId newLeadId actor)).Finished →
    NoneLeft oldLeadId (after.foldl World.next (w.relinked oldLeadId newLeadId actor)).db

/-- No walker stands between the sink's answer with the absorbed lead and its record, and a
lead merged into itself has no provenance. -/
def Quiescent (w : World ι) (oldLeadId newLeadId : Uuid) : Prop :=
  (∀ i p, (w.agents i).holding ≠ some (p, oldLeadId)) ∧
    (oldLeadId = newLeadId → NoneLeft oldLeadId w.db)

end World

section relink

variable {s : Db} {oldLeadId newLeadId : Uuid} {actor : Option Uuid}

theorem noneLeft_of_leadAt {leadId : Uuid} (h : ∀ p, leadAt s p ≠ some leadId) :
    NoneLeft leadId s := by
  intro p hp hlead
  exact h p.id ((leadAt_stored hp).trans hlead)

theorem leadAt_of_noneLeft {leadId : Uuid} (h : NoneLeft leadId s) (p : Uuid) :
    leadAt s p ≠ some leadId := by
  intro hlead
  obtain ⟨row, hrow, hid⟩ := Option.bind_eq_some_iff.mp hlead
  exact h row (Table.find_mem hrow) hid

/-- The update leaves no provenance of the absorbed lead behind. -/
theorem noneLeft_relinked (h : oldLeadId = newLeadId → NoneLeft oldLeadId s) :
    NoneLeft oldLeadId (relinkLead oldLeadId newLeadId actor s).2 := by
  intro p hp hlead
  obtain ⟨q, hq, rfl⟩ := Table.mem_modify.mp hp
  split at hlead
  · next hmoves =>
    simp only [Bool.and_eq_true, bne_iff_ne, ne_eq] at hmoves
    exact hmoves.2 (Option.some.inj hlead).symm
  · next hstays =>
    refine h ?_ q hq hlead
    simpa [hlead] using hstays

theorem relinkLead_self : (relinkLead oldLeadId oldLeadId actor s).2.leadProvenances =
    s.leadProvenances := Table.modify_eq_self fun _ _ => by simp

theorem relinkLead_kept : Kept s (relinkLead oldLeadId newLeadId actor s).2 where
  events := rfl
  answers := rfl
  orgAxis := rfl
  registrations := Kept.same_registrations rfl
  rules _ h := h
  predicates _ _ := rfl
  provenances p hp := by
    obtain ⟨leadId, hp⟩ := hp
    have hmem := Table.mem_modify (t := s.leadProvenances)
      (f := LeadProvenance.linked newLeadId)
      (p := fun q => q.leadId == some oldLeadId && oldLeadId != newLeadId)
      |>.mpr ⟨_, hp, rfl⟩
    split at hmem
    · exact ⟨_, hmem⟩
    · exact ⟨_, hmem⟩
  junctions _ h := h

end relink

section runs

variable {ι : Type} [DecidableEq ι] {w : World ι} {leadId : Uuid}

theorem world_named (w : World ι) (a : Act ι) (h : ∀ i, GroupNamed (w.agents i)) (i : ι) :
    GroupNamed ((w.next a).agents i) := by
  cases a with
  | verb | createRule => exact h i
  | patchRule | runDueLeadRequests | runRequestOfEvent =>
    exact enter_named ⟨rfl, rfl, rfl, rfl⟩ h i
  | turn j tick => exact next_named h i
  | crash j =>
    by_cases hi : i = j
    · subst hi
      rw [World.next, World.setAgent_self]
      trivial
    · rw [World.next, World.setAgent_of_ne hi]
      exact h i

/-- What a run from the start knows of its walkers. -/
structure Told (w : World ι) : Prop where
  sound : w.Sound
  named : ∀ i, GroupNamed (w.agents i)

theorem Told.next (h : Told w) (a : Act ι) : Told (w.next a) where
  sound := h.sound.next a
  named := world_named w a h.named

omit [DecidableEq ι] in
theorem told_start (s : Db) : Told (World.start s : World ι) where
  sound := sound_start s
  named _ := trivial

theorem told_run (s : Db) (acts : List (Act ι)) : Told (acts.foldl World.next (World.start s)) :=
  Throughout.last (throughout_of_step (told_start s) fun _ a h => h.next a)

omit [DecidableEq ι] in
theorem Told.relinked {oldLeadId newLeadId : Uuid} {actor : Option Uuid} (h : Told w) :
    Told (w.relinked oldLeadId newLeadId actor) where
  sound i := (h.sound i).kept relinkLead_kept
  named := h.named

/-- The lead is neither recorded nor on its way. -/
structure Absorbed (leadId : Uuid) (w : World ι) : Prop where
  told : Told w
  recorded : ∀ p, leadAt w.db p ≠ some leadId
  holding : ∀ i p, (w.agents i).holding ≠ some (p, leadId)

/-- A step that records nothing and leaves its agent with nothing on its way. -/
theorem Absorbed.frame {a : Act ι} (h : Absorbed leadId w)
    (leads : leadAt (w.next a).db = leadAt w.db)
    (holding : ∀ i, ((w.next a).agents i).holding = none ∨
      ((w.next a).agents i).holding = (w.agents i).holding) : Absorbed leadId (w.next a) where
  told := h.told.next a
  recorded p := leads ▸ h.recorded p
  holding i p hp := by
    rcases holding i with hnone | hsame
    · rw [hnone] at hp
      cases hp
    · exact h.holding i p (hsame ▸ hp)

theorem Absorbed.turn {i : ι} {tick : Tick} (h : Absorbed leadId w)
    (hsink : w.Withholds leadId (.turn i tick)) : Absorbed leadId (w.next (.turn i tick)) := by
  have hothers : ∀ j p, j ≠ i →
      ((w.next (.turn i tick)).agents j).holding ≠ some (p, leadId) := fun j p hj => by
    rw [next_turn_of_ne hj]
    exact h.holding j p
  cases lead_step tick (h.told.sound i) (h.told.named i) with
  | quiet leads calls creating before after unled led =>
    refine ⟨h.told.next _, fun p => leads ▸ h.recorded p, fun j p => ?_⟩
    by_cases hj : j = i
    · subst hj
      rw [next_turn_self, after]
      simp
    · exact hothers j p hj
  | @created p group answer creating db calls belongs after unled led =>
    have hdb : (w.next (.turn i tick)).db = w.db := db
    refine ⟨h.told.next _, fun q => by rw [hdb]; exact h.recorded q, fun j q hq => ?_⟩
    by_cases hj : j = i
    · subst hj
      rw [next_turn_self, after] at hq
      cases answer with
      | error reason => cases hq
      | ok answered =>
        obtain ⟨-, rfl⟩ := Prod.mk.inj (Option.some.inj hq)
        exact hsink _ (calls ▸ List.mem_singleton_self _) rfl rfl
    · exact hothers j q hj hq
  | @linked p recorded holding leads calls after unled led =>
    refine ⟨h.told.next _, fun q hq => ?_, fun j q => ?_⟩
    · have hstored : Function.update (leadAt w.db) p (some recorded) q = some leadId := leads ▸ hq
      rw [Function.update_apply] at hstored
      split at hstored
      · exact h.holding i p (Option.some.inj hstored ▸ holding)
      · exact h.recorded q hstored
    · by_cases hj : j = i
      · subst hj
        rw [next_turn_self, after]
        simp
      · exact hothers j q hj
  | updated shown db calls belongs creating before after unled led =>
    have hdb : (w.next (.turn i tick)).db = w.db := db
    refine ⟨h.told.next _, fun p => by rw [hdb]; exact h.recorded p, fun j p => ?_⟩
    by_cases hj : j = i
    · subst hj
      rw [next_turn_self, after]
      simp
    · exact hothers j p hj

theorem Absorbed.next (h : Absorbed leadId w) (a : Act ι) (hsink : w.Withholds leadId a) :
    Absorbed leadId (w.next a) := by
  cases a with
  | verb c => exact h.frame (leadAt_next c) fun _ => .inr rfl
  | createRule env cmd => exact h.frame (leadAt_withRule env cmd) fun _ => .inr rfl
  | patchRule | runDueLeadRequests | runRequestOfEvent =>
    refine h.frame ?_ fun j => .inr (enter_apart ⟨rfl, rfl, rfl, rfl⟩ j).1
    simp only [World.next, World.enter]
    split <;> rfl
  | turn i tick => exact h.turn hsink
  | crash i =>
    refine h.frame rfl fun j => ?_
    by_cases hj : j = i
    · subst hj
      rw [World.next, World.setAgent_self]
      exact .inl rfl
    · rw [World.next, World.setAgent_of_ne hj]
      exact .inr rfl

/-- From where nothing of the lead is recorded or on its way, it stays away. -/
theorem Absorbed.throughout (h : Absorbed leadId w) {acts : List (Act ι)}
    (hsink : Along World.next (World.Withholds leadId) w acts) :
    Throughout World.next (fun w => NoneLeft leadId w.db) w acts :=
  (hsink.throughout h fun _ a h hsink => h.next a hsink).mono
    fun _ h => noneLeft_of_leadAt h.recorded

omit [DecidableEq ι] in
theorem absorbed_relinked {oldLeadId newLeadId : Uuid} {actor : Option Uuid} (h : Told w)
    (hquiet : w.Quiescent oldLeadId newLeadId) :
    Absorbed oldLeadId (w.relinked oldLeadId newLeadId actor) where
  told := h.relinked
  recorded := leadAt_of_noneLeft (noneLeft_relinked hquiet.2)
  holding := hquiet.1

/-- A walker with an answer records it in its next step, without a call. -/
theorem records_of_holding {i : ι} {p : Uuid} (h : Told w) (tick : Tick)
    (hholding : (w.agents i).holding = some (p, leadId)) :
    leadAt (w.next (.turn i tick)).db p = some leadId ∧
      ((w.agents i).turn tick w.db).calls = [] := by
  cases lead_step tick (h.sound i) (h.named i) with
  | quiet leads calls creating before =>
    rw [before] at hholding
    cases hholding
  | created creating =>
    rw [(creating_positions creating).2] at hholding
    cases hholding
  | @linked q recorded holding leads calls =>
    obtain ⟨rfl, rfl⟩ := Prod.mk.inj (Option.some.inj (holding.symm.trans hholding))
    refine ⟨?_, calls⟩
    have hleads : leadAt (w.next (.turn i tick)).db = _ := leads
    rw [hleads, Function.update_self]
  | updated shown db calls belongs creating before =>
    rw [before] at hholding
    cases hholding

/-- Every agent of the list crashes. -/
theorem crashes_db (agents : List ι) : ((agents.map Act.crash).foldl World.next w).db = w.db := by
  induction agents generalizing w with
  | nil => rfl
  | cons i agents ih => exact ih

theorem crashes_withhold (agents : List ι) :
    Along World.next (World.Withholds leadId) w (agents.map Act.crash) := by
  induction agents generalizing w with
  | nil => trivial
  | cons i agents ih => exact ⟨trivial, ih⟩

theorem crashes_stay_idle (agents : List ι) {i : ι} (h : w.agents i = .idle) :
    ((agents.map Act.crash).foldl World.next w).agents i = .idle := by
  induction agents generalizing w with
  | nil => exact h
  | cons j agents ih =>
    apply ih
    by_cases hi : i = j
    · subst hi
      exact World.setAgent_self ..
    · rw [World.next, World.setAgent_of_ne hi]
      exact h

theorem crashes_idle {agents : List ι} {i : ι} (h : i ∈ agents) :
    ((agents.map Act.crash).foldl World.next w).agents i = .idle := by
  induction agents generalizing w with
  | nil => cases h
  | cons j agents ih =>
    rcases List.mem_cons.mp h with rfl | hrest
    · exact crashes_stay_idle agents (World.setAgent_self ..)
    · exact ih hrest

variable [Fintype ι] {oldLeadId newLeadId : Uuid} {actor : Option Uuid}

/-- The run may end here: every agent crashes. -/
theorem noneLeft_of_complete (h : w.RelinkComplete oldLeadId newLeadId actor)
    (after : List (Act ι))
    (hsink : Along World.next (World.Withholds oldLeadId) (w.relinked oldLeadId newLeadId actor)
      after) :
    NoneLeft oldLeadId (after.foldl World.next (w.relinked oldLeadId newLeadId actor)).db := by
  have hend := h (after ++ Finset.univ.toList.map Act.crash)
    (along_append.mpr ⟨hsink, crashes_withhold _⟩) fun i => by
      rw [List.foldl_append, crashes_idle (Finset.mem_toList.mpr (Finset.mem_univ i))]
      rfl
  rwa [List.foldl_append, crashes_db] at hend

theorem quiescent_of_complete (htold : Told w) (h : w.RelinkComplete oldLeadId newLeadId actor) :
    w.Quiescent oldLeadId newLeadId := by
  constructor
  · intro i p hholding
    have hrelinked : ((w.relinked oldLeadId newLeadId actor).agents i).holding =
      some (p, oldLeadId) := hholding
    obtain ⟨hrecorded, hcalls⟩ := records_of_holding htold.relinked .accepting hrelinked
    have hsink : Along World.next (World.Withholds oldLeadId)
        (w.relinked oldLeadId newLeadId actor) [.turn i .accepting] := by
      refine ⟨fun c hc => ?_, trivial⟩
      rw [hcalls] at hc
      cases hc
    exact leadAt_of_noneLeft (noneLeft_of_complete h _ hsink) p hrecorded
  · rintro rfl
    have hnone : NoneLeft oldLeadId (w.relinked oldLeadId oldLeadId actor).db :=
      noneLeft_of_complete h [] trivial
    intro p hp
    exact hnone p (by rw [World.relinked, relinkLead_self]; exact hp)

/-- The relink is complete in every continuation exactly when, as its update runs, no walker
stands between the sink's answer with the absorbed lead and its record, and the lead is not
merged into itself. Then the lead stays away at every moment, not only once the walks are over. -/
theorem relink_complete_iff (s : Db) (before : List (Act ι)) (oldLeadId newLeadId : Uuid)
    (actor : Option Uuid) :
    let w := before.foldl World.next (World.start s)
    (w.RelinkComplete oldLeadId newLeadId actor ↔ w.Quiescent oldLeadId newLeadId) ∧
    (w.Quiescent oldLeadId newLeadId → ∀ after,
      Along World.next (World.Withholds oldLeadId) (w.relinked oldLeadId newLeadId actor) after →
      Throughout World.next (fun w => NoneLeft oldLeadId w.db)
        (w.relinked oldLeadId newLeadId actor) after) := by
  intro w
  have htold : Told w := told_run s before
  refine ⟨⟨quiescent_of_complete htold, fun hquiet after hsink _ => ?_⟩, fun hquiet after hsink => ?_⟩
  · exact ((absorbed_relinked htold hquiet).throughout hsink).last
  · exact (absorbed_relinked htold hquiet).throughout hsink

end runs

section samples

instance (leadId : Uuid) (s : Db) : Decidable (NoneLeft leadId s) :=
  inferInstanceAs (Decidable (∀ p ∈ s.leadProvenances.rows, _))

instance {ι : Type} [Fintype ι] (w : World ι) : Decidable w.Finished :=
  inferInstanceAs (Decidable (∀ _, _))

instance {ι : Type} (leadId : Uuid) (w : World ι) (a : Act ι) : Decidable (w.Withholds leadId a) := by
  cases a <;> unfold World.Withholds <;> infer_instance

/-- A pass up to the sink's answer with lead 1. -/
def leadAnswered : List (Act (Fin 1)) := passStarted ++ List.replicate 6 (.turn 0 .accepting)

/-- Lead 1 is merged into lead 2 before the walker records it, and the walk goes on to its end. -/
theorem relink_overtaken :
    ¬ (leadAnswered.foldl World.next (World.start openGig)).RelinkComplete 1 2 none := fun h =>
  absurd (h (List.replicate 4 (.turn 0 .accepting)) (by decide) (by decide)) (by decide)

end samples

end BackboneEvents.LeadGeneration
