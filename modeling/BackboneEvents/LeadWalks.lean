import BackboneEvents.LeadFrames

/-!
# What a walk holds is what is stored

A walker carries rules, predicates, members and a provenance it read before. Other agents
and the verbs run meanwhile, but nothing they do makes what it carries wrong.
-/
namespace BackboneEvents.LeadGeneration
open ConstrainedTables

section groups

variable {eventId : Uuid} {eligible : List EligibleRegistration} {m : EligibleRegistration}

variable (eventId) in
theorem exists_group (h : m ∈ eligible) : ∃ g ∈ groupsOf eventId eligible, m ∈ g.members := by
  refine ⟨⟨(groupOf eventId m).1, (groupOf eventId m).2,
    eligible.filter (fun r => groupOf eventId r == groupOf eventId m)⟩, ?_, ?_⟩
  · refine List.mem_map.mpr ⟨groupOf eventId m, ?_, rfl⟩
    rw [List.mem_insertionSort, List.mem_dedup]
    exact List.mem_map_of_mem h
  · exact List.mem_filter.mpr ⟨h, beq_self_eq_true _⟩

theorem group_spec {g : MemberGroup} (hg : g ∈ groupsOf eventId eligible) (hm : m ∈ g.members) :
    m ∈ eligible ∧ groupOf eventId m = (g.grouping, g.groupKey) := by
  obtain ⟨key, -, rfl⟩ := List.mem_map.mp hg
  obtain ⟨hmem, hkey⟩ := List.mem_filter.mp hm
  exact ⟨hmem, beq_iff_eq.mp hkey⟩

end groups

section reads

variable {s : Db} {eventId ruleId : Uuid} {predicates : List LeadPredicate} {batch : ℕ}
  {eligible : List EligibleRegistration}

theorem eligibleRegistrations_ok
    (h : eligibleRegistrations eventId ruleId predicates batch s = .ok eligible) :
    eligible = (((s.registrations.rows.filter (fun r => s.qualifies eventId predicates r &&
      !s.provenanced ruleId r.id)).insertionSort (fun a b => a.id ≤ b.id)).take batch).map
        Registration.seen := by
  simp only [eligibleRegistrations] at h
  split at h
  · cases h
  · exact (Except.ok.inj h).symm

/-- Every row read is a stored registration that qualifies and is not junctioned. -/
theorem eligible_stored {m : EligibleRegistration}
    (h : eligibleRegistrations eventId ruleId predicates batch s = .ok eligible)
    (hm : m ∈ eligible) : ∃ r ∈ s.registrations.rows, m = r.seen ∧
      s.qualifies eventId predicates r = true ∧ s.provenanced ruleId r.id = false := by
  rw [eligibleRegistrations_ok h] at hm
  obtain ⟨r, hr, rfl⟩ := List.mem_map.mp hm
  have hfound := (List.mem_insertionSort _).mp (List.mem_of_mem_take hr)
  obtain ⟨hrow, hq⟩ := List.mem_filter.mp hfound
  simp only [Bool.and_eq_true, Bool.not_eq_true'] at hq
  exact ⟨r, hrow, rfl, hq.1, hq.2⟩

/-- A short batch holds every row of the domain. -/
theorem eligible_of_short {r : Registration}
    (h : eligibleRegistrations eventId ruleId predicates batch s = .ok eligible)
    (hshort : eligible.length < batch) (hr : r ∈ s.registrations.rows)
    (hq : s.qualifies eventId predicates r = true) (hp : s.provenanced ruleId r.id = false) :
    r.seen ∈ eligible := by
  rw [eligibleRegistrations_ok h] at hshort ⊢
  rw [List.length_map, List.length_take] at hshort
  refine List.mem_map_of_mem ?_
  rw [List.take_of_length_le (by omega), List.mem_insertionSort]
  exact List.mem_filter.mpr ⟨hr, by simp [hq, hp]⟩

theorem groupMembers_junctioned {provenanceId : Uuid} {m : EligibleRegistration}
    (hm : m ∈ groupMembers provenanceId s) : ∃ j ∈ s.leadProvenanceRegistrations.rows,
      j.provenanceId = provenanceId ∧ j.registrationId = m.id := by
  obtain ⟨r, hr, rfl⟩ := List.mem_map.mp hm
  obtain ⟨j, hj, hfound⟩ := List.mem_filterMap.mp ((List.mem_insertionSort _).mp hr)
  obtain ⟨hrow, hpair⟩ := List.mem_filter.mp hj
  exact ⟨j, hrow, by simpa using hpair, (registration?_mem hfound).2.symm⟩

theorem mem_activeRulesOfEvent {lr : LeadRule} :
    lr ∈ activeRulesOfEvent eventId s ↔ lr ∈ s.leadRules.rows ∧ lr.inScope eventId = true := by
  rw [activeRulesOfEvent, List.mem_insertionSort, List.mem_filter]

end reads

/-- The member is a stored registration of the event, as it was read. -/
def MemberStored (s : Db) (eventId : Uuid) (m : EligibleRegistration) : Prop :=
  ∃ r ∈ s.registrations.rows, r.eventId = eventId ∧ r.id = m.id ∧
    r.saleOrderId = m.saleOrderId ∧ r.createdAt = m.createdAt

/-- The provenance is one of the rule under this key. -/
def Belongs (s : Db) (provenanceId ruleId : Uuid) (groupKey : String) : Prop :=
  ∃ p ∈ s.leadProvenances.rows, p.id = provenanceId ∧ p.ruleId = ruleId ∧ p.groupKey = groupKey

structure RulesSound (s : Db) (rule : LeadRule) (rest : List LeadRule) : Prop where
  stored : ∀ lr ∈ rule :: rest, Db.hasRule s lr.id

structure BatchSound (s : Db) (eventId : Uuid) (k : Batch) : Prop where
  rules : RulesSound s k.rule k.rest
  predicates : k.predicates = predicatesOfRule k.rule.id s
  members : ∀ g ∈ k.group :: k.later, ∀ m ∈ g.members,
    MemberStored s eventId m ∧ groupOf eventId m = (g.grouping, g.groupKey)

/-- A new id is a member's, and a member that is not new is junctioned. -/
structure NewIds (s : Db) (k : Batch) (newIds : List Uuid) : Prop where
  ofMembers : ∀ x ∈ newIds, ∃ m ∈ k.group.members, m.id = x
  rest : ∀ m ∈ k.group.members, m.id ∈ newIds ∨ s.provenanced k.rule.id m.id = true

/-- A walk at one group: its provenance, and its new ids once they are known. -/
structure GroupSound (s : Db) (eventId : Uuid) (k : Batch) (provenanceId : Uuid)
    (newIds : Option (List Uuid)) : Prop where
  batch : BatchSound s eventId k
  belongs : Belongs s provenanceId k.rule.id k.group.groupKey
  newIds : ∀ ids ∈ newIds, NewIds s k ids

def StageSound (s : Db) (eventId : Uuid) : Stage → Prop
  | .readRules | .finish _ => True
  | .readPredicates rule rest => RulesSound s rule rest
  | .readEligible rule predicates rest =>
    RulesSound s rule rest ∧ predicates = predicatesOfRule rule.id s
  | .upsert k => BatchSound s eventId k
  | .members k provenanceId _ => GroupSound s eventId k provenanceId none
  | .create k provenanceId _ newIds | .setLead k provenanceId _ newIds
  | .update k provenanceId _ _ newIds | .junction k provenanceId newIds _ =>
    GroupSound s eventId k provenanceId (some newIds)

def AgentSound (s : Db) : Agent → Prop
  | .running _ (.walk _ eventId stage) _ => StageSound s eventId stage
  | .running _ (.claim _) _ | .running _ (.lease _) _ | .running _ (.refuse _) _ => True
  | .idle | .returned _ | .patching _ _ _ | .patched _ => True

section kept

variable {s t : Db} {eventId : Uuid} (h : Kept s t)
include h

theorem RulesSound.kept {rule : LeadRule} {rest : List LeadRule} (hs : RulesSound s rule rest) :
    RulesSound t rule rest := ⟨fun lr hlr => h.rules _ (hs.stored lr hlr)⟩

theorem RulesSound.predicates_kept {rule : LeadRule} {rest : List LeadRule}
    (hs : RulesSound s rule rest) : predicatesOfRule rule.id t = predicatesOfRule rule.id s :=
  h.predicates _ (hs.stored rule List.mem_cons_self)

theorem MemberStored.kept {m : EligibleRegistration} (hs : MemberStored s eventId m) :
    MemberStored t eventId m := by
  obtain ⟨r, hr, hevent, hid, horder, hcreated⟩ := hs
  obtain ⟨r', hr', hsame⟩ := h.registrations r hr
  exact ⟨r', hr', hsame.eventId.trans hevent, hsame.id.trans hid, hsame.saleOrderId.trans horder,
    hsame.createdAt.trans hcreated⟩

theorem Belongs.kept {provenanceId ruleId : Uuid} {groupKey : String}
    (hs : Belongs s provenanceId ruleId groupKey) : Belongs t provenanceId ruleId groupKey := by
  obtain ⟨p, hp, hid, hrule, hkey⟩ := hs
  obtain ⟨leadId, hp'⟩ := h.provenances p ⟨p.leadId, hp⟩
  exact ⟨_, hp', hid, hrule, hkey⟩

theorem BatchSound.kept {k : Batch} (hs : BatchSound s eventId k) : BatchSound t eventId k where
  rules := hs.rules.kept h
  predicates := hs.predicates.trans (hs.rules.predicates_kept h).symm
  members g hg m hm := ⟨(hs.members g hg m hm).1.kept h, (hs.members g hg m hm).2⟩

theorem NewIds.kept {k : Batch} {newIds : List Uuid} (hs : NewIds s k newIds) : NewIds t k newIds where
  ofMembers := hs.ofMembers
  rest m hm := (hs.rest m hm).imp_right h.provenanced

theorem GroupSound.kept {k : Batch} {provenanceId : Uuid} {newIds : Option (List Uuid)}
    (hs : GroupSound s eventId k provenanceId newIds) : GroupSound t eventId k provenanceId newIds :=
  ⟨hs.batch.kept h, hs.belongs.kept h, fun ids hids => (hs.newIds ids hids).kept h⟩

theorem StageSound.kept {stage : Stage} (hs : StageSound s eventId stage) :
    StageSound t eventId stage := by
  cases stage with
  | readRules | finish => trivial
  | readPredicates => exact RulesSound.kept h hs
  | readEligible => exact ⟨hs.1.kept h, hs.2.trans (hs.1.predicates_kept h).symm⟩
  | upsert => exact BatchSound.kept h hs
  | members | create | setLead | update | junction => exact GroupSound.kept h hs

theorem AgentSound.kept {a : Agent} (hs : AgentSound s a) : AgentSound t a := by
  cases a with
  | idle | returned | patching | patched => trivial
  | running caps point summary =>
    cases point with
    | claim | lease | refuse => trivial
    | walk origin eventId stage => exact StageSound.kept h hs

end kept

section turn

variable {s : Db} {eventId : Uuid} {tick : Tick} {caps : Caps} {origin : Origin}
  {summary : LeadRunSummary}

theorem ofRules_sound {rules : List LeadRule} (h : ∀ lr ∈ rules, Db.hasRule s lr.id) :
    StageSound s eventId (.ofRules rules) := by
  cases rules with
  | nil => trivial
  | cons rule rest => exact ⟨h⟩

theorem ofGroups_sound {rule : LeadRule} {predicates : List LeadPredicate} {rest : List LeadRule}
    {full : Bool} {groups : List MemberGroup} (hrules : RulesSound s rule rest)
    (hpredicates : predicates = predicatesOfRule rule.id s)
    (hmembers : ∀ g ∈ groups, ∀ m ∈ g.members,
      MemberStored s eventId m ∧ groupOf eventId m = (g.grouping, g.groupKey)) :
    StageSound s eventId (.ofGroups rule predicates rest full groups) := by
  cases groups with
  | nil =>
    cases full with
    | true => exact ⟨hrules, hpredicates⟩
    | false => exact ofRules_sound fun lr hlr => hrules.stored lr (List.mem_cons_of_mem _ hlr)
  | cons g later => exact ⟨hrules, hpredicates, hmembers⟩

theorem next_sound {k : Batch} (h : BatchSound s eventId k) : StageSound s eventId k.next :=
  ofGroups_sound h.rules h.predicates fun g hg => h.members g (List.mem_cons_of_mem _ hg)

variable (tick caps origin summary) in
/-- What a walker carries after its own step is stored too. -/
theorem stage_sound {stage : Stage} (h : StageSound s eventId stage) :
    AgentSound (stage.turn caps origin eventId tick summary s).db
      (stage.turn caps origin eventId tick summary s).agent := by
  have hkept : Kept s (stage.turn caps origin eventId tick summary s).db :=
    (stage_effect caps origin eventId summary stage).kept
  cases stage with
  | readRules =>
    exact ofRules_sound fun lr hlr => ⟨lr, (mem_activeRulesOfEvent.mp hlr).1, rfl⟩
  | readPredicates rule rest => exact ⟨h, rfl⟩
  | readEligible rule predicates rest =>
    simp only [Stage.turn]
    split
    · trivial
    · next eligible hread =>
      refine ofGroups_sound h.1 h.2 fun g hg m hm => ?_
      obtain ⟨hmem, hgroup⟩ := group_spec hg hm
      obtain ⟨r, hr, rfl, hq, -⟩ := eligible_stored hread hmem
      simp only [Db.qualifies, Bool.and_eq_true, beq_iff_eq] at hq
      exact ⟨⟨r, hr, hq.1.1, rfl, rfl, rfl⟩, hgroup⟩
  | upsert k =>
    simp only [Stage.turn] at hkept ⊢
    split
    · trivial
    · next provenanceId lead t hupsert =>
      simp only [hupsert] at hkept
      refine ⟨BatchSound.kept hkept h, ?_, fun _ hnone => by cases hnone⟩
      rcases upsertProvenance_ok hupsert with ⟨rfl, p, hp, hid, -, hrule, hkey⟩ |
        ⟨rfl, -, haccepts, rfl⟩
      · exact ⟨p, hp, hid, hrule, hkey⟩
      · refine ⟨⟨tick.provenanceId, k.rule.id, eventId, none, k.group.groupKey, k.group.grouping⟩,
          ?_, rfl, rfl, rfl⟩
        rw [Table.rows_push haccepts]
        exact List.mem_append_right _ (List.mem_singleton.mpr rfl)
  | members k provenanceId lead =>
    have hnew : NewIds s k ((k.newMembers (groupMembers provenanceId s)).map
        EligibleRegistration.id) := by
      refine ⟨fun x hx => ?_, fun m hm => ?_⟩
      · obtain ⟨m, hm, rfl⟩ := List.mem_map.mp hx
        exact ⟨m, (List.mem_filter.mp hm).1, rfl⟩
      · by_cases hknown : (groupMembers provenanceId s).any (·.id == m.id) = true
        · obtain ⟨m', hm', hid⟩ := List.any_eq_true.mp hknown
          obtain ⟨j, hj, hprovenance, hregistration⟩ := groupMembers_junctioned hm'
          obtain ⟨p, hp, hpid, hrule, -⟩ := h.belongs
          exact .inr (provenanced_iff.mpr ⟨j, hj, hregistration.trans (beq_iff_eq.mp hid), p, hp,
            hpid.trans hprovenance.symm, hrule⟩)
        · exact .inl (List.mem_map_of_mem (List.mem_filter.mpr ⟨hm, by simpa using hknown⟩))
    have hgroup : GroupSound s eventId k provenanceId
        (some ((k.newMembers (groupMembers provenanceId s)).map EligibleRegistration.id)) :=
      ⟨h.batch, h.belongs, fun ids hids => by obtain rfl := Option.some.inj hids; exact hnew⟩
    simp only [Stage.turn]
    split
    · split
      · exact next_sound h.batch
      · exact hgroup
    · exact hgroup
  | create =>
    simp only [Stage.turn]
    split
    · trivial
    · exact h
  | setLead => exact GroupSound.kept hkept h
  | update =>
    simp only [Stage.turn]
    split
    · trivial
    · exact h
  | junction k provenanceId newIds grown =>
    simp only [Stage.turn] at hkept ⊢
    split
    · trivial
    · next hadd =>
      simp only [hadd] at hkept
      exact next_sound (h.batch.kept hkept)
  | finish reason =>
    simp only [Stage.turn]
    split
    · trivial
    · cases origin <;> trivial

variable (tick) in
theorem agent_sound {a : Agent} (h : AgentSound s a) :
    AgentSound (a.turn tick s).db (a.turn tick s).agent := by
  cases a with
  | idle | returned | patched => trivial
  | patching env patch stage =>
    cases stage with
    | update => simp only [Agent.turn, Patching.turn]; split <;> trivial
    | arm | audit => trivial
  | running caps point summary =>
    cases point with
    | claim parked =>
      simp only [Agent.turn, Point.turn]
      split
      · trivial
      · split <;> trivial
    | lease eventId => simp only [Agent.turn, Point.turn]; split <;> trivial
    | refuse => trivial
    | walk origin eventId stage => exact stage_sound _ _ _ _ h

end turn

section world

variable {ι : Type} [DecidableEq ι]

/-- Every agent carries what is stored. -/
def World.Sound (w : World ι) : Prop := ∀ i, AgentSound w.db (w.agents i)

omit [DecidableEq ι] in
theorem sound_start (s : Db) : (World.start s : World ι).Sound := fun _ => trivial

theorem enter_sound {w : World ι} {i : ι} {a : Agent} (h : w.Sound) (ha : AgentSound w.db a) :
    (w.enter i a).Sound := by
  intro j
  simp only [World.enter]
  split
  · exact h j
  · by_cases hj : j = i
    · subst hj
      rwa [World.setAgent_self]
    · rw [World.setAgent_of_ne hj]
      exact h j

theorem World.Sound.next {w : World ι} (h : w.Sound) (a : Act ι) : (w.next a).Sound := by
  have hkept := world_kept w a
  cases a with
  | verb | createRule => exact fun j => (h j).kept hkept
  | patchRule | runDueLeadRequests | runRequestOfEvent => exact enter_sound h trivial
  | turn i tick =>
    intro j
    by_cases hj : j = i
    · subst hj
      have hown := agent_sound tick (h j)
      simpa [World.next] using hown
    · have hother := (h j).kept hkept
      simpa [World.next, World.setAgent_of_ne hj] using hother
  | crash i =>
    intro j
    by_cases hj : j = i
    · subst hj
      simp only [World.next, World.setAgent_self]
      trivial
    · have hother := (h j).kept hkept
      simpa [World.next, World.setAgent_of_ne hj] using hother

end world

end BackboneEvents.LeadGeneration
