import BackboneEvents.LeadCreates

/-!
# What a walk that is alone adds

Between the steps of a walk that no other writer disturbs, the registrations and rules stand
still. Its batch holds registrations that no group of the rule has, each in one group only,
so a group's new members are its members, and only the junction step adds them.
-/
namespace BackboneEvents.LeadGeneration
open ConstrainedTables

/-- The registration is junctioned to the rule's group of this key. -/
def Joined (s : Db) (ruleId : Uuid) (groupKey : String) (registrationId : Uuid) : Prop :=
  ∃ p ∈ s.leadProvenances.rows, p.ruleId = ruleId ∧ p.groupKey = groupKey ∧
    ∃ j ∈ s.leadProvenanceRegistrations.rows, j.provenanceId = p.id ∧
      j.registrationId = registrationId

/-- Every junction is of a stored provenance and a stored registration. -/
def Anchored (s : Db) : Prop :=
  ∀ j ∈ s.leadProvenanceRegistrations.rows,
    (∃ p ∈ s.leadProvenances.rows, p.id = j.provenanceId) ∧
    ∃ r ∈ s.registrations.rows, r.id = j.registrationId

/-- The tables a walk reads and never writes. -/
structure Ground (s t : Db) : Prop where
  registrations : t.registrations = s.registrations
  rules : t.leadRules = s.leadRules
  predicates : t.leadPredicates = s.leadPredicates
  events : t.events = s.events
  answers : t.registrationAnswers = s.registrationAnswers
  orgAxis : t.orgAxis = s.orgAxis

theorem Ground.refl (s : Db) : Ground s s := ⟨rfl, rfl, rfl, rfl, rfl, rfl⟩

theorem Ground.trans {s t u : Db} (h : Ground s t) (h' : Ground t u) : Ground s u where
  registrations := h'.registrations.trans h.registrations
  rules := h'.rules.trans h.rules
  predicates := h'.predicates.trans h.predicates
  events := h'.events.trans h.events
  answers := h'.answers.trans h.answers
  orgAxis := h'.orgAxis.trans h.orgAxis

section ground

variable {s t : Db} (h : Ground s t)
include h

theorem Ground.predicatesOfRule (ruleId : Uuid) :
    BackboneEvents.predicatesOfRule ruleId t = BackboneEvents.predicatesOfRule ruleId s := by
  simp only [BackboneEvents.predicatesOfRule, h.predicates]

theorem Ground.qualifies (eventId : Uuid) (predicates : List LeadPredicate) (r : Registration) :
    t.qualifies eventId predicates r = s.qualifies eventId predicates r := by
  have hholds : ∀ p : LeadPredicate, p.holds t r = p.holds s r := fun p => by
    simp only [LeadPredicate.holds, Db.event?, h.events, h.answers]
  simp only [Db.qualifies, hholds]

theorem Ground.owes (d : Debt) : LeadGeneration.owes t d = LeadGeneration.owes s d := by
  simp only [LeadGeneration.owes, h.rules, h.registrations, h.qualifies, h.predicatesOfRule]

end ground

section joined

variable {s : Db} {ruleId registrationId : Uuid} {groupKey : String}

theorem provenanced_iff_joined : s.provenanced ruleId registrationId = true ↔
    ∃ groupKey, Joined s ruleId groupKey registrationId := by
  rw [provenanced_iff]
  constructor
  · rintro ⟨j, hj, hregistration, p, hp, hid, hrule⟩
    exact ⟨p.groupKey, p, hp, hrule, rfl, j, hj, hid.symm, hregistration⟩
  · rintro ⟨groupKey, p, hp, hrule, -, j, hj, hid, hregistration⟩
    exact ⟨j, hj, hregistration, p, hp, hid.symm, hrule⟩

variable (registrationId) in
/-- The members of a provenance are exactly the registrations joined to its group. -/
theorem mem_groupMembers_iff {provenanceId : Uuid} (hanchored : Anchored s)
    (h : Belongs s provenanceId ruleId groupKey) :
    registrationId ∈ (groupMembers provenanceId s).map EligibleRegistration.id ↔
      Joined s ruleId groupKey registrationId := by
  obtain ⟨p, hp, hid, hrule, hkey⟩ := h
  constructor
  · intro hmem
    obtain ⟨m, hm, rfl⟩ := List.mem_map.mp hmem
    obtain ⟨j, hj, hprovenance, hregistration⟩ := groupMembers_junctioned hm
    exact ⟨p, hp, hrule, hkey, j, hj, hprovenance.trans hid.symm, hregistration⟩
  · rintro ⟨q, hq, hrule', hkey', j, hj, hprovenance, hregistration⟩
    obtain rfl : q = p :=
      Table.eq_of_clash hq hp (by simp [clash, hrule, hrule', hkey, hkey'])
    obtain ⟨r, hr, hrid⟩ := (hanchored j hj).2
    refine List.mem_map.mpr ⟨r.seen, ?_, hrid.trans hregistration⟩
    refine List.mem_map.mpr ⟨r, (List.mem_insertionSort _).mpr ?_, rfl⟩
    refine List.mem_filterMap.mpr ⟨j, List.mem_filter.mpr ⟨hj, by simp [hprovenance, hid]⟩, ?_⟩
    rw [← hrid]
    exact registration?_eq_some hr

/-- A provenance lists no registration twice. -/
theorem nodup_groupMembers (provenanceId : Uuid) :
    ((groupMembers provenanceId s).map EligibleRegistration.id).Nodup := by
  rw [groupMembers, List.map_map, ((List.perm_insertionSort _ _).map _).nodup_iff, List.Nodup,
    List.pairwise_map, List.pairwise_filterMap, List.pairwise_filter]
  refine s.leadProvenanceRegistrations.unique.imp ?_
  intro j j' hapart hprovenance hprovenance' r hr r' hr' hsame
  have hid := (registration?_mem hr).2
  have hid' := (registration?_mem hr').2
  simp only [beq_iff_eq] at hprovenance hprovenance'
  have hreg : j.registrationId = j'.registrationId := by
    rw [← hid, ← hid']
    exact hsame
  simp [clash, hprovenance, hprovenance', hreg] at hapart

/-- A batch lists no registration twice. -/
theorem nodup_eligible {eventId : Uuid} {predicates : List LeadPredicate} {batch : ℕ}
    {eligible : List EligibleRegistration}
    (h : eligibleRegistrations eventId ruleId predicates batch s = .ok eligible) :
    (eligible.map EligibleRegistration.id).Nodup := by
  rw [eligibleRegistrations_ok h, List.map_map]
  refine List.Nodup.sublist ((List.take_sublist _ _).map _) ?_
  rw [((List.perm_insertionSort _ _).map _).nodup_iff, List.Nodup, List.pairwise_map]
  refine (s.registrations.unique.filter _).imp ?_
  intro r r' hapart hsame
  have hid : r.id = r'.id := hsame
  simp [clash, hid] at hapart

end joined

section fresh

/-- Ids that no stored row has. -/
structure FreshIds (s : Db) (tick : Tick) : Prop where
  provenance : ∀ p ∈ s.leadProvenances.rows, p.id ≠ tick.provenanceId
  junctions : ∀ j ∈ s.leadProvenanceRegistrations.rows, ∀ x, j.id ≠ tick.junctionId x
  apart : Function.Injective tick.junctionId

variable {s : Db} {tick : Tick}

theorem upsertProvenance_fresh (h : FreshIds s tick) (ruleId eventId : Uuid) (groupKey : String)
    (grouping : LeadGrouping) : ∃ id lead t,
      upsertProvenance tick.provenanceId ruleId eventId groupKey grouping s = .ok ((id, lead), t) := by
  cases hfound : s.leadProvenances.find (fun p => p.ruleId == ruleId && p.groupKey == groupKey) with
  | some p => exact ⟨p.id, p.leadId, s, by simp [upsertProvenance, hfound]⟩
  | none =>
    have haccepts : s.leadProvenances.accepts
        ⟨tick.provenanceId, ruleId, eventId, none, groupKey, grouping⟩ = true := by
      refine Table.accepts_iff.mpr fun p hp => ?_
      have hkey := List.find?_eq_none.mp hfound p hp
      simp only [Bool.and_eq_true, beq_iff_eq] at hkey
      simpa [clash, h.provenance p hp] using hkey
    exact ⟨tick.provenanceId, none, _, by simp only [upsertProvenance, hfound, haccepts, if_true]; rfl⟩

theorem addJunctions_fresh {junctionId : Uuid → Uuid} (provenanceId : Uuid)
    (hinjective : Function.Injective junctionId) (ids : List Uuid)
    {t : Table LeadProvenanceRegistration}
    (h : ∀ j ∈ t.rows, ∀ x, j.id = junctionId x → j.provenanceId = provenanceId ∧
      j.registrationId = x) : ∃ n t', addJunctions junctionId provenanceId ids t = some (n, t') := by
  induction ids generalizing t with
  | nil => exact ⟨0, t, rfl⟩
  | cons r rs ih =>
    rw [addJunctions]
    cases hstored : t.rows.any (fun j => j.provenanceId == provenanceId && j.registrationId == r) with
    | true => exact ih h
    | false =>
      have hnew : ∀ j ∈ t.rows, ¬ (j.provenanceId = provenanceId ∧ j.registrationId = r) := by
        simpa using hstored
      have haccepts : t.accepts ⟨junctionId r, provenanceId, r⟩ = true := by
        refine Table.accepts_iff.mpr fun j hj => ?_
        have hid : j.id ≠ junctionId r := fun hid => hnew j hj (h j hj r hid)
        simpa [clash, hid] using hnew j hj
      obtain ⟨n, t', hrest⟩ := @ih (t.push ⟨junctionId r, provenanceId, r⟩) (by
        intro j hj x hid
        rw [Table.rows_push haccepts, List.mem_append, List.mem_singleton] at hj
        rcases hj with hj | rfl
        · exact h j hj x hid
        · exact ⟨rfl, hinjective hid⟩)
      exact ⟨n + 1, t', by simp [haccepts, hrest]⟩

theorem junctionAdd_fresh (h : FreshIds s tick) (provenanceId : Uuid) (ids : List Uuid) :
    ∃ n t, junctionAdd tick.junctionId provenanceId ids s = .ok (n, t) := by
  obtain ⟨n, table, hadd⟩ := addJunctions_fresh provenanceId h.apart ids
    (t := s.leadProvenanceRegistrations) fun j hj x hid => absurd hid (h.junctions j hj x)
  exact ⟨n, _, by simp only [junctionAdd, hadd]; rfl⟩

end fresh

section steps

variable {s t : Db} {provenanceId ruleId registrationId : Uuid} {groupKey : String}

variable (ruleId groupKey registrationId) in
/-- A new group has no members. -/
theorem joined_upserted {id eventId : Uuid} {grouping : LeadGrouping} {key : String} {rule : Uuid}
    {lead : Option Uuid} (hanchored : Anchored s)
    (h : upsertProvenance provenanceId rule eventId key grouping s = .ok ((id, lead), t)) :
    (Joined t ruleId groupKey registrationId ↔ Joined s ruleId groupKey registrationId) ∧
      Anchored t := by
  rcases upsertProvenance_ok h with ⟨rfl, -⟩ | ⟨-, -, haccepts, rfl⟩
  · exact ⟨.rfl, hanchored⟩
  refine ⟨⟨?_, ?_⟩, fun j hj => ?_⟩
  · rintro ⟨p, hp, hrule, hkey, j, hj, hprovenance, hregistration⟩
    rw [Table.rows_push haccepts, List.mem_append, List.mem_singleton] at hp
    rcases hp with hp | rfl
    · exact ⟨p, hp, hrule, hkey, j, hj, hprovenance, hregistration⟩
    · obtain ⟨q, hq, hid⟩ := (hanchored j hj).1
      have hapart := Table.accepts_iff.mp haccepts q hq
      simp [clash, hid.trans hprovenance] at hapart
  · rintro ⟨p, hp, hrest⟩
    exact ⟨p, Table.mem_push hp, hrest⟩
  · obtain ⟨⟨q, hq, hid⟩, hregistration⟩ := hanchored j hj
    exact ⟨⟨q, Table.mem_push hq, hid⟩, hregistration⟩

variable (provenanceId ruleId registrationId groupKey) in
/-- The lead of a group is none of its members. -/
theorem joined_linked (leadId : Uuid) (hanchored : Anchored s) :
    (Joined (setProvenanceLead provenanceId leadId s) ruleId groupKey registrationId ↔
      Joined s ruleId groupKey registrationId) ∧
    Anchored (setProvenanceLead provenanceId leadId s) := by
  have himage : ∀ p ∈ s.leadProvenances.rows, ∃ p' ∈
      (setProvenanceLead provenanceId leadId s).leadProvenances.rows,
        p'.id = p.id ∧ p'.ruleId = p.ruleId ∧ p'.groupKey = p.groupKey := by
    intro p hp
    refine ⟨_, Table.mem_modify.mpr ⟨p, hp, rfl⟩, ?_⟩
    split <;> exact ⟨rfl, rfl, rfl⟩
  refine ⟨⟨?_, ?_⟩, fun j hj => ?_⟩
  · rintro ⟨p', hp', hrule, hkey, j, hj, hprovenance, hregistration⟩
    obtain ⟨p, hp, rfl⟩ := Table.mem_modify.mp hp'
    refine ⟨p, hp, ?_, ?_, j, hj, ?_, hregistration⟩
    · rw [← hrule]; split <;> rfl
    · rw [← hkey]; split <;> rfl
    · rw [hprovenance]; split <;> rfl
  · rintro ⟨p, hp, hrule, hkey, j, hj, hprovenance, hregistration⟩
    obtain ⟨p', hp', hid, hrule', hkey'⟩ := himage p hp
    exact ⟨p', hp', hrule'.trans hrule, hkey'.trans hkey, j, hj, hprovenance.trans hid.symm,
      hregistration⟩
  · obtain ⟨⟨p, hp, hid⟩, hregistration⟩ := hanchored j hj
    obtain ⟨p', hp', hid', -, -⟩ := himage p hp
    exact ⟨⟨p', hp', hid'.trans hid⟩, hregistration⟩

variable (ruleId groupKey registrationId) in
/-- Junctions of a group join its registrations and no others. -/
theorem joined_added {junctionId : Uuid → Uuid} {ids : List Uuid} {n : ℕ} {rule : Uuid}
    {key : String} (hbelongs : Belongs s provenanceId rule key)
    (h : junctionAdd junctionId provenanceId ids s = .ok (n, t)) :
    Joined t ruleId groupKey registrationId ↔ Joined s ruleId groupKey registrationId ∨
      rule = ruleId ∧ key = groupKey ∧ registrationId ∈ ids := by
  obtain ⟨table, rfl, hadd⟩ := junctionAdd_ok h
  obtain ⟨⟨added, hrows, hadded⟩, hall⟩ := addJunctions_some hadd
  obtain ⟨q, hq, hid, rfl, rfl⟩ := hbelongs
  constructor
  · rintro ⟨p, hp, hrule, hkey, j, hj, hprovenance, hregistration⟩
    rw [hrows] at hj
    rcases List.mem_append.mp hj with hold | hnew
    · exact .inl ⟨p, hp, hrule, hkey, j, hold, hprovenance, hregistration⟩
    · obtain ⟨hown, hmem⟩ := hadded j hnew
      obtain rfl : p = q :=
        Table.eq_of_clash hp hq (by simp [clash, ← hprovenance, hown, hid])
      exact .inr ⟨hrule, hkey, hregistration ▸ hmem⟩
  · rintro (⟨p, hp, hrule, hkey, j, hj, hrest⟩ | ⟨rfl, rfl, hmem⟩)
    · exact ⟨p, hp, hrule, hkey, j, by rw [hrows]; exact List.mem_append_left _ hj, hrest⟩
    · obtain ⟨j, hj, hprovenance, hregistration⟩ := hall _ hmem
      exact ⟨q, hq, rfl, rfl, j, hj, hprovenance.trans hid.symm, hregistration⟩

theorem anchored_added {junctionId : Uuid → Uuid} {ids : List Uuid} {n : ℕ} {rule : Uuid}
    {key : String} (hanchored : Anchored s) (hbelongs : Belongs s provenanceId rule key)
    (hids : ∀ x ∈ ids, ∃ r ∈ s.registrations.rows, r.id = x)
    (h : junctionAdd junctionId provenanceId ids s = .ok (n, t)) : Anchored t := by
  obtain ⟨table, rfl, hadd⟩ := junctionAdd_ok h
  obtain ⟨⟨added, hrows, hadded⟩, -⟩ := addJunctions_some hadd
  intro j hj
  rw [hrows] at hj
  rcases List.mem_append.mp hj with hold | hnew
  · exact hanchored j hold
  · obtain ⟨hown, hmem⟩ := hadded j hnew
    obtain ⟨q, hq, hid, -, -⟩ := hbelongs
    exact ⟨⟨q, hq, hid.trans hown.symm⟩, hids _ hmem⟩

/-- What the step of a walk junctions. -/
def Stage.joins (stage : Stage) (ruleId : Uuid) (groupKey : String) (registrationId : Uuid) : Prop :=
  match stage with
  | .junction k _ newIds _ =>
    k.rule.id = ruleId ∧ k.group.groupKey = groupKey ∧ registrationId ∈ newIds
  | .readRules | .readPredicates _ _ | .readEligible _ _ _ | .upsert _ | .members _ _ _
  | .create _ _ _ _ | .setLead _ _ _ _ | .update _ _ _ _ _ | .finish _ => False

variable {eventId : Uuid} {tick : Tick} {caps : Caps} {origin : Origin} {summary : LeadRunSummary}
  {stage : Stage}

theorem stage_ground : Ground s (stage.turn caps origin eventId tick summary s).db := by
  cases stage with
  | readRules | readPredicates | setLead => exact ⟨rfl, rfl, rfl, rfl, rfl, rfl⟩
  | readEligible | create | update => simp only [Stage.turn]; split <;> exact .refl s
  | members =>
    simp only [Stage.turn]
    split
    · split <;> exact .refl s
    · exact .refl s
  | upsert k =>
    simp only [Stage.turn]
    split
    · exact .refl s
    · next hupsert =>
      rcases upsertProvenance_ok hupsert with ⟨rfl, -⟩ | ⟨-, -, -, rfl⟩
      · exact .refl _
      · exact ⟨rfl, rfl, rfl, rfl, rfl, rfl⟩
  | junction =>
    simp only [Stage.turn]
    split
    · exact .refl s
    · next hadd =>
      obtain ⟨table, rfl, -⟩ := junctionAdd_ok hadd
      exact ⟨rfl, rfl, rfl, rfl, rfl, rfl⟩
  | finish reason =>
    simp only [Stage.turn, finishRequestByEvent]
    split
    · exact .refl s
    · next hfinish =>
      split at hfinish
      · obtain rfl := Except.ok.inj hfinish
        exact ⟨rfl, rfl, rfl, rfl, rfl, rfl⟩
      · cases hfinish

/-- Only the end of a walk touches the queue. -/
theorem stage_requests (h : ∀ reason, stage ≠ .finish reason) :
    (stage.turn caps origin eventId tick summary s).db.leadRequests = s.leadRequests := by
  cases stage with
  | readRules | readPredicates | setLead => rfl
  | readEligible | create | update => simp only [Stage.turn]; split <;> rfl
  | members =>
    simp only [Stage.turn]
    split
    · split <;> rfl
    · rfl
  | upsert k =>
    simp only [Stage.turn]
    split
    · rfl
    · next hupsert => rcases upsertProvenance_ok hupsert with ⟨rfl, -⟩ | ⟨-, -, -, rfl⟩ <;> rfl
  | junction =>
    simp only [Stage.turn]
    split
    · rfl
    · next hadd =>
      obtain ⟨table, rfl, -⟩ := junctionAdd_ok hadd
      rfl
  | finish reason => exact absurd rfl (h reason)

variable (caps origin summary) in
/-- A step joins what it junctions, and every junction stays anchored. -/
theorem stage_joined (hanchored : Anchored s) (hsound : StageSound s eventId stage)
    (hfresh : FreshIds s tick) :
    (∀ ruleId groupKey registrationId,
      Joined (stage.turn caps origin eventId tick summary s).db ruleId groupKey registrationId ↔
        Joined s ruleId groupKey registrationId ∨ stage.joins ruleId groupKey registrationId) ∧
    Anchored (stage.turn caps origin eventId tick summary s).db := by
  have hsame : (∀ ruleId groupKey registrationId, Joined s ruleId groupKey registrationId ↔
      Joined s ruleId groupKey registrationId ∨ False) ∧ Anchored s := ⟨by simp, hanchored⟩
  cases stage with
  | readRules | readPredicates => exact hsame
  | readEligible | create | update => simp only [Stage.turn]; split <;> exact hsame
  | members =>
    simp only [Stage.turn]
    split
    · split <;> exact hsame
    · exact hsame
  | setLead k provenanceId leadId newIds =>
    refine ⟨fun ruleId groupKey registrationId => ?_, (joined_linked _ 0 0 "" _ hanchored).2⟩
    exact (joined_linked _ _ _ _ _ hanchored).1.trans (by simp [Stage.joins])
  | upsert k =>
    obtain ⟨id, lead, t, hupsert⟩ :=
      upsertProvenance_fresh hfresh k.rule.id eventId k.group.groupKey k.group.grouping
    simp only [Stage.turn, hupsert]
    refine ⟨fun ruleId groupKey registrationId => ?_, (joined_upserted 0 0 "" hanchored
      hupsert).2⟩
    exact (joined_upserted _ _ _ hanchored hupsert).1.trans (by simp [Stage.joins])
  | junction k provenanceId newIds grown =>
    obtain ⟨n, t, hadd⟩ := junctionAdd_fresh hfresh provenanceId newIds
    simp only [Stage.turn, hadd]
    refine ⟨fun ruleId groupKey registrationId => joined_added _ _ _ hsound.belongs hadd, ?_⟩
    refine anchored_added hanchored hsound.belongs (fun x hx => ?_) hadd
    obtain ⟨m, hm, rfl⟩ := (hsound.newIds newIds rfl).ofMembers x hx
    obtain ⟨⟨r, hr, -, hid, -, -⟩, -⟩ := hsound.batch.members k.group List.mem_cons_self m hm
    exact ⟨r, hr, hid⟩
  | finish reason =>
    simp only [Stage.turn, finishRequestByEvent]
    split
    · exact hsame
    · next hfinish =>
      split at hfinish
      · obtain rfl := Except.ok.inj hfinish
        exact hsame
      · cases hfinish

end steps

/-- The rule is stored, active and in the scope of the event. -/
def Scoped (s : Db) (eventId : Uuid) (lr : LeadRule) : Prop :=
  lr ∈ s.leadRules.rows ∧ lr.inScope eventId = true

/-- The groups of a batch hold stored registrations that qualify and are in no group of the
rule, each in one group and once. -/
structure Batched (s : Db) (eventId : Uuid) (k : Batch) : Prop where
  rules : ∀ lr ∈ k.rule :: k.rest, Scoped s eventId lr
  members : ∀ g ∈ k.group :: k.later, ∀ m ∈ g.members, ∃ r ∈ s.registrations.rows, m = r.seen ∧
    s.qualifies eventId k.predicates r = true ∧ s.provenanced k.rule.id m.id = false
  filled : ∀ g ∈ k.group :: k.later, g.members ≠ []
  nodup : ∀ g ∈ k.group :: k.later, (g.members.map EligibleRegistration.id).Nodup
  apart : (k.group :: k.later).Pairwise
    (fun g g' => ∀ m ∈ g.members, ∀ m' ∈ g'.members, m.id ≠ m'.id)

/-- What a walk that is alone carries beside what is stored. -/
def StageApart (s : Db) (eventId : Uuid) : Stage → Prop
  | .readRules | .finish _ => True
  | .readPredicates rule rest | .readEligible rule _ rest =>
    ∀ lr ∈ rule :: rest, Scoped s eventId lr
  | .upsert k | .members k _ _ => Batched s eventId k
  | .create k provenanceId group newIds | .update k provenanceId _ group newIds =>
    Batched s eventId k ∧ newIds = k.group.members.map EligibleRegistration.id ∧
      group = k.leadGroup eventId (groupMembers provenanceId s)
  | .setLead k _ _ newIds | .junction k _ newIds _ =>
    Batched s eventId k ∧ newIds = k.group.members.map EligibleRegistration.id

def AgentApart (s : Db) : Agent → Prop
  | .running _ (.walk _ eventId stage) _ => StageApart s eventId stage
  | .running _ (.claim _) _ | .running _ (.lease _) _ | .running _ (.refuse _) _ => True
  | .idle | .returned _ | .patching _ _ _ | .patched _ => True

section batches

variable {s t : Db} {eventId : Uuid} {k : Batch}

theorem groups_apart {eligible : List EligibleRegistration}
    (hnodup : (eligible.map EligibleRegistration.id).Nodup) :
    (groupsOf eventId eligible).Pairwise
      (fun g g' => ∀ m ∈ g.members, ∀ m' ∈ g'.members, m.id ≠ m'.id) := by
  rw [groupsOf, List.pairwise_map]
  have hkeys : (((eligible.map (groupOf eventId)).dedup.insertionSort
      (fun a b => keyNotAfter a b = true))).Nodup :=
    (List.perm_insertionSort _ _).nodup_iff.mpr (List.nodup_dedup _)
  refine hkeys.imp ?_
  intro key key' hne m hm m' hm' hid
  obtain ⟨hmem, hkey⟩ := List.mem_filter.mp hm
  obtain ⟨hmem', hkey'⟩ := List.mem_filter.mp hm'
  obtain rfl : m = m' := List.inj_on_of_nodup_map hnodup hmem hmem' hid
  exact hne ((beq_iff_eq.mp hkey).symm.trans (beq_iff_eq.mp hkey'))

theorem group_filled {eligible : List EligibleRegistration} {g : MemberGroup}
    (hg : g ∈ groupsOf eventId eligible) : g.members ≠ [] := by
  obtain ⟨key, hkey, rfl⟩ := List.mem_map.mp hg
  rw [List.mem_insertionSort, List.mem_dedup] at hkey
  obtain ⟨m, hm, rfl⟩ := List.mem_map.mp hkey
  exact List.ne_nil_of_mem (List.mem_filter.mpr ⟨hm, beq_self_eq_true _⟩)

theorem group_nodup {eligible : List EligibleRegistration} {g : MemberGroup}
    (hnodup : (eligible.map EligibleRegistration.id).Nodup)
    (hg : g ∈ groupsOf eventId eligible) : (g.members.map EligibleRegistration.id).Nodup := by
  obtain ⟨key, -, rfl⟩ := List.mem_map.mp hg
  exact hnodup.sublist (List.filter_sublist.map _)

/-- The members of the groups still to come may not have been junctioned meanwhile. -/
theorem Batched.ground (h : Batched s eventId k) (hground : Ground s t) {group : MemberGroup}
    {later : List MemberGroup} (hsuffix : group :: later <:+ k.group :: k.later)
    (hnew : ∀ g ∈ group :: later, ∀ m ∈ g.members, t.provenanced k.rule.id m.id = false) :
    Batched t eventId { k with group := group, later := later } where
  rules lr hlr := ⟨by rw [hground.rules]; exact (h.rules lr hlr).1, (h.rules lr hlr).2⟩
  members g hg m hm := by
    obtain ⟨r, hr, heq, hq, -⟩ := h.members g (hsuffix.subset hg) m hm
    exact ⟨r, by rwa [hground.registrations], heq, by rwa [hground.qualifies], hnew g hg m hm⟩
  filled g hg := h.filled g (hsuffix.subset hg)
  nodup g hg := h.nodup g (hsuffix.subset hg)
  apart := h.apart.sublist hsuffix.sublist

theorem provenanced_eq_false {ruleId registrationId : Uuid}
    (h : s.provenanced ruleId registrationId = false)
    (hjoined : ∀ groupKey, Joined t ruleId groupKey registrationId →
      Joined s ruleId groupKey registrationId) : t.provenanced ruleId registrationId = false := by
  refine Bool.eq_false_iff.mpr fun hp => ?_
  obtain ⟨groupKey, hjoin⟩ := provenanced_iff_joined.mp hp
  rw [provenanced_iff_joined.mpr ⟨groupKey, hjoined _ hjoin⟩] at h
  cases h

/-- A step that joins nothing keeps the batch. -/
theorem Batched.quiet (h : Batched s eventId k) (hground : Ground s t)
    (hjoined : ∀ ruleId groupKey registrationId, Joined t ruleId groupKey registrationId →
      Joined s ruleId groupKey registrationId) : Batched t eventId k :=
  h.ground hground (List.suffix_refl _) fun g hg m hm => by
    obtain ⟨r, -, -, -, hp⟩ := h.members g hg m hm
    exact provenanced_eq_false hp fun _ => hjoined _ _ _

theorem scoped_ofRules {rules : List LeadRule} (h : ∀ lr ∈ rules, Scoped s eventId lr) :
    StageApart s eventId (.ofRules rules) := by
  cases rules with
  | nil => trivial
  | cons rule rest => exact h

/-- The next group, the next batch or the next rule. -/
theorem batched_ofGroups {rule : LeadRule} {predicates : List LeadPredicate} {rest : List LeadRule}
    {full : Bool} {groups : List MemberGroup}
    (hrules : ∀ lr ∈ rule :: rest, Scoped s eventId lr)
    (h : ∀ group later, groups = group :: later →
      Batched s eventId ⟨rule, predicates, rest, full, group, later⟩) :
    StageApart s eventId (.ofGroups rule predicates rest full groups) := by
  cases groups with
  | nil =>
    cases full with
    | true => exact hrules
    | false => exact scoped_ofRules fun lr hlr => hrules lr (List.mem_cons_of_mem _ hlr)
  | cons group later => exact h group later rfl

/-- None of the members is junctioned to a provenance of the rule, so all are new. -/
theorem newMembers_eq {provenanceId : Uuid} (h : Batched s eventId k)
    (hbelongs : Belongs s provenanceId k.rule.id k.group.groupKey) :
    k.newMembers (groupMembers provenanceId s) = k.group.members := by
  refine List.filter_eq_self.mpr fun m hm => ?_
  cases hknown : (groupMembers provenanceId s).any (·.id == m.id) with
  | false => rfl
  | true =>
    obtain ⟨m', hm', hid⟩ := List.any_eq_true.mp hknown
    obtain ⟨j, hj, hprovenance, hregistration⟩ := groupMembers_junctioned hm'
    obtain ⟨p, hp, hpid, hrule, -⟩ := hbelongs
    obtain ⟨r, -, -, -, hnone⟩ := h.members k.group List.mem_cons_self m hm
    rw [provenanced_iff.mpr ⟨j, hj, hregistration.trans (beq_iff_eq.mp hid), p, hp,
      hpid.trans hprovenance.symm, hrule⟩] at hnone
    cases hnone

variable {tick : Tick} {caps : Caps} {origin : Origin} {summary : LeadRunSummary} {stage : Stage}

/-- The step of a walk that is alone. -/
theorem stage_apart (hanchored : Anchored s) (hsound : StageSound s eventId stage)
    (hfresh : FreshIds s tick) (h : StageApart s eventId stage) :
    AgentApart (stage.turn caps origin eventId tick summary s).db
      (stage.turn caps origin eventId tick summary s).agent := by
  have hground : Ground s (stage.turn caps origin eventId tick summary s).db := stage_ground
  have hjoined := (stage_joined caps origin summary hanchored
    hsound hfresh).1
  cases stage with
  | readRules => exact scoped_ofRules fun lr hlr => mem_activeRulesOfEvent.mp hlr
  | readPredicates rule rest => exact h
  | readEligible rule predicates rest =>
    simp only [Stage.turn]
    split
    · trivial
    · next eligible hread =>
      refine batched_ofGroups h fun group later hgroups => ⟨h, ?_, ?_, ?_, ?_⟩
      · intro g hg m hm
        obtain ⟨hmem, -⟩ := group_spec (hgroups ▸ hg) hm
        obtain ⟨r, hr, rfl, hq, hp⟩ := eligible_stored hread hmem
        exact ⟨r, hr, rfl, hq, hp⟩
      · exact fun g hg => group_filled (hgroups ▸ hg)
      · exact fun g hg => group_nodup (nodup_eligible hread) (hgroups ▸ hg)
      · exact hgroups ▸ groups_apart (nodup_eligible hread)
  | upsert k =>
    simp only [Stage.turn] at hground hjoined ⊢
    split
    · trivial
    · next hupsert =>
      simp only [hupsert] at hground hjoined
      exact Batched.quiet h hground fun ruleId groupKey registrationId hjoin =>
        ((hjoined ruleId groupKey registrationId).mp hjoin).resolve_right id
  | members k provenanceId lead =>
    have hnew := newMembers_eq h hsound.belongs
    simp only [Stage.turn, hnew]
    split
    · split
      · next hempty =>
        have hnil : k.group.members = [] := by simpa using hempty
        exact absurd hnil (h.filled _ List.mem_cons_self)
      · exact ⟨h, rfl, rfl⟩
    · exact ⟨h, rfl, rfl⟩
  | create =>
    simp only [Stage.turn]
    split
    · trivial
    · exact ⟨h.1, h.2.1⟩
  | update =>
    simp only [Stage.turn]
    split
    · trivial
    · exact ⟨h.1, h.2.1⟩
  | setLead k provenanceId leadId newIds =>
    refine ⟨h.1.quiet hground fun ruleId groupKey registrationId hjoin => ?_, h.2⟩
    exact ((hjoined ruleId groupKey registrationId).mp hjoin).resolve_right id
  | junction k provenanceId newIds grown =>
    simp only [Stage.turn] at hground hjoined ⊢
    split
    · trivial
    · next hadd =>
      simp only [hadd] at hground hjoined
      refine batched_ofGroups (fun lr hlr => ⟨by rw [hground.rules]; exact (h.1.rules lr hlr).1,
        (h.1.rules lr hlr).2⟩) fun group later hgroups => ?_
      refine h.1.ground hground (hgroups ▸ List.suffix_cons _ _) fun g hg m hm => ?_
      rw [← hgroups] at hg
      obtain ⟨r, -, -, -, hp⟩ := h.1.members g (List.mem_cons_of_mem _ hg) m hm
      refine provenanced_eq_false hp fun groupKey hjoin => ?_
      refine ((hjoined _ groupKey _).mp hjoin).resolve_right ?_
      rintro ⟨-, -, hmem⟩
      rw [h.2] at hmem
      obtain ⟨m', hm', hid⟩ := List.mem_map.mp hmem
      exact (List.pairwise_cons.mp h.1.apart).1 g hg m' hm' m hm hid
  | finish reason =>
    simp only [Stage.turn]
    split
    · trivial
    · cases origin <;> trivial

end batches

end BackboneEvents.LeadGeneration
