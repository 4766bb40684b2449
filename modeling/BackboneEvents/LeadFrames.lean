import BackboneEvents.LeadGenerationService

/-!
# What no step of the lead queue changes

Verbs, rule verbs and agents only ever add rules, predicates, provenances and junctions.
A stored registration keeps its event, its order and its creation instant, so it keeps its
group; a stored rule keeps its predicates.
-/
namespace BackboneEvents.LeadGeneration
open ConstrainedTables TransactionPrograms

/-- The columns of a registration that decide its group and its predicates. -/
structure SameTicket (r r' : Registration) : Prop where
  id : r'.id = r.id
  eventId : r'.eventId = r.eventId
  saleOrderId : r'.saleOrderId = r.saleOrderId
  orgUnitId : r'.orgUnitId = r.orgUnitId
  createdAt : r'.createdAt = r.createdAt

theorem SameTicket.refl (r : Registration) : SameTicket r r := ⟨rfl, rfl, rfl, rfl, rfl⟩

theorem SameTicket.trans {r r' r'' : Registration} (h : SameTicket r r') (h' : SameTicket r' r'') :
    SameTicket r r'' :=
  ⟨h'.id.trans h.id, h'.eventId.trans h.eventId, h'.saleOrderId.trans h.saleOrderId,
    h'.orgUnitId.trans h.orgUnitId, h'.createdAt.trans h.createdAt⟩

def Db.hasRule (s : Db) (ruleId : Uuid) : Prop := ∃ lr ∈ s.leadRules.rows, lr.id = ruleId

/-- The provenance is stored, whatever its lead. -/
def Db.hasProvenance (s : Db) (p : LeadProvenance) : Prop :=
  ∃ leadId, { p with leadId := leadId } ∈ s.leadProvenances.rows

structure Kept (s t : Db) : Prop where
  events : t.events = s.events
  answers : t.registrationAnswers = s.registrationAnswers
  orgAxis : t.orgAxis = s.orgAxis
  registrations : ∀ r ∈ s.registrations.rows, ∃ r' ∈ t.registrations.rows, SameTicket r r'
  rules : ∀ ruleId, Db.hasRule s ruleId → Db.hasRule t ruleId
  predicates : ∀ ruleId, Db.hasRule s ruleId → predicatesOfRule ruleId t = predicatesOfRule ruleId s
  provenances : ∀ p, Db.hasProvenance s p → Db.hasProvenance t p
  junctions : ∀ j ∈ s.leadProvenanceRegistrations.rows, j ∈ t.leadProvenanceRegistrations.rows

theorem Kept.refl (s : Db) : Kept s s :=
  ⟨rfl, rfl, rfl, fun r hr => ⟨r, hr, .refl r⟩, fun _ h => h, fun _ _ => rfl, fun _ h => h,
    fun _ h => h⟩

theorem Kept.trans {s t u : Db} (h : Kept s t) (h' : Kept t u) : Kept s u where
  events := h'.events.trans h.events
  answers := h'.answers.trans h.answers
  orgAxis := h'.orgAxis.trans h.orgAxis
  registrations r hr := by
    obtain ⟨r', hr', hsame⟩ := h.registrations r hr
    obtain ⟨r'', hr'', hsame'⟩ := h'.registrations r' hr'
    exact ⟨r'', hr'', hsame.trans hsame'⟩
  rules ruleId hrule := h'.rules ruleId (h.rules ruleId hrule)
  predicates ruleId hrule :=
    (h'.predicates ruleId (h.rules ruleId hrule)).trans (h.predicates ruleId hrule)
  provenances p hp := h'.provenances p (h.provenances p hp)
  junctions j hj := h'.junctions j (h.junctions j hj)

/-- A step that writes none of the lead tables but the queue keeps them all. -/
theorem Kept.of_eq {s t : Db} (events : t.events = s.events)
    (answers : t.registrationAnswers = s.registrationAnswers) (orgAxis : t.orgAxis = s.orgAxis)
    (registrations : ∀ r ∈ s.registrations.rows, ∃ r' ∈ t.registrations.rows, SameTicket r r')
    (rules : t.leadRules = s.leadRules) (predicates : t.leadPredicates = s.leadPredicates)
    (provenances : t.leadProvenances = s.leadProvenances)
    (junctions : t.leadProvenanceRegistrations = s.leadProvenanceRegistrations) : Kept s t where
  events := events
  answers := answers
  orgAxis := orgAxis
  registrations := registrations
  rules ruleId h := by rwa [Db.hasRule, rules]
  predicates ruleId _ := by rw [predicatesOfRule, predicatesOfRule, predicates]
  provenances p h := by rwa [Db.hasProvenance, provenances]
  junctions j hj := by rwa [junctions]

theorem Kept.same_registrations {s t : Db} (h : t.registrations = s.registrations) :
    ∀ r ∈ s.registrations.rows, ∃ r' ∈ t.registrations.rows, SameTicket r r' :=
  fun r hr => ⟨r, by rwa [h], .refl r⟩

theorem provenanced_iff {s : Db} {ruleId registrationId : Uuid} :
    s.provenanced ruleId registrationId = true ↔ ∃ j ∈ s.leadProvenanceRegistrations.rows,
      j.registrationId = registrationId ∧
        ∃ p ∈ s.leadProvenances.rows, p.id = j.provenanceId ∧ p.ruleId = ruleId := by
  simp [Db.provenanced]

/-- A junction is for good. -/
theorem Kept.provenanced {s t : Db} (h : Kept s t) {ruleId registrationId : Uuid}
    (hp : s.provenanced ruleId registrationId = true) :
    t.provenanced ruleId registrationId = true := by
  obtain ⟨j, hj, hregistration, p, hp, hid, hrule⟩ := provenanced_iff.mp hp
  obtain ⟨leadId, hp'⟩ := h.provenances p ⟨p.leadId, hp⟩
  exact provenanced_iff.mpr ⟨j, h.junctions j hj, hregistration, _, hp', hid, hrule⟩

section verbs

/-- The tables that no verb of a registration or an order writes. -/
theorem effect_lead {c : Call} {s t : Db} (h : c.Effect s t) :
    t.registrationAnswers = s.registrationAnswers ∧ t.orgAxis = s.orgAxis ∧
      t.leadRules = s.leadRules ∧ t.leadPredicates = s.leadPredicates ∧
      t.leadProvenances = s.leadProvenances ∧
      t.leadProvenanceRegistrations = s.leadProvenanceRegistrations := by
  cases h with
  | minted verb fresh unlinked mint =>
    exact ⟨mint.keeps Db.registrationAnswers fun _ _ _ => rfl, mint.keeps Db.orgAxis fun _ _ _ => rfl,
      mint.keeps Db.leadRules fun _ _ _ => rfl, mint.keeps Db.leadPredicates fun _ _ _ => rfl,
      mint.keeps Db.leadProvenances fun _ _ _ => rfl,
      mint.keeps Db.leadProvenanceRegistrations fun _ _ _ => rfl⟩
  | refused | replayed | registered | transitioned | freeHealed | heldBack | cancelled | paid =>
    exact ⟨rfl, rfl, rfl, rfl, rfl, rfl⟩

theorem rowStep_same {c : Call} {r r' : Registration} (h : c.RowStep r r') : SameTicket r r' := by
  cases h with
  | same | moved | freeHealed | held | orderCancelled | paidHealed | sold =>
    exact ⟨rfl, rfl, rfl, rfl, rfl⟩

theorem effect_kept {c : Call} {s t : Db} (h : c.Effect s t) : Kept s t := by
  obtain ⟨hanswers, haxis, hrules, hpredicates, hprovenances, hjunctions⟩ := effect_lead h
  obtain ⟨image, born, hrows, hsteps, -⟩ := h.rows
  refine .of_eq h.events hanswers haxis (fun r hr => ?_) hrules hpredicates hprovenances hjunctions
  refine ⟨image r, ?_, rowStep_same (hsteps r hr)⟩
  rw [hrows]
  exact List.mem_append_left _ (List.mem_map_of_mem hr)

theorem audited_kept (s : Db) (rows : List AuditRow) : Kept s (s.audited rows) :=
  .of_eq rfl rfl rfl (Kept.same_registrations rfl) rfl rfl rfl rfl

theorem next_kept (c : Call) (s : Db) : Kept s (s.next c) := by
  obtain ⟨t, rows, heffect, happly⟩ := c.apply_effect s
  rw [Db.next, happly]
  exact (effect_kept heffect).trans (audited_kept t rows)

end verbs

section rules

/-- What a new rule leaves. -/
structure RuleCreated (env : RuleEnv) (cmd : CreateRule) (s t : Db) : Prop where
  fresh : s.leadRules.accepts ⟨env.ruleId, cmd.name, cmd.eventId, cmd.basis, cmd.onCreate,
    cmd.onConfirm, cmd.onDone, true⟩ = true
  events : t.events = s.events
  answers : t.registrationAnswers = s.registrationAnswers
  orgAxis : t.orgAxis = s.orgAxis
  registrations : t.registrations = s.registrations
  rules : t.leadRules = s.leadRules.push ⟨env.ruleId, cmd.name, cmd.eventId, cmd.basis,
    cmd.onCreate, cmd.onConfirm, cmd.onDone, true⟩
  predicates : ∃ added, t.leadPredicates.rows = s.leadPredicates.rows ++ added ∧
    ∀ p ∈ added, p.ruleId = env.ruleId
  requests : t.leadRequests = armRequests env.requestId (s.scope cmd.eventId) s.leadRequests
  provenances : t.leadProvenances = s.leadProvenances
  junctions : t.leadProvenanceRegistrations = s.leadProvenanceRegistrations

theorem run_insertRule (lr : LeadRule) (s : Db) : (insertRule lr).run s =
    if lr.storable s && s.leadRules.accepts lr then
      .ok ((), { s with leadRules := s.leadRules.push lr })
    else .error (.database "lead_rules: constraint violated") := by
  simp only [insertRule, Program.run_statement]
  split <;> rfl

theorem run_insertPredicate (p : LeadPredicate) (s : Db) : (insertPredicate p).run s =
    if p.wellShaped && s.leadPredicates.accepts p then
      .ok ((), { s with leadPredicates := s.leadPredicates.push p })
    else .error (.database "lead_rule_predicates: constraint violated") := by
  simp only [insertPredicate, Program.run_statement]
  split <;> rfl

theorem run_insertPredicates_ok {env : RuleEnv} {ruleId : Uuid} {ps : List PredicateInput} {k : ℕ}
    {s t : Db} (h : (insertPredicates env ruleId k ps).run s = .ok ((), t)) :
    ∃ table, t = { s with leadPredicates := table } ∧ ∃ added,
      table.rows = s.leadPredicates.rows ++ added ∧ (∀ p ∈ added, p.ruleId = ruleId) ∧
        added.map LeadPredicate.input = ps := by
  induction ps generalizing k s with
  | nil =>
    obtain ⟨-, rfl⟩ := Prod.mk.inj (Except.ok.inj h)
    exact ⟨s.leadPredicates, rfl, [], by simp⟩
  | cons p ps ih =>
    obtain ⟨_, s', hinsert, hrest⟩ := Program.run_bind_ok h
    rw [run_insertPredicate] at hinsert
    split at hinsert
    · next haccepts =>
      obtain ⟨-, rfl⟩ := Prod.mk.inj (Except.ok.inj hinsert)
      obtain ⟨table, rfl, added, hrows, hrule, hinputs⟩ := ih hrest
      simp only [Bool.and_eq_true] at haccepts
      refine ⟨table, rfl,
        ⟨env.predicateId k, ruleId, p.axis, p.questionId, p.valueIds⟩ :: added, ?_, ?_,
        by rw [List.map_cons, hinputs]; rfl⟩
      · rw [hrows, Table.rows_push haccepts.2, List.append_assoc]
        rfl
      · intro q hq
        rcases List.mem_cons.mp hq with rfl | hq
        · rfl
        · exact hrule q hq
    · cases hinsert

theorem run_createRule_ok {env : RuleEnv} {cmd : CreateRule} {s t : Db} {row : LeadRule}
    (h : (createRule env cmd).run s = .ok (row, t)) : RuleCreated env cmd s t := by
  obtain ⟨_, s₁, hrule, h⟩ := Program.run_bind_ok h
  rw [run_insertRule] at hrule
  split at hrule
  · next hstored =>
    obtain ⟨-, rfl⟩ := Prod.mk.inj (Except.ok.inj hrule)
    obtain ⟨_, s₂, hpredicates, h⟩ := Program.run_bind_ok h
    obtain ⟨table, rfl, added, hrows, hadded, -⟩ := run_insertPredicates_ok hpredicates
    obtain ⟨_, s₃, harm, h⟩ := Program.run_bind_ok h
    rw [Program.run_update] at harm
    obtain ⟨-, rfl⟩ := Prod.mk.inj (Except.ok.inj harm)
    obtain ⟨-, rfl⟩ := Prod.mk.inj (Except.ok.inj h)
    simp only [Bool.and_eq_true] at hstored
    exact ⟨hstored.2, rfl, rfl, rfl, rfl, rfl, ⟨added, hrows, hadded⟩, rfl, rfl, rfl⟩
  · cases hrule

theorem created_kept {env : RuleEnv} {cmd : CreateRule} {s t : Db} (h : RuleCreated env cmd s t) :
    Kept s t where
  events := h.events
  answers := h.answers
  orgAxis := h.orgAxis
  registrations := Kept.same_registrations h.registrations
  rules ruleId hrule := by
    obtain ⟨lr, hlr, hid⟩ := hrule
    exact ⟨lr, by rw [h.rules]; exact Table.mem_push hlr, hid⟩
  predicates ruleId hrule := by
    obtain ⟨lr, hlr, rfl⟩ := hrule
    obtain ⟨added, hrows, hadded⟩ := h.predicates
    have hne : env.ruleId ≠ lr.id := fun hid => by
      have hclash := Table.accepts_iff.mp h.fresh lr hlr
      simp [clash, hid] at hclash
    have hnone : added.filter (·.ruleId == lr.id) = [] := List.filter_eq_nil_iff.mpr fun p hp => by
      simpa [hadded p hp] using hne
    rw [predicatesOfRule, hrows, List.filter_append, hnone, List.append_nil, predicatesOfRule]
  provenances p hp := by rwa [Db.hasProvenance, h.provenances]
  junctions j hj := by rwa [h.junctions]

/-- A new rule is stored whole, with further audit rows, or nothing is. -/
theorem withRule_cases (env : RuleEnv) (cmd : CreateRule) (s : Db) :
    (∃ rows, Db.withRule env cmd s = s.audited rows) ∨
      ∃ t rows, RuleCreated env cmd s t ∧ Db.withRule env cmd s = t.audited rows := by
  cases h : (createRule env cmd).run s with
  | error e =>
    exact .inl ⟨_, by simp only [Db.withRule, Program.execute, h, foldl_absorb]; rfl⟩
  | ok r =>
    exact .inr ⟨r.2, _, run_createRule_ok h,
      by simp only [Db.withRule, Program.execute, h, foldl_absorb]; rfl⟩

theorem withRule_kept (env : RuleEnv) (cmd : CreateRule) (s : Db) :
    Kept s (Db.withRule env cmd s) := by
  rcases withRule_cases env cmd s with ⟨rows, heq⟩ | ⟨t, rows, hcreated, heq⟩
  · rw [heq]
    exact audited_kept s rows
  · rw [heq]
    exact (created_kept hcreated).trans (audited_kept t rows)

end rules

section agents

theorem upsertProvenance_ok {provenanceId ruleId eventId id : Uuid} {groupKey : String}
    {grouping : LeadGrouping} {lead : Option Uuid} {s t : Db}
    (h : upsertProvenance provenanceId ruleId eventId groupKey grouping s = .ok ((id, lead), t)) :
    (t = s ∧ ∃ p ∈ s.leadProvenances.rows,
      p.id = id ∧ p.leadId = lead ∧ p.ruleId = ruleId ∧ p.groupKey = groupKey) ∨
    (id = provenanceId ∧ lead = none ∧
      s.leadProvenances.accepts ⟨provenanceId, ruleId, eventId, none, groupKey, grouping⟩ = true ∧
      t = { s with leadProvenances :=
        s.leadProvenances.push ⟨provenanceId, ruleId, eventId, none, groupKey, grouping⟩ }) := by
  simp only [upsertProvenance] at h
  split at h
  · next p hfound =>
    obtain ⟨hanswer, rfl⟩ := Prod.mk.inj (Except.ok.inj h)
    obtain ⟨rfl, rfl⟩ := Prod.mk.inj hanswer
    have hp := Table.find_spec hfound
    simp only [Bool.and_eq_true, beq_iff_eq] at hp
    exact .inl ⟨rfl, p, Table.find_mem hfound, rfl, rfl, hp.1, hp.2⟩
  · split at h
    · next haccepts =>
      obtain ⟨hanswer, rfl⟩ := Prod.mk.inj (Except.ok.inj h)
      obtain ⟨rfl, rfl⟩ := Prod.mk.inj hanswer
      exact .inr ⟨rfl, rfl, haccepts, rfl⟩
    · cases h

/-- Every listed registration ends up junctioned, and only new junctions of the list come in. -/
theorem addJunctions_some {junctionId : Uuid → Uuid} {provenanceId : Uuid} {ids : List Uuid}
    {t t' : Table LeadProvenanceRegistration} {n : ℕ}
    (h : addJunctions junctionId provenanceId ids t = some (n, t')) :
    (∃ added, t'.rows = t.rows ++ added ∧
      ∀ j ∈ added, j.provenanceId = provenanceId ∧ j.registrationId ∈ ids) ∧
    ∀ r ∈ ids, ∃ j ∈ t'.rows, j.provenanceId = provenanceId ∧ j.registrationId = r := by
  induction ids generalizing t n with
  | nil =>
    obtain ⟨-, rfl⟩ := Prod.mk.inj (Option.some.inj h)
    exact ⟨⟨[], by simp⟩, by simp⟩
  | cons r rs ih =>
    simp only [addJunctions] at h
    split at h
    · next hstored =>
      obtain ⟨⟨added, hrows, hadded⟩, hall⟩ := ih h
      refine ⟨⟨added, hrows, fun j hj => ?_⟩, fun x hx => ?_⟩
      · exact ⟨(hadded j hj).1, List.mem_cons_of_mem _ (hadded j hj).2⟩
      · rcases List.mem_cons.mp hx with rfl | hx
        · obtain ⟨j, hj, hpair⟩ := List.any_eq_true.mp hstored
          simp only [Bool.and_eq_true, beq_iff_eq] at hpair
          exact ⟨j, by rw [hrows]; exact List.mem_append_left _ hj, hpair⟩
        · exact hall x hx
    · split at h
      · next haccepts =>
        obtain ⟨⟨m, u⟩, hrest, heq⟩ := Option.map_eq_some_iff.mp h
        obtain ⟨-, rfl⟩ := Prod.mk.inj heq
        obtain ⟨⟨added, hrows, hadded⟩, hall⟩ := ih hrest
        rw [Table.rows_push haccepts, List.append_assoc] at hrows
        refine ⟨⟨⟨junctionId r, provenanceId, r⟩ :: added, hrows, fun j hj => ?_⟩, fun x hx => ?_⟩
        · rcases List.mem_cons.mp hj with rfl | hj
          · exact ⟨rfl, List.mem_cons_self⟩
          · exact ⟨(hadded j hj).1, List.mem_cons_of_mem _ (hadded j hj).2⟩
        · rcases List.mem_cons.mp hx with rfl | hx
          · exact ⟨⟨junctionId x, provenanceId, x⟩, by rw [hrows]; simp, rfl, rfl⟩
          · exact hall x hx
      · cases h

theorem junctionAdd_ok {junctionId : Uuid → Uuid} {provenanceId : Uuid} {ids : List Uuid} {n : ℕ}
    {s t : Db} (h : junctionAdd junctionId provenanceId ids s = .ok (n, t)) :
    ∃ table, t = { s with leadProvenanceRegistrations := table } ∧
      addJunctions junctionId provenanceId ids s.leadProvenanceRegistrations = some (n, table) := by
  simp only [junctionAdd] at h
  split at h
  · cases h
  · next added table hadd =>
    obtain ⟨rfl, rfl⟩ := Prod.mk.inj (Except.ok.inj h)
    exact ⟨table, rfl, hadd⟩

theorem updateRule_ok {patch : PatchRule} {row : LeadRule} {s t : Db}
    (h : updateRule patch s = .ok (row, t)) :
    t = { s with leadRules := s.leadRules.modify (·.id == patch.ruleId) (LeadRule.patched patch) } ∧
      ∃ lr ∈ s.leadRules.rows, lr.id = patch.ruleId ∧ row = LeadRule.patched patch lr := by
  simp only [updateRule] at h
  split at h
  · cases h
  · next lr hfound =>
    split at h
    · obtain ⟨rfl, rfl⟩ := Prod.mk.inj (Except.ok.inj h)
      exact ⟨rfl, lr, Table.find_mem hfound, by simpa using Table.find_spec hfound, rfl⟩
    · cases h

theorem claimNextDueRequest_cases (exclude : List Uuid) (now : Timestamp) (locked : Uuid → Bool)
    (s : Db) : claimNextDueRequest exclude now locked s = (none, s) ∨
      ∃ q ∈ s.leadRequests.rows, q.due now exclude = true ∧
        claimNextDueRequest exclude now locked s =
          (some (LeadRequest.leased now q), s.lease now q.eventId) := by
  simp only [claimNextDueRequest]
  split
  · exact .inl rfl
  · next q hq =>
    have hmem := (List.mem_insertionSort _).mp (List.mem_of_head? hq)
    obtain ⟨hrow, hdue⟩ := List.mem_filter.mp hmem
    simp only [Bool.and_eq_true] at hdue
    exact .inr ⟨q, hrow, hdue.1, rfl⟩

theorem tryLeaseRequestOfEvent_cases (eventId : Uuid) (now : Timestamp) (s : Db) :
    ((∀ q ∈ s.leadRequests.rows, q.eventId = eventId → q.leasable now = false) ∧
      tryLeaseRequestOfEvent eventId now s = (none, s)) ∨
    ∃ q ∈ s.leadRequests.rows, q.eventId = eventId ∧ q.leasable now = true ∧
      tryLeaseRequestOfEvent eventId now s =
        (some (LeadRequest.leased now q), s.lease now eventId) := by
  simp only [tryLeaseRequestOfEvent]
  split
  · next hnone =>
    refine .inl ⟨fun q hq hevent => ?_, rfl⟩
    have hq' := List.find?_eq_none.mp hnone q hq
    simpa [hevent] using hq'
  · next q hq =>
    have hspec := Table.find_spec hq
    simp only [Bool.and_eq_true, beq_iff_eq] at hspec
    exact .inr ⟨q, Table.find_mem hq, hspec.1, hspec.2, rfl⟩

/-- What one step of an agent can do to the database. -/
inductive AgentEffect (s : Db) : Db → Prop
  | same : AgentEffect s s
  | leased (now : Timestamp) (eventId : Uuid) : AgentEffect s (s.lease now eventId)
  | finished (eventId : Uuid) (error : Option String) : AgentEffect s { s with
      leadRequests := s.leadRequests.modify (·.eventId == eventId) (LeadRequest.finished error) }
  | upserted {provenanceId ruleId eventId : Uuid} {groupKey : String} {grouping : LeadGrouping}
      {answer : Uuid × Option Uuid} {t : Db}
      (h : upsertProvenance provenanceId ruleId eventId groupKey grouping s = .ok (answer, t)) :
      AgentEffect s t
  | linked (provenanceId leadId : Uuid) : AgentEffect s (setProvenanceLead provenanceId leadId s)
  | joined {junctionId : Uuid → Uuid} {provenanceId : Uuid} {ids : List Uuid} {n : ℕ} {t : Db}
      (h : junctionAdd junctionId provenanceId ids s = .ok (n, t)) : AgentEffect s t
  | ruleUpdated {patch : PatchRule} {row : LeadRule} {t : Db}
      (h : updateRule patch s = .ok (row, t)) : AgentEffect s t
  | armed (requestId : Uuid → Uuid) (eventId : Option Uuid) :
      AgentEffect s (s.armScope requestId eventId)
  | audited (row : AuditRow) : AgentEffect s (s.absorb row)

variable {s t : Db} {tick : Tick}

theorem stage_effect (caps : Caps) (origin : Origin) (eventId : Uuid) (summary : LeadRunSummary)
    (stage : Stage) : AgentEffect s (stage.turn caps origin eventId tick summary s).db := by
  cases stage with
  | readRules | readPredicates => exact .same
  | readEligible => simp only [Stage.turn]; split <;> exact .same
  | upsert k =>
    simp only [Stage.turn]
    split
    · exact .same
    · next h => exact .upserted h
  | members k provenanceId lead =>
    simp only [Stage.turn]
    split
    · split <;> exact .same
    · exact .same
  | create => simp only [Stage.turn]; split <;> exact .same
  | setLead => exact .linked _ _
  | update => simp only [Stage.turn]; split <;> exact .same
  | junction =>
    simp only [Stage.turn]
    split
    · exact .same
    · next h => exact .joined h
  | finish reason =>
    simp only [Stage.turn, finishRequestByEvent]
    split
    · exact .same
    · next h =>
      split at h
      · obtain rfl := Except.ok.inj h
        exact .finished _ _
      · cases h

theorem point_effect (caps : Caps) (summary : LeadRunSummary) (point : Point) :
    AgentEffect s (point.turn caps tick summary s).db := by
  cases point with
  | claim parked =>
    simp only [Point.turn]
    split
    · exact .same
    · rcases claimNextDueRequest_cases parked tick.now tick.locked s with h | ⟨q, -, -, h⟩
      · rw [h]
        exact .same
      · rw [h]
        exact .leased _ _
  | lease eventId =>
    simp only [Point.turn]
    rcases tryLeaseRequestOfEvent_cases eventId tick.now s with ⟨-, h⟩ | ⟨q, -, -, -, h⟩
    · rw [h]
      exact .same
    · rw [h]
      exact .leased _ _
  | refuse => exact .same
  | walk origin eventId stage => exact stage_effect caps origin eventId summary stage

theorem agent_effect (a : Agent) : AgentEffect s (a.turn tick s).db := by
  cases a with
  | idle | returned | patched => exact .same
  | running caps point summary => exact point_effect caps summary point
  | patching env patch stage =>
    cases stage with
    | update =>
      simp only [Agent.turn, Patching.turn]
      split
      · exact .same
      · next h => exact .ruleUpdated h
    | arm row => exact .armed _ _
    | audit row => exact .audited _

theorem AgentEffect.kept (h : AgentEffect s t) : Kept s t := by
  have hqueue : ∀ q, Kept s { s with leadRequests := q } := fun q =>
    .of_eq rfl rfl rfl (Kept.same_registrations rfl) rfl rfl rfl rfl
  cases h with
  | same => exact .refl s
  | leased | finished | armed => exact hqueue _
  | audited row => exact audited_kept s [row]
  | upserted h =>
    rcases upsertProvenance_ok h with ⟨rfl, -⟩ | ⟨-, -, haccepts, rfl⟩
    · exact .refl _
    · refine ⟨rfl, rfl, rfl, Kept.same_registrations rfl, fun _ h => h, fun _ _ => rfl, ?_,
        fun _ h => h⟩
      rintro p ⟨leadId, hp⟩
      exact ⟨leadId, Table.mem_push hp⟩
  | linked provenanceId leadId =>
    refine ⟨rfl, rfl, rfl, Kept.same_registrations rfl, fun _ h => h, fun _ _ => rfl, ?_,
      fun _ h => h⟩
    rintro p ⟨old, hp⟩
    by_cases hid : p.id = provenanceId
    · exact ⟨some leadId, Table.mem_modify.mpr ⟨_, hp, by simp [hid, LeadProvenance.linked]⟩⟩
    · exact ⟨old, Table.mem_modify.mpr ⟨_, hp, by simp [hid]⟩⟩
  | joined h =>
    obtain ⟨table, rfl, hadd⟩ := junctionAdd_ok h
    obtain ⟨⟨added, hrows, -⟩, -⟩ := addJunctions_some hadd
    refine ⟨rfl, rfl, rfl, Kept.same_registrations rfl, fun _ h => h, fun _ _ => rfl,
      fun _ h => h, fun j hj => ?_⟩
    rw [hrows]
    exact List.mem_append_left _ hj
  | ruleUpdated h =>
    obtain ⟨rfl, -⟩ := updateRule_ok h
    refine ⟨rfl, rfl, rfl, Kept.same_registrations rfl, ?_, fun _ _ => rfl, fun _ h => h,
      fun _ h => h⟩
    rintro ruleId ⟨lr, hlr, hid⟩
    refine ⟨_, Table.mem_modify.mpr ⟨lr, hlr, rfl⟩, ?_⟩
    split <;> exact hid

end agents

section world

variable {ι : Type} [DecidableEq ι]

theorem world_kept (w : World ι) (a : Act ι) : Kept w.db (w.next a).db := by
  cases a with
  | verb c => exact next_kept c w.db
  | createRule env cmd => exact withRule_kept env cmd w.db
  | turn i tick => exact (agent_effect (w.agents i)).kept
  | patchRule | runDueLeadRequests | runRequestOfEvent =>
    simp only [World.next, World.enter]
    split <;> exact .refl _
  | crash i => exact .refl _

end world

end BackboneEvents.LeadGeneration
