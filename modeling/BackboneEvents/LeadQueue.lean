import Mathlib.Data.Fintype.Basic
import BackboneEvents.GuardedRuns
import BackboneEvents.LeadArms
import BackboneEvents.LeadWalks

/-!
# Arms of the lead queue and the walks that meet them

A pair of a registration and a rule is owed a junction from the moment a verb makes the
registration eligible for the rule and arms the event. An arm on a row that waits writes
nothing, and a walk that met no refusal marks the row done whatever came in meanwhile. So
nothing is lost exactly as long as every walk under way still has the new pair ahead of it.
-/
namespace BackboneEvents.LeadGeneration
open ConstrainedTables GuardedRuns

structure Debt where
  eventId : Uuid
  registrationId : Uuid
  ruleId : Uuid
  deriving DecidableEq, Repr

/-- The registration of the event is eligible for the rule, which is active and in scope. -/
def owes (s : Db) (d : Debt) : Bool :=
  s.leadRules.rows.any (fun lr => lr.id == d.ruleId && lr.inScope d.eventId) &&
    s.registrations.rows.any (fun r => r.id == d.registrationId &&
      s.qualifies d.eventId (predicatesOfRule d.ruleId s) r)

def debts (s : Db) : List Debt :=
  (s.registrations.rows.flatMap (fun r => s.leadRules.rows.map (fun lr =>
    ⟨r.eventId, r.id, lr.id⟩))).filter (owes s)

/-- The pairs a step makes eligible. -/
def incurred (s t : Db) : List Debt := (debts t).filter (fun d => !owes s d)

/-- The world with what its arms have promised. `raised` holds the pairs a patch has made
eligible until its arm. -/
structure Watched (ι : Type) where
  world : World ι
  owed : List Debt
  raised : ι → List Debt

section watched

variable {ι : Type} [DecidableEq ι]

def Watched.start (s : Db) : Watched ι := ⟨.start s, [], fun _ => []⟩

/-- The pairs made eligible whose verb reaches the arm of their event in this step. -/
def Watched.newlyOwed (o : Watched ι) (a : Act ι) : List Debt :=
  let s := o.world.db
  let t := (o.world.next a).db
  match a with
  | .verb c => (incurred s t).filter (fun d => (Db.armsOf s c).contains d.eventId)
  | .createRule _ cmd => (incurred s t).filter (fun d => (s.scope cmd.eventId).contains d.eventId)
  | .turn i _ =>
    match o.world.agents i with
    | .patching _ _ (.arm row) =>
      (o.raised i).filter (fun d => (s.scope row.eventId).contains d.eventId)
    | .patching _ _ _ | .running _ _ _ | .idle | .returned _ | .patched _ => []
  | .patchRule _ _ _ | .runDueLeadRequests _ _ | .runRequestOfEvent _ _ _ | .crash _ => []

def Watched.newlyRaised (o : Watched ι) (a : Act ι) (j : ι) : List Debt :=
  match a with
  | .turn i _ =>
    if j = i then
      match o.world.agents i with
      | .patching _ _ .update => incurred o.world.db (o.world.next a).db
      | .patching _ _ _ | .running _ _ _ | .idle | .returned _ | .patched _ => []
    else o.raised j
  | .verb _ | .createRule _ _ | .patchRule _ _ _ | .runDueLeadRequests _ _
  | .runRequestOfEvent _ _ _ | .crash _ => o.raised j

/-- A pair that stops being eligible is owed no more. -/
def Watched.next (o : Watched ι) (a : Act ι) : Watched ι where
  world := o.world.next a
  owed := (o.owed ++ o.newlyOwed a).filter (owes (o.world.next a).db)
  raised j := (o.newlyRaised a j).filter (owes (o.world.next a).db)

end watched

/-- The batch, or a later read of the walk, still has the pair to meet. -/
def Batch.ahead (d : Debt) (k : Batch) : Bool :=
  k.rest.any (·.id == d.ruleId) || (k.rule.id == d.ruleId &&
    (k.full || (k.group :: k.later).any (fun g => g.members.any (·.id == d.registrationId))))

/-- The walk cannot finish without a refusal before it meets the pair. -/
def Stage.ahead (d : Debt) : Stage → Bool
  | .readRules => true
  | .readPredicates rule rest | .readEligible rule _ rest => (rule :: rest).any (·.id == d.ruleId)
  | .upsert k | .members k _ _ | .create k _ _ _ | .setLead k _ _ _ | .update k _ _ _ _
  | .junction k _ _ _ => k.ahead d
  | .finish reason => reason.isSome

/-- No walk of the pair's event, or a walk that has the pair ahead of it. -/
def Agent.ahead (d : Debt) : Agent → Bool
  | .running _ (.walk _ e stage) _ => e != d.eventId || stage.ahead d
  | .running _ (.claim _) _ | .running _ (.lease _) _ | .running _ (.refuse _) _ => true
  | .idle | .returned _ | .patching _ _ _ | .patched _ => true

section statements

variable {ι : Type} [DecidableEq ι]

/-- Where an event's row is done and no walk of it is under way, every owed pair has its
junction. -/
def Watched.KeepsArms (o : Watched ι) : Prop :=
  ∀ d ∈ o.owed, (∃ q ∈ o.world.db.leadRequests.rows, q.eventId = d.eventId ∧ q.done = true) →
    (∀ i, (o.world.agents i).walks d.eventId = false) →
      o.world.db.provenanced d.ruleId d.registrationId = true

/-- Every pair this step comes to owe is junctioned, or ahead of every walk of its event. -/
def Watched.Timely (o : Watched ι) (a : Act ι) : Prop :=
  ∀ d ∈ o.newlyOwed a, o.world.db.provenanced d.ruleId d.registrationId = true ∨
    ∀ i, (o.world.agents i).ahead d = true

end statements

section walk

variable {s : Db} {d : Debt} {eventId : Uuid} {tick : Tick} {caps : Caps} {origin : Origin}
  {summary : LeadRunSummary}

theorem owes_iff : owes s d = true ↔
    (∃ lr ∈ s.leadRules.rows, lr.id = d.ruleId ∧ lr.inScope d.eventId = true) ∧
    ∃ r ∈ s.registrations.rows, r.id = d.registrationId ∧
      s.qualifies d.eventId (predicatesOfRule d.ruleId s) r = true := by
  simp [owes]

theorem ahead_ofRules (rules : List LeadRule) :
    (Stage.ofRules rules).ahead d = rules.any (·.id == d.ruleId) := by
  cases rules <;> rfl

theorem ahead_ofGroups (rule : LeadRule) (predicates : List LeadPredicate) (rest : List LeadRule)
    (full : Bool) (groups : List MemberGroup) :
    (Stage.ofGroups rule predicates rest full groups).ahead d =
      (rest.any (·.id == d.ruleId) || (rule.id == d.ruleId &&
        (full || groups.any (fun g => g.members.any (·.id == d.registrationId))))) := by
  cases groups with
  | nil =>
    cases full with
    | true => simp [Stage.ofGroups, Stage.ahead, Bool.or_comm]
    | false => simp [Stage.ofGroups, ahead_ofRules]
  | cons g later => rfl

/-- Past the group under way, the pair is still ahead unless it is one of that group. -/
theorem ahead_next {k : Batch} (h : k.ahead d = true) :
    k.next.ahead d = true ∨
      (k.rule.id = d.ruleId ∧ ∃ m ∈ k.group.members, m.id = d.registrationId) := by
  rw [Batch.next, ahead_ofGroups]
  simp only [Batch.ahead, List.any_cons, Bool.or_eq_true, Bool.and_eq_true, beq_iff_eq] at h ⊢
  rcases h with h | ⟨hrule, hfull | hmember | hlater⟩
  · exact .inl (.inl h)
  · exact .inl (.inr ⟨hrule, .inl hfull⟩)
  · simp only [List.any_eq_true, beq_iff_eq] at hmember
    exact .inr ⟨hrule, hmember⟩
  · exact .inl (.inr ⟨hrule, .inr hlater⟩)

/-- The read of a rule's rows takes the pair into its batch, or a full batch asks for more. -/
theorem ahead_readEligible {rule : LeadRule} {rest : List LeadRule}
    {eligible : List EligibleRegistration} {batch : ℕ} (howes : owes s d = true)
    (hread : eligibleRegistrations d.eventId rule.id (predicatesOfRule rule.id s) batch s =
      .ok eligible) (hahead : (rule :: rest).any (·.id == d.ruleId) = true) :
    s.provenanced d.ruleId d.registrationId = true ∨
    (Stage.ofGroups rule (predicatesOfRule rule.id s) rest (decide (batch ≤ eligible.length))
      (groupsOf d.eventId eligible)).ahead d = true := by
  rw [ahead_ofGroups]
  simp only [List.any_cons, Bool.or_eq_true, Bool.and_eq_true, beq_iff_eq, decide_eq_true_eq]
    at hahead ⊢
  rcases hahead with hrule | hrest
  · by_cases hfull : batch ≤ eligible.length
    · exact .inr (.inr ⟨hrule, .inl hfull⟩)
    · obtain ⟨-, r, hr, hid, hq⟩ := owes_iff.mp howes
      cases hp : s.provenanced rule.id r.id with
      | true => exact .inl (by rw [← hrule, ← hid]; exact hp)
      | false =>
        rw [← hrule] at hq
        have hmem := eligible_of_short hread (Nat.lt_of_not_le hfull) hr hq hp
        obtain ⟨g, hg, hm⟩ := exists_group d.eventId hmem
        refine .inr (.inr ⟨hrule, .inr (List.any_eq_true.mpr ⟨g, hg, ?_⟩)⟩)
        exact List.any_eq_true.mpr ⟨_, hm, beq_iff_eq.mpr hid⟩
  · exact .inr (.inl hrest)

variable (tick caps origin summary) in
/-- A walk's own step junctions a pair that is ahead of it, or leaves it ahead. -/
theorem stage_ahead {stage : Stage} (hsound : StageSound s d.eventId stage)
    (howes : owes s d = true) (hahead : stage.ahead d = true) :
    (stage.turn caps origin d.eventId tick summary s).db.provenanced d.ruleId d.registrationId = true ∨
      (stage.turn caps origin d.eventId tick summary s).agent.ahead d = true := by
  have hgo : ∀ (stage : Stage) (summary : LeadRunSummary), stage.ahead d = true →
      (Agent.running caps (.walk origin d.eventId stage) summary).ahead d = true :=
    fun stage _ h => by simp [Agent.ahead, h]
  cases stage with
  | readRules =>
    obtain ⟨⟨lr, hlr, hid, hscope⟩, -⟩ := owes_iff.mp howes
    refine .inr (hgo _ _ ?_)
    rw [ahead_ofRules]
    exact List.any_eq_true.mpr ⟨lr, mem_activeRulesOfEvent.mpr ⟨hlr, hscope⟩, beq_iff_eq.mpr hid⟩
  | readPredicates rule rest => exact .inr (hgo _ _ hahead)
  | readEligible rule predicates rest =>
    obtain ⟨-, rfl⟩ := hsound
    simp only [Stage.turn]
    split
    · exact .inr rfl
    · next eligible hread => exact (ahead_readEligible howes hread hahead).imp_right (hgo _ _)
  | upsert k =>
    simp only [Stage.turn]
    split
    · exact .inr rfl
    · exact .inr (hgo _ _ hahead)
  | members k provenanceId lead =>
    simp only [Stage.turn]
    split
    · split
      · next hempty =>
        -- No new ids: whoever of this group is owed was junctioned before.
        have hnew := @stage_sound _ _ tick caps origin summary (.members k provenanceId none) hsound
        rcases ahead_next hahead with h | ⟨hrule, m, hm, hid⟩
        · exact .inr (hgo _ _ h)
        · have hids := hnew.newIds _ rfl
          rw [List.isEmpty_iff.mp hempty] at hids
          rw [← hrule, ← hid]
          exact .inl ((hids.rest m hm).resolve_left List.not_mem_nil)
      · exact .inr (hgo _ _ hahead)
    · exact .inr (hgo _ _ hahead)
  | create =>
    simp only [Stage.turn]
    split
    · exact .inr (hgo _ _ rfl)
    · exact .inr (hgo _ _ hahead)
  | setLead => exact .inr (hgo _ _ hahead)
  | update =>
    simp only [Stage.turn]
    split
    · exact .inr (hgo _ _ rfl)
    · exact .inr (hgo _ _ hahead)
  | junction k provenanceId newIds grown =>
    have hkept : Kept s ((Stage.junction k provenanceId newIds grown).turn caps origin d.eventId tick
      summary s).db := (stage_effect caps origin d.eventId summary _).kept
    simp only [Stage.turn] at hkept ⊢
    split
    · exact .inr rfl
    · next hadd =>
      simp only [hadd] at hkept
      rcases ahead_next hahead with h | ⟨hrule, m, hm, hid⟩
      · exact .inr (hgo _ _ h)
      · left
        rw [← hrule, ← hid]
        rcases (hsound.newIds newIds rfl).rest m hm with hnew | hp
        · obtain ⟨table, rfl, hsome⟩ := junctionAdd_ok hadd
          obtain ⟨j, hj, hprovenance, hregistration⟩ := (addJunctions_some hsome).2 _ hnew
          obtain ⟨p, hp, hpid, hprule, -⟩ := hsound.belongs
          exact provenanced_iff.mpr ⟨j, hj, hregistration, p, hp, hpid.trans hprovenance.symm, hprule⟩
        · exact hkept.provenanced hp
  | finish reason =>
    cases reason with
    | none => cases hahead
    | some reason =>
      simp only [Stage.turn]
      split
      · exact .inr rfl
      · cases origin <;> exact .inr rfl

/-- A walk of another event has nothing to do with the pair. -/
theorem stage_ahead_elsewhere (stage : Stage) (h : eventId ≠ d.eventId) :
    (stage.turn caps origin eventId tick summary s).agent.ahead d = true := by
  have hgo : ∀ (stage : Stage) (summary : LeadRunSummary),
      (Agent.running caps (.walk origin eventId stage) summary).ahead d = true :=
    fun stage _ => by simp [Agent.ahead, h]
  cases stage with
  | readRules | readPredicates | setLead => exact hgo _ _
  | readEligible | upsert | create | update | junction =>
    simp only [Stage.turn]
    split
    · first | rfl | exact hgo _ _
    · exact hgo _ _
  | members =>
    simp only [Stage.turn]
    split
    · split <;> exact hgo _ _
    · exact hgo _ _
  | finish =>
    simp only [Stage.turn]
    split
    · rfl
    · cases origin <;> rfl

variable (tick) in
theorem agent_ahead {a : Agent} (hsound : AgentSound s a) (howes : owes s d = true)
    (hahead : a.ahead d = true) :
    (a.turn tick s).db.provenanced d.ruleId d.registrationId = true ∨
      (a.turn tick s).agent.ahead d = true := by
  cases a with
  | idle | returned | patched => exact .inr rfl
  | patching env patch stage =>
    cases stage with
    | update => simp only [Agent.turn, Patching.turn]; split <;> exact .inr rfl
    | arm | audit => exact .inr rfl
  | running caps point summary =>
    cases point with
    | claim parked =>
      simp only [Agent.turn, Point.turn]
      split
      · exact .inr rfl
      · split
        · exact .inr rfl
        · exact .inr (by simp [Agent.ahead, Stage.ahead])
    | lease eventId =>
      simp only [Agent.turn, Point.turn]
      split
      · exact .inr rfl
      · exact .inr (by simp [Agent.ahead, Stage.ahead])
    | refuse => exact .inr rfl
    | walk origin eventId stage =>
      by_cases hevent : eventId = d.eventId
      · subst hevent
        exact stage_ahead _ _ _ _ hsound howes (by simpa [Agent.ahead] using hahead)
      · exact .inr (stage_ahead_elsewhere stage hevent)

theorem Waiting.modify {requests : Table LeadRequest} {p : LeadRequest → Bool}
    {f : Update LeadRequest} (h : Waiting requests eventId)
    (hf : ∀ q, q.eventId = eventId → q.done = false → p q = true →
      (f q).eventId = eventId ∧ (f q).done = false) : Waiting (requests.modify p f) eventId := by
  obtain ⟨q, hq, hevent, hdone⟩ := h
  refine ⟨_, Table.mem_modify.mpr ⟨q, hq, rfl⟩, ?_⟩
  by_cases hp : p q = true
  · rw [if_pos hp]
    exact hf q hevent hdone hp
  · rw [if_neg hp]
    exact ⟨hevent, hdone⟩

theorem Waiting.lease (h : Waiting s.leadRequests eventId) (now : Timestamp) (e : Uuid) :
    Waiting (s.lease now e).leadRequests eventId :=
  h.modify fun _ hevent hdone _ => ⟨hevent, hdone⟩

variable (tick) in
/-- Only a finish without a refusal ends a wait. -/
theorem agent_waiting (a : Agent) (h : Waiting s.leadRequests eventId) :
    Waiting (a.turn tick s).db.leadRequests eventId ∨
      ∃ caps origin summary, a = .running caps (.walk origin eventId (.finish none)) summary := by
  cases queue_step a tick s with
  | quiet requests =>
    obtain ⟨requestId, es, heq⟩ := requests
    rw [heq]
    exact .inl (h.armRequests es)
  | leased row free db =>
    rw [db]
    exact .inl (h.lease _ _)
  | @finished caps origin e reason summary agent requests =>
    by_cases hevent : e = eventId ∧ reason = none
    · obtain ⟨rfl, rfl⟩ := hevent
      exact .inr ⟨caps, origin, summary, agent⟩
    · left
      rw [requests]
      refine h.modify fun q hq _ hp => ⟨hq, ?_⟩
      have heq : e = eventId := (beq_iff_eq.mp hp).symm.trans hq
      cases reason with
      | none => exact absurd ⟨heq, rfl⟩ hevent
      | some reason => rfl

end walk

section runs

variable {ι : Type} [DecidableEq ι]

/-- Every owed pair is junctioned, or its event waits and every walk has it ahead. -/
structure Watched.Inv (o : Watched ι) : Prop where
  owed : ∀ d ∈ o.owed, owes o.world.db d = true
  kept : ∀ d ∈ o.owed, o.world.db.provenanced d.ruleId d.registrationId = true ∨
    (Waiting o.world.db.leadRequests d.eventId ∧ ∀ i, (o.world.agents i).ahead d = true)
  sound : o.world.Sound

theorem enter_ahead {w : World ι} {i : ι} {a : Agent} {d : Debt} (ha : a.ahead d = true)
    (h : ∀ j, (w.agents j).ahead d = true) (j : ι) : ((w.enter i a).agents j).ahead d = true := by
  simp only [World.enter]
  split
  · exact h j
  · by_cases hj : j = i
    · subst hj
      rwa [World.setAgent_self]
    · rw [World.setAgent_of_ne hj]
      exact h j

theorem enter_db (w : World ι) (i : ι) (a : Agent) : (w.enter i a).db = w.db := by
  simp only [World.enter]
  split <;> rfl

theorem next_waiting {c : Call} {s : Db} {eventId : Uuid} (h : Waiting s.leadRequests eventId) :
    Waiting (s.next c).leadRequests eventId := by
  rcases next_requests c s with ⟨rows, heq⟩ | heq
  · rw [heq]
    exact h
  · rw [heq]
    exact h.armRequests _

theorem withRule_waiting {env : RuleEnv} {cmd : CreateRule} {s : Db} {eventId : Uuid}
    (h : Waiting s.leadRequests eventId) : Waiting (Db.withRule env cmd s).leadRequests eventId := by
  rcases withRule_cases env cmd s with ⟨rows, heq⟩ | ⟨t, rows, hcreated, heq⟩
  · rw [heq]
    exact h
  · rw [heq, audited_leadRequests, hcreated.requests]
    exact h.armRequests _

/-- A pair owed before the step stays accounted for. -/
theorem kept_of_owed {o : Watched ι} (h : o.Inv) (a : Act ι) {d : Debt} (hd : d ∈ o.owed) :
    (o.world.next a).db.provenanced d.ruleId d.registrationId = true ∨
      (Waiting (o.world.next a).db.leadRequests d.eventId ∧
        ∀ i, ((o.world.next a).agents i).ahead d = true) := by
  have hkept := world_kept o.world a
  rcases h.kept d hd with hp | ⟨hwait, hahead⟩
  · exact .inl (hkept.provenanced hp)
  cases a with
  | verb c => exact .inr ⟨next_waiting hwait, hahead⟩
  | createRule env cmd => exact .inr ⟨withRule_waiting hwait, hahead⟩
  | patchRule | runDueLeadRequests | runRequestOfEvent =>
    refine .inr ⟨?_, enter_ahead rfl hahead⟩
    simp only [World.next, enter_db]
    exact hwait
  | turn i tick =>
    rcases agent_ahead tick (h.sound i) (h.owed d hd) (hahead i) with hp | hi
    · exact .inl hp
    · rcases agent_waiting tick (o.world.agents i) hwait with hwait' | hfinish
      · refine .inr ⟨hwait', fun j => ?_⟩
        by_cases hj : j = i
        · subst hj
          simpa [World.next] using hi
        · simpa [World.next, World.setAgent_of_ne hj] using hahead j
      · obtain ⟨caps, origin, summary, heq⟩ := hfinish
        have hfalse := hahead i
        rw [heq] at hfalse
        simp [Agent.ahead, Stage.ahead] at hfalse
  | crash i =>
    refine .inr ⟨hwait, fun j => ?_⟩
    by_cases hj : j = i
    · subst hj
      simp only [World.next, World.setAgent_self]
      rfl
    · simpa [World.next, World.setAgent_of_ne hj] using hahead j

theorem mem_incurred {s t : Db} {d : Debt} (h : d ∈ incurred s t) :
    owes s d = false ∧ owes t d = true := by
  obtain ⟨hdebt, hnot⟩ := List.mem_filter.mp h
  exact ⟨by simpa using hnot, (List.mem_filter.mp hdebt).2⟩

theorem owes_audited (s : Db) (rows : List AuditRow) (d : Debt) :
    owes (s.audited rows) d = owes s d := rfl

/-- A pair the step comes to owe waits, and stays ahead of the walks it was ahead of. -/
theorem kept_of_newlyOwed {o : Watched ι} {a : Act ι} {d : Debt} (hd : d ∈ o.newlyOwed a)
    (htimely : o.Timely a) :
    (o.world.next a).db.provenanced d.ruleId d.registrationId = true ∨
      (Waiting (o.world.next a).db.leadRequests d.eventId ∧
        ∀ i, ((o.world.next a).agents i).ahead d = true) := by
  have hkept := world_kept o.world a
  rcases htimely d hd with hp | hahead
  · exact .inl (hkept.provenanced hp)
  cases a with
  | verb c =>
    obtain ⟨hincurred, harms⟩ := List.mem_filter.mp hd
    obtain ⟨hnot, howes⟩ := mem_incurred hincurred
    refine .inr ⟨?_, hahead⟩
    rcases next_requests c o.world.db with ⟨rows, heq⟩ | heq
    · have hsame : owes o.world.db d = true := by
        rw [← owes_audited _ rows, ← heq]
        exact howes
      rw [hsame] at hnot
      cases hnot
    · simp only [World.next, heq]
      exact waiting_armRequests _ (List.contains_iff_mem.mp harms) _
  | createRule env cmd =>
    obtain ⟨hincurred, hscope⟩ := List.mem_filter.mp hd
    obtain ⟨hnot, howes⟩ := mem_incurred hincurred
    refine .inr ⟨?_, hahead⟩
    rcases withRule_cases env cmd o.world.db with ⟨rows, heq⟩ | ⟨t, rows, hcreated, heq⟩
    · have hsame : owes o.world.db d = true := by
        rw [← owes_audited _ rows, ← heq]
        exact howes
      rw [hsame] at hnot
      cases hnot
    · simp only [World.next, heq, audited_leadRequests, hcreated.requests]
      exact waiting_armRequests _ (List.contains_iff_mem.mp hscope) _
  | patchRule | runDueLeadRequests | runRequestOfEvent | crash => cases hd
  | turn i tick =>
    simp only [Watched.newlyOwed] at hd
    split at hd
    · next env patch row hagent =>
      obtain ⟨-, hscope⟩ := List.mem_filter.mp hd
      refine .inr ⟨?_, fun j => ?_⟩
      · simp only [World.next, hagent, Agent.turn, Patching.turn]
        exact waiting_armRequests _ (List.contains_iff_mem.mp hscope) _
      · by_cases hj : j = i
        · subst hj
          simp only [World.next, hagent, Agent.turn, Patching.turn, World.setAgent_self]
          rfl
        · simpa [World.next, World.setAgent_of_ne hj] using hahead j
    all_goals cases hd

/-- A step whose new pairs are ahead of every walk keeps the account. -/
theorem Watched.Inv.next {o : Watched ι} (h : o.Inv) {a : Act ι} (htimely : o.Timely a) :
    (o.next a).Inv where
  owed d hd := (List.mem_filter.mp hd).2
  kept d hd := by
    rcases List.mem_append.mp (List.mem_filter.mp hd).1 with hd | hd
    · exact kept_of_owed h a hd
    · exact kept_of_newlyOwed hd htimely
  sound := h.sound.next a

omit [DecidableEq ι] in
theorem Watched.Inv.keepsArms {o : Watched ι} (h : o.Inv) : o.KeepsArms := by
  rintro d hd ⟨q, hq, hevent, hdone⟩ -
  rcases h.kept d hd with hp | ⟨⟨q', hq', hevent', hdone'⟩, -⟩
  · exact hp
  · rw [queue_row_unique hq hq' (hevent.trans hevent'.symm), hdone'] at hdone
    cases hdone

omit [DecidableEq ι] in
theorem inv_start (s : Db) : (Watched.start s : Watched ι).Inv where
  owed d hd := by cases hd
  kept d hd := by cases hd
  sound := sound_start s

/-- While every new pair is ahead of the walks of its event, no arm is lost. -/
theorem arms_kept (s : Db) (acts : List (Act ι))
    (h : Along Watched.next Watched.Timely (Watched.start s) acts) :
    Throughout Watched.next Watched.KeepsArms (Watched.start s) acts :=
  (h.throughout (inv_start s) fun _ _ hinv htimely => hinv.next htimely).mono
    fun _ hinv => hinv.keepsArms

end runs

section sample

instance {ι : Type} [DecidableEq ι] [Fintype ι] (o : Watched ι) : Decidable o.KeepsArms :=
  inferInstanceAs (Decidable (∀ d ∈ o.owed, _ → _ → _))

instance {ι : Type} [DecidableEq ι] [Fintype ι] (o : Watched ι) (a : Act ι) :
    Decidable (o.Timely a) :=
  inferInstanceAs (Decidable (∀ d ∈ o.newlyOwed a, _ ∨ _))

/-- A sink that accepts everything, at the epoch. -/
def Tick.accepting : Tick where
  now := 0
  locked _ := false
  provenanceId := 1
  junctionId := id
  createLead _ := .ok 1
  updateLead _ _ := .ok ()

def everyGuest : CreateRule := ⟨"every guest", none, .registration, true, false, false, [], none⟩

def bob : RegisterCommand := { ann with name := "Bob", email := "bob@x" }

/-- A global rule and one attendee, then a cron pass up to its read of the rules. -/
def passStarted : List (Act (Fin 1)) :=
  [.createRule ⟨1, id, id⟩ everyGuest, .verb (.register (.counting 1) ann),
    .runDueLeadRequests 0 defaultCaps, .turn 0 .accepting]

theorem arms_kept_earlyArm : Throughout Watched.next Watched.KeepsArms (Watched.start openGig)
    (passStarted ++ .verb (.register (.counting 2) bob) :: List.replicate 9 (.turn 0 .accepting)) :=
  arms_kept openGig _ (by decide)

/-- The second attendee registers between the junction write and the finish. -/
theorem lateArm_lost : ¬ Throughout Watched.next Watched.KeepsArms (Watched.start openGig)
    (passStarted ++ List.replicate 8 (.turn 0 .accepting) ++
      [.verb (.register (.counting 2) bob), .turn 0 .accepting]) := fun h =>
  absurd h.last (by decide)

end sample

end BackboneEvents.LeadGeneration
