import BackboneEvents.LeadJoins

/-!
# One step of a walk that is alone

Until it finishes, a walk that no other writer disturbs goes on at a stage with less left: the
rules, then the registrations of the rule in no group yet, then the steps to the next junction.
Each call shows the whole group of the batch, and what the sink was told is junctioned next.
-/
namespace BackboneEvents.LeadGeneration
open ConstrainedTables

def LeadGroup.ids (g : LeadGroup) : List Uuid := g.registrations.map LeadRegistrationView.id

def SinkCall.refusal : SinkCall → Option String
  | .created _ (.error reason) | .updated _ _ (.error reason) => some reason
  | .created _ (.ok _) | .updated _ _ (.ok _) => none

def SinkCall.ofGroup (ruleId : Uuid) (groupKey : String) (c : SinkCall) : Bool :=
  c.group.ruleId == ruleId && c.group.groupKey == groupKey

/-- What the last accepted call of the group showed. -/
def lastAccepted (calls : List SinkCall) (ruleId : Uuid) (groupKey : String) : Option LeadGroup :=
  ((calls.filter (fun c => c.refusal.isNone && c.ofGroup ruleId groupKey)).getLast?).map
    SinkCall.group

/-- The batch under way. -/
def Stage.batch? : Stage → Option Batch
  | .upsert k | .members k _ _ | .create k _ _ _ | .setLead k _ _ _ | .update k _ _ _ _
  | .junction k _ _ _ => some k
  | .readRules | .readPredicates _ _ | .readEligible _ _ _ | .finish _ => none

/-- The column of the company axis is there when a rule in scope asks for it. -/
def AxisServed (s : Db) (eventId : Uuid) : Prop :=
  s.orgAxis = true ∨ ∀ lr, Scoped s eventId lr →
    ∀ p ∈ predicatesOfRule lr.id s, p.axis ≠ .company

section calls

variable {calls : List SinkCall} {c : SinkCall} {ruleId : Uuid} {groupKey : String}

theorem ofGroup_iff : c.ofGroup ruleId groupKey = true ↔
    c.group.ruleId = ruleId ∧ c.group.groupKey = groupKey := by
  simp [SinkCall.ofGroup]

theorem lastAccepted_accepted (haccepted : c.refusal = none)
    (hgroup : c.ofGroup ruleId groupKey = true) :
    lastAccepted (calls ++ [c]) ruleId groupKey = some c.group := by
  simp [lastAccepted, haccepted, hgroup]

theorem lastAccepted_other (h : c.refusal ≠ none ∨ c.ofGroup ruleId groupKey = false) :
    lastAccepted (calls ++ [c]) ruleId groupKey = lastAccepted calls ruleId groupKey := by
  have hdrop : (c.refusal.isNone && c.ofGroup ruleId groupKey) = false := by
    rcases h with h | h
    · simp [Option.isNone_iff_eq_none, h]
    · simp [h]
  simp [lastAccepted, hdrop]

end calls

/-- The registrations of an accepted call that are not junctioned yet. -/
def Stage.pending (stage : Stage) (ruleId : Uuid) (groupKey : String) (registrationId : Uuid) :
    Prop :=
  match stage with
  | .setLead k _ _ newIds | .junction k _ newIds _ =>
    k.rule.id = ruleId ∧ k.group.groupKey = groupKey ∧ registrationId ∈ newIds
  | .readRules | .readPredicates _ _ | .readEligible _ _ _ | .upsert _ | .members _ _ _
  | .create _ _ _ _ | .update _ _ _ _ _ | .finish _ => False

/-- How many registrations no group of the rule has. -/
def unjoined (s : Db) (ruleId : Uuid) : ℕ :=
  (s.registrations.rows.filter (fun r => !s.provenanced ruleId r.id)).length

/-- The rules left, then the registrations of the rule that are left, then the steps to the
next junction. -/
def Stage.left (s : Db) : Stage → ℕ × ℕ × ℕ
  | .readRules => (s.leadRules.rows.length + 2, 0, 0)
  | .readPredicates rule rest =>
    (rest.length + 2, unjoined s rule.id, 6 * s.registrations.rows.length + 7)
  | .readEligible rule _ rest =>
    (rest.length + 2, unjoined s rule.id, 6 * s.registrations.rows.length + 6)
  | .upsert k => (k.rest.length + 2, unjoined s k.rule.id, 6 * k.later.length + 5)
  | .members k _ _ => (k.rest.length + 2, unjoined s k.rule.id, 6 * k.later.length + 4)
  | .create k _ _ _ | .update k _ _ _ _ =>
    (k.rest.length + 2, unjoined s k.rule.id, 6 * k.later.length + 3)
  | .setLead k _ _ _ => (k.rest.length + 2, unjoined s k.rule.id, 6 * k.later.length + 2)
  | .junction k _ _ _ => (k.rest.length + 2, unjoined s k.rule.id, 6 * k.later.length + 1)
  | .finish _ => (1, 0, 0)

def Falls : ℕ × ℕ × ℕ → ℕ × ℕ × ℕ → Prop := Prod.Lex (· < ·) (Prod.Lex (· < ·) (· < ·))

theorem falls_wf : WellFounded Falls := (Prod.lex Nat.lt_wfRel (Prod.lex Nat.lt_wfRel Nat.lt_wfRel)).wf

/-- The call shows the whole group of the batch; accepted, its members are about to be
junctioned, and refused, the walk is about to finish. -/
structure Asks (eventId : Uuid) (s : Db) (k : Batch) (next : Stage) (c : SinkCall) : Prop where
  shown : ∃ provenanceId, Belongs s provenanceId k.rule.id k.group.groupKey ∧
    c.group = k.leadGroup eventId (groupMembers provenanceId s)
  accepted : c.refusal = none → ∀ ruleId groupKey registrationId,
    next.pending ruleId groupKey registrationId ↔ k.rule.id = ruleId ∧ k.group.groupKey = groupKey ∧
      registrationId ∈ k.group.members.map EligibleRegistration.id
  refused : ∀ reason, c.refusal = some reason → next = .finish (some reason)

/-- The walk goes on at a stage with less left, and what the sink was told is what is junctioned
or about to be. -/
structure Advances (caps : Caps) (origin : Origin) (eventId : Uuid) (s : Db) (stage : Stage)
    (turn : Turn) (next : Stage) (summary : LeadRunSummary) : Prop where
  agent : turn.agent = .running caps (.walk origin eventId next) summary
  falls : Falls (next.left turn.db) (stage.left s)
  quiet : turn.calls = [] → (∀ reason, next ≠ .finish (some reason)) ∧
    ∀ ruleId groupKey registrationId,
      stage.joins ruleId groupKey registrationId ∨ next.pending ruleId groupKey registrationId ↔
        stage.pending ruleId groupKey registrationId
  asks : ∀ c ∈ turn.calls, turn.calls = [c] ∧ turn.db = s ∧
    ∃ k, stage.batch? = some k ∧ Batched s eventId k ∧ Asks eventId s k next c ∧
      ∀ ruleId groupKey registrationId, ¬ stage.pending ruleId groupKey registrationId

section stages

variable {s t : Db} {eventId ruleId : Uuid} {groupKey : String} {registrationId : Uuid}

theorem left_ofRules (rules : List LeadRule) :
    ((Stage.ofRules rules).left s).1 ≤ rules.length + 1 := by
  cases rules with
  | nil => exact Nat.le_refl _
  | cons rule rest => exact Nat.le_refl _

variable (ruleId groupKey registrationId) in
theorem pending_ofRules (rules : List LeadRule) :
    (∀ reason, Stage.ofRules rules ≠ .finish (some reason)) ∧
      ¬ (Stage.ofRules rules).pending ruleId groupKey registrationId := by
  cases rules with
  | nil => exact ⟨fun _ => nofun, id⟩
  | cons rule rest => exact ⟨fun _ => nofun, id⟩

variable (ruleId groupKey registrationId) in
theorem pending_ofGroups (rule : LeadRule) (predicates : List LeadPredicate) (rest : List LeadRule)
    (full : Bool) (groups : List MemberGroup) :
    (∀ reason, Stage.ofGroups rule predicates rest full groups ≠ .finish (some reason)) ∧
      ¬ (Stage.ofGroups rule predicates rest full groups).pending ruleId groupKey registrationId := by
  cases groups with
  | cons group later => exact ⟨fun _ => nofun, id⟩
  | nil =>
    cases full with
    | true => exact ⟨fun _ => nofun, id⟩
    | false => exact pending_ofRules _ _ _ rest

/-- After the groups of a batch, with fewer registrations left, or none to read again. -/
theorem falls_ofGroups {rule : LeadRule} {predicates : List LeadPredicate} {rest : List LeadRule}
    {full : Bool} {groups : List MemberGroup} {m n : ℕ}
    (h : unjoined t rule.id < m ∨ unjoined t rule.id = m ∧ 6 * groups.length ≤ n ∧
      (groups = [] → full = false)) :
    Falls ((Stage.ofGroups rule predicates rest full groups).left t) (rest.length + 2, m, n) := by
  have hrest : Falls ((Stage.ofRules rest).left t) (rest.length + 2, m, n) :=
    Prod.Lex.left _ _ (Nat.lt_of_le_of_lt (left_ofRules rest) (by omega))
  cases groups with
  | cons group later =>
    refine Prod.Lex.right _ ?_
    rcases h with h | ⟨h, hn, -⟩
    · exact Prod.Lex.left _ _ h
    · rw [h]
      have hlater : 6 * later.length + 5 < n := by
        rw [List.length_cons] at hn
        omega
      exact Prod.Lex.right _ hlater
  | nil =>
    cases full with
    | false => exact hrest
    | true =>
      rcases h with h | ⟨-, -, hfull⟩
      · exact Prod.Lex.right _ (Prod.Lex.left _ _ h)
      · cases hfull rfl

/-- A registration that a group has gained is one fewer to join. -/
theorem unjoined_lt (hregistrations : t.registrations = s.registrations)
    (hmono : ∀ x, s.provenanced ruleId x = true → t.provenanced ruleId x = true)
    {r : Registration} (hr : r ∈ s.registrations.rows) (hbefore : s.provenanced ruleId r.id = false)
    (hafter : t.provenanced ruleId r.id = true) : unjoined t ruleId < unjoined s ruleId := by
  have hsplit : (t.registrations.rows.filter (fun r => !t.provenanced ruleId r.id)) =
      (s.registrations.rows.filter (fun r => !s.provenanced ruleId r.id)).filter
        (fun r => !t.provenanced ruleId r.id) := by
    rw [List.filter_filter, hregistrations]
    refine List.filter_congr fun r _ => ?_
    cases hs : s.provenanced ruleId r.id with
    | false => simp
    | true => simp [hmono _ hs]
  rw [unjoined, unjoined, hsplit]
  refine List.length_filter_lt_length_iff_exists.mpr ⟨r, List.mem_filter.mpr ⟨hr, ?_⟩, ?_⟩
  · simp [hbefore]
  · simp [hafter]

variable (eventId) in
theorem groupsOf_length_le (eligible : List EligibleRegistration) :
    (groupsOf eventId eligible).length ≤ eligible.length := by
  rw [groupsOf, List.length_map, List.length_insertionSort]
  exact (List.dedup_sublist _).length_le.trans (List.length_map _).le

theorem eligible_length_le {predicates : List LeadPredicate} {batch : ℕ}
    {eligible : List EligibleRegistration}
    (h : eligibleRegistrations eventId ruleId predicates batch s = .ok eligible) :
    eligible.length ≤ s.registrations.rows.length := by
  rw [eligibleRegistrations_ok h, List.length_map]
  refine (List.length_take_le' _ _).trans ?_
  rw [List.length_insertionSort]
  exact List.length_filter_le _ _

theorem unjoined_eq (h : t.registrations = s.registrations)
    (hprovenanced : ∀ x, t.provenanced ruleId x = s.provenanced ruleId x) :
    unjoined t ruleId = unjoined s ruleId := by
  simp only [unjoined, h, hprovenanced]

theorem eligible_served {lr : LeadRule} (batch : ℕ) (haxis : AxisServed s eventId)
    (hscoped : Scoped s eventId lr) : ∃ eligible,
      eligibleRegistrations eventId lr.id (predicatesOfRule lr.id s) batch s = .ok eligible := by
  have hserved : ((predicatesOfRule lr.id s).any (·.axis == .company) && !s.orgAxis) = false := by
    rcases haxis with haxis | haxis
    · simp [haxis]
    · have hnone : (predicatesOfRule lr.id s).any (·.axis == .company) = false := by
        simpa using haxis lr hscoped
      rw [hnone, Bool.false_and]
  exact ⟨_, by simp only [eligibleRegistrations, hserved, Bool.false_eq_true, if_false]; rfl⟩

theorem Ground.axisServed (h : Ground s t) (haxis : AxisServed s eventId) : AxisServed t eventId := by
  rcases haxis with haxis | haxis
  · exact .inl (h.orgAxis.trans haxis)
  · refine .inr fun lr hscoped => ?_
    rw [h.predicatesOfRule]
    exact haxis lr ⟨h.rules ▸ hscoped.1, hscoped.2⟩

variable {k : Batch} {provenanceId : Uuid}

theorem leadGroup_ids (known : List EligibleRegistration) :
    (k.leadGroup eventId known).ids =
      known.map EligibleRegistration.id ++ (k.newMembers known).map EligibleRegistration.id := by
  simp only [LeadGroup.ids, Batch.leadGroup, List.map_append, List.map_map]
  rfl

/-- The call shows the junctioned members and those of the batch, each once. -/
theorem leadGroup_shows (hanchored : Anchored s) (hbatched : Batched s eventId k)
    (hbelongs : Belongs s provenanceId k.rule.id k.group.groupKey) :
    (k.leadGroup eventId (groupMembers provenanceId s)).ids.Nodup ∧
    ∀ x, x ∈ (k.leadGroup eventId (groupMembers provenanceId s)).ids ↔
      Joined s k.rule.id k.group.groupKey x ∨ x ∈ k.group.members.map EligibleRegistration.id := by
  have hjoined := fun x => mem_groupMembers_iff x hanchored hbelongs
  rw [leadGroup_ids, newMembers_eq hbatched hbelongs]
  refine ⟨?_, fun x => by rw [List.mem_append, hjoined]⟩
  refine List.nodup_append.mpr ⟨nodup_groupMembers _, hbatched.nodup _ List.mem_cons_self, ?_⟩
  rintro x hx y hy rfl
  obtain ⟨m, hm, rfl⟩ := List.mem_map.mp hy
  obtain ⟨r, -, -, -, hnone⟩ := hbatched.members _ List.mem_cons_self m hm
  rw [provenanced_iff_joined.mpr ⟨_, (hjoined _).mp hx⟩] at hnone
  cases hnone

theorem asks_accepted {next : Stage} {c : SinkCall}
    (hbelongs : Belongs s provenanceId k.rule.id k.group.groupKey)
    (hgroup : c.group = k.leadGroup eventId (groupMembers provenanceId s))
    (hrefusal : c.refusal = none) (hpending : ∀ ruleId groupKey registrationId,
      next.pending ruleId groupKey registrationId ↔ k.rule.id = ruleId ∧
        k.group.groupKey = groupKey ∧
          registrationId ∈ k.group.members.map EligibleRegistration.id) : Asks eventId s k next c where
  shown := ⟨provenanceId, hbelongs, hgroup⟩
  accepted _ := hpending
  refused reason h := by rw [hrefusal] at h; cases h

theorem asks_refused {reason : String} {c : SinkCall}
    (hbelongs : Belongs s provenanceId k.rule.id k.group.groupKey)
    (hgroup : c.group = k.leadGroup eventId (groupMembers provenanceId s))
    (hrefusal : c.refusal = some reason) : Asks eventId s k (.finish (some reason)) c where
  shown := ⟨provenanceId, hbelongs, hgroup⟩
  accepted h := by rw [hrefusal] at h; cases h
  refused reason' h := by rw [hrefusal] at h; rw [Option.some.inj h]

variable {tick : Tick} {caps : Caps} {origin : Origin} {summary : LeadRunSummary} {stage : Stage}

/-- A step that makes no call. -/
theorem advances_quiet {next : Stage} {summary' : LeadRunSummary}
    (hfalls : Falls (next.left t) (stage.left s)) (hnext : ∀ reason, next ≠ .finish (some reason))
    (hpending : ∀ ruleId groupKey registrationId,
      stage.joins ruleId groupKey registrationId ∨ next.pending ruleId groupKey registrationId ↔
        stage.pending ruleId groupKey registrationId) :
    Advances caps origin eventId s stage
      ⟨t, .running caps (.walk origin eventId next) summary', []⟩ next summary' :=
  ⟨rfl, hfalls, fun _ => ⟨hnext, hpending⟩, by simp⟩

/-- A step that makes one call. -/
theorem advances_asking {next : Stage} {summary' : LeadRunSummary} {c : SinkCall}
    (hbatch : stage.batch? = some k)
    (hpending : ∀ ruleId groupKey registrationId, ¬ stage.pending ruleId groupKey registrationId)
    (hbatched : Batched s eventId k) (hfalls : Falls (next.left s) (stage.left s))
    (hasks : Asks eventId s k next c) :
    Advances caps origin eventId s stage
      ⟨s, .running caps (.walk origin eventId next) summary', [c]⟩ next summary' := by
  refine ⟨rfl, hfalls, by simp, fun c' hc' => ?_⟩
  obtain rfl := List.mem_singleton.mp hc'
  exact ⟨rfl, rfl, _, hbatch, hbatched, hasks, hpending⟩

theorem pending_none {next : Stage}
    (h : ∀ ruleId groupKey registrationId, ¬ next.pending ruleId groupKey registrationId) :
    ∀ ruleId groupKey registrationId,
      False ∨ next.pending ruleId groupKey registrationId ↔ False := by
  intro ruleId groupKey registrationId
  simp [h ruleId groupKey registrationId]

/-- What leaves the groups alone leaves as many registrations to join. -/
theorem unjoined_of_joined (hregistrations : t.registrations = s.registrations)
    (hjoined : ∀ groupKey registrationId, Joined t ruleId groupKey registrationId ↔
      Joined s ruleId groupKey registrationId) : unjoined t ruleId = unjoined s ruleId := by
  refine unjoined_eq hregistrations fun x => Bool.eq_iff_iff.mpr ?_
  simp only [provenanced_iff_joined, hjoined]

theorem unjoined_upserted {id provenanceId : Uuid} {grouping : LeadGrouping} {lead : Option Uuid}
    (hanchored : Anchored s)
    (h : upsertProvenance provenanceId ruleId eventId groupKey grouping s = .ok ((id, lead), t)) :
    unjoined t ruleId = unjoined s ruleId := by
  apply unjoined_of_joined
  · rcases upsertProvenance_ok h with ⟨rfl, -⟩ | ⟨-, -, -, rfl⟩ <;> rfl
  · intro key registrationId
    exact (joined_upserted ruleId registrationId key hanchored h).1

/-- A batch that is junctioned leaves fewer registrations to join. -/
theorem unjoined_junctioned {junctionId : Uuid → Uuid} {n : ℕ} (hbatched : Batched s eventId k)
    (hbelongs : Belongs s provenanceId k.rule.id k.group.groupKey)
    (h : junctionAdd junctionId provenanceId (k.group.members.map EligibleRegistration.id) s =
      .ok (n, t)) : unjoined t k.rule.id < unjoined s k.rule.id := by
  have hjoined := fun groupKey registrationId =>
    joined_added k.rule.id registrationId groupKey hbelongs h
  obtain ⟨m, hm⟩ := List.exists_mem_of_ne_nil _ (hbatched.filled _ List.mem_cons_self)
  obtain ⟨r, hr, rfl, -, hbefore⟩ := hbatched.members _ List.mem_cons_self m hm
  refine unjoined_lt (r := r) ?_ (fun x hx => ?_) hr hbefore ?_
  · obtain ⟨table, rfl, -⟩ := junctionAdd_ok h
    rfl
  · obtain ⟨groupKey, hjoin⟩ := provenanced_iff_joined.mp hx
    exact provenanced_iff_joined.mpr ⟨groupKey, (hjoined _ _).mpr (.inl hjoin)⟩
  · exact provenanced_iff_joined.mpr ⟨_, (hjoined _ _).mpr (.inr ⟨rfl, rfl, List.mem_map_of_mem hm⟩)⟩

/-- A batch that is read is walked group by group, or the rule is left. -/
theorem falls_readEligible {rule : LeadRule} {predicates : List LeadPredicate}
    {rest : List LeadRule} {eligible : List EligibleRegistration}
    (hread : eligibleRegistrations eventId rule.id predicates caps.batch s = .ok eligible) :
    Falls ((Stage.ofGroups rule predicates rest (decide (caps.batch ≤ eligible.length))
      (groupsOf eventId eligible)).left s) ((Stage.readEligible rule predicates rest).left s) := by
  refine falls_ofGroups (.inr ⟨rfl, ?_, fun hnil => ?_⟩)
  · have := (groupsOf_length_le eventId eligible).trans (eligible_length_le hread)
    omega
  · cases eligible with
    | nil => simpa using Nat.ne_of_gt caps.batch_pos
    | cons m ms =>
      obtain ⟨g, hg, -⟩ := exists_group eventId (List.mem_cons_self (a := m) (l := ms))
      rw [hnil] at hg
      cases hg

theorem falls_readRules :
    Falls ((Stage.ofRules (activeRulesOfEvent eventId s)).left s) (Stage.readRules.left s) := by
  refine Prod.Lex.left _ _ (Nat.lt_of_le_of_lt (left_ofRules _) ?_)
  have hlength : (activeRulesOfEvent eventId s).length ≤ s.leadRules.rows.length := by
    rw [activeRulesOfEvent, List.length_insertionSort]
    exact List.length_filter_le _ _
  exact Nat.succ_lt_succ (Nat.lt_succ_of_le hlength)

/-- A walk that is alone goes on until it finishes. -/
theorem stage_advances (hanchored : Anchored s) (hsound : StageSound s eventId stage)
    (hfresh : FreshIds s tick) (hapart : StageApart s eventId stage) (haxis : AxisServed s eventId)
    (hlive : ∀ reason, stage ≠ .finish reason) : ∃ next summary',
      Advances caps origin eventId s stage (stage.turn caps origin eventId tick summary s) next
        summary' := by
  cases stage with
  | readRules =>
    exact ⟨_, _, advances_quiet falls_readRules (pending_ofRules 0 "" 0 _).1
      (pending_none fun _ _ _ => (pending_ofRules _ _ _ _).2)⟩
  | readPredicates rule rest =>
    exact ⟨_, _, advances_quiet (Prod.Lex.right _ (Prod.Lex.right _ (Nat.lt_succ_self _)))
      (fun _ h => by cases h) (pending_none fun _ _ _ => id)⟩
  | readEligible rule predicates rest =>
    obtain ⟨-, rfl⟩ := hsound
    obtain ⟨eligible, hread⟩ := eligible_served caps.batch haxis
      (hapart rule List.mem_cons_self)
    simp only [Stage.turn, hread]
    exact ⟨_, _, advances_quiet (falls_readEligible hread) (pending_ofGroups 0 "" 0 _ _ _ _ _).1
      (pending_none fun _ _ _ => (pending_ofGroups _ _ _ _ _ _ _ _).2)⟩
  | upsert k =>
    obtain ⟨provenanceId, lead, t, hupsert⟩ :=
      upsertProvenance_fresh hfresh k.rule.id eventId k.group.groupKey k.group.grouping
    simp only [Stage.turn, hupsert]
    refine ⟨_, _, advances_quiet (Prod.Lex.right _ ?_) (fun _ h => by cases h)
      (pending_none fun _ _ _ => id)⟩
    rw [unjoined_upserted hanchored hupsert]
    exact Prod.Lex.right _ (Nat.lt_succ_self _)
  | members k provenanceId lead =>
    have hnew := newMembers_eq hapart hsound.belongs
    have hfilled : (k.group.members.map EligibleRegistration.id).isEmpty = false := by
      simpa using hapart.filled _ List.mem_cons_self
    simp only [Stage.turn, hnew]
    cases lead with
    | none =>
      exact ⟨_, _, advances_quiet (Prod.Lex.right _ (Prod.Lex.right _ (Nat.lt_succ_self _)))
        (fun _ h => by cases h) (pending_none fun _ _ _ => id)⟩
    | some leadId =>
      simp only [hfilled, Bool.false_eq_true, if_false]
      exact ⟨_, _, advances_quiet (Prod.Lex.right _ (Prod.Lex.right _ (Nat.lt_succ_self _)))
        (fun _ h => by cases h) (pending_none fun _ _ _ => id)⟩
  | create k provenanceId group newIds =>
    obtain ⟨hbatched, rfl, rfl⟩ := hapart
    simp only [Stage.turn]
    split
    · next reason hrefused =>
      exact ⟨_, _, advances_asking rfl (fun _ _ _ => id) hbatched (Prod.Lex.left _ _ (by omega))
        (asks_refused hsound.belongs rfl (by rw [hrefused]; rfl))⟩
    · next leadId haccepted =>
      exact ⟨_, _, advances_asking rfl (fun _ _ _ => id) hbatched
        (Prod.Lex.right _ (Prod.Lex.right _ (Nat.lt_succ_self _)))
        (asks_accepted hsound.belongs rfl (by rw [haccepted]; rfl) fun _ _ _ => .rfl)⟩
  | setLead k provenanceId leadId newIds =>
    have hsame : unjoined (setProvenanceLead provenanceId leadId s) k.rule.id =
        unjoined s k.rule.id := unjoined_of_joined rfl fun groupKey registrationId =>
      (joined_linked provenanceId k.rule.id registrationId groupKey leadId hanchored).1
    refine ⟨_, _, advances_quiet (Prod.Lex.right _ ?_) (fun _ h => by cases h) fun _ _ _ => by
      simp only [Stage.joins, Stage.pending, false_or]⟩
    rw [hsame]
    exact Prod.Lex.right _ (Nat.lt_succ_self _)
  | update k provenanceId leadId group newIds =>
    obtain ⟨hbatched, rfl, rfl⟩ := hapart
    simp only [Stage.turn]
    split
    · next reason hrefused =>
      exact ⟨_, _, advances_asking rfl (fun _ _ _ => id) hbatched (Prod.Lex.left _ _ (by omega))
        (asks_refused hsound.belongs rfl (by rw [hrefused]; rfl))⟩
    · next haccepted =>
      refine ⟨_, _, advances_asking rfl (fun _ _ _ => id) hbatched
        (Prod.Lex.right _ (Prod.Lex.right _ ?_))
        (asks_accepted hsound.belongs rfl (by rw [haccepted]; rfl) fun _ _ _ => .rfl)⟩
      exact Nat.lt_succ_of_lt (Nat.lt_succ_self _)
  | junction k provenanceId newIds grown =>
    obtain ⟨hbatched, rfl⟩ := hapart
    obtain ⟨n, t, hadd⟩ := junctionAdd_fresh hfresh provenanceId
      (k.group.members.map EligibleRegistration.id)
    simp only [Stage.turn, hadd]
    exact ⟨_, _, advances_quiet
      (falls_ofGroups (.inl (unjoined_junctioned hbatched hsound.belongs hadd)))
      (pending_ofGroups 0 "" 0 _ _ _ _ _).1 fun _ _ _ =>
        ⟨fun h => h.resolve_right (pending_ofGroups _ _ _ _ _ _ _ _).2, .inl⟩⟩
  | finish reason => exact absurd rfl (hlive reason)

end stages

end BackboneEvents.LeadGeneration
