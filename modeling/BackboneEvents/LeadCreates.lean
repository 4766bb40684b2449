import BackboneEvents.LeadLeases

/-!
# One lead to a rule and group

A provenance answers with its lead, and a group without one goes to the sink's create. Two
walkers that read the same provenance before either has recorded a lead both create one:
the leases keep walkers of one event apart, but a group of an order can span events.
-/
namespace BackboneEvents.LeadGeneration
open ConstrainedTables GuardedRuns

def SinkCall.group : SinkCall → LeadGroup
  | .created group _ => group
  | .updated _ group _ => group

/-- The lead of the group once the sink has been called. -/
def SinkCall.lead : SinkCall → Option Uuid
  | .created _ (.ok leadId) => some leadId
  | .created _ (.error _) => none
  | .updated leadId _ _ => some leadId

def SinkCall.updates : SinkCall → Option Uuid
  | .created _ _ => none
  | .updated leadId _ _ => some leadId

def SinkCall.sameGroup (c c' : SinkCall) : Prop :=
  c.group.ruleId = c'.group.ruleId ∧ c.group.groupKey = c'.group.groupKey

/-- Once a group has a lead, its calls are updates of that lead. -/
def SinkCall.Precedes (c c' : SinkCall) : Prop :=
  c.sameGroup c' → ∀ leadId ∈ c.lead, c'.updates = some leadId

def SinkCall.creates (ruleId : Uuid) (groupKey : String) : SinkCall → Bool
  | .created group (.ok _) => group.ruleId == ruleId && group.groupKey == groupKey
  | .created _ (.error _) | .updated _ _ _ => false

structure OneLead (calls : List SinkCall) : Prop where
  one : ∀ ruleId groupKey, calls.countP (SinkCall.creates ruleId groupKey) ≤ 1
  ordered : calls.Pairwise SinkCall.Precedes

/-- The lead recorded for a provenance. -/
def leadAt (s : Db) (provenanceId : Uuid) : Option Uuid :=
  (s.leadProvenances.find (·.id == provenanceId)).bind LeadProvenance.leadId

/-- The provenance an agent is about to create a lead for. -/
def Agent.creating : Agent → Option Uuid
  | .running _ (.walk _ _ (.create _ provenanceId _ _)) _ => some provenanceId
  | .running _ _ _ | .idle | .returned _ | .patching _ _ _ | .patched _ => none

/-- The lead an agent is about to record, and for which provenance. -/
def Agent.holding : Agent → Option (Uuid × Uuid)
  | .running _ (.walk _ _ (.setLead _ provenanceId leadId _)) _ => some (provenanceId, leadId)
  | .running _ _ _ | .idle | .returned _ | .patching _ _ _ | .patched _ => none

section statements

variable {ι : Type} [DecidableEq ι]

/-- A create is for a provenance that has no lead, neither recorded nor on its way. -/
def FirstCreate (w : World ι) : Act ι → Prop
  | .turn i _ => ∀ provenanceId ∈ (w.agents i).creating, leadAt w.db provenanceId = none ∧
    ∀ j, ∀ pending ∈ (w.agents j).holding, pending.1 ≠ provenanceId
  | .verb _ | .createRule _ _ | .patchRule _ _ _ | .runDueLeadRequests _ _
  | .runRequestOfEvent _ _ _ | .crash _ => True

def Act.isCrash : Act ι → Bool
  | .crash _ => true
  | .verb _ | .createRule _ _ | .patchRule _ _ _ | .runDueLeadRequests _ _
  | .runRequestOfEvent _ _ _ | .turn _ _ => false

end statements

section calls

variable {calls : List SinkCall} {c : SinkCall}

theorem lead_of_creates {ruleId : Uuid} {groupKey : String}
    (h : c.creates ruleId groupKey = true) : (∃ leadId, c.lead = some leadId) ∧ c.updates = none ∧
      c.group.ruleId = ruleId ∧ c.group.groupKey = groupKey := by
  cases c with
  | updated => cases h
  | created group answer =>
    cases answer with
    | error => cases h
    | ok leadId =>
      simp only [SinkCall.creates, Bool.and_eq_true, beq_iff_eq] at h
      exact ⟨⟨leadId, rfl⟩, rfl, h⟩

/-- The order of the calls leaves room for one accepted create. -/
theorem oneLead_of_ordered (h : calls.Pairwise SinkCall.Precedes) : OneLead calls where
  one ruleId groupKey := by
    induction h with
    | nil => simp
    | @cons c calls hfirst _ ih =>
      rw [List.countP_cons]
      cases hc : c.creates ruleId groupKey with
      | false => simpa using ih
      | true =>
        have hnone : calls.countP (SinkCall.creates ruleId groupKey) = 0 := by
          rw [List.countP_eq_zero]
          intro c' hc' hcreates
          obtain ⟨⟨leadId, hlead⟩, -, hrule, hkey⟩ := lead_of_creates hc
          obtain ⟨-, hupdates, hrule', hkey'⟩ := lead_of_creates hcreates
          have heq := hfirst c' hc' ⟨hrule.trans hrule'.symm, hkey.trans hkey'.symm⟩ leadId hlead
          rw [hupdates] at heq
          cases heq
        simp [hnone]
  ordered := h

theorem ordered_concat : (calls ++ [c]).Pairwise SinkCall.Precedes ↔
    calls.Pairwise SinkCall.Precedes ∧ ∀ c' ∈ calls, c'.Precedes c := by
  rw [List.pairwise_append]
  simp

end calls

section turn

variable {s t : Db} {a : Agent} {tick : Tick}

/-- The provenance an agent read without a lead. -/
def Agent.unled : Agent → Option Uuid
  | .running _ (.walk _ _ (.members _ provenanceId none)) _ => some provenanceId
  | .running _ (.walk _ _ (.create _ provenanceId _ _)) _ => some provenanceId
  | .running _ _ _ | .idle | .returned _ | .patching _ _ _ | .patched _ => none

/-- The provenance an agent read with a lead, up to its update. -/
def Agent.led : Agent → Option (Uuid × Uuid)
  | .running _ (.walk _ _ (.members _ provenanceId (some leadId))) _ => some (provenanceId, leadId)
  | .running _ (.walk _ _ (.update _ provenanceId leadId _ _)) _ => some (provenanceId, leadId)
  | .running _ _ _ | .idle | .returned _ | .patching _ _ _ | .patched _ => none

/-- The group an agent is about to show the sink is its batch's. -/
def GroupNamed : Agent → Prop
  | .running _ (.walk _ _ (.create k _ group _)) _
  | .running _ (.walk _ _ (.update k _ _ group _)) _ =>
    group.ruleId = k.rule.id ∧ group.groupKey = k.group.groupKey
  | .running _ _ _ | .idle | .returned _ | .patching _ _ _ | .patched _ => True

/-- What one step of an agent does to the leads, and where it leaves the agent. -/
inductive LeadStep (s : Db) (a : Agent) (t : Db) (a' : Agent) (calls : List SinkCall) : Prop
  | quiet (leads : leadAt t = leadAt s) (calls : calls = []) (creating : a.creating = none)
      (before : a.holding = none) (after : a'.holding = none)
      (unled : ∀ p, a'.unled = some p → a.unled = some p ∨ leadAt s p = none)
      (led : ∀ p leadId, a'.led = some (p, leadId) →
        a.led = some (p, leadId) ∨ leadAt s p = some leadId)
  | created {p : Uuid} {group : LeadGroup} {answer : Except String Uuid}
      (creating : a.creating = some p) (db : t = s) (calls : calls = [.created group answer])
      (belongs : Belongs s p group.ruleId group.groupKey)
      (after : a'.holding = answer.toOption.map (fun leadId => (p, leadId)))
      (unled : a'.unled = none) (led : a'.led = none)
  | linked {p leadId : Uuid} (holding : a.holding = some (p, leadId))
      (leads : leadAt t = Function.update (leadAt s) p (some leadId)) (calls : calls = [])
      (after : a'.holding = none) (unled : a'.unled = none) (led : a'.led = none)
  | updated {p leadId : Uuid} {group : LeadGroup} {answer : Except String Unit}
      (shown : a.led = some (p, leadId)) (db : t = s) (calls : calls = [.updated leadId group answer])
      (belongs : Belongs s p group.ruleId group.groupKey) (creating : a.creating = none)
      (before : a.holding = none) (after : a'.holding = none) (unled : a'.unled = none)
      (led : a'.led = none)

/-- Where an agent has nothing to do with a lead. -/
structure Apart (a : Agent) : Prop where
  creating : a.creating = none
  holding : a.holding = none
  unled : a.unled = none
  led : a.led = none

theorem LeadStep.apart {a' : Agent} {calls : List SinkCall} (leads : leadAt t = leadAt s)
    (hcalls : calls = []) (creating : a.creating = none) (before : a.holding = none)
    (after : Apart a') : LeadStep s a t a' calls :=
  .quiet leads hcalls creating before after.holding (fun p h => by rw [after.unled] at h; cases h)
    (fun p leadId h => by rw [after.led] at h; cases h)

theorem leadAt_stored {p : LeadProvenance} (hp : p ∈ s.leadProvenances.rows) :
    leadAt s p.id = p.leadId := by
  have hfind : s.leadProvenances.find (·.id == p.id) = some p :=
    Table.find_eq_some hp (by simp) fun x hx => by
      have heq : x.id = p.id := by simpa using hx
      simp [clash, heq]
  rw [leadAt, hfind]
  rfl

theorem leadAt_of_eq (h : t.leadProvenances = s.leadProvenances) : leadAt t = leadAt s := by
  funext p
  rw [leadAt, h, leadAt]

/-- No verb records a lead. -/
theorem leadAt_next (c : Call) : leadAt (s.next c) = leadAt s := by
  obtain ⟨t, rows, heffect, happly⟩ := c.apply_effect s
  rw [Db.next, happly]
  exact leadAt_of_eq (effect_lead heffect).2.2.2.2.1

theorem leadAt_withRule (env : RuleEnv) (cmd : CreateRule) :
    leadAt (Db.withRule env cmd s) = leadAt s := by
  rcases withRule_cases env cmd s with ⟨rows, heq⟩ | ⟨t, rows, hcreated, heq⟩
  · rw [heq]
    rfl
  · rw [heq]
    exact leadAt_of_eq hcreated.provenances

/-- A new provenance has no lead, like one that is not there. -/
theorem leadAt_push {row : LeadProvenance} (haccepts : s.leadProvenances.accepts row = true)
    (hnone : row.leadId = none) :
    leadAt { s with leadProvenances := s.leadProvenances.push row } = leadAt s := by
  funext p
  simp only [leadAt, Table.find, Table.rows_push haccepts, List.find?_append]
  cases s.leadProvenances.rows.find? (·.id == p) with
  | some q => rfl
  | none =>
    rw [Option.none_or, List.find?_singleton]
    split
    · exact hnone
    · rfl

theorem leadAt_linked {p leadId : Uuid} (hp : ∃ q ∈ s.leadProvenances.rows, q.id = p) :
    leadAt (setProvenanceLead p leadId s) = Function.update (leadAt s) p (some leadId) := by
  funext x
  obtain ⟨q, hq, rfl⟩ := hp
  rw [leadAt, setProvenanceLead, Table.find_modify fun _ => rfl, Function.update_apply]
  split
  · next heq =>
    subst heq
    have hfind : s.leadProvenances.find (·.id == q.id) = some q :=
      Table.find_eq_some hq (by simp) fun x hx => by
        have heq : x.id = q.id := by simpa using hx
        simp [clash, heq]
    rw [hfind]
    simp [LeadProvenance.linked]
  · next hne =>
    rw [leadAt]
    cases hfind : s.leadProvenances.find (·.id == x) with
    | none => rfl
    | some y =>
      have heq : y.id = x := by simpa using Table.find_spec hfind
      simp [heq, hne]

theorem apart_ofRules (caps : Caps) (origin : Origin) (e : Uuid) (summary : LeadRunSummary)
    (rules : List LeadRule) : Apart (.running caps (.walk origin e (.ofRules rules)) summary) := by
  cases rules <;> exact ⟨rfl, rfl, rfl, rfl⟩

theorem apart_ofGroups (caps : Caps) (origin : Origin) (e : Uuid) (summary : LeadRunSummary)
    (rule : LeadRule) (predicates : List LeadPredicate) (rest : List LeadRule) (full : Bool)
    (groups : List MemberGroup) :
    Apart (.running caps (.walk origin e (.ofGroups rule predicates rest full groups)) summary) := by
  cases groups with
  | nil =>
    cases full with
    | true => exact ⟨rfl, rfl, rfl, rfl⟩
    | false => exact apart_ofRules caps origin e summary rest
  | cons => exact ⟨rfl, rfl, rfl, rfl⟩

theorem apart_after (origin : Origin) (caps : Caps) (e : Uuid) (reason : Option String)
    (summary : LeadRunSummary) : Apart (origin.after caps e reason summary) := by
  cases origin <;> exact ⟨rfl, rfl, rfl, rfl⟩

theorem stage_lead_step {caps : Caps} {origin : Origin} {e : Uuid} {summary : LeadRunSummary}
    {stage : Stage} (hsound : StageSound s e stage)
    (hnamed : GroupNamed (.running caps (.walk origin e stage) summary)) :
    LeadStep s (.running caps (.walk origin e stage) summary)
      (stage.turn caps origin e tick summary s).db (stage.turn caps origin e tick summary s).agent
      (stage.turn caps origin e tick summary s).calls := by
  cases stage with
  | readRules => exact .apart rfl rfl rfl rfl (apart_ofRules ..)
  | readPredicates => exact .apart rfl rfl rfl rfl ⟨rfl, rfl, rfl, rfl⟩
  | readEligible =>
    simp only [Stage.turn]
    split
    · exact .apart rfl rfl rfl rfl ⟨rfl, rfl, rfl, rfl⟩
    · exact .apart rfl rfl rfl rfl (apart_ofGroups ..)
  | upsert k =>
    simp only [Stage.turn]
    split
    · exact .apart rfl rfl rfl rfl ⟨rfl, rfl, rfl, rfl⟩
    · next provenanceId lead t hupsert =>
      have hleads : leadAt t = leadAt s ∧ leadAt s provenanceId = lead := by
        rcases upsertProvenance_ok hupsert with ⟨rfl, p, hp, hid, hlead, -⟩ | ⟨rfl, rfl, haccepts, rfl⟩
        · exact ⟨rfl, by rw [← hid, leadAt_stored hp, hlead]⟩
        · refine ⟨leadAt_push haccepts rfl, ?_⟩
          rw [leadAt]
          cases hfind : s.leadProvenances.find (·.id == tick.provenanceId) with
          | none => rfl
          | some q =>
            have heq : q.id = tick.provenanceId := by simpa using Table.find_spec hfind
            have hclash := Table.accepts_iff.mp haccepts q (Table.find_mem hfind)
            simp [clash, heq] at hclash
      refine .quiet hleads.1 rfl rfl rfl rfl (fun p hp => ?_) fun p leadId hp => ?_
      · cases lead with
        | none =>
          obtain rfl := Option.some.inj hp
          exact .inr hleads.2
        | some leadId => cases hp
      · cases lead with
        | none => cases hp
        | some leadId' =>
          obtain ⟨rfl, rfl⟩ := Prod.mk.inj (Option.some.inj hp)
          exact .inr hleads.2
  | members k provenanceId lead =>
    simp only [Stage.turn]
    cases lead with
    | none => exact .quiet rfl rfl rfl rfl rfl (fun p hp => .inl hp) (fun p leadId hp => by cases hp)
    | some leadId =>
      simp only
      split
      · exact .apart rfl rfl rfl rfl (apart_ofGroups ..)
      · exact .quiet rfl rfl rfl rfl rfl (fun p hp => by cases hp) (fun p leadId hp => .inl hp)
  | create k provenanceId group newIds =>
    have hbelongs : Belongs s provenanceId group.ruleId group.groupKey := by
      rw [hnamed.1, hnamed.2]
      exact hsound.belongs
    simp only [Stage.turn]
    split
    · next heq =>
      rw [heq]
      exact .created rfl rfl rfl hbelongs rfl rfl rfl
    · next heq =>
      rw [heq]
      exact .created rfl rfl rfl hbelongs rfl rfl rfl
  | setLead k provenanceId leadId newIds =>
    obtain ⟨p, hp, hid, -⟩ := hsound.belongs
    exact .linked rfl (leadAt_linked ⟨p, hp, hid⟩) rfl rfl rfl rfl
  | update k provenanceId leadId group newIds =>
    have hbelongs : Belongs s provenanceId group.ruleId group.groupKey := by
      rw [hnamed.1, hnamed.2]
      exact hsound.belongs
    simp only [Stage.turn]
    split
    · exact .updated rfl rfl rfl hbelongs rfl rfl rfl rfl rfl
    · exact .updated rfl rfl rfl hbelongs rfl rfl rfl rfl rfl
  | junction =>
    simp only [Stage.turn]
    split
    · exact .apart rfl rfl rfl rfl ⟨rfl, rfl, rfl, rfl⟩
    · next hadd =>
      obtain ⟨table, rfl, -⟩ := junctionAdd_ok hadd
      exact .apart rfl rfl rfl rfl (apart_ofGroups ..)
  | finish reason =>
    simp only [Stage.turn, finishRequestByEvent]
    split
    · exact .apart rfl rfl rfl rfl ⟨rfl, rfl, rfl, rfl⟩
    · next hfinish =>
      split at hfinish
      · obtain rfl := Except.ok.inj hfinish
        exact .apart rfl rfl rfl rfl (apart_after ..)
      · cases hfinish

variable (tick) in
theorem lead_step (hsound : AgentSound s a) (hnamed : GroupNamed a) :
    LeadStep s a (a.turn tick s).db (a.turn tick s).agent (a.turn tick s).calls := by
  cases a with
  | idle | returned | patched => exact .apart rfl rfl rfl rfl ⟨rfl, rfl, rfl, rfl⟩
  | patching env patch stage =>
    cases stage with
    | update =>
      simp only [Agent.turn, Patching.turn]
      split
      · exact .apart rfl rfl rfl rfl ⟨rfl, rfl, rfl, rfl⟩
      · next hupdate =>
        obtain ⟨rfl, -⟩ := updateRule_ok hupdate
        exact .apart rfl rfl rfl rfl ⟨rfl, rfl, rfl, rfl⟩
    | arm | audit => exact .apart rfl rfl rfl rfl ⟨rfl, rfl, rfl, rfl⟩
  | running caps point summary =>
    cases point with
    | claim parked =>
      simp only [Agent.turn, Point.turn]
      split
      · exact .apart rfl rfl rfl rfl ⟨rfl, rfl, rfl, rfl⟩
      · rcases claimNextDueRequest_cases parked tick.now tick.locked s with heq | ⟨q, -, -, heq⟩ <;>
          rw [heq] <;> exact .apart rfl rfl rfl rfl ⟨rfl, rfl, rfl, rfl⟩
    | lease e =>
      simp only [Agent.turn, Point.turn]
      rcases tryLeaseRequestOfEvent_cases e tick.now s with ⟨-, heq⟩ | ⟨q, -, -, -, heq⟩ <;>
        rw [heq] <;> exact .apart rfl rfl rfl rfl ⟨rfl, rfl, rfl, rfl⟩
    | refuse => exact .apart rfl rfl rfl rfl ⟨rfl, rfl, rfl, rfl⟩
    | walk origin e stage => exact stage_lead_step hsound hnamed

theorem named_of_apart (h : Apart a) : GroupNamed a := by
  cases a with
  | idle | returned | patching | patched => trivial
  | running caps point summary =>
    cases point with
    | claim | lease | refuse => trivial
    | walk origin e stage =>
      cases stage with
      | create => cases h.creating
      | update => cases h.led
      | readRules | readPredicates | readEligible | upsert | members | setLead | junction | finish =>
        trivial

theorem stage_named (caps : Caps) (origin : Origin) (e : Uuid) (summary : LeadRunSummary)
    (stage : Stage) : GroupNamed (stage.turn caps origin e tick summary s).agent := by
  cases stage with
  | readRules => exact named_of_apart (apart_ofRules ..)
  | readPredicates | setLead => trivial
  | readEligible =>
    simp only [Stage.turn]
    split
    · trivial
    · exact named_of_apart (apart_ofGroups ..)
  | upsert | create | update => simp only [Stage.turn]; split <;> trivial
  | members =>
    simp only [Stage.turn]
    split
    · split
      · exact named_of_apart (apart_ofGroups ..)
      · exact ⟨rfl, rfl⟩
    · exact ⟨rfl, rfl⟩
  | junction =>
    simp only [Stage.turn]
    split
    · trivial
    · exact named_of_apart (apart_ofGroups ..)
  | finish =>
    simp only [Stage.turn]
    split
    · trivial
    · exact named_of_apart (apart_after ..)

theorem turn_named (a : Agent) : GroupNamed (a.turn tick s).agent := by
  cases a with
  | idle | returned | patched => trivial
  | patching env patch stage =>
    cases stage with
    | update => simp only [Agent.turn, Patching.turn]; split <;> trivial
    | arm | audit => trivial
  | running caps point summary =>
    cases point with
    | claim parked =>
      simp only [Agent.turn, Point.turn]
      split
      · trivial
      · split <;> trivial
    | lease => simp only [Agent.turn, Point.turn]; split <;> trivial
    | refuse => trivial
    | walk origin e stage => exact stage_named caps origin e summary stage

end turn

section runs

variable {ι : Type} [DecidableEq ι] {w w' : World ι}

theorem belongs_unique {s : Db} {p ruleId ruleId' : Uuid} {groupKey groupKey' : String}
    (h : Belongs s p ruleId groupKey) (h' : Belongs s p ruleId' groupKey') :
    ruleId = ruleId' ∧ groupKey = groupKey' := by
  obtain ⟨q, hq, hid, rfl, rfl⟩ := h
  obtain ⟨q', hq', hid', rfl, rfl⟩ := h'
  obtain rfl : q = q' := Table.eq_of_clash hq hq' (by simp [clash, hid, hid'])
  exact ⟨rfl, rfl⟩

theorem belongs_same {s : Db} {p p' ruleId : Uuid} {groupKey : String}
    (h : Belongs s p ruleId groupKey) (h' : Belongs s p' ruleId groupKey) : p = p' := by
  obtain ⟨q, hq, rfl, hrule, hkey⟩ := h
  obtain ⟨q', hq', rfl, hrule', hkey'⟩ := h'
  obtain rfl : q = q' := Table.eq_of_clash hq hq' (by simp [clash, hrule, hkey, hrule', hkey'])
  rfl

/-- Some call of the provenance's group has a lead. -/
def Called (w : World ι) (p : Uuid) : Prop :=
  ∃ c ∈ w.calls, c.lead.isSome ∧ Belongs w.db p c.group.ruleId c.group.groupKey

/-- The leads, the walkers that carry one and the calls agree. -/
structure LeadInv (w : World ι) : Prop where
  sound : w.Sound
  named : ∀ i, GroupNamed (w.agents i)
  alone : ∀ i p leadId, (w.agents i).holding = some (p, leadId) → leadAt w.db p = none ∧
    ∀ j leadId', (w.agents j).holding = some (p, leadId') → j = i
  called : ∀ i p leadId, (w.agents i).holding = some (p, leadId) → Called w p
  led : ∀ i p leadId, (w.agents i).led = some (p, leadId) → leadAt w.db p = some leadId
  unled : ∀ i p leadId, (w.agents i).unled = some p → leadAt w.db p = some leadId → Called w p
  told : ∀ c ∈ w.calls, ∀ leadId ∈ c.lead, ∃ p, Belongs w.db p c.group.ruleId c.group.groupKey ∧
    (leadAt w.db p = some leadId ∨ ∃ i, (w.agents i).holding = some (p, leadId))
  ordered : w.calls.Pairwise SinkCall.Precedes

omit [DecidableEq ι] in
theorem lead_start (s : Db) : LeadInv (World.start s : World ι) where
  sound := sound_start s
  named i := trivial
  alone i p leadId h := by cases h
  called i p leadId h := by cases h
  led i p leadId h := by cases h
  unled i p leadId h := by cases h
  told c hc := by cases hc
  ordered := .nil

omit [DecidableEq ι] in
theorem Called.mono {p : Uuid} (h : Called w p) (hkept : Kept w.db w'.db)
    (hcalls : ∀ c ∈ w.calls, c ∈ w'.calls) : Called w' p := by
  obtain ⟨c, hc, hlead, hbelongs⟩ := h
  exact ⟨c, hcalls c hc, hlead, hbelongs.kept hkept⟩

omit [DecidableEq ι] in
/-- A step that calls nothing, records no lead and moves no walker that carries one. -/
theorem LeadInv.frame (h : LeadInv w) (sound : w'.Sound) (named : ∀ i, GroupNamed (w'.agents i))
    (kept : Kept w.db w'.db) (leads : leadAt w'.db = leadAt w.db) (calls : w'.calls = w.calls)
    (holding : ∀ i, (w'.agents i).holding = (w.agents i).holding)
    (led : ∀ i p leadId, (w'.agents i).led = some (p, leadId) →
      (w.agents i).led = some (p, leadId) ∨ leadAt w.db p = some leadId)
    (unled : ∀ i p, (w'.agents i).unled = some p →
      (w.agents i).unled = some p ∨ leadAt w.db p = none) : LeadInv w' where
  sound := sound
  named := named
  alone i p leadId hi := by
    rw [holding] at hi
    obtain ⟨hnone, hone⟩ := h.alone i p leadId hi
    exact ⟨by rw [leads, hnone], fun j leadId' hj => hone j leadId' (holding j ▸ hj)⟩
  called i p leadId hi :=
    (h.called i p leadId (holding i ▸ hi)).mono kept fun c hc => calls ▸ hc
  led i p leadId hi := by
    rw [leads]
    rcases led i p leadId hi with hbefore | hlead
    · exact h.led i p leadId hbefore
    · exact hlead
  unled i p leadId hi hlead := by
    rw [leads] at hlead
    rcases unled i p hi with hbefore | hnone
    · exact (h.unled i p leadId hbefore hlead).mono kept fun c hc => calls ▸ hc
    · rw [hnone] at hlead
      cases hlead
  told c hc leadId hlead := by
    obtain ⟨p, hbelongs, hp⟩ := h.told c (calls ▸ hc) leadId hlead
    refine ⟨p, hbelongs.kept kept, ?_⟩
    rw [leads]
    exact hp.imp_right fun ⟨i, hi⟩ => ⟨i, (holding i).trans hi⟩
  ordered := calls ▸ h.ordered

/-- Entering is far from any lead. -/
theorem enter_apart {i : ι} {a : Agent} (ha : Apart a) (j : ι) :
    ((w.enter i a).agents j).holding = (w.agents j).holding ∧
    ((w.enter i a).agents j).led = (w.agents j).led ∧
    ((w.enter i a).agents j).unled = (w.agents j).unled := by
  simp only [World.enter]
  split
  · exact ⟨rfl, rfl, rfl⟩
  · next hrunning =>
    by_cases hj : j = i
    · subst hj
      rw [World.setAgent_self, ha.holding, ha.led, ha.unled]
      cases h : w.agents j with
      | idle | returned | patched => exact ⟨rfl, rfl, rfl⟩
      | running | patching => simp [h, Agent.isRunning] at hrunning
    · rw [World.setAgent_of_ne hj]
      exact ⟨rfl, rfl, rfl⟩

theorem enter_named {i : ι} {a : Agent} (ha : Apart a) (h : ∀ j, GroupNamed (w.agents j)) (j : ι) :
    GroupNamed ((w.enter i a).agents j) := by
  simp only [World.enter]
  split
  · exact h j
  · by_cases hj : j = i
    · subst hj
      rw [World.setAgent_self]
      exact named_of_apart ha
    · rw [World.setAgent_of_ne hj]
      exact h j

theorem creating_agent {a : Agent} {p : Uuid} (h : a.creating = some p) :
    ∃ caps origin e k group newIds summary,
      a = .running caps (.walk origin e (.create k p group newIds)) summary := by
  cases a with
  | idle | returned | patching | patched => cases h
  | running caps point summary =>
    cases point with
    | claim | lease | refuse => cases h
    | walk origin e stage =>
      cases stage with
      | create k provenanceId group newIds =>
        obtain rfl := Option.some.inj h
        exact ⟨caps, origin, e, k, group, newIds, summary, rfl⟩
      | readRules | readPredicates | readEligible | upsert | members | setLead | update | junction
      | finish => cases h

theorem creating_positions {a : Agent} {p : Uuid} (h : a.creating = some p) :
    a.unled = some p ∧ a.holding = none := by
  obtain ⟨caps, origin, e, k, group, newIds, summary, rfl⟩ := creating_agent h
  exact ⟨rfl, rfl⟩

omit [DecidableEq ι] in
/-- A create for a group that has a lead already comes after a call of the group. -/
theorem firstCreate_of_precedes {i : ι} {p : Uuid} {group : LeadGroup} {answer : Except String Uuid}
    (h : LeadInv w) (hcreating : (w.agents i).creating = some p)
    (hbelongs : Belongs w.db p group.ruleId group.groupKey)
    (hprecedes : ∀ c ∈ w.calls, c.Precedes (.created group answer)) :
    leadAt w.db p = none ∧ ∀ j, ∀ pending ∈ (w.agents j).holding, pending.1 ≠ p := by
  have hnot : ¬ Called w p := by
    rintro ⟨c, hc, hsome, hc'⟩
    obtain ⟨leadId, hlead⟩ := Option.isSome_iff_exists.mp hsome
    cases hprecedes c hc (belongs_unique hc' hbelongs) leadId hlead
  constructor
  · cases hlead : leadAt w.db p with
    | none => rfl
    | some leadId => exact absurd (h.unled i p leadId (creating_positions hcreating).1 hlead) hnot
  · rintro j ⟨p', leadId⟩ hpending rfl
    exact hnot (h.called j p' leadId hpending)

variable {i : ι} {tick : Tick}

theorem next_turn_self :
    (w.next (.turn i tick)).agents i = ((w.agents i).turn tick w.db).agent := World.setAgent_self ..

theorem next_turn_of_ne {j : ι} (h : j ≠ i) : (w.next (.turn i tick)).agents j = w.agents j :=
  World.setAgent_of_ne h

/-- Where the agent of the step is left with nothing, only the others have something. -/
theorem of_other {β : Type} {f : Agent → Option β} {j : ι} {x : β}
    (hnone : f ((w.agents i).turn tick w.db).agent = none)
    (h : f ((w.next (.turn i tick)).agents j) = some x) : j ≠ i ∧ f (w.agents j) = some x := by
  have hne : j ≠ i := by
    rintro rfl
    rw [next_turn_self, hnone] at h
    cases h
  exact ⟨hne, by rwa [next_turn_of_ne hne] at h⟩

theorem turn_calls : (w.next (.turn i tick)).calls = w.calls ++ ((w.agents i).turn tick w.db).calls :=
  rfl

theorem next_named (h : ∀ j, GroupNamed (w.agents j)) (j : ι) :
    GroupNamed ((w.next (.turn i tick)).agents j) := by
  by_cases hj : j = i
  · subst hj
    rw [next_turn_self]
    exact turn_named _
  · rw [next_turn_of_ne hj]
    exact h j

theorem LeadInv.quiet (h : LeadInv w) (leads : leadAt (w.next (.turn i tick)).db = leadAt w.db)
    (calls : ((w.agents i).turn tick w.db).calls = []) (before : (w.agents i).holding = none)
    (after : ((w.agents i).turn tick w.db).agent.holding = none)
    (unled : ∀ p, ((w.agents i).turn tick w.db).agent.unled = some p →
      (w.agents i).unled = some p ∨ leadAt w.db p = none)
    (led : ∀ p leadId, ((w.agents i).turn tick w.db).agent.led = some (p, leadId) →
      (w.agents i).led = some (p, leadId) ∨ leadAt w.db p = some leadId) :
    LeadInv (w.next (.turn i tick)) := by
  refine h.frame (h.sound.next _) (next_named h.named) (world_kept w _) leads ?_ (fun j => ?_)
    (fun j p leadId hj => ?_) (fun j p hj => ?_)
  · rw [turn_calls, calls, List.append_nil]
  · by_cases hj : j = i
    · subst hj
      rw [next_turn_self, after, before]
    · rw [next_turn_of_ne hj]
  · by_cases hji : j = i
    · subst hji
      rw [next_turn_self] at hj
      exact led p leadId hj
    · rw [next_turn_of_ne hji] at hj
      exact .inl hj
  · by_cases hji : j = i
    · subst hji
      rw [next_turn_self] at hj
      exact unled p hj
    · rw [next_turn_of_ne hji] at hj
      exact .inl hj

theorem mem_turn_calls {c : SinkCall} (hc : c ∈ w.calls) : c ∈ (w.next (.turn i tick)).calls :=
  List.mem_append_left _ hc

omit [DecidableEq ι] in
/-- A lead that a call of the group has told of is the group's, or its agent still holds it. -/
theorem LeadInv.told_of_group {c c' : SinkCall} {p leadId : Uuid} (h : LeadInv w) (hc : c ∈ w.calls)
    (hsame : c.sameGroup c') (hlead : leadId ∈ c.lead)
    (belongs : Belongs w.db p c'.group.ruleId c'.group.groupKey) :
    leadAt w.db p = some leadId ∨ ∃ j, (w.agents j).holding = some (p, leadId) := by
  obtain ⟨q, hq, hleads⟩ := h.told c hc leadId hlead
  obtain rfl : q = p := by
    rw [hsame.1, hsame.2] at hq
    exact belongs_same hq belongs
  exact hleads

/-- What was told stays told by a step that writes no lead and was not about to. -/
theorem LeadInv.told_kept {c : SinkCall} {leadId : Uuid} (h : LeadInv w)
    (db : (w.next (.turn i tick)).db = w.db) (before : (w.agents i).holding = none)
    (hc : c ∈ w.calls) (hlead : leadId ∈ c.lead) :
    ∃ p, Belongs (w.next (.turn i tick)).db p c.group.ruleId c.group.groupKey ∧
      (leadAt (w.next (.turn i tick)).db p = some leadId ∨
        ∃ j, ((w.next (.turn i tick)).agents j).holding = some (p, leadId)) := by
  obtain ⟨p, hp, hleads⟩ := h.told c hc leadId hlead
  refine ⟨p, hp.kept (world_kept w (.turn i tick)), ?_⟩
  rw [db]
  refine hleads.imp_right fun ⟨j, hj⟩ => ⟨j, ?_⟩
  have hji : j ≠ i := by
    rintro rfl
    rw [before] at hj
    cases hj
  rwa [next_turn_of_ne hji]

theorem LeadInv.created {p : Uuid} {group : LeadGroup} {answer : Except String Uuid} (h : LeadInv w)
    (hfirst : FirstCreate w (.turn i tick)) (creating : (w.agents i).creating = some p)
    (db : (w.next (.turn i tick)).db = w.db)
    (calls : ((w.agents i).turn tick w.db).calls = [.created group answer])
    (belongs : Belongs w.db p group.ruleId group.groupKey)
    (after : ((w.agents i).turn tick w.db).agent.holding =
      answer.toOption.map (fun leadId => (p, leadId)))
    (unled : ((w.agents i).turn tick w.db).agent.unled = none)
    (led : ((w.agents i).turn tick w.db).agent.led = none) : LeadInv (w.next (.turn i tick)) := by
  have hkept := world_kept w (.turn i tick)
  obtain ⟨hnone, hfree⟩ := hfirst p creating
  have hbelongs : Belongs (w.next (.turn i tick)).db p group.ruleId group.groupKey :=
    belongs.kept hkept
  have hown : ∀ {x : Uuid × Uuid}, ((w.next (.turn i tick)).agents i).holding = some x →
      x.1 = p ∧ answer = .ok x.2 := by
    intro x hx
    rw [next_turn_self, after] at hx
    cases answer with
    | error => cases hx
    | ok leadId =>
      obtain rfl := Option.some.inj hx
      exact ⟨rfl, rfl⟩
  refine ⟨h.sound.next _, next_named h.named, fun j q leadId hj => ?_, fun j q leadId hj => ?_,
    fun j q leadId hj => ?_, fun j q leadId hj hlead => ?_, fun c hc leadId hlead => ?_, ?_⟩
  · by_cases hji : j = i
    · subst hji
      obtain ⟨rfl, -⟩ := hown hj
      refine ⟨db ▸ hnone, fun j' leadId' hj' => ?_⟩
      by_contra hne
      rw [next_turn_of_ne hne] at hj'
      exact hfree j' _ hj' rfl
    · rw [next_turn_of_ne hji] at hj
      obtain ⟨hlead, hone⟩ := h.alone j q leadId hj
      refine ⟨db ▸ hlead, fun j' leadId' hj' => ?_⟩
      by_cases hji' : j' = i
      · subst hji'
        obtain ⟨rfl, -⟩ := hown hj'
        exact absurd rfl (hfree j (q, leadId) hj)
      · rw [next_turn_of_ne hji'] at hj'
        exact hone j' leadId' hj'
  · by_cases hji : j = i
    · subst hji
      obtain ⟨rfl, heq⟩ := hown hj
      refine ⟨.created group answer, ?_, by rw [heq]; rfl, hbelongs⟩
      rw [turn_calls, calls]
      exact List.mem_append_right _ (List.mem_singleton.mpr rfl)
    · rw [next_turn_of_ne hji] at hj
      exact (h.called j q leadId hj).mono hkept fun c hc => mem_turn_calls hc
  · obtain ⟨-, hj⟩ := of_other led hj
    rw [db]
    exact h.led j q leadId hj
  · obtain ⟨-, hj⟩ := of_other unled hj
    rw [db] at hlead
    exact (h.unled j q leadId hj hlead).mono hkept fun c hc => mem_turn_calls hc
  · rw [turn_calls, calls, List.mem_append, List.mem_singleton] at hc
    rcases hc with hc | rfl
    · exact h.told_kept db (creating_positions creating).2 hc hlead
    · refine ⟨p, hbelongs, .inr ⟨i, ?_⟩⟩
      rw [next_turn_self, after]
      cases answer with
      | error => cases hlead
      | ok leadId' =>
        obtain rfl := Option.some.inj hlead
        rfl
  · rw [turn_calls, calls]
    refine ordered_concat.mpr ⟨h.ordered, fun c hc hsame leadId hlead => ?_⟩
    rcases h.told_of_group hc hsame hlead belongs with hlead' | ⟨j, hj⟩
    · rw [hnone] at hlead'
      cases hlead'
    · exact absurd rfl (hfree j _ hj)

theorem LeadInv.linked {p leadId : Uuid} (h : LeadInv w)
    (holding : (w.agents i).holding = some (p, leadId))
    (leads : leadAt (w.next (.turn i tick)).db = Function.update (leadAt w.db) p (some leadId))
    (calls : ((w.agents i).turn tick w.db).calls = [])
    (after : ((w.agents i).turn tick w.db).agent.holding = none)
    (unled : ((w.agents i).turn tick w.db).agent.unled = none)
    (led : ((w.agents i).turn tick w.db).agent.led = none) : LeadInv (w.next (.turn i tick)) := by
  have hkept := world_kept w (.turn i tick)
  obtain ⟨hnone, hone⟩ := h.alone i p leadId holding
  have hcalls : (w.next (.turn i tick)).calls = w.calls := by
    rw [turn_calls, calls, List.append_nil]
  refine ⟨h.sound.next _, next_named h.named, fun j q leadId' hj => ?_, fun j q leadId' hj => ?_,
    fun j q leadId' hj => ?_, fun j q leadId' hj hlead => ?_, fun c hc leadId' hlead => ?_, ?_⟩
  · obtain ⟨hji, hj⟩ := of_other after hj
    obtain ⟨hlead, hothers⟩ := h.alone j q leadId' hj
    have hq : q ≠ p := by
      rintro rfl
      exact hji (hone j leadId' hj)
    refine ⟨by rw [leads, Function.update_of_ne hq, hlead], fun j' leadId'' hj' => ?_⟩
    exact hothers j' leadId'' (of_other after hj').2
  · obtain ⟨-, hj⟩ := of_other after hj
    exact (h.called j q leadId' hj).mono hkept fun c hc => mem_turn_calls hc
  · obtain ⟨-, hj⟩ := of_other led hj
    have hlead := h.led j q leadId' hj
    have hq : q ≠ p := by
      rintro rfl
      rw [hnone] at hlead
      cases hlead
    rw [leads, Function.update_of_ne hq, hlead]
  · obtain ⟨-, hj⟩ := of_other unled hj
    by_cases hq : q = p
    · subst hq
      exact (h.called i q leadId holding).mono hkept fun c hc => mem_turn_calls hc
    · rw [leads, Function.update_of_ne hq] at hlead
      exact (h.unled j q leadId' hj hlead).mono hkept fun c hc => mem_turn_calls hc
  · rw [hcalls] at hc
    obtain ⟨q, hq, hlead'⟩ := h.told c hc leadId' hlead
    refine ⟨q, hq.kept hkept, ?_⟩
    rw [leads]
    by_cases hqp : q = p
    · subst hqp
      rcases hlead' with hlead' | ⟨j, hj⟩
      · rw [hnone] at hlead'
        cases hlead'
      · obtain rfl := hone j leadId' hj
        rw [holding] at hj
        obtain ⟨-, rfl⟩ := Prod.mk.inj (Option.some.inj hj)
        exact .inl (Function.update_self ..)
    · rw [Function.update_of_ne hqp]
      refine hlead'.imp_right fun ⟨j, hj⟩ => ⟨j, ?_⟩
      have hji : j ≠ i := by
        rintro rfl
        rw [holding] at hj
        obtain ⟨rfl, -⟩ := Prod.mk.inj (Option.some.inj hj)
        exact hqp rfl
      rwa [next_turn_of_ne hji]
  · rw [hcalls]
    exact h.ordered

theorem LeadInv.updated {p leadId : Uuid} {group : LeadGroup} {answer : Except String Unit}
    (h : LeadInv w) (shown : (w.agents i).led = some (p, leadId))
    (db : (w.next (.turn i tick)).db = w.db)
    (calls : ((w.agents i).turn tick w.db).calls = [.updated leadId group answer])
    (belongs : Belongs w.db p group.ruleId group.groupKey) (before : (w.agents i).holding = none)
    (after : ((w.agents i).turn tick w.db).agent.holding = none)
    (unled : ((w.agents i).turn tick w.db).agent.unled = none)
    (led : ((w.agents i).turn tick w.db).agent.led = none) : LeadInv (w.next (.turn i tick)) := by
  have hkept := world_kept w (.turn i tick)
  have hlead := h.led i p leadId shown
  refine ⟨h.sound.next _, next_named h.named, fun j q leadId' hj => ?_, fun j q leadId' hj => ?_,
    fun j q leadId' hj => ?_, fun j q leadId' hj hlead' => ?_, fun c hc leadId' hlead' => ?_, ?_⟩
  · obtain ⟨-, hj⟩ := of_other after hj
    obtain ⟨hnone, hothers⟩ := h.alone j q leadId' hj
    exact ⟨db ▸ hnone, fun j' leadId'' hj' => hothers j' leadId'' (of_other after hj').2⟩
  · obtain ⟨-, hj⟩ := of_other after hj
    exact (h.called j q leadId' hj).mono hkept fun c hc => mem_turn_calls hc
  · obtain ⟨-, hj⟩ := of_other led hj
    rw [db]
    exact h.led j q leadId' hj
  · obtain ⟨-, hj⟩ := of_other unled hj
    rw [db] at hlead'
    exact (h.unled j q leadId' hj hlead').mono hkept fun c hc => mem_turn_calls hc
  · rw [turn_calls, calls, List.mem_append, List.mem_singleton] at hc
    rcases hc with hc | rfl
    · exact h.told_kept db before hc hlead'
    · obtain rfl := Option.some.inj hlead'
      exact ⟨p, belongs.kept hkept, .inl (db ▸ hlead)⟩
  · rw [turn_calls, calls]
    refine ordered_concat.mpr ⟨h.ordered, fun c hc hsame leadId' hlead' => ?_⟩
    rcases h.told_of_group hc hsame hlead' belongs with hq' | ⟨j, hj⟩
    · rw [hlead] at hq'
      exact hq'
    · rw [(h.alone j p leadId' hj).1] at hlead
      cases hlead

/-- A step that meets the condition keeps the account. -/
theorem LeadInv.turn (h : LeadInv w) (hfirst : FirstCreate w (.turn i tick)) :
    LeadInv (w.next (.turn i tick)) := by
  cases lead_step tick (h.sound i) (h.named i) with
  | quiet leads calls creating before after unled led =>
    exact h.quiet leads calls before after unled led
  | created creating db calls belongs after unled led =>
    exact h.created hfirst creating db calls belongs after unled led
  | linked holding leads calls after unled led => exact h.linked holding leads calls after unled led
  | updated shown db calls belongs creating before after unled led =>
    exact h.updated shown db calls belongs before after unled led

theorem LeadInv.next {a : Act ι} (hcrash : a.isCrash = false) (h : LeadInv w)
    (hfirst : FirstCreate w a) : LeadInv (w.next a) := by
  have hsound := h.sound.next a
  have hkept := world_kept w a
  cases a with
  | crash => cases hcrash
  | turn i tick => exact h.turn hfirst
  | verb c =>
    exact h.frame hsound h.named hkept (leadAt_next c) rfl (fun _ => rfl) (fun _ _ _ hi => .inl hi)
      fun _ _ hi => .inl hi
  | createRule env cmd =>
    exact h.frame hsound h.named hkept (leadAt_withRule env cmd) rfl (fun _ => rfl)
      (fun _ _ _ hi => .inl hi) fun _ _ hi => .inl hi
  | patchRule i env patch | runDueLeadRequests i caps | runRequestOfEvent i caps e =>
    simp only [World.next] at hsound hkept ⊢
    refine h.frame hsound (enter_named ⟨rfl, rfl, rfl, rfl⟩ h.named) hkept (by rw [enter_db]) ?_
      (fun j => (enter_apart ⟨rfl, rfl, rfl, rfl⟩ j).1)
      (fun j p leadId hj => .inl ?_) fun j p hj => .inl ?_
    · simp only [World.enter]
      split <;> rfl
    · rwa [(enter_apart ⟨rfl, rfl, rfl, rfl⟩ j).2.1] at hj
    · rwa [(enter_apart ⟨rfl, rfl, rfl, rfl⟩ j).2.2] at hj

/-- A create that is not the first breaks the order of the calls. -/
theorem firstCreate_of_oneLead {a : Act ι} (h : LeadInv w) (hnext : OneLead (w.next a).calls) :
    FirstCreate w a := by
  cases a with
  | verb | createRule | patchRule | runDueLeadRequests | runRequestOfEvent | crash => trivial
  | turn i tick =>
    intro p hp
    cases lead_step tick (h.sound i) (h.named i) with
    | quiet leads calls creating =>
      rw [creating] at hp
      cases hp
    | @created p' group answer creating db calls belongs =>
      obtain rfl : p' = p := Option.some.inj (creating.symm.trans hp)
      have hordered := hnext.ordered
      rw [turn_calls, calls] at hordered
      exact firstCreate_of_precedes h creating belongs (ordered_concat.mp hordered).2
    | linked holding =>
      rw [(creating_positions hp).2] at holding
      cases holding
    | updated shown db calls belongs creating =>
      rw [creating] at hp
      cases hp

/-- Without a crash, every group has one lead exactly as long as no walker creates a lead
for a group whose lead is recorded or on its way. -/
theorem oneLead_iff_firstCreate (s : Db) (acts : List (Act ι))
    (hcrash : ∀ a ∈ acts, a.isCrash = false) :
    Throughout World.next (fun w => OneLead w.calls) (World.start s) acts ↔
      Along World.next FirstCreate (World.start s) acts :=
  throughout_iff_along_within hcrash (lead_start s) (fun _ h => oneLead_of_ordered h.ordered)
    (fun _ _ _ h hnext => firstCreate_of_oneLead h hnext) fun _ _ hok h hfirst => h.next hok hfirst

end runs

section samples

/-- Two events without limits. -/
def twoGigs : Db := { openGig with
  events := openGig.events.push { gig with id := 2, seatsLimited := false, seatsMax := 0 } }

/-- A global rule, and one free order with an attendee in each event. -/
def orderOfTwo : List (Act (Fin 2)) :=
  [.createRule ⟨1, id, id⟩ everyGuest,
    .verb (.seam ⟨.counting 1, "events", some "a", 7, none,
      .confirmed "0" [ann, { ann with eventId := 2 }]⟩)]

/-- Two passes on the two events, step by step in turn, to their ends. -/
def passesInTurn : List (Act (Fin 2)) :=
  orderOfTwo ++ [.runDueLeadRequests 0 defaultCaps, .runDueLeadRequests 1 defaultCaps] ++
    (List.replicate 12 [Act.turn 0 .accepting,
      .turn 1 { Tick.accepting with junctionId := (· + 9), createLead := fun _ => .ok 2 }]).flatten

/-- One pass after the other. -/
def passesInOrder : List (Act (Fin 2)) :=
  orderOfTwo ++ .runDueLeadRequests 0 defaultCaps :: List.replicate 24 (.turn 0 .accepting)

theorem oneLead_passesInOrder :
    Throughout World.next (fun w => OneLead w.calls) (World.start twoGigs) passesInOrder ↔
      Along World.next FirstCreate (World.start twoGigs) passesInOrder :=
  oneLead_iff_firstCreate twoGigs passesInOrder (by decide)

/-- Both walkers read the order's group without a lead, and both create one, each within its
lease. -/
theorem passesInTurn_createTwo :
    (∀ a ∈ passesInTurn, a.isCrash = false) ∧
    Along Leased.next Leased.Punctual (Leased.start twoGigs) passesInTurn ∧
    ¬ Throughout World.next (fun w => OneLead w.calls) (World.start twoGigs) passesInTurn :=
  ⟨by decide, by decide, fun h => absurd (h.last.one 1 (uuidText 7)) (by decide)⟩

end samples

end BackboneEvents.LeadGeneration
