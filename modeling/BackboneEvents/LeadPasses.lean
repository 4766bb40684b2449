import BackboneEvents.DeterministicRuns
import BackboneEvents.LeadDrains

/-!
# One walk of an event alone

With no other writer, a walk of `run_one` ends. While the sink accepts, it leaves no pair of a
rule and a registration without its junction, and each call shows the whole group. A refusal
stops the walk at the group it refused and parks the event; the next accepting walk ends where
one that was never refused does.
-/
namespace BackboneEvents.LeadGeneration
open ConstrainedTables DeterministicRuns

/-- The event and the stage of a walk under way. -/
def Agent.stage? : Agent → Option (Uuid × Stage)
  | .running _ (.walk _ eventId stage) _ => some (eventId, stage)
  | .running _ (.claim _) _ | .running _ (.lease _) _ | .running _ (.refuse _) _ => none
  | .idle | .returned _ | .patching _ _ _ | .patched _ => none

/-- A walk with no other writer. -/
structure Lone where
  steps : ℕ
  db : Db
  agent : Agent
  calls : List SinkCall

namespace Lone

def ended (l : Lone) : Bool := l.agent.stage?.isNone

def turn (ticks : ℕ → Tick) (l : Lone) : Turn := l.agent.turn (ticks l.steps) l.db

/-- The walk stands where it has ended. -/
def next (ticks : ℕ → Tick) (l : Lone) : Lone :=
  if l.ended then l
  else ⟨l.steps + 1, (l.turn ticks).db, (l.turn ticks).agent, l.calls ++ (l.turn ticks).calls⟩

/-- The sink call the walk is about to make. -/
def calling (ticks : ℕ → Tick) (l : Lone) : List SinkCall :=
  if l.ended then [] else (l.turn ticks).calls

def batch? (l : Lone) : Option Batch := l.agent.stage?.bind (fun p => p.2.batch?)

end Lone

/-- One call of `run_one`. -/
def runOne (caps : Caps) (origin : Origin) (eventId : Uuid) (summary : LeadRunSummary) (s : Db) :
    Lone := ⟨0, s, .running caps (.walk origin eventId .readRules) summary, []⟩

/-- The database draws fresh ids wherever the walk comes. -/
def Undisturbed (ticks : ℕ → Tick) (l : Lone) : Prop :=
  ∀ l', Leads (Lone.next ticks) l l' → FreshIds l'.db (ticks l'.steps)

/-- The call shows the group under way: the members junctioned so far and those of the batch,
each once. -/
def ShowsGroup (l : Lone) (c : SinkCall) : Prop :=
  ∃ k, l.batch? = some k ∧ c.ofGroup k.rule.id k.group.groupKey = true ∧ c.group.ids.Nodup ∧
    ∀ x, x ∈ c.group.ids ↔ Joined l.db k.rule.id k.group.groupKey x ∨
      ∃ m ∈ k.group.members, m.id = x

/-- The queue row of the event carries the reason and no lease. -/
def Parked (s : Db) (eventId : Uuid) (reason : String) : Prop :=
  ∀ q ∈ s.leadRequests.rows, q.eventId = eventId →
    q.done = false ∧ q.errorDetail = some reason ∧ q.claimedAt = none

/-- A walk that ended and was never refused. -/
def Accepted (ticks : ℕ → Tick) (l l' : Lone) : Prop :=
  Leads (Lone.next ticks) l l' ∧ l'.ended = true ∧ ∀ c ∈ l'.calls, c.refusal = none

structure DrainLaw (ticks : ℕ → Tick) (eventId : Uuid) (l : Lone) : Prop where
  ends : Halts (Lone.next ticks) Lone.ended l
  shows : ∀ l', Leads (Lone.next ticks) l l' → ∀ c ∈ l'.calling ticks, ShowsGroup l' c
  drains : ∀ l', Accepted ticks l l' → ∀ d : Debt, d.eventId = eventId → owes l'.db d = true →
    l'.db.provenanced d.ruleId d.registrationId = true
  told : ∀ l', Leads (Lone.next ticks) l l' → l'.ended = true → ∀ ruleId groupKey g,
    lastAccepted l'.calls ruleId groupKey = some g → ∀ x, x ∈ g.ids ↔ Joined l'.db ruleId groupKey x
  parks : ∀ l', Leads (Lone.next ticks) l l' → ∀ c ∈ l'.calling ticks, ∀ reason,
    c.refusal = some reason → ∀ l'', Leads (Lone.next ticks) l' l'' → l''.ended = true →
      Parked l''.db eventId reason ∧ ∀ k, l'.batch? = some k → ∀ m ∈ k.group.members,
        l''.db.provenanced k.rule.id m.id = false
  resumes : ∀ l', Leads (Lone.next ticks) l l' → l'.ended = true →
    ∀ caps' origin summary now ticks' later,
      Undisturbed ticks' (runOne caps' origin eventId summary (l'.db.lease now eventId)) →
      Accepted ticks' (runOne caps' origin eventId summary (l'.db.lease now eventId)) later →
    ∀ caps'' origin' summary' ticks'' never,
      Undisturbed ticks'' (runOne caps'' origin' eventId summary' l.db) →
      Accepted ticks'' (runOne caps'' origin' eventId summary' l.db) never →
    ∀ ruleId groupKey x, Joined later.db ruleId groupKey x ↔ Joined never.db ruleId groupKey x

/-- The registration is owed to the group of this key and in no group of the rule. -/
def Due (s : Db) (eventId ruleId : Uuid) (groupKey : String) (registrationId : Uuid) : Prop :=
  owes s ⟨eventId, registrationId, ruleId⟩ = true ∧ s.provenanced ruleId registrationId = false ∧
    ∃ r ∈ s.registrations.rows, r.id = registrationId ∧ (groupOf eventId r.seen).2 = groupKey

/-- What the groups hold once everything owed is junctioned. -/
def Goal (s : Db) (eventId ruleId : Uuid) (groupKey : String) (registrationId : Uuid) : Prop :=
  Joined s ruleId groupKey registrationId ∨ Due s eventId ruleId groupKey registrationId

section goal

variable {s t : Db} {eventId ruleId registrationId : Uuid} {groupKey : String}

theorem Due.key_unique {key : String} (h : Due s eventId ruleId groupKey registrationId)
    (h' : Due s eventId ruleId key registrationId) : groupKey = key := by
  obtain ⟨-, -, r, hr, hid, rfl⟩ := h
  obtain ⟨-, -, r', hr', hid', rfl⟩ := h'
  obtain rfl : r = r' := Table.eq_of_clash hr hr' (by simp [clash, hid, hid'])
  rfl

/-- A walk that joins only what is due leaves the goal where it was. -/
theorem goal_of_joins (hground : Ground s t)
    (hgrown : ∀ groupKey registrationId, Joined s ruleId groupKey registrationId →
      Joined t ruleId groupKey registrationId)
    (hjoined : ∀ groupKey registrationId, Joined t ruleId groupKey registrationId →
      Goal s eventId ruleId groupKey registrationId) :
    Goal t eventId ruleId groupKey registrationId ↔
      Goal s eventId ruleId groupKey registrationId := by
  constructor
  · rintro (hjoin | ⟨howes, hnone, hrow⟩)
    · exact hjoined _ _ hjoin
    · rw [hground.registrations] at hrow
      refine .inr ⟨hground.owes _ ▸ howes, ?_, hrow⟩
      exact provenanced_eq_false hnone fun _ => hgrown _ _
  · rintro (hjoin | hdue)
    · exact .inl (hgrown _ _ hjoin)
    · cases hprovenanced : t.provenanced ruleId registrationId with
      | false =>
        obtain ⟨howes, -, hrow⟩ := hdue
        rw [← hground.registrations] at hrow
        exact .inr ⟨(hground.owes _).trans howes, hprovenanced, hrow⟩
      | true =>
        obtain ⟨key, hjoin⟩ := provenanced_iff_joined.mp hprovenanced
        rcases hjoined _ _ hjoin with hbefore | hdue'
        · obtain ⟨-, hnone, -⟩ := hdue
          rw [provenanced_iff_joined.mpr ⟨_, hbefore⟩] at hnone
          cases hnone
        · obtain rfl := hdue.key_unique hdue'
          exact .inl hjoin

variable {stage : Stage} {tick : Tick} {caps : Caps} {origin : Origin} {summary : LeadRunSummary}

/-- What a step junctions was due. -/
theorem joins_due (hsound : StageSound s eventId stage) (hapart : StageApart s eventId stage)
    (h : stage.joins ruleId groupKey registrationId) :
    Due s eventId ruleId groupKey registrationId := by
  cases stage with
  | junction k provenanceId newIds grown =>
    obtain ⟨rfl, rfl, hmem⟩ := h
    obtain ⟨hbatched, rfl⟩ := hapart
    obtain ⟨m, hm, rfl⟩ := List.mem_map.mp hmem
    obtain ⟨r, hr, rfl, hq, hnone⟩ := hbatched.members _ List.mem_cons_self m hm
    obtain ⟨-, hkey⟩ := hsound.batch.members _ List.mem_cons_self _ hm
    obtain ⟨hrule, hscope⟩ := hbatched.rules k.rule List.mem_cons_self
    rw [hsound.batch.predicates] at hq
    exact ⟨owes_iff.mpr ⟨⟨k.rule, hrule, rfl, hscope⟩, r, hr, rfl, hq⟩, hnone, r, hr, rfl,
      by rw [hkey]⟩
  | readRules | readPredicates | readEligible | upsert | members | create | setLead | update
  | finish => cases h

end goal

def Agent.pending (a : Agent) (ruleId : Uuid) (groupKey : String) (registrationId : Uuid) : Prop :=
  ∃ p, a.stage? = some p ∧ p.2.pending ruleId groupKey registrationId

/-- What holds wherever a walk that is alone comes, from the database it began with. -/
structure Walking (s : Db) (eventId : Uuid) (l : Lone) : Prop where
  ground : Ground s l.db
  anchored : Anchored l.db
  sound : AgentSound l.db l.agent
  apart : AgentApart l.db l.agent
  own : ∀ e stage, l.agent.stage? = some (e, stage) → e = eventId
  goal : ∀ ruleId groupKey x, Goal l.db eventId ruleId groupKey x ↔ Goal s eventId ruleId groupKey x
  grown : ∀ ruleId groupKey x, Joined s ruleId groupKey x → Joined l.db ruleId groupKey x
  requests : l.ended = false → l.db.leadRequests = s.leadRequests
  told : ∀ ruleId groupKey g, lastAccepted l.calls ruleId groupKey = some g → ∀ x, x ∈ g.ids ↔
    Joined l.db ruleId groupKey x ∨ l.agent.pending ruleId groupKey x
  drained : ∀ d : Debt, d.eventId = eventId → owes l.db d = true →
    (∀ c ∈ l.calls, c.refusal = none) → l.db.provenanced d.ruleId d.registrationId = true ∨
      ∃ stage, l.agent.stage? = some (eventId, stage) ∧ stage.ahead d = true
  refused : ∀ e reason, l.agent.stage? = some (e, .finish (some reason)) →
    ∃ c ∈ l.calls, c.refusal = some reason

section walking

variable {s : Db} {eventId : Uuid} {l : Lone} {ticks : ℕ → Tick} {caps : Caps} {origin : Origin}
  {summary : LeadRunSummary} {stage : Stage}

theorem stage?_eq_some {a : Agent} {p : Uuid × Stage} (h : a.stage? = some p) :
    ∃ caps origin summary, a = .running caps (.walk origin p.1 p.2) summary := by
  cases a with
  | idle | returned | patching | patched => cases h
  | running caps point summary =>
    cases point with
    | claim | lease | refuse => cases h
    | walk origin e stage =>
      obtain rfl := Option.some.inj h
      exact ⟨caps, origin, summary, rfl⟩

theorem Walking.live (h : Walking s eventId l) (hlive : l.ended = false) :
    ∃ caps origin stage summary, l.agent = .running caps (.walk origin eventId stage) summary := by
  obtain ⟨p, hp⟩ := Option.isSome_iff_exists.mp (by simpa [Lone.ended] using hlive)
  obtain ⟨caps, origin, summary, heq⟩ := stage?_eq_some hp
  exact ⟨caps, origin, p.2, summary, by rw [heq, h.own p.1 p.2 hp]⟩

theorem next_of_ended (h : l.ended = true) : l.next ticks = l := if_pos h

variable (ticks) in
theorem next_of_live (h : l.agent = .running caps (.walk origin eventId stage) summary) :
    l.ended = false ∧ l.turn ticks = stage.turn caps origin eventId (ticks l.steps) summary l.db ∧
      l.next ticks = ⟨l.steps + 1, (l.turn ticks).db, (l.turn ticks).agent,
        l.calls ++ (l.turn ticks).calls⟩ := by
  have hlive : l.ended = false := by simp [Lone.ended, h, Agent.stage?]
  exact ⟨hlive, by rw [Lone.turn, h]; rfl, by rw [Lone.next, hlive]; rfl⟩

/-- What a step does to the groups and the queue, whatever the stage. -/
theorem Walking.step (h : Walking s eventId l)
    (hagent : l.agent = .running caps (.walk origin eventId stage) summary)
    (hfresh : FreshIds l.db (ticks l.steps))
    (hown : ∀ e next, (l.next ticks).agent.stage? = some (e, next) → e = eventId)
    (hrequests : (l.next ticks).ended = false → ∀ reason, stage ≠ .finish reason)
    (htold : ∀ ruleId groupKey g, lastAccepted (l.next ticks).calls ruleId groupKey = some g →
      ∀ x, x ∈ g.ids ↔ Joined (l.next ticks).db ruleId groupKey x ∨
        (l.next ticks).agent.pending ruleId groupKey x)
    (hdrained : ∀ d : Debt, d.eventId = eventId → owes l.db d = true →
      (∀ c ∈ (l.next ticks).calls, c.refusal = none) →
        (l.next ticks).db.provenanced d.ruleId d.registrationId = true ∨
          ∃ next, (l.next ticks).agent.stage? = some (eventId, next) ∧ next.ahead d = true)
    (hrefused : ∀ e reason, (l.next ticks).agent.stage? = some (e, .finish (some reason)) →
      ∃ c ∈ (l.next ticks).calls, c.refusal = some reason) : Walking s eventId (l.next ticks) := by
  have hsound := h.sound
  have hapart := h.apart
  rw [hagent] at hsound hapart
  obtain ⟨hlive, hturn, hnext⟩ := next_of_live ticks hagent
  have hjoined := stage_joined caps origin summary h.anchored
    hsound hfresh
  have hground : Ground l.db (l.next ticks).db := by rw [hnext, hturn]; exact stage_ground
  have hgrown : ∀ ruleId groupKey x, Joined l.db ruleId groupKey x →
      Joined (l.next ticks).db ruleId groupKey x := fun _ _ _ hjoin => by
    rw [hnext, hturn]
    exact (hjoined.1 _ _ _).mpr (.inl hjoin)
  refine ⟨h.ground.trans hground, ?_, ?_, ?_, hown, fun ruleId groupKey x => ?_, ?_, ?_, htold,
    fun d hevent howes hcalls => hdrained d hevent ((hground.owes d).symm.trans howes) hcalls,
    hrefused⟩
  · rw [hnext, hturn]
    exact hjoined.2
  · rw [hnext, hturn]
    exact stage_sound _ _ _ _ hsound
  · rw [hnext, hturn]
    exact stage_apart h.anchored hsound hfresh hapart
  · refine (goal_of_joins hground (hgrown ruleId) fun groupKey x hjoin => ?_).trans
      (h.goal ruleId groupKey x)
    rw [hnext, hturn] at hjoin
    exact ((hjoined.1 _ _ _).mp hjoin).imp_right (joins_due hsound hapart)
  · exact fun ruleId groupKey x hjoin => hgrown _ _ _ (h.grown _ _ _ hjoin)
  · intro hlive'
    rw [hnext, hturn]
    exact (stage_requests (hrequests hlive')).trans (h.requests hlive)

theorem pending_live {ruleId x : Uuid} {groupKey : String} :
    (Agent.running caps (.walk origin eventId stage) summary).pending ruleId groupKey x ↔
      stage.pending ruleId groupKey x :=
  ⟨fun ⟨_, hp, h⟩ => by obtain rfl := Option.some.inj hp; exact h, fun h => ⟨_, rfl, h⟩⟩

theorem pending_ended {a : Agent} (h : a.stage? = none) {ruleId x : Uuid} {groupKey : String} :
    ¬ a.pending ruleId groupKey x := by
  rintro ⟨p, hp, -⟩
  rw [h] at hp
  cases hp

theorem finish_turn (caps : Caps) (origin : Origin) (eventId : Uuid) (tick : Tick)
    (summary : LeadRunSummary) (s : Db) (reason : Option String) :
    ((Stage.finish reason).turn caps origin eventId tick summary s).agent.stage? = none ∧
      ((Stage.finish reason).turn caps origin eventId tick summary s).calls = [] := by
  simp only [Stage.turn]
  split
  · exact ⟨rfl, rfl⟩
  · cases origin <;> exact ⟨rfl, rfl⟩

/-- The end of a walk. -/
theorem Walking.finish (h : Walking s eventId l) {reason : Option String}
    (hagent : l.agent = .running caps (.walk origin eventId (.finish reason)) summary)
    (hfresh : FreshIds l.db (ticks l.steps)) :
    Walking s eventId (l.next ticks) ∧ (l.next ticks).ended = true := by
  have hsound : StageSound l.db eventId (.finish reason) := trivial
  obtain ⟨hlive, hturn, hnext⟩ := next_of_live ticks hagent
  obtain ⟨hstage, hcalls⟩ := finish_turn caps origin eventId (ticks l.steps) summary l.db reason
  have hjoined := (stage_joined caps origin summary h.anchored
    hsound hfresh).1
  rw [hturn] at hnext
  have hended : (l.next ticks).agent.stage? = none := by rw [hnext]; exact hstage
  have hsame : (l.next ticks).calls = l.calls := by
    rw [hnext]
    simp only [hcalls, List.append_nil]
  have hisEnded : (l.next ticks).ended = true := by simp [Lone.ended, hended]
  refine ⟨h.step hagent hfresh (fun e next he => ?_) (fun hlive' => ?_)
    (fun ruleId groupKey g hlast x => ?_) (fun d hevent howes hnone => ?_) fun e reason he => ?_,
    hisEnded⟩
  · rw [hended] at he
    cases he
  · rw [hisEnded] at hlive'
    cases hlive'
  · rw [hsame] at hlast
    have htold := h.told ruleId groupKey g hlast x
    rw [hagent, pending_live] at htold
    rw [htold, or_iff_left (pending_ended hended), hnext, hjoined]
    rfl
  · rw [hsame] at hnone
    left
    have hp : l.db.provenanced d.ruleId d.registrationId = true := by
      refine (h.drained d hevent howes hnone).resolve_right ?_
      rintro ⟨stage, hstage, hahead⟩
      rw [hagent] at hstage
      obtain rfl := congrArg Prod.snd (Option.some.inj hstage)
      obtain ⟨reason, rfl⟩ := Option.isSome_iff_exists.mp hahead
      obtain ⟨c, hc, hrefusal⟩ := h.refused eventId reason (by rw [hagent]; rfl)
      rw [hnone c hc] at hrefusal
      cases hrefusal
    obtain ⟨groupKey, hjoin⟩ := provenanced_iff_joined.mp hp
    rw [hnext]
    exact provenanced_iff_joined.mpr ⟨groupKey, (hjoined _ _ _).mpr (.inl hjoin)⟩
  · rw [hended] at he
    cases he

theorem pending_of_joins {ruleId x : Uuid} {groupKey : String}
    (h : stage.joins ruleId groupKey x) : stage.pending ruleId groupKey x := by
  cases stage with
  | junction => exact h
  | readRules | readPredicates | readEligible | upsert | members | create | setLead | update
  | finish => cases h

/-- A refused call is the only way to a finish with a reason. -/
theorem advances_refused {s : Db} {turn : Turn} {next : Stage} {reason : String}
    (h : Advances caps origin eventId s stage turn next summary)
    (hnext : next = .finish (some reason)) : ∃ c ∈ turn.calls, c.refusal = some reason := by
  cases hcalls : turn.calls with
  | nil => exact absurd hnext ((h.quiet hcalls).1 reason)
  | cons c cs =>
    obtain ⟨-, -, k, -, hbatched, hasks, -⟩ := h.asks c (by rw [hcalls]; simp)
    refine ⟨c, List.mem_cons_self, ?_⟩
    cases hrefusal : c.refusal with
    | some reason' =>
      have hsame := hnext.symm.trans (hasks.refused reason' hrefusal)
      simp only [Stage.finish.injEq] at hsame
      exact hsame.symm
    | none =>
      obtain ⟨m, hm⟩ := List.exists_mem_of_ne_nil _ (hbatched.filled _ List.mem_cons_self)
      have hpending := (hasks.accepted hrefusal _ _ _).mpr ⟨rfl, rfl, List.mem_map_of_mem hm⟩
      rw [hnext] at hpending
      cases hpending

/-- What the sink was told stays what is junctioned or about to be. -/
theorem advances_told {s : Db} {turn : Turn} {next : Stage} {calls : List SinkCall}
    {ruleId x : Uuid} {groupKey : String} {g : LeadGroup} (hanchored : Anchored s)
    (h : Advances caps origin eventId s stage turn next summary)
    (htold : ∀ g, lastAccepted calls ruleId groupKey = some g →
      (x ∈ g.ids ↔ Joined s ruleId groupKey x ∨ stage.pending ruleId groupKey x))
    (hlast : lastAccepted (calls ++ turn.calls) ruleId groupKey = some g) :
    x ∈ g.ids ↔ (Joined s ruleId groupKey x ∨ stage.joins ruleId groupKey x) ∨
      next.pending ruleId groupKey x := by
  cases hcalls : turn.calls with
  | nil =>
    rw [hcalls, List.append_nil] at hlast
    rw [or_assoc, (h.quiet hcalls).2]
    exact htold g hlast
  | cons c cs =>
    obtain ⟨hone, -, k, -, hbatched, hasks, hnone⟩ := h.asks c (by rw [hcalls]; simp)
    have hjoins : ¬ stage.joins ruleId groupKey x := fun hj => hnone _ _ _ (pending_of_joins hj)
    rw [hone] at hlast
    rw [or_iff_left hjoins]
    obtain ⟨provenanceId, hbelongs, hgroup⟩ := hasks.shown
    have hof : c.ofGroup ruleId groupKey = true ↔ k.rule.id = ruleId ∧ k.group.groupKey = groupKey := by
      rw [ofGroup_iff, hgroup]
      rfl
    cases hrefusal : c.refusal with
    | some reason =>
      rw [lastAccepted_other (.inl (by simp [hrefusal]))] at hlast
      rw [htold g hlast, hasks.refused reason hrefusal]
      exact or_congr_right (iff_of_false (hnone _ _ _) id)
    | none =>
      rw [hasks.accepted hrefusal]
      by_cases hsame : c.ofGroup ruleId groupKey = true
      · rw [lastAccepted_accepted hrefusal hsame] at hlast
        obtain ⟨rfl, rfl⟩ := hof.mp hsame
        obtain rfl := Option.some.inj hlast
        rw [hgroup, (leadGroup_shows hanchored hbatched hbelongs).2]
        simp only [true_and]
      · rw [lastAccepted_other (.inr (Bool.eq_false_iff.mpr hsame))] at hlast
        rw [htold g hlast]
        refine or_congr_right (iff_of_false (hnone _ _ _) fun hpending => hsame ?_)
        exact hof.mpr ⟨hpending.1, hpending.2.1⟩

theorem Walking.advances (h : Walking s eventId l) (haxis : AxisServed s eventId)
    (hagent : l.agent = .running caps (.walk origin eventId stage) summary)
    (hfresh : FreshIds l.db (ticks l.steps)) (hlive : ∀ reason, stage ≠ .finish reason) :
    ∃ next summary', Advances caps origin eventId l.db stage (l.turn ticks) next summary' := by
  have hsound := h.sound
  have hapart := h.apart
  rw [hagent] at hsound hapart
  rw [(next_of_live _ hagent).2.1]
  exact stage_advances h.anchored hsound hfresh hapart (h.ground.axisServed haxis) hlive

/-- A step before the end. -/
theorem Walking.advance (h : Walking s eventId l) (haxis : AxisServed s eventId)
    (hagent : l.agent = .running caps (.walk origin eventId stage) summary)
    (hfresh : FreshIds l.db (ticks l.steps)) (hlive : ∀ reason, stage ≠ .finish reason) :
    Walking s eventId (l.next ticks) := by
  have hsound := h.sound
  rw [hagent] at hsound
  obtain ⟨-, hturn, hnext⟩ := next_of_live ticks hagent
  obtain ⟨next, summary', hadvances⟩ := h.advances haxis hagent hfresh hlive
  have hjoined := (stage_joined caps origin summary h.anchored
    hsound hfresh).1
  rw [← hturn] at hjoined
  have hagent' : (l.next ticks).agent = .running caps (.walk origin eventId next) summary' := by
    rw [hnext]
    exact hadvances.agent
  refine h.step hagent hfresh (fun e next' he => ?_) (fun _ => hlive)
    (fun ruleId groupKey g hlast x => ?_) (fun d hevent howes hnone => ?_) fun e reason he => ?_
  · rw [hagent'] at he
    exact (congrArg Prod.fst (Option.some.inj he)).symm
  · rw [hagent', pending_live, hnext, hjoined]
    rw [hnext] at hlast
    have htold := fun g hlast => h.told ruleId groupKey g hlast x
    rw [hagent, pending_live] at htold
    exact advances_told h.anchored hadvances htold hlast
  · rw [hnext] at hnone ⊢
    rcases h.drained d hevent howes fun c hc => hnone c (List.mem_append_left _ hc) with
      hp | ⟨stage', hstage, hahead⟩
    · obtain ⟨groupKey, hjoin⟩ := provenanced_iff_joined.mp hp
      exact .inl (provenanced_iff_joined.mpr ⟨groupKey, (hjoined _ _ _).mpr (.inl hjoin)⟩)
    · rw [hagent] at hstage
      obtain rfl := congrArg Prod.snd (Option.some.inj hstage)
      subst hevent
      refine (stage_ahead (ticks l.steps) caps origin summary hsound howes hahead).imp
        (fun hp => by rwa [hturn]) fun hnext' => ?_
      rw [← hturn, hadvances.agent] at hnext'
      exact ⟨next, by rw [hadvances.agent]; rfl, by simpa [Agent.ahead] using hnext'⟩
  · rw [hagent'] at he
    obtain ⟨c, hc, hrefusal⟩ := advances_refused hadvances (congrArg Prod.snd (Option.some.inj he))
    rw [hnext]
    exact ⟨c, List.mem_append_right _ hc, hrefusal⟩

theorem walking_start (h : Anchored s) :
    Walking s eventId (runOne caps origin eventId summary s) where
  ground := .refl s
  anchored := h
  sound := trivial
  apart := trivial
  own e stage he := (congrArg Prod.fst (Option.some.inj he)).symm
  goal _ _ _ := .rfl
  grown _ _ _ := id
  requests _ := rfl
  told ruleId groupKey g hlast := by cases hlast
  drained d _ _ _ := .inr ⟨.readRules, rfl, rfl⟩
  refused e reason he := by cases he

/-- What is left of the walk. -/
def Lone.left (l : Lone) : ℕ × ℕ × ℕ :=
  match l.agent.stage? with
  | some p => p.2.left l.db
  | none => (0, 0, 0)

theorem left_live {l : Lone} (h : l.agent = .running caps (.walk origin eventId stage) summary) :
    l.left = stage.left l.db := by
  rw [Lone.left, h]
  rfl

theorem left_ended {l : Lone} (h : l.ended = true) : l.left = (0, 0, 0) := by
  have hnone : l.agent.stage? = none := by simpa [Lone.ended] using h
  rw [Lone.left, hnone]

/-- Every step keeps what holds of the walk and leaves less of it. -/
theorem Walking.next (h : Walking s eventId l) (haxis : AxisServed s eventId)
    (hfresh : FreshIds l.db (ticks l.steps)) (hlive : l.ended = false) :
    Walking s eventId (l.next ticks) ∧ Falls (l.next ticks).left l.left := by
  obtain ⟨caps, origin, stage, summary, hagent⟩ := h.live hlive
  by_cases hfinish : ∃ reason, stage = .finish reason
  · obtain ⟨reason, rfl⟩ := hfinish
    obtain ⟨hwalking, hended⟩ := h.finish hagent hfresh
    refine ⟨hwalking, ?_⟩
    rw [left_ended hended, left_live hagent]
    exact Prod.Lex.left _ _ (Nat.zero_lt_one)
  · have hlive' : ∀ reason, stage ≠ .finish reason := fun reason heq => hfinish ⟨reason, heq⟩
    refine ⟨h.advance haxis hagent hfresh hlive', ?_⟩
    obtain ⟨next, summary', hadvances⟩ := h.advances haxis hagent hfresh hlive'
    obtain ⟨-, -, hnext⟩ := next_of_live ticks hagent
    have hagent' : (l.next ticks).agent = .running caps (.walk origin eventId next) summary' := by
      rw [hnext]
      exact hadvances.agent
    rw [left_live hagent, left_live hagent', hnext]
    exact hadvances.falls

/-- A walk that is alone, and that the database gives fresh ids all the way. -/
def Undergoing (ticks : ℕ → Tick) (s : Db) (eventId : Uuid) (l : Lone) : Prop :=
  Walking s eventId l ∧ Undisturbed ticks l

theorem Undergoing.fresh (h : Undergoing ticks s eventId l) : FreshIds l.db (ticks l.steps) :=
  h.2 l (.refl l)

theorem Undergoing.next (h : Undergoing ticks s eventId l) (haxis : AxisServed s eventId) :
    Undergoing ticks s eventId (l.next ticks) := by
  refine ⟨?_, fun l' hleads => h.2 l' (hleads.head rfl)⟩
  cases hended : l.ended with
  | true => rw [next_of_ended hended]; exact h.1
  | false => exact (h.1.next haxis h.fresh hended).1

theorem Undergoing.leads {l' : Lone} (h : Undergoing ticks s eventId l)
    (haxis : AxisServed s eventId) (hleads : Leads (Lone.next ticks) l l') :
    Undergoing ticks s eventId l' := hleads.invariant h fun _ hl => hl.next haxis

theorem Undergoing.halts (h : Undergoing ticks s eventId l) (haxis : AxisServed s eventId) :
    Halts (Lone.next ticks) Lone.ended l :=
  halts_of_falling falls_wf Lone.left h (fun _ hl => hl.next haxis) fun _ hl hlive =>
    (hl.1.next haxis hl.fresh hlive).2

end walking

section law

variable {s : Db} {eventId ruleId : Uuid} {groupKey : String} {x : Uuid} {l : Lone}
  {ticks : ℕ → Tick} {caps : Caps} {origin : Origin} {summary : LeadRunSummary}

variable (caps origin summary) in
theorem undergoing_start (hanchored : Anchored s)
    (h : Undisturbed ticks (runOne caps origin eventId summary s)) :
    Undergoing ticks s eventId (runOne caps origin eventId summary s) :=
  ⟨walking_start hanchored, h⟩

theorem stage?_of_ended (hended : l.ended = true) : l.agent.stage? = none := by
  simpa [Lone.ended] using hended

/-- A walk that was never refused leaves nothing owed. -/
theorem Walking.drains (h : Walking s eventId l) (hended : l.ended = true)
    (haccepted : ∀ c ∈ l.calls, c.refusal = none) {d : Debt} (hevent : d.eventId = eventId)
    (howes : owes l.db d = true) : l.db.provenanced d.ruleId d.registrationId = true := by
  refine (h.drained d hevent howes haccepted).resolve_right ?_
  rintro ⟨stage, hstage, -⟩
  rw [stage?_of_ended hended] at hstage
  cases hstage

/-- Its groups hold exactly what was due and what they held before. -/
theorem Walking.joined_iff (h : Walking s eventId l) (hended : l.ended = true)
    (haccepted : ∀ c ∈ l.calls, c.refusal = none) :
    Joined l.db ruleId groupKey x ↔ Goal s eventId ruleId groupKey x := by
  rw [← h.goal]
  refine ⟨.inl, fun hgoal => hgoal.resolve_right ?_⟩
  rintro ⟨howes, hnone, -⟩
  have hp := h.drains hended haccepted rfl howes
  rw [hnone] at hp
  cases hp

theorem goal_leased (now : Timestamp) :
    Goal (s.lease now eventId) eventId ruleId groupKey x ↔ Goal s eventId ruleId groupKey x := .rfl

/-- A call is made at a stage that does not finish. -/
theorem Walking.calling (h : Walking s eventId l) (haxis : AxisServed s eventId)
    (hfresh : FreshIds l.db (ticks l.steps)) {c : SinkCall} (hc : c ∈ l.calling ticks) :
    ∃ caps origin stage summary k next summary', l.agent =
        .running caps (.walk origin eventId stage) summary ∧ stage.batch? = some k ∧
      Batched l.db eventId k ∧ Asks eventId l.db k next c ∧
      (l.next ticks).agent = .running caps (.walk origin eventId next) summary' ∧
      (l.next ticks).db = l.db := by
  cases hended : l.ended with
  | true =>
    rw [Lone.calling, hended] at hc
    cases hc
  | false =>
    rw [Lone.calling, hended] at hc
    obtain ⟨caps, origin, stage, summary, hagent⟩ := h.live hended
    obtain ⟨-, hturn, hnext⟩ := next_of_live ticks hagent
    have hlive : ∀ reason, stage ≠ .finish reason := by
      rintro reason rfl
      have hnone := (finish_turn caps origin eventId (ticks l.steps) summary l.db reason).2
      rw [← hturn] at hnone
      rw [hnone] at hc
      cases hc
    obtain ⟨next, summary', hadvances⟩ := h.advances haxis hagent hfresh hlive
    obtain ⟨-, hdb, k, hbatch, hbatched, hasks, -⟩ := hadvances.asks c hc
    exact ⟨caps, origin, stage, summary, k, next, summary', hagent, hbatch, hbatched, hasks,
      by rw [hnext]; exact hadvances.agent, by rw [hnext]; exact hdb⟩

theorem Walking.shows (h : Walking s eventId l) (haxis : AxisServed s eventId)
    (hfresh : FreshIds l.db (ticks l.steps)) {c : SinkCall} (hc : c ∈ l.calling ticks) :
    ShowsGroup l c := by
  obtain ⟨_, _, stage, _, k, _, _, hagent, hbatch, hbatched, hasks, -, -⟩ :=
    h.calling haxis hfresh hc
  obtain ⟨provenanceId, hbelongs, hgroup⟩ := hasks.shown
  obtain ⟨hnodup, hids⟩ := leadGroup_shows h.anchored hbatched hbelongs
  refine ⟨k, by rw [Lone.batch?, hagent]; exact hbatch, ofGroup_iff.mpr ?_, ?_, fun x => ?_⟩
  · rw [hgroup]
    exact ⟨rfl, rfl⟩
  · rwa [hgroup]
  · rw [hgroup, hids, List.mem_map]

def park (s : Db) (eventId : Uuid) (reason : String) : Db :=
  { s with
    leadRequests := s.leadRequests.modify (·.eventId == eventId)
      (LeadRequest.finished (some reason)) }

/-- The end of a walk leaves the groups, and the row unless the reason is too long. -/
theorem finish_db (caps : Caps) (origin : Origin) (eventId : Uuid) (tick : Tick)
    (summary : LeadRunSummary) (s : Db) (reason : String) :
    ((Stage.finish (some reason)).turn caps origin eventId tick summary s).db =
      if reason.toList.length ≤ 500 then park s eventId reason else s := by
  by_cases hshort : reason.toList.length ≤ 500
  · simp [Stage.turn, finishRequestByEvent, park, hshort]
  · simp [Stage.turn, finishRequestByEvent, hshort]

theorem parked_park (s : Db) (eventId : Uuid) (reason : String) :
    Parked (park s eventId reason) eventId reason := by
  rintro q hq hevent
  obtain ⟨q', -, rfl⟩ := Table.mem_modify.mp hq
  by_cases hp : (q'.eventId == eventId) = true
  · rw [if_pos hp]
    exact ⟨rfl, rfl, rfl⟩
  · rw [if_neg hp] at hevent
    exact absurd (beq_iff_eq.mpr hevent) hp

/-- A refusal ends the walk; it parks the row unless the reason is too long to store. -/
theorem Undergoing.parks (h : Undergoing ticks s eventId l) (haxis : AxisServed s eventId)
    (hleased : ∃ q ∈ s.leadRequests.rows, q.eventId = eventId ∧ q.claimedAt ≠ none)
    {c : SinkCall} (hc : c ∈ l.calling ticks) {reason : String} (hrefusal : c.refusal = some reason)
    {l' : Lone} (hleads : Leads (Lone.next ticks) l l') (hended : l'.ended = true) :
    (Parked l'.db eventId reason ↔ reason.toList.length ≤ 500) ∧
      ∀ k, l.batch? = some k → ∀ m ∈ k.group.members, l'.db.provenanced k.rule.id m.id = false := by
  obtain ⟨caps, origin, stage, summary, k, next, summary', hagent, hbatch, hbatched, hasks, hagent',
    hdb⟩ := h.1.calling haxis h.fresh hc
  obtain rfl := hasks.refused reason hrefusal
  have hnext := h.next haxis
  obtain ⟨-, hover⟩ := hnext.1.finish hagent' hnext.fresh
  have hend : l' = (l.next ticks).next ticks :=
    hleads.unique ((Leads.refl _).head rfl |>.head rfl) hended hover fun _ => next_of_ended
  obtain ⟨hlive, -, -⟩ := next_of_live ticks hagent
  have hlast : l'.db = if reason.toList.length ≤ 500 then park l.db eventId reason else l.db := by
    obtain ⟨-, hturn, hnext'⟩ := next_of_live ticks hagent'
    rw [hend, hnext', hturn, finish_db, hdb]
  refine ⟨?_, fun k' hk' m hm => ?_⟩
  · by_cases hshort : reason.toList.length ≤ 500
    · rw [if_pos hshort] at hlast
      rw [hlast]
      exact iff_of_true (parked_park _ _ _) hshort
    · rw [if_neg hshort] at hlast
      refine iff_of_false (fun hparked => ?_) hshort
      obtain ⟨q, hq, hevent, hclaimed⟩ := hleased
      rw [hlast, Parked, h.1.requests hlive] at hparked
      exact hclaimed (hparked q hq hevent).2.2
  · rw [Lone.batch?, hagent] at hk'
    obtain rfl := Option.some.inj (hbatch.symm.trans hk')
    obtain ⟨r, -, -, -, hnone⟩ := hbatched.members _ List.mem_cons_self m hm
    rw [hlast]
    split
    · exact hnone
    · exact hnone

/-- A later walk that is never refused ends where one that was never refused does. -/
theorem Undergoing.resumes (h : Undergoing ticks s eventId l) (haxis : AxisServed s eventId)
    (hanchored : Anchored s) {now : Timestamp} {caps caps' : Caps} {origin origin' : Origin}
    {summary summary' : LeadRunSummary} {ticks' ticks'' : ℕ → Tick} {later never : Lone}
    (hlater : Undisturbed ticks' (runOne caps origin eventId summary (l.db.lease now eventId)))
    (hlast : Accepted ticks' (runOne caps origin eventId summary (l.db.lease now eventId)) later)
    (hnever : Undisturbed ticks'' (runOne caps' origin' eventId summary' s))
    (hfirst : Accepted ticks'' (runOne caps' origin' eventId summary' s) never) :
    Joined later.db ruleId groupKey x ↔ Joined never.db ruleId groupKey x := by
  have hleased : Ground l.db (l.db.lease now eventId) := ⟨rfl, rfl, rfl, rfl, rfl, rfl⟩
  have haxis' := (h.1.ground.trans hleased).axisServed haxis
  obtain ⟨hleads, hended, haccepted⟩ := hlast
  have hwalk := (undergoing_start _ _ _ (s := l.db.lease now eventId) h.1.anchored hlater).leads haxis'
    hleads
  obtain ⟨hleads', hended', haccepted'⟩ := hfirst
  have hwalk' := (undergoing_start _ _ _ hanchored hnever).leads haxis hleads'
  calc Joined later.db ruleId groupKey x
      ↔ Goal (l.db.lease now eventId) eventId ruleId groupKey x :=
        hwalk.1.joined_iff hended haccepted
    _ ↔ Goal l.db eventId ruleId groupKey x := goal_leased now
    _ ↔ Goal s eventId ruleId groupKey x := h.1.goal _ _ _
    _ ↔ Joined never.db ruleId groupKey x := (hwalk'.1.joined_iff hended' haccepted').symm

/-- A long reason leaves the lease where it was. -/
theorem short_of_drainLaw (hanchored : Anchored s) (haxis : AxisServed s eventId)
    (hleased : ∃ q ∈ s.leadRequests.rows, q.eventId = eventId ∧ q.claimedAt ≠ none)
    (hundisturbed : Undisturbed ticks (runOne caps origin eventId summary s))
    (h : DrainLaw ticks eventId (runOne caps origin eventId summary s))
    (hleads : Leads (Lone.next ticks) (runOne caps origin eventId summary s) l)
    {c : SinkCall} (hc : c ∈ l.calling ticks) {reason : String}
    (hrefusal : c.refusal = some reason) : reason.toList.length ≤ 500 := by
  have hstart := undergoing_start _ origin _ hanchored hundisturbed
  have hwalk := hstart.leads haxis hleads
  obtain ⟨n, hended⟩ := hwalk.halts haxis
  have hparked := (h.parks l hleads c hc reason hrefusal _ ⟨n, rfl⟩ hended).1
  exact (hwalk.parks haxis hleased hc hrefusal ⟨n, rfl⟩ hended).1.mp hparked

/-- The law of the pass holds exactly where each reason the sink refuses with fits its column. -/
theorem drainLaw_iff (hanchored : Anchored s) (haxis : AxisServed s eventId)
    (hleased : ∃ q ∈ s.leadRequests.rows, q.eventId = eventId ∧ q.claimedAt ≠ none)
    (hundisturbed : Undisturbed ticks (runOne caps origin eventId summary s)) :
    DrainLaw ticks eventId (runOne caps origin eventId summary s) ↔
      ∀ l, Leads (Lone.next ticks) (runOne caps origin eventId summary s) l →
        ∀ c ∈ l.calling ticks, ∀ reason, c.refusal = some reason → reason.toList.length ≤ 500 := by
  have hstart := undergoing_start caps origin summary hanchored
    hundisturbed
  refine ⟨fun h l hleads c hc reason hrefusal =>
    short_of_drainLaw hanchored haxis hleased hundisturbed h hleads hc hrefusal, fun hshort => ?_⟩
  refine ⟨hstart.halts haxis, fun l hleads c hc => ?_, ?_, fun l hleads hended ruleId groupKey g hlast
    x => ?_, fun l hleads c hc reason hrefusal l' hleads' hended => ?_, ?_⟩
  · have hwalk := hstart.leads haxis hleads
    exact hwalk.1.shows haxis hwalk.fresh hc
  · rintro l ⟨hleads, hended, haccepted⟩ d hevent howes
    exact (hstart.leads haxis hleads).1.drains hended haccepted hevent howes
  · have htold := (hstart.leads haxis hleads).1.told ruleId groupKey g hlast x
    rwa [or_iff_left (pending_ended (stage?_of_ended hended))] at htold
  · obtain ⟨hparked, hmembers⟩ := (hstart.leads haxis hleads).parks haxis hleased hc hrefusal hleads'
      hended
    exact ⟨hparked.mpr (hshort l hleads c hc reason hrefusal), hmembers⟩
  · intro l hleads _ _ _ _ _ _ _ hlater hlast _ _ _ _ _ hnever hfirst _ _ _
    exact (hstart.leads haxis hleads).resumes haxis hanchored hlater hlast hnever hfirst

end law

section sample

/-- A sink with one answer, and ids that grow with the steps. -/
def Tick.answering (answer : Except String Uuid) (n : ℕ) : Tick where
  now := 0
  locked _ := false
  provenanceId := 1000 * (n + 1)
  junctionId x := 1000 * (n + 1) + x
  createLead _ := answer
  updateLead _ _ := answer.map (fun _ => ())

/-- A global rule, one attendee, and the lease of the event. -/
def guestLeased : Db :=
  ((Db.withRule ⟨1, id, id⟩ everyGuest openGig).next (.register (.counting 1) ann)).lease 0 1

/-- A second attendee on the next day, in a group of the day's own. -/
def daysLeased : Db :=
  (((Db.withRule ⟨1, id, id⟩ everyGuest openGig).next (.register (.counting 1) ann)).next
    (.register { Env.counting 2 with now := 86400000000 } bob)).lease 0 1

def walk (s : Db) (answer : Except String Uuid) (n : ℕ) : Lone :=
  (Lone.next (Tick.answering answer))^[n] (runOne defaultCaps .officer 1 .zero s)

theorem anchored_of_empty {s : Db} (hempty : s.leadProvenanceRegistrations.rows = []) :
    Anchored s := by
  intro j hj
  rw [hempty] at hj
  cases hj

theorem axisServed_of_empty {s : Db} (hempty : s.leadPredicates.rows = []) (eventId : Uuid) :
    AxisServed s eventId := by
  refine .inr fun lr hscoped p hp => ?_
  simp [predicatesOfRule, hempty] at hp

/-- The ids drawn so far lie below those to come. -/
theorem fresh_of_below {answer : Except String Uuid} {s : Db} {n : ℕ}
    (hprovenances : ∀ p ∈ s.leadProvenances.rows, p.id < 1000 * (n + 1))
    (hjunctions : ∀ j ∈ s.leadProvenanceRegistrations.rows, j.id < 1000 * (n + 1)) :
    FreshIds s (Tick.answering answer n) where
  provenance p hp := Nat.ne_of_lt (hprovenances p hp)
  junctions j hj _ := Nat.ne_of_lt (Nat.lt_of_lt_of_le (hjunctions j hj) (Nat.le_add_right _ _))
  apart _ _ h := Nat.add_left_cancel h

theorem walk_undisturbed {s : Db} {answer : Except String Uuid} {n : ℕ}
    (hended : (walk s answer n).ended = true)
    (hbelow : ∀ k ≤ n, (walk s answer k).steps = k ∧
      (∀ p ∈ (walk s answer k).db.leadProvenances.rows, p.id < 1000 * (k + 1)) ∧
      ∀ j ∈ (walk s answer k).db.leadProvenanceRegistrations.rows, j.id < 1000 * (k + 1)) :
    Undisturbed (Tick.answering answer) (runOne defaultCaps .officer 1 .zero s) := by
  intro l hleads
  obtain ⟨k, hk, rfl⟩ := hleads.within hended fun _ => next_of_ended
  obtain ⟨hsteps, hprovenances, hjunctions⟩ := hbelow k hk
  change FreshIds (walk s answer k).db (Tick.answering answer (walk s answer k).steps)
  rw [hsteps]
  exact fresh_of_below hprovenances hjunctions

theorem drainLaw_accepted : (walk daysLeased (.ok 1) 14).calls.length = 2 ∧
    DrainLaw (Tick.answering (.ok 1)) 1 (runOne defaultCaps .officer 1 .zero daysLeased) := by
  refine ⟨by decide, (drainLaw_iff (anchored_of_empty (by decide)) (axisServed_of_empty (by decide) 1)
    (by decide) (walk_undisturbed (n := 14) (by decide) (by decide))).mpr ?_⟩
  intro l hleads c hc reason hrefusal
  obtain ⟨k, hk, rfl⟩ := hleads.within (n := 14) (by decide) fun _ => next_of_ended
  have haccepted : ∀ k ≤ 14, ∀ c ∈ (walk daysLeased (.ok 1) k).calling (Tick.answering (.ok 1)),
      c.refusal = none := by decide
  rw [haccepted k hk c hc] at hrefusal
  cases hrefusal

def xs (n : ℕ) : String := String.ofList (List.replicate n 'x')

theorem xs_length (n : ℕ) : (xs n).toList.length = n := by
  rw [xs, String.toList_ofList, List.length_replicate]

/-- One character more than the column holds. -/
def longReason : String := xs 501

theorem longReason_long : ¬ longReason.toList.length ≤ 500 := by
  rw [longReason, xs_length]
  decide

/-- A finish that cannot store its reason leaves everything as it was. -/
theorem next_of_tooLong {l : Lone} {ticks : ℕ → Tick} {caps : Caps} {origin : Origin}
    {eventId : Uuid} {summary : LeadRunSummary} {reason : String}
    (hlong : ¬ reason.toList.length ≤ 500)
    (hagent : l.agent = .running caps (.walk origin eventId (.finish (some reason))) summary) :
    (l.next ticks).ended = true ∧ (l.next ticks).db = l.db := by
  obtain ⟨-, hturn, hnext⟩ := next_of_live ticks hagent
  refine ⟨?_, by rw [hnext, hturn, finish_db, if_neg hlong]⟩
  rw [hnext, hturn, Lone.ended, (finish_turn _ _ _ _ _ _ _).1]
  rfl

theorem walk_refused : (walk guestLeased (.error longReason) 7).ended = true ∧
    (walk guestLeased (.error longReason) 7).db = (walk guestLeased (.error longReason) 6).db := by
  have hagent : (walk guestLeased (.error longReason) 6).agent = .running defaultCaps
      (.walk .officer 1 (.finish (some longReason))) _ := rfl
  have hsucc : walk guestLeased (.error longReason) 7 =
      (walk guestLeased (.error longReason) 6).next (Tick.answering (.error longReason)) := rfl
  rw [hsucc]
  exact next_of_tooLong longReason_long hagent

theorem longReason_unparked : ¬ DrainLaw (Tick.answering (.error longReason)) 1
    (runOne defaultCaps .officer 1 .zero guestLeased) := by
  obtain ⟨hended, hdb⟩ := walk_refused
  have hbelow : ∀ k ≤ 7, (walk guestLeased (.error longReason) k).steps = k ∧
      (∀ p ∈ (walk guestLeased (.error longReason) k).db.leadProvenances.rows,
        p.id < 1000 * (k + 1)) ∧
      ∀ j ∈ (walk guestLeased (.error longReason) k).db.leadProvenanceRegistrations.rows,
        j.id < 1000 * (k + 1) := by
    intro k hk
    rcases Nat.lt_or_eq_of_le hk with hk | rfl
    · have hfirst : ∀ k < 7, (walk guestLeased (.error longReason) k).steps = k ∧
          (∀ p ∈ (walk guestLeased (.error longReason) k).db.leadProvenances.rows,
            p.id < 1000 * (k + 1)) ∧
          ∀ j ∈ (walk guestLeased (.error longReason) k).db.leadProvenanceRegistrations.rows,
            j.id < 1000 * (k + 1) := by decide
      exact hfirst k hk
    · rw [hdb]
      exact ⟨rfl, by decide, by decide⟩
  intro h
  have hshort := short_of_drainLaw (anchored_of_empty (by decide)) (axisServed_of_empty (by decide) 1)
    (by decide) (walk_undisturbed hended hbelow) h (l := walk guestLeased (.error longReason) 5)
    ⟨5, rfl⟩ (c := .created _ (.error longReason)) (List.mem_singleton.mpr rfl) rfl
  exact longReason_long hshort

end sample

end BackboneEvents.LeadGeneration
