import Mathlib.Data.List.Count
import BackboneEvents.LeadCreates
import BackboneEvents.OwnRecords

/-!
# What the summary of a lead pass tells

A cron pass or an officer's run counts the leads it created and updated, and the requests it
completed and parked. However walks, verbs, rule verbs and crashes interleave, the summary it
returns is the account of its own calls of the sink, and every request it claimed was
completed or parked.
-/
namespace BackboneEvents.LeadGeneration.LeadSummaries
open OwnRecords

def isCreated : SinkCall → Bool
  | .created _ answer => answer.isOk
  | .updated _ _ _ => false

def isUpdated : SinkCall → Bool
  | .created _ _ => false
  | .updated _ _ answer => answer.isOk

def isRefused : SinkCall → Bool
  | .created _ answer => !answer.isOk
  | .updated _ _ answer => !answer.isOk

def machine : Machine Db Agent Tick SinkCall where
  turn tick s a :=
    let turn := a.turn tick s
    (turn.db, turn.agent, turn.calls)

section runs

variable {ι : Type} [DecidableEq ι]

/-- An agent starts where none is running. -/
def entering (w : Recorded ι Db Agent SinkCall) (i : ι) (a : Agent) : Move ι Db Agent Tick :=
  if (w.procs i).isRunning then .outside w.shared else .become i a

/-- The move an act is. -/
def moveOf (w : Recorded ι Db Agent SinkCall) : Act ι → Move ι Db Agent Tick
  | .verb c => .outside (w.shared.next c)
  | .createRule env cmd => .outside (Db.withRule env cmd w.shared)
  | .patchRule i env patch => entering w i (.patching env patch .update)
  | .runDueLeadRequests i caps => entering w i (.running caps (.claim []) .zero)
  | .runRequestOfEvent i caps eventId => entering w i (.running caps (.lease eventId) .zero)
  | .turn i tick => .turn i tick
  | .crash i => .become i .idle

/-- The run of the acts from a state where no agent is under way. -/
def recorded (s : Db) (acts : List (Act ι)) : Recorded ι Db Agent SinkCall :=
  Recorded.run machine moveOf ⟨s, fun _ => .idle, fun _ => []⟩ acts

/-- The instrumented run goes through the states of the world. -/
theorem recorded_world (s : Db) (acts : List (Act ι)) :
    ((recorded s acts).shared, (recorded s acts).procs) =
      ((acts.foldl World.next (World.start s)).db, (acts.foldl World.next (World.start s)).agents) := by
  refine run_refines World.next (fun w => (w.db, w.agents)) ?_ rfl acts
  intro w r a hstate
  obtain ⟨hdb, hagents⟩ := Prod.mk.inj hstate
  have hupdate : ∀ i a, Function.update r.procs i a = (w.setAgent i a).agents := fun i a => by
    rw [hagents]
    funext j
    rw [Function.update_apply]
    rfl
  have henter : ∀ i a, ((r.next machine (entering r i a)).shared,
      (r.next machine (entering r i a)).procs) = ((w.enter i a).db, (w.enter i a).agents) := by
    intro i a
    rw [entering, World.enter, ← hagents]
    by_cases hrunning : (r.procs i).isRunning = true
    · rw [if_pos hrunning, if_pos hrunning]
      exact hstate
    · rw [if_neg hrunning, if_neg hrunning]
      exact Prod.ext hdb (hupdate i _)
  cases a with
  | verb c => exact Prod.ext (congrArg (Db.next · c) hdb) hagents
  | createRule env cmd => exact Prod.ext (congrArg (Db.withRule env cmd) hdb) hagents
  | patchRule i env patch => exact henter i _
  | runDueLeadRequests i caps => exact henter i _
  | runRequestOfEvent i caps eventId => exact henter i _
  | turn i tick =>
    simp only [moveOf, Recorded.next, machine, World.next]
    rw [hupdate, hdb, hagents]
  | crash i => exact Prod.ext hdb (hupdate i .idle)

end runs

/-- The summary is the account of the agent's own calls. -/
structure Accounts (summary : LeadRunSummary) (calls : List SinkCall) : Prop where
  created : summary.leadsCreated = calls.countP isCreated
  updated : summary.leadsUpdated = calls.countP isUpdated
  groups : summary.groupsCreated = summary.leadsCreated ∧
    summary.groupsGrown = summary.leadsUpdated
  parked : summary.requestsParked = calls.countP isRefused
  settled : summary.requestsCompleted + summary.requestsParked = summary.requestsClaimed

section books

/-- What a walk has done and not counted yet. -/
structure Pending where
  created : ℕ
  updated : ℕ
  parked : ℕ

def pending : Stage → Pending
  | .setLead _ _ _ _ | .junction _ _ _ false => ⟨1, 0, 0⟩
  | .junction _ _ _ true => ⟨0, 1, 0⟩
  | .finish (some _) => ⟨0, 0, 1⟩
  | .readRules | .readPredicates _ _ | .readEligible _ _ _ | .upsert _ | .members _ _ _
  | .create _ _ _ _ | .update _ _ _ _ _ | .finish none => ⟨0, 0, 0⟩

/-- The account of an agent under way, with the requests it has claimed and not settled. -/
structure Books (summary : LeadRunSummary) (calls : List SinkCall) (owed : Pending) (walks : ℕ) :
    Prop where
  created : summary.leadsCreated + owed.created = calls.countP isCreated
  updated : summary.leadsUpdated + owed.updated = calls.countP isUpdated
  groups : summary.groupsCreated = summary.leadsCreated ∧
    summary.groupsGrown = summary.leadsUpdated
  parked : summary.requestsParked + owed.parked = calls.countP isRefused
  settled : summary.requestsCompleted + summary.requestsParked + walks = summary.requestsClaimed

def Booked : Agent → List SinkCall → Prop
  | .running _ (.claim _) summary, calls | .returned (.ok summary), calls =>
    Books summary calls ⟨0, 0, 0⟩ 0
  | .running _ (.lease _) summary, calls => Books summary calls ⟨0, 0, 0⟩ 0 ∧ summary = .zero
  | .running _ (.walk _ _ stage) summary, calls => Books summary calls (pending stage) 1
  | .running _ (.refuse _) _, _ | .idle, _ | .returned (.error _), _ | .patching _ _ _, _
  | .patched _, _ => True

@[simp] theorem pending_ofRules (rules : List LeadRule) : pending (.ofRules rules) = ⟨0, 0, 0⟩ := by
  cases rules <;> rfl

@[simp] theorem pending_ofGroups (rule : LeadRule) (predicates : List LeadPredicate)
    (rest : List LeadRule) (full : Bool) (groups : List MemberGroup) :
    pending (.ofGroups rule predicates rest full groups) = ⟨0, 0, 0⟩ := by
  cases groups with
  | nil =>
    cases full
    · exact pending_ofRules rest
    · rfl
  | cons => rfl

@[simp] theorem pending_next (k : Batch) : pending k.next = ⟨0, 0, 0⟩ := pending_ofGroups ..

variable {caps : Caps} {origin : Origin} {eventId : Uuid} {tick : Tick} {summary : LeadRunSummary}
  {s : Db} {calls : List SinkCall}

theorem booked_walk {stage : Stage} {owed : Pending} {left : List SinkCall}
    (hstage : pending stage = owed) (h : Books summary (calls ++ left) owed 1) :
    Booked (.running caps (.walk origin eventId stage) summary) (calls ++ left) := by
  rw [Booked, hstage]
  exact h

/-- A step keeps the books where its count, its calls and what it leaves open balance. -/
theorem Books.step {summary' : LeadRunSummary} {owed owed' : Pending} {walks walks' : ℕ}
    {left : List SinkCall} (h : Books summary calls owed walks)
    (created : summary'.leadsCreated + owed'.created =
      summary.leadsCreated + owed.created + left.countP isCreated)
    (updated : summary'.leadsUpdated + owed'.updated =
      summary.leadsUpdated + owed.updated + left.countP isUpdated)
    (groups : summary'.groupsCreated + summary.leadsCreated =
        summary.groupsCreated + summary'.leadsCreated ∧
      summary'.groupsGrown + summary.leadsUpdated = summary.groupsGrown + summary'.leadsUpdated)
    (parked : summary'.requestsParked + owed'.parked =
      summary.requestsParked + owed.parked + left.countP isRefused)
    (settled : summary'.requestsCompleted + summary'.requestsParked + walks' +
        summary.requestsClaimed =
      summary.requestsCompleted + summary.requestsParked + walks + summary'.requestsClaimed) :
    Books summary' (calls ++ left) owed' walks' := by
  have hgroups := h.groups
  have hsettled := h.settled
  constructor
  · rw [List.countP_append, ← h.created]
    exact created
  · rw [List.countP_append, ← h.updated]
    exact updated
  · omega
  · rw [List.countP_append, ← h.parked]
    exact parked
  · omega

/-- A step that counts nothing of these and calls no sink. -/
theorem Books.quiet {summary' : LeadRunSummary} {owed : Pending} {walks : ℕ}
    (h : Books summary calls owed walks)
    (hsame : summary' = { summary with
      rulesEvaluated := summary'.rulesEvaluated
      registrationsMatched := summary'.registrationsMatched }) :
    Books summary' (calls ++ []) owed walks := by
  rw [hsame, List.append_nil]
  exact ⟨h.created, h.updated, h.groups, h.parked, h.settled⟩

end books

section turns

variable {caps : Caps} {origin : Origin} {eventId : Uuid} {tick : Tick} {summary : LeadRunSummary}
  {s : Db} {calls : List SinkCall}

/-- The origin of a walk counts its end alike. -/
theorem booked_after {reason : Option String} {summary' : LeadRunSummary} {left : List SinkCall}
    (h : Books summary' (calls ++ left) ⟨0, 0, 0⟩ 0) :
    Booked (origin.after caps eventId reason summary') (calls ++ left) := by
  cases origin with
  | cron parked => exact h
  | officer => exact h

theorem stage_booked (stage : Stage) (h : Books summary calls (pending stage) 1) :
    Booked (stage.turn caps origin eventId tick summary s).agent
      (calls ++ (stage.turn caps origin eventId tick summary s).calls) := by
  cases stage with
  | readRules => exact booked_walk (pending_ofRules _) (h.quiet rfl)
  | readPredicates rule rest => exact booked_walk rfl (h.quiet rfl)
  | readEligible rule predicates rest =>
    simp only [Stage.turn]
    split
    · trivial
    · exact booked_walk (pending_ofGroups ..) (h.quiet rfl)
  | upsert k =>
    simp only [Stage.turn]
    split
    · trivial
    · exact booked_walk rfl (h.quiet rfl)
  | members k provenanceId lead =>
    cases lead with
    | none => exact booked_walk rfl (h.quiet rfl)
    | some leadId =>
      simp only [Stage.turn]
      split
      · exact booked_walk (pending_next k) (h.quiet rfl)
      · exact booked_walk rfl (h.quiet rfl)
  | create k provenanceId group newIds =>
    simp only [Stage.turn]
    cases tick.createLead group with
    | error reason => exact booked_walk rfl (h.step rfl rfl ⟨rfl, rfl⟩ rfl rfl)
    | ok leadId => exact booked_walk rfl (h.step rfl rfl ⟨rfl, rfl⟩ rfl rfl)
  | setLead k provenanceId leadId newIds => exact booked_walk rfl (h.quiet rfl)
  | update k provenanceId leadId group newIds =>
    simp only [Stage.turn]
    cases tick.updateLead leadId group with
    | error reason => exact booked_walk rfl (h.step rfl rfl ⟨rfl, rfl⟩ rfl rfl)
    | ok answer => exact booked_walk rfl (h.step rfl rfl ⟨rfl, rfl⟩ rfl rfl)
  | junction k provenanceId newIds grown =>
    simp only [Stage.turn]
    split
    · trivial
    · refine booked_walk (pending_next k) ?_
      cases grown with
      | false =>
        refine h.step rfl rfl ⟨?_, rfl⟩ rfl rfl
        simp only [LeadRunSummary.grouped, Bool.false_eq_true, if_false]
        omega
      | true =>
        refine h.step rfl rfl ⟨rfl, ?_⟩ rfl rfl
        simp only [LeadRunSummary.grouped, if_true]
        omega
  | finish reason =>
    simp only [Stage.turn]
    split
    · trivial
    · cases reason with
      | none =>
        refine booked_after (h.step rfl rfl ⟨rfl, rfl⟩ rfl ?_)
        simp only [LeadRunSummary.finished]
        omega
      | some reason =>
        refine booked_after (h.step rfl rfl ⟨rfl, rfl⟩ rfl ?_)
        simp only [LeadRunSummary.finished]
        omega

theorem agent_booked (a : Agent) (h : Booked a calls) :
    Booked (a.turn tick s).agent (calls ++ (a.turn tick s).calls) := by
  cases a with
  | idle | patched => trivial
  | patching env patch stage =>
    cases stage with
    | update => simp only [Agent.turn, Patching.turn]; split <;> trivial
    | arm | audit => trivial
  | returned result =>
    cases result with
    | error e => trivial
    | ok summary => exact Books.quiet h rfl
  | running caps point summary =>
    cases point with
    | claim parked =>
      simp only [Agent.turn, Point.turn]
      split
      · exact Books.quiet h rfl
      · split
        · exact Books.quiet h rfl
        · refine booked_walk rfl (Books.step h rfl rfl ⟨rfl, rfl⟩ rfl ?_)
          dsimp only
          omega
    | lease eventId =>
      obtain ⟨hbooks, rfl⟩ := h
      simp only [Agent.turn, Point.turn]
      split
      · trivial
      · exact booked_walk rfl (hbooks.step rfl rfl ⟨rfl, rfl⟩ rfl rfl)
    | refuse => trivial
    | walk origin eventId stage => exact stage_booked stage h

variable {ι : Type} [DecidableEq ι]

omit [DecidableEq ι] in
/-- An agent starts with empty books. -/
theorem booked_start {w : Recorded ι Db Agent SinkCall} {a : Act ι} {i : ι} {p : Agent}
    (h : moveOf w a = .become i p) : Booked p [] := by
  have hentering : ∀ (j : ι) (b : Agent), Booked b [] → entering w j b = .become i p →
      Booked p [] := by
    intro j b hb hmove
    simp only [entering] at hmove
    split at hmove
    · cases hmove
    · obtain ⟨-, rfl⟩ := Move.become.inj hmove
      exact hb
  have hzero : Books .zero [] ⟨0, 0, 0⟩ 0 := ⟨rfl, rfl, ⟨rfl, rfl⟩, rfl, rfl⟩
  cases a with
  | verb | createRule | turn => cases h
  | patchRule j env patch =>
    have hb : Booked (.patching env patch .update) [] := trivial
    exact hentering j _ hb h
  | runDueLeadRequests j caps => exact hentering j (.running caps (.claim []) .zero) hzero h
  | runRequestOfEvent j caps eventId =>
    exact hentering j (.running caps (.lease eventId) .zero) ⟨hzero, rfl⟩ h
  | crash j =>
    obtain ⟨-, rfl⟩ := Move.become.inj h
    trivial

/-- However walks, verbs and crashes interleave, a summary that an agent returns is the account
of that agent's own sink calls, and all it claimed was completed or parked. -/
theorem leadSummary_told (s : Db) (acts : List (Act ι)) (i : ι) (summary : LeadRunSummary)
    (h : (acts.foldl World.next (World.start s)).agents i = .returned (.ok summary)) :
    Accounts summary ((recorded s acts).own i) := by
  have hlocal : Local machine Booked := fun tick s a own hown => agent_booked a hown
  have hidle : ∀ _ : ι, Booked .idle [] := fun _ => trivial
  have hbooked : Booked ((recorded s acts).procs i) ((recorded s acts).own i) :=
    hlocal.run (fun w a i p => booked_start) hidle acts i
  obtain ⟨-, hagents⟩ := Prod.mk.inj (recorded_world s acts)
  rw [hagents, h] at hbooked
  exact ⟨hbooked.created, hbooked.updated, hbooked.groups, hbooked.parked, hbooked.settled⟩

end turns

section samples

/-- Two passes in step, each on its event, the first with a sink that refuses. -/
def sinkDown : List (Act (Fin 2)) :=
  orderOfTwo ++ [.runDueLeadRequests 0 defaultCaps, .runDueLeadRequests 1 defaultCaps] ++
    (List.replicate 14 [Act.turn 0 { Tick.accepting with createLead := fun _ => .error "down" },
      .turn 1 { Tick.accepting with provenanceId := 2 }]).flatten

theorem leadSummary_told_sinkDown :
    ∃ summary : LeadRunSummary, summary.requestsClaimed = 1 ∧ summary.requestsParked = 1 ∧
      Accounts summary ((recorded twoGigs sinkDown).own 0) :=
  ⟨⟨1, 1, 1, 0, 0, 0, 0, 0, 1⟩, rfl, rfl, leadSummary_told twoGigs sinkDown 0 _ rfl⟩

end samples

end BackboneEvents.LeadGeneration.LeadSummaries
