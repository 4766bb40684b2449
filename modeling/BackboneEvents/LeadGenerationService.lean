import Mathlib.Data.List.Dedup
import BackboneEvents.LeadCommandRepository
import BackboneEvents.SchedulerService

/-!
# The lead generation service

An agent is a walker of the queue or a rule patch; its steps are the single repository and
sink calls of the service, in source order. A walker holds an event's lease and nothing
else between its steps, so walkers, patches and the verbs interleave at these steps, and an
agent can stop after any of them. Every sink call is recorded with its answer.
-/
namespace BackboneEvents.LeadGeneration
open ConstrainedTables TransactionPrograms

/-- Year, month and day of a day number counted from 1970-01-01, with years from March. -/
def civilDate (day : ℤ) : ℤ × ℤ × ℤ :=
  let shifted := day + 719468
  let dayOfEra := shifted % 146097
  let yearOfEra := (dayOfEra - dayOfEra / 1460 + dayOfEra / 36524 - dayOfEra / 146096) / 365
  let dayOfYear := dayOfEra - (365 * yearOfEra + yearOfEra / 4 - yearOfEra / 100)
  let fromMarch := (5 * dayOfYear + 2) / 153
  let month := if fromMarch < 10 then fromMarch + 3 else fromMarch - 9
  (yearOfEra + shifted / 146097 * 400 + (if month ≤ 2 then 1 else 0), month,
    dayOfYear - (153 * fromMarch + 2) / 5 + 1)

def padded (width n : ℕ) : String :=
  let digits := Nat.toDigits 10 n
  String.ofList (List.replicate (width - digits.length) '0' ++ digits)

/-- A year past four digits or before the year 0 carries its sign. -/
def yearText (year : ℤ) : String :=
  if 0 ≤ year ∧ year ≤ 9999 then padded 4 year.toNat
  else (if year < 0 then "-" else "+") ++ padded 4 year.natAbs

/-- The UTC date of an instant. -/
def dateNaive (instant : Timestamp) : String :=
  let (year, month, day) := civilDate (instant / 86400000000)
  yearText year ++ "-" ++ padded 2 month.toNat ++ "-" ++ padded 2 day.toNat

example : [dateNaive 0, dateNaive (-1), dateNaive 1709164800000000] =
    ["1970-01-01", "1969-12-31", "2024-02-29"] := by decide

def groupingText : LeadGrouping → String
  | .perOrder => "per_order"
  | .perEventDay => "per_event_day"

/-- Sale-linked registrations group per order, walk-ins per event and day. -/
def groupOf (eventId : Uuid) (r : EligibleRegistration) : LeadGrouping × String :=
  match r.saleOrderId with
  | some orderId => (.perOrder, uuidText orderId)
  | none => (.perEventDay,
    uuidText eventId ++ ":" ++ (r.createdAt.map dateNaive).getD "unknown-day")

structure MemberGroup where
  grouping : LeadGrouping
  groupKey : String
  members : List EligibleRegistration
  deriving DecidableEq, Repr

def keyNotAfter (a b : LeadGrouping × String) : Bool :=
  decide (groupingText a.1 < groupingText b.1 ∨ groupingText a.1 = groupingText b.1 ∧ a.2 ≤ b.2)

/-- The groups of a batch in key order, each with its members in walk order. -/
def groupsOf (eventId : Uuid) (eligible : List EligibleRegistration) : List MemberGroup :=
  ((eligible.map (groupOf eventId)).dedup.insertionSort (fun a b => keyNotAfter a b = true)).map
    (fun key => ⟨key.1, key.2, eligible.filter (fun r => groupOf eventId r == key)⟩)

/-- One registration as the sink sees it. -/
structure LeadRegistrationView where
  id : Uuid
  name : Option String
  email : Option String
  phone : Option String
  companyName : Option String
  partnerId : Option Uuid
  saleOrderId : Option Uuid
  deriving DecidableEq, Repr

def viewOf (m : EligibleRegistration) : LeadRegistrationView where
  id := m.id
  name := m.name
  email := m.email
  phone := m.phone
  companyName := m.companyName
  partnerId := m.partnerId
  saleOrderId := m.saleOrderId

structure LeadGroup where
  ruleId : Uuid
  eventId : Uuid
  groupKey : String
  grouping : LeadGrouping
  registrations : List LeadRegistrationView
  deriving DecidableEq, Repr

/-- The batch and cron limit a service is composed with. -/
def defaultCaps : Caps := ⟨200, 1000, Nat.succ_pos _, Nat.succ_pos _⟩

/-- What one step finds outside the database: the clock, rows locked elsewhere, new ids and
the sink. -/
structure Tick where
  now : Timestamp
  locked : Uuid → Bool
  provenanceId : Uuid
  junctionId : Uuid → Uuid
  createLead : LeadGroup → Except String Uuid
  updateLead : Uuid → LeadGroup → Except String Unit

structure LeadRunSummary where
  requestsClaimed : ℕ
  rulesEvaluated : ℕ
  registrationsMatched : ℕ
  groupsCreated : ℕ
  groupsGrown : ℕ
  leadsCreated : ℕ
  leadsUpdated : ℕ
  requestsCompleted : ℕ
  requestsParked : ℕ
  deriving DecidableEq, Repr

namespace LeadRunSummary

def zero : LeadRunSummary := ⟨0, 0, 0, 0, 0, 0, 0, 0, 0⟩

variable (summary : LeadRunSummary)

def grouped (grown : Bool) : LeadRunSummary :=
  if grown then
    { summary with
      groupsGrown := summary.groupsGrown + 1
      leadsUpdated := summary.leadsUpdated + 1 }
  else
    { summary with
      groupsCreated := summary.groupsCreated + 1
      leadsCreated := summary.leadsCreated + 1 }

def finished (reason : Option String) : LeadRunSummary :=
  match reason with
  | some _ => { summary with requestsParked := summary.requestsParked + 1 }
  | none => { summary with requestsCompleted := summary.requestsCompleted + 1 }

end LeadRunSummary

/-- The rule under way with the rules after it, whether the batch was full, the group under
way and those after it. -/
structure Batch where
  rule : LeadRule
  predicates : List LeadPredicate
  rest : List LeadRule
  full : Bool
  group : MemberGroup
  later : List MemberGroup
  deriving DecidableEq, Repr

/-- Where a walk of one event stands: the call it makes next. -/
inductive Stage where
  | readRules
  | readPredicates (rule : LeadRule) (rest : List LeadRule)
  | readEligible (rule : LeadRule) (predicates : List LeadPredicate) (rest : List LeadRule)
  | upsert (k : Batch)
  | members (k : Batch) (provenanceId : Uuid) (lead : Option Uuid)
  | create (k : Batch) (provenanceId : Uuid) (group : LeadGroup) (newIds : List Uuid)
  | setLead (k : Batch) (provenanceId leadId : Uuid) (newIds : List Uuid)
  | update (k : Batch) (provenanceId leadId : Uuid) (group : LeadGroup) (newIds : List Uuid)
  | junction (k : Batch) (provenanceId : Uuid) (newIds : List Uuid) (grown : Bool)
  | finish (reason : Option String)
  deriving DecidableEq, Repr

/-- The cron pass holds the events it has parked. -/
inductive Origin where
  | cron (parked : List Uuid)
  | officer
  deriving DecidableEq, Repr

inductive Point where
  | claim (parked : List Uuid)
  | lease (eventId : Uuid)
  | refuse (eventId : Uuid)
  | walk (origin : Origin) (eventId : Uuid) (stage : Stage)
  deriving DecidableEq, Repr

/-- The statements of a rule patch: the update, the arm on activation, the audited fact. -/
inductive Patching where
  | update
  | arm (row : LeadRule)
  | audit (row : LeadRule)
  deriving DecidableEq, Repr

inductive Agent where
  | idle
  | running (caps : Caps) (point : Point) (summary : LeadRunSummary)
  | returned (result : Except EventError LeadRunSummary)
  | patching (env : RuleEnv) (patch : PatchRule) (stage : Patching)
  | patched (result : Except EventError LeadRule)

def Agent.isRunning : Agent → Bool
  | .idle | .returned _ | .patched _ => false
  | .running _ _ _ | .patching _ _ _ => true

inductive SinkCall where
  | created (group : LeadGroup) (answer : Except String Uuid)
  | updated (leadId : Uuid) (group : LeadGroup) (answer : Except String Unit)

/-- What one step of an agent leaves. -/
structure Turn where
  db : Db
  agent : Agent
  calls : List SinkCall

def Stage.ofRules : List LeadRule → Stage
  | [] => .finish none
  | rule :: rest => .readPredicates rule rest

/-- The groups of a batch, then the next batch after a full one, else the next rule. -/
def Stage.ofGroups (rule : LeadRule) (predicates : List LeadPredicate) (rest : List LeadRule)
    (full : Bool) : List MemberGroup → Stage
  | [] => if full then .readEligible rule predicates rest else .ofRules rest
  | group :: later => .upsert ⟨rule, predicates, rest, full, group, later⟩

def Batch.next (k : Batch) : Stage := .ofGroups k.rule k.predicates k.rest k.full k.later

/-- The members of the group that are not junctioned yet. -/
def Batch.newMembers (k : Batch) (known : List EligibleRegistration) : List EligibleRegistration :=
  k.group.members.filter (fun m => !known.any (·.id == m.id))

/-- The full group: the junctioned members, then the new ones. -/
def Batch.leadGroup (k : Batch) (eventId : Uuid) (known : List EligibleRegistration) : LeadGroup where
  ruleId := k.rule.id
  eventId := eventId
  groupKey := k.group.groupKey
  grouping := k.group.grouping
  registrations := (known ++ k.newMembers known).map viewOf

/-- A parked event is kept out of the claims of its own pass. -/
def Origin.after (origin : Origin) (caps : Caps) (eventId : Uuid) (reason : Option String)
    (summary : LeadRunSummary) : Agent :=
  match origin with
  | .cron parked =>
    .running caps (.claim (if reason.isSome then parked ++ [eventId] else parked)) summary
  | .officer => .returned (.ok summary)

/-- One step of `run_one` on an event. -/
def Stage.turn (caps : Caps) (origin : Origin) (eventId : Uuid) (tick : Tick)
    (summary : LeadRunSummary) (s : Db) (stage : Stage) : Turn :=
  let go (stage : Stage) (summary : LeadRunSummary) : Agent :=
    .running caps (.walk origin eventId stage) summary
  match stage with
  | .readRules => ⟨s, go (.ofRules (activeRulesOfEvent eventId s)) summary, []⟩
  | .readPredicates rule rest =>
    ⟨s, go (.readEligible rule (predicatesOfRule rule.id s) rest)
      { summary with rulesEvaluated := summary.rulesEvaluated + 1 }, []⟩
  | .readEligible rule predicates rest =>
    match eligibleRegistrations eventId rule.id predicates caps.batch s with
    | .error e => ⟨s, .returned (.error e), []⟩
    | .ok eligible =>
      ⟨s, go (.ofGroups rule predicates rest (decide (caps.batch ≤ eligible.length))
        (groupsOf eventId eligible))
        { summary with registrationsMatched := summary.registrationsMatched + eligible.length }, []⟩
  | .upsert k =>
    match upsertProvenance tick.provenanceId k.rule.id eventId k.group.groupKey k.group.grouping s
      with
    | .error e => ⟨s, .returned (.error e), []⟩
    | .ok ((provenanceId, lead), t) => ⟨t, go (.members k provenanceId lead) summary, []⟩
  | .members k provenanceId lead =>
    let known := groupMembers provenanceId s
    let newIds := (k.newMembers known).map EligibleRegistration.id
    match lead with
    | some leadId =>
      if newIds.isEmpty then ⟨s, go k.next summary, []⟩
      else ⟨s, go (.update k provenanceId leadId (k.leadGroup eventId known) newIds) summary, []⟩
    | none => ⟨s, go (.create k provenanceId (k.leadGroup eventId known) newIds) summary, []⟩
  | .create k provenanceId group newIds =>
    let answer := tick.createLead group
    match answer with
    | .error reason => ⟨s, go (.finish (some reason)) summary, [.created group answer]⟩
    | .ok leadId =>
      ⟨s, go (.setLead k provenanceId leadId newIds) summary, [.created group answer]⟩
  | .setLead k provenanceId leadId newIds =>
    ⟨setProvenanceLead provenanceId leadId s, go (.junction k provenanceId newIds false) summary, []⟩
  | .update k provenanceId leadId group newIds =>
    let answer := tick.updateLead leadId group
    match answer with
    | .error reason => ⟨s, go (.finish (some reason)) summary, [.updated leadId group answer]⟩
    | .ok _ =>
      ⟨s, go (.junction k provenanceId newIds true) summary, [.updated leadId group answer]⟩
  | .junction k provenanceId newIds grown =>
    match junctionAdd tick.junctionId provenanceId newIds s with
    | .error e => ⟨s, .returned (.error e), []⟩
    | .ok (_, t) => ⟨t, go k.next (summary.grouped grown), []⟩
  | .finish reason =>
    match finishRequestByEvent eventId reason s with
    | .error e => ⟨s, .returned (.error e), []⟩
    | .ok t => ⟨t, origin.after caps eventId reason (summary.finished reason), []⟩

/-- One step of `run_due_lead_requests` or `run_request_of_event`. -/
def Point.turn (caps : Caps) (tick : Tick) (summary : LeadRunSummary) (s : Db) : Point → Turn
  | .claim parked =>
    if caps.cronLimit ≤ summary.requestsClaimed then ⟨s, .returned (.ok summary), []⟩
    else
      match claimNextDueRequest parked tick.now tick.locked s with
      | (none, t) => ⟨t, .returned (.ok summary), []⟩
      | (some request, t) =>
        ⟨t, .running caps (.walk (.cron parked) request.eventId .readRules)
          { summary with requestsClaimed := summary.requestsClaimed + 1 }, []⟩
  | .lease eventId =>
    match tryLeaseRequestOfEvent eventId tick.now s with
    | (none, t) => ⟨t, .running caps (.refuse eventId) summary, []⟩
    | (some request, t) =>
      ⟨t, .running caps (.walk .officer request.eventId .readRules)
        { summary with requestsClaimed := 1 }, []⟩
  | .refuse eventId => ⟨s, .returned (.error (leaseRefusal eventId s)), []⟩
  | .walk origin eventId stage => stage.turn caps origin eventId tick summary s

/-- One step of `patch_rule`. -/
def Patching.turn (env : RuleEnv) (patch : PatchRule) (s : Db) : Patching → Turn
  | .update =>
    match updateRule patch s with
    | .error e => ⟨s, .patched (.error e), []⟩
    | .ok (row, t) =>
      ⟨t, .patching env patch (if patch.active == some true then .arm row else .audit row), []⟩
  | .arm row => ⟨s.armScope env.requestId row.eventId, .patching env patch (.audit row), []⟩
  | .audit row =>
    ⟨s.absorb (auditRow "lead_rule_updated" patch.actor "lead_rule" (some patch.ruleId)
      (.rulePatched patch.active)), .patched (.ok row), []⟩

def Agent.turn (tick : Tick) (s : Db) : Agent → Turn
  | .running caps point summary => point.turn caps tick summary s
  | .patching env patch stage => stage.turn env patch s
  | .idle => ⟨s, .idle, []⟩
  | .returned result => ⟨s, .returned result, []⟩
  | .patched result => ⟨s, .patched result, []⟩

/-- The database, the agents under way, and every sink call so far. -/
structure World (ι : Type) where
  db : Db
  agents : ι → Agent
  calls : List SinkCall

/-- A verb, a new rule, the start of an agent, one step of an agent, or its crash. -/
inductive Act (ι : Type) where
  | verb (c : Call)
  | createRule (env : RuleEnv) (cmd : CreateRule)
  | patchRule (i : ι) (env : RuleEnv) (patch : PatchRule)
  | runDueLeadRequests (i : ι) (caps : Caps)
  | runRequestOfEvent (i : ι) (caps : Caps) (eventId : Uuid)
  | turn (i : ι) (tick : Tick)
  | crash (i : ι)

def Db.withRule (env : RuleEnv) (cmd : CreateRule) (s : Db) : Db :=
  ((BackboneEvents.createRule env cmd).execute Db.absorb s).2

namespace World

variable {ι : Type} [DecidableEq ι]

def start (s : Db) : World ι := ⟨s, fun _ => .idle, []⟩

def setAgent (w : World ι) (i : ι) (a : Agent) : World ι :=
  { w with agents := fun j => if j = i then a else w.agents j }

@[simp] theorem setAgent_self (w : World ι) (i : ι) (a : Agent) :
    (w.setAgent i a).agents i = a := if_pos rfl

theorem setAgent_of_ne {w : World ι} {i j : ι} {a : Agent} (h : j ≠ i) :
    (w.setAgent i a).agents j = w.agents j := if_neg h

/-- An agent starts where none is running. -/
def enter (w : World ι) (i : ι) (a : Agent) : World ι :=
  if (w.agents i).isRunning then w else w.setAgent i a

def next (w : World ι) : Act ι → World ι
  | .verb c => { w with db := w.db.next c }
  | .createRule env cmd => { w with db := Db.withRule env cmd w.db }
  | .patchRule i env patch => w.enter i (.patching env patch .update)
  | .runDueLeadRequests i caps => w.enter i (.running caps (.claim []) .zero)
  | .runRequestOfEvent i caps eventId => w.enter i (.running caps (.lease eventId) .zero)
  | .turn i tick =>
    let turn := (w.agents i).turn tick w.db
    { (w.setAgent i turn.agent) with db := turn.db, calls := w.calls ++ turn.calls }
  | .crash i => w.setAgent i .idle

end World

end BackboneEvents.LeadGeneration
