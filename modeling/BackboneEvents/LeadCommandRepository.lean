import Mathlib.Data.List.Sort
import BackboneEvents.VerbCalls

/-!
# The lead command repository

The rule verbs, the queue's arm, lease and finish, the typed eligibility query and the
provenance writes, one definition for each statement.
-/
namespace BackboneEvents
open ConstrainedTables TransactionPrograms

structure PredicateInput where
  axis : LeadPredicateAxis
  questionId : Option Uuid
  valueIds : List Uuid
  deriving DecidableEq, Repr

structure CreateRule where
  name : String
  eventId : Option Uuid
  basis : LeadBasis
  onCreate : Bool
  onConfirm : Bool
  onDone : Bool
  predicates : List PredicateInput
  actor : Option Uuid
  deriving DecidableEq, Repr

structure PatchRule where
  ruleId : Uuid
  name : Option String
  eventId : Option Uuid
  active : Option Bool
  actor : Option Uuid
  deriving DecidableEq, Repr

/-- The ids a new rule draws, and the default ids of `lead_requests` rows. -/
structure RuleEnv where
  ruleId : Uuid
  predicateId : ℕ → Uuid
  requestId : Uuid → Uuid

/-- What a stored predicate row was inserted as. -/
def LeadPredicate.input (p : LeadPredicate) : PredicateInput := ⟨p.axis, p.questionId, p.valueIds⟩

/-- The CHECK constraints of `lead_rules` and its reference to `events`. -/
def LeadRule.storable (s : Db) (lr : LeadRule) : Bool :=
  lr.name.toList.any (· != ' ') && decide (lr.name.toList.length ≤ 120) &&
    lr.eventId.all (fun e => (s.event? e).isSome)

/-- The question reference rides the question_answer axis only. -/
def LeadPredicate.wellShaped (p : LeadPredicate) : Bool :=
  (p.axis == .questionAnswer) == p.questionId.isSome

def insertRule (lr : LeadRule) : Tx Unit :=
  .statement (fun _ => [])
    (fun v s => if lr.storable v && v.leadRules.accepts lr then
      { s with leadRules := s.leadRules.push lr } else s)
    (fun v => if lr.storable v && v.leadRules.accepts lr then .done () else
      .refuse (.database "lead_rules: constraint violated"))

def insertPredicate (p : LeadPredicate) : Tx Unit :=
  .statement (fun _ => [])
    (fun v s => if p.wellShaped && v.leadPredicates.accepts p then
      { s with leadPredicates := s.leadPredicates.push p } else s)
    (fun v => if p.wellShaped && v.leadPredicates.accepts p then .done () else
      .refuse (.database "lead_rule_predicates: constraint violated"))

def insertPredicates (env : RuleEnv) (ruleId : Uuid) : ℕ → List PredicateInput → Tx Unit
  | _, [] => return ()
  | k, p :: ps => do
    insertPredicate ⟨env.predicateId k, ruleId, p.axis, p.questionId, p.valueIds⟩
    insertPredicates env ruleId (k + 1) ps

/-- The events of a rule's scope: `$1 IS NULL OR e.id = $1`. -/
def Db.scope (s : Db) (eventId : Option Uuid) : List Uuid :=
  (s.events.rows.map Event.id).filter (fun e => eventId.all (· == e))

def armRequests (requestId : Uuid → Uuid) (events : List Uuid) (requests : Table LeadRequest) :
    Table LeadRequest :=
  events.foldl (fun t e => armRequest requestId e t) requests

def Db.armScope (requestId : Uuid → Uuid) (eventId : Option Uuid) (s : Db) : Db :=
  { s with leadRequests := armRequests requestId (s.scope eventId) s.leadRequests }

/-- A rule, its predicates and the arm of its scope, in one transaction. -/
def createRule (env : RuleEnv) (cmd : CreateRule) : Tx LeadRule := do
  let row : LeadRule := ⟨env.ruleId, cmd.name, cmd.eventId, cmd.basis, cmd.onCreate, cmd.onConfirm,
    cmd.onDone, true⟩
  insertRule row
  insertPredicates env env.ruleId 0 cmd.predicates
  Program.update (fun v => (v.scope cmd.eventId).map Lock.leadRequest)
    (fun v s => { s with
      leadRequests := armRequests env.requestId (v.scope cmd.eventId) s.leadRequests })
    (fun _ => ())
  .noteAfter (auditRow "lead_rule_created" cmd.actor "lead_rule" (some env.ruleId)
    (.ruleCreated cmd.name cmd.predicates.length cmd.eventId)) (.done row)

/-- `COALESCE` on name, scope and activity. -/
def LeadRule.patched (patch : PatchRule) : Update LeadRule where
  toFun lr := { lr with
    name := patch.name.getD lr.name
    eventId := patch.eventId.or lr.eventId
    active := patch.active.getD lr.active }
  keeps _ _ := rfl

/-- The first statement of `patch_rule`; the arm is a second one. -/
def updateRule (patch : PatchRule) (s : Db) : Except EventError (LeadRule × Db) :=
  match s.leadRules.find (·.id == patch.ruleId) with
  | none => .error (.leadRuleNotFound patch.ruleId)
  | some lr =>
    if (LeadRule.patched patch lr).storable s then
      .ok (LeadRule.patched patch lr, { s with
        leadRules := s.leadRules.modify (·.id == patch.ruleId) (LeadRule.patched patch) })
    else .error (.database "lead_rules: constraint violated")

/-- `patch_rule` alone on the database: the update, the arm on activation, the audited fact. -/
def patchRule (requestId : Uuid → Uuid) (patch : PatchRule) (s : Db) :
    Except EventError LeadRule × Db :=
  match updateRule patch s with
  | .error e => (.error e, s)
  | .ok (row, t) =>
    let armed := if patch.active == some true then t.armScope requestId row.eventId else t
    (.ok row, armed.absorb (auditRow "lead_rule_updated" patch.actor "lead_rule" (some patch.ruleId)
      (.rulePatched patch.active)))

/-- In microseconds. -/
def lease : ℤ := 900 * 1000000

/-- `claimed_at IS NULL OR claimed_at < now() - make_interval(secs => $1)`. -/
def LeadRequest.leasable (now : Timestamp) (q : LeadRequest) : Bool :=
  q.claimedAt.all (fun stamp => decide (stamp < now - lease))

def LeadRequest.due (now : Timestamp) (exclude : List Uuid) (q : LeadRequest) : Bool :=
  !q.done && q.leasable now && !exclude.contains q.eventId

def LeadRequest.leased (now : Timestamp) : Update LeadRequest where
  toFun q := { q with claimedAt := some now }
  keeps _ _ := rfl

def Db.lease (s : Db) (now : Timestamp) (eventId : Uuid) : Db :=
  { s with
    leadRequests := s.leadRequests.modify (·.eventId == eventId) (LeadRequest.leased now) }

/-- The due request of the least id whose row is not locked elsewhere. -/
def claimNextDueRequest (exclude : List Uuid) (now : Timestamp) (locked : Uuid → Bool) (s : Db) :
    Option LeadRequest × Db :=
  match ((s.leadRequests.rows.filter (fun q => q.due now exclude && !locked q.id)).insertionSort
      (fun a b => a.id ≤ b.id)).head? with
  | none => (none, s)
  | some q => (some (LeadRequest.leased now q), s.lease now q.eventId)

def tryLeaseRequestOfEvent (eventId : Uuid) (now : Timestamp) (s : Db) : Option LeadRequest × Db :=
  match s.leadRequests.find (fun q => q.eventId == eventId && q.leasable now) with
  | none => (none, s)
  | some q => (some (LeadRequest.leased now q), s.lease now eventId)

/-- What the officer hears when no lease was taken. -/
def leaseRefusal (eventId : Uuid) (s : Db) : EventError :=
  if 0 < s.leadRequests.count (·.eventId == eventId) then .leadRequestBusy eventId
  else .leadRequestNotFound eventId

def LeadRequest.finished (error : Option String) : Update LeadRequest where
  toFun q := { q with done := error.isNone, errorDetail := error, claimedAt := none }
  keeps _ _ := rfl

/-- `error_detail` holds 500 characters at most. -/
def finishRequestByEvent (eventId : Uuid) (error : Option String) (s : Db) : Except EventError Db :=
  if error.all (fun reason => decide (reason.toList.length ≤ 500)) then
    .ok { s with
      leadRequests := s.leadRequests.modify (·.eventId == eventId) (LeadRequest.finished error) }
  else .error (.database "lead_requests: error_detail too long")

def activeRulesOfEvent (eventId : Uuid) (s : Db) : List LeadRule :=
  (s.leadRules.rows.filter (·.inScope eventId)).insertionSort (fun a b => a.id ≤ b.id)

def predicatesOfRule (ruleId : Uuid) (s : Db) : List LeadPredicate :=
  (s.leadPredicates.rows.filter (·.ruleId == ruleId)).insertionSort (fun a b => a.id ≤ b.id)

/-- One eligible registration as the engine sees it. -/
structure EligibleRegistration where
  id : Uuid
  name : Option String
  email : Option String
  phone : Option String
  companyName : Option String
  partnerId : Option Uuid
  saleOrderId : Option Uuid
  createdAt : Option Timestamp
  deriving DecidableEq, Repr

def Registration.seen (r : Registration) : EligibleRegistration where
  id := r.id
  name := some r.name
  email := some r.email
  phone := r.phone
  companyName := r.companyName
  partnerId := r.partnerId
  saleOrderId := r.saleOrderId
  createdAt := r.createdAt

/-- The clause one typed predicate adds. -/
def LeadPredicate.holds (s : Db) (r : Registration) (p : LeadPredicate) : Bool :=
  match p.axis with
  | .event => p.valueIds.contains r.eventId
  | .eventType =>
    (s.event? r.eventId).any (fun event => event.eventTypeId.any (p.valueIds.contains ·))
  | .company => r.orgUnitId.any (p.valueIds.contains ·)
  | .questionAnswer => s.registrationAnswers.rows.any (fun ra =>
      ra.registrationId == r.id && p.questionId == some ra.questionId &&
        ra.valueAnswerId.any (p.valueIds.contains ·))

/-- The domain of a rule on an event, before the anti-join. -/
def Db.qualifies (s : Db) (eventId : Uuid) (predicates : List LeadPredicate) (r : Registration) :
    Bool :=
  r.eventId == eventId && r.eligible && predicates.all (·.holds s r)

/-- The rule has a provenance that the registration is junctioned to. -/
def Db.provenanced (s : Db) (ruleId registrationId : Uuid) : Bool :=
  s.leadProvenanceRegistrations.rows.any (fun j => j.registrationId == registrationId &&
    s.leadProvenances.rows.any (fun p => p.id == j.provenanceId && p.ruleId == ruleId))

/-- The `company` axis reads a column that only the composing service adds. -/
def eligibleRegistrations (eventId ruleId : Uuid) (predicates : List LeadPredicate) (batch : ℕ)
    (s : Db) : Except EventError (List EligibleRegistration) :=
  if predicates.any (·.axis == .company) && !s.orgAxis then
    .error (.database "column r.org_unit_id does not exist")
  else .ok ((((s.registrations.rows.filter (fun r => s.qualifies eventId predicates r &&
    !s.provenanced ruleId r.id)).insertionSort (fun a b => a.id ≤ b.id)).take batch).map
      Registration.seen)

/-- A new group is inserted; an existing one answers with its lead. -/
def upsertProvenance (provenanceId ruleId eventId : Uuid) (groupKey : String)
    (grouping : LeadGrouping) (s : Db) : Except EventError ((Uuid × Option Uuid) × Db) :=
  match s.leadProvenances.find (fun p => p.ruleId == ruleId && p.groupKey == groupKey) with
  | some p => .ok ((p.id, p.leadId), s)
  | none =>
    let row : LeadProvenance := ⟨provenanceId, ruleId, eventId, none, groupKey, grouping⟩
    if s.leadProvenances.accepts row then
      .ok ((provenanceId, none), { s with leadProvenances := s.leadProvenances.push row })
    else .error (.database "lead_provenances: duplicate key")

def groupMembers (provenanceId : Uuid) (s : Db) : List EligibleRegistration :=
  (((s.leadProvenanceRegistrations.rows.filter (·.provenanceId == provenanceId)).filterMap
    (fun j => s.registration? j.registrationId)).insertionSort (fun a b => a.id ≤ b.id)).map
      Registration.seen

def LeadProvenance.linked (leadId : Uuid) : Update LeadProvenance where
  toFun p := { p with leadId := some leadId }
  keeps _ _ := rfl

def setProvenanceLead (provenanceId leadId : Uuid) (s : Db) : Db :=
  { s with
    leadProvenances := s.leadProvenances.modify (·.id == provenanceId)
      (LeadProvenance.linked leadId) }

/-- The rows of the absorbed lead move to the survivor in one update, which answers their number. -/
def relinkLead (oldLeadId newLeadId : Uuid) (actor : Option Uuid) (s : Db) : ℕ × Db :=
  let moves (p : LeadProvenance) : Bool := p.leadId == some oldLeadId && oldLeadId != newLeadId
  let moved := s.leadProvenances.count moves
  (moved, { s with
    leadProvenances := s.leadProvenances.modify moves (LeadProvenance.linked newLeadId)
    auditTrails := s.auditTrails ++
      [auditRow "lead_relinked" actor "lead" (some newLeadId) (.leadRelinked oldLeadId moved)] })

/-- `ON CONFLICT (provenance_id, registration_id) DO NOTHING`, counting the new rows. -/
def addJunctions (junctionId : Uuid → Uuid) (provenanceId : Uuid) :
    List Uuid → Table LeadProvenanceRegistration → Option (ℕ × Table LeadProvenanceRegistration)
  | [], t => some (0, t)
  | r :: rs, t =>
    if t.rows.any (fun j => j.provenanceId == provenanceId && j.registrationId == r) then
      addJunctions junctionId provenanceId rs t
    else if t.accepts ⟨junctionId r, provenanceId, r⟩ then
      (addJunctions junctionId provenanceId rs (t.push ⟨junctionId r, provenanceId, r⟩)).map
        (fun answer => (answer.1 + 1, answer.2))
    else none

def junctionAdd (junctionId : Uuid → Uuid) (provenanceId : Uuid) (registrationIds : List Uuid)
    (s : Db) : Except EventError (ℕ × Db) :=
  match addJunctions junctionId provenanceId registrationIds s.leadProvenanceRegistrations with
  | none => .error (.database "lead_provenance_registrations: duplicate key")
  | some (added, t) => .ok (added, { s with leadProvenanceRegistrations := t })

end BackboneEvents
