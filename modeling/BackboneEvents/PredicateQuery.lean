import BackboneEvents.LeadWalks

/-!
# The composed predicate query

The typed predicates of a rule become clauses of one query. Its text and the list of its bound
parameters are composed by two loops, each going on by one parameter for a predicate, or by two
on the question_answer axis. The placeholders of the text are the numbers of the bound
parameters, and each clause finds its own predicate's values under its own.
-/
namespace BackboneEvents.PredicateQuery
open ConstrainedTables TransactionPrograms LeadGeneration

/-- One typed predicate as it crosses the wire. -/
structure PredicateSpec where
  axis : String
  questionId : Option Uuid
  valueIds : List Uuid
  deriving DecidableEq, Repr

/-- The labels of the enum type, which are the closed vocabulary. -/
def axisText : LeadPredicateAxis → String
  | .event => "event"
  | .eventType => "event_type"
  | .company => "company"
  | .questionAnswer => "question_answer"

def axisOfText (text : String) : Option LeadPredicateAxis :=
  [LeadPredicateAxis.event, .eventType, .company, .questionAnswer].find? (axisText · == text)

def validatePredicate (spec : PredicateSpec) : Except EventError PredicateInput :=
  match axisOfText spec.axis with
  | none => .error (.validation ("predicate axis '" ++ spec.axis ++
      "' is outside the closed vocabulary [\"event\", \"event_type\", \"company\", " ++
      "\"question_answer\"]"))
  | some axis =>
    if spec.valueIds.isEmpty then
      .error (.validation ("predicate axis '" ++ spec.axis ++ "' carries no values"))
    else if axis == .questionAnswer then
      match spec.questionId with
      | none => .error (.validation
          "the question_answer axis requires question_id (refused)")
      | some question => .ok ⟨axis, some question, spec.valueIds⟩
    else if spec.questionId.isSome then
      .error (.validation ("the " ++ spec.axis ++ " axis carries no question_id (refused)"))
    else .ok ⟨axis, none, spec.valueIds⟩

/-- The first spec that is refused refuses the list. -/
def validatePredicates : List PredicateSpec → Except EventError (List PredicateInput)
  | [] => .ok []
  | spec :: specs =>
    match validatePredicate spec with
    | .error e => .error e
    | .ok input => (validatePredicates specs).map (input :: ·)

/-- The predicate row as the engine reads it, the axis as text. -/
structure LeadPredicateRow where
  id : Uuid
  ruleId : Uuid
  axis : String
  questionId : Option Uuid
  valueIds : List Uuid
  deriving DecidableEq, Repr

def readRow (p : LeadPredicate) : LeadPredicateRow :=
  ⟨p.id, p.ruleId, axisText p.axis, p.questionId, p.valueIds⟩

/-- A text with numbered placeholders. -/
inductive Piece where
  | text (s : String)
  | hole (n : ℕ)
  deriving DecidableEq, Repr

def Piece.render : Piece → String
  | .text s => s
  | .hole n => "$" ++ toString n

def Piece.hole? : Piece → Option ℕ
  | .text _ => none
  | .hole n => some n

def holes (pieces : List Piece) : List ℕ := pieces.filterMap Piece.hole?

/-- One clause of the composed text, by the numbers of its placeholders. -/
inductive Clause where
  | event (values : ℕ)
  | eventType (values : ℕ)
  | company (values : ℕ)
  | questionAnswer (question values : ℕ)
  deriving DecidableEq, Repr

def valuesPieces (values : ℕ) : List Piece :=
  [.text "SELECT (v #>> '\x7b\x7d')::uuid FROM jsonb_array_elements(", .hole values,
    .text "::jsonb) v"]

def Clause.pieces : Clause → List Piece
  | .event values => .text " AND r.event_id IN (" :: (valuesPieces values ++ [.text ")"])
  | .eventType values =>
    .text (" AND EXISTS (SELECT 1 FROM event.events e JOIN event.types t " ++
      "ON t.id = e.event_type_id WHERE e.id = r.event_id AND t.id IN (") ::
      (valuesPieces values ++ [.text "))"])
  | .company values => .text " AND r.org_unit_id IN (" :: (valuesPieces values ++ [.text ")"])
  | .questionAnswer question values =>
    [.text (" AND EXISTS (SELECT 1 FROM event.registration_answers ra " ++
      "WHERE ra.registration_id = r.id AND ra.question_id = "), .hole question,
      .text " AND ra.value_answer_id IN ("] ++ valuesPieces values ++ [.text "))"]

/-- The first loop, over the text. An axis outside the vocabulary is corruption. -/
def composeClauses : ℕ → List LeadPredicateRow → Except EventError (List Clause)
  | _, [] => .ok []
  | param, p :: ps =>
    if p.axis == "event" then (composeClauses (param + 1) ps).map (.event param :: ·)
    else if p.axis == "event_type" then
      (composeClauses (param + 1) ps).map (.eventType param :: ·)
    else if p.axis == "company" then (composeClauses (param + 1) ps).map (.company param :: ·)
    else if p.axis == "question_answer" then
      (composeClauses (param + 2) ps).map (.questionAnswer (param + 1) param :: ·)
    else .error (.internal ("predicate axis outside the closed vocabulary: " ++ p.axis))

/-- The text of the query. -/
def queryPieces (clauses : List Clause) : List Piece :=
  [.text ("SELECT r.id, r.name, r.email, r.phone, r.company_name, r.partner_id, " ++
      "r.sale_order_id, (r.metadata->>'created_at')::timestamptz AS created_at " ++
      "FROM event.registrations r WHERE r.event_id = "), .hole 1,
    .text (" AND r.state IN ('open','done') AND r.active AND NOT EXISTS (" ++
      "SELECT 1 FROM event.lead_provenance_registrations j " ++
      "JOIN event.lead_provenances p ON p.id = j.provenance_id WHERE p.rule_id = "), .hole 2,
    .text " AND j.registration_id = r.id)"] ++ clauses.flatMap Clause.pieces ++
  [.text " ORDER BY r.id LIMIT ", .hole 3]

/-- A bound parameter; the values are a JSON array of the texts of uuids. -/
inductive Param where
  | uuid (id : Option Uuid)
  | bigint (n : ℕ)
  | jsonb (ids : List Uuid)
  deriving DecidableEq, Repr

def rowParams (p : LeadPredicateRow) : List Param :=
  .jsonb p.valueIds :: (if p.axis == "question_answer" then [.uuid p.questionId] else [])

/-- The second loop, over the parameters. -/
def binds (eventId ruleId : Uuid) (batch : ℕ) (rows : List LeadPredicateRow) : List Param :=
  [.uuid (some eventId), .uuid (some ruleId), .bigint batch] ++ rows.flatMap rowParams

def param (params : List Param) : ℕ → Option Param
  | 0 => none
  | n + 1 => params[n]?

/-- A clause with its parameters put in. -/
inductive Condition where
  | event (values : List Uuid)
  | eventType (values : List Uuid)
  | company (values : List Uuid)
  | questionAnswer (question : Option Uuid) (values : List Uuid)
  deriving DecidableEq, Repr

def Condition.holds (s : Db) (r : Registration) : Condition → Bool
  | .event values => values.contains r.eventId
  | .eventType values =>
    (s.event? r.eventId).any (fun event => event.eventTypeId.any (values.contains ·))
  | .company values => r.orgUnitId.any (values.contains ·)
  | .questionAnswer question values => s.registrationAnswers.rows.any (fun ra =>
      ra.registrationId == r.id && question == some ra.questionId &&
        ra.valueAnswerId.any (values.contains ·))

def valuesAt (params : List Param) (n : ℕ) : Option (List Uuid) :=
  match param params n with
  | some (.jsonb ids) => some ids
  | _ => none

def uuidAt (params : List Param) (n : ℕ) : Option (Option Uuid) :=
  match param params n with
  | some (.uuid id) => some id
  | _ => none

/-- A placeholder that is not bound, or bound to another type, leaves no condition. -/
def Clause.instantiate (params : List Param) : Clause → Option Condition
  | .event values => (valuesAt params values).map .event
  | .eventType values => (valuesAt params values).map .eventType
  | .company values => (valuesAt params values).map .company
  | .questionAnswer question values =>
    match uuidAt params question, valuesAt params values with
    | some id, some ids => some (.questionAnswer id ids)
    | _, _ => none

/-- Every placeholder is bound and every bound parameter has a placeholder. -/
def boundExactly (numbers : List ℕ) (params : List Param) : Bool :=
  numbers.all (fun n => decide (0 < n) && decide (n ≤ params.length)) &&
    (List.range params.length).all (fun i => numbers.contains (i + 1))

/-- The registrations of an event that no junction under the rule holds, and that meet all of
the conditions, first by id. -/
def firstBatch (s : Db) (eventId ruleId : Uuid) (batch : ℕ) (conditions : List Condition) :
    List EligibleRegistration :=
  (((s.registrations.rows.filter (fun r => r.eventId == eventId && r.eligible &&
    !s.provenanced ruleId r.id && conditions.all (·.holds s r))).insertionSort
      (fun a b => a.id ≤ b.id)).take batch).map Registration.seen

/-- The database runs the text on the parameters. -/
def runQuery (clauses : List Clause) (params : List Param) (s : Db) :
    Except EventError (List EligibleRegistration) :=
  if clauses.any (fun c => c matches .company _) && !s.orgAxis then
    .error (.database "column r.org_unit_id does not exist")
  else if !boundExactly (holes (queryPieces clauses)) params then
    .error (.database "bind message supplies other parameters than the statement requires")
  else
    match uuidAt params 1, uuidAt params 2, param params 3,
      clauses.mapM (Clause.instantiate params) with
    | some (some eventId), some (some ruleId), some (.bigint batch), some conditions =>
      .ok (firstBatch s eventId ruleId batch conditions)
    | _, _, _, _ => .error (.database "parameter of another type")

/-- The engine's read: compose the text, bind the parameters, run. -/
def eligibleRegistrations (eventId ruleId : Uuid) (rows : List LeadPredicateRow) (batch : ℕ)
    (s : Db) : Except EventError (List EligibleRegistration) :=
  match composeClauses 4 rows with
  | .error e => .error e
  | .ok clauses => runQuery clauses (binds eventId ruleId batch rows) s

def condition (p : PredicateInput) : Condition :=
  match p.axis with
  | .event => .event p.valueIds
  | .eventType => .eventType p.valueIds
  | .company => .company p.valueIds
  | .questionAnswer => .questionAnswer p.questionId p.valueIds

section alignment

variable {p : LeadPredicate} {predicates : List LeadPredicate} {before : List Param}

theorem param_append_length (x : Param) (after : List Param) :
    param (before ++ x :: after) (before.length + 1) = some x := by
  simp [param]

theorem param_append_succ (x y : Param) (after : List Param) :
    param (before ++ x :: y :: after) (before.length + 1 + 1) = some y := by
  simp [param]

/-- The clause of a predicate whose parameters start at `k`. -/
def clauseOf (k : ℕ) (p : LeadPredicate) : Clause :=
  match p.axis with
  | .event => .event k
  | .eventType => .eventType k
  | .company => .company k
  | .questionAnswer => .questionAnswer (k + 1) k

/-- The text goes on by as many numbers as the predicate binds parameters. -/
theorem composeClauses_cons (k : ℕ) (p : LeadPredicate) (rows : List LeadPredicateRow) :
    composeClauses k (readRow p :: rows) =
      (composeClauses (k + (rowParams (readRow p)).length) rows).map (clauseOf k p :: ·) := by
  cases h : p.axis <;> simp [composeClauses, readRow, rowParams, clauseOf, axisText, h]

theorem instantiate_clauseOf (p : LeadPredicate) (after : List Param) :
    (clauseOf (before.length + 1) p).instantiate (before ++ (rowParams (readRow p) ++ after)) =
      some (condition p.input) := by
  cases h : p.axis <;> simp [clauseOf, Clause.instantiate, valuesAt, uuidAt, rowParams, readRow,
    axisText, condition, LeadPredicate.input, h, param_append_length, param_append_succ]

theorem mem_holes_clauseOf {k n : ℕ} : n ∈ holes (clauseOf k p).pieces ↔
    k ≤ n ∧ n < k + (rowParams (readRow p)).length := by
  cases h : p.axis <;> simp [clauseOf, Clause.pieces, valuesPieces, holes, Piece.hole?, rowParams,
    readRow, axisText, h] <;> omega

theorem clauseOf_company (k : ℕ) (p : LeadPredicate) :
    (clauseOf k p matches .company _) = (p.axis == .company) := by
  cases h : p.axis <;> simp [clauseOf, h]

/-- What the two loops make of a list of predicates, from any number of bound parameters on. -/
theorem compose_aligned (predicates : List LeadPredicate) (before : List Param) :
    ∃ clauses, composeClauses (before.length + 1) (predicates.map readRow) = .ok clauses ∧
      List.Forall₂ (fun c p => c.instantiate
        (before ++ (predicates.map readRow).flatMap rowParams) = some (condition p.input))
          clauses predicates ∧
      (∀ n, n ∈ holes (clauses.flatMap Clause.pieces) ↔ before.length < n ∧
        n ≤ before.length + ((predicates.map readRow).flatMap rowParams).length) ∧
      clauses.any (fun c => c matches .company _) = predicates.any (·.axis == .company) := by
  induction predicates generalizing before with
  | nil =>
    refine ⟨[], rfl, .nil, fun n => ?_, rfl⟩
    simp only [List.flatMap_nil, holes, List.filterMap_nil, List.not_mem_nil, false_iff,
      List.map_nil, List.length_nil]
    omega
  | cons p ps ih =>
    obtain ⟨clauses, hcompose, haligned, hholes, hcompany⟩ := ih (before ++ rowParams (readRow p))
    have hnext : (before ++ rowParams (readRow p)).length + 1 =
        before.length + 1 + (rowParams (readRow p)).length := by
      rw [List.length_append]
      omega
    rw [hnext] at hcompose
    refine ⟨clauseOf (before.length + 1) p :: clauses, ?_, ?_, fun n => ?_, ?_⟩
    · rw [List.map_cons, composeClauses_cons, hcompose]
      rfl
    · rw [List.map_cons, List.flatMap_cons]
      refine .cons (instantiate_clauseOf p _) ?_
      rw [← List.append_assoc]
      exact haligned
    · have htail := hholes n
      have hhead : n ∈ holes (clauseOf (before.length + 1) p).pieces ↔ _ := mem_holes_clauseOf
      simp only [holes, List.flatMap_cons, List.filterMap_append, List.mem_append,
        List.map_cons, List.length_append] at htail hhead ⊢
      rw [htail, hhead]
      omega
    · rw [List.any_cons, List.any_cons, hcompany, clauseOf_company]

end alignment

section query

variable {s : Db} {eventId ruleId : Uuid} {predicates : List LeadPredicate} {batch : ℕ}

theorem condition_holds (s : Db) (r : Registration) (p : LeadPredicate) :
    (condition p.input).holds s r = p.holds s r := by
  cases h : p.axis <;> simp [condition, LeadPredicate.input, Condition.holds, LeadPredicate.holds, h]

theorem mapM_of_forall₂ {params : List Param} {clauses : List Clause}
    (h : List.Forall₂ (fun c p => c.instantiate params = some (condition p.input))
      clauses predicates) :
    clauses.mapM (Clause.instantiate params) = some (predicates.map (condition ·.input)) := by
  induction h with
  | nil => rfl
  | cons head tail ih => simp [List.mapM_cons, head, ih]

theorem boundExactly_of_iff {numbers : List ℕ} {params : List Param}
    (h : ∀ n, n ∈ numbers ↔ 0 < n ∧ n ≤ params.length) : boundExactly numbers params = true := by
  simp only [boundExactly, Bool.and_eq_true, List.all_eq_true, decide_eq_true_eq,
    List.contains_eq_mem, List.mem_range]
  constructor
  · intro n hn
    exact (h n).mp hn
  · intro i hi
    exact (h (i + 1)).mpr ⟨Nat.succ_pos i, hi⟩

/-- The placeholders of the query are numbered by its parameters, and each clause is instantiated
with the values of its own predicate. -/
theorem query_aligned (eventId ruleId : Uuid) (batch : ℕ) (predicates : List LeadPredicate) :
    ∃ clauses, composeClauses 4 (predicates.map readRow) = .ok clauses ∧
      (∀ n, n ∈ holes (queryPieces clauses) ↔
        0 < n ∧ n ≤ (binds eventId ruleId batch (predicates.map readRow)).length) ∧
      List.Forall₂ (fun c p =>
        c.instantiate (binds eventId ruleId batch (predicates.map readRow)) =
          some (condition p.input)) clauses predicates ∧
      clauses.any (fun c => c matches .company _) = predicates.any (·.axis == .company) := by
  obtain ⟨clauses, hcompose, haligned, hholes, hcompany⟩ := compose_aligned predicates
    [.uuid (some eventId), .uuid (some ruleId), .bigint batch]
  refine ⟨clauses, hcompose, fun n => ?_, haligned, hcompany⟩
  have hclauses := hholes n
  simp only [holes, queryPieces, List.filterMap_append, List.mem_append, Piece.hole?,
    List.filterMap_cons, List.filterMap_nil, List.mem_cons, List.not_mem_nil, or_false, binds,
    List.length_append, List.length_cons, List.length_nil] at hclauses ⊢
  rw [hclauses]
  omega

/-- The conditions of stored predicates are the conjunction that qualifies a registration. -/
theorem firstBatch_predicates :
    firstBatch s eventId ruleId batch (predicates.map (condition ·.input)) =
      (((s.registrations.rows.filter (fun r => s.qualifies eventId predicates r &&
        !s.provenanced ruleId r.id)).insertionSort (fun a b => a.id ≤ b.id)).take batch).map
          Registration.seen := by
  have hsame : ∀ r : Registration, (r.eventId == eventId && r.eligible &&
      !s.provenanced ruleId r.id && (predicates.map (condition ·.input)).all (·.holds s r)) =
        (s.qualifies eventId predicates r && !s.provenanced ruleId r.id) := fun r => by
    simp only [Db.qualifies, List.all_map, Function.comp_def, condition_holds, Bool.and_assoc,
      Bool.and_comm (predicates.all _)]
  simp only [firstBatch, hsame]

/-- The composed query is the conjunction that the engine's model reads. -/
theorem eligibleRegistrations_eq : eligibleRegistrations eventId ruleId (predicates.map readRow)
      batch s = BackboneEvents.eligibleRegistrations eventId ruleId predicates batch s := by
  obtain ⟨clauses, hcompose, hholes, haligned, hcompany⟩ :=
    query_aligned eventId ruleId batch predicates
  have hbound := boundExactly_of_iff hholes
  have hevent : uuidAt (binds eventId ruleId batch (predicates.map readRow)) 1 =
    some (some eventId) := rfl
  have hrule : uuidAt (binds eventId ruleId batch (predicates.map readRow)) 2 =
    some (some ruleId) := rfl
  have hbatch : param (binds eventId ruleId batch (predicates.map readRow)) 3 =
    some (.bigint batch) := rfl
  simp only [eligibleRegistrations, hcompose, runQuery, hcompany, hbound, hevent, hrule, hbatch,
    mapM_of_forall₂ haligned, BackboneEvents.eligibleRegistrations, firstBatch_predicates,
    Bool.not_true, Bool.false_eq_true, if_false]

theorem firstBatch_perm {conditions conditions' : List Condition}
    (h : conditions.Perm conditions') : firstBatch s eventId ruleId batch conditions =
      firstBatch s eventId ruleId batch conditions' := by
  have hall : ∀ r, conditions.all (·.holds s r) = conditions'.all (·.holds s r) := fun r => by
    apply Bool.eq_iff_iff.mpr
    simp only [List.all_eq_true, h.mem_iff]
  simp only [firstBatch, hall]

end query

section rules

theorem axisText_of_axisOfText {text : String} {axis : LeadPredicateAxis}
    (h : axisOfText text = some axis) : axisText axis = text := by
  simpa using List.find?_some h

theorem axis_of_validatePredicate {spec : PredicateSpec} {input : PredicateInput}
    (h : validatePredicate spec = .ok input) : axisText input.axis = spec.axis := by
  cases haxis : axisOfText spec.axis with
  | none => simp [validatePredicate, haxis] at h
  | some axis =>
    simp only [validatePredicate, haxis] at h
    have hsame : input.axis = axis := by
      split at h
      · cases h
      · split at h
        · split at h
          · cases h
          · cases h
            rfl
        · split at h
          · cases h
          · cases h
            rfl
    rw [hsame]
    exact axisText_of_axisOfText haxis

/-- An accepted predicate is on the axis of its spec. -/
theorem axis_of_validated {specs : List PredicateSpec} {inputs : List PredicateInput}
    (h : validatePredicates specs = .ok inputs) {input : PredicateInput} (hinput : input ∈ inputs) :
    ∃ spec ∈ specs, axisText input.axis = spec.axis := by
  induction specs generalizing inputs with
  | nil =>
    obtain rfl := Except.ok.inj h
    cases hinput
  | cons spec specs ih =>
    simp only [validatePredicates] at h
    cases hspec : validatePredicate spec with
    | error e => simp [hspec] at h
    | ok first =>
      cases hrest : validatePredicates specs with
      | error e => simp [hspec, hrest, Except.map] at h
      | ok rest =>
        obtain rfl : first :: rest = inputs := by simpa [hspec, hrest, Except.map] using h
        rcases List.mem_cons.mp hinput with rfl | hinput
        · exact ⟨spec, List.mem_cons_self, axis_of_validatePredicate hspec⟩
        · obtain ⟨spec', hmem, heq⟩ := ih hrest hinput
          exact ⟨spec', List.mem_cons_of_mem _ hmem, heq⟩

variable {s t : Db} {env : RuleEnv} {cmd : CreateRule} {rule : LeadRule}

/-- The predicates of a rule that was just created, by id, are the ones it was created with. -/
theorem predicatesOfRule_created (hcreated : (createRule env cmd).run s = .ok (rule, t))
    (hfk : ∀ p ∈ s.leadPredicates.rows, ∃ lr ∈ s.leadRules.rows, lr.id = p.ruleId) :
    ((predicatesOfRule env.ruleId t).map LeadPredicate.input).Perm cmd.predicates := by
  have hfresh := (run_createRule_ok hcreated).fresh
  obtain ⟨_, s₁, hrule, hcreated⟩ := Program.run_bind_ok hcreated
  rw [run_insertRule] at hrule
  split at hrule
  · obtain ⟨-, rfl⟩ := Prod.mk.inj (Except.ok.inj hrule)
    obtain ⟨_, s₂, hpredicates, hcreated⟩ := Program.run_bind_ok hcreated
    obtain ⟨table, rfl, added, hrows, hadded, hinputs⟩ := run_insertPredicates_ok hpredicates
    obtain ⟨_, s₃, harm, hcreated⟩ := Program.run_bind_ok hcreated
    rw [Program.run_update] at harm
    obtain ⟨-, rfl⟩ := Prod.mk.inj (Except.ok.inj harm)
    obtain ⟨-, rfl⟩ := Prod.mk.inj (Except.ok.inj hcreated)
    have hbefore : s.leadPredicates.rows.filter (·.ruleId == env.ruleId) = [] := by
      apply List.filter_eq_nil_iff.mpr
      intro p hp hid
      obtain ⟨lr, hlr, heq⟩ := hfk p hp
      have hapart := Table.accepts_iff.mp hfresh lr hlr
      simp [clash, heq, beq_iff_eq.mp hid] at hapart
    have hnew : added.filter (·.ruleId == env.ruleId) = added :=
      List.filter_eq_self.mpr fun p hp => by simp [hadded p hp]
    rw [predicatesOfRule, hrows, List.filter_append, hbefore, hnew, List.nil_append]
    have hperm := (List.perm_insertionSort (fun a b : LeadPredicate => a.id ≤ b.id) added).map
      LeadPredicate.input
    rwa [hinputs] at hperm
  · cases hrule

end rules

/-- What the read of a rule's predicates should be: a query whose placeholders are numbered by
its parameters, each clause bound to its own predicate, and the first batch of the registrations
that every input holds of. -/
structure Composed (s : Db) (eventId ruleId : Uuid) (batch : ℕ) (predicates : List LeadPredicate)
    (inputs : List PredicateInput) : Prop where
  aligned : ∃ clauses, composeClauses 4 (predicates.map readRow) = .ok clauses ∧
    (∀ n, n ∈ holes (queryPieces clauses) ↔
      0 < n ∧ n ≤ (binds eventId ruleId batch (predicates.map readRow)).length) ∧
    List.Forall₂ (fun c p =>
      c.instantiate (binds eventId ruleId batch (predicates.map readRow)) =
        some (condition p.input)) clauses predicates
  returned : eligibleRegistrations eventId ruleId (predicates.map readRow) batch s =
    .ok (firstBatch s eventId ruleId batch (inputs.map condition))

/-- Where the rule was accepted and created, and its schema has the unit column if a spec is on
the company axis, the composed query is the conjunction of its predicates. -/
theorem composed_isConjunction {s t : Db} {env : RuleEnv} {cmd : CreateRule} {rule : LeadRule}
    {specs : List PredicateSpec} (haccepted : validatePredicates specs = .ok cmd.predicates)
    (hfk : ∀ p ∈ s.leadPredicates.rows, ∃ lr ∈ s.leadRules.rows, lr.id = p.ruleId)
    (hcreated : (createRule env cmd).run s = .ok (rule, t)) (u : Db)
    (hdecorated : u.orgAxis = true ∨ ∀ spec ∈ specs, spec.axis ≠ "company") (eventId : Uuid)
    (batch : ℕ) :
    Composed u eventId env.ruleId batch (predicatesOfRule env.ruleId t) cmd.predicates := by
  obtain ⟨clauses, hcompose, hholes, haligned, -⟩ :=
    query_aligned eventId env.ruleId batch (predicatesOfRule env.ruleId t)
  have hstored := predicatesOfRule_created hcreated hfk
  refine ⟨⟨clauses, hcompose, hholes, haligned⟩, ?_⟩
  have hreadable : ((predicatesOfRule env.ruleId t).any (·.axis == .company) && !u.orgAxis) =
      false := by
    rcases hdecorated with horg | hnone
    · simp [horg]
    · rw [Bool.and_eq_false_iff]
      left
      apply List.any_eq_false.mpr
      intro p hp hcompany
      have hinput : p.input ∈ cmd.predicates := hstored.mem_iff.mp (List.mem_map_of_mem hp)
      obtain ⟨spec, hspec, haxis⟩ := axis_of_validated haccepted hinput
      have hcompany' : p.input.axis = .company := beq_iff_eq.mp hcompany
      rw [hcompany'] at haxis
      exact hnone spec hspec haxis.symm
  rw [eligibleRegistrations_eq, BackboneEvents.eligibleRegistrations, if_neg (by simp [hreadable]),
    ← firstBatch_predicates]
  have hperm := hstored.map condition
  rw [List.map_map] at hperm
  exact congrArg Except.ok (firstBatch_perm hperm)

section samples

def vipSpecs : List PredicateSpec := [⟨"event", none, [1]⟩, ⟨"question_answer", some 3, [4]⟩]

def vipRule : CreateRule where
  name := "VIP"
  eventId := none
  basis := .registration
  onCreate := true
  onConfirm := false
  onDone := false
  predicates := [⟨.event, none, [1]⟩, ⟨.questionAnswer, some 3, [4]⟩]
  actor := none

theorem composed_isConjunction_vip :
    ∃ t, Composed openGig 1 1 10 (predicatesOfRule 1 t) vipRule.predicates :=
  ⟨_, @composed_isConjunction openGig _ ⟨1, id, id⟩ vipRule _ vipSpecs (by decide)
    (fun p hp => by cases hp) rfl openGig (.inr (by decide)) 1 10⟩

/-- A rule on the company axis is accepted and stored on a schema without the unit column, and
its read is refused. -/
theorem unitRule_unreadable :
    validatePredicates [⟨"company", none, [5]⟩] = .ok [⟨.company, none, [5]⟩] ∧
    ∃ rule t, (createRule ⟨1, id, id⟩ { vipRule with predicates := [⟨.company, none, [5]⟩] }).run
        openGig = .ok (rule, t) ∧
      eligibleRegistrations 1 1 ((predicatesOfRule 1 t).map readRow) 10 t =
        .error (.database "column r.org_unit_id does not exist") :=
  ⟨by decide, _, _, rfl, by decide⟩

end samples

end BackboneEvents.PredicateQuery
