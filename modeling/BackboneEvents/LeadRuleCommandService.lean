import Mathlib.Data.List.DropRight
import BackboneEvents.GuardedRuns
import BackboneEvents.LeadJoins
import BackboneEvents.LeadRelinks
import BackboneEvents.PredicateQuery

/-!
# The lead rule command service

The verbs a rule comes in through: create, the bridge from an answer, and the patch. Whatever
is asked for, and however the passes and the patches under way interleave with it, a stored
rule keeps a trimmed name, a trigger, its scope and a predicate of the closed vocabulary. So no
pass composes an unconstrained query.
-/
namespace BackboneEvents.LeadGeneration.LeadRuleCommandService
open ConstrainedTables TransactionPrograms PredicateQuery GuardedRuns

structure CreateRuleInput where
  name : String
  eventId : Option Uuid
  basis : Option String
  onCreate : Option Bool
  onConfirm : Option Bool
  onDone : Option Bool
  predicates : List PredicateSpec
  deriving DecidableEq, Repr

structure PatchRuleInput where
  name : Option String
  eventId : Option Uuid
  active : Option Bool
  deriving DecidableEq, Repr

structure FromAnswerInput where
  name : String
  eventId : Option Uuid
  onCreate : Option Bool
  onConfirm : Option Bool
  onDone : Option Bool
  questionId : Uuid
  answerId : Uuid
  deriving DecidableEq, Repr

structure RelinkInput where
  oldLeadId : Uuid
  newLeadId : Uuid
  deriving DecidableEq, Repr

def trimmed (text : String) : String := String.ofList (GrandTotal.trim text.toList)

def emptyName : EventError := .validation "rule name must not be empty"

def noTrigger : EventError :=
  .validation "at least one trigger (on_create / on_confirm / on_done) must be armed"

def basisOf (text : String) : Except EventError LeadBasis :=
  if text == "registration" then .ok .registration
  else if text == "attendee" then .ok .attendee
  else .error (.validation ("basis must be registration or attendee (got " ++ text ++ ")"))

/-- What `create_rule` hands to the repository. -/
def createRule (input : CreateRuleInput) (actor : Option Uuid) : Except EventError CreateRule :=
  let name := trimmed input.name
  if name.isEmpty then .error emptyName
  else if input.predicates.isEmpty then .error (.validation
    "a rule carries at least one predicate — an unconstrained rule is refused")
  else
    let onCreate := input.onCreate.getD false
    let onConfirm := input.onConfirm.getD false
    let onDone := input.onDone.getD false
    if !(onCreate || onConfirm || onDone) then .error noTrigger
    else
      match basisOf (input.basis.getD "registration") with
      | .error e => .error e
      | .ok basis =>
        match validatePredicates input.predicates with
        | .error e => .error e
        | .ok predicates =>
          .ok ⟨name, input.eventId, basis, onCreate, onConfirm, onDone, predicates, actor⟩

/-- What `patch_rule` hands to the repository. -/
def patchRule (ruleId : Uuid) (input : PatchRuleInput) (actor : Option Uuid) :
    Except EventError PatchRule :=
  if input.name.any (fun name => (trimmed name).isEmpty) then .error emptyName
  else .ok ⟨ruleId, input.name.map trimmed, input.eventId, input.active, actor⟩

/-- What `from_answer` hands to the repository: one predicate, on the answer. -/
def fromAnswer (input : FromAnswerInput) (actor : Option Uuid) : Except EventError CreateRule :=
  let name := trimmed input.name
  if name.isEmpty then .error emptyName
  else
    let onCreate := input.onCreate.getD false
    let onConfirm := input.onConfirm.getD false
    let onDone := input.onDone.getD false
    if !(onCreate || onConfirm || onDone) then .error noTrigger
    else .ok ⟨name, input.eventId, .registration, onCreate, onConfirm, onDone,
      [⟨.questionAnswer, some input.questionId, [input.answerId]⟩], actor⟩

/-- A lead merged into itself moves nothing and is not audited. -/
def relinkLead (input : RelinkInput) (actor : Option Uuid) (s : Db) : ℕ × Db :=
  if input.oldLeadId == input.newLeadId then (0, s)
  else BackboneEvents.relinkLead input.oldLeadId input.newLeadId actor s

/-- What is asked of the lead side from outside, and the steps its agents take. -/
inductive Request (ι : Type) where
  | createRule (env : RuleEnv) (input : CreateRuleInput) (actor : Option Uuid)
  | fromAnswer (env : RuleEnv) (input : FromAnswerInput) (actor : Option Uuid)
  | patchRule (i : ι) (env : RuleEnv) (ruleId : Uuid) (input : PatchRuleInput)
      (actor : Option Uuid)
  | relinkLead (input : RelinkInput) (actor : Option Uuid)
  | verb (c : Call)
  | runDueLeadRequests (i : ι) (caps : Caps)
  | runRequestOfEvent (i : ι) (caps : Caps) (eventId : Uuid)
  | turn (i : ι) (tick : Tick)
  | crash (i : ι)

section world

variable {ι : Type} [DecidableEq ι]

/-- A request that is refused changes nothing. -/
def asked (w : World ι) : Except EventError (Act ι) → World ι
  | .error _ => w
  | .ok a => w.next a

def serve (w : World ι) : Request ι → World ι
  | .createRule env input actor => asked w ((createRule input actor).map (.createRule env ·))
  | .fromAnswer env input actor => asked w ((fromAnswer input actor).map (.createRule env ·))
  | .patchRule i env ruleId input actor =>
    asked w ((patchRule ruleId input actor).map (.patchRule i env ·))
  | .relinkLead input actor => { w with db := (relinkLead input actor w.db).2 }
  | .verb c => w.next (.verb c)
  | .runDueLeadRequests i caps => w.next (.runDueLeadRequests i caps)
  | .runRequestOfEvent i caps eventId => w.next (.runRequestOfEvent i caps eventId)
  | .turn i tick => w.next (.turn i tick)
  | .crash i => w.next (.crash i)

end world

section specification

/-- A name with no blank at either end. -/
structure Named (name : String) : Prop where
  trimmed : trimmed name = name
  nonempty : name ≠ ""

def triggered (lr : LeadRule) : Bool := lr.onCreate || lr.onConfirm || lr.onDone

/-- A predicate matches something, and names a question on the question_answer axis only. -/
structure Shaped (p : PredicateInput) : Prop where
  values : p.valueIds ≠ []
  question : p.questionId.isSome ↔ p.axis = .questionAnswer

/-- Every stored rule is named, triggered, constrained and in scope of a stored event. -/
structure Lawful (s : Db) : Prop where
  named : ∀ lr ∈ s.leadRules.rows, Named lr.name ∧ lr.name.toList.length ≤ 120
  triggered : ∀ lr ∈ s.leadRules.rows, LeadRuleCommandService.triggered lr = true
  scope : ∀ lr ∈ s.leadRules.rows, ∀ e ∈ lr.eventId, (s.event? e).isSome
  constrained : ∀ lr ∈ s.leadRules.rows, ∃ p ∈ s.leadPredicates.rows, p.ruleId = lr.id
  owned : ∀ p ∈ s.leadPredicates.rows, ∃ lr ∈ s.leadRules.rows, lr.id = p.ruleId
  shaped : ∀ p ∈ s.leadPredicates.rows, Shaped p.input

/-- What a patch leaves of a rule: all but its name, its scope and its activity. -/
structure SameRule (lr lr' : LeadRule) : Prop where
  id : lr'.id = lr.id
  basis : lr'.basis = lr.basis
  onCreate : lr'.onCreate = lr.onCreate
  onConfirm : lr'.onConfirm = lr.onConfirm
  onDone : lr'.onDone = lr.onDone

structure RulesKept (s t : Db) : Prop where
  rules : ∀ lr ∈ s.leadRules.rows, ∃ lr' ∈ t.leadRules.rows, SameRule lr lr'
  predicates : ∀ lr ∈ s.leadRules.rows, predicatesOfRule lr.id t = predicatesOfRule lr.id s

/-- The predicates of the rule that a walk is at. -/
def stagePredicates : Stage → Option (List LeadPredicate)
  | .readEligible _ predicates _ => some predicates
  | .upsert k | .members k _ _ | .create k _ _ _ | .setLead k _ _ _ | .update k _ _ _ _
  | .junction k _ _ _ => some k.predicates
  | .readRules | .readPredicates _ _ | .finish _ => none

/-- A pass walks the registrations of a rule by at least one predicate of its own. -/
def Constrained : Agent → Prop
  | .running _ (.walk _ _ stage) _ => ∀ predicates ∈ stagePredicates stage, predicates ≠ []
  | _ => True

end specification

section inputs

theorem trim_trim (text : List Char) :
    GrandTotal.trim (GrandTotal.trim text) = GrandTotal.trim text := by
  have htrim : ∀ l, GrandTotal.trim l =
      (l.dropWhile GrandTotal.isWhiteSpace).rdropWhile GrandTotal.isWhiteSpace := fun _ => rfl
  rw [htrim (GrandTotal.trim text), htrim text]
  have hstart : ((text.dropWhile GrandTotal.isWhiteSpace).rdropWhile
      GrandTotal.isWhiteSpace).dropWhile GrandTotal.isWhiteSpace =
        (text.dropWhile GrandTotal.isWhiteSpace).rdropWhile GrandTotal.isWhiteSpace := by
    rw [List.dropWhile_eq_self_iff]
    intro hlen hblank
    -- the first character left of the end's trim is the first one left of the start's
    obtain ⟨rest, hrest⟩ := List.rdropWhile_prefix GrandTotal.isWhiteSpace
      (text.dropWhile GrandTotal.isWhiteSpace)
    have hhead := List.dropWhile_get_zero_not GrandTotal.isWhiteSpace text
      (by rw [← hrest, List.length_append]; omega)
    apply hhead
    rw [List.get_eq_getElem, List.getElem_of_eq hrest.symm, List.getElem_append_left hlen]
    exact hblank
  rw [hstart, List.rdropWhile_idempotent]

theorem trimmed_trimmed (text : String) : trimmed (trimmed text) = trimmed text := by
  rw [trimmed, trimmed, String.toList_ofList, trim_trim]

theorem named_trimmed {text : String} (h : ¬ (trimmed text).isEmpty) : Named (trimmed text) where
  trimmed := trimmed_trimmed text
  nonempty hempty := h (by rw [hempty]; rfl)

/-- A command the service lets through. -/
structure Sane (cmd : CreateRule) : Prop where
  named : Named cmd.name
  triggered : (cmd.onCreate || cmd.onConfirm || cmd.onDone) = true
  constrained : cmd.predicates ≠ []
  shaped : ∀ p ∈ cmd.predicates, Shaped p

theorem validatePredicate_shaped {spec : PredicateSpec} {p : PredicateInput}
    (h : validatePredicate spec = .ok p) : Shaped p := by
  simp only [validatePredicate] at h
  split at h
  · cases h
  · next axis haxis =>
    split at h
    · cases h
    · next hvalues =>
      have hvalues' : spec.valueIds ≠ [] := by simpa using hvalues
      split at h
      · next hanswer =>
        split at h
        · cases h
        · next question hquestion =>
          obtain rfl := Except.ok.inj h
          exact ⟨hvalues', by simpa using hanswer⟩
      · next hanswer =>
        split at h
        · cases h
        · obtain rfl := Except.ok.inj h
          exact ⟨hvalues', by simpa using hanswer⟩

theorem validatePredicates_shaped {specs : List PredicateSpec} {ps : List PredicateInput}
    (h : validatePredicates specs = .ok ps) :
    ps.length = specs.length ∧ ∀ p ∈ ps, Shaped p := by
  induction specs generalizing ps with
  | nil =>
    obtain rfl := Except.ok.inj h
    exact ⟨rfl, fun p hp => by cases hp⟩
  | cons spec specs ih =>
    simp only [validatePredicates] at h
    split at h
    · cases h
    · next first hfirst =>
      cases hrest : validatePredicates specs with
      | error e => simp [hrest, Except.map] at h
      | ok rest =>
        obtain rfl : first :: rest = ps := by simpa [hrest, Except.map] using h
        obtain ⟨hlength, hshaped⟩ := ih hrest
        refine ⟨by rw [List.length_cons, List.length_cons, hlength], fun p hp => ?_⟩
        rcases List.mem_cons.mp hp with rfl | hp
        · exact validatePredicate_shaped hfirst
        · exact hshaped p hp

theorem createRule_sane {input : CreateRuleInput} {actor : Option Uuid} {cmd : CreateRule}
    (h : createRule input actor = .ok cmd) : Sane cmd := by
  simp only [createRule] at h
  split at h
  · cases h
  next hname =>
  split at h
  · cases h
  next hsome =>
  split at h
  · cases h
  next htrigger =>
  split at h
  · cases h
  split at h
  · cases h
  next predicates hpredicates =>
  obtain rfl := Except.ok.inj h
  obtain ⟨hlength, hshaped⟩ := validatePredicates_shaped hpredicates
  refine ⟨named_trimmed hname, by simpa only [Bool.not_eq_true', Bool.not_eq_false] using htrigger,
    fun hnone => ?_, hshaped⟩
  obtain rfl : predicates = [] := hnone
  exact hsome (List.isEmpty_iff_length_eq_zero.mpr hlength.symm)

/-- The bridge is a create whose one predicate is on the question_answer axis. -/
theorem fromAnswer_eq (input : FromAnswerInput) (actor : Option Uuid) :
    fromAnswer input actor = createRule ⟨input.name, input.eventId, none, input.onCreate,
      input.onConfirm, input.onDone,
      [⟨"question_answer", some input.questionId, [input.answerId]⟩]⟩ actor := by
  have hspec : validatePredicates [⟨"question_answer", some input.questionId, [input.answerId]⟩] =
      .ok [⟨.questionAnswer, some input.questionId, [input.answerId]⟩] := rfl
  have hbasis : basisOf ((none : Option String).getD "registration") = .ok .registration := rfl
  simp only [fromAnswer, createRule, hspec, hbasis, List.isEmpty_cons, Bool.false_eq_true, if_false]

theorem patchRule_named {ruleId : Uuid} {input : PatchRuleInput} {actor : Option Uuid}
    {patch : PatchRule} (h : patchRule ruleId input actor = .ok patch) :
    ∀ name ∈ patch.name, Named name := by
  simp only [patchRule] at h
  split at h
  · cases h
  next hname =>
  obtain rfl := Except.ok.inj h
  intro name hmem
  obtain ⟨text, htext, rfl⟩ := Option.map_eq_some_iff.mp hmem
  rw [htext] at hname
  exact named_trimmed hname

end inputs

section steps

variable {s t : Db}

/-- What one step does to the rules and their predicates. -/
inductive RuleEffect (s t : Db) : Prop
  | same (rules : t.leadRules = s.leadRules) (predicates : t.leadPredicates = s.leadPredicates)
  | created {env : RuleEnv} {cmd : CreateRule} {row : LeadRule} {u : Db} (sane : Sane cmd)
      (run : (BackboneEvents.createRule env cmd).run s = .ok (row, u))
      (rules : t.leadRules = u.leadRules) (predicates : t.leadPredicates = u.leadPredicates)
  | patched {patch : PatchRule} {row : LeadRule} {u : Db}
      (named : ∀ name ∈ patch.name, Named name) (run : updateRule patch s = .ok (row, u))
      (rules : t.leadRules = u.leadRules) (predicates : t.leadPredicates = u.leadPredicates)

theorem rule_eq_of_id {a b : LeadRule} (ha : a ∈ s.leadRules.rows) (hb : b ∈ s.leadRules.rows)
    (h : a.id = b.id) : a = b :=
  Table.eq_of_clash ha hb (by simp [clash, h])

theorem storable_iff {lr : LeadRule} : lr.storable s = true ↔
    (lr.name.toList.any (· != ' ') = true ∧ lr.name.toList.length ≤ 120) ∧
      ∀ e ∈ lr.eventId, (s.event? e).isSome = true := by
  cases hevent : lr.eventId <;> simp [LeadRule.storable, hevent]

/-- The row of a created rule, with its predicates as they were asked for. -/
theorem created_rows {env : RuleEnv} {cmd : CreateRule} {row : LeadRule}
    (h : (BackboneEvents.createRule env cmd).run s = .ok (row, t)) :
    ∃ lr : LeadRule, lr = ⟨env.ruleId, cmd.name, cmd.eventId, cmd.basis, cmd.onCreate,
        cmd.onConfirm, cmd.onDone, true⟩ ∧ lr.storable s = true ∧
      t.leadRules.rows = s.leadRules.rows ++ [lr] ∧
      ∃ added, t.leadPredicates.rows = s.leadPredicates.rows ++ added ∧
        (∀ p ∈ added, p.ruleId = lr.id) ∧ added.map LeadPredicate.input = cmd.predicates := by
  obtain ⟨_, s₁, hrule, h⟩ := Program.run_bind_ok h
  rw [run_insertRule] at hrule
  split at hrule
  · next hstored =>
    obtain ⟨-, rfl⟩ := Prod.mk.inj (Except.ok.inj hrule)
    obtain ⟨_, s₂, hpredicates, h⟩ := Program.run_bind_ok h
    obtain ⟨table, rfl, added, hrows, hadded, hinputs⟩ := run_insertPredicates_ok hpredicates
    obtain ⟨_, s₃, harm, h⟩ := Program.run_bind_ok h
    rw [Program.run_update] at harm
    obtain ⟨-, rfl⟩ := Prod.mk.inj (Except.ok.inj harm)
    obtain ⟨-, rfl⟩ := Prod.mk.inj (Except.ok.inj h)
    simp only [Bool.and_eq_true] at hstored
    exact ⟨_, rfl, hstored.1, Table.rows_push hstored.2, added, hrows, hadded, hinputs⟩
  · cases hrule

/-- A patched table, row by row. -/
theorem patched_rows {patch : PatchRule} {row : LeadRule} (h : updateRule patch s = .ok (row, t)) :
    t.leadPredicates = s.leadPredicates ∧
    (∀ lr' ∈ t.leadRules.rows, ∃ lr ∈ s.leadRules.rows, lr' = lr ∨
      (lr' = LeadRule.patched patch lr ∧ lr'.storable s = true)) ∧
    ∀ lr ∈ s.leadRules.rows, lr ∈ t.leadRules.rows ∨
      LeadRule.patched patch lr ∈ t.leadRules.rows := by
  simp only [updateRule] at h
  split at h
  · cases h
  next found hfound =>
  split at h
  · next hstorable =>
    obtain ⟨rfl, rfl⟩ := Prod.mk.inj (Except.ok.inj h)
    have hid : found.id = patch.ruleId := by simpa using Table.find_spec hfound
    refine ⟨rfl, fun lr' hlr' => ?_, fun lr hlr => ?_⟩
    · obtain ⟨lr, hlr, heq⟩ := Table.mem_modify.mp hlr'
      refine ⟨lr, hlr, ?_⟩
      split at heq
      · next hhit =>
        obtain rfl : lr = found :=
          rule_eq_of_id hlr (Table.find_mem hfound) (by rw [hid]; simpa using hhit)
        exact .inr ⟨heq.symm, heq ▸ hstorable⟩
      · exact .inl heq.symm
    · by_cases hhit : (lr.id == patch.ruleId) = true
      · exact .inr (Table.mem_modify.mpr ⟨lr, hlr, if_pos hhit⟩)
      · exact .inl (Table.mem_modify.mpr ⟨lr, hlr, if_neg hhit⟩)
  · cases h

theorem SameRule.refl (lr : LeadRule) : SameRule lr lr := ⟨rfl, rfl, rfl, rfl, rfl⟩

theorem SameRule.trans {a b c : LeadRule} (h : SameRule a b) (h' : SameRule b c) : SameRule a c :=
  ⟨h'.id.trans h.id, h'.basis.trans h.basis, h'.onCreate.trans h.onCreate,
    h'.onConfirm.trans h.onConfirm, h'.onDone.trans h.onDone⟩

theorem RuleEffect.sameRules (h : RuleEffect s t) :
    ∀ lr ∈ s.leadRules.rows, ∃ lr' ∈ t.leadRules.rows, SameRule lr lr' := by
  intro lr hlr
  cases h with
  | same rules => exact ⟨lr, by rwa [rules], .refl lr⟩
  | created sane run rules =>
    obtain ⟨row, -, -, hrows, -⟩ := created_rows run
    exact ⟨lr, by rw [rules, hrows]; exact List.mem_append_left _ hlr, .refl lr⟩
  | patched named run rules =>
    rcases (patched_rows run).2.2 lr hlr with hkept | hpatched
    · exact ⟨lr, by rwa [rules], .refl lr⟩
    · rw [← rules] at hpatched
      exact ⟨_, hpatched, rfl, rfl, rfl, rfl, rfl⟩

/-- The name a patched row has, its own or the patch's. -/
theorem named_patched {patch : PatchRule} {lr : LeadRule} (h : Named lr.name)
    (hpatch : ∀ name ∈ patch.name, Named name) : Named (LeadRule.patched patch lr).name := by
  change Named (patch.name.getD lr.name)
  cases hname : patch.name with
  | none => exact h
  | some name => exact hpatch name hname

theorem Lawful.step (h : Lawful s) (hevents : t.events = s.events) (heffect : RuleEffect s t) :
    Lawful t := by
  have hevent : ∀ e, t.event? e = s.event? e := fun e => by rw [Db.event?, hevents, Db.event?]
  cases heffect with
  | same rules predicates =>
    constructor
    · rw [rules]; exact h.named
    · rw [rules]; exact h.triggered
    · simpa only [rules, hevent] using h.scope
    · rw [rules, predicates]; exact h.constrained
    · rw [rules, predicates]; exact h.owned
    · rw [predicates]; exact h.shaped
  | created sane run rules predicates =>
    obtain ⟨row, hrow, hstorable, hrows, added, hall, hadded, hinputs⟩ := created_rows run
    obtain ⟨⟨-, hlength⟩, hscope⟩ := storable_iff.mp hstorable
    have hmem : ∀ lr, lr ∈ t.leadRules.rows ↔ lr ∈ s.leadRules.rows ∨ lr = row := fun lr => by
      rw [rules, hrows, List.mem_append, List.mem_singleton]
    have hmemp : ∀ p, p ∈ t.leadPredicates.rows ↔ p ∈ s.leadPredicates.rows ∨ p ∈ added :=
      fun p => by rw [predicates, hall, List.mem_append]
    constructor
    · intro lr hlr
      rcases (hmem lr).mp hlr with hold | rfl
      · exact h.named lr hold
      · exact ⟨by rw [hrow]; exact sane.named, hlength⟩
    · intro lr hlr
      rcases (hmem lr).mp hlr with hold | rfl
      · exact h.triggered lr hold
      · rw [hrow]; exact sane.triggered
    · intro lr hlr e he
      rw [hevent]
      rcases (hmem lr).mp hlr with hold | rfl
      · exact h.scope lr hold e he
      · exact hscope e he
    · intro lr hlr
      rcases (hmem lr).mp hlr with hold | rfl
      · obtain ⟨p, hp, howner⟩ := h.constrained lr hold
        exact ⟨p, (hmemp p).mpr (.inl hp), howner⟩
      · obtain ⟨p, hp⟩ : ∃ p, p ∈ added := List.exists_mem_of_ne_nil _ fun hnone => by
          rw [hnone] at hinputs
          exact sane.constrained hinputs.symm
        exact ⟨p, (hmemp p).mpr (.inr hp), hadded p hp⟩
    · intro p hp
      rcases (hmemp p).mp hp with hold | hnew
      · obtain ⟨lr, hlr, howner⟩ := h.owned p hold
        exact ⟨lr, (hmem lr).mpr (.inl hlr), howner⟩
      · exact ⟨row, (hmem row).mpr (.inr rfl), (hadded p hnew).symm⟩
    · intro p hp
      rcases (hmemp p).mp hp with hold | hnew
      · exact h.shaped p hold
      · exact sane.shaped p.input (by rw [← hinputs]; exact List.mem_map_of_mem hnew)
  | patched named run rules predicates =>
    obtain ⟨hpredicates, hback, hforth⟩ := patched_rows run
    rw [← rules] at hback hforth
    rw [← predicates] at hpredicates
    constructor
    · intro lr' hlr'
      obtain ⟨lr, hlr, rfl | ⟨rfl, hstorable⟩⟩ := hback lr' hlr'
      · exact h.named _ hlr
      · exact ⟨named_patched (h.named lr hlr).1 named, (storable_iff.mp hstorable).1.2⟩
    · intro lr' hlr'
      obtain ⟨lr, hlr, rfl | ⟨rfl, -⟩⟩ := hback lr' hlr'
      · exact h.triggered _ hlr
      · exact h.triggered lr hlr
    · intro lr' hlr' e he
      rw [hevent]
      obtain ⟨lr, hlr, rfl | ⟨rfl, hstorable⟩⟩ := hback lr' hlr'
      · exact h.scope _ hlr e he
      · exact (storable_iff.mp hstorable).2 e he
    · intro lr' hlr'
      rw [hpredicates]
      obtain ⟨lr, hlr, rfl | ⟨rfl, -⟩⟩ := hback lr' hlr'
      · exact h.constrained _ hlr
      · exact h.constrained lr hlr
    · intro p hp
      rw [hpredicates] at hp
      obtain ⟨lr, hlr, howner⟩ := h.owned p hp
      rcases hforth lr hlr with hkept | hpatched
      · exact ⟨lr, hkept, howner⟩
      · exact ⟨_, hpatched, howner⟩
    · rw [hpredicates]
      exact h.shaped

end steps

section runs

variable {ι : Type} [DecidableEq ι]

/-- What the service asks of an act, and of a patch that is under way. -/
def Allowed : Act ι → Prop
  | .createRule _ cmd => Sane cmd
  | .patchRule _ _ patch => ∀ name ∈ patch.name, Named name
  | _ => True

def Asked : Agent → Prop
  | .patching _ patch _ => ∀ name ∈ patch.name, Named name
  | _ => True

omit [DecidableEq ι] in
theorem running_asked {a : Agent} (h : Asked a) (tick : Tick) (s : Db) :
    Asked (a.turn tick s).agent := by
  have hstage : ∀ caps origin eventId summary stage,
      Asked (Stage.turn caps origin eventId tick summary s stage).agent := by
    intro caps origin eventId summary stage
    cases stage with
    | readRules | readPredicates | setLead => trivial
    | readEligible | upsert | junction | create | update =>
      simp only [Stage.turn]; split <;> trivial
    | members => simp only [Stage.turn]; split <;> [(split <;> trivial); trivial]
    | finish =>
      simp only [Stage.turn]
      split
      · trivial
      · cases origin <;> trivial
  cases a with
  | idle | returned | patched => exact h
  | running caps point summary =>
    cases point with
    | claim => simp only [Agent.turn, Point.turn]; split <;> [trivial; (split <;> trivial)]
    | lease => simp only [Agent.turn, Point.turn]; split <;> trivial
    | refuse => trivial
    | walk => exact hstage _ _ _ _ _
  | patching env patch stage =>
    cases stage with
    | update => simp only [Agent.turn, Patching.turn]; split <;> [trivial; exact h]
    | arm => exact h
    | audit => trivial

theorem point_ground {s : Db} (caps : Caps) (tick : Tick) (summary : LeadRunSummary)
    (point : Point) : Ground s (point.turn caps tick summary s).db := by
  have hlease : ∀ now eventId, Ground s (s.lease now eventId) :=
    fun _ _ => ⟨rfl, rfl, rfl, rfl, rfl, rfl⟩
  cases point with
  | claim parked =>
    simp only [Point.turn]
    split
    · exact .refl s
    · rcases claimNextDueRequest_cases parked tick.now tick.locked s with heq | ⟨q, -, -, heq⟩
      · rw [heq]; exact .refl s
      · rw [heq]; exact hlease _ _
  | lease eventId =>
    simp only [Point.turn]
    rcases tryLeaseRequestOfEvent_cases eventId tick.now s with ⟨-, heq⟩ | ⟨q, -, -, -, heq⟩
    · rw [heq]; exact .refl s
    · rw [heq]; exact hlease _ _
  | refuse => exact .refl s
  | walk => exact stage_ground

/-- An agent's step touches the rules where it is the update of a patch. -/
theorem turn_rules {a : Agent} (h : Asked a) (tick : Tick) (s : Db) :
    RuleEffect s (a.turn tick s).db := by
  cases a with
  | idle | returned | patched => exact .same rfl rfl
  | running caps point summary =>
    have hground : Ground s (point.turn caps tick summary s).db := point_ground caps tick summary point
    exact .same hground.rules hground.predicates
  | patching env patch stage =>
    cases stage with
    | update =>
      simp only [Agent.turn, Patching.turn]
      split
      · exact .same rfl rfl
      · next hrun => exact .patched h hrun rfl rfl
    | arm | audit => exact .same rfl rfl

theorem next_rules {w : World ι} {a : Act ι} (hallowed : Allowed a)
    (hasked : ∀ i, Asked (w.agents i)) : RuleEffect w.db (w.next a).db := by
  cases a with
  | verb c =>
    obtain ⟨t, rows, heffect, happly⟩ := c.apply_effect w.db
    obtain ⟨-, -, hrules, hpredicates, -⟩ := effect_lead heffect
    simp only [World.next, Db.next, happly]
    exact .same hrules hpredicates
  | createRule env cmd =>
    cases hrun : (BackboneEvents.createRule env cmd).run w.db with
    | error e =>
      simp only [World.next, Db.withRule, Program.execute, hrun, foldl_absorb]
      exact .same rfl rfl
    | ok created =>
      simp only [World.next, Db.withRule, Program.execute, hrun, foldl_absorb]
      exact .created hallowed hrun rfl rfl
  | patchRule | runDueLeadRequests | runRequestOfEvent =>
    simp only [World.next, enter_db]
    exact .same rfl rfl
  | turn i tick => exact turn_rules (hasked i) tick w.db
  | crash i => exact .same rfl rfl

theorem enter_asked {w : World ι} {i : ι} {a : Agent} (h : ∀ j, Asked (w.agents j)) (ha : Asked a)
    (j : ι) : Asked ((w.enter i a).agents j) := by
  simp only [World.enter]
  split
  · exact h j
  · by_cases hj : j = i
    · subst hj
      rwa [World.setAgent_self]
    · rw [World.setAgent_of_ne hj]
      exact h j

theorem next_asked {w : World ι} {a : Act ι} (hallowed : Allowed a)
    (h : ∀ i, Asked (w.agents i)) (j : ι) : Asked ((w.next a).agents j) := by
  cases a with
  | verb | createRule => exact h j
  | patchRule i env patch =>
    have ha : Asked (.patching env patch .update) := hallowed
    exact enter_asked h ha j
  | runDueLeadRequests i caps =>
    have ha : Asked (.running caps (.claim []) .zero) := trivial
    exact enter_asked h ha j
  | runRequestOfEvent i caps eventId =>
    have ha : Asked (.running caps (.lease eventId) .zero) := trivial
    exact enter_asked h ha j
  | turn i tick =>
    by_cases hj : j = i
    · subst hj
      simpa [World.next] using running_asked (h j) tick w.db
    · simpa [World.next, World.setAgent_of_ne hj] using h j
  | crash i =>
    by_cases hj : j = i
    · subst hj
      simp only [World.next, World.setAgent_self]
      trivial
    · simpa [World.next, World.setAgent_of_ne hj] using h j

theorem relinkLead_kept (input : RelinkInput) (actor : Option Uuid) (s : Db) :
    Kept s (relinkLead input actor s).2 := by
  simp only [relinkLead]
  split
  · exact .refl s
  · exact LeadGeneration.relinkLead_kept

/-- A request is refused, or is an act that the service allows, or relinks a lead. -/
theorem serve_cases (w : World ι) (r : Request ι) :
    serve w r = w ∨ (∃ a, Allowed a ∧ serve w r = w.next a) ∨
      ∃ input actor, serve w r = { w with db := (relinkLead input actor w.db).2 } := by
  cases r with
  | createRule env input actor =>
    simp only [serve]
    cases h : createRule input actor with
    | error e => exact .inl rfl
    | ok cmd => exact .inr (.inl ⟨.createRule env cmd, createRule_sane h, rfl⟩)
  | fromAnswer env input actor =>
    simp only [serve]
    cases h : fromAnswer input actor with
    | error e => exact .inl rfl
    | ok cmd =>
      rw [fromAnswer_eq] at h
      exact .inr (.inl ⟨.createRule env cmd, createRule_sane h, rfl⟩)
  | patchRule i env ruleId input actor =>
    simp only [serve]
    cases h : patchRule ruleId input actor with
    | error e => exact .inl rfl
    | ok patch => exact .inr (.inl ⟨.patchRule i env patch, patchRule_named h, rfl⟩)
  | relinkLead input actor => exact .inr (.inr ⟨input, actor, rfl⟩)
  | verb c => exact .inr (.inl ⟨.verb c, trivial, rfl⟩)
  | runDueLeadRequests i caps => exact .inr (.inl ⟨.runDueLeadRequests i caps, trivial, rfl⟩)
  | runRequestOfEvent i caps eventId =>
    exact .inr (.inl ⟨.runRequestOfEvent i caps eventId, trivial, rfl⟩)
  | turn i tick => exact .inr (.inl ⟨.turn i tick, trivial, rfl⟩)
  | crash i => exact .inr (.inl ⟨.crash i, trivial, rfl⟩)

/-- What the run keeps, the patches under way included. -/
structure Inv (w : World ι) : Prop where
  lawful : Lawful w.db
  asked : ∀ i, Asked (w.agents i)
  sound : w.Sound

theorem serve_kept (w : World ι) (r : Request ι) : Kept w.db (serve w r).db := by
  rcases serve_cases w r with heq | ⟨a, -, heq⟩ | ⟨input, actor, heq⟩
  · rw [heq]
    exact .refl _
  · rw [heq]
    exact world_kept w a
  · rw [heq]
    exact relinkLead_kept input actor w.db

theorem relink_rules (input : RelinkInput) (actor : Option Uuid) (s : Db) :
    RuleEffect s (relinkLead input actor s).2 := by
  simp only [relinkLead]
  split <;> exact .same rfl rfl

theorem Inv.serve {w : World ι} (h : Inv w) (r : Request ι) :
    Inv (serve w r) ∧ RulesKept w.db (LeadRuleCommandService.serve w r).db := by
  have hkept := serve_kept w r
  have hpredicates : ∀ lr ∈ w.db.leadRules.rows,
      predicatesOfRule lr.id (LeadRuleCommandService.serve w r).db =
        predicatesOfRule lr.id w.db :=
    fun lr hlr => hkept.predicates lr.id ⟨lr, hlr, rfl⟩
  rcases serve_cases w r with heq | ⟨a, hallowed, heq⟩ | ⟨input, actor, heq⟩
  · rw [heq]
    exact ⟨h, fun lr hlr => ⟨lr, hlr, .refl lr⟩, fun _ _ => rfl⟩
  · have heffect := next_rules hallowed h.asked
    rw [← heq] at heffect
    refine ⟨⟨h.lawful.step hkept.events heffect, ?_, ?_⟩, heffect.sameRules, hpredicates⟩
    · rw [heq]
      exact next_asked hallowed h.asked
    · rw [heq]
      exact h.sound.next a
  · have heffect := relink_rules input actor w.db
    have hdb : (LeadRuleCommandService.serve w r).db = (relinkLead input actor w.db).2 := by rw [heq]
    rw [← hdb] at heffect
    refine ⟨⟨h.lawful.step hkept.events heffect, ?_, ?_⟩, heffect.sameRules, hpredicates⟩
    · rw [heq]
      exact h.asked
    · intro i
      rw [heq]
      exact (h.sound i).kept (relinkLead_kept input actor w.db)

theorem RulesKept.trans {s t u : Db} (h : RulesKept s t) (h' : RulesKept t u) : RulesKept s u where
  rules lr hlr := by
    obtain ⟨lr', hlr', hsame⟩ := h.rules lr hlr
    obtain ⟨lr'', hlr'', hsame'⟩ := h'.rules lr' hlr'
    exact ⟨lr'', hlr'', hsame.trans hsame'⟩
  predicates lr hlr := by
    obtain ⟨lr', hlr', hsame⟩ := h.rules lr hlr
    rw [← h.predicates lr hlr, ← hsame.id, h'.predicates lr' hlr']

theorem inv_run {w : World ι} (h : Inv w) (requests : List (Request ι)) :
    Inv (requests.foldl serve w) ∧ RulesKept w.db (requests.foldl serve w).db := by
  induction requests generalizing w with
  | nil => exact ⟨h, fun lr hlr => ⟨lr, hlr, .refl lr⟩, fun _ _ => rfl⟩
  | cons r requests ih =>
    obtain ⟨hinv, hkept⟩ := h.serve r
    obtain ⟨hlast, hrest⟩ := ih hinv
    exact ⟨hlast, hkept.trans hrest⟩

omit [DecidableEq ι] in
theorem lawful_start {s : Db} (h : Lawful s) : Inv (World.start s : World ι) :=
  ⟨h, fun _ => trivial, sound_start s⟩

/-- A stored rule has predicates, so what a walk read of them is not empty. -/
theorem Lawful.walked {s : Db} (h : Lawful s) {ruleId : Uuid} (hrule : Db.hasRule s ruleId) :
    predicatesOfRule ruleId s ≠ [] := by
  obtain ⟨lr, hlr, rfl⟩ := hrule
  obtain ⟨p, hp, howner⟩ := h.constrained lr hlr
  refine @List.ne_nil_of_mem _ p _ ?_
  exact (List.mem_insertionSort _).mpr (List.mem_filter.mpr ⟨hp, by simpa using howner⟩)

omit [DecidableEq ι] in
theorem Inv.constrained {w : World ι} (h : Inv w) (i : ι) : Constrained (w.agents i) := by
  have hsound := h.sound i
  have hbatch : ∀ {eventId k}, BatchSound w.db eventId k → k.predicates ≠ [] := by
    intro eventId k hk
    rw [hk.predicates]
    exact h.lawful.walked (hk.rules.stored k.rule List.mem_cons_self)
  cases hagent : w.agents i with
  | idle | returned | patching | patched => trivial
  | running caps point summary =>
    cases point with
    | claim | lease | refuse => trivial
    | walk origin eventId stage =>
      rw [hagent] at hsound
      intro predicates hmem
      cases stage with
      | readRules | readPredicates | finish => cases hmem
      | readEligible rule found rest =>
        obtain ⟨hrules, hfound⟩ := hsound
        obtain rfl := Option.some.inj hmem
        rw [hfound]
        exact h.lawful.walked (hrules.stored rule List.mem_cons_self)
      | upsert k =>
        obtain rfl := Option.some.inj hmem
        exact hbatch hsound
      | members k | create k | setLead k | update k | junction k =>
        obtain rfl := Option.some.inj hmem
        exact hbatch hsound.batch

/-- From lawful rules every run has lawful rules, walks none without a predicate of its own, and
changes no more of a rule than its name, its scope and its activity. -/
theorem rules_lawful (s : Db) (h : Lawful s) (requests : List (Request ι)) :
    Throughout serve (fun w => Lawful w.db ∧ ∀ i, Constrained (w.agents i)) (World.start s)
      requests ∧
    ∀ before after, requests = before ++ after →
      RulesKept (before.foldl serve (World.start s)).db
        (requests.foldl serve (World.start s)).db := by
  constructor
  · intro before after _
    have hinv := (inv_run (lawful_start h) before).1
    exact ⟨hinv.lawful, hinv.constrained⟩
  · rintro before after rfl
    have hinv := (inv_run (lawful_start h) before).1
    rw [List.foldl_append]
    exact (inv_run hinv after).2

end runs

section samples

/-- A rule comes in, a blank rename is refused, an answer is bridged, and a rename is walked. -/
def renamed : List (Request (Fin 1)) :=
  [.createRule ⟨1, id, id⟩ ⟨" VIP ", none, none, some true, none, none, [⟨"event", none, [1]⟩]⟩ none,
    .patchRule 0 ⟨3, id, id⟩ 1 ⟨some " ", none, none⟩ none,
    .fromAnswer ⟨2, (· + 5), id⟩ ⟨"Vegan", some 1, none, some true, none, 3, 4⟩ none,
    .patchRule 0 ⟨3, id, id⟩ 1 ⟨some "Guests ", none, none⟩ none, .turn 0 .accepting,
    .turn 0 .accepting]

theorem rules_lawful_renamed :
    ((renamed.foldl serve (World.start openGig)).db.leadRules.rows.map LeadRule.name =
        ["Guests", "Vegan"]) ∧
      Lawful (renamed.foldl serve (World.start openGig)).db := by
  refine ⟨by decide, ?_⟩
  have hrun := rules_lawful openGig ⟨fun lr hlr => (by cases hlr), fun lr hlr => (by cases hlr),
    fun lr hlr => (by cases hlr), fun lr hlr => (by cases hlr), fun p hp => (by cases hp),
    fun p hp => (by cases hp)⟩ renamed
  exact hrun.1.last.1

end samples

end BackboneEvents.LeadGeneration.LeadRuleCommandService
