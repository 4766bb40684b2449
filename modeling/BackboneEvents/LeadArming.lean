import BackboneEvents.LeadArms

/-!
# Which verbs arm the lead queue

Register, mint and the state verbs arm by the rules' triggers, a new or activated rule arms
its scope. The heals of an order, an import and a patch that moves a rule's scope without
activating it do not.
-/
namespace BackboneEvents.LeadGeneration
open ConstrainedTables TransactionPrograms GrandTotal

inductive Verb where
  | call (c : Call)
  | createRule (env : RuleEnv) (cmd : CreateRule)
  | patchRule (requestId : Uuid → Uuid) (patch : PatchRule)

def Verb.apply (s : Db) : Verb → Db
  | .call c => c.apply s
  | .createRule env cmd => Db.withRule env cmd s
  | .patchRule requestId patch => (BackboneEvents.patchRule requestId patch s).2

/-- The patch as one verb is its agent's steps taken without a pause. -/
theorem patching_alone {ι : Type} [DecidableEq ι] (w : World ι) (i : ι) (env : RuleEnv)
    (patch : PatchRule) (tick : Tick) (h : w.agents i = .patching env patch .update) :
    ∃ n, (((fun v => World.next v (.turn i tick))^[n]) w).db =
        (BackboneEvents.patchRule env.requestId patch w.db).2 ∧
      (((fun v => World.next v (.turn i tick))^[n]) w).agents i =
        .patched (BackboneEvents.patchRule env.requestId patch w.db).1 := by
  cases hupdate : updateRule patch w.db with
  | error e =>
    refine ⟨1, ?_, ?_⟩ <;>
      simp [World.next, h, Agent.turn, Patching.turn, BackboneEvents.patchRule, hupdate]
  | ok r =>
    obtain ⟨row, t⟩ := r
    by_cases hactive : patch.active = some true
    · refine ⟨3, ?_, ?_⟩ <;>
        simp [World.next, h, Agent.turn, Patching.turn, BackboneEvents.patchRule, hupdate, hactive,
          Function.iterate_succ]
    · refine ⟨2, ?_, ?_⟩ <;>
        simp [World.next, h, Agent.turn, Patching.turn, BackboneEvents.patchRule, hupdate, hactive,
          Function.iterate_succ]

/-- The commands whose rows a committed call inserts. -/
def insertsOf (s : Db) : Call → List RegisterCommand
  | .register _ cmd => [cmd]
  | .transition _ _ _ _ => []
  | .seam c =>
    match c.verb with
    | .confirmed _ specs =>
      if s.seamInbox.accepts c.key && s.linked c.orderId == 0 then specs else []
    | .cancelled | .paid _ => []

/-- An active row that is open after, and before was a draft, cancelled or not there. -/
def EntersOpen (s t : Db) (r : Registration) : Prop :=
  r ∈ t.registrations.rows ∧ r.active = true ∧ r.state = .open ∧
    ∀ before ∈ s.registrations.rows, before.id = r.id → before.outside = true

def EntersDone (s t : Db) (r : Registration) : Prop :=
  r ∈ t.registrations.rows ∧ r.active = true ∧ r.state = .done ∧
    ∀ before ∈ s.registrations.rows, before.id = r.id → before.state ≠ .done

/-- The verb does something that should wake the event's queue. -/
inductive Triggers (s : Db) (e : Uuid) : Verb → Prop
  | inserted {c : Call} {cmd : RegisterCommand} (committed : ∃ a, c.answer s = .ok a)
      (inserts : cmd ∈ insertsOf s c) (event : cmd.eventId = e) (skip : cmd.leadRuleSkip = false)
      (fires : s.fires e LeadRule.onCreate = true) : Triggers s e (.call c)
  | opened {c : Call} {r : Registration} (enters : EntersOpen s (c.apply s) r)
      (event : r.eventId = e) (fires : s.fires e LeadRule.onConfirm = true) : Triggers s e (.call c)
  | completed {c : Call} {r : Registration} (enters : EntersDone s (c.apply s) r)
      (event : r.eventId = e) (fires : s.fires e LeadRule.onDone = true) : Triggers s e (.call c)
  | ruled {v : Verb} {l : LeadRule} (stored : l ∈ (v.apply s).leadRules.rows)
      (scope : l.inScope e = true)
      (newly : ∀ before ∈ s.leadRules.rows, before.id = l.id → before.inScope e = false)
      (event : ∃ row ∈ s.events.rows, row.id = e) : Triggers s e v

/-- The verb's path arms: a state verb, an insert for the event that is no import, a new
rule, or a patch that activates. -/
def Verb.Arms (s : Db) (e : Uuid) : Verb → Prop
  | .call (.transition _ _ _ _) => True
  | .call (.register env cmd) =>
    ∃ c ∈ insertsOf s (.register env cmd), c.eventId = e ∧ c.leadRuleSkip = false
  | .call (.seam c) => ∃ cmd ∈ insertsOf s (.seam c), cmd.eventId = e ∧ cmd.leadRuleSkip = false
  | .createRule _ _ => True
  | .patchRule _ patch => patch.active = some true

section verbs

variable {s : Db} {e : Uuid} {c : Call}

theorem fires_mono {p q : LeadRule → Bool} (h : s.fires e p = true)
    (hpq : ∀ lr, p lr = true → q lr = true) : s.fires e q = true := by
  obtain ⟨lr, hlr, hfires⟩ := List.any_eq_true.mp h
  simp only [Bool.and_eq_true] at hfires
  exact List.any_eq_true.mpr ⟨lr, hlr, by simp [hfires.1, hpq lr hfires.2]⟩

/-- An insert for the event that is no import reaches the arm. -/
theorem insert_arms {cmd : RegisterCommand} (hcmd : cmd ∈ insertsOf s c)
    (hevent : cmd.eventId = e) (hskip : cmd.leadRuleSkip = false)
    (hfires : s.fires e (fun lr => lr.onCreate || lr.onConfirm) = true) : e ∈ Db.armsOf s c := by
  have harms : Db.registerArms s cmd = true := by
    rw [Db.registerArms, hskip, hevent, hfires]
    rfl
  cases c with
  | register env cmd' =>
    obtain rfl := List.mem_singleton.mp hcmd
    simp [Db.armsOf, harms, hevent]
  | transition => cases hcmd
  | seam c =>
    cases hverb : c.verb with
    | cancelled | paid => simp [insertsOf, hverb] at hcmd
    | confirmed grandTotal specs =>
      simp only [insertsOf, hverb] at hcmd
      simp only [Db.armsOf, hverb]
      split at hcmd
      · next hfresh =>
        rw [if_pos hfresh]
        exact List.mem_map.mpr ⟨cmd, List.mem_filter.mpr ⟨hcmd, harms⟩, hevent⟩
      · cases hcmd

/-- What a committed call arms waits. -/
theorem waiting_of_arms {a : Answer} (hanswer : c.answer s = .ok a) (harms : e ∈ Db.armsOf s c) :
    Waiting (c.apply s).leadRequests e := by
  obtain ⟨t, rows, hrun, happly⟩ := Call.apply_of_answer hanswer
  rw [happly, audited_leadRequests]
  rcases effect_requests (Call.effect_of_run hrun) with ⟨-, ⟨e', herror⟩ | hnone⟩ | heq
  · rw [herror] at hrun
    cases hrun
  · rw [hnone] at harms
    cases harms
  · rw [heq]
    exact waiting_armRequests _ harms _

/-- A call that changes a stored row is answered. -/
theorem answered_of_rows {r : Registration} (hr : r ∈ (c.apply s).registrations.rows)
    (hnew : r ∉ s.registrations.rows) : ∃ a, c.answer s = .ok a := by
  cases hanswer : c.answer s with
  | ok a => exact ⟨a, rfl⟩
  | error e =>
    rw [Call.apply_of_refused hanswer] at hr
    exact absurd hr hnew

/-- The row a state verb changes is its own. -/
theorem moved_of_changed {env : Env} {id : Uuid} {target : RegistrationState}
    {actor : Option Uuid} {r : Registration}
    (hr : r ∈ ((Call.transition env id target actor).apply s).registrations.rows)
    (hnew : r ∉ s.registrations.rows) :
    ∃ x ∈ s.registrations.rows, s.registration? id = some x ∧
      r = Registration.moved env.now target x := by
  obtain ⟨t, rows, heffect, happly⟩ := (Call.transition env id target actor).apply_effect s
  rw [happly, audited_registrations] at hr
  cases heffect with
  | refused => exact absurd hr hnew
  | @transitioned _ before _ _ _ found seat =>
    obtain ⟨x, hx, hxr⟩ := Table.mem_modify.mp hr
    by_cases hid : x.id = before.id
    · obtain rfl := registration_eq_of_id hx (registration?_mem found).1 hid
      exact ⟨x, hx, found, by simpa using hxr.symm⟩
    · rw [if_neg (by simpa using hid)] at hxr
      exact absurd (hxr ▸ hx) hnew

theorem opened_new {t : Db} {r : Registration} (h : EntersOpen s t r) :
    r ∉ s.registrations.rows := fun hr => by
  have hout := h.2.2.2 r hr rfl
  simp [Registration.outside, h.2.2.1] at hout

theorem completed_new {t : Db} {r : Registration} (h : EntersDone s t r) :
    r ∉ s.registrations.rows := fun hr => h.2.2.2 r hr rfl h.2.2.1

theorem transition_arms_open {env : Env} {id : Uuid} {target : RegistrationState}
    {actor : Option Uuid} {r : Registration}
    (h : EntersOpen s ((Call.transition env id target actor).apply s) r)
    (hfires : s.fires r.eventId LeadRule.onConfirm = true) :
    r.eventId ∈ Db.armsOf s (.transition env id target actor) := by
  obtain ⟨x, hx, hfound, rfl⟩ := moved_of_changed h.1 (opened_new h)
  obtain ⟨-, hactive, hopen, hbefore⟩ := h
  obtain rfl : target = .open := hopen
  have hout := hbefore x hx rfl
  have hne : x.state ≠ .open := fun hstate => by simp [Registration.outside, hstate] at hout
  rw [moved_active] at hactive
  rw [moved_eventId] at hfires
  simp [Db.armsOf, hfound, Db.transitionArms, hactive, hne, hfires]

theorem transition_arms_done {env : Env} {id : Uuid} {target : RegistrationState}
    {actor : Option Uuid} {r : Registration}
    (h : EntersDone s ((Call.transition env id target actor).apply s) r)
    (hfires : s.fires r.eventId LeadRule.onDone = true) :
    r.eventId ∈ Db.armsOf s (.transition env id target actor) := by
  obtain ⟨x, hx, hfound, rfl⟩ := moved_of_changed h.1 (completed_new h)
  obtain ⟨-, hactive, hdone, hbefore⟩ := h
  obtain rfl : target = .done := hdone
  have hne := hbefore x hx rfl
  rw [moved_active] at hactive
  rw [moved_eventId] at hfires
  simp [Db.armsOf, hfound, Db.transitionArms, hactive, hne, hfires]

theorem transition_of_rowStep {x y : Registration} (h : c.RowStep x y) (hdone : y.state = .done)
    (hbefore : x.state ≠ .done) : ∃ env id target actor, c = .transition env id target actor := by
  cases h with
  | same | held | sold => exact absurd hdone hbefore
  | moved env _ target actor => exact ⟨env, _, target, actor, rfl⟩
  | freeHealed | orderCancelled | paidHealed => cases hdone

/-- Only a state verb completes a registration. -/
theorem transition_of_completed {r : Registration} (h : EntersDone s (c.apply s) r) :
    ∃ env id target actor, c = .transition env id target actor := by
  obtain ⟨hr, -, hdone, hbefore⟩ := h
  obtain ⟨t, rows, heffect, happly⟩ := c.apply_effect s
  obtain ⟨image, born, hrows, hsteps, hborn⟩ := heffect.rows
  rw [happly, audited_registrations, hrows] at hr
  rcases List.mem_append.mp hr with hr | hr
  · obtain ⟨x, hx, rfl⟩ := List.mem_map.mp hr
    have hsame : SameTicket x (image x) := rowStep_same (hsteps x hx)
    exact transition_of_rowStep (hsteps x hx) hdone (hbefore x hx hsame.id.symm)
  · cases hborn r hr with
    | registered event state => rw [state] at hdone; cases hdone
    | @minted c _ grandTotal _ verb event state =>
      rw [state] at hdone
      simp only [bornLink] at hdone
      split at hdone <;> cases hdone

theorem call_arms (h : Triggers s e (.call c)) (hpath : Verb.Arms s e (.call c)) :
    Waiting (c.apply s).leadRequests e := by
  have hinsert : ∀ {cmd : RegisterCommand} {r : Registration}, cmd ∈ insertsOf s c →
      cmd.eventId = e → cmd.leadRuleSkip = false → r ∈ (c.apply s).registrations.rows →
      r ∉ s.registrations.rows → s.fires e LeadRule.onConfirm = true →
      Waiting (c.apply s).leadRequests e := by
    intro cmd r hcmd hevent hskip hr hnew hfires
    obtain ⟨a, hanswer⟩ := answered_of_rows hr hnew
    refine waiting_of_arms hanswer (insert_arms hcmd hevent hskip ?_)
    exact fires_mono hfires fun lr hlr => by simp [hlr]
  cases h with
  | inserted committed inserts event skip fires =>
    obtain ⟨a, hanswer⟩ := committed
    refine waiting_of_arms hanswer (insert_arms inserts event skip ?_)
    exact fires_mono fires fun lr hlr => by simp [hlr]
  | opened enters event fires =>
    have hnew := opened_new enters
    cases c with
    | register env cmd =>
      obtain ⟨cmd, hcmd, hevent, hskip⟩ := hpath
      exact hinsert hcmd hevent hskip enters.1 hnew fires
    | seam c =>
      obtain ⟨cmd, hcmd, hevent, hskip⟩ := hpath
      exact hinsert hcmd hevent hskip enters.1 hnew fires
    | transition env id target actor =>
      subst event
      obtain ⟨a, hanswer⟩ := answered_of_rows enters.1 hnew
      exact waiting_of_arms hanswer (transition_arms_open enters fires)
  | completed enters event fires =>
    subst event
    obtain ⟨env, id, target, actor, rfl⟩ := transition_of_completed enters
    obtain ⟨a, hanswer⟩ := answered_of_rows enters.1 (completed_new enters)
    exact waiting_of_arms hanswer (transition_arms_done enters fires)
  | ruled stored scope newly event =>
    obtain ⟨t, rows, heffect, happly⟩ := c.apply_effect s
    have hrules : (c.apply s).leadRules = s.leadRules := by
      rw [happly, audited_leadRules, (effect_lead heffect).2.2.1]
    rw [Verb.apply, hrules] at stored
    rw [newly _ stored rfl] at scope
    cases scope

theorem mem_scope {lr : LeadRule} (hscope : lr.inScope e = true)
    (hevent : ∃ row ∈ s.events.rows, row.id = e) : e ∈ s.scope lr.eventId := by
  obtain ⟨row, hrow, rfl⟩ := hevent
  refine List.mem_filter.mpr ⟨List.mem_map_of_mem hrow, ?_⟩
  simp only [LeadRule.inScope, Bool.and_eq_true, Bool.or_eq_true, beq_iff_eq] at hscope
  rcases hscope.2 with h | h <;> simp [h]

theorem createRule_arms {env : RuleEnv} {cmd : CreateRule} (h : Triggers s e (.createRule env cmd)) :
    Waiting (Db.withRule env cmd s).leadRequests e := by
  cases h with
  | @ruled _ lr stored scope newly event =>
    rcases withRule_cases env cmd s with ⟨rows, heq⟩ | ⟨t, rows, hcreated, heq⟩
    · rw [Verb.apply, heq] at stored
      rw [newly _ stored rfl] at scope
      cases scope
    · rw [heq, audited_leadRequests, hcreated.requests]
      rw [Verb.apply, heq, audited_leadRules, hcreated.rules, Table.rows_push hcreated.fresh] at stored
      rcases List.mem_append.mp stored with hold | hnew
      · rw [newly _ hold rfl] at scope
        cases scope
      · obtain rfl := List.mem_singleton.mp hnew
        exact waiting_armRequests _ (mem_scope scope event) _

theorem patchRule_arms {requestId : Uuid → Uuid} {patch : PatchRule}
    (h : Triggers s e (.patchRule requestId patch)) (hactive : patch.active = some true) :
    Waiting (BackboneEvents.patchRule requestId patch s).2.leadRequests e := by
  cases h with
  | @ruled _ lr stored scope newly event =>
    cases hupdate : updateRule patch s with
    | error error =>
      simp only [Verb.apply, BackboneEvents.patchRule, hupdate] at stored
      rw [newly _ stored rfl] at scope
      cases scope
    | ok r =>
      obtain ⟨row, t⟩ := r
      obtain ⟨rfl, old, hold, hid, rfl⟩ := updateRule_ok hupdate
      simp only [Verb.apply, BackboneEvents.patchRule, hupdate, hactive, beq_self_eq_true, if_true]
        at stored ⊢
      obtain ⟨x, hx, hxlr⟩ := Table.mem_modify.mp stored
      by_cases hxid : x.id = patch.ruleId
      · obtain rfl : x = old := Table.eq_of_clash hx hold (by simp [clash, hxid, hid])
        rw [if_pos (by simpa using hxid)] at hxlr
        subst hxlr
        exact waiting_armRequests _ (mem_scope (s := s) scope event) _
      · rw [if_neg (by simpa using hxid)] at hxlr
        subst hxlr
        rw [newly _ hx rfl] at scope
        cases scope

/-- On its arming path, every verb that should wake an event's queue leaves it waiting. -/
theorem arms_complete (v : Verb) (htriggers : Triggers s e v) (hpath : v.Arms s e) :
    Waiting (v.apply s).leadRequests e := by
  cases v with
  | call c => exact call_arms htriggers hpath
  | createRule env cmd => exact createRule_arms htriggers
  | patchRule requestId patch => exact patchRule_arms htriggers hpath

end verbs

section sample

instance (requests : Table LeadRequest) (e : Uuid) : Decidable (Waiting requests e) :=
  inferInstanceAs (Decidable (∃ q ∈ requests.rows, _ ∧ _))

instance (s t : Db) (r : Registration) : Decidable (EntersOpen s t r) :=
  inferInstanceAs (Decidable (_ ∧ _ ∧ _ ∧ ∀ before ∈ s.registrations.rows, _ → _))

/-- Every queue row after a walk that met no refusal. -/
def walkedOut (s : Db) : Db :=
  { s with leadRequests := s.leadRequests.modify (fun _ => true) (LeadRequest.finished none) }

def onConfirmRule (eventId : Option Uuid) : CreateRule :=
  ⟨"on confirm", eventId, .registration, false, true, false, [], none⟩

/-- Two events, and a rule on the second one or on both. -/
def ruledGigs (eventId : Option Uuid) : Db :=
  walkedOut (Db.withRule ⟨1, id, id⟩ (onConfirmRule eventId)
    { openGig with events := openGig.events.push { gig with id := 2, name := "Second" } })

def annOpen : Registration :=
  ⟨1, 1, none, none, "Ann", "ann@x", none, none, none, .open, none, none, none, none, true, "1",
    none, some 0⟩

theorem arms_complete_register : Waiting
    ((Verb.call (.register (.counting 1) ann)).apply (ruledGigs none)).leadRequests 1 :=
  arms_complete (.call (.register (.counting 1) ann))
    (.opened (r := annOpen) (by decide) rfl (by decide)) ⟨ann, by decide, rfl, rfl⟩

/-- An import does not arm, nor does a patch that only moves the scope. -/
theorem importAndRescope_unarmed :
    (Triggers (ruledGigs none) 1 (.call (.register (.counting 1) { ann with leadRuleSkip := true })) ∧
      ¬ Waiting ((Verb.call (.register (.counting 1) { ann with leadRuleSkip := true })).apply
        (ruledGigs none)).leadRequests 1) ∧
    (Triggers (ruledGigs (some 2)) 1 (.patchRule id ⟨1, none, some 1, none, none⟩) ∧
      ¬ Waiting ((Verb.patchRule id ⟨1, none, some 1, none, none⟩).apply
        (ruledGigs (some 2))).leadRequests 1) := by
  refine ⟨⟨.opened (r := annOpen) (by decide) rfl (by decide), by decide⟩, ?_, by decide⟩
  exact .ruled (l := ⟨1, "on confirm", some 1, .registration, false, true, false, true⟩) (by decide)
    (by decide) (by decide) (by decide)

end sample

end BackboneEvents.LeadGeneration
