import BackboneEvents.LeadFrames

/-!
# What arms the lead queue

An arm inserts the queue row of an event or opens a completed one; it never touches a row
that waits. Each verb arms a list of events that its inputs and the rules decide.
-/
namespace BackboneEvents.LeadGeneration
open ConstrainedTables TransactionPrograms GrandTotal

/-- The event's queue row is there and not done. -/
def Waiting (requests : Table LeadRequest) (eventId : Uuid) : Prop :=
  ∃ q ∈ requests.rows, q.eventId = eventId ∧ q.done = false

section requests

variable {requests : Table LeadRequest} {requestId : Uuid → Uuid} {e eventId : Uuid}

theorem queue_row_unique {q q' : LeadRequest} (hq : q ∈ requests.rows) (hq' : q' ∈ requests.rows)
    (h : q.eventId = q'.eventId) : q = q' :=
  Table.eq_of_clash hq hq' (by simp [clash, h])

/-- A stored row stays or re-opens; a new one is unclaimed and not done. -/
theorem armRequest_rows (requestId : Uuid → Uuid) (e : Uuid) (requests : Table LeadRequest) :
    ∃ image born, (armRequest requestId e requests).rows = requests.rows.map image ++ born ∧
      (∀ q, image q = q ∨ image q = LeadRequest.reopened q) ∧
      ∀ q ∈ born, q = ⟨requestId e, e, false, none, none⟩ := by
  simp only [armRequest]
  split
  · next haccepts =>
    exact ⟨id, [_], by rw [Table.rows_push haccepts, List.map_id], fun _ => .inl rfl, by simp⟩
  · refine ⟨_, [], (List.append_nil _).symm, fun q => ?_, by simp⟩
    by_cases h : (q.eventId == e && q.done) = true
    · exact .inr (if_pos h)
    · exact .inl (if_neg h)

theorem waiting_reopened {q : LeadRequest} (h : q.done = false) :
    ∀ q', q' = q ∨ q' = LeadRequest.reopened q → q'.eventId = q.eventId ∧ q'.done = false := by
  rintro q' (rfl | rfl)
  · exact ⟨rfl, h⟩
  · exact ⟨rfl, rfl⟩

/-- No arm ends a wait. -/
theorem Waiting.armRequest (h : Waiting requests eventId) :
    Waiting (armRequest requestId e requests) eventId := by
  obtain ⟨q, hq, rfl, hdone⟩ := h
  obtain ⟨image, born, hrows, himage, -⟩ := armRequest_rows requestId e requests
  refine ⟨image q, ?_, waiting_reopened hdone _ (himage q)⟩
  rw [hrows]
  exact List.mem_append_left _ (List.mem_map_of_mem hq)

/-- An armed event waits. -/
theorem waiting_armRequest (requestId : Uuid → Uuid) (e : Uuid) (requests : Table LeadRequest) :
    Waiting (armRequest requestId e requests) e := by
  simp only [BackboneEvents.armRequest]
  split
  · next haccepts =>
    exact ⟨⟨requestId e, e, false, none, none⟩, by rw [Table.rows_push haccepts]; simp, rfl, rfl⟩
  · next hclash =>
    have hclash' : ∃ q ∈ requests.rows, q.eventId = e := by
      simpa [Table.accepts, clash] using hclash
    obtain ⟨q, hq, rfl⟩ := hclash'
    refine ⟨_, Table.mem_modify.mpr ⟨q, hq, rfl⟩, ?_⟩
    cases hdone : q.done with
    | true => simp [LeadRequest.reopened]
    | false => simp [hdone]

theorem Waiting.armRequests (h : Waiting requests eventId) (es : List Uuid) :
    Waiting (armRequests requestId es requests) eventId := by
  induction es generalizing requests with
  | nil => exact h
  | cons e es ih => exact ih h.armRequest

theorem waiting_armRequests (requestId : Uuid → Uuid) {es : List Uuid} (he : eventId ∈ es)
    (requests : Table LeadRequest) : Waiting (armRequests requestId es requests) eventId := by
  induction es generalizing requests with
  | nil => cases he
  | cons e es ih =>
    rcases List.mem_cons.mp he with rfl | he
    · exact (waiting_armRequest requestId eventId requests).armRequests es
    · exact ih he _

theorem armRequests_ite (b : Bool) : armRequests requestId (if b then [e] else []) requests =
    if b then armRequest requestId e requests else requests := by
  cases b <;> rfl

/-- Over a list of events as over one. -/
theorem armRequests_rows (requestId : Uuid → Uuid) (es : List Uuid) (requests : Table LeadRequest) :
    ∃ image born, (armRequests requestId es requests).rows = requests.rows.map image ++ born ∧
      (∀ q, image q = q ∨ image q = LeadRequest.reopened q) ∧
      ∀ q ∈ born, q.claimedAt = none ∧ q.done = false := by
  induction es generalizing requests with
  | nil => exact ⟨id, [], by simp [BackboneEvents.armRequests], fun _ => .inl rfl, by simp⟩
  | cons e es ih =>
    obtain ⟨image, born, hrows, himage, hborn⟩ := armRequest_rows requestId e requests
    obtain ⟨image', born', hrows', himage', hborn'⟩ := ih (armRequest requestId e requests)
    refine ⟨image' ∘ image, born.map image' ++ born', ?_, fun q => ?_, fun q hq => ?_⟩
    · have hstep : BackboneEvents.armRequests requestId (e :: es) requests =
        BackboneEvents.armRequests requestId es (armRequest requestId e requests) := rfl
      rw [hstep, hrows', hrows, List.map_append, List.map_map, List.append_assoc]
    · rcases himage q with h | h <;> rcases himage' (image q) with h' | h' <;>
        rw [Function.comp_apply, h', h]
      · exact .inl rfl
      · exact .inr rfl
      · exact .inr rfl
      · exact .inr rfl
    · rcases List.mem_append.mp hq with hq | hq
      · obtain ⟨x, hx, rfl⟩ := List.mem_map.mp hq
        rcases himage' x with h | h <;> rw [h, hborn x hx]
        · exact ⟨rfl, rfl⟩
        · exact ⟨rfl, rfl⟩
      · exact hborn' q hq

end requests

section verbs

/-- The arm of the register head fires. -/
def Db.registerArms (s : Db) (cmd : RegisterCommand) : Bool :=
  !cmd.leadRuleSkip && s.fires cmd.eventId (fun lr => lr.onCreate || lr.onConfirm)

/-- The arm of a state verb fires. -/
def Db.transitionArms (s : Db) (before : Registration) (target : RegistrationState) : Bool :=
  before.active && (target == .open || target == .done) && before.state != target &&
    s.fires before.eventId (fun lr => if target == .done then lr.onDone else lr.onConfirm)

/-- The events whose queue rows a verb's arms reach, in order. -/
def Db.armsOf (s : Db) : Call → List Uuid
  | .register _ cmd => if Db.registerArms s cmd then [cmd.eventId] else []
  | .transition _ registrationId target _ =>
    match s.registration? registrationId with
    | some r => if Db.transitionArms s r target then [r.eventId] else []
    | none => []
  | .seam c =>
    match c.verb with
    | .confirmed _ specs =>
      if s.seamInbox.accepts c.key && s.linked c.orderId == 0 then
        (specs.filter (Db.registerArms s)).map RegisterCommand.eventId else []
    | .cancelled => []
    | .paid _ => []

def requestIdOf : Call → Uuid → Uuid
  | .register env _ => env.requestId
  | .transition env _ _ _ => env.requestId
  | .seam c => c.env.requestId

theorem minted_requests {env : Env} {link : SaleLink} {k : ℕ} {specs : List RegisterCommand}
    {s t : Db} (h : Minted env link k specs s t) :
    t.leadRequests = armRequests env.requestId
      ((specs.filter (Db.registerArms s)).map RegisterCommand.eventId) s.leadRequests := by
  induction h with
  | nil k s => rfl
  | @cons k spec specs s s' t row head tail ih =>
    obtain ⟨event, slotId, -, -, -, -, rfl⟩ := run_registerCore_ok head
    have hsame : Db.registerArms (s.registered env spec (some link).isSome row) =
      Db.registerArms s := rfl
    rw [ih, hsame]
    cases harms : Db.registerArms s spec with
    | true =>
      have harms' := harms
      simp only [Db.registerArms] at harms'
      simp [Db.registered, harms, harms', armRequests]
    | false =>
      have harms' := harms
      simp only [Db.registerArms] at harms'
      simp [Db.registered, harms, harms']

/-- A verb reaches the queue by its arms alone. One that fails or repeats leaves everything
as it is. -/
theorem effect_requests {c : Call} {s t : Db} (h : c.Effect s t) :
    (t = s ∧ ((∃ e, c.program.run s = .error e) ∨ Db.armsOf s c = [])) ∨
      t.leadRequests = armRequests (requestIdOf c) (Db.armsOf s c) s.leadRequests := by
  cases h with
  | refused h => exact .inl ⟨rfl, .inl ⟨_, h⟩⟩
  | @replayed c _ h =>
    refine .inl ⟨rfl, .inr ?_⟩
    cases hverb : c.verb <;> simp [Db.armsOf, hverb, h]
  | @registered env cmd _ event slotId admitted room fits =>
    exact .inr (armRequests_ite (Db.registerArms s cmd)).symm
  | @transitioned env r target actor _ found seat =>
    refine .inr ?_
    simp only [Db.armsOf, found]
    exact (armRequests_ite (Db.transitionArms s r target)).symm
  | minted verb fresh unlinked mint =>
    refine .inr ((minted_requests mint).trans ?_)
    simp only [Db.armsOf, verb, fresh, unlinked, requestIdOf]
    rfl
  | freeHealed verb fresh linked free | heldBack verb fresh linked paid =>
    exact .inr (by simp [Db.armsOf, verb, linked, armRequests, Db.freeHealed, Db.heldBack, Db.claimed])
  | cancelled verb fresh | paid verb fresh =>
    exact .inr (by simp [Db.armsOf, verb, armRequests, Db.orderCancelled, Db.paid, Db.claimed])

/-- Over a committed verb: nothing but audit rows, or the queue after its arms. -/
theorem next_requests (c : Call) (s : Db) : (∃ rows, s.next c = s.audited rows) ∨
    (s.next c).leadRequests = armRequests (requestIdOf c) (Db.armsOf s c) s.leadRequests := by
  obtain ⟨t, rows, heffect, happly⟩ := c.apply_effect s
  rw [Db.next, happly]
  rcases effect_requests heffect with ⟨rfl, -⟩ | h
  · exact .inl ⟨rows, rfl⟩
  · exact .inr h

end verbs

section agents

def Agent.walks (eventId : Uuid) : Agent → Bool
  | .running _ (.walk _ e _) _ => e == eventId
  | .running _ (.claim _) _ | .running _ (.lease _) _ | .running _ (.refuse _) _ => false
  | .idle | .returned _ | .patching _ _ _ | .patched _ => false

/-- The walk under way: how it was started, and its event. -/
def Agent.place : Agent → Option (Origin × Uuid)
  | .running _ (.walk origin e _) _ => some (origin, e)
  | .running _ (.claim _) _ | .running _ (.lease _) _ | .running _ (.refuse _) _ => none
  | .idle | .returned _ | .patching _ _ _ | .patched _ => none

/-- A cron pass about to claim, with the events it has parked. -/
def Agent.claims : Agent → Option (List Uuid)
  | .running _ (.claim parked) _ => some parked
  | .running _ (.walk _ _ _) _ | .running _ (.lease _) _ | .running _ (.refuse _) _ => none
  | .idle | .returned _ | .patching _ _ _ | .patched _ => none

theorem walks_iff {a : Agent} {e : Uuid} : a.walks e = true ↔ ∃ origin, a.place = some (origin, e) := by
  cases a with
  | idle | returned | patching | patched => simp [Agent.walks, Agent.place]
  | running caps point summary => cases point <;> simp [Agent.walks, Agent.place]

/-- What one step of an agent does to the queue, and where it leaves the agent. -/
inductive QueueStep (now : Timestamp) (s : Db) (a : Agent) (t : Db) (a' : Agent) : Prop
  | leased {q : LeadRequest} (row : q ∈ s.leadRequests.rows) (free : q.leasable now = true)
      (db : t = s.lease now q.eventId)
      (place : (∃ parked, a.claims = some parked ∧ q.eventId ∉ parked ∧
          a'.place = some (.cron parked, q.eventId)) ∨
        (a.claims = none ∧ a'.place = some (.officer, q.eventId)))
      (before : a.place = none)
  | finished {caps : Caps} {origin : Origin} {e : Uuid} {reason : Option String}
      {summary : LeadRunSummary}
      (agent : a = .running caps (.walk origin e (.finish reason)) summary)
      (requests : t.leadRequests = s.leadRequests.modify (·.eventId == e) (LeadRequest.finished reason))
      (after : a' = origin.after caps e reason (summary.finished reason))
  | quiet (requests : ∃ requestId es, t.leadRequests = armRequests requestId es s.leadRequests)
      (place : a'.place = a.place ∨ a'.place = none) (claims : a'.claims = none)

theorem QueueStep.same {now : Timestamp} {s t : Db} {a a' : Agent}
    (requests : t.leadRequests = s.leadRequests) (place : a'.place = a.place ∨ a'.place = none)
    (claims : a'.claims = none) : QueueStep now s a t a' :=
  .quiet ⟨id, [], requests⟩ place claims

theorem stage_queue_step (caps : Caps) (origin : Origin) (e : Uuid) (tick : Tick)
    (summary : LeadRunSummary) (s : Db) (stage : Stage) :
    QueueStep tick.now s (.running caps (.walk origin e stage) summary)
      (stage.turn caps origin e tick summary s).db
      (stage.turn caps origin e tick summary s).agent := by
  cases stage with
  | readRules | readPredicates | setLead => exact .same rfl (.inl rfl) rfl
  | readEligible =>
    simp only [Stage.turn]
    split
    · exact .same rfl (.inr rfl) rfl
    · exact .same rfl (.inl rfl) rfl
  | create | update => simp only [Stage.turn]; split <;> exact .same rfl (.inl rfl) rfl
  | members =>
    simp only [Stage.turn]
    split
    · split <;> exact .same rfl (.inl rfl) rfl
    · exact .same rfl (.inl rfl) rfl
  | upsert =>
    simp only [Stage.turn]
    split
    · exact .same rfl (.inr rfl) rfl
    · next hupsert =>
      refine .same ?_ (.inl rfl) rfl
      rcases upsertProvenance_ok hupsert with ⟨rfl, -⟩ | ⟨-, -, -, rfl⟩ <;> rfl
  | junction =>
    simp only [Stage.turn]
    split
    · exact .same rfl (.inr rfl) rfl
    · next hadd =>
      obtain ⟨table, rfl, -⟩ := junctionAdd_ok hadd
      exact .same rfl (.inl rfl) rfl
  | finish reason =>
    simp only [Stage.turn, finishRequestByEvent]
    split
    · exact .same rfl (.inr rfl) rfl
    · next hfinish =>
      split at hfinish
      · obtain rfl := Except.ok.inj hfinish
        exact .finished rfl rfl rfl
      · cases hfinish

theorem queue_step (a : Agent) (tick : Tick) (s : Db) :
    QueueStep tick.now s a (a.turn tick s).db (a.turn tick s).agent := by
  cases a with
  | idle | returned | patched => exact .same rfl (.inl rfl) rfl
  | patching env patch stage =>
    cases stage with
    | update =>
      simp only [Agent.turn, Patching.turn]
      split
      · exact .same rfl (.inl rfl) rfl
      · next hupdate =>
        obtain ⟨rfl, -⟩ := updateRule_ok hupdate
        exact .same rfl (.inl rfl) rfl
    | arm row => exact .quiet ⟨_, _, rfl⟩ (.inl rfl) rfl
    | audit row => exact .same rfl (.inl rfl) rfl
  | running caps point summary =>
    cases point with
    | claim parked =>
      simp only [Agent.turn, Point.turn]
      split
      · exact .same rfl (.inl rfl) rfl
      · rcases claimNextDueRequest_cases parked tick.now tick.locked s with heq | ⟨q, hq, hdue, heq⟩
        · rw [heq]
          exact .same rfl (.inl rfl) rfl
        · rw [heq]
          simp only [LeadRequest.due, Bool.and_eq_true, Bool.not_eq_true'] at hdue
          refine .leased hq hdue.1.2 rfl (.inl ⟨parked, rfl, ?_, rfl⟩) rfl
          simpa using hdue.2
    | lease eventId =>
      simp only [Agent.turn, Point.turn]
      rcases tryLeaseRequestOfEvent_cases eventId tick.now s with ⟨-, heq⟩ | ⟨q, hq, hevent, hfree, heq⟩
      · rw [heq]
        exact .same rfl (.inl rfl) rfl
      · rw [heq]
        subst hevent
        exact .leased hq hfree rfl (.inr ⟨rfl, rfl⟩) rfl
    | refuse => exact .same rfl (.inl rfl) rfl
    | walk origin e stage => exact stage_queue_step caps origin e tick summary s stage

end agents

end BackboneEvents.LeadGeneration
