import BackboneEvents.LeadQueue
import BackboneEvents.Leases

/-!
# The leases of the lead queue

A queue row and the walkers of its event are a lease: a claim stamps the row, a finish
clears the stamp of its event whoever wrote it, and no arm touches it. While every walk is
shorter than a lease, an event has one walker.
-/
namespace BackboneEvents.LeadGeneration
open ConstrainedTables GuardedRuns

/-- When the event's row was claimed, unless it is free. -/
def stampOf (requests : Table LeadRequest) (eventId : Uuid) : Option Timestamp :=
  (requests.find (·.eventId == eventId)).bind LeadRequest.claimedAt

/-- The event a step of an agent leased. -/
def Agent.claimed (a a' : Agent) : Option Uuid :=
  if a.place.isNone then a'.place.map Prod.snd else none

/-- The event a step of a cron pass parked. -/
def Agent.parks (a a' : Agent) : Option Uuid :=
  match a with
  | .running _ (.walk (.cron _) e (.finish (some _))) _ => if a'.claims.isSome then some e else none
  | .running _ _ _ | .idle | .returned _ | .patching _ _ _ | .patched _ => none

/-- The world with what its agents did since they started: when the last claim was, which
events the pass parked, and whether a step changed the database; and who leased each event
last. -/
structure Leased (ι : Type) where
  world : World ι
  stamp : ι → Timestamp
  newest : Uuid → Option ι
  parked : ι → List Uuid
  touched : ι → Bool

section leased

variable {ι : Type} [DecidableEq ι]

def Leased.start (s : Db) : Leased ι :=
  ⟨.start s, fun _ => 0, fun _ => none, fun _ => [], fun _ => false⟩

def Leased.next (o : Leased ι) (a : Act ι) : Leased ι :=
  let w := o.world.next a
  match a with
  | .turn i tick =>
    let before := o.world.agents i
    let after := w.agents i
    { world := w
      stamp := fun j => if j = i ∧ (before.claimed after).isSome then tick.now else o.stamp j
      newest := fun e => if before.claimed after = some e then some i else o.newest e
      parked := Function.update o.parked i (o.parked i ++ (before.parks after).toList)
      touched := Function.update o.touched i (o.touched i || decide (w.db ≠ o.world.db)) }
  | .patchRule i _ _ | .runDueLeadRequests i _ | .runRequestOfEvent i _ _ =>
    if (o.world.agents i).isRunning then { o with world := w }
    else { o with
      world := w
      parked := Function.update o.parked i []
      touched := Function.update o.touched i false }
  | .verb _ | .createRule _ _ | .crash _ => { o with world := w }

/-- The queue's stamps, and each walk with the stamp of its own claim. -/
def Leased.leases (o : Leased ι) : Leases.State ι Uuid where
  stamp := stampOf o.world.db.leadRequests
  held i := (o.world.agents i).place.map (fun p => (p.2, o.stamp i))
  newest := o.newest

/-- At the clock of the step, no walk under way has outlived its lease. -/
def Leased.Punctual (o : Leased ι) : Act ι → Prop
  | .turn _ tick => ∀ i, (o.world.agents i).place.isSome → tick.now < o.stamp i + lease
  | .verb _ | .createRule _ _ | .patchRule _ _ _ | .runDueLeadRequests _ _
  | .runRequestOfEvent _ _ _ | .crash _ => True

/-- An event has one walker, no pass walks an event it has parked, and a refused run has
changed nothing. -/
structure Leased.Exclusive (o : Leased ι) : Prop where
  one : ∀ e i j, (o.world.agents i).walks e = true → (o.world.agents j).walks e = true → i = j
  unparked : ∀ e i, (o.world.agents i).walks e = true → e ∉ o.parked i
  unchanged : ∀ e i, o.world.agents i = .returned (.error (.leadRequestBusy e)) →
    o.touched i = false

end leased

section stamps

variable {requests : Table LeadRequest} {e : Uuid}

theorem find_queued {q : LeadRequest} (hq : q ∈ requests.rows) :
    requests.find (·.eventId == q.eventId) = some q :=
  Table.find_eq_some hq (by simp) fun x hx => by
    have heq : x.eventId = q.eventId := by simpa using hx
    simp [clash, heq]

theorem stampOf_stored {q : LeadRequest} (hq : q ∈ requests.rows) :
    stampOf requests q.eventId = q.claimedAt := by
  rw [stampOf, find_queued hq]
  rfl

/-- A write to the row of one event. -/
theorem stampOf_modify {f : Update LeadRequest} (hf : ∀ q, (f q).eventId = q.eventId) (e' : Uuid) :
    stampOf (requests.modify (·.eventId == e) f) e' = if e' = e then
      (requests.find (·.eventId == e)).bind (fun q => (f q).claimedAt) else stampOf requests e' := by
  rw [stampOf, Table.find_modify fun q => by rw [hf]]
  split
  · next heq =>
    subst heq
    cases hfind : requests.find (·.eventId == e') with
    | none => rfl
    | some q =>
      have heq : q.eventId = e' := by simpa using Table.find_spec hfind
      simp [heq]
  · next hne =>
    rw [stampOf]
    cases hfind : requests.find (·.eventId == e') with
    | none => rfl
    | some q =>
      have heq : q.eventId = e' := by simpa using Table.find_spec hfind
      simp [heq, hne]

/-- A finish clears the stamp of its event, whatever the outcome. -/
theorem stampOf_finished (requests : Table LeadRequest) (e : Uuid) (reason : Option String) :
    stampOf (requests.modify (·.eventId == e) (LeadRequest.finished reason)) =
      Function.update (stampOf requests) e none := by
  funext e'
  rw [stampOf_modify fun _ => rfl, Function.update_apply]
  split
  · cases requests.find (·.eventId == e) <;> rfl
  · rfl

theorem stampOf_leased {s : Db} {q : LeadRequest} (hq : q ∈ s.leadRequests.rows)
    (now : Timestamp) : stampOf (s.lease now q.eventId).leadRequests =
      Function.update (stampOf s.leadRequests) q.eventId (some now) := by
  funext e
  rw [Db.lease, stampOf_modify fun _ => rfl, Function.update_apply]
  split
  · rw [find_queued hq]
    rfl
  · rfl

/-- No arm moves a stamp. -/
theorem stampOf_armRequests (requestId : Uuid → Uuid) (es : List Uuid) :
    stampOf (armRequests requestId es requests) = stampOf requests := by
  funext e
  obtain ⟨image, born, hrows, himage, hborn⟩ := armRequests_rows requestId es requests
  have hsame : ∀ q, (image q).eventId = q.eventId ∧ (image q).claimedAt = q.claimedAt := by
    intro q
    rcases himage q with h | h <;> rw [h]
    · exact ⟨rfl, rfl⟩
    · exact ⟨rfl, rfl⟩
  have hmap : (requests.rows.map image).find? (·.eventId == e) =
      (requests.rows.find? (·.eventId == e)).map image := by
    have hcomp : (fun q : LeadRequest => q.eventId == e) ∘ image = fun q => q.eventId == e :=
      funext fun q => by simp [(hsame q).1]
    rw [List.find?_map, hcomp]
  simp only [stampOf, Table.find, hrows, List.find?_append, hmap]
  cases requests.rows.find? (·.eventId == e) with
  | some q => simp [(hsame q).2]
  | none =>
    cases hfind : born.find? (·.eventId == e) with
    | none => rfl
    | some q => exact (hborn q (List.mem_of_find?_eq_some hfind)).1

end stamps

section refinement

variable {ι : Type} [DecidableEq ι]

def Act.clock : Act ι → Option Timestamp
  | .turn _ tick => some tick.now
  | .verb _ | .createRule _ _ | .patchRule _ _ _ | .runDueLeadRequests _ _
  | .runRequestOfEvent _ _ _ | .crash _ => none

theorem claimed_of_place {a a' : Agent} (h : a'.place = a.place ∨ a'.place = none) :
    a.claimed a' = none := by
  rw [Agent.claimed]
  split
  · next hnone =>
    rcases h with h | h
    · rw [h, Option.isNone_iff_eq_none.mp hnone]
      rfl
    · rw [h]
      rfl
  · rfl

theorem after_place (origin : Origin) (caps : Caps) (e : Uuid) (reason : Option String)
    (summary : LeadRunSummary) : (origin.after caps e reason summary).place = none := by
  cases origin <;> rfl

theorem enter_place {w : World ι} {i : ι} {a : Agent} (ha : a.place = none) (j : ι) :
    ((w.enter i a).agents j).place = (w.agents j).place := by
  simp only [World.enter]
  split
  · rfl
  · next hrunning =>
    by_cases hj : j = i
    · subst hj
      rw [World.setAgent_self, ha]
      cases h : w.agents j with
      | idle | returned | patched => rfl
      | running | patching => simp [h, Agent.isRunning] at hrunning
    · rw [World.setAgent_of_ne hj]

theorem leases_enter {o o' : Leased ι} {i : ι} {a : Agent} (hworld : o'.world = o.world.enter i a)
    (hstamp : o'.stamp = o.stamp) (hnewest : o'.newest = o.newest) (ha : a.place = none) :
    o'.leases = o.leases := by
  simp only [Leased.leases, hworld, hstamp, hnewest, enter_db, enter_place ha]

/-- A step that claims nothing leaves the leases but for the stamps and its own hold. -/
theorem leases_turn {o : Leased ι} {i : ι} {tick : Tick}
    (hclaimed : (o.world.agents i).claimed ((o.world.agents i).turn tick o.world.db).agent = none) :
    (o.next (.turn i tick)).leases =
      { o.leases with
        stamp := stampOf ((o.world.agents i).turn tick o.world.db).db.leadRequests
        held := Function.update o.leases.held i
          ((((o.world.agents i).turn tick o.world.db).agent.place).map (fun p => (p.2, o.stamp i))) }
    := by
  simp only [Leased.next, Leased.leases, World.next, World.setAgent_self, hclaimed]
  congr 1
  funext j
  by_cases hj : j = i
  · subst hj
    simp
  · simp [hj, World.setAgent_of_ne hj]

theorem leases_crash (o : Leased ι) (i : ι) : (o.next (.crash i)).leases = o.leases.drop i := by
  simp only [Leased.next, Leased.leases, World.next, Leases.State.drop]
  congr 1
  funext j
  by_cases hj : j = i
  · subst hj
    simp [Agent.place]
  · simp [hj, World.setAgent_of_ne hj]

/-- A claim stamps its event and holds it with its own stamp. -/
theorem leases_claim {o : Leased ι} {i : ι} {tick : Tick} {q : LeadRequest} {origin : Origin}
    (row : q ∈ o.world.db.leadRequests.rows)
    (db : ((o.world.agents i).turn tick o.world.db).db = o.world.db.lease tick.now q.eventId)
    (before : (o.world.agents i).place = none)
    (hplace : ((o.world.agents i).turn tick o.world.db).agent.place = some (origin, q.eventId)) :
    (o.next (.turn i tick)).leases = o.leases.claim i q.eventId tick.now := by
  have hclaimed : (o.world.agents i).claimed ((o.world.agents i).turn tick o.world.db).agent =
      some q.eventId := by
    simp [Agent.claimed, before, hplace]
  simp only [Leased.next, Leased.leases, World.next, World.setAgent_self, hclaimed,
    Leases.State.claim, db]
  congr 1
  · exact stampOf_leased row tick.now
  · funext j
    by_cases hj : j = i
    · subst hj
      simp [hplace]
    · simp [hj, World.setAgent_of_ne hj]
  · funext e
    by_cases he : e = q.eventId
    · subst he
      simp
    · simp [Function.update_of_ne he, Ne.symm he]

/-- Every step of the world is a step of its leases, whose releases are the finishes. -/
theorem leases_step {allowed : ι → Uuid → Prop} (o : Leased ι) (a : Act ι)
    (hallowed : ∀ i tick caps origin e reason summary, a = .turn i tick →
      o.world.agents i = .running caps (.walk origin e (.finish reason)) summary →
      ((o.world.agents i).turn tick o.world.db).agent =
        origin.after caps e reason (summary.finished reason) → allowed i e) :
    Leases.Step lease a.clock allowed o.leases (o.next a).leases := by
  have hstay : ∀ {o' : Leased ι}, o'.leases = o.leases →
      Leases.Step lease a.clock allowed o.leases o'.leases := fun h => h ▸ .stay
  cases a with
  | verb c =>
    refine hstay ?_
    have hstamp : stampOf (o.world.db.next c).leadRequests = stampOf o.world.db.leadRequests := by
      rcases next_requests c o.world.db with ⟨rows, heq⟩ | heq
      · rw [heq]
        rfl
      · rw [heq, stampOf_armRequests]
    simp only [Leased.leases, Leased.next, World.next, hstamp]
  | createRule env cmd =>
    refine hstay ?_
    have hstamp : stampOf (Db.withRule env cmd o.world.db).leadRequests =
        stampOf o.world.db.leadRequests := by
      rcases withRule_cases env cmd o.world.db with ⟨rows, heq⟩ | ⟨t, rows, hcreated, heq⟩
      · rw [heq]
        rfl
      · rw [heq, audited_leadRequests, hcreated.requests, stampOf_armRequests]
    simp only [Leased.leases, Leased.next, World.next, hstamp]
  | patchRule i env patch | runDueLeadRequests i caps | runRequestOfEvent i caps e =>
    refine hstay ?_
    simp only [Leased.next]
    split <;> exact leases_enter rfl rfl rfl rfl
  | crash i =>
    rw [leases_crash]
    exact .drop i
  | turn i tick =>
    cases queue_step (o.world.agents i) tick o.world.db with
    | quiet requests place =>
      obtain ⟨requestId, es, hrequests⟩ := requests
      rw [leases_turn (claimed_of_place place), hrequests, stampOf_armRequests]
      rcases place with hplace | hplace
      · have heq : Function.update o.leases.held i
            (((o.world.agents i).turn tick o.world.db).agent.place.map (fun p => (p.2, o.stamp i))) =
            o.leases.held := by
          rw [hplace]
          exact Function.update_eq_self i o.leases.held
        rw [heq]
        exact .stay
      · rw [hplace]
        exact .drop i
    | @finished caps origin e reason summary agent requests after =>
      have hplace : ((o.world.agents i).turn tick o.world.db).agent.place = none := by
        rw [after]
        exact after_place origin caps e reason _
      have hheld : o.leases.held i = some (e, o.stamp i) := by
        simp [Leased.leases, agent, Agent.place]
      rw [leases_turn (claimed_of_place (.inr hplace)), hplace, requests, stampOf_finished]
      exact .release hheld (hallowed i tick caps origin e reason summary rfl agent after)
    | @leased q row free db place before =>
      have hplace : ∃ origin, ((o.world.agents i).turn tick o.world.db).agent.place =
          some (origin, q.eventId) := by
        rcases place with ⟨parked, -, -, h⟩ | ⟨-, h⟩
        · exact ⟨_, h⟩
        · exact ⟨_, h⟩
      obtain ⟨origin, hplace⟩ := hplace
      have hfree : o.leases.Free lease tick.now q.eventId := by
        intro t ht
        have hstamp : q.claimedAt = some t := (stampOf_stored row).symm.trans ht
        have hexpired : t < tick.now - lease := by simpa [LeadRequest.leasable, hstamp] using free
        exact Int.add_lt_of_lt_sub_right hexpired
      rw [leases_claim row db before hplace]
      exact .claim rfl (by simp [Leased.leases, before]) hfree

end refinement

section passes

variable {s : Db} {tick : Tick} {a : Agent} {parked : List Uuid}

/-- An officer run up to its refusal. -/
def Agent.refusing : Agent → Bool
  | .running _ (.lease _) _ | .running _ (.refuse _) _ => true
  | .returned (.error (.leadRequestBusy _)) => true
  | .running _ (.claim _) _ | .running _ (.walk _ _ _) _ => false
  | .idle | .returned _ | .patching _ _ _ | .patched _ => false

variable (s tick) in
/-- The failures of a walk are failures of its statements. -/
theorem stage_not_refusing (caps : Caps) (origin : Origin) (e : Uuid) (summary : LeadRunSummary)
    (stage : Stage) : (stage.turn caps origin e tick summary s).agent.refusing = false := by
  cases stage with
  | readRules | readPredicates | setLead => rfl
  | create | update => simp only [Stage.turn]; split <;> rfl
  | members =>
    simp only [Stage.turn]
    split
    · split <;> rfl
    · rfl
  | readEligible =>
    simp only [Stage.turn, eligibleRegistrations]
    split
    · next hread =>
      split at hread
      · obtain rfl := Except.error.inj hread
        rfl
      · cases hread
    · rfl
  | upsert =>
    simp only [Stage.turn, upsertProvenance]
    split
    · next hupsert =>
      split at hupsert
      · cases hupsert
      · split at hupsert
        · cases hupsert
        · obtain rfl := Except.error.inj hupsert
          rfl
    · rfl
  | junction =>
    simp only [Stage.turn, junctionAdd]
    split
    · next hadd =>
      split at hadd
      · obtain rfl := Except.error.inj hadd
        rfl
      · cases hadd
    · rfl
  | finish =>
    simp only [Stage.turn, finishRequestByEvent]
    split
    · next hfinish =>
      split at hfinish
      · cases hfinish
      · obtain rfl := Except.error.inj hfinish
        rfl
    · cases origin <;> rfl

/-- What leads to a refusal writes nothing. -/
theorem turn_refusing (h : (a.turn tick s).agent.refusing = true) :
    a.refusing = true ∧ (a.turn tick s).db = s := by
  cases a with
  | idle | returned | patched => exact ⟨h, rfl⟩
  | patching env patch stage =>
    cases stage with
    | update => simp only [Agent.turn, Patching.turn] at h; split at h <;> cases h
    | arm | audit => cases h
  | running caps point summary =>
    cases point with
    | refuse => exact ⟨rfl, rfl⟩
    | claim parked =>
      simp only [Agent.turn, Point.turn] at h
      split at h
      · cases h
      · split at h <;> cases h
    | lease e =>
      refine ⟨rfl, ?_⟩
      simp only [Agent.turn, Point.turn] at h ⊢
      rcases tryLeaseRequestOfEvent_cases e tick.now s with ⟨-, heq⟩ | ⟨q, -, -, -, heq⟩
      · rw [heq]
      · rw [heq] at h
        cases h
    | walk origin e stage =>
      have hnot := stage_not_refusing s tick caps origin e summary stage
      rw [show (stage.turn caps origin e tick summary s).agent.refusing = true from h] at hnot
      cases hnot

/-- The events a pass has parked are kept out of its claims. -/
structure Recalls (a : Agent) (parked : List Uuid) : Prop where
  claims : ∀ own, a.claims = some own → ∀ x ∈ parked, x ∈ own
  place : ∀ origin e, a.place = some (origin, e) →
    e ∉ parked ∧ ∀ own, origin = .cron own → ∀ x ∈ parked, x ∈ own
  refusing : a.refusing = true → parked = []

theorem recalls_nil (a : Agent) : Recalls a [] where
  claims := by simp
  place := by simp
  refusing _ := rfl

theorem Recalls.idle (parked : List Uuid) : Recalls .idle parked where
  claims := by simp [Agent.claims]
  place := by simp [Agent.place]
  refusing h := by cases h

theorem parks_of_claims {a' : Agent} (h : a'.claims = none) : a.parks a' = none := by
  simp only [Agent.parks, h]
  split <;> rfl

theorem claims_of_place {p : Origin × Uuid} (h : a.place = some p) : a.claims = none := by
  cases a with
  | idle | returned | patching | patched => rfl
  | running caps point summary =>
    cases point with
    | claim => simp [Agent.place] at h
    | lease | refuse | walk => rfl

/-- An officer's walk starts at its lease. -/
theorem refusing_of_officer {e : Uuid} (hplace : a.place = none)
    (h : (a.turn tick s).agent.place = some (.officer, e)) : a.refusing = true := by
  cases a with
  | idle | returned | patched => cases h
  | patching env patch stage =>
    cases stage with
    | update => simp only [Agent.turn, Patching.turn] at h; split at h <;> cases h
    | arm | audit => cases h
  | running caps point summary =>
    cases point with
    | lease | refuse => rfl
    | walk => cases hplace
    | claim own =>
      simp only [Agent.turn, Point.turn] at h
      split at h
      · cases h
      · split at h
        · cases h
        · simp [Agent.place] at h

theorem Recalls.turn (h : Recalls a parked) :
    Recalls (a.turn tick s).agent (parked ++ (a.parks (a.turn tick s).agent).toList) := by
  have hrefusing : (a.turn tick s).agent.refusing = true → parked = [] :=
    fun hr => h.refusing (turn_refusing hr).1
  cases queue_step a tick s with
  | quiet requests place claims =>
    rw [parks_of_claims claims, Option.toList_none, List.append_nil]
    refine ⟨fun own hown => ?_, fun origin e hplace => ?_, hrefusing⟩
    · rw [claims] at hown
      cases hown
    · rcases place with hsame | hnone
      · exact h.place origin e (hsame.symm.trans hplace)
      · rw [hnone] at hplace
        cases hplace
  | @leased q row free db place before =>
    rcases place with ⟨own, hclaims, hfree, hplace⟩ | ⟨hclaims, hplace⟩
    · have hnone := claims_of_place hplace
      rw [parks_of_claims hnone, Option.toList_none, List.append_nil]
      refine ⟨fun own' hown => ?_, fun origin e hplace' => ?_, hrefusing⟩
      · rw [hnone] at hown
        cases hown
      · obtain ⟨rfl, rfl⟩ := Prod.mk.inj (Option.some.inj (hplace.symm.trans hplace'))
        refine ⟨fun hmem => hfree (h.claims own hclaims _ hmem), fun own' heq => ?_⟩
        obtain rfl := Origin.cron.inj heq
        exact h.claims own hclaims
    · have hnone := claims_of_place hplace
      rw [parks_of_claims hnone, h.refusing (refusing_of_officer before hplace)]
      exact recalls_nil _
  | @finished caps origin e reason summary agent requests after =>
    obtain ⟨-, hown⟩ := h.place origin e (by rw [agent]; rfl)
    rw [after] at hrefusing ⊢
    subst agent
    cases origin with
    | officer =>
      refine ⟨fun own hclaims => ?_, fun origin e hplace => ?_, fun hr => ?_⟩
      · cases hclaims
      · cases hplace
      · cases hr
    | cron own =>
      refine ⟨fun own' hclaims x hx => ?_, fun origin e hplace => ?_, fun hr => ?_⟩
      · obtain rfl := Option.some.inj hclaims
        cases reason with
        | none =>
          have hx' : x ∈ parked := by simpa [Agent.parks] using hx
          simpa using hown own rfl x hx'
        | some reason =>
          have hx' : x ∈ parked ∨ x = e := by simpa [Agent.parks, Origin.after, Agent.claims] using hx
          rcases hx' with hx' | rfl
          · simp [hown own rfl x hx']
          · simp
      · cases hplace
      · cases hr

end passes

section exclusion

variable {ι : Type} [DecidableEq ι]

structure Leased.Inv (o : Leased ι) : Prop where
  sole : Leases.Sole o.leases
  recalls : ∀ i, Recalls (o.world.agents i) (o.parked i)
  untouched : ∀ i, (o.world.agents i).refusing = true → o.touched i = false

omit [DecidableEq ι] in
theorem held_of_walks {o : Leased ι} {i : ι} {e : Uuid} (h : (o.world.agents i).walks e = true) :
    o.leases.held i = some (e, o.stamp i) := by
  obtain ⟨origin, hplace⟩ := walks_iff.mp h
  simp [Leased.leases, hplace]

omit [DecidableEq ι] in
theorem Leased.Inv.exclusive {o : Leased ι} (h : o.Inv) : o.Exclusive where
  one e i j hi hj := h.sole.eq (held_of_walks hi) (held_of_walks hj)
  unparked e i hi := by
    obtain ⟨origin, hplace⟩ := walks_iff.mp hi
    exact ((h.recalls i).place origin e hplace).1
  unchanged e i hi := h.untouched i (by rw [hi]; rfl)

omit [DecidableEq ι] in
theorem leased_start (s : Db) : (Leased.start s : Leased ι).Inv where
  sole i k t h := by cases h
  recalls i := .idle []
  untouched i h := by cases h

omit [DecidableEq ι] in
theorem Leased.Punctual.leases {o : Leased ι} {a : Act ι} (h : o.Punctual a) :
    ∀ now ∈ a.clock, o.leases.Punctual lease now := by
  intro now hnow i k t hheld
  cases a with
  | turn j tick =>
    obtain rfl := Option.some.inj hnow
    simp only [Leased.leases, Option.map_eq_some_iff] at hheld
    obtain ⟨p, hplace, hpair⟩ := hheld
    obtain ⟨-, rfl⟩ := Prod.mk.inj hpair
    exact h i (by rw [hplace]; rfl)
  | verb | createRule | patchRule | runDueLeadRequests | runRequestOfEvent | crash => cases hnow

theorem enter_recalls {w : World ι} {i : ι} {a : Agent} {parked : ι → List Uuid}
    (h : ∀ j, Recalls (w.agents j) (parked j)) (hrunning : ¬ (w.agents i).isRunning = true) (j : ι) :
    Recalls ((w.enter i a).agents j) (Function.update parked i [] j) := by
  by_cases hj : j = i
  · subst hj
    rw [Function.update_self]
    exact recalls_nil _
  · rw [World.enter, if_neg hrunning, World.setAgent_of_ne hj, Function.update_of_ne hj]
    exact h j

theorem enter_untouched {w : World ι} {i : ι} {a : Agent} {touched : ι → Bool}
    (h : ∀ j, (w.agents j).refusing = true → touched j = false)
    (hrunning : ¬ (w.agents i).isRunning = true) (j : ι)
    (hr : ((w.enter i a).agents j).refusing = true) : Function.update touched i false j = false := by
  by_cases hj : j = i
  · subst hj
    exact Function.update_self ..
  · rw [World.enter, if_neg hrunning, World.setAgent_of_ne hj] at hr
    rw [Function.update_of_ne hj]
    exact h j hr

theorem Leased.Inv.next {o : Leased ι} (h : o.Inv) {a : Act ι} (hpunctual : o.Punctual a) :
    (o.next a).Inv := by
  have hsole : Leases.Sole (o.next a).leases :=
    h.sole.step (leases_step o a fun _ _ _ _ _ _ _ _ _ _ => trivial) hpunctual.leases
  cases a with
  | verb | createRule => exact ⟨hsole, h.recalls, h.untouched⟩
  | patchRule i env patch | runDueLeadRequests i caps | runRequestOfEvent i caps e =>
    cases hrunning : (o.world.agents i).isRunning with
    | true =>
      refine ⟨hsole, fun j => ?_, fun j => ?_⟩ <;>
        simp only [Leased.next, World.next, World.enter, hrunning, if_true]
      · exact h.recalls j
      · exact h.untouched j
    | false =>
      have hrunning' : ¬ (o.world.agents i).isRunning = true := by simp [hrunning]
      refine ⟨hsole, fun j => ?_, fun j => ?_⟩ <;>
        simp only [Leased.next, World.next, if_neg hrunning']
      · exact enter_recalls h.recalls hrunning' j
      · exact enter_untouched h.untouched hrunning' j
  | crash i =>
    refine ⟨hsole, fun j => ?_, fun j hr => ?_⟩
    · by_cases hj : j = i
      · subst hj
        simp only [Leased.next, World.next, World.setAgent_self]
        exact .idle _
      · simpa [Leased.next, World.next, World.setAgent_of_ne hj] using h.recalls j
    · by_cases hj : j = i
      · subst hj
        simp [Leased.next, World.next, Agent.refusing] at hr
      · simp only [Leased.next, World.next, World.setAgent_of_ne hj] at hr
        exact h.untouched j hr
  | turn i tick =>
    refine ⟨hsole, fun j => ?_, fun j hr => ?_⟩
    · by_cases hj : j = i
      · subst hj
        simp only [Leased.next, World.next, World.setAgent_self, Function.update_self]
        exact (h.recalls j).turn
      · simpa [Leased.next, World.next, World.setAgent_of_ne hj, hj] using h.recalls j
    · by_cases hj : j = i
      · subst hj
        simp only [Leased.next, World.next, World.setAgent_self] at hr
        obtain ⟨hbefore, hsame⟩ := turn_refusing hr
        simp [Leased.next, World.next, hsame, h.untouched j hbefore]
      · simp only [Leased.next, World.next, World.setAgent_of_ne hj] at hr
        simpa [Leased.next, hj] using h.untouched j hr

/-- While no walk outlives its lease, the leases exclude. -/
theorem leases_exclusive (s : Db) (acts : List (Act ι))
    (h : Along Leased.next Leased.Punctual (Leased.start s) acts) :
    Throughout Leased.next Leased.Exclusive (Leased.start s) acts :=
  (h.throughout (leased_start s) fun _ _ hinv hpunctual => hinv.next hpunctual).mono
    fun _ hinv => hinv.exclusive

end exclusion

section samples

instance {ι : Type} [DecidableEq ι] [Fintype ι] (o : Leased ι) : (a : Act ι) → Decidable (o.Punctual a)
  | .turn _ tick =>
    inferInstanceAs (Decidable (∀ i, (o.world.agents i).place.isSome → tick.now < o.stamp i + lease))
  | .verb _ | .createRule _ _ | .patchRule _ _ _ | .runDueLeadRequests _ _
  | .runRequestOfEvent _ _ _ | .crash _ => isTrue trivial

/-- The sink's steps at a given time. -/
def Tick.at (now : Timestamp) : Tick := { Tick.accepting with now := now }

/-- A cron pass, and an officer's run of the same event while the pass walks it. -/
theorem leases_exclusive_busy : Throughout Leased.next Leased.Exclusive (Leased.start openGig)
    ([.createRule ⟨1, id, id⟩ everyGuest, .verb (.register (.counting 1) ann),
      .runDueLeadRequests 0 defaultCaps, .turn 0 (.at 0), .runRequestOfEvent (1 : Fin 2) defaultCaps 1,
      .turn 1 (.at 60), .turn 1 (.at 60)] ++ List.replicate 9 (.turn 0 (.at 120))) :=
  leases_exclusive openGig _ (by decide)

end samples

end BackboneEvents.LeadGeneration
