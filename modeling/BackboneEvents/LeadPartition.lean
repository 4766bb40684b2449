import BackboneEvents.LeadQueue

/-!
# The groups of a rule's leads

The junctions of a rule partition its registrations by their own keys, over every run of
walkers that crash, overlap and repeat each other. The two unique keys and the columns that
no verb changes carry it, not the leases.
-/
namespace BackboneEvents.LeadGeneration
open ConstrainedTables GuardedRuns

/-- The group of a registration under every rule: its order, else its event and day. -/
def ownKey (r : Registration) : String := (groupOf r.eventId r.seen).2

/-- Every junction is of a stored registration, in a stored provenance under its own key. -/
def OwnKeyed (s : Db) : Prop :=
  ∀ j ∈ s.leadProvenanceRegistrations.rows, ∃ p ∈ s.leadProvenances.rows, p.id = j.provenanceId ∧
    ∃ r ∈ s.registrations.rows, r.id = j.registrationId ∧ p.groupKey = ownKey r

structure Partition (s : Db) : Prop where
  oneProvenance : ∀ p ∈ s.leadProvenances.rows, ∀ q ∈ s.leadProvenances.rows,
    p.ruleId = q.ruleId → p.groupKey = q.groupKey → p = q
  oneGroup : ∀ j ∈ s.leadProvenanceRegistrations.rows, ∀ j' ∈ s.leadProvenanceRegistrations.rows,
    ∀ p ∈ s.leadProvenances.rows, ∀ q ∈ s.leadProvenances.rows,
      j.registrationId = j'.registrationId → p.id = j.provenanceId → q.id = j'.provenanceId →
        p.ruleId = q.ruleId → p = q
  keyed : OwnKeyed s

/-- Every provenance keeps its rule and key, and every junction stays. -/
structure NothingLost (s t : Db) : Prop where
  provenances : ∀ p ∈ s.leadProvenances.rows, ∃ p' ∈ t.leadProvenances.rows,
    p'.id = p.id ∧ p'.ruleId = p.ruleId ∧ p'.eventId = p.eventId ∧ p'.groupKey = p.groupKey
  junctions : ∀ j ∈ s.leadProvenanceRegistrations.rows, j ∈ t.leadProvenanceRegistrations.rows

theorem provenance_unique {s : Db} {p q : LeadProvenance} (hp : p ∈ s.leadProvenances.rows)
    (hq : q ∈ s.leadProvenances.rows) (h : p.id = q.id) : p = q :=
  Table.eq_of_clash hp hq (by simp [clash, h])

theorem OwnKeyed.partition {s : Db} (h : OwnKeyed s) : Partition s where
  oneProvenance p hp q hq hrule hkey := Table.eq_of_clash hp hq (by simp [clash, hrule, hkey])
  oneGroup j hj j' hj' p hp q hq hsame hpj hqj hrule := by
    obtain ⟨p', hp', hid, r, hr, hrid, hkey⟩ := h j hj
    obtain ⟨q', hq', hid', r', hr', hrid', hkey'⟩ := h j' hj'
    obtain rfl := provenance_unique hp hp' (hpj.trans hid.symm)
    obtain rfl := provenance_unique hq hq' (hqj.trans hid'.symm)
    have hreg : r = r' :=
      Table.eq_of_clash hr hr' (by simp [clash, hrid.trans (hsame.trans hrid'.symm)])
    have hkeys : p.groupKey = q.groupKey := by rw [hkey, hkey', hreg]
    exact Table.eq_of_clash hp hq (by simp [clash, hrule, hkeys])
  keyed := h

theorem ownKey_same {r r' : Registration} (h : SameTicket r r') : ownKey r' = ownKey r := by
  simp [ownKey, groupOf, Registration.seen, h.eventId, h.saleOrderId, h.createdAt]

theorem Kept.nothingLost {s t : Db} (h : Kept s t) : NothingLost s t where
  provenances p hp := by
    obtain ⟨leadId, hp'⟩ := h.provenances p ⟨p.leadId, hp⟩
    exact ⟨_, hp', rfl, rfl, rfl, rfl⟩
  junctions := h.junctions

/-- The junctions of a step are old ones, or meet the law themselves. -/
theorem OwnKeyed.step {s t : Db} (h : OwnKeyed s) (hkept : Kept s t)
    (hnew : ∀ j ∈ t.leadProvenanceRegistrations.rows, j ∈ s.leadProvenanceRegistrations.rows ∨
      ∃ p ∈ s.leadProvenances.rows, p.id = j.provenanceId ∧
        ∃ r ∈ s.registrations.rows, r.id = j.registrationId ∧ p.groupKey = ownKey r) : OwnKeyed t := by
  intro j hj
  have hbefore : ∃ p ∈ s.leadProvenances.rows, p.id = j.provenanceId ∧
      ∃ r ∈ s.registrations.rows, r.id = j.registrationId ∧ p.groupKey = ownKey r := by
    rcases hnew j hj with hold | hown
    · exact h j hold
    · exact hown
  obtain ⟨p, hp, hid, r, hr, hrid, hkey⟩ := hbefore
  obtain ⟨p', hp', hid', -, -, hkey'⟩ := hkept.nothingLost.provenances p hp
  obtain ⟨r', hr', hsame⟩ := hkept.registrations r hr
  exact ⟨p', hp', hid'.trans hid, r', hr', hsame.id.trans hrid,
    hkey'.trans (hkey.trans (ownKey_same hsame).symm)⟩

section turn

variable {s : Db} {tick : Tick}

/-- A walk junctions the members of its group under their own key. -/
theorem stage_junctions {caps : Caps} {origin : Origin} {eventId : Uuid} {summary : LeadRunSummary}
    {stage : Stage} (hsound : StageSound s eventId stage) :
    ∀ j ∈ (stage.turn caps origin eventId tick summary s).db.leadProvenanceRegistrations.rows,
      j ∈ s.leadProvenanceRegistrations.rows ∨
      ∃ p ∈ s.leadProvenances.rows, p.id = j.provenanceId ∧
        ∃ r ∈ s.registrations.rows, r.id = j.registrationId ∧ p.groupKey = ownKey r := by
  intro j hj
  cases stage with
  | readRules | readPredicates | setLead => exact .inl hj
  | readEligible | create | update =>
    simp only [Stage.turn] at hj
    split at hj <;> exact .inl hj
  | members =>
    simp only [Stage.turn] at hj
    split at hj
    · split at hj <;> exact .inl hj
    · exact .inl hj
  | finish =>
    simp only [Stage.turn, finishRequestByEvent] at hj
    split at hj
    · exact .inl hj
    · next hfinish =>
      split at hfinish
      · obtain rfl := Except.ok.inj hfinish
        exact .inl hj
      · cases hfinish
  | upsert =>
    simp only [Stage.turn] at hj
    split at hj
    · exact .inl hj
    · next hupsert =>
      rcases upsertProvenance_ok hupsert with ⟨rfl, -⟩ | ⟨-, -, -, rfl⟩
      · exact .inl hj
      · exact .inl hj
  | junction k provenanceId newIds grown =>
    simp only [Stage.turn] at hj
    split at hj
    · exact .inl hj
    · next hadd =>
      obtain ⟨table, rfl, hsome⟩ := junctionAdd_ok hadd
      obtain ⟨added, hrows, hadded⟩ := (addJunctions_some hsome).1
      rw [hrows] at hj
      rcases List.mem_append.mp hj with hold | hnew
      · exact .inl hold
      obtain ⟨hprovenance, hid⟩ := hadded j hnew
      obtain ⟨p, hp, hpid, -, hkey⟩ := hsound.belongs
      obtain ⟨m, hm, hmid⟩ := (hsound.newIds newIds rfl).ofMembers _ hid
      obtain ⟨⟨r, hr, hevent, hrid, horder, hcreated⟩, hgroup⟩ :=
        hsound.batch.members k.group List.mem_cons_self m hm
      refine .inr ⟨p, hp, hpid.trans hprovenance.symm, r, hr, hrid.trans hmid, ?_⟩
      have hsame : groupOf r.eventId r.seen = groupOf eventId m := by
        simp [groupOf, Registration.seen, hevent, horder, hcreated]
      rw [hkey, ownKey, hsame, hgroup]

theorem turn_junctions {a : Agent} (hsound : AgentSound s a) :
    ∀ j ∈ (a.turn tick s).db.leadProvenanceRegistrations.rows,
      j ∈ s.leadProvenanceRegistrations.rows ∨
      ∃ p ∈ s.leadProvenances.rows, p.id = j.provenanceId ∧
        ∃ r ∈ s.registrations.rows, r.id = j.registrationId ∧ p.groupKey = ownKey r := by
  intro j hj
  cases a with
  | idle | returned | patched => exact .inl hj
  | patching env patch stage =>
    cases stage with
    | update =>
      simp only [Agent.turn, Patching.turn] at hj
      split at hj
      · exact .inl hj
      · next hupdate =>
        obtain ⟨rfl, -⟩ := updateRule_ok hupdate
        exact .inl hj
    | arm | audit => exact .inl hj
  | running caps point summary =>
    cases point with
    | claim parked =>
      simp only [Agent.turn, Point.turn] at hj
      split at hj
      · exact .inl hj
      · rcases claimNextDueRequest_cases parked tick.now tick.locked s with heq | ⟨q, -, -, heq⟩ <;>
          rw [heq] at hj <;> exact .inl hj
    | lease e =>
      simp only [Agent.turn, Point.turn] at hj
      rcases tryLeaseRequestOfEvent_cases e tick.now s with ⟨-, heq⟩ | ⟨q, -, -, -, heq⟩ <;>
        rw [heq] at hj <;> exact .inl hj
    | refuse => exact .inl hj
    | walk origin eventId stage => exact stage_junctions hsound j hj

end turn

section runs

variable {ι : Type} [DecidableEq ι]

theorem OwnKeyed.next {w : World ι} (h : OwnKeyed w.db) (hsound : w.Sound) (a : Act ι) :
    OwnKeyed (w.next a).db := by
  refine h.step (world_kept w a) fun j hj => ?_
  cases a with
  | verb c =>
    obtain ⟨t, rows, heffect, happly⟩ := c.apply_effect w.db
    have hsame : (w.db.next c).leadProvenanceRegistrations = w.db.leadProvenanceRegistrations := by
      rw [Db.next, happly]
      exact (effect_lead heffect).2.2.2.2.2
    exact .inl (hsame ▸ hj)
  | createRule env cmd =>
    have hsame : (Db.withRule env cmd w.db).leadProvenanceRegistrations =
        w.db.leadProvenanceRegistrations := by
      rcases withRule_cases env cmd w.db with ⟨rows, heq⟩ | ⟨t, rows, hcreated, heq⟩
      · rw [heq]
        rfl
      · rw [heq]
        exact hcreated.junctions
    exact .inl (hsame ▸ hj)
  | patchRule | runDueLeadRequests | runRequestOfEvent =>
    simp only [World.next, enter_db] at hj
    exact .inl hj
  | crash => exact .inl hj
  | turn i tick => exact turn_junctions (hsound i) j hj

/-- In every run from a partitioned database every state is partitioned, and no provenance
and no junction is ever lost. -/
theorem partition_kept (s : Db) (acts : List (Act ι)) (h : Partition s) :
    Throughout World.next (fun w : World ι => Partition w.db) (World.start s) acts ∧
      Steadily World.next (fun w w' : World ι => NothingLost w.db w'.db) (World.start s) acts := by
  constructor
  · have hinv : Throughout World.next (fun w : World ι => OwnKeyed w.db ∧ w.Sound) (World.start s)
        acts :=
      throughout_of_step ⟨h.keyed, sound_start s⟩ fun w a hw => ⟨hw.1.next hw.2 a, hw.2.next a⟩
    exact hinv.mono fun w hw => hw.1.partition
  · have hkept : Steadily World.next (fun w w' : World ι => Kept w.db w'.db) (World.start s) acts :=
      steadily_of_step (fun w => .refl w.db) (fun _ _ _ hab hbc => hab.trans hbc) world_kept
    exact fun before middle after hsplit => (hkept before middle after hsplit).nothingLost

/-- Two passes of one event: the first crashes after its junction, and its lease expires. -/
theorem partition_kept_crash :
    Throughout World.next (fun w : World (Fin 2) => Partition w.db) (World.start openGig)
      ([.createRule ⟨1, id, id⟩ everyGuest, .verb (.register (.counting 1) ann),
        .runDueLeadRequests 0 defaultCaps] ++ List.replicate 8 (.turn 0 .accepting) ++
        .crash 0 :: .runDueLeadRequests 1 defaultCaps ::
        List.replicate 6 (.turn 1 { Tick.accepting with now := lease + 1 })) ∧
    Steadily World.next (fun w w' : World (Fin 2) => NothingLost w.db w'.db) (World.start openGig)
      ([.createRule ⟨1, id, id⟩ everyGuest, .verb (.register (.counting 1) ann),
        .runDueLeadRequests 0 defaultCaps] ++ List.replicate 8 (.turn 0 .accepting) ++
        .crash 0 :: .runDueLeadRequests 1 defaultCaps ::
        List.replicate 6 (.turn 1 { Tick.accepting with now := lease + 1 })) :=
  partition_kept openGig _ (OwnKeyed.partition fun j hj => by cases hj)

end runs

end BackboneEvents.LeadGeneration
