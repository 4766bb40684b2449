import Mathlib.Data.List.Infix
import BackboneEvents.LeadRelinks
import BackboneEvents.LeadRuleCommandService

/-!
# Where a recorded lead comes from

The engine invents no lead. Whatever is asked of the lead side, however walks and merges
interleave and wherever walkers crash, the lead a provenance holds is one that the sink gave
out for its own rule and group, moved by every merge since it was recorded, and the sink is
asked to update only such leads.
-/
namespace BackboneEvents.LeadGeneration.LeadOrigins
open ConstrainedTables GuardedRuns LeadRuleCommandService

variable {ι : Type} [DecidableEq ι]

/-- What a merge makes of a lead. -/
def follow (leadId : Uuid) (merge : RelinkInput) : Uuid :=
  if leadId = merge.oldLeadId then merge.newLeadId else leadId

/-- The merges among the requests. -/
def mergesOf (requests : List (Request ι)) : List RelinkInput :=
  requests.filterMap fun
    | .relinkLead input _ => some input
    | _ => none

/-- The lead was recorded for the provenance at the start, or the sink answered a create of its
group with it. -/
def Given (s : Db) (w : World ι) (provenanceId leadId : Uuid) : Prop :=
  leadAt s provenanceId = some leadId ∨ ∃ group, SinkCall.created group (.ok leadId) ∈ w.calls ∧
    Belongs w.db provenanceId group.ruleId group.groupKey

/-- The lead is one given out for the provenance, moved by every merge since some moment. -/
def Stands (s : Db) (w : World ι) (merges : List RelinkInput) (provenanceId leadId : Uuid) : Prop :=
  ∃ given later, later <:+ merges ∧ Given s w provenanceId given ∧ later.foldl follow given = leadId

/-- It stood at some moment. -/
def Stood (s : Db) (w : World ι) (merges : List RelinkInput) (provenanceId leadId : Uuid) : Prop :=
  ∃ given between, between <:+: merges ∧ Given s w provenanceId given ∧
    between.foldl follow given = leadId

/-- Every lead recorded stands, and every lead shown to the sink for an update stood. -/
structure Traced (s : Db) (w : World ι) (merges : List RelinkInput) : Prop where
  recorded : ∀ p leadId, leadAt w.db p = some leadId → Stands s w merges p leadId
  updated : ∀ c ∈ w.calls, ∀ leadId, c.updates = some leadId →
    ∃ p, Belongs w.db p c.group.ruleId c.group.groupKey ∧ Stood s w merges p leadId

section moments

variable {s : Db} {w w' : World ι} {merges : List RelinkInput} {p leadId : Uuid}

omit [DecidableEq ι] in
theorem Given.mono (h : Given s w p leadId) (hkept : Kept w.db w'.db)
    (hcalls : ∀ c ∈ w.calls, c ∈ w'.calls) : Given s w' p leadId := by
  rcases h with hstart | ⟨group, hcall, hbelongs⟩
  · exact .inl hstart
  · exact .inr ⟨group, hcalls _ hcall, hbelongs.kept hkept⟩

omit [DecidableEq ι] in
theorem Stands.mono (h : Stands s w merges p leadId) (hkept : Kept w.db w'.db)
    (hcalls : ∀ c ∈ w.calls, c ∈ w'.calls) : Stands s w' merges p leadId := by
  obtain ⟨given, later, hlater, hgiven, hfollow⟩ := h
  exact ⟨given, later, hlater, hgiven.mono hkept hcalls, hfollow⟩

omit [DecidableEq ι] in
theorem Stood.mono {more : List RelinkInput} (h : Stood s w merges p leadId)
    (hkept : Kept w.db w'.db) (hcalls : ∀ c ∈ w.calls, c ∈ w'.calls) :
    Stood s w' (merges ++ more) p leadId := by
  obtain ⟨given, between, hbetween, hgiven, hfollow⟩ := h
  exact ⟨given, between, hbetween.trans (List.prefix_append _ _).isInfix, hgiven.mono hkept hcalls,
    hfollow⟩

omit [DecidableEq ι] in
theorem Stands.stood (h : Stands s w merges p leadId) : Stood s w merges p leadId := by
  obtain ⟨given, later, hlater, hgiven, hfollow⟩ := h
  exact ⟨given, later, hlater.isInfix, hgiven, hfollow⟩

omit [DecidableEq ι] in
theorem Stands.merged (h : Stands s w merges p leadId) (merge : RelinkInput) :
    Stands s w (merges ++ [merge]) p (follow leadId merge) := by
  obtain ⟨given, later, ⟨earlier, hsplit⟩, hgiven, hfollow⟩ := h
  refine ⟨given, later ++ [merge], ⟨earlier, ?_⟩, hgiven, ?_⟩
  · rw [← List.append_assoc, hsplit]
  · rw [List.foldl_append, hfollow]
    rfl

omit [DecidableEq ι] in
/-- What is given stands until the next merge. -/
theorem Given.stands (h : Given s w p leadId) : Stands s w merges p leadId :=
  ⟨leadId, [], List.nil_suffix, h, rfl⟩

/-- A merge moves each lead on. -/
theorem leadAt_merged (merge : RelinkInput) (actor : Option Uuid) :
    leadAt (LeadRuleCommandService.relinkLead merge actor s).2 p =
      (leadAt s p).map (follow · merge) := by
  rw [LeadRuleCommandService.relinkLead]
  split
  · next hself =>
    have hid : ∀ leadId, follow leadId merge = leadId := fun leadId => by
      rw [follow]
      split
      · next heq => rw [heq, beq_iff_eq.mp hself]
      · rfl
    simp [hid]
  · next hmerge =>
    have hne : merge.oldLeadId ≠ merge.newLeadId := by simpa using hmerge
    rw [leadAt, BackboneEvents.relinkLead, Table.find_modify fun _ => rfl, leadAt]
    cases s.leadProvenances.find (·.id == p) with
    | none => rfl
    | some q =>
      cases hlead : q.leadId with
      | none => simp [hlead]
      | some leadId =>
        by_cases hold : leadId = merge.oldLeadId
        · simp [hlead, hold, hne, follow, LeadProvenance.linked]
        · simp [hlead, hold, follow]

end moments

section runs

/-- What a run keeps: the leads are traced, those the agents carry included. -/
structure Inv (s : Db) (w : World ι) (merges : List RelinkInput) : Prop where
  sound : w.Sound
  named : ∀ i, GroupNamed (w.agents i)
  traced : Traced s w merges
  holding : ∀ i p leadId, (w.agents i).holding = some (p, leadId) → Given s w p leadId
  led : ∀ i p leadId, (w.agents i).led = some (p, leadId) → Stood s w merges p leadId

variable {s : Db} {w w' : World ι} {merges : List RelinkInput}

omit [DecidableEq ι] in
/-- A step that records no lead, calls no sink and gives no agent a lead it had not, or that was
not recorded. -/
theorem Inv.frame (h : Inv s w merges) (sound : w'.Sound) (named : ∀ i, GroupNamed (w'.agents i))
    (kept : Kept w.db w'.db) (leads : leadAt w'.db = leadAt w.db) (calls : w'.calls = w.calls)
    (holding : ∀ i p leadId, (w'.agents i).holding = some (p, leadId) →
      (w.agents i).holding = some (p, leadId))
    (led : ∀ i p leadId, (w'.agents i).led = some (p, leadId) →
      (w.agents i).led = some (p, leadId) ∨ leadAt w.db p = some leadId) : Inv s w' merges := by
  have hcalls : ∀ c ∈ w.calls, c ∈ w'.calls := fun c hc => calls ▸ hc
  have hstood : ∀ {p leadId}, Stood s w merges p leadId → Stood s w' merges p leadId :=
    fun hp => by simpa using @Stood.mono _ s w _ merges _ _ [] hp kept hcalls
  refine ⟨sound, named, ⟨fun p leadId hp => ?_, fun c hc leadId hlead => ?_⟩,
    fun i p leadId hi => (h.holding i p leadId (holding i p leadId hi)).mono kept hcalls,
    fun i p leadId hi => ?_⟩
  · rw [leads] at hp
    exact (h.traced.recorded p leadId hp).mono kept hcalls
  · obtain ⟨p, hbelongs, hp⟩ := h.traced.updated c (calls ▸ hc) leadId hlead
    exact ⟨p, hbelongs.kept kept, hstood hp⟩
  · rcases led i p leadId hi with hbefore | hrecorded
    · exact hstood (h.led i p leadId hbefore)
    · exact hstood (h.traced.recorded p leadId hrecorded).stood

theorem Inv.turn (h : Inv s w merges) (i : ι) (tick : Tick) :
    Inv s (w.next (.turn i tick)) merges := by
  have hkept := world_kept w (.turn i tick)
  have hsound := h.sound.next (.turn i tick)
  have hnamed : ∀ j, GroupNamed ((w.next (.turn i tick)).agents j) := next_named h.named
  have hcalls : ∀ c ∈ w.calls, c ∈ (w.next (.turn i tick)).calls := fun c hc => mem_turn_calls hc
  have hstood : ∀ {p leadId}, Stood s w merges p leadId →
      Stood s (w.next (.turn i tick)) merges p leadId :=
    fun hp => by simpa using @Stood.mono _ s w _ merges _ _ [] hp hkept hcalls
  have hagents : ∀ {β : Type} {f : Agent → Option β} {j : ι} {x : β},
      f ((w.next (.turn i tick)).agents j) = some x →
        f (w.agents j) = some x ∨ j = i ∧ f ((w.agents i).turn tick w.db).agent = some x := by
    intro β f j x hx
    by_cases hj : j = i
    · subst hj
      rw [next_turn_self] at hx
      exact .inr ⟨rfl, hx⟩
    · rw [next_turn_of_ne hj] at hx
      exact .inl hx
  have hrecorded : ∀ p leadId, leadAt w.db p = some leadId →
      Stands s (w.next (.turn i tick)) merges p leadId :=
    fun p leadId hp => (h.traced.recorded p leadId hp).mono hkept hcalls
  have hupdated : ∀ c ∈ w.calls, ∀ leadId, c.updates = some leadId →
      ∃ p, Belongs (w.next (.turn i tick)).db p c.group.ruleId c.group.groupKey ∧
        Stood s (w.next (.turn i tick)) merges p leadId := by
    intro c hc leadId hlead
    obtain ⟨p, hbelongs, hp⟩ := h.traced.updated c hc leadId hlead
    exact ⟨p, hbelongs.kept hkept, hstood hp⟩
  -- what an agent is left with is what it had, unless the step gave it to this one
  have hheld : ∀ {j p leadId}, ((w.next (.turn i tick)).agents j).holding = some (p, leadId) →
      ((w.agents i).turn tick w.db).agent.holding = none →
        Given s (w.next (.turn i tick)) p leadId := by
    intro j p leadId hj hnone
    rcases hagents hj with hown | ⟨-, hnew⟩
    · exact (h.holding j p leadId hown).mono hkept hcalls
    · rw [hnone] at hnew
      cases hnew
  have hled : ∀ {j p leadId}, ((w.next (.turn i tick)).agents j).led = some (p, leadId) →
      ((w.agents i).turn tick w.db).agent.led = none →
        Stood s (w.next (.turn i tick)) merges p leadId := by
    intro j p leadId hj hnone
    rcases hagents hj with hown | ⟨-, hnew⟩
    · exact hstood (h.led j p leadId hown)
    · rw [hnone] at hnew
      cases hnew
  cases lead_step tick (h.sound i) (h.named i) with
  | quiet leads calls creating before after unled led =>
    refine h.frame hsound hnamed hkept leads (by rw [turn_calls, calls, List.append_nil])
      (fun j p leadId hj => ?_) fun j p leadId hj => ?_
    · rcases hagents hj with hown | ⟨-, hnew⟩
      · exact hown
      · rw [after] at hnew
        cases hnew
    · rcases hagents hj with hown | ⟨rfl, hnew⟩
      · exact .inl hown
      · exact led p leadId hnew
  | @created p group answer creating db calls belongs after unled led =>
    refine ⟨hsound, hnamed, ⟨fun q leadId hq => ?_, fun c hc leadId hlead => ?_⟩,
      fun j q leadId hj => ?_, fun j q leadId hj => hled hj led⟩
    · change leadAt ((w.agents i).turn tick w.db).db q = some leadId at hq
      rw [db] at hq
      exact hrecorded q leadId hq
    · rw [turn_calls, calls] at hc
      rcases List.mem_append.mp hc with hold | hnew
      · exact hupdated c hold leadId hlead
      · rw [List.mem_singleton.mp hnew] at hlead
        cases hlead
    · rcases hagents hj with hown | ⟨-, hnew⟩
      · exact (h.holding j q leadId hown).mono hkept hcalls
      · rw [after] at hnew
        obtain ⟨given, hanswer, hpair⟩ := Option.map_eq_some_iff.mp hnew
        obtain ⟨rfl, rfl⟩ := Prod.mk.inj hpair
        cases answer with
        | error reason => cases hanswer
        | ok leadId =>
          obtain rfl := Option.some.inj hanswer
          refine .inr ⟨group, ?_, belongs.kept hkept⟩
          rw [turn_calls, calls]
          exact List.mem_append_right _ (List.mem_singleton_self _)
  | @linked p leadId holding leads calls after unled led =>
    refine ⟨hsound, hnamed, ⟨fun q given hq => ?_, fun c hc given hlead => ?_⟩,
      fun j q given hj => hheld hj after, fun j q given hj => hled hj led⟩
    · change leadAt ((w.agents i).turn tick w.db).db q = some given at hq
      rw [leads, Function.update_apply] at hq
      split at hq
      · next heq =>
        subst heq
        obtain rfl := Option.some.inj hq
        exact ((h.holding i q leadId holding).mono hkept hcalls).stands
      · exact hrecorded q given hq
    · rw [turn_calls, calls, List.append_nil] at hc
      exact hupdated c hc given hlead
  | @updated p leadId group answer shown db calls belongs creating before after unled led =>
    refine ⟨hsound, hnamed, ⟨fun q given hq => ?_, fun c hc given hlead => ?_⟩,
      fun j q given hj => hheld hj after, fun j q given hj => hled hj led⟩
    · change leadAt ((w.agents i).turn tick w.db).db q = some given at hq
      rw [db] at hq
      exact hrecorded q given hq
    · rw [turn_calls, calls] at hc
      rcases List.mem_append.mp hc with hold | hnew
      · exact hupdated c hold given hlead
      · obtain rfl := List.mem_singleton.mp hnew
        obtain rfl := Option.some.inj hlead
        exact ⟨p, belongs.kept hkept, hstood (h.led i p _ shown)⟩

theorem Inv.next (h : Inv s w merges) (a : Act ι) : Inv s (w.next a) merges := by
  have hsound := h.sound.next a
  have hnamed := world_named w a h.named
  have hkept := world_kept w a
  cases a with
  | turn i tick => exact h.turn i tick
  | verb c =>
    exact h.frame hsound hnamed hkept (leadAt_next c) rfl (fun _ _ _ hi => hi)
      fun _ _ _ hi => .inl hi
  | createRule env cmd =>
    exact h.frame hsound hnamed hkept (leadAt_withRule env cmd) rfl (fun _ _ _ hi => hi)
      fun _ _ _ hi => .inl hi
  | patchRule i env patch | runDueLeadRequests i caps | runRequestOfEvent i caps eventId =>
    simp only [World.next] at hsound hnamed hkept ⊢
    refine h.frame hsound hnamed hkept (by rw [enter_db]) ?_
      (fun j p leadId hj => ?_) fun j p leadId hj => .inl ?_
    · simp only [World.enter]
      split <;> rfl
    · rwa [(enter_apart ⟨rfl, rfl, rfl, rfl⟩ j).1] at hj
    · rwa [(enter_apart ⟨rfl, rfl, rfl, rfl⟩ j).2.1] at hj
  | crash i =>
    have hleft : ∀ {β : Type} {f : Agent → Option β} {j : ι} {x : β}, f .idle = none →
        f ((w.next (.crash i)).agents j) = some x → f (w.agents j) = some x := by
      intro β f j x hidle hx
      by_cases hj : j = i
      · subst hj
        rw [World.next, World.setAgent_self, hidle] at hx
        cases hx
      · rwa [World.next, World.setAgent_of_ne hj] at hx
    exact h.frame hsound hnamed hkept rfl rfl (fun _ _ _ hi => hleft rfl hi)
      fun _ _ _ hi => .inl (hleft rfl hi)

/-- A request merges leads, or is refused, or is an act. -/
theorem serve_acts (w : World ι) (r : Request ι) : (∃ merge actor, r = .relinkLead merge actor) ∨
    (mergesOf [r] = [] ∧ (serve w r = w ∨ ∃ a, serve w r = w.next a)) := by
  have hasked : ∀ {α : Type} (answer : Except EventError α) (act : α → Act ι),
      asked w (answer.map act) = w ∨ ∃ a, asked w (answer.map act) = w.next a := by
    intro α answer act
    cases answer with
    | error e => exact .inl rfl
    | ok x => exact .inr ⟨act x, rfl⟩
  cases r with
  | relinkLead merge actor => exact .inl ⟨merge, actor, rfl⟩
  | createRule | fromAnswer | patchRule => exact .inr ⟨rfl, hasked _ _⟩
  | verb c => exact .inr ⟨rfl, .inr ⟨.verb c, rfl⟩⟩
  | runDueLeadRequests i caps => exact .inr ⟨rfl, .inr ⟨.runDueLeadRequests i caps, rfl⟩⟩
  | runRequestOfEvent i caps eventId =>
    exact .inr ⟨rfl, .inr ⟨.runRequestOfEvent i caps eventId, rfl⟩⟩
  | turn i tick => exact .inr ⟨rfl, .inr ⟨.turn i tick, rfl⟩⟩
  | crash i => exact .inr ⟨rfl, .inr ⟨.crash i, rfl⟩⟩

theorem Inv.serve (h : Inv s w merges) (r : Request ι) :
    Inv s (LeadRuleCommandService.serve w r) (merges ++ mergesOf [r]) := by
  rcases serve_acts w r with ⟨merge, actor, rfl⟩ | ⟨hnone, hsame | ⟨a, hact⟩⟩
  · have hkept := serve_kept w (.relinkLead merge actor)
    have hmerges : mergesOf [(.relinkLead merge actor : Request ι)] = [merge] := rfl
    rw [hmerges]
    refine ⟨fun i => (h.sound i).kept hkept, h.named, ⟨fun p leadId hp => ?_, ?_⟩,
      fun i p leadId hi => (h.holding i p leadId hi).mono hkept fun c hc => hc,
      fun i p leadId hi => (h.led i p leadId hi).mono hkept fun c hc => hc⟩
    · change leadAt (LeadRuleCommandService.relinkLead merge actor w.db).2 p = some leadId at hp
      rw [leadAt_merged] at hp
      obtain ⟨before, hbefore, rfl⟩ := Option.map_eq_some_iff.mp hp
      exact ((h.traced.recorded p before hbefore).mono hkept fun c hc => hc).merged merge
    · intro c hc leadId hlead
      obtain ⟨p, hbelongs, hp⟩ := h.traced.updated c hc leadId hlead
      exact ⟨p, hbelongs.kept hkept, hp.mono hkept fun c hc => hc⟩
  · rw [hnone, hsame, List.append_nil]
    exact h
  · rw [hnone, hact, List.append_nil]
    exact h.next a

theorem inv_run (requests : List (Request ι)) (h : Inv s w merges) :
    Inv s (requests.foldl LeadRuleCommandService.serve w) (merges ++ mergesOf requests) := by
  induction requests generalizing w merges with
  | nil =>
    rw [mergesOf, List.filterMap_nil, List.append_nil]
    exact h
  | cons r requests ih =>
    have hsplit : mergesOf (r :: requests) = mergesOf [r] ++ mergesOf requests := by
      rw [mergesOf, mergesOf, mergesOf, ← List.filterMap_append, List.singleton_append]
    rw [hsplit, ← List.append_assoc]
    exact ih (h.serve r)

omit [DecidableEq ι] in
theorem inv_start (s : Db) : Inv s (World.start s : World ι) [] where
  sound := sound_start s
  named _ := trivial
  traced := ⟨fun p leadId hp => ⟨leadId, [], List.nil_suffix, .inl hp, rfl⟩,
    fun c hc => by cases hc⟩
  holding i p leadId hi := by cases hi
  led i p leadId hi := by cases hi

/-- In every state of a run every recorded lead is the sink's own answer for the rule and group,
or one recorded at the start, moved by every merge since some moment; and the sink has been
asked to update no other lead. -/
theorem leads_traced (s : Db) (requests : List (Request ι)) :
    Traced s (requests.foldl LeadRuleCommandService.serve (World.start s)) (mergesOf requests) := by
  have h := inv_run requests (inv_start s)
  rw [List.nil_append] at h
  exact h.traced

end runs

end BackboneEvents.LeadGeneration.LeadOrigins
