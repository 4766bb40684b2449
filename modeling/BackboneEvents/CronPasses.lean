import Mathlib.Data.List.ModifyLast
import Mathlib.Data.List.Perm.Subperm
import BackboneEvents.LeadPasses

/-!
# One cron pass alone

With no other writer and a clock that stands, a pass claims the due requests from the least id
on, one before each walk, until its limit or the end of the queue. A walk that ends well takes
its row out of the queue, and one that is refused takes its event out of the pass, so the rows
due that the pass has not claimed are those due at its start.
-/
namespace BackboneEvents.LeadGeneration
open ConstrainedTables DeterministicRuns

/-- A claimed request and the sink calls of its walk. -/
structure Walked where
  request : LeadRequest
  calls : List SinkCall

def Walked.refusals (w : Walked) : List String := w.calls.filterMap SinkCall.refusal

def Walked.extended (calls : List SinkCall) (w : Walked) : Walked :=
  { w with calls := w.calls ++ calls }

/-- A pass with no other writer. -/
structure Pass where
  steps : ℕ
  db : Db
  agent : Agent
  walks : List Walked

/-- The request the next step of a pass claims. -/
def Agent.claimed? (tick : Tick) (s : Db) : Agent → Option LeadRequest
  | .running caps (.claim parked) summary =>
    if caps.cronLimit ≤ summary.requestsClaimed then none
    else (claimNextDueRequest parked tick.now tick.locked s).1
  | .running _ (.lease _) _ | .running _ (.refuse _) _ | .running _ (.walk _ _ _) _ => none
  | .idle | .returned _ | .patching _ _ _ | .patched _ => none

namespace Pass

def ended (p : Pass) : Bool := !p.agent.isRunning

def turn (ticks : ℕ → Tick) (p : Pass) : Turn := p.agent.turn (ticks p.steps) p.db

/-- A claim opens a walk, and a sink call belongs to the last one. -/
def record (ticks : ℕ → Tick) (p : Pass) : List Walked :=
  match p.agent.claimed? (ticks p.steps) p.db with
  | some request => p.walks ++ [⟨request, []⟩]
  | none => p.walks.modifyLast (Walked.extended (p.turn ticks).calls)

/-- The pass stands where it has returned. -/
def next (ticks : ℕ → Tick) (p : Pass) : Pass :=
  if p.ended then p else ⟨p.steps + 1, (p.turn ticks).db, (p.turn ticks).agent, p.record ticks⟩

end Pass

/-- One call of `run_due_lead_requests`. -/
def runDueLeadRequests (caps : Caps) (s : Db) : Pass :=
  ⟨0, s, .running caps (.claim []) .zero, []⟩

/-- What a pass from `s` leaves when it returns. The queue holds one row for each event. -/
structure Cleared (now : Timestamp) (caps : Caps) (s : Db) (p : Pass) : Prop where
  number : p.walks.length = min caps.cronLimit (s.leadRequests.count (·.due now []))
  due : ∀ w ∈ p.walks, ∃ q ∈ s.leadRequests.rows, q.due now [] = true ∧
    w.request = LeadRequest.leased now q
  once : (p.walks.map (·.request.eventId)).Nodup
  ascending : p.walks.Pairwise (fun w w' => w.request.id ≤ w'.request.id)
  least : ∀ q ∈ s.leadRequests.rows, q.due now [] = true →
    (∀ w ∈ p.walks, w.request.eventId ≠ q.eventId) → ∀ w ∈ p.walks, w.request.id ≤ q.id
  completed : ∀ w ∈ p.walks, w.refusals = [] →
    ⟨w.request.id, w.request.eventId, true, none, none⟩ ∈ p.db.leadRequests.rows
  parked : ∀ w ∈ p.walks, ∀ reason ∈ w.refusals,
    ⟨w.request.id, w.request.eventId, false, some reason, none⟩ ∈ p.db.leadRequests.rows
  others : ∀ q : LeadRequest, (∀ w ∈ p.walks, w.request.eventId ≠ q.eventId) →
    (q ∈ p.db.leadRequests.rows ↔ q ∈ s.leadRequests.rows)
  summary : ∃ summary, p.agent = .returned (.ok summary) ∧
    summary.requestsClaimed = p.walks.length ∧
    summary.requestsCompleted = p.walks.countP (·.refusals.isEmpty) ∧
    summary.requestsParked = p.walks.countP (fun w => !w.refusals.isEmpty)

/-- The pass returns, and clears what it claimed. -/
def PassClears (now : Timestamp) (ticks : ℕ → Tick) (caps : Caps) (s : Db) : Prop :=
  ∃ p, Leads (Pass.next ticks) (runDueLeadRequests caps s) p ∧ p.ended = true ∧
    Cleared now caps s p

/-- The row of a request once the walks have ended. -/
def settled (walks : List Walked) (q : LeadRequest) : LeadRequest :=
  match walks.find? (·.request.eventId == q.eventId) with
  | some w => LeadRequest.finished w.refusals.head? q
  | none => q

/-- The claims of a pass, the queue and the summary when the walks so far have ended. -/
structure Settled (now : Timestamp) (s : Db) (walks : List Walked) (parked : List Uuid)
    (requests : Table LeadRequest) : Prop where
  due : ∀ w ∈ walks, ∃ q ∈ s.leadRequests.rows, q.due now [] = true ∧
    w.request = LeadRequest.leased now q
  once : (walks.map (·.request.eventId)).Nodup
  ascending : walks.Pairwise (fun w w' => w.request.id ≤ w'.request.id)
  least : ∀ q ∈ s.leadRequests.rows, q.due now [] = true →
    (∀ w ∈ walks, w.request.eventId ≠ q.eventId) → ∀ w ∈ walks, w.request.id ≤ q.id
  single : ∀ w ∈ walks, w.refusals = w.refusals.head?.toList
  rows : requests.rows = s.leadRequests.rows.map (settled walks)
  excluded : ∀ e, e ∈ parked ↔ ∃ w ∈ walks, w.request.eventId = e ∧ w.refusals ≠ []

/-- How many requests a summary tells of: claimed, completed and parked. -/
def LeadRunSummary.tally (summary : LeadRunSummary) : ℕ × ℕ × ℕ :=
  (summary.requestsClaimed, summary.requestsCompleted, summary.requestsParked)

def tallyOf (claimed : ℕ) (walks : List Walked) : ℕ × ℕ × ℕ :=
  (claimed, walks.countP (·.refusals.isEmpty), walks.countP (fun w => !w.refusals.isEmpty))

def Stage.reason : Stage → Option String
  | .finish reason => reason
  | .readRules | .readPredicates _ _ | .readEligible _ _ _ | .upsert _ | .members _ _ _
  | .create _ _ _ _ | .setLead _ _ _ _ | .update _ _ _ _ _ | .junction _ _ _ _ => none

section queue

variable {s : Db} {now : Timestamp} {walks : List Walked} {parked : List Uuid}
  {requests : Table LeadRequest} {q : LeadRequest}

/-- With nothing locked the claim takes the due row of the least id. -/
theorem claim_least (parked : List Uuid) (now : Timestamp) {locked : Uuid → Bool}
    (hlocked : ∀ x, locked x = false) (s : Db) :
    (claimNextDueRequest parked now locked s = (none, s) ∧
      ∀ q ∈ s.leadRequests.rows, q.due now parked = false) ∨
    ∃ q ∈ s.leadRequests.rows, q.due now parked = true ∧
      (∀ q' ∈ s.leadRequests.rows, q'.due now parked = true → q.id ≤ q'.id) ∧
      claimNextDueRequest parked now locked s =
        (some (LeadRequest.leased now q), s.lease now q.eventId) := by
  have hsort : ∀ q, q ∈ (s.leadRequests.rows.filter
      (fun q => q.due now parked && !locked q.id)).insertionSort (fun a b => a.id ≤ b.id) ↔
        q ∈ s.leadRequests.rows ∧ q.due now parked = true := by
    intro q
    simp only [List.mem_insertionSort, List.mem_filter, hlocked, Bool.not_false, Bool.and_true]
  have hsorted := List.pairwise_insertionSort (fun a b : LeadRequest => a.id ≤ b.id)
    (s.leadRequests.rows.filter (fun q => q.due now parked && !locked q.id))
  simp only [claimNextDueRequest]
  cases hlist : (s.leadRequests.rows.filter
      (fun q => q.due now parked && !locked q.id)).insertionSort (fun a b => a.id ≤ b.id) with
  | nil =>
    rw [hlist] at hsort
    refine .inl ⟨rfl, fun q hq => ?_⟩
    cases hdue : q.due now parked with
    | false => rfl
    | true => cases (hsort q).mpr ⟨hq, hdue⟩
  | cons q rest =>
    rw [hlist] at hsort hsorted
    obtain ⟨hq, hdue⟩ := (hsort q).mp List.mem_cons_self
    refine .inr ⟨q, hq, hdue, fun q' hq' hdue' => ?_, rfl⟩
    rcases List.mem_cons.mp ((hsort q').mpr ⟨hq', hdue'⟩) with rfl | hrest
    · exact Nat.le_refl _
    · exact (List.pairwise_cons.mp hsorted).1 q' hrest

theorem settled_other (h : ∀ w ∈ walks, w.request.eventId ≠ q.eventId) : settled walks q = q := by
  have hnone : walks.find? (·.request.eventId == q.eventId) = none :=
    List.find?_eq_none.mpr fun w hw => by simpa using h w hw
  rw [settled, hnone]

theorem settled_eventId (walks : List Walked) (q : LeadRequest) :
    (settled walks q).eventId = q.eventId := by
  rw [settled]
  split <;> rfl

theorem Settled.settled_walked (h : Settled now s walks parked requests) {w : Walked}
    (hw : w ∈ walks) (hevent : w.request.eventId = q.eventId) :
    settled walks q = LeadRequest.finished w.refusals.head? q := by
  have hfound : walks.find? (·.request.eventId == q.eventId) = some w := by
    cases hfind : walks.find? (·.request.eventId == q.eventId) with
    | none =>
      have hne := List.find?_eq_none.mp hfind w hw
      rw [hevent, beq_self_eq_true] at hne
      exact absurd rfl hne
    | some w' =>
      have hevent' : w'.request.eventId = q.eventId := by simpa using List.find?_some hfind
      rw [List.inj_on_of_nodup_map h.once (List.mem_of_find?_eq_some hfind) hw
        (hevent'.trans hevent.symm)]
  rw [settled, hfound]

/-- The rows due past the walks are those due at the start that no walk was about. -/
theorem Settled.due_iff (h : Settled now s walks parked requests) :
    (q ∈ requests.rows ∧ q.due now parked = true) ↔ q ∈ s.leadRequests.rows ∧
      q.due now [] = true ∧ ∀ w ∈ walks, w.request.eventId ≠ q.eventId := by
  rw [h.rows, List.mem_map]
  constructor
  · rintro ⟨⟨q', hq', rfl⟩, hdue⟩
    simp only [LeadRequest.due, Bool.and_eq_true, Bool.not_eq_true'] at hdue
    by_cases hwalked : ∃ w ∈ walks, w.request.eventId = q'.eventId
    · obtain ⟨w, hw, hevent⟩ := hwalked
      rw [h.settled_walked hw hevent] at hdue
      cases hrefusals : w.refusals with
      | nil => simp [LeadRequest.finished, hrefusals] at hdue
      | cons reason rest =>
        have hparked : q'.eventId ∈ parked :=
          (h.excluded q'.eventId).mpr ⟨w, hw, hevent, by simp [hrefusals]⟩
        exact absurd hparked (by simpa [LeadRequest.finished] using hdue.2)
    · have hnone : ∀ w ∈ walks, w.request.eventId ≠ q'.eventId := fun w hw hevent =>
        hwalked ⟨w, hw, hevent⟩
      rw [settled_other hnone] at hdue ⊢
      exact ⟨hq', by simp [LeadRequest.due, hdue.1], hnone⟩
  · rintro ⟨hq, hdue, hnone⟩
    refine ⟨⟨q, hq, settled_other hnone⟩, ?_⟩
    have hparked : q.eventId ∉ parked := by
      intro hparked
      obtain ⟨w, hw, hevent, -⟩ := (h.excluded _).mp hparked
      exact hnone w hw hevent
    simpa [LeadRequest.due, hparked] using hdue

theorem settled_start : Settled now s [] [] s.leadRequests where
  due w hw := by cases hw
  once := .nil
  ascending := .nil
  least _ _ _ _ w hw := by cases hw
  single w hw := by cases hw
  rows := (List.map_id' _).symm
  excluded e := by simp

variable {w : Walked}

theorem settled_append_same (hnone : ∀ w' ∈ walks, w'.request.eventId ≠ q.eventId)
    (hevent : w.request.eventId = q.eventId) :
    settled (walks ++ [w]) q = LeadRequest.finished w.refusals.head? q := by
  have hfound : walks.find? (·.request.eventId == q.eventId) = none :=
    List.find?_eq_none.mpr fun w' hw' => by simpa using hnone w' hw'
  simp only [settled, List.find?_append, hfound, Option.none_or, List.find?_cons, hevent,
    beq_self_eq_true]

theorem settled_append_other (hevent : w.request.eventId ≠ q.eventId) :
    settled (walks ++ [w]) q = settled walks q := by
  simp only [settled, List.find?_append, List.find?_cons, List.find?_nil,
    beq_eq_false_iff_ne.mpr hevent, Option.or_none]

/-- A lease and the end of its walk settle the row of the event and no other. -/
theorem Settled.rows_append (h : Settled now s walks parked requests) {e : Uuid}
    (hevent : w.request.eventId = e) (hnew : ∀ w' ∈ walks, w'.request.eventId ≠ e) :
    ((requests.modify (·.eventId == e) (LeadRequest.leased now)).modify (·.eventId == e)
      (LeadRequest.finished w.refusals.head?)).rows =
        s.leadRequests.rows.map (settled (walks ++ [w])) := by
  rw [Table.rows_modify, Table.rows_modify, h.rows, List.map_map, List.map_map]
  apply List.map_congr_left
  intro r hr
  by_cases hsame : r.eventId = e
  · have hnone : ∀ w' ∈ walks, w'.request.eventId ≠ r.eventId := hsame ▸ hnew
    rw [settled_append_same hnone (hevent.trans hsame.symm)]
    simp [settled_other hnone, hsame, LeadRequest.leased, LeadRequest.finished]
  · rw [settled_append_other (hevent ▸ Ne.symm hsame)]
    simp [settled_eventId, hsame]

/-- A walk that ends settles its row, and is parked when it was refused. -/
theorem Settled.append (h : Settled now s walks parked requests) (hq : q ∈ requests.rows)
    (hdue : q.due now parked = true)
    (hleast : ∀ q' ∈ requests.rows, q'.due now parked = true → q.id ≤ q'.id)
    (hrequest : w.request = LeadRequest.leased now q)
    (hsingle : w.refusals = w.refusals.head?.toList) :
    Settled now s (walks ++ [w]) (if w.refusals.head?.isSome then parked ++ [q.eventId] else parked)
      ((requests.modify (·.eventId == q.eventId) (LeadRequest.leased now)).modify
        (·.eventId == q.eventId) (LeadRequest.finished w.refusals.head?)) := by
  have hevent : w.request.eventId = q.eventId := by rw [hrequest]; rfl
  have hid : w.request.id = q.id := by rw [hrequest]; rfl
  obtain ⟨hstart, hdue', hnew⟩ := h.due_iff.mp ⟨hq, hdue⟩
  constructor
  case due =>
    intro w' hw'
    rcases List.mem_append.mp hw' with hold | hlast
    · exact h.due w' hold
    · obtain rfl := List.mem_singleton.mp hlast
      exact ⟨q, hstart, hdue', hrequest⟩
  case once =>
    rw [List.map_append, List.nodup_append]
    refine ⟨h.once, List.nodup_singleton _, ?_⟩
    intro e he e' he' hsame
    obtain ⟨w', hw', rfl⟩ := List.mem_map.mp he
    obtain rfl := List.mem_singleton.mp he'
    exact hnew w' hw' (hsame.trans hevent)
  case ascending =>
    refine List.pairwise_append.mpr ⟨h.ascending, List.pairwise_singleton _ _, ?_⟩
    intro w' hw' w'' hw''
    rw [List.mem_singleton.mp hw'', hid]
    exact h.least q hstart hdue' hnew w' hw'
  case least =>
    intro q' hq' hdue'' hnone w' hw'
    have hbefore : ∀ w ∈ walks, w.request.eventId ≠ q'.eventId := fun w hw =>
      hnone w (List.mem_append_left _ hw)
    rcases List.mem_append.mp hw' with hold | hlast
    · exact h.least q' hq' hdue'' hbefore w' hold
    · rw [List.mem_singleton.mp hlast, hid]
      obtain ⟨hstored, hdueNow⟩ := h.due_iff.mpr ⟨hq', hdue'', hbefore⟩
      exact hleast q' hstored hdueNow
  case single =>
    intro w' hw'
    rcases List.mem_append.mp hw' with hold | hlast
    · exact h.single w' hold
    · obtain rfl := List.mem_singleton.mp hlast
      exact hsingle
  case rows => exact h.rows_append hevent hnew
  case excluded =>
    intro e
    have hlast : (∃ w' ∈ walks ++ [w], w'.request.eventId = e ∧ w'.refusals ≠ []) ↔
        e ∈ parked ∨ q.eventId = e ∧ w.refusals ≠ [] := by
      simp only [List.mem_append, List.mem_singleton, or_and_right, exists_or, exists_eq_left,
        h.excluded, hevent]
    rw [hlast]
    cases hrefusals : w.refusals with
    | nil => simp
    | cons reason rest => simp [eq_comm]

/-- The events of the rows due at the start, each once. -/
def dueEvents (now : Timestamp) (s : Db) : List Uuid :=
  (s.leadRequests.rows.filter (·.due now [])).map LeadRequest.eventId

variable (now s) in
theorem dueEvents_nodup : (dueEvents now s).Nodup := by
  rw [dueEvents, List.Nodup, List.pairwise_map]
  refine (s.leadRequests.unique.filter _).imp ?_
  intro q q' hapart hsame
  simp [clash, hsame] at hapart

variable (now s) in
theorem dueEvents_length : (dueEvents now s).length = s.leadRequests.count (·.due now []) := by
  rw [dueEvents, List.length_map, Table.count, List.countP_eq_length_filter]

theorem Settled.length_le (h : Settled now s walks parked requests) :
    walks.length ≤ s.leadRequests.count (·.due now []) := by
  have hsubset : walks.map (·.request.eventId) ⊆ dueEvents now s := by
    intro e he
    obtain ⟨w, hw, rfl⟩ := List.mem_map.mp he
    obtain ⟨q, hq, hdue, hrequest⟩ := h.due w hw
    exact List.mem_map.mpr ⟨q, List.mem_filter.mpr ⟨hq, hdue⟩, by rw [hrequest]; rfl⟩
  have hle := (List.subperm_of_subset h.once hsubset).length_le
  rwa [List.length_map, dueEvents_length] at hle

/-- Once nothing is due any more, everything that was due has been walked. -/
theorem Settled.length_eq (h : Settled now s walks parked requests)
    (hnone : ∀ q ∈ requests.rows, q.due now parked = false) :
    walks.length = s.leadRequests.count (·.due now []) := by
  have hsubset : dueEvents now s ⊆ walks.map (·.request.eventId) := by
    intro e he
    obtain ⟨q, hq, rfl⟩ := List.mem_map.mp he
    obtain ⟨hstored, hdue⟩ := List.mem_filter.mp hq
    by_contra hnew
    obtain ⟨hrow, hstill⟩ := h.due_iff.mpr ⟨hstored, hdue, fun w hw hevent =>
      hnew (List.mem_map.mpr ⟨w, hw, hevent⟩)⟩
    rw [hnone q hrow] at hstill
    cases hstill
  have hge := (List.subperm_of_subset (dueEvents_nodup s now) hsubset).length_le
  rw [List.length_map, dueEvents_length] at hge
  exact Nat.le_antisymm h.length_le hge

theorem Settled.row (h : Settled now s walks parked requests) (hw : w ∈ walks) :
    ⟨w.request.id, w.request.eventId, w.refusals.head?.isNone, w.refusals.head?, none⟩ ∈
      requests.rows := by
  obtain ⟨q, hq, -, hrequest⟩ := h.due w hw
  have hevent : w.request.eventId = q.eventId := by rw [hrequest]; rfl
  rw [h.rows, List.mem_map]
  refine ⟨q, hq, ?_⟩
  rw [h.settled_walked hw hevent, hrequest]
  rfl

/-- Where no walk has been, the queue is as it was. -/
theorem Settled.untouched (h : Settled now s walks parked requests)
    (hnone : ∀ w ∈ walks, w.request.eventId ≠ q.eventId) :
    q ∈ requests.rows ↔ q ∈ s.leadRequests.rows := by
  rw [h.rows, List.mem_map]
  constructor
  · rintro ⟨q', hq', rfl⟩
    rw [settled_eventId] at hnone
    rwa [settled_other hnone]
  · intro hq
    exact ⟨q, hq, settled_other hnone⟩

theorem Settled.cleared {caps : Caps} {p : Pass} {summary : LeadRunSummary}
    (h : Settled now s p.walks parked p.db.leadRequests)
    (hagent : p.agent = .returned (.ok summary))
    (htally : summary.tally = tallyOf p.walks.length p.walks)
    (hnumber : p.walks.length = min caps.cronLimit (s.leadRequests.count (·.due now []))) :
    Cleared now caps s p where
  number := hnumber
  due := h.due
  once := h.once
  ascending := h.ascending
  least := h.least
  completed w hw haccepted := by
    have hrow := h.row hw
    rwa [haccepted] at hrow
  parked w hw reason hreason := by
    have hrow := h.row hw
    rw [h.single w hw, Option.mem_toList] at hreason
    rwa [hreason] at hrow
  others q hnone := h.untouched hnone
  summary := by
    obtain ⟨hclaimed, hrest⟩ := Prod.mk.inj htally
    obtain ⟨hcompleted, hparked⟩ := Prod.mk.inj hrest
    exact ⟨summary, hagent, hclaimed, hcompleted, hparked⟩

end queue

section walk

variable {s : Db} {eventId : Uuid} {stage next : Stage} {tick : Tick} {caps : Caps}
  {origin : Origin} {summary summary' : LeadRunSummary} {turn : Turn}

/-- Only a claim and the end of a walk are told. -/
theorem stage_tally (hlive : ∀ reason, stage ≠ .finish reason)
    (h : (stage.turn caps origin eventId tick summary s).agent =
      .running caps (.walk origin eventId next) summary') : summary'.tally = summary.tally := by
  cases stage with
  | readRules | readPredicates | setLead =>
    cases h
    rfl
  | readEligible | upsert | create | update =>
    simp only [Stage.turn] at h
    split at h
    · cases h <;> rfl
    · cases h
      rfl
  | members =>
    simp only [Stage.turn] at h
    split at h
    · split at h
      · cases h
        rfl
      · cases h
        rfl
    · cases h
      rfl
  | junction k provenanceId newIds grown =>
    simp only [Stage.turn] at h
    split at h
    · cases h
    · cases h
      cases grown <;> rfl
  | finish reason => exact absurd rfl (hlive reason)

/-- A walk has met a refusal exactly when it is about to finish with its reason. -/
theorem advances_reason (h : Advances caps origin eventId s stage turn next summary) :
    turn.calls.filterMap SinkCall.refusal = next.reason.toList := by
  cases hreason : next.reason with
  | some reason =>
    have hnext : next = .finish (some reason) := by
      cases next <;> cases hreason
      rfl
    obtain ⟨c, hc, hrefusal⟩ := advances_refused h hnext
    rw [(h.asks c hc).1]
    simp [hrefusal]
  | none =>
    refine List.filterMap_eq_nil_iff.mpr fun c hc => ?_
    obtain ⟨-, -, k, -, -, hasks, -⟩ := h.asks c hc
    cases hrefusal : c.refusal with
    | none => rfl
    | some reason =>
      rw [hasks.refused reason hrefusal] at hreason
      cases hreason

theorem Walking.restepped {l : Lone} (h : Walking s eventId l) (n : ℕ) :
    Walking s eventId { l with steps := n } :=
  ⟨h.ground, h.anchored, h.sound, h.apart, h.own, h.goal, h.grown, h.requests, h.told, h.drained,
    h.refused⟩

end walk

/-- A pass between two walks. -/
structure Between (now : Timestamp) (caps : Caps) (s : Db) (p : Pass) (parked : List Uuid)
    (summary : LeadRunSummary) : Prop where
  agent : p.agent = .running caps (.claim parked) summary
  settled : Settled now s p.walks parked p.db.leadRequests
  tally : summary.tally = tallyOf p.walks.length p.walks
  limit : p.walks.length ≤ caps.cronLimit
  ground : Ground s p.db
  anchored : Anchored p.db

/-- The row that a pass leased after the walks `before`, and the database `t` it left. -/
structure Claimed (now : Timestamp) (caps : Caps) (s : Db) (before : List Walked)
    (parked : List Uuid) (q : LeadRequest) (requests : Table LeadRequest) (t : Db) : Prop where
  settled : Settled now s before parked requests
  room : before.length < caps.cronLimit
  stored : q ∈ requests.rows
  due : q.due now parked = true
  least : ∀ q' ∈ requests.rows, q'.due now parked = true → q.id ≤ q'.id
  leased : t.leadRequests = requests.modify (·.eventId == q.eventId) (LeadRequest.leased now)
  ground : Ground s t

/-- A pass in the walk of `q`, which met the refusals it is about to finish with. -/
structure Within (now : Timestamp) (caps : Caps) (s : Db) (p : Pass) (parked : List Uuid)
    (summary : LeadRunSummary) (before : List Walked) (q : LeadRequest) (calls : List SinkCall)
    (stage : Stage) (t : Db) : Prop where
  agent : p.agent = .running caps (.walk (.cron parked) q.eventId stage) summary
  walks : p.walks = before ++ [⟨LeadRequest.leased now q, calls⟩]
  claimed : ∃ requests, Claimed now caps s before parked q requests t
  walking : Walking t q.eventId ⟨p.steps, p.db, p.agent, calls⟩
  tally : summary.tally = tallyOf (before.length + 1) before
  refusals : calls.filterMap SinkCall.refusal = stage.reason.toList

/-- Where a pass stands. `told` holds of every reason that the sink has given. -/
inductive Underway (told : String → Prop) (now : Timestamp) (caps : Caps) (s : Db) (p : Pass) : Prop
    where
  | claiming (parked : List Uuid) (summary : LeadRunSummary)
      (between : Between now caps s p parked summary)
  | walking (parked : List Uuid) (summary : LeadRunSummary) (before : List Walked) (q : LeadRequest)
      (calls : List SinkCall) (stage : Stage) (t : Db)
      (within : Within now caps s p parked summary before q calls stage t)
      (said : ∀ reason ∈ stage.reason, told reason)
  | returned (cleared : Cleared now caps s p)
  | failed (e : EventError) (reason : String) (agent : p.agent = .returned (.error e))
      (said : told reason) (long : ¬ reason.toList.length ≤ 500)

/-- The claims left, then what is left of the walk. -/
def Pass.left (p : Pass) : ℕ × ℕ × ℕ × ℕ :=
  match p.agent with
  | .running caps (.claim _) summary =>
    (2 * (caps.cronLimit - summary.requestsClaimed) + 1, 0, 0, 0)
  | .running caps (.walk _ _ stage) summary =>
    (2 * (caps.cronLimit - summary.requestsClaimed) + 2, stage.left p.db)
  | .running _ (.lease _) _ | .running _ (.refuse _) _ | .idle | .returned _ | .patching _ _ _
  | .patched _ => (0, 0, 0, 0)

def Drops : ℕ × ℕ × ℕ × ℕ → ℕ × ℕ × ℕ × ℕ → Prop := Prod.Lex (· < ·) Falls

theorem drops_wf : WellFounded Drops :=
  (Prod.lex Nat.lt_wfRel ⟨Falls, falls_wf⟩).wf

section pass

variable {told : String → Prop} {now : Timestamp} {caps : Caps} {s : Db} {p : Pass}
  {ticks : ℕ → Tick} {parked : List Uuid} {summary : LeadRunSummary} {point : Point}

theorem pass_next_of_ended (h : p.ended = true) : p.next ticks = p := if_pos h

variable (ticks) in
theorem pass_next (h : p.agent = .running caps point summary) : p.ended = false ∧
    p.turn ticks = point.turn caps (ticks p.steps) summary p.db ∧
    p.next ticks = ⟨p.steps + 1, (p.turn ticks).db, (p.turn ticks).agent, p.record ticks⟩ := by
  have hlive : p.ended = false := by
    rw [Pass.ended, h]
    rfl
  exact ⟨hlive, by rw [Pass.turn, h]; rfl, by rw [Pass.next, hlive]; rfl⟩

theorem modifyLast_extended (walks : List Walked) :
    walks.modifyLast (Walked.extended []) = walks := by
  induction walks using List.reverseRecOn with
  | nil => rfl
  | append_singleton walks w ih =>
    rw [List.modifyLast_concat, Walked.extended, List.append_nil]

theorem record_quiet (hclaimed : p.agent.claimed? (ticks p.steps) p.db = none)
    (hcalls : (p.turn ticks).calls = []) : p.record ticks = p.walks := by
  rw [Pass.record, hclaimed, hcalls]
  exact modifyLast_extended _

theorem claim_left (hagent : p.agent = .running caps (.claim parked) summary) :
    p.left = (2 * (caps.cronLimit - summary.requestsClaimed) + 1, 0, 0, 0) := by
  rw [Pass.left, hagent]

/-- A pass at its limit or past its queue returns. -/
theorem Between.stops (h : Between now caps s p parked summary)
    (hturn : p.turn ticks = ⟨p.db, .returned (.ok summary), []⟩)
    (hclaimed : p.agent.claimed? (ticks p.steps) p.db = none)
    (hnumber : p.walks.length = min caps.cronLimit (s.leadRequests.count (·.due now []))) :
    Underway told now caps s (p.next ticks) ∧ Drops (p.next ticks).left p.left := by
  obtain ⟨-, -, hnext⟩ := pass_next ticks h.agent
  have hend : p.next ticks = ⟨p.steps + 1, p.db, .returned (.ok summary), p.walks⟩ := by
    rw [hnext, record_quiet hclaimed (by rw [hturn]), hturn]
  rw [hend, claim_left h.agent]
  constructor
  · apply Underway.returned
    exact Settled.cleared (p := ⟨_, _, _, _⟩) h.settled rfl h.tally hnumber
  · exact Prod.Lex.left _ _ (Nat.succ_pos _)

/-- A claim opens the walk of the row it leased. -/
theorem Between.opens {q : LeadRequest} (h : Between now caps s p parked summary)
    (hroom : p.walks.length < caps.cronLimit) (hq : q ∈ p.db.leadRequests.rows)
    (hdue : q.due now parked = true)
    (hleast : ∀ q' ∈ p.db.leadRequests.rows, q'.due now parked = true → q.id ≤ q'.id)
    (hturn : p.turn ticks = ⟨p.db.lease now q.eventId, .running caps
      (.walk (.cron parked) q.eventId .readRules)
        { summary with requestsClaimed := summary.requestsClaimed + 1 }, []⟩)
    (hclaimed : p.agent.claimed? (ticks p.steps) p.db = some (LeadRequest.leased now q)) :
    Underway told now caps s (p.next ticks) ∧ Drops (p.next ticks).left p.left := by
  obtain ⟨-, -, hnext⟩ := pass_next ticks h.agent
  have hcount : summary.requestsClaimed = p.walks.length := congrArg Prod.fst h.tally
  have hrecord : p.record ticks = p.walks ++ [⟨LeadRequest.leased now q, []⟩] := by
    rw [Pass.record, hclaimed]
  have hclaim : Claimed now caps s p.walks parked q p.db.leadRequests (p.db.lease now q.eventId) :=
    ⟨h.settled, hroom, hq, hdue, hleast, rfl, h.ground.trans ⟨rfl, rfl, rfl, rfl, rfl, rfl⟩⟩
  have hanchored : Anchored (p.db.lease now q.eventId) := h.anchored
  rw [hnext, hrecord, hturn, claim_left h.agent]
  constructor
  · apply Underway.walking
    · constructor
      case agent => rfl
      case walks => rfl
      case claimed => exact ⟨_, hclaim⟩
      case walking => exact (walking_start hanchored).restepped (p.steps + 1)
      case tally =>
        rw [← hcount]
        exact congrArg (fun x => (summary.requestsClaimed + 1, x)) (congrArg Prod.snd h.tally)
      case refusals => rfl
    · intro reason hreason
      cases hreason
  · apply Prod.Lex.left
    simp only
    omega

/-- One claim of a pass. -/
theorem Between.next (h : Between now caps s p parked summary) (hclock : (ticks p.steps).now = now)
    (hlocked : ∀ x, (ticks p.steps).locked x = false) :
    Underway told now caps s (p.next ticks) ∧ Drops (p.next ticks).left p.left := by
  subst hclock
  obtain ⟨-, hturn, -⟩ := pass_next ticks h.agent
  have hcount : summary.requestsClaimed = p.walks.length := congrArg Prod.fst h.tally
  have hlimit := h.limit
  by_cases hfull : caps.cronLimit ≤ summary.requestsClaimed
  · have hle := h.settled.length_le
    apply h.stops
    · simp only [hturn, Point.turn, hfull, if_true]
    · simp only [h.agent, Agent.claimed?, hfull, if_true]
    · omega
  rcases claim_least parked (ticks p.steps).now hlocked p.db with
    ⟨hclaim, hnone⟩ | ⟨q, hq, hdue, hleast, hclaim⟩
  · have heq := h.settled.length_eq hnone
    apply h.stops
    · simp only [hturn, Point.turn, hfull, if_false, hclaim]
    · simp only [h.agent, Agent.claimed?, hfull, if_false, hclaim]
    · omega
  · apply h.opens (by omega) hq hdue hleast
    · simp only [hturn, Point.turn, hfull, if_false, hclaim]
      rfl
    · simp only [h.agent, Agent.claimed?, hfull, if_false, hclaim]

section walk

variable {before : List Walked} {t : Db} {q : LeadRequest} {calls : List SinkCall} {stage : Stage}

theorem walk_left {origin : Origin} {eventId : Uuid}
    (hagent : p.agent = .running caps (.walk origin eventId stage) summary) :
    p.left = (2 * (caps.cronLimit - summary.requestsClaimed) + 2, stage.left p.db) := by
  rw [Pass.left, hagent]

variable (ticks) in
/-- A reason too long for the column ends the pass and leaves everything as it was. -/
theorem aborts_of_tooLong {origin : Origin} {eventId : Uuid} {reason : String}
    (hagent : p.agent = .running caps (.walk origin eventId (.finish (some reason))) summary)
    (hlong : ¬ reason.toList.length ≤ 500) : (p.next ticks).steps = p.steps + 1 ∧
      (p.next ticks).db = p.db ∧ (p.next ticks).agent =
        .returned (.error (.database "lead_requests: error_detail too long")) := by
  obtain ⟨-, hturn, hnext⟩ := pass_next ticks hagent
  rw [hnext, hturn, Point.turn, finish_db, if_neg hlong]
  refine ⟨rfl, rfl, ?_⟩
  simp [Stage.turn, finishRequestByEvent, hlong]

variable (ticks) in
/-- The calls of a step are those of the walk under way. -/
theorem Within.record (h : Within now caps s p parked summary before q calls stage t) :
    p.record ticks = before ++ [⟨LeadRequest.leased now q, calls ++ (p.turn ticks).calls⟩] := by
  have hclaimed : p.agent.claimed? (ticks p.steps) p.db = none := by
    rw [h.agent]
    rfl
  rw [Pass.record, hclaimed, h.walks, List.modifyLast_concat]
  rfl

theorem Within.axisServed (h : Within now caps s p parked summary before q calls stage t)
    (haxes : ∀ q ∈ s.leadRequests.rows, q.due now [] = true → AxisServed s q.eventId) :
    AxisServed t q.eventId := by
  obtain ⟨_, hclaimed⟩ := h.claimed
  obtain ⟨hstored, hdue, -⟩ := hclaimed.settled.due_iff.mp ⟨hclaimed.stored, hclaimed.due⟩
  exact hclaimed.ground.axisServed (haxes q hstored hdue)

/-- A step before the end of the walk. -/
theorem Within.advance (h : Within now caps s p parked summary before q calls stage t)
    (hfresh : FreshIds p.db (ticks p.steps))
    (haxes : ∀ q ∈ s.leadRequests.rows, q.due now [] = true → AxisServed s q.eventId)
    (hlive : ∀ reason, stage ≠ .finish reason) : ∃ next summary',
      Within now caps s (p.next ticks) parked summary' before q (calls ++ (p.turn ticks).calls) next
        t ∧
      (p.turn ticks).calls.filterMap SinkCall.refusal = next.reason.toList ∧
      Drops (p.next ticks).left p.left := by
  obtain ⟨-, hturn, hnext⟩ := pass_next ticks h.agent
  have haxis := h.axisServed haxes
  obtain ⟨next, summary', hadvances⟩ := h.walking.advances haxis h.agent hfresh hlive
  have hagent : (p.turn ticks).agent =
      .running caps (.walk (.cron parked) q.eventId next) summary' := hadvances.agent
  have hheard : (p.turn ticks).calls.filterMap SinkCall.refusal = next.reason.toList :=
    advances_reason hadvances
  have htally : summary'.tally = summary.tally := by
    rw [hturn] at hagent
    exact stage_tally hlive hagent
  have hquiet : stage.reason = none := by
    cases stage with
    | finish reason => exact absurd rfl (hlive reason)
    | readRules | readPredicates | readEligible | upsert | members | create | setLead | update
    | junction => rfl
  refine ⟨next, summary', ?_, hheard, ?_⟩
  · rw [hnext, h.record ticks]
    constructor
    case agent => exact hagent
    case walks => rfl
    case claimed => exact h.claimed
    case walking =>
      have hwalking := h.walking.advance haxis h.agent hfresh hlive
      rwa [(next_of_live ticks h.agent).2.2] at hwalking
    case tally => exact htally.trans h.tally
    case refusals =>
      rw [List.filterMap_append, h.refusals, hquiet]
      exact hheard
  · have hsame : summary'.requestsClaimed = summary.requestsClaimed := congrArg Prod.fst htally
    rw [hnext, walk_left h.agent, walk_left hagent, hsame]
    exact Prod.Lex.right _ hadvances.falls

theorem head?_toList (reason : Option String) : reason.toList.head? = reason := by
  cases reason <;> rfl

/-- The end of a walk whose reason fits the column. -/
theorem Within.closes {reason : Option String}
    (h : Within now caps s p parked summary before q calls (.finish reason) t)
    (hfresh : FreshIds p.db (ticks p.steps))
    (hfits : reason.all (fun reason => decide (reason.toList.length ≤ 500)) = true) :
    Between now caps s (p.next ticks) (if reason.isSome then parked ++ [q.eventId] else parked)
      (summary.finished reason) := by
  obtain ⟨-, hturn, hnext⟩ := pass_next ticks h.agent
  obtain ⟨requests, hclaimed⟩ := h.claimed
  have hturn' : p.turn ticks = ⟨{ p.db with
      leadRequests := p.db.leadRequests.modify (·.eventId == q.eventId)
        (LeadRequest.finished reason) }, (Origin.cron parked).after caps q.eventId reason
          (summary.finished reason), []⟩ := by
    simp only [hturn, Point.turn, Stage.turn, finishRequestByEvent, hfits, if_true]
  have hrefusals : (Walked.mk (LeadRequest.leased now q) calls).refusals = reason.toList :=
    h.refusals
  have hhead : (Walked.mk (LeadRequest.leased now q) calls).refusals.head? = reason := by
    rw [hrefusals, head?_toList]
  have hrequests : p.db.leadRequests =
      requests.modify (·.eventId == q.eventId) (LeadRequest.leased now) :=
    (h.walking.requests (next_of_live ticks h.agent).1).trans hclaimed.leased
  have hend := (h.walking.finish h.agent hfresh).1
  rw [(next_of_live ticks h.agent).2.2] at hend
  have hsettled := hclaimed.settled.append hclaimed.stored hclaimed.due hclaimed.least
    (w := ⟨LeadRequest.leased now q, calls⟩) rfl (by rw [hhead]; exact hrefusals)
  rw [hhead, ← hrequests] at hsettled
  have hrecord := h.record ticks
  rw [hturn', List.append_nil] at hrecord
  rw [hnext, hrecord]
  constructor
  case agent => rw [hturn']; rfl
  case settled => rw [hturn']; exact hsettled
  case tally =>
    rw [List.length_append, List.length_singleton, tallyOf, List.countP_append, List.countP_append,
      List.countP_singleton, List.countP_singleton, hrefusals]
    have htally := h.tally
    simp only [LeadRunSummary.tally, tallyOf, Prod.mk.injEq] at htally ⊢
    obtain ⟨hcount, hcompleted, hparked⟩ := htally
    cases reason with
    | none => simpa [LeadRunSummary.finished, hcompleted, hparked] using hcount
    | some reason => simpa [LeadRunSummary.finished, hcompleted, hparked] using hcount
  case limit =>
    rw [List.length_append]
    exact hclaimed.room
  case ground => exact hclaimed.ground.trans hend.ground
  case anchored => exact hend.anchored

/-- The end of a walk, or of the pass when the reason is too long. -/
theorem Within.ends {reason : Option String}
    (h : Within now caps s p parked summary before q calls (.finish reason) t)
    (hfresh : FreshIds p.db (ticks p.steps)) (hsaid : ∀ reason' ∈ reason, told reason') :
    Underway told now caps s (p.next ticks) ∧ Drops (p.next ticks).left p.left := by
  cases hfits : reason.all (fun reason => decide (reason.toList.length ≤ 500)) with
  | true =>
    have hbetween := h.closes hfresh hfits
    refine ⟨.claiming _ _ hbetween, ?_⟩
    have hsame : (summary.finished reason).requestsClaimed = summary.requestsClaimed := by
      cases reason <;> rfl
    rw [walk_left h.agent, claim_left hbetween.agent, hsame]
    exact Prod.Lex.left _ _ (Nat.lt_succ_self _)
  | false =>
    obtain ⟨reason', rfl⟩ : ∃ reason', reason = some reason' := by
      cases reason with
      | none => cases hfits
      | some reason' => exact ⟨reason', rfl⟩
    have hlong : ¬ reason'.toList.length ≤ 500 := by simpa using hfits
    obtain ⟨-, -, hagent⟩ := aborts_of_tooLong ticks h.agent hlong
    refine ⟨.failed _ reason' hagent (hsaid reason' rfl) hlong, ?_⟩
    rw [walk_left h.agent, Pass.left]
    simp only [hagent]
    exact Prod.Lex.left _ _ (Nat.succ_pos _)

end walk

/-- Every step of a pass under way keeps it under way and leaves less of it. -/
theorem Underway.next (h : Underway told now caps s p) (hlive : p.ended = false)
    (hclock : (ticks p.steps).now = now) (hlocked : ∀ x, (ticks p.steps).locked x = false)
    (haxes : ∀ q ∈ s.leadRequests.rows, q.due now [] = true → AxisServed s q.eventId)
    (hfresh : FreshIds p.db (ticks p.steps))
    (htold : ∀ c ∈ (p.turn ticks).calls, ∀ reason, c.refusal = some reason → told reason) :
    Underway told now caps s (p.next ticks) ∧ Drops (p.next ticks).left p.left := by
  cases h with
  | claiming parked summary between => exact between.next hclock hlocked
  | walking parked summary before q calls stage t within said =>
    by_cases hfinish : ∃ reason, stage = .finish reason
    · obtain ⟨reason, rfl⟩ := hfinish
      exact within.ends hfresh said
    · obtain ⟨next, summary', hwithin, hheard, hdrops⟩ := within.advance hfresh haxes
        fun reason heq => hfinish ⟨reason, heq⟩
      refine ⟨.walking _ _ _ _ _ _ _ hwithin fun reason hreason => ?_, hdrops⟩
      have hmem : reason ∈ next.reason.toList := Option.mem_toList.mpr hreason
      rw [← hheard] at hmem
      obtain ⟨c, hc, hrefusal⟩ := List.mem_filterMap.mp hmem
      exact htold c hc reason hrefusal
  | returned cleared =>
    obtain ⟨summary, hagent, -⟩ := cleared.summary
    rw [Pass.ended, hagent] at hlive
    cases hlive
  | failed e reason agent said long =>
    rw [Pass.ended, agent] at hlive
    cases hlive

theorem underway_start (hanchored : Anchored s) :
    Underway told now caps s (runDueLeadRequests caps s) :=
  .claiming [] .zero ⟨rfl, settled_start, rfl, Nat.zero_le _, .refl s, hanchored⟩

end pass

/-- A clock that stands, no other writer, and a database without a fault: the ids it draws are
fresh, and the columns that the rules ask for are there. -/
structure Alone (now : Timestamp) (ticks : ℕ → Tick) (caps : Caps) (s : Db) : Prop where
  clock : ∀ n, (ticks n).now = now
  unlocked : ∀ n x, (ticks n).locked x = false
  anchored : Anchored s
  axes : ∀ q ∈ s.leadRequests.rows, q.due now [] = true → AxisServed s q.eventId
  fresh : ∀ p, Leads (Pass.next ticks) (runDueLeadRequests caps s) p →
    FreshIds p.db (ticks p.steps)

section law

variable {told : String → Prop} {now : Timestamp} {ticks : ℕ → Tick} {caps : Caps} {s : Db}
  {p : Pass}

/-- The reasons of the refusals that the sink gives in the pass. -/
def Gives (ticks : ℕ → Tick) (caps : Caps) (s : Db) (told : String → Prop) : Prop :=
  ∀ p, Leads (Pass.next ticks) (runDueLeadRequests caps s) p → ∀ c ∈ (p.turn ticks).calls,
    ∀ reason, c.refusal = some reason → told reason

/-- A pass under way that the start leads to. -/
def Reached (told : String → Prop) (now : Timestamp) (ticks : ℕ → Tick) (caps : Caps) (s : Db)
    (p : Pass) : Prop :=
  Underway told now caps s p ∧ Leads (Pass.next ticks) (runDueLeadRequests caps s) p

theorem Alone.start (h : Alone now ticks caps s) :
    Reached told now ticks caps s (runDueLeadRequests caps s) :=
  ⟨underway_start h.anchored, .refl _⟩

theorem Reached.step (hp : Reached told now ticks caps s p) (h : Alone now ticks caps s)
    (hgives : Gives ticks caps s told) (hlive : p.ended = false) :
    Underway told now caps s (p.next ticks) ∧ Drops (p.next ticks).left p.left :=
  hp.1.next hlive (h.clock _) (h.unlocked _) h.axes (h.fresh p hp.2) (hgives p hp.2)

theorem Reached.next (hp : Reached told now ticks caps s p) (h : Alone now ticks caps s)
    (hgives : Gives ticks caps s told) : Reached told now ticks caps s (p.next ticks) := by
  refine ⟨?_, hp.2.trans ((Leads.refl _).head rfl)⟩
  cases hended : p.ended with
  | true =>
    rw [pass_next_of_ended hended]
    exact hp.1
  | false => exact (hp.step h hgives hended).1

theorem Alone.reached (h : Alone now ticks caps s) (hgives : Gives ticks caps s told)
    (hleads : Leads (Pass.next ticks) (runDueLeadRequests caps s) p) :
    Reached told now ticks caps s p :=
  hleads.invariant h.start fun _ hp => hp.next h hgives

theorem gives_anything : Gives ticks caps s (fun _ => True) := fun _ _ _ _ _ _ => trivial

theorem Alone.halts (h : Alone now ticks caps s) :
    Halts (Pass.next ticks) Pass.ended (runDueLeadRequests caps s) := by
  have hstart : Reached (fun _ => True) now ticks caps s (runDueLeadRequests caps s) := h.start
  apply halts_of_falling drops_wf Pass.left hstart
  · intro p hp
    exact hp.next h gives_anything
  · intro p hp hlive
    exact (hp.step h gives_anything hlive).2

/-- A sink call is made inside a walk, before its end. -/
theorem Underway.calling (h : Underway told now caps s p) {c : SinkCall}
    (hc : c ∈ (p.turn ticks).calls) : ∃ parked summary before q calls stage t,
      Within now caps s p parked summary before q calls stage t ∧
      ∀ reason, stage ≠ .finish reason := by
  cases h with
  | claiming parked summary between =>
    rw [(pass_next ticks between.agent).2.1] at hc
    simp only [Point.turn] at hc
    split at hc
    · cases hc
    · split at hc <;> cases hc
  | walking parked summary before q calls stage t within said =>
    refine ⟨_, _, _, _, _, _, _, within, ?_⟩
    rintro reason rfl
    rw [(pass_next ticks within.agent).2.1, Point.turn, (finish_turn _ _ _ _ _ _ _).2] at hc
    cases hc
  | returned cleared =>
    obtain ⟨summary, hagent, -⟩ := cleared.summary
    rw [Pass.turn, hagent] at hc
    cases hc
  | failed e reason agent said long =>
    rw [Pass.turn, agent] at hc
    cases hc

/-- A long reason ends the pass in an error. -/
theorem short_of_passClears (h : Alone now ticks caps s) (hclears : PassClears now ticks caps s) :
    Gives ticks caps s (fun reason => reason.toList.length ≤ 500) := by
  intro p hleads c hc reason hrefusal
  obtain ⟨parked, summary, before, q, calls, stage, t, hwithin, hlive⟩ :=
    (h.reached gives_anything hleads).1.calling hc
  obtain ⟨next, summary', hnext, hheard, -⟩ :=
    hwithin.advance (h.fresh p hleads) h.axes hlive
  have hmem : reason ∈ next.reason.toList := by
    rw [← hheard]
    exact List.mem_filterMap.mpr ⟨c, hc, hrefusal⟩
  obtain rfl : next = .finish (some reason) := by
    cases next <;> simp_all [Stage.reason]
  by_contra hlong
  obtain ⟨-, -, hagent⟩ := aborts_of_tooLong ticks hnext.agent hlong
  obtain ⟨p', hleads', hended', hcleared⟩ := hclears
  have hlast : p' = (p.next ticks).next ticks := by
    apply hleads'.unique (hleads.trans ((Leads.refl _).head rfl |>.head rfl)) hended'
    · rw [Pass.ended, hagent]
      rfl
    · exact fun _ => pass_next_of_ended
  obtain ⟨summary, hreturned, -⟩ := hcleared.summary
  rw [hlast, hagent] at hreturned
  cases hreturned

/-- The pass clears the queue exactly where each reason the sink refuses with fits its column. -/
theorem passClears_iff (h : Alone now ticks caps s) : PassClears now ticks caps s ↔
    Gives ticks caps s (fun reason => reason.toList.length ≤ 500) := by
  refine ⟨short_of_passClears h, fun hgives => ?_⟩
  obtain ⟨n, hended⟩ := h.halts
  refine ⟨_, ⟨n, rfl⟩, hended, ?_⟩
  cases (h.reached hgives ⟨n, rfl⟩).1 with
  | claiming parked summary between =>
    rw [(pass_next ticks between.agent).1] at hended
    cases hended
  | walking parked summary before q calls stage t within said =>
    rw [(pass_next ticks within.agent).1] at hended
    cases hended
  | returned cleared => exact cleared
  | failed e reason agent said long => exact absurd said long

end law

section sample

/-- A global rule, one attendee, and the event waiting in the queue. -/
def guestDue : Db :=
  (Db.withRule ⟨1, id, id⟩ everyGuest openGig).next (.register (.counting 1) ann)

/-- The same with two events, each with an attendee. -/
def gigsDue : Db :=
  ((Db.withRule ⟨1, id, id⟩ everyGuest { openGig with
    events := openGig.events.push { gig with id := 2, seatsLimited := false, seatsMax := 0 } }).next
      (.register (.counting 1) ann)).next (.register (.counting 2) { bob with eventId := 2 })

def cronPass (s : Db) (answer : Except String Uuid) (n : ℕ) : Pass :=
  (Pass.next (Tick.answering answer))^[n] (runDueLeadRequests defaultCaps s)

/-- The pass has drawn ids below those to come. -/
def Pass.DrawsBelow (p : Pass) (k : ℕ) : Prop :=
  p.steps = k ∧ (∀ x ∈ p.db.leadProvenances.rows, x.id < 1000 * (k + 1)) ∧
    ∀ j ∈ p.db.leadProvenanceRegistrations.rows, j.id < 1000 * (k + 1)

instance (p : Pass) (k : ℕ) : Decidable (p.DrawsBelow k) :=
  inferInstanceAs (Decidable (_ ∧ _ ∧ _))

theorem cronPass_alone {s : Db} {answer : Except String Uuid} {n : ℕ}
    (hjunctions : s.leadProvenanceRegistrations.rows = []) (hpredicates : s.leadPredicates.rows = [])
    (hended : (cronPass s answer n).ended = true)
    (hbelow : ∀ k ≤ n, (cronPass s answer k).DrawsBelow k) :
    Alone 0 (Tick.answering answer) defaultCaps s where
  clock _ := rfl
  unlocked _ _ := rfl
  anchored := anchored_of_empty hjunctions
  axes q _ _ := axisServed_of_empty hpredicates q.eventId
  fresh p hleads := by
    obtain ⟨k, hk, rfl⟩ := hleads.within hended fun _ => pass_next_of_ended
    obtain ⟨hsteps, hprovenances, hjunctions⟩ := hbelow k hk
    change FreshIds (cronPass s answer k).db (Tick.answering answer (cronPass s answer k).steps)
    rw [hsteps]
    exact fresh_of_below hprovenances hjunctions

/-- A sink that refuses everything. -/
def refusing : ℕ → Tick := Tick.answering (.error "no pipeline")

theorem passClears_refused : PassClears 0 refusing defaultCaps gigsDue := by
  refine (passClears_iff (cronPass_alone (by decide) (by decide) (n := 17) (by decide)
    (by decide))).mpr ?_
  intro p hleads c hc reason hrefusal
  obtain ⟨k, hk, rfl⟩ := hleads.within (n := 17) (by decide) fun _ => pass_next_of_ended
  have hsaid : ∀ k ≤ 17, ∀ c ∈ ((cronPass gigsDue (.error "no pipeline") k).turn refusing).calls,
      c.refusal.all (· == "no pipeline") = true := by decide
  have hsame := hsaid k hk c hc
  rw [hrefusal] at hsame
  rw [beq_iff_eq.mp hsame]
  decide

theorem cronPass_aborted : (cronPass guestDue (.error longReason) 8).ended = true ∧
    (cronPass guestDue (.error longReason) 8).steps = 8 ∧
    (cronPass guestDue (.error longReason) 8).db = (cronPass guestDue (.error longReason) 7).db := by
  have hagent : (cronPass guestDue (.error longReason) 7).agent = .running defaultCaps
      (.walk (.cron []) 1 (.finish (some longReason))) _ := rfl
  have hsucc : cronPass guestDue (.error longReason) 8 =
      (cronPass guestDue (.error longReason) 7).next (Tick.answering (.error longReason)) := rfl
  obtain ⟨hsteps, hdb, hreturned⟩ := aborts_of_tooLong (Tick.answering (.error longReason)) hagent
    longReason_long
  rw [hsucc, Pass.ended, hreturned]
  exact ⟨rfl, hsteps, hdb⟩

theorem longReason_aborts :
    ¬ PassClears 0 (Tick.answering (.error longReason)) defaultCaps guestDue := by
  obtain ⟨hended, hsteps, hdb⟩ := cronPass_aborted
  have hbelow : ∀ k ≤ 8, (cronPass guestDue (.error longReason) k).DrawsBelow k := by
    intro k hk
    rcases Nat.lt_or_eq_of_le hk with hk | rfl
    · have hfirst : ∀ k < 8, (cronPass guestDue (.error longReason) k).DrawsBelow k := by decide
      exact hfirst k hk
    · rw [Pass.DrawsBelow, hdb]
      exact ⟨hsteps, by decide, by decide⟩
  intro hclears
  have hshort := short_of_passClears (cronPass_alone (by decide) (by decide) hended hbelow) hclears
    (cronPass guestDue (.error longReason) 6) ⟨6, rfl⟩ (.created _ (.error longReason))
    (List.mem_singleton.mpr rfl) longReason rfl
  exact longReason_long hshort

end sample

end BackboneEvents.LeadGeneration
