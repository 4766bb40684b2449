import BackboneEvents.AuditTruth
import BackboneEvents.GuardedRuns
import BackboneEvents.SeatEntries

/-!
# Ticket caps over runs

A ticket has a seat cap of its own, which no verb reads: the register head reads its sale
window, the seat head and the heals read nothing of it. A run keeps the caps exactly when
the calls that the verbs admit find the ticket's seats free.
-/
namespace BackboneEvents.TicketCaps
open ConstrainedTables TransactionPrograms GrandTotal GuardedRuns

/-- The column `seats_max` of the tickets, by id. -/
abbrev SeatsMax := Uuid → ℤ

def onTicket (ticketId : Uuid) : Booking := fun _ _ ticket => ticket == some ticketId

/-- The seats taken on a capped ticket are at most its cap; 0 is unlimited. -/
def TiersRespected (seatsMax : SeatsMax) (s : Db) : Prop :=
  ∀ ticket ∈ s.tickets.rows, 0 < seatsMax ticket.id →
    (s.seated (onTicket ticket.id) : ℤ) ≤ seatsMax ticket.id

/-- Every capped ticket has free the seats that the call brings rows onto. -/
def FreeOnTickets (seatsMax : SeatsMax) (s : Db) (c : Call) : Prop :=
  ∀ ticket ∈ s.tickets.rows, 0 < seatsMax ticket.id →
    (s.seated (onTicket ticket.id) + entering s (onTicket ticket.id) c : ℤ) ≤ seatsMax ticket.id

/-- A call that would exceed a ticket's cap is refused with nothing changed. -/
def RefusesExcess (seatsMax : SeatsMax) (s : Db) (c : Call) : Prop :=
  ¬ FreeOnTickets seatsMax s c → ∃ e, c.answer s = .error e ∧ c.apply s = s

/-- An admitted call finds its ticket's seats free. -/
def Provided (seatsMax : SeatsMax) (s : Db) (c : Call) : Prop :=
  Admits s c → FreeOnTickets seatsMax s c

section step

variable {seatsMax : SeatsMax} {s t : Db} {c : Call}

theorem tickets_of_effect (h : c.Effect s t) : t.tickets = s.tickets := by
  cases h with
  | minted verb fresh unlinked mint => exact mint.keeps Db.tickets fun _ _ _ => rfl
  | refused | replayed | registered | transitioned | freeHealed | heldBack | cancelled | paid => rfl

/-- An answered call keeps the ticket caps exactly when it finds their seats free. -/
theorem tiersRespected_apply_iff {a : Answer} (hs : TiersRespected seatsMax s)
    (h : c.answer s = .ok a) :
    TiersRespected seatsMax (c.apply s) ↔ FreeOnTickets seatsMax s c := by
  obtain ⟨t, rows, hrun, happly⟩ := Call.apply_of_answer h
  have htickets : (c.apply s).tickets = s.tickets := by
    have hkept := tickets_of_effect (Call.effect_of_run hrun)
    rw [happly]
    exact hkept
  have hseated : ∀ b, (c.apply s).seated b = t.seated b := fun b => by
    rw [happly]
    rfl
  simp only [TiersRespected, FreeOnTickets, htickets, hseated]
  refine forall_congr' fun ticket => forall_congr' fun hmem => forall_congr' fun hcap => ?_
  have hbefore := hs ticket hmem hcap
  have hcommitted := @seated_of_committed s t (onTicket ticket.id) c a hrun
  omega

/-- One step keeps the caps exactly when an admitted call finds the seats free. -/
theorem tiersRespected_next_iff (hs : TiersRespected seatsMax s) :
    TiersRespected seatsMax (Db.next s c) ↔ Provided seatsMax s c := by
  rw [Db.next, Provided, admits_iff]
  cases hanswer : c.answer s with
  | error e =>
    rw [AuditTruth.apply_of_refused hanswer]
    refine iff_of_true hs fun hadmits => ?_
    obtain ⟨a, ha⟩ := hadmits
    cases ha
  | ok a =>
    rw [tiersRespected_apply_iff hs hanswer]
    exact ⟨fun h _ => h, fun h => h ⟨a, rfl⟩⟩

theorem refusesExcess_iff : RefusesExcess seatsMax s c ↔ Provided seatsMax s c := by
  rw [RefusesExcess, Provided, admits_iff]
  cases hanswer : c.answer s with
  | error e =>
    refine iff_of_true (fun _ => ⟨e, rfl, AuditTruth.apply_of_refused hanswer⟩) fun hadmits => ?_
    obtain ⟨a, ha⟩ := hadmits
    cases ha
  | ok a =>
    constructor
    · intro h _
      by_contra hexceeds
      obtain ⟨e, he, -⟩ := h hexceeds
      cases he
    · intro h hexceeds
      exact absurd (h ⟨a, rfl⟩) hexceeds

end step

/-- No state of a run exceeds a ticket's cap and every call that would is refused with nothing
changed, exactly when every admitted call of the run finds its ticket's seats free. -/
theorem ticketCaps_throughout_iff {seatsMax : SeatsMax} {s : Db} (hs : TiersRespected seatsMax s)
    (calls : List Call) :
    (Throughout Db.next (TiersRespected seatsMax) s calls ∧
      Along Db.next (RefusesExcess seatsMax) s calls) ↔
      Along Db.next (Provided seatsMax) s calls := by
  rw [throughout_iff_along hs fun s c hs => tiersRespected_next_iff hs,
    along_congr fun s c => refusesExcess_iff, and_self]

section sample

def vip : Ticket := ⟨5, 1, none, none⟩

/-- An event without a limit, whose one ticket has one seat. -/
def vipGig : Db := { openGig with tickets := Table.empty.push vip }

def oneVip : SeatsMax := fun _ => 1

def vipAnn : RegisterCommand := { ann with eventTicketId := some 5 }

theorem vipGig_respected : TiersRespected oneVip vipGig := by
  intro ticket hticket _
  obtain rfl : ticket = vip := List.mem_singleton.mp hticket
  decide

theorem ticketCaps_throughout_iff_vip :
    Throughout Db.next (TiersRespected oneVip) vipGig [.register (.counting 1) vipAnn] ∧
      Along Db.next (RefusesExcess oneVip) vipGig [.register (.counting 1) vipAnn] := by
  refine (ticketCaps_throughout_iff vipGig_respected _).mpr ⟨fun _ ticket hticket _ => ?_, trivial⟩
  obtain rfl : ticket = vip := List.mem_singleton.mp hticket
  decide

/-- Two attendees register on the one-seat ticket, and both are accepted. -/
theorem vipGig_oversold :
    TiersRespected oneVip vipGig ∧
    ¬ Throughout Db.next (TiersRespected oneVip) vipGig
      [.register (.counting 1) vipAnn, .register (.counting 2) { vipAnn with name := "Bob" }] := by
  refine ⟨vipGig_respected, fun h => ?_⟩
  have hend := h.last vip (by decide) (by decide)
  exact absurd hend (by decide)

end sample

end BackboneEvents.TicketCaps
