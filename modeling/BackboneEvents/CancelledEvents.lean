import BackboneEvents.GuardedRuns
import BackboneEvents.VerbCalls

/-!
# Seats on cancelled events

The register head refuses a cancelled event. The state verb's seat head and the two heals
lift a stored row into the counting domain without reading its event's kanban state.
-/
namespace BackboneEvents
open ConstrainedTables TransactionPrograms GrandTotal GuardedRuns

def Db.isCancelled (s : Db) (eventId : Uuid) : Bool :=
  (s.event? eventId).any (·.kanbanState == .cancel)

/-- No seat on a cancelled event is taken from `s` to `t`: what is in the counting domain of
such an event was in it before. -/
def TakesNoSeat (s t : Db) : Prop :=
  ∀ r ∈ t.registrations.rows, r.eligible = true → s.isCancelled r.eventId = true →
    ∃ x ∈ s.registrations.rows, x.id = r.id ∧ x.eventId = r.eventId ∧ x.eligible = true

/-- The rows that the call would lift into the counting domain are not a cancelled event's, or
the seat head finds no room for them. -/
def SparesCancelled (s : Db) : Call → Prop
  | .register _ _ => True
  | .transition _ registrationId target _ => ∀ r event, s.registration? registrationId = some r →
      takesSeat r target = true → s.event? r.eventId = some event →
      event.kanbanState = .cancel →
      event.exhausted (s.taken r.eventId r.eventSlotId) = true
  | .seam c => s.seamInbox.accepts c.key = true →
      match c.verb with
      | .confirmed grandTotal _ => s.linked c.orderId ≠ 0 → grandTotalIsZero grandTotal = true →
          ∀ r ∈ s.registrations.rows, freeHeals c.orderId r = true →
            s.isCancelled r.eventId = false
      | .cancelled => True
      | .paid _ => ∀ r ∈ s.registrations.rows, paidHeals c.orderId r = true →
          s.isCancelled r.eventId = false

section Step

variable {s t : Db}

theorem isCancelled_of_event {eventId : Uuid} {event : Event} (h : s.event? eventId = some event) :
    s.isCancelled eventId = true ↔ event.kanbanState = .cancel := by
  simp [Db.isCancelled, h]

theorem TakesNoSeat.refl (s : Db) : TakesNoSeat s s :=
  fun r hr heligible _ => ⟨r, hr, rfl, rfl, heligible⟩

theorem TakesNoSeat.audited {rows : List AuditRow} :
    TakesNoSeat s (t.audited rows) ↔ TakesNoSeat s t := Iff.rfl

/-- An update takes no seat where the rows it lifts are of live events. -/
theorem takesNoSeat_of_modified {p : Registration → Bool} {f : Update Registration}
    (hrows : t.registrations = s.registrations.modify p f)
    (hf : ∀ r ∈ s.registrations.rows, p r = true →
      (f r).id = r.id ∧ (f r).eventId = r.eventId ∧
        ((f r).eligible = true → r.eligible = true ∨ s.isCancelled r.eventId = false)) :
    TakesNoSeat s t := by
  intro r hr heligible hcancelled
  rw [hrows] at hr
  obtain ⟨x, hx, rfl⟩ := Table.mem_modify.mp hr
  by_cases hp : p x = true
  · rw [if_pos hp] at heligible hcancelled ⊢
    obtain ⟨hid, hevent, hlift⟩ := hf x hx hp
    rcases hlift heligible with hbefore | hlive
    · exact ⟨x, hx, hid.symm, hevent.symm, hbefore⟩
    · rw [hevent, hlive] at hcancelled
      cases hcancelled
  · rw [if_neg hp] at heligible ⊢
    exact ⟨x, hx, rfl, rfl, heligible⟩

/-- A row that an update lifts from outside onto a cancelled event breaks the law. -/
theorem not_takesNoSeat_of_lifted {r : Registration} {r' : Registration}
    (hr : r ∈ s.registrations.rows) (hr' : r' ∈ t.registrations.rows) (hid : r'.id = r.id)
    (hevent : r'.eventId = r.eventId) (hout : r.outside = true) (hlifted : r'.eligible = true)
    (hcancelled : s.isCancelled r.eventId = true) : ¬ TakesNoSeat s t := by
  intro h
  obtain ⟨x, hx, hxid, -, hxeligible⟩ := h r' hr' hlifted (by rw [hevent]; exact hcancelled)
  obtain rfl := registration_eq_of_id hx hr (hxid.trans hid)
  rw [Registration.eligible_of_outside hout] at hxeligible
  cases hxeligible

theorem takesNoSeat_registered {env : Env} {cmd : RegisterCommand} {event : Event}
    {slotId : Option Uuid} {draw : Draw} (hadm : Admitted s draw cmd event slotId)
    {row : Registration} (hrow : row.eventId = cmd.eventId)
    (hnew : s.registrations.accepts row = true) (sale : Bool) :
    TakesNoSeat s (s.registered env cmd sale row) := by
  intro r hr heligible hcancelled
  rw [Db.registered, Table.rows_push hnew, List.mem_append, List.mem_singleton] at hr
  rcases hr with hr | rfl
  · exact ⟨r, hr, rfl, rfl, heligible⟩
  · rw [hrow] at hcancelled
    exact absurd ((isCancelled_of_event hadm.found).mp hcancelled) hadm.notCancelled

/-- Two steps that leave the events alone take no seat if neither does. -/
theorem TakesNoSeat.trans {u : Db} (h : TakesNoSeat s t) (h' : TakesNoSeat t u)
    (hevents : t.events = s.events) : TakesNoSeat s u := by
  have hcancelled : ∀ e, t.isCancelled e = s.isCancelled e := by
    intro e
    simp only [Db.isCancelled, Db.event?, hevents]
  intro r hr heligible hcancel
  obtain ⟨x, hx, hid, hevent, hxeligible⟩ := h' r hr heligible ((hcancelled _).trans hcancel)
  obtain ⟨y, hy, hyid, hyevent, hyeligible⟩ := h x hx hxeligible (by rw [hevent]; exact hcancel)
  exact ⟨y, hy, hyid.trans hid, hyevent.trans hevent, hyeligible⟩

theorem takesNoSeat_minted {env : Env} {link : SaleLink} {k : ℕ} {specs : List RegisterCommand}
    (h : Minted env link k specs s t) : TakesNoSeat s t := by
  induction h with
  | nil k s => exact .refl s
  | cons head tail ih =>
    obtain ⟨event, slotId, hadm, -, hrow, hfits, rfl⟩ := run_registerCore_ok head
    simp only [insertable, Bool.and_eq_true] at hfits
    exact (takesNoSeat_registered hadm (congrArg Registration.eventId hrow) hfits.2 true).trans
      ih rfl

/-- A call that spares cancelled events takes no seat on one. -/
theorem takesNoSeat_of_effect {c : Call} (h : c.Effect s t) (hspares : SparesCancelled s c) :
    TakesNoSeat s t := by
  cases h with
  | refused | replayed => exact .refl s
  | registered admitted room fits =>
    simp only [insertable, Bool.and_eq_true] at fits
    exact takesNoSeat_registered admitted rfl fits.2 false
  | @transitioned env r target actor _ found seat =>
    refine takesNoSeat_of_modified rfl fun x hx hid => ⟨rfl, rfl, fun hlifted => ?_⟩
    obtain rfl := registration_eq_of_id hx (registration?_mem found).1 (by simpa using hid)
    cases htakes : takesSeat x target with
    | false =>
      left
      simp only [Registration.eligible, Registration.moved, Bool.and_eq_true] at hlifted ⊢
      simp only [takesSeat, hlifted, Bool.true_and, Registration.outside] at htakes
      refine ⟨?_, hlifted.2⟩
      cases hstate : x.state <;> simp_all
    | true =>
      right
      obtain ⟨event, hevent, hroom⟩ := seat htakes
      cases hcancelled : s.isCancelled x.eventId with
      | false => rfl
      | true =>
        rw [hspares x event found htakes hevent ((isCancelled_of_event hevent).mp hcancelled)]
          at hroom
        cases hroom
  | minted verb fresh unlinked mint =>
    have h := takesNoSeat_minted mint
    exact fun r hr => h r hr
  | freeHealed verb fresh linked free =>
    simp only [SparesCancelled, verb] at hspares
    exact takesNoSeat_of_modified rfl fun x hx hheals =>
      ⟨rfl, rfl, fun _ => .inr (hspares fresh linked free x hx hheals)⟩
  | heldBack verb fresh linked paid =>
    exact takesNoSeat_of_modified rfl fun x _ _ => ⟨rfl, rfl, fun h => .inl h⟩
  | cancelled verb fresh =>
    refine takesNoSeat_of_modified rfl fun x _ _ => ⟨rfl, rfl, fun h => ?_⟩
    simp [Registration.eligible, Registration.orderCancelled] at h
  | @paid c _ lineIds verb fresh =>
    simp only [SparesCancelled, verb] at hspares
    let healed := s.registrations.modify (paidHeals c.orderId) Registration.paidHealed
    have hheal : TakesNoSeat s { s with registrations := healed } :=
      takesNoSeat_of_modified rfl fun x hx hheals =>
        ⟨rfl, rfl, fun _ => .inr (hspares fresh x hx hheals)⟩
    exact hheal.trans (takesNoSeat_of_modified rfl fun x _ _ => ⟨rfl, rfl, fun h => .inl h⟩) rfl

end Step

section Converse

variable {s : Db}

theorem next_of_run {c : Call} {a : Answer} {t : Db} (h : c.program.run s = .ok (a, t)) :
    ∃ rows, s.next c = t.audited rows := ⟨_, congrArg Prod.snd (execute_ok h)⟩

theorem spares_of_transition {env : Env} {registrationId : Uuid} {target : RegistrationState}
    {actor : Option Uuid} (h : TakesNoSeat s (s.next (.transition env registrationId target actor))) :
    SparesCancelled s (.transition env registrationId target actor) := by
  intro r event hfound htakes hevent hcancel
  cases hroom : event.exhausted (s.taken r.eventId r.eventSlotId) with
  | true => rfl
  | false =>
    obtain ⟨hmem, rfl⟩ := registration?_mem hfound
    have hrun : (Call.transition env r.id target actor).program.run s =
        .ok (.moved r.state target r.active, s.transitioned env r target actor) := by
      rw [Call.program, Program.bind_eq, Program.run_bind, run_transition_some env target actor hfound,
        if_pos htakes]
      simp only [hevent, hroom, Bool.false_eq_true, if_false]
      rfl
    obtain ⟨rows, hnext⟩ := next_of_run hrun
    rw [hnext, TakesNoSeat.audited] at h
    simp only [takesSeat, Bool.and_eq_true] at htakes
    refine absurd h (not_takesNoSeat_of_lifted hmem
      (Table.mem_modify.mpr ⟨r, hmem, if_pos (by simp)⟩) rfl rfl htakes.2 ?_
      ((isCancelled_of_event hevent).mpr hcancel))
    simp only [Registration.eligible, Registration.moved, Bool.and_eq_true]
    exact ⟨htakes.1.2, htakes.1.1⟩

theorem spares_of_seam {c : SeamCall} (h : TakesNoSeat s (s.next (.seam c))) :
    SparesCancelled s (.seam c) := by
  intro hfresh
  have hbody : ∀ outcome t, c.body.run (s.claimed c.key.consumer c.key.externalId) =
      .ok (outcome, t) → TakesNoSeat s t := by
    intro outcome t hrun
    have hprogram : (Call.seam c).program.run s = .ok (.seam outcome, t) := by
      rw [Call.program, Program.bind_eq, Program.run_bind, c.run_program, if_pos hfresh, hrun]
      rfl
    obtain ⟨rows, hnext⟩ := next_of_run hprogram
    rw [hnext, TakesNoSeat.audited] at h
    exact h
  cases hverb : c.verb with
  | cancelled => trivial
  | confirmed grandTotal specs =>
    intro hlinked hfree r hr hheals
    cases hcancelled : s.isCancelled r.eventId with
    | false => rfl
    | true =>
      obtain ⟨outcome, hrun⟩ : ∃ outcome, c.body.run (s.claimed c.key.consumer c.key.externalId) =
          .ok (outcome, (s.claimed c.key.consumer c.key.externalId).freeHealed c.env c.orderId) := by
        rw [SeamCall.body, hverb]
        have hlinked' : (s.claimed c.key.consumer c.key.externalId).linked c.orderId ≠ 0 := hlinked
        simp only [run_mintOrHeal_linked hlinked', hfree, if_true]
        exact ⟨_, rfl⟩
      have heals := hheals
      simp only [freeHeals, Bool.and_eq_true] at heals
      refine absurd (hbody _ _ hrun) (not_takesNoSeat_of_lifted hr
        (Table.mem_modify.mpr ⟨r, hr, if_pos hheals⟩) rfl rfl heals.1.2 ?_ hcancelled)
      simp [Registration.eligible, Registration.freeHealed, heals.2]
  | paid lineIds =>
    intro r hr hheals
    cases hcancelled : s.isCancelled r.eventId with
    | false => rfl
    | true =>
      obtain ⟨outcome, hrun⟩ : ∃ outcome, c.body.run (s.claimed c.key.consumer c.key.externalId) =
          .ok (outcome, (s.claimed c.key.consumer c.key.externalId).paid c.env c.orderId lineIds) := by
        rw [SeamCall.body, hverb]
        exact ⟨_, run_payOrder⟩
      have heals := hheals
      simp only [paidHeals, Bool.and_eq_true] at heals
      have hmem : Registration.paidHealed r ∈ ((s.claimed c.key.consumer c.key.externalId).paid
          c.env c.orderId lineIds).registrations.rows :=
        Table.mem_modify.mpr ⟨Registration.paidHealed r,
          Table.mem_modify.mpr ⟨r, hr, if_pos hheals⟩,
          if_neg (by simp [paidSells, Registration.paidHealed])⟩
      refine absurd (hbody _ _ hrun)
        (not_takesNoSeat_of_lifted hr hmem rfl rfl heals.1.1.2 ?_ hcancelled)
      simp [Registration.eligible, Registration.paidHealed, heals.2]

theorem takesNoSeat_iff (s : Db) (c : Call) : TakesNoSeat s (s.next c) ↔ SparesCancelled s c := by
  constructor
  · intro h
    cases c with
    | register env cmd => trivial
    | transition env registrationId target actor => exact spares_of_transition h
    | seam c => exact spares_of_seam h
  · intro h
    obtain ⟨t, rows, heffect, happly⟩ := c.apply_effect s
    rw [Db.next, happly, TakesNoSeat.audited]
    exact takesNoSeat_of_effect heffect h

end Converse

/-- Over a run, no verb takes a seat on a cancelled event if and only if every state verb and
heal of the run spares the cancelled events. -/
theorem cancelled_seatless_iff (s : Db) (calls : List Call) :
    Along Db.next (fun s c => TakesNoSeat s (s.next c)) s calls ↔
      Along Db.next SparesCancelled s calls :=
  along_congr takesNoSeat_iff

section Sample

/-- The gig, cancelled after Ann's registration was put back to draft. -/
def cancelledGig : Db :=
  let s := oneSeat.applyAll
    [.register (.counting 1) ann, .transition (.counting 2) 1 .draft none]
  { s with events := Table.empty.push { gig with kanbanState := .cancel } }

/-- The state verb seats Ann at the cancelled gig. -/
theorem cancelledGig_seated : ¬ Along Db.next (fun s c => TakesNoSeat s (s.next c)) cancelledGig
    [.transition (.counting 3) 1 .open none] := by
  rw [cancelled_seatless_iff]
  rintro ⟨h, -⟩
  exact absurd (h _ _ (show cancelledGig.registration? 1 = some _ from rfl) (by decide)
    (show cancelledGig.event? 1 = some _ from rfl) (by decide)) (by decide)

end Sample

end BackboneEvents
