import BackboneEvents.KeysetPages
import BackboneEvents.RegistrationLives

/-!
# The officer's listing of registrations

The listing of an event is read in pages by id while the verbs go on. No registration is listed
twice, and once a page is not full every registration that was there at the first request has been
listed.
-/
namespace BackboneEvents.RegistrationPages
open RegistrationLives KeysetPages

def registrationsOf (eventId : Uuid) (s : Db) : List Registration :=
  s.registrations.rows.filter (·.eventId == eventId)

/-- `WHERE event_id = $1 AND ($2 IS NULL OR id > $2) ORDER BY id LIMIT $3`. -/
def listRegistrations (s : Db) (eventId : Uuid) (limit : ℤ) (after : Option Uuid) :
    Except EventError (List Registration) :=
  if limit < 0 then .error (.database "LIMIT must not be negative")
  else .ok (page Registration.id limit.toNat after (registrationsOf eventId s))

structure ListRegistrationsQuery where
  eventId : Uuid
  limit : Option ℤ
  after : Option Uuid

/-- `limit.unwrap_or(50).clamp(1, 500)`. -/
def ListRegistrationsQuery.clamped (limit : Option ℤ) : ℤ := max 1 (min 500 (limit.getD 50))

namespace AdminRoutes

def listRegistrations (s : Db) (q : ListRegistrationsQuery) :
    Except EventError (List Registration) :=
  RegistrationPages.listRegistrations s q.eventId (ListRegistrationsQuery.clamped q.limit) q.after

end AdminRoutes

/-- An officer reads on, each request after the last id listed; after each request some acts go
by. -/
def readOn (eventId : Uuid) (limit : Option ℤ) :
    Option Uuid → Db → List (List RegistrationAct) → Except EventError (List (List Registration))
  | _, _, [] => return []
  | cursor, s, acts :: rest => do
    let given ← AdminRoutes.listRegistrations s ⟨eventId, limit, cursor⟩
    let more ← readOn eventId limit (advance Registration.id cursor given) (acts.foldl step s) rest
    return given :: more

/-- The rows of the event at each request. -/
def views (eventId : Uuid) : Db → List (List RegistrationAct) → List (List Registration)
  | _, [] => []
  | s, acts :: rest => registrationsOf eventId s :: views eventId (acts.foldl step s) rest

section views

variable {eventId : Uuid} {limit : Option ℤ} {s : Db} {chunks : List (List RegistrationAct)}

theorem clamped_bounds (limit : Option ℤ) :
    1 ≤ ListRegistrationsQuery.clamped limit ∧ ListRegistrationsQuery.clamped limit ≤ 500 := by
  rw [ListRegistrationsQuery.clamped]
  omega

/-- The requests are keyset pages, and none of them fails. -/
theorem readOn_eq (cursor : Option Uuid) : readOn eventId limit cursor s chunks =
    .ok (pages Registration.id (ListRegistrationsQuery.clamped limit).toNat cursor
      (views eventId s chunks)) := by
  induction chunks generalizing cursor s with
  | nil => rfl
  | cons acts rest ih =>
    have hlimit : ¬ ListRegistrationsQuery.clamped limit < 0 := by
      have := (clamped_bounds limit).1
      omega
    simp only [readOn, AdminRoutes.listRegistrations, listRegistrations, if_neg hlimit]
    simp only [bind, Except.bind, ih]
    rfl

theorem nodup_ids (s : Db) : (s.registrations.rows.map Registration.id).Nodup := by
  refine List.pairwise_map.mpr (s.registrations.unique.imp fun {a b} h => ?_)
  simp only [ConstrainedTables.clash, Bool.or_eq_false_iff, beq_eq_false_iff_ne] at h
  exact h.1

/-- Each view is what the acts so far left of the event. -/
theorem views_reached : ∀ rows ∈ views eventId s chunks, ∃ before after,
    chunks.flatten = before ++ after ∧ rows = registrationsOf eventId (before.foldl step s) := by
  induction chunks generalizing s with
  | nil => intro rows h; cases h
  | cons acts rest ih =>
    intro rows h
    rcases List.mem_cons.mp h with rfl | h
    · exact ⟨[], _, rfl, rfl⟩
    · obtain ⟨before, after, hsplit, hrows⟩ := ih rows h
      refine ⟨acts ++ before, after, ?_, ?_⟩
      · rw [List.flatten_cons, hsplit, List.append_assoc]
      · rw [hrows, List.foldl_append]

theorem nodup_views : ∀ rows ∈ views eventId s chunks, (rows.map Registration.id).Nodup := by
  intro rows h
  obtain ⟨before, after, -, rfl⟩ := views_reached rows h
  exact (nodup_ids _).sublist (List.filter_sublist.map Registration.id)

/-- A registration of the event is in every view, as it lives on. -/
theorem lives_in_views {r : Registration} (hr : r ∈ registrationsOf eventId s) :
    ∀ rows ∈ views eventId s chunks, ∃ r' ∈ rows, Lives r r' := by
  intro rows h
  obtain ⟨before, after, -, rfl⟩ := views_reached rows h
  obtain ⟨hstored, hevent⟩ := List.mem_filter.mp hr
  obtain ⟨r', hr', hlives⟩ := keepsAll_run s before r hstored
  refine ⟨r', List.mem_filter.mpr ⟨hr', ?_⟩, hlives⟩
  rw [hlives.column Registration.eventId fun _ => rfl]
  exact hevent

/-- No id of a view is gone in the end. -/
theorem ids_of_views : ∀ rows ∈ views eventId s chunks, ∀ r ∈ rows,
    r.id ∈ (registrationsOf eventId (chunks.flatten.foldl step s)).map Registration.id := by
  intro rows h r hr
  obtain ⟨before, after, hsplit, rfl⟩ := views_reached rows h
  obtain ⟨hstored, hevent⟩ := List.mem_filter.mp hr
  obtain ⟨r', hr', hlives⟩ := keepsAll_run (before.foldl step s) after r hstored
  rw [hsplit, List.foldl_append, ← hlives.id]
  refine List.mem_map_of_mem (List.mem_filter.mpr ⟨hr', ?_⟩)
  rw [hlives.column Registration.eventId fun _ => rfl]
  exact hevent

end views

/-- However the acts fall between the requests: none fails, no page is longer than the clamp, the
ids ascend, so none is listed twice, and what is listed was stored. A page that is not full means
that every registration of the event at the first request was listed, as it lives on. There are at
most as many full pages as the registrations of the event fill. -/
theorem readOn_complete (s : Db) (eventId : Uuid) (limit : Option ℤ)
    (chunks : List (List RegistrationAct)) :
    ∃ given, readOn eventId limit none s chunks = .ok given ∧
      (∀ listed ∈ given, (listed.length : ℤ) ≤ ListRegistrationsQuery.clamped limit ∧
        listed.length ≤ 500) ∧
      (given.flatten.map Registration.id).Pairwise (· < ·) ∧
      (∀ r ∈ given.flatten, r.eventId = eventId ∧ ∃ before after, chunks.flatten = before ++ after ∧
        r ∈ (before.foldl step s).registrations.rows) ∧
      ((∃ listed ∈ given, (listed.length : ℤ) < ListRegistrationsQuery.clamped limit) →
        ∀ r ∈ s.registrations.rows, r.eventId = eventId → ∃ r' ∈ given.flatten, Lives r r') ∧
      given.countP (fun listed => (listed.length : ℤ) == ListRegistrationsQuery.clamped limit) *
          ListRegistrationsQuery.clamped limit ≤
        ((chunks.flatten.foldl step s).registrations.count (·.eventId == eventId) : ℤ) := by
  obtain ⟨hpos, hle⟩ := clamped_bounds limit
  have hclamped : ((ListRegistrationsQuery.clamped limit).toNat : ℤ) =
      ListRegistrationsQuery.clamped limit := Int.toNat_of_nonneg (by omega)
  refine ⟨_, readOn_eq none, fun listed hlisted => ?_, ?_, fun r hr => ?_, ?_, ?_⟩
  · have hshort := length_of_pages hlisted
    omega
  · exact List.pairwise_map.mpr (pages_ascend nodup_views).1
  · obtain ⟨rows, hrows, hmem⟩ := mem_view_of_mem_pages hr
    obtain ⟨before, after, hsplit, rfl⟩ := views_reached rows hrows
    obtain ⟨hstored, hevent⟩ := List.mem_filter.mp hmem
    exact ⟨beq_iff_eq.mp hevent, before, after, hsplit, hstored⟩
  · rintro ⟨listed, hlisted, hshort⟩ r hr hevent
    have hr' : r ∈ registrationsOf eventId s := List.mem_filter.mpr ⟨hr, beq_iff_eq.mpr hevent⟩
    have hlives := @lives_in_views eventId s chunks r hr'
    have hseen : r.id ∈ (pages Registration.id (ListRegistrationsQuery.clamped limit).toNat none
        (views eventId s chunks)).flatten.map Registration.id := by
      refine pages_complete nodup_views ⟨listed, hlisted, by omega⟩ (fun rows hrows => ?_) rfl
      obtain ⟨r', hr', hlives'⟩ := hlives rows hrows
      exact hlives'.id ▸ List.mem_map_of_mem hr'
    obtain ⟨r', hr'', hid⟩ := List.mem_map.mp hseen
    obtain ⟨rows, hrows, hmem⟩ := mem_view_of_mem_pages hr''
    obtain ⟨r'', hmem', hlives'⟩ := hlives rows hrows
    have hsame : r' = r'' :=
      List.inj_on_of_nodup_map (nodup_views rows hrows) hmem hmem' (hid.trans hlives'.id.symm)
    exact ⟨r', hr'', hsame ▸ hlives'⟩
  · have hbound := @pages_bounded _ _ _ Registration.id
      (ListRegistrationsQuery.clamped limit).toNat none
      (views eventId s chunks) _ nodup_views ids_of_views
    have hfull := @countP_full_le _ (ListRegistrationsQuery.clamped limit).toNat
      (pages Registration.id (ListRegistrationsQuery.clamped limit).toNat none
      (views eventId s chunks))
    rw [List.length_map] at hbound
    have hcount : (registrationsOf eventId (chunks.flatten.foldl step s)).length =
        (chunks.flatten.foldl step s).registrations.count (·.eventId == eventId) :=
      List.countP_eq_length_filter.symm
    have hsame : ∀ listed : List Registration, ((listed.length : ℤ) ==
        ListRegistrationsQuery.clamped limit) =
          (listed.length == (ListRegistrationsQuery.clamped limit).toNat) := by
      intro listed
      rw [Bool.eq_iff_iff, beq_iff_eq, beq_iff_eq]
      omega
    simp only [hsame]
    rw [← hcount, ← hclamped]
    exact_mod_cast hfull.trans hbound

end BackboneEvents.RegistrationPages
