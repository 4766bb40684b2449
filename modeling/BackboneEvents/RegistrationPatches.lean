import BackboneEvents.BodyFields

/-!
# What a patch of a registration touches

The patch fills the attendee columns that are empty, as the partner sync does. It has no patch
without a partner: where the body carries none, an empty partner becomes the nil uuid.
-/
namespace BackboneEvents.RegistrationPatches
open ConstrainedTables TransactionPrograms JsonValues AdminRoutes BodyFields

/-- The well-formed value a body carries under a key. -/
def offered (X : BodyParsers) (body : Value) (key : String) (ty : FieldType) : Option Field :=
  (body.get key).bind (ty.read X)

/-- A column that takes what is offered only if it was empty, and only if something is. -/
structure Filled (stored value after : Option Field) : Prop where
  kept : stored.isSome = true → after = stored
  unnamed : value = none → after = stored
  taken : stored = none → value.isSome = true → after = value

/-- A row whose empty attendee columns are filled from the body, the others as they were. -/
structure FilledRow (X : BodyParsers) (body : Value) (before after : Registration) : Prop where
  partnerId : Filled (before.partnerId.map .uuid) (offered X body "partner_id" .uuid)
    (after.partnerId.map .uuid)
  name : Filled (some (.text before.name)) (offered X body "name" .text) (some (.text after.name))
  phone : Filled (before.phone.map .text) (offered X body "phone" .text) (after.phone.map .text)
  companyName : Filled (before.companyName.map .text) (offered X body "company_name" .text)
    (after.companyName.map .text)
  others : after = { before with
    partnerId := after.partnerId
    name := after.name
    phone := after.phone
    companyName := after.companyName }

/-- The row of the registration is filled; the other rows and tables are as they were. -/
structure PatchFrame (X : BodyParsers) (body : Value) (id : Uuid) (s t : Db) : Prop where
  rows : List.Forall₂
    (fun before after => if before.id = id then FilledRow X body before after else after = before)
    s.registrations.rows t.registrations.rows
  tables : t = { s with registrations := t.registrations, auditTrails := t.auditTrails }

section rows

variable {X : BodyParsers} {body : Value}

theorem filled_iff (stored value after : Option Field) :
    Filled stored value after ↔ after = stored.or value := by
  constructor
  · intro h
    cases stored with
    | some f => exact h.kept rfl
    | none =>
      cases value with
      | none => exact h.unnamed rfl
      | some f => exact h.taken rfl rfl
  · rintro rfl
    refine ⟨fun h => ?_, fun h => by rw [h, Option.or_none], fun h _ => by rw [h, Option.none_or]⟩
    obtain ⟨f, rfl⟩ := Option.isSome_iff_exists.mp h
    rfl

theorem offered_uuid (key : String) : offered X body key .uuid = (uuidOf X body key).map .uuid :=
  (parsed_eq_read (show FieldType.uuid ≠ .int by decide)).symm

theorem offered_text (key : String) : offered X body key .text = (optStringOf body key).map .text :=
  (parsed_eq_read (show FieldType.text ≠ .int by decide)).symm

theorem filled_text (stored : Option String) (key : String) :
    Filled (stored.map .text) (offered X body key .text)
      ((stored.or (optStringOf body key)).map .text) := by
  rw [filled_iff, offered_text]
  cases stored <;> rfl

/-- The fill with a partner is the body's own exactly where it takes no partner, or the body's. -/
theorem filledRow_synced_iff (before : Registration) (partnerId : Uuid) :
    FilledRow X body before (Registration.synced partnerId (optStringOf body "name")
        (optStringOf body "phone") (optStringOf body "company_name") before) ↔
      before.partnerId.isSome = true ∨ uuidOf X body "partner_id" = some partnerId := by
  have hpartner : Filled (before.partnerId.map .uuid) (offered X body "partner_id" .uuid)
      ((before.partnerId.or (some partnerId)).map .uuid) ↔
        before.partnerId.isSome = true ∨ uuidOf X body "partner_id" = some partnerId := by
    rw [filled_iff, offered_uuid]
    cases before.partnerId with
    | some stored => simp
    | none => cases uuidOf X body "partner_id" <;> simp [eq_comm]
  rw [← hpartner]
  refine ⟨fun h => h.partnerId, fun h => ⟨h, ?_, filled_text _ _, filled_text _ _, rfl⟩⟩
  rw [filled_iff]
  rfl

end rows

section frames

variable {X : BodyParsers} {body : Value} {id : Uuid} {s : Db} {r : Registration}

/-- A change of the active row of a registration. -/
def changed (id : Uuid) (f : Update Registration) (s : Db) : Db :=
  { s with registrations := s.registrations.modify (fun r => r.id == id && r.active) f }

/-- The change of one row is a fill exactly where the row is filled. -/
theorem patchFrame_changed_iff (f : Update Registration) (audit : AuditRow)
    (hr : r ∈ s.registrations.rows) (hid : r.id = id) (hactive : r.active = true) :
    PatchFrame X body id s ((changed id f s).absorb audit) ↔ FilledRow X body r (f r) := by
  have hrow : ∀ before ∈ s.registrations.rows, before.id = id → before = r := by
    intro before hbefore hbid
    exact Table.eq_of_clash hbefore hr (by simp [clash, hbid, hid])
  have hrows : (changed id f s).registrations.rows =
      s.registrations.rows.map fun x => if x.id == id && x.active then f x else x := rfl
  constructor
  · rintro ⟨hfilled, -⟩
    rw [Db.absorb, hrows, List.forall₂_map_right_iff, List.forall₂_same] at hfilled
    simpa [hid, hactive] using hfilled r hr
  · intro hfilled
    refine ⟨?_, rfl⟩
    rw [Db.absorb, hrows, List.forall₂_map_right_iff, List.forall₂_same]
    intro before hbefore
    by_cases hbid : before.id = id
    · obtain rfl := hrow before hbefore hbid
      simpa [hid, hactive] using hfilled
    · simp [hbid]

end frames

section handlers

variable {X : BodyParsers} {body : Value} {checks : Registration → Bool} {id partnerId : Uuid}
  {actor : Option Uuid} {s t : Db} {row : Registration}

/-- A fill refuses and leaves the database, or fills the one active row of the registration. -/
theorem execute_syncFromPartner (checks : Registration → Bool) (id partnerId : Uuid)
    (name phone companyName : Option String) (actor : Option Uuid) (s : Db) :
    (∃ e, (syncFromPartner checks id partnerId name phone companyName actor).execute Db.absorb s =
      (.error e, s)) ∨
    ∃ r ∈ s.registrations.rows, r.id = id ∧ r.active = true ∧
      (syncFromPartner checks id partnerId name phone companyName actor).execute Db.absorb s =
        (.ok (Registration.synced partnerId name phone companyName r),
          (changed id (Registration.synced partnerId name phone companyName) s).absorb
            (auditRow "registration_updated" actor "registration" (some id)
              (.partnerSynced partnerId))) := by
  cases hfound : s.registrations.find fun r => r.id == id && r.active with
  | none =>
    exact .inl ⟨.registrationNotFound, by
      simp [syncFromPartner, Program.execute, Program.notes, hfound]⟩
  | some r =>
    cases hchecks : checks (Registration.synced partnerId name phone companyName r) with
    | false =>
      exact .inl ⟨.database "registrations: constraint violated", by
        simp [syncFromPartner, Program.execute, Program.notes, hfound, hchecks]⟩
    | true =>
      have hspec := Table.find_spec hfound
      rw [Bool.and_eq_true, beq_iff_eq] at hspec
      refine .inr ⟨r, Table.find_mem hfound, hspec.1, hspec.2, ?_⟩
      simp [syncFromPartner, Program.execute, Program.notes, Program.notesAfter, hfound, hchecks,
        changed]

theorem frame_of_sync (h : (syncFromPartner checks id partnerId (optStringOf body "name")
      (optStringOf body "phone") (optStringOf body "company_name") actor).execute Db.absorb s =
        (.ok row, t)) :
    PatchFrame X body id s t ↔ ∀ before ∈ s.registrations.rows, before.id = id →
      before.partnerId.isSome = true ∨ uuidOf X body "partner_id" = some partnerId := by
  rcases execute_syncFromPartner checks id partnerId (optStringOf body "name")
      (optStringOf body "phone") (optStringOf body "company_name") actor s with
    ⟨e, hrefused⟩ | ⟨r, hr, hid, hactive, hrun⟩
  · cases (Prod.mk.inj (hrefused.symm.trans h)).1
  obtain rfl := (Prod.mk.inj (hrun.symm.trans h)).2
  rw [patchFrame_changed_iff _ _ hr hid hactive, filledRow_synced_iff]
  refine ⟨fun hpartner before hbefore hbid => ?_, fun hpartner => hpartner r hr hid⟩
  obtain rfl := Table.eq_of_clash hbefore hr (by simp [clash, hbid, hid])
  exact hpartner

/-- An accepted patch ran the fill, with the nil uuid for a partner the body does not carry. -/
theorem sync_of_patch
    (h : (patchRegistration X actor body checks id).execute Db.absorb s = (.ok row, t)) :
    (syncFromPartner checks id ((uuidOf X body "partner_id").getD 0) (optStringOf body "name")
      (optStringOf body "phone") (optStringOf body "company_name") actor).execute Db.absorb s =
        (.ok row, t) := by
  rw [patchRegistration] at h
  split at h
  · cases (Prod.mk.inj h).1
  · exact h

/-- A refused patch leaves the database as it was. -/
theorem eq_of_patch_refused {e : EventError}
    (h : (patchRegistration X actor body checks id).execute Db.absorb s = (.error e, t)) : t = s := by
  rw [patchRegistration] at h
  split at h
  · exact (Prod.mk.inj h).2.symm
  · rcases execute_syncFromPartner checks id ((uuidOf X body "partner_id").getD 0)
        (optStringOf body "name") (optStringOf body "phone") (optStringOf body "company_name") actor
        s with ⟨e', hrefused⟩ | ⟨r, -, -, -, hrun⟩
    · exact (Prod.mk.inj (hrefused.symm.trans h)).2.symm
    · cases (Prod.mk.inj (hrun.symm.trans h)).1

/-- The partner sync, which asks for a partner, fills what its body carries. -/
theorem syncFromPartnerRegistration_frame
    (h : (syncFromPartnerRegistration X actor body checks id).execute Db.absorb s = (.ok row, t)) :
    PatchFrame X body id s t := by
  rw [syncFromPartnerRegistration] at h
  split at h
  · cases (Prod.mk.inj h).1
  · next hpartner => exact (frame_of_sync h).mpr fun _ _ _ => .inr hpartner

end handlers

/-- An accepted patch touches only what its body names, and only if it was empty, exactly where
the registration has a partner or the body carries one. -/
theorem patchRegistration_frame_iff (X : BodyParsers) (body : Value)
    (checks : Registration → Bool) (id : Uuid) (actor : Option Uuid) (s t : Db) (row : Registration)
    (h : (patchRegistration X actor body checks id).execute Db.absorb s = (.ok row, t)) :
    PatchFrame X body id s t ↔ ∀ before ∈ s.registrations.rows, before.id = id →
      before.partnerId.isSome = true ∨ (uuidOf X body "partner_id").isSome = true := by
  rw [frame_of_sync (sync_of_patch h)]
  cases uuidOf X body "partner_id" with
  | none => simp
  | some partnerId => simp

section sample

/-- An open registration without a partner, a phone or a company. -/
def walkIn : Registration :=
  ⟨7, 1, none, none, "Ann", "ann@example.org", none, none, none, .open, none, none, none, none, true,
    "42", none, none⟩

def walkInDb : Db := { Db.empty with registrations := Table.empty.push walkIn }

/-- One uuid text is a uuid. -/
def partnerParsers : BodyParsers where
  parseStr text := if text = "00000000-0000-0000-0000-000000000009" then some 9 else none
  parseFromRfc3339 _ := none

def partnerBody : Value := .object
  [("partner_id", .string "00000000-0000-0000-0000-000000000009"), ("phone", .string "555")]

theorem patchRegistration_frame_partner : PatchFrame partnerParsers partnerBody 7 walkInDb
    ((patchRegistration partnerParsers none partnerBody (fun _ => true) 7).execute Db.absorb
      walkInDb).2 :=
  (patchRegistration_frame_iff partnerParsers partnerBody (fun _ => true) 7 none walkInDb _
    { walkIn with partnerId := some 9, phone := some "555" } rfl).mpr fun _ _ _ => .inr rfl

def phoneBody : Value := .object [("phone", .string "555")]

/-- A patch of the phone alone is accepted and makes the nil uuid the partner. -/
theorem phonePatch_setsPartner : ∃ t,
    (patchRegistration partnerParsers none phoneBody (fun _ => true) 7).execute Db.absorb walkInDb =
      (.ok { walkIn with partnerId := some 0, phone := some "555" }, t) ∧
      ¬ PatchFrame partnerParsers phoneBody 7 walkInDb t := by
  have hrun : (patchRegistration partnerParsers none phoneBody (fun _ => true) 7).execute Db.absorb
      walkInDb = (.ok { walkIn with partnerId := some 0, phone := some "555" },
        ((patchRegistration partnerParsers none phoneBody (fun _ => true) 7).execute Db.absorb
          walkInDb).2) := rfl
  refine ⟨_, hrun, fun hframe => ?_⟩
  rcases (frame_of_sync (sync_of_patch hrun)).mp hframe walkIn (List.mem_singleton_self _) rfl with
    hset | hoffered
  · cases hset
  · cases hoffered

end sample

end BackboneEvents.RegistrationPatches
