import BackboneEvents.DeskService
import BackboneEvents.RegistrationPatches
import BackboneEvents.WriteHistories

/-!
# The life of a registration

The verbs and the partner sync move the state, the sale columns and the closing stamp of a
registration and fill its empty contact columns. They never lose it: everything else of the row is
what its register or its mint wrote, its barcode finds it for good, and the stamp is the instant
of its first accepted `done`.
-/
namespace BackboneEvents.RegistrationLives
open ConstrainedTables TransactionPrograms GuardedRuns WriteHistories

/-- A call of a verb, or a partner sync. -/
inductive RegistrationAct where
  | call (c : Call)
  | sync (checks : Registration → Bool) (registrationId partnerId : Uuid)
      (name phone companyName : Option String) (actor : Option Uuid)

def step (s : Db) : RegistrationAct → Db
  | .call c => c.apply s
  | .sync checks registrationId partnerId name phone companyName actor =>
    ((syncFromPartner checks registrationId partnerId name phone companyName actor).execute
      Db.absorb s).2

/-- The row without the columns that move. -/
def identity (r : Registration) : Registration := { r with
  partnerId := none
  phone := none
  companyName := none
  state := .draft
  dateClosed := none
  saleOrderState := none
  saleStatus := none }

/-- A column that is written at most once. -/
def Once {α : Type} (o o' : Option α) : Prop := ∀ a, o = some a → o' = some a

structure Lives (r r' : Registration) : Prop where
  identity : identity r' = identity r
  partnerId : Once r.partnerId r'.partnerId
  phone : Once r.phone r'.phone
  companyName : Once r.companyName r'.companyName
  dateClosed : Once r.dateClosed r'.dateClosed

/-- A closed registration has its stamp. -/
def Stamped (r : Registration) : Prop := r.state = .done → r.dateClosed.isSome = true

/-- When an act closes the registration: an accepted `done`. -/
def closedAt (id : Uuid) (s : Db) : RegistrationAct → Option Timestamp
  | .call (.transition env id' target actor) =>
    if id' = id ∧ target = .done ∧ ((transition env id' target actor).run s).toBool = true then
      some env.now
    else none
  | .call (.register _ _) | .call (.seam _) | .sync _ _ _ _ _ _ _ => none

/-- Every registration of `s` is one of `t`, under the same identity. -/
def KeepsAll (s t : Db) : Prop :=
  ∀ r ∈ s.registrations.rows, ∃ r' ∈ t.registrations.rows, Lives r r'

section rows

variable {s t u : Db} {r r' r'' : Registration} {a : RegistrationAct}

theorem Once.refl {α : Type} (o : Option α) : Once o o := fun _ h => h

theorem Once.trans {α : Type} {o o' o'' : Option α} (h : Once o o')
    (h' : Once o' o'') : Once o o'' :=
  fun a ha => h' a (h a ha)

theorem once_or {α : Type} (o value : Option α) : Once o (o.or value) := by
  rintro a rfl
  rfl

theorem Lives.refl (r : Registration) : Lives r r :=
  ⟨rfl, .refl _, .refl _, .refl _, .refl _⟩

theorem Lives.trans (h : Lives r r') (h' : Lives r' r'') : Lives r r'' :=
  ⟨h'.identity.trans h.identity, h.partnerId.trans h'.partnerId, h.phone.trans h'.phone,
    h.companyName.trans h'.companyName, h.dateClosed.trans h'.dateClosed⟩

/-- A column that does not move. -/
theorem Lives.column {α : Type} (h : Lives r r') (col : Registration → α)
    (hcol : ∀ r, col (RegistrationLives.identity r) = col r) : col r' = col r := by
  rw [← hcol r', h.identity, hcol r]

theorem Lives.id (h : Lives r r') : r'.id = r.id := h.column Registration.id fun _ => rfl

theorem KeepsAll.refl (s : Db) : KeepsAll s s := fun r hr => ⟨r, hr, .refl r⟩

theorem KeepsAll.trans (h : KeepsAll s t) (h' : KeepsAll t u) : KeepsAll s u := by
  intro r hr
  obtain ⟨r', hr', hlives⟩ := h r hr
  obtain ⟨r'', hr'', hlives'⟩ := h' r' hr'
  exact ⟨r'', hr'', hlives.trans hlives'⟩

/-- What an act makes of one stored registration. -/
structure Turned (s : Db) (a : RegistrationAct) (r r' : Registration) : Prop where
  lives : Lives r r'
  stamped : Stamped r → Stamped r'
  dateClosed : r'.dateClosed = r.dateClosed.or (closedAt r.id s a)

theorem Turned.same (h : closedAt r.id s a = none) : Turned s a r r :=
  ⟨.refl r, fun hs => hs, by rw [h, Option.or_none]⟩

/-- A step of the sale seam moves the state and the sale columns, never to `done`. -/
theorem turned_seam {c : SeamCall} (h : Call.RowStep (.seam c) r r') :
    Turned s (.call (.seam c)) r r' := by
  have hlives : ∀ {x : Registration}, identity x = identity r → x.partnerId = r.partnerId →
      x.phone = r.phone → x.companyName = r.companyName → x.dateClosed = r.dateClosed →
      Lives r x := by
    intro x hidentity hpartner hphone hcompany hclosed
    exact ⟨hidentity, hpartner ▸ .refl _, hphone ▸ .refl _, hcompany ▸ .refl _, hclosed ▸ .refl _⟩
  have hunclosed : r.dateClosed = r.dateClosed.or (closedAt r.id s (.call (.seam c))) :=
    Option.or_none.symm
  cases h with
  | same => exact .same rfl
  | freeHealed | orderCancelled | paidHealed =>
    refine ⟨hlives rfl rfl rfl rfl rfl, fun _ hdone => ?_, hunclosed⟩
    cases hdone
  | held | sold => exact ⟨hlives rfl rfl rfl rfl rfl, fun h => h, hunclosed⟩

theorem turned_moved {env : Env} {target : RegistrationState} {actor : Option Uuid}
    (hok : ((transition env r.id target actor).run s).toBool = true) :
    Turned s (.call (.transition env r.id target actor)) r
      (Registration.moved env.now target r) := by
  have hclosed : (Registration.moved env.now target r).dateClosed =
      r.dateClosed.or (if target = .done then some env.now else none) := by
    change (if target == .done && r.dateClosed.isNone then some env.now else r.dateClosed) = _
    cases r.dateClosed <;> cases target <;> rfl
  refine ⟨⟨rfl, .refl _, .refl _, .refl _, hclosed ▸ once_or _ _⟩, fun _ hdone => ?_, ?_⟩
  · have htarget : target = .done := hdone
    rw [hclosed, if_pos htarget]
    cases r.dateClosed <;> rfl
  · rw [hclosed, closedAt]
    simp [hok]

theorem turned_synced {partnerId : Uuid} {name phone companyName : Option String}
    (hnone : closedAt r.id s a = none) :
    Turned s a r (Registration.synced partnerId name phone companyName r) :=
  ⟨⟨rfl, once_or _ _, once_or _ _, once_or _ _, .refl _⟩, fun h => h,
    by rw [hnone, Option.or_none]; rfl⟩

/-- A state verb writes nothing, or moves the row it names. -/
theorem registrations_transition (env : Env) (id : Uuid) (target : RegistrationState)
    (actor : Option Uuid) (s : Db) :
    ((transition env id target actor).run s).toBool = false ∧
        (step s (.call (.transition env id target actor))).registrations = s.registrations ∨
      ((transition env id target actor).run s).toBool = true ∧
        (step s (.call (.transition env id target actor))).registrations =
          s.registrations.modify (·.id == id) (Registration.moved env.now target) := by
  have hstep : step s (.call (.transition env id target actor)) =
      ((transition env id target actor).execute Db.absorb s).2 :=
    congrArg Prod.snd (Program.execute_map Db.absorb (transition env id target actor)
      (fun moved => Answer.moved moved.1 moved.2.1 moved.2.2) s)
  rw [hstep]
  cases hrun : (transition env id target actor).run s with
  | error e =>
    rw [execute_error hrun]
    exact .inl ⟨rfl, rfl⟩
  | ok answer =>
    rw [execute_ok hrun]
    refine .inr ⟨rfl, ?_⟩
    cases hfound : s.registration? id with
    | none =>
      rw [run_transition_none _ _ _ hfound] at hrun
      cases hrun
    | some r =>
      obtain ⟨-, rfl⟩ := registration?_mem hfound
      have hwritten : answer.2 = s.transitioned env r target actor := by
        rw [run_transition_some _ _ _ hfound] at hrun
        split at hrun
        · split at hrun
          · cases hrun
          · split at hrun
            · cases hrun
            · exact (Except.ok.inj hrun ▸ rfl)
        · exact (Except.ok.inj hrun ▸ rfl)
      rw [audited_registrations, hwritten]
      rfl

/-- What an act makes of the registrations: each stored one lives on, and a new one is active and
not closed. -/
theorem rows_step (s : Db) (a : RegistrationAct) : ∃ image born,
    (step s a).registrations.rows = s.registrations.rows.map image ++ born ∧
      (∀ r ∈ s.registrations.rows, Turned s a r (image r)) ∧
      ∀ r ∈ born, r.active = true ∧ r.state ≠ .done := by
  cases a with
  | call c =>
    cases c with
    | register env cmd =>
      obtain ⟨t, trail, heffect, happly⟩ := (Call.register env cmd).apply_effect s
      obtain ⟨image, born, hrows, himage, hborn⟩ := heffect.rows
      refine ⟨image, born, ?_, fun r hr => ?_, fun r hr => ?_⟩
      · rw [step, happly, audited_registrations, hrows]
      · generalize himage' : image r = r'
        have hstep := himage r hr
        rw [himage'] at hstep
        cases hstep
        exact .same rfl
      · cases hborn r hr with
        | registered event state active => exact ⟨active, by simp [state]⟩
    | transition env id target actor =>
      rcases registrations_transition env id target actor s with ⟨hrefused, hrows⟩ | ⟨hok, hrows⟩
      · refine ⟨fun r => r, [], by rw [hrows]; simp, fun r _ => .same ?_, by simp⟩
        rw [closedAt, if_neg]
        simp [hrefused]
      · refine ⟨_, [], by rw [hrows, List.append_nil]; rfl, fun r hr => ?_, by simp⟩
        by_cases hid : r.id = id
        · rw [if_pos (beq_iff_eq.mpr hid)]
          subst hid
          exact turned_moved hok
        · rw [if_neg (by simpa using hid)]
          refine .same ?_
          rw [closedAt, if_neg]
          rintro ⟨rfl, -⟩
          exact hid rfl
    | seam c =>
      obtain ⟨t, trail, heffect, happly⟩ := (Call.seam c).apply_effect s
      obtain ⟨image, born, hrows, himage, hborn⟩ := heffect.rows
      refine ⟨image, born, ?_, fun r hr => turned_seam (himage r hr), fun r hr => ?_⟩
      · rw [step, happly, audited_registrations, hrows]
      · cases hborn r hr with
        | minted verb event state active =>
          refine ⟨active, ?_⟩
          rw [state, bornLink]
          split <;> exact fun h => by cases h
  | sync checks id partnerId name phone companyName actor =>
    rcases RegistrationPatches.execute_syncFromPartner checks id partnerId name
      phone companyName actor s
      with ⟨e, hrefused⟩ | ⟨r, hr, hid, hactive, hrun⟩
    · refine ⟨fun r => r, [], by rw [step, hrefused]; simp, fun r _ => .same rfl, by simp⟩
    · refine ⟨_, [], by rw [step, hrun, List.append_nil]; rfl, fun x _ => ?_, by simp⟩
      split
      · exact turned_synced rfl
      · exact .same rfl

theorem keepsAll_step (s : Db) (a : RegistrationAct) : KeepsAll s (step s a) := by
  obtain ⟨image, born, hrows, himage, -⟩ := rows_step s a
  intro r hr
  refine ⟨image r, ?_, (himage r hr).lives⟩
  rw [hrows]
  exact List.mem_append_left _ (List.mem_map_of_mem hr)

theorem keepsAll_run (s : Db) (acts : List RegistrationAct) : KeepsAll s (acts.foldl step s) := by
  have hkept : Steadily step KeepsAll s acts :=
    steadily_of_step .refl (fun _ _ _ => .trans) keepsAll_step
  exact hkept [] acts [] (List.append_nil acts).symm

theorem stamped_step (h : ∀ r ∈ s.registrations.rows, Stamped r) (a : RegistrationAct) :
    ∀ r ∈ (step s a).registrations.rows, Stamped r := by
  obtain ⟨image, born, hrows, himage, hborn⟩ := rows_step s a
  intro r hr
  rw [hrows, List.mem_append, List.mem_map] at hr
  rcases hr with ⟨old, hold, rfl⟩ | hr
  · exact (himage old hold).stamped (h old hold)
  · exact fun hdone => absurd hdone (hborn r hr).2

/-- A stored registration stays under its id. -/
theorem registration?_step {id : Uuid} (h : s.registration? id = some r) (a : RegistrationAct) :
    ∃ r', (step s a).registration? id = some r' ∧ Turned s a r r' := by
  obtain ⟨hr, rfl⟩ := registration?_mem h
  obtain ⟨image, born, hrows, himage, -⟩ := rows_step s a
  have hmem : image r ∈ (step s a).registrations.rows := by
    rw [hrows]
    exact List.mem_append_left _ (List.mem_map_of_mem hr)
  have hturned := himage r hr
  refine ⟨image r, ?_, hturned⟩
  rw [← hturned.lives.id]
  exact registration?_eq_some hmem

end rows

/-- From any moment of a run to any later one: every registration is still there, by its id and
by its barcode, its identity has not moved, and a contact column or a closing stamp that was set
is as it was. -/
theorem registrations_kept (s : Db) (acts : List RegistrationAct) :
    Steadily step (fun s t => ∀ r ∈ s.registrations.rows, ∃ r', t.registration? r.id = some r' ∧
      DeskService.findByBarcode r.barcode t = some r' ∧ Lives r r') s acts := by
  intro before middle after _ r hr
  obtain ⟨r', hr', hlives⟩ := keepsAll_run (before.foldl step s) middle r hr
  have hbarcode : r'.barcode = r.barcode := hlives.column Registration.barcode fun _ => rfl
  refine ⟨r', ?_, ?_, hlives⟩
  · rw [← hlives.id]
    exact registration?_eq_some hr'
  · refine Table.find_eq_some hr' (by simp [hbarcode]) fun x hx => ?_
    simp only [clash, Bool.or_eq_true]
    exact .inr (hbarcode ▸ hx)

/-- The closing stamp of a registration is the one it had, or else the instant of its first
accepted `done`; a closed registration always has one, and leaving `done` does not take it. -/
theorem closing_told {s : Db} (hstamped : ∀ r ∈ s.registrations.rows, Stamped r) {r : Registration}
    (hr : r ∈ s.registrations.rows) (acts : List RegistrationAct) :
    ∃ r', (acts.foldl step s).registration? r.id = some r' ∧
      r'.dateClosed = r.dateClosed.or (written step (closedAt r.id) s acts).head? ∧ Stamped r' := by
  have hobs := @firstWrite_wins _ _ _ step (closedAt r.id)
    (fun s => (s.registration? r.id).isSome = true)
    (fun s => (s.registration? r.id).bind Registration.dateClosed) s acts
    (by rw [registration?_eq_some hr]; rfl) (fun s a h => ?_) fun s a h => ?_
  · obtain ⟨r', hmem, hlives⟩ := keepsAll_run s acts r hr
    have hr' : (acts.foldl step s).registration? r.id = some r' :=
      hlives.id ▸ registration?_eq_some hmem
    have hall : Throughout step (fun s => ∀ r ∈ s.registrations.rows, Stamped r) s acts :=
      throughout_of_step hstamped fun s a h => stamped_step h a
    rw [hr', registration?_eq_some hr, Option.bind_some, Option.bind_some] at hobs
    exact ⟨r', hr', hobs, hall.last r' hmem⟩
  · obtain ⟨old, hold⟩ := Option.isSome_iff_exists.mp h
    obtain ⟨new, hnew, -⟩ := registration?_step hold a
    rw [hnew, Option.isSome_some]
  · obtain ⟨old, hold⟩ := Option.isSome_iff_exists.mp h
    obtain ⟨new, hnew, hturned⟩ := registration?_step hold a
    rw [hnew, hold, Option.bind_some, Option.bind_some, hturned.dateClosed,
      (registration?_mem hold).2]

section sample

def annRow : Registration :=
  ⟨5, 1, none, none, "Ann", "ann@x", none, none, none, .open, none, none, none, none,
    true, "5", none, some 0⟩

def annSeated : Db := { oneSeat with registrations := .push .empty annRow }

/-- Ann attends, is taken back to draft and attends again later. -/
def attendedTwice : List RegistrationAct :=
  [.call (.transition { Env.counting 5 with now := 7 } 5 .done none),
    .call (.transition { Env.counting 5 with now := 8 } 5 .draft none),
    .call (.transition { Env.counting 5 with now := 9 } 5 .done none)]

theorem closing_told_ann : ∃ r', (attendedTwice.foldl step annSeated).registration? 5 = some r' ∧
    r'.dateClosed = some 7 ∧ Stamped r' := by
  have hopen : ∀ r ∈ annSeated.registrations.rows, Stamped r := by
    intro r hr hdone
    obtain rfl := List.mem_singleton.mp hr
    cases hdone
  obtain ⟨r', hr', hclosed, hstamped⟩ := @closing_told annSeated hopen annRow
    (by decide) attendedTwice
  exact ⟨r', hr', hclosed.trans (by decide), hstamped⟩

end sample

end BackboneEvents.RegistrationLives
