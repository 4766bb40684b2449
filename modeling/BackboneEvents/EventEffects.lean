import BackboneEvents.KanbanAxis
import BackboneEvents.TransactionFaults

/-!
# What the event verbs do to the rows

A verb rewrites each stored event in a way of its own and adds the event it creates, with the
copies of the templates of its type. Nothing else of the tables moves.
-/
namespace BackboneEvents.EventLifecycle
open ConstrainedTables TransactionPrograms GuardedRuns

/-- What a verb makes of a stored event. -/
def rewritten (s : EventDb) (row : EventRow) : EventVerb → EventRow
  | .create _ _ _ => row
  | .patch env id p _ =>
    if row.id = id ∧ accepted env p s row = true then EventRow.patched p row else row
  | .publish env id _ => if row.id = id then EventRow.published env.now row else row
  | .unpublish id _ => if row.id = id then EventRow.unpublished row else row
  | .markDone id _ =>
    if row.id = id then
      EventRow.markedDone ((s.firstStage EventStage.pipeEnd).map EventStage.id) row
    else row
  | .sweepMarkDone now scan locked limit =>
    if 0 ≤ limit ∧ row ∈ swept now scan locked limit.toNat s then EventRow.sweptDone row else row

/-- The stage a new event opens in, and the stages with it. -/
def opened (env : EventEnv) (s : EventDb) : Uuid × Table EventStage :=
  match s.firstStage fun _ => true with
  | some stage => (stage.id, s.stages)
  | none => (env.stageId, s.stages.push ⟨env.stageId, "New", 1, false⟩)

def copiedMails (env : EventEnv) (input : CreateEventInput) (s : EventDb) : List Mail :=
  (input.eventTypeId.map fun typeId => templateMails env env.eventId typeId s).getD []

def copiedBooths (env : EventEnv) (input : CreateEventInput) (s : EventDb) : List Booth :=
  (input.eventTypeId.map fun typeId => templateBooths env env.eventId typeId s).getD []

/-- What a create leaves that commits. -/
structure Created (env : EventEnv) (input : CreateEventInput) (s t : EventDb) : Prop where
  insertable : insertableEvent env input (bornEvent env input (opened env s).1) s = true
  events : t.events.rows = s.events.rows ++ [bornEvent env input (opened env s).1]
  stages : t.stages = (opened env s).2
  mails : t.mails.rows = s.mails.rows ++ copiedMails env input s
  booths : t.booths.rows = s.booths.rows ++ copiedBooths env input s
  typeMails : t.typeMails = s.typeMails
  typeBooths : t.typeBooths = s.typeBooths

/-- The event a verb adds. -/
def born (s : EventDb) : EventVerb → Option EventRow
  | .create env input actor => ((create env input actor).execute EventDb.absorb s).1.toOption
  | .patch _ _ _ _ | .publish _ _ _ | .unpublish _ _ | .markDone _ _ | .sweepMarkDone _ _ _ _ =>
      none

section create

variable {env : EventEnv} {input : CreateEventInput} {actor : Option Uuid} {s t : EventDb}

theorem silent_create : (create env input actor).Silent := by
  have hopening : (openingStage env).Silent := by
    refine (Program.silent_select _).bind fun first => ?_
    cases first
    · exact Program.silent_update _ _ _
    · trivial
  have htemplates : (applyTemplates env env.eventId input.eventTypeId).Silent := by
    cases input.eventTypeId with
    | none => trivial
    | some typeId =>
      refine (Program.silent_update _ _ _).bind fun _ => ?_
      refine (Program.silent_refuseWhen _ _).bind fun _ => ?_
      exact (Program.silent_update _ _ _).bind fun _ => Program.silent_refuseWhen _ _
  refine hopening.bind fun stageId => ?_
  refine Program.Silent.bind ?_ fun _ => htemplates.bind fun _ => ?_
  · exact (Program.silent_update _ _ _).bind fun _ => Program.silent_refuseWhen _ _
  · exact (Program.silent_update _ _ _).bind fun _ => trivial

theorem run_openingStage : (openingStage env).run s =
    .ok ((opened env s).1, { s with stages := (opened env s).2 }) := by
  cases hfirst : s.firstStage fun _ => true <;>
    simp [openingStage, opened, Program.run_bind, Except.bind, hfirst]

theorem run_update_ok {α : Type} {locks : EventDb → List Lock} {write : EventDb → EventDb → EventDb}
    {f : EventDb → α} {a : α} (h : (Program.update locks write f : EventTx α).run s = .ok (a, t)) :
    f s = a ∧ write s s = t :=
  Prod.mk.inj (Except.ok.inj h)

theorem run_refuseWhen_ok {b : Bool} {error : EventError} {u : Unit}
    (h : (Program.refuseWhen b error : EventTx Unit).run s = .ok (u, t)) : b = false ∧ s = t := by
  rw [Program.run_refuseWhen] at h
  cases b with
  | false => exact ⟨rfl, (Prod.mk.inj (Except.ok.inj h)).2⟩
  | true => cases h

theorem run_insertEvent {row : EventRow} {u : Unit}
    (h : (insertEvent env input row).run s = .ok (u, t)) :
    insertableEvent env input row s = true ∧ t = { s with events := s.events.push row } := by
  obtain ⟨fits, mid, hinsert, hrefuse⟩ := Program.run_bind_ok h
  obtain ⟨hfits, hmid⟩ := run_update_ok hinsert
  obtain ⟨hok, rfl⟩ := run_refuseWhen_ok hrefuse
  rw [← hfits, Bool.not_eq_false'] at hok
  exact ⟨hok, by rw [← hmid, if_pos hok]⟩

theorem run_applyTemplates {u : Unit}
    (h : (applyTemplates env env.eventId input.eventTypeId).run s = .ok (u, t)) :
    ∃ mails booths, t = { s with mails := mails, booths := booths } ∧
      mails.rows = s.mails.rows ++ copiedMails env input s ∧
      booths.rows = s.booths.rows ++ copiedBooths env input s := by
  cases htype : input.eventTypeId with
  | none =>
    rw [htype] at h
    cases h
    exact ⟨s.mails, s.booths, rfl, by simp [copiedMails, htype], by simp [copiedBooths, htype]⟩
  | some typeId =>
    rw [htype] at h
    obtain ⟨mailsFit, withMails, hmails, h⟩ := Program.run_bind_ok h
    obtain ⟨hfits, rfl⟩ := run_update_ok hmails
    obtain ⟨_, _, hrefuse, h⟩ := Program.run_bind_ok h
    obtain ⟨hok, rfl⟩ := run_refuseWhen_ok hrefuse
    rw [← hfits, Bool.not_eq_false', Option.isSome_iff_exists] at hok
    obtain ⟨mails, hmails⟩ := hok
    obtain ⟨boothsFit, withBooths, hbooths, hrefuse⟩ := Program.run_bind_ok h
    obtain ⟨hfits, rfl⟩ := run_update_ok hbooths
    obtain ⟨hok, rfl⟩ := run_refuseWhen_ok hrefuse
    rw [← hfits, Bool.not_eq_false', Option.isSome_iff_exists] at hok
    obtain ⟨booths, hbooths⟩ := hok
    have hall : s.booths.insertAll (templateBooths env env.eventId typeId s) = some booths :=
      hbooths
    refine ⟨mails, booths, ?_, ?_, ?_⟩
    · simp only [hmails, Option.getD_some]
      rw [← Option.getD_some (a := booths) (b := s.booths), ← hall]
      rfl
    · rw [Table.rows_insertAll hmails, copiedMails, htype]
      rfl
    · rw [Table.rows_insertAll hall, copiedBooths, htype]
      rfl

theorem run_create {row : EventRow} (h : (create env input actor).run s = .ok (row, t)) :
    row = bornEvent env input (opened env s).1 ∧ Created env input s t := by
  obtain ⟨stageId, s1, hstage, h⟩ := Program.run_bind_ok h
  rw [run_openingStage] at hstage
  obtain ⟨rfl, rfl⟩ := Prod.mk.inj (Except.ok.inj hstage)
  obtain ⟨_, s2, hinsert, h⟩ := Program.run_bind_ok h
  obtain ⟨hfits, rfl⟩ := run_insertEvent hinsert
  obtain ⟨_, s3, htemplates, h⟩ := Program.run_bind_ok h
  obtain ⟨mails, booths, rfl, hmails, hbooths⟩ := run_applyTemplates htemplates
  obtain ⟨_, s4, haudit, h⟩ := Program.run_bind_ok h
  obtain ⟨-, rfl⟩ := run_update_ok haudit
  obtain ⟨rfl, rfl⟩ := Prod.mk.inj (Except.ok.inj h)
  have hinsertable : insertableEvent env input (bornEvent env input (opened env s).1) s = true :=
    hfits
  have haccepts : s.events.accepts (bornEvent env input (opened env s).1) = true := by
    rw [insertableEvent, Bool.and_eq_true] at hinsertable
    exact hinsertable.2
  exact ⟨rfl, hinsertable, Table.rows_push haccepts, rfl, hmails, hbooths, rfl, rfl⟩

theorem foldl_absorb (notes : List AuditRow) (t : EventDb) :
    notes.foldl EventDb.absorb t = { t with auditTrails := t.auditTrails ++ notes } := by
  induction notes generalizing t with
  | nil => simp
  | cons note notes ih => simp [ih, EventDb.absorb]

/-- A create rolls back, or adds its event with the copies of its type's templates. -/
theorem next_create :
    next s (.create env input actor) = s ∧ born s (.create env input actor) = none ∨
    Created env input s (next s (.create env input actor)) ∧
      born s (.create env input actor) = some (bornEvent env input (opened env s).1) := by
  rw [next, born, Program.execute, silent_create.notes_eq_nil]
  cases hrun : (create env input actor).run s with
  | error e => exact .inl ⟨rfl, rfl⟩
  | ok r =>
    obtain ⟨hrow, hinsertable, hevents, hstages, hmails, hbooths, htypeMails, htypeBooths⟩ :=
      run_create hrun
    refine .inr ⟨?_, congrArg some hrow⟩
    simp only [foldl_absorb]
    exact ⟨hinsertable, hevents, hstages, hmails, hbooths, htypeMails, htypeBooths⟩

end create

section rows

variable {s : EventDb} {verb : EventVerb} {row : EventRow}

@[simp] theorem id_rewritten (s : EventDb) (row : EventRow) (verb : EventVerb) :
    (rewritten s row verb).id = row.id := by
  cases verb <;> simp only [rewritten] <;> first | rfl | (split <;> rfl)

theorem any_swept {now : Timestamp} {scan : Uuid → ℕ} {locked : Uuid → Bool} {limit : ℕ}
    (hrow : row ∈ s.events.rows) :
    (swept now scan locked limit s).any (·.id == row.id) = true ↔
      row ∈ swept now scan locked limit s := by
  constructor
  · intro h
    obtain ⟨row', hrow', hid⟩ := List.any_eq_true.mp h
    rwa [← row_eq_of_id hrow (mem_swept hrow').1 (beq_iff_eq.mp hid)]
  · intro h
    exact List.any_eq_true.mpr ⟨row, h, beq_self_eq_true row.id⟩

/-- The rows after one update by id are the rows as `g` makes them. -/
theorem rows_updateEvent {id : Uuid} {allowed : EventDb → EventRow → Bool} {f : Update EventRow}
    {audit : AuditRow} {g : EventRow → EventRow}
    (hg : ∀ row ∈ s.events.rows,
      g row = if row.id = id ∧ allowed s row = true then f row else row) :
    ((updateEvent id allowed f audit).execute EventDb.absorb s).2.events.rows =
      s.events.rows.map g := by
  rw [execute_updateEvent]
  have hrows : ∀ row ∈ s.events.rows, row.id = id → s.event? id = some row := by
    rintro row hrow rfl
    exact event?_of_mem hrow
  split
  · next hany =>
    refine List.map_congr_left fun row hrow => ?_
    rw [hg row hrow]
    by_cases hid : row.id = id
    · rw [hrows row hrow hid, Option.any_some] at hany
      rw [if_pos (beq_iff_eq.mpr hid), if_pos ⟨hid, hany⟩]
    · rw [if_neg (by simpa using hid), if_neg fun h => hid h.1]
  · next hnone =>
    refine (List.map_id _).symm.trans (List.map_congr_left fun row hrow => ?_)
    rw [hg row hrow, if_neg]
    · rfl
    · rintro ⟨hid, hallowed⟩
      rw [hrows row hrow hid, Option.any_some] at hnone
      exact hnone hallowed

theorem rows_next (s : EventDb) (verb : EventVerb) :
    (next s verb).events.rows = s.events.rows.map (rewritten s · verb) ++ (born s verb).toList := by
  cases verb with
  | create env input actor =>
    have hid : s.events.rows.map (rewritten s · (.create env input actor)) = s.events.rows :=
      List.map_id _
    rw [hid]
    rcases @next_create env input actor s with ⟨hnext, hborn⟩ | ⟨hcreated, hborn⟩
    · rw [hnext, hborn, Option.toList_none, List.append_nil]
    · rw [hcreated.events, hborn, Option.toList_some]
  | patch env id p actor =>
    exact (rows_updateEvent fun row _ => rfl).trans (List.append_nil _).symm
  | publish env id actor =>
    exact (rows_updateEvent fun row _ => by simp [rewritten]).trans (List.append_nil _).symm
  | unpublish id actor =>
    exact (rows_updateEvent fun row _ => by simp [rewritten]).trans (List.append_nil _).symm
  | markDone id actor =>
    rw [next, execute_markDone, born, Option.toList_none, List.append_nil]
    split
    · exact List.map_congr_left fun row _ => by simp [rewritten]
    · next hnone =>
      refine (List.map_id _).symm.trans (List.map_congr_left fun row hrow => ?_)
      rw [rewritten, if_neg]
      · rfl
      · rintro rfl
        exact hnone (Option.isSome_iff_exists.mpr ⟨row, event?_of_mem hrow⟩)
  | sweepMarkDone now scan locked limit =>
    rw [next, born, Option.toList_none, List.append_nil]
    by_cases hlimit : 0 ≤ limit
    · rw [execute_sweepMarkDone now scan locked hlimit]
      refine List.map_congr_left fun row hrow => ?_
      simp only [any_swept hrow, rewritten, hlimit, true_and]
    · rw [execute_sweepMarkDone_negative now scan locked (by omega)]
      refine (List.map_id _).symm.trans (List.map_congr_left fun row _ => ?_)
      rw [rewritten, if_neg fun h => hlimit h.1]
      rfl

/-- An event that is stored stays stored, as its verb rewrites it. -/
theorem event?_next {id : Uuid} (h : s.event? id = some row) :
    (next s verb).event? id = some (rewritten s row verb) := by
  obtain ⟨hrow, rfl⟩ := event?_mem h
  have hmem : rewritten s row verb ∈ (next s verb).events.rows := by
    rw [rows_next]
    exact List.mem_append_left _ (List.mem_map_of_mem hrow)
  have hfind := event?_of_mem hmem
  rwa [id_rewritten] at hfind

theorem isSome_event?_next {id : Uuid} (h : (s.event? id).isSome = true) (verb : EventVerb) :
    ((next s verb).event? id).isSome = true := by
  obtain ⟨row, hrow⟩ := Option.isSome_iff_exists.mp h
  rw [event?_next hrow, Option.isSome_some]

/-- What a verb copies: the templates of the type of the event it creates. -/
def bornMails (s : EventDb) : EventVerb → List Mail
  | .create env input actor =>
    if (born s (.create env input actor)).isSome then copiedMails env input s else []
  | .patch _ _ _ _ | .publish _ _ _ | .unpublish _ _ | .markDone _ _ | .sweepMarkDone _ _ _ _ => []

def bornBooths (s : EventDb) : EventVerb → List Booth
  | .create env input actor =>
    if (born s (.create env input actor)).isSome then copiedBooths env input s else []
  | .patch _ _ _ _ | .publish _ _ _ | .unpublish _ _ | .markDone _ _ | .sweepMarkDone _ _ _ _ => []

/-- The tables beside the events: only a create moves them. -/
structure Copied (s : EventDb) (verb : EventVerb) (t : EventDb) : Prop where
  mails : t.mails.rows = s.mails.rows ++ bornMails s verb
  booths : t.booths.rows = s.booths.rows ++ bornBooths s verb
  typeMails : t.typeMails = s.typeMails
  typeBooths : t.typeBooths = s.typeBooths
  stages : ∀ stage ∈ s.stages.rows, stage ∈ t.stages.rows

theorem copied_of_unchanged {t : EventDb} (hmails : bornMails s verb = [])
    (hbooths : bornBooths s verb = [])
    (h : ∃ events trail, t = { s with events := events, auditTrails := trail }) :
    Copied s verb t := by
  obtain ⟨events, trail, rfl⟩ := h
  exact ⟨by simp [hmails], by simp [hbooths], rfl, rfl, fun _ h => h⟩

theorem copied_next (s : EventDb) (verb : EventVerb) : Copied s verb (next s verb) := by
  have hupdate : ∀ (id : Uuid) (allowed : EventDb → EventRow → Bool) (f : Update EventRow)
      (audit : AuditRow), ∃ events trail,
        ((updateEvent id allowed f audit).execute EventDb.absorb s).2 =
          { s with events := events, auditTrails := trail } := by
    intro id allowed f audit
    rw [execute_updateEvent]
    split <;> exact ⟨_, _, rfl⟩
  cases verb with
  | create env input actor =>
    rcases @next_create env input actor s with ⟨hnext, hborn⟩ | ⟨hcreated, hborn⟩
    · rw [hnext]
      exact ⟨by simp [bornMails, hborn], by simp [bornBooths, hborn], rfl, rfl, fun _ h => h⟩
    · refine ⟨?_, ?_, hcreated.typeMails, hcreated.typeBooths, fun stage hstage => ?_⟩
      · rw [hcreated.mails, bornMails, hborn, Option.isSome_some, if_pos rfl]
      · rw [hcreated.booths, bornBooths, hborn, Option.isSome_some, if_pos rfl]
      · rw [hcreated.stages, opened]
        split
        · exact hstage
        · exact Table.mem_push hstage
  | patch | publish | unpublish => exact copied_of_unchanged rfl rfl (hupdate _ _ _ _)
  | markDone id actor =>
    refine copied_of_unchanged rfl rfl ?_
    rw [next, execute_markDone]
    split <;> exact ⟨_, _, rfl⟩
  | sweepMarkDone now scan locked limit =>
    refine copied_of_unchanged rfl rfl ?_
    rw [next]
    by_cases hlimit : 0 ≤ limit
    · rw [execute_sweepMarkDone now scan locked hlimit]
      exact ⟨_, _, rfl⟩
    · rw [execute_sweepMarkDone_negative now scan locked (by omega)]
      exact ⟨_, _, rfl⟩

end rows

section invariant

variable {s : EventDb} {row : EventRow} {verb : EventVerb}

/-- A stored event passes its CHECKs, rests in a stage and is stamped once it is published. -/
structure SoundRow (s : EventDb) (row : EventRow) : Prop where
  storable : storable row = true
  rests : ∃ stage ∈ s.stages.rows, stage.id = row.stageId
  stamped : row.isPublished = true → row.datePublish.isSome = true

/-- Every event is sound, and every mail and booth is a stored event's. -/
structure Sound (s : EventDb) : Prop where
  events : ∀ row ∈ s.events.rows, SoundRow s row
  mails : ∀ m ∈ s.mails.rows, (s.event? m.eventId).isSome = true
  booths : ∀ b ∈ s.booths.rows, (s.event? b.eventId).isSome = true

/-- Every event of `s` is an event of `t`. -/
def Keeps (s t : EventDb) : Prop := ∀ id, (s.event? id).isSome = true → (t.event? id).isSome = true

theorem soundRow_rewritten (h : SoundRow s row) (verb : EventVerb) :
    SoundRow (next s verb) (rewritten s row verb) := by
  obtain ⟨hstorable, ⟨stage, hstage, hid⟩, hstamped⟩ := h
  have hkept : ∃ stage ∈ (next s verb).stages.rows, stage.id = row.stageId :=
    ⟨stage, (copied_next s verb).stages stage hstage, hid⟩
  cases verb with
  | create env input actor => exact ⟨hstorable, hkept, hstamped⟩
  | patch env id p actor =>
    rw [rewritten]
    split
    · next haccepted =>
      simp only [accepted, Bool.and_eq_true] at haccepted
      obtain ⟨-, ⟨⟨-, hpatched⟩, hmoved⟩, -⟩ := haccepted
      refine ⟨hpatched, ?_, hstamped⟩
      cases hto : p.stageId with
      | none =>
        have hsame : (EventRow.patched p row).stageId = row.stageId := by
          simp [EventRow.patched, hto]
        rwa [hsame]
      | some stageId =>
        have hthere : (EventRow.patched p row).stageId = stageId := by simp [EventRow.patched, hto]
        rw [hto, Option.all_some] at hmoved
        obtain ⟨stage', hstage', hid'⟩ := List.any_eq_true.mp hmoved
        rw [hthere]
        exact ⟨stage', (copied_next s _).stages stage' hstage', beq_iff_eq.mp hid'⟩
    · exact ⟨hstorable, hkept, hstamped⟩
  | publish env id actor =>
    rw [rewritten]
    split
    · refine ⟨hstorable, hkept, fun _ => ?_⟩
      change (row.datePublish.or (some env.now)).isSome = true
      cases row.datePublish <;> rfl
    · exact ⟨hstorable, hkept, hstamped⟩
  | unpublish id actor =>
    rw [rewritten]
    split
    · exact ⟨hstorable, hkept, fun h => by cases h⟩
    · exact ⟨hstorable, hkept, hstamped⟩
  | markDone id actor =>
    rw [rewritten]
    split
    · refine ⟨hstorable, ?_, hstamped⟩
      cases hclosing : s.firstStage EventStage.pipeEnd with
      | none => exact hkept
      | some closing =>
        exact ⟨closing, (copied_next s _).stages closing (firstStage_mem hclosing).1, rfl⟩
    · exact ⟨hstorable, hkept, hstamped⟩
  | sweepMarkDone now scan locked limit =>
    rw [rewritten]
    split <;> exact ⟨hstorable, hkept, hstamped⟩

/-- A new event opens in a stage that is there, and is not published. -/
theorem soundRow_born (h : born s verb = some row) : SoundRow (next s verb) row := by
  cases verb with
  | create env input actor =>
    rcases @next_create env input actor s with ⟨-, hborn⟩ | ⟨hcreated, hborn⟩
    · rw [hborn] at h
      cases h
    · rw [hborn] at h
      obtain rfl := Option.some.inj h
      have hinsertable := hcreated.insertable
      simp only [insertableEvent, Bool.and_eq_true] at hinsertable
      refine ⟨hinsertable.1.1.2, ?_, fun hpublished => by cases hpublished⟩
      rw [hcreated.stages]
      change ∃ stage ∈ (opened env s).2.rows, stage.id = (opened env s).1
      rw [opened]
      split
      · next stage hfirst => exact ⟨stage, (firstStage_mem hfirst).1, rfl⟩
      · next hfirst =>
        have hnone : s.stages.rows = [] := by
          refine List.eq_nil_iff_forall_not_mem.mpr fun stage hstage => ?_
          cases firstStage_none_iff.mp hfirst stage hstage
        rw [Table.rows_push (by simp [Table.accepts, hnone])]
        exact ⟨_, List.mem_append_right _ (List.mem_singleton_self _), rfl⟩
  | patch | publish | unpublish | markDone | sweepMarkDone => cases h

theorem keeps_next (s : EventDb) (verb : EventVerb) : Keeps s (next s verb) :=
  fun _ h => isSome_event?_next h verb

theorem event?_born (h : born s verb = some row) : ((next s verb).event? row.id).isSome = true := by
  have hmem : row ∈ (next s verb).events.rows := by
    rw [rows_next, h]
    exact List.mem_append_right _ (List.mem_singleton_self row)
  rw [event?_of_mem hmem, Option.isSome_some]

theorem eventId_copied {env : EventEnv} {input : CreateEventInput} :
    (∀ m ∈ copiedMails env input s, m.eventId = env.eventId) ∧
      ∀ b ∈ copiedBooths env input s, b.eventId = env.eventId := by
  cases htype : input.eventTypeId with
  | none => simp [copiedMails, copiedBooths, htype]
  | some typeId =>
    simp only [copiedMails, copiedBooths, htype, Option.map_some, Option.getD_some, templateMails,
      templateBooths, List.forall_mem_map]
    exact ⟨fun _ _ => rfl, fun _ _ => rfl⟩

/-- The copies are those of the event that is created. -/
theorem eventId_bornMails {m : Mail} (h : m ∈ bornMails s verb) :
    ∃ row, born s verb = some row ∧ row.id = m.eventId := by
  cases verb with
  | create env input actor =>
    rcases @next_create env input actor s with ⟨-, hborn⟩ | ⟨-, hborn⟩
    · simp [bornMails, hborn] at h
    · rw [bornMails, hborn, Option.isSome_some, if_pos rfl] at h
      exact ⟨_, hborn, (eventId_copied.1 m h).symm⟩
  | patch | publish | unpublish | markDone | sweepMarkDone => cases h

theorem eventId_bornBooths {b : Booth} (h : b ∈ bornBooths s verb) :
    ∃ row, born s verb = some row ∧ row.id = b.eventId := by
  cases verb with
  | create env input actor =>
    rcases @next_create env input actor s with ⟨-, hborn⟩ | ⟨-, hborn⟩
    · simp [bornBooths, hborn] at h
    · rw [bornBooths, hborn, Option.isSome_some, if_pos rfl] at h
      exact ⟨_, hborn, (eventId_copied.2 b h).symm⟩
  | patch | publish | unpublish | markDone | sweepMarkDone => cases h

theorem sound_next (h : Sound s) (verb : EventVerb) : Sound (next s verb) := by
  refine ⟨fun row hrow => ?_, fun m hm => ?_, fun b hb => ?_⟩
  · rw [rows_next, List.mem_append, List.mem_map, Option.mem_toList] at hrow
    rcases hrow with ⟨old, hold, rfl⟩ | hborn
    · exact soundRow_rewritten (h.events old hold) verb
    · exact soundRow_born hborn
  · rw [(copied_next s verb).mails, List.mem_append] at hm
    refine hm.elim (fun hm => isSome_event?_next (h.mails m hm) verb) fun hm => ?_
    obtain ⟨row, hborn, hid⟩ := eventId_bornMails hm
    exact hid ▸ event?_born hborn
  · rw [(copied_next s verb).booths, List.mem_append] at hb
    refine hb.elim (fun hb => isSome_event?_next (h.booths b hb) verb) fun hb => ?_
    obtain ⟨row, hborn, hid⟩ := eventId_bornBooths hb
    exact hid ▸ event?_born hborn

end invariant

/-- Throughout a run of event verbs from a sound database every event passes its CHECKs, rests in
a stage that exists and is stamped once published, every copied row is a stored event's, and no
event that was there at one moment is gone at a later one. -/
theorem sound_throughout {s : EventDb} (h : Sound s) (verbs : List EventVerb) :
    Throughout next Sound s verbs ∧ Steadily next Keeps s verbs := by
  refine ⟨throughout_of_step h fun s verb hs => sound_next hs verb, ?_⟩
  exact steadily_of_step (fun _ _ hid => hid)
    (fun _ _ _ hst htu id hid => htu id (hst id hid)) keeps_next

section copies

variable {s : EventDb} {verb : EventVerb} {id : Uuid}

/-- The mails and booths of an event. -/
def mailsOf (s : EventDb) (id : Uuid) : List Mail := s.mails.rows.filter (·.eventId == id)

def boothsOf (s : EventDb) (id : Uuid) : List Booth := s.booths.rows.filter (·.eventId == id)

theorem event?_of_born {row : EventRow} (h : born s verb = some row) : s.event? row.id = none := by
  cases verb with
  | create env input actor =>
    rcases @next_create env input actor s with ⟨-, hborn⟩ | ⟨hcreated, hborn⟩
    · rw [hborn] at h
      cases h
    · rw [hborn] at h
      obtain rfl := Option.some.inj h
      have haccepts := (Bool.and_eq_true _ _ ▸ hcreated.insertable).2
      refine List.find?_eq_none.mpr fun old hold hid => ?_
      have hapart := Table.accepts_iff.mp haccepts old hold
      rw [show clash old _ = (old.id == _) from rfl, hid] at hapart
      cases hapart
  | patch | publish | unpublish | markDone | sweepMarkDone => cases h

/-- A stored event gets no copies any more. -/
theorem copies_next (h : (s.event? id).isSome = true) (verb : EventVerb) :
    mailsOf (next s verb) id = mailsOf s id ∧ boothsOf (next s verb) id = boothsOf s id := by
  have hnone : ∀ row, born s verb = some row → row.id ≠ id := by
    rintro row hborn rfl
    rw [event?_of_born hborn] at h
    cases h
  have hmails : (bornMails s verb).filter (·.eventId == id) = [] := by
    refine List.filter_eq_nil_iff.mpr fun m hm => ?_
    obtain ⟨row, hborn, hid⟩ := eventId_bornMails hm
    simpa [← hid] using hnone row hborn
  have hbooths : (bornBooths s verb).filter (·.eventId == id) = [] := by
    refine List.filter_eq_nil_iff.mpr fun b hb => ?_
    obtain ⟨row, hborn, hid⟩ := eventId_bornBooths hb
    simpa [← hid] using hnone row hborn
  constructor
  · rw [mailsOf, (copied_next s verb).mails, List.filter_append, hmails, List.append_nil, mailsOf]
  · rw [boothsOf, (copied_next s verb).booths, List.filter_append, hbooths,
      List.append_nil, boothsOf]

theorem copies_run (h : (s.event? id).isSome = true) (verbs : List EventVerb) :
    mailsOf (verbs.foldl next s) id = mailsOf s id ∧
      boothsOf (verbs.foldl next s) id = boothsOf s id := by
  induction verbs generalizing s with
  | nil => exact ⟨rfl, rfl⟩
  | cons verb verbs ih =>
    obtain ⟨hmails, hbooths⟩ := ih (isSome_event?_next h verb)
    obtain ⟨hmails', hbooths'⟩ := copies_next h verb
    exact ⟨hmails.trans hmails', hbooths.trans hbooths'⟩

theorem id_created {env : EventEnv} {input : CreateEventInput}
    {actor : Option Uuid} {row : EventRow}
    (h : born s (.create env input actor) = some row) : row.id = env.eventId := by
  rcases @next_create env input actor s with ⟨-, hnone⟩ | ⟨-, hsome⟩
  · rw [hnone] at h
    cases h
  · exact Option.some.inj (hsome.symm.trans h) ▸ rfl

/-- A new event has the templates of its type and nothing else. -/
theorem copies_created {env : EventEnv} {input : CreateEventInput}
    {actor : Option Uuid} (h : Sound s)
    (hborn : (born s (.create env input actor)).isSome = true) :
    mailsOf (next s (.create env input actor)) env.eventId = copiedMails env input s ∧
      boothsOf (next s (.create env input actor)) env.eventId = copiedBooths env input s := by
  obtain ⟨row, hrow⟩ := Option.isSome_iff_exists.mp hborn
  have hnew : s.event? env.eventId = none := id_created hrow ▸ event?_of_born hrow
  constructor
  · rw [mailsOf, (copied_next s _).mails, List.filter_append,
      List.filter_eq_nil_iff.mpr fun m hm hof => ?_, bornMails, if_pos hborn, List.nil_append]
    · exact List.filter_eq_self.mpr fun m hm => beq_iff_eq.mpr (eventId_copied.1 m hm)
    · have hstored := h.mails m hm
      rw [beq_iff_eq.mp hof, hnew] at hstored
      cases hstored
  · rw [boothsOf, (copied_next s _).booths, List.filter_append,
      List.filter_eq_nil_iff.mpr fun b hb hof => ?_, bornBooths, if_pos hborn, List.nil_append]
    · exact List.filter_eq_self.mpr fun b hb => beq_iff_eq.mpr (eventId_copied.2 b hb)
    · have hstored := h.booths b hb
      rw [beq_iff_eq.mp hof, hnew] at hstored
      cases hstored

end copies

/-- The templates of its type are copied onto an event when it is created and never again: at the
end of any run its mails and booths are those copies, whatever the verbs did to its type. -/
theorem copied_once {s : EventDb} (h : Sound s) (before after : List EventVerb) (env : EventEnv)
    (input : CreateEventInput) (actor : Option Uuid)
    (hborn : (born (before.foldl next s) (.create env input actor)).isSome = true) :
    mailsOf ((before ++ .create env input actor :: after).foldl next s) env.eventId =
        copiedMails env input (before.foldl next s) ∧
      boothsOf ((before ++ .create env input actor :: after).foldl next s) env.eventId =
        copiedBooths env input (before.foldl next s) := by
  have hsound : Throughout next Sound s before :=
    throughout_of_step h fun s verb hs => sound_next hs verb
  obtain ⟨hmails, hbooths⟩ := copies_created hsound.last hborn
  obtain ⟨row, hrow⟩ := Option.isSome_iff_exists.mp hborn
  have hstored :
      ((next (before.foldl next s) (.create env input actor)).event? env.eventId).isSome = true :=
    id_created hrow ▸ event?_born hrow
  rw [List.foldl_append, List.foldl_cons]
  obtain ⟨hmails', hbooths'⟩ := copies_run hstored after
  exact ⟨hmails'.trans hmails, hbooths'.trans hbooths⟩

section sample

def bareDb : EventDb := ⟨.empty, .empty, .push .empty
    ⟨1, 1, 1, .hours, .beforeEvent, .mail, none, none⟩, .push .empty ⟨1, 1⟩, .empty, .empty, []⟩

/-- An event of the one type, with its template's mail and booth. -/
def bornInput : CreateEventInput :=
  ⟨"Gig", some 1, 0, 100, none, false, 1, true, 1, none, none, none, none, none⟩

theorem bareDb_sound : Sound bareDb where
  events _ h := by cases h
  mails _ h := by cases h
  booths _ h := by cases h

theorem sound_throughout_bare :
    Throughout next Sound bareDb [.create sampleEnv bornInput none, .publish sampleEnv 9 none,
      .markDone 9 none] ∧
    Steadily next Keeps bareDb [.create sampleEnv bornInput none, .publish sampleEnv 9 none,
      .markDone 9 none] :=
  sound_throughout bareDb_sound _

theorem copied_once_bare :
    mailsOf ([.create sampleEnv bornInput none, .publish sampleEnv 9 none].foldl next bareDb) 9 =
        copiedMails sampleEnv bornInput bareDb ∧
      boothsOf ([.create sampleEnv bornInput none, .publish sampleEnv 9 none].foldl next bareDb) 9 =
        copiedBooths sampleEnv bornInput bareDb :=
  copied_once bareDb_sound [] [.publish sampleEnv 9 none] sampleEnv bornInput none (by decide)

end sample

end BackboneEvents.EventLifecycle
