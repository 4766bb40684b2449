import BackboneEvents.AdminRoutes

/-!
# What a body's keys become

The values of a body by the type of their key, beside what the parsers put into a command. A
required key that does not fit is refused; any other one is dropped, or cut to 32 bits.
-/
namespace BackboneEvents.BodyFields
open JsonValues AdminRoutes

inductive FieldType where
  | text | flag | int | uuid | instant
  deriving DecidableEq, Repr

/-- A value of one of the types. -/
inductive Field where
  | text (s : String)
  | flag (b : Bool)
  | int (n : ℤ)
  | uuid (id : Uuid)
  | instant (t : Timestamp)
  deriving DecidableEq, Repr

variable (X : BodyParsers) (body : Value)

/-- What a value is at a type: the very text, flag, uuid or instant, or an integer of 32 bits. -/
def FieldType.read : FieldType → Value → Option Field
  | .text, v => v.asStr.map .text
  | .flag, v => v.asBool.map .flag
  | .int, v => (v.integer.filter fun n => -2147483648 ≤ n ∧ n ≤ 2147483647).map .int
  | .uuid, v => (v.asStr.bind X.parseStr).map .uuid
  | .instant, v => (v.asStr.bind X.parseFromRfc3339).map .instant

/-- Every value under the key fits its type, `null` apart. -/
def Fits (e : String × FieldType) : Prop :=
  ∀ v, body.get e.1 = some v → v.isNull = false → (e.2.read X v).isSome = true

/-- Every value under the key is in the command as it is, `null` apart. -/
def Carried (e : String × FieldType) (entry : Option Field) : Prop :=
  ∀ v, body.get e.1 = some v → v.isNull = false →
    ∃ f, e.2.read X v = some f ∧ entry = some f

/-- The key has no value of its type, or the empty text. -/
def Missing (e : String × FieldType) : Prop :=
  ∀ v f, body.get e.1 = some v → e.2.read X v = some f → f = .text ""

/-- The key is there with a value that does not fit, `null` included. -/
def Broken (e : String × FieldType) : Prop := ∃ v, body.get e.1 = some v ∧ e.2.read X v = none

section commands

def createKeys : List (String × FieldType) :=
  [("name", .text), ("event_type_id", .uuid), ("date_begin", .instant), ("date_end", .instant),
    ("date_tz", .text), ("is_multi_slots", .flag), ("event_slot_count", .int),
    ("seats_limited", .flag), ("seats_max", .int), ("organizer_id", .uuid), ("user_id", .uuid),
    ("address_id", .uuid), ("event_url", .text), ("badge_format", .text)]

/-- What a create holds for each of its keys. -/
def createFields (input : CreateEventInput) : List (Option Field) :=
  [some (.text input.name), input.eventTypeId.map .uuid, some (.instant input.dateBegin),
    some (.instant input.dateEnd), input.dateTz.map .text, some (.flag input.isMultiSlots),
    some (.int input.eventSlotCount), some (.flag input.seatsLimited), some (.int input.seatsMax),
    input.organizerId.map .uuid, input.userId.map .uuid, input.addressId.map .uuid,
    input.eventUrl.map .text, input.badgeFormat.map .text]

def createRequired : List (String × FieldType) :=
  [("date_begin", .instant), ("date_end", .instant), ("name", .text)]

def patchKeys : List (String × FieldType) :=
  [("name", .text), ("event_type_id", .uuid), ("stage_id", .uuid), ("date_begin", .instant),
    ("date_end", .instant), ("date_tz", .text), ("is_multi_slots", .flag),
    ("event_slot_count", .int), ("seats_limited", .flag), ("seats_max", .int),
    ("organizer_id", .uuid), ("user_id", .uuid), ("address_id", .uuid), ("event_url", .text),
    ("badge_format", .text)]

def patchFields (p : PatchEventInput) : List (Option Field) :=
  [p.name.map .text, p.eventTypeId.map .uuid, p.stageId.map .uuid, p.dateBegin.map .instant,
    p.dateEnd.map .instant, p.dateTz.map .text, p.isMultiSlots.map .flag,
    p.eventSlotCount.map .int, p.seatsLimited.map .flag, p.seatsMax.map .int,
    p.organizerId.map .uuid, p.userId.map .uuid, p.addressId.map .uuid, p.eventUrl.map .text,
    p.badgeFormat.map .text]

/-- The keys a patch refuses to read as anything but what they are. -/
def patchChecked : List (String × FieldType) := [("date_begin", .instant), ("date_end", .instant)]

def registerKeys : List (String × FieldType) :=
  [("event_id", .uuid), ("event_slot_id", .uuid), ("event_ticket_id", .uuid), ("name", .text),
    ("email", .text), ("phone", .text), ("company_name", .text), ("partner_id", .uuid)]

def registerFields (cmd : RegisterCommand) : List (Option Field) :=
  [some (.uuid cmd.eventId), cmd.eventSlotId.map .uuid, cmd.eventTicketId.map .uuid,
    some (.text cmd.name), some (.text cmd.email), cmd.phone.map .text, cmd.companyName.map .text,
    cmd.partnerId.map .uuid]

def registerRequired : List (String × FieldType) :=
  [("event_id", .uuid), ("name", .text), ("email", .text)]

end commands

section reading

/-- What the parse layer reads under a key. -/
def parsed (key : String) : FieldType → Option Field
  | .text => (optStringOf body key).map .text
  | .flag => (boolOf body key).map .flag
  | .int => (intOf body key).map .int
  | .uuid => (uuidOf X body key).map .uuid
  | .instant => (((body.get key).bind Value.asStr).bind X.parseFromRfc3339).map .instant

/-- An entry of a command holds what was parsed, where something was. -/
def Holds (e : String × FieldType) (entry : Option Field) : Prop :=
  ∀ f, parsed X body e.1 e.2 = some f → entry = some f

variable {X body} {key : String} {ty : FieldType} {v : Value} {f : Field}

/-- An integer of 64 bits is cut to its low 32. -/
theorem intOf_of_integer {z : ℤ} (hv : body.get key = some v) (hz : v.integer = some z)
    (hle : z ≤ 9223372036854775807) : intOf body key = some (z.bmod 4294967296) := by
  obtain ⟨word, hword, rfl⟩ := Value.asI64_of_integer hz hle
  rw [intOf, hv, Option.bind_some, hword, Option.map_some, Int64.toInt_toInt32]

/-- A value that fits is parsed as it is. -/
theorem parsed_of_read (hv : body.get key = some v) (h : ty.read X v = some f) :
    parsed X body key ty = some f := by
  cases ty with
  | text => rwa [parsed, optStringOf, hv]
  | flag => rwa [parsed, boolOf, hv]
  | uuid => rwa [parsed, uuidOf, hv]
  | instant => rwa [parsed, hv]
  | int =>
    obtain ⟨n, hn, rfl⟩ := Option.map_eq_some_iff.mp h
    obtain ⟨hn, hrange⟩ := Option.filter_eq_some_iff.mp hn
    have hbounds : -2147483648 ≤ n ∧ n ≤ 2147483647 := of_decide_eq_true hrange
    have hcut : n.bmod 4294967296 = n := Int.bmod_eq_of_le (by omega) (by omega)
    rw [parsed, intOf_of_integer hv hn (by omega), hcut, Option.map_some]

theorem parsed_eq_read (hty : ty ≠ .int) :
    parsed X body key ty = (body.get key).bind (ty.read X) := by
  cases hv : body.get key with
  | none => cases ty <;> simp [parsed, optStringOf, boolOf, intOf, uuidOf, hv]
  | some v =>
    cases ty with
    | text => simp only [parsed, optStringOf, hv, Option.bind_some, FieldType.read]
    | flag => simp only [parsed, boolOf, hv, Option.bind_some, FieldType.read]
    | int => exact absurd rfl hty
    | uuid => simp only [parsed, uuidOf, hv, Option.bind_some, FieldType.read]
    | instant => simp only [parsed, hv, Option.bind_some, FieldType.read]

theorem missing_iff (hty : ty ≠ .int) :
    Missing X body (key, ty) ↔ ∀ f, parsed X body key ty = some f → f = .text "" := by
  rw [parsed_eq_read hty]
  constructor
  · intro h f hf
    obtain ⟨v, hv, hread⟩ := Option.bind_eq_some_iff.mp hf
    exact h v f hv hread
  · exact fun h v f hv hread => h f (Option.bind_eq_some_iff.mpr ⟨v, hv, hread⟩)

theorem missing_of_none (hty : ty ≠ .int) (h : parsed X body key ty = none) :
    Missing X body (key, ty) :=
  (missing_iff hty).mpr fun f hf => by cases h.symm.trans hf

theorem not_missing_of_some (hty : ty ≠ .int) (h : parsed X body key ty = some f)
    (hf : f ≠ .text "") : ¬ Missing X body (key, ty) :=
  fun hmissing => hf ((missing_iff hty).mp hmissing f h)

theorem broken_iff (hty : ty ≠ .int) : Broken X body (key, ty) ↔
    (body.get key).isSome = true ∧ parsed X body key ty = none := by
  rw [parsed_eq_read hty]
  cases hv : body.get key with
  | none => simp [Broken, hv]
  | some v => simp [Broken, hv]

end reading

section entries

variable {X body} {key : String} {ty : FieldType} {e : String × FieldType}
  {keys : List (String × FieldType)} {entries : List (Option Field)}

theorem holds_parsed : Holds X body (key, ty) (parsed X body key ty) := fun _ h => h

theorem holds_some {f : Field} (h : parsed X body key ty = some f) :
    Holds X body (key, ty) (some f) := fun _ hf => h.symm.trans hf

/-- A default stands in where nothing was parsed. -/
theorem holds_getD {α : Type} {g : α → Field} {o : Option α} (h : parsed X body key ty = o.map g)
    (default : α) : Holds X body (key, ty) (some (g (o.getD default))) := by
  intro f hf
  obtain ⟨a, rfl, rfl⟩ := Option.map_eq_some_iff.mp (h.symm.trans hf)
  rfl

theorem carried_iff {entry : Option Field} (h : Holds X body e entry) :
    Carried X body e entry ↔ Fits X body e := by
  constructor
  · intro hcarried v hv hnull
    obtain ⟨f, hread, -⟩ := hcarried v hv hnull
    rw [hread, Option.isSome_some]
  · intro hfits v hv hnull
    obtain ⟨f, hread⟩ := Option.isSome_iff_exists.mp (hfits v hv hnull)
    exact ⟨f, hread, h f (parsed_of_read hv hread)⟩

/-- A command holds what was parsed, so it carries the keys whose values fit. -/
theorem carried_iff_fits (h : List.Forall₂ (Holds X body) keys entries) :
    List.Forall₂ (Carried X body) keys entries ↔ ∀ e ∈ keys, Fits X body e := by
  induction h with
  | nil => simp
  | cons hentry _ ih => rw [List.forall₂_cons, List.forall_mem_cons, carried_iff hentry, ih]

end entries

section parsers

variable {X body}

theorem parseTs_cases (X : BodyParsers) (body : Value) (key : String) :
    (Missing X body (key, .instant) ∧ parseTs X key (body.get key) =
        .error (.validation (key ++ " must be an RFC 3339 timestamp"))) ∨
      ∃ t, ¬ Missing X body (key, .instant) ∧ parsed X body key .instant = some (.instant t) ∧
        parseTs X key (body.get key) = .ok t := by
  cases hread : ((body.get key).bind Value.asStr).bind X.parseFromRfc3339 with
  | none =>
    have hparsed : parsed X body key .instant = none := by rw [parsed, hread, Option.map_none]
    exact .inl ⟨missing_of_none (by decide) hparsed, by rw [parseTs, hread]⟩
  | some t =>
    have hparsed : parsed X body key .instant = some (.instant t) := by
      rw [parsed, hread, Option.map_some]
    exact .inr ⟨t, not_missing_of_some (by decide) hparsed (by simp), hparsed, by rw [parseTs, hread]⟩

theorem stringOf_cases (X : BodyParsers) (body : Value) (key : String) :
    (Missing X body (key, .text) ∧
        stringOf body key = .error (.validation (key ++ " is required"))) ∨
      ∃ s, ¬ Missing X body (key, .text) ∧ parsed X body key .text = some (.text s) ∧
        stringOf body key = .ok s := by
  cases hread : (body.get key).bind Value.asStr with
  | none =>
    have hparsed : parsed X body key .text = none := by rw [parsed, optStringOf, hread]; rfl
    exact .inl ⟨missing_of_none (by decide) hparsed, by rw [stringOf, hread]; rfl⟩
  | some s =>
    have hparsed : parsed X body key .text = some (.text s) := by
      rw [parsed, optStringOf, hread, Option.map_some]
    by_cases hs : s = ""
    · subst hs
      refine .inl ⟨(missing_iff (by decide)).mpr fun f hf => ?_, by rw [stringOf, hread]; rfl⟩
      exact (Option.some.inj (hparsed.symm.trans hf)).symm
    · refine .inr ⟨s, not_missing_of_some (by decide) hparsed (by simpa using hs), hparsed, ?_⟩
      rw [stringOf, hread, Option.filter_some_pos (by simpa using hs)]

theorem uuidOf_cases (X : BodyParsers) (body : Value) (key : String) :
    (Missing X body (key, .uuid) ∧ uuidOf X body key = none) ∨
      ∃ id, ¬ Missing X body (key, .uuid) ∧ parsed X body key .uuid = some (.uuid id) ∧
        uuidOf X body key = some id := by
  cases hread : uuidOf X body key with
  | none =>
    have hparsed : parsed X body key .uuid = none := by rw [parsed, hread, Option.map_none]
    exact .inl ⟨missing_of_none (by decide) hparsed, rfl⟩
  | some id =>
    have hparsed : parsed X body key .uuid = some (.uuid id) := by
      rw [parsed, hread, Option.map_some]
    exact .inr ⟨id, not_missing_of_some (by decide) hparsed (by simp), hparsed, rfl⟩

theorem optTs_cases (X : BodyParsers) (body : Value) (key : String) :
    (Broken X body (key, .instant) ∧ optTs X body key =
        .error (.validation (key ++ " must be an RFC 3339 timestamp"))) ∨
      ∃ t, ¬ Broken X body (key, .instant) ∧ parsed X body key .instant = t.map .instant ∧
        optTs X body key = .ok t := by
  rw [broken_iff (by decide)]
  cases hv : body.get key with
  | none => exact .inr ⟨none, by simp, by simp [parsed, hv], by simp [optTs, hv]⟩
  | some v =>
    have hopt : optTs X body key = (parseTs X key (body.get key)).map some := by
      rw [optTs, hv]
      rfl
    rcases parseTs_cases X body key with ⟨hmissing, hts⟩ | ⟨t, -, hparsed, hts⟩
    · refine .inl ⟨⟨rfl, ?_⟩, by rw [hopt, hts]; rfl⟩
      cases hparsed : parsed X body key .instant with
      | none => rfl
      | some f =>
        obtain rfl := (missing_iff (by decide)).mp hmissing f hparsed
        obtain ⟨t, -, heq⟩ := Option.map_eq_some_iff.mp hparsed
        cases heq
    · exact .inr ⟨some t, by simp [hparsed], hparsed, by rw [hopt, hts]; rfl⟩

/-- The refusal of a required key of a type. -/
def refusal (e : String × FieldType) : EventError :=
  .validation (e.1 ++ if e.2 = .instant then " must be an RFC 3339 timestamp" else " is required")

/-- How a parser ends: it refuses at a key that is amiss, or its command holds what was parsed. -/
def Ends {α : Type} (X : BodyParsers) (body : Value) (amiss : String × FieldType → Prop)
    (required keys : List (String × FieldType)) (fields : α → List (Option Field))
    (parse : Except EventError α) : Prop :=
  (∃ e ∈ required, amiss e ∧ parse = .error (refusal e)) ∨
    ∃ a, (∀ e ∈ required, ¬ amiss e) ∧ parse = .ok a ∧ List.Forall₂ (Holds X body) keys (fields a)

theorem parseCreateEvent_ends : Ends X body (Missing X body) createRequired createKeys createFields
    (parseCreateEvent X body) := by
  rcases parseTs_cases X body "date_begin" with ⟨hbegin, hts⟩ | ⟨b, hb, hpb, hts⟩
  · exact .inl ⟨_, by simp [createRequired], hbegin, by rw [parseCreateEvent, hts]; rfl⟩
  rcases parseTs_cases X body "date_end" with ⟨hend, hts'⟩ | ⟨e, he, hpe, hts'⟩
  · exact .inl ⟨("date_end", .instant), by simp [createRequired], hend, by
      rw [parseCreateEvent, hts, hts']; rfl⟩
  rcases stringOf_cases X body "name" with ⟨hname, hs⟩ | ⟨n, hn, hpn, hs⟩
  · exact .inl ⟨("name", .text), by simp [createRequired], hname, by
      rw [parseCreateEvent, hts, hts', hs]; rfl⟩
  refine .inr ⟨_, by simp [createRequired, hb, he, hn], by
    rw [parseCreateEvent, hts, hts', hs]; rfl, ?_⟩
  simp only [createKeys, createFields]
  refine .cons (holds_some hpn) <| .cons holds_parsed <| .cons (holds_some hpb) <|
    .cons (holds_some hpe) <| .cons holds_parsed <| .cons (holds_getD rfl _) <|
    .cons (holds_getD rfl _) <| .cons (holds_getD rfl _) <| .cons (holds_getD rfl _) <|
    .cons holds_parsed <| .cons holds_parsed <| .cons holds_parsed <| .cons holds_parsed <|
    .cons holds_parsed .nil

theorem parsePatchEvent_ends : Ends X body (Broken X body) patchChecked patchKeys patchFields
    (parsePatchEvent X body) := by
  rcases optTs_cases X body "date_begin" with ⟨hbegin, hts⟩ | ⟨b, hb, hpb, hts⟩
  · exact .inl ⟨_, by simp [patchChecked], hbegin, by rw [parsePatchEvent, hts]; rfl⟩
  rcases optTs_cases X body "date_end" with ⟨hend, hts'⟩ | ⟨e, he, hpe, hts'⟩
  · exact .inl ⟨("date_end", .instant), by simp [patchChecked], hend, by
      rw [parsePatchEvent, hts, hts']; rfl⟩
  refine .inr ⟨_, by simp [patchChecked, hb, he], by rw [parsePatchEvent, hts, hts']; rfl, ?_⟩
  simp only [patchKeys, patchFields, ← hpb, ← hpe]
  refine .cons holds_parsed <| .cons holds_parsed <| .cons holds_parsed <| .cons holds_parsed <|
    .cons holds_parsed <| .cons holds_parsed <| .cons holds_parsed <| .cons holds_parsed <|
    .cons holds_parsed <| .cons holds_parsed <| .cons holds_parsed <| .cons holds_parsed <|
    .cons holds_parsed <| .cons holds_parsed <| .cons holds_parsed .nil

theorem registerCommand_ends (actor : Option Uuid) : Ends X body (Missing X body) registerRequired
    registerKeys registerFields (registerCommand X body actor) := by
  rcases uuidOf_cases X body "event_id" with ⟨hid, hu⟩ | ⟨i, hi, hpi, hu⟩
  · exact .inl ⟨("event_id", .uuid), by simp [registerRequired], hid, by
      rw [registerCommand, hu]; rfl⟩
  rcases stringOf_cases X body "name" with ⟨hname, hs⟩ | ⟨n, hn, hpn, hs⟩
  · exact .inl ⟨("name", .text), by simp [registerRequired], hname, by
      rw [registerCommand, hu, hs]; rfl⟩
  rcases stringOf_cases X body "email" with ⟨hemail, hs'⟩ | ⟨m, hm, hpm, hs'⟩
  · exact .inl ⟨("email", .text), by simp [registerRequired], hemail, by
      rw [registerCommand, hu, hs, hs']; rfl⟩
  refine .inr ⟨_, by simp [registerRequired, hi, hn, hm], by
    rw [registerCommand, hu, hs, hs']; rfl, ?_⟩
  simp only [registerKeys, registerFields]
  refine .cons (holds_some hpi) <| .cons holds_parsed <| .cons holds_parsed <|
    .cons (holds_some hpn) <| .cons (holds_some hpm) <| .cons holds_parsed <|
    .cons holds_parsed <| .cons holds_parsed .nil

/-- A parser carries every key exactly where a key is amiss or all the values fit. -/
theorem Ends.exact_iff {α : Type} {amiss : String × FieldType → Prop}
    {required keys : List (String × FieldType)} {fields : α → List (Option Field)}
    {parse : Except EventError α} (h : Ends X body amiss required keys fields parse) :
    (∀ a, parse = .ok a → List.Forall₂ (Carried X body) keys (fields a)) ↔
      (∃ e ∈ required, amiss e) ∨ ∀ e ∈ keys, Fits X body e := by
  rcases h with ⟨e, he, hamiss, hparse⟩ | ⟨a, hfine, hparse, hholds⟩
  · refine ⟨fun _ => .inl ⟨e, he, hamiss⟩, fun _ a ha => ?_⟩
    cases hparse.symm.trans ha
  · have hnone : ¬ ∃ e ∈ required, amiss e := fun ⟨e, he, hamiss⟩ => hfine e he hamiss
    rw [or_iff_right hnone, ← carried_iff_fits hholds]
    refine ⟨fun hcarried => hcarried a hparse, fun hcarried b hb => ?_⟩
    obtain rfl := Except.ok.inj (hparse.symm.trans hb)
    exact hcarried

end parsers

section handlers

variable {X body} {actor : Option Uuid}

theorem Ends.refused {α : Type} {amiss : String × FieldType → Prop}
    {required keys : List (String × FieldType)} {fields : α → List (Option Field)}
    {parse : Except EventError α} (h : Ends X body amiss required keys fields parse)
    (hamiss : ∃ e ∈ required, amiss e) :
    ∃ e ∈ required, amiss e ∧ parse = .error (refusal e) := by
  rcases h with hrefused | ⟨a, hfine, -, -⟩
  · exact hrefused
  · obtain ⟨e, he, hamiss⟩ := hamiss
    exact absurd hamiss (hfine e he)

/-- A create whose body lacks what it requires says so of one such key and writes nothing. -/
theorem execute_createEvent_refused (env : EventEnv) (s : EventDb)
    (h : ∃ e ∈ createRequired, Missing X body e) : ∃ e ∈ createRequired, Missing X body e ∧
      (createEvent X actor body env).execute EventDb.absorb s = (.error (refusal e), s) := by
  obtain ⟨e, he, hmissing, hparse⟩ := parseCreateEvent_ends.refused h
  exact ⟨e, he, hmissing, by rw [createEvent, hparse]; rfl⟩

theorem execute_patchEvent_refused (env : EventEnv) (id : Uuid) (s : EventDb)
    (hfence : ∀ key ∈ publishFencedFields, body.containsKey key = false)
    (h : ∃ e ∈ patchChecked, Broken X body e) : ∃ e ∈ patchChecked, Broken X body e ∧
      (patchEvent X actor body env id).execute EventDb.absorb s = (.error (refusal e), s) := by
  obtain ⟨e, he, hbroken, hparse⟩ := parsePatchEvent_ends.refused h
  have hhits : publishFencedFields.filter body.containsKey = [] :=
    List.filter_eq_nil_iff.mpr fun key hkey => by simp [hfence key hkey]
  refine ⟨e, he, hbroken, ?_⟩
  rw [patchEvent, hhits, if_neg (not_not_intro rfl), hparse]
  rfl

theorem execute_registerRegistration_refused (env : Env) (s : Db)
    (h : ∃ e ∈ registerRequired, Missing X body e) : ∃ e ∈ registerRequired, Missing X body e ∧
      (registerRegistration X actor body env).execute Db.absorb s = (.error (refusal e), s) := by
  obtain ⟨e, he, hmissing, hparse⟩ := (registerCommand_ends actor).refused h
  exact ⟨e, he, hmissing, by rw [registerRegistration, hparse]; rfl⟩

end handlers

/-- The parse layer alters or drops no value of a body exactly where it refuses the body for a
required key, or where every value of the body fits the type of its key. -/
theorem parses_exactly_iff (X : BodyParsers) (body : Value) (actor : Option Uuid) :
    ((∀ input, parseCreateEvent X body = .ok input →
        List.Forall₂ (Carried X body) createKeys (createFields input)) ↔
      (∃ e ∈ createRequired, Missing X body e) ∨ ∀ e ∈ createKeys, Fits X body e) ∧
    ((∀ p, parsePatchEvent X body = .ok p →
        List.Forall₂ (Carried X body) patchKeys (patchFields p)) ↔
      (∃ e ∈ patchChecked, Broken X body e) ∨ ∀ e ∈ patchKeys, Fits X body e) ∧
    ((∀ cmd, registerCommand X body actor = .ok cmd →
        List.Forall₂ (Carried X body) registerKeys (registerFields cmd)) ↔
      (∃ e ∈ registerRequired, Missing X body e) ∨ ∀ e ∈ registerKeys, Fits X body e) :=
  ⟨parseCreateEvent_ends.exact_iff, parsePatchEvent_ends.exact_iff,
    (registerCommand_ends actor).exact_iff⟩

/-- Two instants, and no uuids. -/
def eveningParsers : BodyParsers where
  parseStr _ := none
  parseFromRfc3339 text :=
    if text = "2026-09-19T18:00:00Z" then some 1789840800000000
    else if text = "2026-09-19T23:00:00Z" then some 1789858800000000
    else none

/-- An event with a cap of 2 ^ 32 seats. -/
def wideCap : Value := .object
  [("name", .string "Gig"), ("date_begin", .string "2026-09-19T18:00:00Z"),
    ("date_end", .string "2026-09-19T23:00:00Z"), ("seats_limited", .bool true),
    ("seats_max", .number (.posInt 4294967296))]

/-- The create is accepted with a cap of 0, which is none. -/
theorem wideCap_unlimited : ∃ input, parseCreateEvent eveningParsers wideCap = .ok input ∧
    input.seatsMax = 0 ∧
    ¬ List.Forall₂ (Carried eveningParsers wideCap) createKeys (createFields input) := by
  refine ⟨_, rfl, rfl, fun hcarried => ?_⟩
  rw [createKeys, createFields] at hcarried
  simp only [List.forall₂_cons] at hcarried
  obtain ⟨-, -, -, -, -, -, -, -, hcap, -⟩ := hcarried
  obtain ⟨f, hread, -⟩ := hcap (.number (.posInt 4294967296)) rfl rfl
  have hnone : FieldType.int.read eveningParsers (.number (.posInt 4294967296)) = none := by decide
  cases hnone.symm.trans hread

end BackboneEvents.BodyFields
