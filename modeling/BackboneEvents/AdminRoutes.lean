import BackboneEvents.EventLifecycle
import BackboneEvents.JsonValues
import BackboneEvents.VerbCalls

/-!
# The officer routes that take a JSON body

The typed parse layer, and the handlers that hand what it reads to the verbs.
-/
namespace BackboneEvents
open TransactionPrograms JsonValues

/-- The parsers of the crates: `Uuid::parse_str` and `DateTime::parse_from_rfc3339`, in UTC. -/
structure BodyParsers where
  parseStr : String → Option Uuid
  parseFromRfc3339 : String → Option Timestamp

def publishFencedFields : List String := ["is_published", "date_publish"]

namespace EventCommandService

def create (env : EventEnv) (input : CreateEventInput) (actor : Option Uuid) : EventTx EventRow := do
  Program.refuseWhen (decide (input.dateEnd < input.dateBegin))
    (.validation "date_end precedes date_begin")
  Program.refuseWhen (input.isMultiSlots && decide (input.eventSlotCount < 1))
    (.validation "multi-slot events declare at least one slot")
  EventLifecycle.create env input actor

end EventCommandService

namespace AdminRoutes

section parsing

variable (X : BodyParsers) (body : Value) (key : String)

def stringOf : Except EventError String :=
  match ((body.get key).bind Value.asStr).filter (· != "") with
  | some s => .ok s
  | none => .error (.validation (key ++ " is required"))

def optStringOf : Option String := (body.get key).bind Value.asStr

def boolOf : Option Bool := (body.get key).bind Value.asBool

def optBoolOf : Option Bool := boolOf body key

/-- `v as i32` keeps the low 32 bits. -/
def intOf : Option ℤ := ((body.get key).bind Value.asI64).map fun v => v.toInt32.toInt

def optIntOf : Option ℤ := intOf body key

def uuidOf : Option Uuid := ((body.get key).bind Value.asStr).bind X.parseStr

def parseTs (value : Option Value) : Except EventError Timestamp :=
  match (value.bind Value.asStr).bind X.parseFromRfc3339 with
  | some t => .ok t
  | none => .error (.validation (key ++ " must be an RFC 3339 timestamp"))

def optTs : Except EventError (Option Timestamp) :=
  if (body.get key).isNone then .ok none else (parseTs X key (body.get key)).map some

end parsing

section bodies

variable (X : BodyParsers) (body : Value)

def parseCreateEvent : Except EventError CreateEventInput := do
  let dateBegin ← parseTs X "date_begin" (body.get "date_begin")
  let dateEnd ← parseTs X "date_end" (body.get "date_end")
  let name ← stringOf body "name"
  return {
    name := name
    eventTypeId := uuidOf X body "event_type_id"
    dateBegin := dateBegin
    dateEnd := dateEnd
    dateTz := optStringOf body "date_tz"
    isMultiSlots := (boolOf body "is_multi_slots").getD false
    eventSlotCount := (intOf body "event_slot_count").getD 1
    seatsLimited := (boolOf body "seats_limited").getD false
    seatsMax := (intOf body "seats_max").getD 0
    organizerId := uuidOf X body "organizer_id"
    userId := uuidOf X body "user_id"
    addressId := uuidOf X body "address_id"
    eventUrl := optStringOf body "event_url"
    badgeFormat := optStringOf body "badge_format" }

def parsePatchEvent : Except EventError PatchEventInput := do
  let dateBegin ← optTs X body "date_begin"
  let dateEnd ← optTs X body "date_end"
  return {
    name := optStringOf body "name"
    eventTypeId := uuidOf X body "event_type_id"
    stageId := uuidOf X body "stage_id"
    dateBegin := dateBegin
    dateEnd := dateEnd
    dateTz := optStringOf body "date_tz"
    isMultiSlots := optBoolOf body "is_multi_slots"
    eventSlotCount := optIntOf body "event_slot_count"
    seatsLimited := optBoolOf body "seats_limited"
    seatsMax := optIntOf body "seats_max"
    organizerId := uuidOf X body "organizer_id"
    userId := uuidOf X body "user_id"
    addressId := uuidOf X body "address_id"
    eventUrl := optStringOf body "event_url"
    badgeFormat := optStringOf body "badge_format" }

/-- The command `registerRegistration` builds. -/
def registerCommand (actor : Option Uuid) : Except EventError RegisterCommand := do
  let eventId ← match uuidOf X body "event_id" with
    | some id => .ok id
    | none => .error (.validation "event_id is required")
  let name ← stringOf body "name"
  let email ← stringOf body "email"
  return {
    eventId := eventId
    eventSlotId := uuidOf X body "event_slot_id"
    eventTicketId := uuidOf X body "event_ticket_id"
    name := name
    email := email
    phone := optStringOf body "phone"
    companyName := optStringOf body "company_name"
    partnerId := uuidOf X body "partner_id"
    actor := actor
    leadRuleSkip := false }

end bodies

section handlers

variable (X : BodyParsers) (actor : Option Uuid) (body : Value)

def createEvent (env : EventEnv) : EventTx EventRow :=
  match parseCreateEvent X body with
  | .error e => .refuse e
  | .ok input => EventCommandService.create env input actor

/-- The fenced keys of a body are told before the rest of it is read. -/
def patchEvent (env : EventEnv) (id : Uuid) : EventTx EventRow :=
  let hits := publishFencedFields.filter body.containsKey
  if hits ≠ [] then .refuse (.publishRefused (", ".intercalate hits))
  else match parsePatchEvent X body with
    | .error e => .refuse e
    | .ok patch => EventLifecycle.patch env id patch actor

def registerRegistration (env : Env) : Tx Registration :=
  match registerCommand X body actor with
  | .error e => .refuse e
  | .ok cmd => register env cmd

/-- The keys of a registration that a patch may not name. -/
def refusedKeys : List String :=
  ["state", "sale_order_id", "sale_order_state", "sale_status", "active", "barcode", "event_id",
    "id"]

/-- A body without a uuid for its partner is written with the nil one, which is 0. -/
def patchRegistration (checks : Registration → Bool) (id : Uuid) : Tx Registration :=
  let hits := refusedKeys.filter body.containsKey
  if hits ≠ [] then
    .refuse (.validation ("patch refuses non-attendee fields: " ++ ", ".intercalate hits))
  else syncFromPartner checks id ((uuidOf X body "partner_id").getD 0) (optStringOf body "name")
    (optStringOf body "phone") (optStringOf body "company_name") actor

/-- The same fill, which asks for the partner. -/
def syncFromPartnerRegistration (checks : Registration → Bool) (id : Uuid) : Tx Registration :=
  match uuidOf X body "partner_id" with
  | none => .refuse (.validation "partner_id is required")
  | some partnerId => syncFromPartner checks id partnerId (optStringOf body "name")
    (optStringOf body "phone") (optStringOf body "company_name") actor

end handlers

end AdminRoutes

end BackboneEvents
