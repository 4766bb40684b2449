import BackboneEvents.Capability
import BackboneEvents.EventCommandRepository

/-! # The capability-gated reads: a calendar feed and a ticket report -/
namespace BackboneEvents
open Base64Url EventCommandRepository

/-- `str::replace` of one character. -/
def replaceChar (raw : String) (c : Char) (text : String) : String :=
  String.ofList (raw.toList.flatMap fun ch => if ch = c then text.toList else [ch])

def icsEscape (raw : String) : String :=
  let raw := replaceChar raw '\\' "\\\\"
  let raw := replaceChar raw ';' "\\;"
  let raw := replaceChar raw ',' "\\,"
  replaceChar raw '\n' "\\n"

/-- The loop over the characters of a line, `count` of them since the last fold. -/
def foldFrom (count : ℕ) : List Char → List Char
  | [] => []
  | ch :: rest =>
    if 74 ≤ count then '\r' :: '\n' :: ' ' :: ch :: foldFrom 1 rest
    else ch :: foldFrom (count + 1) rest

def icsFold (line : String) : String :=
  if (asBytes line).length ≤ 75 then line else String.ofList (foldFrom 0 line.toList)

/-- What the service takes from the composing host: the crates of the tokens, the secret, the
clock, and `chrono`'s format of an instant. -/
structure PublicHost extends Crates where
  secret : String
  now : Timestamp
  icsStamp : Timestamp → String

def buildIcs (H : PublicHost) (event : EventRow)
    (slotWindow : Option (Uuid × Timestamp × Timestamp)) : String :=
  let window := (slotWindow.map fun w => w.2).getD (event.dateBegin, event.dateEnd)
  let uid := match slotWindow with
    | some w => "event-" ++ H.uuidToString event.id ++ "-slot-" ++ H.uuidToString w.1
    | none => "event-" ++ H.uuidToString event.id
  let lines := ["BEGIN:VCALENDAR", "VERSION:2.0", "PRODID:-//backbone-events//core//EN",
    "CALSCALE:GREGORIAN", "BEGIN:VEVENT", "UID:" ++ uid ++ "@event.module",
    "DTSTAMP:" ++ H.icsStamp H.now, "DTSTART:" ++ H.icsStamp window.1,
    "DTEND:" ++ H.icsStamp window.2, "SUMMARY:" ++ icsEscape event.name, "END:VEVENT",
    "END:VCALENDAR"]
  "\r\n".intercalate (lines.map icsFold)

structure IcsFeed where
  eventId : Uuid
  slotId : Option Uuid
  body : String
  deriving DecidableEq

structure TicketView where
  registrationId : Uuid
  eventId : Uuid
  eventName : String
  eventDateBegin : Timestamp
  eventDateEnd : Timestamp
  eventDateTz : String
  attendeeName : String
  state : RegistrationState
  barcode : String
  deriving DecidableEq

structure TicketReport where
  eventId : Uuid
  eventName : String
  eventDateBegin : Timestamp
  eventDateEnd : Timestamp
  eventDateTz : String
  badgeFormat : BadgeFormat
  tickets : List TicketView
  deriving DecidableEq

/-- The event a token pins. -/
def pinnedEvent (H : PublicHost) (claims : CapabilityClaims) : Except EventError Uuid :=
  match claims.data.head?.bind H.parseStr with
  | none => .error .eventNotPublished
  | some eventId => .ok eventId

/-- The slot hours a token pins, if it pins a slot. -/
def pinnedSlot (H : PublicHost) (s : PublicDb) (claims : CapabilityClaims) (eventId : Uuid) :
    Except EventError (Option (Uuid × Timestamp × Timestamp)) :=
  match claims.data[1]? with
  | none => .ok none
  | some raw => match H.parseStr raw with
    | none => .error .eventNotPublished
    | some slot => match slotWindowOfEvent s slot eventId with
      | none => .error .eventNotPublished
      | some window => .ok (some window)

namespace IcsService

def feed (H : PublicHost) (s : PublicDb) (token : String) : Except EventError IcsFeed := do
  let claims ← CapabilityClaims.verify H.toCrates H.secret purposeIcs token H.now
  let eventId ← pinnedEvent H claims
  let slotWindow ← pinnedSlot H s claims eventId
  let event ← findPublished s eventId
  return {
    eventId := eventId
    slotId := slotWindow.map fun w => w.1
    body := buildIcs H event slotWindow }

end IcsService

def findRegistration (s : PublicDb) (registrationId : Uuid) : Except EventError Registration :=
  match s.registrations.find fun r => r.id == registrationId with
  | none => .error .registrationNotFound
  | some r => .ok r

def ticketOf (event : EventRow) (row : Registration) : TicketView where
  registrationId := row.id
  eventId := event.id
  eventName := event.name
  eventDateBegin := event.dateBegin
  eventDateEnd := event.dateEnd
  eventDateTz := event.dateTz
  attendeeName := row.name
  state := row.state
  barcode := row.barcode

namespace MyTicketsService

/-- The pinned rows of the event; what does not resolve, or is another event's, is absent. -/
def pinnedTickets (s : PublicDb) (event : EventRow) (eventId : Uuid) (pinned : List Uuid) :
    List TicketView :=
  pinned.filterMap fun regId => match findRegistration s regId with
    | .error _ => none
    | .ok row => if row.eventId == eventId then some (ticketOf event row) else none

def report (H : PublicHost) (s : PublicDb) (token : String) : Except EventError TicketReport := do
  let claims ← CapabilityClaims.verify H.toCrates H.secret purposeTicketReport token H.now
  let eventId ← pinnedEvent H claims
  let pinned := (claims.data.drop 1).filterMap H.parseStr
  let event ← findPublished s eventId
  return {
    eventId := event.id
    eventName := event.name
    eventDateBegin := event.dateBegin
    eventDateEnd := event.dateEnd
    eventDateTz := event.dateTz
    badgeFormat := event.badgeFormat
    tickets := pinnedTickets s event eventId pinned }

end MyTicketsService

section Uniformity

/-- A read that refuses, if at all, with the one error of the gate. -/
def Uniform {α : Type} (r : Except EventError α) : Prop :=
  (∃ a, r = .ok a) ∨ r = .error .eventNotPublished

theorem Uniform.pure {α : Type} (a : α) : Uniform (Pure.pure a : Except EventError α) :=
  .inl ⟨a, rfl⟩

theorem Uniform.bind {α β : Type} {r : Except EventError α} {f : α → Except EventError β}
    (h : Uniform r) (hf : ∀ a, Uniform (f a)) : Uniform (r >>= f) := by
  rcases h with ⟨a, rfl⟩ | rfl
  · exact hf a
  · exact .inr rfl

/-- Two refusals of uniform reads are the same. -/
theorem Uniform.eq_of_error {α β : Type} {r : Except EventError α} {r' : Except EventError β}
    {e e' : EventError} (h : Uniform r) (h' : Uniform r') (he : r = .error e)
    (he' : r' = .error e') : e = e' := by
  rcases h with ⟨a, ha⟩ | ha
  · cases ha.symm.trans he
  · rcases h' with ⟨a', ha'⟩ | ha'
    · cases ha'.symm.trans he'
    · cases ha.symm.trans he
      cases ha'.symm.trans he'
      rfl

/-- The secret is set, and HMAC takes it as a key. -/
structure PublicHost.Configured (H : PublicHost) : Prop where
  secret_ne : H.secret ≠ ""
  accepts : ∃ mac, H.newFromSlice (asBytes H.secret) = .ok mac

variable {H : PublicHost} (s : PublicDb) (claims : CapabilityClaims) (eventId : Uuid)

theorem uniform_verify (hH : H.Configured) (purpose token : String) :
    Uniform (CapabilityClaims.verify H.toCrates H.secret purpose token H.now) := by
  obtain ⟨mac, hmac⟩ := hH.accepts
  rw [CapabilityClaims.verify, if_neg hH.secret_ne]
  by_cases hparts : segment 0 token ≠ "v1" ∨ segment 1 token = "" ∨ segment 2 token = ""
  · exact .inr (if_pos hparts)
  · simp only [if_neg hparts, sign, if_neg hH.secret_ne, hmac]
    split
    · exact .inr rfl
    · split
      · exact .inr rfl
      · split
        · exact .inr rfl
        · split
          · exact .inr rfl
          · split
            · exact .inr rfl
            · split
              · exact .inr rfl
              · exact .inl ⟨_, rfl⟩

theorem uniform_pinnedEvent : Uniform (pinnedEvent H claims) := by
  rw [pinnedEvent]
  split
  · exact .inr rfl
  · exact .inl ⟨_, rfl⟩

theorem uniform_pinnedSlot : Uniform (pinnedSlot H s claims eventId) := by
  rw [pinnedSlot]
  split
  · exact .inl ⟨_, rfl⟩
  · split
    · exact .inr rfl
    · split
      · exact .inr rfl
      · exact .inl ⟨_, rfl⟩

theorem uniform_findPublished : Uniform (findPublished s eventId) := by
  rcases findPublished_cases s eventId with h | ⟨row, h, -⟩
  · exact .inr h
  · exact .inl ⟨row, h⟩

theorem uniform_feed (hH : H.Configured) (token : String) : Uniform (IcsService.feed H s token) :=
  (uniform_verify hH purposeIcs token).bind fun claims =>
    (uniform_pinnedEvent claims).bind fun eventId =>
      (uniform_pinnedSlot s claims eventId).bind fun _ =>
        (uniform_findPublished s eventId).bind fun _ => .pure _

theorem uniform_report (hH : H.Configured) (token : String) :
    Uniform (MyTicketsService.report H s token) :=
  (uniform_verify hH purposeTicketReport token).bind fun claims =>
    (uniform_pinnedEvent claims).bind fun eventId =>
      (uniform_findPublished s eventId).bind fun _ => .pure _

end Uniformity

/-- Every refusal of the two gated reads is the one error, so no two refusals can be told
apart, whatever the tokens, the states and the instants. -/
theorem refusals_uniform {H H' : PublicHost} (hH : H.Configured) (hH' : H'.Configured)
    (s s' : PublicDb) (token token' : String) :
    ((∃ feed, IcsService.feed H s token = .ok feed) ∨
      IcsService.feed H s token = .error .eventNotPublished) ∧
    ((∃ report, MyTicketsService.report H s token = .ok report) ∨
      MyTicketsService.report H s token = .error .eventNotPublished) ∧
    (∀ e e', IcsService.feed H s token = .error e → IcsService.feed H' s' token' = .error e' →
      e = e') ∧
    (∀ e e', MyTicketsService.report H s token = .error e →
      MyTicketsService.report H' s' token' = .error e' → e = e') ∧
    ∀ e e', IcsService.feed H s token = .error e →
      MyTicketsService.report H' s' token' = .error e' → e = e' :=
  ⟨uniform_feed s hH token, uniform_report s hH token,
    fun _ _ => (uniform_feed s hH token).eq_of_error (uniform_feed s' hH' token'),
    fun _ _ => (uniform_report s hH token).eq_of_error (uniform_report s' hH' token'),
    fun _ _ => (uniform_feed s hH token).eq_of_error (uniform_report s' hH' token')⟩

def gigHost : PublicHost where
  toCrates := sampleCrates
  secret := "s3cret"
  now := 0
  icsStamp _ := "19700101T000000Z"

def publicGig (isPublished : Bool) : PublicDb where
  events := .push .empty
    ⟨⟨0, "Gig", none, .normal, 0, 100, "UTC", false, true, 1, none⟩, 0, 1, .a6, isPublished, none⟩
  slots := .empty
  registrations := .empty

theorem gigHost_configured : gigHost.Configured := ⟨by decide, _, rfl⟩

theorem refusals_uniform_gig :
    ((∃ feed, IcsService.feed gigHost (publicGig true) "v1.e30.AA" = .ok feed) ∨
      IcsService.feed gigHost (publicGig true) "v1.e30.AA" = .error .eventNotPublished) ∧
    ∀ e e', IcsService.feed gigHost (publicGig true) "v1.e30.AA" = .error e →
      MyTicketsService.report gigHost (publicGig false) "v1..AA" = .error e' → e = e' := by
  have h := refusals_uniform gigHost_configured gigHost_configured (publicGig true)
    (publicGig false) "v1.e30.AA" "v1..AA"
  exact ⟨h.1, h.2.2.2.2⟩

end BackboneEvents
