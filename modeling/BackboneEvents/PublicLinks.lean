import BackboneEvents.IcsText
import BackboneEvents.PublicationHistory
import BackboneEvents.RegistrationLives
import BackboneEvents.TicketReports

/-!
# Links that were handed out

A calendar link and a ticket link are tokens that live on while the verbs go on. Each answers
exactly while the history leaves its event public, and shows the event under the name of its last
accepted rename; a ticket link shows every registration it pins for good.
-/
namespace BackboneEvents.EventLifecycle
open ConstrainedTables EventCommandRepository IcsText WriteHistories

section link

variable {H : PublicHost} {s : PublicDb} {token : String} {eventId : Uuid} {slotId : Option Uuid}

/-- A minted token is read as the claims it was minted for, before they expire. -/
theorem verify_minted (hmac : H.toCrates.Mac) (json : H.toCrates.JsonRoundTrip)
    {c claims : CapabilityClaims}
    (hmint : c.mint H.toCrates H.secret = .ok token) {now : Timestamp} :
    CapabilityClaims.verify H.toCrates H.secret c.purpose token now = .ok claims ↔
      claims = c ∧ (c.exp = 0 ∨ timestamp now < c.exp) := by
  have hs := TicketReports.secret_ne_of_mint hmint
  obtain ⟨token', hmint', hverify⟩ := verify_mint hmac json hs c
  obtain rfl := Except.ok.inj (hmint.symm.trans hmint')
  constructor
  · intro h
    obtain ⟨payload, tag, -, hfrom, -, hmint'', hsegments⟩ := mint_ok hmac json hs c
    obtain rfl := Except.ok.inj (hmint.symm.trans hmint'')
    obtain ⟨payloadB64, sigB64, hsegments', hacc⟩ := accepted_of_verify H.toCrates h
    obtain ⟨payload', hpayload', hclaims⟩ := hacc.decoded
    rw [← hsegments'.segment_one, hsegments.segment_one, Base64Url.b64urlDecode_encode] at hpayload'
    obtain rfl := Option.some.inj hpayload'
    obtain rfl := Except.ok.inj (hfrom.symm.trans hclaims)
    exact ⟨rfl, (hverify now).mp h⟩
  · rintro ⟨rfl, hunexpired⟩
    exact (hverify now).mpr hunexpired

/-- The slot a link pins, with its hours; there is nothing to find when it pins none. -/
def pinnedHours (s : PublicDb) (eventId : Uuid) :
    Option Uuid → Option (Option (Uuid × Timestamp × Timestamp))
  | none => some none
  | some slotId => (slotWindowOfEvent s slotId eventId).map some

theorem findPublished_eq_ok_iff {row : EventRow} : findPublished s eventId = .ok row ↔
    row ∈ s.events.rows ∧ row.id = eventId ∧ row.isPublished = true ∧
      row.kanbanState ≠ .cancel := by
  constructor
  · intro h
    rcases findPublished_cases s eventId with hrefused | ⟨row', hok, hmem, hid, hgate⟩
    · rw [hrefused] at h
      cases h
    · obtain rfl := Except.ok.inj (h.symm.trans hok)
      exact ⟨hmem, hid, hgate⟩
  · rintro ⟨hmem, rfl, hpublished, hlive⟩
    exact TicketReports.findPublished_eq_ok hmem hpublished hlive

theorem fst_slotWindow {window : Uuid × Timestamp × Timestamp} {slotId : Uuid}
    (h : slotWindowOfEvent s slotId eventId = some window) : window.1 = slotId := by
  obtain ⟨slot, hslot, rfl⟩ := Option.map_eq_some_iff.mp h
  have hid := (Bool.and_eq_true _ _ ▸ Table.find_spec hslot).1
  exact beq_iff_eq.mp hid

theorem except_bind_eq_ok {α β : Type} {r : Except EventError α}
    {f : α → Except EventError β} {b : β} :
    (r >>= f) = .ok b ↔ ∃ a, r = .ok a ∧ f a = .ok b := by
  cases r with
  | error e =>
    refine iff_of_false (fun h => ?_) fun ⟨a, ha, _⟩ => ?_
    · cases h
    · cases ha
  | ok a => exact ⟨fun h => ⟨a, rfl, h⟩, fun ⟨_, ha, h⟩ => Except.ok.inj ha ▸ h⟩

theorem pinnedSlot_eq_ok_iff (uuids : TicketReports.UuidTexts H.toCrates) {purpose : String}
    {exp : Int64} {hours : Option (Uuid × Timestamp × Timestamp)} :
    pinnedSlot H s ⟨purpose, exp, H.uuidToString eventId ::
      (slotId.map H.uuidToString).toList⟩ eventId =
      .ok hours ↔ pinnedHours s eventId slotId = some hours := by
  cases slotId with
  | none => simp [pinnedSlot, pinnedHours]
  | some slotId =>
    have hparse := uuids.parses slotId
    cases hslot : slotWindowOfEvent s slotId eventId <;>
      simp [pinnedSlot, pinnedHours, hparse, hslot]

/-- What a handed out link answers. -/
theorem feed_eq_ok_iff (hmac : H.toCrates.Mac) (json : H.toCrates.JsonRoundTrip)
    (uuids : TicketReports.UuidTexts H.toCrates) {issued : Timestamp} {ttlSecs : Int64}
    (hmint : mintIcsCapability H.toCrates H.secret eventId slotId issued ttlSecs = .ok token)
    {feed : IcsFeed} : IcsService.feed H s token = .ok feed ↔
      (timestamp issued + ttlSecs = 0 ∨ timestamp H.now < timestamp issued + ttlSecs) ∧
      ∃ row hours, findPublished s eventId = .ok row ∧ pinnedHours s eventId slotId = some hours ∧
        feed = ⟨eventId, slotId, buildIcs H row hours⟩ := by
  have hverify := fun claims => @verify_minted H token hmac json _ claims hmint H.now
  have hpinned : pinnedEvent H ⟨purposeIcs, timestamp issued + ttlSecs,
      H.uuidToString eventId :: (slotId.map H.uuidToString).toList⟩ = .ok eventId := by
    simp only [pinnedEvent, List.head?_cons, Option.bind_some, uuids.parses]
  have hslot : ∀ hours, pinnedHours s eventId slotId = some hours → hours.map (·.1) = slotId := by
    intro hours hhours
    cases slotId with
    | none =>
      obtain rfl := Option.some.inj hhours
      rfl
    | some slotId =>
      obtain ⟨window, hwindow, rfl⟩ := Option.map_eq_some_iff.mp hhours
      rw [Option.map_some, fst_slotWindow hwindow]
  simp only [IcsService.feed, except_bind_eq_ok]
  constructor
  · rintro ⟨claims, hclaims, eventId', hevent, hours, hhours, row, hrow, hfeed⟩
    obtain ⟨rfl, hunexpired⟩ := (hverify claims).mp hclaims
    obtain rfl := Except.ok.inj (hpinned.symm.trans hevent)
    have hfound := (pinnedSlot_eq_ok_iff uuids).mp hhours
    refine ⟨hunexpired, row, hours, hrow, hfound, ?_⟩
    rw [← Except.ok.inj hfeed, hslot hours hfound]
  · rintro ⟨hunexpired, row, hours, hrow, hhours, rfl⟩
    refine ⟨_, (hverify _).mpr ⟨rfl, hunexpired⟩, eventId, hpinned, hours,
      (pinnedSlot_eq_ok_iff uuids).mpr hhours, row, hrow, ?_⟩
    rw [hslot hours hhours]
    rfl

end link

/-- The tables a public read sees while the event verbs go on. -/
def publicView (s : EventDb) (slots : Table SlotRow)
    (registrations : Table Registration) : PublicDb :=
  ⟨s.events, slots, registrations⟩

/-- The last fence verb left the event published, and a cancellation was taken away. -/
def PublicAsTold (verbs : List EventVerb) (row : EventRow) : Prop :=
  (verbs.filterMap (fencedBy row.id)).getLast?.getD row.isPublished = true ∧
    (row.kanbanState = .cancel → verbs.filterMap (markedBy row.id) ≠ [])

/-- The gate finds the event as the history leaves it. -/
theorem findPublished_told {s : EventDb} {row row' : EventRow} {verbs : List EventVerb}
    {slots : Table SlotRow} {registrations : Table Registration}
    (hrow' : (verbs.foldl next s).event? row.id = some row')
    (htold : PublishedAsTold s verbs row row')
    {found : EventRow} :
    findPublished (publicView (verbs.foldl next s) slots registrations) row.id = .ok found ↔
      found = row' ∧ PublicAsTold verbs row := by
  have hmem := (event?_mem hrow').1
  have hlive : row'.kanbanState ≠ .cancel ↔
      (row.kanbanState = .cancel → verbs.filterMap (markedBy row.id) ≠ []) := by
    rw [Ne, htold.cancelled, not_and]
  rw [findPublished_eq_ok_iff, PublicAsTold, ← htold.isPublished, ← hlive]
  constructor
  · rintro ⟨hfound, hid, hgate⟩
    obtain rfl := row_eq_of_id hmem hfound (hid.trans htold.id.symm)
    exact ⟨rfl, hgate⟩
  · rintro ⟨rfl, hgate⟩
    exact ⟨hmem, htold.id, hgate⟩

/-- A calendar link that was handed out answers after any run of verbs exactly while it has not
expired, its slot is the event's, and the history leaves the event published and not cancelled;
what it then answers reads back as the event's calendar under the name of the last accepted
rename. -/
theorem calendarLink_told (H : PublicHost) (hmac : H.toCrates.Mac) (json : H.toCrates.JsonRoundTrip)
    (uuids : TicketReports.UuidTexts H.toCrates) (hH : Unbroken H) {s : EventDb} {row : EventRow}
    (hrow : row ∈ s.events.rows) (verbs : List EventVerb) (slots : Table SlotRow)
    (registrations : Table Registration) {slotId : Option Uuid}
    {issued : Timestamp} {ttlSecs : Int64}
    {token : String}
    (hmint : mintIcsCapability H.toCrates H.secret row.id slotId issued ttlSecs = .ok token) :
    ((∃ feed, IcsService.feed H (publicView (verbs.foldl next s) slots registrations) token =
      .ok feed) ↔
      (timestamp issued + ttlSecs = 0 ∨ timestamp H.now < timestamp issued + ttlSecs) ∧
      (pinnedHours (publicView s slots registrations) row.id slotId).isSome = true ∧
      PublicAsTold verbs row) ∧
    ∀ feed, IcsService.feed H (publicView (verbs.foldl next s) slots registrations) token =
      .ok feed →
      feed.eventId = row.id ∧ feed.slotId = slotId ∧
      ∃ row' hours summary, row' ∈ (verbs.foldl next s).events.rows ∧ row'.id = row.id ∧
        pinnedHours (publicView s slots registrations) row.id slotId = some hours ∧
        readLines feed.body = icsLines H row' hours summary ∧
        icsUnescape summary = (written next (renamedBy row.id) s verbs).getLast?.getD row.name := by
  obtain ⟨row', hfound⟩ := exists_event?_run hrow verbs
  have htold := publishedAsTold hrow hfound
  simp only [feed_eq_ok_iff hmac json uuids hmint, findPublished_told hfound htold]
  constructor
  · rw [Option.isSome_iff_exists]
    constructor
    · rintro ⟨_, hunexpired, other, hours, ⟨-, hpublic⟩, hhours, -⟩
      exact ⟨hunexpired, ⟨hours, hhours⟩, hpublic⟩
    · rintro ⟨hunexpired, ⟨hours, hhours⟩, hpublic⟩
      exact ⟨_, hunexpired, row', hours, ⟨rfl, hpublic⟩, hhours, rfl⟩
  · rintro feed ⟨-, other, hours, ⟨rfl, -⟩, hhours, rfl⟩
    refine ⟨rfl, rfl, other, hours, icsEscape other.name, (event?_mem hfound).1,
      htold.id, hhours, ?_, ?_⟩
    · rw [buildIcs_eq]
      exact readLines_folded (isLine_icsLines hH other hours (notMem_icsEscape other.name))
        (List.cons_ne_nil _ _)
    · rw [icsUnescape_escape, htold.name]

section ticket

variable {H : PublicHost} {s : PublicDb} {eventId : Uuid} {ids : List Uuid} {token : String}

open MyTicketsService TicketReports

/-- What a handed out ticket link answers. -/
theorem report_eq_ok_iff (hmac : H.toCrates.Mac) (json : H.toCrates.JsonRoundTrip)
    (uuids : UuidTexts H.toCrates)
    (hmint : mintTicketReportCapability H.toCrates H.secret eventId ids = .ok token)
    {answer : TicketReport} : report H s token = .ok answer ↔
      ∃ row, findPublished s eventId = .ok row ∧
        answer = reportOf row ((sortedIds ids).filterMap (ticketFor s row)) := by
  constructor
  · intro h
    obtain ⟨claims, hclaims, hrest⟩ := except_bind_eq_ok.mp h
    rw [verify_reportClaims hmac json hmint] at hclaims
    obtain rfl := Except.ok.inj hclaims
    obtain ⟨eventId', hevent, hrest⟩ := except_bind_eq_ok.mp hrest
    simp only [pinnedEvent, reportClaims, List.head?_cons, Option.bind_some, uuids.parses,
      Except.ok.injEq] at hevent
    obtain rfl := hevent
    obtain ⟨row, hrow, -⟩ := except_bind_eq_ok.mp hrest
    obtain rfl := (findPublished_eq_ok_iff.mp hrow).2.1
    rw [report_eq hmac json uuids hrow hmint] at h
    exact ⟨row, hrow, (Except.ok.inj h).symm⟩
  · rintro ⟨row, hrow, rfl⟩
    obtain rfl := (findPublished_eq_ok_iff.mp hrow).2.1
    exact report_eq hmac json uuids hrow hmint

/-- A ticket shows a registration as it lives on. -/
structure Shows (r r' : Registration) (ticket : TicketView) : Prop where
  registrationId : ticket.registrationId = r.id
  attendeeName : ticket.attendeeName = r.name
  barcode : ticket.barcode = r.barcode
  state : ticket.state = r'.state

end ticket

/-- A ticket link that was handed out answers after any run of event verbs and of acts on the
registrations exactly while the history leaves the event public, under the name of its last
accepted rename; each registration it pinned is then shown as often as it was pinned, under its
own name and barcode and in its state of the moment. -/
theorem ticketLink_told (H : PublicHost) (hmac : H.toCrates.Mac) (json : H.toCrates.JsonRoundTrip)
    (uuids : TicketReports.UuidTexts H.toCrates) {s : EventDb} {row : EventRow}
    (hrow : row ∈ s.events.rows) (verbs : List EventVerb) (slots : Table SlotRow) (d : Db)
    (acts : List RegistrationLives.RegistrationAct) {ids : List Uuid} {token : String}
    (hmint : mintTicketReportCapability H.toCrates H.secret row.id ids = .ok token) :
    ((∃ answer, MyTicketsService.report H (publicView (verbs.foldl next s) slots
        (acts.foldl RegistrationLives.step d).registrations) token = .ok answer) ↔
      PublicAsTold verbs row) ∧
    ∀ answer, MyTicketsService.report H (publicView (verbs.foldl next s) slots
        (acts.foldl RegistrationLives.step d).registrations) token = .ok answer →
      answer.eventName = (written next (renamedBy row.id) s verbs).getLast?.getD row.name ∧
      (∀ ticket ∈ answer.tickets, ticket.registrationId ∈ ids) ∧
      ∀ r ∈ d.registrations.rows, r.eventId = row.id → ∃ r' ticket,
        (acts.foldl RegistrationLives.step d).registration? r.id = some r' ∧
        RegistrationLives.Lives r r' ∧ Shows r r' ticket ∧
        answer.tickets.count ticket = ids.count r.id := by
  obtain ⟨row', hfound⟩ := exists_event?_run hrow verbs
  have htold := publishedAsTold hrow hfound
  simp only [report_eq_ok_iff hmac json uuids hmint, findPublished_told hfound htold]
  constructor
  · constructor
    · rintro ⟨_, _, ⟨-, hpublic⟩, -⟩
      exact hpublic
    · intro hpublic
      exact ⟨_, row', ⟨rfl, hpublic⟩, rfl⟩
  · rintro answer ⟨found, ⟨rfl, -⟩, rfl⟩
    have hpinned := @TicketReports.pinnedExactly_sorted
      (publicView (verbs.foldl next s) slots (acts.foldl RegistrationLives.step d).registrations)
        found ids
      _ (List.mergeSort_perm ids _) List.sortedLE_mergeSort.pairwise
    refine ⟨htold.name, fun ticket hticket => ?_, fun r hr hevent => ?_⟩
    · obtain ⟨r, -, hid, -, rfl⟩ := hpinned.drawn ticket hticket
      exact hid
    · obtain ⟨r', hr', hlives⟩ := RegistrationLives.keepsAll_run d acts r hr
      have hevent' : r'.eventId = found.id :=
        (hlives.column Registration.eventId fun _ => rfl).trans (hevent.trans htold.id.symm)
      refine ⟨r', ticketOf found r', hlives.id ▸ registration?_eq_some hr', hlives, ?_, ?_⟩
      · exact ⟨hlives.id, hlives.column Registration.name fun _ => rfl,
          hlives.column Registration.barcode fun _ => rfl, rfl⟩
      · rw [← hlives.id]
        exact hpinned.counted r' hr' hevent'

section sample

theorem bandHost_unbroken : Unbroken TicketReports.bandHost where
  uuid id := by
    change '\n' ∉ (TicketReports.uuidText id).toList
    rw [TicketReports.uuidText]
    split
    · next hid =>
      have hdigit : ∀ n < 10, '\n' ∉ "00000000-0000-0000-0000-00000000000".toList ++
        [Char.ofNat (48 + n)] := by
        decide
      rw [String.toList_ofList]
      exact hdigit id hid
    · rw [String.toList_ofList]
      intro h
      cases List.eq_of_mem_replicate h
  stamp _ := by
    change '\n' ∉ "19700101T000000Z".toList
    decide

theorem calendarLink_told_renamed : ∃ token feed summary,
    mintIcsCapability TicketReports.bandHost.toCrates TicketReports.bandHost.secret 1 none 0 60 =
      .ok token ∧
    IcsService.feed TicketReports.bandHost
      (publicView (renamedRun.foldl next (staged .normal)) .empty .empty) token = .ok feed ∧
    (∃ row', readLines feed.body = icsLines TicketReports.bandHost row' none summary) ∧
    icsUnescape summary = "Gala, at dusk" := by
  have hsecret : TicketReports.bandHost.secret ≠ "" := by decide
  obtain ⟨token, hmint, -⟩ := verify_mint TicketReports.bandHost_mac
    TicketReports.bandHost_jsonRoundTrip
    hsecret ⟨purposeIcs, timestamp 0 + 60, [TicketReports.bandHost.uuidToString 1]⟩
  have hlink := @calendarLink_told TicketReports.bandHost TicketReports.bandHost_mac
    TicketReports.bandHost_jsonRoundTrip TicketReports.bandHost_uuidTexts bandHost_unbroken
    (staged .normal) normalRow (by decide) renamedRun .empty .empty none 0 60 token hmint
  obtain ⟨feed, hfeed⟩ := hlink.1.mpr ⟨.inr (by decide), rfl, by decide, by decide⟩
  obtain ⟨-, -, row', hours, summary, -, -, hhours, hbody, hname⟩ := hlink.2 feed hfeed
  obtain rfl := Option.some.inj hhours
  exact ⟨token, feed, summary, hmint, hfeed, ⟨row', hbody⟩, hname.trans (by decide)⟩

theorem ticketLink_told_ann : ∃ token answer ticket,
    mintTicketReportCapability TicketReports.bandHost.toCrates TicketReports.bandHost.secret 1 [5] =
      .ok token ∧
    MyTicketsService.report TicketReports.bandHost
      (publicView (renamedRun.foldl next (staged .normal)) .empty
        (RegistrationLives.attendedTwice.foldl RegistrationLives.step
          RegistrationLives.annSeated).registrations) token = .ok answer ∧
    answer.eventName = "Gala, at dusk" ∧ answer.tickets.count ticket = 1 ∧ ticket.barcode = "5" ∧
    ticket.state = .done := by
  have hsecret : TicketReports.bandHost.secret ≠ "" := by decide
  obtain ⟨token, hmint, -⟩ := verify_mint TicketReports.bandHost_mac
    TicketReports.bandHost_jsonRoundTrip hsecret
    (TicketReports.reportClaims TicketReports.bandHost.toCrates 1 [5])
  have hlink := @ticketLink_told TicketReports.bandHost TicketReports.bandHost_mac
    TicketReports.bandHost_jsonRoundTrip TicketReports.bandHost_uuidTexts (staged .normal) normalRow
    (by decide) renamedRun .empty RegistrationLives.annSeated RegistrationLives.attendedTwice [5]
    token hmint
  obtain ⟨answer, hanswer⟩ := hlink.1.mpr ⟨by decide, by decide⟩
  obtain ⟨hname, -, htickets⟩ := hlink.2 answer hanswer
  obtain ⟨r', ticket, hr', -, hshows, hcount⟩ := htickets RegistrationLives.annRow (by decide) rfl
  have hdone : r'.state = .done := by
    have hstate : (((RegistrationLives.attendedTwice.foldl RegistrationLives.step
        RegistrationLives.annSeated).registration? 5).map Registration.state) =
          some .done := by decide
    change ((RegistrationLives.attendedTwice.foldl RegistrationLives.step
        RegistrationLives.annSeated).registration? 5) = some r' at hr'
    rw [hr'] at hstate
    exact Option.some.inj hstate
  exact ⟨token, answer, ticket, hmint, hanswer, hname.trans (by decide), hcount, hshows.barcode,
    hshows.state.trans hdone⟩

end sample

end BackboneEvents.EventLifecycle
