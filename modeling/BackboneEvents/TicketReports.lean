import BackboneEvents.PublicGate

/-!
# What a ticket report shows

A minted token read back: the tickets are the pinned registrations of the event, in the order of
their ids and as often as they were pinned.
-/
namespace BackboneEvents.TicketReports
open EventCommandRepository MyTicketsService
open ConstrainedTables (Table)

/-- `uuid` reads back the texts it writes, which are in the order of the ids. -/
structure UuidTexts (X : Crates) : Prop where
  parses : ∀ id, X.parseStr (X.uuidToString id) = some id
  ordered : ∀ id id', X.uuidToString id ≤ X.uuidToString id' ↔ id ≤ id'

/-- The report of an event over some tickets. -/
def reportOf (event : EventRow) (tickets : List TicketView) : TicketReport where
  eventId := event.id
  eventName := event.name
  eventDateBegin := event.dateBegin
  eventDateEnd := event.dateEnd
  eventDateTz := event.dateTz
  badgeFormat := event.badgeFormat
  tickets := tickets

structure PinnedExactly (s : PublicDb) (event : EventRow) (ids : List Uuid)
    (report : TicketReport) : Prop where
  header : report = reportOf event report.tickets
  sorted : report.tickets.Pairwise (fun t t' => t.registrationId ≤ t'.registrationId)
  counted : ∀ r ∈ s.registrations.rows, r.eventId = event.id →
    report.tickets.count (ticketOf event r) = ids.count r.id
  drawn : ∀ t ∈ report.tickets, ∃ r ∈ s.registrations.rows, r.id ∈ ids ∧ r.eventId = event.id ∧
    t = ticketOf event r

section tickets

variable {s : PublicDb} {event : EventRow} {ids : List Uuid}

/-- The ticket of one pinned id. -/
def ticketFor (s : PublicDb) (event : EventRow) (regId : Uuid) : Option TicketView :=
  match findRegistration s regId with
  | .error _ => none
  | .ok row => if row.eventId == event.id then some (ticketOf event row) else none

theorem clash_of_id {x r : Registration} (h : (x.id == r.id) = true) :
    ConstrainedTables.clash x r = true := by
  simp only [ConstrainedTables.clash, h, Bool.true_or]

theorem findRegistration_eq_ok {r : Registration} {regId : Uuid} :
    findRegistration s regId = .ok r ↔ r ∈ s.registrations.rows ∧ r.id = regId := by
  rw [findRegistration]
  constructor
  · intro h
    split at h
    · cases h
    · next found hfound =>
      obtain rfl := Except.ok.inj h
      exact ⟨Table.find_mem hfound, by simpa using Table.find_spec hfound⟩
  · rintro ⟨hr, rfl⟩
    rw [Table.find_eq_some hr (by simp) fun x => clash_of_id]

theorem ticketFor_eq_some {t : TicketView} {regId : Uuid} : ticketFor s event regId = some t ↔
    ∃ r ∈ s.registrations.rows, r.id = regId ∧ r.eventId = event.id ∧ t = ticketOf event r := by
  rw [ticketFor]
  constructor
  · intro h
    split at h
    · cases h
    · next r hfound =>
      obtain ⟨hr, hid⟩ := findRegistration_eq_ok.mp hfound
      split at h
      · next hevent => exact ⟨r, hr, hid, by simpa using hevent, (Option.some.inj h).symm⟩
      · cases h
  · rintro ⟨r, hr, hid, hevent, rfl⟩
    rw [findRegistration_eq_ok.mpr ⟨hr, hid⟩]
    simp only [hevent, beq_self_eq_true, if_true]

theorem registrationId_of_ticketFor {t : TicketView} {regId : Uuid}
    (h : ticketFor s event regId = some t) : t.registrationId = regId := by
  obtain ⟨r, -, hid, -, rfl⟩ := ticketFor_eq_some.mp h
  exact hid

/-- A registration of the event has as many tickets as its id was pinned. -/
theorem count_tickets {r : Registration} (hr : r ∈ s.registrations.rows)
    (hevent : r.eventId = event.id) :
    (ids.filterMap (ticketFor s event)).count (ticketOf event r) = ids.count r.id := by
  rw [List.count_filterMap, List.count_eq_countP]
  apply List.countP_congr
  intro id _
  rw [beq_iff_eq, beq_iff_eq]
  constructor
  · intro h
    exact (registrationId_of_ticketFor h).symm
  · rintro rfl
    exact ticketFor_eq_some.mpr ⟨r, hr, rfl, hevent, rfl⟩

theorem tickets_sorted (h : ids.Pairwise (· ≤ ·)) :
    (ids.filterMap (ticketFor s event)).Pairwise
      (fun t t' => t.registrationId ≤ t'.registrationId) := by
  refine h.filterMap _ fun id id' hle t ht t' ht' => ?_
  rw [registrationId_of_ticketFor ht, registrationId_of_ticketFor ht']
  exact hle

theorem pinnedExactly_sorted {sorted : List Uuid} (hperm : sorted.Perm ids)
    (hsorted : sorted.Pairwise (· ≤ ·)) :
    PinnedExactly s event ids (reportOf event (sorted.filterMap (ticketFor s event))) where
  header := rfl
  sorted := tickets_sorted hsorted
  counted r hr hevent := by rw [← hperm.count_eq]; exact count_tickets hr hevent
  drawn t ht := by
    obtain ⟨id, hid, hticket⟩ := List.mem_filterMap.mp ht
    obtain ⟨r, hr, rfl, hevent, rfl⟩ := ticketFor_eq_some.mp hticket
    exact ⟨r, hr, hperm.subset hid, hevent, rfl⟩

end tickets

section pinning

variable {X : Crates} {ids ids' : List Uuid}

/-- The pinned ids as `mint` writes them. -/
def pinnedTexts (X : Crates) (ids : List Uuid) : List String :=
  (ids.map X.uuidToString).mergeSort (fun a b => decide (a ≤ b))

def sortedIds (ids : List Uuid) : List Uuid := ids.mergeSort (fun a b => decide (a ≤ b))

theorem pinnedTexts_eq (hX : UuidTexts X) :
    pinnedTexts X ids = (sortedIds ids).map X.uuidToString := by
  rw [pinnedTexts, sortedIds, List.map_mergeSort]
  intro a _ b _
  rw [decide_eq_decide]
  exact (hX.ordered a b).symm

/-- The order of the list at mint is lost. -/
theorem pinnedTexts_perm (h : ids.Perm ids') : pinnedTexts X ids = pinnedTexts X ids' := by
  have hperm : (pinnedTexts X ids).Perm (pinnedTexts X ids') :=
    ((List.mergeSort_perm _ _).trans (h.map _)).trans (List.mergeSort_perm _ _).symm
  exact hperm.eq_of_sortedLE List.sortedLE_mergeSort List.sortedLE_mergeSort

theorem read_pinnedTexts (hX : UuidTexts X) : (pinnedTexts X ids).filterMap X.parseStr =
    sortedIds ids := by
  rw [pinnedTexts_eq hX, List.filterMap_map]
  have hread : X.parseStr ∘ X.uuidToString = some := by
    funext id
    exact hX.parses id
  rw [hread, List.filterMap_some]

theorem mint_perm (secret : String) (eventId : Uuid) (h : ids.Perm ids') :
    mintTicketReportCapability X secret eventId ids =
      mintTicketReportCapability X secret eventId ids' := by
  have htexts := pinnedTexts_perm (X := X) h
  rw [pinnedTexts, pinnedTexts] at htexts
  rw [mintTicketReportCapability, mintTicketReportCapability, htexts]

/-- The claims of a report token. -/
def reportClaims (X : Crates) (eventId : Uuid) (ids : List Uuid) : CapabilityClaims where
  purpose := purposeTicketReport
  exp := 0
  data := X.uuidToString eventId :: pinnedTexts X ids

theorem secret_ne_of_mint {secret token : String} {c : CapabilityClaims}
    (h : c.mint X secret = .ok token) : secret ≠ "" := by
  rintro rfl
  rw [CapabilityClaims.mint] at h
  split at h
  · cases h
  · cases h

/-- The claims come back from the token at every instant. -/
theorem verify_reportClaims (hmac : X.Mac) (json : X.JsonRoundTrip) {secret token : String}
    {eventId : Uuid} (h : mintTicketReportCapability X secret eventId ids = .ok token)
    (now : Timestamp) :
    CapabilityClaims.verify X secret purposeTicketReport token now =
      .ok (reportClaims X eventId ids) := by
  obtain ⟨token', hmint, hverify⟩ :=
    verify_mint hmac json (secret_ne_of_mint h) (reportClaims X eventId ids)
  obtain rfl := Except.ok.inj (h.symm.trans hmint)
  exact (hverify now).mpr (.inl rfl)

end pinning

section report

variable {H : PublicHost} {s : PublicDb} {event : EventRow} {ids : List Uuid} {token : String}

theorem findPublished_eq_ok (hevent : event ∈ s.events.rows) (hpublished : event.isPublished = true)
    (hlive : event.kanbanState ≠ .cancel) : findPublished s event.id = .ok event := by
  have hrow : (s.events.find fun ev => ev.id == event.id) = some event :=
    Table.find_eq_some hevent (by simp) fun _ hid => hid
  have hfind : find s event.id = .ok event := by rw [find, hrow]
  rw [findPublished, hfind]
  simp [hpublished, hlive]

theorem report_eq (hmac : H.toCrates.Mac) (json : H.toCrates.JsonRoundTrip)
    (uuids : UuidTexts H.toCrates) (hfind : findPublished s event.id = .ok event)
    (hmint : mintTicketReportCapability H.toCrates H.secret event.id ids = .ok token) :
    report H s token =
      .ok (reportOf event ((sortedIds ids).filterMap (ticketFor s event))) := by
  have hevent : pinnedEvent H (reportClaims H.toCrates event.id ids) = .ok event.id := by
    simp only [pinnedEvent, reportClaims, List.head?_cons, Option.bind_some, uuids.parses]
  have hids : ((reportClaims H.toCrates event.id ids).data.drop 1).filterMap H.parseStr =
      sortedIds ids := read_pinnedTexts uuids
  rw [report, verify_reportClaims hmac json hmint]
  change (pinnedEvent H (reportClaims H.toCrates event.id ids) >>= fun eventId => _) = _
  rw [hevent]
  change (findPublished s event.id >>= fun row => _) = _
  rw [hfind, hids]
  rfl

end report

/-- A token minted for a published event reports the pinned registrations of that event and
nothing else, and says nothing of the order they were pinned in. -/
theorem report_pinnedExactly (H : PublicHost) (hmac : H.toCrates.Mac)
    (json : H.toCrates.JsonRoundTrip) (uuids : UuidTexts H.toCrates) (s : PublicDb)
    (event : EventRow) (hevent : event ∈ s.events.rows) (hpublished : event.isPublished = true)
    (hlive : event.kanbanState ≠ .cancel) (ids : List Uuid) :
    (H.secret ≠ "" → ∃ token,
      mintTicketReportCapability H.toCrates H.secret event.id ids = .ok token) ∧
    (∀ token, mintTicketReportCapability H.toCrates H.secret event.id ids = .ok token →
      ∃ answer, report H s token = .ok answer ∧ PinnedExactly s event ids answer) ∧
    ∀ ids', ids.Perm ids' → mintTicketReportCapability H.toCrates H.secret event.id ids' =
      mintTicketReportCapability H.toCrates H.secret event.id ids := by
  refine ⟨fun hsecret => ?_, fun token hmint => ?_, fun ids' hperm => mint_perm _ _ hperm.symm⟩
  · obtain ⟨token, hmint, -⟩ := verify_mint hmac json hsecret (reportClaims H.toCrates event.id ids)
    exact ⟨token, hmint⟩
  · have hsorted : (sortedIds ids).Pairwise (· ≤ ·) := List.sortedLE_mergeSort.pairwise
    exact ⟨_, report_eq hmac json uuids (findPublished_eq_ok hevent hpublished hlive) hmint,
      pinnedExactly_sorted (List.mergeSort_perm _ _) hsorted⟩

section samples

/-- The texts of the ten smallest ids, and longer and longer ones for the others. -/
def uuidText (id : Uuid) : String :=
  if id < 10 then
    String.ofList ("00000000-0000-0000-0000-00000000000".toList ++ [Char.ofNat (48 + id)])
  else String.ofList (List.replicate id 'f')

def parseText (text : String) : Option Uuid :=
  (List.range (text.length + 10)).find? fun id => uuidText id == text

theorem replicate_lt {n m : ℕ} (h : n < m) :
    List.replicate n 'f' < List.replicate m 'f' := by
  induction n generalizing m with
  | zero =>
    obtain ⟨k, rfl⟩ := Nat.exists_eq_add_of_lt h
    exact List.nil_lt_cons _ _
  | succ n ih =>
    obtain ⟨k, rfl⟩ : ∃ k, m = k + 1 := ⟨m - 1, by omega⟩
    exact List.cons_lt_cons_self.mpr (ih (by omega))

theorem uuidText_lt {id id' : ℕ} (h : id < id') : uuidText id < uuidText id' := by
  rw [String.lt_iff_toList_lt]
  by_cases hid' : id' < 10
  · have hdigit : ∀ n' < 10, ∀ n < n', [Char.ofNat (48 + n)] < [Char.ofNat (48 + n')] := by decide
    simp only [uuidText, if_pos (h.trans hid'), if_pos hid', String.toList_ofList]
    exact List.append_left_lt (hdigit id' hid' id h)
  · by_cases hid : id < 10
    · obtain ⟨k, rfl⟩ : ∃ k, id' = k + 1 := ⟨id' - 1, by omega⟩
      have hdigit : '0' < 'f' := by decide
      simp only [uuidText, if_pos hid, if_neg hid', String.toList_ofList, List.replicate_succ]
      exact List.Lex.rel hdigit
    · rw [uuidText, uuidText, if_neg hid, if_neg hid', String.toList_ofList, String.toList_ofList]
      exact replicate_lt h

theorem uuidText_strictMono : StrictMono uuidText := fun _ _ => uuidText_lt

theorem parseText_uuidText (id : ℕ) : parseText (uuidText id) = some id := by
  rw [parseText, List.find?_range_eq_some]
  refine ⟨by simp, ?_, fun j hj => ?_⟩
  · by_cases hid : id < 10
    · exact List.mem_range.mpr (by omega)
    · rw [uuidText, if_neg hid, String.length_ofList, List.length_replicate, List.mem_range]
      omega
  · simpa using (uuidText_lt hj).ne

/-- The claims of one token, and the bytes of its payload and of its HMAC-SHA256 tag under the key
`s3cret`. -/
def bandClaims : CapabilityClaims where
  purpose := purposeTicketReport
  exp := 0
  data := [0, 1, 2, 2, 7].map uuidText

def bandPayload : List UInt8 :=
  123 :: Base64Url.asBytes ("\"purpose\":\"event-registration-ticket-report-access\",\"exp\":0," ++
    "\"data\":[\"00000000-0000-0000-0000-000000000000\"," ++
    "\"00000000-0000-0000-0000-000000000001\",\"00000000-0000-0000-0000-000000000002\"," ++
    "\"00000000-0000-0000-0000-000000000002\",\"00000000-0000-0000-0000-000000000007\"]\x7d")

def bandTag : List UInt8 :=
  [29, 30, 101, 166, 125, 131, 106, 131, 191, 152, 88, 55, 153, 166, 103, 159, 1, 224, 225, 157,
    198, 45, 57, 194, 12, 115, 51, 85, 228, 223, 245, 100]

def bandHost : PublicHost where
  newFromSlice _ := .ok fun _ => bandTag
  toVec c := .ok (knownToVec bandClaims bandPayload c)
  fromSlice := knownFromSlice bandClaims bandPayload
  uuidToString := uuidText
  parseStr := parseText
  secret := "s3cret"
  now := 0
  icsStamp _ := "19700101T000000Z"

theorem bandHost_mac : bandHost.toCrates.Mac where
  accepts _ := ⟨_, rfl⟩
  tag_ne_nil := by
    rintro key mac hmac message
    cases hmac
    exact List.cons_ne_nil _ _

theorem head?_bandPayload : bandPayload.head? = some 123 := rfl

theorem bandHost_jsonRoundTrip : bandHost.toCrates.JsonRoundTrip where
  reads claims := ⟨knownToVec bandClaims bandPayload claims, rfl,
    knownFromSlice_toVec head?_bandPayload claims⟩
  rejects_nil claims := by
    have hfrom : bandHost.fromSlice = knownFromSlice bandClaims bandPayload := rfl
    rw [hfrom]
    exact knownFromSlice_nil bandClaims head?_bandPayload

theorem bandHost_uuidTexts : UuidTexts bandHost.toCrates where
  parses := parseText_uuidText
  ordered _ _ := uuidText_strictMono.le_iff_le

def fan (id eventId : Uuid) (barcode : String) : Registration :=
  ⟨id, eventId, none, none, "Fan", "fan@x", none, none, none, .open, none, none, none, none, true,
    barcode, none, some 0⟩

/-- Three registrations of the event and one of another. -/
def band : EventRow :=
  ⟨⟨0, "Gig", none, .normal, 0, 100, "UTC", false, true, 1, none⟩, 0, 1, .a6, true, none⟩

def bandDb : PublicDb where
  events := .push .empty band
  slots := .empty
  registrations := (((Table.empty.push (fan 1 0 "1")).push (fan 2 0 "2")).push (fan 3 0 "3")).push
    (fan 7 5 "7")

theorem report_pinnedExactly_band : ∃ token answer,
    mintTicketReportCapability bandHost.toCrates bandHost.secret 0 [2, 7, 1, 2] = .ok token ∧
    report bandHost bandDb token = .ok answer ∧ PinnedExactly bandDb band [2, 7, 1, 2] answer := by
  obtain ⟨hmints, hreports, -⟩ := report_pinnedExactly bandHost bandHost_mac bandHost_jsonRoundTrip
    bandHost_uuidTexts bandDb band (by decide) rfl (by decide) [2, 7, 1, 2]
  obtain ⟨token, hmint⟩ := hmints (by decide)
  obtain ⟨answer, hanswer, hpinned⟩ := hreports token hmint
  exact ⟨token, answer, hmint, hanswer, hpinned⟩

end samples

end BackboneEvents.TicketReports
