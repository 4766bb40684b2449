import BackboneEvents.Base64Url
import BackboneEvents.EventRows
import Mathlib.Data.List.Infix
import Mathlib.Data.String.Basic
import Mathlib.Logic.Equiv.List

/-! # Capability tokens: a signed payload, its purpose and its expiry -/
namespace BackboneEvents
open Base64Url

def purposeIcs : String := "event-ics-access"

def purposeTicketReport : String := "event-registration-ticket-report-access"

def capabilityContext : String := "event-capability-v1"

/-- The payload of a token; `exp` is in unix seconds, `0` for never. -/
structure CapabilityClaims where
  purpose : String
  exp : Int64
  data : List String
  deriving DecidableEq

/-- The crates a token rests on: `hmac` over `sha2`, `serde_json` and `uuid`. -/
structure Crates where
  newFromSlice : List UInt8 → Except String (List UInt8 → List UInt8)
  toVec : CapabilityClaims → Except String (List UInt8)
  fromSlice : List UInt8 → Except String CapabilityClaims
  uuidToString : Uuid → String
  parseStr : String → Option Uuid

/-- `DateTime::timestamp`. -/
def timestamp (t : Timestamp) : Int64 := Int64.ofInt (t / 1000000)

/-- `str::splitn`. -/
def splitn : ℕ → Char → List Char → List String
  | 0, _, _ => []
  | 1, _, s => [String.ofList s]
  | n + 2, sep, s =>
    match s.dropWhile (· != sep) with
    | [] => [String.ofList s]
    | _ :: rest => String.ofList (s.takeWhile (· != sep)) :: splitn (n + 1) sep rest

/-- A segment of a token, empty where the token ends before it. -/
def segment (i : ℕ) (token : String) : String := (splitn 3 '.' token.toList)[i]?.getD ""

section Segments

variable {sep : Char} {l : List Char} (n : ℕ)

theorem splitn_of_notMem (h : sep ∉ l) : splitn (n + 1) sep l = [String.ofList l] := by
  cases n with
  | zero => rfl
  | succ n =>
    have hall : ∀ c ∈ l, (c != sep) = true := by
      intro c hc
      simpa using fun heq : c = sep => h (heq ▸ hc)
    rw [splitn, List.dropWhile_eq_nil_iff.mpr hall]

theorem splitn_append_cons (rest : List Char) (h : sep ∉ l) :
    splitn (n + 2) sep (l ++ sep :: rest) = String.ofList l :: splitn (n + 1) sep rest := by
  have hall : ∀ c ∈ l, (c != sep) = true := by
    intro c hc
    simpa using fun heq : c = sep => h (heq ▸ hc)
  rw [splitn, List.dropWhile_append_of_pos hall, List.takeWhile_append_of_pos hall,
    List.dropWhile_cons_of_neg (by simp), List.takeWhile_cons_of_neg (by simp), List.append_nil]

/-- What `splitn` cuts off, or that there is nothing to cut. -/
theorem splitn_cases (s : List Char) :
    (sep ∉ s ∧ splitn (n + 2) sep s = [String.ofList s]) ∨
      ∃ l rest, sep ∉ l ∧ s = l ++ sep :: rest ∧
        splitn (n + 2) sep s = String.ofList l :: splitn (n + 1) sep rest := by
  by_cases h : sep ∈ s
  · obtain ⟨l, rest, rfl, hl⟩ := List.eq_append_cons_of_mem h
    exact .inr ⟨l, rest, hl, rfl, splitn_append_cons n rest hl⟩
  · exact .inl ⟨h, splitn_of_notMem (n + 1) h⟩

end Segments

variable (X : Crates)

def sign (secret purpose payloadB64 : String) : Except EventError (List UInt8) :=
  if secret = "" then
    .error .eventCapabilitySecretNotConfigured
  else
    match X.newFromSlice (asBytes secret) with
    | .error e => .error (.internal ("capability secret rejected by HMAC: " ++ e))
    | .ok mac => .ok (mac (asBytes (capabilityContext ++ "\n" ++ purpose ++ "\n" ++ payloadB64)))

def CapabilityClaims.mint (c : CapabilityClaims) (secret : String) : Except EventError String :=
  match X.toVec c with
  | .error e => .error (.internal ("capability payload encode: " ++ e))
  | .ok payload =>
    match sign X secret c.purpose (b64urlEncode payload) with
    | .error e => .error e
    | .ok sig => .ok ("v1." ++ b64urlEncode payload ++ "." ++ b64urlEncode sig)

def CapabilityClaims.verify (secret expectedPurpose token : String) (now : Timestamp) :
    Except EventError CapabilityClaims :=
  if secret = "" then
    .error .eventCapabilitySecretNotConfigured
  else
    let version := segment 0 token
    let payloadB64 := segment 1 token
    let sigB64 := segment 2 token
    if version ≠ "v1" ∨ payloadB64 = "" ∨ sigB64 = "" then
      .error .eventNotPublished
    else
      match sign X secret expectedPurpose payloadB64 with
      | .error e => .error e
      | .ok expectedSig =>
        match b64urlDecode sigB64 with
        | none => .error .eventNotPublished
        | some givenSig =>
          if expectedSig ≠ givenSig then
            .error .eventNotPublished
          else
            match b64urlDecode payloadB64 with
            | none => .error .eventNotPublished
            | some payload =>
              match X.fromSlice payload with
              | .error _ => .error .eventNotPublished
              | .ok claims =>
                if claims.purpose ≠ expectedPurpose then
                  .error .eventNotPublished
                else if claims.exp ≠ 0 ∧ claims.exp ≤ timestamp now then
                  .error .eventNotPublished
                else
                  .ok claims

def mintIcsCapability (secret : String) (eventId : Uuid) (slotId : Option Uuid) (now : Timestamp)
    (ttlSecs : Int64) : Except EventError String :=
  CapabilityClaims.mint X
    { purpose := purposeIcs
      exp := timestamp now + ttlSecs
      data := X.uuidToString eventId :: (slotId.map X.uuidToString).toList }
    secret

def mintTicketReportCapability (secret : String) (eventId : Uuid) (registrationIds : List Uuid) :
    Except EventError String :=
  CapabilityClaims.mint X
    { purpose := purposeTicketReport
      exp := 0
      data := X.uuidToString eventId ::
        (registrationIds.map X.uuidToString).mergeSort (fun a b => decide (a ≤ b)) }
    secret

section Acceptance

/-- A token's two segments after the version, as `verify` reads them. -/
structure Segments (token payloadB64 sigB64 : String) : Prop where
  token_eq : token = "v1." ++ payloadB64 ++ "." ++ sigB64
  undotted : '.' ∉ payloadB64.toList
  payload_ne : payloadB64 ≠ ""
  sig_ne : sigB64 ≠ ""

variable {token payloadB64 sigB64 : String}

theorem Segments.splitn_eq (h : Segments token payloadB64 sigB64) :
    splitn 3 '.' token.toList = ["v1", payloadB64, sigB64] := by
  have htoken : token.toList = ['v', '1'] ++ '.' :: (payloadB64.toList ++ '.' :: sigB64.toList) := by
    rw [h.token_eq]
    simp
  rw [htoken, splitn_append_cons 1 _ (by decide), splitn_append_cons 0 _ h.undotted]
  simp only [splitn, String.ofList_toList]

theorem Segments.segment_zero (h : Segments token payloadB64 sigB64) : segment 0 token = "v1" := by
  rw [segment, h.splitn_eq]
  rfl

theorem Segments.segment_one (h : Segments token payloadB64 sigB64) :
    segment 1 token = payloadB64 := by
  rw [segment, h.splitn_eq]
  rfl

theorem Segments.segment_two (h : Segments token payloadB64 sigB64) :
    segment 2 token = sigB64 := by
  rw [segment, h.splitn_eq]
  rfl

theorem segments_of_verified
    (hversion : segment 0 token = "v1") (hpayload : segment 1 token = payloadB64)
    (hp : payloadB64 ≠ "") (hsig : segment 2 token = sigB64) (hs : sigB64 ≠ "") :
    Segments token payloadB64 sigB64 := by
  rw [segment] at hversion hpayload hsig
  rcases @splitn_cases '.' 1 token.toList with ⟨-, hone⟩ | ⟨l, rest, hl, htoken, hmore⟩
  · rw [hone] at hpayload
    exact absurd hpayload.symm hp
  · rw [hmore] at hversion hpayload hsig
    rcases @splitn_cases '.' 0 rest with ⟨-, htwo⟩ | ⟨m, tail, hm, hrest, hthree⟩
    · rw [htwo] at hsig
      exact absurd hsig.symm hs
    · rw [hthree] at hpayload hsig
      have hl' : String.ofList l = "v1" := hversion
      have hm' : String.ofList m = payloadB64 := hpayload
      have htail : String.ofList tail = sigB64 := hsig
      refine ⟨?_, ?_, hp, hs⟩
      · rw [← String.toList_inj, htoken, hrest, ← hm', ← htail]
        have hversion' : l = ['v', '1'] := by rw [← String.toList_ofList (l := l), hl']; rfl
        simp [hversion']
      · rw [← hm', String.toList_ofList]
        exact hm

/-- What an accepted token shows: its signature segment is the tag of its payload segment,
and its payload the claims, of the purpose asked for and not expired. -/
structure Accepted (secret purpose : String) (now : Timestamp) (claims : CapabilityClaims)
    (payloadB64 sigB64 : String) : Prop where
  signed : ∃ tag, sign X secret purpose payloadB64 = .ok tag ∧ b64urlDecode sigB64 = some tag
  decoded : ∃ payload, b64urlDecode payloadB64 = some payload ∧ X.fromSlice payload = .ok claims
  purpose_eq : claims.purpose = purpose
  unexpired : claims.exp = 0 ∨ timestamp now < claims.exp

variable {secret purpose : String} {now : Timestamp} {claims : CapabilityClaims}

theorem verify_of_accepted (hs : secret ≠ "") (hsegments : Segments token payloadB64 sigB64)
    (h : Accepted X secret purpose now claims payloadB64 sigB64) :
    CapabilityClaims.verify X secret purpose token now = .ok claims := by
  obtain ⟨tag, hsign, hsig⟩ := h.signed
  obtain ⟨payload, hpayload, hclaims⟩ := h.decoded
  have hexp : ¬(claims.exp ≠ 0 ∧ claims.exp ≤ timestamp now) := by
    rintro ⟨hne, hle⟩
    rcases h.unexpired with hzero | hlt
    · exact hne hzero
    · exact Int64.not_le.mpr hlt hle
  simp only [CapabilityClaims.verify, hs, if_false, hsegments.segment_zero, hsegments.segment_one,
    hsegments.segment_two, hsegments.payload_ne, hsegments.sig_ne, ne_eq, not_true_eq_false,
    or_self, hsign, hsig, hpayload, hclaims, h.purpose_eq]
  rw [if_neg hexp]

theorem accepted_of_verify
    (h : CapabilityClaims.verify X secret purpose token now = .ok claims) :
    ∃ payloadB64 sigB64, Segments token payloadB64 sigB64 ∧
      Accepted X secret purpose now claims payloadB64 sigB64 := by
  simp only [CapabilityClaims.verify] at h
  split at h
  · cases h
  split at h
  · cases h
  next hparts =>
  rw [not_or, not_or, not_not] at hparts
  obtain ⟨hversion, hpayload, hsig⟩ := hparts
  split at h
  · cases h
  next tag hsign =>
  split at h
  · cases h
  next given hgiven =>
  split at h
  · cases h
  next htag =>
  split at h
  · cases h
  next payload hdecoded =>
  split at h
  · cases h
  next read hread =>
  split at h
  · cases h
  next hpurpose =>
  split at h
  · cases h
  next hexp =>
  cases h
  refine ⟨_, _, segments_of_verified hversion rfl hpayload rfl hsig, ⟨tag, hsign, ?_⟩,
    ⟨payload, hdecoded, hread⟩, not_not.mp hpurpose, ?_⟩
  · rw [hgiven, not_not.mp htag]
  · by_contra hcon
    rw [not_or] at hcon
    exact hexp ⟨hcon.1, Int64.not_lt.mp hcon.2⟩

end Acceptance

section Tags

/-- HMAC takes a key of any length, and no tag is empty; an ideal one gives a tag to one key
and message only. -/
structure Crates.IdealMac : Prop where
  accepts : ∀ key, ∃ mac, X.newFromSlice key = .ok mac
  tag_ne_nil : ∀ {key mac}, X.newFromSlice key = .ok mac → ∀ message, mac message ≠ []
  unique : ∀ {key key' mac mac'}, X.newFromSlice key = .ok mac → X.newFromSlice key' = .ok mac' →
    ∀ {message message'}, mac message = mac' message' → key = key' ∧ message = message'

/-- What every MAC does: it takes a key of any length, and no tag is empty. -/
structure Crates.Mac : Prop where
  accepts : ∀ key, ∃ mac, X.newFromSlice key = .ok mac
  tag_ne_nil : ∀ {key mac}, X.newFromSlice key = .ok mac → ∀ message, mac message ≠ []

/-- `serde_json` reads back the claims it wrote, and reads nothing from an empty text. -/
structure Crates.JsonRoundTrip : Prop where
  reads : ∀ claims, ∃ payload, X.toVec claims = .ok payload ∧ X.fromSlice payload = .ok claims
  rejects_nil : ∀ claims, X.fromSlice [] ≠ .ok claims

theorem message_inj {purpose purpose' payload payload' : String} (hpurpose : 10 ∉ asBytes purpose)
    (hpayload : 10 ∉ asBytes payload)
    (h : asBytes (capabilityContext ++ "\n" ++ purpose ++ "\n" ++ payload) =
      asBytes (capabilityContext ++ "\n" ++ purpose' ++ "\n" ++ payload')) :
    purpose = purpose' ∧ payload = payload' := by
  have hbreak : asBytes "\n" = [10] := by decide
  simp only [asBytes_append, hbreak, List.append_assoc, List.append_cancel_left_eq,
    List.singleton_append] at h
  obtain ⟨hp, -, hq⟩ := (List.append_cons_inj_of_notMem hpurpose hpayload).mp (List.cons.inj h).2
  exact ⟨asBytes_injective hp, asBytes_injective hq⟩

variable {X}

theorem Crates.IdealMac.mac (h : X.IdealMac) : X.Mac := ⟨h.accepts, h.tag_ne_nil⟩

theorem sign_ok (hmac : X.Mac) {secret : String} (hs : secret ≠ "")
    (purpose payloadB64 : String) :
    ∃ tag, sign X secret purpose payloadB64 = .ok tag ∧ tag ≠ [] := by
  obtain ⟨mac, hkey⟩ := hmac.accepts (asBytes secret)
  have hsign : sign X secret purpose payloadB64 =
      .ok (mac (asBytes (capabilityContext ++ "\n" ++ purpose ++ "\n" ++ payloadB64))) := by
    rw [sign, if_neg hs]
    simp only [hkey]
  exact ⟨_, hsign, hmac.tag_ne_nil hkey _⟩

theorem exists_mac_of_sign {secret purpose payloadB64 : String} {tag : List UInt8}
    (h : sign X secret purpose payloadB64 = .ok tag) :
    ∃ mac, X.newFromSlice (asBytes secret) = .ok mac ∧
      tag = mac (asBytes (capabilityContext ++ "\n" ++ purpose ++ "\n" ++ payloadB64)) := by
  rw [sign] at h
  split at h
  · cases h
  split at h
  · cases h
  next mac hkey =>
  exact ⟨mac, hkey, (Except.ok.inj h).symm⟩

theorem sign_unique (hmac : X.IdealMac) {secret secret' purpose purpose' payload payload' : String}
    {tag : List UInt8} (hpurpose : 10 ∉ asBytes purpose) (hpayload : 10 ∉ asBytes payload)
    (h : sign X secret purpose payload = .ok tag)
    (h' : sign X secret' purpose' payload' = .ok tag) :
    secret' = secret ∧ purpose' = purpose ∧ payload' = payload := by
  obtain ⟨mac, hkey, rfl⟩ := exists_mac_of_sign h
  obtain ⟨mac', hkey', heq⟩ := exists_mac_of_sign h'
  obtain ⟨hsecret, hmessage⟩ := hmac.unique hkey hkey' heq
  obtain ⟨rfl, rfl⟩ := message_inj hpurpose hpayload hmessage
  exact ⟨(asBytes_injective hsecret).symm, rfl, rfl⟩

end Tags

section Soundness

variable {X}

theorem fixed_purpose_unbroken {purpose : String}
    (h : purpose = purposeIcs ∨ purpose = purposeTicketReport) : 10 ∉ asBytes purpose := by
  rcases h with rfl | rfl
  · decide
  · decide

/-- A minted token, and its segments. -/
theorem mint_ok (hmac : X.Mac) (json : X.JsonRoundTrip) {secret : String} (hs : secret ≠ "")
    (c : CapabilityClaims) :
    ∃ payload tag, X.toVec c = .ok payload ∧ X.fromSlice payload = .ok c ∧
      sign X secret c.purpose (b64urlEncode payload) = .ok tag ∧
      c.mint X secret = .ok ("v1." ++ b64urlEncode payload ++ "." ++ b64urlEncode tag) ∧
      Segments ("v1." ++ b64urlEncode payload ++ "." ++ b64urlEncode tag)
        (b64urlEncode payload) (b64urlEncode tag) := by
  obtain ⟨payload, hto, hfrom⟩ := json.reads c
  obtain ⟨tag, hsign, htag⟩ := sign_ok hmac hs c.purpose (b64urlEncode payload)
  have hpayload : payload ≠ [] := by
    rintro rfl
    exact json.rejects_nil c hfrom
  refine ⟨payload, tag, hto, hfrom, hsign, ?_, rfl, ?_, b64urlEncode_ne_empty hpayload,
    b64urlEncode_ne_empty htag⟩
  · rw [CapabilityClaims.mint, hto]
    simp only [hsign]
  · intro hdot
    exact notDot_of_mem_b64urlEncode hdot rfl

theorem verify_mint (hmac : X.Mac) (json : X.JsonRoundTrip) {secret : String}
    (hs : secret ≠ "") (c : CapabilityClaims) :
    ∃ token, c.mint X secret = .ok token ∧ ∀ now,
      CapabilityClaims.verify X secret c.purpose token now = .ok c ↔
        c.exp = 0 ∨ timestamp now < c.exp := by
  obtain ⟨payload, tag, -, hfrom, hsign, hmint, hsegments⟩ := mint_ok hmac json hs c
  refine ⟨_, hmint, fun now => ⟨?_, ?_⟩⟩
  · intro h
    obtain ⟨_, _, -, hacc⟩ := accepted_of_verify X h
    exact hacc.unexpired
  · intro h
    exact verify_of_accepted X hs hsegments ⟨⟨tag, hsign, b64urlDecode_encode tag⟩,
      ⟨payload, b64urlDecode_encode payload, hfrom⟩, rfl, h⟩

/-- The tag in an accepted token belongs to this secret, purpose and payload only. -/
theorem Accepted.unique (hmac : X.IdealMac) {secret purpose payloadB64 sigB64 : String}
    {now : Timestamp} {claims : CapabilityClaims}
    (hpurpose : purpose = purposeIcs ∨ purpose = purposeTicketReport)
    (h : Accepted X secret purpose now claims payloadB64 sigB64) {tag : List UInt8}
    (htag : b64urlDecode sigB64 = some tag) {secret' purpose' payload' : String}
    (hsign : sign X secret' purpose' payload' = .ok tag) :
    secret' = secret ∧ purpose' = purpose ∧ payload' = payloadB64 := by
  obtain ⟨tag', hsign', htag'⟩ := h.signed
  obtain ⟨payload, hpayload, -⟩ := h.decoded
  rw [htag] at htag'
  cases htag'
  exact sign_unique hmac (fixed_purpose_unbroken hpurpose) (notMem_of_decodeFrom hpayload)
    hsign' hsign

/-- The signature of a minted token passes with the minted claims only. -/
theorem verify_of_minted_signature (hmac : X.IdealMac) (json : X.JsonRoundTrip)
    {c claims : CapabilityClaims} {secret secret' purpose token token' : String} {now : Timestamp}
    (hpurpose : purpose = purposeIcs ∨ purpose = purposeTicketReport)
    (hmint : c.mint X secret = .ok token)
    (hsig : b64urlDecode (segment 2 token') = b64urlDecode (segment 2 token))
    (h : CapabilityClaims.verify X secret' purpose token' now = .ok claims) :
    secret' = secret ∧ purpose = c.purpose ∧ segment 1 token' = segment 1 token ∧ claims = c := by
  have hs : secret ≠ "" := by
    rintro rfl
    rw [CapabilityClaims.mint] at hmint
    split at hmint
    · cases hmint
    · cases hmint
  obtain ⟨payload, tag, -, hfrom, hsign, hmint', hsegments⟩ := mint_ok hmac.mac json hs c
  rw [hmint] at hmint'
  cases hmint'
  obtain ⟨payloadB64, sigB64, hsegments', hacc⟩ := accepted_of_verify X h
  rw [hsegments.segment_two, hsegments'.segment_two, b64urlDecode_encode] at hsig
  rw [hsegments.segment_one, hsegments'.segment_one]
  obtain ⟨rfl, rfl, rfl⟩ := hacc.unique hmac hpurpose hsig hsign
  obtain ⟨payload', hpayload', hclaims⟩ := hacc.decoded
  rw [b64urlDecode_encode] at hpayload'
  cases hpayload'
  rw [hfrom] at hclaims
  exact ⟨rfl, rfl, rfl, (Except.ok.inj hclaims).symm⟩

/-- An /ics token passes at the instants before its lifetime ends. -/
theorem verify_mintIcs (hmac : X.IdealMac) (json : X.JsonRoundTrip) {secret : String}
    (hs : secret ≠ "") (eventId : Uuid) (slotId : Option Uuid) (issued : Timestamp)
    (ttlSecs : Int64) (hissued : 0 ≤ (timestamp issued).toInt) (httl : 0 < ttlSecs.toInt)
    (hfits : (timestamp issued).toInt + ttlSecs.toInt < 2 ^ 63) :
    ∃ token, mintIcsCapability X secret eventId slotId issued ttlSecs = .ok token ∧ ∀ now,
      (∃ claims, CapabilityClaims.verify X secret purposeIcs token now = .ok claims) ↔
        (timestamp now).toInt < (timestamp issued).toInt + ttlSecs.toInt := by
  have hexp : (timestamp issued + ttlSecs).toInt = (timestamp issued).toInt + ttlSecs.toInt := by
    rw [Int64.toInt_add]
    apply Int.bmod_eq_of_le
    · omega
    · omega
  obtain ⟨token, hmint, hverify⟩ := verify_mint hmac.mac json hs
    { purpose := purposeIcs
      exp := timestamp issued + ttlSecs
      data := X.uuidToString eventId :: (slotId.map X.uuidToString).toList }
  refine ⟨token, hmint, fun now => ?_⟩
  have hiff : (timestamp issued + ttlSecs = 0 ∨ timestamp now < timestamp issued + ttlSecs) ↔
      (timestamp now).toInt < (timestamp issued).toInt + ttlSecs.toInt := by
    rw [← hexp, Int64.lt_iff_toInt_lt]
    constructor
    · rintro (hzero | hlt)
      · have := congrArg Int64.toInt hzero
        rw [hexp] at this
        have hz : (0 : Int64).toInt = 0 := by decide
        omega
      · exact hlt
    · exact .inr
  rw [← hiff, ← hverify now]
  constructor
  · rintro ⟨claims, h⟩
    obtain ⟨-, -, -, rfl⟩ :=
      verify_of_minted_signature hmac json (.inl rfl) hmint rfl h
    exact h
  · exact fun h => ⟨_, h⟩

/-- Soundness and round trip of the tokens under an ideal MAC. -/
theorem capability_sound (hmac : X.IdealMac) (json : X.JsonRoundTrip) :
    (∀ secret c, secret ≠ "" → ∃ token, c.mint X secret = .ok token ∧ ∀ now,
      CapabilityClaims.verify X secret c.purpose token now = .ok c ↔
        c.exp = 0 ∨ timestamp now < c.exp) ∧
    (∀ secret purpose token now d, secret ≠ "" →
      purpose = purposeIcs ∨ purpose = purposeTicketReport →
      CapabilityClaims.verify X secret purpose token now = .ok d →
      d.purpose = purpose ∧ (d.exp = 0 ∨ timestamp now < d.exp) ∧
      ∃ payloadB64 sigB64 payload tag, token = "v1." ++ payloadB64 ++ "." ++ sigB64 ∧
        b64urlDecode payloadB64 = some payload ∧ X.fromSlice payload = .ok d ∧
        sign X secret purpose payloadB64 = .ok tag ∧ b64urlDecode sigB64 = some tag ∧
        ∀ secret' purpose' payload', sign X secret' purpose' payload' = .ok tag →
          secret' = secret ∧ purpose' = purpose ∧ payload' = payloadB64) ∧
    (∀ secret c token, c.mint X secret = .ok token → ∀ secret' purpose token' now d,
      purpose = purposeIcs ∨ purpose = purposeTicketReport →
      b64urlDecode (segment 2 token') = b64urlDecode (segment 2 token) →
      CapabilityClaims.verify X secret' purpose token' now = .ok d →
      secret' = secret ∧ purpose = c.purpose ∧ segment 1 token' = segment 1 token ∧ d = c) ∧
    (∀ secret eventId slotId issued ttlSecs, secret ≠ "" → 0 ≤ (timestamp issued).toInt →
      0 < ttlSecs.toInt → (timestamp issued).toInt + ttlSecs.toInt < 2 ^ 63 →
      ∃ token, mintIcsCapability X secret eventId slotId issued ttlSecs = .ok token ∧ ∀ now,
        (∃ d, CapabilityClaims.verify X secret purposeIcs token now = .ok d) ↔
          (timestamp now).toInt < (timestamp issued).toInt + ttlSecs.toInt) := by
  refine ⟨fun secret c hs => verify_mint hmac.mac json hs c, ?_, ?_, ?_⟩
  · intro secret purpose token now d _ hpurpose h
    obtain ⟨payloadB64, sigB64, hsegments, hacc⟩ := accepted_of_verify X h
    obtain ⟨tag, hsign, hsig⟩ := hacc.signed
    obtain ⟨payload, hpayload, hclaims⟩ := hacc.decoded
    exact ⟨hacc.purpose_eq, hacc.unexpired, payloadB64, sigB64, payload, tag, hsegments.token_eq,
      hpayload, hclaims, hsign, hsig, fun _ _ _ => hacc.unique hmac hpurpose hsig⟩
  · intro secret c token hmint secret' purpose token' now d hpurpose hsig h
    exact verify_of_minted_signature hmac json hpurpose hmint hsig h
  · intro secret eventId slotId issued ttlSecs hs hissued httl hfits
    exact verify_mintIcs hmac json hs eventId slotId issued ttlSecs hissued httl hfits

end Soundness

section Sample

/-- A key and a message, told apart byte by byte. -/
def tagged : List UInt8 → List UInt8 → List UInt8
  | [], message => 0 :: message
  | b :: key, message => 1 :: b :: tagged key message

theorem tagged_inj {key key' message message' : List UInt8}
    (h : tagged key message = tagged key' message') : key = key' ∧ message = message' := by
  induction key generalizing key' with
  | nil =>
    cases key' with
    | nil => exact ⟨rfl, (List.cons.inj h).2⟩
    | cons b key' => cases (List.cons.inj h).1
  | cons b key ih =>
    cases key' with
    | nil => cases (List.cons.inj h).1
    | cons b' key' =>
      obtain ⟨rfl, hrest⟩ := List.cons.inj (List.cons.inj h).2
      obtain ⟨rfl, rfl⟩ := ih hrest
      exact ⟨rfl, rfl⟩

theorem tagged_head (key message : List UInt8) :
    (tagged key message).head? = some 0 ∨ (tagged key message).head? = some 1 := by
  cases key with
  | nil => exact .inl rfl
  | cons b key => exact .inr rfl

def gigClaims : CapabilityClaims where
  purpose := purposeIcs
  exp := 1700086400
  data := ["4f5e1c1e-9a55-4b2e-8a54-2f1f6a0d7c11"]

def gigPayload : List UInt8 :=
  asBytes <| "\x7b\"purpose\":\"event-ics-access\",\"exp\":1700086400," ++
    "\"data\":[\"4f5e1c1e-9a55-4b2e-8a54-2f1f6a0d7c11\"]\x7d"

def gigMessage : List UInt8 :=
  asBytes (capabilityContext ++ "\n" ++ purposeIcs ++ "\n" ++ b64urlEncode gigPayload)

/-- HMAC-SHA256 of the message under the key `s3cret`. -/
def gigTag : List UInt8 :=
  [134, 42, 190, 223, 148, 163, 41, 194, 50, 176, 124, 95, 190, 130, 167, 18, 223, 177, 39,
    138, 168, 81, 72, 214, 69, 24, 193, 202, 204, 191, 31, 116]

/-- The claims as numbers, and back. -/
def CapabilityClaims.code (c : CapabilityClaims) : List ℕ × ℤ × List (List ℕ) :=
  (c.purpose.toList.map Char.toNat, c.exp.toInt, c.data.map fun s => s.toList.map Char.toNat)

def CapabilityClaims.ofCode (code : List ℕ × ℤ × List (List ℕ)) : CapabilityClaims where
  purpose := String.ofList (code.1.map Char.ofNat)
  exp := Int64.ofInt code.2.1
  data := code.2.2.map fun s => String.ofList (s.map Char.ofNat)

theorem ofCode_code (c : CapabilityClaims) : CapabilityClaims.ofCode c.code = c := by
  cases c with
  | mk purpose exp data =>
    simp [CapabilityClaims.code, CapabilityClaims.ofCode, Function.comp_def]

/-- Crates that give the real bytes of one token and some code for every other. -/
def sampleCrates : Crates where
  newFromSlice key := .ok fun message =>
    if key = asBytes "s3cret" ∧ message = gigMessage then gigTag else tagged key message
  toVec c := .ok <|
    if c = gigClaims then gigPayload else 0 :: List.replicate (Encodable.encode c.code) 1
  fromSlice payload :=
    if payload = gigPayload then .ok gigClaims
    else match payload with
      | [] => .error "EOF while parsing a value"
      | _ :: code => match Encodable.decode code.length with
        | none => .error "expected value"
        | some c => .ok (CapabilityClaims.ofCode c)
  uuidToString _ := "4f5e1c1e-9a55-4b2e-8a54-2f1f6a0d7c11"
  parseStr text := if text = "4f5e1c1e-9a55-4b2e-8a54-2f1f6a0d7c11" then some 0 else none

theorem sampleCrates_idealMac : sampleCrates.IdealMac where
  accepts _ := ⟨_, rfl⟩
  tag_ne_nil := by
    intro key mac hmac message
    cases hmac
    change (if _ then gigTag else tagged key message) ≠ []
    split
    · decide
    · intro hnil
      rcases tagged_head key message with h | h
      · rw [hnil] at h
        cases h
      · rw [hnil] at h
        cases h
  unique := by
    intro key key' mac mac' hmac hmac' message message' h
    cases hmac
    cases hmac'
    change (if key = _ ∧ message = _ then gigTag else tagged key message) =
      (if key' = _ ∧ message' = _ then gigTag else tagged key' message') at h
    have hother : ∀ key message, gigTag ≠ tagged key message := by
      intro key message heq
      have hhead : gigTag.head? = some 134 := rfl
      rw [heq] at hhead
      rcases tagged_head key message with h | h
      · rw [h] at hhead
        cases hhead
      · rw [h] at hhead
        cases hhead
    split at h
    · next hgig =>
      split at h
      · next hgig' => exact ⟨hgig.1.trans hgig'.1.symm, hgig.2.trans hgig'.2.symm⟩
      · exact absurd h (hother _ _)
    · split at h
      · exact absurd h.symm (hother _ _)
      · exact tagged_inj h

/-- The claims whose bytes are given, and a code for every other. -/
def knownToVec (known : CapabilityClaims) (bytes : List UInt8) (c : CapabilityClaims) :
    List UInt8 :=
  if c = known then bytes else 0 :: List.replicate (Encodable.encode c.code) 1

def knownFromSlice (known : CapabilityClaims) (bytes payload : List UInt8) :
    Except String CapabilityClaims :=
  if payload = bytes then .ok known
  else match payload with
    | [] => .error "EOF while parsing a value"
    | _ :: code => match Encodable.decode code.length with
      | none => .error "expected value"
      | some c => .ok (CapabilityClaims.ofCode c)

theorem knownFromSlice_toVec {known : CapabilityClaims} {bytes : List UInt8}
    (hhead : bytes.head? = some 123) (c : CapabilityClaims) :
    knownFromSlice known bytes (knownToVec known bytes c) = .ok c := by
  by_cases hknown : c = known
  · rw [knownToVec, if_pos hknown, knownFromSlice.eq_def, if_pos rfl, hknown]
  · have hne : 0 :: List.replicate (Encodable.encode c.code) 1 ≠ bytes := by
      intro heq
      rw [← heq] at hhead
      cases hhead
    rw [knownToVec, if_neg hknown]
    simp only [knownFromSlice, if_neg hne, List.length_replicate, Encodable.encodek, ofCode_code]

theorem knownFromSlice_nil (known : CapabilityClaims) {claims : CapabilityClaims} {bytes : List UInt8}
    (hhead : bytes.head? = some 123) : knownFromSlice known bytes [] ≠ .ok claims := by
  have hne : [] ≠ bytes := by
    rintro rfl
    cases hhead
  rw [knownFromSlice, if_neg hne]
  intro h
  cases h

theorem sampleCrates_jsonRoundTrip : sampleCrates.JsonRoundTrip where
  reads claims := ⟨_, rfl, knownFromSlice_toVec (by decide) claims⟩
  rejects_nil claims := knownFromSlice_nil gigClaims (show gigPayload.head? = some 123 by decide)

theorem capability_sound_gig :
    (∃ token, gigClaims.mint sampleCrates "s3cret" = .ok token ∧
      CapabilityClaims.verify sampleCrates "s3cret" purposeIcs token 0 = .ok gigClaims ∧
      CapabilityClaims.verify sampleCrates "s3cret" purposeIcs token 1700086400000000 ≠
        .ok gigClaims) ∧
      ∃ token, mintIcsCapability sampleCrates "s3cret" 0 none 0 86400 = .ok token ∧
        ∃ d, CapabilityClaims.verify sampleCrates "s3cret" purposeIcs token 86399000000 = .ok d := by
  obtain ⟨hround, -, -, hics⟩ := capability_sound sampleCrates_idealMac sampleCrates_jsonRoundTrip
  obtain ⟨token, hmint, hverify⟩ := hround "s3cret" gigClaims (by decide)
  obtain ⟨token', hmint', hverify'⟩ :=
    hics "s3cret" 0 none 0 86400 (by decide) (by decide) (by decide) (by decide)
  refine ⟨⟨token, hmint, (hverify 0).mpr (by decide), fun h => ?_⟩, token', hmint', ?_⟩
  · exact absurd ((hverify 1700086400000000).mp h) (by decide)
  · exact (hverify' 86399000000).mpr (by decide)

end Sample

end BackboneEvents
