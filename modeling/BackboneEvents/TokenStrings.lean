import BackboneEvents.Base64UrlDigits
import BackboneEvents.Capability

/-!
# The strings of one token

A tag of 32 bytes is 43 symbols and two bits over, which the decoder drops: the strings `verify`
accepts for one payload are those of the four values of these bits.
-/
namespace BackboneEvents.TokenStrings
open Base64Url

/-- A tag of HMAC-SHA256 is 32 bytes. -/
structure Sha256 (X : Crates) : Prop where
  length : ∀ {key mac}, X.newFromSlice key = .ok mac → ∀ message, (mac message).length = 32

/-- The bits of a token's signature segment that its tag does not use. -/
def unusedBits (token : String) : ℕ := unused (segment 2 token)

/-- Payloads and tags of every length come back from their texts, and no two of them share one. -/
theorem b64url_roundTrips :
    (∀ bytes, b64urlDecode (b64urlEncode bytes) = some bytes) ∧ Function.Injective b64urlEncode := by
  refine ⟨b64urlDecode_encode, fun bytes bytes' h => ?_⟩
  have hdecoded := b64urlDecode_encode bytes'
  rw [← h, b64urlDecode_encode bytes] at hdecoded
  exact Option.some.inj hdecoded

section strings

variable {X : Crates} {secret purpose token token' : String} {now now' : Timestamp}
  {claims claims' : CapabilityClaims}

/-- The tag an accepted token shows is 32 bytes. -/
theorem signed_tag (hX : Sha256 X) {payloadB64 sigB64 : String}
    (h : Accepted X secret purpose now claims payloadB64 sigB64) :
    ∃ tag, sign X secret purpose payloadB64 = .ok tag ∧ b64urlDecode sigB64 = some tag ∧
      tag.length = 32 := by
  obtain ⟨tag, hsign, hsig⟩ := h.signed
  obtain ⟨mac, hmac, rfl⟩ := exists_mac_of_sign hsign
  exact ⟨_, hsign, hsig, hX.length hmac _⟩

/-- Two accepted tokens of one payload carry the same tag. -/
theorem same_tag (hX : Sha256 X)
    (h : CapabilityClaims.verify X secret purpose token now = .ok claims)
    (h' : CapabilityClaims.verify X secret purpose token' now' = .ok claims')
    (hpayload : segment 1 token = segment 1 token') :
    ∃ payloadB64 sigB64 sigB64' tag, Segments token payloadB64 sigB64 ∧
      Segments token' payloadB64 sigB64' ∧ b64urlDecode sigB64 = some tag ∧
      b64urlDecode sigB64' = some tag ∧ tag.length = 32 := by
  obtain ⟨payloadB64, sigB64, hsegments, hacc⟩ := accepted_of_verify X h
  obtain ⟨payloadB64', sigB64', hsegments', hacc'⟩ := accepted_of_verify X h'
  rw [hsegments.segment_one, hsegments'.segment_one] at hpayload
  subst hpayload
  obtain ⟨tag, hsign, hsig, htag⟩ := signed_tag hX hacc
  obtain ⟨tag', hsign', hsig', -⟩ := signed_tag hX hacc'
  obtain rfl := Except.ok.inj (hsign.symm.trans hsign')
  exact ⟨payloadB64, sigB64, sigB64', tag, hsegments, hsegments', hsig, hsig', htag⟩

theorem length_of_tag {sigB64 : String} {tag : List UInt8} (h : b64urlDecode sigB64 = some tag)
    (htag : tag.length = 32) : (asBytes sigB64).length = 43 := by
  have := length_of_decode h
  omega

theorem eq_iff_unusedBits (hX : Sha256 X)
    (h : CapabilityClaims.verify X secret purpose token now = .ok claims)
    (h' : CapabilityClaims.verify X secret purpose token' now' = .ok claims')
    (hpayload : segment 1 token = segment 1 token') :
    token = token' ↔ unusedBits token = unusedBits token' := by
  obtain ⟨payloadB64, sigB64, sigB64', tag, hsegments, hsegments', hsig, hsig', htag⟩ :=
    same_tag hX h h' hpayload
  have hsigs : sigB64 = sigB64' ↔ unused sigB64 = unused sigB64' :=
    eq_iff_unused_eq hsig hsig' ((length_of_tag hsig htag).trans (length_of_tag hsig' htag).symm)
  rw [unusedBits, unusedBits, hsegments.segment_two, hsegments'.segment_two, ← hsigs]
  constructor
  · rintro rfl
    rw [← hsegments.segment_two, ← hsegments'.segment_two]
  · rintro rfl
    rw [hsegments.token_eq, hsegments'.token_eq]

/-- The rewritten token of an accepted one. -/
theorem exists_rewritten (hX : Sha256 X)
    (h : CapabilityClaims.verify X secret purpose token now = .ok claims) {r : ℕ} (hr : r < 4) :
    ∃ token', CapabilityClaims.verify X secret purpose token' now = .ok claims ∧
      segment 1 token = segment 1 token' ∧ unusedBits token' = r := by
  obtain ⟨payloadB64, sigB64, hsegments, hacc⟩ := accepted_of_verify X h
  obtain ⟨tag, hsign, hsig, htag⟩ := signed_tag hX hacc
  have hlength := length_of_tag hsig htag
  obtain ⟨sigB64', hsig', hlength', hunused⟩ := exists_text_of_unused hsig
    (List.ne_nil_of_length_eq_add_one hlength) (r := r) (by rw [hlength]; exact hr)
  have hne : sigB64' ≠ "" := by
    rintro rfl
    rw [hlength] at hlength'
    cases hlength'
  have hrewritten : Segments ("v1." ++ payloadB64 ++ "." ++ sigB64') payloadB64 sigB64' :=
    ⟨rfl, hsegments.undotted, hsegments.payload_ne, hne⟩
  have hs : secret ≠ "" := by
    rintro rfl
    cases h
  refine ⟨_, verify_of_accepted X hs hrewritten ⟨⟨tag, hsign, hsig'⟩, hacc.decoded,
    hacc.purpose_eq, hacc.unexpired⟩, ?_, ?_⟩
  · rw [hsegments.segment_one, hrewritten.segment_one]
  · rw [unusedBits, hrewritten.segment_two, hunused]

end strings

/-- Accepted tokens of one payload are one string exactly when the bits their tags do not use
agree, and each of the four values of these bits is accepted. -/
theorem accepted_strings_iff (X : Crates) (hX : Sha256 X) (secret purpose token : String)
    (now : Timestamp) (claims : CapabilityClaims)
    (h : CapabilityClaims.verify X secret purpose token now = .ok claims) :
    (∀ token' now' claims', CapabilityClaims.verify X secret purpose token' now' = .ok claims' →
      segment 1 token = segment 1 token' →
      (token = token' ↔ unusedBits token = unusedBits token')) ∧
    ∀ r < 4, ∃! token', CapabilityClaims.verify X secret purpose token' now = .ok claims ∧
      segment 1 token = segment 1 token' ∧ unusedBits token' = r := by
  refine ⟨fun token' now' claims' h' => eq_iff_unusedBits hX h h', fun r hr => ?_⟩
  obtain ⟨token', h', hpayload, hunused⟩ := exists_rewritten hX h hr
  refine ⟨token', ⟨h', hpayload, hunused⟩, ?_⟩
  rintro token'' ⟨h'', hpayload', hunused'⟩
  exact (eq_iff_unusedBits hX h'' h' (hpayload'.symm.trans hpayload)).mpr
    (hunused'.trans hunused.symm)

section samples

/-- Crates whose tags are the one of the sample token. -/
def gigCrates : Crates := { sampleCrates with newFromSlice _ := .ok fun _ => gigTag }

theorem gigCrates_sha256 : Sha256 gigCrates where
  length := by
    rintro key mac hmac message
    cases hmac
    rfl

def gigToken (sigB64 : String) : String := "v1." ++ b64urlEncode gigPayload ++ "." ++ sigB64

/-- The tag's symbols, and with the last one's low bits set. -/
def gigSig : String := "hiq-35SjKcIysHxfvoKnEt-xJ4qoUUjWRRjBysy_H3Q"

def gigSigRewritten : String := "hiq-35SjKcIysHxfvoKnEt-xJ4qoUUjWRRjBysy_H3R"

theorem segments_gigToken {sigB64 : String} (hne : sigB64 ≠ "") :
    Segments (gigToken sigB64) (b64urlEncode gigPayload) sigB64 :=
  ⟨rfl, fun h => notDot_of_mem_b64urlEncode h rfl, b64urlEncode_ne_empty (by decide), hne⟩

theorem verify_gigToken {sigB64 : String} (hsig : b64urlDecode sigB64 = some gigTag)
    (hne : sigB64 ≠ "") :
    CapabilityClaims.verify gigCrates "s3cret" purposeIcs (gigToken sigB64) 0 = .ok gigClaims :=
  verify_of_accepted gigCrates (by decide) (segments_gigToken hne)
    ⟨⟨gigTag, rfl, hsig⟩, ⟨gigPayload, b64urlDecode_encode gigPayload, rfl⟩, rfl,
      .inr (by decide)⟩

theorem decode_gigSig : b64urlDecode gigSig = some gigTag := by decide

theorem accepted_strings_gig :
    ∃! token', CapabilityClaims.verify gigCrates "s3cret" purposeIcs token' 0 = .ok gigClaims ∧
      segment 1 (gigToken gigSig) = segment 1 token' ∧ unusedBits token' = 1 :=
  (accepted_strings_iff gigCrates gigCrates_sha256 "s3cret" purposeIcs (gigToken gigSig) 0 gigClaims
    (verify_gigToken decode_gigSig (by decide))).2 1 (by decide)

/-- A valid token and its rewriting pass with the same payload. -/
theorem rewritten_accepted :
    CapabilityClaims.verify gigCrates "s3cret" purposeIcs (gigToken gigSig) 0 = .ok gigClaims ∧
    CapabilityClaims.verify gigCrates "s3cret" purposeIcs (gigToken gigSigRewritten) 0 =
      .ok gigClaims ∧
    segment 1 (gigToken gigSig) = segment 1 (gigToken gigSigRewritten) ∧
    gigToken gigSig ≠ gigToken gigSigRewritten := by
  refine ⟨verify_gigToken decode_gigSig (by decide),
    verify_gigToken (by decide) (by decide), ?_, ?_⟩
  · rw [(segments_gigToken (by decide)).segment_one, (segments_gigToken (by decide)).segment_one]
  · intro h
    have hsig := congrArg (segment 2) h
    rw [(segments_gigToken (by decide)).segment_two, (segments_gigToken (by decide)).segment_two]
      at hsig
    exact absurd hsig (by decide)

end samples

end BackboneEvents.TokenStrings
