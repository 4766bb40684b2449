import BackboneEvents.GrandTotal
import BackboneEvents.IntakeService
import BackboneEvents.PublicGate

/-!
# The public routes

The caller's address, the two capability routes over one throttle, and the intake route. What a
handler does before it calls its service is its gate.
-/
namespace BackboneEvents

/-- What the routes use of the `http` crate; `getAll` is the documented counterpart of `get`. -/
structure Http where
  HeaderMap : Type
  get : HeaderMap → String → Option (List UInt8)
  getAll : HeaderMap → String → List (List UInt8)
  toStr : List UInt8 → Option String

/-- `fwd.rsplit(',').next()`, trimmed. -/
def rightmostHop (fwd : String) : String :=
  String.ofList (GrandTotal.trim (fwd.toList.rtakeWhile (· != ',')))

def callerIp (X : Http) (headers : X.HeaderMap) (socketIp : Option String) (trustedProxy : Bool) :
    String :=
  match if trustedProxy then (X.get headers "x-forwarded-for").bind X.toStr else none with
  | none => socketIp.getD "unknown"
  | some fwd =>
    if rightmostHop fwd = "" then socketIp.getD "unknown" else rightmostHop fwd

/-- One request of a public route, with the clock as its two arms read it. -/
structure PublicRequest (X : Http) where
  capability : String
  headers : X.HeaderMap
  socketIp : Option String
  now : ℕ
  later : ℕ

/-- `ICS_THROTTLE`. -/
def icsThrottle : ℕ × ℕ := (30, 60)

def icsTokenArm (capability : String) : Arm :=
  ⟨"ics-token:" ++ capability, icsThrottle.1, icsThrottle.2⟩

def icsIpArm (ip : String) : Arm := ⟨"ics-ip:" ++ ip, icsThrottle.1, icsThrottle.2⟩

section handlers

variable (H : PublicHost) {X : Http} (trustedProxy : Bool)

def PublicRequest.address (r : PublicRequest X) : String :=
  callerIp X r.headers r.socketIp trustedProxy

/-- The secret, then the two arms. -/
def icsGate (r : PublicRequest X) (w : FixedWindows) : Option EventError × FixedWindows :=
  if H.secret = "" then (some .eventCapabilitySecretNotConfigured, w)
  else match throttled (icsTokenArm r.capability) (icsIpArm (r.address trustedProxy)) r.now r.later
      w with
    | (true, w) => (some (.eventThrottled icsThrottle.2), w)
    | (false, w) => (none, w)

def icsHandler (s : PublicDb) (r : PublicRequest X) (w : FixedWindows) :
    Except EventError IcsFeed × FixedWindows :=
  match icsGate H trustedProxy r w with
  | (some e, w) => (.error e, w)
  | (none, w) => (IcsService.feed H s r.capability, w)

/-- The secret only. -/
def myTicketsGate : Option EventError :=
  if H.secret = "" then some .eventCapabilitySecretNotConfigured else none

def myTicketsHandler (s : PublicDb) (r : PublicRequest X) : Except EventError TicketReport :=
  match myTicketsGate H with
  | some e => .error e
  | none => MyTicketsService.report H s r.capability

def intakeHandler (toLowercase : String → String) (env : Env) (now later : ℕ) (eventId : Uuid)
    (headers : X.HeaderMap) (socketIp : Option String) (payload : IntakePayload)
    (s : IntakeService) : Except EventError Registration × IntakeService :=
  s.intake toLowercase env now later eventId payload (callerIp X headers socketIp trustedProxy)

end handlers

section gate

variable {H : PublicHost} {X : Http} {trustedProxy : Bool} {s : PublicDb} {r : PublicRequest X}
  {w : FixedWindows}

/-- An answer other than the throttle's. -/
def Unthrottled {α : Type} (answer : Except EventError α) : Prop :=
  ∀ n, answer ≠ .error (.eventThrottled n)

theorem Unthrottled.bind {α β : Type} {answer : Except EventError α} {f : α → Except EventError β}
    (h : Unthrottled answer) (hf : ∀ a, Unthrottled (f a)) : Unthrottled (answer >>= f) := by
  cases answer with
  | error e => exact fun n hn => h n (congrArg Except.error (Except.error.inj hn))
  | ok a => exact hf a

theorem unthrottled_of_uniform {α : Type} {answer : Except EventError α} (h : Uniform answer) :
    Unthrottled answer := by
  rintro n rfl
  rcases h with ⟨a, ha⟩ | ha <;> cases ha

theorem unthrottled_sign (Y : Crates) (secret purpose payloadB64 : String) :
    Unthrottled (sign Y secret purpose payloadB64) := by
  intro n h
  rw [sign] at h
  split at h
  · cases h
  · split at h <;> cases h

theorem unthrottled_verify (Y : Crates) (secret purpose token : String) (now : Timestamp) :
    Unthrottled (CapabilityClaims.verify Y secret purpose token now) := by
  intro n h
  simp only [CapabilityClaims.verify] at h
  split at h
  · cases h
  split at h
  · cases h
  split at h
  · next e hsign =>
    obtain rfl := Except.error.inj h
    exact unthrottled_sign Y secret purpose _ n hsign
  · repeat' split at h
    all_goals cases h

theorem unthrottled_feed (token : String) : Unthrottled (IcsService.feed H s token) :=
  Unthrottled.bind (unthrottled_verify _ _ _ _ _) fun claims =>
    Unthrottled.bind (unthrottled_of_uniform (uniform_pinnedEvent claims)) fun eventId =>
      Unthrottled.bind (unthrottled_of_uniform (uniform_pinnedSlot s claims eventId)) fun _ =>
        Unthrottled.bind (unthrottled_of_uniform (uniform_findPublished s eventId))
          fun _ n h => by cases h

theorem icsIpArm_ne_icsTokenArm (ip capability : String) :
    (icsIpArm ip).key ≠ (icsTokenArm capability).key :=
  append_ne_of_head ['i', 'c', 's', '-'] (by decide) String.toList_append String.toList_append

theorem ics_law (hsecret : H.secret ≠ "") :
    ThrottleLaw (icsTokenArm r.capability) (icsIpArm (r.address trustedProxy)) r.now r.later w
      (icsHandler H trustedProxy s r w).2
      (∃ n, (icsHandler H trustedProxy s r w).1 = .error (.eventThrottled n)) := by
  have hlaw := throttleLaw_throttled r.now r.later w
    (icsIpArm_ne_icsTokenArm (r.address trustedProxy) r.capability)
  rw [icsHandler, icsGate, if_neg hsecret]
  cases hthrottled : throttled (icsTokenArm r.capability) (icsIpArm (r.address trustedProxy))
      r.now r.later w with
  | mk refused windows =>
    rw [hthrottled] at hlaw
    cases refused with
    | true => exact hlaw.of_iff (iff_of_true ⟨_, rfl⟩ rfl)
    | false =>
      refine hlaw.of_iff (iff_of_false ?_ (by simp))
      rintro ⟨n, hn⟩
      exact unthrottled_feed _ n hn

/-- Intake and feed charge their two arms in turn: a request refused by its address has used up a
hit of its identity, or of its token, and nothing of its address. -/
theorem throttles_charge_in_turn (H : PublicHost) (X : Http) (trustedProxy : Bool) (s : PublicDb)
    (r : PublicRequest X) (w : FixedWindows) (toLowercase : String → String) (env : Env)
    (now later : ℕ) (eventId : Uuid) (payload : IntakePayload) (clientIp : String)
    (S : IntakeService) :
    ThrottleLaw (S.throttles.identityArm toLowercase payload.email) (S.throttles.ipArm clientIp)
      now later S.windows (S.intake toLowercase env now later eventId payload clientIp).2.windows
      (∃ n, (S.intake toLowercase env now later eventId payload clientIp).1 =
        .error (.eventThrottled n)) ∧
    (H.secret ≠ "" → ThrottleLaw (icsTokenArm r.capability) (icsIpArm (r.address trustedProxy))
      r.now r.later w (icsHandler H trustedProxy s r w).2
      (∃ n, (icsHandler H trustedProxy s r w).1 = .error (.eventThrottled n))) ∧
    (H.secret = "" → icsHandler H trustedProxy s r w =
      (.error .eventCapabilitySecretNotConfigured, w)) := by
  refine ⟨intake_law, ics_law, fun hsecret => ?_⟩
  rw [icsHandler, icsGate, if_pos hsecret]

/-- An address at its maximum, and the identity of somebody else. -/
def crowdedAddress : IntakeService where
  throttles := .default
  windows := FixedWindows.new.store "ip:9.9.9.9" (0, 30)
  db := .empty

def victim : IntakePayload := ⟨"Vi", "vi@x", none, none, none, none, []⟩

/-- `str::to_lowercase` on ASCII text. -/
def asciiLowercase (text : String) : String := String.ofList (text.toList.map Char.toLower)

/-- The victim's registration from an address. -/
def asVictim (clientIp : String) (s : IntakeService) :
    Except EventError Registration × IntakeService :=
  s.intake asciiLowercase (.counting 1) 0 0 1 victim clientIp

def attacked (n : ℕ) : IntakeService := (fun s => (asVictim "9.9.9.9" s).2)^[n] crowdedAddress

/-- Five requests of the address over its budget are refused, each at a hit of the victim's, who
is then refused from an address of their own. -/
theorem victim_throttled :
    (∀ k < 5, (asVictim "9.9.9.9" (attacked k)).1 = .error (.eventThrottled 3600) ∧
      (asVictim "9.9.9.9" (attacked k)).2.windows.inner "identity:vi@x" = some (0, k + 1)) ∧
    (asVictim "1.1.1.1" crowdedAddress).1 = .error .eventNotFound ∧
    (asVictim "1.1.1.1" (attacked 5)).1 = .error (.eventThrottled 3600) := by
  decide

end gate

end BackboneEvents
