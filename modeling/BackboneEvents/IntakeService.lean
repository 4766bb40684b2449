import BackboneEvents.FixedWindows
import BackboneEvents.VerbCalls

/-!
# The guarded intake

Two arms of one throttle, the second asked only behind the first, and the one register verb.
-/
namespace BackboneEvents
open TransactionPrograms

/-- One key of a throttle and its budget. -/
structure Arm where
  key : String
  max : ℕ
  windowSecs : ℕ

namespace Arm

def allow (a : Arm) (now : ℕ) (w : FixedWindows) : Bool × FixedWindows :=
  w.allow a.key a.max a.windowSecs now

/-- The window a hit would fall in is full. -/
def spent (a : Arm) (now : ℕ) (w : FixedWindows) : Bool :=
  decide (a.max ≤ (w.opened a.key a.windowSecs now).2)

/-- One more hit in the window. -/
def charge (a : Arm) (now : ℕ) (w : FixedWindows) : FixedWindows :=
  w.store a.key ((w.opened a.key a.windowSecs now).1, (w.opened a.key a.windowSecs now).2 + 1)

/-- What a refusal leaves: a window opens on it only when nothing is ever admitted. -/
def refuse (a : Arm) (now : ℕ) (w : FixedWindows) : FixedWindows :=
  if a.max = 0 then w.store a.key (w.opened a.key a.windowSecs now) else w

end Arm

/-- `!allow(first) || !allow(second)`; each arm reads the clock. -/
def throttled (first second : Arm) (now later : ℕ) (w : FixedWindows) : Bool × FixedWindows :=
  match first.allow now w with
  | (false, w) => (true, w)
  | (true, w) => match second.allow later w with
    | (ok, w) => (!ok, w)

structure IntakeAnswer where
  questionId : Uuid
  valueText : Option String
  valueAnswerId : Option Uuid
  deriving DecidableEq, Repr

structure IntakePayload where
  name : String
  email : String
  phone : Option String
  companyName : Option String
  eventSlotId : Option Uuid
  eventTicketId : Option Uuid
  answers : List IntakeAnswer
  deriving DecidableEq, Repr

structure IntakeThrottles where
  perIdentityMax : ℕ
  perIdentityWindowSecs : ℕ
  perIpMax : ℕ
  perIpWindowSecs : ℕ

def IntakeThrottles.default : IntakeThrottles := ⟨5, 3600, 30, 3600⟩

/-- `toLowercase` is the standard library's. -/
def IntakeThrottles.identityArm (throttles : IntakeThrottles) (toLowercase : String → String)
    (email : String) : Arm :=
  ⟨"identity:" ++ toLowercase email, throttles.perIdentityMax, throttles.perIdentityWindowSecs⟩

def IntakeThrottles.ipArm (throttles : IntakeThrottles) (clientIp : String) : Arm :=
  ⟨"ip:" ++ clientIp, throttles.perIpMax, throttles.perIpWindowSecs⟩

/-- The shorter window, at least a second, as a `u32`. -/
def IntakeThrottles.retryAfterSecs (throttles : IntakeThrottles) : ℕ :=
  max (min throttles.perIdentityWindowSecs throttles.perIpWindowSecs) 1 % 2 ^ 32

def IntakePayload.command (payload : IntakePayload) (eventId : Uuid) : RegisterCommand where
  eventId := eventId
  eventSlotId := payload.eventSlotId
  eventTicketId := payload.eventTicketId
  name := payload.name
  email := payload.email
  phone := payload.phone
  companyName := payload.companyName
  partnerId := none
  actor := none
  leadRuleSkip := false

structure IntakeService where
  throttles : IntakeThrottles
  windows : FixedWindows
  db : Db

def IntakeService.intake (toLowercase : String → String) (env : Env) (now later : ℕ)
    (eventId : Uuid) (payload : IntakePayload) (clientIp : String) (s : IntakeService) :
    Except EventError Registration × IntakeService :=
  match throttled (s.throttles.identityArm toLowercase payload.email) (s.throttles.ipArm clientIp)
      now later s.windows with
  | (true, windows) =>
    (.error (.eventThrottled s.throttles.retryAfterSecs), { s with windows := windows })
  | (false, windows) =>
    let answer := (register env (payload.command eventId)).execute Db.absorb s.db
    (answer.1, { s with windows := windows, db := answer.2 })

/-- What one request does to the store: a refusal by the first arm leaves it alone, a refusal by
the second comes after the first has been charged. -/
structure ThrottleLaw (first second : Arm) (now later : ℕ) (w w' : FixedWindows)
    (refused : Prop) : Prop where
  refused_iff : refused ↔ first.spent now w = true ∨ second.spent later w = true
  byFirst : first.spent now w = true → w' = first.refuse now w
  bySecond : first.spent now w = false → second.spent later w = true →
    w' = second.refuse later (first.charge now w)
  passed : ¬ refused → w' = second.charge later (first.charge now w)
  secondKept : refused → 0 < second.max → w'.inner second.key = w.inner second.key
  others : ∀ key, key ≠ first.key → key ≠ second.key → w'.inner key = w.inner key

section arms

variable {a first second : Arm} {now later : ℕ} {w : FixedWindows}

theorem store_cell {key : String} {cell : ℕ × ℕ} (h : w.inner key = some cell) :
    w.store key cell = w := by
  rw [FixedWindows.store, Function.update_eq_self_iff.mpr h.symm]

/-- A full window is one the store has. -/
theorem cell_of_spent (h : a.spent now w = true) (hmax : a.max ≠ 0) :
    w.inner a.key = some (w.opened a.key a.windowSecs now) := by
  have hfull := of_decide_eq_true h
  cases hcell : w.inner a.key with
  | none =>
    simp only [FixedWindows.opened, hcell] at hfull
    omega
  | some cell =>
    obtain ⟨start, count⟩ := cell
    simp only [FixedWindows.opened, hcell] at hfull ⊢
    split at hfull
    · next hlive => rw [if_pos hlive]
    · omega

theorem allow_spent (h : a.spent now w = true) : a.allow now w = (false, a.refuse now w) := by
  have hfull : ¬ (w.opened a.key a.windowSecs now).2 < a.max := Nat.not_lt.mpr (of_decide_eq_true h)
  rw [Arm.allow, FixedWindows.allow_eq, if_neg hfull, decide_eq_false hfull, Arm.refuse]
  split
  · rfl
  · next hmax => rw [Nat.add_zero, store_cell (cell_of_spent h hmax)]

theorem allow_charge (h : a.spent now w = false) : a.allow now w = (true, a.charge now w) := by
  have hroom : (w.opened a.key a.windowSecs now).2 < a.max :=
    Nat.not_le.mp (of_decide_eq_false h)
  rw [Arm.allow, FixedWindows.allow_eq, if_pos hroom, decide_eq_true hroom, Arm.charge]

theorem charge_of_ne {key : String} (h : key ≠ a.key) :
    (a.charge now w).inner key = w.inner key := FixedWindows.store_of_ne h _

theorem refuse_of_ne {key : String} (h : key ≠ a.key) :
    (a.refuse now w).inner key = w.inner key := by
  rw [Arm.refuse]
  split
  · exact FixedWindows.store_of_ne h _
  · rfl

theorem refuse_of_pos (h : 0 < a.max) : a.refuse now w = w := if_neg (Nat.pos_iff_ne_zero.mp h)

/-- The second arm does not see the charge of the first. -/
theorem spent_charge (h : second.key ≠ first.key) :
    second.spent later (first.charge now w) = second.spent later w := by
  rw [Arm.spent, FixedWindows.opened_congr (charge_of_ne h), Arm.spent]

variable (now later w) in
theorem throttled_cases (h : second.key ≠ first.key) :
    (first.spent now w = true ∧ throttled first second now later w = (true, first.refuse now w)) ∨
    (first.spent now w = false ∧ second.spent later w = true ∧
      throttled first second now later w = (true, second.refuse later (first.charge now w))) ∨
    (first.spent now w = false ∧ second.spent later w = false ∧
      throttled first second now later w = (false, second.charge later (first.charge now w))) := by
  cases hfirst : first.spent now w with
  | true => exact .inl ⟨rfl, by simp only [throttled, allow_spent hfirst]⟩
  | false =>
    refine .inr ?_
    cases hsecond : second.spent later w with
    | true =>
      refine .inl ⟨rfl, rfl, ?_⟩
      simp [throttled, allow_charge hfirst, allow_spent ((spent_charge h).trans hsecond)]
    | false =>
      refine .inr ⟨rfl, rfl, ?_⟩
      simp [throttled, allow_charge hfirst, allow_charge ((spent_charge h).trans hsecond)]

variable (now later w) in
theorem throttleLaw_throttled (h : second.key ≠ first.key) :
    ThrottleLaw first second now later w (throttled first second now later w).2
      ((throttled first second now later w).1 = true) := by
  rcases throttled_cases now later w h with
    ⟨hfirst, heq⟩ | ⟨hfirst, hsecond, heq⟩ | ⟨hfirst, hsecond, heq⟩ <;> rw [heq]
  · exact {
      refused_iff := by simp [hfirst]
      byFirst _ := rfl
      bySecond hnot := by rw [hfirst] at hnot; cases hnot
      passed hnot := absurd rfl hnot
      secondKept _ _ := refuse_of_ne h
      others key hkey _ := refuse_of_ne hkey }
  · exact {
      refused_iff := by simp [hsecond]
      byFirst hspent := by rw [hfirst] at hspent; cases hspent
      bySecond _ _ := rfl
      passed hnot := absurd rfl hnot
      secondKept _ hmax := by rw [refuse_of_pos hmax, charge_of_ne h]
      others key hkey hkey' := by rw [refuse_of_ne hkey', charge_of_ne hkey] }
  · exact {
      refused_iff := by simp [hfirst, hsecond]
      byFirst hspent := by rw [hfirst] at hspent; cases hspent
      bySecond _ hspent := by rw [hsecond] at hspent; cases hspent
      passed _ := rfl
      secondKept hrefused := by cases hrefused
      others key hkey hkey' := by rw [charge_of_ne hkey', charge_of_ne hkey] }

theorem ThrottleLaw.of_iff {w' : FixedWindows} {refused refused' : Prop}
    (h : ThrottleLaw first second now later w w' refused) (hiff : refused' ↔ refused) :
    ThrottleLaw first second now later w w' refused' := by
  rwa [propext hiff]

/-- Keys with different prefixes are different. -/
theorem append_ne_of_head {s t : List Char} {x y : String} {c d : Char} (l : List Char)
    (hcd : c ≠ d) (hx : x.toList = l ++ c :: s) (hy : y.toList = l ++ d :: t) : x ≠ y := by
  rintro rfl
  rw [hx, List.append_cancel_left_eq] at hy
  exact hcd (List.cons.inj hy).1

end arms

section intake

variable {toLowercase : String → String} {env : Env} {now later : ℕ} {eventId : Uuid}
  {payload : IntakePayload} {clientIp : String} {s : IntakeService}

variable (toLowercase clientIp) in
theorem ipArm_ne_identityArm (throttles : IntakeThrottles) (email : String) :
    (throttles.ipArm clientIp).key ≠ (throttles.identityArm toLowercase email).key :=
  append_ne_of_head ['i'] (by decide) (String.toList_append) (String.toList_append)

/-- The register verb has refusals of its own. -/
theorem register_refuses (cmd : RegisterCommand) :
    (register env cmd).Refuses (fun e => ∀ n, e ≠ .eventThrottled n) := by
  refine Program.refuses_bind ?_ fun event => ?_
  · exact Program.refuses_bind (fun _ => trivial) fun _ => Program.refuses_require (by simp)
  refine Program.refuses_bind (Program.refuses_refuseWhen (by simp)) fun _ => ?_
  refine Program.refuses_bind ?_ fun slotId => ?_
  · rw [lockSlot]
    split
    · refine Program.refuses_bind (Program.refuses_require (by simp)) fun slot => ?_
      refine Program.refuses_bind (fun _ => trivial) fun belongs => ?_
      exact Program.refuses_bind (Program.refuses_refuseWhen (by simp)) fun _ => trivial
    · trivial
  refine Program.refuses_bind ?_ fun _ => ?_
  · rw [ticketWindow]
    split
    · trivial
    · refine Program.refuses_bind (fun _ => trivial) fun window => ?_
      refine Program.refuses_bind (Program.refuses_require (by simp)) fun t => ?_
      exact Program.refuses_refuseWhen (by simp)
  refine Program.refuses_bind (fun _ => trivial) fun taken => ?_
  refine Program.refuses_bind (Program.refuses_refuseWhen (by simp)) fun _ => ?_
  refine Program.refuses_bind (fun _ => trivial) fun orgAxis => ?_
  refine Program.refuses_bind (fun v => ?_) fun _ => ?_
  · dsimp only
    split
    · trivial
    · intro n hn
      cases hn
  refine Program.refuses_bind (Program.refuses_onlyIf fun _ => trivial) fun _ => ?_
  refine Program.refuses_bind (Program.refuses_onlyIf fun _ => trivial) fun _ => ?_
  exact Program.refuses_bind (fun _ => trivial) fun _ => trivial

theorem intake_law : ThrottleLaw (s.throttles.identityArm toLowercase payload.email)
    (s.throttles.ipArm clientIp) now later s.windows
    (s.intake toLowercase env now later eventId payload clientIp).2.windows
    (∃ n, (s.intake toLowercase env now later eventId payload clientIp).1 =
      .error (.eventThrottled n)) := by
  have hlaw := throttleLaw_throttled now later s.windows
    (ipArm_ne_identityArm toLowercase clientIp s.throttles payload.email)
  rw [IntakeService.intake]
  cases hthrottled : throttled (s.throttles.identityArm toLowercase payload.email)
      (s.throttles.ipArm clientIp) now later s.windows with
  | mk refused windows =>
    rw [hthrottled] at hlaw
    cases refused with
    | true => exact hlaw.of_iff (iff_of_true ⟨_, rfl⟩ rfl)
    | false =>
      refine hlaw.of_iff (iff_of_false ?_ (by simp))
      rintro ⟨n, hn⟩
      cases hrun : (register env (payload.command eventId)).run s.db with
      | ok r =>
        rw [execute_ok hrun] at hn
        cases hn
      | error e =>
        rw [execute_error hrun] at hn
        exact (register_refuses _).error hrun n (Except.error.inj hn)

end intake

end BackboneEvents
