import BackboneEvents.IntakeService

/-!
# What the intake lets through

Calls of the intake interleave where each takes the lock of the windows or runs its transaction:
a call hits the arm of its identity, then that of its address, then registers. However they
interleave, each arm bounds the registrations whose hits it admitted in a window or in a stretch of
time, and so the rows stored in a stretch, as far as calls do not linger between their hits and
their transaction. A caller who waits for as long as a refusal says is let through.
-/
namespace BackboneEvents.IntakeRates
open FixedWindows TransactionPrograms

/-- A request as the router hands it over. -/
structure Request where
  env : Env
  eventId : Uuid
  payload : IntakePayload
  clientIp : String

/-- An admitted hit: when it was, and the start of its window. -/
structure Charge where
  start : ℕ
  time : ℕ
  deriving DecidableEq, Repr

def Charge.within (first last : ℕ) (c : Charge) : Bool :=
  decide (first ≤ c.time) && decide (c.time ≤ last)

/-- A call: what its arms have charged so far, when its transaction ran, and its answer. -/
structure Intake where
  request : Request
  identity : Option Charge
  address : Option Charge
  ran : Option ℕ
  answer : Option (Except EventError Registration)

def Intake.new (r : Request) : Intake := ⟨r, none, none, none, none⟩

def Intake.registered (c : Intake) : Bool :=
  match c.answer with
  | some (.ok _) => true
  | some (.error _) | none => false

def hit (a : Arm) (now : ℕ) (w : FixedWindows) : Option Charge × FixedWindows :=
  let answer := a.allow now w
  (if answer.1 then some ⟨(w.opened a.key a.windowSecs now).1, now⟩ else none, answer.2)

/-- The answer of a refused hit. -/
def refusedBy (throttles : IntakeThrottles) (charge : Option Charge) :
    Option (Except EventError Registration) :=
  if charge.isSome then none else some (.error (.eventThrottled throttles.retryAfterSecs))

section turns

variable (toLowercase : String → String)

def identityArm (throttles : IntakeThrottles) (r : Request) : Arm :=
  throttles.identityArm toLowercase r.payload.email

def addressArm (throttles : IntakeThrottles) (r : Request) : Arm := throttles.ipArm r.clientIp

/-- What a call does until it next waits for a lock. -/
def Intake.turn (now : ℕ) (c : Intake) (s : IntakeService) : Intake × IntakeService :=
  if c.answer.isSome then (c, s)
  else match c.identity, c.address with
    | none, _ =>
      let (charge, windows) := hit (identityArm toLowercase s.throttles c.request) now s.windows
      ({ c with identity := charge, answer := refusedBy s.throttles charge },
        { s with windows := windows })
    | some _, none =>
      let (charge, windows) := hit (addressArm s.throttles c.request) now s.windows
      ({ c with address := charge, answer := refusedBy s.throttles charge },
        { s with windows := windows })
    | some _, some _ =>
      let answer :=
        (register c.request.env (c.request.payload.command c.request.eventId)).execute Db.absorb s.db
      ({ c with ran := some now, answer := some answer.1 }, { s with db := answer.2 })

/-- A call that nothing comes between, with the clock of each of its hits. -/
def Intake.alone (now later : ℕ) (c : Intake) (s : IntakeService) : Intake × IntakeService :=
  let first := c.turn toLowercase now s
  let second := first.1.turn toLowercase later first.2
  second.1.turn toLowercase later second.2

structure Traffic where
  service : IntakeService
  calls : List Intake

/-- A request comes in, a call takes its turn, or another verb changes the tables. -/
inductive Move where
  | intake (r : Request)
  | turn (k now : ℕ)
  | verb (c : Call)

def Traffic.next (w : Traffic) : Move → Traffic
  | .intake r => { w with calls := w.calls ++ [.new r] }
  | .turn k now =>
    match w.calls[k]? with
    | some c =>
      let (c', service) := c.turn toLowercase now w.service
      ⟨service, w.calls.set k c'⟩
    | none => w
  | .verb c => { w with service := { w.service with db := c.apply w.service.db } }

def Traffic.run (w : Traffic) (moves : List Move) : Traffic :=
  moves.foldl (Traffic.next toLowercase) w

end turns

/-- A service that has had no request. -/
def opening (throttles : IntakeThrottles) (db : Db) : Traffic := ⟨⟨throttles, .new, db⟩, []⟩

def Move.time : Move → Option ℕ
  | .turn _ now => some now
  | .intake _ | .verb _ => none

/-- The clock does not run back from one turn to the next. -/
def Timely (moves : List Move) : Prop := (moves.filterMap Move.time).Pairwise (· ≤ ·)

instance (moves : List Move) : Decidable (Timely moves) :=
  inferInstanceAs (Decidable (List.Pairwise _ _))

/-- One arm of the throttle, over all calls. -/
structure Side where
  key : Request → String
  max : ℕ
  windowSecs : ℕ
  charge : Intake → Option Charge

def identitySide (toLowercase : String → String) (throttles : IntakeThrottles) : Side where
  key r := (identityArm toLowercase throttles r).key
  max := throttles.perIdentityMax
  windowSecs := throttles.perIdentityWindowSecs
  charge := Intake.identity

def addressSide (throttles : IntakeThrottles) : Side where
  key r := (addressArm throttles r).key
  max := throttles.perIpMax
  windowSecs := throttles.perIpWindowSecs
  charge := Intake.address

/-- The side has charged the call, for the key and in such a hit. -/
def Side.charged (side : Side) (key : String) (q : Charge → Bool) (c : Intake) : Bool :=
  side.key c.request == key && (side.charge c).any q

/-- The call's row for the key came into the table between the two times, at most so long after the
hit of the side. -/
def Side.stored (side : Side) (key : String) (first last delay : ℕ) (c : Intake) : Bool :=
  c.registered && side.key c.request == key && c.ran.any fun now =>
    decide (first ≤ now) && decide (now ≤ last) && (side.charge c).any (·.within (now - delay) now)

/-- No call with the request's key on the side takes a turn. -/
def Side.Quiet (side : Side) (toLowercase : String → String) (r : Request) (w : Traffic) :
    List Move → Prop
  | [] => True
  | m :: moves =>
    (∀ k now c, m = .turn k now → w.calls[k]? = some c → side.key r ≠ side.key c.request) ∧
      side.Quiet toLowercase r (w.next toLowercase m) moves

/-- What a side promises of the registrations: each has been charged, no more than the maximum in
one window, and than `k + 1` times as many in `k` windows' length of time. The rows stored in such a
stretch by calls that linger for `j` windows' length at most are no more than `k + j + 1` times as
many. -/
structure RatesKept (side : Side) (calls : List Intake) : Prop where
  charged : ∀ c ∈ calls, c.registered = true → (side.charge c).isSome = true ∧ c.ran.isSome = true
  perWindow : ∀ key start, calls.countP
    (fun c => c.registered && side.charged key (·.start == start) c) ≤ side.max
  perInterval : ∀ key t k, calls.countP (fun c => c.registered &&
    side.charged key (·.within t (t + k * side.windowSecs)) c) ≤ (k + 1) * side.max
  stored : ∀ key t k j, calls.countP
    (side.stored key t (t + k * side.windowSecs) (j * side.windowSecs)) ≤ (k + j + 1) * side.max

section turns

variable {toLowercase : String → String} {now later : ℕ} {c : Intake} {s : IntakeService}
  {throttles : IntakeThrottles}

theorem hit_eq (a : Arm) (now : ℕ) (w : FixedWindows) : hit a now w =
    (if (a.allow now w).1 then some ⟨(w.opened a.key a.windowSecs now).1, now⟩ else none,
      (a.allow now w).2) := rfl

/-- What a turn can do. -/
inductive Turned (toLowercase : String → String) (now : ℕ) (c : Intake) (s : IntakeService) :
    Intake × IntakeService → Prop where
  | rests (answered : c.answer.isSome = true) : Turned toLowercase now c s (c, s)
  | identity (fresh : c.identity = none) (waiting : c.answer = none) : Turned toLowercase now c s
      ({ c with
        identity := (hit (identityArm toLowercase s.throttles c.request) now s.windows).1
        answer := refusedBy s.throttles
          (hit (identityArm toLowercase s.throttles c.request) now s.windows).1 },
        { s with windows := (hit (identityArm toLowercase s.throttles c.request) now s.windows).2 })
  | address (charged : c.identity.isSome = true) (fresh : c.address = none)
      (waiting : c.answer = none) : Turned toLowercase now c s
      ({ c with
        address := (hit (addressArm s.throttles c.request) now s.windows).1
        answer := refusedBy s.throttles (hit (addressArm s.throttles c.request) now s.windows).1 },
        { s with windows := (hit (addressArm s.throttles c.request) now s.windows).2 })
  | registers (charged : c.identity.isSome = true) (charged' : c.address.isSome = true)
      (waiting : c.answer = none) : Turned toLowercase now c s
      ({ c with
        ran := some now
        answer := some ((register c.request.env
          (c.request.payload.command c.request.eventId)).execute Db.absorb s.db).1 },
        { s with db := ((register c.request.env
          (c.request.payload.command c.request.eventId)).execute Db.absorb s.db).2 })

variable (toLowercase) in
theorem turn_cases (now : ℕ) (c : Intake) (s : IntakeService) :
    Turned toLowercase now c s (c.turn toLowercase now s) := by
  rw [Intake.turn]
  split
  · next hanswered => exact .rests hanswered
  · next hwaiting =>
    have hwaiting' : c.answer = none := by simpa using hwaiting
    split
    · next hidentity => exact .identity hidentity hwaiting'
    · next hidentity haddress => exact .address (by simp [hidentity]) haddress hwaiting'
    · next hidentity haddress =>
      exact .registers (by simp [hidentity]) (by simp [haddress]) hwaiting'

theorem turn_request : (c.turn toLowercase now s).1.request = c.request := by
  generalize hturn : c.turn toLowercase now s = turn
  have hcases := turn_cases toLowercase now c s
  rw [hturn] at hcases
  cases hcases <;> rfl

theorem turn_throttles : (c.turn toLowercase now s).2.throttles = s.throttles := by
  generalize hturn : c.turn toLowercase now s = turn
  have hcases := turn_cases toLowercase now c s
  rw [hturn] at hcases
  cases hcases <;> rfl

/-- What a turn does to a side: its arm is hit, or nothing. -/
inductive Side.Turned (side : Side) (now : ℕ) (c c' : Intake) (w w' : FixedWindows) : Prop where
  | hits (a : Arm) (key : a.key = side.key c.request) (max : a.max = side.max)
      (windowSecs : a.windowSecs = side.windowSecs) (fresh : side.charge c = none)
      (charged : side.charge c' = (hit a now w).1) (windows : w' = (hit a now w).2)
  | keeps (charge : side.charge c' = side.charge c)
      (windows : ∀ r, w'.inner (side.key r) = w.inner (side.key r))

theorem hit_of_ne {a : Arm} {w : FixedWindows} {key : String} (h : key ≠ a.key) :
    (hit a now w).2.inner key = w.inner key := by
  rw [hit_eq, Arm.allow, allow_eq]
  exact store_of_ne h _

theorem identity_turned (now : ℕ) (c : Intake) (s : IntakeService) :
    (identitySide toLowercase s.throttles).Turned now c (c.turn toLowercase now s).1 s.windows
      (c.turn toLowercase now s).2.windows := by
  generalize hturn : c.turn toLowercase now s = turn
  have hcases := turn_cases toLowercase now c s
  rw [hturn] at hcases
  cases hcases with
  | rests => exact .keeps rfl fun _ => rfl
  | identity fresh => exact .hits _ rfl rfl rfl fresh rfl rfl
  | address =>
    refine .keeps rfl fun r => hit_of_ne ?_
    exact (ipArm_ne_identityArm toLowercase _ s.throttles _).symm
  | registers => exact .keeps rfl fun _ => rfl

theorem address_turned (now : ℕ) (c : Intake) (s : IntakeService) :
    (addressSide s.throttles).Turned now c (c.turn toLowercase now s).1 s.windows
      (c.turn toLowercase now s).2.windows := by
  generalize hturn : c.turn toLowercase now s = turn
  have hcases := turn_cases toLowercase now c s
  rw [hturn] at hcases
  cases hcases with
  | rests => exact .keeps rfl fun _ => rfl
  | identity =>
    refine .keeps rfl fun r => hit_of_ne ?_
    exact ipArm_ne_identityArm toLowercase _ s.throttles _
  | address _ fresh => exact .hits _ rfl rfl rfl fresh rfl rfl
  | registers => exact .keeps rfl fun _ => rfl

/-- A registration comes after the charges of both arms. -/
def Charged (c : Intake) : Prop :=
  c.registered = true → c.identity.isSome = true ∧ c.address.isSome = true ∧ c.ran.isSome = true

theorem refusedBy_registered {throttles : IntakeThrottles} {charge : Option Charge} {r : Registration} :
    refusedBy throttles charge ≠ some (.ok r) := by
  rw [refusedBy]
  split <;> simp

theorem registered_iff : c.registered = true ↔ ∃ r, c.answer = some (.ok r) := by
  rw [Intake.registered]
  split <;> simp_all

theorem charged_turn (h : Charged c) : Charged (c.turn toLowercase now s).1 := by
  generalize hturn : c.turn toLowercase now s = turn
  have hcases := turn_cases toLowercase now c s
  rw [hturn] at hcases
  cases hcases with
  | rests => exact h
  | identity | address =>
    intro hregistered
    obtain ⟨r, hr⟩ := registered_iff.mp hregistered
    exact absurd hr refusedBy_registered
  | registers charged charged' => exact fun _ => ⟨charged, charged', rfl⟩

end turns

section sides

variable {toLowercase : String → String} {side : Side} {w : Traffic} {sv : Served}
  {c c' : Intake} {service : IntakeService} {k now : ℕ}

/-- The calls a side has charged are the admitted hits of its keys. -/
structure Metered (side : Side) (w : Traffic) (sv : Served) : Prop where
  counted : Counted side.max side.windowSecs sv
  windows : ∀ r, sv.windows.inner (side.key r) = w.service.windows.inner (side.key r)
  calls : ∀ key q, w.calls.countP (side.charged key q) =
    sv.log.countP (fun e => e.admits key && q ⟨e.start, e.hit.time⟩)

theorem countP_set_eq (p : Intake → Bool) (c' : Intake) {calls : List Intake}
    (hc : calls[k]? = some c) :
    (calls.set k c').countP p + (if p c then 1 else 0) =
      calls.countP p + if p c' then 1 else 0 := by
  obtain ⟨hk, rfl⟩ := List.getElem?_eq_some_iff.mp hc
  rw [List.countP_set hk]
  have hpos : p calls[k] = true → 0 < calls.countP p := fun h =>
    List.countP_pos_iff.mpr ⟨_, List.getElem_mem hk, h⟩
  split
  · next hp =>
    have := hpos hp
    omega
  · omega

theorem Metered.turn (h : Metered side w sv) (hwindow : 1 ≤ side.windowSecs)
    (htimes : ∀ e ∈ sv.log, e.hit.time ≤ now) (hc : w.calls[k]? = some c)
    (hrequest : c'.request = c.request)
    (hturned : side.Turned now c c' w.service.windows service.windows) :
    ∃ sv', Metered side ⟨service, w.calls.set k c'⟩ sv' ∧ ∀ e ∈ sv'.log, e.hit.time ≤ now := by
  cases hturned with
  | keeps charge windows =>
    refine ⟨sv, ⟨h.counted, fun r => (h.windows r).trans (windows r).symm, fun key q => ?_⟩, htimes⟩
    have hset := countP_set_eq (side.charged key q) c' hc
    have hsame : side.charged key q c' = side.charged key q c := by
      rw [Side.charged, Side.charged, hrequest, charge]
    rw [hsame] at hset
    rw [← h.calls key q]
    exact Nat.add_right_cancel hset
  | hits a key max windowSecs fresh charged windows =>
    have hcell : sv.windows.inner a.key = w.service.windows.inner a.key := key ▸ h.windows c.request
    have hopened := opened_congr hcell a.windowSecs now
    refine ⟨sv.next side.max side.windowSecs ⟨a.key, now⟩,
      ⟨h.counted.next hwindow htimes, fun r => ?_, fun key' q => ?_⟩, fun e he => ?_⟩
    · rw [windows, hit_eq, Arm.allow, Served.next, ← max, ← windowSecs, allow_eq, allow_eq, hopened]
      by_cases hkey : side.key r = a.key
      · rw [hkey, store_self, store_self]
      · rw [store_of_ne hkey, store_of_ne hkey]
        exact h.windows r
    · have hset := countP_set_eq (side.charged key' q) c' hc
      have hnot : side.charged key' q c = false := by simp [Side.charged, fresh]
      rw [hnot, h.calls key' q] at hset
      have hnew : side.charged key' q c' =
        ((⟨⟨a.key, now⟩, (sv.windows.opened a.key a.windowSecs now).1,
          (sv.windows.allow a.key a.max a.windowSecs now).1⟩ : Entry).admits key' &&
            q ⟨(sv.windows.opened a.key a.windowSecs now).1, now⟩) := by
        rw [Side.charged, hrequest, ← key, charged, hit_eq, Arm.allow, allow_eq, allow_eq, hopened,
          Entry.admits]
        cases decide ((w.service.windows.opened a.key a.windowSecs now).2 < a.max) <;> simp
      rw [Served.next, List.countP_append, List.countP_singleton, ← max, ← windowSecs, ← hnew]
      simpa using hset
    · rcases List.mem_append.mp he with hold | hnew
      · exact htimes e hold
      · have htime : e.hit.time = now := by rw [List.mem_singleton.mp hnew]
        exact Nat.le_of_eq htime

end sides

section runs

variable {toLowercase : String → String} {throttles : IntakeThrottles} {side : Side} {db : Db}
  {w : Traffic} {moves : List Move}

/-- The side is an arm of the throttle. -/
structure Side.Of (toLowercase : String → String) (throttles : IntakeThrottles) (side : Side) :
    Prop where
  fresh : ∀ r, side.charge (.new r) = none
  charged : ∀ c, Charged c → c.registered = true →
    (side.charge c).isSome = true ∧ c.ran.isSome = true
  turned : ∀ now c s, s.throttles = throttles →
    side.Turned now c (c.turn toLowercase now s).1 s.windows (c.turn toLowercase now s).2.windows

theorem identitySide_of : (identitySide toLowercase throttles).Of toLowercase throttles where
  fresh _ := rfl
  charged _ h hregistered := ⟨(h hregistered).1, (h hregistered).2.2⟩
  turned now c s hthrottles := hthrottles ▸ identity_turned now c s

theorem addressSide_of : (addressSide throttles).Of toLowercase throttles where
  fresh _ := rfl
  charged _ h hregistered := (h hregistered).2
  turned now c s hthrottles := hthrottles ▸ address_turned now c s

/-- A call knows what has become of it. -/
structure Sane (throttles : IntakeThrottles) (c : Intake) : Prop where
  charged : Charged c
  retryAfter : ∀ n, c.answer = some (.error (.eventThrottled n)) → n = throttles.retryAfterSecs

/-- What holds throughout a run whose turns have been at the times. -/
structure Inv (throttles : IntakeThrottles) (side : Side) (w : Traffic) (times : List ℕ) : Prop where
  policy : w.service.throttles = throttles
  sane : ∀ c ∈ w.calls, Sane throttles c
  metered : ∃ sv, Metered side w sv ∧ ∀ e ∈ sv.log, ∃ t ∈ times, e.hit.time ≤ t

theorem sane_turn {now : ℕ} {c : Intake} {s : IntakeService} (h : Sane s.throttles c) :
    Sane s.throttles (c.turn toLowercase now s).1 := by
  refine ⟨charged_turn h.charged, ?_⟩
  generalize hturn : c.turn toLowercase now s = turn
  have hcases := turn_cases toLowercase now c s
  rw [hturn] at hcases
  have hrefused : ∀ charge n, refusedBy s.throttles charge = some (.error (.eventThrottled n)) →
      n = s.throttles.retryAfterSecs := by
    intro charge n hn
    rw [refusedBy] at hn
    split at hn
    · cases hn
    · injection hn with hn
      injection hn with hn
      injection hn with hn
      exact hn.symm
  cases hcases with
  | rests => exact h.retryAfter
  | identity | address => exact hrefused _
  | registers =>
    intro n hn
    have herror := Option.some.inj hn
    cases hrun : (register c.request.env (c.request.payload.command c.request.eventId)).run s.db with
    | ok r =>
      rw [execute_ok hrun] at herror
      cases herror
    | error e =>
      rw [execute_error hrun] at herror
      exact absurd (Except.error.inj herror) ((register_refuses _).error hrun n)

theorem next_throttles (m : Move) :
    (w.next toLowercase m).service.throttles = w.service.throttles := by
  cases m with
  | intake r => rfl
  | verb c => rfl
  | turn k now =>
    simp only [Traffic.next]
    split
    · exact turn_throttles
    · rfl

theorem run_throttles (moves : List Move) :
    (w.run toLowercase moves).service.throttles = w.service.throttles := by
  induction moves generalizing w with
  | nil => rfl
  | cons m moves ih => exact ih.trans (next_throttles m)

theorem Inv.next {times : List ℕ} (hside : side.Of toLowercase throttles)
    (hwindow : 1 ≤ side.windowSecs) (h : Inv throttles side w times) (m : Move)
    (htimes : ∀ now, m.time = some now → ∀ t ∈ times, t ≤ now) :
    Inv throttles side (w.next toLowercase m) (times ++ m.time.toList) := by
  obtain ⟨sv, hmetered, hlog⟩ := h.metered
  cases m with
  | intake r =>
    have hnew : ∀ key q, side.charged key q (.new r) = false := fun key q => by
      rw [Side.charged, hside.fresh, Option.any_none, Bool.and_false]
    refine ⟨h.policy, fun c hc => ?_, sv, ⟨hmetered.counted, hmetered.windows, fun key q => ?_⟩, ?_⟩
    · rcases List.mem_append.mp hc with hold | hfresh
      · exact h.sane c hold
      · rw [List.mem_singleton.mp hfresh]
        exact ⟨(by intro hregistered; cases hregistered), (by intro n hn; cases hn)⟩
    · rw [← hmetered.calls, Traffic.next, List.countP_append, List.countP_singleton, hnew]
      simp
    · simpa [Move.time] using hlog
  | verb c =>
    refine ⟨h.policy, h.sane, sv, ⟨hmetered.counted, hmetered.windows, hmetered.calls⟩, ?_⟩
    simpa [Move.time] using hlog
  | turn k now =>
    have hbefore : ∀ e ∈ sv.log, e.hit.time ≤ now := by
      intro e he
      obtain ⟨t, ht, hle⟩ := hlog e he
      exact Nat.le_trans hle (htimes now rfl t ht)
    simp only [Traffic.next]
    split
    · next c hc =>
      have hsane := h.sane c (List.mem_of_getElem? hc)
      obtain ⟨sv', hmetered', htimes'⟩ := hmetered.turn hwindow hbefore hc turn_request
        (hside.turned now c w.service h.policy)
      refine ⟨turn_throttles.trans h.policy, fun d hd => ?_, sv', hmetered', fun e he => ?_⟩
      · rcases List.mem_or_eq_of_mem_set hd with hold | rfl
        · exact h.sane d hold
        · rw [← h.policy] at hsane ⊢
          exact sane_turn hsane
      · exact ⟨now, by simp [Move.time], htimes' e he⟩
    · refine ⟨h.policy, h.sane, sv, hmetered, fun e he => ?_⟩
      exact ⟨now, by simp [Move.time], hbefore e he⟩

theorem inv_run (hside : side.Of toLowercase throttles) (hwindow : 1 ≤ side.windowSecs)
    (htimely : Timely moves) :
    Inv throttles side ((opening throttles db).run toLowercase moves) (moves.filterMap Move.time) := by
  induction moves using List.reverseRecOn with
  | nil =>
    exact ⟨rfl, (by intro c hc; cases hc), ⟨.new, []⟩, ⟨counted_new, fun _ => rfl, fun _ _ => rfl⟩,
      (by intro e he; cases he)⟩
  | append_singleton moves m ih =>
    rw [Timely, List.filterMap_append, List.pairwise_append] at htimely
    rw [Traffic.run, List.foldl_append, List.filterMap_append]
    have hlast : [m].filterMap Move.time = m.time.toList := by
      cases hm : m.time <;> simp [hm]
    rw [hlast] at htimely ⊢
    refine (ih htimely.1).next hside hwindow m fun now hnow t ht => htimely.2.2 t ht now ?_
    rw [hnow, Option.toList_some]
    exact List.mem_cons_self

theorem Inv.rates {times : List ℕ} (hside : side.Of toLowercase throttles)
    (h : Inv throttles side w times) : RatesKept side w.calls := by
  obtain ⟨sv, hmetered, -⟩ := h.metered
  have hle : ∀ key q, w.calls.countP (fun c => c.registered && side.charged key q c) ≤
      sv.log.countP (fun e => e.admits key && q ⟨e.start, e.hit.time⟩) := by
    intro key q
    rw [← hmetered.calls]
    exact List.countP_mono_left fun c _ hc => (Bool.and_eq_true_iff.mp hc).2
  have hinterval : ∀ key t k, w.calls.countP
      (fun c => c.registered && side.charged key (·.within t (t + k * side.windowSecs)) c) ≤
        (k + 1) * side.max := by
    intro key t k
    have hwindows := @Counted.intervals_le side.max side.windowSecs sv key hmetered.counted t k
    simp only [Served.admittedWithin, Entry.admitsWithin, Bool.and_assoc] at hwindows
    exact Nat.le_trans (hle key _) hwindows
  refine ⟨fun c hc => hside.charged c (h.sane c hc).charged, fun key start => ?_, hinterval,
    fun key t k j => ?_⟩
  · exact Nat.le_trans (hle key _) (hmetered.counted.bound key start)
  · -- A row stored in the stretch was charged in it, or in the time the call may linger before.
    refine Nat.le_trans (List.countP_mono_left fun c _ hc => ?_)
      (hinterval key (t - j * side.windowSecs) (k + j))
    simp only [Side.stored, Charge.within, Bool.and_eq_true, Option.any_eq_true,
      decide_eq_true_eq] at hc
    obtain ⟨⟨hregistered, hkey⟩, now, -, ⟨hfirst, hlast⟩, charge, hcharge, hafter, hbefore⟩ := hc
    simp only [Side.charged, Charge.within, hregistered, hkey, hcharge, Option.any_some,
      Bool.true_and, Bool.and_eq_true, decide_eq_true_eq]
    rw [Nat.add_mul]
    omega

/-- However calls interleave with each other and with the other verbs, each arm keeps its rates. -/
theorem rates_kept (toLowercase : String → String) (throttles : IntakeThrottles) (db : Db)
    (hidentity : 1 ≤ throttles.perIdentityWindowSecs) (haddress : 1 ≤ throttles.perIpWindowSecs)
    (moves : List Move) (htimely : Timely moves) :
    RatesKept (identitySide toLowercase throttles)
        ((opening throttles db).run toLowercase moves).calls ∧
      RatesKept (addressSide throttles) ((opening throttles db).run toLowercase moves).calls := by
  have hidentityOf : (identitySide toLowercase throttles).Of toLowercase throttles := identitySide_of
  have haddressOf : (addressSide throttles).Of toLowercase throttles := addressSide_of
  exact ⟨(inv_run hidentityOf hidentity htimely).rates hidentityOf,
    (inv_run haddressOf haddress htimely).rates haddressOf⟩

/-- What nobody hits stays as it is. -/
theorem Side.Quiet.cell {r : Request} (hside : side.Of toLowercase throttles)
    (hpolicy : w.service.throttles = throttles) (hquiet : side.Quiet toLowercase r w moves) :
    (w.run toLowercase moves).service.windows.inner (side.key r) =
      w.service.windows.inner (side.key r) := by
  induction moves generalizing w with
  | nil => rfl
  | cons m moves ih =>
    obtain ⟨hnot, hquiet⟩ := hquiet
    refine (ih ((next_throttles m).trans hpolicy) hquiet).trans ?_
    cases m with
    | intake r => rfl
    | verb c => rfl
    | turn k now =>
      simp only [Traffic.next]
      split
      · next c hc =>
        cases hside.turned now c w.service hpolicy with
        | hits a key max windowSecs fresh charged windows =>
          rw [windows]
          exact hit_of_ne (key ▸ hnot k now c rfl hc)
        | keeps charge windows => exact windows r
      · rfl

/-- A window of a side is over when its length has passed since the last turn. -/
theorem Inv.reopens {times : List ℕ} {now t : ℕ} {r : Request} {windows : FixedWindows}
    (h : Inv throttles side w times) (hnow : ∀ t ∈ times, t ≤ now)
    (hcell : windows.inner (side.key r) = w.service.windows.inner (side.key r))
    (ht : now + side.windowSecs ≤ t) : (windows.opened (side.key r) side.windowSecs t).2 = 0 := by
  obtain ⟨sv, hmetered, hlog⟩ := h.metered
  rw [opened_congr (hcell.trans (hmetered.windows r).symm), FixedWindows.opened]
  cases hstored : sv.windows.inner (side.key r) with
  | none => rfl
  | some cell =>
    obtain ⟨start, count⟩ := cell
    obtain ⟨-, ⟨first, hfirst, -, rfl⟩, -⟩ := hmetered.counted.cell _ _ _ hstored
    obtain ⟨last, hlast, hle⟩ := hlog first hfirst
    have hstart := (hmetered.counted.within first hfirst).1
    have hbefore := hnow last hlast
    have hstale : ¬ t - first.start < side.windowSecs := by omega
    simp only [if_neg hstale]

/-- A caller whose windows are both open is let through. -/
theorem not_throttled {s : IntakeService} {r : Request} {payload : IntakePayload} {t t' : ℕ}
    (hpolicy : s.throttles = throttles) (hidentity : 0 < throttles.perIdentityMax)
    (haddress : 0 < throttles.perIpMax)
    (hemail : toLowercase payload.email = toLowercase r.payload.email)
    (hopen : (s.windows.opened ((identitySide toLowercase throttles).key r)
      throttles.perIdentityWindowSecs t).2 = 0)
    (hopen' : (s.windows.opened ((addressSide throttles).key r) throttles.perIpWindowSecs t').2 = 0)
    (env : Env) (eventId : Uuid) (m : ℕ) :
    (s.intake toLowercase env t t' eventId payload r.clientIp).1 ≠ .error (.eventThrottled m) := by
  intro hthrottled
  rcases intake_law.refused_iff.mp ⟨m, hthrottled⟩ with hspent | hspent
  · rw [hpolicy, Arm.spent, IntakeThrottles.identityArm, hemail, decide_eq_true_eq] at hspent
    exact absurd (Nat.le_trans hspent (Nat.le_of_eq hopen)) (Nat.not_le.mpr hidentity)
  · rw [hpolicy, Arm.spent, decide_eq_true_eq] at hspent
    exact absurd (Nat.le_trans hspent (Nat.le_of_eq hopen')) (Nat.not_le.mpr haddress)

/-- A window without length is over at once. -/
theorem opened_zero (w : FixedWindows) (key : String) (t : ℕ) : (w.opened key 0 t).2 = 0 := by
  rw [FixedWindows.opened]
  split
  · rw [if_neg (Nat.not_lt_zero _)]
  · rfl

/-- Where both windows are of one length, a caller who was refused, and who waits for as long as
the refusal says while nobody uses its identity or its address, is not refused again. -/
theorem retryAfter_enough {throttles : IntakeThrottles}
    (hsame : throttles.perIdentityWindowSecs = throttles.perIpWindowSecs)
    (hfits : throttles.perIpWindowSecs < 2 ^ 32)
    (hidentity : 0 < throttles.perIdentityMax) (haddress : 0 < throttles.perIpMax)
    {before after : List Move} (htimely : Timely before) {now : ℕ}
    (hnow : ∀ t ∈ before.filterMap Move.time, t ≤ now) {c : Intake} {n : ℕ}
    (hc : c ∈ ((opening throttles db).run toLowercase before).calls)
    (hrefused : c.answer = some (.error (.eventThrottled n)))
    (hquiet : (identitySide toLowercase throttles).Quiet toLowercase c.request
      ((opening throttles db).run toLowercase before) after)
    (hquiet' : (addressSide throttles).Quiet toLowercase c.request
      ((opening throttles db).run toLowercase before) after)
    {payload : IntakePayload}
    (hemail : toLowercase payload.email = toLowercase c.request.payload.email) {t t' : ℕ}
    (ht : now + n ≤ t) (ht' : now + n ≤ t') (env : Env) (eventId : Uuid) (m : ℕ) :
    (((opening throttles db).run toLowercase (before ++ after)).service.intake toLowercase env t t'
      eventId payload c.request.clientIp).1 ≠ .error (.eventThrottled m) := by
  rw [Traffic.run, List.foldl_append]
  have hpolicy :
      (((opening throttles db).run toLowercase before).run toLowercase after).service.throttles =
        throttles := (run_throttles after).trans (run_throttles before)
  rcases Nat.eq_zero_or_pos throttles.perIpWindowSecs with hzero | hwindow
  · refine not_throttled hpolicy hidentity haddress hemail ?_ ?_ env eventId m
    · rw [hsame, hzero]
      exact opened_zero _ _ _
    · rw [hzero]
      exact opened_zero _ _ _
  · have hwindow' : 1 ≤ throttles.perIdentityWindowSecs := hsame ▸ hwindow
    have hinv := @inv_run toLowercase throttles _ db before identitySide_of hwindow' htimely
    have hinv' := @inv_run toLowercase throttles _ db before addressSide_of hwindow htimely
    have hn : n = throttles.perIpWindowSecs := by
      rw [(hinv.sane c hc).retryAfter n hrefused, IntakeThrottles.retryAfterSecs, hsame, Nat.min_self,
        Nat.max_eq_left hwindow, Nat.mod_eq_of_lt hfits]
    subst hn
    have hcell := hquiet.cell identitySide_of hinv.policy
    have hcell' := hquiet'.cell addressSide_of hinv.policy
    have hidentityOver : now + throttles.perIdentityWindowSecs ≤ t := hsame ▸ ht
    exact not_throttled hpolicy hidentity haddress hemail (hinv.reopens hnow hcell hidentityOver)
      (hinv'.reopens hnow hcell' ht') env eventId m

/-- Uninterrupted, a call is the function. -/
theorem alone_eq (now later : ℕ) (r : Request) (s : IntakeService) :
    (((Intake.new r).alone toLowercase now later s).1.answer,
        ((Intake.new r).alone toLowercase now later s).2) =
      (some (s.intake toLowercase r.env now later r.eventId r.payload r.clientIp).1,
        (s.intake toLowercase r.env now later r.eventId r.payload r.clientIp).2) := by
  rw [Intake.alone, IntakeService.intake, throttled]
  cases hfirst : (s.throttles.identityArm toLowercase r.payload.email).allow now s.windows with
  | mk ok windows =>
    cases ok with
    | false => simp [Intake.turn, Intake.new, hit, identityArm, refusedBy, hfirst]
    | true =>
      cases hsecond : (s.throttles.ipArm r.clientIp).allow later windows with
      | mk ok windows' =>
        cases ok <;>
          simp [Intake.turn, Intake.new, hit, identityArm, addressArm, refusedBy, hfirst, hsecond]

end runs

section samples

def request (email clientIp : String) : Request :=
  ⟨Env.counting 5, 1, ⟨"Ann", email, none, none, none, none, []⟩, clientIp⟩

/-- One registration a minute for each identity. -/
def strict : IntakeThrottles := ⟨1, 60, 30, 60⟩

def fromAnn (k : ℕ) : Request := { request "ann@x" "10.0.0.1" with env := .counting k }

/-- Three calls of one identity, admitted minute by minute, whose transactions run at once. -/
def lingering : List Move :=
  [.intake (fromAnn 1), .intake (fromAnn 2), .intake (fromAnn 3), .turn 0 0, .turn 0 0, .turn 1 60,
    .turn 1 60, .turn 2 120, .turn 2 120, .turn 0 120, .turn 1 120, .turn 2 120]

theorem rates_kept_lingering :
    ((opening strict openGig).run id lingering).calls.countP
      ((identitySide id strict).stored "identity:ann@x" 120 120 120) = 3 ∧
    RatesKept (identitySide id strict) ((opening strict openGig).run id lingering).calls ∧
    RatesKept (addressSide strict) ((opening strict openGig).run id lingering).calls :=
  ⟨by decide, rates_kept id strict openGig (by decide) (by decide) lingering (by decide)⟩

/-- Two calls of one identity and one of another, of which the second comes too early. -/
def early : List Move :=
  [.intake (request "ann@x" "10.0.0.1"), .intake (request "ann@x" "10.0.0.1"),
    .intake (request "bob@x" "10.0.0.2"), .turn 0 0, .turn 1 10]

/-- After a minute without another call of its identity the second caller is let through. -/
theorem retryAfter_enough_early :
    (((opening strict oneSeat).run id (early ++ [.turn 2 20])).service.intake id (Env.counting 5) 70 70
      1 (request "ann@x" "10.0.0.1").payload "10.0.0.1").1 ≠ .error (.eventThrottled 60) := by
  have hquiet : ∀ {side : Side}, side.key (request "ann@x" "10.0.0.1") ≠
      side.key (request "bob@x" "10.0.0.2") → side.Quiet id (request "ann@x" "10.0.0.1")
        ((opening strict oneSeat).run id early) [.turn 2 20] := by
    intro side hne
    refine ⟨?_, trivial⟩
    rintro k now c ⟨⟩ hc
    obtain rfl := Option.some.inj hc
    exact hne
  exact @retryAfter_enough id oneSeat strict rfl (by decide) (by decide) (by decide) early
    [.turn 2 20] (by decide) 10 (by decide) _ 60 (List.mem_of_getElem? (i := 1) rfl) rfl
    (hquiet (by decide)) (hquiet (by decide)) (request "ann@x" "10.0.0.1").payload rfl 70 70 (by decide)
    (by decide) (Env.counting 5) 1 60

end samples

end BackboneEvents.IntakeRates
