import BackboneEvents.PublicRoutes

/-!
# The rates of the two capability routes

Requests to the public tree, in the order of their times, over one store. The feed's two arms
bound what reaches its token verification in each of their windows; the ticket report has no arm,
and its windows are told here by the rule the throttle measures them with.
-/
namespace BackboneEvents.RouteRates
open FixedWindows

inductive Route where
  | ics | myTickets
  deriving DecidableEq, Repr

/-- One handled request: the windows of its token and its address, and whether it got to the
verification of its token. -/
structure Visit where
  route : Route
  capability : String
  address : String
  tokenStart : ℕ
  addressStart : ℕ
  verified : Bool

/-- The store, the requests of the ticket report by token and by address, and the log. -/
structure Traffic where
  windows : FixedWindows
  tokens : Served
  addresses : Served
  log : List Visit

def quiet : Traffic := ⟨.new, ⟨.new, []⟩, ⟨.new, []⟩, []⟩

section traffic

variable (H : PublicHost) {X : Http} (trustedProxy : Bool)

def tokenHit (r : PublicRequest X) : Hit := ⟨r.capability, r.now⟩

def addressHit (r : PublicRequest X) : Hit := ⟨r.address trustedProxy, r.later⟩

def measure (s : Served) (h : Hit) : Served := s.next icsThrottle.1 icsThrottle.2 h

def window (w : FixedWindows) (h : Hit) : ℕ := (w.opened h.key icsThrottle.2 h.time).1

def Traffic.next (s : Traffic) : Route × PublicRequest X → Traffic
  | (.ics, r) => { s with
      windows := (icsGate H trustedProxy r s.windows).2
      log := s.log ++ [{
        route := .ics
        capability := r.capability
        address := r.address trustedProxy
        tokenStart := window s.windows ⟨(icsTokenArm r.capability).key, r.now⟩
        addressStart := window s.windows ⟨(icsIpArm (r.address trustedProxy)).key, r.later⟩
        verified := (icsGate H trustedProxy r s.windows).1.isNone }] }
  | (.myTickets, r) => { s with
      tokens := measure s.tokens (tokenHit r)
      addresses := measure s.addresses (addressHit trustedProxy r)
      log := s.log ++ [{
        route := .myTickets
        capability := r.capability
        address := r.address trustedProxy
        tokenStart := window s.tokens.windows (tokenHit r)
        addressStart := window s.addresses.windows (addressHit trustedProxy r)
        verified := (myTicketsGate H).isNone }] }

def visit (requests : List (Route × PublicRequest X)) : Traffic :=
  requests.foldl (Traffic.next H trustedProxy) quiet

end traffic

def Visit.ofAddress (route : Route) (address : String) (start : ℕ) (v : Visit) : Bool :=
  v.verified && v.route == route && v.address == address && v.addressStart == start

def Visit.ofToken (route : Route) (capability : String) (start : ℕ) (v : Visit) : Bool :=
  v.verified && v.route == route && v.capability == capability && v.tokenStart == start

/-- On each route, no address and no token gets more requests to the verification in one window
than the maximum. -/
def RateBounded (log : List Visit) : Prop :=
  ∀ route start, (∀ address, log.countP (·.ofAddress route address start) ≤ icsThrottle.1) ∧
    ∀ capability, log.countP (·.ofToken route capability start) ≤ icsThrottle.1

/-- The hits of a list fall in windows of no more than the maximum. -/
def Sparse (hits : List Hit) : Prop :=
  ∀ key start, (serve icsThrottle.1 icsThrottle.2 hits).log.countP
    (fun e => e.hit.key == key && e.start == start) ≤ icsThrottle.1

/-- The requests of the ticket report. -/
def ticketRequests {X : Http} (requests : List (Route × PublicRequest X)) : List (PublicRequest X) :=
  (requests.filter (·.1 == .myTickets)).map (·.2)

/-- No token and no address asks for more ticket reports in one window than the maximum. -/
def SparseReports {X : Http} (trustedProxy : Bool) (requests : List (Route × PublicRequest X)) :
    Prop :=
  Sparse ((ticketRequests requests).map tokenHit) ∧
    Sparse ((ticketRequests requests).map (addressHit trustedProxy))

/-- Each request reads the clock for its token and then for its address, after the ones before. -/
structure Timely {X : Http} (requests : List (Route × PublicRequest X)) : Prop where
  within : ∀ r ∈ requests, r.2.now ≤ r.2.later
  between : requests.Pairwise (fun r r' => r.2.later ≤ r'.2.now)

section invariant

variable {H : PublicHost} {X : Http} {trustedProxy : Bool}
  {requests : List (Route × PublicRequest X)} {s : Traffic}

theorem visit_concat (r : Route × PublicRequest X) :
    visit H trustedProxy (requests ++ [r]) = (visit H trustedProxy requests).next H trustedProxy r := by
  simp [visit]

theorem Timely.init {r : Route × PublicRequest X} (h : Timely (requests ++ [r])) :
    Timely requests ∧ r.2.now ≤ r.2.later ∧ ∀ r' ∈ requests, r'.2.later ≤ r.2.now := by
  obtain ⟨hbefore, -, hlast⟩ := List.pairwise_append.mp h.between
  exact ⟨⟨fun r' hr' => h.within r' (List.mem_append_left _ hr'), hbefore⟩,
    h.within r (List.mem_append_right _ List.mem_cons_self),
    fun r' hr' => hlast r' hr' r List.mem_cons_self⟩

theorem countP_concat {p : Visit → Bool} {log : List Visit} (v : Visit) :
    (log ++ [v]).countP p = log.countP p + if p v then 1 else 0 := by
  simp only [List.countP_append, List.countP_singleton]

/-- What the report's requests are counted by. -/
structure Measured (trustedProxy : Bool) (requests : List (Route × PublicRequest X))
    (s : Traffic) : Prop where
  tokens : s.tokens = serve icsThrottle.1 icsThrottle.2 ((ticketRequests requests).map tokenHit)
  addresses : s.addresses =
    serve icsThrottle.1 icsThrottle.2 ((ticketRequests requests).map (addressHit trustedProxy))
  perAddress : ∀ address start, s.log.countP (·.ofAddress .myTickets address start) =
    s.addresses.log.countP (fun e => e.hit.key == address && e.start == start)
  perToken : ∀ capability start, s.log.countP (·.ofToken .myTickets capability start) =
    s.tokens.log.countP (fun e => e.hit.key == capability && e.start == start)

theorem ticketRequests_concat (r : Route × PublicRequest X) : ticketRequests (requests ++ [r]) =
    ticketRequests requests ++ if r.1 = .myTickets then [r.2] else [] := by
  obtain ⟨route, r⟩ := r
  cases route <;> simp [ticketRequests]

theorem Measured.next (h : Measured trustedProxy requests s) (hsecret : H.secret ≠ "")
    (r : Route × PublicRequest X) :
    Measured trustedProxy (requests ++ [r]) (s.next H trustedProxy r) := by
  obtain ⟨route, r⟩ := r
  cases route with
  | ics =>
    refine ⟨?_, ?_, fun address start => ?_, fun capability start => ?_⟩
    · simpa [ticketRequests_concat, Traffic.next] using h.tokens
    · simpa [ticketRequests_concat, Traffic.next] using h.addresses
    · simpa [Traffic.next, countP_concat, Visit.ofAddress] using h.perAddress address start
    · simpa [Traffic.next, countP_concat, Visit.ofToken] using h.perToken capability start
  | myTickets =>
    have hgate : myTicketsGate H = none := if_neg hsecret
    refine ⟨?_, ?_, fun address start => ?_, fun capability start => ?_⟩
    · simp [ticketRequests_concat, Traffic.next, serve_concat, h.tokens, measure]
    · simp [ticketRequests_concat, Traffic.next, serve_concat, h.addresses, measure]
    · simp only [Traffic.next, h.perAddress, measure, Served.next, hgate,
        List.countP_append, List.countP_singleton]
      rfl
    · simp only [Traffic.next, h.perToken, measure, Served.next, hgate,
        List.countP_append, List.countP_singleton]
      rfl

theorem measured_visit (trustedProxy : Bool) (requests : List (Route × PublicRequest X))
    (hsecret : H.secret ≠ "") :
    Measured trustedProxy requests (visit H trustedProxy requests) := by
  induction requests using List.reverseRecOn with
  | nil => exact ⟨rfl, rfl, fun _ _ => rfl, fun _ _ => rfl⟩
  | append_singleton requests r ih =>
    rw [visit_concat]
    exact ih.next hsecret r

/-- The feed's verified requests are among the admitted hits of its arms. -/
structure Admitted (s : Traffic) (sv : Served) : Prop where
  counted : Counted icsThrottle.1 icsThrottle.2 sv
  windows : sv.windows = s.windows
  perAddress : ∀ address start, s.log.countP (·.ofAddress .ics address start) ≤
    sv.admitted (icsIpArm address).key start
  perToken : ∀ capability start, s.log.countP (·.ofToken .ics capability start) ≤
    sv.admitted (icsTokenArm capability).key start

/-- A visit that is verified only where both its arms gain an admitted hit. -/
theorem Admitted.visited {sv sv' : Served} {v : Visit} {windows : FixedWindows}
    (h : Admitted s sv) (counted : Counted icsThrottle.1 icsThrottle.2 sv')
    (hwindows : sv'.windows = windows)
    (hup : ∀ key start, sv.admitted key start ≤ sv'.admitted key start)
    (hgain : v.verified = true →
      sv.admitted (icsIpArm v.address).key v.addressStart <
        sv'.admitted (icsIpArm v.address).key v.addressStart ∧
      sv.admitted (icsTokenArm v.capability).key v.tokenStart <
        sv'.admitted (icsTokenArm v.capability).key v.tokenStart) :
    Admitted { s with windows := windows, log := s.log ++ [v] } sv' where
  counted := counted
  windows := hwindows
  perAddress address start := by
    have hbefore := h.perAddress address start
    have hmore := hup (icsIpArm address).key start
    rw [countP_concat]
    split
    · next hv =>
      simp only [Visit.ofAddress, Bool.and_eq_true, beq_iff_eq] at hv
      obtain ⟨⟨⟨hverified, -⟩, rfl⟩, rfl⟩ := hv
      have hone := (hgain hverified).1
      omega
    · omega
  perToken capability start := by
    have hbefore := h.perToken capability start
    have hmore := hup (icsTokenArm capability).key start
    rw [countP_concat]
    split
    · next hv =>
      simp only [Visit.ofToken, Bool.and_eq_true, beq_iff_eq] at hv
      obtain ⟨⟨⟨hverified, -⟩, rfl⟩, rfl⟩ := hv
      have hone := (hgain hverified).2
      omega
    · omega

/-- An arm with the feed's budget. -/
def Ics (a : Arm) : Prop := a.max = icsThrottle.1 ∧ a.windowSecs = icsThrottle.2

theorem measure_arm {a : Arm} (ha : Ics a) (sv : Served) (now : ℕ) :
    measure sv ⟨a.key, now⟩ = ⟨(a.allow now sv.windows).2, sv.log ++
      [⟨⟨a.key, now⟩, window sv.windows ⟨a.key, now⟩, (a.allow now sv.windows).1⟩]⟩ := by
  obtain ⟨hmax, hwindow⟩ := ha
  rw [measure, Served.next, window, ← hmax, ← hwindow]
  rfl

theorem admitted_measure {a : Arm} (ha : Ics a) (sv : Served) (now : ℕ) (key : String)
    (start : ℕ) : (measure sv ⟨a.key, now⟩).admitted key start = sv.admitted key start +
      if a.key = key ∧ (a.allow now sv.windows).1 = true ∧ window sv.windows ⟨a.key, now⟩ = start
        then 1 else 0 := by
  rw [measure_arm ha, admitted_concat]
  simp [Entry.admits, and_assoc]

theorem measure_times {sv : Served} {a : Arm} {now later : ℕ} (hlater : now ≤ later)
    (h : ∀ e ∈ sv.log, e.hit.time ≤ now) :
    ∀ e ∈ (measure sv ⟨a.key, now⟩).log, e.hit.time ≤ later := by
  intro e he
  rw [measure, Served.next] at he
  rcases List.mem_append.mp he with hold | hnew
  · exact (h e hold).trans hlater
  · rw [List.mem_singleton.mp hnew]
    exact hlater

/-- A request of the feed hits its token's arm, and its address's where that lets it through. -/
theorem Admitted.next_ics {sv : Served} (h : Admitted s sv) (hsecret : H.secret ≠ "")
    {r : PublicRequest X} (hnow : ∀ e ∈ sv.log, e.hit.time ≤ r.now) (hlater : r.now ≤ r.later) :
    ∃ sv', Admitted (s.next H trustedProxy (.ics, r)) sv' ∧
      ∀ e ∈ sv'.log, e.hit.time ≤ r.later := by
  generalize hfirst : icsTokenArm r.capability = first
  generalize hsecond : icsIpArm (r.address trustedProxy) = second
  have htoken : Ics first := hfirst ▸ ⟨rfl, rfl⟩
  have hip : Ics second := hsecond ▸ ⟨rfl, rfl⟩
  have hne : second.key ≠ first.key := hfirst ▸ hsecond ▸ icsIpArm_ne_icsTokenArm _ _
  have hcounted : Counted icsThrottle.1 icsThrottle.2 (measure sv ⟨first.key, r.now⟩) :=
    h.counted.next (by decide) hnow
  have htimes := measure_times (a := first) hlater hnow
  have hcounted' : Counted icsThrottle.1 icsThrottle.2
      (measure (measure sv ⟨first.key, r.now⟩) ⟨second.key, r.later⟩) :=
    hcounted.next (by decide) htimes
  have htimes' := measure_times (a := second) le_rfl htimes
  rcases throttled_cases r.now r.later s.windows hne with
    ⟨hspent, heq⟩ | ⟨hroom, hspent, heq⟩ | ⟨hroom, hroom', heq⟩
  · have hgate : icsGate H trustedProxy r s.windows =
        (some (.eventThrottled icsThrottle.2), first.refuse r.now s.windows) := by
      simp only [icsGate, if_neg hsecret, hfirst, hsecond, heq]
    refine ⟨measure sv ⟨first.key, r.now⟩, h.visited hcounted ?_ ?_ ?_, htimes⟩
    · rw [hgate, measure_arm htoken, h.windows, allow_spent hspent]
    · intro key start
      rw [admitted_measure htoken]
      omega
    · simp [hgate]
  · have hgate : icsGate H trustedProxy r s.windows =
        (some (.eventThrottled icsThrottle.2),
          second.refuse r.later (first.charge r.now s.windows)) := by
      simp only [icsGate, if_neg hsecret, hfirst, hsecond, heq]
    refine ⟨_, h.visited hcounted' ?_ ?_ ?_, htimes'⟩
    · rw [hgate, measure_arm hip, measure_arm htoken, h.windows, allow_charge hroom,
        allow_spent ((spent_charge hne).trans hspent)]
    · intro key start
      rw [admitted_measure hip, admitted_measure htoken]
      omega
    · simp [hgate]
  · have hgate : icsGate H trustedProxy r s.windows =
        (none, second.charge r.later (first.charge r.now s.windows)) := by
      simp only [icsGate, if_neg hsecret, hfirst, hsecond, heq]
    have hwindows : (measure sv ⟨first.key, r.now⟩).windows = first.charge r.now s.windows := by
      rw [measure_arm htoken, h.windows, allow_charge hroom]
    refine ⟨_, h.visited hcounted' ?_ ?_ ?_, htimes'⟩
    · rw [hgate, measure_arm hip, hwindows, allow_charge ((spent_charge hne).trans hroom')]
    · intro key start
      rw [admitted_measure hip, admitted_measure htoken]
      omega
    · intro _
      simp only [hfirst, hsecond, admitted_measure hip, admitted_measure htoken, hwindows, h.windows,
        allow_charge hroom, allow_charge ((spent_charge hne).trans hroom')]
      have hstart : window (first.charge r.now s.windows) ⟨second.key, r.later⟩ =
          window s.windows ⟨second.key, r.later⟩ := by
        rw [window, opened_congr (charge_of_ne hne), window]
      simp only [hstart, true_and, if_true]
      omega

theorem admitted_visit (trustedProxy : Bool) (hsecret : H.secret ≠ "") (htimely : Timely requests) :
    ∃ sv, Admitted (visit H trustedProxy requests) sv ∧
      ∀ e ∈ sv.log, ∃ r ∈ requests, e.hit.time ≤ r.2.later := by
  induction requests using List.reverseRecOn with
  | nil => exact ⟨⟨.new, []⟩, ⟨counted_new, rfl, fun _ _ => Nat.zero_le _, fun _ _ => Nat.zero_le _⟩,
      fun e he => by cases he⟩
  | append_singleton requests r ih =>
    obtain ⟨hbefore, hwithin, hlast⟩ := htimely.init
    obtain ⟨sv, hadmitted, htimes⟩ := ih hbefore
    rw [visit_concat]
    obtain ⟨route, r⟩ := r
    cases route with
    | ics =>
      obtain ⟨sv', hadmitted', htimes'⟩ := hadmitted.next_ics (r := r) hsecret (fun e he => by
        obtain ⟨r', hr', hle⟩ := htimes e he
        exact hle.trans (hlast r' hr')) hwithin
      exact ⟨sv', hadmitted', fun e he =>
        ⟨_, List.mem_append_right _ List.mem_cons_self, htimes' e he⟩⟩
    | myTickets =>
      refine ⟨sv, ⟨hadmitted.counted, hadmitted.windows, fun address start => ?_,
        fun capability start => ?_⟩, fun e he => ?_⟩
      · simpa [Traffic.next, countP_concat, Visit.ofAddress] using hadmitted.perAddress address start
      · simpa [Traffic.next, countP_concat, Visit.ofToken] using hadmitted.perToken capability start
      · obtain ⟨r', hr', hle⟩ := htimes e he
        exact ⟨r', List.mem_append_left _ hr', hle⟩

/-- As many hits as the maximum are sparse, whenever they come. -/
theorem sparse_of_length_le {hits : List Hit} (h : hits.length ≤ icsThrottle.1) : Sparse hits := by
  intro key start
  refine List.countP_le_length.trans ?_
  have hlength := congrArg List.length (@hits_of_log icsThrottle.1 icsThrottle.2 hits)
  rw [List.length_map] at hlength
  omega

/-- Without a secret nothing reaches a verification. -/
theorem visit_unset (trustedProxy : Bool) (requests : List (Route × PublicRequest X))
    (hsecret : H.secret = "") :
    ∀ v ∈ (visit H trustedProxy requests).log, v.verified = false := by
  induction requests using List.reverseRecOn with
  | nil => simp [visit, quiet]
  | append_singleton requests r ih =>
    intro v hv
    rw [visit_concat] at hv
    obtain ⟨route, r⟩ := r
    cases route <;> rcases List.mem_append.mp hv with hold | hnew
    · exact ih v hold
    · rw [List.mem_singleton.mp hnew, icsGate, if_pos hsecret]
      rfl
    · exact ih v hold
    · rw [List.mem_singleton.mp hnew, myTicketsGate, if_pos hsecret]
      rfl

/-- The rates are bounded exactly when the secret is not set or the requests for ticket reports
are sparse of themselves. -/
theorem rateBounded_iff (H : PublicHost) (X : Http) (trustedProxy : Bool)
    (requests : List (Route × PublicRequest X)) (htimely : Timely requests) :
    RateBounded (visit H trustedProxy requests).log ↔
      H.secret = "" ∨ SparseReports trustedProxy requests := by
  by_cases hsecret : H.secret = ""
  · refine iff_of_true (fun route start => ?_) (.inl hsecret)
    have hnone := visit_unset trustedProxy requests hsecret
    constructor
    · intro address
      rw [List.countP_eq_zero.mpr fun v hv => by simp [Visit.ofAddress, hnone v hv]]
      exact Nat.zero_le _
    · intro capability
      rw [List.countP_eq_zero.mpr fun v hv => by simp [Visit.ofToken, hnone v hv]]
      exact Nat.zero_le _
  · have hmeasured := measured_visit trustedProxy requests hsecret
    rw [or_iff_right hsecret, SparseReports, Sparse, Sparse, ← hmeasured.tokens,
      ← hmeasured.addresses]
    constructor
    · intro h
      refine ⟨fun key start => ?_, fun key start => ?_⟩
      · rw [← hmeasured.perToken]
        exact (h .myTickets start).2 key
      · rw [← hmeasured.perAddress]
        exact (h .myTickets start).1 key
    · rintro ⟨htokens, haddresses⟩ route start
      cases route with
      | ics =>
        obtain ⟨sv, hadmitted, -⟩ :=
          admitted_visit trustedProxy hsecret htimely
        exact ⟨fun address => (hadmitted.perAddress address start).trans (hadmitted.counted.bound _ _),
          fun capability => (hadmitted.perToken capability start).trans (hadmitted.counted.bound _ _)⟩
      | myTickets =>
        refine ⟨fun address => ?_, fun capability => ?_⟩
        · rw [hmeasured.perAddress]
          exact haddresses address start
        · rw [hmeasured.perToken]
          exact htokens capability start

end invariant

section samples

/-- Headers as the lines of one name, of visible text. -/
def lineHeaders : Http where
  HeaderMap := List (List UInt8)
  get headers _ := headers.head?
  getAll headers _ := headers
  toStr line := if line.all (fun b => b == 9 || (32 ≤ b && b < 127)) then
    some (String.ofList (line.map fun b => Char.ofNat b.toNat)) else none

/-- One token from one address, at one instant. -/
def guess : PublicRequest lineHeaders := ⟨"v1.e30.AA", [], some "9.9.9.9", 0, 0⟩

/-- One request more than the maximum for the feed, and one for the ticket report. -/
def guesses : List (Route × PublicRequest lineHeaders) :=
  List.replicate 31 (.ics, guess) ++ [(.myTickets, guess)]

theorem guesses_timely : Timely guesses where
  within r hr := by
    have hrequest : r.2 = guess := by
      rcases List.mem_append.mp hr with hfeed | hreport
      · rw [List.eq_of_mem_replicate hfeed]
      · rw [List.mem_singleton.mp hreport]
    rw [hrequest, guess]
  between := by simp [guesses, guess]

/-- The last request for the feed is turned away. -/
theorem rateBounded_guesses :
    RateBounded (visit gigHost false guesses).log ∧
      (visit gigHost false guesses).log.countP (fun v => !v.verified) = 1 :=
  ⟨(rateBounded_iff gigHost lineHeaders false guesses guesses_timely).mpr
    (.inr ⟨sparse_of_length_le (by decide), sparse_of_length_le (by decide)⟩), by decide⟩

/-- One address gets past the maximum at once: the ticket report has no throttle. -/
theorem ticketReports_unbounded :
    ¬ RateBounded (visit gigHost false (List.replicate 31 (.myTickets, guess))).log := fun h =>
  absurd ((h .myTickets 0).1 "9.9.9.9") (by decide)

end samples

end BackboneEvents.RouteRates
