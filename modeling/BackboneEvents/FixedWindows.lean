import Mathlib.Data.List.Basic
import Mathlib.Data.List.Induction
import Mathlib.Logic.Function.Basic

/-!
# The fixed-window throttle

A key's window opens at its first hit and is reset in place once it is stale. Over hits in the
order of their times, a log of the decisions tells what the throttle lets through.
-/
namespace BackboneEvents

/-- For each key the start of its window and the hits admitted in it. -/
structure FixedWindows where
  inner : String → Option (ℕ × ℕ)

structure Hit where
  key : String
  time : ℕ
  deriving DecidableEq, Repr

namespace FixedWindows

def new : FixedWindows := ⟨fun _ => none⟩

/-- The window a hit falls in: a stale one is reset, a key without one opens one. -/
def opened (w : FixedWindows) (key : String) (windowSecs now : ℕ) : ℕ × ℕ :=
  match w.inner key with
  | some (start, count) => if now - start < windowSecs then (start, count) else (now, 0)
  | none => (now, 0)

def store (w : FixedWindows) (key : String) (cell : ℕ × ℕ) : FixedWindows :=
  ⟨Function.update w.inner key (some cell)⟩

def allow (w : FixedWindows) (key : String) (max windowSecs now : ℕ) : Bool × FixedWindows :=
  let (start, count) := w.opened key windowSecs now
  if max ≤ count then (false, w.store key (start, count))
  else (true, w.store key (start, count + 1))

/-- A decision: the hit, the start of the window it fell in, and whether it was admitted. -/
structure Entry where
  hit : Hit
  start : ℕ
  ok : Bool
  deriving DecidableEq, Repr

def Entry.admits (e : Entry) (key : String) : Bool := e.hit.key == key && e.ok

structure Served where
  windows : FixedWindows
  log : List Entry

def Served.next (max windowSecs : ℕ) (s : Served) (h : Hit) : Served :=
  let answer := s.windows.allow h.key max windowSecs h.time
  ⟨answer.2, s.log ++ [⟨h, (s.windows.opened h.key windowSecs h.time).1, answer.1⟩]⟩

/-- The hits one after the other, from an empty store. -/
def serve (max windowSecs : ℕ) (hits : List Hit) : Served :=
  hits.foldl (Served.next max windowSecs) ⟨new, []⟩

/-- The admitted hits of the key in its window with the start. -/
def Served.admitted (s : Served) (key : String) (start : ℕ) : ℕ :=
  s.log.countP (fun e => e.admits key && e.start == start)

def Entry.admitsWithin (e : Entry) (key : String) (first last : ℕ) : Bool :=
  e.admits key && decide (first ≤ e.hit.time) && decide (e.hit.time ≤ last)

/-- The admitted hits of the key from one second to another, both included. -/
def Served.admittedWithin (s : Served) (key : String) (first last : ℕ) : ℕ :=
  s.log.countP (·.admitsWithin key first last)

/-- The law of the throttle over a list of hits. -/
structure WindowLaw (max windowSecs : ℕ) (hits : List Hit) : Prop where
  within : ∀ e ∈ (serve max windowSecs hits).log,
    e.start ≤ e.hit.time ∧ e.hit.time < e.start + windowSecs
  perWindow : ∀ key start, (serve max windowSecs hits).admitted key start ≤ max
  perInterval : ∀ key t,
    (serve max windowSecs hits).admittedWithin key t (t + windowSecs) ≤ 2 * max
  refused : ∀ before h after, hits = before ++ h :: after →
    ((serve max windowSecs before).windows.allow h.key max windowSecs h.time).1 = false →
    max ≤ (serve max windowSecs before).log.countP
      (fun e => e.admits h.key && decide (h.time < e.hit.time + windowSecs))
  alone : ∀ key, (serve max windowSecs hits).log.filter (·.hit.key == key) =
    (serve max windowSecs (hits.filter (·.key == key))).log

section step

variable {max windowSecs : ℕ} {w : FixedWindows} {s : Served} {h : Hit} {key : String}

@[simp] theorem store_self (cell : ℕ × ℕ) : (w.store key cell).inner key = some cell :=
  Function.update_self ..

theorem store_of_ne {key' : String} (hne : key' ≠ key) (cell : ℕ × ℕ) :
    (w.store key cell).inner key' = w.inner key' := Function.update_of_ne hne ..

theorem opened_congr {w' : FixedWindows} (h : w.inner key = w'.inner key) (windowSecs now : ℕ) :
    w.opened key windowSecs now = w'.opened key windowSecs now := by
  rw [opened, h, opened]

/-- A hit is refused at the maximum, and counted below it. -/
theorem allow_eq (now : ℕ) : w.allow key max windowSecs now =
    (decide ((w.opened key windowSecs now).2 < max),
      w.store key ((w.opened key windowSecs now).1, (w.opened key windowSecs now).2 +
        if (w.opened key windowSecs now).2 < max then 1 else 0)) := by
  simp only [allow]
  by_cases hmax : max ≤ (w.opened key windowSecs now).2
  · simp [hmax, Nat.not_lt.mpr hmax]
  · simp [hmax, Nat.not_le.mp hmax]

/-- The store and the log agree, and the windows of a key lie apart. -/
structure Counted (max windowSecs : ℕ) (s : Served) : Prop where
  cell : ∀ key start count, s.windows.inner key = some (start, count) →
    count = s.admitted key start ∧ (∃ e ∈ s.log, e.hit.key = key ∧ e.start = start) ∧
    ∀ e ∈ s.log, e.hit.key = key → e.start = start ∨ e.start + windowSecs ≤ start
  fresh : ∀ key, s.windows.inner key = none → ∀ e ∈ s.log, e.hit.key ≠ key
  within : ∀ e ∈ s.log, e.start ≤ e.hit.time ∧ e.hit.time < e.start + windowSecs
  bound : ∀ key start, s.admitted key start ≤ max
  apart : ∀ e ∈ s.log, ∀ e' ∈ s.log, e.hit.key = e'.hit.key →
    e.start = e'.start ∨ e.start + windowSecs ≤ e'.start ∨ e'.start + windowSecs ≤ e.start

theorem counted_new : Counted max windowSecs ⟨new, []⟩ where
  cell key start count hcell := by cases hcell
  fresh key hnone e he := by cases he
  within e he := by cases he
  bound key start := Nat.zero_le _
  apart e he := by cases he

/-- What is known of the window a hit falls in. -/
structure Fits (windowSecs : ℕ) (s : Served) (h : Hit) (start count : ℕ) : Prop where
  count : count = s.admitted h.key start
  before : ∀ e ∈ s.log, e.hit.key = h.key → e.start = start ∨ e.start + windowSecs ≤ start
  now : start ≤ h.time ∧ h.time < start + windowSecs

theorem Counted.fits (hs : Counted max windowSecs s) (hwindow : 1 ≤ windowSecs)
    (htime : ∀ e ∈ s.log, e.hit.time ≤ h.time) :
    Fits windowSecs s h (s.windows.opened h.key windowSecs h.time).1
      (s.windows.opened h.key windowSecs h.time).2 := by
  -- A window that opens now is later than all the key has had.
  have hopens : (∀ e ∈ s.log, e.hit.key = h.key → e.start + windowSecs ≤ h.time) →
      Fits windowSecs s h h.time 0 := by
    intro hold
    refine ⟨?_, fun e he hkey => .inr (hold e he hkey), Nat.le_refl _, by omega⟩
    rw [Served.admitted, eq_comm, List.countP_eq_zero]
    intro e he hadmits
    simp only [Entry.admits, Bool.and_eq_true, beq_iff_eq] at hadmits
    have hstart := hold e he hadmits.1.1
    omega
  cases hcell : s.windows.inner h.key with
  | none =>
    simp only [opened, hcell]
    exact hopens fun e he hkey => absurd hkey (hs.fresh h.key hcell e he)
  | some cell =>
    obtain ⟨start, count⟩ := cell
    obtain ⟨hcount, ⟨first, hfirst, -, rfl⟩, hbefore⟩ := hs.cell h.key start count hcell
    have hle : first.start ≤ h.time :=
      Nat.le_trans (hs.within first hfirst).1 (htime first hfirst)
    simp only [opened, hcell]
    split
    · next hfresh => exact ⟨hcount, hbefore, hle, by omega⟩
    · next hstale =>
      refine hopens fun e he hkey => ?_
      rcases hbefore e he hkey with heq | hearlier <;> omega

theorem admitted_concat {windows : FixedWindows} {e : Entry} {start : ℕ} :
    (⟨windows, s.log ++ [e]⟩ : Served).admitted key start =
      s.admitted key start + if e.admits key && e.start == start then 1 else 0 := by
  simp only [Served.admitted, List.countP_append, List.countP_singleton]

theorem Fits.next {start count : ℕ} (hs : Counted max windowSecs s)
    (hfits : Fits windowSecs s h start count) : Counted max windowSecs
      ⟨s.windows.store h.key (start, count + if count < max then 1 else 0),
        s.log ++ [⟨h, start, decide (count < max)⟩]⟩ where
  cell key start' count' hcell := by
    by_cases hkey : key = h.key
    · subst hkey
      rw [store_self] at hcell
      obtain ⟨rfl, rfl⟩ := Prod.mk.inj (Option.some.inj hcell)
      refine ⟨?_, ⟨_, List.mem_append_right _ List.mem_cons_self, rfl, rfl⟩, fun e he hkey => ?_⟩
      · rw [admitted_concat, ← hfits.count]
        simp [Entry.admits]
      · rcases List.mem_append.mp he with hold | hnew
        · exact hfits.before e hold hkey
        · rw [List.mem_singleton.mp hnew]
          exact .inl rfl
    · rw [store_of_ne hkey] at hcell
      obtain ⟨hcount, ⟨first, hfirst, hof⟩, hbefore⟩ := hs.cell key start' count' hcell
      refine ⟨?_, ⟨first, List.mem_append_left _ hfirst, hof⟩, fun e he hof => ?_⟩
      · rw [admitted_concat, ← hcount]
        simp [Entry.admits, Ne.symm hkey]
      · rcases List.mem_append.mp he with hold | hnew
        · exact hbefore e hold hof
        · rw [List.mem_singleton.mp hnew] at hof
          exact absurd hof.symm hkey
  fresh key hnone e he := by
    have hkey : key ≠ h.key := by
      rintro rfl
      rw [store_self] at hnone
      cases hnone
    rw [store_of_ne hkey] at hnone
    rcases List.mem_append.mp he with hold | hnew
    · exact hs.fresh key hnone e hold
    · rw [List.mem_singleton.mp hnew]
      exact hkey.symm
  within e he := by
    rcases List.mem_append.mp he with hold | hnew
    · exact hs.within e hold
    · rw [List.mem_singleton.mp hnew]
      exact hfits.now
  bound key start' := by
    rw [admitted_concat]
    have hbound := hs.bound key start'
    split
    · next hadmits =>
      simp only [Entry.admits, Bool.and_eq_true, beq_iff_eq, decide_eq_true_eq] at hadmits
      obtain ⟨⟨rfl, hmax⟩, rfl⟩ := hadmits
      rw [← hfits.count]
      exact hmax
    · exact hbound
  apart e he e' he' hkey := by
    rcases List.mem_append.mp he with hold | hnew <;> rcases List.mem_append.mp he' with hold' | hnew'
    · exact hs.apart e hold e' hold' hkey
    · rw [List.mem_singleton.mp hnew'] at hkey ⊢
      exact (hfits.before e hold hkey).imp_right .inl
    · rw [List.mem_singleton.mp hnew] at hkey ⊢
      rcases hfits.before e' hold' hkey.symm with heq | hearlier
      · exact .inl heq.symm
      · exact .inr (.inr hearlier)
    · rw [List.mem_singleton.mp hnew, List.mem_singleton.mp hnew']
      exact .inl rfl

theorem Counted.next (hs : Counted max windowSecs s) (hwindow : 1 ≤ windowSecs)
    (htime : ∀ e ∈ s.log, e.hit.time ≤ h.time) :
    Counted max windowSecs (s.next max windowSecs h) := by
  have hnext := (hs.fits hwindow htime).next hs
  rwa [Served.next, allow_eq]

end step

section run

variable {max windowSecs : ℕ} {hits : List Hit}

theorem serve_concat (h : Hit) :
    serve max windowSecs (hits ++ [h]) = (serve max windowSecs hits).next max windowSecs h := by
  simp [serve]

/-- The log has the hits in their order. -/
theorem hits_of_log : (serve max windowSecs hits).log.map Entry.hit = hits := by
  induction hits using List.reverseRecOn with
  | nil => rfl
  | append_singleton hits h ih =>
    rw [serve_concat, Served.next, List.map_append, ih, List.map_singleton]

theorem counted_serve (hwindow : 1 ≤ windowSecs)
    (hsorted : hits.Pairwise (fun h h' => h.time ≤ h'.time)) :
    Counted max windowSecs (serve max windowSecs hits) := by
  induction hits using List.reverseRecOn with
  | nil => exact counted_new
  | append_singleton hits h ih =>
    obtain ⟨hbefore, -, hlast⟩ := List.pairwise_append.mp hsorted
    rw [serve_concat]
    refine (ih hbefore).next hwindow fun e he => hlast e.hit ?_ h List.mem_cons_self
    have hmem := List.mem_map_of_mem (f := Entry.hit) he
    rwa [hits_of_log] at hmem

variable {s : Served} {key : String}

variable (key) in
/-- Hits of one window are no more than the maximum. -/
theorem Counted.count_le (hs : Counted max windowSecs s) {p : Entry → Bool}
    (hadmits : ∀ e ∈ s.log, p e = true → e.admits key = true)
    (hone : ∀ e ∈ s.log, ∀ e' ∈ s.log, p e = true → p e' = true → e.start = e'.start) :
    s.log.countP p ≤ max := by
  by_cases hsome : ∃ e ∈ s.log, p e = true
  · obtain ⟨first, hfirst, hp⟩ := hsome
    refine Nat.le_trans (List.countP_mono_left fun e he hpe => ?_) (hs.bound key first.start)
    simp [hadmits e he hpe, hone e he first hfirst hpe hp]
  · have hnone : s.log.countP p = 0 :=
      List.countP_eq_zero.mpr fun e he hp => hsome ⟨e, he, hp⟩
    omega

theorem admitsWithin_iff {e : Entry} {first last : ℕ} : e.admitsWithin key first last = true ↔
    e.admits key = true ∧ first ≤ e.hit.time ∧ e.hit.time ≤ last := by
  simp [Entry.admitsWithin, and_assoc]

theorem key_of_admits {e : Entry} (h : e.admits key = true) : e.hit.key = key :=
  beq_iff_eq.mp (Bool.and_eq_true_iff.mp h).1

/-- Windows that start within a window's length of each other are one. -/
theorem Counted.start_eq (hs : Counted max windowSecs s) {e e' : Entry} (he : e ∈ s.log)
    (he' : e' ∈ s.log) (hadmits : e.admits key = true) (hadmits' : e'.admits key = true)
    (hlt : e.start < e'.start + windowSecs) (hlt' : e'.start < e.start + windowSecs) :
    e.start = e'.start := by
  have hkey := (key_of_admits hadmits).trans (key_of_admits hadmits').symm
  rcases hs.apart e he e' he' hkey with heq | hbefore | hafter <;> omega

theorem Counted.part_le (hs : Counted max windowSecs s) {first last : ℕ} {q : Entry → Bool}
    (hnear : ∀ e ∈ s.log, ∀ e' ∈ s.log, first ≤ e.hit.time → e'.hit.time ≤ last → q e = true →
      q e' = true → e'.start < e.start + windowSecs) :
    s.log.countP (fun e => e.admitsWithin key first last && q e) ≤ max := by
  refine hs.count_le key (fun e _ hp => ?_) fun e he e' he' hp hp' => ?_
  · simp only [Bool.and_eq_true, admitsWithin_iff] at hp
    exact hp.1.1
  · simp only [Bool.and_eq_true, admitsWithin_iff] at hp hp'
    obtain ⟨⟨hadmits, hfirst, hlast⟩, hq⟩ := hp
    obtain ⟨⟨hadmits', hfirst', hlast'⟩, hq'⟩ := hp'
    exact hs.start_eq he he' hadmits hadmits' (hnear e' he' e he hfirst' hlast hq' hq)
      (hnear e he e' he' hfirst hlast' hq hq')

/-- An interval of `k` windows' length meets one window of a key that has started by its first
second, and at most one that starts in each of the `k` lengths after it. -/
theorem Counted.intervals_le (hs : Counted max windowSecs s) (t k : ℕ) :
    s.admittedWithin key t (t + k * windowSecs) ≤ (k + 1) * max := by
  have hstarted : ∀ j, s.log.countP (fun e => e.admitsWithin key t (t + k * windowSecs) &&
      decide (e.start ≤ t + j * windowSecs)) ≤ (j + 1) * max := by
    intro j
    induction j with
    | zero =>
      rw [Nat.zero_mul, Nat.add_zero, Nat.zero_add, Nat.one_mul]
      refine hs.part_le fun e he e' _ hfirst _ _ hq' => ?_
      have hin := hs.within e he
      have hstart := of_decide_eq_true hq'
      omega
    | succ j ih =>
      have hsplit := List.countP_eq_countP_filter_add s.log
        (fun e => e.admitsWithin key t (t + k * windowSecs) &&
          decide (e.start ≤ t + (j + 1) * windowSecs))
        (fun e => decide (e.start ≤ t + j * windowSecs))
      rw [List.countP_filter, List.countP_filter] at hsplit
      have hbefore : s.log.countP (fun e => (e.admitsWithin key t (t + k * windowSecs) &&
          decide (e.start ≤ t + (j + 1) * windowSecs)) && decide (e.start ≤ t + j * windowSecs)) ≤
            (j + 1) * max := by
        refine Nat.le_trans (List.countP_mono_left fun e _ hp => ?_) ih
        simp only [Bool.and_eq_true] at hp ⊢
        exact ⟨hp.1.1, hp.2⟩
      have hlater : s.log.countP (fun e => (e.admitsWithin key t (t + k * windowSecs) &&
          decide (e.start ≤ t + (j + 1) * windowSecs)) && !decide (e.start ≤ t + j * windowSecs)) ≤
            max := by
        simp only [Bool.and_assoc]
        refine hs.part_le fun e _ e' _ _ _ hq hq' => ?_
        simp only [Bool.and_eq_true, decide_eq_true_eq, Bool.not_eq_true', decide_eq_false_iff_not]
          at hq hq'
        rw [Nat.succ_mul] at hq'
        omega
      rw [Nat.succ_mul (j + 1)]
      omega
  refine Nat.le_trans (List.countP_mono_left fun e he hp => ?_) (hstarted k)
  have hin := hs.within e he
  rw [Bool.and_eq_true, decide_eq_true_eq]
  exact ⟨hp, Nat.le_trans hin.1 (admitsWithin_iff.mp hp).2.2⟩

theorem Counted.interval_le (hs : Counted max windowSecs s) (t : ℕ) :
    s.admittedWithin key t (t + windowSecs) ≤ 2 * max := by
  have hone := @Counted.intervals_le max windowSecs s key hs t 1
  rwa [Nat.one_mul] at hone

theorem Counted.refused (hs : Counted max windowSecs s) {h : Hit} (hwindow : 1 ≤ windowSecs)
    (htime : ∀ e ∈ s.log, e.hit.time ≤ h.time)
    (hrefused : (s.windows.allow h.key max windowSecs h.time).1 = false) :
    max ≤ s.log.countP (fun e => e.admits h.key && decide (h.time < e.hit.time + windowSecs)) := by
  have hfits := hs.fits hwindow htime
  rw [allow_eq, decide_eq_false_iff_not, Nat.not_lt, hfits.count] at hrefused
  refine Nat.le_trans hrefused (List.countP_mono_left fun e he hp => ?_)
  simp only [Bool.and_eq_true, beq_iff_eq, decide_eq_true_eq] at hp ⊢
  have hin := hs.within e he
  have hnow := hfits.now
  exact ⟨hp.1, by omega⟩

/-- Two stores that agree on a key keep agreeing on it, whatever the others hit. -/
theorem serve_alone {s s' : Served} (hcell : s.windows.inner key = s'.windows.inner key)
    (hlog : s.log.filter (·.hit.key == key) = s'.log) :
    ((hits.foldl (Served.next max windowSecs) s).log.filter (·.hit.key == key)) =
      ((hits.filter (·.key == key)).foldl (Served.next max windowSecs) s').log := by
  induction hits generalizing s s' with
  | nil => exact hlog
  | cons h hits ih =>
    by_cases hkey : h.key = key
    · subst hkey
      have hopened := opened_congr hcell windowSecs h.time
      rw [List.filter_cons_of_pos (by simp), List.foldl_cons, List.foldl_cons]
      apply ih
      · simp only [Served.next, allow_eq, hopened, store_self]
      · simp only [Served.next, allow_eq, hopened, List.filter_append, hlog, List.filter_singleton,
          BEq.rfl, cond_true]
    · rw [List.filter_cons_of_neg (by simpa using hkey), List.foldl_cons]
      apply ih
      · rw [← hcell, Served.next, allow_eq]
        exact store_of_ne (Ne.symm hkey) _
      · have hnone : (h.key == key) = false := by simpa using hkey
        rw [← hlog, Served.next, List.filter_append, List.filter_singleton, hnone, cond_false,
          List.append_nil]

/-- For every maximum, window and list of hits in the order of their times. -/
theorem fixedWindows_law (max windowSecs : ℕ) (hwindow : 1 ≤ windowSecs) (hits : List Hit)
    (hsorted : hits.Pairwise (fun h h' => h.time ≤ h'.time)) : WindowLaw max windowSecs hits where
  within := (counted_serve hwindow hsorted).within
  perWindow := (counted_serve hwindow hsorted).bound
  perInterval _ t := (counted_serve hwindow hsorted).interval_le t
  refused before h after hsplit hrefused := by
    subst hsplit
    obtain ⟨hbefore, -, hlast⟩ := List.pairwise_append.mp hsorted
    refine (counted_serve hwindow hbefore).refused hwindow (fun e he => ?_) hrefused
    have hmem := List.mem_map_of_mem (f := Entry.hit) he
    rw [hits_of_log] at hmem
    exact hlast e.hit hmem h List.mem_cons_self
  alone key := serve_alone rfl rfl

/-- A full window, a hit in its last second and one past it, and another key. -/
def burst : List Hit := [⟨"a", 0⟩, ⟨"a", 0⟩, ⟨"b", 30⟩, ⟨"a", 59⟩, ⟨"a", 60⟩]

theorem fixedWindows_law_burst : WindowLaw 2 60 burst :=
  fixedWindows_law 2 60 (by decide) burst (by decide)

example : (serve 2 60 burst).log.map Entry.ok = [true, true, true, false, true] := by decide

end run

end FixedWindows
end BackboneEvents
