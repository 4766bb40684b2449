import Mathlib.Logic.Function.Basic
import Mathlib.Order.Lattice
import Mathlib.Data.Int.Order.Basic

/-!
# Leases that expire

A claim stamps a key whose stamp is absent or older than the length of a lease; a release
clears the stamp of the key, whoever stamped it last. A party can outlive its lease, so two
parties can be at work on one key, and the newest claim is not always the only one.
-/
namespace BackboneEvents.Leases

/-- The stamp of each key, what each party is at work on with the stamp of its claim, and
who claimed each key last. -/
structure State (ι κ : Type*) where
  stamp : κ → Option ℤ
  held : ι → Option (κ × ℤ)
  newest : κ → Option ι

variable {ι κ : Type*} [DecidableEq ι] [DecidableEq κ]

namespace State

def claim (s : State ι κ) (i : ι) (k : κ) (now : ℤ) : State ι κ where
  stamp := Function.update s.stamp k (some now)
  held := Function.update s.held i (some (k, now))
  newest := Function.update s.newest k (some i)

def drop (s : State ι κ) (i : ι) : State ι κ :=
  { s with held := Function.update s.held i none }

def release (s : State ι κ) (i : ι) (k : κ) : State ι κ :=
  { s.drop i with stamp := Function.update s.stamp k none }

/-- The key's stamp is absent or expired. -/
def Free (s : State ι κ) (len now : ℤ) (k : κ) : Prop := ∀ t ∈ s.stamp k, t + len < now

/-- Every holder's lease is unexpired. -/
def Punctual (s : State ι κ) (len now : ℤ) : Prop :=
  ∀ i k t, s.held i = some (k, t) → now < t + len

end State

/-- A party claims, releases what it holds where that is allowed, or stops without a
release. Only a claim reads the clock. -/
inductive Step (len : ℤ) (clock : Option ℤ) (allowed : ι → κ → Prop) (s : State ι κ) :
    State ι κ → Prop
  | claim {i : ι} {k : κ} {now : ℤ} (reads : clock = some now) (idle : s.held i = none)
      (free : s.Free len now k) : Step len clock allowed s (s.claim i k now)
  | release {i : ι} {k : κ} {t : ℤ} (held : s.held i = some (k, t)) (fair : allowed i k) :
    Step len clock allowed s (s.release i k)
  | drop (i : ι) : Step len clock allowed s (s.drop i)
  | stay : Step len clock allowed s s

/-- Every holder is the newest, and its own stamp stands. -/
def Sole (s : State ι κ) : Prop :=
  ∀ i k t, s.held i = some (k, t) → s.newest k = some i ∧ s.stamp k = some t

/-- The newest claimer's stamp stands while it is at work. -/
def Fenced (s : State ι κ) : Prop :=
  ∀ i k t, s.held i = some (k, t) → s.newest k = some i → s.stamp k = some t

section rules

variable {len now : ℤ} {clock : Option ℤ} {allowed : ι → κ → Prop}
  {s : State ι κ} {i j : ι} {k : κ} {t : ℤ}

omit [DecidableEq ι] [DecidableEq κ] in
theorem Sole.eq {t' : ℤ} (h : Sole s) (hi : s.held i = some (k, t)) (hj : s.held j = some (k, t')) :
    i = j := by
  have heq := (h i k t hi).1.symm.trans (h j k t' hj).1
  exact Option.some.inj heq

omit [DecidableEq κ] in
theorem held_drop {a : κ × ℤ} (h : (s.drop i).held j = some a) : j ≠ i ∧ s.held j = some a := by
  have hne : j ≠ i := by
    rintro rfl
    simp [State.drop] at h
  exact ⟨hne, by simpa [State.drop, hne] using h⟩

theorem held_claim {k' : κ} (h : (s.claim i k now).held j = some (k', t)) :
    (j = i ∧ k' = k ∧ t = now) ∨ (j ≠ i ∧ s.held j = some (k', t)) := by
  by_cases hj : j = i
  · subst hj
    have heq : (k, now) = (k', t) := by simpa [State.claim] using h
    obtain ⟨rfl, rfl⟩ := Prod.mk.inj heq
    exact .inl ⟨rfl, rfl, rfl⟩
  · exact .inr ⟨hj, by simpa [State.claim, hj] using h⟩

theorem claim_fresh : (s.claim i k now).newest k = some i ∧ (s.claim i k now).stamp k = some now := by
  simp [State.claim]

variable (s i now) in
theorem claim_other {k' : κ} (h : k' ≠ k) : (s.claim i k now).newest k' = s.newest k' ∧
    (s.claim i k now).stamp k' = s.stamp k' := by
  simp [State.claim, h]

/-- Where no lease is outlived, there is one holder to a key. -/
theorem Sole.step {s' : State ι κ} (h : Sole s) (hstep : Step len clock allowed s s')
    (hpunctual : ∀ now ∈ clock, s.Punctual len now) : Sole s' := by
  cases hstep with
  | stay => exact h
  | drop i =>
    intro j k t hj
    exact h j k t (held_drop hj).2
  | @release i k t held fair =>
    intro j k' t' hj
    obtain ⟨hne, hheld⟩ := held_drop hj
    obtain ⟨hnewest, hstamp⟩ := h j k' t' hheld
    have hk : k' ≠ k := by
      rintro rfl
      exact hne (h.eq hheld held)
    exact ⟨hnewest, by simpa [State.release, hk] using hstamp⟩
  | @claim i k now reads idle free =>
    intro j k' t' hj
    rcases held_claim hj with ⟨rfl, rfl, rfl⟩ | ⟨-, hheld⟩
    · exact claim_fresh
    · have hk : k' ≠ k := by
        rintro rfl
        have hexpired := free t' (h j k' t' hheld).2
        exact lt_asymm hexpired (hpunctual now reads j k' t' hheld)
      obtain ⟨hnewest, hstamp⟩ := claim_other now s i hk
      rw [hnewest, hstamp]
      exact h j k' t' hheld

/-- Where a holder that is not the newest releases a key without a stamp alone, the newest
claimer's stamp stands. -/
theorem Fenced.step {s' : State ι κ} (h : Fenced s) (hstep : Step len clock allowed s s')
    (hallowed : ∀ i k, allowed i k → s.newest k = some i ∨ s.stamp k = none) : Fenced s' := by
  cases hstep with
  | stay => exact h
  | drop i =>
    intro j k t hj
    exact h j k t (held_drop hj).2
  | @release i k t held fair =>
    intro j k' t' hj hnewest
    obtain ⟨hne, hj⟩ := held_drop hj
    have hstamp := h j k' t' hj hnewest
    have hk : k' ≠ k := by
      rintro rfl
      rcases hallowed i k' fair with hi | hnone
      · exact hne (Option.some.inj (hnewest.symm.trans hi))
      · rw [hnone] at hstamp
        cases hstamp
    simpa [State.release, hk] using hstamp
  | @claim i k now reads idle free =>
    intro j k' t' hj hnewest
    rcases held_claim hj with ⟨rfl, rfl, rfl⟩ | ⟨hne, hj⟩
    · exact claim_fresh.2
    · by_cases hk : k' = k
      · subst hk
        exact absurd (Option.some.inj (hnewest.symm.trans claim_fresh.1)) hne
      · obtain ⟨hsame, hstamp⟩ := claim_other now s i hk
        rw [hstamp]
        exact h j k' t' hj (hsame.symm.trans hnewest)

end rules

end BackboneEvents.Leases
