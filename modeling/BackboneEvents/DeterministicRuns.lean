import Mathlib.Logic.Function.Iterate

/-!
# Runs of a deterministic machine

A machine iterates one step function. A halted state steps to halted states, so a
quantity that no step lowers, and no step of a halted state changes, is bounded over the
whole run by its value where the run halts.
-/
namespace BackboneEvents.DeterministicRuns

universe u v

variable {σ : Type u} {step : σ → σ}

def Leads (step : σ → σ) (a b : σ) : Prop := ∃ k, step^[k] a = b

def Halts (step : σ → σ) (halted : σ → Bool) (a : σ) : Prop := ∃ k, halted (step^[k] a) = true

variable {a b c : σ} {halted : σ → Bool}

theorem Leads.refl (a : σ) : Leads step a a := ⟨0, rfl⟩

theorem Leads.trans (h : Leads step a b) (h' : Leads step b c) : Leads step a c := by
  obtain ⟨k, rfl⟩ := h
  obtain ⟨l, rfl⟩ := h'
  exact ⟨l + k, Function.iterate_add_apply step l k a⟩

theorem Leads.head (hstep : step a = b) (h : Leads step b c) : Leads step a c := by
  obtain ⟨k, rfl⟩ := h
  exact ⟨k + 1, by rw [Function.iterate_succ_apply, hstep]⟩

theorem Leads.halts (h : Leads step a b) (hb : halted b = true) : Halts step halted a := by
  obtain ⟨k, rfl⟩ := h
  exact ⟨k, hb⟩

theorem Leads.halts_trans (h : Leads step a b) (hb : Halts step halted b) :
    Halts step halted a := by
  obtain ⟨k, hk⟩ := hb
  exact (h.trans ⟨k, rfl⟩).halts hk

/-- Of two states of a run one comes first. -/
theorem Leads.total (h : Leads step a b) (h' : Leads step a c) : Leads step b c ∨ Leads step c b := by
  obtain ⟨k, rfl⟩ := h
  obtain ⟨l, rfl⟩ := h'
  rcases Nat.le_total k l with hkl | hlk
  · obtain ⟨d, rfl⟩ := Nat.exists_eq_add_of_le hkl
    exact .inl ⟨d, by rw [← Function.iterate_add_apply, Nat.add_comm]⟩
  · obtain ⟨d, rfl⟩ := Nat.exists_eq_add_of_le hlk
    exact .inr ⟨d, by rw [← Function.iterate_add_apply, Nat.add_comm]⟩

/-- What every step keeps holds wherever the run comes. -/
theorem Leads.invariant {inv : σ → Prop} (h : Leads step a b) (ha : inv a)
    (hstep : ∀ a, inv a → inv (step a)) : inv b := by
  obtain ⟨k, rfl⟩ := h
  induction k generalizing a with
  | zero => exact ha
  | succ k ih => exact ih (hstep a ha)

section rest

variable {τ : Type v}

/-- What no step of a halted state changes stays as it was at the halt. -/
theorem iterate_of_halted {f : σ → τ} (hhalted : ∀ a, halted a = true → halted (step a) = true)
    (hrest : ∀ a, halted a = true → f (step a) = f a) (k : ℕ) (hb : halted b = true) :
    f (step^[k] b) = f b := by
  induction k generalizing b with
  | zero => rfl
  | succ k ih => exact (ih (hhalted b hb)).trans (hrest b hb)

/-- All halted states of a run agree on it. -/
theorem Leads.agree (f : σ → τ) (h : Leads step a b) (h' : Leads step a c) (hb : halted b = true)
    (hc : halted c = true) (hhalted : ∀ a, halted a = true → halted (step a) = true)
    (hrest : ∀ a, halted a = true → f (step a) = f a) : f b = f c := by
  rcases h.total h' with ⟨d, rfl⟩ | ⟨d, rfl⟩
  · rw [iterate_of_halted hhalted hrest d hb]
  · rw [iterate_of_halted hhalted hrest d hc]

end rest

/-- A run comes to one halted state at most when those stand still. -/
theorem Leads.unique (h : Leads step a b) (h' : Leads step a c) (hb : halted b = true)
    (hc : halted c = true) (hrest : ∀ a, halted a = true → step a = a) : b = c :=
  h.agree id h' hb hc (fun a ha => (congrArg halted (hrest a ha)).trans ha) hrest

/-- Past the halt there is nothing new to come to. -/
theorem Leads.within {n : ℕ} (h : Leads step a b) (hn : halted (step^[n] a) = true)
    (hrest : ∀ a, halted a = true → step a = a) : ∃ k ≤ n, step^[k] a = b := by
  obtain ⟨k, rfl⟩ := h
  rcases Nat.le_total k n with hkn | hnk
  · exact ⟨k, hkn, rfl⟩
  · obtain ⟨d, rfl⟩ := Nat.exists_eq_add_of_le hnk
    refine ⟨n, Nat.le_refl n, ?_⟩
    rw [Nat.add_comm, Function.iterate_add_apply, Function.iterate_fixed (hrest _ hn)]

/-- A run whose measure falls at every step before it halts does halt. -/
theorem halts_of_falling {α : Type v} {r : α → α → Prop} (hwf : WellFounded r) (μ : σ → α)
    {inv : σ → Prop} (ha : inv a) (hinv : ∀ a, inv a → inv (step a))
    (hfalls : ∀ a, inv a → halted a = false → r (μ (step a)) (μ a)) : Halts step halted a := by
  induction hm : μ a using hwf.induction generalizing a with
  | _ m ih =>
    cases hhalted : halted a with
    | true => exact ⟨0, hhalted⟩
    | false =>
      obtain ⟨k, hk⟩ := ih _ (hm ▸ hfalls a ha hhalted) (hinv a ha) rfl
      exact ⟨k + 1, hk⟩

section measure

variable {f : σ → ℕ}

theorem le_iterate (hmono : ∀ a, f a ≤ f (step a)) (a : σ) (k : ℕ) : f a ≤ f (step^[k] a) := by
  induction k generalizing a with
  | zero => exact Nat.le_refl _
  | succ k ih => exact Nat.le_trans (hmono a) (ih (step a))

/-- The value at the halt bounds the whole run. -/
theorem Leads.le_of_halted (h : Leads step a b) (hb : halted b = true)
    (hmono : ∀ a, f a ≤ f (step a)) (hhalted : ∀ a, halted a = true → halted (step a) = true)
    (hrest : ∀ a, halted a = true → f (step a) = f a) (k : ℕ) : f (step^[k] a) ≤ f b := by
  obtain ⟨l, rfl⟩ := h
  rcases Nat.le_total k l with hkl | hlk
  · obtain ⟨d, rfl⟩ := Nat.exists_eq_add_of_le hkl
    rw [Nat.add_comm, Function.iterate_add_apply]
    exact le_iterate hmono _ d
  · obtain ⟨d, rfl⟩ := Nat.exists_eq_add_of_le hlk
    rw [Nat.add_comm, Function.iterate_add_apply]
    exact Nat.le_of_eq (iterate_of_halted hhalted hrest d hb)

end measure

end BackboneEvents.DeterministicRuns
