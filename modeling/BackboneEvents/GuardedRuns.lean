import Mathlib.Data.List.Basic

/-!
# Runs whose steps meet a condition

A run folds a step function over a list of labels; a label that is not enabled leaves the
state as it is. A property holds throughout a run when it holds of the state after every
prefix, and a condition holds along it when every step meets it in the state it acts on.
-/
namespace BackboneEvents.GuardedRuns

universe u v

variable {σ : Type u} {α : Type v} (step : σ → α → σ)

def Throughout (inv : σ → Prop) (s : σ) (labels : List α) : Prop :=
  ∀ before after, labels = before ++ after → inv (before.foldl step s)

def Along (cond : σ → α → Prop) : σ → List α → Prop
  | _, [] => True
  | s, a :: labels => cond s a ∧ Along cond (step s a) labels

instance decidableAlong {step : σ → α → σ} {cond : σ → α → Prop} [∀ s a, Decidable (cond s a)] :
    ∀ (s : σ) (labels : List α), Decidable (Along step cond s labels)
  | _, [] => isTrue trivial
  | s, a :: labels =>
    @instDecidableAnd _ _ _ (decidableAlong (step s a) labels)

variable {step} {inv : σ → Prop} {cond cond' : σ → α → Prop} {s : σ} {labels : List α}

theorem throughout_nil : Throughout step inv s [] ↔ inv s := by
  constructor
  · intro h
    exact h [] [] rfl
  · intro h before after hsplit
    obtain ⟨rfl, -⟩ := List.append_eq_nil_iff.mp hsplit.symm
    exact h

theorem throughout_cons {a : α} :
    Throughout step inv s (a :: labels) ↔ inv s ∧ Throughout step inv (step s a) labels := by
  constructor
  · intro h
    exact ⟨h [] _ rfl, fun before after hsplit => h (a :: before) after (by simp [hsplit])⟩
  · rintro ⟨hs, h⟩ before after hsplit
    cases before with
    | nil => exact hs
    | cons b before =>
      obtain ⟨rfl, hrest⟩ := List.cons.inj hsplit
      exact h before after hrest

theorem Throughout.last (h : Throughout step inv s labels) : inv (labels.foldl step s) :=
  h labels [] (by simp)

theorem Along.mono (h : Along step cond s labels) (himp : ∀ s a, cond s a → cond' s a) :
    Along step cond' s labels := by
  induction labels generalizing s with
  | nil => trivial
  | cons a labels ih => exact ⟨himp s a h.1, ih h.2⟩

/-- What every step keeps may be used. -/
theorem Along.mono_within {keep : σ → Prop} (h : Along step cond s labels) (hkeeps : keep s)
    (hkeep : ∀ s a, keep s → keep (step s a)) (himp : ∀ s a, keep s → cond s a → cond' s a) :
    Along step cond' s labels := by
  induction labels generalizing s with
  | nil => trivial
  | cons a labels ih => exact ⟨himp s a hkeeps h.1, ih h.2 (hkeep s a hkeeps)⟩

theorem along_and : Along step (fun s a => cond s a ∧ cond' s a) s labels ↔
    Along step cond s labels ∧ Along step cond' s labels := by
  induction labels generalizing s with
  | nil => simp [Along]
  | cons a labels ih => simp only [Along, ih, and_assoc, and_left_comm]

theorem along_congr (h : ∀ s a, cond s a ↔ cond' s a) :
    Along step cond s labels ↔ Along step cond' s labels :=
  ⟨fun halong => halong.mono fun s a => (h s a).mp, fun halong => halong.mono fun s a => (h s a).mpr⟩

theorem along_of_forall (h : ∀ s a, cond s a) : Along step cond s labels := by
  induction labels generalizing s with
  | nil => trivial
  | cons a labels ih => exact ⟨h s a, ih⟩

/-- A property that every step meeting the condition keeps holds throughout. -/
theorem Along.throughout (h : Along step cond s labels) (hs : inv s)
    (hstep : ∀ s a, inv s → cond s a → inv (step s a)) : Throughout step inv s labels := by
  induction labels generalizing s with
  | nil => exact throughout_nil.mpr hs
  | cons a labels ih => exact throughout_cons.mpr ⟨hs, ih h.2 (hstep s a hs h.1)⟩

theorem throughout_of_step (hs : inv s) (hstep : ∀ s a, inv s → inv (step s a)) :
    Throughout step inv s labels := by
  have halong : Along step (fun _ _ => True) s labels := along_of_forall fun _ _ => trivial
  exact halong.throughout hs fun s a h _ => hstep s a h

theorem Throughout.mono {inv' : σ → Prop} (h : Throughout step inv s labels)
    (himp : ∀ s, inv s → inv' s) : Throughout step inv' s labels :=
  fun before after hsplit => himp _ (h before after hsplit)

/-- When the condition is exactly what keeps the property, the two run statements agree.
What every step keeps may be used. -/
theorem throughout_iff_along_of {keep : σ → Prop} (hkeeps : keep s) (hs : inv s)
    (hkeep : ∀ s a, keep s → keep (step s a))
    (hstep : ∀ s a, keep s → inv s → (inv (step s a) ↔ cond s a)) :
    Throughout step inv s labels ↔ Along step cond s labels := by
  induction labels generalizing s with
  | nil => exact throughout_nil.trans (iff_of_true hs trivial)
  | cons a labels ih =>
    have hfirst := hstep s a hkeeps hs
    constructor
    · intro h
      have htail := (throughout_cons.mp h).2
      have hnext : inv (step s a) := htail [] labels rfl
      exact ⟨hfirst.mp hnext, (ih (hkeep s a hkeeps) hnext).mp htail⟩
    · rintro ⟨ha, h⟩
      have hnext := hfirst.mpr ha
      exact throughout_cons.mpr ⟨hs, (ih (hkeep s a hkeeps) hnext).mpr h⟩

theorem throughout_iff_along (hs : inv s)
    (hstep : ∀ s a, inv s → (inv (step s a) ↔ cond s a)) :
    Throughout step inv s labels ↔ Along step cond s labels := by
  have hkeep : ∀ s a, True → True := fun (_ : σ) (_ : α) h => h
  exact throughout_iff_along_of trivial hs hkeep fun s a _ => hstep s a

/-- The same for a property that an invariant carries, over runs of admitted labels: the
condition is what keeps the property over a step, and it keeps the invariant. -/
theorem throughout_iff_along_within {keep : σ → Prop} {ok : α → Prop} (hok : ∀ a ∈ labels, ok a)
    (hkeeps : keep s) (hinv : ∀ s, keep s → inv s)
    (hstep : ∀ s a, ok a → keep s → inv (step s a) → cond s a)
    (hkeep : ∀ s a, ok a → keep s → cond s a → keep (step s a)) :
    Throughout step inv s labels ↔ Along step cond s labels := by
  induction labels generalizing s with
  | nil => exact throughout_nil.trans (iff_of_true (hinv s hkeeps) trivial)
  | cons a labels ih =>
    have ha := hok a List.mem_cons_self
    have hrest : ∀ b ∈ labels, ok b := fun b hb => hok b (List.mem_cons_of_mem a hb)
    constructor
    · intro h
      have htail := (throughout_cons.mp h).2
      have hcond := hstep s a ha hkeeps (htail [] labels rfl)
      exact ⟨hcond, (ih hrest (hkeep s a ha hkeeps hcond)).mp htail⟩
    · rintro ⟨hcond, h⟩
      have hnext := hkeep s a ha hkeeps hcond
      exact throughout_cons.mpr ⟨hinv s hkeeps, (ih hrest hnext).mpr h⟩

/-- `rel` holds from the state after any prefix to the state after any longer one. -/
def Steadily (step : σ → α → σ) (rel : σ → σ → Prop) (s : σ) (labels : List α) : Prop :=
  ∀ before middle after, labels = before ++ middle ++ after →
    rel (before.foldl step s) (middle.foldl step (before.foldl step s))

variable {rel : σ → σ → Prop}

theorem Along.related (h : Along step cond s labels) (hrefl : ∀ s, rel s s)
    (htrans : ∀ s t u, rel s t → rel t u → rel s u)
    (hstep : ∀ s a, cond s a → rel s (step s a)) : rel s (labels.foldl step s) := by
  induction labels generalizing s with
  | nil => exact hrefl s
  | cons a labels ih => exact htrans _ _ _ (hstep s a h.1) (ih h.2)

theorem along_append {before after : List α} : Along step cond s (before ++ after) ↔
    Along step cond s before ∧ Along step cond (before.foldl step s) after := by
  induction before generalizing s with
  | nil => simp [Along]
  | cons a before ih => simp [Along, ih, and_assoc]

/-- A preorder on states that every step respects holds between all moments of a run. -/
theorem steadily_of_step (hrefl : ∀ s, rel s s)
    (htrans : ∀ s t u, rel s t → rel t u → rel s u) (hstep : ∀ s a, rel s (step s a)) :
    Steadily step rel s labels := by
  intro before middle after _
  have halong : Along step (fun _ _ => True) (before.foldl step s) middle :=
    along_of_forall fun _ _ => trivial
  exact halong.related hrefl htrans fun s a _ => hstep s a

/-- A preorder on states holds between all moments of a run exactly when it holds over
every step. -/
theorem steadily_iff_along (hrefl : ∀ s, rel s s)
    (htrans : ∀ s t u, rel s t → rel t u → rel s u)
    (hstep : ∀ s a, rel s (step s a) ↔ cond s a) :
    Steadily step rel s labels ↔ Along step cond s labels := by
  constructor
  · intro h
    induction labels generalizing s with
    | nil => trivial
    | cons a labels ih =>
      refine ⟨(hstep s a).mp (h [] [a] labels rfl), ih fun before middle after hsplit => ?_⟩
      exact h (a :: before) middle after (by simp [hsplit])
  · rintro h before middle after rfl
    have hmiddle := (along_append.mp (along_append.mp h).1).2
    exact hmiddle.related hrefl htrans fun s a => (hstep s a).mpr

end BackboneEvents.GuardedRuns
