import Mathlib.Data.List.Basic

/-!
# Trails that can be replayed

A system writes a trail beside its state, and a reader folds the trail into a view of the state.
Where each step tells its own change, a run tells the whole of it.
-/
namespace BackboneEvents.ReplayedTrails

universe u v w x

variable {σ : Type u} {ρ : Type v} {D : Type w} {α : Type x}

/-- The rows added to the trail between two states, read from the view of the first, give the
view of the second. -/
def Told (trail : σ → List ρ) (view : σ → D) (read : D → ρ → D) (s t : σ) : Prop :=
  ∃ rows, trail t = trail s ++ rows ∧ rows.foldl read (view s) = view t

variable {trail : σ → List ρ} {view : σ → D} {read : D → ρ → D} {s t u : σ}

theorem Told.refl (s : σ) : Told trail view read s s := ⟨[], (List.append_nil _).symm, rfl⟩

theorem Told.trans (h : Told trail view read s t) (h' : Told trail view read t u) :
    Told trail view read s u := by
  obtain ⟨rows, htrail, hread⟩ := h
  obtain ⟨rows', htrail', hread'⟩ := h'
  refine ⟨rows ++ rows', by rw [htrail', htrail, List.append_assoc], ?_⟩
  rw [List.foldl_append, hread, hread']

/-- Nothing is told where the view is as before. -/
theorem told_of_same (htrail : trail t = trail s) (hview : view t = view s) :
    Told trail view read s t :=
  ⟨[], by rw [htrail, List.append_nil], hview.symm⟩

/-- One row tells the change. -/
theorem told_of_row {row : ρ} (htrail : trail t = trail s ++ [row])
    (hread : read (view s) row = view t) : Told trail view read s t :=
  ⟨[row], htrail, hread⟩

theorem told_run {step : σ → α → σ} {keep : σ → Prop} (hs : keep s)
    (hkeep : ∀ s a, keep s → keep (step s a))
    (hstep : ∀ s a, keep s → Told trail view read s (step s a)) (labels : List α) :
    Told trail view read s (labels.foldl step s) := by
  induction labels generalizing s with
  | nil => exact .refl s
  | cons a labels ih => exact (hstep s a hs).trans (ih (hkeep s a hs))

end BackboneEvents.ReplayedTrails
