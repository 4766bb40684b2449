import BackboneEvents.GuardedRuns

/-!
# Histories of a written value

An observation of the state that every step of a run leaves as it is or writes. Where the last
write wins, the last write of the run tells it; where the first one wins, the value at the
start does, or else the first write.
-/
namespace BackboneEvents.WriteHistories
open GuardedRuns

universe u v w

variable {σ : Type u} {α : Type v} {β : Type w} (step : σ → α → σ) (write : σ → α → Option β)

/-- What the labels of a run write, each in the state it acts on. -/
def written : σ → List α → List β
  | _, [] => []
  | s, a :: labels => (write s a).toList ++ written (step s a) labels

variable {step write} {keep : σ → Prop} {obs : σ → Option β} {s : σ} {labels : List α}

/-- Writes that do not depend on the state, while an invariant holds. -/
theorem written_eq_filterMap {w : α → Option β} (hs : keep s)
    (hkeep : ∀ s a, keep s → keep (step s a)) (hwrite : ∀ s a, keep s → write s a = w a) :
    written step write s labels = labels.filterMap w := by
  induction labels generalizing s with
  | nil => rfl
  | cons a labels ih =>
    rw [written, ih (hkeep s a hs), hwrite s a hs, List.filterMap_cons]
    cases w a <;> rfl

variable {cond : σ → α → Prop}

theorem lastWrite_wins_along (halong : Along step cond s labels) (hs : keep s)
    (hkeep : ∀ s a, keep s → cond s a → keep (step s a))
    (hstep : ∀ s a, keep s → cond s a → obs (step s a) = (write s a).or (obs s)) :
    obs (labels.foldl step s) = ((written step write s labels).getLast?).or (obs s) := by
  induction labels generalizing s with
  | nil => rfl
  | cons a labels ih =>
    obtain ⟨hcond, halong⟩ := halong
    have hhead : (write s a).toList.getLast? = write s a := by cases write s a <;> rfl
    rw [List.foldl_cons, ih halong (hkeep s a hs hcond), hstep s a hs hcond, written,
      List.getLast?_append, hhead, Option.or_assoc]

theorem firstWrite_wins_along (halong : Along step cond s labels) (hs : keep s)
    (hkeep : ∀ s a, keep s → cond s a → keep (step s a))
    (hstep : ∀ s a, keep s → cond s a → obs (step s a) = (obs s).or (write s a)) :
    obs (labels.foldl step s) = (obs s).or (written step write s labels).head? := by
  induction labels generalizing s with
  | nil => simp [written]
  | cons a labels ih =>
    obtain ⟨hcond, halong⟩ := halong
    have hhead : (write s a).toList.head? = write s a := by cases write s a <;> rfl
    rw [List.foldl_cons, ih halong (hkeep s a hs hcond), hstep s a hs hcond, written,
      List.head?_append, hhead, Option.or_assoc]

theorem lastWrite_wins (hs : keep s) (hkeep : ∀ s a, keep s → keep (step s a))
    (hstep : ∀ s a, keep s → obs (step s a) = (write s a).or (obs s)) :
    obs (labels.foldl step s) = ((written step write s labels).getLast?).or (obs s) :=
  lastWrite_wins_along (along_of_forall fun _ _ => trivial) hs (fun s a h _ => hkeep s a h)
    fun s a h (_ : True) => hstep s a h

theorem firstWrite_wins (hs : keep s) (hkeep : ∀ s a, keep s → keep (step s a))
    (hstep : ∀ s a, keep s → obs (step s a) = (obs s).or (write s a)) :
    obs (labels.foldl step s) = (obs s).or (written step write s labels).head? :=
  firstWrite_wins_along (along_of_forall fun _ _ => trivial) hs (fun s a h _ => hkeep s a h)
    fun s a h (_ : True) => hstep s a h

end BackboneEvents.WriteHistories
