import Mathlib.Logic.Function.Basic

/-!
# What each process did itself

Processes step one at a time over a shared state that anyone may change between their steps.
Beside each process stands the list of what its own steps left since it last started. What a
process keeps of its state and its own records alone, whatever it finds in the shared state,
holds of every process throughout every interleaving.
-/
namespace BackboneEvents.OwnRecords

variable {ι S P E D β : Type}

/-- One step of a process: the shared state, the process and what it leaves. -/
structure Machine (S P E D : Type) where
  turn : E → S → P → S × P × List D

inductive Move (ι S P E : Type) where
  | outside (s : S)
  | become (i : ι) (p : P)
  | turn (i : ι) (e : E)

structure Recorded (ι S P D : Type) where
  shared : S
  procs : ι → P
  own : ι → List D

variable [DecidableEq ι]

def Recorded.next (m : Machine S P E D) (w : Recorded ι S P D) : Move ι S P E → Recorded ι S P D
  | .outside s => { w with shared := s }
  | .become i p =>
    { w with procs := Function.update w.procs i p, own := Function.update w.own i [] }
  | .turn i e =>
    let (s, p, left) := m.turn e w.shared (w.procs i)
    ⟨s, Function.update w.procs i p, Function.update w.own i (w.own i ++ left)⟩

/-- A run whose moves are chosen as it goes. -/
def Recorded.run (m : Machine S P E D) (move : Recorded ι S P D → β → Move ι S P E)
    (w : Recorded ι S P D) (labels : List β) : Recorded ι S P D :=
  labels.foldl (fun w b => w.next m (move w b)) w

/-- A step keeps it, whatever the shared state and whatever it finds outside. -/
def Local (m : Machine S P E D) (inv : P → List D → Prop) : Prop :=
  ∀ e s p own, inv p own → inv (m.turn e s p).2.1 (own ++ (m.turn e s p).2.2)

variable {m : Machine S P E D} {inv : P → List D → Prop} {w : Recorded ι S P D}

theorem Local.next (h : Local m inv) (hw : ∀ i, inv (w.procs i) (w.own i)) {move : Move ι S P E}
    (hmove : ∀ i p, move = .become i p → inv p []) (i : ι) :
    inv ((w.next m move).procs i) ((w.next m move).own i) := by
  cases move with
  | outside s => exact hw i
  | become j p =>
    by_cases hi : i = j
    · subst hi
      simpa [Recorded.next] using hmove i p rfl
    · simpa [Recorded.next, hi] using hw i
  | turn j e =>
    by_cases hi : i = j
    · subst hi
      simpa [Recorded.next] using h e w.shared (w.procs i) (w.own i) (hw i)
    · simpa [Recorded.next, hi] using hw i

theorem Local.run (h : Local m inv) {move : Recorded ι S P D → β → Move ι S P E}
    (hmove : ∀ w b i p, move w b = .become i p → inv p [])
    (hw : ∀ i, inv (w.procs i) (w.own i)) (labels : List β) (i : ι) :
    inv ((w.run m move labels).procs i) ((w.run m move labels).own i) := by
  induction labels generalizing w with
  | nil => exact hw i
  | cons b labels ih => exact ih (h.next hw (hmove w b))

/-- A system whose steps are the moves of its processes goes through the states of the run. -/
theorem run_refines {W : Type} (next : W → β → W) (state : W → S × (ι → P))
    {move : Recorded ι S P D → β → Move ι S P E}
    (hstep : ∀ (x : W) (r : Recorded ι S P D) b, (r.shared, r.procs) = state x →
      ((r.next m (move r b)).shared, (r.next m (move r b)).procs) = state (next x b))
    {x : W} (hx : (w.shared, w.procs) = state x) (labels : List β) :
    ((w.run m move labels).shared, (w.run m move labels).procs) = state (labels.foldl next x) := by
  induction labels generalizing w x with
  | nil => exact hx
  | cons b labels ih => exact ih (hstep x w b hx)

end BackboneEvents.OwnRecords
