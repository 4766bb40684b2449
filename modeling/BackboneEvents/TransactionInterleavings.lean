import BackboneEvents.TransactionPrograms
import Mathlib.Data.Fintype.Basic
import Mathlib.Logic.Function.Basic

/-!
# Interleaved transactions under read committed

Sessions run transaction programs against one committed database, a statement at a time.
A statement sees the committed database with its own session's writes on top, waits while
another session holds a row lock it needs, and keeps its locks to the end of its
transaction. Commit puts the session's writes on the committed database of that moment.
-/
namespace BackboneEvents.TransactionInterleavings
open TransactionPrograms

inductive Phase (S L N E α : Type) where
  | running (p : Program S L N E α)
  | committed (a : α)
  | rolledBack (e : E)

/-- A session: its writes so far, its locks, the snapshots its statements read, and the
records it leaves for after its commit. -/
structure Session (S L N E α : Type) where
  phase : Phase S L N E α
  staged : List (S → S)
  locks : List L
  seen : List S
  after : List N

structure World (ι S L N E α : Type) where
  committed : S
  sessions : ι → Session S L N E α

variable {ι S L N E α : Type}

/-- The database as the session sees it. -/
def Session.view (x : Session S L N E α) (s : S) : S := x.staged.foldl (fun s write => write s) s

/-- The session after a statement on the snapshot `v`. -/
def Session.stated (x : Session S L N E α) (locks : S → List L) (write : S → S → S)
    (next : S → Program S L N E α) (v : S) : Session S L N E α :=
  ⟨.running (next v), x.staged ++ [write v], x.locks ++ locks v, x.seen ++ [v], x.after⟩

/-- The session when its transaction is over. -/
def Session.ended (x : Session S L N E α) (phase : Phase S L N E α) : Session S L N E α :=
  ⟨phase, [], [], x.seen, []⟩

@[simp] theorem Session.view_stated (x : Session S L N E α) (locks : S → List L)
    (write : S → S → S) (next : S → Program S L N E α) (v s : S) :
    (x.stated locks write next v).view s = write v (x.view s) := by
  simp [Session.view, Session.stated]

theorem Session.view_of_staged {x : Session S L N E α} (h : x.staged = []) (s : S) :
    x.view s = s := by
  simp [Session.view, h]

instance (x : Session S L N E α) : Decidable (∃ p, x.phase = .running p) :=
  match x.phase with
  | .running p => isTrue ⟨p, rfl⟩
  | .committed _ => isFalse (by rintro ⟨p, hp⟩; cases hp)
  | .rolledBack _ => isFalse (by rintro ⟨p, hp⟩; cases hp)

instance (x : Session S L N E α) : Decidable (∃ a, x.phase = .committed a) :=
  match x.phase with
  | .running _ => isFalse (by rintro ⟨a, ha⟩; cases ha)
  | .committed a => isTrue ⟨a, rfl⟩
  | .rolledBack _ => isFalse (by rintro ⟨a, ha⟩; cases ha)

def start (s : S) (program : ι → Program S L N E α) : World ι S L N E α :=
  ⟨s, fun i => ⟨.running (program i), [], [], [], []⟩⟩

namespace World

variable [DecidableEq ι]

def set (w : World ι S L N E α) (i : ι) (x : Session S L N E α) : World ι S L N E α :=
  { w with sessions := Function.update w.sessions i x }

/-- Another session holds one of the locks. -/
def blocked [Fintype ι] [DecidableEq L] (w : World ι S L N E α) (i : ι) (needed : List L) : Bool :=
  decide (∃ j, j ≠ i ∧ ∃ l ∈ needed, l ∈ (w.sessions j).locks)

/-- Session `i` takes its next step; a session that is over or waits for a lock takes none. -/
def step [Fintype ι] [DecidableEq L] (absorb : S → N → S) (w : World ι S L N E α) (i : ι) :
    World ι S L N E α :=
  let x := w.sessions i
  match x.phase with
  | .committed _ => w
  | .rolledBack _ => w
  | .running (.done a) =>
    { w.set i (x.ended (.committed a)) with
      committed := x.after.foldl absorb (x.view w.committed) }
  | .running (.refuse e) => w.set i (x.ended (.rolledBack e))
  | .running (.statement locks write next) =>
    let v := x.view w.committed
    if w.blocked i (locks v) then w else w.set i (x.stated locks write next v)
  | .running (.note n next) =>
    { w.set i { x with phase := .running next } with committed := absorb w.committed n }
  | .running (.noteAfter n next) =>
    w.set i { x with phase := .running next, after := x.after ++ [n] }

/-- What one step of session `i` can do. -/
inductive Step (absorb : S → N → S) (w : World ι S L N E α) (i : ι) : World ι S L N E α → Prop
  | stays : Step absorb w i w
  | commit {a : α} (phase : (w.sessions i).phase = .running (.done a)) :
      Step absorb w i { w.set i ((w.sessions i).ended (.committed a)) with
        committed := (w.sessions i).after.foldl absorb ((w.sessions i).view w.committed) }
  | rollback {e : E} (phase : (w.sessions i).phase = .running (.refuse e)) :
      Step absorb w i (w.set i ((w.sessions i).ended (.rolledBack e)))
  | statement {locks : S → List L} {write : S → S → S} {next : S → Program S L N E α}
      (phase : (w.sessions i).phase = .running (.statement locks write next))
      (granted : ∀ j, j ≠ i → ∀ l ∈ locks ((w.sessions i).view w.committed),
        l ∉ (w.sessions j).locks) :
      Step absorb w i (w.set i
        ((w.sessions i).stated locks write next ((w.sessions i).view w.committed)))
  | note {n : N} {next : Program S L N E α}
      (phase : (w.sessions i).phase = .running (.note n next)) :
      Step absorb w i { w.set i { w.sessions i with phase := .running next } with
        committed := absorb w.committed n }
  | noteAfter {n : N} {next : Program S L N E α}
      (phase : (w.sessions i).phase = .running (.noteAfter n next)) :
      Step absorb w i (w.set i { w.sessions i with
        phase := .running next
        after := (w.sessions i).after ++ [n] })

variable {absorb : S → N → S} {w : World ι S L N E α} {i : ι}

@[simp] theorem set_sessions (x : Session S L N E α) :
    (w.set i x).sessions = Function.update w.sessions i x := rfl

@[simp] theorem set_committed (x : Session S L N E α) : (w.set i x).committed = w.committed := rfl

theorem step_cases [Fintype ι] [DecidableEq L] (absorb : S → N → S) (w : World ι S L N E α)
    (i : ι) : Step absorb w i (w.step absorb i) := by
  cases hphase : (w.sessions i).phase with
  | committed a => simpa only [step, hphase] using Step.stays
  | rolledBack e => simpa only [step, hphase] using Step.stays
  | running p =>
    cases p with
    | done a => simpa only [step, hphase] using Step.commit hphase
    | refuse e => simpa only [step, hphase] using Step.rollback hphase
    | note n next => simpa only [step, hphase] using Step.note hphase
    | noteAfter n next => simpa only [step, hphase] using Step.noteAfter hphase
    | statement locks write next =>
      cases hblocked : w.blocked i (locks ((w.sessions i).view w.committed)) with
      | true => simpa only [step, hphase, hblocked, if_true] using Step.stays
      | false =>
        have hgranted : ∀ j, j ≠ i → ∀ l ∈ locks ((w.sessions i).view w.committed),
            l ∉ (w.sessions j).locks := fun j hj l hl hheld =>
          of_decide_eq_false hblocked ⟨j, hj, l, hl, hheld⟩
        simpa only [step, hphase, hblocked, Bool.false_eq_true, if_false] using
          Step.statement hphase hgranted

/-- A session that has committed is over. -/
theorem committed_step {a : α} {w' : World ι S L N E α} {j : ι} (hstep : Step absorb w i w')
    (h : (w.sessions j).phase = .committed a) : (w'.sessions j).phase = .committed a := by
  cases hstep with
  | stays => exact h
  | commit phase | rollback phase | statement phase granted | note phase | noteAfter phase =>
    have hj : j ≠ i := fun hj => by
      rw [← hj, h] at phase
      cases phase
    simpa [Function.update_of_ne hj] using h

theorem committed_run [Fintype ι] [DecidableEq L] {a : α} {j : ι} (schedule : List ι)
    (h : (w.sessions j).phase = .committed a) :
    ((schedule.foldl (step absorb) w).sessions j).phase = .committed a := by
  induction schedule generalizing w with
  | nil => exact h
  | cons i schedule ih => exact ih (committed_step (step_cases absorb w i) h)

/-- No two sessions hold the same lock. -/
def Exclusive (w : World ι S L N E α) : Prop :=
  ∀ i j, i ≠ j → ∀ l ∈ (w.sessions i).locks, l ∉ (w.sessions j).locks

omit [DecidableEq ι] in
theorem exclusive_start (s : S) (program : ι → Program S L N E α) :
    Exclusive (start s program) := by
  intro i j _ l hl
  simp [start] at hl

/-- A session that only gives up locks, or takes free ones, keeps locks exclusive. -/
theorem Exclusive.set {x : Session S L N E α} (h : Exclusive w)
    (hx : ∀ l ∈ x.locks, l ∈ (w.sessions i).locks ∨ ∀ j, j ≠ i → l ∉ (w.sessions j).locks) :
    Exclusive (w.set i x) := by
  intro j k hjk l hl
  have hown : ∀ k, k ≠ i → ∀ l ∈ x.locks, l ∉ (w.sessions k).locks := fun k hk l hl hheld => by
    rcases hx l hl with hold | hfree
    · exact h i k (Ne.symm hk) l hold hheld
    · exact hfree k hk hheld
  by_cases hj : j = i
  · subst hj
    have hl' : l ∈ x.locks := by simpa using hl
    simpa [Function.update_of_ne hjk.symm] using hown k hjk.symm l hl'
  · have hl' : l ∈ (w.sessions j).locks := by simpa [Function.update_of_ne hj] using hl
    by_cases hk : k = i
    · subst hk
      simpa using fun hheld => hown j hj l hheld hl'
    · simpa [Function.update_of_ne hk] using h j k hjk l hl'

theorem exclusive_step {w' : World ι S L N E α} (h : Exclusive w) (hstep : Step absorb w i w') :
    Exclusive w' := by
  cases hstep with
  | stays => exact h
  | commit phase => exact Exclusive.set h (by simp [Session.ended])
  | rollback phase => exact h.set (by simp [Session.ended])
  | note phase => exact Exclusive.set h fun l hl => .inl hl
  | noteAfter phase => exact h.set fun l hl => .inl hl
  | statement phase granted =>
    refine h.set fun l hl => ?_
    rcases List.mem_append.mp hl with hold | hnew
    · exact .inl hold
    · exact .inr fun j hj => granted j hj l hnew

end World

end BackboneEvents.TransactionInterleavings
