import BackboneEvents.TransactionInterleavings
import Mathlib.Logic.Relation

/-!
# Waiting for locks one at a time

A statement takes its locks one after the other, in the order it names them, and is carried out
when the session holds them all. A session waits for the one that holds the lock it asks for
next. When every lock a session may wait for ranks above those it holds that others may wait
for, no sessions wait for each other in a ring. A lock that is only taken under another one is
never waited for.
-/
namespace BackboneEvents.LockWaits
open TransactionPrograms TransactionInterleavings

variable {ι S L N E α β : Type}

/-- The locks of the session's next statement. -/
def wants (x : Session S L N E α) (s : S) : List L :=
  match x.phase with
  | .running (.statement locks _ _) => locks (x.view s)
  | _ => []

theorem wants_statement {x : Session S L N E α} {s : S} {locks : S → List L} {write : S → S → S}
    {next : S → Program S L N E α} (h : x.phase = .running (.statement locks write next)) :
    wants x s = locks (x.view s) := by
  simp only [wants, h]

section asks

variable [DecidableEq L]

/-- The first of them it does not hold. -/
def asks (x : Session S L N E α) (s : S) : Option L := (wants x s).find? (fun l => decide (l ∉ x.locks))

theorem asks_eq_some {x : Session S L N E α} {s : S} {l : L} (h : asks x s = some l) :
    l ∉ x.locks ∧ ∃ before after, wants x s = before ++ l :: after ∧ ∀ k ∈ before, k ∈ x.locks := by
  obtain ⟨hl, before, after, hwants, hbefore⟩ := List.find?_eq_some_iff_append.mp h
  exact ⟨by simpa using hl, before, after, hwants, fun k hk => by simpa using hbefore k hk⟩

theorem asks_eq_none {x : Session S L N E α} {s : S} (h : asks x s = none) {l : L}
    (hl : l ∈ wants x s) : l ∈ x.locks := by
  simpa using List.find?_eq_none.mp h l hl

theorem exists_statement_of_asks {x : Session S L N E α} {s : S} {l : L} (h : asks x s = some l) :
    ∃ locks write next, x.phase = .running (.statement locks write next) := by
  obtain ⟨-, before, after, hwants, -⟩ := asks_eq_some h
  rw [wants] at hwants
  split at hwants
  · next locks write next hphase => exact ⟨locks, write, next, hphase⟩
  · simp at hwants

end asks

section step

variable [DecidableEq ι] [DecidableEq L]

/-- Session `i` takes the lock it asks for, or waits for it; when it holds them all, it goes on. -/
def rowStep [Fintype ι] (absorb : S → N → S) (w : World ι S L N E α) (i : ι) : World ι S L N E α :=
  match asks (w.sessions i) w.committed with
  | some l =>
    if w.blocked i [l] then w
    else w.set i { w.sessions i with locks := (w.sessions i).locks ++ [l] }
  | none => w.step absorb i

inductive RowStep (absorb : S → N → S) (w : World ι S L N E α) (i : ι) : World ι S L N E α → Prop
  | stays : RowStep absorb w i w
  | takes {l : L} (asked : asks (w.sessions i) w.committed = some l)
      (free : ∀ j, j ≠ i → l ∉ (w.sessions j).locks) :
      RowStep absorb w i (w.set i { w.sessions i with locks := (w.sessions i).locks ++ [l] })
  | goesOn {w' : World ι S L N E α} (ready : asks (w.sessions i) w.committed = none)
      (step : World.Step absorb w i w') : RowStep absorb w i w'

variable {absorb : S → N → S} {w w' : World ι S L N E α} {i : ι}

theorem rowStep_cases [Fintype ι] (absorb : S → N → S) (w : World ι S L N E α) (i : ι) :
    RowStep absorb w i (rowStep absorb w i) := by
  cases hasks : asks (w.sessions i) w.committed with
  | none =>
    simp only [rowStep, hasks]
    exact .goesOn hasks (World.step_cases absorb w i)
  | some l =>
    simp only [rowStep, hasks]
    cases hblocked : w.blocked i [l] with
    | true => simpa only [if_true] using RowStep.stays
    | false =>
      have hfree : ∀ j, j ≠ i → l ∉ (w.sessions j).locks := fun j hj hheld =>
        of_decide_eq_false hblocked ⟨j, hj, l, List.mem_singleton_self l, hheld⟩
      simpa only [Bool.false_eq_true, if_false] using RowStep.takes hasks hfree

theorem exclusive_rowStep (h : w.Exclusive) (hstep : RowStep absorb w i w') : w'.Exclusive := by
  cases hstep with
  | stays => exact h
  | @takes l asked free =>
    refine h.set fun k hk => ?_
    rcases List.mem_append.mp hk with hold | hnew
    · exact .inl hold
    · exact .inr (List.mem_singleton.mp hnew ▸ free)
  | goesOn ready step => exact World.exclusive_step h step

end step

section waits

variable [DecidableEq L]

/-- The session asks for the lock, and its statement is one that waits for such a lock. -/
def Asks (counts : List L → L → Bool) (w : World ι S L N E α) (i : ι) (l : L) : Prop :=
  asks (w.sessions i) w.committed = some l ∧ counts (wants (w.sessions i) w.committed) l = true

/-- Session `i` waits for a lock that session `j` holds. -/
def Waits (counts : List L → L → Bool) (w : World ι S L N E α) (i j : ι) : Prop :=
  ∃ l, Asks counts w i l ∧ j ≠ i ∧ l ∈ (w.sessions j).locks

/-- When what a session waits for ranks above what others wait for it to give up, none waits for
itself through others. -/
theorem not_transGen_waits {counts : List L → L → Bool} {w : World ι S L N E α} (order : L → ℕ)
    (h : ∀ i j m l k, Asks counts w i l → j ≠ i → l ∈ (w.sessions j).locks → Asks counts w j k →
      m ≠ j → k ∈ (w.sessions m).locks → order l < order k) (i : ι) :
    ¬ Relation.TransGen (Waits counts w) i i := by
  have hpath : ∀ j, Relation.TransGen (Waits counts w) i j → ∀ m l k, Asks counts w i l →
      Asks counts w j k → m ≠ j → k ∈ (w.sessions m).locks → order l < order k := by
    intro j hij
    induction hij with
    | @single j hij =>
      intro m l k hl hk hm hheldm
      obtain ⟨l', hl', hne, hheld⟩ := hij
      obtain rfl : l' = l := Option.some.inj (hl'.1.symm.trans hl.1)
      exact h i j m l' k hl hne hheld hk hm hheldm
    | @tail b c path hbc ih =>
      intro m l k hl hk hm hheldm
      obtain ⟨l', hl', hne, hheld⟩ := hbc
      exact (ih c l l' hl hl' hne hheld).trans (h b c m l' k hl' hne hheld hk hm hheldm)
  intro hcycle
  obtain ⟨j, ⟨l, hl, hne, hheld⟩, -⟩ := Relation.TransGen.head'_iff.mp hcycle
  exact absurd (hpath i hcycle j l l hl hl hne hheld) (Nat.lt_irrefl _)

end waits

end BackboneEvents.LockWaits
