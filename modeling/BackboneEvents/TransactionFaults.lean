import BackboneEvents.TransactionPrograms

/-!
# Transactions that are cut short

A fault strikes at a step of a program, at its commit, or among the records it leaves for
after the commit. A cut transaction commits nothing, but a record it made outside the
transaction before the fault stays.
-/
namespace BackboneEvents.TransactionPrograms

/-- Where a program is cut short. The step after `k` made ones fails, or the process stops
before it; every step is made but the commit is not; or, after the commit, `k` records are
made. A program that ends before the step is not cut short. -/
inductive Fault where
  | step (k : ℕ)
  | commit
  | committed (k : ℕ)
  deriving DecidableEq, Repr

namespace Fault

/-- The fault as the rest of the program meets it after one step; none when the step is the
one that is not made. -/
def later : Fault → Option Fault
  | .step 0 => none
  | .step (k + 1) => some (.step k)
  | .commit => some .commit
  | .committed k => some (.committed k)

/-- The fault as the records after the first meet it. -/
def afterOne : Fault → Fault
  | .step k => .step k
  | .commit => .commit
  | .committed k => .committed (k - 1)

/-- The first record after the commit is not made. -/
def skips : Fault → Bool
  | .committed 0 => true
  | .committed (_ + 1) | .step _ | .commit => false

theorem later_eq_commit {fault fault' : Fault} (h : fault.later = some fault') :
    fault' = .commit ↔ fault = .commit := by
  cases fault with
  | step k =>
    cases k with
    | zero => cases h
    | succ k =>
      obtain rfl := Option.some.inj h
      simp
  | commit | committed =>
    obtain rfl := Option.some.inj h
    simp

theorem afterOne_eq_commit {fault : Fault} : fault.afterOne = .commit ↔ fault = .commit := by
  cases fault <;> simp [afterOne]

end Fault

/-- What a call leaves: the database its transaction committed, if it did, and the records
made outside the transaction before and after the commit. -/
structure Aftermath (S N : Type) where
  committed : Option S
  notes : List N
  notesAfter : List N

namespace Program

variable {S L N E α β : Type}

/-- The program under a fault; `recorded` tells whether its records outside the transaction
are taken. -/
def aftermath (recorded : Bool) : Program S L N E α → Fault → S → Aftermath S N
  | .done _, .commit, _ => ⟨none, [], []⟩
  | .done _, .step _, s | .done _, .committed _, s => ⟨some s, [], []⟩
  | .refuse _, _, _ => ⟨none, [], []⟩
  | .statement _ write next, fault, s =>
    match fault.later with
    | none => ⟨none, [], []⟩
    | some fault => (next s).aftermath recorded fault (write s s)
  | .note n next, fault, s =>
    match fault.later with
    | none => ⟨none, [], []⟩
    | some fault =>
      let left := next.aftermath recorded fault s
      { left with notes := if recorded then n :: left.notes else left.notes }
  | .noteAfter n next, fault, s =>
    let left := next.aftermath recorded fault.afterOne s
    if left.committed.isNone || fault.skips || !recorded then left
    else { left with notesAfter := n :: left.notesAfter }

/-- The records of a trail, those of the transaction itself among them. -/
def trailAfter (trail : S → List N) (s : S) (left : Aftermath S N) : List N :=
  trail (left.committed.getD s) ++ left.notes ++ left.notesAfter

/-- The trail grows only if the transaction commits. -/
def TellsTruth (trail : S → List N) (s : S) (left : Aftermath S N) : Prop :=
  left.committed = none → trailAfter trail s left = trail s

/-- No record is made before the commit. -/
def Silent : Program S L N E α → Prop
  | .done _ | .refuse _ => True
  | .statement _ _ next => ∀ v, (next v).Silent
  | .note _ _ => False
  | .noteAfter _ next => next.Silent

/-- A record made before the commit is the last thing before it. -/
def NotesLast : Program S L N E α → Prop
  | .done _ | .refuse _ => True
  | .statement _ _ next => ∀ v, (next v).NotesLast
  | .note _ next => ∃ a, next = .done a
  | .noteAfter _ next => next.NotesLast

variable {p : Program S L N E α} {f : α → Program S L N E β}

theorem Silent.bind (h : p.Silent) (hf : ∀ a, (f a).Silent) : (p.bind f).Silent := by
  induction p with
  | done a => exact hf a
  | refuse e => trivial
  | statement locks write next ih => exact fun v => ih v (h v)
  | note n next ih => exact h.elim
  | noteAfter n next ih => exact ih h

theorem Silent.bind_notesLast (h : p.Silent) (hf : ∀ a, (f a).NotesLast) :
    (p.bind f).NotesLast := by
  induction p with
  | done a => exact hf a
  | refuse e => trivial
  | statement locks write next ih => exact fun v => ih v (h v)
  | note n next ih => exact h.elim
  | noteAfter n next ih => exact ih h

theorem Silent.notesLast (h : p.Silent) : p.NotesLast := by
  induction p with
  | done a => trivial
  | refuse e => trivial
  | statement locks write next ih => exact fun v => ih v (h v)
  | note n next ih => exact h.elim
  | noteAfter n next ih => exact ih h

theorem Silent.notes_eq_nil (h : p.Silent) (s : S) : p.notes s = [] := by
  induction p generalizing s with
  | done a => rfl
  | refuse e => rfl
  | statement locks write next ih => exact ih s (h s) (write s s)
  | note n next ih => exact h.elim
  | noteAfter n next ih => exact ih h s

theorem NotesLast.bind_done (h : p.NotesLast) (g : α → β) :
    (p.bind fun a => .done (g a)).NotesLast := by
  induction p with
  | done a => trivial
  | refuse e => trivial
  | statement locks write next ih => exact fun v => ih v (h v)
  | note n next ih =>
    obtain ⟨a, rfl⟩ := h
    exact ⟨g a, rfl⟩
  | noteAfter n next ih => exact ih h

/-- A refusal before the last record makes none. -/
theorem NotesLast.notes_of_refused (h : p.NotesLast) {s : S} {e : E} (hrun : p.run s = .error e) :
    p.notes s = [] := by
  induction p generalizing s with
  | done a => rfl
  | refuse e => rfl
  | statement locks write next ih => exact ih s (h s) hrun
  | note n next ih =>
    obtain ⟨a, rfl⟩ := h
    cases hrun
  | noteAfter n next ih => exact ih h hrun

/-- A sequence makes the records of its first part, then those of the rest. -/
theorem notes_bind (p : Program S L N E α) (f : α → Program S L N E β) (s : S) :
    (p.bind f).notes s = p.notes s ++
      match p.run s with
      | .ok (a, t) => (f a).notes t
      | .error _ => [] := by
  induction p generalizing s with
  | done a => rfl
  | refuse e => rfl
  | statement locks write next ih => exact ih s (write s s)
  | note n next ih => exact congrArg (n :: ·) (ih s)
  | noteAfter n next ih => exact ih s

theorem notes_bind_done (p : Program S L N E α) (g : α → β) (s : S) :
    (p.bind fun a => .done (g a)).notes s = p.notes s := by
  rw [notes_bind]
  cases p.run s <;> exact List.append_nil _

theorem silent_select (g : S → β) : (select g : Program S L N E β).Silent := fun _ => trivial

theorem silent_selectForUpdate (locks : S → List L) (g : S → β) :
    (selectForUpdate locks g : Program S L N E β).Silent := fun _ => trivial

theorem silent_update (locks : S → List L) (write : S → S → S) (g : S → β) :
    (update locks write g : Program S L N E β).Silent := fun _ => trivial

theorem silent_require (o : Option β) (e : E) : (require o e : Program S L N E β).Silent := by
  cases o <;> trivial

theorem silent_refuseWhen (b : Bool) (e : E) :
    (refuseWhen b e : Program S L N E Unit).Silent := by
  cases b <;> trivial

theorem silent_onlyIf {b : Bool} {q : Program S L N E Unit} (h : q.Silent) :
    (onlyIf b q).Silent := by
  cases b
  · trivial
  · exact h

theorem tellsTruth_iff {trail : S → List N} {s : S} {left : Aftermath S N}
    (hafter : left.committed = none → left.notesAfter = []) :
    TellsTruth trail s left ↔ (left.committed = none → left.notes = []) := by
  refine forall_congr' fun hnone => ?_
  rw [trailAfter, hnone, hafter hnone, List.append_nil, Option.getD_none, List.append_right_eq_self]

/-- Without a commit nothing is recorded for after it. -/
theorem notesAfter_of_uncommitted (recorded : Bool) (p : Program S L N E α) (fault : Fault) (s : S)
    (h : (p.aftermath recorded fault s).committed = none) :
    (p.aftermath recorded fault s).notesAfter = [] := by
  induction p generalizing fault s with
  | done a => cases fault <;> rfl
  | refuse e => rfl
  | statement locks write next ih =>
    simp only [aftermath] at h ⊢
    cases hlater : fault.later with
    | none => rfl
    | some fault' => rw [hlater] at h; exact ih s fault' (write s s) h
  | note n next ih =>
    simp only [aftermath] at h ⊢
    cases hlater : fault.later with
    | none => rfl
    | some fault' => rw [hlater] at h; exact ih fault' s h
  | noteAfter n next ih =>
    simp only [aftermath] at h ⊢
    split at h
    · next hquiet => rw [if_pos hquiet]; exact ih _ s h
    · next hloud =>
      have hnone : (next.aftermath recorded fault.afterOne s).committed = none := h
      exact absurd (by simp [hnone]) hloud

/-- A program whose record is the last thing before its commit tells the truth exactly when
the fault does not strike at the commit once the record is taken. -/
theorem NotesLast.tellsTruth_iff (h : p.NotesLast) (trail : S → List N) (recorded : Bool)
    (fault : Fault) (s : S) : TellsTruth trail s (p.aftermath recorded fault s) ↔
      (fault = .commit → recorded = true → p.notes s = []) := by
  rw [Program.tellsTruth_iff (notesAfter_of_uncommitted recorded p fault s)]
  induction p generalizing fault s with
  | done a => exact iff_of_true (fun _ => by cases fault <;> rfl) fun _ _ => rfl
  | refuse e => exact iff_of_true (fun _ => rfl) fun _ _ => rfl
  | statement locks write next ih =>
    simp only [aftermath, notes]
    cases hlater : fault.later with
    | none => exact iff_of_true (fun _ => rfl) fun hcommit => by rw [hcommit] at hlater; cases hlater
    | some fault' =>
      rw [← Fault.later_eq_commit hlater]
      exact ih s (h s) fault' (write s s)
  | note n next ih =>
    obtain ⟨a, rfl⟩ := h
    cases fault with
    | step k =>
      refine iff_of_true (fun hnone => ?_) fun hcommit => by cases hcommit
      cases k with
      | zero => rfl
      | succ k => cases hnone
    | commit => cases recorded <;> simp [aftermath, Fault.later, notes]
    | committed k => exact iff_of_true (fun hnone => by cases hnone) fun hcommit => by cases hcommit
  | noteAfter n next ih =>
    have hrest := ih h fault.afterOne s
    rw [Fault.afterOne_eq_commit] at hrest
    simp only [aftermath, notes]
    rw [← hrest]
    split <;> rfl

/-- No record is made outside the transaction. -/
def Plain : Program S L N E α → Prop
  | .done _ | .refuse _ => True
  | .statement _ _ next => ∀ v, (next v).Plain
  | .note _ _ | .noteAfter _ _ => False

theorem Plain.bind (h : p.Plain) (hf : ∀ a, (f a).Plain) : (p.bind f).Plain := by
  induction p with
  | done a => exact hf a
  | refuse e => trivial
  | statement locks write next ih => exact fun v => ih v (h v)
  | note n next ih => exact h.elim
  | noteAfter n next ih => exact h.elim

theorem Plain.records_eq_nil (h : p.Plain) (s : S) : p.notes s = [] ∧ p.notesAfter s = [] := by
  induction p generalizing s with
  | done a => exact ⟨rfl, rfl⟩
  | refuse e => exact ⟨rfl, rfl⟩
  | statement locks write next ih => exact ih s (h s) (write s s)
  | note n next ih => exact h.elim
  | noteAfter n next ih => exact h.elim

/-- A plain program alone is its transaction. -/
theorem Plain.execute_ok (h : p.Plain) (absorb : S → N → S) {s t : S} {a : α}
    (hrun : p.run s = .ok (a, t)) : p.execute absorb s = (.ok a, t) := by
  obtain ⟨hnotes, hafter⟩ := h.records_eq_nil s
  simp [execute, hrun, hnotes, hafter]

/-- A plain first part that goes through leaves the records to the rest. -/
theorem Plain.records_bind (h : p.Plain) {s t : S} {a : α} (hrun : p.run s = .ok (a, t)) :
    (p.bind f).notes s = (f a).notes t ∧ (p.bind f).notesAfter s = (f a).notesAfter t := by
  induction p generalizing s with
  | done a' =>
    obtain ⟨rfl, rfl⟩ := Prod.mk.inj (Except.ok.inj hrun)
    exact ⟨rfl, rfl⟩
  | refuse e => cases hrun
  | statement locks write next ih => exact ih s (h s) hrun
  | note n next ih => exact h.elim
  | noteAfter n next ih => exact h.elim

theorem Plain.execute_bind (h : p.Plain) (absorb : S → N → S) {s t u : S} {a : α} {b : β}
    (hrun : p.run s = .ok (a, t)) (hrest : (f a).run t = .ok (b, u)) :
    (p.bind f).execute absorb s = (f a).execute absorb t := by
  have hwhole : (p.bind f).run s = .ok (b, u) := by
    rw [run_bind, hrun]
    exact hrest
  rw [execute, execute, hwhole, hrest]
  simp only [h.records_bind hrun]

theorem plain_select (g : S → β) : (select g : Program S L N E β).Plain := fun _ => trivial

theorem plain_selectForUpdate (locks : S → List L) (g : S → β) :
    (selectForUpdate locks g : Program S L N E β).Plain := fun _ => trivial

theorem plain_update (locks : S → List L) (write : S → S → S) (g : S → β) :
    (update locks write g : Program S L N E β).Plain := fun _ => trivial

theorem plain_require (o : Option β) (e : E) : (require o e : Program S L N E β).Plain := by
  cases o <;> trivial

theorem plain_refuseWhen (b : Bool) (e : E) :
    (refuseWhen b e : Program S L N E Unit).Plain := by
  cases b <;> trivial

theorem plain_onlyIf {b : Bool} {q : Program S L N E Unit} (h : q.Plain) : (onlyIf b q).Plain := by
  cases b
  · trivial
  · exact h

/-- Every way to the end leaves these records for after the commit, and no other. -/
def RecordsAfter (rows : List N) : Program S L N E α → Prop
  | .done _ => rows = []
  | .refuse _ => True
  | .statement _ _ next => ∀ v, (next v).RecordsAfter rows
  | .note _ _ => False
  | .noteAfter n next => ∃ rest, rows = n :: rest ∧ next.RecordsAfter rest

theorem Plain.recordsAfter_bind {rows : List N} (h : p.Plain) (hf : ∀ a, (f a).RecordsAfter rows) :
    (p.bind f).RecordsAfter rows := by
  induction p with
  | done a => exact hf a
  | refuse e => trivial
  | statement locks write next ih => exact fun v => ih v (h v)
  | note n next ih => exact h.elim
  | noteAfter n next ih => exact h.elim

theorem RecordsAfter.silent {rows : List N} (h : p.RecordsAfter rows) : p.Silent := by
  induction p generalizing rows with
  | done a => trivial
  | refuse e => trivial
  | statement locks write next ih => exact fun v => ih v (h v)
  | note n next ih => exact h.elim
  | noteAfter n next ih =>
    obtain ⟨rest, -, hnext⟩ := h
    exact ih hnext

theorem RecordsAfter.notesAfter_eq {rows : List N} {s t : S} {a : α} (h : p.RecordsAfter rows)
    (hrun : p.run s = .ok (a, t)) : p.notesAfter s = rows := by
  induction p generalizing rows s with
  | done a => exact h.symm
  | refuse e => cases hrun
  | statement locks write next ih => exact ih s (h s) hrun
  | note n next ih => exact h.elim
  | noteAfter n next ih =>
    obtain ⟨rest, rfl, hnext⟩ := h
    exact congrArg (n :: ·) (ih hnext hrun)

/-- A program that no fault cuts short leaves what it does on the database alone. -/
theorem aftermath_of_ok {a : α} {s t : S} {k : ℕ} (h : p.run s = .ok (a, t))
    (hk : (p.notesAfter s).length ≤ k) :
    p.aftermath true (.committed k) s = ⟨some t, p.notes s, p.notesAfter s⟩ := by
  induction p generalizing s k with
  | done b =>
    obtain ⟨-, rfl⟩ := Prod.mk.inj (Except.ok.inj h)
    rfl
  | refuse e => cases h
  | statement locks write next ih => exact ih s h hk
  | note n next ih =>
    simp only [aftermath, Fault.later]
    rw [ih h hk]
    rfl
  | noteAfter n next ih =>
    cases k with
    | zero => cases hk
    | succ k =>
      simp only [aftermath, Fault.afterOne, Nat.add_sub_cancel]
      rw [ih h (Nat.le_of_succ_le_succ hk)]
      rfl

end Program

end BackboneEvents.TransactionPrograms
