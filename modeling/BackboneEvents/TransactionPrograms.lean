import Mathlib.Data.List.Basic

/-!
# Transactions as programs of statements

A program is the tree of statements one transaction may issue. A statement names
the row locks it takes, the rows it writes as a change of the database given the
snapshot it read, and how the program goes on from that snapshot. A note is
recorded outside the transaction: at once, surviving a rollback, or after the commit.
-/
namespace BackboneEvents.TransactionPrograms

inductive Program (S L N E α : Type) where
  | done (a : α)
  | refuse (e : E)
  | statement (locks : S → List L) (write : S → S → S) (next : S → Program S L N E α)
  | note (n : N) (next : Program S L N E α)
  | noteAfter (n : N) (next : Program S L N E α)

namespace Program

variable {S L N E α β γ : Type}

def bind : Program S L N E α → (α → Program S L N E β) → Program S L N E β
  | .done a, f => f a
  | .refuse e, _ => .refuse e
  | .statement locks write next, f => .statement locks write (fun v => (next v).bind f)
  | .note n next, f => .note n (next.bind f)
  | .noteAfter n next, f => .noteAfter n (next.bind f)

instance : Monad (Program S L N E) where
  pure := .done
  bind := bind

/-- A read that takes no lock. -/
def select (f : S → β) : Program S L N E β :=
  .statement (fun _ => []) (fun _ s => s) (fun v => .done (f v))

/-- A read that locks the rows it names. -/
def selectForUpdate (locks : S → List L) (f : S → β) : Program S L N E β :=
  .statement locks (fun _ s => s) (fun v => .done (f v))

/-- A write, answering from the snapshot it was decided on. -/
def update (locks : S → List L) (write : S → S → S) (f : S → β) : Program S L N E β :=
  .statement locks write (fun v => .done (f v))

/-- Go on with the value, or refuse. -/
def require (o : Option β) (e : E) : Program S L N E β :=
  match o with
  | some b => .done b
  | none => .refuse e

def refuseWhen (b : Bool) (e : E) : Program S L N E Unit :=
  if b then .refuse e else .done ()

def onlyIf (b : Bool) (p : Program S L N E Unit) : Program S L N E Unit :=
  if b then p else .done ()

/-- The transaction alone on the database, up to its commit. -/
def run : Program S L N E α → S → Except E (α × S)
  | .done a, s => .ok (a, s)
  | .refuse e, _ => .error e
  | .statement _ write next, s => (next s).run (write s s)
  | .note _ next, s => next.run s
  | .noteAfter _ next, s => next.run s

/-- The records it makes outside the transaction before it ends. -/
def notes : Program S L N E α → S → List N
  | .done _, _ => []
  | .refuse _, _ => []
  | .statement _ write next, s => (next s).notes (write s s)
  | .note n next, s => n :: next.notes s
  | .noteAfter _ next, s => next.notes s

/-- The records it leaves for after the commit. -/
def notesAfter : Program S L N E α → S → List N
  | .done _, _ => []
  | .refuse _, _ => []
  | .statement _ write next, s => (next s).notesAfter (write s s)
  | .note _ next, s => next.notesAfter s
  | .noteAfter n next, s => n :: next.notesAfter s

/-- Commit on success, roll back on a refusal; a record made before that stays. -/
def execute (absorb : S → N → S) (p : Program S L N E α) (s : S) : Except E α × S :=
  match p.run s with
  | .ok (a, s') => (.ok a, (p.notes s ++ p.notesAfter s).foldl absorb s')
  | .error e => (.error e, (p.notes s).foldl absorb s)

@[simp] theorem bind_eq (x : Program S L N E α) (f : α → Program S L N E β) :
    (x >>= f) = x.bind f := rfl

@[simp] theorem pure_eq (a : α) : (pure a : Program S L N E α) = .done a := rfl

@[simp] theorem run_done (a : α) (s : S) : (done a : Program S L N E α).run s = .ok (a, s) := rfl

@[simp] theorem run_refuse (e : E) (s : S) : (refuse e : Program S L N E α).run s = .error e := rfl

@[simp] theorem run_statement (locks : S → List L) (write : S → S → S)
    (next : S → Program S L N E α) (s : S) :
    (statement locks write next).run s = (next s).run (write s s) := rfl

@[simp] theorem run_note (n : N) (next : Program S L N E α) (s : S) :
    (note n next).run s = next.run s := rfl

@[simp] theorem run_noteAfter (n : N) (next : Program S L N E α) (s : S) :
    (noteAfter n next).run s = next.run s := rfl

/-- A sequence runs its first part, then the rest from where that left the database. -/
theorem run_bind (x : Program S L N E α) (f : α → Program S L N E β) (s : S) :
    (x.bind f).run s = (x.run s).bind (fun r => (f r.1).run r.2) := by
  induction x generalizing s with
  | done a => rfl
  | refuse e => rfl
  | statement locks write next ih => exact ih s (write s s)
  | note n next ih => exact ih s
  | noteAfter n next ih => exact ih s

theorem run_bind_ok {x : Program S L N E α} {f : α → Program S L N E β} {s s' : S} {b : β}
    (h : (x.bind f).run s = .ok (b, s')) :
    ∃ a t, x.run s = .ok (a, t) ∧ (f a).run t = .ok (b, s') := by
  rw [run_bind] at h
  cases hx : x.run s with
  | error e => rw [hx] at h; cases h
  | ok r => exact ⟨r.1, r.2, rfl, by rw [hx] at h; exact h⟩

theorem bind_assoc (x : Program S L N E α) (f : α → Program S L N E β)
    (g : β → Program S L N E γ) : (x.bind f).bind g = x.bind (fun a => (f a).bind g) := by
  induction x with
  | done a => rfl
  | refuse e => rfl
  | statement locks write next ih => exact congrArg _ (funext ih)
  | note n next ih => exact congrArg _ ih
  | noteAfter n next ih => exact congrArg _ ih

theorem notes_map (p : Program S L N E α) (f : α → β) (s : S) :
    (p.bind fun a => .done (f a)).notes s = p.notes s := by
  induction p generalizing s with
  | done a => rfl
  | refuse e => rfl
  | statement locks write next ih => exact ih s _
  | note n next ih => exact congrArg _ (ih s)
  | noteAfter n next ih => exact ih s

theorem notesAfter_map (p : Program S L N E α) (f : α → β) (s : S) :
    (p.bind fun a => .done (f a)).notesAfter s = p.notesAfter s := by
  induction p generalizing s with
  | done a => rfl
  | refuse e => rfl
  | statement locks write next ih => exact ih s _
  | note n next ih => exact ih s
  | noteAfter n next ih => exact congrArg _ (ih s)

/-- Answering another way changes nothing else. -/
theorem execute_map (absorb : S → N → S) (p : Program S L N E α) (f : α → β) (s : S) :
    (p.bind fun a => .done (f a)).execute absorb s =
      ((p.execute absorb s).1.map f, (p.execute absorb s).2) := by
  simp only [execute, run_bind, notes_map, notesAfter_map]
  cases p.run s <;> rfl

@[simp] theorem run_select (f : S → β) (s : S) :
    (select f : Program S L N E β).run s = .ok (f s, s) := rfl

@[simp] theorem run_selectForUpdate (locks : S → List L) (f : S → β) (s : S) :
    (selectForUpdate locks f : Program S L N E β).run s = .ok (f s, s) := rfl

@[simp] theorem run_update (locks : S → List L) (write : S → S → S) (f : S → β) (s : S) :
    (update locks write f : Program S L N E β).run s = .ok (f s, write s s) := rfl

@[simp] theorem run_require_some (b : β) (e : E) (s : S) :
    (require (some b) e : Program S L N E β).run s = .ok (b, s) := rfl

@[simp] theorem run_require_none (e : E) (s : S) :
    (require (none : Option β) e : Program S L N E β).run s = .error e := rfl

theorem run_refuseWhen (b : Bool) (e : E) (s : S) :
    (refuseWhen b e : Program S L N E Unit).run s =
      if b then .error e else .ok ((), s) := by cases b <;> rfl

theorem run_onlyIf (b : Bool) (p : Program S L N E Unit) (s : S) :
    (onlyIf b p).run s = if b then p.run s else .ok ((), s) := by cases b <;> rfl

/-- Every error the program may come to refuse with satisfies `P`. -/
def Refuses (P : E → Prop) : Program S L N E α → Prop
  | .done _ => True
  | .refuse e => P e
  | .statement _ _ next => ∀ v, Refuses P (next v)
  | .note _ next => Refuses P next
  | .noteAfter _ next => Refuses P next

variable {P : E → Prop}

theorem refuses_bind {x : Program S L N E α} {f : α → Program S L N E β} (hx : x.Refuses P)
    (hf : ∀ a, (f a).Refuses P) : (x.bind f).Refuses P := by
  induction x with
  | done a => exact hf a
  | refuse e => exact hx
  | statement locks write next ih => exact fun v => ih v (hx v)
  | note n next ih => exact ih hx
  | noteAfter n next ih => exact ih hx

theorem refuses_require {o : Option β} {e : E} (he : P e) :
    (require o e : Program S L N E β).Refuses P := by
  cases o with
  | none => exact he
  | some b => trivial

theorem refuses_refuseWhen {b : Bool} {e : E} (he : P e) :
    (refuseWhen b e : Program S L N E Unit).Refuses P := by
  cases b with
  | false => trivial
  | true => exact he

theorem refuses_onlyIf {b : Bool} {p : Program S L N E Unit} (hp : p.Refuses P) :
    (onlyIf b p).Refuses P := by
  cases b with
  | false => trivial
  | true => exact hp

theorem Refuses.error {p : Program S L N E α} (h : p.Refuses P) {s : S} {e : E}
    (hrun : p.run s = .error e) : P e := by
  induction p generalizing s with
  | done a => cases hrun
  | refuse e' => exact Except.error.inj hrun ▸ h
  | statement locks write next ih => exact ih s (h s) hrun
  | note n next ih => exact ih h hrun
  | noteAfter n next ih => exact ih h hrun

end Program

end BackboneEvents.TransactionPrograms
