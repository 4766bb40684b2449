import BackboneEvents.LockWaits

/-!
# Programs that take their locks in an order

A program climbs when, on every path and whatever the others commit meanwhile, each lock it may
wait for ranks above those it holds. The locks a statement takes may depend on what earlier
statements read; what a session relies on the others to leave alone is a relation of its own. A
statement that sweeps a table takes the rows it names as they are stored, where rows may be added
while it waits. From some point on a program may take light locks only: there nothing is promised,
and what it waits for has to be looked at in the state.
-/
namespace BackboneEvents.LockOrders
open TransactionPrograms TransactionInterleavings LockWaits

variable {ι S K L N E α β : Type}

/-- Which locks are waited for, in what order they should be taken, which are only taken under
another, and which are light. A statement that inserts waits for no row. The rows of the swept
table are kept in the order they are stored, each by what never changes of it. -/
structure LockOrder (S K L : Type) where
  row : L → Bool
  inserts : List L → Bool
  under : L → Option L
  light : L → Bool
  order : L → ℕ
  keys : S → List K
  lock : K → L
  under_light : ∀ l, light l = true → under l = none
  lock_light : ∀ k, light (lock k) = true

namespace LockOrder

variable (d : LockOrder S K L)

def counts (locks : List L) (l : L) : Bool := d.row l && !d.inserts locks

/-- Others may wait for it. -/
def Waited (l : L) : Prop := d.row l = true ∧ d.under l = none

/-- The row of `k` is stored before that of `l`. -/
def StoredBefore (s : S) (k l : L) : Prop := [k, l].Sublist ((d.keys s).map d.lock)

/-- The rows rank as they are stored. -/
def AsStored (s : S) : Prop := ((d.keys s).map d.lock).Pairwise fun k l => d.order k < d.order l

/-- The change leaves the keys as they are. -/
def Quiet (f : S → S) : Prop := ∀ s, d.keys (f s) = d.keys s

variable {d}

theorem AsStored.lt {s : S} (h : d.AsStored s) {k l : L} (hbefore : d.StoredBefore s k l) :
    d.order k < d.order l :=
  List.rel_of_pairwise_cons (h.sublist hbefore) (List.mem_singleton_self l)

end LockOrder

/-- A session that holds `held`, and no more than `high`, may take these locks in turn. -/
structure Rises (d : LockOrder S K L) (held high locks : List L) : Prop where
  under : ∀ l ∈ locks, ∀ g, d.under l = some g → g ∈ held
  above : ∀ l ∈ locks, d.counts locks l = true → d.under l = none →
    l ∈ held ∨ ∀ k ∈ high, d.Waited k → d.order k < d.order l
  ascends : locks.Pairwise fun k l => d.counts locks l = true → d.Waited k → d.order k < d.order l

/-- Every lock the program may come to take satisfies `P`. -/
def LocksOnly (P : L → Prop) : Program S L N E α → Prop
  | .done _ => True
  | .refuse _ => True
  | .statement locks _ next => (∀ v, ∀ l ∈ locks v, P l) ∧ ∀ v, LocksOnly P (next v)
  | .note _ next => LocksOnly P next
  | .noteAfter _ next => LocksOnly P next

/-- Every change of the database the program may come to make satisfies `P`. -/
def Writes (P : (S → S) → Prop) : Program S L N E α → Prop
  | .done _ => True
  | .refuse _ => True
  | .statement _ write next => (∀ v, P (write v)) ∧ ∀ v, Writes P (next v)
  | .note _ next => Writes P next
  | .noteAfter _ next => Writes P next

/-- The program climbs from the view `u`, with the locks `held` and no others than `high`. While it
is calm its writes have left the keys as they are; a loose one may then sweep the table, and a
turning one may come to where it takes light locks only. -/
inductive Climbs (d : LockOrder S K L) (rely : S → S → Prop) (loose turning : Prop) :
    Bool → List L → List L → S → Program S L N E α → Prop
  | done {calm : Bool} {held high : List L} {u : S} {a : α} :
      Climbs d rely loose turning calm held high u (.done a)
  | refuse {calm : Bool} {held high : List L} {u : S} {e : E} :
      Climbs d rely loose turning calm held high u (.refuse e)
  | statement {calm calm' : Bool} {held high : List L} {u : S} {locks : S → List L}
      {write : S → S → S} {next : S → Program S L N E α} (taken : List L)
      (fixed : ∀ v, rely u v → locks v = [] ∨ locks v = taken) (rises : Rises d held high taken)
      (quiet : calm' = true → calm = true ∧ ∀ v, d.Quiet (write v))
      (rest : ∀ v, rely u v → Climbs d rely loose turning calm' (held ++ locks v) (high ++ taken)
        (write v v) (next v)) :
      Climbs d rely loose turning calm held high u (.statement locks write next)
  | sweep {held high : List L} {u : S} {locks : S → List L} {write : S → S → S}
      {next : S → Program S L N E α} (may : loose) (picks : K → Bool) (swept : List K)
      (named : ∀ v, locks v = ((d.keys v).filter picks).map d.lock)
      (begun : swept <+: (d.keys u).filter picks) (has : ∀ k ∈ swept, d.lock k ∈ held)
      (holds : ∀ l ∈ high, d.light l = true)
      (bound : ∀ l ∈ high, d.Waited l → ∃ k ∈ swept, d.lock k = l)
      (rest : ∀ v high', rely u v → (∀ l ∈ high', d.light l = true) →
        Climbs d rely loose turning false (held ++ locks v) high' (write v v) (next v)) :
      Climbs d rely loose turning true held high u (.statement locks write next)
  | note {calm : Bool} {held high : List L} {u : S} {n : N} {next : Program S L N E α}
      (rest : Climbs d rely loose turning calm held high u next) :
      Climbs d rely loose turning calm held high u (.note n next)
  | noteAfter {calm : Bool} {held high : List L} {u : S} {n : N} {next : Program S L N E α}
      (rest : Climbs d rely loose turning calm held high u next) :
      Climbs d rely loose turning calm held high u (.noteAfter n next)
  | light {calm : Bool} {held high : List L} {u : S} {p : Program S L N E α} (may : turning)
      (holds : ∀ l ∈ high, d.light l = true) (only : LocksOnly (fun l => d.light l = true) p) :
      Climbs d rely loose turning calm held high u p

section climbs

variable {d : LockOrder S K L} {rely : S → S → Prop} {loose turning : Prop} {calm : Bool}
  {held held' high high' : List L} {u : S} {p : Program S L N E α}

theorem append_subset_append {a b c : List L} (h : a ⊆ b) : a ++ c ⊆ b ++ c :=
  List.append_subset.mpr
    ⟨List.subset_append_of_subset_left c h, List.subset_append_right b c⟩

theorem Rises.weaken {locks : List L} (h : Rises d held high locks) (hheld : held ⊆ held')
    (hhigh : high' ⊆ high) : Rises d held' high' locks where
  under l hl g hg := hheld (h.under l hl g hg)
  above l hl hcounts hunder :=
    (h.above l hl hcounts hunder).imp (fun hmem => hheld hmem)
      fun habove k hk => habove k (hhigh hk)
  ascends := h.ascends

/-- Holding more, and nothing beyond the old bound, is no harm. -/
theorem Climbs.weaken (h : Climbs d rely loose turning calm held high u p) (hheld : held ⊆ held')
    (hhigh : high' ⊆ high) : Climbs d rely loose turning calm held' high' u p := by
  induction h generalizing held' high' with
  | done => exact .done
  | refuse => exact .refuse
  | statement taken fixed rises quiet rest ih =>
    exact .statement taken fixed (rises.weaken hheld hhigh) quiet fun v hv =>
      ih v hv (append_subset_append hheld) (append_subset_append hhigh)
  | sweep may picks swept named begun has holds bound rest ih =>
    exact .sweep may picks swept named begun (fun k hk => hheld (has k hk))
      (fun l hl => holds l (hhigh hl)) (fun l hl => bound l (hhigh hl)) fun v high'' hv hlight =>
        ih v high'' hv hlight (append_subset_append hheld) (List.Subset.refl _)
  | note rest ih => exact .note (ih hheld hhigh)
  | noteAfter rest ih => exact .noteAfter (ih hheld hhigh)
  | light may holds only => exact .light may (fun l hl => holds l (hhigh hl)) only

/-- What climbs without looking back at its writes climbs anyway. -/
theorem Climbs.calmer (h : Climbs d rely loose turning false held high u p) :
    Climbs d rely loose turning calm held high u p := by
  generalize hcalm : false = calm' at h
  induction h with
  | done => exact .done
  | refuse => exact .refuse
  | statement taken fixed rises quiet rest ih =>
    exact .statement taken fixed rises (fun h => absurd (quiet h).1 (by simp [← hcalm])) rest
  | sweep => cases hcalm
  | note rest ih => exact .note (ih hcalm)
  | noteAfter rest ih => exact .noteAfter (ih hcalm)
  | light may holds only => exact .light may holds only

/-- With the first of its locks that is missing, a session still rises. -/
theorem Rises.taken {before after : List L} {l : L}
    (h : Rises d held high (before ++ l :: after)) (hbefore : ∀ k ∈ before, k ∈ held) :
    Rises d (held ++ [l]) (high ++ [l]) (before ++ l :: after) where
  under k hk g hg := List.mem_append_left _ (h.under k hk g hg)
  above k hk hcounts hunder := by
    rcases List.mem_append.mp hk with hk' | hk'
    · exact .inl (List.mem_append_left _ (hbefore k hk'))
    rcases List.mem_cons.mp hk' with rfl | hafter
    · exact .inl (List.mem_append_right _ (List.mem_singleton_self k))
    rcases h.above k hk hcounts hunder with hheld | habove
    · exact .inl (List.mem_append_left _ hheld)
    · right
      intro m hm hwaited
      rcases List.mem_append.mp hm with hm | hm
      · exact habove m hm hwaited
      · rw [List.mem_singleton.mp hm] at hwaited ⊢
        have hlast := (List.pairwise_append.mp h.ascends).2.1
        exact (List.pairwise_cons.mp hlast).1 k hafter hcounts hwaited
  ascends := h.ascends

end climbs

section sequence

variable {d : LockOrder S K L} {rely : S → S → Prop} {loose turning : Prop} {calm : Bool}
  {held high : List L} {u : S} {k : β → Program S L N E α} {f : S → β} {locks : S → List L}

theorem rises_nil : Rises d held high [] where
  under _ hl := absurd hl List.not_mem_nil
  above _ hl := absurd hl List.not_mem_nil
  ascends := .nil

/-- A lock alone, above all that others may wait for. -/
theorem rises_singleton {l : L} (hunder : ∀ g, d.under l = some g → g ∈ held)
    (habove : d.under l = none → l ∈ held ∨ ∀ k ∈ high, d.Waited k → d.order k < d.order l) :
    Rises d held high [l] where
  under l' hl' := by
    rw [List.mem_singleton.mp hl']
    exact hunder
  above l' hl' _ := by
    rw [List.mem_singleton.mp hl']
    exact habove
  ascends := List.pairwise_singleton _ _

/-- Locks that are never waited for are taken in any order. -/
theorem rises_of_not_counts {locks : List L} (hcounts : ∀ l ∈ locks, d.counts locks l = false)
    (hunder : ∀ l ∈ locks, d.under l = none) : Rises d held high locks where
  under l hl g hg := by
    rw [hunder l hl] at hg
    cases hg
  above l hl hcounted := by
    rw [hcounts l hl] at hcounted
    cases hcounted
  ascends := List.pairwise_of_forall_mem_list fun k _ l hl hcounted => by
    rw [hcounts l hl] at hcounted
    cases hcounted

theorem Climbs.select
    (rest : ∀ v, rely u v → Climbs d rely loose turning calm held high v (k (f v))) :
    Climbs d rely loose turning calm held high u ((Program.select f).bind k) :=
  .statement [] (fun _ _ => .inl rfl) rises_nil (fun h => ⟨h, fun _ _ => rfl⟩) fun v hv => by
    rw [List.append_nil, List.append_nil]
    exact rest v hv

/-- A write of any kind. -/
theorem Climbs.writes {write : S → S → S} {next : S → Program S L N E α} (taken : List L)
    (fixed : ∀ v, rely u v → locks v = [] ∨ locks v = taken) (rises : Rises d held high taken)
    (rest : ∀ v, rely u v → Climbs d rely loose turning false (held ++ locks v) (high ++ taken)
      (write v v) (next v)) :
    Climbs d rely loose turning calm held high u (.statement locks write next) :=
  .statement taken fixed rises (fun h => by cases h) rest

theorem Climbs.update {write : S → S → S} (taken : List L)
    (fixed : ∀ v, rely u v → locks v = [] ∨ locks v = taken) (rises : Rises d held high taken)
    (rest : ∀ v, rely u v → Climbs d rely loose turning false (held ++ locks v) (high ++ taken)
      (write v v) (k (f v))) :
    Climbs d rely loose turning calm held high u ((Program.update locks write f).bind k) :=
  .writes taken fixed rises rest

/-- A write that leaves the keys as they are. -/
theorem Climbs.quietUpdate {write : S → S → S} (taken : List L)
    (fixed : ∀ v, rely u v → locks v = [] ∨ locks v = taken) (rises : Rises d held high taken)
    (quiet : ∀ v, d.Quiet (write v))
    (rest : ∀ v, rely u v → Climbs d rely loose turning calm (held ++ locks v) (high ++ taken)
      (write v v) (k (f v))) :
    Climbs d rely loose turning calm held high u ((Program.update locks write f).bind k) :=
  .statement taken fixed rises (fun h => ⟨h, quiet⟩) rest

/-- A sweep of the rows that `picks` picks, by a session that holds none that others wait for. -/
theorem Climbs.sweepUpdate {write : S → S → S} (may : loose) (picks : K → Bool)
    (named : ∀ v, locks v = ((d.keys v).filter picks).map d.lock)
    (holds : ∀ l ∈ high, d.light l = true) (bare : ∀ l ∈ high, ¬ d.Waited l)
    (rest : ∀ v high', rely u v → (∀ l ∈ high', d.light l = true) →
      Climbs d rely loose turning false (held ++ locks v) high' (write v v) (k (f v))) :
    Climbs d rely loose turning true held high u ((Program.update locks write f).bind k) :=
  .sweep may picks [] named (List.nil_prefix) (fun _ hk => absurd hk List.not_mem_nil) holds
    (fun l hl hwaited => absurd hwaited (bare l hl)) rest

theorem Climbs.selectForUpdate (taken : List L)
    (fixed : ∀ v, rely u v → locks v = [] ∨ locks v = taken) (rises : Rises d held high taken)
    (rest : ∀ v, rely u v → Climbs d rely loose turning calm (held ++ locks v) (high ++ taken) v
      (k (f v))) :
    Climbs d rely loose turning calm held high u ((Program.selectForUpdate locks f).bind k) :=
  .statement taken fixed rises (fun h => ⟨h, fun _ _ => rfl⟩) rest

theorem Climbs.require {o : Option β} {e : E}
    (rest : ∀ b, o = some b → Climbs d rely loose turning calm held high u (k b)) :
    Climbs d rely loose turning calm held high u ((Program.require o e).bind k) := by
  cases o with
  | none => exact .refuse
  | some b => exact rest b rfl

theorem Climbs.refuseWhen {b : Bool} {e : E} {k : Unit → Program S L N E α}
    (rest : b = false → Climbs d rely loose turning calm held high u (k ())) :
    Climbs d rely loose turning calm held high u ((Program.refuseWhen b e).bind k) := by
  cases b with
  | true => exact .refuse
  | false => exact rest rfl

theorem Climbs.onlyIf {b : Bool} {q : Program S L N E Unit} {k : Unit → Program S L N E α}
    (whenTrue : b = true → Climbs d rely loose turning calm held high u (q.bind k))
    (whenFalse : b = false → Climbs d rely loose turning calm held high u (k ())) :
    Climbs d rely loose turning calm held high u ((Program.onlyIf b q).bind k) := by
  cases b with
  | true => exact whenTrue rfl
  | false => exact whenFalse rfl

end sequence

section everywhere

variable {P : (S → S) → Prop} {Q : L → Prop} {x : Program S L N E β} {k : β → Program S L N E α}
  {f : S → β} {locks : S → List L}

theorem writes_bind (hx : Writes P x) (hk : ∀ b, Writes P (k b)) : Writes P (x.bind k) := by
  induction x with
  | done b => exact hk b
  | refuse e => trivial
  | statement locks write next ih => exact ⟨hx.1, fun v => ih v (hx.2 v)⟩
  | note n next ih => exact ih hx
  | noteAfter n next ih => exact ih hx

theorem writes_select (h : P fun s => s) : Writes P (Program.select f : Program S L N E β) :=
  ⟨fun _ => h, fun _ => trivial⟩

theorem writes_selectForUpdate (h : P fun s => s) :
    Writes P (Program.selectForUpdate locks f : Program S L N E β) :=
  ⟨fun _ => h, fun _ => trivial⟩

theorem writes_update {write : S → S → S} (h : ∀ v, P (write v)) :
    Writes P (Program.update locks write f : Program S L N E β) :=
  ⟨h, fun _ => trivial⟩

theorem writes_require (o : Option β) (e : E) :
    Writes P (Program.require o e : Program S L N E β) := by
  cases o <;> trivial

theorem writes_refuseWhen (b : Bool) (e : E) :
    Writes P (Program.refuseWhen b e : Program S L N E Unit) := by
  cases b <;> trivial

theorem writes_onlyIf {b : Bool} {q : Program S L N E Unit} (h : Writes P q) :
    Writes P (Program.onlyIf b q) := by
  cases b with
  | true => exact h
  | false => trivial

theorem Writes.imp {P' : (S → S) → Prop} (h : Writes P x)
    (himp : ∀ g, P g → P' g) : Writes P' x := by
  induction x with
  | done b => trivial
  | refuse e => trivial
  | statement locks write next ih => exact ⟨fun v => himp _ (h.1 v), fun v => ih v (h.2 v)⟩
  | note n next ih => exact ih h
  | noteAfter n next ih => exact ih h

/-- What every change keeps, and every record, a transaction keeps. -/
theorem Writes.run {inv : S → Prop} (h : Writes (fun f => ∀ s, inv s → inv (f s)) x) {s s' : S}
    {b : β} (hrun : x.run s = .ok (b, s')) (hs : inv s) : inv s' := by
  induction x generalizing s with
  | done a => exact (Prod.mk.inj (Except.ok.inj hrun)).2 ▸ hs
  | refuse e => cases hrun
  | statement locks write next ih => exact ih s (h.2 s) hrun (h.1 s s hs)
  | note n next ih => exact ih h hrun hs
  | noteAfter n next ih => exact ih h hrun hs

theorem Writes.execute {inv : S → Prop} {absorb : S → N → S}
    (h : Writes (fun f => ∀ s, inv s → inv (f s)) x) (habsorb : ∀ s n, inv s → inv (absorb s n))
    {s : S} (hs : inv s) : inv (x.execute absorb s).2 := by
  have hfold : ∀ (l : List N) (s : S), inv s → inv (l.foldl absorb s) := by
    intro l
    induction l with
    | nil => exact fun _ hs => hs
    | cons n l ih => exact fun s hs => ih _ (habsorb s n hs)
  rw [Program.execute]
  cases hrun : x.run s with
  | error e => exact hfold _ _ hs
  | ok r => exact hfold _ _ (h.run hrun hs)

theorem locksOnly_bind (hx : LocksOnly Q x) (hk : ∀ b, LocksOnly Q (k b)) :
    LocksOnly Q (x.bind k) := by
  induction x with
  | done b => exact hk b
  | refuse e => trivial
  | statement locks write next ih => exact ⟨hx.1, fun v => ih v (hx.2 v)⟩
  | note n next ih => exact ih hx
  | noteAfter n next ih => exact ih hx

theorem locksOnly_update {write : S → S → S} (h : ∀ v, ∀ l ∈ locks v, Q l) :
    LocksOnly Q (Program.update locks write f : Program S L N E β) :=
  ⟨h, fun _ => trivial⟩

end everywhere

/-- What each session relies on the others to leave alone between its statements. -/
structure Relies (ι S : Type) where
  rel : ι → S → S → Prop
  refl : ∀ i s, rel i s s
  trans : ∀ i {s t u}, rel i s t → rel i t u → rel i s u

/-- A change that breaks no reliance, that session `i` makes of related databases alike, and that
only adds to the rows stored. -/
structure Relies.Allows (r : Relies ι S) (d : LockOrder S K L) (i : ι) (f : S → S) : Prop where
  kept : ∀ j s, r.rel j s (f s)
  alike : ∀ s t, r.rel i s t → r.rel i (f s) (f t)
  grown : ∀ s, d.keys s <+: d.keys (f s)

section views

variable {r : Relies ι S} {d : LockOrder S K L} {i j : ι} {x : Session S L N E α}

theorem rel_view (h : ∀ f ∈ x.staged, r.Allows d j f) (s : S) : r.rel i s (x.view s) := by
  rw [Session.view]
  revert h
  induction x.staged generalizing s with
  | nil => exact fun _ => r.refl i s
  | cons f staged ih =>
    exact fun h => r.trans i ((h f List.mem_cons_self).kept i s)
      (ih (f s) fun g hg => h g (List.mem_cons_of_mem _ hg))

theorem rel_view_view (h : ∀ f ∈ x.staged, r.Allows d i f) {s t : S} (hst : r.rel i s t) :
    r.rel i (x.view s) (x.view t) := by
  rw [Session.view, Session.view]
  revert h
  induction x.staged generalizing s t with
  | nil => exact fun _ => hst
  | cons f staged ih =>
    exact fun h => ih ((h f List.mem_cons_self).alike s t hst) fun g hg =>
      h g (List.mem_cons_of_mem _ hg)

theorem keys_view_grown (h : ∀ f ∈ x.staged, r.Allows d j f) (s : S) :
    d.keys s <+: d.keys (x.view s) := by
  rw [Session.view]
  revert h
  induction x.staged generalizing s with
  | nil => exact fun _ => List.prefix_rfl
  | cons f staged ih =>
    exact fun h => ((h f List.mem_cons_self).grown s).trans
      (ih (f s) fun g hg => h g (List.mem_cons_of_mem _ hg))

/-- Quiet writes show the keys as they are stored. -/
theorem keys_view_quiet (h : ∀ f ∈ x.staged, d.Quiet f) (s : S) : d.keys (x.view s) = d.keys s := by
  rw [Session.view]
  revert h
  induction x.staged generalizing s with
  | nil => exact fun _ => rfl
  | cons f staged ih =>
    exact fun h => (ih (f s) fun g hg => h g (List.mem_cons_of_mem _ hg)).trans
      (h f List.mem_cons_self s)

theorem rel_foldl_absorb {absorb : S → N → S} (h : ∀ i s n, r.rel i s (absorb s n)) (rows : List N)
    (s : S) : r.rel i s (rows.foldl absorb s) := by
  induction rows generalizing s with
  | nil => exact r.refl i s
  | cons n rows ih => exact r.trans i (h i s n) (ih (absorb s n))

theorem keys_foldl_absorb {absorb : S → N → S} (h : ∀ n, d.Quiet (absorb · n)) (rows : List N)
    (s : S) : d.keys (rows.foldl absorb s) = d.keys s := by
  induction rows generalizing s with
  | nil => rfl
  | cons n rows ih => exact (ih (absorb s n)).trans (h n s)

end views

/-- The session climbs from what it saw last. -/
def Placed (d : LockOrder S K L) (r : Relies ι S) (i : ι) (loose turning : Prop)
    (x : Session S L N E α) (s : S) (p : Program S L N E α) : Prop :=
  ∃ calm high u, Climbs d (r.rel i) loose turning calm x.locks high u p ∧ x.locks ⊆ high ∧
    r.rel i u (x.view s) ∧
      (calm = true → (∀ f ∈ x.staged, d.Quiet f) ∧ d.keys u <+: d.keys s)

structure Ordered (d : LockOrder S K L) (r : Relies ι S) (loose turning : ι → Prop)
    (w : World ι S L N E α) : Prop where
  exclusive : w.Exclusive
  under : ∀ i, ∀ l ∈ (w.sessions i).locks, ∀ g, d.under l = some g → g ∈ (w.sessions i).locks
  staged : ∀ i, ∀ f ∈ (w.sessions i).staged, r.Allows d i f
  placed : ∀ i p, (w.sessions i).phase = .running p → Writes (r.Allows d i) p ∧
    Placed d r i (loose i) (turning i) (w.sessions i) w.committed p

/-- The session holds light locks only and asks for another, and others may wait for those rows of
what it holds that are stored before the one it asks for. -/
def Sweeping (d : LockOrder S K L) (x : Session S L N E α) (s : S) (l : L) : Prop :=
  (∀ k ∈ x.locks, d.light k = true) ∧ d.light l = true ∧
    ∀ k ∈ x.locks, d.Waited k → d.StoredBefore s k l

section placed

variable [DecidableEq L] {d : LockOrder S K L} {r : Relies ι S} {i : ι} {loose turning : Prop}
  {x : Session S L N E α} {s : S} {p : Program S L N E α}

/-- The rows a sweep has taken come before the row it asks for next. -/
theorem asks_of_sweep {locks : S → List L} {picks : K → Bool} {swept : List K} {u : S} {l : L}
    (named : ∀ v, locks v = ((d.keys v).filter picks).map d.lock)
    (begun : swept <+: (d.keys u).filter picks) (has : ∀ k ∈ swept, d.lock k ∈ x.locks)
    (hquiet : ∀ f ∈ x.staged, d.Quiet f) (hgrown : d.keys u <+: d.keys s)
    (hwants : wants x s = locks (x.view s)) (hasks : asks x s = some l) :
    ∃ further k, d.lock k = l ∧ (∀ m ∈ further, d.lock m ∈ x.locks) ∧ swept <+: further ∧
      further ++ [k] <+: (d.keys s).filter picks := by
  obtain ⟨hnew, before, after, hsplit, hbefore⟩ := asks_eq_some hasks
  rw [hwants, named, keys_view_quiet hquiet] at hsplit
  obtain ⟨further, rest, hkeys, rfl, hrest⟩ := List.map_eq_append_iff.mp hsplit
  obtain ⟨k, later, rfl, hk, -⟩ := List.map_eq_cons_iff.mp hrest
  have hstored : further ++ [k] <+: (d.keys s).filter picks :=
    ⟨later, by rw [hkeys, List.append_assoc, List.singleton_append]⟩
  refine ⟨further, k, hk, fun m hm => hbefore _ (List.mem_map_of_mem hm), ?_, hstored⟩
  -- The row asked for is not held, so the sweep has not come to it.
  rcases List.prefix_or_prefix_of_prefix (begun.trans (hgrown.filter picks))
    ((List.prefix_append further [k]).trans hstored) with hbelow | hbeyond
  · exact hbelow
  · obtain ⟨more, rfl⟩ := hbeyond
    cases more with
    | nil => rw [List.append_nil]
    | cons m more =>
      have hnext : further ++ m :: more <+: (d.keys s).filter picks :=
        begun.trans (hgrown.filter picks)
      obtain ⟨tail, htail⟩ := hnext
      rw [hkeys, List.append_assoc, List.append_cancel_left_eq, List.cons_append,
        List.cons.injEq] at htail
      have hheld := has m (List.mem_append_right _ List.mem_cons_self)
      rw [htail.1, hk] at hheld
      exact absurd hheld hnew

/-- What a climbing session asks for ranks above what it holds, or it holds light locks only: then
it sweeps, or it may turn back. -/
theorem Placed.asks (h : Placed d r i loose turning x s p) (hphase : x.phase = .running p) {l : L}
    (hasks : asks x s = some l) :
    (turning ∧ (∀ k ∈ x.locks, d.light k = true) ∧ d.light l = true) ∨
      (loose ∧ Sweeping d x s l) ∨
      (∀ g, d.under l = some g → g ∈ x.locks) ∧ (d.counts (wants x s) l = true → d.under l = none →
        ∀ k ∈ x.locks, d.Waited k → d.order k < d.order l) := by
  obtain ⟨calm, high, u, hclimbs, hhigh, hrely, hcalm⟩ := h
  obtain ⟨hnew, before, after, hwants, hbefore⟩ := asks_eq_some hasks
  obtain ⟨locks, write, next, hstatement⟩ := exists_statement_of_asks hasks
  obtain rfl : p = .statement locks write next := by
    rw [hphase] at hstatement
    exact Phase.running.inj hstatement
  have hl : l ∈ locks (x.view s) := by
    rw [← wants_statement hphase, hwants]
    simp
  cases hclimbs with
  | light may holds only => exact .inl ⟨may, fun k hk => holds k (hhigh hk), only.1 _ l hl⟩
  | sweep may picks swept named begun has holds bound rest =>
    obtain ⟨hquiet, hgrown⟩ := hcalm rfl
    obtain ⟨further, k, rfl, -, hfurther, hstored⟩ :=
      asks_of_sweep named begun has hquiet hgrown (wants_statement hphase) hasks
    refine .inr (.inl ⟨may, fun m hm => holds m (hhigh hm), d.lock_light k, fun m hm hwaited => ?_⟩)
    obtain ⟨m', hm', rfl⟩ := bound m (hhigh hm) hwaited
    have hpair : [m', k].Sublist (further ++ [k]) :=
      (List.singleton_sublist.mpr (hfurther.subset hm')).append (List.Sublist.refl [k])
    exact ((hpair.trans hstored.sublist).trans List.filter_sublist).map d.lock
  | statement taken fixed rises quiet rest =>
    refine .inr (.inr ?_)
    rcases fixed _ hrely with hnone | htaken
    · rw [hnone] at hl
      cases hl
    rw [wants_statement hphase, htaken]
    rw [htaken] at hl
    refine ⟨rises.under l hl, fun hcounts hunder k hk hwaited => ?_⟩
    rcases rises.above l hl hcounts hunder with hheld | habove
    · exact absurd hheld hnew
    · exact habove k (hhigh hk) hwaited

theorem Placed.taken (h : Placed d r i loose turning x s p) (hphase : x.phase = .running p) {l : L}
    (hasks : LockWaits.asks x s = some l) :
    Placed d r i loose turning { x with locks := x.locks ++ [l] } s p := by
  obtain ⟨calm, high, u, hclimbs, hhigh, hrely, hcalm⟩ := h
  obtain ⟨hnew, before, after, hwants, hbefore⟩ := asks_eq_some hasks
  obtain ⟨locks, write, next, hstatement⟩ := exists_statement_of_asks hasks
  obtain rfl : p = .statement locks write next := by
    rw [hphase] at hstatement
    exact Phase.running.inj hstatement
  rw [wants_statement hphase] at hwants
  have hl : l ∈ locks (x.view s) := by
    rw [hwants]
    simp
  cases hclimbs with
  | light may holds only =>
    refine ⟨calm, high ++ [l], u, .light may (fun k hk => ?_) only, append_subset_append hhigh,
      hrely, hcalm⟩
    rcases List.mem_append.mp hk with hold | hnew
    · exact holds k hold
    · rw [List.mem_singleton.mp hnew]
      exact only.1 (x.view s) l hl
  | sweep may picks swept named begun has holds bound rest =>
    obtain ⟨hquiet, hgrown⟩ := hcalm rfl
    obtain ⟨further, k, rfl, hfree, hfurther, hstored⟩ :=
      asks_of_sweep named begun has hquiet hgrown (wants_statement hphase) hasks
    have hview := keys_view_quiet hquiet s
    refine ⟨true, high ++ [d.lock k], x.view s, ?_, append_subset_append hhigh, r.refl i _,
      fun _ => ⟨hquiet, by rw [hview]⟩⟩
    refine .sweep may picks (further ++ [k]) named (by rw [hview]; exact hstored)
      (fun m hm => ?_) (fun m hm => ?_) (fun m hm hwaited => ?_) fun v high' hv hlight =>
        (rest v high' (r.trans i hrely hv) hlight).weaken
          (append_subset_append (List.subset_append_left _ _)) (List.Subset.refl _)
    · rcases List.mem_append.mp hm with hold | hlast
      · exact List.mem_append_left _ (hfree m hold)
      · rw [List.mem_singleton.mp hlast]
        exact List.mem_append_right _ (List.mem_singleton_self _)
    · rcases List.mem_append.mp hm with hold | hlast
      · exact holds m hold
      · rw [List.mem_singleton.mp hlast]
        exact d.lock_light k
    · rcases List.mem_append.mp hm with hold | hlast
      · obtain ⟨m', hm', hsame⟩ := bound m hold hwaited
        exact ⟨m', List.mem_append_left _ (hfurther.subset hm'), hsame⟩
      · exact ⟨k, List.mem_append_right _ (List.mem_singleton_self k),
          (List.mem_singleton.mp hlast).symm⟩
  | statement taken fixed rises quiet rest =>
    rcases fixed _ hrely with hnone | htaken
    · rw [hnone] at hwants
      simp at hwants
    obtain rfl : taken = before ++ l :: after := htaken.symm.trans hwants
    refine ⟨calm, high ++ [l], u, ?_, append_subset_append hhigh, hrely, hcalm⟩
    refine .statement _ fixed (rises.taken hbefore) quiet fun v hv => (rest v hv).weaken ?_ ?_
    · exact append_subset_append (List.subset_append_left _ _)
    · refine List.append_subset.mpr ⟨List.append_subset.mpr ⟨List.subset_append_left _ _, ?_⟩,
        List.subset_append_right _ _⟩
      intro k hk
      rw [List.mem_singleton.mp hk]
      simp

end placed

section run

variable {d : LockOrder S K L} {r : Relies ι S} {loose turning : ι → Prop} {absorb : S → N → S}
  {s : S} {w w' : World ι S L N E α} {program : ι → Program S L N E α} {i : ι}

theorem ordered_start (hwrites : ∀ i, Writes (r.Allows d i) (program i))
    (hclimbs : ∀ i, Climbs d (r.rel i) (loose i) (turning i) true [] [] s (program i)) :
    Ordered d r loose turning (start s program) where
  exclusive := World.exclusive_start s program
  under i l hl := by simp [start] at hl
  staged i f hf := by simp [start] at hf
  placed i p hp := by
    obtain rfl : program i = p := by simpa [start] using hp
    exact ⟨hwrites i, true, [], s, hclimbs i, List.Subset.refl _, r.refl i s,
      fun _ => ⟨by simp [start], List.prefix_rfl⟩⟩

variable [DecidableEq ι]

/-- A session that goes on, over a database changed as the others allow. -/
theorem Ordered.set {x : Session S L N E α} {t : S} (h : Ordered d r loose turning w)
    (hrel : ∀ i, r.rel i w.committed t) (hgrown : d.keys w.committed <+: d.keys t)
    (hlocks : x.locks ⊆ (w.sessions i).locks)
    (hunder : ∀ l ∈ x.locks, ∀ g, d.under l = some g → g ∈ x.locks)
    (hstaged : ∀ f ∈ x.staged, r.Allows d i f)
    (hplaced : ∀ p, x.phase = .running p →
      Writes (r.Allows d i) p ∧ Placed d r i (loose i) (turning i) x t p) :
    Ordered d r loose turning { w.set i x with committed := t } where
  exclusive := World.Exclusive.set h.exclusive fun l hl => .inl (hlocks hl)
  under j := by
    by_cases hj : j = i
    · subst hj
      simpa using hunder
    · simpa [Function.update_of_ne hj] using h.under j
  staged j := by
    by_cases hj : j = i
    · subst hj
      simpa using hstaged
    · simpa [Function.update_of_ne hj] using h.staged j
  placed j p hp := by
    by_cases hj : j = i
    · subst hj
      simp only [World.set_sessions, Function.update_self] at hp ⊢
      exact hplaced p hp
    · simp only [World.set_sessions, Function.update_of_ne hj] at hp ⊢
      obtain ⟨hwrites, calm, high, u, hclimbs, hhigh, hrely, hcalm⟩ := h.placed j p hp
      exact ⟨hwrites, calm, high, u, hclimbs, hhigh,
        r.trans j hrely (rel_view_view (h.staged j) (hrel j)),
        fun htrue => ⟨(hcalm htrue).1, (hcalm htrue).2.trans hgrown⟩⟩

/-- The part of a step after all locks of a statement are held. -/
theorem Ordered.goesOn [DecidableEq L] (h : Ordered d r loose turning w)
    (habsorb : ∀ i s n, r.rel i s (absorb s n)) (hquiet : ∀ n, d.Quiet (absorb · n))
    (ready : asks (w.sessions i) w.committed = none) (hstep : World.Step absorb w i w') :
    Ordered d r loose turning w' := by
  cases hstep with
  | stays => exact h
  | commit phase =>
    refine h.set (fun j => ?_) ?_ (List.nil_subset _) (by simp [Session.ended])
      (by simp [Session.ended]) (by simp [Session.ended])
    · exact r.trans j (rel_view (h.staged i) _) (rel_foldl_absorb habsorb _ _)
    · rw [keys_foldl_absorb hquiet]
      exact keys_view_grown (h.staged i) _
  | rollback phase =>
    exact h.set (fun j => r.refl j _) List.prefix_rfl (List.nil_subset _) (by simp [Session.ended])
      (by simp [Session.ended]) (by simp [Session.ended])
  | @statement locks write next phase granted =>
    obtain ⟨⟨hwrite, hwrites⟩, calm, high, u, hclimbs, hhigh, hrely, hcalm⟩ := h.placed i _ phase
    have hheld : locks ((w.sessions i).view w.committed) ⊆ (w.sessions i).locks := fun l hl =>
      asks_eq_none ready (by rwa [wants_statement phase])
    have hlocks : ((w.sessions i).stated locks write next
        ((w.sessions i).view w.committed)).locks ⊆ (w.sessions i).locks :=
      List.append_subset.mpr ⟨List.Subset.refl _, hheld⟩
    refine h.set (fun j => r.refl j _) List.prefix_rfl hlocks (fun l hl g hg => ?_) (fun f hf => ?_)
      fun p hp => ?_
    · exact List.mem_append_left _ (h.under i l (hlocks hl) g hg)
    · rcases List.mem_append.mp hf with hold | hnew
      · exact h.staged i f hold
      · exact List.mem_singleton.mp hnew ▸ hwrite _
    · obtain rfl : next ((w.sessions i).view w.committed) = p := by simpa [Session.stated] using hp
      refine ⟨hwrites _, ?_⟩
      cases hclimbs with
      | light may holds only =>
        refine ⟨false, high, write ((w.sessions i).view w.committed)
          ((w.sessions i).view w.committed), .light may holds (only.2 _),
          List.Subset.trans hlocks hhigh, ?_, fun htrue => by cases htrue⟩
        rw [Session.view_stated]
        exact r.refl i _
      | sweep may picks swept named begun has holds bound rest =>
        refine ⟨false, high, write ((w.sessions i).view w.committed)
          ((w.sessions i).view w.committed), rest _ high hrely holds,
          List.Subset.trans hlocks hhigh, ?_, fun htrue => by cases htrue⟩
        rw [Session.view_stated]
        exact r.refl i _
      | @statement _ calm' _ _ _ _ _ _ taken fixed rises quiet rest =>
        refine ⟨calm', high ++ taken, write ((w.sessions i).view w.committed)
          ((w.sessions i).view w.committed), rest _ hrely,
          List.Subset.trans hlocks (List.Subset.trans hhigh (List.subset_append_left _ _)), ?_,
          fun htrue => ?_⟩
        · rw [Session.view_stated]
          exact r.refl i _
        · obtain ⟨hstill, hkeys⟩ := quiet htrue
          obtain ⟨hstaged, -⟩ := hcalm hstill
          refine ⟨fun f hf => ?_, ?_⟩
          · rcases List.mem_append.mp hf with hold | hnew
            · exact hstaged f hold
            · exact List.mem_singleton.mp hnew ▸ hkeys _
          · rw [hkeys, keys_view_quiet hstaged]
  | @note n next phase =>
    obtain ⟨hwrites, calm, high, u, hclimbs, hhigh, hrely, hcalm⟩ := h.placed i _ phase
    refine h.set (fun j => habsorb j _ n) (by rw [hquiet]) (List.Subset.refl _) (h.under i)
      (h.staged i) fun p hp => ?_
    obtain rfl : next = p := by simpa using hp
    have hrely' := r.trans i hrely (rel_view_view (h.staged i) (habsorb i w.committed n))
    refine ⟨hwrites, calm, high, u, ?_, hhigh, hrely', fun htrue => ?_⟩
    · cases hclimbs with
      | note rest => exact rest
      | light may holds only => exact .light may holds only
    · rw [hquiet]
      exact hcalm htrue
  | @noteAfter n next phase =>
    obtain ⟨hwrites, calm, high, u, hclimbs, hhigh, hrely, hcalm⟩ := h.placed i _ phase
    refine h.set (fun j => r.refl j _) List.prefix_rfl (List.Subset.refl _) (h.under i) (h.staged i)
      fun p hp => ?_
    obtain rfl : next = p := by simpa using hp
    refine ⟨hwrites, calm, high, u, ?_, hhigh, hrely, hcalm⟩
    cases hclimbs with
    | noteAfter rest => exact rest
    | light may holds only => exact .light may holds only

theorem ordered_step [DecidableEq L] (h : Ordered d r loose turning w)
    (habsorb : ∀ i s n, r.rel i s (absorb s n)) (hquiet : ∀ n, d.Quiet (absorb · n))
    (hstep : RowStep absorb w i w') : Ordered d r loose turning w' := by
  cases hstep with
  | stays => exact h
  | goesOn ready step => exact h.goesOn habsorb hquiet ready step
  | @takes l asked free =>
    obtain ⟨locks, write, next, hphase⟩ := exists_statement_of_asks asked
    obtain ⟨hwrites, hplaced⟩ := h.placed i _ hphase
    have hgate : ∀ g, d.under l = some g → g ∈ (w.sessions i).locks := by
      rcases hplaced.asks hphase asked with ⟨-, -, hlight⟩ | ⟨-, -, hlight, -⟩ | ⟨hunder, -⟩
      · intro g hg
        rw [d.under_light l hlight] at hg
        cases hg
      · intro g hg
        rw [d.under_light l hlight] at hg
        cases hg
      · exact hunder
    have hstep : RowStep absorb w i
        (w.set i { w.sessions i with locks := (w.sessions i).locks ++ [l] }) := .takes asked free
    refine ⟨exclusive_rowStep h.exclusive hstep, fun j => ?_, fun j => ?_, fun j p hp => ?_⟩
    · by_cases hj : j = i
      · subst hj
        simp only [World.set_sessions, Function.update_self]
        intro k hk g hg
        rcases List.mem_append.mp hk with hold | hnew
        · exact List.mem_append_left _ (h.under j k hold g hg)
        · rw [List.mem_singleton.mp hnew] at hg
          exact List.mem_append_left _ (hgate g hg)
      · simpa [Function.update_of_ne hj] using h.under j
    · by_cases hj : j = i
      · subst hj
        simpa using h.staged j
      · simpa [Function.update_of_ne hj] using h.staged j
    · by_cases hj : j = i
      · subst hj
        simp only [World.set_sessions, Function.update_self, World.set_committed] at hp ⊢
        obtain rfl : Program.statement locks write next = p := by
          rw [hphase] at hp
          exact Phase.running.inj hp
        exact ⟨hwrites, hplaced.taken hphase asked⟩
      · simp only [World.set_sessions, Function.update_of_ne hj, World.set_committed] at hp ⊢
        exact h.placed j p hp

variable [DecidableEq L] [Fintype ι]

theorem ordered_run (hwrites : ∀ i, Writes (r.Allows d i) (program i))
    (hclimbs : ∀ i, Climbs d (r.rel i) (loose i) (turning i) true [] [] s (program i))
    (habsorb : ∀ i s n, r.rel i s (absorb s n)) (hquiet : ∀ n, d.Quiet (absorb · n))
    (schedule : List ι) :
    Ordered d r loose turning (schedule.foldl (rowStep absorb) (start s program)) := by
  have hstart : Ordered d r loose turning (start s program) := ordered_start hwrites hclimbs
  revert hstart
  generalize start s program = w
  intro hstart
  induction schedule generalizing w with
  | nil => exact hstart
  | cons i schedule ih => exact ih _ (ordered_step hstart habsorb hquiet (rowStep_cases absorb w i))

omit [DecidableEq ι] [Fintype ι] in
/-- Where the sessions that sweep, or may turn back, ask upward too, none waits for itself. -/
theorem Ordered.not_transGen_waits (h : Ordered d r loose turning w)
    (hsweep : ∀ i l, loose i → Asks d.counts w i l → Sweeping d (w.sessions i) w.committed l →
      ∀ k ∈ (w.sessions i).locks, d.Waited k → d.order k < d.order l)
    (hlight : ∀ i l, turning i → Asks d.counts w i l →
      (∀ k ∈ (w.sessions i).locks, d.light k = true) →
        ∀ k ∈ (w.sessions i).locks, d.Waited k → d.order k < d.order l) (i : ι) :
    ¬ Relation.TransGen (Waits d.counts w) i i := by
  have hplaced : ∀ {i l}, Asks d.counts w i l →
      (∀ g, d.under l = some g → g ∈ (w.sessions i).locks) ∧
      (d.under l = none → ∀ k ∈ (w.sessions i).locks, d.Waited k → d.order k < d.order l) := by
    intro i l hl
    obtain ⟨locks, write, next, hphase⟩ := exists_statement_of_asks hl.1
    have hnone : d.light l = true → ∀ g, d.under l = some g → g ∈ (w.sessions i).locks := by
      intro hlow g hg
      rw [d.under_light l hlow] at hg
      cases hg
    rcases (h.placed i _ hphase).2.asks hphase hl.1 with ⟨hmay, hlow, hlast⟩ | ⟨hmay, hsweeping⟩ |
      ⟨hunder, habove⟩
    · exact ⟨hnone hlast, fun _ => hlight i l hmay hl hlow⟩
    · exact ⟨hnone hsweeping.2.1, fun _ => hsweep i l hmay hl hsweeping⟩
    · exact ⟨hunder, habove hl.2⟩
  -- Who asks for a lock under another, and who holds it, hold that other one too.
  have hwaited : ∀ {i j l}, Asks d.counts w i l → j ≠ i → l ∈ (w.sessions j).locks →
      d.Waited l := by
    intro i j l hl hne hheld
    have hcounts := hl.2
    simp only [LockOrder.counts, Bool.and_eq_true] at hcounts
    refine ⟨hcounts.1, ?_⟩
    cases hg : d.under l with
    | none => rfl
    | some g =>
      exact absurd ((hplaced hl).1 g hg) (h.exclusive j i hne g (h.under j l hheld g hg))
  refine LockWaits.not_transGen_waits d.order (fun i j m l k hl hne hheld hk hm hheldm => ?_) i
  exact (hplaced hk).2 (hwaited hk hm hheldm).2 l hheld (hwaited hl hne hheld)

end run

end BackboneEvents.LockOrders
