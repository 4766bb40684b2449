import BackboneEvents.TransactionFaults
import BackboneEvents.TransactionInterleavings

/-!
# Locks kept to the end

Every transaction keeps the locks it takes until it ends. A lock guards what its holder may go on
from: others may commit meanwhile, but nothing that the holder would answer or write otherwise.
Then an interleaved run commits what its transactions, one after the other in the order of their
commits, would commit, with the same answers. A refusal has its place where it was decided.
-/
namespace BackboneEvents.KeptLocks
open TransactionPrograms TransactionInterleavings

variable {ι S L N E α β : Type}

/-- How the database may change for the holder of a lock. -/
structure Guards (L S : Type) where
  rel : L → S → S → Prop
  refl : ∀ l s, rel l s s
  trans : ∀ {l s t u}, rel l s t → rel l t u → rel l s u

/-- So it changes for the holder of all these locks. -/
def Guards.All (G : Guards L S) (held : List L) (s t : S) : Prop := ∀ l ∈ held, G.rel l s t

/-- The locks a transaction alone on the database takes. -/
def locksTaken : Program S L N E α → S → List L
  | .done _, _ | .refuse _, _ => []
  | .statement locks write next, s => locks s ++ locksTaken (next s) (write s s)
  | .note _ next, s | .noteAfter _ next, s => locksTaken next s

theorem locksTaken_bind (p : Program S L N E α) (k : α → Program S L N E β) (s : S) :
    locksTaken (p.bind k) s =
      locksTaken p s ++ (match p.run s with
        | .ok (a, t) => locksTaken (k a) t
        | .error _ => []) := by
  induction p generalizing s with
  | done a => rfl
  | refuse e => rfl
  | statement locks write next ih =>
    change locks s ++ locksTaken ((next s).bind k) (write s s) = _
    rw [ih, ← List.append_assoc]
    rfl
  | note n next ih | noteAfter n next ih => exact ih s

theorem mem_locksTaken_bind {p : Program S L N E α} {s : S} {l : L} (h : l ∈ locksTaken p s)
    (k : α → Program S L N E β) : l ∈ locksTaken (p.bind k) s := by
  rw [locksTaken_bind]
  exact List.mem_append_left _ h

/-- What a statement does goes for every database that its locks allow. -/
structure Covered (G : Guards L S) (good : S → Prop) (held : List L) (locks : S → List L)
    (write : S → S → S) (next : S → Program S L N E α) : Prop where
  keeps : ∀ v s, good v → good s → good (write v s)
  same : ∀ v v', good v → good v' → (∀ e, next v ≠ .refuse e) → G.All (held ++ locks v) v v' →
    next v' = next v ∧ locks v' = locks v ∧ write v' v' = write v v'
  writes : ∀ v s t l, good v → good s → good t → G.All (held ++ locks v) v s →
    G.All (held ++ locks v) s t → G.rel l s t → G.rel l (write v s) (write v t)

/-- Every statement is covered by the locks held after it, and a refusal follows at once on the
statement that decides it. -/
inductive Guarded (G : Guards L S) (good : S → Prop) : List L → Program S L N E α → Prop
  | done {held : List L} {a : α} : Guarded G good held (.done a)
  | noteAfter {held : List L} {n : N} {next : Program S L N E α} (goes : Guarded G good held next) :
      Guarded G good held (.noteAfter n next)
  | statement {held : List L} {locks : S → List L} {write : S → S → S}
      {next : S → Program S L N E α} (covered : Covered G good held locks write next)
      (goes : ∀ v, good v → (∀ e, next v ≠ .refuse e) → Guarded G good (held ++ locks v) (next v)) :
      Guarded G good held (.statement locks write next)

/-- The program refuses at once, or is guarded. -/
def Safe (G : Guards L S) (good : S → Prop) (held : List L) (p : Program S L N E α) : Prop :=
  (∃ e, p = .refuse e) ∨ Guarded G good held p

section rules

variable {G : Guards L S} {good : S → Prop} {held : List L} {k : β → Program S L N E α}

theorem Safe.guarded {p : Program S L N E α} (h : Safe G good held p) (hp : ∀ e, p ≠ .refuse e) :
    Guarded G good held p := by
  rcases h with ⟨e, rfl⟩ | h
  · exact absurd rfl (hp e)
  · exact h

theorem Safe.require {o : Option β} {e : E} (h : ∀ b, o = some b → Safe G good held (k b)) :
    Safe G good held ((Program.require o e).bind k) := by
  cases o with
  | none => exact .inl ⟨e, rfl⟩
  | some b => exact h b rfl

theorem Safe.refuseWhen {b : Bool} {e : E} {k : Unit → Program S L N E α}
    (h : b = false → Safe G good held (k ())) :
    Safe G good held ((Program.refuseWhen b e).bind k) := by
  cases b with
  | true => exact .inl ⟨e, rfl⟩
  | false => exact h rfl

/-- What follows a part that may be left out goes on from the locks of either case. -/
theorem Safe.onlyIf {b : Bool} {p : Program S L N E Unit} {k : Unit → Program S L N E α}
    (hp : (∀ held', (∀ l ∈ held, l ∈ held') → Safe G good held' (k ())) →
      Safe G good held (p.bind k))
    (h : ∀ held', (∀ l ∈ held, l ∈ held') → Safe G good held' (k ())) :
    Safe G good held ((Program.onlyIf b p).bind k) := by
  cases b with
  | true => exact hp h
  | false => exact h held fun _ hl => hl

/-- A statement is safe when it is covered and so is what follows on each good database. -/
theorem Safe.statement {locks : S → List L} {write : S → S → S} {next : S → Program S L N E α}
    (covered : Covered G good held locks write next)
    (h : ∀ v, good v → Safe G good (held ++ locks v) (next v)) :
    Safe G good held (.statement locks write next) :=
  .inr (.statement covered fun v hv hne => (h v hv).guarded hne)

/-- A read. -/
theorem Safe.select {f : S → β} (same : ∀ v v', good v → good v' →
      (∀ e, k (f v) ≠ .refuse e) → G.All held v v' → k (f v') = k (f v))
    (h : ∀ v, good v → Safe G good held (k (f v))) :
    Safe G good held ((Program.select f).bind k) := by
  refine .statement ⟨fun _ _ _ hs => hs, fun v v' hv hv' hne hall => ?_,
    fun _ _ _ _ _ _ _ _ _ h => h⟩
    fun v hv => ?_
  · exact ⟨same v v' hv hv' hne (by simpa using hall), rfl, rfl⟩
  · change Safe G good (held ++ []) (k (f v))
    rw [List.append_nil]
    exact h v hv

/-- A read of what never changes. -/
theorem Safe.selectFixed {f : S → β} {b : β} (fixed : ∀ v, good v → f v = b)
    (h : Safe G good held (k b)) : Safe G good held ((Program.select f).bind k) :=
  .select (fun v v' hv hv' _ _ => by rw [fixed v hv, fixed v' hv']) fun v hv => fixed v hv ▸ h

/-- A locking read of what never changes. -/
theorem Safe.selectForUpdate (ls : List L) {locks : S → List L} {f : S → β} {b : β}
    (locked : ∀ v, good v → locks v = ls) (fixed : ∀ v, good v → f v = b)
    (h : Safe G good (held ++ ls) (k b)) :
    Safe G good held ((Program.selectForUpdate locks f).bind k) := by
  refine .statement ⟨fun _ _ _ hs => hs, fun v v' hv hv' _ _ => ?_, fun _ _ _ _ _ _ _ _ _ h => h⟩
    fun v hv => ?_
  · exact ⟨congrArg k ((fixed v' hv').trans (fixed v hv).symm),
      (locked v' hv').trans (locked v hv).symm, rfl⟩
  · change Safe G good (held ++ locks v) (k (f v))
    rw [locked v hv, fixed v hv]
    exact h

/-- A write that every good database takes alike and that answers nothing. -/
theorem Safe.update {locks : S → List L} {write : S → S → S} {k : Unit → Program S L N E α}
    (keeps : ∀ v s, good v → good s → good (write v s))
    (locked : ∀ v v', good v → good v' → locks v' = locks v)
    (same : ∀ v v' s, good v → good v' → good s → write v' s = write v s)
    (writes : ∀ v s t l, good v → good s → good t → G.rel l s t → G.rel l (write v s) (write v t))
    (h : ∀ held', (∀ l ∈ held, l ∈ held') → Safe G good held' (k ())) :
    Safe G good held ((Program.update locks write fun _ => ()).bind k) :=
  .statement ⟨keeps, fun v v' hv hv' _ _ => ⟨rfl, locked v v' hv hv', same v v' v' hv hv' hv'⟩,
    fun v s t l hv hs ht _ _ h => writes v s t l hv hs ht h⟩
    fun _ _ => h _ fun _ hl => List.mem_append_left _ hl

end rules

/-- Transactions run one after the other, each with its outcome. -/
inductive Serial (absorb : S → N → S) (program : ι → Program S L N E α) (s : S) :
    List (ι × Except E α) → S → Prop
  | nil : Serial absorb program s [] s
  | snoc {events : List (ι × Except E α)} {t u : S} {i : ι} {r : Except E α}
      (before : Serial absorb program s events t) (ends : (program i).execute absorb t = (r, u)) :
      Serial absorb program s (events ++ [(i, r)]) u

/-- What holds at first, and stays when a transaction runs alone, holds after a serial run. -/
theorem Serial.keeps {absorb : S → N → S} {program : ι → Program S L N E α} {P : S → Prop} {s t : S}
    {events : List (ι × Except E α)} (h : Serial absorb program s events t) (hs : P s)
    (hstep : ∀ i t, P t → P ((program i).execute absorb t).2) : P t := by
  induction h with
  | nil => exact hs
  | @snoc events t u i r before ends ih =>
    have hu := hstep i t ih
    rwa [ends] at hu

/-- The outcome a session has, or is bound to have. -/
def outcome : Phase S L N E α → Option (Except E α)
  | .committed a => some (.ok a)
  | .rolledBack e | .running (.refuse e) => some (.error e)
  | .running (.done _) | .running (.statement _ _ _) | .running (.note _ _)
  | .running (.noteAfter _ _) => none

/-- On this database the session ends as its whole transaction would. -/
structure Agrees (program : Program S L N E α) (x : Session S L N E α) (p : Program S L N E α)
    (s : S) : Prop where
  run : p.run (x.view s) = program.run s
  after : x.after ++ p.notesAfter (x.view s) = program.notesAfter s
  locks : x.locks ++ locksTaken p (x.view s) = locksTaken program s

/-- A session on its way, as long as the database changes only as its locks allow. -/
structure Underway (G : Guards L S) (good : S → Prop) (program : Program S L N E α)
    (x : Session S L N E α) (p : Program S L N E α) (s : S) : Prop where
  guarded : Guarded G good x.locks p
  agrees : ∀ t, good t → G.All x.locks s t → good (x.view t) ∧ Agrees program x p t
  views : ∀ t t' l, good t → good t' → G.All x.locks s t → G.All x.locks t t' → G.rel l t t' →
    G.rel l (x.view t) (x.view t')

section session

variable {G : Guards L S} {good : S → Prop} {program p : Program S L N E α} {x : Session S L N E α}
  {s t : S} {locks : S → List L} {write : S → S → S} {next : S → Program S L N E α}

theorem Underway.start (hguarded : Guarded G good [] program) :
    Underway G good program ⟨.running program, [], [], [], []⟩ program s where
  guarded := hguarded
  agrees _ ht _ := ⟨ht, rfl, rfl, rfl⟩
  views _ _ _ _ _ _ _ h := h

/-- Others have committed. -/
theorem Underway.later (h : Underway G good program x p s) (hst : G.All x.locks s t) :
    Underway G good program x p t where
  guarded := h.guarded
  agrees u hu htu := h.agrees u hu fun l hl => G.trans (hst l hl) (htu l hl)
  views u u' l hu hu' htu huu' hl :=
    h.views u u' l hu hu' (fun l hl => G.trans (hst l hl) (htu l hl)) huu' hl

/-- The session takes a statement. -/
theorem Underway.stated (h : Underway G good program x (.statement locks write next) s)
    (hs : good s) (hne : ∀ e, next (x.view s) ≠ .refuse e) :
    Underway G good program (x.stated locks write next (x.view s)) (next (x.view s)) s := by
  obtain ⟨covered, goes⟩ : Covered G good x.locks locks write next ∧
      ∀ v, good v → (∀ e, next v ≠ .refuse e) → Guarded G good (x.locks ++ locks v) (next v) := by
    cases h.guarded with
    | statement covered goes => exact ⟨covered, goes⟩
  have hrefl : G.All x.locks s s := fun l _ => G.refl l s
  have hv : good (x.view s) := (h.agrees s hs hrefl).1
  have hold : ∀ {t t'}, G.All (x.locks ++ locks (x.view s)) t t' → G.All x.locks t t' :=
    fun hall l hl => hall l (List.mem_append_left _ hl)
  -- What the session saw is what it would see on a database that its locks allow.
  have hviews : ∀ {t t'}, good t → good t' → G.All (x.locks ++ locks (x.view s)) s t →
      G.All (x.locks ++ locks (x.view s)) t t' →
      G.All (x.locks ++ locks (x.view s)) (x.view t) (x.view t') :=
    fun ht ht' hst htt' l hl => h.views _ _ l ht ht' (hold hst) (hold htt') (htt' l hl)
  refine ⟨goes _ hv hne, fun t ht hst => ?_, fun t t' l ht ht' hst htt' hl => ?_⟩
  · obtain ⟨hgood, hagrees⟩ := h.agrees t ht (hold hst)
    obtain ⟨hnext, hlocks, hwrite⟩ := covered.same _ _ hv hgood hne
      (hviews hs ht (fun l _ => G.refl l s) hst)
    have hview : (x.stated locks write next (x.view s)).view t = write (x.view t) (x.view t) := by
      rw [Session.view_stated, hwrite]
    refine ⟨?_, ?_, ?_, ?_⟩
    · rw [hview]
      exact covered.keeps _ _ hgood hgood
    · rw [hview, ← hnext]
      exact hagrees.run
    · rw [hview, ← hnext]
      exact hagrees.after
    · rw [hview, ← hnext, Session.stated, ← hlocks, List.append_assoc]
      exact hagrees.locks
  · rw [Session.view_stated, Session.view_stated]
    exact covered.writes _ _ _ l hv (h.agrees t ht (hold hst)).1
      (h.agrees t' ht' fun l hl => G.trans (hold hst l hl) (hold htt' l hl)).1
      (hviews hs ht (fun l _ => G.refl l s) hst) (hviews ht ht' hst htt')
      (h.views t t' l ht ht' (hold hst) (hold htt') hl)

end session

/-- The run so far is this serial run of the sessions that have, or are bound to have, an
outcome. -/
structure Serialized (G : Guards L S) (good : S → Prop) (absorb : S → N → S)
    (program : ι → Program S L N E α) (s : S) (w : World ι S L N E α)
    (events : List (ι × Except E α)) : Prop where
  serial : Serial absorb program s events w.committed
  once : (events.map Prod.fst).Nodup
  outcomes : ∀ i r, (i, r) ∈ events ↔ outcome (w.sessions i).phase = some r
  sound : good w.committed
  underway : ∀ i p, (w.sessions i).phase = .running p → (∃ e, p = .refuse e) ∨
    Underway G good (program i) (w.sessions i) p w.committed

section run

variable {G : Guards L S} {good : S → Prop} {absorb : S → N → S} {program : ι → Program S L N E α}
  {s : S} {w w' : World ι S L N E α} {events : List (ι × Except E α)} {i : ι}

theorem serialized_start (hs : good s) (hguarded : ∀ i, Guarded G good [] (program i)) :
    Serialized G good absorb program s (start s program) [] where
  serial := .nil
  once := .nil
  outcomes i r := by
    have hguarded := hguarded i
    cases hprogram : program i with
    | refuse e =>
      rw [hprogram] at hguarded
      cases hguarded
    | done a | statement locks write next | note n next | noteAfter n next =>
      simp [start, hprogram, outcome]
  sound := hs
  underway i p h := by
    obtain rfl : program i = p := by simpa [start] using h
    exact .inr (.start (hguarded i))

variable [DecidableEq ι]

/-- A session that goes on with the outcome it is bound to, if any, changes nothing for the
others. -/
theorem Serialized.goesOn {x : Session S L N E α} (h : Serialized G good absorb program s w events)
    (hsame : outcome x.phase = outcome (w.sessions i).phase)
    (hx : ∀ p, x.phase = .running p → (∃ e, p = .refuse e) ∨
      Underway G good (program i) x p w.committed) :
    Serialized G good absorb program s (w.set i x) events where
  serial := h.serial
  once := h.once
  outcomes j r := by
    rw [h.outcomes, World.set_sessions, Function.update_apply]
    by_cases hj : j = i
    · subst hj
      rw [if_pos rfl, hsame]
    · rw [if_neg hj]
  sound := h.sound
  underway j p hj := by
    by_cases hji : j = i
    · subst hji
      simp only [World.set_sessions, Function.update_self, World.set_committed] at hj ⊢
      exact hx p hj
    · simp only [World.set_sessions, Function.update_of_ne hji, World.set_committed] at hj ⊢
      exact h.underway j p hj

/-- A session gets its outcome, and commits if it is to. -/
theorem Serialized.ends {x : Session S L N E α} {p : Program S L N E α} {r : Except E α} {t : S}
    (h : Serialized G good absorb program s w events) (hrunning : (w.sessions i).phase = .running p)
    (hp : outcome (.running p) = none) (hends : (program i).execute absorb w.committed = (r, t))
    (hx : outcome x.phase = some r) (hrest : ∀ q, x.phase = .running q → ∃ e, q = .refuse e)
    (ht : good t) (hothers : ∀ j, j ≠ i → G.All (w.sessions j).locks w.committed t) :
    Serialized G good absorb program s { w.set i x with committed := t } (events ++ [(i, r)]) := by
  have hnew : ∀ r', (i, r') ∉ events := fun r' hmem => by
    have houtcome := (h.outcomes i r').mp hmem
    rw [hrunning, hp] at houtcome
    cases houtcome
  refine ⟨h.serial.snoc hends, ?_, fun j r' => ?_, ht, fun j q hj => ?_⟩
  · rw [List.map_append, List.map_singleton]
    refine List.nodup_append.mpr ⟨h.once, List.nodup_singleton i, ?_⟩
    rintro a ha b hb rfl
    obtain ⟨⟨j, r'⟩, hmem, hj⟩ := List.mem_map.mp ha
    obtain rfl : j = i := hj.trans (List.mem_singleton.mp hb)
    exact hnew r' hmem
  · rw [List.mem_append, List.mem_singleton, Prod.mk.injEq, World.set_sessions,
      Function.update_apply]
    by_cases hj : j = i
    · subst hj
      rw [if_pos rfl, hx]
      simp [hnew, eq_comm]
    · rw [if_neg hj, h.outcomes]
      simp [hj]
  · by_cases hji : j = i
    · subst hji
      simp only [World.set_sessions, Function.update_self] at hj
      exact .inl (hrest q hj)
    · simp only [World.set_sessions, Function.update_of_ne hji] at hj ⊢
      exact (h.underway j q hj).imp_right fun hunderway => hunderway.later (hothers j hji)

theorem foldl_absorb (habsorb : ∀ t n, good t → good (absorb t n) ∧ ∀ l, G.rel l t (absorb t n))
    (notes : List N) {t : S} (ht : good t) :
    good (notes.foldl absorb t) ∧ ∀ l, G.rel l t (notes.foldl absorb t) := by
  induction notes generalizing t with
  | nil => exact ⟨ht, fun l => G.refl l t⟩
  | cons n notes ih =>
    obtain ⟨hgood, hrel⟩ := habsorb t n ht
    obtain ⟨hgood', hrel'⟩ := ih hgood
    exact ⟨hgood', fun l => G.trans (hrel l) (hrel' l)⟩

/-- One step keeps a serial run, or makes it longer. -/
theorem Serialized.step (h : Serialized G good absorb program s w events) (hexclusive : w.Exclusive)
    (hsilent : ∀ i, (program i).Silent)
    (habsorb : ∀ t n, good t → good (absorb t n) ∧ ∀ l, G.rel l t (absorb t n))
    (hconfined : ∀ i t u a, good t → (program i).run t = .ok (a, u) →
      ∀ l, l ∉ locksTaken (program i) t → G.rel l t u)
    (hstep : World.Step absorb w i w') :
    ∃ more, Serialized G good absorb program s w' (events ++ more) := by
  have hsame : Serialized G good absorb program s w' events →
      ∃ more, Serialized G good absorb program s w' (events ++ more) := fun h =>
    ⟨[], by rwa [List.append_nil]⟩
  have hrefl : ∀ held, G.All held w.committed w.committed := fun held l _ => G.refl l _
  have hunderway : ∀ {p}, (w.sessions i).phase = .running p → (∀ e, p ≠ .refuse e) →
      Underway G good (program i) (w.sessions i) p w.committed := fun hphase hne =>
    (h.underway i _ hphase).resolve_left fun ⟨e, he⟩ => hne e he
  cases hstep with
  | stays => exact hsame h
  | @commit a phase =>
    have hi := hunderway phase (by simp)
    obtain ⟨hgood, hrun, hafter, hlocks⟩ := hi.agrees _ h.sound (hrefl _)
    have hafter' : (w.sessions i).after = (program i).notesAfter w.committed := by
      simpa [Program.notesAfter] using hafter
    have hlocks' : (w.sessions i).locks = locksTaken (program i) w.committed := by
      simpa [locksTaken] using hlocks
    have hends : (program i).execute absorb w.committed =
        (.ok a, (w.sessions i).after.foldl absorb ((w.sessions i).view w.committed)) := by
      simp only [Program.execute, ← hrun, Program.run_done, (hsilent i).notes_eq_nil,
        List.nil_append, hafter']
    obtain ⟨hgood', habsorbed⟩ := foldl_absorb habsorb (w.sessions i).after hgood
    refine ⟨_, h.ends phase rfl hends rfl (by simp [Session.ended]) hgood' fun j hj l hl => ?_⟩
    have hfree : l ∉ locksTaken (program i) w.committed := hlocks' ▸ hexclusive j i hj l hl
    exact G.trans (hconfined i _ _ a h.sound hrun.symm l hfree) (habsorbed l)
  | @rollback e phase => exact hsame (h.goesOn (by rw [phase]; rfl) (by simp [Session.ended]))
  | @statement locks write next phase granted =>
    have hi := hunderway phase (by simp)
    cases hnext : next ((w.sessions i).view w.committed) with
    | refuse e =>
      have hrun := (hi.agrees _ h.sound (hrefl _)).2.run
      rw [Program.run_statement, hnext, Program.run_refuse] at hrun
      have hends : (program i).execute absorb w.committed = (.error e, w.committed) := by
        simp only [Program.execute, ← hrun, (hsilent i).notes_eq_nil, List.foldl_nil]
      refine ⟨_, h.ends phase rfl hends ?_ ?_ h.sound fun j _ l _ => G.refl l _⟩
      · rw [Session.stated, hnext]
        rfl
      · rintro q hq
        rw [Session.stated, hnext] at hq
        exact ⟨e, (Phase.running.inj hq).symm⟩
    | done a | statement locks' write' next' | note n next' | noteAfter n next' =>
      have hgoes := hi.stated h.sound (by simp [hnext])
      refine hsame (h.goesOn ?_ fun p hp => .inr ?_)
      · rw [phase, Session.stated, hnext]
        rfl
      · obtain rfl := Phase.running.inj hp
        exact hgoes
  | note phase =>
    have hi := hunderway phase (by simp)
    cases hi.guarded
  | @noteAfter n next phase =>
    have hi := hunderway phase (by simp)
    have hguarded : Guarded G good (w.sessions i).locks next := by
      cases hi.guarded with
      | noteAfter goes => exact goes
    refine hsame (h.goesOn ?_ fun p hp => .inr ?_)
    · rw [phase]
      cases hguarded <;> rfl
    · obtain rfl := Phase.running.inj hp
      refine ⟨hguarded, fun t ht hst => ?_, hi.views⟩
      obtain ⟨hgood, hrun, hafter, hlocks⟩ := hi.agrees t ht hst
      exact ⟨hgood, hrun, (List.append_assoc _ _ _).trans hafter, hlocks⟩

/-- A run goes on as a serial one. -/
theorem Serialized.run [Fintype ι] [DecidableEq L] (h : Serialized G good absorb program s w events)
    (hexclusive : w.Exclusive) (hsilent : ∀ i, (program i).Silent)
    (habsorb : ∀ t n, good t → good (absorb t n) ∧ ∀ l, G.rel l t (absorb t n))
    (hconfined : ∀ i t u a, good t → (program i).run t = .ok (a, u) →
      ∀ l, l ∉ locksTaken (program i) t → G.rel l t u) (schedule : List ι) :
    ∃ more, Serialized G good absorb program s (schedule.foldl (World.step absorb) w)
      (events ++ more) ∧ (schedule.foldl (World.step absorb) w).Exclusive := by
  induction schedule generalizing w events with
  | nil => exact ⟨[], by rwa [List.append_nil], hexclusive⟩
  | cons i schedule ih =>
    have hstep := World.step_cases absorb w i
    obtain ⟨more, hnext⟩ := h.step hexclusive hsilent habsorb hconfined hstep
    obtain ⟨more', hrun⟩ := ih hnext (World.exclusive_step hexclusive hstep)
    exact ⟨more ++ more', by rwa [← List.append_assoc]⟩

/-- Every run is a serial one, and going on only makes that longer. -/
theorem exists_serialized [Fintype ι] [DecidableEq L] (hs : good s)
    (hguarded : ∀ i, Guarded G good [] (program i)) (hsilent : ∀ i, (program i).Silent)
    (habsorb : ∀ t n, good t → good (absorb t n) ∧ ∀ l, G.rel l t (absorb t n))
    (hconfined : ∀ i t u a, good t → (program i).run t = .ok (a, u) →
      ∀ l, l ∉ locksTaken (program i) t → G.rel l t u) (schedule later : List ι) :
    ∃ events more, Serialized G good absorb program s
        (schedule.foldl (World.step absorb) (start s program)) events ∧
      Serialized G good absorb program s
        ((schedule ++ later).foldl (World.step absorb) (start s program)) (events ++ more) := by
  obtain ⟨events, hfirst, hexclusive⟩ := (serialized_start hs hguarded).run
    (World.exclusive_start s program) hsilent habsorb hconfined schedule
  obtain ⟨more, hlater, -⟩ := hfirst.run hexclusive hsilent habsorb hconfined later
  refine ⟨_, more, hfirst, ?_⟩
  rwa [List.foldl_append]

end run

end BackboneEvents.KeptLocks
