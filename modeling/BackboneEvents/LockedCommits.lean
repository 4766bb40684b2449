import BackboneEvents.TransactionFaults
import BackboneEvents.TransactionInterleavings

/-!
# One lock before every end

Every transaction comes to one common lock before it ends, and up to there reads and writes the
same on every database it may meet. Then only the session that holds the lock can end, on a
database that stood still since it took the lock. So an interleaved run commits what its commits,
one after the other, would, and refuses what would be refused at that place.
-/
namespace BackboneEvents.LockedCommits
open TransactionPrograms TransactionInterleavings

variable {ι S L N E α : Type}

/-- The program comes to the lock, and up to there does the same on all good databases, seen as
the view the session has of them. -/
inductive Heads (lock : L) (good : S → Prop) : (S → S) → Program S L N E α → Prop
  | takes {view : S → S} {locks : S → List L} {write : S → S → S} {next : S → Program S L N E α}
      (takes : ∀ s, good s → lock ∈ locks (view s)) :
      Heads lock good view (.statement locks write next)
  | reads {view view' : S → S} {locks : S → List L} {write : S → S → S}
      {next : S → Program S L N E α} {p : Program S L N E α}
      (same : ∀ s, good s → next (view s) = p)
      (writes : ∀ v s, good v → good s → write (view v) (view s) = view' s)
      (rest : Heads lock good view' p) : Heads lock good view (.statement locks write next)

section heads

variable {β : Type} {lock : L} {good : S → Prop} {view view' : S → S} {f : S → β} {b : β}
  {k : β → Program S L N E α}

theorem Heads.update {locks : S → List L} {write : S → S → S} (same : ∀ s, good s → f (view s) = b)
    (writes : ∀ v s, good v → good s → write (view v) (view s) = view' s)
    (rest : Heads lock good view' (k b)) :
    Heads lock good view ((Program.update locks write f).bind k) :=
  .reads (fun s hs => congrArg k (same s hs)) writes rest

theorem Heads.select (same : ∀ s, good s → f (view s) = b) (rest : Heads lock good view (k b)) :
    Heads lock good view ((Program.select f).bind k) :=
  .reads (fun s hs => congrArg k (same s hs)) (fun _ _ _ _ => rfl) rest

end heads

/-- Transactions committed one after the other. -/
inductive History (absorb : S → N → S) (program : ι → Program S L N E α) (s : S) : List ι → S → Prop
  | nil : History absorb program s [] s
  | snoc {order : List ι} {t u : S} {i : ι} {a : α} (before : History absorb program s order t)
      (commits : (program i).execute absorb t = (.ok a, u)) :
      History absorb program s (order ++ [i]) u

/-- What holds for every transaction, and stays when another one commits, holds at the end of a
history for those outside it. -/
theorem History.keeps {absorb : S → N → S} {program : ι → Program S L N E α} {good : ι → S → Prop}
    {s t : S} {order : List ι} (h : History absorb program s order t) (hgood : ∀ i, good i s)
    (hkeeps : ∀ i j t u a, i ≠ j → good i t → good j t →
      (program j).execute absorb t = (.ok a, u) → good i u) (hnodup : order.Nodup) :
    ∀ i ∉ order, good i t := by
  induction h with
  | nil => exact fun i _ => hgood i
  | @snoc order t u j a before commits ih =>
    intro i hi
    obtain ⟨hnodup', -, hfresh⟩ := List.nodup_append.mp hnodup
    have hj : j ∉ order := fun hj => hfresh j hj j (List.mem_singleton_self j) rfl
    simp only [List.mem_append, List.mem_singleton, not_or] at hi
    exact hkeeps i j t u a hi.2 (ih hnodup' i hi.1) (ih hnodup' j hj) commits

/-- From here the session does on the database what its whole transaction does. -/
structure Agrees (program : Program S L N E α) (x : Session S L N E α) (p : Program S L N E α)
    (s : S) : Prop where
  run : p.run (x.view s) = program.run s
  after : x.after ++ p.notesAfter (x.view s) = program.notesAfter s

/-- Before the lock. -/
def Waiting (lock : L) (good : S → Prop) (program : Program S L N E α) (x : Session S L N E α)
    (p : Program S L N E α) : Prop :=
  ∃ view, Heads lock good view p ∧ ∀ s, good s → x.view s = view s ∧ Agrees program x p s

/-- After it, on this database. -/
def Holding (lock : L) (program : Program S L N E α) (x : Session S L N E α) (p : Program S L N E α)
    (s : S) : Prop :=
  lock ∈ x.locks ∧ Agrees program x p s

section session

variable {lock : L} {good : S → Prop} {program p : Program S L N E α}
    {x : Session S L N E α} {s : S}
  {locks : S → List L} {write : S → S → S} {next : S → Program S L N E α} {absorb : S → N → S}

theorem Agrees.stated (h : Agrees program x (.statement locks write next) s) :
    Agrees program (x.stated locks write next (x.view s)) (next (x.view s)) s := by
  refine ⟨?_, ?_⟩
  · rw [Session.view_stated]
    exact h.run
  · rw [Session.view_stated]
    exact h.after

/-- The statement before the lock, or the one that takes it. -/
theorem Waiting.stated (h : Waiting lock good program x (.statement locks write next))
    (hs : good s) :
    Waiting lock good program (x.stated locks write next (x.view s)) (next (x.view s)) ∨
      Holding lock program (x.stated locks write next (x.view s)) (next (x.view s)) s := by
  obtain ⟨view, hheads, hview⟩ := h
  obtain ⟨hsame, hagrees⟩ := hview s hs
  cases hheads with
  | takes takes =>
    refine .inr ⟨List.mem_append_right _ ?_, hagrees.stated⟩
    rw [hsame]
    exact takes s hs
  | @reads _ view' _ _ _ q same writes rest =>
    left
    have hnext : next (x.view s) = q := hsame ▸ same s hs
    refine ⟨view', hnext ▸ rest, fun t ht => ?_⟩
    obtain ⟨hsame', hagrees'⟩ := hview t ht
    have hwrite : (x.stated locks write next (x.view s)).view t = view' t := by
      rw [Session.view_stated, hsame, hsame', writes s t hs ht]
    refine ⟨hwrite, ?_, ?_⟩
    · rw [hwrite, hnext, ← same t ht, ← writes t t ht ht, ← hagrees'.run, hsame']
      rfl
    · rw [hwrite, hnext, ← same t ht, ← writes t t ht ht, ← hagrees'.after, hsame']
      rfl

theorem Holding.done {a : α} (h : Holding lock program x (.done a) s) (hsilent : program.Silent) :
    program.execute absorb s = (.ok a, x.after.foldl absorb (x.view s)) := by
  obtain ⟨-, hrun, hafter⟩ := h
  have hafter' : x.after = program.notesAfter s := by simpa [Program.notesAfter] using hafter
  simp only [Program.execute, ← hrun, Program.run_done, hsilent.notes_eq_nil,
    List.nil_append, hafter']

theorem Holding.refuse {e : E} (h : Holding lock program x (.refuse e) s)
    (hsilent : program.Silent) :
    program.execute absorb s = (.error e, s) := by
  obtain ⟨-, hrun, -⟩ := h
  simp only [Program.execute, ← hrun, Program.run_refuse, hsilent.notes_eq_nil, List.foldl_nil]

end session

/-- The run so far has this sequential history. -/
structure Sequential (lock : L) (good : ι → S → Prop) (absorb : S → N → S)
    (program : ι → Program S L N E α) (s : S) (w : World ι S L N E α) (order : List ι) : Prop where
  history : History absorb program s order w.committed
  nodup : order.Nodup
  committed : ∀ i, i ∈ order ↔ ∃ a, (w.sessions i).phase = .committed a
  refused : ∀ i e, (w.sessions i).phase = .rolledBack e → ∃ before after t,
    order = before ++ after ∧
    History absorb program s before t ∧ good i t ∧ (program i).execute absorb t = (.error e, t)
  unfinished : ∀ i p, (w.sessions i).phase = .running p → good i w.committed ∧ p.Silent ∧
    (Waiting lock (good i) (program i) (w.sessions i) p ∨
      Holding lock (program i) (w.sessions i) p w.committed)

section run

variable {lock : L} {good : ι → S → Prop} {absorb : S → N → S} {program : ι → Program S L N E α}
  {s : S} {w w' : World ι S L N E α} {order : List ι} {i : ι}

theorem sequential_start (hgood : ∀ i, good i s) (hsilent : ∀ i, (program i).Silent)
    (hheads : ∀ i, Heads lock (good i) id (program i)) :
    Sequential lock good absorb program s (start s program) [] where
  history := .nil
  nodup := .nil
  committed i := by simp [start]
  refused i e h := by simp [start] at h
  unfinished i p h := by
    obtain rfl : program i = p := by simpa [start] using h
    refine ⟨hgood i, hsilent i, .inl ⟨id, hheads i, fun t _ => ⟨rfl, rfl, rfl⟩⟩⟩

variable [DecidableEq ι]

/-- A session that goes on changes nothing for the others. -/
theorem Sequential.goesOn {x : Session S L N E α} {p q : Program S L N E α}
    (h : Sequential lock good absorb program s w order)
    (hrunning : (w.sessions i).phase = .running p)
    (hphase : x.phase = .running q) (hsilent : q.Silent)
    (hx : Waiting lock (good i) (program i) x q ∨ Holding lock (program i) x q w.committed) :
    Sequential lock good absorb program s (w.set i x) order where
  history := h.history
  nodup := h.nodup
  committed j := by
    rw [h.committed]
    by_cases hj : j = i
    · subst hj
      simp [hrunning, hphase]
    · simp [Function.update_of_ne hj]
  refused j e hj := by
    by_cases hji : j = i
    · subst hji
      simp [hphase] at hj
    · exact h.refused j e (by simpa [Function.update_of_ne hji] using hj)
  unfinished j r hj := by
    by_cases hji : j = i
    · subst hji
      obtain rfl : q = r := by simpa [hphase] using hj
      simp only [World.set_sessions, Function.update_self, World.set_committed]
      exact ⟨(h.unfinished j p hrunning).1, hsilent, hx⟩
    · simp only [World.set_sessions, Function.update_of_ne hji, World.set_committed] at hj ⊢
      exact h.unfinished j r hj

/-- One step keeps a sequential history. -/
theorem Sequential.step (h : Sequential lock good absorb program s w order)
    (hexclusive : w.Exclusive) (hsilent : ∀ i, (program i).Silent)
    (hkeeps : ∀ i j t u a, i ≠ j → good i t → good j t →
      (program j).execute absorb t = (.ok a, u) → good i u)
    (hstep : World.Step absorb w i w') :
    ∃ order', Sequential lock good absorb program s w' order' := by
  cases hstep with
  | stays => exact ⟨order, h⟩
  | @commit a phase =>
    obtain ⟨hgood, -, hwaiting | hholding⟩ := h.unfinished i _ phase
    · obtain ⟨view, hheads, -⟩ := hwaiting
      cases hheads
    · have hends : (program i).execute absorb w.committed =
          (.ok a, (w.sessions i).after.foldl absorb ((w.sessions i).view w.committed)) :=
        hholding.done (hsilent i)
      have hnew : i ∉ order := fun hmem => by
        obtain ⟨b, hb⟩ := (h.committed i).mp hmem
        rw [phase] at hb
        cases hb
      refine ⟨order ++ [i], h.history.snoc hends, ?_, fun j => ?_,
        fun j e hj => ?_, fun j p hj => ?_⟩
      · exact List.nodup_append.mpr ⟨h.nodup, List.nodup_singleton i, by
          rintro a ha b hb rfl
          exact hnew (List.mem_singleton.mp hb ▸ ha)⟩
      · rw [List.mem_append, List.mem_singleton, h.committed]
        by_cases hj : j = i
        · subst hj
          simp [Session.ended]
        · simp [hj]
      · by_cases hji : j = i
        · subst hji
          simp [Session.ended] at hj
        · have hj' : (w.sessions j).phase = .rolledBack e := by
            simpa [Function.update_of_ne hji] using hj
          obtain ⟨before, after, t, rfl, hrest⟩ := h.refused j e hj'
          exact ⟨before, after ++ [i], t, by rw [List.append_assoc], hrest⟩
      · by_cases hji : j = i
        · subst hji
          simp [Session.ended] at hj
        · have hj' : (w.sessions j).phase = .running p := by
            simpa [Function.update_of_ne hji] using hj
          obtain ⟨hgood', hsilent', hplace⟩ := h.unfinished j p hj'
          simp only [World.set_sessions, Function.update_of_ne hji]
          refine ⟨hkeeps j i _ _ a hji hgood' hgood hends, hsilent', .inl ?_⟩
          rcases hplace with hwaiting | hheld
          · exact hwaiting
          -- No two sessions hold the lock.
          · exact absurd hholding.1 (hexclusive j i hji lock hheld.1)
  | @rollback e phase =>
    obtain ⟨hgood, -, hwaiting | hholding⟩ := h.unfinished i _ phase
    · obtain ⟨view, hheads, -⟩ := hwaiting
      cases hheads
    · refine ⟨order, h.history, h.nodup, fun j => ?_, fun j e' hj => ?_, fun j p hj => ?_⟩
      · rw [h.committed]
        by_cases hj : j = i
        · subst hj
          simp [Session.ended, phase]
        · simp [Function.update_of_ne hj]
      · by_cases hji : j = i
        · subst hji
          obtain rfl : e = e' := by simpa [Session.ended] using hj
          exact ⟨order, [], w.committed, by rw [List.append_nil], h.history, hgood,
            hholding.refuse (hsilent j)⟩
        · exact h.refused j e' (by simpa [Function.update_of_ne hji] using hj)
      · by_cases hji : j = i
        · subst hji
          simp [Session.ended] at hj
        · simp only [World.set_sessions, Function.update_of_ne hji, World.set_committed] at hj ⊢
          exact h.unfinished j p hj
  | @statement locks write next phase granted =>
    obtain ⟨hgood, hsilent', hplace⟩ := h.unfinished i _ phase
    refine ⟨order, h.goesOn phase rfl (hsilent' _) ?_⟩
    rcases hplace with hwaiting | ⟨hheld, hagrees⟩
    · exact hwaiting.stated hgood
    · exact .inr ⟨List.mem_append_left _ hheld, hagrees.stated⟩
  | note phase => exact ((h.unfinished i _ phase).2.1).elim
  | @noteAfter n next phase =>
    obtain ⟨hgood, hsilent', hplace⟩ := h.unfinished i _ phase
    refine ⟨order, h.goesOn phase rfl hsilent' (.inr ?_)⟩
    rcases hplace with ⟨view, hheads, -⟩ | ⟨hheld, hrun, hafter⟩
    · cases hheads
    · refine ⟨hheld, hrun, ?_⟩
      rw [List.append_assoc]
      exact hafter

/-- Every run has a sequential history. -/
theorem exists_sequential [Fintype ι] [DecidableEq L] (hgood : ∀ i, good i s)
    (hsilent : ∀ i, (program i).Silent) (hheads : ∀ i, Heads lock (good i) id (program i))
    (hkeeps : ∀ i j t u a, i ≠ j → good i t → good j t →
      (program j).execute absorb t = (.ok a, u) → good i u) (schedule : List ι) :
    ∃ order, Sequential lock good absorb program s
      (schedule.foldl (World.step absorb) (start s program)) order := by
  have hstart : ∃ order, Sequential lock good absorb program s (start s program) order :=
    ⟨[], sequential_start hgood hsilent hheads⟩
  have hexclusive := @World.exclusive_start ι S L N E α s program
  revert hstart hexclusive
  generalize start s program = w
  intro hstart hexclusive
  induction schedule generalizing w with
  | nil => exact hstart
  | cons i schedule ih =>
    obtain ⟨order, hbefore⟩ := hstart
    have hstep := World.step_cases absorb w i
    exact ih _ (hbefore.step hexclusive hsilent hkeeps hstep)
      (World.exclusive_step hexclusive hstep)

end run

end BackboneEvents.LockedCommits
