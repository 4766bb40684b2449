import Mathlib.Data.List.Sort
import Mathlib.Data.List.Nodup
import Mathlib.Data.List.Perm.Subperm

/-!
# Reading by keyset pages

A page is the first rows after a cursor in the order of their keys. A reader asks for one page
after another, each after the last key it was given, while the rows change under it. It is given
no key twice; a page that is not full tells it that it has every key that was there all along.
-/
namespace BackboneEvents.KeysetPages

universe u v

variable {ρ : Type u} {κ : Type v} [LinearOrder κ] (key : ρ → κ)

/-- The key comes after the cursor; every key comes after none. -/
def after (cursor : Option κ) (k : κ) : Bool := cursor.all fun c => decide (c < k)

def page (limit : ℕ) (cursor : Option κ) (rows : List ρ) : List ρ :=
  ((rows.filter fun r => after cursor (key r)).insertionSort fun a b => key a ≤ key b).take limit

/-- The last key of a page, or the cursor it was asked with. -/
def advance (cursor : Option κ) (given : List ρ) : Option κ := (given.getLast?.map key).or cursor

/-- The pages of a reader, one for each view of the rows. -/
def pages (limit : ℕ) : Option κ → List (List ρ) → List (List ρ)
  | _, [] => []
  | cursor, rows :: views =>
    page key limit cursor rows ::
      pages limit (advance key cursor (page key limit cursor rows)) views

variable {key} {limit : ℕ} {cursor : Option κ} {rows : List ρ}
    {views : List (List ρ)} {r : ρ} {k : κ}

theorem after_iff : after cursor k = true ↔ ∀ c, cursor = some c → c < k := by
  rw [after, Option.all_eq_true]
  simp only [decide_eq_true_eq]

theorem mem_of_mem_page (h : r ∈ page key limit cursor rows) :
    r ∈ rows ∧ after cursor (key r) = true := by
  have hsorted := List.mem_of_mem_take h
  rw [List.mem_insertionSort] at hsorted
  exact List.mem_filter.mp hsorted

theorem length_page_le : (page key limit cursor rows).length ≤ limit := List.length_take_le _ _

theorem length_of_pages {given : List ρ} (h : given ∈ pages key limit cursor views) :
    given.length ≤ limit := by
  induction views generalizing cursor with
  | nil => cases h
  | cons rows views ih => exact (List.mem_cons.mp h).elim (fun h => h ▸ length_page_le) ih

/-- Rows of distinct keys, sorted by them, ascend. -/
theorem sorted_ascends (hnodup : (rows.map key).Nodup) :
    ((rows.filter fun r => after cursor (key r)).insertionSort fun a b => key a ≤ key b).Pairwise
      fun a b => key a < key b := by
  have hperm := List.perm_insertionSort (fun a b => key a ≤ key b)
    (rows.filter fun r => after cursor (key r))
  have hle := List.pairwise_insertionSort (fun a b : ρ => key a ≤ key b)
    (rows.filter fun r => after cursor (key r))
  have hne : ((rows.filter fun r => after cursor (key r)).insertionSort
      fun a b => key a ≤ key b).Pairwise fun a b => key a ≠ key b := by
    have hfiltered : ((rows.filter fun r => after cursor (key r)).map key).Nodup :=
      hnodup.sublist (List.filter_sublist.map key)
    exact List.pairwise_map.mp ((hperm.map key).nodup_iff.mpr hfiltered)
  exact hle.imp₂ (fun a b h h' => lt_of_le_of_ne h h') hne

theorem page_ascends (hnodup : (rows.map key).Nodup) :
    (page key limit cursor rows).Pairwise fun a b => key a < key b :=
  (sorted_ascends hnodup).sublist (List.take_sublist _ _)

/-- A row after the cursor that is not on the page comes after a full one. -/
theorem mem_page_or (hnodup : (rows.map key).Nodup) (hr : r ∈ rows)
    (hafter : after cursor (key r) = true) :
    r ∈ page key limit cursor rows ∨
      (page key limit cursor rows).length = limit ∧
        ∀ x ∈ page key limit cursor rows, key x < key r := by
  have hmem : r ∈ (rows.filter fun r => after cursor (key r)).insertionSort
      fun a b => key a ≤ key b := by
    rw [List.mem_insertionSort]
    exact List.mem_filter.mpr ⟨hr, hafter⟩
  have hascends := @sorted_ascends _ _ _ key cursor rows hnodup
  rw [page]
  generalize ((rows.filter fun r => after cursor (key r)).insertionSort
    fun a b => key a ≤ key b) = sorted at hmem hascends
  rw [← List.take_append_drop limit sorted] at hmem hascends
  rcases List.mem_append.mp hmem with htake | hdrop
  · exact .inl htake
  · refine .inr ⟨?_, fun x hx => (List.pairwise_append.mp hascends).2.2 x hx r hdrop⟩
    rw [List.length_take, min_eq_left]
    by_contra hshort
    rw [List.drop_eq_nil_of_le (by omega)] at hdrop
    cases hdrop

/-- The cursor moves to the greatest key of the page. -/
theorem after_advance_iff
    (hascends : (page key limit cursor rows).Pairwise fun a b => key a < key b) :
    after (advance key cursor (page key limit cursor rows)) k = true ↔
      after cursor k = true ∧ ∀ x ∈ page key limit cursor rows, key x < k := by
  cases hlast : (page key limit cursor rows).getLast? with
  | none =>
    rw [advance, hlast, List.getLast?_eq_none_iff.mp hlast]
    simp
  | some last =>
    have hmem := List.mem_of_getLast? hlast
    have hgreatest : ∀ x ∈ page key limit cursor rows, key x ≤ key last := by
      obtain ⟨init, hinit⟩ := List.getLast?_eq_some_iff.mp hlast
      rw [hinit] at hascends ⊢
      intro x hx
      rcases List.mem_append.mp hx with hx | hx
      · exact ((List.pairwise_append.mp hascends).2.2 x hx last (List.mem_singleton_self _)).le
      · rw [List.mem_singleton.mp hx]
    have hadvanced : advance key cursor (page key limit cursor rows) = some (key last) := by
      rw [advance, hlast]
      rfl
    rw [hadvanced, after_iff]
    constructor
    · intro h
      have hlt := h _ rfl
      refine ⟨after_iff.mpr fun c hc => ?_, fun x hx => (hgreatest x hx).trans_lt hlt⟩
      exact (after_iff.mp (mem_of_mem_page hmem).2 c hc).trans hlt
    · rintro ⟨-, h⟩ c hc
      exact Option.some.inj hc ▸ h last hmem

/-- Whatever happens to the rows between the pages, the keys a reader is given ascend. -/
theorem pages_ascend (hnodup : ∀ rows ∈ views, (rows.map key).Nodup) :
    ((pages key limit cursor views).flatten.Pairwise fun a b => key a < key b) ∧
      ∀ r ∈ (pages key limit cursor views).flatten, after cursor (key r) = true := by
  induction views generalizing cursor with
  | nil => exact ⟨.nil, fun _ h => by cases h⟩
  | cons rows views ih =>
    have hascends := @page_ascends _ _ _ key limit cursor rows (hnodup rows List.mem_cons_self)
    obtain ⟨hrest, hafter⟩ := @ih (advance key cursor (page key limit cursor rows))
      fun rows h => hnodup rows (List.mem_cons_of_mem _ h)
    rw [pages, List.flatten_cons]
    refine ⟨List.pairwise_append.mpr ⟨hascends, hrest, fun x hx r hr => ?_⟩, fun r hr => ?_⟩
    · exact ((after_advance_iff hascends).mp (hafter r hr)).2 x hx
    · rcases List.mem_append.mp hr with hr | hr
      · exact (mem_of_mem_page hr).2
      · exact ((after_advance_iff hascends).mp (hafter r hr)).1

/-- Once a page is not full, the reader was given every key that all views have. -/
theorem pages_complete (hnodup : ∀ rows ∈ views, (rows.map key).Nodup)
    (hshort : ∃ given ∈ pages key limit cursor views, given.length < limit)
    (hk : ∀ rows ∈ views, k ∈ rows.map key) (hafter : after cursor k = true) :
    k ∈ (pages key limit cursor views).flatten.map key := by
  induction views generalizing cursor with
  | nil =>
    obtain ⟨given, hgiven, -⟩ := hshort
    cases hgiven
  | cons rows views ih =>
    have hnodup' := hnodup rows List.mem_cons_self
    obtain ⟨r, hr, rfl⟩ := List.mem_map.mp (hk rows List.mem_cons_self)
    rw [pages, List.flatten_cons, List.map_append, List.mem_append]
    rcases @mem_page_or _ _ _ key limit cursor rows r hnodup' hr hafter with hpage | ⟨hfull, hbelow⟩
    · exact .inl (List.mem_map_of_mem hpage)
    · refine .inr (ih (fun rows h => hnodup rows (List.mem_cons_of_mem _ h)) ?_
        (fun rows h => hk rows (List.mem_cons_of_mem _ h))
        ((after_advance_iff (page_ascends hnodup')).mpr ⟨hafter, hbelow⟩))
      obtain ⟨given, hgiven, hlt⟩ := hshort
      rcases List.mem_cons.mp hgiven with rfl | hlater
      · exact absurd hfull (Nat.ne_of_lt hlt)
      · exact ⟨given, hlater, hlt⟩

theorem mem_view_of_mem_pages (h : r ∈ (pages key limit cursor views).flatten) :
    ∃ rows ∈ views, r ∈ rows := by
  induction views generalizing cursor with
  | nil => cases h
  | cons rows views ih =>
    rw [pages, List.flatten_cons, List.mem_append] at h
    rcases h with h | h
    · exact ⟨rows, List.mem_cons_self, (mem_of_mem_page h).1⟩
    · obtain ⟨rows', hrows', hr⟩ := ih h
      exact ⟨rows', List.mem_cons_of_mem _ hrows', hr⟩

/-- Together the pages hold no more rows than there are keys. -/
theorem pages_bounded {all : List κ} (hnodup : ∀ rows ∈ views, (rows.map key).Nodup)
    (hall : ∀ rows ∈ views, ∀ r ∈ rows, key r ∈ all) :
    (pages key limit cursor views).flatten.length ≤ all.length := by
  have hkeys : ((pages key limit cursor views).flatten.map key).Nodup :=
    List.pairwise_map.mpr ((pages_ascend hnodup).1.imp fun h => h.ne)
  rw [← List.length_map (f := key)]
  refine (hkeys.subperm fun k hk => ?_).length_le
  obtain ⟨r, hr, rfl⟩ := List.mem_map.mp hk
  obtain ⟨rows, hrows, hr'⟩ := mem_view_of_mem_pages hr
  exact hall rows hrows r hr'

theorem countP_full_le (given : List (List ρ)) :
    given.countP (fun rows => rows.length == limit) * limit ≤ given.flatten.length := by
  induction given with
  | nil => simp
  | cons rows given ih =>
    rw [List.countP_cons, List.flatten_cons, List.length_append, Nat.add_mul]
    by_cases hfull : rows.length = limit
    · simp only [hfull, beq_self_eq_true, if_true, Nat.one_mul]
      omega
    · rw [if_neg (by simpa using hfull)]
      omega

end BackboneEvents.KeysetPages
