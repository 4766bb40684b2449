import Mathlib.Data.List.Basic
import Mathlib.Data.List.Count
import Mathlib.Data.List.Pairwise

/-!
# Tables under uniqueness constraints

A table is a list of rows no two of which clash, where two rows clash when they
agree on some unique key. An update keeps the keys of every row, so it keeps the
constraint; a row that clashes with a stored one cannot be added.
-/
namespace BackboneEvents.ConstrainedTables

universe u

theorem any_congr {ρ : Type u} {l : List ρ} {p q : ρ → Bool} (h : ∀ a ∈ l, p a = q a) :
    l.any p = l.any q := by
  induction l with
  | nil => rfl
  | cons a l ih =>
    rw [List.any_cons, List.any_cons, h a List.mem_cons_self,
      ih fun b hb => h b (List.mem_cons_of_mem _ hb)]

/-- The uniqueness constraints of a row type, as one relation. -/
class Keyed (ρ : Type u) where
  clash : ρ → ρ → Bool
  clash_self : ∀ a, clash a a = true
  clash_comm : ∀ a b, clash a b = clash b a

export Keyed (clash clash_self clash_comm)

/-- A change of a row that keeps all its unique keys. -/
structure Update (ρ : Type u) [Keyed ρ] where
  toFun : ρ → ρ
  keeps : ∀ a b, clash (toFun a) b = clash a b

instance {ρ : Type u} [Keyed ρ] : CoeFun (Update ρ) (fun _ => ρ → ρ) := ⟨Update.toFun⟩

structure Table (ρ : Type u) [Keyed ρ] where
  rows : List ρ
  unique : rows.Pairwise (fun a b => clash a b = false)

instance {ρ : Type u} [Keyed ρ] : Std.Symm (fun a b : ρ => clash a b = false) :=
  ⟨fun a b h => by rw [clash_comm]; exact h⟩

namespace Table

variable {ρ : Type u} [Keyed ρ]

theorem ext {t t' : Table ρ} (h : t.rows = t'.rows) : t = t' := by
  cases t; cases t'; cases h; rfl

instance [DecidableEq ρ] : DecidableEq (Table ρ) := fun t t' =>
  decidable_of_iff (t.rows = t'.rows) ⟨ext, fun h => h ▸ rfl⟩

def empty : Table ρ := ⟨[], .nil⟩

instance : Inhabited (Table ρ) := ⟨empty⟩

def find (t : Table ρ) (p : ρ → Bool) : Option ρ := t.rows.find? p

def count (t : Table ρ) (p : ρ → Bool) : ℕ := t.rows.countP p

/-- No stored row clashes with the new one. -/
def accepts (t : Table ρ) (r : ρ) : Bool := t.rows.all (fun x => !clash x r)

theorem accepts_iff {t : Table ρ} {r : ρ} :
    t.accepts r = true ↔ ∀ x ∈ t.rows, clash x r = false := by
  simp [accepts]

/-- Insert, doing nothing on a conflict. -/
def push (t : Table ρ) (r : ρ) : Table ρ :=
  if h : t.accepts r = true then
    ⟨t.rows ++ [r], List.pairwise_append.mpr
      ⟨t.unique, List.pairwise_singleton _ _, fun x hx y hy => by
        rw [List.mem_singleton.mp hy]
        exact accepts_iff.mp h x hx⟩⟩
  else t

theorem rows_push {t : Table ρ} {r : ρ} (h : t.accepts r = true) :
    (t.push r).rows = t.rows ++ [r] := by simp [push, h]

theorem push_of_not_accepts {t : Table ρ} {r : ρ} (h : t.accepts r = false) : t.push r = t := by
  simp [push, h]

theorem mem_push {t : Table ρ} {r x : ρ} (hx : x ∈ t.rows) : x ∈ (t.push r).rows := by
  cases h : t.accepts r with
  | true => simp [rows_push h, hx]
  | false => simpa [push_of_not_accepts h] using hx

theorem mem_of_mem_push {t : Table ρ} {r x : ρ} (hx : x ∈ (t.push r).rows) :
    x ∈ t.rows ∨ x = r := by
  cases h : t.accepts r with
  | true => simpa [rows_push h] using hx
  | false => exact .inl (by simpa [push_of_not_accepts h] using hx)

theorem count_push {t : Table ρ} {r : ρ} (h : t.accepts r = true) (q : ρ → Bool) :
    (t.push r).count q = t.count q + if q r then 1 else 0 := by
  simp only [count, rows_push h, List.countP_append, List.countP_singleton]

/-- Insert all the rows, or none of them when one conflicts. -/
def insertAll (t : Table ρ) : List ρ → Option (Table ρ)
  | [] => some t
  | r :: rs => if t.accepts r then (t.push r).insertAll rs else none

theorem rows_insertAll {t t' : Table ρ} {rs : List ρ} (h : t.insertAll rs = some t') :
    t'.rows = t.rows ++ rs := by
  induction rs generalizing t with
  | nil => simp_all [insertAll]
  | cons r rs ih =>
    simp only [insertAll] at h
    split at h
    · next haccepts => rw [ih h, rows_push haccepts, List.append_assoc, List.singleton_append]
    · cases h

/-- Rows that clash neither with a stored row nor with each other are all inserted. -/
theorem insertAll_of_apart {t : Table ρ} {rs : List ρ}
    (hstored : ∀ x ∈ t.rows, ∀ r ∈ rs, clash x r = false)
    (happart : rs.Pairwise (fun a b => clash a b = false)) : ∃ t', t.insertAll rs = some t' := by
  induction rs generalizing t with
  | nil => exact ⟨t, rfl⟩
  | cons r rs ih =>
    obtain ⟨hhead, htail⟩ := List.pairwise_cons.mp happart
    have haccepts : t.accepts r = true :=
      accepts_iff.mpr fun x hx => hstored x hx r List.mem_cons_self
    obtain ⟨t', ht'⟩ := @ih (t.push r) (fun x hx b hb => by
      rw [rows_push haccepts, List.mem_append, List.mem_singleton] at hx
      rcases hx with hx | rfl
      · exact hstored x hx b (List.mem_cons_of_mem _ hb)
      · exact hhead b hb) htail
    exact ⟨t', by simp only [insertAll, haccepts, if_true, ht']⟩

/-- Apply `f` to the rows that satisfy `p`. -/
def modify (t : Table ρ) (p : ρ → Bool) (f : Update ρ) : Table ρ where
  rows := t.rows.map (fun r => if p r then f r else r)
  unique := by
    refine List.pairwise_map.mpr (t.unique.imp ?_)
    intro a b hab
    have hb : ∀ c, clash c (f b) = clash c b := fun c => by
      rw [clash_comm, f.keeps, clash_comm]
    by_cases ha : p a <;> by_cases hp : p b <;> simp [ha, hp, f.keeps, hb, hab]

/-- Delete the rows that satisfy `p`. -/
def remove (t : Table ρ) (p : ρ → Bool) : Table ρ :=
  ⟨t.rows.filter (fun r => !p r), t.unique.filter _⟩

/-- The rows of `t` that `seen` holds, under the same keys, with the property `p`. -/
def matched (seen : Table ρ) (p : ρ → Bool) (r : ρ) : Bool :=
  seen.rows.any (fun v => clash v r && p v)

section rows

variable {t : Table ρ} {p q : ρ → Bool} {f : Update ρ}

@[simp] theorem rows_modify :
    (t.modify p f).rows = t.rows.map (fun r => if p r then f r else r) := rfl

@[simp] theorem rows_remove : (t.remove p).rows = t.rows.filter (fun r => !p r) := rfl

theorem mem_modify {r : ρ} : r ∈ (t.modify p f).rows ↔
    ∃ x ∈ t.rows, (if p x then f x else x) = r := by simp

theorem count_modify :
    (t.modify p f).count q = t.count (fun r => q (if p r then f r else r)) := by
  simp only [count, rows_modify, List.countP_map]
  rfl

/-- Rows updated on both sides of `q` alike leave the count of `q` alone. -/
theorem count_modify_of_eq (h : ∀ r ∈ t.rows, p r = true → q (f r) = q r) :
    (t.modify p f).count q = t.count q := by
  rw [count_modify]
  refine List.countP_congr fun r hr => ?_
  by_cases hp : p r = true
  · simp [hp, h r hr hp]
  · simp [hp]

/-- An update that brings no row into `q` does not raise its count. -/
theorem count_modify_le (h : ∀ r ∈ t.rows, p r = true → q (f r) = true → q r = true) :
    (t.modify p f).count q ≤ t.count q := by
  rw [count_modify]
  refine List.countP_mono_left fun r hr hq => ?_
  by_cases hp : p r = true
  · exact h r hr hp (by simpa [hp] using hq)
  · simpa [hp] using hq

/-- An update that takes rows outside `q` into `q` exactly where `g` holds. -/
theorem count_modify_enter {g : ρ → Bool}
    (hout : ∀ r ∈ t.rows, p r = true → q r = false)
    (hin : ∀ r ∈ t.rows, p r = true → q (f r) = g r) :
    (t.modify p f).count q = t.count q + t.count (fun r => p r && g r) := by
  rw [count_modify, count, count, count]
  revert hout hin
  induction t.rows with
  | nil => simp
  | cons a l ih =>
    intro hout hin
    have hl := ih (fun r hr => hout r (List.mem_cons_of_mem _ hr))
      (fun r hr => hin r (List.mem_cons_of_mem _ hr))
    simp only [List.countP_cons, hl]
    by_cases hp : p a = true
    · have ho := hout a List.mem_cons_self hp
      have hi := hin a List.mem_cons_self hp
      simp only [hp, ho, hi, if_true, Bool.true_and]
      cases g a <;> simp; omega
    · have hp' : p a = false := by simpa using hp
      simp only [hp', Bool.false_eq_true, if_false, Bool.false_and]
      omega

theorem eq_of_clash {a b : ρ} (ha : a ∈ t.rows) (hb : b ∈ t.rows)
    (h : clash a b = true) : a = b := by
  by_contra hne
  have hp := t.unique.forall ha hb hne
  simp [h] at hp

theorem nodup : t.rows.Nodup := t.unique.imp fun h he => by
  rw [he, clash_self] at h
  cases h

/-- A property that pins one stored row counts that row alone. -/
theorem count_pinned {a : ρ} {g : ρ → Bool} (ha : a ∈ t.rows)
    (hp : ∀ r ∈ t.rows, p r = true ↔ r = a) :
    t.count (fun r => p r && g r) = if g a then 1 else 0 := by
  have hpa : p a = true := (hp a ha).mpr rfl
  have hnodup := t.nodup
  obtain ⟨l₁, l₂, hrows⟩ := List.append_of_mem ha
  rw [hrows] at hp hnodup
  obtain ⟨h₂, hne⟩ : a ∉ l₂ ∧ ∀ r ∈ l₁, r ≠ a := by
    simp only [List.nodup_append, List.nodup_cons, List.mem_cons, ne_eq] at hnodup
    exact ⟨hnodup.2.1.1, fun r hr => hnodup.2.2 r hr a (.inl rfl)⟩
  have hzero₁ : l₁.countP (fun r => p r && g r) = 0 := List.countP_eq_zero.mpr fun r hr hpr => by
    simp only [Bool.and_eq_true] at hpr
    exact hne r hr ((hp r (by simp [hr])).mp hpr.1)
  have hzero₂ : l₂.countP (fun r => p r && g r) = 0 := List.countP_eq_zero.mpr fun r hr hpr => by
    simp only [Bool.and_eq_true] at hpr
    exact h₂ ((hp r (by simp [hr])).mp hpr.1 ▸ hr)
  simp [count, hrows, List.countP_append, List.countP_cons, hzero₁, hzero₂, hpa]

/-- A property under which any two rows clash counts at most one row. -/
theorem count_le_one (h : ∀ a b, p a = true → p b = true → clash a b = true) :
    t.count p ≤ 1 := by
  have hunique := t.unique.filter p
  rw [count, List.countP_eq_length_filter]
  cases hrows : t.rows.filter p with
  | nil => exact Nat.zero_le 1
  | cons a l =>
    cases l with
    | nil => exact Nat.le_refl 1
    | cons b l =>
      have ha : a ∈ t.rows.filter p := by simp [hrows]
      have hb : b ∈ t.rows.filter p := by simp [hrows]
      rw [hrows] at hunique
      have hfalse := (List.pairwise_cons.mp hunique).1 b List.mem_cons_self
      rw [h a b (List.mem_filter.mp ha).2 (List.mem_filter.mp hb).2] at hfalse
      cases hfalse

/-- A statement that matches rows in the very table it writes matches by `p` alone. -/
theorem matched_self {r : ρ} (hr : r ∈ t.rows) : t.matched p r = p r := by
  apply Bool.eq_iff_iff.mpr
  simp only [matched, List.any_eq_true, Bool.and_eq_true]
  constructor
  · rintro ⟨v, hv, hc, hp⟩
    rwa [← eq_of_clash hv hr hc]
  · intro hp
    exact ⟨r, hr, clash_self r, hp⟩

@[simp] theorem modify_matched_self : t.modify (t.matched p) f = t.modify p f := by
  apply ext
  refine List.map_congr_left fun r hr => ?_
  rw [matched_self hr]

theorem remove_eq_self (h : ∀ r ∈ t.rows, p r = false) : t.remove p = t := by
  apply ext
  rw [rows_remove]
  exact List.filter_eq_self.mpr fun r hr => by simp [h r hr]

@[simp] theorem remove_matched_self : t.remove (t.matched p) = t.remove p := by
  apply ext
  refine List.filter_congr fun r hr => ?_
  rw [matched_self hr]

/-- What matches one stored row matches whatever stands under its keys. -/
theorem matched_pinned {a : ρ} (ha : a ∈ t.rows) (hp : ∀ x ∈ t.rows, p x = true ↔ x = a) :
    t.matched p = clash a := by
  funext r
  apply Bool.eq_iff_iff.mpr
  simp only [matched, List.any_eq_true, Bool.and_eq_true]
  constructor
  · rintro ⟨x, hx, hc, hpx⟩
    rwa [← (hp x hx).mp hpx]
  · intro hc
    exact ⟨a, ha, hc, (hp a ha).mpr rfl⟩

theorem count_remove : (t.remove p).count q = t.count (fun r => q r && !p r) := by
  simp only [count, rows_remove, List.countP_filter]

theorem modify_eq_self (h : ∀ r ∈ t.rows, p r = false) : t.modify p f = t := by
  apply ext
  rw [rows_modify]
  refine (List.map_congr_left fun r hr => ?_).trans (List.map_id _)
  simp [h r hr]

/-- The same update on two choices of rows agrees where it changes nothing on their difference. -/
theorem modify_eq_iff : t.modify p f = t.modify q f ↔ ∀ r ∈ t.rows, p r ≠ q r → f r = r := by
  constructor
  · intro h r hr hne
    have hmap : (if p r then f r else r) = if q r then f r else r :=
      List.map_inj_left.mp (congrArg rows h) r hr
    cases hp : p r with
    | true =>
      have hq : q r = false := by simpa [hp] using hne
      simpa [hp, hq] using hmap
    | false =>
      have hq : q r = true := by simpa [hp] using hne
      simpa [hp, hq] using hmap.symm
  · intro h
    refine ext (List.map_congr_left fun r hr => ?_)
    by_cases heq : p r = q r
    · rw [heq]
    · simp [h r hr heq]

/-- Two rounds of an idempotent update are one round over both choices of rows. -/
theorem modify_modify (hq : ∀ r, q (f r) = q r) (hf : ∀ r, f (f r) = f r) :
    (t.modify p f).modify q f = t.modify (fun r => p r || q r) f := by
  refine ext ((List.map_map ..).trans (List.map_congr_left fun r _ => ?_))
  cases hp : p r <;> cases hqr : q r <;> simp [hp, hqr, hq, hf]

end rows

section find

variable {t : Table ρ} {p : ρ → Bool} {r : ρ}

theorem find_mem (h : t.find p = some r) : r ∈ t.rows := List.mem_of_find?_eq_some h

theorem find_spec (h : t.find p = some r) : p r = true := List.find?_some h

theorem find_modify {q : ρ → Bool} {f : Update ρ} (h : ∀ x, p (f x) = p x) :
    (t.modify q f).find p = (t.find p).map (fun x => if q x then f x else x) := by
  have hp : (p ∘ fun x => if q x then f x else x) = p := by
    funext x
    by_cases hq : q x = true <;> simp [hq, h]
  simp only [find, rows_modify, List.find?_map, hp]

/-- A row is found by any property that only rows under its keys can have. -/
theorem find_eq_some (hr : r ∈ t.rows) (hp : p r = true)
    (hkey : ∀ x, p x = true → clash x r = true) : t.find p = some r := by
  cases h : t.find p with
  | none => exact absurd hp (List.find?_eq_none.mp h r hr)
  | some x => rw [eq_of_clash (find_mem h) hr (hkey x (find_spec h))]

end find

end Table

end BackboneEvents.ConstrainedTables
