import Mathlib.Data.List.Basic

/-!
# Folded content lines

A text of lines that end in CRLF, where a line break followed by a blank is a fold: such a text
reads back as its lines wherever the folds stand, next to bare carriage returns included.
-/
namespace FoldedLines

/-- The parts of a text between its CRLF pairs. -/
def splitCrlf : List Char → List (List Char)
  | [] => [[]]
  | '\r' :: '\n' :: rest => [] :: splitCrlf rest
  | c :: rest => (splitCrlf rest).modifyHead (c :: ·)

/-- The lines after the one being read: one that starts with a blank continues it. -/
def joinFrom (current : List Char) : List (List Char) → List (List Char)
  | [] => [current]
  | (' ' :: more) :: rest => joinFrom (current ++ more) rest
  | ('\t' :: more) :: rest => joinFrom (current ++ more) rest
  | line :: rest => current :: joinFrom line rest

/-- A text's lines with their continuations. -/
def contentLines (text : List Char) : List (List Char) :=
  match splitCrlf text with
  | [] => []
  | line :: rest => joinFrom line rest

/-- A text is a line with folds in it. -/
inductive Folded : List Char → List Char → Prop where
  | nil : Folded [] []
  | char {c : Char} {text line : List Char} (hc : c ≠ '\n') (h : Folded text line) :
      Folded (c :: text) (c :: line)
  | fold {c : Char} {text line : List Char} (hc : c ≠ '\n') (h : Folded text line) :
      Folded ('\r' :: '\n' :: ' ' :: c :: text) (c :: line)

/-- A content line: its text starts with its first character, which is no blank. -/
inductive ContentLine : List Char → List Char → Prop where
  | mk {c : Char} {text line : List Char} (hc : c ∉ [' ', '\t', '\n']) (h : Folded text line) :
      ContentLine (c :: text) (c :: line)

section Splitting

variable {c : Char} {text line rest : List Char}

theorem splitCrlf_crlf (rest : List Char) :
    splitCrlf ('\r' :: '\n' :: rest) = [] :: splitCrlf rest := by
  rw [splitCrlf]

theorem splitCrlf_cons (h : rest.head? ≠ some '\n') :
    splitCrlf (c :: rest) = (splitCrlf rest).modifyHead (c :: ·) := by
  rw [splitCrlf]
  rintro tail - rfl
  exact h rfl

theorem splitCrlf_ne_nil (text : List Char) : splitCrlf text ≠ [] := by
  induction text using splitCrlf.induct with
  | case1 => exact List.cons_ne_nil _ _
  | case2 rest => rw [splitCrlf_crlf]; exact List.cons_ne_nil _ _
  | case3 c rest hcrlf ih =>
    rw [splitCrlf]
    · cases hsplit : splitCrlf rest with
      | nil => exact absurd hsplit ih
      | cons first more => exact List.cons_ne_nil _ _
    · exact hcrlf

/-- A pair ends a line wherever it stands, after a carriage return included. -/
theorem splitCrlf_append (text rest : List Char) :
    splitCrlf (text ++ '\r' :: '\n' :: rest) = splitCrlf text ++ splitCrlf rest := by
  induction text using splitCrlf.induct with
  | case1 => rw [List.nil_append, splitCrlf_crlf]; rfl
  | case2 text ih => rw [List.cons_append, List.cons_append, splitCrlf_crlf, ih, splitCrlf_crlf]; rfl
  | case3 c text hcrlf ih =>
    obtain ⟨first, more, hsplit⟩ := List.exists_cons_of_ne_nil (splitCrlf_ne_nil text)
    rw [List.cons_append, splitCrlf, ih, splitCrlf, hsplit]
    · rfl
    · exact hcrlf
    · intro tail hc htail
      cases text with
      | nil => cases htail
      | cons d text => exact hcrlf text hc (by rw [List.cons_append] at htail; cases htail; rfl)

theorem splitCrlf_intercalate {texts : List (List Char)} (hne : texts ≠ []) :
    splitCrlf (['\r', '\n'].intercalate texts) = texts.flatMap splitCrlf := by
  induction texts with
  | nil => exact absurd rfl hne
  | cons text texts ih =>
    cases texts with
    | nil => simp
    | cons next texts =>
      rw [List.intercalate_cons_cons, List.flatMap_cons, ← ih (List.cons_ne_nil _ _),
        ← splitCrlf_append, List.append_assoc]
      rfl

theorem splitCrlf_of_notMem (h : '\n' ∉ line) : splitCrlf line = [line] := by
  induction line with
  | nil => rw [splitCrlf]
  | cons c line ih =>
    rw [List.mem_cons, not_or] at h
    rw [splitCrlf_cons (fun hhead => h.2 (List.mem_of_head? hhead)), ih h.2]
    rfl

theorem Folded.head_ne (h : Folded text line) (hrest : rest.head? ≠ some '\n') :
    (text ++ rest).head? ≠ some '\n' := by
  cases h with
  | nil => exact hrest
  | char hc _ => simpa using hc
  | fold _ _ => simp

/-- A line without a fold in it. -/
theorem Folded.of_notMem (h : '\n' ∉ line) : Folded line line := by
  induction line with
  | nil => exact .nil
  | cons c line ih =>
    rw [List.mem_cons, not_or] at h
    exact .char (Ne.symm h.1) (ih h.2)

end Splitting

section Reading

variable {text line rest : List Char} {ends : List (List Char)}

/-- What comes after a folded line is read after the line itself. -/
theorem Folded.read (h : Folded text line) (hhead : rest.head? ≠ some '\n')
    (hrest : splitCrlf rest = [] :: ends) : ∃ first more,
    splitCrlf (text ++ rest) = first :: more ∧
      ∀ current, joinFrom (current ++ first) more = joinFrom (current ++ line) ends := by
  induction h with
  | nil => exact ⟨[], ends, hrest, fun _ => rfl⟩
  | @char c text line hc h ih =>
    obtain ⟨first, more, hsplit, hread⟩ := ih
    refine ⟨c :: first, more, ?_, fun current => ?_⟩
    · rw [List.cons_append, splitCrlf_cons (h.head_ne hhead), hsplit]
      rfl
    · rw [List.append_cons, hread, List.append_cons current c line]
  | @fold c text line hc h ih =>
    obtain ⟨first, more, hsplit, hread⟩ := ih
    refine ⟨[], (' ' :: c :: first) :: more, ?_, fun current => ?_⟩
    · rw [List.cons_append, List.cons_append, splitCrlf_crlf, List.cons_append,
        List.cons_append, splitCrlf_cons (by simpa using hc), splitCrlf_cons (h.head_ne hhead),
        hsplit]
      rfl
    · rw [List.append_nil, joinFrom, List.append_cons, hread, List.append_cons current c line]

theorem joinFrom_cons {c : Char} (hc : c ∉ [' ', '\t', '\n']) (current first : List Char)
    (more : List (List Char)) :
    joinFrom current ((c :: first) :: more) = current :: joinFrom (c :: first) more := by
  rw [joinFrom]
  · rintro tail heq
    cases heq
    exact hc (by decide)
  · rintro tail heq
    cases heq
    exact hc (by decide)

/-- A content line is read up to the next one. -/
theorem ContentLine.read (h : ContentLine text line) (hhead : rest.head? ≠ some '\n')
    (hrest : splitCrlf rest = [] :: ends) : ∃ c first more, c ∉ [' ', '\t', '\n'] ∧
      splitCrlf (text ++ rest) = (c :: first) :: more ∧
      joinFrom (c :: first) more = joinFrom line ends := by
  cases h with
  | @mk c text line hc h =>
    obtain ⟨first, more, hsplit, hread⟩ := h.read hhead hrest
    refine ⟨c, first, more, hc, ?_, hread [c]⟩
    rw [List.cons_append, splitCrlf_cons (h.head_ne hhead), hsplit]
    rfl

theorem read_lines {texts lines : List (List Char)}
    (h : List.Forall₂ ContentLine (text :: texts) (line :: lines)) :
    ∃ c first more, c ∉ [' ', '\t', '\n'] ∧
      splitCrlf (['\r', '\n'].intercalate (text :: texts)) = (c :: first) :: more ∧
      joinFrom (c :: first) more = line :: lines := by
  induction texts generalizing text line lines with
  | nil =>
    cases h with
    | cons hline hnone =>
      cases hnone
      obtain ⟨c, first, more, hc, hsplit, hread⟩ := hline.read (by simp) splitCrlf.eq_1
      rw [List.append_nil] at hsplit
      exact ⟨c, first, more, hc, by rw [List.intercalate_singleton, hsplit], hread⟩
  | cons next texts ih =>
    cases h with
    | cons hline hrest =>
      cases hrest with
      | @cons _ line' _ lines hnext hlines =>
        obtain ⟨c', first', more', hc', hsplit', hread'⟩ := ih (.cons hnext hlines)
        obtain ⟨c, first, more, hc, hsplit, hread⟩ := hline.read (by simp)
          (splitCrlf_crlf (['\r', '\n'].intercalate (next :: texts)))
        refine ⟨c, first, more, hc, ?_, ?_⟩
        · rw [List.intercalate_cons_cons, ← hsplit]
          simp
        · rw [hread, hsplit', joinFrom_cons hc', hread']

/-- Content lines that are folded and ended by CRLF read back as they are. -/
theorem contentLines_intercalate {texts lines : List (List Char)}
    (h : List.Forall₂ ContentLine texts lines) (hne : texts ≠ []) :
    contentLines (['\r', '\n'].intercalate texts) = lines := by
  cases h with
  | nil => exact absurd rfl hne
  | cons hline hlines =>
    obtain ⟨c, first, more, -, hsplit, hread⟩ := read_lines (.cons hline hlines)
    rw [contentLines, hsplit]
    exact hread

end Reading

end FoldedLines
