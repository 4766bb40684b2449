import BackboneEvents.FoldedLines
import BackboneEvents.PublicGate

/-!
# The calendar text

What `buildIcs` writes reads back as its twelve content lines, with the event's own name.
-/
namespace BackboneEvents.IcsText
open FoldedLines

/-- The content lines of a calendar text. -/
def readLines (body : String) : List String := (contentLines body.toList).map String.ofList

/-- A TEXT value as its reader sees it. -/
def unescapeChars : List Char → List Char
  | [] => []
  | '\\' :: 'n' :: rest => '\n' :: unescapeChars rest
  | '\\' :: 'N' :: rest => '\n' :: unescapeChars rest
  | '\\' :: c :: rest => c :: unescapeChars rest
  | c :: rest => c :: unescapeChars rest

def icsUnescape (value : String) : String := String.ofList (unescapeChars value.toList)

/-- The texts of ids and instants have no line break. -/
structure Unbroken (H : PublicHost) : Prop where
  uuid : ∀ id, '\n' ∉ (H.uuidToString id).toList
  stamp : ∀ t, '\n' ∉ (H.icsStamp t).toList

def icsUid (H : PublicHost) (event : EventRow) :
    Option (Uuid × Timestamp × Timestamp) → String
  | some w => "event-" ++ H.uuidToString event.id ++ "-slot-" ++ H.uuidToString w.1
  | none => "event-" ++ H.uuidToString event.id

/-- The hours the calendar shows: the slot's, or the event's. -/
def icsWindow (event : EventRow) :
    Option (Uuid × Timestamp × Timestamp) → Timestamp × Timestamp
  | some w => w.2
  | none => (event.dateBegin, event.dateEnd)

/-- The twelve lines of an event's calendar with some summary. -/
def icsLines (H : PublicHost) (event : EventRow)
    (slotWindow : Option (Uuid × Timestamp × Timestamp)) (summary : String) : List String :=
  ["BEGIN:VCALENDAR", "VERSION:2.0", "PRODID:-//backbone-events//core//EN", "CALSCALE:GREGORIAN",
    "BEGIN:VEVENT", "UID:" ++ icsUid H event slotWindow ++ "@event.module",
    "DTSTAMP:" ++ H.icsStamp H.now, "DTSTART:" ++ H.icsStamp (icsWindow event slotWindow).1,
    "DTEND:" ++ H.icsStamp (icsWindow event slotWindow).2, "SUMMARY:" ++ summary, "END:VEVENT",
    "END:VCALENDAR"]

section Escaping

def escapeChar (c : Char) : List Char :=
  if c = '\\' then ['\\', '\\']
  else if c = ';' then ['\\', ';']
  else if c = ',' then ['\\', ',']
  else if c = '\n' then ['\\', 'n']
  else [c]

/-- The four replaces, one after the other, treat each character by itself. -/
theorem toList_icsEscape (raw : String) :
    (icsEscape raw).toList = raw.toList.flatMap escapeChar := by
  simp only [icsEscape, replaceChar, String.toList_ofList, List.flatMap_assoc]
  congr 1
  funext c
  rw [escapeChar]
  by_cases hbackslash : c = '\\'
  · rw [hbackslash]
    decide
  by_cases hsemicolon : c = ';'
  · rw [hsemicolon]
    decide
  by_cases hcomma : c = ','
  · rw [hcomma]
    decide
  by_cases hbreak : c = '\n'
  · rw [hbreak]
    decide
  simp [hbackslash, hsemicolon, hcomma, hbreak]

/-- An escape is two characters for four of them, and the character itself for any other. -/
theorem escapeChar_cases (c : Char) : (c = '\\' ∨ c = ';' ∨ c = ',' ∨ c = '\n') ∨
    c ≠ '\\' ∧ c ≠ '\n' ∧ escapeChar c = [c] := by
  by_cases hc : c = '\\' ∨ c = ';' ∨ c = ',' ∨ c = '\n'
  · exact .inl hc
  · simp only [not_or] at hc
    obtain ⟨hbackslash, hsemicolon, hcomma, hbreak⟩ := hc
    exact .inr ⟨hbackslash, hbreak, by simp [escapeChar, hbackslash, hsemicolon, hcomma, hbreak]⟩

theorem notMem_escapeChar (c : Char) : '\n' ∉ escapeChar c := by
  rcases escapeChar_cases c with (rfl | rfl | rfl | rfl) | ⟨-, hbreak, hself⟩
  · decide
  · decide
  · decide
  · decide
  · rw [hself, List.mem_singleton]
    exact Ne.symm hbreak

theorem notMem_icsEscape (raw : String) : '\n' ∉ (icsEscape raw).toList := by
  rw [toList_icsEscape]
  intro h
  obtain ⟨c, -, hc⟩ := List.mem_flatMap.mp h
  exact notMem_escapeChar c hc

theorem unescape_escapeChar (c : Char) (rest : List Char) :
    unescapeChars (escapeChar c ++ rest) = c :: unescapeChars rest := by
  rcases escapeChar_cases c with (rfl | rfl | rfl | rfl) | ⟨hbackslash, -, hself⟩
  · rfl
  · rfl
  · rfl
  · rfl
  · rw [hself, List.singleton_append, unescapeChars]
    · rintro tail rfl
      exact absurd rfl hbackslash
    · rintro tail rfl
      exact absurd rfl hbackslash
    · rintro d tail rfl
      exact absurd rfl hbackslash

theorem icsUnescape_escape (raw : String) : icsUnescape (icsEscape raw) = raw := by
  have hchars : ∀ text : List Char, unescapeChars (text.flatMap escapeChar) = text := by
    intro text
    induction text with
    | nil => rfl
    | cons c text ih => rw [List.flatMap_cons, unescape_escapeChar, ih]
  rw [icsUnescape, toList_icsEscape, hchars, String.ofList_toList]

end Escaping

section Folding

theorem folded_foldFrom {line : List Char} (h : '\n' ∉ line) (count : ℕ) :
    Folded (foldFrom count line) line := by
  induction line generalizing count with
  | nil => exact .nil
  | cons c line ih =>
    rw [List.mem_cons, not_or] at h
    rw [foldFrom]
    split
    · exact .fold (Ne.symm h.1) (ih h.2 1)
    · exact .char (Ne.symm h.1) (ih h.2 (count + 1))

/-- A line of the calendar has no line break, and does not start with a blank. -/
def IsLine (line : String) : Prop :=
  '\n' ∉ line.toList ∧ line.toList.head?.any (fun c => c ∉ [' ', '\t', '\n']) = true

instance (line : String) : Decidable (IsLine line) := inferInstanceAs (Decidable (_ ∧ _))

theorem contentLine_icsFold {line : String} (h : IsLine line) :
    ContentLine (icsFold line).toList line.toList := by
  obtain ⟨hunbroken, hhead⟩ := h
  obtain ⟨c, hc, hblank⟩ := (Option.any_eq_true _ _).mp hhead
  obtain ⟨rest, hline⟩ := List.head?_eq_some_iff.mp hc
  have hrest : '\n' ∉ rest := by
    rw [hline, List.mem_cons, not_or] at hunbroken
    exact hunbroken.2
  rw [icsFold]
  split
  · rw [hline]
    exact .mk (of_decide_eq_true hblank) (.of_notMem hrest)
  · rw [String.toList_ofList, hline, foldFrom, if_neg (by decide)]
    exact .mk (of_decide_eq_true hblank) (folded_foldFrom hrest 1)

theorem readLines_folded {lines : List String} (h : ∀ line ∈ lines, IsLine line)
    (hne : lines ≠ []) :
    readLines ("\r\n".intercalate (lines.map icsFold)) = lines := by
  have hlines : List.Forall₂ ContentLine ((lines.map icsFold).map String.toList)
      (lines.map String.toList) := by
    rw [List.map_map, List.forall₂_map_left_iff, List.forall₂_map_right_iff, List.forall₂_same]
    exact fun line hline => contentLine_icsFold (h line hline)
  rw [readLines, String.toList_intercalate]
  change (contentLines (['\r', '\n'].intercalate _)).map _ = _
  rw [contentLines_intercalate hlines (by simpa using hne), List.map_map]
  have hid : String.ofList ∘ String.toList = id := funext fun _ => String.ofList_toList
  rw [hid, List.map_id]

end Folding

section Calendar

variable {H : PublicHost}

theorem notMem_append {text text' : String} (h : '\n' ∉ text.toList) (h' : '\n' ∉ text'.toList) :
    '\n' ∉ (text ++ text').toList := by
  rw [String.toList_append, List.mem_append, not_or]
  exact ⟨h, h'⟩

theorem isLine_append {name text : String} (hname : IsLine name) (htext : '\n' ∉ text.toList) :
    IsLine (name ++ text) := by
  refine ⟨notMem_append hname.1 htext, ?_⟩
  obtain ⟨c, hc, hblank⟩ := (Option.any_eq_true _ _).mp hname.2
  rw [String.toList_append, List.head?_append, hc]
  exact hblank

theorem notMem_uid (hH : Unbroken H) (event : EventRow)
    (slotWindow : Option (Uuid × Timestamp × Timestamp)) :
    '\n' ∉ (icsUid H event slotWindow).toList := by
  cases slotWindow with
  | none => exact notMem_append (by decide) (hH.uuid event.id)
  | some w =>
    exact notMem_append (notMem_append (notMem_append (by decide) (hH.uuid event.id)) (by decide))
      (hH.uuid w.1)

theorem isLine_icsLines (hH : Unbroken H) (event : EventRow)
    (slotWindow : Option (Uuid × Timestamp × Timestamp)) {summary : String}
    (h : '\n' ∉ summary.toList) : ∀ line ∈ icsLines H event slotWindow summary, IsLine line := by
  have huid : IsLine ("UID:" ++ icsUid H event slotWindow ++ "@event.module") :=
    isLine_append (isLine_append (by decide) (notMem_uid hH event slotWindow)) (by decide)
  have hstamp : ∀ {name}, IsLine name → ∀ t, IsLine (name ++ H.icsStamp t) := fun hname t =>
    isLine_append hname (hH.stamp t)
  simp only [icsLines, List.forall_mem_cons]
  refine ⟨by decide, by decide, by decide, by decide, by decide, huid, hstamp (by decide) _,
    hstamp (by decide) _, hstamp (by decide) _, isLine_append (by decide) h, by decide, by decide,
    List.forall_mem_nil _⟩

theorem buildIcs_eq (event : EventRow) (slotWindow : Option (Uuid × Timestamp × Timestamp)) :
    buildIcs H event slotWindow = "\r\n".intercalate
      ((icsLines H event slotWindow (icsEscape event.name)).map icsFold) := by
  cases slotWindow with
  | none => rw [buildIcs]; rfl
  | some w => rw [buildIcs]; rfl

end Calendar

/-- For every name the calendar text reads back as its twelve lines, and its summary as the
name. -/
theorem buildIcs_reads (H : PublicHost) (hH : Unbroken H) (event : EventRow)
    (slotWindow : Option (Uuid × Timestamp × Timestamp)) : ∃ summary,
    readLines (buildIcs H event slotWindow) = icsLines H event slotWindow summary ∧
      icsUnescape summary = event.name := by
  refine ⟨icsEscape event.name, ?_, icsUnescape_escape event.name⟩
  rw [buildIcs_eq]
  exact readLines_folded (isLine_icsLines hH event slotWindow (notMem_icsEscape event.name))
    (List.cons_ne_nil _ _)

theorem gigHost_unbroken : Unbroken gigHost where
  uuid _ := by
    change '\n' ∉ "4f5e1c1e-9a55-4b2e-8a54-2f1f6a0d7c11".toList
    decide
  stamp _ := by
    change '\n' ∉ "19700101T000000Z".toList
    decide

/-- A name made of what a line break, a fold and an escape are made of. -/
def riotRow : EventRow :=
  ⟨⟨0, "a\r\nEND:VEVENT\r\n\\n;,\\", none, .normal, 0, 100, "UTC", false, true, 1, none⟩, 0, 1, .a6,
    true, none⟩

theorem buildIcs_reads_riot : ∃ summary,
    readLines (buildIcs gigHost riotRow none) = icsLines gigHost riotRow none summary ∧
      icsUnescape summary = "a\r\nEND:VEVENT\r\n\\n;,\\" :=
  buildIcs_reads gigHost gigHost_unbroken riotRow none

end BackboneEvents.IcsText
