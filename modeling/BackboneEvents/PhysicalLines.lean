import BackboneEvents.IcsText

/-!
# The physical lines of a calendar

A line is folded after each 74 characters once it has more than 75 octets. So a calendar keeps
within 75 octets exactly where its summary has no wide run of characters.
-/
namespace BackboneEvents.PhysicalLines
open Base64Url FoldedLines IcsText

/-- The length of a text in UTF-8. -/
def octets (text : List Char) : ℕ := (text.flatMap String.utf8EncodeChar).length

/-- A line of at most 75 octets without a bare carriage return or line feed. -/
def WellFormed (line : List Char) : Prop := octets line ≤ 75 ∧ '\r' ∉ line ∧ '\n' ∉ line

/-- All the lines between the CRLF pairs of a text are well formed. -/
def WellFormedLines (body : String) : Prop := ∀ line ∈ splitCrlf body.toList, WellFormed line

/-- A line of at most 75 octets, or one whose first 74 characters take at most 75 octets and each
further run of 74 at most 74. -/
def Narrow (line : List Char) : Prop :=
  octets line ≤ 75 ∨
    octets (line.take 74) ≤ 75 ∧ ∀ k, octets ((line.drop (74 + 74 * k)).take 74) ≤ 74

/-- The summary of a name: a backslash, a semicolon, a comma and a line feed take two characters. -/
def summaryLine (name : String) : List Char :=
  ['S', 'U', 'M', 'M', 'A', 'R', 'Y', ':'] ++ name.toList.flatMap escapeChar

/-- Characters that take one octet each and break no line. -/
def Plain (text : List Char) : Prop := ∀ c ∈ text, c.toNat < 128 ∧ c ≠ '\r' ∧ c ≠ '\n'

instance (text : List Char) : Decidable (Plain text) := List.decidableBAll _ text

/-- The texts of ids and instants are plain. -/
structure PlainTexts (H : PublicHost) : Prop where
  uuid : ∀ id, Plain (H.uuidToString id).toList
  stamp : ∀ t, Plain (H.icsStamp t).toList

section Octets

variable {text text' : List Char}

theorem octets_append (text text' : List Char) :
    octets (text ++ text') = octets text + octets text' := by
  rw [octets, List.flatMap_append, List.length_append, octets, octets]

theorem octets_take_le (n : ℕ) (text : List Char) : octets (text.take n) ≤ octets text := by
  have hsplit := octets_append (text.take n) (text.drop n)
  rw [List.take_append_drop] at hsplit
  omega

theorem octets_blank (text : List Char) : octets (' ' :: text) = octets text + 1 := by
  rw [← List.singleton_append, octets_append, Nat.add_comm]
  rfl

theorem Plain.append (h : Plain text) (h' : Plain text') : Plain (text ++ text') := by
  intro c hc
  rcases List.mem_append.mp hc with hc | hc
  · exact h c hc
  · exact h' c hc

theorem Plain.of_subset (h : Plain text) (hsub : text' ⊆ text) : Plain text' :=
  fun c hc => h c (hsub hc)

theorem Plain.octets (h : Plain text) : octets text = text.length := by
  induction text with
  | nil => rfl
  | cons c text ih =>
    have hc : c.utf8Size = 1 := Char.utf8Size_eq_one_iff.mpr (by
      have hlt := (h c List.mem_cons_self).1
      rw [UInt32.le_iff_toNat_le]
      exact Nat.le_of_lt_succ hlt)
    rw [← List.singleton_append, octets_append,
      ih (h.of_subset (List.subset_cons_self c text)), List.length_append]
    congr 1
    simpa [PhysicalLines.octets] using hc

theorem Plain.narrow (h : Plain text) : Narrow text := by
  refine .inr ⟨?_, fun k => ?_⟩
  · rw [(h.of_subset (List.take_subset _ _)).octets]
    exact (List.length_take_le _ _).trans (by decide)
  · have hsub := List.Subset.trans (List.take_subset 74 _) (List.drop_subset (74 + 74 * k) text)
    rw [(h.of_subset hsub).octets]
    exact List.length_take_le _ _

end Octets

section Folding

/-- Where the loop cuts: what is left of the line being written, then runs of 74 after a blank. -/
theorem splitCrlf_foldFrom {line : List Char} (h : '\n' ∉ line) {count : ℕ} (hcount : count ≤ 74) :
    ∃ more, splitCrlf (foldFrom count line) = line.take (74 - count) :: more ∧
      ∀ run, run ∈ more ↔ ∃ k, 74 - count + 74 * k < line.length ∧
        run = ' ' :: (line.drop (74 - count + 74 * k)).take 74 := by
  induction line generalizing count with
  | nil => exact ⟨[], by simp [foldFrom, splitCrlf], by simp⟩
  | cons c line ih =>
    rw [List.mem_cons, not_or] at h
    have hfold : ∀ n, (foldFrom n line).head? ≠ some '\n' := by
      intro n
      have hfolded := (folded_foldFrom h.2 n).head_ne (show [].head? ≠ some '\n' by simp)
      rwa [List.append_nil] at hfolded
    rw [foldFrom]
    split
    · next hfull =>
      obtain rfl : count = 74 := by omega
      obtain ⟨more, hsplit, hmore⟩ := ih h.2 (show 1 ≤ 74 by decide)
      refine ⟨(' ' :: c :: line.take 73) :: more, ?_, fun run => ?_⟩
      · rw [splitCrlf_crlf, splitCrlf_cons (by simpa using Ne.symm h.1), splitCrlf_cons (hfold 1),
          hsplit]
        rfl
      · rw [List.mem_cons, hmore]
        constructor
        · rintro (rfl | ⟨k, hk, rfl⟩)
          · exact ⟨0, by simp, by simp⟩
          · refine ⟨k + 1, by rw [List.length_cons]; omega, ?_⟩
            rw [show 74 - 74 + 74 * (k + 1) = 74 - 1 + 74 * k + 1 by omega, List.drop_succ_cons]
        · rintro ⟨k, hk, rfl⟩
          cases k with
          | zero => exact .inl (by simp)
          | succ k =>
            refine .inr ⟨k, by rw [List.length_cons] at hk; omega, ?_⟩
            rw [show 74 - 74 + 74 * (k + 1) = 74 - 1 + 74 * k + 1 by omega, List.drop_succ_cons]
    · next hroom =>
      obtain ⟨more, hsplit, hmore⟩ := ih h.2 (show count + 1 ≤ 74 by omega)
      have hleft : 74 - count = 74 - (count + 1) + 1 := by omega
      refine ⟨more, ?_, fun run => ?_⟩
      · rw [splitCrlf_cons (hfold _), hsplit, hleft, List.take_succ_cons]
        rfl
      · rw [hmore]
        refine exists_congr fun k => ?_
        rw [hleft, show 74 - (count + 1) + 1 + 74 * k = 74 - (count + 1) + 74 * k + 1 by omega,
          List.drop_succ_cons, List.length_cons, Nat.add_lt_add_iff_right]

theorem mem_run {c : Char} {line : List Char} (h : c ∈ line) :
    c ∈ line.take 74 ∨
      ∃ k, 74 + 74 * k < line.length ∧ c ∈ (line.drop (74 + 74 * k)).take 74 := by
  obtain ⟨i, hi, hc⟩ := List.getElem_of_mem h
  by_cases hhead : i < 74
  · refine .inl (List.mem_of_getElem? (i := i) ?_)
    rw [List.getElem?_take_of_lt hhead, List.getElem?_eq_getElem hi, hc]
  · have hrun : 74 + 74 * ((i - 74) / 74) + (i - 74) % 74 = i := by omega
    refine .inr ⟨(i - 74) / 74, by omega, List.mem_of_getElem? (i := (i - 74) % 74) ?_⟩
    rw [List.getElem?_take_of_lt (Nat.mod_lt _ (by decide)), List.getElem?_drop, hrun,
      List.getElem?_eq_getElem hi, hc]

theorem splitCrlf_icsFold {line : String} (h : '\n' ∉ line.toList)
    (hlong : ¬ octets line.toList ≤ 75) :
    ∃ more, splitCrlf (icsFold line).toList = line.toList.take 74 :: more ∧
      ∀ run, run ∈ more ↔ ∃ k, 74 + 74 * k < line.toList.length ∧
        run = ' ' :: (line.toList.drop (74 + 74 * k)).take 74 := by
  have hfold : icsFold line = String.ofList (foldFrom 0 line.toList) := if_neg hlong
  rw [hfold, String.toList_ofList]
  exact splitCrlf_foldFrom h (Nat.zero_le 74)

/-- What a fold writes is well formed for the narrow lines without a carriage return. -/
theorem wellFormed_icsFold_iff {line : String} (h : '\n' ∉ line.toList) :
    (∀ run ∈ splitCrlf (icsFold line).toList, WellFormed run) ↔
      '\r' ∉ line.toList ∧ Narrow line.toList := by
  by_cases hshort : octets line.toList ≤ 75
  · have hfold : icsFold line = line := if_pos hshort
    rw [hfold, splitCrlf_of_notMem h, List.forall_mem_singleton]
    exact ⟨fun hline => ⟨hline.2.1, .inl hshort⟩, fun hline => ⟨hshort, hline.1, h⟩⟩
  obtain ⟨more, hsplit, hmore⟩ := splitCrlf_icsFold h hshort
  rw [hsplit, List.forall_mem_cons]
  constructor
  · rintro ⟨hhead, hruns⟩
    refine ⟨fun hcr => ?_, .inr ⟨hhead.1, fun k => ?_⟩⟩
    · rcases mem_run hcr with hcr | ⟨k, hk, hcr⟩
      · exact hhead.2.1 hcr
      · exact (hruns _ ((hmore _).mpr ⟨k, hk, rfl⟩)).2.1 (List.mem_cons_of_mem _ hcr)
    · by_cases hk : 74 + 74 * k < line.toList.length
      · have hrun := (hruns _ ((hmore _).mpr ⟨k, hk, rfl⟩)).1
        rw [octets_blank] at hrun
        exact Nat.le_of_succ_le_succ hrun
      · rw [List.drop_eq_nil_of_le (Nat.le_of_not_lt hk)]
        exact Nat.zero_le _
  · rintro ⟨hcr, hshort' | ⟨hhead, hruns⟩⟩
    · exact absurd hshort' hshort
    have hpart : ∀ {c part}, part ⊆ line.toList → c ∉ line.toList → c ∉ part :=
      fun hsub hc hmem => hc (hsub hmem)
    refine ⟨⟨hhead, hpart (List.take_subset _ _) hcr, hpart (List.take_subset _ _) h⟩,
      fun run hrun => ?_⟩
    obtain ⟨k, -, rfl⟩ := (hmore run).mp hrun
    have hsub : (line.toList.drop (74 + 74 * k)).take 74 ⊆ line.toList :=
      List.Subset.trans (List.take_subset _ _) (List.drop_subset _ _)
    refine ⟨?_, ?_, ?_⟩
    · rw [octets_blank]
      exact Nat.succ_le_succ (hruns k)
    · exact List.not_mem_cons_of_ne_of_not_mem (by decide) (hpart hsub hcr)
    · exact List.not_mem_cons_of_ne_of_not_mem (by decide) (hpart hsub h)

end Folding

section Calendar

variable {H : PublicHost}

theorem plain_append {text text' : String} (h : Plain text.toList) (h' : Plain text'.toList) :
    Plain (text ++ text').toList := by
  rw [String.toList_append]
  exact h.append h'

theorem plain_uid (hH : PlainTexts H) (event : EventRow)
    (slotWindow : Option (Uuid × Timestamp × Timestamp)) :
    Plain (icsUid H event slotWindow).toList := by
  cases slotWindow with
  | none => exact plain_append (by decide) (hH.uuid event.id)
  | some w =>
    exact plain_append (plain_append (plain_append (by decide) (hH.uuid event.id)) (by decide))
      (hH.uuid w.1)

theorem mem_escape_iff (name : String) : '\r' ∈ summaryLine name ↔ '\r' ∈ name.toList := by
  have hchar : ∀ c, '\r' ∈ escapeChar c ↔ '\r' = c := by
    intro c
    rcases escapeChar_cases c with (rfl | rfl | rfl | rfl) | ⟨-, -, hself⟩
    · decide
    · decide
    · decide
    · decide
    · rw [hself, List.mem_singleton]
  simp [summaryLine, hchar]

/-- A plain line folds into well-formed ones. -/
theorem wellFormed_of_plain {line : String} (h : Plain line.toList) :
    ∀ run ∈ splitCrlf (icsFold line).toList, WellFormed run :=
  (wellFormed_icsFold_iff fun hmem => (h _ hmem).2.2 rfl).mpr
    ⟨fun hmem => (h _ hmem).2.1 rfl, h.narrow⟩

/-- A calendar is well formed when its summary is. -/
theorem wellFormedLines_iff (hH : PlainTexts H) (event : EventRow)
    (slotWindow : Option (Uuid × Timestamp × Timestamp)) :
    WellFormedLines (buildIcs H event slotWindow) ↔
      ∀ run ∈ splitCrlf (icsFold ("SUMMARY:" ++ icsEscape event.name)).toList, WellFormed run := by
  have huid : Plain ("UID:" ++ icsUid H event slotWindow ++ "@event.module").toList :=
    plain_append (plain_append (by decide) (plain_uid hH event slotWindow)) (by decide)
  have hstamp : ∀ {name : String}, Plain name.toList → ∀ t, Plain (name ++ H.icsStamp t).toList :=
    fun hname t => plain_append hname (hH.stamp t)
  rw [WellFormedLines, buildIcs_eq, String.toList_intercalate]
  change (∀ line ∈ splitCrlf (['\r', '\n'].intercalate _), _) ↔ _
  rw [splitCrlf_intercalate (by simp [icsLines]), List.forall_mem_flatMap]
  simp only [icsLines, List.map_cons, List.map_nil, List.forall_mem_cons]
  refine ⟨fun h => h.2.2.2.2.2.2.2.2.2.1, fun h => ⟨?_, ?_, ?_, ?_, ?_, ?_, ?_, ?_, ?_, h, ?_, ?_, ?_⟩⟩
  · exact wellFormed_of_plain (by decide)
  · exact wellFormed_of_plain (by decide)
  · exact wellFormed_of_plain (by decide)
  · exact wellFormed_of_plain (by decide)
  · exact wellFormed_of_plain (by decide)
  · exact wellFormed_of_plain huid
  · exact wellFormed_of_plain (hstamp (by decide) _)
  · exact wellFormed_of_plain (hstamp (by decide) _)
  · exact wellFormed_of_plain (hstamp (by decide) _)
  · exact wellFormed_of_plain (by decide)
  · exact wellFormed_of_plain (by decide)
  · exact List.forall_mem_nil _

end Calendar

/-- A calendar is well formed exactly for the narrow names without a carriage return. -/
theorem buildIcs_wellFormed_iff (H : PublicHost) (hH : PlainTexts H) (event : EventRow)
    (slotWindow : Option (Uuid × Timestamp × Timestamp)) :
    WellFormedLines (buildIcs H event slotWindow) ↔
      '\r' ∉ event.name.toList ∧ Narrow (summaryLine event.name) := by
  have hline : ("SUMMARY:" ++ icsEscape event.name).toList = summaryLine event.name := by
    rw [String.toList_append, toList_icsEscape]
    rfl
  have hunbroken : '\n' ∉ ("SUMMARY:" ++ icsEscape event.name).toList :=
    notMem_append (by decide) (notMem_icsEscape event.name)
  rw [wellFormedLines_iff hH, wellFormed_icsFold_iff hunbroken, hline, mem_escape_iff]

theorem gigHost_plainTexts : PlainTexts gigHost where
  uuid _ := by
    change Plain "4f5e1c1e-9a55-4b2e-8a54-2f1f6a0d7c11".toList
    decide
  stamp _ := by
    change Plain "19700101T000000Z".toList
    decide

def named (name : String) : EventRow :=
  ⟨⟨0, name, none, .normal, 0, 100, "UTC", false, true, 1, none⟩, 0, 1, .a6, true, none⟩

theorem buildIcs_wellFormed_festival :
    WellFormedLines (buildIcs gigHost (named "Festival of modern chamber music") none) :=
  (buildIcs_wellFormed_iff gigHost gigHost_plainTexts (named "Festival of modern chamber music")
    none).mpr ⟨by decide, .inl (by decide)⟩

/-- An event with a name of 37 characters and 71 octets. -/
def festival : EventRow := named "Фестиваль современной камерной музыки"

/-- Its summary is one line of 79 octets. -/
theorem festival_tooWide : ¬ WellFormedLines (buildIcs gigHost festival none) := by
  have hunbroken : '\n' ∉ ("SUMMARY:" ++ icsEscape festival.name).toList :=
    notMem_append (by decide) (notMem_icsEscape _)
  have hwide : 75 < octets (("SUMMARY:" ++ icsEscape festival.name).toList.take 74) := by
    decide +kernel
  rw [wellFormedLines_iff gigHost_plainTexts, wellFormed_icsFold_iff hunbroken]
  rintro ⟨-, hshort | ⟨hhead, -⟩⟩
  · exact absurd ((octets_take_le 74 _).trans hshort) (Nat.not_le_of_lt hwide)
  · exact absurd hhead (Nat.not_le_of_lt hwide)

end BackboneEvents.PhysicalLines
