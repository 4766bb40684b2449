import BackboneEvents.RouteRates

/-!
# The caller's address behind a proxy

The lines of the forwarded header as the client sends them and the nearest proxy extends them.
-/
namespace BackboneEvents.ForwardedHops

def visible (b : UInt8) : Bool := b == 9 || (32 ≤ b && b < 127)

/-- The bytes a header value may hold. -/
def headerByte (b : UInt8) : Bool := b == 9 || (32 ≤ b && b != 127)

def chars (line : List UInt8) : List Char := line.map fun b => Char.ofNat b.toNat

def bytes (text : String) : List UInt8 := text.toList.map fun c => UInt8.ofNat c.toNat

/-- What the `http` crate documents: `get` is the first of the lines, `to_str` reads visible ASCII
text only, and a map takes any lines of header bytes up to its capacity. -/
structure Documented (X : Http) (capacity : ℕ) : Prop where
  get_eq : ∀ headers name, X.get headers name = (X.getAll headers name).head?
  toStr_eq : ∀ line, X.toStr line =
    if line.all visible then some (String.ofList (chars line)) else none
  built : ∀ lines : List (List UInt8), lines.length ≤ capacity →
    (∀ line ∈ lines, line.all headerByte) → ∃ headers, X.getAll headers "x-forwarded-for" = lines

/-- The record of a proxy: visible text without a comma and without blanks around it. -/
structure IsHop (hop : String) : Prop where
  nonempty : hop ≠ ""
  printable : hop.toList.all (fun c => c.toNat == 9 || (32 ≤ c.toNat && c.toNat < 127)) = true
  noComma : ',' ∉ hop.toList
  trimmed : GrandTotal.trim hop.toList = hop.toList

inductive Append where
  | joined (blanks : ℕ)
  | furtherLine

/-- The client's lines, and the hop as the last element of the combined list. -/
def forwarded : Append → List (List UInt8) → String → List (List UInt8)
  | .furtherLine, lines, hop => lines ++ [bytes hop]
  | .joined blanks, lines, hop =>
    match lines.getLast? with
    | none => [bytes hop]
    | some line =>
      lines.dropLast ++
        [line ++ bytes (String.ofList (',' :: List.replicate blanks ' ')) ++ bytes hop]

/-- The client sent no line, or one line of visible text which the proxy extends. -/
def Sound : Append → List (List UInt8) → Prop
  | .furtherLine, lines => lines = []
  | .joined _, [] => True
  | .joined _, [line] => line.all visible
  | .joined _, _ :: _ :: _ => False

section address

variable (X : Http) (socketIp : Option String) (how : Append) (lines : List (List UInt8))

def ReturnsHop : Prop :=
  ∀ hop, IsHop hop → ∀ headers, X.getAll headers "x-forwarded-for" = forwarded how lines hop →
    callerIp X headers socketIp true = hop

/-- The address is that of a request which differs only in the client's lines, sound ones. -/
def Indifferent : Prop :=
  ∀ hop, IsHop hop → ∀ lines', Sound how lines' → ∀ headers headers',
    X.getAll headers "x-forwarded-for" = forwarded how lines hop →
    X.getAll headers' "x-forwarded-for" = forwarded how lines' hop →
    callerIp X headers socketIp true = callerIp X headers' socketIp true

end address

section hop

variable {X : Http} {capacity : ℕ} {socketIp : Option String} {how : Append}
  {lines : List (List UInt8)} {hop : String}

theorem rtakeWhile_append_cons {α : Type} {p : α → Bool} {xs ys : List α} {x : α} (hx : ¬ p x)
    (hys : ∀ y ∈ ys, p y) : (xs ++ x :: ys).rtakeWhile p = ys := by
  rw [List.rtakeWhile, List.reverse_append, List.reverse_cons, List.append_assoc,
    List.takeWhile_append_of_pos (by simpa using hys)]
  simp [hx]

theorem trim_blanks (blanks : ℕ) (text : List Char) :
    GrandTotal.trim (List.replicate blanks ' ' ++ text) = GrandTotal.trim text := by
  induction blanks with
  | zero => rfl
  | succ blanks ih =>
    rw [← ih]
    rfl

theorem IsHop.visible (h : IsHop hop) :
    ∀ c ∈ hop.toList, c.toNat = 9 ∨ (32 ≤ c.toNat ∧ c.toNat < 127) := by
  intro c hc
  simpa using List.all_eq_true.mp h.printable c hc

theorem IsHop.notComma (h : IsHop hop) : ∀ c ∈ hop.toList, (c != ',') = true := by
  intro c hc
  rw [bne_iff_ne]
  rintro rfl
  exact h.noComma hc

theorem rightmostHop_alone (h : IsHop hop) : rightmostHop hop = hop := by
  rw [rightmostHop, List.rtakeWhile_eq_self_iff.mpr h.notComma, h.trimmed, String.ofList_toList]

theorem rightmostHop_joined (h : IsHop hop) (text : List Char) (blanks : ℕ) :
    rightmostHop (String.ofList (text ++ ',' :: (List.replicate blanks ' ' ++ hop.toList))) =
      hop := by
  have hlast : ∀ c ∈ List.replicate blanks ' ' ++ hop.toList, (c != ',') = true := by
    intro c hc
    rcases List.mem_append.mp hc with hc | hc
    · rw [List.eq_of_mem_replicate hc]
      decide
    · exact h.notComma c hc
  rw [rightmostHop, String.toList_ofList, rtakeWhile_append_cons (by decide) hlast, trim_blanks,
    h.trimmed, String.ofList_toList]

theorem char_of_byte {c : Char} (hc : c.toNat < 127) :
    Char.ofNat (UInt8.ofNat c.toNat).toNat = c := by
  rw [UInt8.toNat_ofNat', Nat.mod_eq_of_lt (by omega), Char.ofNat_toNat]

theorem chars_bytes {text : List Char} (h : ∀ c ∈ text, c.toNat < 127) :
    chars (bytes (String.ofList text)) = text := by
  rw [chars, bytes, String.toList_ofList]
  induction text with
  | nil => rfl
  | cons c text ih =>
    rw [List.map_cons, List.map_cons, char_of_byte (h c List.mem_cons_self),
      ih fun d hd => h d (List.mem_cons_of_mem _ hd)]

theorem visible_bytes {text : List Char}
    (h : ∀ c ∈ text, c.toNat = 9 ∨ (32 ≤ c.toNat ∧ c.toNat < 127)) :
    (bytes (String.ofList text)).all visible := by
  rw [bytes, String.toList_ofList, List.all_map, List.all_eq_true]
  intro c hc
  have hb : (UInt8.ofNat c.toNat).toNat = c.toNat := by
    have := h c hc
    rw [UInt8.toNat_ofNat']
    omega
  have := h c hc
  simp only [Function.comp_apply, visible, Bool.or_eq_true, beq_iff_eq, Bool.and_eq_true,
    decide_eq_true_eq, ← UInt8.toNat_inj, UInt8.le_iff_toNat_le, UInt8.lt_iff_toNat_lt, hb]
  exact this

/-- What stands between two hops of one line. -/
theorem visible_separator (blanks : ℕ) : ∀ c ∈ ',' :: List.replicate blanks ' ',
    c.toNat = 9 ∨ (32 ≤ c.toNat ∧ c.toNat < 127) := by
  intro c hc
  rcases List.mem_cons.mp hc with rfl | hc
  · decide
  · rw [List.eq_of_mem_replicate hc]
    decide

theorem IsHop.visible_bytes (h : IsHop hop) : (bytes hop).all ForwardedHops.visible := by
  have hbytes := ForwardedHops.visible_bytes h.visible
  rwa [String.ofList_toList] at hbytes

theorem IsHop.chars_bytes (h : IsHop hop) : chars (bytes hop) = hop.toList := by
  have hchars := ForwardedHops.chars_bytes fun c hc => by have := h.visible c hc; omega
  rwa [String.ofList_toList] at hchars

theorem headerByte_of_visible {b : UInt8} (h : visible b = true) : headerByte b = true := by
  simp only [visible, headerByte, Bool.or_eq_true, beq_iff_eq, Bool.and_eq_true,
    decide_eq_true_eq, bne_iff_ne, ne_eq] at h ⊢
  rcases h with h | h
  · exact .inl h
  · exact .inr ⟨h.1, fun hb => absurd h.2 (by rw [hb]; decide)⟩

/-- What the address is computed from: the first line. -/
theorem callerIp_congr (hX : Documented X capacity) {headers headers' : X.HeaderMap}
    (h : (X.getAll headers "x-forwarded-for").head? =
      (X.getAll headers' "x-forwarded-for").head?) :
    callerIp X headers socketIp true = callerIp X headers' socketIp true := by
  simp only [callerIp, hX.get_eq, h]

theorem callerIp_first (hX : Documented X capacity) {headers : X.HeaderMap} {line : List UInt8}
    (hline : (X.getAll headers "x-forwarded-for").head? = some line) (hseen : line.all visible)
    (hhop : rightmostHop (String.ofList (chars line)) = hop) (hne : hop ≠ "") :
    callerIp X headers socketIp true = hop := by
  simp only [callerIp, hX.get_eq, hline, if_true, Option.bind_some, hX.toStr_eq, hseen, hhop,
    if_neg hne]

theorem callerIp_unread (hX : Documented X capacity) {headers : X.HeaderMap} {line : List UInt8}
    (hline : (X.getAll headers "x-forwarded-for").head? = some line)
    (hunseen : ¬ line.all visible) :
    callerIp X headers socketIp true = socketIp.getD "unknown" := by
  simp only [callerIp, hX.get_eq, hline, if_true, Option.bind_some, hX.toStr_eq, if_neg hunseen]

theorem bytes_append (text : List Char) (hop : String) :
    bytes (String.ofList (text ++ hop.toList)) = bytes (String.ofList text) ++ bytes hop := by
  simp only [bytes, String.toList_ofList, List.map_append]

theorem callerIp_alone (hX : Documented X capacity) (h : IsHop hop) {headers : X.HeaderMap}
    (hlines : X.getAll headers "x-forwarded-for" = [bytes hop]) :
    callerIp X headers socketIp true = hop := by
  refine callerIp_first hX (by rw [hlines]; rfl) h.visible_bytes ?_ h.nonempty
  rw [h.chars_bytes, String.ofList_toList]
  exact rightmostHop_alone h

theorem callerIp_joined (hX : Documented X capacity) (h : IsHop hop) {headers : X.HeaderMap}
    {line : List UInt8} (hline : line.all visible) {blanks : ℕ}
    (hlines : X.getAll headers "x-forwarded-for" = forwarded (.joined blanks) [line] hop) :
    callerIp X headers socketIp true = hop := by
  have hadded : ∀ c ∈ (',' :: List.replicate blanks ' ') ++ hop.toList,
      c.toNat = 9 ∨ (32 ≤ c.toNat ∧ c.toNat < 127) := by
    intro c hc
    rcases List.mem_append.mp hc with hc | hc
    · exact visible_separator blanks c hc
    · exact h.visible c hc
  have hfirst : (X.getAll headers "x-forwarded-for").head? = some
      (line ++ bytes (String.ofList ((',' :: List.replicate blanks ' ') ++ hop.toList))) := by
    rw [hlines, bytes_append, ← List.append_assoc]
    rfl
  refine callerIp_first hX hfirst ?_ ?_ h.nonempty
  · rw [List.all_append, hline, visible_bytes hadded]
    rfl
  · rw [chars, List.map_append, ← chars, ← chars,
      chars_bytes fun c hc => by have := hadded c hc; omega]
    exact rightmostHop_joined h (chars line) blanks

/-- Sound lines leave the address to the proxy. -/
theorem returnsHop_of_sound (hX : Documented X capacity) (h : Sound how lines) :
    ReturnsHop X socketIp how lines := by
  intro hop hhop headers hlines
  match how, lines, h with
  | .joined _, [], _ => exact callerIp_alone hX hhop hlines
  | .furtherLine, [], _ => exact callerIp_alone hX hhop hlines
  | .joined _, [_], h => exact callerIp_joined hX hhop h hlines
  | .joined _, _ :: _ :: _, h => exact False.elim h
  | .furtherLine, _ :: _, h => cases h

theorem head?_forwarded {first : List UInt8} {rest : List (List UInt8)} :
    (forwarded .furtherLine (first :: rest) hop).head? = some first := rfl

theorem head?_forwarded_joined {blanks : ℕ} {first second : List UInt8}
    {rest : List (List UInt8)} :
    (forwarded (.joined blanks) (first :: second :: rest) hop).head? = some first := by
  rw [forwarded, List.getLast?_cons_cons]
  cases hlast : (second :: rest).getLast? with
  | none => simp at hlast
  | some last => rfl

/-- Other lines take the address out of the proxy's hands. -/
theorem ignoresHop_of_not_sound (socketIp : Option String) (hX : Documented X capacity)
    (h : ¬ Sound how lines) {hop' : String} {headers headers' : X.HeaderMap}
    (hlines : X.getAll headers "x-forwarded-for" = forwarded how lines hop)
    (hlines' : X.getAll headers' "x-forwarded-for" = forwarded how lines hop') :
    callerIp X headers socketIp true = callerIp X headers' socketIp true := by
  match how, lines with
  | .joined _, [] => exact absurd trivial h
  | .furtherLine, [] => exact absurd rfl h
  | .furtherLine, first :: rest =>
    exact callerIp_congr hX (by rw [hlines, hlines', head?_forwarded, head?_forwarded])
  | .joined _, first :: second :: rest =>
    exact callerIp_congr hX
      (by rw [hlines, hlines', head?_forwarded_joined, head?_forwarded_joined])
  | .joined blanks, [line] =>
    have hunseen : ∀ hop, ¬ (line ++ bytes (String.ofList (',' :: List.replicate blanks ' ')) ++
        bytes hop).all visible := by
      intro hop hall
      rw [List.append_assoc, List.all_append, Bool.and_eq_true] at hall
      exact h hall.1
    rw [callerIp_unread hX (by rw [hlines]; rfl) (hunseen hop),
      callerIp_unread hX (by rw [hlines']; rfl) (hunseen hop')]

theorem isHop_one : IsHop "1" := ⟨by decide, by decide, by decide, by decide⟩

theorem isHop_two : IsHop "2" := ⟨by decide, by decide, by decide, by decide⟩

theorem all_headerByte {line : List UInt8} (h : line.all visible) : line.all headerByte := by
  rw [List.all_eq_true] at h ⊢
  intro b hb
  exact headerByte_of_visible (h b hb)

theorem length_forwarded_le : (forwarded how lines hop).length ≤ lines.length + 1 := by
  cases how with
  | furtherLine => rw [forwarded, List.length_append, List.length_singleton]
  | joined blanks =>
    rw [forwarded]
    cases lines.getLast? with
    | none => exact Nat.le_add_left 1 _
    | some last =>
      rw [List.length_append, List.length_dropLast, List.length_singleton]
      omega

/-- The combined lines are a header some request carries. -/
theorem built_forwarded (how : Append) (hX : Documented X capacity)
    {lines : List (List UInt8)} (hclient : ∀ line ∈ lines, line.all headerByte)
    (hcapacity : lines.length < capacity) (h : IsHop hop) :
    ∃ headers, X.getAll headers "x-forwarded-for" = forwarded how lines hop := by
  have hbytes := all_headerByte h.visible_bytes
  apply hX.built _ (length_forwarded_le.trans hcapacity)
  intro line hline
  cases how with
  | furtherLine =>
    rcases List.mem_append.mp hline with hline | hline
    · exact hclient line hline
    · rw [List.mem_singleton.mp hline]
      exact hbytes
  | joined blanks =>
    rw [forwarded] at hline
    cases hlast : lines.getLast? with
    | none =>
      rw [hlast] at hline
      rw [List.mem_singleton.mp hline]
      exact hbytes
    | some last =>
      rw [hlast] at hline
      rcases List.mem_append.mp hline with hline | hline
      · exact hclient line (List.mem_of_mem_dropLast hline)
      · rw [List.mem_singleton.mp hline, List.all_append, List.all_append, hbytes,
          hclient last (List.mem_of_getLast? hlast),
          all_headerByte (visible_bytes (visible_separator blanks))]
        rfl

theorem sound_of_returnsHop (hX : Documented X capacity)
    (hclient : ∀ line ∈ lines, line.all headerByte) (hcapacity : lines.length < capacity)
    (h : ReturnsHop X socketIp how lines) : Sound how lines := by
  by_contra hunsound
  obtain ⟨headers, hlines⟩ := built_forwarded how hX hclient hcapacity isHop_one
  obtain ⟨headers', hlines'⟩ := built_forwarded how hX hclient hcapacity isHop_two
  have hsame := ignoresHop_of_not_sound socketIp hX hunsound hlines hlines'
  rw [h "1" isHop_one headers hlines, h "2" isHop_two headers' hlines'] at hsame
  exact absurd hsame (by decide)

theorem indifferent_iff_returnsHop (hX : Documented X capacity) (hcapacity : 0 < capacity) :
    Indifferent X socketIp how lines ↔ ReturnsHop X socketIp how lines := by
  have hnone : Sound how [] := by
    cases how with
    | joined blanks => trivial
    | furtherLine => rfl
  constructor
  · intro h hop hhop headers hlines
    obtain ⟨headers', hlines'⟩ :=
      built_forwarded how hX (List.forall_mem_nil _) hcapacity hhop
    rw [h hop hhop [] hnone headers headers' hlines hlines']
    exact returnsHop_of_sound hX hnone hop hhop headers' hlines'
  · intro h hop hhop lines' hsound headers headers' hlines hlines'
    rw [h hop hhop headers hlines,
      returnsHop_of_sound hX hsound hop hhop headers' hlines']

end hop

/-- Behind a trusted proxy the address is the hop the proxy appended, and the client has no say in
it, for exactly the client's lines that leave the hop on the first line and that line readable;
without one no header counts. -/
theorem callerIp_returnsHop_iff (X : Http) (capacity : ℕ) (hX : Documented X capacity)
    (socketIp : Option String) (how : Append) (lines : List (List UInt8))
    (hclient : ∀ line ∈ lines, line.all headerByte) (hcapacity : lines.length < capacity) :
    (ReturnsHop X socketIp how lines ↔ Sound how lines) ∧
    (Indifferent X socketIp how lines ↔ Sound how lines) ∧
    ∀ headers headers', callerIp X headers socketIp false = callerIp X headers' socketIp false := by
  have hreturns : ReturnsHop X socketIp how lines ↔ Sound how lines :=
    ⟨sound_of_returnsHop hX hclient hcapacity, returnsHop_of_sound hX⟩
  exact ⟨hreturns, (indifferent_iff_returnsHop hX (by omega)).trans hreturns, fun _ _ => rfl⟩

section samples
open RouteRates

theorem documented_lineHeaders : Documented lineHeaders 100 where
  get_eq _ _ := rfl
  toStr_eq _ := rfl
  built lines _ _ := ⟨lines, rfl⟩

theorem callerIp_returnsHop_appended :
    ReturnsHop lineHeaders (some "4.4.4.4") (.joined 1) [bytes "1.1.1.1, 2.2.2.2"] :=
  (callerIp_returnsHop_iff lineHeaders 100 documented_lineHeaders (some "4.4.4.4") (.joined 1)
    [bytes "1.1.1.1, 2.2.2.2"] (by decide) (by decide)).1.mpr
    (show (bytes "1.1.1.1, 2.2.2.2").all visible = true by decide)

/-- The proxy's record comes as a further line, and the client's line is read. -/
theorem callerIp_chosen :
    callerIp lineHeaders [bytes "6.6.6.6", bytes "9.9.9.9"] (some "4.4.4.4") true = "6.6.6.6" ∧
    ¬ ReturnsHop lineHeaders (some "4.4.4.4") .furtherLine [bytes "6.6.6.6"] := by
  have hchosen : callerIp lineHeaders [bytes "6.6.6.6", bytes "9.9.9.9"] (some "4.4.4.4") true =
      "6.6.6.6" := by decide
  refine ⟨hchosen, fun h => ?_⟩
  have hhop := h "9.9.9.9" ⟨by decide, by decide, by decide, by decide⟩
    [bytes "6.6.6.6", bytes "9.9.9.9"] rfl
  rw [hchosen] at hhop
  exact absurd hhop (by decide)

end samples

end BackboneEvents.ForwardedHops
