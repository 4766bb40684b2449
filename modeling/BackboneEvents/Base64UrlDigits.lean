import BackboneEvents.Base64Url
import Mathlib.Data.Nat.Digits.Defs
import Mathlib.Tactic.IntervalCases
import Mathlib.Tactic.Ring

/-!
# The digits of a base64 text

A text that decodes is a number in base 64, and its bytes are that number in base 256 without the
bits that fill no byte. So a text is what its bytes and those bits say.
-/
namespace Base64Url

/-- The bits that fill no byte, of the text's last symbol. -/
def unused (text : String) : ℕ :=
  ((asBytes text).getLast?.bind position).getD 0 % 2 ^ (6 * (asBytes text).length % 8)

/-- The text of some digits. -/
def letters (vs : List ℕ) : String := String.ofList (vs.map letter)

/-- A list of digits, the first the highest. -/
def number (base : ℕ) (digits : List ℕ) : ℕ := Nat.ofDigits base digits.reverse

/-- The digits of a text in the alphabet. -/
structure Digits (text : List UInt8) (vs : List ℕ) : Prop where
  lt : ∀ v ∈ vs, v < 64
  positions : text.map position = vs.map some

section Number

theorem number_cons (base d : ℕ) (digits : List ℕ) :
    number base (d :: digits) = d * base ^ digits.length + number base digits := by
  rw [number, Nat.ofDigits_reverse_cons, number]
  ring

theorem number_concat (base d : ℕ) (digits : List ℕ) :
    number base (digits ++ [d]) = base * number base digits + d := by
  rw [number, List.reverse_append, List.reverse_singleton, List.singleton_append, Nat.ofDigits_cons,
    number]
  ring

theorem number_inj {base : ℕ} (hb : 1 < base) {ds es : List ℕ} (hlength : ds.length = es.length)
    (hds : ∀ d ∈ ds, d < base) (hes : ∀ e ∈ es, e < base)
    (h : number base ds = number base es) : ds = es := by
  rw [← List.reverse_inj]
  exact Nat.ofDigits_inj_of_len_eq hb (by simpa using hlength)
    (fun d hd => hds d (List.mem_reverse.mp hd)) (fun e he => hes e (List.mem_reverse.mp he)) h

end Number

section Digits

variable {ch : UInt8} {v : ℕ} {text : List UInt8} {vs ws : List ℕ}

theorem position_eq_some (h : position ch = some v) :
    v < 64 ∧ ch = UInt8.ofNat (letter v).toNat := by
  rw [position, List.idxOf?, List.findIdx?_eq_some_iff_getElem] at h
  obtain ⟨hlength, hch, -⟩ := h
  have hv : v < 64 := by simpa [alpha] using hlength
  refine ⟨hv, ?_⟩
  rw [letter_eq, Nat.mod_eq_of_lt hv, List.getD_eq_getElem _ _ (by simpa using hlength)]
  simpa using (beq_iff_eq.mp hch).symm

theorem Digits.nil : Digits [] [] := ⟨by simp, rfl⟩

theorem Digits.cons (h : position ch = some v) (hvs : Digits text vs) :
    Digits (ch :: text) (v :: vs) where
  lt w hw := by
    rcases List.mem_cons.mp hw with rfl | hw
    · exact (position_eq_some h).1
    · exact hvs.lt w hw
  positions := by rw [List.map_cons, List.map_cons, h, hvs.positions]

theorem Digits.length (h : Digits text vs) : text.length = vs.length := by
  simpa using congrArg List.length h.positions

theorem Digits.eq_map (h : Digits text vs) :
    text = vs.map fun v => UInt8.ofNat (letter v).toNat := by
  obtain ⟨-, hpositions⟩ := h
  induction text generalizing vs with
  | nil =>
    cases vs with
    | nil => rfl
    | cons v vs => cases hpositions
  | cons ch text ih =>
    cases vs with
    | nil => cases hpositions
    | cons v vs =>
      obtain ⟨hch, htext⟩ := List.cons.inj hpositions
      rw [List.map_cons, ← ih htext, ← (position_eq_some hch).2]

theorem Digits.getLast? (h : Digits text vs) : text.getLast?.bind position = vs.getLast? := by
  have hlast := congrArg List.getLast? h.positions
  rw [List.getLast?_map, List.getLast?_map] at hlast
  cases htext : text.getLast? with
  | none =>
    rw [htext] at hlast
    cases hvs : vs.getLast? with
    | none => rfl
    | some v => rw [hvs] at hlast; cases hlast
  | some ch =>
    rw [htext] at hlast
    cases hvs : vs.getLast? with
    | none => rw [hvs] at hlast; cases hlast
    | some v =>
      rw [hvs] at hlast
      exact Option.some.inj hlast

theorem digits_letters (h : ∀ v ∈ vs, v < 64) : Digits (asBytes (letters vs)) vs := by
  rw [letters, asBytes_ofList]
  induction vs with
  | nil => exact .nil
  | cons v vs ih =>
    have hv : v < 64 := h v List.mem_cons_self
    rw [List.map_cons, List.flatMap_cons, (letter_spec v).bytes, List.singleton_append]
    refine Digits.cons ?_ (ih fun w hw => h w (List.mem_cons_of_mem _ hw))
    rw [(letter_spec v).position, Nat.mod_eq_of_lt hv]

end Digits

section Decoding

variable {text : List UInt8} {vs : List ℕ} {out : List UInt8} {bits nbits : ℕ}

theorem digits_of_decodeFrom (h : decodeFrom bits nbits text = some out) :
    ∃ vs, Digits text vs := by
  induction text generalizing bits nbits out with
  | nil => exact ⟨[], .nil⟩
  | cons ch text ih =>
    rw [decodeFrom] at h
    cases hch : position ch with
    | none => simp [hch] at h
    | some v =>
      have hrest : ∃ bits nbits out, decodeFrom bits nbits text = some out := by
        simp only [hch] at h
        split at h
        · obtain ⟨tail, htail, -⟩ := Option.map_eq_some_iff.mp h
          exact ⟨_, _, _, htail⟩
        · exact ⟨_, _, _, h⟩
      obtain ⟨_, _, _, hrest⟩ := hrest
      obtain ⟨vs, hvs⟩ := ih hrest
      exact ⟨v :: vs, hvs.cons hch⟩

/-- The bytes read so far, the pending bits and the symbols to come. -/
structure Reads (bits nbits : ℕ) (vs : List ℕ) (out : List UInt8) : Prop where
  length : out.length = (nbits + 6 * vs.length) / 8
  value : number 256 (out.map UInt8.toNat) =
    (bits % 2 ^ nbits * 64 ^ vs.length + number 64 vs) / 2 ^ ((nbits + 6 * vs.length) % 8)

theorem push_mod (bits : ℕ) {v : ℕ} (hn : nbits < 8) (hv : v < 64) :
    (bits * 64 % 4294967296 + v) % 2 ^ (nbits + 6) = bits % 2 ^ nbits * 64 + v := by
  interval_cases nbits <;> omega

theorem Reads.nil (hn : nbits < 8) : Reads bits nbits [] [] where
  length := by simp only [List.length_nil]; omega
  value := by
    have hlt : bits % 2 ^ nbits < 2 ^ nbits := Nat.mod_lt _ (by positivity)
    have hmod : (nbits + 6 * ([] : List ℕ).length) % 8 = nbits := Nat.mod_eq_of_lt hn
    rw [hmod, List.length_nil, pow_zero, mul_one]
    exact (Nat.div_eq_of_lt hlt).symm

theorem Reads.short {v : ℕ} (hn : nbits < 2) (hv : v < 64)
    (h : Reads (bits * 64 % 4294967296 + v) (nbits + 6) vs out) :
    Reads bits nbits (v :: vs) out where
  length := by rw [h.length, List.length_cons]; omega
  value := by
    rw [h.value, push_mod bits (by omega) hv, number_cons, List.length_cons,
      show nbits + 6 * (vs.length + 1) = nbits + 6 + 6 * vs.length by ring]
    congr 1
    ring

/-- The symbol fills a byte, whose place is that of the bytes to come. -/
theorem Reads.long {v : ℕ} (hn : 2 ≤ nbits) (hn' : nbits < 8) (hv : v < 64)
    (h : Reads (bits * 64 % 4294967296 + v) (nbits - 2) vs out) :
    Reads bits nbits (v :: vs)
      (UInt8.ofNat ((bits * 64 % 4294967296 + v) / 2 ^ (nbits - 2)) :: out) := by
  obtain ⟨k, rfl⟩ : ∃ k, nbits = k + 2 := ⟨nbits - 2, by omega⟩
  rw [Nat.add_sub_cancel] at h ⊢
  have hpush := push_mod bits hn' hv
  generalize bits * 64 % 4294967296 + v = pending at h hpush ⊢
  have hsplit : pending % 2 ^ (k + 2 + 6) =
      pending / 2 ^ k % 256 * 2 ^ k + pending % 2 ^ k := by
    rw [show k + 2 + 6 = k + 8 by ring, pow_add, Nat.mod_mul, show (2 : ℕ) ^ 8 = 256 by rfl]
    ring
  have hplace : 2 ^ k * 64 ^ vs.length =
      256 ^ ((k + 6 * vs.length) / 8) * 2 ^ ((k + 6 * vs.length) % 8) := by
    rw [show (64 : ℕ) = 2 ^ 6 by rfl, show (256 : ℕ) = 2 ^ 8 by rfl, ← pow_mul, ← pow_mul,
      ← pow_add, ← pow_add, Nat.div_add_mod]
  refine ⟨?_, ?_⟩
  · rw [List.length_cons, List.length_cons, h.length]
    omega
  · have hvalue : bits % 2 ^ (k + 2) * 64 ^ (vs.length + 1) + (v * 64 ^ vs.length + number 64 vs) =
        pending / 2 ^ k % 256 * 256 ^ ((k + 6 * vs.length) / 8) * 2 ^ ((k + 6 * vs.length) % 8) +
          (pending % 2 ^ k * 64 ^ vs.length + number 64 vs) := by
      calc bits % 2 ^ (k + 2) * 64 ^ (vs.length + 1) + (v * 64 ^ vs.length + number 64 vs)
          = pending % 2 ^ (k + 2 + 6) * 64 ^ vs.length + number 64 vs := by rw [hpush]; ring
        _ = pending / 2 ^ k % 256 * (2 ^ k * 64 ^ vs.length) +
              (pending % 2 ^ k * 64 ^ vs.length + number 64 vs) := by rw [hsplit]; ring
        _ = _ := by rw [hplace]; ring
    rw [List.map_cons, number_cons, List.length_map, h.length, h.value, number_cons,
      List.length_cons, hvalue, show (k + 2 + 6 * (vs.length + 1)) % 8 = (k + 6 * vs.length) % 8 by
        omega, UInt8.toNat_ofNat', Nat.add_comm (_ * _) (_ + number 64 vs),
      Nat.add_mul_div_right _ _ (by positivity), Nat.add_comm]

theorem exists_decodeFrom (h : Digits text vs) (hn : nbits < 8) :
    ∃ out, decodeFrom bits nbits text = some out ∧ Reads bits nbits vs out := by
  induction text generalizing bits nbits vs with
  | nil =>
    have hvs : vs = [] := List.eq_nil_of_length_eq_zero h.length.symm
    rw [hvs]
    exact ⟨[], rfl, .nil hn⟩
  | cons ch text ih =>
    cases vs with
    | nil => cases h.positions
    | cons v vs =>
      obtain ⟨hch, htext⟩ := List.cons.inj h.positions
      have hv : v < 64 := h.lt v List.mem_cons_self
      have hvs : Digits text vs := ⟨fun w hw => h.lt w (List.mem_cons_of_mem _ hw), htext⟩
      rw [decodeFrom]
      simp only [hch, push_eq hv]
      by_cases hfull : 8 ≤ nbits + 6
      · obtain ⟨out, hout, hreads⟩ :
            ∃ out, decodeFrom (bits * 64 % 4294967296 + v) (nbits + 6 - 8) text = some out ∧
              Reads (bits * 64 % 4294967296 + v) (nbits + 6 - 8) vs out := ih hvs (by omega)
        refine ⟨_, ?_, hreads.long (by omega) hn hv⟩
        have hbyte : UInt8.ofNat ((bits * 64 % 4294967296 + v) / 2 ^ (nbits + 6 - 8) % 256) =
            UInt8.ofNat ((bits * 64 % 4294967296 + v) / 2 ^ (nbits - 2)) := by
          apply UInt8.toNat_inj.mp
          rw [UInt8.toNat_ofNat', UInt8.toNat_ofNat', Nat.mod_mod]
          rfl
        rw [if_pos hfull, hout, Option.map_some, low_byte, hbyte]
      · obtain ⟨out, hout, hreads⟩ :
            ∃ out, decodeFrom (bits * 64 % 4294967296 + v) (nbits + 6) text = some out ∧
              Reads (bits * 64 % 4294967296 + v) (nbits + 6) vs out := ih hvs (by omega)
        exact ⟨out, by rw [if_neg hfull, hout], hreads.short (by omega) hv⟩

theorem exists_decode {text : String} (h : Digits (asBytes text) vs) :
    ∃ out, b64urlDecode text = some out ∧ Reads 0 0 vs out := exists_decodeFrom h (by decide)

/-- What a text decodes to, as a number. -/
theorem reads_of_decode {text : String} (h : b64urlDecode text = some out) :
    ∃ vs, Digits (asBytes text) vs ∧ Reads 0 0 vs out := by
  obtain ⟨vs, hvs⟩ := digits_of_decodeFrom h
  obtain ⟨out', hout', hreads⟩ := exists_decode hvs
  obtain rfl := Option.some.inj (h.symm.trans hout')
  exact ⟨vs, hvs, hreads⟩

theorem decode_of_reads {text : String} (hvs : Digits (asBytes text) vs) (h : Reads 0 0 vs out) :
    b64urlDecode text = some out := by
  obtain ⟨out', hout', hreads⟩ := exists_decode hvs
  rw [hout']
  congr 1
  have hbytes : out'.map UInt8.toNat = out.map UInt8.toNat := by
    apply number_inj (show 1 < 256 by decide)
    · rw [List.length_map, List.length_map, hreads.length, h.length]
    · intro d hd
      obtain ⟨b, -, rfl⟩ := List.mem_map.mp hd
      exact b.toNat_lt
    · intro d hd
      obtain ⟨b, -, rfl⟩ := List.mem_map.mp hd
      exact b.toNat_lt
    · rw [hreads.value, h.value]
  exact List.map_injective_iff.mpr (fun _ _ => UInt8.toNat_inj.mp) hbytes

theorem unused_eq {text : String} (hvs : Digits (asBytes text) vs) :
    unused text = number 64 vs % 2 ^ (6 * vs.length % 8) := by
  rw [unused, hvs.getLast?, hvs.length]
  induction vs using List.reverseRecOn with
  | nil => simp [number]
  | append_singleton vs v _ =>
    rw [List.getLast?_concat, Option.getD_some, number_concat]
    have hdvd : 2 ^ (6 * (vs ++ [v]).length % 8) ∣ 64 * number 64 vs := by
      apply Dvd.dvd.mul_right
      exact Nat.pow_dvd_pow 2 (by omega : 6 * (vs ++ [v]).length % 8 ≤ 6)
    rw [Nat.add_mod, Nat.mod_eq_zero_of_dvd hdvd, Nat.zero_add, Nat.mod_mod]

end Decoding

section Texts

variable {s t : String} {out : List UInt8}

theorem length_of_decode (h : b64urlDecode s = some out) :
    out.length = 6 * (asBytes s).length / 8 := by
  obtain ⟨vs, hvs, hreads⟩ := reads_of_decode h
  rw [hreads.length, hvs.length, Nat.zero_add]

/-- Texts of one length with the same bytes differ in the bits that fill no byte, if at all. -/
theorem eq_iff_unused_eq (hs : b64urlDecode s = some out) (ht : b64urlDecode t = some out)
    (hlength : (asBytes s).length = (asBytes t).length) : s = t ↔ unused s = unused t := by
  refine ⟨fun h => by rw [h], fun h => ?_⟩
  obtain ⟨vs, hvs, hreads⟩ := reads_of_decode hs
  obtain ⟨ws, hws, hreads'⟩ := reads_of_decode ht
  have hlength' : vs.length = ws.length := by rw [← hvs.length, ← hws.length, hlength]
  have hnumber : number 64 vs = number 64 ws := by
    rw [unused_eq hvs, unused_eq hws, ← hlength'] at h
    have hvalue := hreads.value.symm.trans hreads'.value
    rw [← hlength'] at hvalue
    simp only [Nat.zero_mul, Nat.zero_add, pow_zero, Nat.mod_one] at hvalue
    rw [← Nat.div_add_mod (number 64 vs) (2 ^ (6 * vs.length % 8)), hvalue, h, Nat.div_add_mod]
  apply asBytes_injective
  rw [hvs.eq_map, hws.eq_map, number_inj (by decide) hlength' hvs.lt hws.lt hnumber]

/-- The low part of the last digit is free. -/
theorem number_relow {vs : List ℕ} {v r d : ℕ} (hd : d ∣ 64) (hr : r < d) :
    number 64 (vs ++ [v / d * d + r]) / d = number 64 (vs ++ [v]) / d := by
  obtain ⟨q, hq⟩ := hd
  have hpos : 0 < d := by omega
  have hdigits : ∀ w, (64 * number 64 vs + w) / d = q * number 64 vs + w / d := by
    intro w
    rw [hq, Nat.mul_assoc, Nat.mul_add_div hpos]
  have hlow : (v / d * d + r) / d = v / d := by
    rw [Nat.mul_comm, Nat.mul_add_div hpos, Nat.div_eq_of_lt hr, Nat.add_zero]
  rw [number_concat, number_concat, hdigits, hdigits, hlow]

theorem relow_lt {v r d : ℕ} (hd : d ∣ 64) (hv : v < 64) (hr : r < d) : v / d * d + r < 64 := by
  obtain ⟨q, hq⟩ := hd
  have hlt : v / d < q := Nat.div_lt_of_lt_mul (hq ▸ hv)
  calc v / d * d + r < (v / d + 1) * d := by rw [Nat.add_mul]; omega
    _ ≤ q * d := Nat.mul_le_mul_right d hlt
    _ = 64 := by rw [hq, Nat.mul_comm]

/-- Each value of those bits makes a text with the same bytes. -/
theorem exists_text_of_unused (hs : b64urlDecode s = some out) (hne : asBytes s ≠ []) {r : ℕ}
    (hr : r < 2 ^ (6 * (asBytes s).length % 8)) :
    ∃ t, b64urlDecode t = some out ∧ (asBytes t).length = (asBytes s).length ∧ unused t = r := by
  obtain ⟨digits, hdigits, hreads⟩ := reads_of_decode hs
  rw [hdigits.length] at hr ⊢
  induction digits using List.reverseRecOn with
  | nil => exact absurd (List.eq_nil_of_length_eq_zero hdigits.length) hne
  | append_singleton vs v _ =>
    have hd : 2 ^ (6 * (vs ++ [v]).length % 8) ∣ 64 :=
      Nat.pow_dvd_pow 2 (by omega : 6 * (vs ++ [v]).length % 8 ≤ 6)
    have hv : v < 64 := hdigits.lt v (by simp)
    generalize hplace : 2 ^ (6 * (vs ++ [v]).length % 8) = d at hr hd
    have hws : Digits (asBytes (letters (vs ++ [v / d * d + r]))) (vs ++ [v / d * d + r]) := by
      refine digits_letters fun w hw => ?_
      rcases List.mem_append.mp hw with hw | hw
      · exact hdigits.lt w (List.mem_append_left _ hw)
      · rw [List.mem_singleton.mp hw]
        exact relow_lt hd hv hr
    have hlength : (vs ++ [v / d * d + r]).length = (vs ++ [v]).length := by simp
    refine ⟨letters (vs ++ [v / d * d + r]), decode_of_reads hws ⟨?_, ?_⟩, ?_, ?_⟩
    · rw [hreads.length, hlength]
    · have hvalue := hreads.value
      simp only [Nat.zero_mul, Nat.zero_add, pow_zero, Nat.mod_one, hlength, hplace] at hvalue ⊢
      rw [hvalue, number_relow hd hr]
    · rw [hws.length, hlength]
    · rw [unused_eq hws, hlength, hplace, number_concat]
      obtain ⟨q, hq⟩ := hd
      rw [hq, Nat.mul_assoc, Nat.mul_add_mod, Nat.mul_comm (v / d), Nat.mul_add_mod,
        Nat.mod_eq_of_lt hr]

end Texts

end Base64Url
