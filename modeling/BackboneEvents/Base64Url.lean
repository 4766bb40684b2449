import Mathlib.Data.List.DropRight
import Mathlib.Data.Nat.Bitwise

/-! # Unpadded base64 over the URL-safe alphabet -/
namespace Base64Url

/-- `str::as_bytes`. -/
def asBytes (s : String) : List UInt8 := s.toList.flatMap String.utf8EncodeChar

def alpha : List Char :=
  ['A', 'B', 'C', 'D', 'E', 'F', 'G', 'H', 'I', 'J', 'K', 'L', 'M', 'N', 'O', 'P', 'Q', 'R', 'S',
    'T', 'U', 'V', 'W', 'X', 'Y', 'Z', 'a', 'b', 'c', 'd', 'e', 'f', 'g', 'h', 'i', 'j', 'k', 'l',
    'm', 'n', 'o', 'p', 'q', 'r', 's', 't', 'u', 'v', 'w', 'x', 'y', 'z', '0', '1', '2', '3', '4',
    '5', '6', '7', '8', '9', '-', '_']

/-- `ALPHA[n as usize & 63] as char`. -/
def letter (n : ℕ) : Char := alpha.getD (n &&& 63) '='

def word (a b c : UInt8) : ℕ := a.toNat <<< 16 ||| b.toNat <<< 8 ||| c.toNat

/-- The loop over `chunks(3)`, a short last chunk padded. -/
def padded : List UInt8 → List Char
  | [] => []
  | [a] => [letter (word a 0 0 >>> 18), letter (word a 0 0 >>> 12), '=', '=']
  | [a, b] =>
    [letter (word a b 0 >>> 18), letter (word a b 0 >>> 12), letter (word a b 0 >>> 6), '=']
  | a :: b :: c :: rest =>
    letter (word a b c >>> 18) :: letter (word a b c >>> 12) :: letter (word a b c >>> 6) ::
      letter (word a b c) :: padded rest

def b64urlEncode (bytes : List UInt8) : String :=
  String.ofList ((padded bytes).rdropWhile (· == '='))

def position (ch : UInt8) : Option ℕ := (alpha.map fun a => UInt8.ofNat a.toNat).idxOf? ch

/-- The loop of the decoder; `bits` is a `u32` whose high bits fall off the shift. -/
def decodeFrom (bits nbits : ℕ) : List UInt8 → Option (List UInt8)
  | [] => some []
  | ch :: rest =>
    match position ch with
    | none => none
    | some v =>
      let bits := bits <<< 6 % 2 ^ 32 ||| v
      if 8 ≤ nbits + 6 then
        (decodeFrom bits (nbits + 6 - 8) rest).map
          (UInt8.ofNat (bits >>> (nbits + 6 - 8) &&& 255) :: ·)
      else
        decodeFrom bits (nbits + 6) rest

def b64urlDecode (text : String) : Option (List UInt8) := decodeFrom 0 0 (asBytes text)

section Bytes

@[simp] theorem asBytes_append (s t : String) : asBytes (s ++ t) = asBytes s ++ asBytes t := by
  simp [asBytes]

theorem asBytes_eq_toByteArray (s : String) : asBytes s = s.toByteArray.data.toList := by
  rw [← String.utf8Encode_toList, List.utf8Encode, asBytes]
  simp

theorem asBytes_injective : Function.Injective asBytes := by
  intro s t h
  rw [asBytes_eq_toByteArray, asBytes_eq_toByteArray] at h
  apply String.toByteArray_inj.mp
  apply ByteArray.ext
  exact Array.toList_inj.mp h

theorem asBytes_ofList (l : List Char) :
    asBytes (String.ofList l) = l.flatMap String.utf8EncodeChar := by
  simp [asBytes]

end Bytes

section Words

theorem word_eq (a b c : UInt8) : word a b c = a.toNat * 65536 + b.toNat * 256 + c.toNat := by
  have ha := a.toNat_lt
  have hb := b.toNat_lt
  have hc := c.toNat_lt
  have hab : a.toNat <<< 16 ||| b.toNat <<< 8 = (a.toNat <<< 8 + b.toNat) <<< 8 := by
    rw [show a.toNat <<< 16 = a.toNat <<< 8 <<< 8 by rw [← Nat.shiftLeft_add],
      ← Nat.shiftLeft_or_distrib, Nat.shiftLeft_add_eq_or_of_lt hb]
  rw [word, hab, ← Nat.shiftLeft_add_eq_or_of_lt hc]
  simp only [Nat.shiftLeft_eq]
  omega

theorem letter_eq (n : ℕ) : letter n = alpha.getD (n % 64) '=' := by
  rw [letter, show (63 : ℕ) = 2 ^ 6 - 1 by rfl, Nat.and_two_pow_sub_one_eq_mod]

theorem push_eq {bits v : ℕ} (hv : v < 64) :
    bits <<< 6 % 2 ^ 32 ||| v = bits * 64 % 4294967296 + v := by
  have h : bits <<< 6 % 2 ^ 32 = (bits % 2 ^ 26) <<< 6 := by
    simp only [Nat.shiftLeft_eq]
    omega
  rw [h, ← Nat.shiftLeft_add_eq_or_of_lt hv, ← h]
  simp only [Nat.shiftLeft_eq]
  omega

theorem low_byte (bits k : ℕ) : bits >>> k &&& 255 = bits / 2 ^ k % 256 := by
  rw [show (255 : ℕ) = 2 ^ 8 - 1 by rfl, Nat.and_two_pow_sub_one_eq_mod,
    Nat.shiftRight_eq_div_pow]

end Words

section Letters

/-- What an alphabet letter is to the decoder and to a token. -/
structure Letter (c : Char) (v : ℕ) : Prop where
  bytes : String.utf8EncodeChar c = [UInt8.ofNat c.toNat]
  position : position (UInt8.ofNat c.toNat) = some v
  notPad : c ≠ '='
  notDot : c ≠ '.'

theorem letter_spec (n : ℕ) : Letter (letter n) (n % 64) := by
  rw [letter_eq]
  have h : ∀ v < 64, String.utf8EncodeChar (alpha.getD v '=') =
      [UInt8.ofNat (alpha.getD v '=').toNat] ∧
      position (UInt8.ofNat (alpha.getD v '=').toNat) = some v ∧
      alpha.getD v '=' ≠ '=' ∧ alpha.getD v '=' ≠ '.' := by
    decide
  obtain ⟨hbytes, hposition, hpad, hdot⟩ := h (n % 64) (Nat.mod_lt _ (by decide))
  exact ⟨hbytes, hposition, hpad, hdot⟩

end Letters

section Decoding

variable {c : Char} {v : ℕ} (rest : List UInt8)

theorem decodeFrom_short (bits : ℕ) (hv : v < 64) (hc : Letter c v) :
    decodeFrom bits 0 (String.utf8EncodeChar c ++ rest) =
      decodeFrom (bits * 64 % 4294967296 + v) 6 rest := by
  rw [hc.bytes, List.singleton_append, decodeFrom, hc.position]
  simp only [Nat.zero_add, Nat.reduceLeDiff, if_false]
  rw [push_eq hv]

theorem decodeFrom_long {bits nbits : ℕ} (hn : 2 ≤ nbits) (hv : v < 64) (hc : Letter c v) :
    decodeFrom bits nbits (String.utf8EncodeChar c ++ rest) =
      (decodeFrom (bits * 64 % 4294967296 + v) (nbits - 2) rest).map
        (UInt8.ofNat ((bits * 64 % 4294967296 + v) / 2 ^ (nbits - 2)) :: ·) := by
  have hout : ∀ n k : ℕ, UInt8.ofNat (n >>> k &&& 255) = UInt8.ofNat (n / 2 ^ k) := by
    intro n k
    apply UInt8.toNat_inj.mp
    rw [low_byte, UInt8.toNat_ofNat', UInt8.toNat_ofNat']
    omega
  rw [hc.bytes, List.singleton_append, decodeFrom, hc.position]
  simp only [show 8 ≤ nbits + 6 by omega, if_true, show nbits + 6 - 8 = nbits - 2 by omega]
  rw [push_eq hv, hout]

end Decoding

section RoundTrip

/-- The letters of the unpadded form. -/
def unpadded : List UInt8 → List Char
  | [] => []
  | [a] => [letter (word a 0 0 >>> 18), letter (word a 0 0 >>> 12)]
  | [a, b] => [letter (word a b 0 >>> 18), letter (word a b 0 >>> 12), letter (word a b 0 >>> 6)]
  | a :: b :: c :: rest =>
    letter (word a b c >>> 18) :: letter (word a b c >>> 12) :: letter (word a b c >>> 6) ::
      letter (word a b c) :: unpadded rest

theorem exists_letter_of_mem_unpadded (bytes : List UInt8) :
    ∀ c ∈ unpadded bytes, ∃ n, c = letter n := by
  induction bytes using unpadded.induct with
  | case1 => simp [unpadded]
  | case2 a => simp [unpadded]
  | case3 a b => simp [unpadded]
  | case4 a b c rest ih =>
    intro d hd
    simp only [unpadded, List.mem_cons] at hd
    rcases hd with rfl | rfl | rfl | rfl | hd
    · exact ⟨_, rfl⟩
    · exact ⟨_, rfl⟩
    · exact ⟨_, rfl⟩
    · exact ⟨_, rfl⟩
    · exact ih d hd

theorem padded_eq (bytes : List UInt8) :
    ∃ k, padded bytes = unpadded bytes ++ List.replicate k '=' := by
  induction bytes using unpadded.induct with
  | case1 => exact ⟨0, rfl⟩
  | case2 a => exact ⟨2, rfl⟩
  | case3 a b => exact ⟨1, rfl⟩
  | case4 a b c rest ih =>
    obtain ⟨k, hk⟩ := ih
    refine ⟨k, ?_⟩
    rw [padded, hk]
    rfl

theorem b64urlEncode_eq (bytes : List UInt8) :
    b64urlEncode bytes = String.ofList (unpadded bytes) := by
  obtain ⟨k, hk⟩ := padded_eq bytes
  have hpad : ∀ c ∈ (unpadded bytes).reverse, ¬(c == '=') = true := by
    intro c hc
    obtain ⟨n, rfl⟩ := exists_letter_of_mem_unpadded bytes c (List.mem_reverse.mp hc)
    simpa using (letter_spec n).notPad
  rw [b64urlEncode, hk, List.rdropWhile, List.reverse_append, List.reverse_replicate,
    List.dropWhile_append_of_pos (by simp)]
  congr 1
  cases hu : (unpadded bytes).reverse with
  | nil => simpa using hu.symm
  | cons c rest =>
    rw [hu] at hpad
    rw [List.dropWhile_cons_of_neg (p := (· == '=')) (hpad c List.mem_cons_self), ← hu,
      List.reverse_reverse]

theorem notDot_of_mem_b64urlEncode {bytes : List UInt8} {c : Char}
    (h : c ∈ (b64urlEncode bytes).toList) : c ≠ '.' := by
  rw [b64urlEncode_eq, String.toList_ofList] at h
  obtain ⟨n, rfl⟩ := exists_letter_of_mem_unpadded bytes c h
  exact (letter_spec n).notDot

theorem b64urlEncode_ne_empty {bytes : List UInt8} (h : bytes ≠ []) : b64urlEncode bytes ≠ "" := by
  rw [b64urlEncode_eq]
  intro hempty
  have hu : unpadded bytes = [] := by simpa using congrArg String.toList hempty
  cases bytes using unpadded.induct with
  | case1 => exact h rfl
  | case2 a => cases hu
  | case3 a b => cases hu
  | case4 a b c rest => cases hu

theorem decodeFrom_unpadded (bits : ℕ) (bytes : List UInt8) :
    decodeFrom bits 0 ((unpadded bytes).flatMap String.utf8EncodeChar) = some bytes := by
  have hmod : ∀ n : ℕ, n % 64 < 64 := fun n => Nat.mod_lt _ (by decide)
  have hbyte : ∀ (n : ℕ) (b : UInt8), n % 256 = b.toNat → UInt8.ofNat n = b := by
    intro n b h
    apply UInt8.toNat_inj.mp
    rwa [UInt8.toNat_ofNat']
  induction bytes using unpadded.induct generalizing bits with
  | case1 => rfl
  | case2 a =>
    have ha := a.toNat_lt
    simp only [unpadded, List.flatMap_cons, List.flatMap_nil]
    rw [decodeFrom_short _ _ (hmod _) (letter_spec _),
      decodeFrom_long _ (by decide) (hmod _) (letter_spec _)]
    simp only [decodeFrom, Option.map_some, Nat.shiftRight_eq_div_pow, word_eq, UInt8.toNat_zero]
    congr 2
    apply hbyte
    omega
  | case3 a b =>
    have ha := a.toNat_lt
    have hb := b.toNat_lt
    simp only [unpadded, List.flatMap_cons, List.flatMap_nil]
    rw [decodeFrom_short _ _ (hmod _) (letter_spec _),
      decodeFrom_long _ (by decide) (hmod _) (letter_spec _),
      decodeFrom_long _ (by decide) (hmod _) (letter_spec _)]
    simp only [decodeFrom, Option.map_some, Nat.shiftRight_eq_div_pow, word_eq, UInt8.toNat_zero]
    congr 2
    · apply hbyte
      omega
    · congr 1
      apply hbyte
      omega
  | case4 a b c rest ih =>
    have ha := a.toNat_lt
    have hb := b.toNat_lt
    have hc := c.toNat_lt
    simp only [unpadded, List.flatMap_cons]
    rw [decodeFrom_short _ _ (hmod _) (letter_spec _),
      decodeFrom_long _ (by decide) (hmod _) (letter_spec _),
      decodeFrom_long _ (by decide) (hmod _) (letter_spec _),
      decodeFrom_long _ (by decide) (hmod _) (letter_spec _), ih]
    simp only [Option.map_some, Nat.shiftRight_eq_div_pow, word_eq]
    congr 2
    · apply hbyte
      omega
    · congr 1
      · apply hbyte
        omega
      · congr 1
        apply hbyte
        omega

/-- What was encoded is decoded. -/
theorem b64urlDecode_encode (bytes : List UInt8) :
    b64urlDecode (b64urlEncode bytes) = some bytes := by
  rw [b64urlDecode, b64urlEncode_eq, asBytes_ofList]
  exact decodeFrom_unpadded 0 bytes

/-- A text that decodes is made of alphabet bytes, so it has no line break. -/
theorem notMem_of_decodeFrom {bits nbits : ℕ} {text out : List UInt8}
    (h : decodeFrom bits nbits text = some out) : 10 ∉ text := by
  induction text generalizing bits nbits out with
  | nil => simp
  | cons ch rest ih =>
    rw [decodeFrom] at h
    cases hp : position ch with
    | none => simp [hp] at h
    | some v =>
      have hch : (10 : UInt8) ≠ ch := by
        rintro rfl
        have hnone : position 10 = none := by decide
        rw [hnone] at hp
        cases hp
      have hrest : (10 : UInt8) ∉ rest := by
        simp only [hp] at h
        split at h
        · obtain ⟨tail, htail, -⟩ := Option.map_eq_some_iff.mp h
          exact ih htail
        · exact ih h
      exact List.not_mem_cons_of_ne_of_not_mem hch hrest

end RoundTrip

end Base64Url
