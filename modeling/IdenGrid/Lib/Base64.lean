import Mathlib.Data.List.Basic
import Mathlib.Tactic.Common

/-! # Base64 with the URL alphabet and with the standard one

Texts are lists of code points, byte strings lists of numbers below `256`. `encode` writes no
padding; `decode` first restores the padding and then decodes strictly, as `a2b_base64` does with
`strict_mode`: padding only at the end and not at the start, nothing outside the alphabet, and the
last group filled up to four exactly. After a complete group `strict_mode` passes over any number
of padding characters, so `AAAA=` is decoded too. It takes the two characters of the standard
alphabet (`+` and `/`) as well.

`decode_encode`: decoding an encoded byte string gives it back; `b64decode_b64encode` the same for the
standard alphabet with its padding. -/

namespace IdenGrid.Lib.Base64

/-- The character of a six-bit value. -/
def sym (v : ℕ) : ℕ :=
  if v < 26 then v + 65 else if v < 52 then v + 71 else if v < 62 then v - 4
  else if v = 62 then 45 else 95

/-- The six-bit value of a character of either alphabet. -/
def val (c : ℕ) : Option ℕ :=
  if 65 ≤ c ∧ c ≤ 90 then some (c - 65) else if 97 ≤ c ∧ c ≤ 122 then some (c - 71)
  else if 48 ≤ c ∧ c ≤ 57 then some (c + 4) else if c = 43 ∨ c = 45 then some 62
  else if c = 47 ∨ c = 95 then some 63 else none

/-- Three bytes as four six-bit values; a last group of one or two bytes as two or three. -/
def sextets : List ℕ → List ℕ
  | a :: b :: c :: r =>
    a / 4 :: (a % 4 * 16 + b / 16) :: (b % 16 * 4 + c / 64) :: c % 64 :: sextets r
  | [a, b] => [a / 4, a % 4 * 16 + b / 16, b % 16 * 4]
  | [a] => [a / 4, a % 4 * 16]
  | [] => []

/-- The bytes of a list of six-bit values; the spare bits of the last one are dropped. -/
def octets : List ℕ → Option (List ℕ)
  | a :: b :: c :: d :: r =>
    (octets r).map fun o =>
      (a * 4 + b / 16) :: (b % 16 * 16 + c / 4) :: (c % 4 * 64 + d) :: o
  | [a, b, c] => some [a * 4 + b / 16, b % 16 * 16 + c / 4]
  | [a, b] => some [a * 4 + b / 16]
  | [_] => none
  | [] => some []

/-- `urlsafe_b64encode(data).rstrip(b"=")`. -/
def encode (bytes : List ℕ) : List ℕ := (sextets bytes).map sym

/-- The values of a text, if all its characters are of the alphabet. -/
def values : List ℕ → Option (List ℕ)
  | [] => some []
  | c :: t => (val c).bind fun v => (values t).map (v :: ·)

/-- `"=" * (-len(value) % 4)`. -/
def padding (text : List ℕ) : List ℕ := List.replicate ((4 - text.length % 4) % 4) 61

/-- `b64decode(text, altchars=b"-_", validate=True)`. -/
def b64decode (text : List ℕ) : Option (List ℕ) :=
  let data := text.takeWhile (· != 61)
  let pads := text.dropWhile (· != 61)
  -- `a2b_base64` counts a padding character only from the third place of a group on
  if text.head? ≠ some 61 ∧ pads.all (· == 61) ∧
      (data.length % 4 = 0 ∨ data.length % 4 + pads.length = 4) then
    (values data).bind octets
  else none

/-- Decoding of a text without its padding. -/
def decode (text : List ℕ) : Option (List ℕ) := b64decode (text ++ padding text)

theorem sym_ne_pad (v : ℕ) : sym v ≠ 61 := by
  unfold sym; split_ifs <;> omega

/-- A character of an encoded text is one of the URL alphabet, so it is ASCII and no dot. -/
theorem sym_range (v : ℕ) : 45 ≤ sym v ∧ sym v ≤ 122 ∧ sym v ≠ 46 := by
  unfold sym; split_ifs <;> omega

theorem val_sym {v : ℕ} (h : v < 64) : val (sym v) = some v := by
  unfold sym
  split_ifs with h1 h2 h3 h4
  · have : 65 ≤ v + 65 ∧ v + 65 ≤ 90 := by omega
    simp [val, this]
  · have hn : ¬ (65 ≤ v + 71 ∧ v + 71 ≤ 90) := by omega
    have hy : 97 ≤ v + 71 ∧ v + 71 ≤ 122 := by omega
    simp only [val, hn, hy, if_false, if_true, and_self, Option.some.injEq]
    omega
  · have hn : ¬ (65 ≤ v - 4 ∧ v - 4 ≤ 90) := by omega
    have hm : ¬ (97 ≤ v - 4 ∧ v - 4 ≤ 122) := by omega
    have hy : 48 ≤ v - 4 ∧ v - 4 ≤ 57 := by omega
    simp only [val, hn, hm, hy, if_false, if_true, and_self, Option.some.injEq]
    omega
  · simp [val, h4]
  · have : v = 63 := by omega
    simp [val, this]

theorem values_map {alphabet : ℕ → ℕ} (hval : ∀ v < 64, val (alphabet v) = some v) :
    ∀ {vs : List ℕ}, (∀ v ∈ vs, v < 64) → values (vs.map alphabet) = some vs
  | [], _ => rfl
  | v :: vs, h => by
    have ih := values_map hval fun w hw => h w (List.mem_cons_of_mem v hw)
    simp [values, hval v (h v List.mem_cons_self), ih]

theorem sextets_lt : ∀ {bytes : List ℕ}, (∀ b ∈ bytes, b < 256) → ∀ v ∈ sextets bytes, v < 64
  | a :: b :: c :: r, h => by
    simp only [List.mem_cons, forall_eq_or_imp] at h
    obtain ⟨ha, hb, hc, hr⟩ := h
    have ih := sextets_lt hr
    simp only [sextets, List.mem_cons, forall_eq_or_imp]
    exact ⟨by omega, by omega, by omega, by omega, ih⟩
  | [a, b], h => by
    simp only [List.mem_cons, List.not_mem_nil, or_false, forall_eq_or_imp, forall_eq] at h
    simp only [sextets, List.mem_cons, List.not_mem_nil, or_false, forall_eq_or_imp, forall_eq]
    exact ⟨by omega, by omega, by omega⟩
  | [a], h => by
    simp only [List.mem_cons, List.not_mem_nil, or_false, forall_eq] at h
    simp only [sextets, List.mem_cons, List.not_mem_nil, or_false, forall_eq_or_imp, forall_eq]
    exact ⟨by omega, by omega⟩
  | [], _ => by simp [sextets]

theorem octets_sextets : ∀ {bytes : List ℕ}, (∀ b ∈ bytes, b < 256) →
    octets (sextets bytes) = some bytes
  | a :: b :: c :: r, h => by
    simp only [List.mem_cons, forall_eq_or_imp] at h
    obtain ⟨ha, hb, hc, hr⟩ := h
    have ih := octets_sextets hr
    simp only [sextets, octets, ih, Option.map_some, Option.some.injEq, List.cons.injEq, and_true]
    exact ⟨by omega, by omega, by omega⟩
  | [a, b], h => by
    simp only [List.mem_cons, List.not_mem_nil, or_false, forall_eq_or_imp, forall_eq] at h
    simp only [sextets, octets, Option.some.injEq, List.cons.injEq, and_true]
    exact ⟨by omega, by omega⟩
  | [a], h => by
    simp only [List.mem_cons, List.not_mem_nil, or_false, forall_eq] at h
    simp only [sextets, octets, Option.some.injEq, List.cons.injEq, and_true]
    omega
  | [], _ => rfl

/-- An encoded text never has one character more than a multiple of four. -/
theorem sextets_length_mod : ∀ bytes : List ℕ, (sextets bytes).length % 4 ≠ 1
  | a :: b :: c :: r => by
    have ih := sextets_length_mod r
    simp only [sextets, List.length_cons]
    omega
  | [_, _] => by simp [sextets]
  | [_] => by simp [sextets]
  | [] => by simp [sextets]

/-- **Base64 round trip**, in an alphabet whose characters the decoder takes. -/
theorem b64decode_map {alphabet : ℕ → ℕ} (hval : ∀ v < 64, val (alphabet v) = some v)
    (hpad : ∀ v, alphabet v ≠ 61) {bytes : List ℕ} (h : ∀ b ∈ bytes, b < 256) :
    b64decode ((sextets bytes).map alphabet ++ padding ((sextets bytes).map alphabet)) =
      some bytes := by
  have hlen : ((sextets bytes).map alphabet).length % 4 ≠ 1 := by
    simpa using sextets_length_mod bytes
  have hvalues := values_map hval (sextets_lt h)
  have hne : ∀ c ∈ (sextets bytes).map alphabet, (c != 61) = true := by
    intro c hc
    obtain ⟨v, -, rfl⟩ := List.mem_map.mp hc
    simpa using hpad v
  generalize (sextets bytes).map alphabet = t at hlen hvalues hne ⊢
  have htake : (t ++ padding t).takeWhile (· != 61) = t := by
    rw [List.takeWhile_append_of_pos hne]
    simp [padding]
  have hdrop : (t ++ padding t).dropWhile (· != 61) = padding t := by
    rw [List.dropWhile_append_of_pos hne]
    simp [padding]
  have hhead : (t ++ padding t).head? ≠ some 61 := by
    rcases t with _ | ⟨c, t⟩
    · simp [padding]
    · simpa using hne c List.mem_cons_self
  have hfull : t.length % 4 = 0 ∨ t.length % 4 + (padding t).length = 4 := by
    simp only [padding, List.length_replicate]
    omega
  have hcond : (t ++ padding t).head? ≠ some 61 ∧ (padding t).all (· == 61) ∧
      (t.length % 4 = 0 ∨ t.length % 4 + (padding t).length = 4) :=
    ⟨hhead, by simp [padding], hfull⟩
  unfold b64decode
  simp only [htake, hdrop]
  rw [if_pos hcond, hvalues]
  exact octets_sextets h

theorem decode_encode {bytes : List ℕ} (h : ∀ b ∈ bytes, b < 256) :
    decode (encode bytes) = some bytes :=
  b64decode_map (fun _ => val_sym) sym_ne_pad h

/-! ## The standard alphabet -/

def standardSym (v : ℕ) : ℕ := if v = 62 then 43 else if v = 63 then 47 else sym v

/-- `b64encode(data)` -/
def b64encode (bytes : List ℕ) : List ℕ :=
  (sextets bytes).map standardSym ++ padding ((sextets bytes).map standardSym)

theorem val_standardSym {v : ℕ} (h : v < 64) : val (standardSym v) = some v := by
  unfold standardSym
  split_ifs with h1 h2
  · rw [h1]
    rfl
  · rw [h2]
    rfl
  · exact val_sym h

theorem standardSym_ne_pad (v : ℕ) : standardSym v ≠ 61 := by
  unfold standardSym
  split_ifs
  · decide
  · decide
  · exact sym_ne_pad v

theorem b64decode_b64encode {bytes : List ℕ} (h : ∀ b ∈ bytes, b < 256) :
    b64decode (b64encode bytes) = some bytes :=
  b64decode_map (fun _ => val_standardSym) standardSym_ne_pad h

/-- `b64decode(text, validate=True)` -/
def standardDecode (text : List ℕ) : Option (List ℕ) :=
  if 45 ∈ text ∨ 95 ∈ text then none else b64decode text

theorem standardSym_ne {v : ℕ} (h : v < 64) : standardSym v ≠ 45 ∧ standardSym v ≠ 95 := by
  unfold standardSym sym
  split_ifs <;> omega

theorem standardDecode_b64encode {bytes : List ℕ} (h : ∀ b ∈ bytes, b < 256) :
    standardDecode (b64encode bytes) = some bytes := by
  have hne : ∀ c ∈ b64encode bytes, c ≠ 45 ∧ c ≠ 95 := by
    intro c hc
    rcases List.mem_append.mp hc with hc | hc
    · obtain ⟨v, hv, rfl⟩ := List.mem_map.mp hc
      exact standardSym_ne (sextets_lt h v hv)
    · rw [List.eq_of_mem_replicate hc]
      decide
  have hnone : ¬ (45 ∈ b64encode bytes ∨ 95 ∈ b64encode bytes) := by
    rintro (hmem | hmem)
    · exact (hne 45 hmem).1 rfl
    · exact (hne 95 hmem).2 rfl
  rw [standardDecode, if_neg hnone]
  exact b64decode_b64encode h

theorem length_sextets : ∀ bytes : List ℕ, (sextets bytes).length = (bytes.length * 4 + 2) / 3
  | a :: b :: c :: r => by
    have ih := length_sextets r
    simp only [sextets, List.length_cons, ih]
    omega
  | [_, _] => by simp [sextets]
  | [_] => by simp [sextets]
  | [] => rfl

theorem length_b64encode (bytes : List ℕ) : (b64encode bytes).length = (bytes.length + 2) / 3 * 4 := by
  simp only [b64encode, padding, List.length_append, List.length_map, List.length_replicate,
    length_sextets]
  omega

/-- The characters of a text in the standard alphabet. -/
theorem b64encode_ge (bytes : List ℕ) : ∀ c ∈ b64encode bytes, 43 ≤ c := by
  intro c hc
  rcases List.mem_append.mp hc with hc | hc
  · obtain ⟨v, -, rfl⟩ := List.mem_map.mp hc
    have := sym_range v
    unfold standardSym
    split_ifs <;> omega
  · rw [List.eq_of_mem_replicate hc]
    decide

/-- A text in the standard alphabet is ASCII. -/
theorem b64encode_lt (bytes : List ℕ) : ∀ c ∈ b64encode bytes, c < 0x80 := by
  intro c hc
  rcases List.mem_append.mp hc with hc | hc
  · obtain ⟨v, -, rfl⟩ := List.mem_map.mp hc
    have := sym_range v
    unfold standardSym
    split_ifs <;> omega
  · rw [List.eq_of_mem_replicate hc]
    decide

end IdenGrid.Lib.Base64
