import Mathlib.Data.List.Basic
import Mathlib.Data.Option.Basic
import Mathlib.Tactic.Common

/-! # Byte strings that hold JSON text

A text is a list of code points, surrogates included: a Python `str` can hold them. `decodeJson`
is what `json.loads` does with a byte string before it scans it: `detect_encoding`, and the decoder
of that encoding under the error handler `surrogatepass`.

`decodeJson_ascii`: ASCII without NUL is read as UTF-8 and stands for itself. -/

namespace IdenGrid.Lib.Unicode

/-- The code points of a string. -/
def text (s : String) : List ℕ := s.toList.map Char.toNat

theorem text_injective {s t : String} (h : text s = text t) : s = t := by
  have hinj : Function.Injective Char.toNat := fun a b hab => Char.toNat_inj.mp hab
  exact String.toList_inj.mp (List.map_injective_iff.mpr hinj h)

theorem text_lt {s : String} {c : ℕ} (h : c ∈ text s) : c < 0x110000 := by
  obtain ⟨ch, -, rfl⟩ := List.mem_map.mp h
  rcases ch.valid with h | ⟨-, h⟩
  · exact Nat.lt_trans h (by decide)
  · exact h

scoped instance lawfulText : LawfulBEq (List ℕ) := inferInstance

/-- A continuation byte of UTF-8. -/
def isTail (b : ℕ) : Bool := decide (0x80 ≤ b ∧ b < 0xC0)

/-- UTF-8; `surrogatepass` lets the three-byte forms of surrogates through. -/
def utf8 : List ℕ → Option (List ℕ)
  | [] => some []
  | a :: t =>
    if a < 0x80 then (utf8 t).map (a :: ·)
    else match t with
      | b :: t =>
        if 0xC2 ≤ a ∧ a < 0xE0 then
          if isTail b then (utf8 t).map ((a % 0x20 * 0x40 + b % 0x40) :: ·) else none
        else match t with
          | c :: t =>
            if 0xE0 ≤ a ∧ a < 0xF0 then
              if isTail b ∧ isTail c ∧ (a = 0xE0 → 0xA0 ≤ b) then
                (utf8 t).map ((a % 0x10 * 0x1000 + b % 0x40 * 0x40 + c % 0x40) :: ·)
              else none
            else match t with
              | d :: t =>
                if 0xF0 ≤ a ∧ a < 0xF5 then
                  if isTail b ∧ isTail c ∧ isTail d ∧ (a = 0xF0 → 0x90 ≤ b) ∧
                      (a = 0xF4 → b < 0x90) then
                    (utf8 t).map ((a % 8 * 0x40000 + b % 0x40 * 0x1000 + c % 0x40 * 0x40 +
                      d % 0x40) :: ·)
                  else none
                else none
              | [] => none
          | [] => none
      | [] => none

def isHigh (c : ℕ) : Bool := decide (0xD800 ≤ c ∧ c < 0xDC00)
def isLow (c : ℕ) : Bool := decide (0xDC00 ≤ c ∧ c < 0xE000)

@[simp] theorem isHigh_iff {c : ℕ} : isHigh c = true ↔ 0xD800 ≤ c ∧ c < 0xDC00 :=
  decide_eq_true_iff

@[simp] theorem isLow_iff {c : ℕ} : isLow c = true ↔ 0xDC00 ≤ c ∧ c < 0xE000 :=
  decide_eq_true_iff

/-- The code point of a surrogate pair. -/
def pair (hi lo : ℕ) : ℕ := 0x10000 + (hi - 0xD800) * 0x400 + (lo - 0xDC00)

/-- The sixteen-bit units of a byte string. -/
def units16 (big : Bool) : List ℕ → Option (List ℕ)
  | a :: b :: t => (units16 big t).map ((if big then a * 0x100 + b else b * 0x100 + a) :: ·)
  | [] => some []
  | [_] => none

/-- A high surrogate and the low one after it are one code point; the others pass. -/
def joinUnits : List ℕ → List ℕ
  | hi :: lo :: t =>
    if isHigh hi ∧ isLow lo then pair hi lo :: joinUnits t else hi :: joinUnits (lo :: t)
  | t => t

def utf16 (big : Bool) (bytes : List ℕ) : Option (List ℕ) := (units16 big bytes).map joinUnits

def utf32 (big : Bool) : List ℕ → Option (List ℕ)
  | a :: b :: c :: d :: t =>
    let u := if big then ((a * 0x100 + b) * 0x100 + c) * 0x100 + d
      else ((d * 0x100 + c) * 0x100 + b) * 0x100 + a
    if u < 0x110000 then (utf32 big t).map (u :: ·) else none
  | [] => some []
  | _ => none

/-- `s.decode(detect_encoding(s), "surrogatepass")`. A byte-order mark is not part of the text. -/
def decodeJson (s : List ℕ) : Option (List ℕ) :=
  match s with
  | 0x00 :: 0x00 :: 0xFE :: 0xFF :: t => utf32 true t
  | 0xFF :: 0xFE :: 0x00 :: 0x00 :: t => utf32 false t
  | 0xFE :: 0xFF :: t => utf16 true t
  | 0xFF :: 0xFE :: t => utf16 false t
  | 0xEF :: 0xBB :: 0xBF :: t => utf8 t
  | a :: b :: c :: d :: _ =>
    if a = 0 then if b = 0 then utf32 true s else utf16 true s
    else if b = 0 then if c = 0 ∧ d = 0 then utf32 false s else utf16 false s
    else utf8 s
  | [a, b] => if a = 0 then utf16 true s else if b = 0 then utf16 false s else utf8 s
  | _ => utf8 s

/-- `str.encode()`. -/
def encodeUtf8 (t : List ℕ) : List ℕ :=
  t.flatMap fun c =>
    if c < 0x80 then [c]
    else if c < 0x800 then [0xC0 + c / 0x40, 0x80 + c % 0x40]
    else if c < 0x10000 then [0xE0 + c / 0x1000, 0x80 + c / 0x40 % 0x40, 0x80 + c % 0x40]
    else [0xF0 + c / 0x40000, 0x80 + c / 0x1000 % 0x40, 0x80 + c / 0x40 % 0x40, 0x80 + c % 0x40]

theorem utf8_ascii : ∀ {s : List ℕ}, (∀ b ∈ s, b < 0x80) → utf8 s = some s
  | [], _ => rfl
  | a :: t, h => by
    have ih := utf8_ascii fun b hb => h b (List.mem_cons_of_mem a hb)
    have ha : a < 0x80 := h a List.mem_cons_self
    rw [utf8.eq_def]
    simp [ha, ih]

theorem encodeUtf8_ascii : ∀ {t : List ℕ}, (∀ c ∈ t, c < 0x80) → encodeUtf8 t = t
  | [], _ => rfl
  | c :: t, h => by
    have ih := encodeUtf8_ascii fun d hd => h d (List.mem_cons_of_mem c hd)
    rw [encodeUtf8, List.flatMap_cons, if_pos (h c List.mem_cons_self)]
    exact congrArg (c :: ·) ih

/-- A character beyond ASCII starts with a byte that is not ASCII. -/
theorem ascii_of_encodeUtf8 {t : List ℕ} (h : ∀ b ∈ encodeUtf8 t, b < 0x80) : ∀ c ∈ t, c < 0x80 := by
  intro c hc
  by_contra hbig
  have hbytes := fun b hb => h b (List.mem_flatMap.mpr ⟨c, hc, hb⟩)
  rw [if_neg hbig] at hbytes
  split_ifs at hbytes with htwo hthree
  all_goals
    have := hbytes _ List.mem_cons_self
    omega

/-- **ASCII text without NUL stands for itself.** -/
theorem decodeJson_ascii {s : List ℕ} (h : ∀ b ∈ s, 0 < b ∧ b < 0x80) :
    decodeJson s = some s := by
  have h8 : utf8 s = some s := utf8_ascii fun b hb => (h b hb).2
  unfold decodeJson
  split
  · have := h 0x00 (by simp); omega
  · have := h 0xFF (by simp); omega
  · have := h 0xFE (by simp); omega
  · have := h 0xFF (by simp); omega
  · have := h 0xEF (by simp); omega
  · next a b c d t _ _ _ _ _ =>
    have ha : a ≠ 0 := Nat.ne_of_gt (h a (by simp)).1
    have hb : b ≠ 0 := Nat.ne_of_gt (h b (by simp)).1
    rw [if_neg ha, if_neg hb]
    exact h8
  · next a b _ _ =>
    have ha : a ≠ 0 := Nat.ne_of_gt (h a (by simp)).1
    have hb : b ≠ 0 := Nat.ne_of_gt (h b (by simp)).1
    rw [if_neg ha, if_neg hb]
    exact h8
  · exact h8

end IdenGrid.Lib.Unicode
