import Mathlib.Order.Lattice.Nat
import IdenGrid.Lib.JsonHooks
import IdenGrid.Lib.PythonFloat
import IdenGrid.Lib.Results
import IdenGrid.Lib.Utf8

/-! # How long the text of an object is

`size` is the least number of bytes, in UTF-8, that a string or a number takes in a JSON text, and
`objectSize` that of an object of them. `objectSize_le`: a text that is read as this object has no
fewer bytes. `exists_text`: there is one with just as many.

What a number is read as depends only on its own characters (`scanNumber_split`). -/

namespace IdenGrid.Lib.JsonSize

open IdenGrid.Lib.Double IdenGrid.Lib.Unicode IdenGrid.Lib.JsonDumps
open IdenGrid.Lib.Json hiding member members object elements array scanValue scanOnce decode
open IdenGrid.Lib.JsonHooks IdenGrid.Lib.FloatRepr IdenGrid.Lib.PythonFloat IdenGrid.Lib.Utf8
open IdenGrid.Lib.Results

/-! ## Numbers -/

/-- This text alone is read as the number, whatever follows that is no part of a number. -/
structure Spells (u : List ℕ) (v : Value) : Prop where
  reads : ∀ r, Breaks r → scanNumber (u ++ r) = .ok (v, r)
  ascii : ∀ c ∈ u, c < 0x80
  starts : ∃ d ds, isDigit d = true ∧ (u = d :: ds ∨ u = 45 :: d :: ds)
  number : (∃ n, v = .int n ∧ (decimal n.natAbs).length ≤ u.length) ∨ ∃ q, v = .float (ofRat q)

theorem length_decimal_le {ds : List ℕ} (hne : ds ≠ []) (h : ∀ c ∈ ds, isDigit c = true) :
    (decimal (ofDecimal ds)).length ≤ ds.length := by
  unfold decimal
  split_ifs
  · exact List.length_pos_iff.mpr hne
  · rw [List.length_map, List.length_reverse, Nat.digits_length_le_iff (by decide)]
    have hlt : ∀ d ∈ ds.reverse.map (· - 48), d < 10 := by
      intro d hd
      obtain ⟨c, hc, rfl⟩ := List.mem_map.mp hd
      have := isDigit_iff.mp (h c (List.mem_reverse.mp hc))
      omega
    have := Nat.ofDigits_lt_base_pow_length (b := 10) (by decide) hlt
    rwa [List.length_map, List.length_reverse] at this

theorem natAbs_signed (negative : Bool) (n : ℕ) : (signed negative n).natAbs = n := by
  cases negative
  · rfl
  · simp [signed]

/-- The digits before the point are read alike, whatever follows them that is no digit. -/
theorem scanIntPart_split {t int r : List ℕ} (h : scanIntPart t = .ok (int, r)) :
    t = int ++ r ∧ (∀ c ∈ int, isDigit c = true) ∧ int ≠ [] ∧
      ∀ r', (∀ c ∈ r'.head?, isDigit c = false) → scanIntPart (int ++ r') = .ok (int, r') := by
  obtain ⟨ht, hdigit, hne⟩ := scanIntPart_eq_ok h
  refine ⟨ht, hdigit, hne, fun r' hr' => ?_⟩
  rcases t with _ | ⟨c, t⟩
  · simp [scanIntPart] at h
  rw [scanIntPart] at h
  split_ifs at h with hzero hc
  · obtain ⟨rfl, rfl⟩ := Prod.mk.inj (Except.ok.inj h)
    rfl
  · obtain ⟨rfl, rfl⟩ := Prod.mk.inj (Except.ok.inj h)
    refine scanIntPart_digits ⟨hdigit, ?_, List.cons_ne_nil _ _⟩ hr'
    simpa using hzero

/-- So are those behind it. -/
theorem scanFraction_split {t fraction r : List ℕ} (h : scanFraction t = some (fraction, r)) :
    t = 46 :: (fraction ++ r) ∧ (∀ c ∈ fraction, isDigit c = true) ∧
      ∀ r', (∀ c ∈ r'.head?, isDigit c = false) →
        scanFraction (46 :: (fraction ++ r')) = some (fraction, r') := by
  unfold scanFraction at h
  split at h
  · next d t' =>
    split_ifs at h with hd
    obtain ⟨rfl, rfl⟩ := Prod.mk.inj (Option.some.inj h)
    have hdigit : ∀ c ∈ d :: t'.takeWhile isDigit, isDigit c = true := by
      intro c hc
      rcases List.mem_cons.mp hc with rfl | hc
      · exact hd
      · exact List.mem_takeWhile_imp hc
    refine ⟨by simp, hdigit, fun r' hr' => ?_⟩
    exact scanFraction_digits (List.cons_ne_nil _ _) hdigit hr'
  · exact absurd h (by simp)

/-- An exponent, with a sign or without one. -/
theorem scanExponent_run {c : ℕ} (hc : c = 69 ∨ c = 101) {sign ds r : List ℕ}
    (hsign : sign = [] ∨ sign = [43] ∨ sign = [45]) (hne : ds ≠ [])
    (h : ∀ d ∈ ds, isDigit d = true) (hr : ∀ d ∈ r.head?, isDigit d = false) :
    scanExponent (c :: (sign ++ (ds ++ r))) =
      some (if sign = [45] then -(ofDecimal ds : ℤ) else ofDecimal ds, r) := by
  obtain ⟨htake, hdrop⟩ := span_digits h hr
  have hempty : ds.isEmpty = false := by simpa using hne
  rw [scanExponent, if_pos hc]
  rcases hsign with rfl | rfl | rfl
  · obtain ⟨d, ds, rfl⟩ := List.exists_cons_of_ne_nil hne
    have hd := isDigit_iff.mp (h d List.mem_cons_self)
    have hplus : (d :: ds ++ r).head? ≠ some 43 := by simp; omega
    have hminus : (d :: ds ++ r).head? ≠ some 45 := by simp; omega
    simp only [List.nil_append, hplus, hminus, or_self, if_false, htake, hdrop, hempty,
      Bool.false_eq_true, beq_eq_false_iff_ne.mpr hminus]
    rw [if_neg (by simp)]
  · simp [htake, hdrop, hne]
  · simp [htake, hdrop, hne]

/-- And those of the exponent. -/
theorem scanExponent_split {t r : List ℕ} {e : ℤ} (h : scanExponent t = some (e, r)) :
    ∃ u, t = u ++ r ∧ (∀ c ∈ u, c < 0x80) ∧ (u.head? = some 69 ∨ u.head? = some 101) ∧
      ∀ r', (∀ c ∈ r'.head?, isDigit c = false) → scanExponent (u ++ r') = some (e, r') := by
  obtain ⟨c, t, rfl, hc⟩ := scanExponent_eq_some h
  obtain ⟨sign, ds, rfl, hsign, hds⟩ : ∃ sign ds, t = sign ++ ds ∧
      (sign = [] ∨ sign = [43] ∨ sign = [45]) ∧
      (if t.head? = some 43 ∨ t.head? = some 45 then t.tail else t) = ds := by
    rcases t with _ | ⟨d, t⟩
    · exact ⟨[], [], rfl, .inl rfl, rfl⟩
    by_cases hd : d = 43 ∨ d = 45
    · exact ⟨[d], t, rfl, .inr (by simpa using hd), by simp [hd]⟩
    · exact ⟨[], d :: t, rfl, .inl rfl, by simp [hd]⟩
  have hrun : ds = ds.takeWhile isDigit ++ ds.dropWhile isDigit := by simp
  have hdigit : ∀ d ∈ ds.takeWhile isDigit, isDigit d = true := fun d hd => List.mem_takeWhile_imp hd
  have hend : ∀ d ∈ (ds.dropWhile isDigit).head?, isDigit d = false := by
    intro d hd
    have hnot := List.head?_dropWhile_not isDigit ds
    rw [hd] at hnot
    exact hnot
  have hne : ds.takeWhile isDigit ≠ [] := by
    intro hnil
    rw [scanExponent, if_pos hc, hds] at h
    simp [hnil] at h
  have hread := scanExponent_run hc hsign hne hdigit hend
  rw [← hrun, h] at hread
  obtain ⟨rfl, rfl⟩ := Prod.mk.inj (Option.some.inj hread)
  refine ⟨c :: (sign ++ ds.takeWhile isDigit), by simp, fun d hd => ?_, by simpa using hc, ?_⟩
  · rcases List.mem_cons.mp hd with rfl | hd
    · omega
    rcases List.mem_append.mp hd with hd | hd
    · rcases hsign with rfl | rfl | rfl <;> simp at hd <;> omega
    · have := isDigit_iff.mp (hdigit d hd)
      omega
  · intro r' hr'
    rw [List.cons_append, List.append_assoc]
    exact scanExponent_run hc hsign hne hdigit hr'

/-- **What a number is read as depends on its own characters.** -/
theorem scanMagnitude_split {negative : Bool} {t r : List ℕ} {v : Value}
    (h : scanMagnitude negative t = .ok (v, r)) :
    ∃ u, t = u ++ r ∧ (∀ c ∈ u, c < 0x80) ∧ (∃ d ds, isDigit d = true ∧ u = d :: ds) ∧
      (∀ r', Breaks r' → scanMagnitude negative (u ++ r') = .ok (v, r')) ∧
      ((∃ n, v = .int n ∧ (decimal n.natAbs).length ≤ u.length) ∨ ∃ q, v = .float (ofRat q)) := by
  unfold scanMagnitude at h
  rcases hint : scanIntPart t with e | ⟨int, t₁⟩
  · rw [hint] at h
    simp at h
  rw [hint] at h
  dsimp only at h
  obtain ⟨rfl, hdigit, hne, hread⟩ := scanIntPart_split hint
  have hstart : ∀ l, ∃ d ds, isDigit d = true ∧ int ++ l = d :: ds := fun l => by
    obtain ⟨d, ds, rfl⟩ := List.exists_cons_of_ne_nil hne
    exact ⟨d, ds ++ l, hdigit d List.mem_cons_self, rfl⟩
  have hascii : ∀ {l : List ℕ}, (∀ c ∈ l, isDigit c = true) → ∀ c ∈ l, c < 0x80 := fun hl c hc => by
    have := isDigit_iff.mp (hl c hc)
    omega
  rcases hfraction : scanFraction t₁ with _ | ⟨fraction, t₂⟩
  · rcases hexponent : scanExponent t₁ with _ | ⟨e, t₃⟩
    · simp only [hfraction, hexponent, Option.map_none, Option.getD_none, Option.isNone_none,
        and_self, if_true] at h
      split_ifs at h with hlong
      obtain ⟨rfl, rfl⟩ := Prod.mk.inj (Except.ok.inj h)
      refine ⟨int, rfl, hascii hdigit, by simpa using hstart [], fun r' hr' => ?_, .inl ⟨_, rfl, ?_⟩⟩
      · have hnone : scanFraction r' = none := scanFraction_none fun c hc => (hr' c hc).2.1
        simp [scanMagnitude, hread r' (breaks_digit hr'), hnone, scanExponent_none hr', hlong]
      · rw [natAbs_signed]
        exact length_decimal_le hne hdigit
    · simp only [hfraction, hexponent, Option.map_none, Option.getD_none, Option.map_some,
        Option.getD_some, Option.isNone_none, Option.isNone_some, Bool.false_eq_true, and_false,
        if_false] at h
      obtain ⟨rfl, rfl⟩ := Prod.mk.inj (Except.ok.inj h)
      obtain ⟨u, rfl, hu, hhead, hread'⟩ := scanExponent_split hexponent
      refine ⟨int ++ u, by simp, ?_, hstart u, fun r' hr' => ?_, .inr ⟨_, rfl⟩⟩
      · exact List.forall_mem_append.mpr ⟨hascii hdigit, hu⟩
      obtain ⟨c, u, rfl⟩ : ∃ c u', u = c :: u' := by
        rcases u with _ | ⟨c, u⟩
        · simp at hhead
        · exact ⟨c, u, rfl⟩
      have hc : c = 69 ∨ c = 101 := by simpa using hhead
      have hint' := hread (c :: u ++ r') (by rcases hc with rfl | rfl <;> simp [isDigit])
      have hnone : scanFraction (c :: u ++ r') = none :=
        scanFraction_none (by rcases hc with rfl | rfl <;> simp)
      have hfloat := scanMagnitude_float negative none _ hint' hnone
        (hread' r' (breaks_digit hr')) (.inr rfl)
      rw [List.append_assoc, hfloat]
      simp
  · obtain ⟨rfl, hfdigit, hfread⟩ := scanFraction_split hfraction
    rcases hexponent : scanExponent t₂ with _ | ⟨e, t₃⟩
    · simp only [hfraction, hexponent, Option.map_none, Option.getD_none, Option.map_some,
        Option.getD_some, Option.isNone_none, Option.isNone_some, Bool.false_eq_true, false_and,
        if_false] at h
      obtain ⟨rfl, rfl⟩ := Prod.mk.inj (Except.ok.inj h)
      refine ⟨int ++ 46 :: fraction, by simp, ?_, hstart _, fun r' hr' => ?_, .inr ⟨_, rfl⟩⟩
      · exact List.forall_mem_append.mpr ⟨hascii hdigit,
          List.forall_mem_cons.mpr ⟨by decide, hascii hfdigit⟩⟩
      have hfloat := scanMagnitude_float negative _ none
        (hread (46 :: (fraction ++ r')) (by simp [isDigit])) (hfread r' (breaks_digit hr'))
        (scanExponent_none hr') (.inl rfl)
      rw [List.append_assoc, List.cons_append, hfloat]
      simp
    · simp only [hfraction, hexponent, Option.map_some, Option.getD_some, Option.isNone_some,
        Bool.false_eq_true, false_and, if_false] at h
      obtain ⟨rfl, rfl⟩ := Prod.mk.inj (Except.ok.inj h)
      obtain ⟨u, rfl, hu, hhead, hread'⟩ := scanExponent_split hexponent
      refine ⟨int ++ 46 :: (fraction ++ u), by simp, ?_, hstart _, fun r' hr' => ?_, .inr ⟨_, rfl⟩⟩
      · exact List.forall_mem_append.mpr ⟨hascii hdigit,
          List.forall_mem_cons.mpr ⟨by decide, List.forall_mem_append.mpr ⟨hascii hfdigit, hu⟩⟩⟩
      have hstop : ∀ c ∈ (u ++ r').head?, isDigit c = false := by
        rcases u with _ | ⟨c, u⟩
        · simp at hhead
        · have hc : c = 69 ∨ c = 101 := by simpa using hhead
          rcases hc with rfl | rfl <;> simp [isDigit]
      have hfloat := scanMagnitude_float negative _ _
        (hread (46 :: (fraction ++ (u ++ r'))) (by simp [isDigit])) (hfread (u ++ r') hstop)
        (hread' r' (breaks_digit hr')) (.inl rfl)
      rw [List.append_assoc, List.cons_append, List.append_assoc, hfloat]
      simp

theorem scanNumber_split {t r : List ℕ} {v : Value} (h : scanNumber t = .ok (v, r)) :
    ∃ u, t = u ++ r ∧ Spells u v := by
  unfold scanNumber at h
  split_ifs at h with hsign
  · obtain ⟨u, htail, hascii, ⟨d, ds, hd, rfl⟩, hread, hnumber⟩ := scanMagnitude_split h
    obtain ⟨t, rfl⟩ : ∃ t', t = 45 :: t' := by
      rcases t with _ | ⟨c, t⟩
      · simp at hsign
      · exact ⟨t, by rw [Option.some.inj hsign]⟩
    obtain rfl : t = d :: ds ++ r := htail
    refine ⟨45 :: d :: ds, rfl, fun r' hr' => ?_, ?_, ⟨d, ds, hd, .inr rfl⟩, hnumber.imp_left ?_⟩
    · exact hread r' hr'
    · exact List.forall_mem_cons.mpr ⟨by decide, hascii⟩
    · rintro ⟨n, hn, hlength⟩
      exact ⟨n, hn, hlength.trans (Nat.le_succ _)⟩
  · obtain ⟨u, rfl, hascii, ⟨d, ds, hd, rfl⟩, hread, hnumber⟩ := scanMagnitude_split h
    refine ⟨d :: ds, rfl, fun r' hr' => ?_, hascii, ⟨d, ds, hd, .inl rfl⟩, hnumber⟩
    have hne : ¬ (d :: ds ++ r').head? = some 45 := by
      have := isDigit_iff.mp hd
      simp
      omega
    rw [scanNumber, if_neg hne]
    exact hread r' hr'

/-! ## Sizes -/

/-- The number of bytes of a text. -/
def bytes (t : List ℕ) : ℕ := (encodeUtf8 t).length

/-- A character of a string as it is written with the fewest bytes. -/
def escape (c : ℕ) : List ℕ :=
  match shortEscape c with
  | some e => [92, e]
  | none => if c < 32 then escapeUnit c else [c]

def quote (t : List ℕ) : List ℕ := 34 :: (t.flatMap escape ++ [34])

/-- The least number of characters that are read as a number with this float. -/
noncomputable def numeralSize (x : Binary64) : ℕ :=
  sInf {n | ∃ u v, Spells u v ∧ asFloat v = some x ∧ u.length = n}

/-- The least number of bytes of a string or a number. -/
noncomputable def size : Value → ℕ
  | .int n => (decimal n.natAbs).length
  | .float x => numeralSize x
  | .str t => bytes (quote t)
  | _ => 0

noncomputable def entrySize (f : List ℕ × Value) : ℕ := bytes (quote f.1) + 1 + size f.2

/-- The least number of bytes of an object of strings and numbers. -/
noncomputable def objectSize (fs : List (List ℕ × Value)) : ℕ :=
  2 + (fs.map entrySize).sum + (fs.length - 1)

@[simp] theorem bytes_nil : bytes [] = 0 := rfl

theorem bytes_append (s t : List ℕ) : bytes (s ++ t) = bytes s + bytes t := by
  rw [bytes, encodeUtf8_append, List.length_append]
  rfl

theorem bytes_cons (c : ℕ) (t : List ℕ) : bytes (c :: t) = bytes [c] + bytes t :=
  bytes_append [c] t

theorem bytes_ascii {t : List ℕ} (h : ∀ c ∈ t, c < 0x80) : bytes t = t.length := by
  rw [bytes, encodeUtf8_ascii h]

theorem bytes_one {c : ℕ} (h : c < 0x80) : bytes [c] = 1 :=
  bytes_ascii (by simpa using h)

theorem bytes_character (c : ℕ) : 1 ≤ bytes [c] ∧ bytes [c] ≤ 4 := by
  unfold bytes
  by_cases hone : c < 0x80
  · simp [encodeUtf8_one hone]
  by_cases htwo : c < 0x800
  · simp [encodeUtf8_two (show 0x80 ≤ c by omega) htwo]
  by_cases hthree : c < 0x10000
  · simp [encodeUtf8_three (show 0x800 ≤ c by omega) hthree]
  · simp [encodeUtf8_four (show 0x10000 ≤ c by omega)]

theorem bytes_lt_cons (c : ℕ) (t : List ℕ) : bytes t < bytes (c :: t) := by
  have := bytes_character c
  rw [bytes_cons]
  omega

theorem length_le_bytes : ∀ t : List ℕ, t.length ≤ bytes t
  | [] => le_rfl
  | c :: t => by
    have ih := length_le_bytes t
    have := bytes_lt_cons c t
    rw [List.length_cons]
    omega

theorem bytes_skip_le (t : List ℕ) : bytes (skip t) ≤ bytes t := by
  have h := bytes_append (t.takeWhile isSpace) (t.dropWhile isSpace)
  rw [List.takeWhile_append_dropWhile] at h
  unfold skip
  omega

/-! ## Strings -/

theorem bytes_quote (t : List ℕ) : bytes (quote t) = 2 + bytes (t.flatMap escape) := by
  rw [quote, bytes_cons, bytes_append, bytes_one (by decide)]
  omega

theorem bytes_escape_le (c : ℕ) : bytes (escape c) ≤ 6 := by
  unfold escape
  rcases hshort : shortEscape c with _ | e
  · dsimp only
    split_ifs
    · rw [bytes_ascii fun d hd => (ascii_escapeUnit c d hd).2]
      exact le_rfl
    · exact (bytes_character c).2.trans (by decide)
  · have := bytes_character e
    dsimp only
    rw [bytes_cons, bytes_one (by decide)]
    omega

theorem escape_self {c : ℕ} (h : 32 ≤ c) (hquote : c ≠ 34) (hslash : c ≠ 92) : escape c = [c] := by
  have hshort : shortEscape c = none := by
    simp only [shortEscape, if_neg (show ¬ (c = 34 ∨ c = 92) by omega), if_neg (show c ≠ 8 by omega),
      if_neg (show c ≠ 12 by omega), if_neg (show c ≠ 10 by omega), if_neg (show c ≠ 13 by omega),
      if_neg (show c ≠ 9 by omega)]
  rw [escape, hshort]
  exact if_neg (by omega)

theorem bytes_escape_unescape {e c : ℕ} (h : unescape e = some c) : bytes (escape c) ≤ 2 := by
  unfold unescape at h
  split_ifs at h with h1 <;> obtain rfl := Option.some.inj h
  · rcases h1 with rfl | rfl | rfl <;> decide
  all_goals decide

/-- The least number of bytes of a unit that the scanner has read. -/
def unitSize (u : Bool × ℕ) : ℕ := if u.1 then 6 else bytes (escape u.2)

theorem scanUnits_size {t r : List ℕ} {us : List (Bool × ℕ)} (h : scanUnits t = .ok (us, r)) :
    (us.map unitSize).sum + 1 + bytes r ≤ bytes t := by
  fun_induction scanUnits t generalizing us with
  | case2 t =>
    obtain ⟨rfl, rfl⟩ := Prod.mk.inj (Except.ok.inj h)
    rw [bytes_cons, bytes_one (by decide)]
    simp
  | case4 a b c d t u hhex _ ih =>
    obtain ⟨p, hp, heq⟩ := map_eq_ok.mp h
    obtain ⟨rfl, rfl⟩ := Prod.mk.inj heq
    have := ih hp
    have := bytes_lt_cons d t
    have := bytes_lt_cons c (d :: t)
    have := bytes_lt_cons b (c :: d :: t)
    have := bytes_lt_cons a (b :: c :: d :: t)
    have := bytes_lt_cons 117 (a :: b :: c :: d :: t)
    have := bytes_lt_cons 92 (117 :: a :: b :: c :: d :: t)
    simp only [List.map_cons, List.sum_cons, unitSize, if_true]
    omega
  | case7 e t he u hu _ ih =>
    obtain ⟨p, hp, heq⟩ := map_eq_ok.mp h
    obtain ⟨rfl, rfl⟩ := Prod.mk.inj heq
    have := ih hp
    have := bytes_escape_unescape hu
    have := bytes_lt_cons e t
    have := bytes_lt_cons 92 (e :: t)
    simp only [List.map_cons, List.sum_cons, unitSize, Bool.false_eq_true, if_false]
    omega
  | case10 c t hquote hslash hlarge ih =>
    obtain ⟨p, hp, heq⟩ := map_eq_ok.mp h
    obtain ⟨rfl, rfl⟩ := Prod.mk.inj heq
    have := ih hp
    rw [bytes_cons]
    simp only [List.map_cons, List.sum_cons, unitSize, Bool.false_eq_true, if_false,
      escape_self (by omega) hquote hslash]
    omega
  | _ => simp at h

theorem joinEscapes_size (us : List (Bool × ℕ)) :
    bytes ((joinEscapes us).flatMap escape) ≤ (us.map unitSize).sum := by
  have hunit : ∀ u : Bool × ℕ, bytes (escape u.2) ≤ unitSize u := fun u => by
    unfold unitSize
    split_ifs
    · exact bytes_escape_le u.2
    · exact le_rfl
  fun_induction joinEscapes us with
  | case1 e hi f lo t hpair ih =>
    obtain ⟨he, hf, hhigh, hlow⟩ := hpair
    rw [isHigh_iff] at hhigh
    rw [isLow_iff] at hlow
    have hself : escape (pair hi lo) = [pair hi lo] :=
      escape_self (by unfold pair; omega) (by unfold pair; omega) (by unfold pair; omega)
    have := bytes_character (pair hi lo)
    rw [List.flatMap_cons, bytes_append, hself]
    simp only [List.map_cons, List.sum_cons, unitSize, he, hf, if_true]
    omega
  | case2 e hi f lo t hpair ih =>
    have := hunit (e, hi)
    rw [List.flatMap_cons, bytes_append]
    simp only [List.map_cons, List.sum_cons] at this ih ⊢
    omega
  | case3 e c => simpa using hunit (e, c)
  | case4 => exact le_rfl

/-- **The text of a string is not shorter than the string.** -/
theorem scanString_size {t k r : List ℕ} (h : scanString t = .ok (k, r)) :
    bytes (k.flatMap escape) + 1 + bytes r ≤ bytes t := by
  obtain ⟨⟨us, r'⟩, hus, heq⟩ := map_eq_ok.mp h
  obtain ⟨rfl, rfl⟩ := Prod.mk.inj heq
  have := scanUnits_size hus
  have := joinEscapes_size us
  show bytes ((joinEscapes us).flatMap escape) + 1 + bytes r' ≤ bytes t
  omega

/-! ## Values and objects -/

/-- What the hooks make of a pair of braces and of the constants. -/
structure Plain {ε : Type} (H : Hooks ε) : Prop where
  object : ∀ fs v, H.object fs = .ok v → v = .obj fs
  constant : ∀ l v, H.constant l ≠ .ok v

/-- A float of the value is the nearest one of a number. -/
def Rounded (v : Value) : Prop := ∀ x, v = .float x → ∃ q, x = ofRat q

/-- What is read is rounded, and its text is not shorter than its size. -/
def Sized {ε : Type} (item : List ℕ → Except ε (Value × List ℕ)) : Prop :=
  ∀ t v r, item t = .ok (v, r) → Rounded v ∧ size v + bytes r ≤ bytes t

theorem numeralSize_le {u : List ℕ} {v : Value} {x : Binary64} (h : Spells u v)
    (hx : asFloat v = some x) : numeralSize x ≤ u.length :=
  Nat.sInf_le ⟨u, v, h, hx, rfl⟩

theorem Spells.size_le {u : List ℕ} {v : Value} (h : Spells u v) : size v ≤ u.length := by
  rcases h.number with ⟨n, rfl, hlength⟩ | ⟨q, rfl⟩
  · exact hlength
  · exact numeralSize_le h rfl

theorem Spells.rounded {u : List ℕ} {v : Value} (h : Spells u v) : Rounded v := by
  rintro x rfl
  rcases h.number with ⟨n, hn, -⟩ | ⟨q, hq⟩
  · simp at hn
  · exact ⟨q, Value.float.inj hq⟩

variable {ε : Type} {H : Hooks ε}

theorem lift_eq_ok {α : Type} {x : Except Err α} {a : α} : H.lift x = .ok a ↔ x = .ok a := by
  rcases x with (_ | _) | b <;> simp [Hooks.lift]

theorem expect_eq_ok {c : ℕ} {t r : List ℕ} : expect c t = .ok r ↔ t = c :: r := by
  rcases t with _ | ⟨d, t⟩
  · simp [expect]
  · by_cases hc : c = d
    · simp [expect, hc]
    · simp [expect, hc, Ne.symm hc]

section

variable {item : List ℕ → Except ε (Value × List ℕ)} (hitem : Sized item)

include hitem

theorem member_size {t r : List ℕ} {f : List ℕ × Value} (h : member H item t = .ok (f, r)) :
    Rounded f.2 ∧ entrySize f + bytes r ≤ bytes t := by
  obtain ⟨t₁, h₁, h⟩ := bind_eq_ok.mp h
  obtain ⟨⟨key, t₂⟩, h₂, h⟩ := bind_eq_ok.mp h
  obtain ⟨t₃, h₃, h⟩ := bind_eq_ok.mp h
  obtain ⟨⟨v, t₄⟩, h₄, h⟩ := bind_eq_ok.mp h
  obtain ⟨rfl, rfl⟩ := Prod.mk.inj (Except.ok.inj h)
  have hkey := scanString_size (lift_eq_ok.mp h₂)
  obtain ⟨hround, hvalue⟩ := hitem _ _ _ h₄
  have hcolon := congrArg bytes (expect_eq_ok.mp (lift_eq_ok.mp h₃))
  rw [bytes_cons, bytes_one (by decide)] at hcolon
  have := bytes_skip_le t₂
  have := bytes_skip_le t₃
  refine ⟨hround, ?_⟩
  rw [expect_eq_ok.mp (lift_eq_ok.mp h₁), bytes_cons, bytes_one (by decide), entrySize, bytes_quote]
  dsimp only at *
  omega

/-- **The members of an object**, after those read before. -/
theorem members_size : ∀ {n : ℕ} {acc : List (List ℕ × Value)} {t r : List ℕ}
    {v : Value}, members H item n acc t = .ok (v, r) →
    ∃ fs, H.object (acc ++ fs) = .ok v ∧ (∀ f ∈ fs, Rounded f.2) ∧ fs ≠ [] ∧
      (fs.map entrySize).sum + fs.length + bytes r ≤ bytes t
  | 0, _, _, _, _, h => by simp [members] at h
  | n + 1, acc, t, r, v, h => by
    rw [members] at h
    obtain ⟨⟨f, t₁⟩, hmember, h⟩ := bind_eq_ok.mp h
    obtain ⟨hround, hsize⟩ := member_size hitem hmember
    have hskip := bytes_skip_le t₁
    dsimp only at h
    rcases hnext : skip t₁ with _ | ⟨c, t₂⟩
    · rw [hnext] at h
      simp at h
    rw [hnext] at h hskip
    dsimp only at h
    have hc := bytes_lt_cons c t₂
    split_ifs at h
    · obtain ⟨v', hv', heq⟩ := map_eq_ok.mp h
      obtain ⟨rfl, rfl⟩ := Prod.mk.inj heq
      refine ⟨[f], hv', by simpa using hround, List.cons_ne_nil _ _, ?_⟩
      simp only [List.map_cons, List.map_nil, List.sum_cons, List.sum_nil, List.length_singleton]
      omega
    · obtain ⟨fs, hv, hfs, -, ih⟩ := members_size h
      have := bytes_skip_le t₂
      refine ⟨f :: fs, by simpa using hv, List.forall_mem_cons.mpr ⟨hround, hfs⟩,
        List.cons_ne_nil _ _, ?_⟩
      simp only [List.map_cons, List.sum_cons, List.length_cons]
      omega

/-- An object, after its opening brace. -/
theorem object_size {t r : List ℕ} {v : Value} (h : object H item t = .ok (v, r)) :
    ∃ fs, H.object fs = .ok v ∧ (∀ f ∈ fs, Rounded f.2) ∧ objectSize fs + bytes r ≤ bytes t + 1 := by
  unfold object at h
  have hskip := bytes_skip_le t
  rcases hnext : skip t with _ | ⟨c, t₁⟩
  · rw [hnext] at h
    simp at h
  rw [hnext] at h hskip
  dsimp only at h
  split_ifs at h
  · obtain ⟨v', hv', heq⟩ := map_eq_ok.mp h
    obtain ⟨rfl, rfl⟩ := Prod.mk.inj heq
    have := bytes_lt_cons c t₁
    refine ⟨[], hv', by simp, ?_⟩
    simp only [objectSize, List.map_nil, List.sum_nil, List.length_nil]
    omega
  · obtain ⟨fs, hv, hfs, hne, hsize⟩ := members_size hitem h
    have := List.length_pos_iff.mpr hne
    refine ⟨fs, hv, hfs, ?_⟩
    unfold objectSize
    omega

theorem elements_size : ∀ {n : ℕ} {acc : List Value} {t r : List ℕ} {v : Value},
    elements H item n acc t = .ok (v, r) → (∃ vs, v = .arr vs) ∧ bytes r ≤ bytes t
  | 0, _, _, _, _, h => by simp [elements] at h
  | n + 1, acc, t, r, v, h => by
    rw [elements] at h
    obtain ⟨⟨w, t₁⟩, hw, h⟩ := bind_eq_ok.mp h
    have hsize := (hitem _ _ _ hw).2
    have hskip := bytes_skip_le t₁
    dsimp only at h
    rcases hnext : skip t₁ with _ | ⟨c, t₂⟩
    · rw [hnext] at h
      simp at h
    rw [hnext] at h hskip
    dsimp only at h
    have hc := bytes_lt_cons c t₂
    split_ifs at h
    · obtain ⟨rfl, rfl⟩ := Prod.mk.inj (Except.ok.inj h)
      exact ⟨⟨_, rfl⟩, by omega⟩
    · obtain ⟨hv, ih⟩ := elements_size h
      have := bytes_skip_le t₂
      exact ⟨hv, by omega⟩

theorem array_size {t r : List ℕ} {v : Value} (h : array H item t = .ok (v, r)) :
    (∃ vs, v = .arr vs) ∧ bytes r ≤ bytes t := by
  unfold array at h
  have hskip := bytes_skip_le t
  rcases hnext : skip t with _ | ⟨c, t₁⟩
  · rw [hnext] at h
    simp at h
  rw [hnext] at h hskip
  dsimp only at h
  split_ifs at h
  · obtain ⟨rfl, rfl⟩ := Prod.mk.inj (Except.ok.inj h)
    have := bytes_lt_cons c t₁
    exact ⟨⟨_, rfl⟩, by omega⟩
  · obtain ⟨hv, hsize⟩ := elements_size hitem h
    exact ⟨hv, by omega⟩

end

/-- The words and the constants start with a letter, or with a minus and a letter. -/
theorem words_none {d : ℕ} {ds : List ℕ} (hd : isDigit d = true) (t : List ℕ)
    (ht : t = d :: ds ∨ t = 45 :: d :: ds) :
    words.find? (fun l => l.1.isPrefixOf t) = none ∧
      constants.find? (fun l => l.isPrefixOf t) = none := by
  rw [isDigit_iff] at hd
  rcases ht with rfl | rfl
  · simp [words, constants, text]
    omega
  · simp [words, constants, text, List.isPrefixOf]
    omega

theorem scanValue_size (hH : Plain H) {obj arr : List ℕ → Except ε (Value × List ℕ)}
    (hobj : ∀ t v r, obj t = .ok (v, r) → (∃ fs, v = .obj fs) ∧ bytes r ≤ bytes t + 1)
    (harr : ∀ t v r, arr t = .ok (v, r) → (∃ vs, v = .arr vs) ∧ bytes r ≤ bytes t) :
    Sized (scanValue H obj arr) := by
  intro t v r h
  rcases t with _ | ⟨c, t⟩
  · simp [scanValue] at h
  rw [scanValue] at h
  have hc := bytes_lt_cons c t
  split_ifs at h with hquote hbrace hbracket
  · obtain ⟨⟨k, t'⟩, hk, heq⟩ := map_eq_ok.mp (lift_eq_ok.mp h)
    obtain ⟨rfl, rfl⟩ := Prod.mk.inj heq
    have := scanString_size hk
    refine ⟨fun x hx => by simp at hx, ?_⟩
    rw [size, bytes_quote]
    dsimp only at *
    omega
  · obtain ⟨⟨fs, rfl⟩, hsize⟩ := hobj t v r h
    refine ⟨fun x hx => by simp at hx, ?_⟩
    show 0 + bytes r ≤ bytes (c :: t)
    omega
  · obtain ⟨⟨vs, rfl⟩, hsize⟩ := harr t v r h
    refine ⟨fun x hx => by simp at hx, ?_⟩
    show 0 + bytes r ≤ bytes (c :: t)
    omega
  · split at h
    · next l hl =>
      obtain ⟨rfl, rfl⟩ := Prod.mk.inj (Except.ok.inj h)
      have hmem := List.mem_of_find?_eq_some hl
      have hdrop := bytes_append ((c :: t).take l.1.length) ((c :: t).drop l.1.length)
      rw [List.take_append_drop] at hdrop
      have hsize : Rounded l.2 ∧ size l.2 = 0 := by
        simp only [words, List.mem_cons, List.not_mem_nil, or_false] at hmem
        rcases hmem with rfl | rfl | rfl <;> exact ⟨fun x hx => by simp at hx, rfl⟩
      exact ⟨hsize.1, by rw [hsize.2]; omega⟩
    · split at h
      · next l hl =>
        obtain ⟨v', hv', -⟩ := map_eq_ok.mp h
        exact absurd hv' (hH.constant l v')
      · obtain ⟨u, hu, hspells⟩ := scanNumber_split (lift_eq_ok.mp h)
        have := hspells.size_le
        have := length_le_bytes u
        rw [hu, bytes_append]
        exact ⟨hspells.rounded, by omega⟩

theorem scanOnce_size (hH : Plain H) : ∀ depth, Sized (scanOnce H depth)
  | 0 => scanValue_size hH (fun _ _ _ h => by simp at h) fun _ _ _ h => by simp at h
  | depth + 1 => by
    have ih := scanOnce_size hH depth
    refine scanValue_size hH (fun t v r h => ?_) fun t v r h => array_size ih h
    obtain ⟨fs, hv, -, hsize⟩ := object_size ih h
    exact ⟨⟨fs, hH.object fs v hv⟩, by omega⟩

/-- Only what stands after a brace is read as an object. -/
theorem scanOnce_obj (hH : Plain H) {depth : ℕ} {t r : List ℕ} {fs : List (List ℕ × Value)}
    (h : scanOnce H depth t = .ok (.obj fs, r)) :
    ∃ d t', t = 123 :: t' ∧ object H (scanOnce H d) t' = .ok (.obj fs, r) := by
  have hvalue : ∀ {obj arr : List ℕ → Except ε (Value × List ℕ)},
      (∀ t v r, arr t = .ok (v, r) → ∃ vs, v = .arr vs) →
      scanValue H obj arr t = .ok (.obj fs, r) → ∃ t', t = 123 :: t' ∧ obj t' = .ok (.obj fs, r) := by
    intro obj arr harr h
    rcases t with _ | ⟨c, t⟩
    · simp [scanValue] at h
    rw [scanValue] at h
    split_ifs at h with hquote hbrace hbracket
    · obtain ⟨⟨k, t'⟩, -, heq⟩ := map_eq_ok.mp (lift_eq_ok.mp h)
      simp at heq
    · exact ⟨t, by rw [hbrace], h⟩
    · obtain ⟨vs, hvs⟩ := harr _ _ _ h
      simp at hvs
    · split at h
      · next l hl =>
        obtain ⟨hobj, -⟩ := Prod.mk.inj (Except.ok.inj h)
        have hmem := List.mem_of_find?_eq_some hl
        simp only [words, List.mem_cons, List.not_mem_nil, or_false] at hmem
        rcases hmem with rfl | rfl | rfl <;> simp at hobj
      · split at h
        · next l hl =>
          obtain ⟨v', hv', -⟩ := map_eq_ok.mp h
          exact absurd hv' (hH.constant l v')
        · obtain ⟨u, -, hspells⟩ := scanNumber_split (lift_eq_ok.mp h)
          rcases hspells.number with ⟨n, hn, -⟩ | ⟨q, hq⟩
          · simp at hn
          · simp at hq
  cases depth with
  | zero =>
    obtain ⟨t', -, h⟩ := hvalue (fun _ _ _ h => by simp at h) h
    simp at h
  | succ depth =>
    obtain ⟨t', rfl, h⟩ := hvalue (fun t v r h => (array_size (scanOnce_size hH depth) h).1) h
    exact ⟨depth, t', rfl, h⟩

/-- **No text of an object is shorter than its size.** Its floats are rounded, and the hook has seen
all its pairs. -/
theorem objectSize_le (hH : Plain H) {depth : ℕ} {t : List ℕ} {fs : List (List ℕ × Value)}
    (h : decode H depth t = .ok (.obj fs)) :
    (∀ f ∈ fs, Rounded f.2) ∧ objectSize fs ≤ bytes t ∧ H.object fs = .ok (.obj fs) := by
  unfold decode at h
  rcases hscan : scanOnce H depth (skip t) with e | ⟨v, r⟩
  · rw [hscan] at h
    simp at h
  rw [hscan] at h
  dsimp only at h
  split_ifs at h with hend
  obtain rfl := Except.ok.inj h
  obtain ⟨d, t', ht, hobject⟩ := scanOnce_obj hH hscan
  obtain ⟨fs', hfs', hround, hsize⟩ := object_size (scanOnce_size hH d) hobject
  obtain rfl := Value.obj.inj (hH.object fs' _ hfs')
  have hskip := bytes_skip_le t
  have hbrace := bytes_lt_cons 123 t'
  rw [ht] at hskip
  exact ⟨hround, by omega, hfs'⟩

/-! ## A shortest text -/

theorem escapes_escape {c : ℕ} (h : c < 0x110000) : Escapes (escape c) c := by
  unfold escape
  rcases hshort : shortEscape c with _ | e
  · have hc : c ≠ 34 ∧ c ≠ 92 := by
      constructor <;> rintro rfl <;> simp [shortEscape] at hshort
    dsimp only
    split_ifs with hcontrol
    · exact escapes_hex (hex4_hexDigit (by omega))
    · exact escapes_self (by omega) hc.1 hc.2
  · obtain ⟨he, hu⟩ := unescape_shortEscape hshort
    exact escapes_short hu he

theorem quoted_escape {t : List ℕ} (h : ∀ c ∈ t, c < 0xD800 ∨ 0xE000 ≤ c ∧ c < 0x110000) :
    Quoted (t.flatMap escape) t := by
  refine quoted_flatMap (fun c hc => escapes_escape ?_) fun c hc hhigh => ?_
  · have := h c hc
    omega
  · have := h c hc
    rw [isHigh_iff] at hhigh
    omega

theorem Spells.scan {u r : List ℕ} {v : Value} (h : Spells u v) (hr : Breaks r)
    (obj arr : List ℕ → Except ε (Value × List ℕ)) : scanValue H obj arr (u ++ r) = .ok (v, r) := by
  obtain ⟨d, ds, hd, hu⟩ := h.starts
  have hdigit := isDigit_iff.mp hd
  have hread := h.reads r hr
  have hstart : u ++ r = d :: (ds ++ r) ∨ u ++ r = 45 :: d :: (ds ++ r) := by
    rcases hu with rfl | rfl <;> simp
  have hnone := words_none hd (u ++ r) hstart
  obtain ⟨c, t, hc, hne⟩ : ∃ c t, u ++ r = c :: t ∧ c ≠ 34 ∧ c ≠ 123 ∧ c ≠ 91 := by
    rcases hu with rfl | rfl
    · exact ⟨d, ds ++ r, rfl, by omega, by omega, by omega⟩
    · exact ⟨45, d :: ds ++ r, rfl, by decide⟩
  rw [hc] at hnone hread ⊢
  rw [scanValue, if_neg hne.1, if_neg hne.2.1, if_neg hne.2.2, hnone.1]
  dsimp only
  rw [hnone.2]
  exact lift_eq_ok.mpr hread

theorem Spells.starts_cons {u : List ℕ} {v : Value} (h : Spells u v) :
    ∃ c t, u = c :: t ∧ isSpace c = false ∧ c ≠ 93 := by
  obtain ⟨d, ds, hd, rfl | rfl⟩ := h.starts
  · have hdigit := isDigit_iff.mp hd
    refine ⟨d, ds, rfl, ?_, by omega⟩
    simp only [isSpace, Bool.or_eq_false_iff, beq_eq_false_iff_ne]
    omega
  · exact ⟨45, d :: ds, rfl, rfl, by decide⟩

theorem Spells.written {u : List ℕ} {v : Value} (h : Spells u v) (depth : ℕ) :
    JsonHooks.Written (scanOnce H depth) u v := by
  obtain ⟨c, t, hu, hc, -⟩ := h.starts_cons
  refine ⟨⟨c, t, hu, hc⟩, fun r hr => ?_⟩
  cases depth <;> exact h.scan (breaks_of_ends hr) _ _

theorem bytes_entryText (e : List ℕ × List ℕ) : bytes (entryText e) = 3 + bytes e.1 + bytes e.2 := by
  have hquote : bytes [34] = 1 := bytes_one (by decide)
  have hcolon : bytes [58] = 1 := bytes_one (by decide)
  rw [entryText, bytes_cons 34 (e.1 ++ _), bytes_append, bytes_cons 34 (58 :: _), bytes_cons 58 e.2,
    hquote, hcolon]
  omega

theorem bytes_entriesText : ∀ {es : List (List ℕ × List ℕ)}, es ≠ [] →
    bytes (entriesText es) + 1 = (es.map fun e => 4 + bytes e.1 + bytes e.2).sum
  | [e], _ => by
    simp only [entriesText, bytes_entryText, List.map_cons, List.map_nil, List.sum_cons, List.sum_nil]
    omega
  | e :: f :: es, _ => by
    have ih := bytes_entriesText (List.cons_ne_nil f es)
    rw [entriesText, bytes_append, bytes_cons, bytes_one (by decide), bytes_entryText, List.map_cons,
      List.sum_cons, ← ih]
    omega

/-- A value and one that is read for it: a float may stand there as an integer. -/
def SameNumber (v w : Value) : Prop := w = v ∨ ∃ x, v = .float x ∧ asFloat w = some x

/-- A text of the value that is as short as any. -/
structure Shortest (H : Hooks ε) (depth : ℕ) (v : Value) (x : List ℕ) (w : Value) : Prop where
  written : JsonHooks.Written (scanOnce H depth) x w
  same : SameNumber v w
  scalar : ∀ c ∈ x, c < 0xD800 ∨ 0xE000 ≤ c ∧ c < 0x110000
  bytes_le : bytes x ≤ size v

theorem scalar_escape {c : ℕ} (h : c < 0xD800 ∨ 0xE000 ≤ c ∧ c < 0x110000) :
    ∀ d ∈ escape c, d < 0xD800 ∨ 0xE000 ≤ d ∧ d < 0x110000 := by
  unfold escape
  rcases hshort : shortEscape c with _ | e
  · dsimp only
    split_ifs
    · intro d hd
      have := (ascii_escapeUnit c d hd).2
      omega
    · simpa using h
  · have he : Ascii (escapeChar c) := ascii_escapeChar c
    rw [escapeChar, hshort] at he
    intro d hd
    have := (he d hd).2
    omega

theorem scalar_flatMap_escape {t : List ℕ} (h : ∀ c ∈ t, c < 0xD800 ∨ 0xE000 ≤ c ∧ c < 0x110000) :
    ∀ d ∈ t.flatMap escape, d < 0xD800 ∨ 0xE000 ≤ d ∧ d < 0x110000 := by
  intro d hd
  obtain ⟨c, hc, hd⟩ := List.mem_flatMap.mp hd
  exact scalar_escape (h c hc) d hd

theorem shortest_str (depth : ℕ) {t : List ℕ} (h : ∀ c ∈ t, c < 0xD800 ∨ 0xE000 ≤ c ∧ c < 0x110000) :
    Shortest H depth (.str t) (quote t) (.str t) where
  written := written_str depth (quoted_escape h)
  same := .inl rfl
  scalar := by
    rw [quote, List.forall_mem_cons, List.forall_mem_append]
    exact ⟨by decide, scalar_flatMap_escape h, by simp⟩
  bytes_le := le_rfl

theorem Spells.shortest {u : List ℕ} {v w : Value} (h : Spells u w) (hv : SameNumber v w)
    (hsize : u.length ≤ size v) (depth : ℕ) : Shortest H depth v u w where
  written := h.written depth
  same := hv
  scalar c hc := .inl (by have := h.ascii c hc; omega)
  bytes_le := by rwa [bytes_ascii h.ascii]

theorem spells_decimal {n : ℕ} (h : (decimal n).length ≤ maxDigits) : Spells (decimal n) (.int n) := by
  have hread : scanNumber (decimal n ++ [44]) = .ok (.int n, [44]) := by
    refine scanNumber_dumpInt ?_ ⟨44, [], rfl, .inl rfl⟩
    rw [dumpInt, Int.natAbs_natCast, if_neg (by omega), if_neg (by omega)]
  obtain ⟨u, hu, hspells⟩ := scanNumber_split hread
  rwa [List.append_cancel_right hu]

theorem shortest_int (depth : ℕ) {n : ℕ} (h : (decimal n).length ≤ maxDigits) :
    Shortest H depth (.int n) (decimal n) (.int n) :=
  (spells_decimal h).shortest (.inl rfl) le_rfl depth

/-- A float that has a text has one of the least length. -/
theorem exists_shortest_float (depth : ℕ) {u : List ℕ} {v : Value} {x : Binary64} (h : Spells u v)
    (hx : asFloat v = some x) : ∃ t w, Shortest H depth (.float x) t w := by
  obtain ⟨t, w, ht, hw, hlength⟩ := Nat.sInf_mem
    (s := {n | ∃ u v, Spells u v ∧ asFloat v = some x ∧ u.length = n}) ⟨_, u, v, h, hx, rfl⟩
  exact ⟨t, w, ht.shortest (.inr ⟨x, rfl, hw⟩) hlength.le depth⟩

/-- Entries of such values, as short as any. -/
theorem exists_entries (depth : ℕ) : ∀ {fs : List (List ℕ × Value)},
    (∀ f ∈ fs, ∀ c ∈ f.1, c < 0xD800 ∨ 0xE000 ≤ c ∧ c < 0x110000) →
    (∀ f ∈ fs, ∃ t w, Shortest H depth f.2 t w) →
    ∃ es gs, List.Forall₂ (Stands (scanOnce H depth)) es gs ∧
      List.Forall₂ (fun f g => g.1 = f.1 ∧ SameNumber f.2 g.2) fs gs ∧
      (∀ c ∈ entriesText es, c < 0xD800 ∨ 0xE000 ≤ c ∧ c < 0x110000) ∧ es.length = fs.length ∧
      (es.map fun e => 4 + bytes e.1 + bytes e.2).sum ≤ (fs.map entrySize).sum + fs.length
  | [], _, _ => ⟨[], [], .nil, .nil, by simp [entriesText], rfl, le_rfl⟩
  | f :: fs, hkey, h => by
    obtain ⟨hf, hfs⟩ := List.forall_mem_cons.mp hkey
    obtain ⟨⟨t, w, hw⟩, hws⟩ := List.forall_mem_cons.mp h
    obtain ⟨es, gs, hstands, hsame, hscalar, hlength, hsum⟩ := exists_entries depth hfs hws
    refine ⟨(f.1.flatMap escape, t) :: es, (f.1, w) :: gs, .cons ⟨quoted_escape hf, hw.written⟩ hstands,
      .cons ⟨rfl, hw.same⟩ hsame, ?_, by rw [List.length_cons, List.length_cons, hlength], ?_⟩
    · have hentry : ∀ c ∈ entryText (f.1.flatMap escape, t),
          c < 0xD800 ∨ 0xE000 ≤ c ∧ c < 0x110000 := by
        rw [entryText, List.forall_mem_cons, List.forall_mem_append, List.forall_mem_cons,
          List.forall_mem_cons]
        exact ⟨by decide, scalar_flatMap_escape hf, by decide, by decide, hw.scalar⟩
      rcases es with _ | ⟨e, es⟩
      · exact hentry
      · rw [entriesText, List.forall_mem_append, List.forall_mem_cons]
        exact ⟨hentry, by decide, hscalar⟩
    · have := hw.bytes_le
      simp only [List.map_cons, List.sum_cons, List.length_cons, entrySize, bytes_quote] at hsum ⊢
      omega

/-- **An object of such values has a text that is as short as any.** -/
theorem exists_text (depth : ℕ) {fs : List (List ℕ × Value)} (hne : fs ≠ [])
    (hkey : ∀ f ∈ fs, ∀ c ∈ f.1, c < 0xD800 ∨ 0xE000 ≤ c ∧ c < 0x110000)
    (h : ∀ f ∈ fs, ∃ t w, Shortest H depth f.2 t w) :
    ∃ t gs, decode H (depth + 1) (123 :: t) = H.object gs ∧
      List.Forall₂ (fun f g => g.1 = f.1 ∧ SameNumber f.2 g.2) fs gs ∧
      (∀ c ∈ 123 :: t, c < 0xD800 ∨ 0xE000 ≤ c ∧ c < 0x110000) ∧
      bytes (123 :: t) ≤ objectSize fs := by
  obtain ⟨es, gs, hstands, hsame, hscalar, hlength, hsum⟩ := exists_entries depth hkey h
  have hpos := List.length_pos_iff.mpr hne
  have hes : es ≠ [] := List.length_pos_iff.mp (by omega)
  have hbytes := bytes_entriesText hes
  refine ⟨entriesText es ++ [125], gs, decode_entries hstands hes [] rfl, hsame, ?_, ?_⟩
  · rw [List.forall_mem_cons, List.forall_mem_append]
    exact ⟨by decide, hscalar, by simp⟩
  · rw [bytes_cons, bytes_append, bytes_one (by decide), bytes_one (by decide)]
    unfold objectSize
    omega

end IdenGrid.Lib.JsonSize
