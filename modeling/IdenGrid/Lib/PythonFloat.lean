import IdenGrid.Lib.FloatRepr
import IdenGrid.Lib.PythonInt

/-! # `float` of a text

`float(text)` takes white space around a numeral, a sign, decimal digits of every script with a point
among them, an exponent, single underscores between digits, and the words `inf`, `infinity` and `nan`
in letters of either case. It raises a `ValueError` for anything else; a value that is too large is an
infinity.

`parseFloat_number`: it takes the numbers of a JSON text for what they are there; `parseFloat_decimal`:
and a numeral for its float. -/

namespace IdenGrid.Lib.PythonFloat

open IdenGrid.Lib.Double IdenGrid.Lib.Unicode IdenGrid.Lib.Json IdenGrid.Lib.JsonDumps
open IdenGrid.Lib.JsonText IdenGrid.Lib.PythonInt IdenGrid.Lib.FloatRepr

/-- Every underscore stands between two digits. -/
def separated (t : List ℕ) : Bool :=
  ((0 :: t).zip (t ++ [0])).all fun p =>
    (p.2 != 95 || isDigit p.1) && (p.1 != 95 || isDigit p.2)

def strip (t : List ℕ) : List ℕ := (t.dropWhile isBlank).rdropWhile isBlank

def lower (c : ℕ) : ℕ := if 65 ≤ c ∧ c ≤ 90 then c + 32 else c

/-- Digits with a point before, among or after them, and an exponent. -/
def parseDecimal (negative : Bool) (t : List ℕ) : Option Binary64 :=
  let int := t.takeWhile isDigit
  let r := t.dropWhile isDigit
  let fraction := if r.head? = some 46 then r.tail.takeWhile isDigit else []
  let r := if r.head? = some 46 then r.tail.dropWhile isDigit else r
  let m : ℚ := signed negative (ofDecimal (int ++ fraction))
  if int ++ fraction = [] then none
  else if r = [] then some (ofRat (m * 10 ^ (-fraction.length : ℤ)))
  else
    match scanExponent r with
    | some (e, []) => some (ofRat (m * 10 ^ (e - fraction.length)))
    | _ => none

/-- What stands after a sign. -/
def parseMagnitude (negative : Bool) (t : List ℕ) : Option Binary64 :=
  if t.map lower = text "inf" ∨ t.map lower = text "infinity" then some (.inf negative)
  else if t.map lower = text "nan" then some .nan
  else parseDecimal negative t

/-- `float(text)`, `none` for a `ValueError`. -/
def parseFloat (U : PythonInt.Unicode) (t : List ℕ) : Option Binary64 :=
  let t := t.map (transform U)
  if separated t then
    let t := strip (t.filter (· != 95))
    if t.head? = some 45 then parseMagnitude true t.tail
    else if t.head? = some 43 then parseMagnitude false t.tail
    else parseMagnitude false t
  else none

/-- A number as a float. -/
def asFloat : Value → Option Binary64
  | .int n => some (ofRat n)
  | .float x => some x
  | _ => none

/-! ## What the scanner has read -/

theorem scanIntPart_eq_ok {t int r : List ℕ} (h : scanIntPart t = .ok (int, r)) :
    t = int ++ r ∧ (∀ c ∈ int, isDigit c = true) ∧ int ≠ [] := by
  rcases t with _ | ⟨c, t⟩
  · simp [scanIntPart] at h
  rw [scanIntPart] at h
  split_ifs at h with hzero hdigit
  · obtain ⟨rfl, rfl⟩ := Prod.mk.inj (Except.ok.inj h)
    exact ⟨by rw [hzero]; rfl, by simp [isDigit], List.cons_ne_nil _ _⟩
  · obtain ⟨rfl, rfl⟩ := Prod.mk.inj (Except.ok.inj h)
    refine ⟨by rw [List.cons_append, List.takeWhile_append_dropWhile], fun d hd => ?_,
      List.cons_ne_nil _ _⟩
    rcases List.mem_cons.mp hd with rfl | hd
    · exact hdigit
    · exact List.mem_takeWhile_imp hd

theorem scanFraction_eq_some {t fraction r : List ℕ} (h : scanFraction t = some (fraction, r)) :
    t.head? = some 46 ∧ t.tail.takeWhile isDigit = fraction ∧ t.tail.dropWhile isDigit = r := by
  unfold scanFraction at h
  split at h
  · next d r' =>
    split_ifs at h with hd
    obtain ⟨rfl, rfl⟩ := Prod.mk.inj (Option.some.inj h)
    refine ⟨rfl, ?_, ?_⟩
    · rw [List.tail_cons, List.takeWhile_cons_of_pos hd]
    · rw [List.tail_cons, List.dropWhile_cons_of_pos hd]
  · exact absurd h (by simp)

theorem scanExponent_eq_some {t : List ℕ} {p : ℤ × List ℕ} (h : scanExponent t = some p) :
    ∃ c r, t = c :: r ∧ (c = 69 ∨ c = 101) := by
  rcases t with _ | ⟨c, t⟩
  · simp [scanExponent] at h
  rw [scanExponent] at h
  split_ifs at h with he
  · exact ⟨c, t, rfl, he⟩
  · exact ⟨c, t, rfl, he⟩

/-- **A number of a JSON text up to its end.** -/
theorem parseDecimal_scan {negative : Bool} {t : List ℕ} {v : Value}
    (h : scanMagnitude negative t = .ok (v, [])) : parseDecimal negative t = asFloat v := by
  unfold scanMagnitude at h
  rcases hint : scanIntPart t with e | ⟨int, r⟩
  · rw [hint] at h
    simp at h
  rw [hint] at h
  dsimp only at h
  obtain ⟨rfl, hdigits, hne⟩ := scanIntPart_eq_ok hint
  have hspan : (∀ c ∈ r.head?, isDigit c = false) →
      (int ++ r).takeWhile isDigit = int ∧ (int ++ r).dropWhile isDigit = r :=
    span_digits hdigits
  rcases hfraction : scanFraction r with _ | ⟨fraction, r'⟩
  · rw [hfraction] at h
    rcases hexponent : scanExponent r with _ | ⟨e, r'⟩
    · -- the number ends after its integer part
      simp only [hexponent, Option.map_none, Option.getD_none, Option.isNone_none, and_self,
        if_true] at h
      split_ifs at h
      obtain ⟨rfl, rfl⟩ := Prod.mk.inj (Except.ok.inj h)
      obtain ⟨htake, hdrop⟩ := hspan (by simp)
      have hpoint : ([] : List ℕ).head? ≠ some 46 := by simp
      rw [List.append_nil] at htake hdrop ⊢
      simp only [parseDecimal, htake, hdrop, if_neg hpoint, List.append_nil, if_neg hne, if_true,
        asFloat, List.length_nil]
      simp
    · simp only [hexponent, Option.map_none, Option.getD_none, Option.map_some, Option.getD_some,
        Option.isNone_none, Option.isNone_some, Bool.false_eq_true, and_false, if_false] at h
      obtain ⟨rfl, rfl⟩ := Prod.mk.inj (Except.ok.inj h)
      obtain ⟨c, r', rfl, hc⟩ := scanExponent_eq_some hexponent
      have hhead : isDigit c = false ∧ c ≠ 46 := by rcases hc with rfl | rfl <;> decide
      obtain ⟨htake, hdrop⟩ := hspan (by simpa using hhead.1)
      have hpoint : (c :: r').head? ≠ some 46 := fun h => hhead.2 (Option.some.inj h)
      simp only [parseDecimal, htake, hdrop, if_neg hpoint, List.append_nil, if_neg hne,
        if_neg (List.cons_ne_nil c r'), hexponent, asFloat, List.length_nil]
  · obtain ⟨hhead, hftake, hfdrop⟩ := scanFraction_eq_some hfraction
    obtain ⟨htake, hdrop⟩ := hspan (by rw [hhead]; simp [isDigit])
    have hfne : int ++ fraction ≠ [] := by simp [hne]
    rw [hfraction] at h
    rcases hexponent : scanExponent r' with _ | ⟨e, r''⟩
    · simp only [Option.map_some, Option.getD_some, hexponent, Option.map_none, Option.getD_none,
        Option.isNone_some, Bool.false_eq_true, false_and, if_false] at h
      obtain ⟨rfl, rfl⟩ := Prod.mk.inj (Except.ok.inj h)
      simp only [parseDecimal, htake, hdrop, if_pos hhead, hftake, hfdrop, if_neg hfne, if_true,
        asFloat, zero_sub]
    · simp only [Option.map_some, Option.getD_some, hexponent, Option.isNone_some,
        Bool.false_eq_true, false_and, if_false] at h
      obtain ⟨rfl, rfl⟩ := Prod.mk.inj (Except.ok.inj h)
      obtain ⟨c, r'', rfl, -⟩ := scanExponent_eq_some hexponent
      simp only [parseDecimal, htake, hdrop, if_pos hhead, hftake, hfdrop, if_neg hfne,
        if_neg (List.cons_ne_nil c r''), hexponent, asFloat]

/-! ## The characters of a number -/

section Numeric

variable {t : List ℕ} (h : ∀ c ∈ t, isNumeric c = true)

include h

theorem map_transform_numeric (U : PythonInt.Unicode) : t.map (transform U) = t := by
  refine (List.map_congr_left fun c hc => ?_).trans (List.map_id t)
  have := h c hc
  simp only [isNumeric, Bool.or_eq_true, decide_eq_true_eq, beq_iff_eq] at this
  exact if_pos (by omega)

theorem separated_numeric : separated t = true := by
  refine List.all_eq_true.mpr fun p hp => ?_
  have hne : ∀ c, c ∈ 0 :: t ∨ c ∈ t ++ [0] → (c != 95) = true := by
    intro c hc
    have hmem : c = 0 ∨ c ∈ t := by
      rcases hc with hc | hc
      · exact List.mem_cons.mp hc
      · simpa [or_comm] using hc
    rcases hmem with rfl | hmem
    · rfl
    · have := h c hmem
      simp only [isNumeric, Bool.or_eq_true, decide_eq_true_eq, beq_iff_eq] at this
      exact bne_iff_ne.mpr (by omega)
  obtain ⟨hleft, hright⟩ := List.of_mem_zip hp
  rw [hne p.1 (.inl hleft), hne p.2 (.inr hright)]
  rfl

theorem filter_numeric : t.filter (· != 95) = t := by
  refine List.filter_eq_self.mpr fun c hc => ?_
  have := h c hc
  simp only [isNumeric, Bool.or_eq_true, decide_eq_true_eq, beq_iff_eq] at this
  exact bne_iff_ne.mpr (by omega)

theorem strip_numeric : strip t = t := by
  have hblank : ∀ c ∈ t, ¬ isBlank c = true := by
    intro c hc hb
    have := h c hc
    simp only [isNumeric, Bool.or_eq_true, decide_eq_true_eq, beq_iff_eq] at this
    have := of_decide_eq_true hb
    omega
  have hdrop : t.dropWhile isBlank = t := by
    rcases t with _ | ⟨c, t⟩
    · rfl
    · exact List.dropWhile_cons_of_neg (hblank c List.mem_cons_self)
  rw [strip, hdrop, List.rdropWhile_eq_self_iff]
  exact fun hne => hblank _ (List.getLast_mem hne)

end Numeric

/-- A text of such characters that starts with a digit has no sign and is none of the words. -/
theorem parseFloat_numeric (U : PythonInt.Unicode) {t : List ℕ} (h : ∀ c ∈ t, isNumeric c = true)
    (hhead : ∃ c ∈ t.head?, isDigit c = true) : parseFloat U t = parseDecimal false t := by
  obtain ⟨c, hc, hdigit⟩ := hhead
  have hc48 := isDigit_iff.mp hdigit
  obtain ⟨r, rfl⟩ : ∃ r, t = c :: r := by
    rcases t with _ | ⟨d, r⟩
    · exact absurd hc (by simp)
    · exact ⟨r, by rw [Option.some.inj hc]⟩
  have hlower : lower c = c := if_neg (by omega)
  have hword : ∀ w : List ℕ, w.head?.all (57 < ·) = true → (c :: r).map lower ≠ w := by
    rintro w hlarge rfl
    have : 57 < c := by simpa [hlower] using hlarge
    omega
  have hinf := hword (text "inf") (by decide)
  have hinfinity := hword (text "infinity") (by decide)
  have hnan := hword (text "nan") (by decide)
  simp only [parseFloat, map_transform_numeric h U, separated_numeric h, if_true, filter_numeric h,
    strip_numeric h, List.head?_cons, Option.some.injEq, if_neg (show ¬ c = 45 by omega),
    if_neg (show ¬ c = 43 by omega)]
  rw [parseMagnitude, if_neg (by simp only [hinf, hinfinity, or_self, not_false_iff]), if_neg hnan]

/-- **Numbers**: `float` takes the text of a number for the number. -/
theorem parseFloat_number (U : PythonInt.Unicode) {t : List ℕ} {v : Value}
    (h : ∀ c ∈ t, isNumeric c = true) (hhead : ∃ c ∈ t.head?, isDigit c = true)
    (hscan : scanMagnitude false t = .ok (v, [])) : parseFloat U t = asFloat v :=
  (parseFloat_numeric U h hhead).trans (parseDecimal_scan hscan)

/-- **Numerals**: `float` reads the numeral of a number as its float. -/
theorem parseFloat_decimal (U : PythonInt.Unicode) (n : ℕ) :
    parseFloat U (decimal n) = some (ofRat n) := by
  obtain ⟨d, ds, hd, -⟩ := decimal_eq_cons n
  have hdigits : ∀ c ∈ decimal n, isDigit c = true := fun c hc => isDigit_decimal hc
  have hne : decimal n ≠ [] := by rw [hd]; exact List.cons_ne_nil d ds
  have hhead : ∃ c ∈ (decimal n).head?, isDigit c = true :=
    ⟨d, by rw [hd]; rfl, hdigits d (by rw [hd]; exact List.mem_cons_self)⟩
  rw [parseFloat_numeric U (fun c hc => isNumeric_of_digit (hdigits c hc)) hhead, parseDecimal,
    List.takeWhile_eq_self_iff.mpr hdigits, List.dropWhile_eq_nil_iff.mpr hdigits]
  simp [hne, signed, ofDecimal_decimal]

end IdenGrid.Lib.PythonFloat
