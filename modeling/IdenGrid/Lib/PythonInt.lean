import Mathlib.Data.List.DropRight
import Mathlib.Data.List.TakeWhile
import IdenGrid.Lib.JsonDumps

/-! # `int` of a text

`int(text)` takes white space around a numeral, a sign, the decimal digits of every script and single
underscores between digits, and it raises a `ValueError` for anything else and for more than
`maxDigits` digits. What is white space and what is a digit beyond ASCII is a parameter.

`parseInt_decimal`: the numeral of a number is read as that number, unless it is too long. -/

namespace IdenGrid.Lib.PythonInt

open IdenGrid.Lib.Json IdenGrid.Lib.JsonDumps

/-- The characters beyond ASCII: the white space, and the digits with their values. -/
structure Unicode where
  space : ℕ → Bool
  digit : ℕ → Option (Fin 10)

/-- No white space and no digits beyond ASCII. -/
def Unicode.ascii : Unicode where
  space _ := false
  digit _ := none

/-- A character as the ASCII parser sees it; a question mark stands for what it does not take. -/
def transform (U : Unicode) (c : ℕ) : ℕ :=
  if c < 127 then c else if U.space c then 32 else (U.digit c).elim 63 fun d => d + 48

/-- The white space of C. -/
def isBlank (c : ℕ) : Bool := decide (c = 32 ∨ 9 ≤ c ∧ c ≤ 13)

/-- The characters of a run of digits. -/
def inRun (c : ℕ) : Bool := isDigit c || c == 95

/-- The underscores of a run stand between digits. -/
def wellSeparated (run : List ℕ) : Bool :=
  run.head?.any isDigit && run.getLast?.any isDigit &&
    (run.zip run.tail).all fun p => isDigit p.1 || isDigit p.2

/-- What stands after white space and a sign: a run of digits, and white space to the end. -/
def parseMagnitude (t : List ℕ) : Option ℕ :=
  let run := t.takeWhile inRun
  if wellSeparated run ∧ (t.dropWhile inRun).all isBlank ∧
      (run.filter isDigit).length ≤ maxDigits then
    some (ofDecimal (run.filter isDigit))
  else none

/-- `int(text)`, `none` for a `ValueError`. -/
def parseInt (U : Unicode) (text : List ℕ) : Option ℤ :=
  let t := (text.map (transform U)).dropWhile isBlank
  if t.head? = some 45 then (parseMagnitude t.tail).map (signed true)
  else if t.head? = some 43 then (parseMagnitude t.tail).map (signed false)
  else (parseMagnitude t).map (signed false)

theorem wellSeparated_digits {run : List ℕ} (hne : run ≠ []) (h : ∀ c ∈ run, isDigit c = true) :
    wellSeparated run = true := by
  obtain ⟨c, t, rfl⟩ := List.exists_cons_of_ne_nil hne
  have hlast := h _ (List.getLast_mem hne)
  have hpairs : ∀ p ∈ (c :: t).zip (c :: t).tail, (isDigit p.1 || isDigit p.2) = true := by
    intro p hp
    rw [h p.1 (List.of_mem_zip hp).1, Bool.true_or]
  rw [wellSeparated, List.getLast?_eq_some_getLast hne, List.head?_cons, Option.any_some,
    Option.any_some, h c List.mem_cons_self, hlast, List.all_eq_true.mpr hpairs]
  rfl

theorem parseMagnitude_digits {run : List ℕ} (hne : run ≠ []) (h : ∀ c ∈ run, isDigit c = true) :
    parseMagnitude run = if run.length ≤ maxDigits then some (ofDecimal run) else none := by
  have hrun : ∀ c ∈ run, inRun c = true := fun c hc => by rw [inRun, h c hc, Bool.true_or]
  rw [parseMagnitude, List.takeWhile_eq_self_iff.mpr hrun, List.dropWhile_eq_nil_iff.mpr hrun,
    List.filter_eq_self.mpr h, wellSeparated_digits hne h]
  simp

/-- **Numerals**: `int` reads the numeral of a number back, up to `maxDigits` digits. -/
theorem parseInt_decimal (U : Unicode) (n : ℕ) :
    parseInt U (decimal n) = if (decimal n).length ≤ maxDigits then some (n : ℤ) else none := by
  obtain ⟨d, ds, hd, -⟩ := decimal_eq_cons n
  have hdigits : ∀ c ∈ decimal n, isDigit c = true := fun c hc => isDigit_decimal hc
  have hsame : (decimal n).map (transform U) = decimal n := by
    refine List.map_congr_left (fun c hc => ?_) |>.trans (List.map_id _)
    have := isDigit_iff.mp (hdigits c hc)
    exact if_pos (by omega)
  have hd48 := isDigit_iff.mp (hdigits d (by rw [hd]; exact List.mem_cons_self))
  have hblank : isBlank d = false := decide_eq_false (by omega)
  have hstart : (decimal n).dropWhile isBlank = decimal n := by
    rw [hd, List.dropWhile_cons_of_neg (by simp [hblank])]
  have hhead : (decimal n).head? = some d := by rw [hd]; rfl
  have hne : decimal n ≠ [] := by rw [hd]; exact List.cons_ne_nil d ds
  rw [parseInt, hsame, hstart, hhead, if_neg (by simp; omega), if_neg (by simp; omega),
    parseMagnitude_digits hne hdigits, ofDecimal_decimal]
  split_ifs <;> rfl

/-! ## White space at the ends of a text -/

/-- `str.isspace` of a character. -/
def isWhite (U : Unicode) (c : ℕ) : Bool :=
  decide (9 ≤ c ∧ c ≤ 13 ∨ 28 ≤ c ∧ c ≤ 32) || decide (127 < c) && U.space c

/-- `str.strip` -/
def strip (U : Unicode) (t : List ℕ) : List ℕ := (t.dropWhile (isWhite U)).rdropWhile (isWhite U)

/-- A text that ends in a character that is no white space loses what stands behind it. -/
theorem strip_append (U : Unicode) {t sp : List ℕ} (hhead : ∀ c ∈ t.head?, isWhite U c = false)
    (hlast : ∀ c ∈ t.getLast?, isWhite U c = false) (hne : t ≠ [])
    (hsp : ∀ c ∈ sp, isWhite U c = true) : strip U (t ++ sp) = t := by
  obtain ⟨c, r, rfl⟩ := List.exists_cons_of_ne_nil hne
  have hc : ¬ isWhite U c = true := Bool.eq_false_iff.mp (hhead c rfl)
  rw [strip, List.cons_append, List.dropWhile_cons_of_neg hc, ← List.cons_append,
    List.rdropWhile, List.reverse_append, List.dropWhile_append_of_pos fun d hd => hsp d (List.mem_reverse.mp hd)]
  obtain ⟨l, d, hd⟩ := List.eq_nil_or_concat (c :: r) |>.resolve_left hne
  rw [hd] at hlast ⊢
  have hd' : ¬ isWhite U d = true := Bool.eq_false_iff.mp (hlast d (by simp))
  rw [List.concat_eq_append, List.reverse_append, List.reverse_singleton, List.singleton_append,
    List.dropWhile_cons_of_neg hd']
  simp

end IdenGrid.Lib.PythonInt
