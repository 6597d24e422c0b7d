import Mathlib.Algebra.Order.Field.Rat
import Mathlib.Data.List.DropRight
import Mathlib.Tactic.Positivity
import IdenGrid.Lib.JsonText

/-! # The text of a float

`repr` writes a finite float with the fewest decimal digits that are read back as that float, as
`float.__repr__` does: of the numerals with that many digits the nearest one, in positional notation
from `1e-4` up to `1e16` and in scientific notation beyond.

`scanMagnitude_reprMagnitude`: the JSON scanner reads the text back. `repr_injective`: floats can be
told from their texts, the two zeros as well. -/

namespace IdenGrid.Lib.FloatRepr

open IdenGrid.Lib.Double IdenGrid.Lib.Unicode IdenGrid.Lib.Json IdenGrid.Lib.JsonDumps
open IdenGrid.Lib.JsonText

/-- A finite float: its sign and its absolute value, a value of the format. -/
@[ext]
structure Float64 where
  negative : Bool
  magnitude : ℚ
  nonneg : 0 ≤ magnitude
  rounded : ofRat magnitude = .finite magnitude
  dyadic : magnitude.den ∣ 2 ^ 1074
  deriving DecidableEq

/-- A decimal numeral: digits, and the power of ten they count. -/
structure Numeral where
  digits : ℕ
  exponent : ℤ
  deriving DecidableEq, Repr

def Numeral.value (d : Numeral) : ℚ := d.digits * 10 ^ d.exponent

/-- The two neighbours with `n + 1` digits, the nearer one first. -/
def neighbours (q : ℚ) (n : ℕ) : List Numeral :=
  let exponent := Int.log 10 q - n
  let scaled := q / 10 ^ exponent
  let below : Numeral := ⟨⌊scaled⌋.toNat, exponent⟩
  let above : Numeral := ⟨⌊scaled⌋.toNat + 1, exponent⟩
  if roundEven scaled = ⌊scaled⌋ then [below, above] else [above, below]

/-- A numeral for the value itself. -/
def exact (q : ℚ) : Numeral := ⟨(q * 10 ^ 1074).num.toNat, -1074⟩

/-- The shortest numeral that is read as this value; seventeen digits are always enough. -/
def shortest (q : ℚ) : Numeral :=
  (((List.range 17).flatMap (neighbours q)).find? fun d => ofRat d.value = .finite q).getD (exact q)

/-- Scientific notation: one digit before the point, a sign and two digits at least after the `e`. -/
def scientific (ds : List ℕ) (exponent : ℤ) : List ℕ :=
  ds.take 1 ++ ((if ds.length ≤ 1 then [] else 46 :: ds.drop 1) ++
    101 :: (if exponent < 0 then 45 else 43) ::
      (if exponent.natAbs < 10 then 48 :: decimal exponent.natAbs else decimal exponent.natAbs))

/-- These digits, with the point after the first `point` of them. -/
def layout (ds : List ℕ) (point : ℤ) : List ℕ :=
  if -4 < point ∧ point ≤ 16 then
    if point ≤ 0 then 48 :: 46 :: (List.replicate (-point).toNat 48 ++ ds)
    else if point.toNat < ds.length then ds.take point.toNat ++ 46 :: ds.drop point.toNat
    else ds ++ (List.replicate (point.toNat - ds.length) 48 ++ [46, 48])
  else scientific ds (point - 1)

/-- The digits without the zeros at the end. -/
def significant (ds : List ℕ) : List ℕ := ds.rdropWhile (· == 48)

def reprMagnitude (q : ℚ) : List ℕ :=
  if q = 0 then [48, 46, 48]
  else
    let d := shortest q
    layout (significant (decimal d.digits)) ((decimal d.digits).length + d.exponent)

/-- `float.__repr__` of a finite float. -/
def repr (x : Float64) : List ℕ :=
  if x.negative then 45 :: reprMagnitude x.magnitude else reprMagnitude x.magnitude

/-! ## The value of the numeral -/

theorem mul_pow_ten_eq_num {q : ℚ} (h : 0 ≤ q) {k : ℕ} (hd : q.den ∣ 2 ^ k) :
    ((q * 10 ^ k).num.toNat : ℚ) = q * 10 ^ k := by
  obtain ⟨m, hm⟩ := hd
  have hint : q * 10 ^ k = ((q.num * m * 5 ^ k : ℤ) : ℚ) := by
    have h10 : (10 : ℚ) ^ k = q.den * m * 5 ^ k := by
      rw [show (10 : ℚ) = 2 * 5 by norm_num, mul_pow]
      exact_mod_cast congrArg (fun n : ℕ => n * 5 ^ k) hm
    rw [h10, ← mul_assoc, ← mul_assoc, Rat.mul_den_eq_num]
    push_cast
    rfl
  have hnonneg : 0 ≤ q.num * m * 5 ^ k := by
    have := Rat.num_nonneg.mpr h
    positivity
  rw [hint, Rat.num_intCast]
  exact_mod_cast Int.toNat_of_nonneg hnonneg

theorem exact_value {q : ℚ} (h : 0 ≤ q) (hd : q.den ∣ 2 ^ 1074) : (exact q).value = q := by
  have hne : (10 : ℚ) ^ 1074 ≠ 0 := pow_ne_zero _ (by norm_num)
  have hexp : (10 : ℚ) ^ (-1074 : ℤ) = (10 ^ 1074)⁻¹ := zpow_neg_coe_of_pos 10 (by norm_num)
  show ((q * 10 ^ 1074).num.toNat : ℚ) * 10 ^ (-1074 : ℤ) = q
  rw [mul_pow_ten_eq_num h hd, hexp, mul_inv_cancel_right₀ hne]

/-- **The numeral is read as the value it stands for.** -/
theorem ofRat_shortest {q : ℚ} (h : 0 ≤ q) (hr : ofRat q = .finite q) (hd : q.den ∣ 2 ^ 1074) :
    ofRat (shortest q).value = .finite q := by
  unfold shortest
  generalize hfind : ((List.range 17).flatMap (neighbours q)).find?
    (fun d => ofRat d.value = .finite q) = found
  rcases found with _ | d
  · rw [Option.getD_none, exact_value h hd, hr]
  · have hd := List.find?_some hfind
    exact of_decide_eq_true hd

/-! ## Digits -/

theorem ofDecimal_append (a b : List ℕ) :
    ofDecimal (a ++ b) = ofDecimal a * 10 ^ b.length + ofDecimal b := by
  rw [ofDecimal, ofDecimal, ofDecimal, List.reverse_append, List.map_append, Nat.ofDigits_append,
    List.length_map, List.length_reverse]
  ring

theorem ofDecimal_zeros (k : ℕ) : ofDecimal (List.replicate k 48) = 0 := by
  induction k with
  | zero => rfl
  | succ k ih =>
    rw [List.replicate_succ', ofDecimal_append, ih]
    rfl

/-- Decimal digits that do not start with a zero. -/
structure Digits (ds : List ℕ) : Prop where
  digit : ∀ c ∈ ds, isDigit c = true
  head : ds.head? ≠ some 48
  ne_nil : ds ≠ []

/-- Nothing of a number follows. -/
def Breaks (r : List ℕ) : Prop := ∀ c ∈ r.head?, isDigit c = false ∧ c ≠ 46 ∧ c ≠ 69 ∧ c ≠ 101

theorem breaks_of_ends {r : List ℕ} (h : Ends r) : Breaks r := by
  obtain ⟨c, t, rfl, rfl | rfl⟩ := h
  · rintro c hc
    obtain rfl := Option.some.inj hc
    decide
  · rintro c hc
    obtain rfl := Option.some.inj hc
    decide

/-- A run of digits is as long as it can be. -/
theorem span_digits {ds r : List ℕ} (h : ∀ c ∈ ds, isDigit c = true)
    (hr : ∀ c ∈ r.head?, isDigit c = false) :
    (ds ++ r).takeWhile isDigit = ds ∧ (ds ++ r).dropWhile isDigit = r := by
  rw [List.takeWhile_append_of_pos h, List.dropWhile_append_of_pos h]
  rcases r with _ | ⟨c, r⟩
  · exact ⟨List.append_nil _, rfl⟩
  · have hc := hr c rfl
    rw [List.takeWhile_cons_of_neg (by simp [hc]), List.dropWhile_cons_of_neg (by simp [hc])]
    exact ⟨List.append_nil _, rfl⟩

theorem scanIntPart_digits {ds r : List ℕ} (h : Digits ds)
    (hr : ∀ c ∈ r.head?, isDigit c = false) : scanIntPart (ds ++ r) = .ok (ds, r) := by
  obtain ⟨c, t, rfl⟩ := List.exists_cons_of_ne_nil h.ne_nil
  have hc : c ≠ 48 := fun hc => h.head (by rw [hc]; rfl)
  obtain ⟨htake, hdrop⟩ := span_digits (fun d hd => h.digit d (List.mem_cons_of_mem c hd)) hr
  rw [List.cons_append, scanIntPart, if_neg hc, if_pos (h.digit c List.mem_cons_self), htake, hdrop]

theorem scanFraction_digits {ds r : List ℕ} (hne : ds ≠ []) (h : ∀ c ∈ ds, isDigit c = true)
    (hr : ∀ c ∈ r.head?, isDigit c = false) : scanFraction (46 :: (ds ++ r)) = some (ds, r) := by
  obtain ⟨c, t, rfl⟩ := List.exists_cons_of_ne_nil hne
  obtain ⟨htake, hdrop⟩ := span_digits (fun d hd => h d (List.mem_cons_of_mem c hd)) hr
  rw [List.cons_append, scanFraction, if_pos (h c List.mem_cons_self), htake, hdrop]

theorem scanFraction_none {r : List ℕ} (h : ∀ c ∈ r.head?, c ≠ 46) : scanFraction r = none := by
  rcases r with _ | ⟨c, r⟩
  · rfl
  · have hc := h c rfl
    unfold scanFraction
    split
    · next heq => exact absurd (List.cons.inj heq).1 hc
    · rfl

theorem scanExponent_none {r : List ℕ} (h : Breaks r) : scanExponent r = none := by
  rcases r with _ | ⟨c, r⟩
  · rfl
  · have hc := h c rfl
    rw [scanExponent, if_neg (by omega)]

/-- An exponent with its sign. -/
theorem scanExponent_digits {sign : ℕ} {ds r : List ℕ} (hsign : sign = 43 ∨ sign = 45)
    (hne : ds ≠ []) (h : ∀ c ∈ ds, isDigit c = true) (hr : ∀ c ∈ r.head?, isDigit c = false) :
    scanExponent (101 :: sign :: (ds ++ r)) =
      some (if sign = 45 then -(ofDecimal ds : ℤ) else ofDecimal ds, r) := by
  obtain ⟨htake, hdrop⟩ := span_digits h hr
  have hempty : ds.isEmpty = false := by simpa using hne
  rcases hsign with rfl | rfl
  · simp [scanExponent, htake, hdrop, hempty]
  · simp [scanExponent, htake, hdrop, hempty]

/-- A number with a fraction or an exponent is a float. -/
theorem scanMagnitude_float (negative : Bool) {t int t' : List ℕ}
    (fraction : Option (List ℕ × List ℕ)) (exponent : Option (ℤ × List ℕ)) (hint : scanIntPart t = .ok (int, t'))
    (hfraction : scanFraction t' = fraction)
    (hexponent : scanExponent ((fraction.map Prod.snd).getD t') = exponent)
    (hfloat : fraction.isSome = true ∨ exponent.isSome = true) :
    scanMagnitude negative t = .ok (.float (ofRat
      ((signed negative (ofDecimal (int ++ (fraction.map Prod.fst).getD [])) : ℚ) *
        10 ^ ((exponent.map Prod.fst).getD 0 - ((fraction.map Prod.fst).getD []).length : ℤ))),
      (exponent.map Prod.snd).getD ((fraction.map Prod.snd).getD t')) := by
  have hsome : ¬ ((fraction.map Prod.fst).isNone = true ∧ (exponent.map Prod.fst).isNone = true) := by
    rintro ⟨hf, he⟩
    rw [Option.isNone_map, Option.isNone_iff_eq_none] at hf he
    rw [hf, he] at hfloat
    simp at hfloat
  rw [scanMagnitude, hint]
  dsimp only
  rw [hfraction, hexponent, if_neg hsome]

/-! ## Reading the text -/

theorem signed_mul (negative : Bool) (m n : ℕ) :
    (signed negative (m * n) : ℚ) = (signed negative m : ℚ) * (n : ℚ) := by
  cases negative
  · simp [signed]
  · simp [signed]

theorem breaks_digit {r : List ℕ} (hr : Breaks r) : ∀ c ∈ r.head?, isDigit c = false :=
  fun c hc => (hr c hc).1

theorem digits_exponent (n : ℕ) :
    (if n < 10 then 48 :: decimal n else decimal n) ≠ [] ∧
    (∀ c ∈ if n < 10 then 48 :: decimal n else decimal n, isDigit c = true) ∧
    ofDecimal (if n < 10 then 48 :: decimal n else decimal n) = n := by
  obtain ⟨d, ds, hd, -⟩ := decimal_eq_cons n
  by_cases hn : n < 10
  · rw [if_pos hn]
    refine ⟨List.cons_ne_nil _ _, fun c hc => ?_, ?_⟩
    · rcases List.mem_cons.mp hc with rfl | hc
      · rfl
      · exact isDigit_decimal hc
    · have happ := ofDecimal_append [48] (decimal n)
      rw [List.singleton_append] at happ
      rw [happ, ofDecimal_decimal]
      show 0 * _ + n = n
      omega
  · rw [if_neg hn]
    exact ⟨by rw [hd]; exact List.cons_ne_nil _ _, fun c hc => isDigit_decimal hc, ofDecimal_decimal n⟩

theorem scanMagnitude_scientific (negative : Bool) {ds r : List ℕ} (exponent : ℤ) (h : Digits ds)
    (hr : Breaks r) :
    scanMagnitude negative (scientific ds exponent ++ r) =
      .ok (.float (ofRat ((signed negative (ofDecimal ds) : ℚ) *
        10 ^ (exponent + 1 - ds.length : ℤ))), r) := by
  obtain ⟨hne, hdigit, hvalue⟩ := digits_exponent exponent.natAbs
  have hexp : ∀ r, Breaks r → scanExponent (101 :: (if exponent < 0 then 45 else 43) ::
      ((if exponent.natAbs < 10 then 48 :: decimal exponent.natAbs
        else decimal exponent.natAbs) ++ r)) = some (exponent, r) := by
    intro r hr
    rw [scanExponent_digits (by split_ifs <;> simp) hne hdigit (breaks_digit hr), hvalue]
    congr 2
    split_ifs <;> omega
  obtain ⟨c, t, rfl⟩ := List.exists_cons_of_ne_nil h.ne_nil
  have hint : ∀ u, (∀ c ∈ u.head?, isDigit c = false) →
      scanIntPart (c :: u) = .ok ([c], u) := fun u hu => by
    have hc : Digits [c] := ⟨fun d hd => h.digit d (by simp_all), h.head, List.cons_ne_nil _ _⟩
    exact scanIntPart_digits hc hu
  rcases t with _ | ⟨d, t⟩
  · have hread := scanMagnitude_float negative none (some (exponent, r)) (hint _ (by simp; rfl)) (scanFraction_none (by simp))
      (hexp r hr) (.inr rfl)
    simpa [scientific] using hread
  · have hread := scanMagnitude_float negative (some (d :: t, _)) (some (exponent, r))
      (hint _ (by simp; rfl))
      (scanFraction_digits (List.cons_ne_nil d t)
        (fun e he => h.digit e (List.mem_cons_of_mem c he)) (by simp; rfl)) (hexp r hr) (.inr rfl)
    have hlen : exponent + 1 - ((c :: d :: t).length : ℤ) = exponent - ((d :: t).length : ℤ) := by
      simp only [List.length_cons]
      push_cast
      ring
    rw [hlen]
    simpa [scientific] using hread

/-- A number with a fraction and without an exponent. -/
theorem scanMagnitude_point (negative : Bool) (int fraction : List ℕ) {r : List ℕ}
    (hint : scanIntPart (int ++ 46 :: (fraction ++ r)) = .ok (int, 46 :: (fraction ++ r)))
    (hne : fraction ≠ []) (h : ∀ c ∈ fraction, isDigit c = true) (hr : Breaks r) :
    scanMagnitude negative (int ++ 46 :: (fraction ++ r)) =
      .ok (.float (ofRat ((signed negative (ofDecimal (int ++ fraction)) : ℚ) *
        10 ^ (-fraction.length : ℤ))), r) := by
  have hread := scanMagnitude_float negative (some (fraction, r)) none hint (scanFraction_digits hne h (breaks_digit hr)) (scanExponent_none hr)
    (.inl rfl)
  simpa using hread

theorem scanMagnitude_layout {negative : Bool} {ds r : List ℕ} {point : ℤ} (h : Digits ds)
    (hr : Breaks r) :
    scanMagnitude negative (layout ds point ++ r) =
      .ok (.float (ofRat ((signed negative (ofDecimal ds) : ℚ) * 10 ^ (point - ds.length : ℤ))),
        r) := by
  have hzeros : ∀ k, ∀ c ∈ List.replicate k 48, isDigit c = true := fun k c hc => by
    rw [List.eq_of_mem_replicate hc]
    rfl
  unfold layout
  split_ifs with hrange hsmall hinside
  · -- the point stands before the digits
    have hdigits : ∀ c ∈ List.replicate (-point).toNat 48 ++ ds, isDigit c = true := fun c hc =>
      (List.mem_append.mp hc).elim (hzeros _ c) (h.digit c)
    have hread := scanMagnitude_point negative [48] (List.replicate (-point).toNat 48 ++ ds) (r := r) (by rfl)
      (by simp [h.ne_nil]) hdigits hr
    have hvalue : ofDecimal ([48] ++ (List.replicate (-point).toNat 48 ++ ds)) = ofDecimal ds := by
      rw [← List.append_assoc, ofDecimal_append, ofDecimal_append, ofDecimal_zeros]
      show (0 * _ + 0) * _ + ofDecimal ds = ofDecimal ds
      omega
    have hexp : (-((List.replicate (-point).toNat 48 ++ ds).length : ℤ)) = point - ds.length := by
      rw [List.length_append, List.length_replicate]
      push_cast
      omega
    rw [hvalue, hexp] at hread
    simpa using hread
  · -- the point stands between the digits
    have hpoint : (point.toNat : ℤ) = point := Int.toNat_of_nonneg (by omega)
    have hsplit := List.take_append_drop point.toNat ds
    have htake : Digits (ds.take point.toNat) := by
      refine ⟨fun c hc => h.digit c (List.mem_of_mem_take hc), ?_, ?_⟩
      · rw [List.head?_take, if_neg (by omega)]
        exact h.head
      · simp only [ne_eq, List.take_eq_nil_iff, not_or]
        exact ⟨by omega, h.ne_nil⟩
    have hread := scanMagnitude_point negative (ds.take point.toNat) (ds.drop point.toNat) (r := r)
      (scanIntPart_digits htake (by simp; rfl))
      (by simpa using hinside) (fun c hc => h.digit c (List.mem_of_mem_drop hc)) hr
    rw [hsplit, List.length_drop] at hread
    have hexp : (-((ds.length - point.toNat : ℕ) : ℤ)) = point - ds.length := by omega
    rw [hexp] at hread
    simpa using hread
  · -- the point stands after the digits
    have hpoint : (point.toNat : ℤ) = point := Int.toNat_of_nonneg (by omega)
    have hlong : Digits (ds ++ List.replicate (point.toNat - ds.length) 48) := by
      refine ⟨fun c hc => (List.mem_append.mp hc).elim (h.digit c) (hzeros _ c), ?_, by simp [h.ne_nil]⟩
      rw [List.head?_append_of_ne_nil _ h.ne_nil]
      exact h.head
    have hread := scanMagnitude_point negative (ds ++ List.replicate (point.toNat - ds.length) 48) [48]
      (r := r) (scanIntPart_digits hlong (by simp; rfl)) (List.cons_ne_nil _ _) (hzeros 1) hr
    have hvalue : ofDecimal (ds ++ List.replicate (point.toNat - ds.length) 48 ++ [48]) =
        ofDecimal ds * 10 ^ (point.toNat - ds.length + 1) := by
      rw [ofDecimal_append, ofDecimal_append, ofDecimal_zeros, List.length_replicate]
      show (ofDecimal ds * _ + 0) * 10 ^ 1 + 0 = _
      ring
    have hexp : ((10 ^ (point.toNat - ds.length + 1) : ℕ) : ℚ) * 10 ^ (-(([48] : List ℕ).length : ℤ)) =
        10 ^ (point - ds.length : ℤ) := by
      rw [Nat.cast_pow, Nat.cast_ofNat, ← zpow_natCast, ← zpow_add₀ (by norm_num)]
      congr 1
      simp only [List.length_singleton]
      push_cast
      omega
    rw [hvalue, signed_mul, mul_assoc, hexp] at hread
    simpa using hread
  · have hread := scanMagnitude_scientific negative (point - 1) h hr
    rw [sub_add_cancel] at hread
    exact hread

/-! ## The round trip -/

theorem significant_append (ds : List ℕ) :
    ∃ k, ds = significant ds ++ List.replicate k 48 ∧ ds.length = (significant ds).length + k := by
  obtain ⟨t, ht⟩ : ∃ t, ds = significant ds ++ t ∧ ∀ c ∈ t, c = 48 := by
    refine ⟨ds.rtakeWhile (· == 48), (List.rdropWhile_append_rtakeWhile ..).symm, fun c hc => ?_⟩
    simpa using List.mem_rtakeWhile_imp hc
  have hk : t = List.replicate t.length 48 := List.eq_replicate_of_mem ht.2
  refine ⟨t.length, ?_, ?_⟩
  · rw [← hk]
    exact ht.1
  · conv_lhs => rw [ht.1]
    exact List.length_append

theorem digits_significant {n : ℕ} (h : n ≠ 0) : Digits (significant (decimal n)) := by
  obtain ⟨k, hk, -⟩ := significant_append (decimal n)
  have hvalue := ofDecimal_decimal n
  obtain ⟨d, ds, hd, hzero⟩ := decimal_eq_cons n
  have hne : significant (decimal n) ≠ [] := fun hnil => by
    rw [hnil, List.nil_append] at hk
    rw [hk, ofDecimal_zeros] at hvalue
    exact h hvalue.symm
  refine ⟨fun c hc => isDigit_decimal (n := n) (by rw [hk]; exact List.mem_append_left _ hc),
    fun hhead => ?_, hne⟩
  have h48 : d = 48 := by
    have hcons : (decimal n).head? = some 48 := by
      rw [hk, List.head?_append_of_ne_nil _ hne]
      exact hhead
    rw [hd] at hcons
    exact Option.some.inj hcons
  rw [hd, h48, hzero h48] at hvalue
  exact h hvalue.symm

theorem shortest_digits_ne_zero {q : ℚ} (hr : ofRat q = .finite q) (h : 0 ≤ q)
    (hd : q.den ∣ 2 ^ 1074) (hq : q ≠ 0) : (shortest q).digits ≠ 0 := fun hzero => by
  have h0 : (shortest q).value = 0 := by
    rw [Numeral.value, hzero, Nat.cast_zero, zero_mul]
  have hvalue := ofRat_shortest h hr hd
  rw [h0, ofRat_zero] at hvalue
  exact hq (Binary64.finite.inj hvalue).symm

/-- **The text of a value is read as that value.** -/
theorem scanMagnitude_reprMagnitude {q : ℚ} {r : List ℕ} (h : 0 ≤ q) (hr : ofRat q = .finite q)
    (hd : q.den ∣ 2 ^ 1074) (hb : Breaks r) :
    scanMagnitude false (reprMagnitude q ++ r) = .ok (.float (.finite q), r) := by
  unfold reprMagnitude
  by_cases hq : q = 0
  · have hread := scanMagnitude_point false [48] [48] (r := r) (by rfl) (List.cons_ne_nil _ _) (by simp; rfl) hb
    have hvalue : ofDecimal ([48] ++ [48]) = 0 := rfl
    rw [hvalue] at hread
    rw [if_pos hq, hq]
    have hzero : ofRat 0 = .finite 0 := hq ▸ hr
    simpa [signed, hzero] using hread
  · rw [if_neg hq]
    have hvalue := ofRat_shortest h hr hd
    have hdigits := shortest_digits_ne_zero hr h hd hq
    dsimp only
    rw [scanMagnitude_layout (digits_significant hdigits) hb]
    obtain ⟨k, hk, hlength⟩ := significant_append (decimal (shortest q).digits)
    have hdecimal := ofDecimal_decimal (shortest q).digits
    rw [hk, ofDecimal_append, ofDecimal_zeros, List.length_replicate, add_zero] at hdecimal
    have hsame : ((signed false (ofDecimal (significant (decimal (shortest q).digits))) : ℤ) : ℚ) *
        10 ^ ((decimal (shortest q).digits).length + (shortest q).exponent -
          (significant (decimal (shortest q).digits)).length : ℤ) = (shortest q).value := by
      have hexp : ((decimal (shortest q).digits).length + (shortest q).exponent -
          (significant (decimal (shortest q).digits)).length : ℤ) = k + (shortest q).exponent := by
        rw [hlength]
        push_cast
        ring
      have hcast : ((shortest q).digits : ℚ) =
          ofDecimal (significant (decimal (shortest q).digits)) * 10 ^ k := by
        exact_mod_cast hdecimal.symm
      rw [hexp, zpow_add₀ (by norm_num), ← mul_assoc, Numeral.value, hcast]
      simp [signed]
    rw [hsame, hvalue]

theorem magnitude_inj {x y : Float64}
    (h : reprMagnitude x.magnitude = reprMagnitude y.magnitude) : x.magnitude = y.magnitude := by
  have hb : Breaks [] := fun c hc => by simp at hc
  have hx := scanMagnitude_reprMagnitude x.nonneg x.rounded x.dyadic hb
  have hy := scanMagnitude_reprMagnitude y.nonneg y.rounded y.dyadic hb
  rw [h, hy] at hx
  simpa using hx.symm

/-! ## What the text is made of -/

/-- The text of a value starts with a digit, and is no integer. -/
structure Written (t : List ℕ) : Prop where
  numeric : ∀ c ∈ t, isNumeric c = true
  point : 46 ∈ t ∨ 101 ∈ t
  head : ∃ c ∈ t.head?, isDigit c = true

theorem isNumeric_of_digit {c : ℕ} (h : isDigit c = true) : isNumeric c = true :=
  (isNumeric_of_int (.inl h)).1

theorem written_scientific {ds : List ℕ} {exponent : ℤ} (h : Digits ds) :
    Written (scientific ds exponent) := by
  obtain ⟨-, hdigit, -⟩ := digits_exponent exponent.natAbs
  obtain ⟨c, t, rfl⟩ := List.exists_cons_of_ne_nil h.ne_nil
  refine ⟨fun d hd => ?_, by simp [scientific], c, rfl, h.digit c List.mem_cons_self⟩
  simp only [scientific, List.take_one, List.head?_cons, Option.toList_some, List.mem_append,
    List.not_mem_nil, or_false, List.drop_one, List.tail_cons, List.mem_cons] at hd
  rcases hd with rfl | hd | rfl | rfl | hd
  · exact isNumeric_of_digit (h.digit d List.mem_cons_self)
  · split_ifs at hd
    · simp at hd
    · rcases List.mem_cons.mp hd with rfl | hd
      · rfl
      · exact isNumeric_of_digit (h.digit d (List.mem_cons_of_mem c hd))
  · rfl
  · split_ifs <;> rfl
  · exact isNumeric_of_digit (hdigit d hd)

theorem written_layout {ds : List ℕ} {point : ℤ} (h : Digits ds) : Written (layout ds point) := by
  have hzeros : ∀ k, ∀ c ∈ List.replicate k 48, isNumeric c = true := fun k c hc => by
    rw [List.eq_of_mem_replicate hc]
    rfl
  have hds : ∀ c ∈ ds, isNumeric c = true := fun c hc => isNumeric_of_digit (h.digit c hc)
  obtain ⟨c, t, rfl⟩ := List.exists_cons_of_ne_nil h.ne_nil
  have hc := h.digit c List.mem_cons_self
  unfold layout
  split_ifs with hrange hsmall hinside
  · refine ⟨fun d hd => ?_, by simp, 48, rfl, rfl⟩
    simp only [List.mem_cons, List.mem_append] at hd
    rcases hd with rfl | rfl | hd | hd
    · rfl
    · rfl
    · exact hzeros _ d hd
    · exact hds d (List.mem_cons.mpr hd)
  · have hpos : 0 < point.toNat := by omega
    refine ⟨fun d hd => ?_, by simp, c, ?_, hc⟩
    · rcases List.mem_append.mp hd with hd | hd
      · exact hds d (List.mem_of_mem_take hd)
      · rcases List.mem_cons.mp hd with rfl | hd
        · rfl
        · exact hds d (List.mem_of_mem_drop hd)
    · rw [List.head?_append, List.head?_take, if_neg hpos.ne']
      rfl
  · refine ⟨fun d hd => ?_, by simp, c, rfl, hc⟩
    rcases List.mem_append.mp hd with hd | hd
    · exact hds d hd
    · rcases List.mem_append.mp hd with hd | hd
      · exact hzeros _ d hd
      · simp only [List.mem_cons, List.not_mem_nil, or_false] at hd
        rcases hd with rfl | rfl <;> rfl
  · exact written_scientific h

theorem written_reprMagnitude (x : Float64) : Written (reprMagnitude x.magnitude) := by
  unfold reprMagnitude
  by_cases hq : x.magnitude = 0
  · rw [if_pos hq]
    exact ⟨by decide, by decide, 48, rfl, rfl⟩
  · rw [if_neg hq]
    exact written_layout (digits_significant (shortest_digits_ne_zero x.rounded x.nonneg x.dyadic hq))

/-- **Floats can be told from their texts.** -/
theorem repr_injective : Function.Injective repr := by
  intro x y h
  have hsign : ∀ z : Float64, ∀ t, reprMagnitude z.magnitude ≠ 45 :: t := fun z t ht => by
    obtain ⟨c, hc, hdigit⟩ := (written_reprMagnitude z).head
    rw [ht] at hc
    obtain rfl := Option.some.inj hc
    exact absurd hdigit (by decide)
  unfold repr at h
  rcases hx : x.negative with _ | _ <;> rcases hy : y.negative with _ | _ <;>
    rw [hx, hy] at h
  · exact Float64.ext (hx.trans hy.symm) (magnitude_inj h)
  · exact absurd h (hsign x _)
  · exact absurd h.symm (hsign y _)
  · exact Float64.ext (hx.trans hy.symm) (magnitude_inj (List.cons.inj h).2)

theorem numeric_repr (x : Float64) : ∀ c ∈ repr x, isNumeric c = true := by
  have h := (written_reprMagnitude x).numeric
  unfold repr
  split_ifs
  · intro c hc
    rcases List.mem_cons.mp hc with rfl | hc
    · rfl
    · exact h c hc
  · exact h

/-- The text of a float is not that of an integer. -/
theorem point_repr (x : Float64) : 46 ∈ repr x ∨ 101 ∈ repr x := by
  have h := (written_reprMagnitude x).point
  unfold repr
  split_ifs
  · exact h.imp (List.mem_cons_of_mem 45) (List.mem_cons_of_mem 45)
  · exact h

/-- Floats as numbers of a JSON text. -/
def floatText : NumberText Float64 := ⟨repr, repr_injective, numeric_repr, point_repr⟩

end IdenGrid.Lib.FloatRepr
