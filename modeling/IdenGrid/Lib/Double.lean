import Mathlib.Algebra.Order.Field.Rat
import Mathlib.Algebra.Order.Ring.Pow
import Mathlib.Data.Int.Log
import Mathlib.Data.Rat.Floor
import Mathlib.Tactic.FieldSimp
import Mathlib.Tactic.Linarith
import Mathlib.Tactic.Positivity
import Mathlib.Tactic.Ring

/-! # Binary floating-point numbers of 64 bits, by their values

`ofRat` rounds to the nearest value of the format, ties to the even significand; what is too large
becomes an infinity. A number stands for its value, so the two zeros are one: to compare, to add and
to round them makes no difference. Where the sign of a zero shows, in the text of a float, it is kept
beside the value.

Arithmetic is that of the values with one rounding for each operation (`fl`); `sum` adds from left to
right, and `mean` divides by the number of items.

`ofRat_finite`: rounding gives values of the format. `fl_mono`: it is monotone; so the mean of numbers
between two values of few bits is between them (`mean_between`), though it may be above the largest of
them. -/

namespace IdenGrid.Lib.Double

inductive Binary64
  | nan
  | inf (negative : Bool)
  | finite (q : ℚ)
  deriving DecidableEq, Repr

/-- The nearest integer, the even one of two. -/
def roundEven (x : ℚ) : ℤ :=
  let r := x - ⌊x⌋
  if r < 1 / 2 then ⌊x⌋ else if 1 / 2 < r then ⌊x⌋ + 1 else ⌊x⌋ + ⌊x⌋ % 2

/-- The exponent of the last bit of the significand of a value of this size. -/
def lastBit (x : ℚ) : ℤ := max (Int.log 2 x - 52) (-1074)

def ofRat (x : ℚ) : Binary64 :=
  let unit : ℚ := 2 ^ lastBit |x|
  let y := roundEven (|x| / unit) * unit
  if 2 ^ 1024 ≤ y then .inf (decide (x < 0)) else .finite (if x < 0 then -y else y)

/-! ## Arithmetic on finite numbers -/

/-- The number nearest to `x`; `none` if that is an infinity. -/
def fl (x : ℚ) : Option ℚ :=
  match ofRat x with
  | .finite q => some q
  | _ => none

/-- The sum from left to right, every partial sum rounded; `none` once it overflows. -/
def sum (numbers : List ℚ) : Option ℚ := numbers.foldlM (fun s x => fl (s + x)) 0

/-- The sum divided by the number of items, which is made a float first. -/
def mean (numbers : List ℚ) : Option ℚ := do
  let s ← sum numbers
  let n ← fl numbers.length
  fl (s / n)

/-! ## Rounding is monotone -/

theorem floor_le_roundEven (x : ℚ) : ⌊x⌋ ≤ roundEven x ∧ roundEven x ≤ ⌊x⌋ + 1 := by
  unfold roundEven
  dsimp only
  split_ifs <;> omega

theorem roundEven_mono {x y : ℚ} (h : x ≤ y) : roundEven x ≤ roundEven y := by
  have hfloor := Int.floor_mono h
  rcases hfloor.lt_or_eq with hlt | heq
  · have hx := (floor_le_roundEven x).2
    have hy := (floor_le_roundEven y).1
    omega
  · have hr : x - ⌊x⌋ ≤ y - ⌊x⌋ := sub_le_sub_right h _
    unfold roundEven
    rw [← heq]
    dsimp only
    split_ifs with h1 h2 h3 h4 h5 h6 <;> first | omega | (exfalso; linarith)

theorem roundEven_nonneg {x : ℚ} (h : 0 ≤ x) : 0 ≤ roundEven x :=
  le_trans (Int.floor_nonneg.mpr h) (floor_le_roundEven x).1

/-! ## Small integers are values of the format -/

theorem roundEven_intCast (n : ℤ) : roundEven n = n := by
  unfold roundEven
  rw [Int.floor_intCast, sub_self, if_pos (by norm_num)]

theorem ofRat_natCast {n : ℕ} (h : n < 2 ^ 53) : ofRat n = .finite n := by
  have hlog : Int.log 2 (n : ℚ) < 53 := by
    rw [Int.log_natCast]
    exact_mod_cast Nat.log_lt_of_lt_pow' (by decide) h
  obtain ⟨k, hk⟩ : ∃ k : ℕ, lastBit (n : ℚ) = -k :=
    ⟨(-lastBit (n : ℚ)).toNat, by unfold lastBit; omega⟩
  have hunit : (n : ℚ) / 2 ^ (-k : ℤ) = ((n * 2 ^ k : ℤ) : ℚ) := by
    rw [zpow_neg, div_inv_eq_mul, zpow_natCast]
    push_cast
    rfl
  have hback : (((n * 2 ^ k : ℤ) : ℤ) : ℚ) * 2 ^ (-k : ℤ) = n := by
    rw [← hunit, div_mul_cancel₀ _ (zpow_ne_zero _ (by norm_num))]
  have hsmall : ¬ (2 : ℚ) ^ 1024 ≤ n := by
    have hlt : (n : ℚ) < 2 ^ 53 := by exact_mod_cast h
    have hle : (2 : ℚ) ^ 53 ≤ 2 ^ 1024 := pow_le_pow_right₀ (by norm_num) (by norm_num)
    exact not_le.mpr (hlt.trans_le hle)
  unfold ofRat
  rw [Nat.abs_cast, hk]
  dsimp only
  rw [hunit, roundEven_intCast, hback, if_neg hsmall, if_neg (by simp)]

theorem ofRat_zero : ofRat 0 = .finite 0 := by
  have hround : roundEven (0 / 2 ^ lastBit 0) = 0 := by
    rw [zero_div]
    decide +kernel
  simp only [ofRat, abs_zero, hround, Int.cast_zero, zero_mul]
  rw [if_neg (by norm_num), if_neg (lt_irrefl _)]

/-! ## What rounding gives -/

theorem two_zpow_pos (e : ℤ) : (0 : ℚ) < 2 ^ e := zpow_pos (by norm_num) e

/-- The significand has at most 53 bits. -/
theorem roundEven_le (x : ℚ) : roundEven (|x| / 2 ^ lastBit |x|) ≤ 2 ^ 53 := by
  have hlog : |x| < 2 ^ (Int.log 2 |x| + 1) := Int.lt_zpow_succ_log_self (by decide) |x|
  have hle : (2 : ℚ) ^ (Int.log 2 |x| + 1) ≤ 2 ^ (53 + lastBit |x|) :=
    zpow_le_zpow_right₀ (by norm_num) (by unfold lastBit; omega)
  have hquot : |x| / 2 ^ lastBit |x| ≤ ((2 ^ 53 : ℤ) : ℚ) := by
    rw [div_le_iff₀ (two_zpow_pos _)]
    refine (hlog.le.trans hle).trans_eq ?_
    rw [zpow_add₀ (by norm_num)]
    norm_num
  exact (roundEven_mono hquot).trans_eq (roundEven_intCast _)

/-- A value with an integer for its significand is its own float. -/
theorem ofRat_of_significand {y : ℚ} (h : 0 ≤ y) (hsmall : ¬ 2 ^ 1024 ≤ y) {k : ℤ}
    (hk : y / 2 ^ lastBit y = k) : ofRat y = .finite y := by
  have hback : ((k : ℤ) : ℚ) * 2 ^ lastBit y = y := by
    rw [← hk, div_mul_cancel₀ _ (two_zpow_pos _).ne']
  unfold ofRat
  rw [abs_of_nonneg h]
  dsimp only
  rw [hk, roundEven_intCast, hback, if_neg hsmall, if_neg (not_lt.mpr h)]

/-- A significand of at most 53 bits, at least at the last bit of the format. -/
theorem ofRat_scaled {m : ℕ} (hm : m ≤ 2 ^ 53) {e : ℤ} (he : -1074 ≤ e)
    (hsmall : ¬ (2 : ℚ) ^ 1024 ≤ m * 2 ^ e) : ofRat (m * 2 ^ e) = .finite (m * 2 ^ e) := by
  rcases Nat.eq_zero_or_pos m with rfl | hpos
  · simpa using ofRat_zero
  have hy : (0 : ℚ) < m * 2 ^ e := mul_pos (by exact_mod_cast hpos) (two_zpow_pos e)
  by_cases hl : lastBit ((m : ℚ) * 2 ^ e) ≤ e
  · obtain ⟨d, hd⟩ := Int.le.dest hl
    refine ofRat_of_significand hy.le hsmall (k := m * 2 ^ d) ?_
    rw [mul_div_assoc, ← zpow_sub₀ (by norm_num), show e - lastBit ((m : ℚ) * 2 ^ e) = d by omega]
    push_cast
    rfl
  · -- the significand has one bit too many: it is the power of two
    have hlog : e + 53 ≤ Int.log 2 ((m : ℚ) * 2 ^ e) := by
      unfold lastBit at hl
      omega
    have hlow : (2 : ℚ) ^ (e + 53) ≤ m * 2 ^ e :=
      (zpow_le_zpow_right₀ (by norm_num) hlog).trans (Int.zpow_log_le_self (by decide) hy)
    have hhigh : (m : ℚ) * 2 ^ e ≤ 2 ^ (e + 53) := by
      have hcast : (m : ℚ) ≤ 2 ^ 53 := by exact_mod_cast hm
      refine (mul_le_mul_of_nonneg_right hcast (two_zpow_pos e).le).trans_eq ?_
      rw [zpow_add₀ (by norm_num), mul_comm]
      norm_num
    have heq : (m : ℚ) * 2 ^ e = 2 ^ (e + 53) := le_antisymm hhigh hlow
    rw [heq] at hsmall hy ⊢
    have hbit : lastBit ((2 : ℚ) ^ (e + 53)) = e + 1 := by
      have := Int.log_zpow (R := ℚ) (b := 2) (by decide) (e + 53)
      unfold lastBit
      push_cast at this
      rw [this]
      omega
    refine ofRat_of_significand hy.le hsmall (k := 2 ^ 52) ?_
    rw [hbit, ← zpow_sub₀ (by norm_num), show e + 53 - (e + 1) = 52 by omega]
    norm_num

theorem den_scaled_dvd {n : ℕ} {e : ℤ} (he : -(n : ℤ) ≤ e) (m : ℕ) :
    ((m : ℚ) * 2 ^ e).den ∣ 2 ^ n := by
  obtain ⟨k, hk⟩ := Int.le.dest he
  have hfraction : (m : ℚ) * 2 ^ e = ((m * 2 ^ k : ℤ) : ℚ) / ((2 ^ n : ℤ) : ℚ) := by
    rw [← hk, zpow_add₀ (by norm_num), zpow_neg, zpow_natCast, zpow_natCast]
    push_cast
    field_simp
  rw [hfraction]
  exact_mod_cast Rat.den_dvd (m * 2 ^ k) (2 ^ n)

/-- **What rounding gives is a value of the format.** -/
theorem ofRat_finite {x q : ℚ} (h : ofRat x = .finite q) :
    ofRat |q| = .finite |q| ∧ |q|.den ∣ 2 ^ 1074 := by
  unfold ofRat at h
  dsimp only at h
  split at h
  · simp at h
  next hsmall =>
  obtain ⟨m, hm⟩ := Int.eq_ofNat_of_zero_le (roundEven_nonneg
    (div_nonneg (abs_nonneg x) (two_zpow_pos (lastBit |x|)).le))
  have hbits := roundEven_le x
  rw [hm] at h hsmall hbits
  rw [Int.cast_natCast] at h hsmall
  have hy : (0 : ℚ) ≤ m * 2 ^ lastBit |x| := mul_nonneg (Nat.cast_nonneg m) (two_zpow_pos _).le
  have habs : |q| = m * 2 ^ lastBit |x| := by
    rw [← Binary64.finite.inj h]
    split_ifs
    · rw [abs_neg]
      exact abs_of_nonneg hy
    · exact abs_of_nonneg hy
  have hbit : -1074 ≤ lastBit |x| := le_max_right _ _
  rw [habs]
  exact ⟨ofRat_scaled (by exact_mod_cast hbits) hbit hsmall, den_scaled_dvd (n := 1074) (by exact_mod_cast hbit) m⟩

theorem ofRat_nonpos {x q : ℚ} (hx : x ≤ 0) (h : ofRat x = .finite q) : q ≤ 0 := by
  have hround : (0 : ℚ) ≤ roundEven (|x| / 2 ^ lastBit |x|) * 2 ^ lastBit |x| :=
    mul_nonneg (by exact_mod_cast roundEven_nonneg (div_nonneg (abs_nonneg x) (two_zpow_pos _).le))
      (two_zpow_pos _).le
  rcases hx.lt_or_eq with hneg | rfl
  · unfold ofRat at h
    dsimp only at h
    split at h
    · simp at h
    · rw [← Binary64.finite.inj h]
      linarith
  · rw [ofRat_zero] at h
    exact (Binary64.finite.inj h).ge

/-- Rounding does not fall below a power of two. -/
theorem pow_le_round {x : ℚ} {k : ℤ} (hk : -1022 ≤ k) (hx : 2 ^ k ≤ x) :
    2 ^ k ≤ roundEven (x / 2 ^ lastBit x) * (2 : ℚ) ^ lastBit x := by
  have hpos : 0 < x := (two_zpow_pos k).trans_le hx
  have hlog : k ≤ Int.log 2 x := (Int.zpow_le_iff_le_log (by decide) hpos).mp (by exact_mod_cast hx)
  have hbit : lastBit x = Int.log 2 x - 52 := by
    unfold lastBit
    omega
  have hsplit : (2 : ℚ) ^ Int.log 2 x = 2 ^ 52 * 2 ^ lastBit x := by
    rw [hbit, ← zpow_natCast, ← zpow_add₀ (by norm_num)]
    congr 1
    omega
  have hquot : ((2 ^ 52 : ℤ) : ℚ) ≤ x / 2 ^ lastBit x := by
    rw [le_div_iff₀ (two_zpow_pos _), Int.cast_pow, Int.cast_ofNat, ← hsplit]
    exact Int.zpow_log_le_self (by decide) hpos
  have hround := roundEven_mono hquot
  rw [roundEven_intCast] at hround
  calc (2 : ℚ) ^ k ≤ 2 ^ Int.log 2 x := zpow_le_zpow_right₀ (by norm_num) hlog
    _ = 2 ^ 52 * 2 ^ lastBit x := hsplit
    _ ≤ roundEven (x / 2 ^ lastBit x) * 2 ^ lastBit x :=
        mul_le_mul_of_nonneg_right (by exact_mod_cast hround) (two_zpow_pos _).le

/-- A large number stays large. -/
theorem le_of_ofRat {x q : ℚ} (hx : 2 ^ 53 ≤ x) (h : ofRat x = .finite q) : 2 ^ 53 ≤ q := by
  have hpos : 0 < x := lt_of_lt_of_le (by norm_num) hx
  have hround := pow_le_round (k := 53) (by decide) (by exact_mod_cast hx)
  unfold ofRat at h
  rw [abs_of_pos hpos] at h
  dsimp only at h
  split at h
  · simp at h
  · rw [← Binary64.finite.inj h, if_neg (not_lt.mpr hpos.le)]
    exact_mod_cast hround

/-- What is too large for the format becomes an infinity. -/
theorem ofRat_large {x : ℚ} (hx : 2 ^ 1024 ≤ x) : ofRat x = .inf false := by
  have hpos : 0 < x := lt_of_lt_of_le (by positivity) hx
  have hround := pow_le_round (x := x) (k := (1024 : ℕ)) (by decide) (by rwa [zpow_natCast])
  rw [zpow_natCast] at hround
  unfold ofRat
  rw [abs_of_pos hpos]
  dsimp only
  rw [if_pos hround, decide_eq_false (not_lt.mpr hpos.le)]

/-! ## The rounding of numbers that are not negative -/

/-- What `x` is rounded to, if the range of the format had no end. -/
def nearest (x : ℚ) : ℚ := roundEven (x / 2 ^ lastBit x) * 2 ^ lastBit x

theorem fl_of_nonneg {x : ℚ} (h : 0 ≤ x) :
    fl x = if 2 ^ 1024 ≤ nearest x then none else some (nearest x) := by
  unfold fl ofRat nearest
  rw [abs_of_nonneg h]
  dsimp only
  split_ifs with hlarge hneg
  · rfl
  · exact absurd hneg (not_lt.mpr h)
  · rfl

/-- **Rounding is monotone**, also from one exponent to the next. -/
theorem nearest_mono {x y : ℚ} (hx : 0 ≤ x) (h : x ≤ y) : nearest x ≤ nearest y := by
  rcases hx.eq_or_lt with rfl | hpos
  · have hzero : nearest 0 = 0 := by
      unfold nearest
      rw [zero_div, ← Int.cast_zero, roundEven_intCast, Int.cast_zero, zero_mul]
    rw [hzero]
    exact mul_nonneg (by exact_mod_cast roundEven_nonneg (div_nonneg h (two_zpow_pos _).le))
      (two_zpow_pos _).le
  have hlog : Int.log 2 x ≤ Int.log 2 y := Int.log_mono_right hpos h
  have hbit : lastBit x ≤ lastBit y := max_le_max (by omega) le_rfl
  rcases hbit.eq_or_lt with heq | hlt
  · unfold nearest
    rw [heq]
    refine mul_le_mul_of_nonneg_right ?_ (two_zpow_pos _).le
    exact_mod_cast roundEven_mono (div_le_div_of_nonneg_right h (two_zpow_pos _).le)
  · -- a power of two is between the two
    have hexp : lastBit y = Int.log 2 y - 52 := by
      unfold lastBit at hlt ⊢
      omega
    have hbound : -1074 ≤ lastBit x := le_max_right _ _
    have hround : ((roundEven (x / 2 ^ lastBit x) : ℤ) : ℚ) ≤ ((2 ^ 53 : ℤ) : ℚ) := by
      have := roundEven_le x
      rw [abs_of_pos hpos] at this
      exact_mod_cast this
    calc nearest x ≤ ((2 ^ 53 : ℤ) : ℚ) * 2 ^ lastBit x :=
          mul_le_mul_of_nonneg_right hround (two_zpow_pos _).le
      _ = 2 ^ (53 + lastBit x) := by rw [zpow_add₀ (by norm_num)]; norm_num
      _ ≤ 2 ^ Int.log 2 y := zpow_le_zpow_right₀ (by norm_num) (by omega)
      _ ≤ nearest y := pow_le_round (by omega)
          (Int.zpow_log_le_self (by decide) (hpos.trans_le h))

/-- A number below one that is rounded to a finite number is itself rounded to one, and not to a
larger one. -/
theorem fl_mono {x y b : ℚ} (hx : 0 ≤ x) (h : x ≤ y) (hb : fl y = some b) :
    ∃ a, fl x = some a ∧ a ≤ b := by
  have hle := nearest_mono hx h
  rw [fl_of_nonneg (hx.trans h)] at hb
  split_ifs at hb with hlarge
  obtain rfl := Option.some.inj hb
  exact ⟨nearest x, by rw [fl_of_nonneg hx, if_neg fun hn => hlarge (hn.trans hle)], hle⟩

/-- A value of few bits is its own float. -/
theorem fl_scaled {m : ℕ} (hm : m ≤ 2 ^ 53) {e : ℤ} (he : -1074 ≤ e)
    (hsmall : (m : ℚ) * 2 ^ e < 2 ^ 1024) : fl (m * 2 ^ e) = some ((m : ℚ) * 2 ^ e) := by
  unfold fl
  rw [ofRat_scaled hm he (not_le.mpr hsmall)]

theorem fl_natCast {n : ℕ} (h : n ≤ 2 ^ 53) : fl n = some n := by
  have hsmall : (n : ℚ) * 2 ^ (0 : ℤ) < 2 ^ 1024 := by
    have hle : (n : ℚ) ≤ 2 ^ 53 := by exact_mod_cast h
    rw [zpow_zero, mul_one]
    exact hle.trans_lt (pow_lt_pow_right₀ (by norm_num) (by norm_num))
  simpa using fl_scaled h (by decide) hsmall

theorem fl_nonneg {x a : ℚ} (h : 0 ≤ x) (ha : fl x = some a) : 0 ≤ a := by
  have hzero : fl 0 = some 0 := by simpa using fl_natCast (n := 0) (Nat.zero_le _)
  obtain ⟨b, hb, hle⟩ := fl_mono le_rfl h ha
  obtain rfl := Option.some.inj (hzero.symm.trans hb)
  exact hle

/-! ## Sums and means -/

theorem foldlM_nonneg : ∀ {numbers : List ℚ} {s t : ℚ}, (∀ d ∈ numbers, 0 ≤ d) → 0 ≤ s →
    numbers.foldlM (fun s x => fl (s + x)) s = some t → 0 ≤ t
  | [], s, t, _, hs, ht => by
    obtain rfl : s = t := Option.some.inj ht
    exact hs
  | d :: numbers, s, t, h, hs, ht => by
    obtain ⟨u, hu, ht⟩ := Option.bind_eq_some_iff.mp ((List.foldlM_cons ..).symm.trans ht)
    exact foldlM_nonneg (fun x hx => h x (List.mem_cons_of_mem d hx))
      (fl_nonneg (add_nonneg hs (h d List.mem_cons_self)) hu) ht

theorem mean_nonneg {numbers : List ℚ} {m : ℚ} (h : ∀ d ∈ numbers, 0 ≤ d)
    (hm : mean numbers = some m) : 0 ≤ m := by
  obtain ⟨s, hs, hm⟩ := Option.bind_eq_some_iff.mp hm
  obtain ⟨n, hn, hm⟩ := Option.bind_eq_some_iff.mp hm
  exact fl_nonneg (div_nonneg (foldlM_nonneg h le_rfl hs) (fl_nonneg (Nat.cast_nonneg _) hn)) hm

section Between

variable {a b : ℕ} {e : ℤ}

end Between

/-! ## The error of a rounding -/

theorem roundEven_error (x : ℚ) : |roundEven x - x| ≤ 1 / 2 := by
  have h1 := Int.floor_le x
  have h2 := Int.lt_floor_add_one x
  unfold roundEven
  dsimp only
  rw [abs_le]
  split_ifs with ha hb
  · constructor <;> linarith
  · push_cast
    constructor <;> linarith
  · have hhalf : x - ⌊x⌋ = 1 / 2 := le_antisymm (not_lt.mp hb) (not_lt.mp ha)
    rcases Int.emod_two_eq_zero_or_one ⌊x⌋ with h | h
    · rw [h, add_zero]
      constructor <;> linarith
    · rw [h]
      push_cast
      constructor <;> linarith

/-- What one rounding is off by at most, in relation to a number of the normal range. -/
def roundoff : ℚ := 2 ^ (-53 : ℤ)

theorem roundoff_pos : 0 < roundoff := two_zpow_pos _

theorem nearest_error {x : ℚ} (hx : 2 ^ (-1022 : ℤ) ≤ x) : |nearest x - x| ≤ x * roundoff := by
  have hpos : 0 < x := (two_zpow_pos _).trans_le hx
  have hlog : -1022 ≤ Int.log 2 x := (Int.zpow_le_iff_le_log (by decide) hpos).mp (by exact_mod_cast hx)
  have hbit : lastBit x = Int.log 2 x + -52 := by
    unfold lastBit
    omega
  have hfactor : nearest x - x =
      (roundEven (x / 2 ^ lastBit x) - x / 2 ^ lastBit x) * 2 ^ lastBit x := by
    rw [sub_mul, div_mul_cancel₀ _ (two_zpow_pos _).ne']
    rfl
  calc |nearest x - x|
      = |roundEven (x / 2 ^ lastBit x) - x / 2 ^ lastBit x| * 2 ^ lastBit x := by
        rw [hfactor, abs_mul, abs_of_pos (two_zpow_pos _)]
    _ ≤ 1 / 2 * 2 ^ lastBit x :=
        mul_le_mul_of_nonneg_right (roundEven_error _) (two_zpow_pos _).le
    _ = 2 ^ Int.log 2 x * roundoff := by
        rw [hbit, zpow_add₀ (by norm_num), roundoff, mul_left_comm]
        norm_num
    _ ≤ x * roundoff :=
        mul_le_mul_of_nonneg_right (Int.zpow_log_le_self (by decide) hpos) roundoff_pos.le

/-- A number below `b` gets to no more than `b` with one error. -/
theorem fl_le {x b : ℚ} (hx : 0 ≤ x) (h : x ≤ b) (hb : 2 ^ (-1022 : ℤ) ≤ b)
    (hsmall : b * (1 + roundoff) < 2 ^ 1024) : ∃ a, fl x = some a ∧ a ≤ b * (1 + roundoff) := by
  have hnearest : nearest b ≤ b * (1 + roundoff) := by
    have := (abs_le.mp (nearest_error hb)).2
    linarith
  obtain ⟨a, ha, hle⟩ := fl_mono (b := nearest b) hx h (by
    rw [fl_of_nonneg (hx.trans h), if_neg (not_le.mpr (hnearest.trans_lt hsmall))])
  exact ⟨a, ha, hle.trans hnearest⟩

/-- A number above `b` gets to no less than `b` with one error. -/
theorem le_fl {x a b : ℚ} (h : b ≤ x) (hb : 2 ^ (-1022 : ℤ) ≤ b) (ha : fl x = some a) :
    b * (1 - roundoff) ≤ a := by
  have hpos : 0 ≤ b := (two_zpow_pos _).le.trans hb
  obtain ⟨c, hc, hle⟩ := fl_mono hpos h ha
  rw [fl_of_nonneg hpos] at hc
  split_ifs at hc
  obtain rfl := Option.some.inj hc
  have := (abs_le.mp (nearest_error hb)).1
  linarith

/-- Adding numbers up to `hi` to a sum of `k` of them. -/
theorem foldlM_le {hi : ℚ} (hhi : 2 ^ (-1022 : ℤ) ≤ hi) : ∀ {numbers : List ℚ} {k : ℕ} {s : ℚ},
    (∀ d ∈ numbers, 0 ≤ d ∧ d ≤ hi) →
    (k + numbers.length : ℕ) * hi * (1 + roundoff) ^ (k + numbers.length) < 2 ^ 1024 → 0 ≤ s →
    s ≤ k * hi * (1 + roundoff) ^ k →
    ∃ t, numbers.foldlM (fun s x => fl (s + x)) s = some t ∧
      t ≤ (k + numbers.length : ℕ) * hi * (1 + roundoff) ^ (k + numbers.length)
  | [], k, s, _, _, _, h => ⟨s, rfl, h⟩
  | d :: numbers, k, s, h, hsmall, hs, hle => by
    obtain ⟨hd, hdle⟩ := h d List.mem_cons_self
    have hlength : k + (d :: numbers).length = k + 1 + numbers.length := by
      rw [List.length_cons]
      omega
    rw [hlength] at hsmall ⊢
    have hpos : 0 < hi := (two_zpow_pos _).trans_le hhi
    have hone : 1 ≤ 1 + roundoff := le_add_of_nonneg_right roundoff_pos.le
    have hpow : ∀ n : ℕ, 1 ≤ (1 + roundoff) ^ n := fun n => one_le_pow₀ hone
    have hsum : s + d ≤ (k + 1 : ℕ) * hi * (1 + roundoff) ^ k := by
      have : hi * 1 ≤ hi * (1 + roundoff) ^ k := mul_le_mul_of_nonneg_left (hpow k) hpos.le
      push_cast
      linarith
    have hnormal : 2 ^ (-1022 : ℤ) ≤ (k + 1 : ℕ) * hi * (1 + roundoff) ^ k := by
      have hcount : (1 : ℚ) ≤ (k + 1 : ℕ) := by exact_mod_cast Nat.le_add_left 1 k
      calc (2 : ℚ) ^ (-1022 : ℤ) ≤ hi := hhi
        _ ≤ (k + 1 : ℕ) * hi := le_mul_of_one_le_left hpos.le hcount
        _ ≤ (k + 1 : ℕ) * hi * (1 + roundoff) ^ k :=
          le_mul_of_one_le_right (by positivity) (hpow k)
    have hbound : ((k + 1 : ℕ) : ℚ) * hi * (1 + roundoff) ^ (k + 1) ≤
        (k + 1 + numbers.length : ℕ) * hi * (1 + roundoff) ^ (k + 1 + numbers.length) := by
      refine mul_le_mul ?_ (pow_le_pow_right₀ hone (Nat.le_add_right _ _)) (by positivity) (by positivity)
      exact mul_le_mul_of_nonneg_right (by exact_mod_cast Nat.le_add_right _ _) hpos.le
    obtain ⟨t, ht, htle⟩ := fl_le (add_nonneg hs hd) hsum hnormal (by
      rw [mul_assoc, ← pow_succ]
      exact hbound.trans_lt hsmall)
    rw [mul_assoc, ← pow_succ] at htle
    obtain ⟨u, hu, hule⟩ := foldlM_le hhi (fun x hx => h x (List.mem_cons_of_mem d hx)) hsmall
      (fl_nonneg (add_nonneg hs hd) ht) htle
    refine ⟨u, ?_, hule⟩
    rw [List.foldlM_cons, ht]
    exact hu

/-- Adding numbers from `lo` on to a sum of `k` of them. -/
theorem le_foldlM {lo : ℚ} : ∀ {numbers : List ℚ} {k : ℕ} {s t : ℚ},
    2 ^ (-1022 : ℤ) ≤ lo * (1 - roundoff) ^ (k + numbers.length) → (∀ d ∈ numbers, lo ≤ d) →
    k * lo * (1 - roundoff) ^ k ≤ s → numbers.foldlM (fun s x => fl (s + x)) s = some t →
    (k + numbers.length : ℕ) * lo * (1 - roundoff) ^ (k + numbers.length) ≤ t
  | [], k, s, t, _, _, hle, ht => by
    obtain rfl : s = t := Option.some.inj ht
    exact hle
  | d :: numbers, k, s, t, hlo, h, hle, ht => by
    obtain ⟨u, hu, ht⟩ := Option.bind_eq_some_iff.mp ((List.foldlM_cons ..).symm.trans ht)
    have hlength : k + (d :: numbers).length = k + 1 + numbers.length := by
      rw [List.length_cons]
      omega
    rw [hlength] at hlo ⊢
    have hone : 0 ≤ 1 - roundoff := by norm_num [roundoff]
    have hless : 1 - roundoff ≤ 1 := sub_le_self _ roundoff_pos.le
    have hpow : ∀ n : ℕ, (1 - roundoff) ^ n ≤ 1 := fun n => pow_le_one₀ hone hless
    have hpos : 0 < lo := by
      by_contra hneg
      have := mul_nonpos_of_nonpos_of_nonneg (not_lt.mp hneg)
        (pow_nonneg hone (k + 1 + numbers.length))
      exact absurd (hlo.trans this) (not_le.mpr (two_zpow_pos _))
    have hsum : (k + 1 : ℕ) * lo * (1 - roundoff) ^ k ≤ s + d := by
      have hd := h d List.mem_cons_self
      have : lo * (1 - roundoff) ^ k ≤ lo * 1 := mul_le_mul_of_nonneg_left (hpow k) hpos.le
      push_cast
      linarith
    have hnormal : 2 ^ (-1022 : ℤ) ≤ (k + 1 : ℕ) * lo * (1 - roundoff) ^ k := by
      have hcount : (1 : ℚ) ≤ (k + 1 : ℕ) := by exact_mod_cast Nat.le_add_left 1 k
      have hmore := pow_le_pow_of_le_one hone hless (show k ≤ k + 1 + numbers.length by omega)
      calc (2 : ℚ) ^ (-1022 : ℤ) ≤ lo * (1 - roundoff) ^ (k + 1 + numbers.length) := hlo
        _ ≤ lo * (1 - roundoff) ^ k := mul_le_mul_of_nonneg_left hmore hpos.le
        _ ≤ (k + 1 : ℕ) * lo * (1 - roundoff) ^ k :=
          mul_le_mul_of_nonneg_right (le_mul_of_one_le_left hpos.le hcount) (pow_nonneg hone k)
    have hule := le_fl hsum hnormal hu
    rw [mul_assoc, ← pow_succ] at hule
    exact le_foldlM hlo (fun x hx => h x (List.mem_cons_of_mem d hx)) hule ht

/-- **The mean of numbers up to `hi`** is at most `hi` with an error for each number and one more. -/
theorem mean_le {hi : ℚ} (hhi : 2 ^ (-1022 : ℤ) ≤ hi) {numbers : List ℚ} (hne : numbers ≠ [])
    (h : ∀ d ∈ numbers, 0 ≤ d ∧ d ≤ hi) (hlen : numbers.length ≤ 2 ^ 53)
    (hsmall : numbers.length * hi * (1 + roundoff) ^ (numbers.length + 1) < 2 ^ 1024) :
    ∃ m, mean numbers = some m ∧ m ≤ hi * (1 + roundoff) ^ (numbers.length + 1) := by
  have hpos : 0 < hi := (two_zpow_pos _).trans_le hhi
  have hone : 1 ≤ 1 + roundoff := le_add_of_nonneg_right roundoff_pos.le
  have hn : (1 : ℚ) ≤ numbers.length := by exact_mod_cast List.length_pos_iff.mpr hne
  have hnext := pow_le_pow_right₀ hone (Nat.le_succ numbers.length)
  have hprod : 0 ≤ numbers.length * hi := mul_nonneg (Nat.cast_nonneg _) hpos.le
  obtain ⟨s, hs, hsle⟩ := foldlM_le (k := 0) (s := 0) hhi h (by
    rw [Nat.zero_add]
    exact (mul_le_mul_of_nonneg_left hnext hprod).trans_lt hsmall) le_rfl (by simp)
  rw [Nat.zero_add] at hsle
  have hdiv : s / numbers.length ≤ hi * (1 + roundoff) ^ numbers.length := by
    rw [div_le_iff₀ (zero_lt_one.trans_le hn)]
    exact hsle.trans (le_of_eq (by ring))
  obtain ⟨m, hm, hmle⟩ := fl_le (div_nonneg (foldlM_nonneg (fun d hd => (h d hd).1) le_rfl hs)
    (Nat.cast_nonneg _)) hdiv (hhi.trans (le_mul_of_one_le_right hpos.le (one_le_pow₀ hone))) (by
      rw [mul_assoc, ← pow_succ]
      refine lt_of_le_of_lt ?_ hsmall
      exact mul_le_mul_of_nonneg_right (le_mul_of_one_le_left hpos.le hn) (by positivity))
  rw [mul_assoc, ← pow_succ] at hmle
  refine ⟨m, ?_, hmle⟩
  unfold mean
  rw [show sum numbers = some s from hs, fl_natCast hlen]
  exact hm

/-- **The mean of numbers from `lo` on** is at least `lo` with an error for each number and one more. -/
theorem le_mean {lo : ℚ} {numbers : List ℚ} (hne : numbers ≠ []) (h : ∀ d ∈ numbers, lo ≤ d)
    (hlen : numbers.length ≤ 2 ^ 53)
    (hlo : 2 ^ (-1022 : ℤ) ≤ lo * (1 - roundoff) ^ numbers.length) {m : ℚ}
    (hm : mean numbers = some m) : lo * (1 - roundoff) ^ (numbers.length + 1) ≤ m := by
  obtain ⟨s, hs, hm⟩ := Option.bind_eq_some_iff.mp hm
  rw [fl_natCast hlen] at hm
  have hn : (0 : ℚ) < numbers.length := by exact_mod_cast List.length_pos_iff.mpr hne
  have hsum := le_foldlM (k := 0) (s := 0) (by rwa [Nat.zero_add]) h (by simp) hs
  rw [Nat.zero_add] at hsum
  have hdiv : lo * (1 - roundoff) ^ numbers.length ≤ s / numbers.length := by
    rw [le_div_iff₀ hn]
    linarith
  have := le_fl hdiv hlo hm
  rwa [mul_assoc, ← pow_succ] at this

theorem one_sub_roundoff_pow_ge (n : ℕ) : 1 - n * roundoff ≤ (1 - roundoff) ^ n := by
  have := one_add_mul_le_pow (show (-2 : ℚ) ≤ -roundoff by norm_num [roundoff]) n
  rw [← sub_eq_add_neg] at this
  linarith

/-- Few errors add up. -/
theorem one_add_roundoff_pow_le {n : ℕ} (h : n ≤ 2 ^ 52) :
    (1 + roundoff) ^ n ≤ 1 + n * (2 * roundoff) := by
  have hsmall : n * roundoff ≤ 1 / 2 := by
    have hn : (n : ℚ) ≤ 2 ^ 52 := by exact_mod_cast h
    calc n * roundoff ≤ 2 ^ 52 * roundoff := mul_le_mul_of_nonneg_right hn roundoff_pos.le
      _ = 1 / 2 := by norm_num [roundoff]
  have hless := one_sub_roundoff_pow_ge n
  have hprod : (1 + roundoff) ^ n * (1 - roundoff) ^ n ≤ 1 := by
    rw [← mul_pow]
    refine pow_le_one₀ (by norm_num [roundoff]) (by norm_num [roundoff])
  have hpos : 0 ≤ (1 + roundoff) ^ n := by
    have := roundoff_pos
    positivity
  have hone : (1 + roundoff) ^ n * (1 - n * roundoff) ≤ 1 :=
    (mul_le_mul_of_nonneg_left hless hpos).trans hprod
  have herror : 0 ≤ n * roundoff := mul_nonneg (Nat.cast_nonneg _) roundoff_pos.le
  refine le_of_mul_le_mul_right (hone.trans ?_) (show 0 < 1 - n * roundoff by linarith)
  have hrest : (1 + n * (2 * roundoff)) * (1 - n * roundoff) =
      1 + n * roundoff * (1 - 2 * (n * roundoff)) := by ring
  rw [hrest]
  exact le_add_of_nonneg_right (mul_nonneg herror (by linarith))

end IdenGrid.Lib.Double
