import Mathlib.Data.List.Chain
import Mathlib.Data.Nat.Digits.Lemmas
import IdenGrid.Lib.Json

/-! # JSON as `json.dumps` writes it, and the round trip

`dumps` writes an object of integers and strings with sorted keys, without spaces and in ASCII, as
`json.dumps(payload, separators=(",", ":"), sort_keys=True)` does.

`loads_dumps_read`: `loads` reads back what `dumps` wrote, except that a high surrogate right before a
low one comes back as the one character that their two escapes stand for (`Scalar.read`). -/

namespace IdenGrid.Lib.JsonDumps

open IdenGrid.Lib.Unicode IdenGrid.Lib.Json

inductive Scalar
  | int (n : ℤ)
  | str (t : List ℕ)
  deriving DecidableEq, Repr

def Scalar.value : Scalar → Value
  | .int n => .int n
  | .str t => .str t

/-! ## Writing -/

def hexDigit (v : ℕ) : ℕ := if v < 10 then v + 48 else v + 87

/-- `\uXXXX`. -/
def escapeUnit (u : ℕ) : List ℕ :=
  [92, 117, hexDigit (u / 4096 % 16), hexDigit (u / 256 % 16), hexDigit (u / 16 % 16),
    hexDigit (u % 16)]

/-- The surrogates of a character above the basic plane. -/
def highOf (c : ℕ) : ℕ := 0xD800 + (c - 0x10000) / 0x400
def lowOf (c : ℕ) : ℕ := 0xDC00 + (c - 0x10000) % 0x400

/-- The letter of a one-character escape. -/
def shortEscape (c : ℕ) : Option ℕ :=
  if c = 34 ∨ c = 92 then some c else if c = 8 then some 98 else if c = 12 then some 102
  else if c = 10 then some 110 else if c = 13 then some 114 else if c = 9 then some 116 else none

def escapeChar (c : ℕ) : List ℕ :=
  match shortEscape c with
  | some e => [92, e]
  | none =>
    if 32 ≤ c ∧ c < 127 then [c]
    else if c < 0x10000 then escapeUnit c
    else escapeUnit (highOf c) ++ escapeUnit (lowOf c)

def dumpString (t : List ℕ) : List ℕ := 34 :: (t.flatMap escapeChar ++ [34])

/-- The decimal digits of a number. -/
def decimal (n : ℕ) : List ℕ :=
  if n = 0 then [48] else (Nat.digits 10 n).reverse.map (· + 48)

/-- `str` refuses an integer with too many digits. -/
def dumpInt (n : ℤ) : Option (List ℕ) :=
  if maxDigits < (decimal n.natAbs).length then none
  else some (if n < 0 then 45 :: decimal n.natAbs else decimal n.natAbs)

def dumpScalar : Scalar → Option (List ℕ)
  | .int n => dumpInt n
  | .str t => some (dumpString t)

def dumpMember (f : List ℕ × Scalar) : Option (List ℕ) :=
  (dumpScalar f.2).map fun v => dumpString f.1 ++ 58 :: v

def dumpMembers : List (List ℕ × Scalar) → Option (List ℕ)
  | [] => some []
  | [f] => dumpMember f
  | f :: g :: fs =>
    (dumpMember f).bind fun m => (dumpMembers (g :: fs)).map fun ms => m ++ 44 :: ms

/-- The order of keys. -/
def keyLt : List ℕ → List ℕ → Bool
  | _, [] => false
  | [], _ :: _ => true
  | a :: s, b :: t => decide (a < b) || (a == b && keyLt s t)

def insertKey (f : List ℕ × Scalar) : List (List ℕ × Scalar) → List (List ℕ × Scalar)
  | [] => [f]
  | g :: gs => if keyLt g.1 f.1 then g :: insertKey f gs else f :: g :: gs

def sortKeys (fs : List (List ℕ × Scalar)) : List (List ℕ × Scalar) := fs.foldr insertKey []

/-- `json.dumps(payload, separators=(",", ":"), sort_keys=True)`. -/
def dumps (fs : List (List ℕ × Scalar)) : Option (List ℕ) :=
  (dumpMembers (sortKeys fs)).map fun t => 123 :: (t ++ [125])

/-! ## What can be written -/

theorem dumpInt_isSome {n : ℤ} (h : n.natAbs < 10 ^ maxDigits) : (dumpInt n).isSome = true := by
  have hlength : (decimal n.natAbs).length ≤ maxDigits := by
    unfold decimal
    split_ifs
    · decide
    · rw [List.length_map, List.length_reverse]
      exact (Nat.digits_length_le_iff (by decide) _).mpr h
  rw [dumpInt, if_neg (by omega)]
  rfl

theorem dumpMembers_isSome : ∀ {fs : List (List ℕ × Scalar)},
    (∀ f ∈ fs, (dumpScalar f.2).isSome = true) → (dumpMembers fs).isSome = true
  | [], _ => rfl
  | [f], h => by
    rw [dumpMembers, dumpMember, Option.isSome_map]
    exact h f List.mem_cons_self
  | f :: g :: fs, h => by
    have ih := dumpMembers_isSome fun e he => h e (List.mem_cons_of_mem f he)
    obtain ⟨v, hv⟩ := Option.isSome_iff_exists.mp (h f List.mem_cons_self)
    rw [dumpMembers, dumpMember, hv, Option.map_some, Option.bind_some, Option.isSome_map]
    exact ih

/-! ## Strings -/

/-- A text of code points in which no high surrogate stands right before a low one. -/
def NoPair (t : List ℕ) : Prop :=
  (∀ c ∈ t, c < 0x110000) ∧ t.IsChain fun a b => ¬ (isHigh a = true ∧ isLow b = true)

theorem noPair_of_scalar {t : List ℕ}
    (h : ∀ c ∈ t, c < 0xD800 ∨ 0xE000 ≤ c ∧ c < 0x110000) : NoPair t := by
  refine ⟨fun c hc => by have := h c hc; omega, ?_⟩
  refine (List.pairwise_of_forall_mem_list fun a ha b _ hboth => ?_).isChain
  have hhigh := isHigh_iff.mp hboth.1
  have := h a ha
  omega

theorem noPair_of_ascii {t : List ℕ} (h : ∀ c ∈ t, c < 0x80) : NoPair t :=
  noPair_of_scalar fun c hc => Or.inl (by have := h c hc; omega)

/-- A string has no surrogates. -/
theorem noPair_text (s : String) : NoPair (text s) := by
  refine noPair_of_scalar fun c hc => ?_
  obtain ⟨ch, -, rfl⟩ := List.mem_map.mp hc
  rcases ch.valid with h | ⟨h, h'⟩
  · exact Or.inl h
  · refine Or.inr ⟨?_, h'⟩
    have : 0xDFFF < ch.toNat := h
    omega

/-- The units that the scanner sees for a character. -/
def unitsOf (c : ℕ) : List (Bool × ℕ) :=
  if (shortEscape c).isSome ∨ 32 ≤ c ∧ c < 127 then [(false, c)]
  else if c < 0x10000 then [(true, c)]
  else [(true, highOf c), (true, lowOf c)]

theorem hexVal_hexDigit {v : ℕ} (h : v < 16) : hexVal (hexDigit v) = some v := by
  unfold hexDigit
  split_ifs with h1
  · have : 48 ≤ v + 48 ∧ v + 48 ≤ 57 := by omega
    simp [hexVal, this]
  · have hn : ¬ (48 ≤ v + 87 ∧ v + 87 ≤ 57) := by omega
    have hy : 97 ≤ v + 87 ∧ v + 87 ≤ 102 := by omega
    simp only [hexVal, hn, hy, if_false, if_true, and_self, Option.some.injEq]
    omega

theorem hex4_hexDigit {u : ℕ} (h : u < 0x10000) :
    hex4 (hexDigit (u / 4096 % 16)) (hexDigit (u / 256 % 16)) (hexDigit (u / 16 % 16))
      (hexDigit (u % 16)) = some u := by
  have h16 : ∀ v : ℕ, hexVal (hexDigit (v % 16)) = some (v % 16) := fun v =>
    hexVal_hexDigit (Nat.mod_lt v (by decide))
  simp only [hex4, h16, Option.some.injEq]
  omega

theorem scanUnits_escapeUnit {u : ℕ} (h : u < 0x10000) (r : List ℕ) :
    scanUnits (escapeUnit u ++ r) = (scanUnits r).map fun p => ((true, u) :: p.1, p.2) := by
  rw [scanUnits.eq_def]
  simp [escapeUnit, hex4_hexDigit h]

theorem unescape_shortEscape {c e : ℕ} (h : shortEscape c = some e) :
    e ≠ 117 ∧ unescape e = some c := by
  unfold shortEscape at h
  split_ifs at h with h1 h2 h3 h4 h5 h6
  · obtain rfl : c = e := by simpa using h
    rcases h1 with rfl | rfl <;> decide
  all_goals
    obtain rfl := Option.some.inj h
    subst c
    decide

theorem scanUnits_escapeChar {c : ℕ} (hc : c < 0x110000) (r : List ℕ) :
    scanUnits (escapeChar c ++ r) = (scanUnits r).map fun p => (unitsOf c ++ p.1, p.2) := by
  unfold escapeChar unitsOf
  rcases hs : shortEscape c with _ | e
  · have hq : c ≠ 34 ∧ c ≠ 92 := by
      constructor <;> rintro rfl <;> simp [shortEscape] at hs
    simp only [Option.isSome_none, Bool.false_eq_true, false_or]
    split_ifs with h1 h2
    · rw [List.singleton_append, scanUnits.eq_def]
      have : ¬ c < 32 := by omega
      simp [hq, this]
    · rw [scanUnits_escapeUnit h2]
      rfl
    · have hhi : highOf c < 0x10000 := by unfold highOf; omega
      have hlo : lowOf c < 0x10000 := by unfold lowOf; omega
      rw [List.append_assoc, scanUnits_escapeUnit hhi, scanUnits_escapeUnit hlo]
      rcases scanUnits r with _ | p <;> rfl
  · obtain ⟨he, hu⟩ := unescape_shortEscape hs
    rw [scanUnits.eq_def]
    simp [he, hu]

theorem scanUnits_escape : ∀ {t : List ℕ}, (∀ c ∈ t, c < 0x110000) → ∀ r : List ℕ,
    scanUnits (t.flatMap escapeChar ++ 34 :: r) = .ok (t.flatMap unitsOf, r)
  | [], _, r => by rw [scanUnits.eq_def]; rfl
  | c :: t, h, r => by
    have ih := scanUnits_escape (fun d hd => h d (List.mem_cons_of_mem c hd)) r
    rw [List.flatMap_cons, List.append_assoc, scanUnits_escapeChar (h c List.mem_cons_self), ih]
    rfl

theorem unitsOf_cases (c : ℕ) :
    (∃ e, unitsOf c = [(e, c)]) ∨
      0x10000 ≤ c ∧ unitsOf c = [(true, highOf c), (true, lowOf c)] := by
  unfold unitsOf
  split_ifs with h1 h2
  · exact Or.inl ⟨false, rfl⟩
  · exact Or.inl ⟨true, rfl⟩
  · exact Or.inr ⟨by omega, rfl⟩

theorem highOf_range {c : ℕ} (hc : c < 0x110000) : 0xD800 ≤ highOf c ∧ highOf c < 0xDC00 := by
  unfold highOf; omega

theorem lowOf_range (c : ℕ) : 0xDC00 ≤ lowOf c ∧ lowOf c < 0xE000 := by
  unfold lowOf; omega

theorem pair_highOf_lowOf {c : ℕ} (h : 0x10000 ≤ c) : pair (highOf c) (lowOf c) = c := by
  unfold pair highOf lowOf; omega

/-- A text that does not start with a low surrogate has no unit of one at its start. -/
theorem flatMap_unitsOf_head {t : List ℕ} (hc : ∀ c ∈ t, c < 0x110000)
    (h : ∀ d ∈ t.head?, ¬ isLow d = true) :
    ∀ u ∈ (t.flatMap unitsOf).head?, ¬ isLow u.2 = true := by
  rcases t with _ | ⟨d, t⟩
  · simp
  · have hd : ¬ isLow d = true := h d rfl
    have hhi := highOf_range (hc d List.mem_cons_self)
    rw [List.flatMap_cons]
    rcases unitsOf_cases d with ⟨e, hu⟩ | ⟨-, hu⟩
    · rw [hu]; simpa using hd
    · rw [hu]
      simp only [List.cons_append, List.head?_cons, Option.mem_some, forall_eq', isLow_iff]
      omega

theorem joinEscapes_cons {e : Bool} {c : ℕ} {us : List (Bool × ℕ)}
    (h : ∀ u ∈ us.head?, ¬ (isHigh c = true ∧ isLow u.2 = true)) :
    joinEscapes ((e, c) :: us) = c :: joinEscapes us := by
  rcases us with _ | ⟨⟨f, lo⟩, us⟩
  · rfl
  · have hn : ¬ (isHigh c = true ∧ isLow lo = true) := h (f, lo) rfl
    rw [joinEscapes, if_neg]
    tauto

theorem unitsOf_surrogate {c : ℕ} (h : 0xD800 ≤ c) (h' : c < 0xE000) : unitsOf c = [(true, c)] := by
  have hshort : shortEscape c = none := by
    unfold shortEscape
    simp only [show ¬ (c = 34 ∨ c = 92) by omega, show c ≠ 8 by omega, show c ≠ 12 by omega,
      show c ≠ 10 by omega, show c ≠ 13 by omega, show c ≠ 9 by omega, if_false]
  rw [unitsOf, hshort, if_neg (by simp; omega), if_pos (by omega)]

/-- **The escapes of a text are read as that text**, with its surrogate pairs joined. -/
theorem joinEscapes_unitsOf : ∀ {t : List ℕ}, (∀ c ∈ t, c < 0x110000) →
    joinEscapes (t.flatMap unitsOf) = joinUnits t
  | [], _ => rfl
  | [c], h => by
    rw [List.flatMap_singleton]
    rcases unitsOf_cases c with ⟨e, hu⟩ | ⟨hbig, hu⟩
    · rw [hu]; rfl
    · have hhi := highOf_range (h c List.mem_cons_self)
      have hlo := lowOf_range c
      rw [hu, joinEscapes, if_pos (by simp [hhi, hlo]), pair_highOf_lowOf hbig]
      rfl
  | c :: d :: t, h => by
    by_cases hpair : isHigh c = true ∧ isLow d = true
    · have hc := isHigh_iff.mp hpair.1
      have hd := isLow_iff.mp hpair.2
      have ih := joinEscapes_unitsOf fun e he =>
        h e (List.mem_cons_of_mem c (List.mem_cons_of_mem d he))
      rw [List.flatMap_cons, List.flatMap_cons, unitsOf_surrogate hc.1 (by omega),
        unitsOf_surrogate (by omega) hd.2, List.singleton_append, List.singleton_append, joinEscapes,
        if_pos ⟨rfl, rfl, hpair⟩, ih, joinUnits, if_pos hpair]
    · have ht : ∀ e ∈ d :: t, e < 0x110000 := fun e he => h e (List.mem_cons_of_mem c he)
      have ih := joinEscapes_unitsOf ht
      have hhead : ∀ u ∈ ((d :: t).flatMap unitsOf).head?,
          ¬ (isHigh c = true ∧ isLow u.2 = true) := by
        intro u hu hboth
        refine flatMap_unitsOf_head ht (fun e he hlow => ?_) u hu hboth.2
        obtain rfl : d = e := Option.some.inj he
        exact hpair ⟨hboth.1, hlow⟩
      rw [List.flatMap_cons, joinUnits, if_neg hpair]
      rcases unitsOf_cases c with ⟨e, hu⟩ | ⟨hbig, hu⟩
      · rw [hu, List.singleton_append, joinEscapes_cons hhead, ih]
      · have hhi := highOf_range (h c List.mem_cons_self)
        have hlo := lowOf_range c
        rw [hu, List.cons_append, List.singleton_append, joinEscapes, if_pos (by simp [hhi, hlo]),
          pair_highOf_lowOf hbig, ih]

theorem length_joinUnits_le (t : List ℕ) : (joinUnits t).length ≤ t.length := by
  fun_induction joinUnits t with
  | case1 hi lo t _ ih =>
    simp only [List.length_cons]
    omega
  | case2 hi lo t _ ih =>
    simp only [List.length_cons] at ih ⊢
    omega
  | case3 t _ => exact le_rfl

/-- Nothing is joined exactly if there is no pair. -/
theorem joinUnits_eq_self_iff (t : List ℕ) :
    joinUnits t = t ↔ t.IsChain fun a b => ¬ (isHigh a = true ∧ isLow b = true) := by
  fun_induction joinUnits t with
  | case1 hi lo t hpair _ =>
    refine iff_of_false (fun h => ?_) fun h => (List.isChain_cons_cons.mp h).1 hpair
    have hlength := congrArg List.length h
    have := length_joinUnits_le t
    simp only [List.length_cons] at hlength
    omega
  | case2 hi lo t hpair ih =>
    rw [List.isChain_cons_cons, ← ih, List.cons.injEq]
    exact ⟨fun h => ⟨hpair, h.2⟩, fun h => ⟨rfl, h.2⟩⟩
  | case3 t hshort =>
    rcases t with _ | ⟨c, _ | ⟨d, t⟩⟩
    · simp
    · simp
    · exact absurd rfl (hshort c d t)

theorem noPair_iff {t : List ℕ} (h : ∀ c ∈ t, c < 0x110000) : NoPair t ↔ joinUnits t = t := by
  rw [NoPair, joinUnits_eq_self_iff, and_iff_right h]

theorem scanString_dump {t : List ℕ} (ht : ∀ c ∈ t, c < 0x110000) (r : List ℕ) :
    scanString (t.flatMap escapeChar ++ 34 :: r) = .ok (joinUnits t, r) := by
  rw [scanString, scanUnits_escape ht]
  exact congrArg (fun s => Except.ok (s, r)) (joinEscapes_unitsOf ht)

/-! ## Integers -/

/-- What follows a member: a comma or the closing brace. -/
def Ends (r : List ℕ) : Prop := ∃ c t, r = c :: t ∧ (c = 44 ∨ c = 125)

theorem isDigit_iff {c : ℕ} : isDigit c = true ↔ 48 ≤ c ∧ c ≤ 57 := decide_eq_true_iff

theorem isDigit_decimal {n d : ℕ} (h : d ∈ decimal n) : isDigit d = true := by
  unfold decimal at h
  split_ifs at h with h0
  · obtain rfl : d = 48 := by simpa using h
    rfl
  · obtain ⟨e, he, rfl⟩ := List.mem_map.mp h
    have := Nat.digits_lt_base (by decide) (List.mem_reverse.mp he)
    rw [isDigit_iff]
    omega

/-- Only zero starts with a zero. -/
theorem decimal_eq_cons (n : ℕ) : ∃ d ds, decimal n = d :: ds ∧ (d = 48 → ds = []) := by
  unfold decimal
  split_ifs with h0
  · exact ⟨48, [], rfl, fun _ => rfl⟩
  · have hne : Nat.digits 10 n ≠ [] := Nat.digits_ne_nil_iff_ne_zero.mpr h0
    have hlast := Nat.getLast_digit_ne_zero 10 h0
    refine ⟨(Nat.digits 10 n).getLast hne + 48,
      (Nat.digits 10 n).dropLast.reverse.map (· + 48), ?_, by omega⟩
    conv_lhs => rw [← List.dropLast_append_getLast hne]
    simp

theorem ofDecimal_decimal (n : ℕ) : ofDecimal (decimal n) = n := by
  unfold ofDecimal decimal
  split_ifs with h0
  · rw [h0]; decide
  · have : (((Nat.digits 10 n).reverse.map (· + 48)).reverse.map (· - 48)) = Nat.digits 10 n := by
      rw [← List.map_reverse, List.reverse_reverse, List.map_map]
      exact List.map_id'' (fun _ => Nat.add_sub_cancel ..) _
    rw [this, Nat.ofDigits_digits]

theorem scanIntPart_decimal (n : ℕ) {r : List ℕ} (hr : Ends r) :
    scanIntPart (decimal n ++ r) = .ok (decimal n, r) := by
  obtain ⟨c, t, rfl, hc⟩ := hr
  have hn : isDigit c = false := by rcases hc with rfl | rfl <;> rfl
  obtain ⟨d, ds, hd, h48⟩ := decimal_eq_cons n
  have hdig : ∀ e ∈ d :: ds, isDigit e = true := fun e he => isDigit_decimal (hd ▸ he)
  rw [hd, List.cons_append, scanIntPart]
  by_cases h0 : d = 48
  · rw [if_pos h0, h0, h48 h0]; rfl
  · have hds : ∀ e ∈ ds, isDigit e = true := fun e he => hdig e (List.mem_cons_of_mem d he)
    rw [if_neg h0, if_pos (hdig d List.mem_cons_self), List.takeWhile_append_of_pos hds,
      List.dropWhile_append_of_pos hds]
    simp [hn]

theorem scanFraction_ends {r : List ℕ} (hr : Ends r) : scanFraction r = none := by
  obtain ⟨c, t, rfl, rfl | rfl⟩ := hr <;> rfl

theorem scanExponent_ends {r : List ℕ} (hr : Ends r) : scanExponent r = none := by
  obtain ⟨c, t, rfl, rfl | rfl⟩ := hr <;> rfl

theorem scanMagnitude_decimal {negative : Bool} {n : ℕ} {r : List ℕ} (hr : Ends r)
    (hlen : ¬ maxDigits < (decimal n).length) :
    scanMagnitude negative (decimal n ++ r) = .ok (.int (signed negative n), r) := by
  simp [scanMagnitude, scanIntPart_decimal n hr, scanFraction_ends hr, scanExponent_ends hr, hlen,
    ofDecimal_decimal]

/-- **An integer is read back.** -/
theorem scanNumber_dumpInt {n : ℤ} {s r : List ℕ} (h : dumpInt n = some s) (hr : Ends r) :
    scanNumber (s ++ r) = .ok (.int n, r) := by
  unfold dumpInt at h
  split_ifs at h with hlen hneg
  · obtain rfl := Option.some.inj h
    have hn : signed true n.natAbs = n := by simp only [signed, if_true]; omega
    rw [scanNumber, List.cons_append, List.head?_cons, if_pos rfl, List.tail_cons]
    exact (scanMagnitude_decimal hr hlen).trans (by rw [hn])
  · obtain rfl := Option.some.inj h
    obtain ⟨d, ds, hd, -⟩ := decimal_eq_cons n.natAbs
    have hhead : (decimal n.natAbs ++ r).head? ≠ some 45 := by
      have hdig : isDigit d = true := isDigit_decimal (hd ▸ List.mem_cons_self)
      rw [isDigit_iff] at hdig
      rw [hd]
      simp only [List.cons_append, List.head?_cons, ne_eq, Option.some.injEq]
      omega
    have hn : signed false n.natAbs = n := by
      simp only [signed, Bool.false_eq_true, if_false]; omega
    rw [scanNumber, if_neg hhead, scanMagnitude_decimal hr hlen, hn]

/-! ## Values and members -/

theorem literals_none {d : ℕ} {t : List ℕ} (hd : isDigit d = true) :
    literals.find? (fun l => l.1.isPrefixOf (d :: t)) = none := by
  rw [isDigit_iff] at hd
  simp [literals, text]
  omega

theorem literals_none_neg {d : ℕ} {t : List ℕ} (hd : isDigit d = true) :
    literals.find? (fun l => l.1.isPrefixOf (45 :: d :: t)) = none := by
  rw [isDigit_iff] at hd
  simp [literals, text, List.isPrefixOf]
  omega

/-- A string consists of code points. -/
def Scalar.Valid : Scalar → Prop
  | .int _ => True
  | .str t => ∀ c ∈ t, c < 0x110000

/-- A scalar as it is read. -/
def Scalar.read : Scalar → Scalar
  | .int n => .int n
  | .str t => .str (joinUnits t)

theorem skip_cons {c : ℕ} (h : isSpace c = false) (t : List ℕ) : skip (c :: t) = c :: t := by
  simp [skip, h]

/-- A scalar is written as a string, as a digit and more, or as a minus and a digit and more. -/
theorem dumpScalar_cases {v : Scalar} {s : List ℕ} (h : dumpScalar v = some s) :
    (∃ t, v = .str t ∧ s = dumpString t) ∨ (∃ n, v = .int n ∧ dumpInt n = some s ∧
      ∃ d ds, isDigit d = true ∧ (s = d :: ds ∨ s = 45 :: d :: ds)) := by
  rcases v with n | t
  · refine Or.inr ⟨n, rfl, h, ?_⟩
    obtain ⟨d, ds, hd, -⟩ := decimal_eq_cons n.natAbs
    have hdig : isDigit d = true := isDigit_decimal (hd ▸ List.mem_cons_self)
    simp only [dumpScalar, dumpInt] at h
    split_ifs at h with hlen hneg
    · exact ⟨d, ds, hdig, Or.inr (by rw [← hd]; exact (Option.some.inj h).symm)⟩
    · exact ⟨d, ds, hdig, Or.inl (by rw [← hd]; exact (Option.some.inj h).symm)⟩
  · exact Or.inl ⟨t, rfl, (Option.some.inj h).symm⟩

theorem skip_dumpScalar {v : Scalar} {s : List ℕ} (h : dumpScalar v = some s) (r : List ℕ) :
    skip (s ++ r) = s ++ r := by
  rcases dumpScalar_cases h with ⟨t, -, rfl⟩ | ⟨n, -, -, d, ds, hd, rfl | rfl⟩
  · exact skip_cons rfl _
  · refine skip_cons ?_ _
    rw [isDigit_iff] at hd
    simp only [isSpace, Bool.or_eq_false_iff, beq_eq_false_iff_ne]
    omega
  · exact skip_cons rfl _

/-- **A scalar is read back.** -/
theorem scanValue_dumpScalar {obj arr : List ℕ → Except Err (Value × List ℕ)} {v : Scalar}
    {s r : List ℕ} (h : dumpScalar v = some s) (hv : v.Valid) (hr : Ends r) :
    scanValue obj arr (s ++ r) = .ok (v.read.value, r) := by
  rcases dumpScalar_cases h with ⟨t, rfl, rfl⟩ | ⟨n, rfl, hn, d, ds, hd, hs⟩
  · have hscan := scanString_dump hv r
    rw [dumpString, List.cons_append, List.append_assoc, List.singleton_append, scanValue,
      if_pos rfl, hscan]
    rfl
  · have hnum := scanNumber_dumpInt hn hr
    have hdig := isDigit_iff.mp hd
    rcases hs with rfl | rfl
    · rw [List.cons_append] at hnum ⊢
      rw [scanValue, if_neg (by omega), if_neg (by omega), if_neg (by omega), literals_none hd]
      exact hnum
    · rw [List.cons_append, List.cons_append] at hnum ⊢
      rw [scanValue, if_neg (by omega), if_neg (by omega), if_neg (by omega),
        literals_none_neg hd]
      exact hnum

theorem scanOnce_dumpScalar (depth : ℕ) {v : Scalar} {s r : List ℕ}
    (h : dumpScalar v = some s) (hv : v.Valid) (hr : Ends r) :
    scanOnce depth (s ++ r) = .ok (v.read.value, r) := by
  cases depth <;> exact scanValue_dumpScalar h hv hr

theorem member_dumpMember (depth : ℕ) {f : List ℕ × Scalar} {m r : List ℕ}
    (h : dumpMember f = some m) (hk : NoPair f.1) (hv : f.2.Valid) (hr : Ends r) :
    member (scanOnce depth) (m ++ r) = .ok ((f.1, f.2.read.value), r) := by
  obtain ⟨s, hs, rfl⟩ := Option.map_eq_some_iff.mp h
  have hkey := scanString_dump hk.1 (58 :: (s ++ r))
  rw [(noPair_iff hk.1).mp hk] at hkey
  have hitem := scanOnce_dumpScalar depth hs hv hr
  have htext : dumpString f.1 ++ 58 :: s ++ r =
      34 :: (f.1.flatMap escapeChar ++ 34 :: 58 :: (s ++ r)) := by
    simp [dumpString]
  rw [htext, member]
  simp only [expect, if_true, hkey, skip_cons (c := 58) rfl, skip_dumpScalar hs, hitem, bind,
    Except.bind, pure, Except.pure]

theorem dictSet_new {key : List ℕ} {v : Value} : ∀ {fs : List (List ℕ × Value)},
    key ∉ fs.map Prod.fst → dictSet key v fs = fs ++ [(key, v)]
  | [], _ => rfl
  | f :: fs, h => by
    simp only [List.map_cons, List.mem_cons, not_or] at h
    have ih := dictSet_new (v := v) h.2
    rw [dictSet, if_neg (fun he => h.1 he.symm), ih]
    rfl

/-- The fields as the scanner returns them. -/
def valuesOf (fs : List (List ℕ × Scalar)) : List (List ℕ × Value) :=
  fs.map fun f => (f.1, f.2.value)

/-- The fields with their values as they are read. -/
def readFields (fs : List (List ℕ × Scalar)) : List (List ℕ × Scalar) :=
  fs.map fun f => (f.1, f.2.read)

theorem dumpMember_cons {f : List ℕ × Scalar} {m : List ℕ} (h : dumpMember f = some m) :
    ∃ t, m = 34 :: t := by
  obtain ⟨s, hs, rfl⟩ := Option.map_eq_some_iff.mp h
  exact ⟨_, rfl⟩

/-- The members start with a quote, and there are at most as many of them as characters. -/
theorem dumpMembers_cons : ∀ {f : List ℕ × Scalar} {fs : List (List ℕ × Scalar)} {t : List ℕ},
    dumpMembers (f :: fs) = some t → (∃ u, t = 34 :: u) ∧ fs.length + 1 ≤ t.length
  | f, [], t, h => by
    obtain ⟨u, rfl⟩ := dumpMember_cons h
    exact ⟨⟨u, rfl⟩, by simp⟩
  | f, g :: fs, t, h => by
    obtain ⟨m, hm, h⟩ := Option.bind_eq_some_iff.mp h
    obtain ⟨ms, hms, rfl⟩ := Option.map_eq_some_iff.mp h
    obtain ⟨u, rfl⟩ := dumpMember_cons hm
    have ih := (dumpMembers_cons hms).2
    refine ⟨⟨_, rfl⟩, ?_⟩
    simp only [List.length_cons, List.length_append]
    omega

/-- **The members of an object are read back**, after those read before. -/
theorem members_dumpMembers (depth : ℕ) (r : List ℕ) :
    ∀ {f : List ℕ × Scalar} {fs : List (List ℕ × Scalar)} {t : List ℕ} {n : ℕ}
      (acc : List (List ℕ × Value)), dumpMembers (f :: fs) = some t → fs.length + 1 ≤ n →
      (∀ g ∈ f :: fs, NoPair g.1 ∧ g.2.Valid) →
      (acc.map Prod.fst ++ (f :: fs).map Prod.fst).Nodup →
      members (scanOnce depth) n acc (t ++ 125 :: r) =
        .ok (.obj (acc ++ valuesOf (readFields (f :: fs))), r)
  | f, [], t, n + 1, acc, h, _, hread, hnd => by
    obtain ⟨hk, hv⟩ := hread f List.mem_cons_self
    have hm := member_dumpMember depth h hk hv ⟨125, r, rfl, Or.inr rfl⟩
    have hnew : f.1 ∉ acc.map Prod.fst := by
      intro hmem
      exact (List.nodup_append.mp hnd).2.2 _ hmem _ List.mem_cons_self rfl
    rw [members, hm]
    simp only [bind, Except.bind, skip_cons (c := 125) rfl, if_true, dictSet_new hnew, valuesOf,
      readFields, List.map_cons, List.map_nil]
  | f, g :: fs, t, n + 1, acc, h, hn, hread, hnd => by
    obtain ⟨m, hm, h⟩ := Option.bind_eq_some_iff.mp h
    obtain ⟨ms, hms, rfl⟩ := Option.map_eq_some_iff.mp h
    obtain ⟨⟨u, hu⟩, -⟩ := dumpMembers_cons hms
    obtain ⟨hk, hv⟩ := hread f List.mem_cons_self
    have hmem := member_dumpMember depth hm hk hv
      ⟨44, ms ++ 125 :: r, rfl, Or.inl rfl⟩
    have hnew : f.1 ∉ acc.map Prod.fst := by
      intro hmem
      exact (List.nodup_append.mp hnd).2.2 _ hmem _ List.mem_cons_self rfl
    have hskip : skip (ms ++ 125 :: r) = ms ++ 125 :: r := by
      rw [hu]; exact skip_cons rfl _
    have ih := members_dumpMembers depth r (acc ++ [(f.1, f.2.read.value)]) hms
      (Nat.le_of_succ_le_succ hn)
      (fun e he => hread e (List.mem_cons_of_mem f he)) (by simpa using hnd)
    rw [List.append_assoc, List.cons_append, members, hmem]
    simp only [bind, Except.bind, skip_cons (c := 44) rfl, dictSet_new hnew, hskip]
    rw [if_neg (by decide), if_pos trivial, ih]
    simp [valuesOf, readFields]

/-! ## The whole text -/

theorem insertKey_perm (f : List ℕ × Scalar) : ∀ fs, (insertKey f fs).Perm (f :: fs)
  | [] => List.Perm.refl _
  | g :: gs => by
    rw [insertKey]
    split_ifs
    · exact ((insertKey_perm f gs).cons g).trans (List.Perm.swap f g gs)
    · exact List.Perm.refl _

theorem sortKeys_perm : ∀ fs : List (List ℕ × Scalar), (sortKeys fs).Perm fs
  | [] => List.Perm.refl _
  | f :: fs => (insertKey_perm f (sortKeys fs)).trans ((sortKeys_perm fs).cons f)

/-- An object of strings and of integers with few digits is written. -/
theorem dumps_isSome {fs : List (List ℕ × Scalar)}
    (h : ∀ f ∈ fs, (dumpScalar f.2).isSome = true) : (dumps fs).isSome = true := by
  rw [dumps, Option.isSome_map]
  exact dumpMembers_isSome fun f hf => h f ((sortKeys_perm fs).mem_iff.mp hf)

/-- The characters of a JSON text in ASCII. -/
def Ascii (t : List ℕ) : Prop := ∀ c ∈ t, 0 < c ∧ c < 0x80

theorem Ascii.append {s t : List ℕ} (hs : Ascii s) (ht : Ascii t) : Ascii (s ++ t) := by
  intro c hc
  rcases List.mem_append.mp hc with h | h
  · exact hs c h
  · exact ht c h

theorem Ascii.cons {c : ℕ} {t : List ℕ} (hc : 0 < c ∧ c < 0x80) (ht : Ascii t) :
    Ascii (c :: t) := by
  intro d hd
  rcases List.mem_cons.mp hd with rfl | h
  · exact hc
  · exact ht d h

theorem ascii_nil : Ascii [] := by simp [Ascii]

theorem ascii_escapeUnit (u : ℕ) : Ascii (escapeUnit u) := by
  have hx : ∀ v, 0 < hexDigit (v % 16) ∧ hexDigit (v % 16) < 0x80 := by
    intro v
    unfold hexDigit
    split_ifs <;> omega
  exact .cons (by decide) (.cons (by decide) (.cons (hx _) (.cons (hx _) (.cons (hx _)
    (.cons (hx _) ascii_nil)))))

theorem ascii_escapeChar (c : ℕ) : Ascii (escapeChar c) := by
  unfold escapeChar
  rcases hs : shortEscape c with _ | e
  · simp only
    split_ifs with h1 h2
    · exact .cons (by omega) ascii_nil
    · exact ascii_escapeUnit c
    · exact (ascii_escapeUnit _).append (ascii_escapeUnit _)
  · have he : 0 < e ∧ e < 0x80 := by
      unfold shortEscape at hs
      split_ifs at hs <;> obtain rfl := Option.some.inj hs <;> omega
    exact .cons (by decide) (.cons he ascii_nil)

theorem ascii_dumpString (t : List ℕ) : Ascii (dumpString t) := by
  have hbody : Ascii (t.flatMap escapeChar) := by
    intro c hc
    obtain ⟨d, -, hd⟩ := List.mem_flatMap.mp hc
    exact ascii_escapeChar d c hd
  exact .cons (by decide) (hbody.append (.cons (by decide) ascii_nil))

theorem ascii_dumpScalar {v : Scalar} {s : List ℕ} (h : dumpScalar v = some s) : Ascii s := by
  rcases v with n | t
  · have hdec : Ascii (decimal n.natAbs) := by
      intro c hc
      have := isDigit_iff.mp (isDigit_decimal hc)
      omega
    simp only [dumpScalar, dumpInt] at h
    split_ifs at h
    · obtain rfl := Option.some.inj h
      exact .cons (by decide) hdec
    · obtain rfl := Option.some.inj h
      exact hdec
  · obtain rfl := Option.some.inj h
    exact ascii_dumpString t

theorem ascii_dumpMember {f : List ℕ × Scalar} {m : List ℕ} (h : dumpMember f = some m) :
    Ascii m := by
  obtain ⟨s, hs, rfl⟩ := Option.map_eq_some_iff.mp h
  exact (ascii_dumpString f.1).append (.cons (by decide) (ascii_dumpScalar hs))

theorem ascii_dumpMembers : ∀ {fs : List (List ℕ × Scalar)} {t : List ℕ},
    dumpMembers fs = some t → Ascii t
  | [], _, h => by obtain rfl := Option.some.inj h; exact ascii_nil
  | [_], _, h => ascii_dumpMember h
  | f :: g :: fs, t, h => by
    obtain ⟨m, hm, h⟩ := Option.bind_eq_some_iff.mp h
    obtain ⟨ms, hms, rfl⟩ := Option.map_eq_some_iff.mp h
    exact (ascii_dumpMember hm).append (.cons (by decide) (ascii_dumpMembers hms))

/-- What `dumps` writes is ASCII. -/
theorem ascii_dumps {fs : List (List ℕ × Scalar)} {t : List ℕ} (h : dumps fs = some t) :
    Ascii t := by
  obtain ⟨s, hs, rfl⟩ := Option.map_eq_some_iff.mp h
  exact .cons (by decide) ((ascii_dumpMembers hs).append (.cons (by decide) ascii_nil))

theorem scanOnce_object (depth : ℕ) {fs : List (List ℕ × Scalar)} {t : List ℕ}
    (h : dumpMembers fs = some t) (hread : ∀ g ∈ fs, NoPair g.1 ∧ g.2.Valid)
    (hnd : (fs.map Prod.fst).Nodup) :
    scanOnce (depth + 1) (123 :: (t ++ [125])) = .ok (.obj (valuesOf (readFields fs)), []) := by
  have hobj : scanOnce (depth + 1) (123 :: (t ++ [125])) =
      object (scanOnce depth) (t ++ [125]) := rfl
  rw [hobj]
  rcases fs with _ | ⟨f, fs⟩
  · obtain rfl := Option.some.inj h
    rfl
  · obtain ⟨⟨u, rfl⟩, hlen⟩ := dumpMembers_cons h
    have hm := members_dumpMembers depth [] (n := (34 :: u ++ [125]).length) [] h
      (by rw [List.length_append]; omega) hread hnd
    exact hm

/-- **What `dumps` writes, `loads` reads** as the object with those fields, the surrogate pairs in
its strings joined. -/
theorem loads_dumps_read (depth : ℕ) {fs : List (List ℕ × Scalar)} {t : List ℕ}
    (h : dumps fs = some t) (hnd : (fs.map Prod.fst).Nodup)
    (hvalid : ∀ f ∈ fs, NoPair f.1 ∧ f.2.Valid) :
    loads (depth + 1) t = .ok (.obj (valuesOf (readFields (sortKeys fs)))) := by
  obtain ⟨s, hs, ht⟩ := Option.map_eq_some_iff.mp h
  have hperm := sortKeys_perm fs
  have hscan := scanOnce_object depth hs
    (fun g hg => hvalid g (hperm.mem_iff.mp hg)) ((hperm.map Prod.fst).nodup_iff.mpr hnd)
  rw [loads, decodeJson_ascii (ascii_dumps h)]
  simp only [decode, ← ht]
  rw [skip_cons (c := 123) rfl, hscan]
  rfl

end IdenGrid.Lib.JsonDumps
