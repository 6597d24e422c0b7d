import IdenGrid.Lib.Unicode

/-! # UTF-8 in both directions

The encoding is unique: `encodeUtf8` gives back the bytes that were read (`encodeUtf8_of_utf8`), and
what it writes is read back (`utf8_encodeUtf8`). -/

namespace IdenGrid.Lib.Utf8

open IdenGrid.Lib.Unicode

theorem encodeUtf8_cons (c : ℕ) (t : List ℕ) : encodeUtf8 (c :: t) = encodeUtf8 [c] ++ encodeUtf8 t := by
  simp [encodeUtf8]

theorem encodeUtf8_append (s t : List ℕ) : encodeUtf8 (s ++ t) = encodeUtf8 s ++ encodeUtf8 t :=
  List.flatMap_append

theorem encodeUtf8_one {c : ℕ} (h : c < 0x80) : encodeUtf8 [c] = [c] := by
  simp [encodeUtf8, h]

theorem encodeUtf8_two {c : ℕ} (h : 0x80 ≤ c) (h' : c < 0x800) :
    encodeUtf8 [c] = [0xC0 + c / 0x40, 0x80 + c % 0x40] := by
  simp [encodeUtf8, show ¬ c < 0x80 by omega, h']

theorem encodeUtf8_three {c : ℕ} (h : 0x800 ≤ c) (h' : c < 0x10000) :
    encodeUtf8 [c] = [0xE0 + c / 0x1000, 0x80 + c / 0x40 % 0x40, 0x80 + c % 0x40] := by
  simp [encodeUtf8, show ¬ c < 0x80 by omega, show ¬ c < 0x800 by omega, h']

theorem encodeUtf8_four {c : ℕ} (h : 0x10000 ≤ c) :
    encodeUtf8 [c] = [0xF0 + c / 0x40000, 0x80 + c / 0x1000 % 0x40, 0x80 + c / 0x40 % 0x40,
      0x80 + c % 0x40] := by
  simp [encodeUtf8, show ¬ c < 0x80 by omega, show ¬ c < 0x800 by omega,
    show ¬ c < 0x10000 by omega]

theorem isTail_iff {b : ℕ} : isTail b = true ↔ 0x80 ≤ b ∧ b < 0xC0 := decide_eq_true_iff

/-- **The bytes of what is read are those that were read.** -/
theorem encodeUtf8_of_utf8 {s t : List ℕ} (h : utf8 s = some t) : encodeUtf8 t = s := by
  fun_induction utf8 s generalizing t with
  | case1 =>
    obtain rfl := Option.some.inj h
    rfl
  | case2 a s ha ih =>
    obtain ⟨t, ht, rfl⟩ := Option.map_eq_some_iff.mp h
    rw [encodeUtf8_cons, encodeUtf8_one ha, ih ht]
    rfl
  | case3 a ha b s htwo hb ih =>
    obtain ⟨t, ht, rfl⟩ := Option.map_eq_some_iff.mp h
    rw [isTail_iff] at hb
    rw [encodeUtf8_cons, ih ht, encodeUtf8_two (by omega) (by omega)]
    simp only [List.cons_append, List.nil_append, List.cons.injEq, and_true]
    omega
  | case5 a ha b htwo c s hthree hbc ih =>
    obtain ⟨t, ht, rfl⟩ := Option.map_eq_some_iff.mp h
    obtain ⟨hb, hc, hlow⟩ := hbc
    rw [isTail_iff] at hb hc
    rw [encodeUtf8_cons, ih ht, encodeUtf8_three (by omega) (by omega)]
    simp only [List.cons_append, List.nil_append, List.cons.injEq, and_true]
    omega
  | case7 a ha b htwo c hthree d s hfour hbcd ih =>
    obtain ⟨t, ht, rfl⟩ := Option.map_eq_some_iff.mp h
    obtain ⟨hb, hc, hd, hlow, hhigh⟩ := hbcd
    rw [isTail_iff] at hb hc hd
    rw [encodeUtf8_cons, ih ht, encodeUtf8_four (by omega)]
    simp only [List.cons_append, List.nil_append, List.cons.injEq, and_true]
    omega
  | _ => simp at h

/-- **What is written is read back.** -/
theorem utf8_encodeUtf8 : ∀ {t : List ℕ}, (∀ c ∈ t, c < 0x110000) → utf8 (encodeUtf8 t) = some t
  | [], _ => rfl
  | c :: t, h => by
    obtain ⟨hc, ht⟩ := List.forall_mem_cons.mp h
    have ih := utf8_encodeUtf8 ht
    rw [encodeUtf8_cons]
    by_cases hone : c < 0x80
    · rw [encodeUtf8_one hone, List.singleton_append, utf8.eq_def]
      simp only [if_pos hone, ih, Option.map_some]
    by_cases htwo : c < 0x800
    · rw [encodeUtf8_two (by omega) htwo, List.cons_append, List.singleton_append, utf8.eq_def]
      simp only [if_neg (show ¬ 0xC0 + c / 0x40 < 0x80 by omega),
        if_pos (show 0xC2 ≤ 0xC0 + c / 0x40 ∧ 0xC0 + c / 0x40 < 0xE0 by omega),
        if_pos (isTail_iff.mpr (show 0x80 ≤ 0x80 + c % 0x40 ∧ 0x80 + c % 0x40 < 0xC0 by omega)), ih,
        Option.map_some, Option.some.injEq, List.cons.injEq, and_true]
      omega
    by_cases hthree : c < 0x10000
    · rw [encodeUtf8_three (by omega) hthree, List.cons_append, List.cons_append,
        List.singleton_append, utf8.eq_def]
      simp only [if_neg (show ¬ 0xE0 + c / 0x1000 < 0x80 by omega),
        if_neg (show ¬ (0xC2 ≤ 0xE0 + c / 0x1000 ∧ 0xE0 + c / 0x1000 < 0xE0) by omega),
        if_pos (show 0xE0 ≤ 0xE0 + c / 0x1000 ∧ 0xE0 + c / 0x1000 < 0xF0 by omega)]
      rw [if_pos ⟨isTail_iff.mpr (by omega), isTail_iff.mpr (by omega), by omega⟩, ih]
      simp only [Option.map_some, Option.some.injEq, List.cons.injEq, and_true]
      omega
    · rw [encodeUtf8_four (by omega), List.cons_append, List.cons_append, List.cons_append,
        List.singleton_append, utf8.eq_def]
      simp only [if_neg (show ¬ 0xF0 + c / 0x40000 < 0x80 by omega),
        if_neg (show ¬ (0xC2 ≤ 0xF0 + c / 0x40000 ∧ 0xF0 + c / 0x40000 < 0xE0) by omega),
        if_neg (show ¬ (0xE0 ≤ 0xF0 + c / 0x40000 ∧ 0xF0 + c / 0x40000 < 0xF0) by omega),
        if_pos (show 0xF0 ≤ 0xF0 + c / 0x40000 ∧ 0xF0 + c / 0x40000 < 0xF5 by omega)]
      rw [if_pos ⟨isTail_iff.mpr (by omega), isTail_iff.mpr (by omega), isTail_iff.mpr (by omega),
        by omega, by omega⟩, ih]
      simp only [Option.map_some, Option.some.injEq, List.cons.injEq, and_true]
      omega

theorem lt_of_mem_encodeUtf8 {t : List ℕ} (h : ∀ c ∈ t, c < 0x110000) {b : ℕ}
    (hb : b ∈ encodeUtf8 t) : b < 256 := by
  obtain ⟨c, hc, hb⟩ := List.mem_flatMap.mp hb
  have := h c hc
  split_ifs at hb <;> simp only [List.mem_cons, List.not_mem_nil, or_false] at hb <;> omega

end IdenGrid.Lib.Utf8
