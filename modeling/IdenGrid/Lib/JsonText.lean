import IdenGrid.Lib.JsonDumps

/-! # Flat JSON objects and their texts

`dumpObject` writes an object whose values are scalars or objects with a single string in them, as
`json.dumps` does with `separators=(",", ":")`, `ensure_ascii` and `allow_nan=False`. How a float is
written is a parameter (`NumberText`). Texts are lists of code points and may hold surrogates.

`dumpObject_inj`: two objects that are written alike are equal, unless a high surrogate stands right
before a low one in a text of theirs. -/

namespace IdenGrid.Lib.JsonText

open IdenGrid.Lib.Unicode IdenGrid.Lib.Json IdenGrid.Lib.JsonDumps

inductive Atom (φ : Type*)
  | null
  | bool (b : Bool)
  | int (n : ℤ)
  | float (x : φ)
  | str (t : List ℕ)
  /-- `{"tag": "value"}` -/
  | tagged (tag value : List ℕ)
  deriving DecidableEq, Repr

/-- The characters of numbers: digits, a point, an exponent and signs. -/
def isNumeric (c : ℕ) : Bool :=
  decide (48 ≤ c ∧ c ≤ 57) || c == 46 || c == 101 || c == 45 || c == 43

/-- Texts for numbers that are no integers. -/
structure NumberText (φ : Type*) where
  repr : φ → List ℕ
  injective : Function.Injective repr
  numeric : ∀ x, ∀ c ∈ repr x, isNumeric c = true
  point : ∀ x, 46 ∈ repr x ∨ 101 ∈ repr x

variable {φ : Type*} (N : NumberText φ)

/-- One value; `none` where `dumps` raises a `ValueError`. -/
def dumpAtom : Atom φ → Option (List ℕ)
  | .null => some (text "null")
  | .bool true => some (text "true")
  | .bool false => some (text "false")
  | .int n => dumpInt n
  | .float x => some (N.repr x)
  | .str t => some (dumpString t)
  | .tagged tag value => some (123 :: (dumpString tag ++ 58 :: (dumpString value ++ [125])))

def dumpEntry (f : List ℕ × Atom φ) : Option (List ℕ) :=
  (dumpAtom N f.2).map fun v => dumpString f.1 ++ 58 :: v

def dumpEntries : List (List ℕ × Atom φ) → Option (List ℕ)
  | [] => some []
  | [f] => dumpEntry N f
  | f :: g :: fs =>
    (dumpEntry N f).bind fun m => (dumpEntries (g :: fs)).map fun ms => m ++ 44 :: ms

def dumpObject (fields : List (List ℕ × Atom φ)) : Option (List ℕ) :=
  (dumpEntries N fields).map fun t => 123 :: (t ++ [125])

/-- No high surrogate stands right before a low one. -/
def Atom.Plain : Atom φ → Prop
  | .str t => NoPair t
  | .tagged tag value => NoPair tag ∧ NoPair value
  | _ => True

/-- Nor does one in the key. -/
def PlainEntry (f : List ℕ × Atom φ) : Prop := NoPair f.1 ∧ f.2.Plain

variable {N : NumberText φ}

/-! ## Values can be told apart -/

/-- A string ends where it ends. -/
theorem dumpString_append {s t r u : List ℕ} (hs : NoPair s) (ht : NoPair t)
    (h : dumpString s ++ r = dumpString t ++ u) : s = t ∧ r = u := by
  have hread := scanString_dump hs.1 r
  have hread' := scanString_dump ht.1 u
  rw [(noPair_iff hs.1).mp hs] at hread
  rw [(noPair_iff ht.1).mp ht] at hread'
  have htail : s.flatMap escapeChar ++ 34 :: r = t.flatMap escapeChar ++ 34 :: u := by
    simpa [dumpString] using h
  rw [htail] at hread
  exact Prod.mk.inj (Except.ok.inj (hread.symm.trans hread'))

/-- The kind of a value. -/
def Atom.kind : Atom φ → ℕ
  | .null => 0
  | .bool _ => 1
  | .int _ => 2
  | .float _ => 2
  | .str _ => 3
  | .tagged _ _ => 4

/-- What the first character says about the kind. -/
def headKind (c : ℕ) : ℕ :=
  if c = 110 then 0 else if c = 116 ∨ c = 102 then 1 else if c = 34 then 3 else if c = 123 then 4
  else 2

theorem headKind_numeric {c : ℕ} (h : isNumeric c = true) : headKind c = 2 := by
  simp only [isNumeric, Bool.or_eq_true, decide_eq_true_eq, beq_iff_eq] at h
  unfold headKind
  rw [if_neg (by omega), if_neg (by omega), if_neg (by omega), if_neg (by omega)]

theorem numeric_dumpInt {n : ℤ} {x : List ℕ} (h : dumpInt n = some x) :
    ∀ c ∈ x, isDigit c = true ∨ c = 45 := by
  unfold dumpInt at h
  split_ifs at h with hlength hneg
  · obtain rfl := Option.some.inj h
    intro c hc
    rcases List.mem_cons.mp hc with rfl | hc
    · exact Or.inr rfl
    · exact Or.inl (isDigit_decimal hc)
  · obtain rfl := Option.some.inj h
    exact fun c hc => Or.inl (isDigit_decimal hc)

theorem isNumeric_of_int {c : ℕ} (h : isDigit c = true ∨ c = 45) :
    isNumeric c = true ∧ c ≠ 46 ∧ c ≠ 101 := by
  rw [isDigit_iff] at h
  simp only [isNumeric, Bool.or_eq_true, decide_eq_true_eq, beq_iff_eq]
  omega

theorem dumpInt_ne_nil {n : ℤ} : dumpInt n ≠ some [] := by
  intro h
  obtain ⟨d, ds, hd, -⟩ := decimal_eq_cons n.natAbs
  unfold dumpInt at h
  split_ifs at h with hlength hneg
  · simp at h
  · rw [hd] at h
    simp at h

/-- Numbers consist of numeric characters. -/
theorem numeric_dumpAtom {a : Atom φ} {x : List ℕ} (h : dumpAtom N a = some x) (hk : a.kind = 2) :
    x ≠ [] ∧ ∀ c ∈ x, isNumeric c = true := by
  cases a with
  | int n =>
    exact ⟨fun hx => dumpInt_ne_nil (hx ▸ h), fun c hc =>
      (isNumeric_of_int (numeric_dumpInt h c hc)).1⟩
  | float y =>
    obtain rfl := Option.some.inj h
    refine ⟨fun hx => ?_, N.numeric y⟩
    have hpoint := N.point y
    simp [hx] at hpoint
  | null => simp [Atom.kind] at hk
  | bool b => simp [Atom.kind] at hk
  | str t => simp [Atom.kind] at hk
  | tagged tag value => simp [Atom.kind] at hk

theorem headKind_dumpAtom {a : Atom φ} {x : List ℕ} (h : dumpAtom N a = some x) :
    ∃ c t, x = c :: t ∧ headKind c = a.kind := by
  by_cases hk : a.kind = 2
  · obtain ⟨hne, hnum⟩ := numeric_dumpAtom h hk
    obtain ⟨c, t, rfl⟩ := List.exists_cons_of_ne_nil hne
    exact ⟨c, t, rfl, (headKind_numeric (hnum c List.mem_cons_self)).trans hk.symm⟩
  rcases a with _ | (_ | _) | n | x | s | ⟨tag, value⟩
  · obtain rfl := Option.some.inj h
    exact ⟨_, _, rfl, rfl⟩
  · obtain rfl := Option.some.inj h
    exact ⟨_, _, rfl, rfl⟩
  · obtain rfl := Option.some.inj h
    exact ⟨_, _, rfl, rfl⟩
  · exact absurd rfl hk
  · exact absurd rfl hk
  · obtain rfl := Option.some.inj h
    exact ⟨_, _, rfl, rfl⟩
  · obtain rfl := Option.some.inj h
    exact ⟨_, _, rfl, rfl⟩

/-- The number is the longest numeric text. -/
theorem takeWhile_numeric {x r : List ℕ} (hx : ∀ c ∈ x, isNumeric c = true) (hr : Ends r) :
    (x ++ r).takeWhile isNumeric = x := by
  obtain ⟨c, t, rfl, hc⟩ := hr
  have hn : isNumeric c = false := by
    rcases hc with rfl | rfl
    · rfl
    · rfl
  rw [List.takeWhile_append_of_pos hx, List.takeWhile_cons_of_neg (by simp [hn]), List.append_nil]

theorem number_inj {a b : Atom φ} {x : List ℕ} (ha : dumpAtom N a = some x)
    (hb : dumpAtom N b = some x) (hka : a.kind = 2) (hkb : b.kind = 2) : a = b := by
  have hmixed : ∀ {n : ℤ} {y : φ}, dumpInt n = some x → N.repr y ≠ x := by
    intro n y hn hy
    have hint := numeric_dumpInt hn
    rcases N.point y with hp | hp
    · exact (isNumeric_of_int (hint 46 (hy ▸ hp))).2.1 rfl
    · exact (isNumeric_of_int (hint 101 (hy ▸ hp))).2.2 rfl
  rcases a with _ | _ | n | y | _ | _
  case int =>
    rcases b with _ | _ | m | z | _ | _
    case int =>
      have hr : Ends [44] := ⟨44, [], rfl, Or.inl rfl⟩
      have hread := (scanNumber_dumpInt ha hr).symm.trans (scanNumber_dumpInt hb hr)
      simpa using hread
    case float => exact absurd (Option.some.inj hb) (hmixed ha)
    all_goals simp [Atom.kind] at hkb
  case float =>
    rcases b with _ | _ | m | z | _ | _
    case int => exact absurd (Option.some.inj ha) (hmixed hb)
    case float => rw [N.injective (Option.some.inj (ha.trans hb.symm))]
    all_goals simp [Atom.kind] at hkb
  all_goals simp [Atom.kind] at hka

/-- **A value ends where it ends**, before a comma or a brace. -/
theorem dumpAtom_append {a b : Atom φ} {x y r s : List ℕ} (hpa : a.Plain) (hpb : b.Plain)
    (ha : dumpAtom N a = some x) (hb : dumpAtom N b = some y) (hr : Ends r) (hs : Ends s)
    (h : x ++ r = y ++ s) : a = b ∧ r = s := by
  have hkind : a.kind = b.kind := by
    obtain ⟨c, t, rfl, hc⟩ := headKind_dumpAtom ha
    obtain ⟨d, u, rfl, hd⟩ := headKind_dumpAtom hb
    rw [← hc, ← hd, (List.cons.inj h).1]
  by_cases hnumber : a.kind = 2
  · have hx := (numeric_dumpAtom ha hnumber).2
    have hy := (numeric_dumpAtom hb (hkind ▸ hnumber)).2
    have hxy : x = y := by
      rw [← takeWhile_numeric hx hr, h, takeWhile_numeric hy hs]
    subst hxy
    exact ⟨number_inj ha hb hnumber (hkind ▸ hnumber), List.append_cancel_left h⟩
  rcases a with _ | b1 | n | f | s1 | ⟨tag, value⟩
  · rcases b with _ | b2 | m | g | s2 | ⟨tag', value'⟩
    · obtain rfl := Option.some.inj (ha.symm.trans hb)
      exact ⟨rfl, List.append_cancel_left h⟩
    all_goals simp [Atom.kind] at hkind
  · rcases b with _ | b2 | m | g | s2 | ⟨tag', value'⟩
    · simp [Atom.kind] at hkind
    · rcases b1 with _ | _ <;> rcases b2 with _ | _
      · obtain rfl := Option.some.inj (ha.symm.trans hb)
        exact ⟨rfl, List.append_cancel_left h⟩
      · obtain rfl := Option.some.inj ha
        obtain rfl := Option.some.inj hb
        exact absurd (List.cons.inj h).1 (by decide)
      · obtain rfl := Option.some.inj ha
        obtain rfl := Option.some.inj hb
        exact absurd (List.cons.inj h).1 (by decide)
      · obtain rfl := Option.some.inj (ha.symm.trans hb)
        exact ⟨rfl, List.append_cancel_left h⟩
    all_goals simp [Atom.kind] at hkind
  · exact absurd rfl hnumber
  · exact absurd rfl hnumber
  · rcases b with _ | b2 | m | g | s2 | ⟨tag', value'⟩
    case str =>
      obtain rfl := Option.some.inj ha
      obtain rfl := Option.some.inj hb
      obtain ⟨rfl, hrest⟩ := dumpString_append hpa hpb h
      exact ⟨rfl, hrest⟩
    all_goals simp [Atom.kind] at hkind
  · rcases b with _ | b2 | m | g | s2 | ⟨tag', value'⟩
    case tagged =>
      obtain rfl := Option.some.inj ha
      obtain rfl := Option.some.inj hb
      simp only [List.cons_append, List.append_assoc, List.cons.injEq, true_and] at h
      obtain ⟨rfl, hvalue⟩ := dumpString_append hpa.1 hpb.1 h
      obtain ⟨rfl, hrest⟩ := dumpString_append hpa.2 hpb.2 (List.cons.inj hvalue).2
      exact ⟨rfl, (List.cons.inj hrest).2⟩
    all_goals simp [Atom.kind] at hkind

/-! ## Objects can be told apart -/

theorem dumpEntry_append {f g : List ℕ × Atom φ} {x y r s : List ℕ} (hpf : PlainEntry f)
    (hpg : PlainEntry g) (hf : dumpEntry N f = some x) (hg : dumpEntry N g = some y) (hr : Ends r)
    (hs : Ends s) (h : x ++ r = y ++ s) : f = g ∧ r = s := by
  obtain ⟨v, hv, rfl⟩ := Option.map_eq_some_iff.mp hf
  obtain ⟨w, hw, rfl⟩ := Option.map_eq_some_iff.mp hg
  simp only [List.append_assoc, List.cons_append] at h
  obtain ⟨hkey, hvalue⟩ := dumpString_append hpf.1 hpg.1 h
  obtain ⟨hatom, hrest⟩ := dumpAtom_append hpf.2 hpg.2 hv hw hr hs (List.cons.inj hvalue).2
  exact ⟨Prod.ext hkey hatom, hrest⟩

theorem dumpEntry_head {f : List ℕ × Atom φ} {x : List ℕ} (h : dumpEntry N f = some x) :
    ∃ t, x = 34 :: t := by
  obtain ⟨v, -, rfl⟩ := Option.map_eq_some_iff.mp h
  exact ⟨_, rfl⟩

theorem dumpEntries_head : ∀ {f : List ℕ × Atom φ} {fs : List (List ℕ × Atom φ)} {x : List ℕ},
    dumpEntries N (f :: fs) = some x → ∃ t, x = 34 :: t
  | _, [], _, h => dumpEntry_head h
  | _, _ :: _, _, h => by
    obtain ⟨m, hm, h⟩ := Option.bind_eq_some_iff.mp h
    obtain ⟨ms, -, rfl⟩ := Option.map_eq_some_iff.mp h
    obtain ⟨t, rfl⟩ := dumpEntry_head hm
    exact ⟨_, rfl⟩

theorem dumpEntries_append : ∀ {fs gs : List (List ℕ × Atom φ)} {x y : List ℕ},
    (∀ f ∈ fs, PlainEntry f) → (∀ g ∈ gs, PlainEntry g) → dumpEntries N fs = some x →
      dumpEntries N gs = some y → x ++ [125] = y ++ [125] → fs = gs
  | [], [], _, _, _, _, _, _, _ => rfl
  | [], g :: gs, x, y, _, _, hx, hy, h => by
    obtain rfl := Option.some.inj hx
    obtain ⟨t, rfl⟩ := dumpEntries_head hy
    simp at h
  | f :: fs, [], x, y, _, _, hx, hy, h => by
    obtain rfl := Option.some.inj hy
    obtain ⟨t, rfl⟩ := dumpEntries_head hx
    simp at h
  | [f], [g], x, y, hf, hg, hx, hy, h => by
    have hr : Ends [125] := ⟨125, [], rfl, Or.inr rfl⟩
    rw [(dumpEntry_append (hf f List.mem_cons_self) (hg g List.mem_cons_self) hx hy hr hr h).1]
  | [f], g :: g' :: gs, x, y, hf, hg, hx, hy, h => by
    obtain ⟨n, hn, hy⟩ := Option.bind_eq_some_iff.mp hy
    obtain ⟨ns, -, rfl⟩ := Option.map_eq_some_iff.mp hy
    simp only [List.append_assoc, List.cons_append] at h
    have hrest := (dumpEntry_append (hf f List.mem_cons_self) (hg g List.mem_cons_self) hx hn
      ⟨125, [], rfl, Or.inr rfl⟩ ⟨44, _, rfl, Or.inl rfl⟩ h).2
    exact absurd (List.cons.inj hrest).1 (by decide)
  | f :: f' :: fs, [g], x, y, hf, hg, hx, hy, h => by
    obtain ⟨m, hm, hx⟩ := Option.bind_eq_some_iff.mp hx
    obtain ⟨ms, -, rfl⟩ := Option.map_eq_some_iff.mp hx
    simp only [List.append_assoc, List.cons_append] at h
    have hrest := (dumpEntry_append (hf f List.mem_cons_self) (hg g List.mem_cons_self) hm hy
      ⟨44, _, rfl, Or.inl rfl⟩ ⟨125, [], rfl, Or.inr rfl⟩ h).2
    exact absurd (List.cons.inj hrest).1 (by decide)
  | f :: f' :: fs, g :: g' :: gs, x, y, hf, hg, hx, hy, h => by
    obtain ⟨m, hm, hx⟩ := Option.bind_eq_some_iff.mp hx
    obtain ⟨ms, hms, rfl⟩ := Option.map_eq_some_iff.mp hx
    obtain ⟨n, hn, hy⟩ := Option.bind_eq_some_iff.mp hy
    obtain ⟨ns, hns, rfl⟩ := Option.map_eq_some_iff.mp hy
    simp only [List.append_assoc, List.cons_append] at h
    obtain ⟨rfl, hrest⟩ := dumpEntry_append (hf f List.mem_cons_self) (hg g List.mem_cons_self) hm hn
      ⟨44, _, rfl, Or.inl rfl⟩ ⟨44, _, rfl, Or.inl rfl⟩ h
    rw [dumpEntries_append (fun e he => hf e (List.mem_cons_of_mem f he))
      (fun e he => hg e (List.mem_cons_of_mem _ he)) hms hns (List.cons.inj hrest).2]

/-- **Objects can be told from their texts.** -/
theorem dumpObject_inj {fs gs : List (List ℕ × Atom φ)} {x : List ℕ} (hpf : ∀ f ∈ fs, PlainEntry f)
    (hpg : ∀ g ∈ gs, PlainEntry g) (hf : dumpObject N fs = some x) (hg : dumpObject N gs = some x) :
    fs = gs := by
  obtain ⟨t, ht, rfl⟩ := Option.map_eq_some_iff.mp hf
  obtain ⟨u, hu, h⟩ := Option.map_eq_some_iff.mp hg
  exact dumpEntries_append hpf hpg ht hu (List.cons.inj h).2.symm

end IdenGrid.Lib.JsonText
