import IdenGrid.Lib.JsonSize

/-! # Documents and their JSON texts

A `Doc` is what `json.dumps` is given: nested lists and dictionaries of strings, numbers, Booleans and
`None`, without NaN and the infinities. `Doc.write` is its text, with any white space after the commas and
colons.

`reads_write`: a scanner whose hook keeps objects reads the text back as the document, wherever it stands.
`loads_write`: so does `json.loads`, from the bytes. -/

namespace IdenGrid.Lib.JsonTree

open IdenGrid.Lib.Double IdenGrid.Lib.Unicode IdenGrid.Lib.JsonDumps IdenGrid.Lib.FloatRepr
open IdenGrid.Lib.Json hiding member members object elements array scanValue scanOnce decode
open IdenGrid.Lib.JsonHooks hiding Written Written.skip
open IdenGrid.Lib.JsonSize

inductive Doc
  | null
  | bool (b : Bool)
  | int (n : ℤ)
  | float (x : Float64)
  | str (t : List ℕ)
  | arr (l : List Doc)
  | obj (fields : List (List ℕ × Doc))

/-- The white space after commas and colons. -/
structure Style where
  item : List ℕ := []
  key : List ℕ := []
  item_space : ∀ c ∈ item, isSpace c = true := by decide
  key_space : ∀ c ∈ key, isSpace c = true := by decide

/-- `separators=(",", ":")` -/
def compact : Style where

/-- The separators that `json.dumps` takes by itself. -/
def spaced : Style where
  item := [32]
  key := [32]

/-- The value of a float; the two zeros are one. -/
def floatValue (x : Float64) : ℚ := if x.negative then -x.magnitude else x.magnitude

mutual

/-- What the document is read as. -/
def Doc.value : Doc → Value
  | .null => .null
  | .bool b => .bool b
  | .int n => .int n
  | .float x => .float (.finite (floatValue x))
  | .str t => .str t
  | .arr l => .arr (values l)
  | .obj fields => .obj (fieldValues fields)

def values : List Doc → List Value
  | [] => []
  | d :: l => d.value :: values l

def fieldValues : List (List ℕ × Doc) → List (List ℕ × Value)
  | [] => []
  | f :: l => (f.1, f.2.value) :: fieldValues l

end

/-- Texts with commas between them. -/
def itemsText (s : Style) : List (List ℕ) → List ℕ
  | [] => []
  | [x] => x
  | x :: y :: l => x ++ 44 :: (s.item ++ itemsText s (y :: l))

def fieldText (s : Style) (key x : List ℕ) : List ℕ := dumpString key ++ 58 :: (s.key ++ x)

mutual

/-- The text of a document; `none` where an integer has too many digits. -/
def Doc.write (s : Style) : Doc → Option (List ℕ)
  | .null => some (text "null")
  | .bool b => some (if b then text "true" else text "false")
  | .int n => dumpInt n
  | .float x => some (FloatRepr.repr x)
  | .str t => some (dumpString t)
  | .arr l => (writeItems s l).map fun ts => 91 :: (itemsText s ts ++ [93])
  | .obj fields => (writeFields s fields).map fun ts => 123 :: (itemsText s ts ++ [125])

def writeItems (s : Style) : List Doc → Option (List (List ℕ))
  | [] => some []
  | d :: l => (d.write s).bind fun x => (writeItems s l).map fun ts => x :: ts

def writeFields (s : Style) : List (List ℕ × Doc) → Option (List (List ℕ))
  | [] => some []
  | f :: l => (f.2.write s).bind fun x => (writeFields s l).map fun ts => fieldText s f.1 x :: ts

end

def insertField (f : List ℕ × Doc) : List (List ℕ × Doc) → List (List ℕ × Doc)
  | [] => [f]
  | g :: gs => if keyLt g.1 f.1 then g :: insertField f gs else f :: g :: gs

mutual

/-- `sort_keys=True` -/
def Doc.sorted : Doc → Doc
  | .arr l => .arr (sortedItems l)
  | .obj fields => .obj (sortedFields fields)
  | d => d

def sortedItems : List Doc → List Doc
  | [] => []
  | d :: l => d.sorted :: sortedItems l

def sortedFields : List (List ℕ × Doc) → List (List ℕ × Doc)
  | [] => []
  | f :: l => insertField (f.1, f.2.sorted) (sortedFields l)

end

mutual

/-- Strings are code points without surrogate pairs, and the keys of a dictionary do not repeat. -/
def Doc.Valid : Doc → Prop
  | .str t => NoPair t
  | .arr l => ValidItems l
  | .obj fields => ValidFields fields ∧ (fields.map Prod.fst).Nodup
  | _ => True

def ValidItems : List Doc → Prop
  | [] => True
  | d :: l => d.Valid ∧ ValidItems l

def ValidFields : List (List ℕ × Doc) → Prop
  | [] => True
  | f :: l => (NoPair f.1 ∧ f.2.Valid) ∧ ValidFields l

end

mutual

/-- How deep containers are nested. -/
def Doc.height : Doc → ℕ
  | .arr l => heightItems l + 1
  | .obj fields => heightFields fields + 1
  | _ => 0

def heightItems : List Doc → ℕ
  | [] => 0
  | d :: l => max d.height (heightItems l)

def heightFields : List (List ℕ × Doc) → ℕ
  | [] => 0
  | f :: l => max f.2.height (heightFields l)

end

mutual

/-- Integers that are not too long to be written. -/
def Doc.Short : Doc → Prop
  | .int n => n.natAbs < 10 ^ maxDigits
  | .arr l => ShortItems l
  | .obj fields => ShortFields fields
  | _ => True

def ShortItems : List Doc → Prop
  | [] => True
  | d :: l => d.Short ∧ ShortItems l

def ShortFields : List (List ℕ × Doc) → Prop
  | [] => True
  | f :: l => f.2.Short ∧ ShortFields l

end

mutual

theorem exists_write (s : Style) : ∀ d : Doc, d.Short → ∃ x, d.write s = some x
  | .null, _ => ⟨_, rfl⟩
  | .bool _, _ => ⟨_, rfl⟩
  | .int _, h => Option.isSome_iff_exists.mp (dumpInt_isSome h)
  | .float _, _ => ⟨_, rfl⟩
  | .str _, _ => ⟨_, rfl⟩
  | .arr l, h => by
    obtain ⟨ts, hts⟩ := exists_writeItems s l h
    exact ⟨_, congrArg (Option.map fun ts => 91 :: (itemsText s ts ++ [93])) hts⟩
  | .obj fields, h => by
    obtain ⟨ts, hts⟩ := exists_writeFields s fields h
    exact ⟨_, congrArg (Option.map fun ts => 123 :: (itemsText s ts ++ [125])) hts⟩

theorem exists_writeItems (s : Style) : ∀ l : List Doc, ShortItems l → ∃ ts, writeItems s l = some ts
  | [], _ => ⟨[], rfl⟩
  | d :: l, h => by
    obtain ⟨x, hx⟩ := exists_write s d h.1
    obtain ⟨ts, hts⟩ := exists_writeItems s l h.2
    exact ⟨x :: ts, by rw [writeItems, hx, hts]; rfl⟩

theorem exists_writeFields (s : Style) : ∀ l : List (List ℕ × Doc), ShortFields l →
    ∃ ts, writeFields s l = some ts
  | [], _ => ⟨[], rfl⟩
  | f :: l, h => by
    obtain ⟨x, hx⟩ := exists_write s f.2 h.1
    obtain ⟨ts, hts⟩ := exists_writeFields s l h.2
    exact ⟨fieldText s f.1 x :: ts, by rw [writeFields, hx, hts]; rfl⟩

end

/-! ## Texts in their place -/

/-- What may stand behind a value: a comma, a closing bracket or brace, white space, or nothing. -/
def Follows (r : List ℕ) : Prop := ∀ c ∈ r.head?, c = 44 ∨ c = 93 ∨ c = 125 ∨ isSpace c = true

theorem breaks_of_follows {r : List ℕ} (h : Follows r) : Breaks r := by
  intro c hc
  have hspace : isSpace c = true ↔ c = 32 ∨ c = 9 ∨ c = 10 ∨ c = 13 := by
    simp [isSpace, or_assoc]
  have hcases := h c hc
  rw [hspace] at hcases
  refine ⟨?_, ?_, ?_, ?_⟩
  · rw [← Bool.not_eq_true, isDigit_iff]
    omega
  all_goals omega

theorem follows_comma (r : List ℕ) : Follows (44 :: r) := by simp [Follows]

theorem follows_bracket (r : List ℕ) : Follows (93 :: r) := by simp [Follows]

theorem follows_brace (r : List ℕ) : Follows (125 :: r) := by simp [Follows]

/-- A text that does not start with white space or a closing bracket. -/
def Starts (x : List ℕ) : Prop := ∃ c t, x = c :: t ∧ isSpace c = false ∧ c ≠ 93

theorem Starts.skip {x : List ℕ} (h : Starts x) (r : List ℕ) : skip (x ++ r) = x ++ r := by
  obtain ⟨c, t, rfl, hc, -⟩ := h
  exact skip_cons hc _

theorem skip_spaces {sp : List ℕ} (h : ∀ c ∈ sp, isSpace c = true) (x : List ℕ) :
    skip (sp ++ x) = skip x := by
  rw [skip, List.dropWhile_append_of_pos h]
  rfl

/-- The scanner reads this text as the value, wherever a value may end behind it. -/
structure Reads {ε : Type} (item : List ℕ → Except ε (Value × List ℕ)) (x : List ℕ) (v : Value) :
    Prop where
  starts : Starts x
  reads : ∀ r, Follows r → item (x ++ r) = .ok (v, r)

variable {ε : Type} {H : Hooks ε} {item : List ℕ → Except ε (Value × List ℕ)} {s : Style}

theorem itemsText_starts {x : List ℕ} (hx : Starts x) : ∀ xs, Starts (itemsText s (x :: xs))
  | [] => hx
  | y :: xs => by
    obtain ⟨c, t, rfl, hc⟩ := hx
    exact ⟨c, _, rfl, hc⟩

theorem length_le_itemsText : ∀ {xs : List (List ℕ)}, (∀ x ∈ xs, Starts x) →
    xs.length ≤ (itemsText s xs).length
  | [], _ => le_rfl
  | [x], h => by
    obtain ⟨c, t, rfl, -⟩ := h x List.mem_cons_self
    simp [itemsText]
  | x :: y :: xs, h => by
    have ih := length_le_itemsText (List.forall_mem_cons.mp h).2
    simp only [itemsText, List.length_append, List.length_cons] at ih ⊢
    omega

/-- **The elements of an array are read**, after those read before. -/
theorem elements_items (r : List ℕ) : ∀ {xs : List (List ℕ)} {vs : List Value} {n : ℕ}
    (acc : List Value), List.Forall₂ (Reads item) xs vs → xs ≠ [] → xs.length ≤ n →
      elements H item n acc (itemsText s xs ++ 93 :: r) = .ok (.arr (acc ++ vs), r)
  | [], _, _, _, _, hne, _ => absurd rfl hne
  | [x], _, n + 1, acc, h, _, _ => by
    obtain ⟨v, _, hv, hnil, rfl⟩ := List.forall₂_cons_left_iff.mp h
    obtain rfl := List.forall₂_nil_left_iff.mp hnil
    rw [itemsText, elements, hv.reads _ (follows_bracket r)]
    simp only [bind, Except.bind, skip_cons (c := 93) rfl, if_true]
  | x :: y :: xs, _, n + 1, acc, h, _, hn => by
    obtain ⟨v, vs, hv, hvs, rfl⟩ := List.forall₂_cons_left_iff.mp h
    have hy : Starts y := by
      obtain ⟨w, ws, hw, -, -⟩ := List.forall₂_cons_left_iff.mp hvs
      exact hw.starts
    have hskip : skip (s.item ++ (itemsText s (y :: xs) ++ 93 :: r)) =
        itemsText s (y :: xs) ++ 93 :: r := by
      rw [skip_spaces s.item_space, (itemsText_starts hy xs).skip]
    have ih := elements_items r (n := n) (acc ++ [v]) hvs (List.cons_ne_nil y xs)
      (Nat.le_of_succ_le_succ hn)
    have hread := hv.reads (44 :: (s.item ++ (itemsText s (y :: xs) ++ 93 :: r))) (follows_comma _)
    rw [itemsText, List.append_assoc, List.cons_append, List.append_assoc, elements, hread]
    simp only [bind, Except.bind, skip_cons (c := 44) rfl, hskip]
    rw [if_neg (by decide), if_pos trivial, ih, List.append_assoc, List.singleton_append]

/-- The text of a member of an object. -/
structure ReadsMember (H : Hooks ε) (item : List ℕ → Except ε (Value × List ℕ)) (x : List ℕ)
    (f : List ℕ × Value) : Prop where
  starts : ∃ t, x = 34 :: t
  reads : ∀ r, Follows r → member H item (x ++ r) = .ok (f, r)

theorem ReadsMember.starts_ne {x : List ℕ} {f : List ℕ × Value} (h : ReadsMember H item x f) :
    Starts x := by
  obtain ⟨t, rfl⟩ := h.starts
  exact ⟨34, t, rfl, rfl, by decide⟩

/-- **The members of an object are read**, after those read before. -/
theorem members_items (r : List ℕ) : ∀ {xs : List (List ℕ)} {fs : List (List ℕ × Value)} {n : ℕ}
    (acc : List (List ℕ × Value)), List.Forall₂ (ReadsMember H item) xs fs → xs ≠ [] →
      xs.length ≤ n → members H item n acc (itemsText s xs ++ 125 :: r) =
        (H.object (acc ++ fs)).map fun v => (v, r)
  | [], _, _, _, _, hne, _ => absurd rfl hne
  | [x], _, n + 1, acc, h, _, _ => by
    obtain ⟨f, _, hf, hnil, rfl⟩ := List.forall₂_cons_left_iff.mp h
    obtain rfl := List.forall₂_nil_left_iff.mp hnil
    rw [itemsText, members, hf.reads _ (follows_brace r)]
    simp only [bind, Except.bind, skip_cons (c := 125) rfl, if_true]
  | x :: y :: xs, _, n + 1, acc, h, _, hn => by
    obtain ⟨f, fs, hf, hfs, rfl⟩ := List.forall₂_cons_left_iff.mp h
    have hy : Starts y := by
      obtain ⟨g, gs, hg, -, -⟩ := List.forall₂_cons_left_iff.mp hfs
      exact hg.starts_ne
    have hskip : skip (s.item ++ (itemsText s (y :: xs) ++ 125 :: r)) =
        itemsText s (y :: xs) ++ 125 :: r := by
      rw [skip_spaces s.item_space, (itemsText_starts hy xs).skip]
    have ih := members_items r (n := n) (acc ++ [f]) hfs (List.cons_ne_nil y xs)
      (Nat.le_of_succ_le_succ hn)
    have hread := hf.reads (44 :: (s.item ++ (itemsText s (y :: xs) ++ 125 :: r))) (follows_comma _)
    rw [itemsText, List.append_assoc, List.cons_append, List.append_assoc, members, hread]
    simp only [bind, Except.bind, skip_cons (c := 44) rfl, hskip]
    rw [if_neg (by decide), if_pos trivial, ih, List.append_assoc, List.singleton_append]

/-! ## Numbers -/

theorem ofRat_neg {x q : ℚ} (h : ofRat x = .finite q) : ofRat (-x) = .finite (-q) := by
  unfold ofRat at h ⊢
  rw [abs_neg]
  dsimp only at h ⊢
  by_cases hlarge : (2 : ℚ) ^ 1024 ≤ roundEven (|x| / 2 ^ lastBit |x|) * 2 ^ lastBit |x|
  · rw [if_pos hlarge] at h
    cases h
  rw [if_neg hlarge] at h ⊢
  have hq := Binary64.finite.inj h
  rcases lt_trichotomy x 0 with hx | rfl | hx
  · rw [if_pos hx] at hq
    rw [if_neg (by linarith), ← hq, neg_neg]
  · have hzero : ((roundEven (|(0 : ℚ)| / 2 ^ lastBit |(0 : ℚ)|) : ℤ) : ℚ) = 0 := by
      rw [abs_zero, zero_div, ← Int.cast_zero, roundEven_intCast]
    rw [hzero] at hq ⊢
    simp only [zero_mul, lt_irrefl, if_false, neg_zero] at hq ⊢
    rw [← hq, neg_zero]
  · rw [if_neg (by linarith)] at hq
    rw [if_pos (by linarith), hq]

theorem scanMagnitude_negative {t r : List ℕ} {q : ℚ}
    (h : scanMagnitude false t = .ok (.float (.finite q), r)) :
    scanMagnitude true t = .ok (.float (.finite (-q)), r) := by
  unfold scanMagnitude at h ⊢
  rcases hscan : scanIntPart t with e | ⟨int, t'⟩
  · rw [hscan] at h
    cases h
  rw [hscan] at h
  dsimp only at h ⊢
  split_ifs at h ⊢ with hint hlong
  · simp at h
  · obtain ⟨hvalue, rfl⟩ := Prod.mk.inj (Except.ok.inj h)
    have hneg := ofRat_neg (Value.float.inj hvalue)
    rw [← hneg]
    simp [signed]

/-- A text that is read as a number up to a comma. -/
theorem spells_of_scan {u : List ℕ} {v : Value} (h : scanNumber (u ++ [44]) = .ok (v, [44])) :
    Spells u v := by
  obtain ⟨u', hu, hspells⟩ := scanNumber_split h
  rwa [List.append_cancel_right hu]

theorem spells_int {n : ℤ} {u : List ℕ} (h : dumpInt n = some u) : Spells u (.int n) :=
  spells_of_scan (scanNumber_dumpInt h ⟨44, [], rfl, .inl rfl⟩)

theorem spells_float (x : Float64) : Spells (FloatRepr.repr x) (.float (.finite (floatValue x))) := by
  have hbreaks : Breaks [44] := breaks_of_follows (follows_comma [])
  have hread := scanMagnitude_reprMagnitude x.nonneg x.rounded x.dyadic hbreaks
  obtain ⟨c, hc, hdigit⟩ := (written_reprMagnitude x).head
  refine spells_of_scan ?_
  unfold FloatRepr.repr floatValue scanNumber
  rcases x.negative with _ | _
  · have hhead : (reprMagnitude x.magnitude ++ [44]).head? ≠ some 45 := by
      rw [List.head?_append, hc]
      rintro ⟨⟩
      exact absurd hdigit (by decide)
    simp only [Bool.false_eq_true, if_false]
    rwa [if_neg hhead]
  · simp only [if_true, List.cons_append, List.head?_cons, List.tail_cons]
    exact scanMagnitude_negative hread

/-! ## Scalars -/

theorem reads_number {u : List ℕ} {v : Value} (h : Spells u v) (depth : ℕ) :
    Reads (scanOnce H depth) u v where
  starts := h.starts_cons
  reads r hr := by cases depth <;> exact h.scan (breaks_of_follows hr) _ _

/-- The three words. -/
theorem reads_word {w : List ℕ} {v : Value} (h : (w, v) ∈ words) (depth : ℕ) :
    Reads (scanOnce H depth) w v := by
  have hscan : ∀ obj arr r, scanValue H obj arr (w ++ r) = .ok (v, r) := by
    intro obj arr r
    simp only [words, List.mem_cons, Prod.mk.injEq, List.not_mem_nil, or_false] at h
    rcases h with ⟨rfl, rfl⟩ | ⟨rfl, rfl⟩ | ⟨rfl, rfl⟩ <;>
      simp [text, scanValue, words, List.isPrefixOf]
  refine ⟨?_, fun r _ => by cases depth <;> exact hscan _ _ r⟩
  simp only [words, List.mem_cons, Prod.mk.injEq, List.not_mem_nil, or_false] at h
  rcases h with ⟨rfl, rfl⟩ | ⟨rfl, rfl⟩ | ⟨rfl, rfl⟩ <;> exact ⟨_, _, rfl, rfl, by decide⟩

theorem scanString_dumpString {t : List ℕ} (h : NoPair t) (r : List ℕ) :
    scanString (t.flatMap escapeChar ++ 34 :: r) = .ok (t, r) := by
  have hscan := scanString_dump h.1 r
  rwa [(noPair_iff h.1).mp h] at hscan

theorem reads_string {t : List ℕ} (h : NoPair t) (depth : ℕ) :
    Reads (scanOnce H depth) (dumpString t) (.str t) := by
  refine ⟨⟨34, _, rfl, rfl, by decide⟩, fun r _ => ?_⟩
  have htext : dumpString t ++ r = 34 :: (t.flatMap escapeChar ++ 34 :: r) := by simp [dumpString]
  have hscan : ∀ obj arr, scanValue H obj arr (dumpString t ++ r) = .ok (.str t, r) := by
    intro obj arr
    rw [htext, scanValue, if_pos rfl, scanString_dumpString h]
    rfl
  cases depth <;> exact hscan _ _

/-! ## Documents -/

/-- An object whose keys do not repeat is kept as it is. -/
def KeepsObjects (H : Hooks ε) : Prop :=
  ∀ fs : List (List ℕ × Value), (fs.map Prod.fst).Nodup → H.object fs = .ok (.obj fs)

theorem reads_field {key x : List ℕ} {v : Value} (hkey : NoPair key) (hx : Reads item x v) :
    ReadsMember H item (fieldText s key x) (key, v) := by
  refine ⟨⟨_, rfl⟩, fun r hr => ?_⟩
  have htext : fieldText s key x ++ r =
      34 :: (key.flatMap escapeChar ++ 34 :: 58 :: (s.key ++ (x ++ r))) := by
    simp [fieldText, dumpString]
  rw [htext, member]
  simp only [expect, if_true, Hooks.lift, scanString_dumpString hkey, skip_cons (c := 58) rfl,
    skip_spaces s.key_space, hx.starts.skip, hx.reads r hr, bind, Except.bind, pure, Except.pure]

theorem reads_array {depth : ℕ} {xs : List (List ℕ)} {vs : List Value}
    (h : List.Forall₂ (Reads (scanOnce H depth)) xs vs) :
    Reads (scanOnce H (depth + 1)) (91 :: (itemsText s xs ++ [93])) (.arr vs) := by
  refine ⟨⟨91, _, rfl, rfl, by decide⟩, fun r _ => ?_⟩
  have htext : 91 :: (itemsText s xs ++ [93]) ++ r = 91 :: (itemsText s xs ++ 93 :: r) := by simp
  have harray : scanOnce H (depth + 1) (91 :: (itemsText s xs ++ 93 :: r)) =
      array H (scanOnce H depth) (itemsText s xs ++ 93 :: r) := rfl
  rw [htext, harray]
  rcases xs with _ | ⟨x, xs⟩
  · obtain rfl := List.forall₂_nil_left_iff.mp h
    rfl
  have hstarts : ∀ y ∈ x :: xs, Starts y :=
    ((List.forall₂_and_left _ _).mp (h.imp fun _ _ hv => ⟨hv.starts, hv⟩)).1
  have hfirst := itemsText_starts (s := s) (hstarts x List.mem_cons_self) xs
  have hskip := hfirst.skip (93 :: r)
  have hlength := length_le_itemsText (s := s) hstarts
  have hread := elements_items (H := H) (s := s) r
    (n := (itemsText s (x :: xs) ++ 93 :: r).length) [] h (List.cons_ne_nil x xs)
    (by rw [List.length_append]; omega)
  obtain ⟨c, t, ht, -, hne⟩ := hfirst
  rw [ht, List.cons_append] at hskip hread ⊢
  rw [array, hskip]
  dsimp only
  rw [if_neg hne]
  exact hread

theorem reads_object (hH : KeepsObjects H) {depth : ℕ} {xs : List (List ℕ)}
    {fs : List (List ℕ × Value)} (h : List.Forall₂ (ReadsMember H (scanOnce H depth)) xs fs)
    (hnodup : (fs.map Prod.fst).Nodup) :
    Reads (scanOnce H (depth + 1)) (123 :: (itemsText s xs ++ [125])) (.obj fs) := by
  refine ⟨⟨123, _, rfl, rfl, by decide⟩, fun r _ => ?_⟩
  have htext : 123 :: (itemsText s xs ++ [125]) ++ r = 123 :: (itemsText s xs ++ 125 :: r) := by simp
  have hobject : scanOnce H (depth + 1) (123 :: (itemsText s xs ++ 125 :: r)) =
      object H (scanOnce H depth) (itemsText s xs ++ 125 :: r) := rfl
  rw [htext, hobject]
  rcases xs with _ | ⟨x, xs⟩
  · obtain rfl := List.forall₂_nil_left_iff.mp h
    show (H.object []).map (fun v => (v, r)) = _
    rw [hH [] hnodup]
    rfl
  have hstarts : ∀ y ∈ x :: xs, Starts y :=
    ((List.forall₂_and_left _ _).mp (h.imp fun _ _ hf => ⟨hf.starts_ne, hf⟩)).1
  obtain ⟨u, hu⟩ : ∃ u, itemsText s (x :: xs) = 34 :: u := by
    obtain ⟨f, _, hf, -, -⟩ := List.forall₂_cons_left_iff.mp h
    obtain ⟨t, rfl⟩ := hf.starts
    rcases xs with _ | ⟨y, xs⟩
    · exact ⟨t, rfl⟩
    · exact ⟨_, rfl⟩
  have hlength := length_le_itemsText (s := s) hstarts
  have hread := members_items (s := s) r
    (n := (itemsText s (x :: xs) ++ 125 :: r).length) [] h (List.cons_ne_nil x xs)
    (by rw [List.length_append]; omega)
  rw [List.nil_append, hH fs hnodup] at hread
  rw [hu, List.cons_append] at hread ⊢
  rw [object, skip_cons (c := 34) rfl]
  exact hread

theorem map_fst_fieldValues : ∀ l : List (List ℕ × Doc),
    (fieldValues l).map Prod.fst = l.map Prod.fst
  | [] => rfl
  | f :: l => by rw [fieldValues, List.map_cons, List.map_cons, map_fst_fieldValues l]

mutual

/-- **The text of a document is read as the document.** -/
theorem reads_write (hH : KeepsObjects H) : ∀ (d : Doc) {depth : ℕ} {x : List ℕ}, d.Valid →
    d.height ≤ depth → d.write s = some x → Reads (scanOnce H depth) x d.value
  | .null, depth, x, _, _, hx => by
    obtain rfl := Option.some.inj hx
    exact reads_word (by simp [words, Doc.value]) depth
  | .bool b, depth, x, _, _, hx => by
    obtain rfl := Option.some.inj hx
    cases b <;> exact reads_word (by simp [words, Doc.value]) depth
  | .int n, depth, x, _, _, hx => reads_number (spells_int hx) depth
  | .float y, depth, x, _, _, hx => by
    obtain rfl := Option.some.inj hx
    exact reads_number (spells_float y) depth
  | .str t, depth, x, hv, _, hx => by
    obtain rfl := Option.some.inj hx
    exact reads_string hv depth
  | .arr l, 0, x, _, hh, _ => absurd hh (by simp [Doc.height])
  | .arr l, depth + 1, x, hv, hh, hx => by
    obtain ⟨ts, hts, rfl⟩ := Option.map_eq_some_iff.mp hx
    exact reads_array (reads_items hH l hv (Nat.le_of_succ_le_succ hh) hts)
  | .obj fields, 0, x, _, hh, _ => absurd hh (by simp [Doc.height])
  | .obj fields, depth + 1, x, hv, hh, hx => by
    obtain ⟨ts, hts, rfl⟩ := Option.map_eq_some_iff.mp hx
    refine reads_object hH (reads_fields hH fields hv.1 (Nat.le_of_succ_le_succ hh) hts) ?_
    rw [map_fst_fieldValues]
    exact hv.2

theorem reads_items (hH : KeepsObjects H) : ∀ (l : List Doc) {depth : ℕ} {ts : List (List ℕ)},
    ValidItems l → heightItems l ≤ depth → writeItems s l = some ts →
      List.Forall₂ (Reads (scanOnce H depth)) ts (values l)
  | [], _, _, _, _, hts => by
    obtain rfl := Option.some.inj hts
    exact .nil
  | d :: l, depth, ts, hv, hh, hts => by
    obtain ⟨x, hx, hts⟩ := Option.bind_eq_some_iff.mp hts
    obtain ⟨us, hus, rfl⟩ := Option.map_eq_some_iff.mp hts
    have hd : d.height ≤ depth := (Nat.le_max_left _ _).trans hh
    have hl : heightItems l ≤ depth := (Nat.le_max_right _ _).trans hh
    exact .cons (reads_write hH d hv.1 hd hx) (reads_items hH l hv.2 hl hus)

theorem reads_fields (hH : KeepsObjects H) : ∀ (l : List (List ℕ × Doc)) {depth : ℕ}
    {ts : List (List ℕ)}, ValidFields l → heightFields l ≤ depth → writeFields s l = some ts →
      List.Forall₂ (ReadsMember H (scanOnce H depth)) ts (fieldValues l)
  | [], _, _, _, _, hts => by
    obtain rfl := Option.some.inj hts
    exact .nil
  | f :: l, depth, ts, hv, hh, hts => by
    obtain ⟨x, hx, hts⟩ := Option.bind_eq_some_iff.mp hts
    obtain ⟨us, hus, rfl⟩ := Option.map_eq_some_iff.mp hts
    have hd : f.2.height ≤ depth := (Nat.le_max_left _ _).trans hh
    have hl : heightFields l ≤ depth := (Nat.le_max_right _ _).trans hh
    exact .cons (reads_field hv.1.1 (reads_write hH f.2 hv.1.2 hd hx))
      (reads_fields hH l hv.2 hl hus)

end

/-- The decoder reads the text, also with white space behind it. -/
theorem decode_write (hH : KeepsObjects H) {d : Doc} {depth : ℕ} {x : List ℕ} (hv : d.Valid)
    (hh : d.height ≤ depth) (hx : d.write s = some x) {sp : List ℕ}
    (hsp : ∀ c ∈ sp, isSpace c = true) : decode H depth (x ++ sp) = .ok d.value := by
  have hread := reads_write hH d hv hh hx
  have hfollows : Follows sp := fun c hc => .inr (.inr (.inr (hsp c (List.mem_of_mem_head? hc))))
  have hend : skip sp = [] := by
    have := skip_spaces hsp []
    rwa [List.append_nil] at this
  rw [decode, hread.starts.skip, hread.reads sp hfollows]
  simp [hend]

/-! ## The text is ASCII -/

theorem ascii_words {w : List ℕ} (h : w ∈ words.map Prod.fst) : Ascii w := by
  have hwords : ∀ w ∈ words.map Prod.fst, ∀ c ∈ w, 0 < c ∧ c < 0x80 := by decide
  exact hwords w h

theorem ascii_repr (x : Float64) : Ascii (FloatRepr.repr x) := fun c hc => by
  have hnumeric := numeric_repr x c hc
  simp only [JsonText.isNumeric, Bool.or_eq_true, beq_iff_eq, decide_eq_true_eq] at hnumeric
  omega

theorem ascii_spaces {sp : List ℕ} (h : ∀ c ∈ sp, isSpace c = true) : Ascii sp := fun c hc => by
  have hspace := h c hc
  simp only [isSpace, Bool.or_eq_true, beq_iff_eq] at hspace
  omega

theorem ascii_itemsText : ∀ {xs : List (List ℕ)}, (∀ x ∈ xs, Ascii x) → Ascii (itemsText s xs)
  | [], _ => ascii_nil
  | [x], h => h x List.mem_cons_self
  | x :: y :: xs, h => by
    obtain ⟨hx, hxs⟩ := List.forall_mem_cons.mp h
    have ih := ascii_itemsText hxs
    exact hx.append (.cons (by decide) ((ascii_spaces s.item_space).append ih))

theorem ascii_fieldText (key : List ℕ) {x : List ℕ} (hx : Ascii x) : Ascii (fieldText s key x) :=
  (ascii_dumpString key).append (.cons (by decide) ((ascii_spaces s.key_space).append hx))

mutual

theorem ascii_write : ∀ (d : Doc) {x : List ℕ}, d.write s = some x → Ascii x
  | .null, _, hx => by
    obtain rfl := Option.some.inj hx
    exact ascii_words (by simp [words])
  | .bool b, _, hx => by
    obtain rfl := Option.some.inj hx
    cases b <;> exact ascii_words (by simp [words])
  | .int n, _, hx => ascii_dumpScalar (v := .int n) hx
  | .float y, _, hx => by
    obtain rfl := Option.some.inj hx
    exact ascii_repr y
  | .str t, _, hx => by
    obtain rfl := Option.some.inj hx
    exact ascii_dumpString t
  | .arr l, _, hx => by
    obtain ⟨ts, hts, rfl⟩ := Option.map_eq_some_iff.mp hx
    have hend : Ascii [93] := .cons (by decide) ascii_nil
    exact .cons (by decide) ((ascii_itemsText (ascii_items l hts)).append hend)
  | .obj fields, _, hx => by
    obtain ⟨ts, hts, rfl⟩ := Option.map_eq_some_iff.mp hx
    have hend : Ascii [125] := .cons (by decide) ascii_nil
    exact .cons (by decide) ((ascii_itemsText (ascii_fields fields hts)).append hend)

theorem ascii_items : ∀ (l : List Doc) {ts : List (List ℕ)}, writeItems s l = some ts →
    ∀ x ∈ ts, Ascii x
  | [], _, hts => by
    obtain rfl := Option.some.inj hts
    simp
  | d :: l, _, hts => by
    obtain ⟨x, hx, hts⟩ := Option.bind_eq_some_iff.mp hts
    obtain ⟨us, hus, rfl⟩ := Option.map_eq_some_iff.mp hts
    exact List.forall_mem_cons.mpr ⟨ascii_write d hx, ascii_items l hus⟩

theorem ascii_fields : ∀ (l : List (List ℕ × Doc)) {ts : List (List ℕ)}, writeFields s l = some ts →
    ∀ x ∈ ts, Ascii x
  | [], _, hts => by
    obtain rfl := Option.some.inj hts
    simp
  | f :: l, _, hts => by
    obtain ⟨x, hx, hts⟩ := Option.bind_eq_some_iff.mp hts
    obtain ⟨us, hus, rfl⟩ := Option.map_eq_some_iff.mp hts
    exact List.forall_mem_cons.mpr ⟨ascii_fieldText f.1 (ascii_write f.2 hx), ascii_fields l hus⟩

end

/-! ## The decoder without hooks -/

/-- A dictionary made of these pairs, one after the other. -/
def dict (fs : List (List ℕ × Value)) : List (List ℕ × Value) :=
  fs.foldl (fun acc f => dictSet f.1 f.2 acc) []

/-- What `json.loads` does by itself. -/
def plainHooks : Hooks Err where
  object fs := .ok (.obj (dict fs))
  constant l := .ok (.float (if l = text "NaN" then .nan else .inf (l == text "-Infinity")))
  invalid := .value
  recursion := .recursion

theorem lift_plain {α : Type} (x : Except Err α) : plainHooks.lift x = x := by
  rcases x with (_ | _) | _ <;> rfl

theorem dict_snoc (fs : List (List ℕ × Value)) (f : List ℕ × Value) :
    dict (fs ++ [f]) = dictSet f.1 f.2 (dict fs) := by
  rw [dict, List.foldl_append]
  rfl

theorem dict_of_nodup {fs : List (List ℕ × Value)} (h : (fs.map Prod.fst).Nodup) : dict fs = fs := by
  induction fs using List.reverseRecOn with
  | nil => rfl
  | append_singleton fs f ih =>
    rw [List.map_append, List.nodup_append] at h
    obtain ⟨hfs, -, hnew⟩ := h
    have hkey : f.1 ∉ fs.map Prod.fst := fun hmem => hnew f.1 hmem f.1 (by simp) rfl
    rw [dict_snoc, ih hfs, dictSet_new hkey]

theorem keepsObjects_plain : KeepsObjects plainHooks :=
  fun _ h => congrArg (fun fs => Except.ok (Value.obj fs)) (dict_of_nodup h)

theorem members_plain (item : List ℕ → Except Err (Value × List ℕ)) : ∀ (n : ℕ)
    (acc : List (List ℕ × Value)) (t : List ℕ),
    Json.members item n (dict acc) t = members plainHooks item n acc t
  | 0, _, _ => rfl
  | n + 1, acc, t => by
    have hmember : Json.member item t = member plainHooks item t := by
      simp only [Json.member, member, lift_plain]
    rw [Json.members, members, hmember]
    rcases member plainHooks item t with e | ⟨f, r⟩
    · rfl
    simp only [bind, Except.bind]
    rcases skip r with _ | ⟨c, r⟩
    · rfl
    dsimp only
    rw [← dict_snoc, members_plain item n (acc ++ [f]) (skip r)]
    rfl

theorem object_plain (item : List ℕ → Except Err (Value × List ℕ)) (t : List ℕ) :
    Json.object item t = object plainHooks item t := by
  rw [Json.object, object]
  rcases skip t with _ | ⟨c, r⟩
  · rfl
  dsimp only
  rw [← members_plain]
  rfl

theorem elements_plain (item : List ℕ → Except Err (Value × List ℕ)) : ∀ (n : ℕ) (acc : List Value)
    (t : List ℕ), Json.elements item n acc t = elements plainHooks item n acc t
  | 0, _, _ => rfl
  | n + 1, acc, t => by
    rw [Json.elements, elements]
    rcases item t with e | ⟨v, r⟩
    · rfl
    simp only [bind, Except.bind]
    rcases skip r with _ | ⟨c, r⟩
    · rfl
    dsimp only
    rw [elements_plain item n (acc ++ [v]) (skip r)]
    rfl

theorem array_plain (item : List ℕ → Except Err (Value × List ℕ)) (t : List ℕ) :
    Json.array item t = array plainHooks item t := by
  rw [Json.array, array]
  rcases skip t with _ | ⟨c, r⟩
  · rfl
  dsimp only
  rw [elements_plain]

theorem literals_eq : literals = words ++
    [(text "NaN", Value.float .nan), (text "Infinity", .float (.inf false)),
      (text "-Infinity", .float (.inf true))] := rfl

theorem scanValue_plain (obj arr : List ℕ → Except Err (Value × List ℕ)) (t : List ℕ) :
    Json.scanValue obj arr t = scanValue plainHooks obj arr t := by
  rcases t with _ | ⟨c, r⟩
  · rfl
  rw [Json.scanValue, scanValue, lift_plain, lift_plain, literals_eq, List.find?_append]
  cases hwords : List.find? (fun l => l.1.isPrefixOf (c :: r)) words with
  | some l => rfl
  | none =>
    simp only [Option.none_or, constants, List.find?_cons]
    cases hnan : (text "NaN").isPrefixOf (c :: r) <;>
      cases hinf : (text "Infinity").isPrefixOf (c :: r) <;>
      cases hneg : (text "-Infinity").isPrefixOf (c :: r) <;> rfl

theorem scanOnce_plain : ∀ depth, Json.scanOnce depth = scanOnce plainHooks depth
  | 0 => funext fun t => scanValue_plain _ _ t
  | depth + 1 => by
    funext t
    rw [Json.scanOnce, scanOnce, scanValue_plain, scanOnce_plain depth]
    congr 1
    · exact funext (object_plain _)
    · exact funext (array_plain _)

theorem decode_plain (depth : ℕ) (t : List ℕ) : Json.decode depth t = decode plainHooks depth t := by
  rw [Json.decode, decode, scanOnce_plain]
  rcases scanOnce plainHooks depth (skip t) with e | ⟨v, r⟩ <;> rfl

/-- **What is written is read**, from the bytes of the text. -/
theorem loads_write {d : Doc} {depth : ℕ} {x : List ℕ} (hv : d.Valid) (hh : d.height ≤ depth)
    (hx : d.write s = some x) : loads depth x = .ok d.value := by
  have hnone : ∀ c ∈ ([] : List ℕ), isSpace c = true := by simp
  have hread := decode_write keepsObjects_plain hv hh hx hnone
  rw [List.append_nil, ← decode_plain] at hread
  rw [loads, decodeJson_ascii (ascii_write d hx)]
  exact hread

end IdenGrid.Lib.JsonTree
