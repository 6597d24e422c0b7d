import IdenGrid.Lib.JsonDumps
import IdenGrid.Lib.Results

/-! # JSON under the hooks of its caller

The scanner of `Lib.Json`, except that the caller decides what becomes of the pairs of an object and
of the constants `NaN`, `Infinity` and `-Infinity`, and with which errors. The hook of an object runs
at its closing brace, before anything behind it is read.

`decode_entries`: an object whose keys and values are written so that the scanner reads them back is
read as its pairs. -/

namespace IdenGrid.Lib.JsonHooks

open IdenGrid.Lib.Json IdenGrid.Lib.JsonDumps IdenGrid.Lib.Unicode

structure Hooks (ε : Type) where
  /-- `object_pairs_hook` -/
  object : List (List ℕ × Value) → Except ε Value
  /-- `parse_constant` -/
  constant : List ℕ → Except ε Value
  /-- The error of a text that is no JSON. -/
  invalid : ε
  /-- The error of containers that are nested too deep. -/
  recursion : ε

variable {ε : Type} (H : Hooks ε)

/-- The errors of the scanner. -/
def Hooks.lift {α : Type} : Except Err α → Except ε α
  | .ok a => .ok a
  | .error .value => .error H.invalid
  | .error .recursion => .error H.recursion

/-! ## The scanner -/

section

variable (item : List ℕ → Except ε (Value × List ℕ))

def member (t : List ℕ) : Except ε ((List ℕ × Value) × List ℕ) := do
  let t ← H.lift (expect 34 t)
  let (key, t) ← H.lift (scanString t)
  let t ← H.lift (expect 58 (skip t))
  let (value, t) ← item (skip t)
  pure ((key, value), t)

/-- The members of an object and its closing brace; the length of the text bounds their number. -/
def members : ℕ → List (List ℕ × Value) → List ℕ → Except ε (Value × List ℕ)
  | 0, _, _ => .error H.invalid
  | n + 1, acc, t => do
    let (f, t) ← member H item t
    match skip t with
    | [] => .error H.invalid
    | c :: t =>
      if c = 125 then (H.object (acc ++ [f])).map fun v => (v, t)
      else if c = 44 then members n (acc ++ [f]) (skip t)
      else .error H.invalid

/-- An object, after its opening brace. -/
def object (t : List ℕ) : Except ε (Value × List ℕ) :=
  match skip t with
  | [] => .error H.invalid
  | c :: r =>
    if c = 125 then (H.object []).map fun v => (v, r) else members H item t.length [] (c :: r)

/-- The elements of an array and its closing bracket. -/
def elements : ℕ → List Value → List ℕ → Except ε (Value × List ℕ)
  | 0, _, _ => .error H.invalid
  | n + 1, acc, t => do
    let (v, t) ← item t
    match skip t with
    | [] => .error H.invalid
    | c :: t =>
      if c = 93 then .ok (.arr (acc ++ [v]), t)
      else if c = 44 then elements n (acc ++ [v]) (skip t)
      else .error H.invalid

/-- An array, after its opening bracket. -/
def array (t : List ℕ) : Except ε (Value × List ℕ) :=
  match skip t with
  | [] => .error H.invalid
  | c :: r => if c = 93 then .ok (.arr [], r) else elements H item t.length [] (c :: r)

end

def constants : List (List ℕ) := [text "NaN", text "Infinity", text "-Infinity"]

def words : List (List ℕ × Value) :=
  [(text "null", .null), (text "true", .bool true), (text "false", .bool false)]

/-- One value; `obj` and `arr` read an object or an array after its opening character. -/
def scanValue (obj arr : List ℕ → Except ε (Value × List ℕ)) (t : List ℕ) :
    Except ε (Value × List ℕ) :=
  match t with
  | [] => .error H.invalid
  | c :: r =>
    if c = 34 then H.lift ((scanString r).map fun p => (.str p.1, p.2))
    else if c = 123 then obj r
    else if c = 91 then arr r
    else
      match words.find? fun l => l.1.isPrefixOf t with
      | some l => .ok (l.2, t.drop l.1.length)
      | none =>
        match constants.find? fun l => l.isPrefixOf t with
        | some l => (H.constant l).map fun v => (v, t.drop l.length)
        | none => H.lift (scanNumber t)

/-- `scan_once`; the number bounds the nesting of containers. -/
def scanOnce : ℕ → List ℕ → Except ε (Value × List ℕ)
  | 0, t => scanValue H (fun _ => .error H.recursion) (fun _ => .error H.recursion) t
  | depth + 1, t => scanValue H (object H (scanOnce depth)) (array H (scanOnce depth)) t

/-- The decoder on a text. -/
def decode (depth : ℕ) (t : List ℕ) : Except ε Value :=
  match scanOnce H depth (skip t) with
  | .error e => .error e
  | .ok (v, r) => if skip r = [] then .ok v else .error H.invalid

/-! ## What is written is read -/

/-- The scanner reads this text as the value, where a member may end after it. -/
structure Written (item : List ℕ → Except ε (Value × List ℕ)) (x : List ℕ) (v : Value) : Prop where
  starts : ∃ c t, x = c :: t ∧ isSpace c = false
  reads : ∀ r, Ends r → item (x ++ r) = .ok (v, r)

/-- The characters are read as this text, up to a quote. -/
def Quoted (k t : List ℕ) : Prop := ∀ r, scanString (k ++ 34 :: r) = .ok (t, r)

def entryText (e : List ℕ × List ℕ) : List ℕ := 34 :: (e.1 ++ 34 :: 58 :: e.2)

def entriesText : List (List ℕ × List ℕ) → List ℕ
  | [] => []
  | [e] => entryText e
  | e :: f :: es => entryText e ++ 44 :: entriesText (f :: es)

/-- The text of an entry is read as this pair. -/
def Stands (item : List ℕ → Except ε (Value × List ℕ)) (e : List ℕ × List ℕ)
    (f : List ℕ × Value) : Prop :=
  Quoted e.1 f.1 ∧ Written item e.2 f.2

variable {H} {item : List ℕ → Except ε (Value × List ℕ)}

theorem Written.skip {x : List ℕ} {v : Value} (h : Written item x v) (r : List ℕ) :
    skip (x ++ r) = x ++ r := by
  obtain ⟨c, t, rfl, hc⟩ := h.starts
  exact skip_cons hc _

theorem member_entry {e : List ℕ × List ℕ} {f : List ℕ × Value} (h : Stands item e f) {r : List ℕ}
    (hr : Ends r) : member H item (entryText e ++ r) = .ok (f, r) := by
  have htext : entryText e ++ r = 34 :: (e.1 ++ 34 :: 58 :: (e.2 ++ r)) := by
    simp [entryText]
  rw [htext, member]
  simp only [expect, if_true, Hooks.lift, h.1 (58 :: (e.2 ++ r)), skip_cons (c := 58) rfl,
    h.2.skip r, h.2.reads r hr, bind, Except.bind, pure, Except.pure]

theorem entriesText_starts (e : List ℕ × List ℕ) :
    ∀ es : List (List ℕ × List ℕ), ∃ t, entriesText (e :: es) = 34 :: t
  | [] => ⟨_, rfl⟩
  | _ :: _ => ⟨_, rfl⟩

/-- **The members of an object are read**, after those read before. -/
theorem members_entries (r : List ℕ) : ∀ {e : List ℕ × List ℕ} {es : List (List ℕ × List ℕ)}
    {fs : List (List ℕ × Value)} {n : ℕ} (acc : List (List ℕ × Value)),
    List.Forall₂ (Stands item) (e :: es) fs → es.length < n →
      members H item n acc (entriesText (e :: es) ++ 125 :: r) =
        (H.object (acc ++ fs)).map fun v => (v, r)
  | e, [], fs, n + 1, acc, h, _ => by
    obtain ⟨f, _, hf, hnil, rfl⟩ := List.forall₂_cons_left_iff.mp h
    obtain rfl := List.forall₂_nil_left_iff.mp hnil
    have hm := member_entry (H := H) hf (r := 125 :: r) ⟨125, r, rfl, .inr rfl⟩
    rw [entriesText, members, hm]
    simp only [bind, Except.bind, skip_cons (c := 125) rfl, if_true]
  | e, e' :: es, fs, n + 1, acc, h, hn => by
    obtain ⟨f, fs, hf, hfs, rfl⟩ := List.forall₂_cons_left_iff.mp h
    have hm := member_entry (H := H) hf (r := 44 :: (entriesText (e' :: es) ++ 125 :: r))
      ⟨44, _, rfl, .inl rfl⟩
    have hskip : skip (entriesText (e' :: es) ++ 125 :: r) = entriesText (e' :: es) ++ 125 :: r := by
      obtain ⟨t, ht⟩ := entriesText_starts e' es
      rw [ht]
      exact skip_cons rfl _
    have ih := members_entries r (n := n) (acc ++ [f]) hfs (Nat.lt_of_succ_lt_succ hn)
    rw [entriesText, List.append_assoc, List.cons_append, members, hm]
    simp only [bind, Except.bind, skip_cons (c := 44) rfl, hskip]
    rw [if_neg (by decide), if_pos trivial, ih, List.append_assoc, List.singleton_append]

theorem length_entriesText_le : ∀ es : List (List ℕ × List ℕ),
    es.length ≤ (entriesText es).length
  | [] => le_rfl
  | [e] => Nat.le_add_left 1 _
  | e :: f :: es => by
    have ih := length_entriesText_le (f :: es)
    simp only [entriesText, List.length_append, List.length_cons] at ih ⊢
    omega

/-- **An object is read as its pairs**, also before white space. -/
theorem decode_entries {depth : ℕ} {es : List (List ℕ × List ℕ)} {fs : List (List ℕ × Value)}
    (h : List.Forall₂ (Stands (scanOnce H depth)) es fs) (hne : es ≠ []) (space : List ℕ)
    (hspace : skip space = []) :
    decode H (depth + 1) (123 :: (entriesText es ++ 125 :: space)) = H.object fs := by
  obtain ⟨e, es, rfl⟩ := List.exists_cons_of_ne_nil hne
  obtain ⟨t, ht⟩ := entriesText_starts e es
  have hlength := length_entriesText_le (e :: es)
  rw [List.length_cons] at hlength
  have hmembers := members_entries (H := H) space
    (n := (entriesText (e :: es) ++ 125 :: space).length) [] h
    (by rw [List.length_append]; omega)
  have hscan : scanOnce H (depth + 1) (123 :: (entriesText (e :: es) ++ 125 :: space)) =
      (H.object fs).map fun v => (v, space) := by
    have hobject : scanOnce H (depth + 1) (123 :: (entriesText (e :: es) ++ 125 :: space)) =
        object H (scanOnce H depth) (entriesText (e :: es) ++ 125 :: space) := rfl
    rw [hobject, ht] at *
    rw [object, List.cons_append, skip_cons (c := 34) rfl]
    exact hmembers
  rw [decode, skip_cons (c := 123) rfl, hscan]
  rcases H.object fs with _ | v
  · rfl
  · simp [Except.map, hspace]

theorem get_of_mem {fs : List (List ℕ × Value)} (hnodup : (fs.map Prod.fst).Nodup)
    {f : List ℕ × Value} (h : f ∈ fs) : get fs f.1 = some f.2 := by
  rcases hfind : fs.find? fun g => g.1 == f.1 with _ | g
  · have := List.find?_eq_none.mp hfind f h
    simp at this
  · have hkey : g.1 = f.1 := by simpa using List.find?_some hfind
    unfold Json.get
    rw [hfind, Option.map_some,
      List.inj_on_of_nodup_map hnodup (List.mem_of_find?_eq_some hfind) h hkey]

/-! ## Strings by their escapes -/

/-- The scanner reads this text of a character as the character. -/
def Escapes (x : List ℕ) (c : ℕ) : Prop :=
  ∃ escaped, ∀ r, scanUnits (x ++ r) = (scanUnits r).map fun p => ((escaped, c) :: p.1, p.2)

theorem escapes_self {c : ℕ} (h : 32 ≤ c) (hquote : c ≠ 34) (hslash : c ≠ 92) : Escapes [c] c := by
  refine ⟨false, fun r => ?_⟩
  rw [List.singleton_append, scanUnits.eq_def]
  simp only [if_neg hquote, if_neg hslash, if_neg (show ¬ c < 32 by omega)]

theorem escapes_short {e c : ℕ} (h : unescape e = some c) (hu : e ≠ 117) : Escapes [92, e] c := by
  refine ⟨false, fun r => ?_⟩
  rw [List.cons_append, List.singleton_append, scanUnits.eq_def]
  simp only [if_neg (show (92 : ℕ) ≠ 34 by decide), if_true, if_neg hu, h]

theorem escapes_hex {a b c d u : ℕ} (h : hex4 a b c d = some u) : Escapes [92, 117, a, b, c, d] u := by
  refine ⟨true, fun r => ?_⟩
  simp only [List.cons_append, List.nil_append]
  rw [scanUnits.eq_def]
  simp only [if_neg (show (92 : ℕ) ≠ 34 by decide), if_true, h]

/-- **A text without surrogates is read from the escapes of its characters.** -/
theorem quoted_flatMap {escape : ℕ → List ℕ} {t : List ℕ} (h : ∀ c ∈ t, Escapes (escape c) c)
    (hscalar : ∀ c ∈ t, ¬ isHigh c = true) : Quoted (t.flatMap escape) t := by
  intro r
  have hunits : ∃ us : List (Bool × ℕ), scanUnits (t.flatMap escape ++ 34 :: r) = .ok (us, r) ∧
      us.map Prod.snd = t := by
    induction t with
    | nil => exact ⟨[], by rw [List.flatMap_nil, List.nil_append, scanUnits.eq_def]; rfl, rfl⟩
    | cons c t ih =>
      obtain ⟨us, hus, hmap⟩ := ih (fun d hd => h d (List.mem_cons_of_mem c hd))
        fun d hd => hscalar d (List.mem_cons_of_mem c hd)
      obtain ⟨e, he⟩ := h c List.mem_cons_self
      refine ⟨(e, c) :: us, ?_, by rw [List.map_cons, hmap]⟩
      rw [List.flatMap_cons, List.append_assoc, he, hus]
      rfl
  obtain ⟨us, hus, rfl⟩ := hunits
  have hjoin : ∀ us : List (Bool × ℕ), (∀ c ∈ us.map Prod.snd, ¬ isHigh c = true) →
      joinEscapes us = us.map Prod.snd := by
    intro us
    induction us with
    | nil => exact fun _ => rfl
    | cons u us ih =>
      intro hus
      obtain ⟨hu, hus⟩ := List.forall_mem_cons.mp hus
      rw [joinEscapes_cons fun v _ hboth => hu hboth.1, ih hus, List.map_cons]
  rw [scanString, hus]
  exact congrArg (fun s => Except.ok (s, r)) (hjoin us hscalar)

/-- A string in its quotes is a value. -/
theorem written_str (depth : ℕ) {k t : List ℕ} (h : Quoted k t) :
    Written (scanOnce H depth) (34 :: (k ++ [34])) (.str t) := by
  refine ⟨⟨34, _, rfl, rfl⟩, fun r _ => ?_⟩
  have htext : 34 :: (k ++ [34]) ++ r = 34 :: (k ++ 34 :: r) := by simp
  have hscan : ∀ obj arr, scanValue H obj arr (34 :: (k ++ 34 :: r)) =
      .ok (.str t, r) := fun obj arr => by
    rw [scanValue, if_pos rfl, h r]
    rfl
  rw [htext]
  cases depth <;> exact hscan _ _

/-! ## Errors -/

/-- All errors that the hooks bring up are of this kind. -/
structure Raises (H : Hooks ε) (p : ε → Prop) : Prop where
  invalid : p H.invalid
  recursion : p H.recursion
  object : ∀ fs e, H.object fs = .error e → p e
  constant : ∀ l e, H.constant l = .error e → p e

section Errors

variable {p : ε → Prop} (hH : Raises H p)

include hH

theorem lift_error {α : Type} {x : Except Err α} {e : ε} (h : H.lift x = .error e) : p e := by
  rcases x with (_ | _) | a
  · obtain rfl := Except.error.inj h
    exact hH.invalid
  · obtain rfl := Except.error.inj h
    exact hH.recursion
  · simp [Hooks.lift] at h

variable (hitem : ∀ t e, item t = .error e → p e)

include hitem

theorem member_error {t : List ℕ} {e : ε} (h : member H item t = .error e) : p e := by
  rcases Results.bind_eq_error.mp h with h | ⟨_, -, h⟩
  · exact lift_error hH h
  rcases Results.bind_eq_error.mp h with h | ⟨_, -, h⟩
  · exact lift_error hH h
  rcases Results.bind_eq_error.mp h with h | ⟨_, -, h⟩
  · exact lift_error hH h
  rcases Results.bind_eq_error.mp h with h | ⟨_, -, h⟩
  · exact hitem _ _ h
  · simp [pure, Except.pure] at h

theorem members_error {e : ε} : ∀ {n : ℕ} {acc : List (List ℕ × Value)} {t : List ℕ},
    members H item n acc t = .error e → p e
  | 0, _, _, h => by
    obtain rfl := Except.error.inj h
    exact hH.invalid
  | n + 1, acc, t, h => by
    rw [members] at h
    rcases Results.bind_eq_error.mp h with h | ⟨⟨f, t₁⟩, -, h⟩
    · exact member_error hH hitem h
    dsimp only at h
    split at h
    · obtain rfl := Except.error.inj h
      exact hH.invalid
    · split_ifs at h
      · exact hH.object _ _ (Results.map_eq_error.mp h)
      · exact members_error h
      · obtain rfl := Except.error.inj h
        exact hH.invalid

theorem object_error {t : List ℕ} {e : ε} (h : object H item t = .error e) : p e := by
  unfold object at h
  split at h
  · obtain rfl := Except.error.inj h
    exact hH.invalid
  · split_ifs at h
    · exact hH.object _ _ (Results.map_eq_error.mp h)
    · exact members_error hH hitem h

theorem elements_error {e : ε} : ∀ {n : ℕ} {acc : List Value} {t : List ℕ},
    elements H item n acc t = .error e → p e
  | 0, _, _, h => by
    obtain rfl := Except.error.inj h
    exact hH.invalid
  | n + 1, acc, t, h => by
    rw [elements] at h
    rcases Results.bind_eq_error.mp h with h | ⟨⟨v, t₁⟩, -, h⟩
    · exact hitem _ _ h
    dsimp only at h
    split at h
    · obtain rfl := Except.error.inj h
      exact hH.invalid
    · split_ifs at h
      · exact elements_error h
      · obtain rfl := Except.error.inj h
        exact hH.invalid

theorem array_error {t : List ℕ} {e : ε} (h : array H item t = .error e) : p e := by
  unfold array at h
  split at h
  · obtain rfl := Except.error.inj h
    exact hH.invalid
  · split_ifs at h
    exact elements_error hH hitem h

omit hitem in
theorem scanValue_error {obj arr : List ℕ → Except ε (Value × List ℕ)}
    (hobj : ∀ t e, obj t = .error e → p e) (harr : ∀ t e, arr t = .error e → p e) {t : List ℕ} {e : ε}
    (h : scanValue H obj arr t = .error e) : p e := by
  rcases t with _ | ⟨c, t⟩
  · obtain rfl := Except.error.inj h
    exact hH.invalid
  rw [scanValue] at h
  split_ifs at h
  · exact lift_error hH h
  · exact hobj _ _ h
  · exact harr _ _ h
  · split at h
    · simp at h
    · split at h
      · exact hH.constant _ _ (Results.map_eq_error.mp h)
      · exact lift_error hH h

end Errors

theorem scanOnce_error {p : ε → Prop} (hH : Raises H p) : ∀ {depth : ℕ} (t : List ℕ) (e : ε),
    scanOnce H depth t = .error e → p e
  | 0, _, _, h => by
    have hrecursion : ∀ (t : List ℕ) (e : ε),
        (Except.error H.recursion : Except ε (Value × List ℕ)) = .error e → p e := fun _ _ h => by
      obtain rfl := Except.error.inj h
      exact hH.recursion
    exact scanValue_error hH hrecursion hrecursion h
  | depth + 1, _, _, h =>
    scanValue_error hH (fun _ _ h => object_error hH (scanOnce_error hH) h)
      (fun _ _ h => array_error hH (scanOnce_error hH) h) h

/-- **What the decoder fails with.** -/
theorem decode_error {p : ε → Prop} (hH : Raises H p) {depth : ℕ} {t : List ℕ} {e : ε}
    (h : decode H depth t = .error e) : p e := by
  unfold decode at h
  split at h
  · next e' he =>
    obtain rfl := Except.error.inj h
    exact scanOnce_error hH _ _ he
  · split_ifs at h
    obtain rfl := Except.error.inj h
    exact hH.invalid

/-! ## Stricter hooks -/

/-- What the first hooks take the second ones take as well, for the same value. -/
structure Admits {ε' : Type} (H : Hooks ε) (H' : Hooks ε') : Prop where
  object : ∀ fs v, H.object fs = .ok v → H'.object fs = .ok v
  constant : ∀ l v, H.constant l = .ok v → H'.constant l = .ok v

section Admits

variable {ε' : Type} {H' : Hooks ε'} {item' : List ℕ → Except ε' (Value × List ℕ)}

theorem lift_admits {α : Type} {x : Except Err α} {a : α} (h : H.lift x = .ok a) : H'.lift x = .ok a := by
  rcases x with (_ | _) | b
  · simp [Hooks.lift] at h
  · simp [Hooks.lift] at h
  · obtain rfl := Except.ok.inj h
    rfl

variable (hH : Admits H H') (hitem : ∀ t p, item t = .ok p → item' t = .ok p)

include hitem

theorem member_admits {t : List ℕ} {p : (List ℕ × Value) × List ℕ} (h : member H item t = .ok p) :
    member H' item' t = .ok p := by
  obtain ⟨t₁, h₁, h⟩ := Results.bind_eq_ok.mp h
  obtain ⟨⟨key, t₂⟩, h₂, h⟩ := Results.bind_eq_ok.mp h
  obtain ⟨t₃, h₃, h⟩ := Results.bind_eq_ok.mp h
  obtain ⟨⟨v, t₄⟩, h₄, h⟩ := Results.bind_eq_ok.mp h
  refine Results.bind_eq_ok.mpr ⟨t₁, lift_admits h₁, Results.bind_eq_ok.mpr ⟨(key, t₂), lift_admits h₂,
    Results.bind_eq_ok.mpr ⟨t₃, lift_admits h₃, Results.bind_eq_ok.mpr ⟨(v, t₄), hitem _ _ h₄, ?_⟩⟩⟩⟩
  obtain rfl := Except.ok.inj h
  rfl

include hH

theorem members_admits {p : Value × List ℕ} : ∀ {n : ℕ} {acc : List (List ℕ × Value)} {t : List ℕ},
    members H item n acc t = .ok p → members H' item' n acc t = .ok p
  | 0, _, _, h => by simp [members] at h
  | n + 1, acc, t, h => by
    rw [members] at h ⊢
    obtain ⟨⟨f, t₁⟩, hf, h⟩ := Results.bind_eq_ok.mp h
    refine Results.bind_eq_ok.mpr ⟨(f, t₁), member_admits hitem hf, ?_⟩
    dsimp only at h ⊢
    generalize skip t₁ = u at h ⊢
    rcases u with _ | ⟨c, t₂⟩
    · simp at h
    · dsimp only at h ⊢
      by_cases hbrace : c = 125
      · rw [if_pos hbrace] at h ⊢
        obtain ⟨v, hv, hp⟩ := Results.map_eq_ok.mp h
        exact Results.map_eq_ok.mpr ⟨v, hH.object _ _ hv, hp⟩
      · rw [if_neg hbrace] at h ⊢
        by_cases hcomma : c = 44
        · rw [if_pos hcomma] at h ⊢
          exact members_admits h
        · simp [hcomma] at h

theorem object_admits {t : List ℕ} {p : Value × List ℕ} (h : object H item t = .ok p) :
    object H' item' t = .ok p := by
  unfold object at h ⊢
  generalize skip t = u at h ⊢
  rcases u with _ | ⟨c, r⟩
  · simp at h
  · dsimp only at h ⊢
    by_cases hbrace : c = 125
    · rw [if_pos hbrace] at h ⊢
      obtain ⟨v, hv, hp⟩ := Results.map_eq_ok.mp h
      exact Results.map_eq_ok.mpr ⟨v, hH.object _ _ hv, hp⟩
    · rw [if_neg hbrace] at h ⊢
      exact members_admits hH hitem h

omit hH in
theorem elements_admits {p : Value × List ℕ} : ∀ {n : ℕ} {acc : List Value} {t : List ℕ},
    elements H item n acc t = .ok p → elements H' item' n acc t = .ok p
  | 0, _, _, h => by simp [elements] at h
  | n + 1, acc, t, h => by
    rw [elements] at h ⊢
    obtain ⟨⟨v, t₁⟩, hv, h⟩ := Results.bind_eq_ok.mp h
    refine Results.bind_eq_ok.mpr ⟨(v, t₁), hitem _ _ hv, ?_⟩
    dsimp only at h ⊢
    generalize skip t₁ = u at h ⊢
    rcases u with _ | ⟨c, t₂⟩
    · simp at h
    · dsimp only at h ⊢
      by_cases hbracket : c = 93
      · rw [if_pos hbracket] at h ⊢
        obtain rfl := Except.ok.inj h
        rfl
      · rw [if_neg hbracket] at h ⊢
        by_cases hcomma : c = 44
        · rw [if_pos hcomma] at h ⊢
          exact elements_admits h
        · simp [hcomma] at h

omit hH in
theorem array_admits {t : List ℕ} {p : Value × List ℕ} (h : array H item t = .ok p) :
    array H' item' t = .ok p := by
  unfold array at h ⊢
  generalize skip t = u at h ⊢
  rcases u with _ | ⟨c, r⟩
  · simp at h
  · dsimp only at h ⊢
    by_cases hbracket : c = 93
    · rw [if_pos hbracket] at h ⊢
      obtain rfl := Except.ok.inj h
      rfl
    · rw [if_neg hbracket] at h ⊢
      exact elements_admits hitem h

omit hitem in
theorem scanValue_admits {obj arr : List ℕ → Except ε (Value × List ℕ)}
    {obj' arr' : List ℕ → Except ε' (Value × List ℕ)} (hobj : ∀ t p, obj t = .ok p → obj' t = .ok p)
    (harr : ∀ t p, arr t = .ok p → arr' t = .ok p) {t : List ℕ} {p : Value × List ℕ}
    (h : scanValue H obj arr t = .ok p) : scanValue H' obj' arr' t = .ok p := by
  rcases t with _ | ⟨c, r⟩
  · simp [scanValue] at h
  rw [scanValue] at h ⊢
  by_cases hquote : c = 34
  · rw [if_pos hquote] at h ⊢
    exact lift_admits h
  rw [if_neg hquote] at h ⊢
  by_cases hbrace : c = 123
  · rw [if_pos hbrace] at h ⊢
    exact hobj _ _ h
  rw [if_neg hbrace] at h ⊢
  by_cases hbracket : c = 91
  · rw [if_pos hbracket] at h ⊢
    exact harr _ _ h
  rw [if_neg hbracket] at h ⊢
  generalize (words.find? fun l => l.1.isPrefixOf (c :: r)) = word at h ⊢
  rcases word with _ | l
  · generalize (constants.find? fun l => l.isPrefixOf (c :: r)) = name at h ⊢
    rcases name with _ | l
    · exact lift_admits h
    · obtain ⟨v, hv, hp⟩ := Results.map_eq_ok.mp h
      exact Results.map_eq_ok.mpr ⟨v, hH.constant _ _ hv, hp⟩
  · obtain rfl := Except.ok.inj h
    rfl

end Admits

theorem scanOnce_admits {ε' : Type} {H' : Hooks ε'} (hH : Admits H H') : ∀ {depth : ℕ} (t : List ℕ)
    (p : Value × List ℕ), scanOnce H depth t = .ok p → scanOnce H' depth t = .ok p
  | 0, _, _, h => scanValue_admits hH (fun _ _ h => by simp at h) (fun _ _ h => by simp at h) h
  | depth + 1, _, _, h =>
    scanValue_admits hH (fun _ _ h => object_admits hH (scanOnce_admits hH) h)
      (fun _ _ h => array_admits (scanOnce_admits hH) h) h

/-- **What strict hooks read, the others read as well.** -/
theorem decode_admits {ε' : Type} {H' : Hooks ε'} (hH : Admits H H') {depth : ℕ} {t : List ℕ} {v : Value}
    (h : decode H depth t = .ok v) : decode H' depth t = .ok v := by
  unfold decode at h ⊢
  rcases hs : scanOnce H depth (skip t) with e | ⟨v', r⟩
  · simp [hs] at h
  · rw [hs] at h
    rw [scanOnce_admits hH _ _ hs]
    dsimp only at h ⊢
    by_cases hend : skip r = []
    · rw [if_pos hend] at h ⊢
      exact Except.ok.inj h ▸ rfl
    · simp [hend] at h

end IdenGrid.Lib.JsonHooks
