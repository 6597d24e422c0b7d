import IdenGrid.Agent.Redaction

/-! # What redaction hides

A token is hidden at a place of a text if the output of `redact` stays the same when another token stands
there, whatever follows.

`redaction_iff`: after `Bearer `, a token is hidden up to its first quote or brace, unless the marker
itself stands in the value of an earlier marker. As the value of a key it is hidden up to its first quote,
unless the key is replaced as the value of a key before it; and the name of an earlier key is no secret.
`redact` ends on every text and changes nothing the second time. -/

namespace IdenGrid.Agent.Hiding

open IdenGrid.Agent.Redaction IdenGrid.Agent.TokenUpdate
open IdenGrid.Lib.JsonHooks IdenGrid.Lib.Scan IdenGrid.Lib.Segments IdenGrid.Lib.Unicode

/-! ## Places of a token -/

/-- The two texts have the same output. -/
def Alike (t t' : List ℕ) : Prop := ∃ output, Redacts t output ∧ Redacts t' output

def bearer : List ℕ := text "Bearer "

/-- What may follow a token in a header: nothing, or white space first. -/
def Follows (s : List ℕ) : Prop := ∀ c ∈ s.head?, isWhitespace c = true

def bearerText (p token s : List ℕ) : List ℕ := p ++ (bearer ++ (token ++ s))

def jsonEscape (c : ℕ) : List ℕ := if c = 34 ∨ c = 92 then [92, c] else [c]

/-- A token as a string in JSON, without the quotes around it. -/
def jsonToken (token : List ℕ) : List ℕ := token.flatMap jsonEscape

/-- `"key":"e"` with the encoding of the token. -/
def memberText (p key token s : List ℕ) : List ℕ :=
  p ++ (needle key ++ (jsonToken token ++ 34 :: s))

def isQuote (c : ℕ) : Bool := c == 34

/-- The keys up to this one, in the order of the loops. -/
def through (key : List ℕ) : List (List ℕ) → List (List ℕ)
  | [] => []
  | k :: ks => if k = key then [k] else k :: through key ks

/-- The segment after these, the last one first, is taken for the value of one of the keys: they end with
`"k":` for such a key, which is not itself taken for a value by the loop of `k` or one before it. -/
def swallowed : List (List ℕ) → List (List ℕ) → Bool
  | c :: k :: before, ks => decide (c = [58] ∧ k ∈ ks) && !swallowed before (through k ks)
  | _, _ => false

/-- The key after this text is taken for a value, by its own loop or one before it. -/
def keySwallowed (p key : List ℕ) : Bool :=
  swallowed (segments 34 p).2.reverse (through key keys)

/-- The keys before this one. -/
def earlier (key : List ℕ) : List (List ℕ) := keys.takeWhile (· ≠ key)

/-! ## The output -/

/-- The output of `redact`. -/
def output (t : List ℕ) : List ℕ := redacted (segments 34 t).1 (segments 34 t).2

theorem alike_iff {t t' : List ℕ} : Alike t t' ↔ output t = output t' := by
  constructor
  · rintro ⟨o, h, h'⟩
    rw [redacts_iff] at h h'
    exact h.symm.trans h'
  · exact fun h => ⟨output t, redacts t, h ▸ redacts t'⟩

theorem segments_hideBearer (t : List ℕ) : segments 34 (hideBearer t) =
    (hideBearer (segments 34 t).1, (segments 34 t).2.map hideBearer) := by
  obtain ⟨hfirst, hothers⟩ := segments_free (d := 34) t
  conv_lhs => rw [← glue_segments (d := 34) t]
  rw [hideBearer_glue, segments_glue (hideBearer_free hfirst) (map_hideBearer_free hothers)]

/-- The output is that of the text after the header loops. -/
theorem output_eq (t : List ℕ) : output t =
    glue 34 (segments 34 (hideBearer t)).1 (concealAll keys (segments 34 (hideBearer t)).2) := by
  rw [segments_hideBearer]
  rfl

theorem output_inj {t t' : List ℕ} (h : output t = output t') :
    (segments 34 (hideBearer t)).1 = (segments 34 (hideBearer t')).1 ∧
      concealAll keys (segments 34 (hideBearer t)).2 =
        concealAll keys (segments 34 (hideBearer t')).2 := by
  have hfree : ∀ t : List ℕ, 34 ∉ (segments 34 t).1 ∧ ∀ s ∈ concealAll keys (segments 34 t).2, 34 ∉ s := by
    intro t
    obtain ⟨hfirst, hothers⟩ := segments_free (d := 34) t
    refine ⟨hfirst, fun s hs => ?_⟩
    rcases mem_concealAll hs with hs | rfl
    · exact hothers s hs
    · exact marker_free
  rw [output_eq, output_eq] at h
  exact glue_inj (hfree _).1 (hfree _).2 (hfree _).1 (hfree _).2 h

/-! ## The last segment -/

/-- All the segments of a text. -/
def allSegments (t : List ℕ) : List (List ℕ) := (segments 34 t).1 :: (segments 34 t).2

theorem length_allSegments (t : List ℕ) : (allSegments t).length = t.count 34 + 1 := by
  rw [allSegments, List.length_cons]
  congr 1
  induction t with
  | nil => rfl
  | cons c t ih =>
    by_cases hc : c = 34
    · subst hc
      simp only [segments, if_true, List.length_cons, ih, List.count_cons_self]
    · simp only [segments, if_neg hc, ih, List.count_cons_of_ne hc]

/-- A text without quotes goes to the last segment. -/
theorem getLast?_allSegments {v : List ℕ} (hv : 34 ∉ v) : ∀ u : List ℕ,
    (allSegments (u ++ v)).getLast? = (allSegments u).getLast?.map (· ++ v)
  | [] => by
    rw [List.nil_append, allSegments, segments_of_free hv]
    rfl
  | c :: u => by
    have ih := getLast?_allSegments hv u
    rw [allSegments, allSegments] at ih ⊢
    by_cases hc : c = 34
    · simp only [List.cons_append, segments, if_pos hc, List.getLast?_cons_cons]
      exact ih
    · simp only [List.cons_append, segments, if_neg hc]
      rcases hu : segments 34 u with ⟨first, _ | ⟨s, others⟩⟩ <;>
        rcases huv : segments 34 (u ++ v) with ⟨first', _ | ⟨s', others'⟩⟩ <;>
        rw [hu, huv] at ih <;>
        simp only [List.getLast?_singleton, List.getLast?_cons_cons, Option.map_some,
          Option.some.injEq] at ih ⊢
      · rw [ih, List.cons_append]
      · have hcount := length_allSegments (u ++ v)
        have hcount' := length_allSegments u
        rw [allSegments, hu] at hcount'
        rw [allSegments, huv, List.count_append, List.count_eq_zero.mpr hv] at hcount
        simp only [List.length_cons, List.length_nil] at hcount hcount'
        omega
      · have hcount := length_allSegments (u ++ v)
        have hcount' := length_allSegments u
        rw [allSegments, hu] at hcount'
        rw [allSegments, huv, List.count_append, List.count_eq_zero.mpr hv] at hcount
        simp only [List.length_cons, List.length_nil] at hcount hcount'
        omega
      · exact ih

theorem getLast?_conceal (key a : List ℕ) (others : List (List ℕ)) :
    (a :: conceal key others).getLast? = (a :: others).getLast? := by
  rw [List.getLast?_eq_getElem?, List.getLast?_eq_getElem?, List.length_cons, List.length_cons,
    length_conceal]
  rcases hn : others.length with _ | n
  · rfl
  · rcases getElem?_conceal key others n with hsame | ⟨-, j, rfl, -, -, hlt⟩
    · exact hsame
    · omega

theorem getLast?_concealAll (a : List ℕ) : ∀ ks others : List (List ℕ),
    (a :: concealAll ks others).getLast? = (a :: others).getLast?
  | [], _ => rfl
  | key :: ks, others => by
    rw [concealAll_cons, getLast?_concealAll a ks, getLast?_conceal]

theorem getLast?_output {t t' : List ℕ} (h : output t = output t') :
    (allSegments (hideBearer t)).getLast? = (allSegments (hideBearer t')).getLast? := by
  obtain ⟨hfirst, hothers⟩ := output_inj h
  rw [allSegments, allSegments, ← getLast?_concealAll _ keys, hfirst, hothers,
    getLast?_concealAll]

/-- The output tells how many quotes there are. -/
theorem count_output {t t' : List ℕ} (h : output t = output t') : t.count 34 = t'.count 34 := by
  have hlength := congrArg List.length (output_inj h).2
  rw [length_concealAll, length_concealAll, segments_hideBearer, segments_hideBearer] at hlength
  simp only [List.length_map] at hlength
  have hcount := length_allSegments t
  have hcount' := length_allSegments t'
  rw [allSegments, List.length_cons] at hcount hcount'
  omega

/-! ## In a header -/

theorem behind_bearer (t : List ℕ) : behind isStop (bearer ++ t) = 32 :: t := by
  have hbearer : bearer ++ t = text "Bearer" ++ 32 :: t := rfl
  have hfree : ∀ c ∈ text "Bearer", (!isStop c) = true := by decide
  rw [hbearer, behind, List.dropWhile_append_of_pos hfree]
  rfl

theorem noCross_bearer (p t : List ℕ) : NoCross bearer p (bearer ++ t) :=
  noCross_of_head fun c hc => by
    obtain rfl := Option.some.inj hc
    decide

/-- The first header loop on a token. -/
theorem hide_bearerText (p t : List ℕ) : hide bearer marker isStop (p ++ (bearer ++ t)) =
    hide bearer marker isStop p ++
      if pending bearer isStop p then hide bearer marker isStop (32 :: t)
      else bearer ++ (marker ++ hide bearer marker isStop (behind isStop t)) := by
  rw [hide_append (by decide) p (noCross_bearer p t), behind_bearer]
  split_ifs with hp
  · rfl
  · rw [hide_marker (by decide)]

theorem hideBearer_eq (x : List ℕ) : hideBearer x =
    hide (text "bearer ") marker isStop (hide bearer marker isStop x) := rfl

theorem alike_bearer {p v w : List ℕ} (hp : pending bearer isStop p = false)
    (h : behind isStop v = behind isStop w) (s : List ℕ) :
    Alike (bearerText p v s) (bearerText p w s) := by
  have hside : ∀ v, hide bearer marker isStop (bearerText p v s) =
      hide bearer marker isStop p ++ (bearer ++ (marker ++ hide bearer marker isStop
        (if (behind isStop v).isEmpty then behind isStop s else behind isStop v ++ s))) := fun v => by
    rw [bearerText, hide_bearerText, hp, if_neg (by decide), behind_append]
  rw [alike_iff, output_eq, output_eq, hideBearer_eq, hideBearer_eq, hside, hside, h]

/-- The characters of a token. -/
def Graphic (v : List ℕ) : Prop := ∀ c ∈ v, 0x21 ≤ c ∧ c ≤ 0x7E

theorem Graphic.no_space {v : List ℕ} (h : Graphic v) : 32 ∉ v := fun hmem => by
  have := h 32 hmem
  omega

theorem graphic_behind {v : List ℕ} (h : Graphic v) : Graphic (behind isStop v) :=
  fun c hc => h c ((List.dropWhile_suffix _).subset hc)

theorem hide_token {m v : List ℕ} (hm : m ∈ bearerMarkers) (hv : 32 ∉ v) :
    hide m marker isStop v = v := by
  have hspace : ∀ m ∈ bearerMarkers, 32 ∈ m := by decide
  exact hide_of_not_infix (bearer_ne_nil m hm) v fun hmarker => hv (hmarker.subset (hspace m hm))

theorem hide_space_token {m v : List ℕ} (hm : m ∈ bearerMarkers) (hv : 32 ∉ v) :
    hide m marker isStop (32 :: v) = 32 :: v := by
  have hskip : ¬ m <+: 32 :: v := by
    rintro ⟨t, ht⟩
    obtain ⟨h, m', rfl⟩ := List.exists_cons_of_ne_nil (bearer_ne_nil m hm)
    obtain ⟨rfl, -⟩ := List.cons.inj ht
    have hhead : ∀ m ∈ bearerMarkers, m.head? ≠ some 32 := by decide
    exact hhead _ hm rfl
  rw [hide_skip hskip, hide_token hm hv]

theorem marker_last : ∀ m ∈ bearerMarkers, ∀ c ∈ marker.getLast?, c ∉ m := by decide

/-- The second header loop, on what starts behind a replacement. -/
theorem hide_behind_marker {m : List ℕ} (hm : m ∈ bearerMarkers) {z y : List ℕ}
    (hbehind : behind isStop y = y) (hy : hide m marker isStop y = y) :
    hide m marker isStop (z ++ marker ++ y) = hide m marker isStop (z ++ marker) ++ y := by
  have hcross : NoCross m (z ++ marker) y := noCross_of_last fun c hc => by
    have hlast : (z ++ marker).getLast? = marker.getLast? := by
      rw [List.getLast?_append]
      rfl
    exact marker_last m hm c (hlast ▸ hc)
  rw [hide_append (bearer_ne_nil m hm) _ hcross, hbehind, ite_self, hy]

/-- At the end of a text, what of a token stays is what stands behind its first stop, or all of it. -/
theorem hideBearer_end {p v : List ℕ} (hv : Graphic v) :
    ∃ u, ∀ v', Graphic v' → hideBearer (bearerText p v' []) =
      u ++ if pending bearer isStop p then v' else behind isStop v' := by
  have hspace := hv.no_space
  by_cases hp : pending bearer isStop p = true
  · obtain ⟨z, hz⟩ := hide_pending marker (by decide) p hp
    refine ⟨hide (text "bearer ") marker isStop (z ++ marker) ++ [32], fun v' hv' => ?_⟩
    have hspace' := hv'.no_space
    rw [if_pos hp, hideBearer_eq, bearerText, List.append_nil, hide_bearerText, if_pos hp,
      hide_space_token (by decide) hspace', hz,
      hide_behind_marker (by decide) (behind_stop rfl v') (hide_space_token (by decide) hspace'),
      List.append_assoc, List.singleton_append]
  · rw [Bool.not_eq_true] at hp
    refine ⟨hide (text "bearer ") marker isStop
      (hide bearer marker isStop p ++ bearer ++ marker), fun v' hv' => ?_⟩
    have hbehind := (graphic_behind hv').no_space
    rw [hideBearer_eq, bearerText, List.append_nil, hide_bearerText, hp, if_neg (by decide),
      if_neg (by decide), hide_token (by decide) hbehind, ← List.append_assoc,
      ← List.append_assoc, hide_behind_marker (by decide) (behind_behind v')
        (hide_token (by decide) hbehind)]

/-- **In a header**, of two tokens of which one has no quote. -/
theorem alike_bearer_iff {p v w : List ℕ} (hv : Graphic v) (hw : Graphic w) (hquote : 34 ∉ v ∨ 34 ∉ w) :
    (∀ s, Follows s → Alike (bearerText p v s) (bearerText p w s)) ↔
      v = w ∨ pending bearer isStop p = false ∧ behind isStop v = behind isStop w := by
  constructor
  · intro h
    have hout := alike_iff.mp (h [] (fun c hc => by cases hc))
    have hcount := count_output hout
    simp only [bearerText, List.count_append, List.append_nil] at hcount
    have hfree : 34 ∉ v ∧ 34 ∉ w := by
      rw [← List.count_eq_zero, ← List.count_eq_zero] at hquote ⊢
      omega
    obtain ⟨u, hu⟩ := hideBearer_end (p := p) hv
    have hlast := getLast?_output hout
    have hpart : ∀ v, 34 ∉ v → 34 ∉ if pending bearer isStop p then v else behind isStop v := by
      intro v hv
      split_ifs
      · exact hv
      · exact fun hmem => hv ((List.dropWhile_suffix _).subset hmem)
    rw [hu v hv, hu w hw, getLast?_allSegments (hpart v hfree.1), getLast?_allSegments (hpart w hfree.2)]
      at hlast
    obtain ⟨l, hl⟩ : ∃ l, (allSegments u).getLast? = some l := by
      rw [allSegments]
      exact ⟨_, List.getLast?_eq_some_getLast (List.cons_ne_nil _ _)⟩
    rw [hl, Option.map_some, Option.map_some, Option.some.injEq, List.append_cancel_left_eq] at hlast
    rcases hp : pending bearer isStop p with _ | _
    · rw [hp, if_neg (by decide), if_neg (by decide)] at hlast
      exact .inr ⟨rfl, hlast⟩
    · rw [hp, if_pos rfl, if_pos rfl] at hlast
      exact .inl hlast
  · rintro (rfl | ⟨hp, hbehind⟩) s -
    · exact alike_iff.mpr rfl
    · exact alike_bearer hp hbehind s

/-! ## The loops of the keys before a place -/

/-- The segments before a place, after the loop of a key: their last one may be a value. -/
def shade (key : List ℕ) : List (List ℕ) → List (List ℕ)
  | a :: c :: v :: others =>
    if a = key ∧ c = [58] then a :: c :: marker :: shade key others
    else a :: shade key (c :: v :: others)
  | others => others

/-- The loop of the key takes the next segment for its value. -/
def takes (key : List ℕ) : List (List ℕ) → Bool
  | a :: c :: v :: others =>
    if a = key ∧ c = [58] then takes key others else takes key (c :: v :: others)
  | [a, c] => decide (a = key ∧ c = [58])
  | _ => false

def shadeAll (ks : List (List ℕ)) (before : List (List ℕ)) : List (List ℕ) :=
  ks.foldl (fun before key => shade key before) before

/-- One of the loops, in their order, takes the next segment for a value. -/
def taken : List (List ℕ) → List (List ℕ) → Bool
  | [], _ => false
  | key :: ks, before => takes key before || taken ks (shade key before)

theorem conceal_match' {key v : List ℕ} {others : List (List ℕ)} (h : others ≠ []) :
    conceal key (key :: [58] :: v :: others) = key :: [58] :: marker :: conceal key others := by
  obtain ⟨x, rest, rfl⟩ := List.exists_cons_of_ne_nil h
  exact conceal_match v x rest

/-- **The loop of a key** on what stands before a place and behind it. -/
theorem conceal_append (key : List ℕ) {b x : List ℕ} (hb : b ≠ [58]) (y before : List (List ℕ)) :
    conceal key (before ++ b :: x :: y) =
      shade key before ++ if takes key before then marker :: conceal key (x :: y)
        else conceal key (b :: x :: y) := by
  fun_induction takes key before with
  | case1 a c v others h ih =>
    obtain ⟨rfl, rfl⟩ := h
    rw [shade, if_pos ⟨rfl, rfl⟩, List.cons_append, List.cons_append, List.cons_append,
      conceal_match' (by simp), ih]
    rfl
  | case2 a c v others h ih =>
    have hno : ¬ (a = key ∧ ∃ v' x' rest, c :: v :: (others ++ b :: x :: y) =
        [58] :: v' :: x' :: rest) := by
      rintro ⟨ha, v', x', rest, heq⟩
      exact h ⟨ha, (List.cons.inj heq).1⟩
    rw [shade, if_neg h, List.cons_append, List.cons_append, List.cons_append, conceal_cons hno]
    exact congrArg (a :: ·) ih
  | case3 a c =>
    rw [shade]
    by_cases hmatch : a = key ∧ c = [58]
    · obtain ⟨rfl, rfl⟩ := hmatch
      simp only [List.cons_append, List.nil_append, conceal_match, decide_true, and_self, if_true]
    · have hno : ¬ (a = key ∧ ∃ v' x' rest, c :: b :: x :: y = [58] :: v' :: x' :: rest) := by
        rintro ⟨ha, v', x', rest, heq⟩
        exact hmatch ⟨ha, (List.cons.inj heq).1⟩
      simp only [hmatch, decide_false, Bool.false_eq_true, if_false, List.cons_append,
        List.nil_append]
      rw [conceal_cons hno, conceal_cons_of_ne_colon hb]
    · intro a' c' v' others' heq
      cases heq
  | case4 others hlong hpair =>
    rcases others with _ | ⟨a, _ | ⟨c, _ | ⟨v, others⟩⟩⟩
    · simp [shade]
    · simp only [shade, Bool.false_eq_true, if_false, List.cons_append, List.nil_append]
      exact conceal_cons_of_ne_colon hb _
    · exact absurd rfl (hpair a c)
    · exact absurd rfl (hlong a c v others)

theorem length_shade (key : List ℕ) (before : List (List ℕ)) :
    (shade key before).length = before.length := by
  fun_induction shade key before with
  | case1 a c v others h ih => simp only [List.length_cons, ih]
  | case2 a c v others h ih => simp only [List.length_cons] at ih ⊢; omega
  | case3 others h => rfl

theorem length_shadeAll : ∀ ks before : List (List ℕ),
    (shadeAll ks before).length = before.length
  | [], _ => rfl
  | key :: ks, before => (length_shadeAll ks _).trans (length_shade key before)

theorem shadeAll_cons (key : List ℕ) (ks before : List (List ℕ)) :
    shadeAll (key :: ks) before = shadeAll ks (shade key before) := rfl

theorem taken_append : ∀ (ks ks' before : List (List ℕ)),
    taken (ks ++ ks') before = (taken ks before || taken ks' (shadeAll ks before))
  | [], _, _ => by rw [List.nil_append, taken, Bool.false_or]; rfl
  | key :: ks, ks', before => by
    rw [List.cons_append, taken, taken, taken_append ks, Bool.or_assoc, shadeAll_cons]

/-! ## The next segment -/

/-- The loops of keys that take neither the key nor its value for their own leave them. -/
theorem concealAll_before {key e : List ℕ} {rest : List (List ℕ)} (hcolon : key ≠ [58])
    (hrest : rest ≠ []) : ∀ {ks before : List (List ℕ)}, (∀ k ∈ ks, k ≠ [58] ∧ k ≠ key ∧ k ≠ e) →
      taken ks before = false →
        concealAll ks (before ++ key :: [58] :: e :: rest) =
          shadeAll ks before ++ key :: [58] :: e :: concealAll ks rest
  | [], before, _, _ => rfl
  | k :: ks, before, hks, htaken => by
    obtain ⟨⟨hk58, hkkey, hke⟩, hks⟩ := List.forall_mem_cons.mp hks
    rw [taken, Bool.or_eq_false_iff] at htaken
    have hstep : conceal k (before ++ key :: [58] :: e :: rest) =
        shade k before ++ key :: [58] :: e :: conceal k rest := by
      rw [conceal_append _ hcolon, htaken.1, if_neg (by decide), conceal_cons_of_ne hkkey.symm,
        conceal_cons_of_ne hk58.symm, conceal_cons_of_ne hke.symm]
    have hne : conceal k rest ≠ [] := fun hnil => hrest
      (List.length_eq_zero_iff.mp (by rw [← length_conceal k rest, hnil]; rfl))
    rw [concealAll_cons, hstep, concealAll_before hcolon hne hks htaken.2]
    rfl

/-- The loop of the key replaces its value. -/
theorem conceal_here {key e : List ℕ} {rest before : List (List ℕ)} (hcolon : key ≠ [58])
    (hrest : rest ≠ []) (htakes : takes key before = false) :
    conceal key (before ++ key :: [58] :: e :: rest) =
      shade key before ++ key :: [58] :: marker :: conceal key rest := by
  rw [conceal_append _ hcolon, htakes, if_neg (by decide), conceal_match' hrest]

theorem conceal_head (key e : List ℕ) (rest : List (List ℕ)) :
    ∃ rest', conceal key (e :: rest) = e :: rest' ∧ rest'.length = rest.length := by
  have hlength := length_conceal key (e :: rest)
  rcases hconceal : conceal key (e :: rest) with _ | ⟨a, rest'⟩
  · rw [hconceal] at hlength
    simp at hlength
  · rw [hconceal, List.length_cons, List.length_cons, Nat.add_right_cancel_iff] at hlength
    refine ⟨rest', ?_, hlength⟩
    rcases getElem?_conceal key (e :: rest) 0 with hsame | ⟨-, j, hj, -⟩
    · rw [hconceal] at hsame
      rw [Option.some.inj hsame]
    · omega

/-- Behind a replaced key the value stays. -/
theorem concealAll_swallowed (e : List ℕ) : ∀ {ks : List (List ℕ)} (before rest : List (List ℕ)),
    (∀ k ∈ ks, k ≠ [58] ∧ k ≠ marker) → ∃ before' rest',
      concealAll ks (before ++ marker :: [58] :: e :: rest) =
        before' ++ marker :: [58] :: e :: rest' ∧ before'.length = before.length
  | [], before, rest, _ => ⟨before, rest, rfl, rfl⟩
  | k :: ks, before, rest, hks => by
    obtain ⟨⟨hk58, hkmarker⟩, hks⟩ := List.forall_mem_cons.mp hks
    obtain ⟨rest', hrest', -⟩ := conceal_head k e rest
    have hstep : conceal k (before ++ marker :: [58] :: e :: rest) =
        shade k before ++ marker :: [58] :: e :: rest' := by
      rw [conceal_append _ (by decide), conceal_cons_of_ne hkmarker.symm, ite_self,
        conceal_cons_of_ne hk58.symm, hrest']
    obtain ⟨before', rest'', hall, hlength⟩ :=
      concealAll_swallowed e (shade k before) rest' hks
    exact ⟨before', rest'', by rw [concealAll_cons, hstep, hall], hlength.trans (length_shade k before)⟩

/-- A key that is taken for a value leaves its own value. -/
theorem concealAll_taken {key : List ℕ} (e : List ℕ) (hcolon : key ≠ [58]) (hmarker : key ≠ marker) :
    ∀ {ks before : List (List ℕ)} (rest : List (List ℕ)), (∀ k ∈ ks, k ≠ [58] ∧ k ≠ key ∧ k ≠ marker) →
      taken (ks ++ [key]) before = true → ∃ before' rest',
        concealAll (ks ++ [key]) (before ++ key :: [58] :: e :: rest) =
          before' ++ marker :: [58] :: e :: rest' ∧ before'.length = before.length
  | [], before, rest, _, htaken => by
    rw [List.nil_append, taken, taken, Bool.or_false] at htaken
    obtain ⟨rest', hrest', -⟩ := conceal_head key e rest
    refine ⟨shade key before, rest', ?_, length_shade key before⟩
    have hstep := conceal_append key (x := [58]) hcolon (e :: rest) before
    rw [htaken, if_pos rfl, conceal_cons_of_ne hcolon.symm, hrest'] at hstep
    exact hstep
  | k :: ks, before, rest, hks, htaken => by
    obtain ⟨⟨hk58, hkkey, hkmarker⟩, hks⟩ := List.forall_mem_cons.mp hks
    obtain ⟨rest', hrest', -⟩ := conceal_head k e rest
    have hstep := conceal_append k (x := [58]) hcolon (e :: rest) before
    rw [conceal_cons_of_ne hkkey.symm, conceal_cons_of_ne hk58.symm, hrest'] at hstep
    rw [List.cons_append, taken] at htaken
    rw [List.cons_append, concealAll_cons, hstep]
    rcases htakes : takes k before with _ | _
    · rw [htakes, Bool.false_or] at htaken
      obtain ⟨before', rest'', hall, hlength⟩ :=
        concealAll_taken e hcolon hmarker rest' hks htaken
      exact ⟨before', rest'', hall, hlength.trans (length_shade k before)⟩
    · have hall : ∀ k ∈ ks ++ [key], k ≠ [58] ∧ k ≠ marker := by
        intro k' hk'
        rcases List.mem_append.mp hk' with hk' | hk'
        · exact ⟨(hks k' hk').1, (hks k' hk').2.2⟩
        · rw [List.mem_singleton.mp hk']
          exact ⟨hcolon, hmarker⟩
      obtain ⟨before', rest'', hall, hlength⟩ :=
        concealAll_swallowed e (shade k before) rest' hall
      exact ⟨before', rest'', hall, hlength.trans (length_shade k before)⟩

/-- Only values of keys change, and only to the marker. -/
theorem getElem?_concealAll : ∀ {ks : List (List ℕ)}, (∀ k ∈ ks, k ≠ marker) →
    ∀ (others : List (List ℕ)) (i : ℕ), (concealAll ks others)[i]? = others[i]? ∨
      (concealAll ks others)[i]? = some marker ∧ ∃ j, i = j + 2 ∧
        ∃ k ∈ ks, others[j]? = some k ∧ others[j + 1]? = some [58]
  | [], _, others, i => .inl rfl
  | key :: ks, hks, others, i => by
    obtain ⟨hkey, hks⟩ := List.forall_mem_cons.mp hks
    rw [concealAll_cons]
    have hback : ∀ {i : ℕ} {k : List ℕ}, k ≠ marker → (conceal key others)[i]? = some k →
        others[i]? = some k := by
      intro i k hk h
      rcases getElem?_conceal key others i with hsame | ⟨hm, -⟩
      · rw [← hsame, h]
      · rw [hm] at h
        exact absurd (Option.some.inj h).symm hk
    rcases getElem?_concealAll hks (conceal key others) i with hsame | ⟨hm, j, rfl, k, hk, hj, hj'⟩
    · rw [hsame]
      refine (getElem?_conceal key others i).imp id ?_
      rintro ⟨hm, j, rfl, hj, hj', -⟩
      exact ⟨hm, j, rfl, key, List.mem_cons_self, hj, hj'⟩
    · exact .inr ⟨hm, j, rfl, k, List.mem_cons_of_mem key hk, hback (hks k hk) hj,
        hback (by decide) hj'⟩

/-! ## When a key is taken for a value -/

theorem takes_short {key : List ℕ} : ∀ {before : List (List ℕ)}, before.length ≤ 1 →
    takes key before = false
  | [], _ => rfl
  | [_], _ => rfl
  | _ :: _ :: _, h => by simp at h

theorem takes_pair (key a c : List ℕ) : takes key [a, c] = decide (a = key ∧ c = [58]) := rfl

theorem takes_append {key : List ℕ} (hcolon : key ≠ [58]) (a c : List ℕ) (before : List (List ℕ)) :
    takes key (before ++ [a, c]) = (!takes key before && decide (a = key ∧ c = [58])) := by
  fun_induction takes key before with
  | case1 a' c' v others h ih =>
    rw [List.cons_append, List.cons_append, List.cons_append, takes, if_pos h, ih]
  | case2 a' c' v others h ih =>
    rw [List.cons_append, List.cons_append, List.cons_append, takes, if_neg h]
    exact ih
  | case3 a' c' =>
    rw [List.cons_append, List.cons_append, List.nil_append, takes]
    by_cases h : a' = key ∧ c' = [58]
    · rw [if_pos h, decide_eq_true h, takes_short (by simp), Bool.not_true, Bool.false_and]
    rw [if_neg h, decide_eq_false h, Bool.not_false, Bool.true_and]
    by_cases hc : c' = key ∧ a = [58]
    · have hno : ¬ (a = key ∧ c = [58]) := fun h => hcolon (h.1.symm.trans hc.2)
      rw [takes, if_pos hc, takes_short (by simp), decide_eq_false hno]
    · rw [takes, if_neg hc, takes_pair]
  | case4 others hlong hpair =>
    rcases others with _ | ⟨a', _ | ⟨c', _ | ⟨v, others⟩⟩⟩
    · rw [List.nil_append, takes_pair, Bool.not_false, Bool.true_and]
    · rw [List.cons_append, List.nil_append, takes, Bool.not_false, Bool.true_and]
      by_cases hc : a' = key ∧ a = [58]
      · have hno : ¬ (a = key ∧ c = [58]) := fun h => hcolon (h.1.symm.trans hc.2)
        rw [if_pos hc, takes_short (by simp), decide_eq_false hno]
      · rw [if_neg hc, takes_pair]
    · exact absurd rfl (hpair a' c')
    · exact absurd rfl (hlong a' c' v others)

/-- A segment before a place stays or becomes the marker. -/
theorem forall₂_shade (key : List ℕ) (before : List (List ℕ)) :
    List.Forall₂ (fun s t => s = t ∨ s = marker) (shade key before) before := by
  fun_induction shade key before with
  | case1 a c v others h ih => exact .cons (.inl rfl) (.cons (.inl rfl) (.cons (.inr rfl) ih))
  | case2 a c v others h ih => exact .cons (.inl rfl) ih
  | case3 others h => exact List.forall₂_same.mpr fun _ _ => .inl rfl

theorem shade_append_pair (key a c : List ℕ) (before : List (List ℕ)) :
    ∃ before' a' c', shade key (before ++ [a, c]) = before' ++ [a', c'] ∧
      before'.length = before.length ∧ (a' = a ∨ a' = marker) ∧ (c' = c ∨ c' = marker) := by
  have hall := forall₂_shade key (before ++ [a, c])
  have htake := List.forall₂_take_append _ before [a, c] hall
  have hdrop := List.forall₂_drop_append _ before [a, c] hall
  obtain ⟨a', l, ha, hl, hpair⟩ := List.forall₂_cons_right_iff.mp hdrop
  obtain ⟨c', l', hc, hl', rfl⟩ := List.forall₂_cons_right_iff.mp hl
  obtain rfl := List.forall₂_nil_right_iff.mp hl'
  exact ⟨_, a', c', by rw [← hpair, List.take_append_drop], htake.length_eq, ha, hc⟩

theorem shade_short {key : List ℕ} : ∀ {before : List (List ℕ)}, before.length ≤ 2 →
    shade key before = before
  | [], _ => rfl
  | [_], _ => rfl
  | [_, _], _ => rfl
  | _ :: _ :: _ :: _, h => by simp at h

/-- Before the key of a value, exactly the loop that takes it for a value changes it. -/
theorem shade_append_colon {key a : List ℕ} (hcolon : a ≠ [58]) (before : List (List ℕ)) :
    shade key (before ++ [a, [58]]) =
      shade key before ++ [if takes key before then marker else a, [58]] := by
  fun_induction takes key before with
  | case1 a' c' v others h ih =>
    rw [List.cons_append, List.cons_append, List.cons_append, shade, if_pos h, ih, shade, if_pos h]
    rfl
  | case2 a' c' v others h ih =>
    rw [List.cons_append, List.cons_append, List.cons_append, shade, if_neg h, shade, if_neg h]
    exact congrArg (a' :: ·) ih
  | case3 a' c' =>
    rw [shade_short (by simp : [a', c'].length ≤ 2), List.cons_append, List.cons_append, List.nil_append, shade]
    by_cases h : a' = key ∧ c' = [58]
    · rw [if_pos h, shade_short (by simp), decide_eq_true h, if_pos rfl]
      rfl
    · rw [if_neg h, decide_eq_false h, if_neg (by decide), shade, if_neg fun hc => hcolon hc.2,
        shade_short (by simp)]
      rfl
  | case4 others hlong hpair =>
    rcases others with _ | ⟨a', _ | ⟨c', _ | ⟨v, others⟩⟩⟩
    · rw [if_neg (by decide), List.nil_append, shade_short (by simp), shade_short (by simp)]
      rfl
    · rw [if_neg (by decide), shade_short (by simp : [a'].length ≤ 2), List.cons_append, List.nil_append, shade,
        if_neg fun hc => hcolon hc.2, shade_short (by simp)]
    · exact absurd rfl (hpair a' c')
    · exact absurd rfl (hlong a' c' v others)

/-- Loops of other keys, or without a colon behind the key, take nothing. -/
theorem taken_pair : ∀ {ks : List (List ℕ)}, (∀ k ∈ ks, k ≠ [58] ∧ k ≠ marker) →
    ∀ {before : List (List ℕ)} {a c : List ℕ}, (∀ k ∈ ks, ¬ (a = k ∧ c = [58])) →
      taken ks (before ++ [a, c]) = false
  | [], _, _, _, _, _ => rfl
  | key :: ks, hks, before, a, c, h => by
    obtain ⟨⟨hcolon, -⟩, hks'⟩ := List.forall_mem_cons.mp hks
    obtain ⟨hkey, hrest⟩ := List.forall_mem_cons.mp h
    obtain ⟨before', a', c', hshade, -, ha, hc⟩ := shade_append_pair key a c before
    have hrest' : ∀ k ∈ ks, ¬ (a' = k ∧ c' = [58]) := by
      rintro k hk ⟨rfl, rfl⟩
      refine hrest a' hk ⟨(ha.resolve_right (hks' a' hk).2).symm, ?_⟩
      exact (hc.resolve_right (by decide)).symm
    rw [taken, takes_append hcolon, decide_eq_false hkey, Bool.and_false, Bool.false_or, hshade,
      taken_pair hks' hrest']

theorem mem_through {key k : List ℕ} : ∀ {ks : List (List ℕ)}, k ∈ through key ks → k ∈ ks
  | k' :: ks, h => by
    rw [through] at h
    split_ifs at h
    · rw [List.mem_singleton.mp h]
      exact List.mem_cons_self
    · rcases List.mem_cons.mp h with rfl | h
      · exact List.mem_cons_self
      · exact List.mem_cons_of_mem k' (mem_through h)

theorem taken_colon {a : List ℕ} (hcolon : a ≠ [58]) (hmarker : a ≠ marker) : ∀ {ks : List (List ℕ)},
    (∀ k ∈ ks, k ≠ [58] ∧ k ≠ marker) → a ∈ ks → ∀ {before : List (List ℕ)},
      taken ks (before ++ [a, [58]]) = !taken (through a ks) before
  | key :: ks, hks, ha, before => by
    obtain ⟨⟨hkey, hkeymarker⟩, hks'⟩ := List.forall_mem_cons.mp hks
    rw [taken, takes_append hkey, shade_append_colon hcolon, through]
    rcases htakes : takes key before with _ | _
    · by_cases hsame : a = key
      · subst hsame
        simp [taken, htakes]
      · have ha' : a ∈ ks := (List.mem_cons.mp ha).resolve_left hsame
        simp only [hsame, false_and, decide_false, Bool.and_false, Bool.false_or, Bool.false_eq_true,
          if_false, if_neg (Ne.symm hsame), taken, htakes]
        exact taken_colon hcolon hmarker hks' ha'
    · have hgone : taken ks (shade key before ++ [marker, [58]]) = false :=
        taken_pair hks' fun k hk hboth => (hks' k hk).2 hboth.1.symm
      simp only [Bool.not_true, Bool.false_and, Bool.false_or, if_true, hgone]
      split_ifs <;> simp [taken, htakes]

theorem taken_short {before : List (List ℕ)} (h : before.length ≤ 1) : ∀ ks : List (List ℕ),
    taken ks before = false
  | [] => rfl
  | key :: ks => by
    rw [taken, takes_short h, shade_short (by omega), Bool.false_or, taken_short h ks]

/-- **Which key is taken for a value can be read off the text.** -/
theorem taken_reverse : ∀ before ks : List (List ℕ), (∀ k ∈ ks, k ≠ [58] ∧ k ≠ marker) →
    taken ks before.reverse = swallowed before ks
  | [], ks, _ => taken_short (by simp) ks
  | [_], ks, _ => taken_short (by simp) ks
  | c :: a :: before, ks, hks => by
    have hlist : (c :: a :: before).reverse = before.reverse ++ [a, c] := by simp
    rw [hlist, swallowed]
    by_cases h : c = [58] ∧ a ∈ ks
    · obtain ⟨rfl, ha⟩ := h
      rw [taken_colon (hks a ha).1 (hks a ha).2 hks ha,
        taken_reverse before _ fun k hk => hks k (mem_through hk), decide_eq_true ⟨rfl, ha⟩, Bool.true_and]
    · have hno : ∀ k ∈ ks, ¬ (a = k ∧ c = [58]) := fun k hk hboth => h ⟨hboth.2, hboth.1 ▸ hk⟩
      rw [taken_pair hks hno, decide_eq_false h, Bool.false_and]

/-! ## An encoded token -/

theorem quoted_jsonToken {v : List ℕ} (hv : Graphic v) : Quoted (jsonToken v) v := by
  refine quoted_flatMap (fun c hc => ?_) fun c hc hhigh => ?_
  · rw [jsonEscape]
    split_ifs with h
    · rcases h with rfl | rfl
      · exact escapes_short rfl (by decide)
      · exact escapes_short rfl (by decide)
    · obtain ⟨hquote, hslash⟩ := not_or.mp h
      have := hv c hc
      exact escapes_self (by omega) hquote hslash
  · have := hv c hc
    simp only [isHigh, decide_eq_true_eq] at hhigh
    omega

/-- No two tokens have one encoding. -/
theorem jsonToken_inj {v w : List ℕ} (hv : Graphic v) (hw : Graphic w)
    (h : jsonToken v = jsonToken w) : v = w := by
  have hread := quoted_jsonToken hv []
  rw [h, quoted_jsonToken hw []] at hread
  exact (Prod.mk.inj (Except.ok.inj hread)).1.symm

theorem jsonToken_cons (c : ℕ) (v : List ℕ) : jsonToken (c :: v) = jsonEscape c ++ jsonToken v := rfl

theorem no_space_jsonToken {v : List ℕ} (hv : 32 ∉ v) : 32 ∉ jsonToken v := by
  intro hmem
  obtain ⟨c, hc, hmem⟩ := List.mem_flatMap.mp hmem
  rw [jsonEscape] at hmem
  split_ifs at hmem
  · rcases List.mem_pair.mp hmem with h | rfl
    · omega
    · exact hv hc
  · exact hv (List.mem_singleton.mp hmem ▸ hc)

/-- A segment of an encoded token, by the first character. -/
theorem segments_jsonToken_cons (c : ℕ) (v : List ℕ) : segments 34 (jsonToken (c :: v)) =
    if c = 34 then ([92], allSegments (jsonToken v))
    else (jsonEscape c ++ (segments 34 (jsonToken v)).1, (segments 34 (jsonToken v)).2) := by
  rw [jsonToken_cons, jsonEscape, allSegments]
  by_cases hquote : c = 34
  · subst hquote
    simp [segments]
  · by_cases hslash : c = 92
    · subst hslash
      simp [segments]
    · simp [segments, hquote, hslash]

/-- The segments behind the first come from the token behind its first quote. -/
theorem segments_behind (v : List ℕ) :
    behind isQuote v = [] ∧ (segments 34 (jsonToken v)).2 = [] ∨ ∃ r, behind isQuote v = 34 :: r ∧
      (segments 34 (jsonToken v)).2 = allSegments (jsonToken r) := by
  induction v with
  | nil => exact .inl ⟨rfl, rfl⟩
  | cons c v ih =>
    rw [segments_jsonToken_cons]
    by_cases hc : c = 34
    · subst hc
      exact .inr ⟨v, rfl, rfl⟩
    · rw [if_neg hc, behind, List.dropWhile_cons_of_pos (by simpa [isQuote] using hc)]
      exact ih

theorem jsonToken_of_segments {v w : List ℕ}
    (h : allSegments (jsonToken v) = allSegments (jsonToken w)) : jsonToken v = jsonToken w := by
  obtain ⟨hfirst, hothers⟩ := List.cons.inj h
  rw [← glue_segments (d := 34) (jsonToken v), hfirst, hothers, glue_segments]

theorem segments_behind_iff {v w : List ℕ} (hv : Graphic v) (hw : Graphic w) :
    (segments 34 (jsonToken v)).2 = (segments 34 (jsonToken w)).2 ↔
      behind isQuote v = behind isQuote w := by
  have hgraphic : ∀ {v r : List ℕ}, Graphic v → behind isQuote v = 34 :: r → Graphic r :=
    fun hv h c hc => hv c ((List.dropWhile_suffix _).subset (h ▸ List.mem_cons_of_mem 34 hc))
  rcases segments_behind v with ⟨hbv, hsv⟩ | ⟨r, hbv, hsv⟩ <;>
    rcases segments_behind w with ⟨hbw, hsw⟩ | ⟨r', hbw, hsw⟩ <;>
    rw [hbv, hsv, hbw, hsw]
  · exact iff_of_true rfl rfl
  · exact iff_of_false (List.cons_ne_nil _ _).symm (List.cons_ne_nil _ _).symm
  · exact iff_of_false (List.cons_ne_nil _ _) (List.cons_ne_nil _ _)
  · refine ⟨fun h => ?_, fun h => by rw [(List.cons.inj h).2]⟩
    rw [jsonToken_inj (hgraphic hv hbv) (hgraphic hw hbw) (jsonToken_of_segments h)]

/-- All segments of an encoded token but the last end with a backslash. -/
theorem getLast?_segments_jsonToken (v : List ℕ) :
    ∀ s ∈ (allSegments (jsonToken v)).dropLast, s.getLast? = some 92 := by
  induction v with
  | nil => exact fun s hs => absurd hs List.not_mem_nil
  | cons c v ih =>
    rw [allSegments, segments_jsonToken_cons]
    rw [allSegments] at ih
    by_cases hc : c = 34
    · rw [if_pos hc]
      intro s hs
      rw [allSegments, List.dropLast_cons_of_ne_nil (List.cons_ne_nil _ _)] at hs
      rcases List.mem_cons.mp hs with rfl | hs
      · rfl
      · exact ih s hs
    · rw [if_neg hc]
      rcases hothers : (segments 34 (jsonToken v)).2 with _ | ⟨x, others⟩
      · exact fun s hs => absurd hs List.not_mem_nil
      intro s hs
      rw [hothers, List.dropLast_cons_of_ne_nil (List.cons_ne_nil _ _)] at ih
      rw [List.dropLast_cons_of_ne_nil (List.cons_ne_nil _ _)] at hs
      rcases List.mem_cons.mp hs with rfl | hs
      · rw [List.getLast?_append, ih _ List.mem_cons_self]
        rfl
      · exact ih s (List.mem_cons_of_mem _ hs)

/-- A first segment without a backslash is the token. -/
theorem segments_of_no_slash : ∀ {v : List ℕ}, 92 ∉ (segments 34 (jsonToken v)).1 →
    segments 34 (jsonToken v) = (v, [])
  | [], _ => rfl
  | c :: v, h => by
    rw [segments_jsonToken_cons] at h ⊢
    by_cases hc : c = 34
    · rw [if_pos hc] at h
      exact absurd List.mem_cons_self h
    rw [if_neg hc] at h ⊢
    have hslash : c ≠ 92 := by
      rintro rfl
      exact h (List.mem_append_left _ List.mem_cons_self)
    rw [segments_of_no_slash fun hmem => h (List.mem_append_right _ hmem), jsonEscape,
      if_neg (not_or.mpr ⟨hc, hslash⟩)]
    rfl

/-! ## In a member -/

theorem mem_of_mem_allSegments {t s : List ℕ} {c : ℕ} (hs : s ∈ allSegments t) (hc : c ∈ s) :
    c ∈ t := by
  rw [← glue_segments (d := 34) t, glue]
  rcases List.mem_cons.mp hs with rfl | hs
  · exact List.mem_append_left _ hc
  · exact List.mem_append_right _ (List.mem_flatMap.mpr ⟨s, hs, List.mem_cons_of_mem 34 hc⟩)

theorem map_hideBearer_self {l : List (List ℕ)} (h : ∀ s ∈ l, 32 ∉ s) : l.map hideBearer = l :=
  (List.map_congr_left fun s hs => hideBearer_self (h s hs)).trans (List.map_id l)

/-- What stands before a place, after the header loops. -/
def beforePlace (p : List ℕ) : List (List ℕ) := (segments 34 p).2.map hideBearer

/-- The segments of a member, after the header loops. -/
def memberSegments (p key v s : List ℕ) : List (List ℕ) :=
  beforePlace p ++ key :: [58] :: (segments 34 (jsonToken v)).1 ::
    ((segments 34 (jsonToken v)).2 ++ (allSegments s).map hideBearer)

theorem segments_memberText {key : List ℕ} (hkey : 34 ∉ key) (p v s : List ℕ) :
    segments 34 (memberText p key v s) = ((segments 34 p).1, (segments 34 p).2 ++ key :: [58] ::
      (segments 34 (jsonToken v)).1 :: ((segments 34 (jsonToken v)).2 ++ allSegments s)) := by
  have htext : memberText p key v s = p ++ 34 :: (key ++ 34 :: ([58] ++ 34 :: (jsonToken v ++ 34 :: s))) := by
    simp [memberText, needle]
  rw [htext, segments_append, segments_append, segments_append, segments_append,
    segments_of_free hkey, segments_of_free (t := [58]) (by decide)]
  rfl

theorem segments_hidden {key v : List ℕ} (hkey : key ∈ keys) (hv : 32 ∉ v) (p s : List ℕ) :
    segments 34 (hideBearer (memberText p key v s)) =
      (hideBearer (segments 34 p).1, memberSegments p key v s) := by
  have hself : (segments 34 (jsonToken v)).1 :: (segments 34 (jsonToken v)).2 =
      ((segments 34 (jsonToken v)).1 :: (segments 34 (jsonToken v)).2).map hideBearer :=
    (map_hideBearer_self fun t ht hmem =>
      no_space_jsonToken hv (mem_of_mem_allSegments ht hmem)).symm
  obtain ⟨hfirst, hothers⟩ := List.cons.inj hself
  rw [segments_hideBearer, segments_memberText (keys_free key hkey), memberSegments, beforePlace]
  simp only [List.map_append, List.map_cons]
  rw [← hfirst, ← hothers, hideBearer_self (keys_ne key hkey).2.2,
    hideBearer_self (show 32 ∉ [58] by decide)]

theorem alike_member_iff {key v w : List ℕ} (hkey : key ∈ keys) (hv : 32 ∉ v) (hw : 32 ∉ w)
    (p s : List ℕ) : Alike (memberText p key v s) (memberText p key w s) ↔
      concealAll keys (memberSegments p key v s) = concealAll keys (memberSegments p key w s) := by
  rw [alike_iff]
  constructor
  · intro h
    have h' := (output_inj h).2
    rwa [segments_hidden hkey hv, segments_hidden hkey hw] at h'
  · intro h
    rw [output_eq, output_eq, segments_hidden hkey hv, segments_hidden hkey hw, h]

theorem swallowed_hideBearer : ∀ {l ks : List (List ℕ)}, (∀ k ∈ ks, 32 ∉ k) →
    swallowed (l.map hideBearer) ks = swallowed l ks
  | [], _, _ => rfl
  | [_], _, _ => rfl
  | c :: k :: l, ks, hks => by
    have hcolon : hideBearer c = [58] ↔ c = [58] :=
      ⟨fun h => eq_of_hideBearer_eq h (by decide), fun h => by rw [h, hideBearer_self (by decide)]⟩
    rw [List.map_cons, List.map_cons, swallowed, swallowed]
    by_cases hk : k ∈ ks
    · rw [hideBearer_self (hks k hk), swallowed_hideBearer fun k' hk' => hks k' (mem_through hk')]
      simp only [hcolon]
    · have hk' : hideBearer k ∉ ks := fun h => hk ((eq_of_hideBearer_eq rfl (hks _ h)) ▸ h)
      rw [decide_eq_false fun h => hk' h.2, decide_eq_false fun h => hk h.2]
      rfl

/-- The keys behind this one. -/
def later (key : List ℕ) : List (List ℕ) := keys.drop ((earlier key).length + 1)

theorem keys_split : ∀ key ∈ keys, keys = earlier key ++ key :: later key ∧
    through key keys = earlier key ++ [key] ∧ key ∉ earlier key := by decide

theorem keySwallowed_eq {key : List ℕ} (hkey : key ∈ keys) (p : List ℕ) :
    keySwallowed p key = taken (earlier key ++ [key]) (beforePlace p) := by
  have hthrough : ∀ k ∈ through key keys, k ∈ keys := fun k hk => mem_through hk
  have hreverse := taken_reverse (beforePlace p).reverse (through key keys)
    fun k hk => ⟨(keys_ne k (hthrough k hk)).2.1, (keys_ne k (hthrough k hk)).1⟩
  rw [List.reverse_reverse, beforePlace, ← List.map_reverse,
    swallowed_hideBearer fun k hk => (keys_ne k (hthrough k hk)).2.2] at hreverse
  rw [keySwallowed, ← hreverse, (keys_split key hkey).2.1, beforePlace]

theorem concealAll_append (ks ks' others : List (List ℕ)) :
    concealAll (ks ++ ks') others = concealAll ks' (concealAll ks others) := List.foldl_append

theorem mem_earlier {key k : List ℕ} (h : k ∈ earlier key) : k ∈ keys :=
  (List.takeWhile_subset _ h)

/-- The first segment of a token is the name of a key only if it is the token. -/
theorem token_of_first {v k : List ℕ} (hk : k ∈ keys) (h : k = (segments 34 (jsonToken v)).1) :
    v = k := by
  have hslash : ∀ key ∈ keys, 92 ∉ key := by decide
  rw [segments_of_no_slash (h ▸ hslash k hk)] at h
  exact h.symm

theorem concealAll_hidden {key v : List ℕ} (hkey : key ∈ keys) (hv : v ∉ earlier key) {p : List ℕ}
    (hp : keySwallowed p key = false) (s : List ℕ) :
    concealAll keys (memberSegments p key v s) = concealAll (later key)
      (shade key (shadeAll (earlier key) (beforePlace p)) ++ key :: [58] :: marker ::
        conceal key (concealAll (earlier key)
          ((segments 34 (jsonToken v)).2 ++ (allSegments s).map hideBearer))) := by
  obtain ⟨hsplit, -, hnot⟩ := keys_split key hkey
  rw [keySwallowed_eq hkey, taken_append, Bool.or_eq_false_iff, taken, Bool.or_eq_false_iff] at hp
  have hrest : (segments 34 (jsonToken v)).2 ++ (allSegments s).map hideBearer ≠ [] := by
    simp [allSegments]
  have hbefore : ∀ k ∈ earlier key, k ≠ [58] ∧ k ≠ key ∧ k ≠ (segments 34 (jsonToken v)).1 :=
    fun k hk => ⟨(keys_ne k (mem_earlier hk)).2.1, fun h => hnot (h ▸ hk),
      fun h => hv (token_of_first (mem_earlier hk) h ▸ hk)⟩
  have hall : concealAll (earlier key)
      ((segments 34 (jsonToken v)).2 ++ (allSegments s).map hideBearer) ≠ [] := fun hnil => hrest
    (List.length_eq_zero_iff.mp (by rw [← length_concealAll (earlier key), hnil]; rfl))
  conv_lhs => rw [hsplit]
  rw [concealAll_append, memberSegments,
    concealAll_before (keys_ne key hkey).2.1 hrest hbefore hp.1, concealAll_cons,
    conceal_here (keys_ne key hkey).2.1 hall hp.2.1]

theorem alike_member {key p v w : List ℕ} (hkey : key ∈ keys) (hv : Graphic v) (hw : Graphic w)
    (hp : keySwallowed p key = false) (hbehind : behind isQuote v = behind isQuote w)
    (hvkey : v ∉ earlier key) (hwkey : w ∉ earlier key) (s : List ℕ) :
    Alike (memberText p key v s) (memberText p key w s) := by
  rw [alike_member_iff hkey hv.no_space hw.no_space, concealAll_hidden hkey hvkey hp,
    concealAll_hidden hkey hwkey hp, (segments_behind_iff hv hw).mpr hbehind]

/-- What of a token stands in segments of its own stays. -/
theorem getElem?_stays (key p s : List ℕ) {v : List ℕ} {i : ℕ}
    (hi : i < (segments 34 (jsonToken v)).2.length) :
    (concealAll keys (memberSegments p key v s))[(beforePlace p).length + (i + 3)]? =
      (segments 34 (jsonToken v)).2[i]? := by
  have hplace : ∀ n, (memberSegments p key v s)[(beforePlace p).length + n]? =
      (key :: [58] :: (allSegments (jsonToken v) ++ (allSegments s).map hideBearer))[n]? := fun n => by
    rw [memberSegments, List.getElem?_append_right (Nat.le_add_right _ n), Nat.add_sub_cancel_left]
    rfl
  have hself : (memberSegments p key v s)[(beforePlace p).length + (i + 3)]? =
      (segments 34 (jsonToken v)).2[i]? := by
    rw [hplace, allSegments, List.getElem?_cons_succ, List.getElem?_cons_succ, List.cons_append,
      List.getElem?_cons_succ, List.getElem?_append_left hi]
  rcases getElem?_concealAll (fun k hk => (keys_ne k hk).1) (memberSegments p key v s)
    ((beforePlace p).length + (i + 3)) with hsame | ⟨-, j, hj, k, -, -, hcolon⟩
  · rw [hsame, hself]
  · -- the segment before it ends with a backslash
    have hlt : i < (allSegments (jsonToken v)).dropLast.length := by
      rw [List.length_dropLast, allSegments, List.length_cons]
      omega
    have hmem : (allSegments (jsonToken v)).dropLast[i]? = some [58] := by
      rw [List.getElem?_dropLast, if_pos (by rw [List.length_dropLast] at hlt; exact hlt)]
      rw [show j + 1 = (beforePlace p).length + (i + 2) by omega, hplace, List.getElem?_cons_succ,
        List.getElem?_cons_succ, List.getElem?_append_left (by rw [List.length_dropLast] at hlt; omega)]
        at hcolon
      exact hcolon
    have hlast := getLast?_segments_jsonToken v [58] (List.mem_of_getElem? hmem)
    exact absurd (Option.some.inj hlast) (by decide)

theorem behind_of_alike {key p v w s : List ℕ} (hkey : key ∈ keys) (hv : Graphic v) (hw : Graphic w)
    (h : Alike (memberText p key v s) (memberText p key w s)) : behind isQuote v = behind isQuote w := by
  rw [alike_member_iff hkey hv.no_space hw.no_space] at h
  have hlength := congrArg List.length h
  rw [length_concealAll, length_concealAll, memberSegments, memberSegments] at hlength
  simp only [List.length_append, List.length_cons] at hlength
  rw [← segments_behind_iff hv hw]
  refine List.ext_getElem? fun i => ?_
  rcases Nat.lt_or_ge i (segments 34 (jsonToken v)).2.length with hi | hi
  · rw [← getElem?_stays key p s hi, h, getElem?_stays key p s (by omega)]
  · rw [List.getElem?_eq_none hi, List.getElem?_eq_none (by omega)]

/-- Behind a key that is taken for a value, the first segment of the token stays. -/
theorem getElem?_swallowed {key : List ℕ} (hkey : key ∈ keys) {p : List ℕ}
    (hp : keySwallowed p key = true) (v s : List ℕ) :
    (concealAll keys (memberSegments p key v s))[(beforePlace p).length + 2]? =
      some (segments 34 (jsonToken v)).1 := by
  obtain ⟨hsplit, -, hnot⟩ := keys_split key hkey
  rw [keySwallowed_eq hkey] at hp
  obtain ⟨before', rest', htaken, hlength⟩ := concealAll_taken (segments 34 (jsonToken v)).1 (keys_ne key hkey).2.1
    (keys_ne key hkey).1 ((segments 34 (jsonToken v)).2 ++ (allSegments s).map hideBearer) (fun k hk => ⟨(keys_ne k (mem_earlier hk)).2.1,
      fun h => absurd hk (by rw [h]; exact hnot), (keys_ne k (mem_earlier hk)).1⟩) hp
  have hlater : ∀ k ∈ later key, k ≠ [58] ∧ k ≠ marker := fun k hk =>
    ⟨(keys_ne k (List.mem_of_mem_drop hk)).2.1, (keys_ne k (List.mem_of_mem_drop hk)).1⟩
  obtain ⟨before'', rest'', hall, hlength'⟩ :=
    concealAll_swallowed (segments 34 (jsonToken v)).1 before' rest' hlater
  have hwhole : concealAll keys (memberSegments p key v s) =
      before'' ++ marker :: [58] :: (segments 34 (jsonToken v)).1 :: rest'' := by
    conv_lhs => rw [hsplit]
    rw [← hall, ← htaken, memberSegments, ← concealAll_append, List.append_assoc]
    rfl
  rw [hwhole, ← hlength, ← hlength', List.getElem?_append_right (Nat.le_add_right _ 2),
    Nat.add_sub_cancel_left]
  rfl

theorem eq_of_alike_swallowed {key p v w s : List ℕ} (hkey : key ∈ keys) (hv : Graphic v)
    (hw : Graphic w) (hp : keySwallowed p key = true)
    (h : Alike (memberText p key v s) (memberText p key w s)) : v = w := by
  have hbehind := (segments_behind_iff hv hw).mpr (behind_of_alike hkey hv hw h)
  rw [alike_member_iff hkey hv.no_space hw.no_space] at h
  have hfirst := getElem?_swallowed hkey hp v s
  rw [h, getElem?_swallowed hkey hp w s] at hfirst
  refine jsonToken_inj hv hw (jsonToken_of_segments ?_)
  rw [allSegments, allSegments, hbehind, Option.some.inj hfirst]

/-! ## A token that is the name of a key -/

/-- `:"k":"z"` -/
def echo (k : List ℕ) : List ℕ := glue 34 [58] [k, [58], text "z", []]

theorem allSegments_echo {k : List ℕ} (hk : k ∈ keys) :
    (allSegments (echo k)).map hideBearer = [[58], k, [58], text "z", []] := by
  have hfree : ∀ s ∈ [k, [58], text "z", []], 34 ∉ s := by
    rintro s (_ | ⟨_, _ | ⟨_, _ | ⟨_, _ | ⟨_, hs⟩⟩⟩⟩)
    · exact keys_free k hk
    · decide
    · decide
    · decide
    · cases hs
  rw [allSegments, echo, segments_glue (by decide) hfree]
  refine map_hideBearer_self ?_
  rintro s (_ | ⟨_, _ | ⟨_, _ | ⟨_, _ | ⟨_, _ | ⟨_, hs⟩⟩⟩⟩⟩)
  · exact (by decide : 32 ∉ [58])
  · exact (keys_ne k hk).2.2
  · decide
  · decide
  · decide
  · cases hs

theorem shadeAll_short {before : List (List ℕ)} (h : before.length ≤ 2) : ∀ ks : List (List ℕ),
    shadeAll ks before = before
  | [] => rfl
  | key :: ks => by rw [shadeAll_cons, shade_short h, shadeAll_short h ks]

/-- The loop of `k` on `"key":"e":"k":"z"`. -/
theorem conceal_echo {key k e : List ℕ} {before : List (List ℕ)} (hkey : key ≠ k) (hcolon : key ≠ [58])
    (hk : k ≠ [58]) (htakes : takes k before = false) :
    conceal k (before ++ key :: [58] :: e :: [[58], k, [58], text "z", []]) = shade k before ++
      key :: [58] :: e :: [58] :: if e = k then [marker, [58], text "z", []]
        else [k, [58], marker, []] := by
  rw [conceal_append _ hcolon, htakes, if_neg (by decide), conceal_cons_of_ne hkey,
    conceal_cons_of_ne hk.symm]
  by_cases he : e = k
  · rw [if_pos he, he, conceal_match]
    rfl
  · rw [if_neg he, conceal_cons_of_ne he, conceal_cons_of_ne hk.symm, conceal_match]
    rfl

/-- Where the token is the key `k`, its loop replaces another value. -/
theorem getElem?_echo {key k v p : List ℕ} {ks ks' : List (List ℕ)} (hearlier : earlier key = ks ++ k :: ks')
    (hkey : key ∈ keys) (hks : ∀ x ∈ ks, x ≠ k ∧ x ≠ v) (hp : keySwallowed p key = false)
    (hv : behind isQuote v = []) :
    (concealAll keys (memberSegments p key v (echo k)))[(beforePlace p).length + 6]? =
      some (if v = k then text "z" else marker) := by
  obtain ⟨hsplit, -, hnot⟩ := keys_split key hkey
  have hk : k ∈ keys := mem_earlier (by rw [hearlier]; simp : k ∈ earlier key)
  have hks' : ∀ x ∈ ks, x ∈ keys ∧ x ≠ key := fun x hx =>
    have hmem : x ∈ earlier key := by rw [hearlier]; exact List.mem_append_left _ hx
    ⟨mem_earlier hmem, fun h => hnot (by rw [h] at hmem; exact hmem)⟩
  have hkeyk : key ≠ k := fun h => hnot (by rw [hearlier, ← h]; simp)
  have hz : text "z" ∉ keys := by decide
  rw [keySwallowed_eq hkey, hearlier, List.append_assoc, taken_append, Bool.or_eq_false_iff,
    List.cons_append, taken, Bool.or_eq_false_iff] at hp
  have hbehind : (segments 34 (jsonToken v)).2 = [] := by
    rcases segments_behind v with ⟨-, h⟩ | ⟨r, h, -⟩
    · exact h
    · rw [hv] at h
      cases h
  have hfirst : ∀ x ∈ ks, x ≠ (segments 34 (jsonToken v)).1 := fun x hx h =>
    (hks x hx).2 (token_of_first (hks' x hx).1 h).symm
  have he : (segments 34 (jsonToken v)).1 = k ↔ v = k := by
    refine ⟨fun h => token_of_first hk h.symm, ?_⟩
    rintro rfl
    have hslash : ∀ key ∈ keys, jsonToken key = key := by decide
    rw [hslash v hk, segments_of_free (keys_free v hk)]
  have htail : concealAll ks [[58], k, [58], text "z", []] = [[58], k, [58], text "z", []] := by
    have h : concealAll ks ([[58]] ++ k :: [58] :: text "z" :: [[]]) =
        shadeAll ks [[58]] ++ k :: [58] :: text "z" :: concealAll ks [[]] :=
      concealAll_before (keys_ne k hk).2.1 (List.cons_ne_nil _ _) (fun x hx =>
        ⟨(keys_ne x (hks' x hx).1).2.1, (hks x hx).1, fun h => hz (h ▸ (hks' x hx).1)⟩)
      (taken_short (by simp) ks)
    rw [shadeAll_short (by simp), (concealAll_of_concealed fun _ _ => rfl : concealAll ks [[]] = [[]])] at h
    exact h
  have hwhole : concealAll keys (memberSegments p key v (echo k)) =
      concealAll (ks' ++ key :: later key) (shade k (shadeAll ks (beforePlace p)) ++
        key :: [58] :: (segments 34 (jsonToken v)).1 :: [58] ::
          if v = k then [marker, [58], text "z", []] else [k, [58], marker, []]) := by
    conv_lhs => rw [hsplit, hearlier]
    rw [List.append_assoc, concealAll_append, memberSegments, hbehind, List.nil_append,
      allSegments_echo hk, concealAll_before (keys_ne key hkey).2.1 (List.cons_ne_nil _ _)
        (fun x hx => ⟨(keys_ne x (hks' x hx).1).2.1, (hks' x hx).2, hfirst x hx⟩) hp.1, htail,
      List.cons_append, concealAll_cons,
      conceal_echo hkeyk (keys_ne key hkey).2.1 (keys_ne k hk).2.1 hp.2.1]
    simp only [he]
  have hrest : ∀ x ∈ ks' ++ key :: later key, x ≠ marker := by
    intro x hx
    refine (keys_ne x ?_).1
    rw [hsplit, hearlier]
    simp only [List.mem_append, List.mem_cons] at hx ⊢
    tauto
  have hlength : (beforePlace p).length = (shade k (shadeAll ks (beforePlace p))).length := by
    rw [length_shade, length_shadeAll]
  have hplace : ∀ (x : List (List ℕ)) (n : ℕ), (shade k (shadeAll ks (beforePlace p)) ++ x)[
      (beforePlace p).length + n]? = x[n]? := fun x n => by
    rw [hlength, List.getElem?_append_right (Nat.le_add_right _ n), Nat.add_sub_cancel_left]
  rw [hwhole]
  rcases getElem?_concealAll hrest (shade k (shadeAll ks (beforePlace p)) ++
    key :: [58] :: (segments 34 (jsonToken v)).1 :: [58] ::
      if v = k then [marker, [58], text "z", []] else [k, [58], marker, []])
    ((beforePlace p).length + 6) with hsame | ⟨hm, j, hj, x, hx, hxj, -⟩
  · rw [hsame, hplace]
    split_ifs <;> rfl
  · rw [hm]
    obtain rfl : j = (beforePlace p).length + 4 := by omega
    rw [hplace] at hxj
    split_ifs at hxj ⊢ with hvk
    · exact absurd (Option.some.inj hxj).symm (hrest x hx)
    · rfl

theorem not_earlier_of_alike {key p v w : List ℕ} (hkey : key ∈ keys) (hv : Graphic v)
    (hw : Graphic w) (hne : v ≠ w) (hp : keySwallowed p key = false)
    (h : ∀ s, Alike (memberText p key v s) (memberText p key w s)) :
    v ∉ earlier key ∧ w ∉ earlier key := by
  rw [← not_or]
  intro hmem
  -- the first of the two among the keys
  obtain ⟨x, hx, hxvw⟩ : ∃ x ∈ earlier key, x = v ∨ x = w := by
    rcases hmem with hmem | hmem
    · exact ⟨v, hmem, .inl rfl⟩
    · exact ⟨w, hmem, .inr rfl⟩
  obtain ⟨k, ks, ks', hks, hk, hearlier, -⟩ :=
    List.exists_of_eraseP (p := fun x => decide (x = v ∨ x = w)) hx (decide_eq_true hxvw)
  have hks' : ∀ x ∈ ks, x ≠ v ∧ x ≠ w := fun x hx => by simpa using hks x hx
  have hk' : k = v ∨ k = w := of_decide_eq_true hk
  have hquote : behind isQuote k = [] := by
    have hnone : ∀ key ∈ keys, behind isQuote key = [] := by decide
    exact hnone k (mem_earlier (by rw [hearlier]; simp : k ∈ earlier key))
  have hbehind := behind_of_alike hkey hv hw (h (echo k))
  have hbv : behind isQuote v = [] := by
    rcases hk' with rfl | rfl
    · exact hquote
    · rw [hbehind, hquote]
  have hxk : ∀ x ∈ ks, x ≠ k := fun x hx => by
    rcases hk' with rfl | rfl
    · exact (hks' x hx).1
    · exact (hks' x hx).2
  have hsame := (alike_member_iff hkey hv.no_space hw.no_space p (echo k)).mp (h (echo k))
  have hplace := getElem?_echo hearlier hkey (fun x hx => ⟨hxk x hx, (hks' x hx).1⟩) hp hbv
  rw [hsame, getElem?_echo hearlier hkey (fun x hx => ⟨hxk x hx, (hks' x hx).2⟩) hp
    (hbehind ▸ hbv)] at hplace
  have hz : text "z" ≠ marker := by decide
  rcases hk' with rfl | rfl
  · rw [if_pos rfl, if_neg hne.symm] at hplace
    exact hz (Option.some.inj hplace).symm
  · rw [if_pos rfl, if_neg hne] at hplace
    exact hz (Option.some.inj hplace)

/-- **In a member.** -/
theorem alike_member_all_iff {key p v w : List ℕ} (hkey : key ∈ keys) (hv : Graphic v) (hw : Graphic w) :
    (∀ s, Alike (memberText p key v s) (memberText p key w s)) ↔
      v = w ∨ keySwallowed p key = false ∧ behind isQuote v = behind isQuote w ∧
        v ∉ earlier key ∧ w ∉ earlier key := by
  constructor
  · intro h
    by_cases hne : v = w
    · exact .inl hne
    have hp : keySwallowed p key = false := by
      rw [← Bool.not_eq_true]
      exact fun hp => hne (eq_of_alike_swallowed hkey hv hw hp (h []))
    exact .inr ⟨hp, behind_of_alike hkey hv hw (h []), not_earlier_of_alike hkey hv hw hne hp h⟩
  · rintro (rfl | ⟨hp, hbehind, hvkey, hwkey⟩) s
    · exact alike_iff.mpr rfl
    · exact alike_member hkey hv hw hp hbehind hvkey hwkey s

/-! ## What is hidden -/

/-- In a header behind `p`, which of the two tokens stands there cannot be told. -/
def HiddenInHeader (p v w : List ℕ) : Prop :=
  ∀ s, Follows s → Alike (bearerText p v s) (bearerText p w s)

/-- As the value of the key behind `p`, which of the two tokens stands there cannot be told. -/
def HiddenInMember (p key v w : List ℕ) : Prop :=
  ∀ s, Alike (memberText p key v s) (memberText p key w s)

theorem graphic_of_valid {v : List ℕ} (h : validToken v = true) : Graphic v :=
  (validToken_iff.mp h).2.2

/-- **Redaction.** The tokens are hidden where what the loops replace reaches to their last difference. -/
theorem redaction_iff (p : List ℕ) {v w : List ℕ} (hv : validToken v = true)
    (hw : validToken w = true) :
    (v = w ∨ pending bearer isStop p = false ∧ behind isStop v = behind isStop w →
      HiddenInHeader p v w) ∧
    (34 ∉ v ∨ 34 ∉ w → (HiddenInHeader p v w ↔
      v = w ∨ pending bearer isStop p = false ∧ behind isStop v = behind isStop w)) ∧
    (∀ key ∈ keys, HiddenInMember p key v w ↔
      v = w ∨ keySwallowed p key = false ∧ behind isQuote v = behind isQuote w ∧
        v ∉ earlier key ∧ w ∉ earlier key) ∧
    (∀ t, ∃ output, Redacts t output) ∧ ∀ t output, Redacts t output → Redacts output output := by
  have hgv := graphic_of_valid hv
  have hgw := graphic_of_valid hw
  refine ⟨?_, alike_bearer_iff hgv hgw, fun key hkey => alike_member_all_iff hkey hgv hgw,
    fun t => ⟨_, redacts t⟩, fun t o h => redacts_again h⟩
  rintro (rfl | ⟨hp, hbehind⟩) s -
  · exact alike_iff.mpr rfl
  · exact alike_bearer hp hbehind s

theorem redaction_letters :
    HiddenInHeader [] (text "abcdefgh") (text "ABCDEFGHI") ∧
      HiddenInMember [] (text "ticket") (text "abcdefgh") (text "ABCDEFGHI") := by
  obtain ⟨hheader, -, hmember, -⟩ := redaction_iff [] (v := text "abcdefgh")
    (w := text "ABCDEFGHI") (by decide) (by decide)
  exact ⟨hheader (.inr ⟨pending_nil (by decide), by decide⟩),
    (hmember (text "ticket") (by decide)).mpr (by decide)⟩

/-- A ticket is not hidden behind its first quote, nor an access token in a header behind its first
brace. -/
theorem tail_not_hidden :
    (validToken (text "quote\"-1") = true ∧ validToken (text "quote\"-2") = true ∧
      ¬ HiddenInMember [] (text "ticket") (text "quote\"-1") (text "quote\"-2")) ∧
    validToken (text "brace\x7d-1") = true ∧ validToken (text "brace\x7d-2") = true ∧
      ¬ HiddenInHeader [] (text "brace\x7d-1") (text "brace\x7d-2") := by
  refine ⟨⟨by decide, by decide, fun h => ?_⟩, by decide, by decide, fun h => ?_⟩
  · have hbehind := behind_of_alike (by decide) (graphic_of_valid (by decide))
      (graphic_of_valid (by decide)) (h [])
    revert hbehind
    decide
  · rcases (alike_bearer_iff (graphic_of_valid (by decide)) (graphic_of_valid (by decide))
      (.inl (by decide))).mp h with heq | ⟨-, hbehind⟩
    · revert heq
      decide
    · revert hbehind
      decide

end IdenGrid.Agent.Hiding
