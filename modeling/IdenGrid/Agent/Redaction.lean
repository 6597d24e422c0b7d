import IdenGrid.Agent.TokenUpdate
import IdenGrid.Lib.Scan
import IdenGrid.Lib.Segments

/-! # Redaction

`redact` as its loops compute it, on texts of code points. Cursors count code points here; the code
counts bytes, at the same places.

Quotes stay where they are: the `Bearer` loops work within each segment between quotes, and the loop of a
key replaces whole segments. `redacts`: `redact` by segments. -/

namespace IdenGrid.Agent.Redaction

open IdenGrid.Lib.Scan IdenGrid.Lib.Segments IdenGrid.Lib.Unicode

/-! ## The code -/

def marker : List ℕ := text "[REDACTED]"

/-- The markers of a token in a header. -/
def bearerMarkers : List (List ℕ) := [text "Bearer ", text "bearer "]

def keys : List (List ℕ) :=
  [text "ticket", text "native_access_token", text "control_capability", text "password",
    text "refresh_token", text "access_token"]

/-- `char::is_whitespace` -/
def isWhitespace (c : ℕ) : Bool :=
  decide (0x9 ≤ c ∧ c ≤ 0xD ∨ c = 0x20 ∨ c = 0x85 ∨ c = 0xA0 ∨ c = 0x1680 ∨
    0x2000 ≤ c ∧ c ≤ 0x200A ∨ c = 0x2028 ∨ c = 0x2029 ∨ c = 0x202F ∨ c = 0x205F ∨ c = 0x3000)

/-- The end of a value in a header. -/
def isStop (c : ℕ) : Bool := isWhitespace c || c == 34 || c == 125

/-- `"key":"` -/
def needle (key : List ℕ) : List ℕ := 34 :: (key ++ [34, 58, 34])

/-- The place of the next quote, if there is one. -/
def toQuote (t : List ℕ) : Option ℕ := if 34 ∈ t then some (t.findIdx (· == 34)) else none

/-- A round of the loop of a header marker. -/
def bearerStep (bearer : List ℕ) : List ℕ × ℕ → Option (List ℕ × ℕ) :=
  step bearer marker (upTo isStop)

/-- A round of the loop of a key. -/
def keyStep (key : List ℕ) : List ℕ × ℕ → Option (List ℕ × ℕ) := step (needle key) marker toQuote

/-- `redact`, with at most so many rounds in each loop; `none` where these do not suffice. -/
def redactWithin (rounds : ℕ) (input : List ℕ) : Option (List ℕ) := do
  let output ← bearerMarkers.foldlM
    (fun output bearer => (loop (bearerStep bearer) rounds (output, 0)).map Prod.fst) input
  keys.foldlM (fun output key => (loop (keyStep key) rounds (output, 0)).map Prod.fst) output

/-- `redact` ends with this output: it comes out with as many rounds as one likes, from some number on. -/
def Redacts (input output : List ℕ) : Prop :=
  ∃ enough, ∀ rounds ≥ enough, redactWithin rounds input = some output

/-! ## By segments -/

/-- Both header loops. -/
def hideBearer (x : List ℕ) : List ℕ :=
  hide (text "bearer ") marker isStop (hide (text "Bearer ") marker isStop x)

/-- The loop of a key on the segments behind the first quote: a value between quotes is replaced. -/
def conceal (key : List ℕ) : List (List ℕ) → List (List ℕ)
  | a :: c :: v :: x :: others =>
    if a = key ∧ c = [58] then a :: c :: marker :: conceal key (x :: others)
    else a :: conceal key (c :: v :: x :: others)
  | others => others

def concealAll (ks : List (List ℕ)) (others : List (List ℕ)) : List (List ℕ) :=
  ks.foldl (fun others key => conceal key others) others

/-- The text that `redact` makes of these segments. -/
def redacted (first : List ℕ) (others : List (List ℕ)) : List ℕ :=
  glue 34 (hideBearer first) (concealAll keys (others.map hideBearer))

theorem conceal_cons_of_ne {key a : List ℕ} (h : a ≠ key) (others : List (List ℕ)) :
    conceal key (a :: others) = a :: conceal key others := by
  rcases others with _ | ⟨c, _ | ⟨v, _ | ⟨x, others⟩⟩⟩
  · rfl
  · rfl
  · rfl
  · rw [conceal, if_neg fun hmem => h hmem.1]

theorem conceal_cons_of_ne_colon {key a c : List ℕ} (h : c ≠ [58]) (others : List (List ℕ)) :
    conceal key (a :: c :: others) = a :: conceal key (c :: others) := by
  rcases others with _ | ⟨v, _ | ⟨x, others⟩⟩
  · rfl
  · rfl
  · rw [conceal, if_neg fun hmem => h hmem.2]

theorem conceal_match {key : List ℕ} (v x : List ℕ) (others : List (List ℕ)) :
    conceal key (key :: [58] :: v :: x :: others) =
      key :: [58] :: marker :: conceal key (x :: others) := by
  rw [conceal, if_pos ⟨rfl, rfl⟩]

theorem conceal_cons {key a : List ℕ} {others : List (List ℕ)}
    (h : ¬ (a = key ∧ ∃ v x rest, others = [58] :: v :: x :: rest)) :
    conceal key (a :: others) = a :: conceal key others := by
  rcases others with _ | ⟨c, _ | ⟨v, _ | ⟨x, others⟩⟩⟩
  · rfl
  · rfl
  · rfl
  · rw [conceal, if_neg fun hmem => h ⟨hmem.1, v, x, others, by rw [hmem.2]⟩]

theorem mem_conceal {key s : List ℕ} : ∀ {others : List (List ℕ)}, s ∈ conceal key others →
    s ∈ others ∨ s = marker := by
  intro others
  fun_induction conceal key others with
  | case1 a c v x others _ ih =>
    intro h
    simp only [List.mem_cons] at h ih ⊢
    rcases h with h | h | h | h
    · exact .inl (.inl h)
    · exact .inl (.inr (.inl h))
    · exact .inr h
    · rcases ih h with h | h
      · exact .inl (.inr (.inr (.inr h)))
      · exact .inr h
  | case2 a c v x others _ ih =>
    intro h
    rcases List.mem_cons.mp h with rfl | h
    · exact .inl List.mem_cons_self
    · exact (ih h).imp_left (List.mem_cons_of_mem a)
  | case3 others _ => exact .inl

theorem length_conceal (key : List ℕ) (others : List (List ℕ)) :
    (conceal key others).length = others.length := by
  fun_induction conceal key others with
  | case1 a c v x others _ ih => simp only [List.length_cons] at ih ⊢; omega
  | case2 a c v x others _ ih => simp only [List.length_cons] at ih ⊢; omega
  | case3 others _ => rfl

/-! ## The loops work by segments -/

/-- A text without quotes stands before a quote exactly as the first segment. -/
theorem prefix_segment {k a r : List ℕ} {others : List (List ℕ)} (hk : 34 ∉ k) (ha : 34 ∉ a) :
    k ++ 34 :: r <+: a ++ tails 34 others ↔ a = k ∧ 34 :: r <+: tails 34 others := by
  constructor
  · rintro ⟨t, ht⟩
    rw [List.append_assoc] at ht
    rcases List.append_eq_append_iff.mp ht with ⟨b, rfl, hb⟩ | ⟨b, rfl, hb⟩
    · rcases b with _ | ⟨c, b⟩
      · exact ⟨List.append_nil k, t, hb⟩
      · obtain ⟨rfl, -⟩ := List.cons.inj hb
        exact absurd (List.mem_append_right k List.mem_cons_self) ha
    · rcases b with _ | ⟨c, b⟩
      · exact ⟨(List.append_nil a).symm, t, hb.symm⟩
      · rcases others with _ | ⟨s, others⟩
        · cases hb
        · rw [tails_cons] at hb
          obtain ⟨rfl, -⟩ := List.cons.inj hb
          exact absurd (List.mem_append_right a List.mem_cons_self) hk
  · rintro ⟨rfl, hr⟩
    exact (List.prefix_append_right_inj a).mpr hr

theorem needle_prefix_iff {key a : List ℕ} {others : List (List ℕ)} (hkey : 34 ∉ key) (ha : 34 ∉ a)
    (hothers : ∀ s ∈ others, 34 ∉ s) : needle key <+: tails 34 (a :: others) ↔
      a = key ∧ ∃ v rest, others = [58] :: v :: rest := by
  have hcolon : ∀ c : List ℕ, ∀ rest, 34 ∉ c → ([58, 34] <+: c ++ tails 34 rest ↔
      c = [58] ∧ ∃ v rest', rest = v :: rest') := by
    intro c rest hc
    have hsegment : [58, 34] <+: c ++ tails 34 rest ↔ c = [58] ∧ [34] <+: tails 34 rest :=
      prefix_segment (by decide : 34 ∉ [58]) hc
    rw [hsegment]
    rcases rest with _ | ⟨v, rest⟩
    · simp [tails]
    · simp [tails_cons]
  rw [needle, tails_cons, List.cons_prefix_cons, and_iff_right rfl, prefix_segment hkey ha]
  refine and_congr_right fun _ => ?_
  rcases others with _ | ⟨c, rest⟩
  · simp [tails]
  · rw [tails_cons, List.cons_prefix_cons, and_iff_right rfl,
      hcolon c rest (hothers c List.mem_cons_self)]
    constructor
    · rintro ⟨rfl, v, rest', rfl⟩
      exact ⟨v, rest', rfl⟩
    · rintro ⟨v, rest', heq⟩
      obtain ⟨rfl, rfl⟩ := List.cons.inj heq
      exact ⟨rfl, v, rest', rfl⟩

theorem needle_ne_nil (key : List ℕ) : needle key ≠ [] := List.cons_ne_nil _ _

theorem head_needle {key t : List ℕ} (h : 34 ∉ t) : ∀ c ∈ (needle key).head?, c ∉ t := by
  intro c hc
  obtain rfl := Option.some.inj hc
  exact h

theorem toQuote_segment {v : List ℕ} (hv : 34 ∉ v) (x : List ℕ) (others : List (List ℕ)) :
    toQuote (v ++ tails 34 (x :: others)) = some v.length := by
  have hmem : 34 ∈ v ++ tails 34 (x :: others) :=
    List.mem_append_right v (by rw [tails_cons]; exact List.mem_cons_self)
  rw [toQuote, if_pos hmem, tails_cons, List.findIdx_append, if_neg, List.findIdx_cons]
  · simp
  · simp only [List.findIdx_lt_length, beq_iff_eq, exists_eq_right]
    exact hv

/-- **The loop of a key replaces whole segments.** -/
theorem scan_tails {key : List ℕ} (hkey : 34 ∉ key) : ∀ others : List (List ℕ),
    (∀ s ∈ others, 34 ∉ s) →
      scan (needle key) marker toQuote (tails 34 others) = tails 34 (conceal key others) := by
  intro others
  induction hn : others.length using Nat.strong_induction_on generalizing others with
  | _ n ih =>
    intro hfree
    rcases others with _ | ⟨a, others⟩
    · exact scan_nil (needle_ne_nil key)
    obtain ⟨ha, hothers⟩ := List.forall_mem_cons.mp hfree
    by_cases hp : needle key <+: tails 34 (a :: others)
    · obtain ⟨rfl, v, rest, rfl⟩ := (needle_prefix_iff hkey ha hothers).mp hp
      obtain ⟨hv, hrest⟩ := List.forall_mem_cons.mp (List.forall_mem_cons.mp hothers).2
      have htext : tails 34 (a :: [58] :: v :: rest) = needle a ++ (v ++ tails 34 rest) := by
        simp [tails_cons, needle]
      rw [htext, scan_marker (needle_ne_nil a)]
      rcases rest with _ | ⟨x, rest⟩
      · have hnone : toQuote (v ++ tails 34 []) = none := by
          rw [tails, List.flatMap_nil, List.append_nil, toQuote, if_neg hv]
        rw [hnone, Option.elim_none, ← htext]
        rfl
      · rw [toQuote_segment hv, Option.elim_some, List.drop_left, conceal_match,
          ih (x :: rest).length (by simp only [← hn, List.length_cons]; omega) _ rfl hrest]
        simp [tails_cons, needle]
    · have hblock : tails 34 (a :: others) = 34 :: (a ++ tails 34 others) := tails_cons a others
      have hcons : conceal key (a :: others) = a :: conceal key others := by
        refine conceal_cons ?_
        rintro ⟨hak, v, x, rest, heq⟩
        exact hp ((needle_prefix_iff hkey ha hothers).mpr ⟨hak, v, x :: rest, heq⟩)
      rw [hblock] at hp ⊢
      rw [scan_skip hp, scan_block (needle_ne_nil key) _ _ (head_needle ha), hcons, tails_cons,
        ih others.length (by rw [← hn, List.length_cons]; omega) _ rfl hothers]

theorem scan_glue {key first : List ℕ} {others : List (List ℕ)} (hkey : 34 ∉ key) (hfirst : 34 ∉ first)
    (hothers : ∀ s ∈ others, 34 ∉ s) : scan (needle key) marker toQuote (glue 34 first others) =
      glue 34 first (conceal key others) := by
  rw [glue, scan_block (needle_ne_nil key) _ _ (head_needle hfirst), scan_tails hkey others hothers,
    glue]

theorem marker_free : 34 ∉ marker := by decide

theorem keys_free : ∀ key ∈ keys, 34 ∉ key := by decide

theorem scanAll_glue : ∀ {ks : List (List ℕ)}, (∀ key ∈ ks, 34 ∉ key) →
    ∀ {first : List ℕ} {others : List (List ℕ)}, 34 ∉ first → (∀ s ∈ others, 34 ∉ s) →
      ks.foldl (fun t key => scan (needle key) marker toQuote t) (glue 34 first others) =
        glue 34 first (concealAll ks others)
  | [], _, first, others, _, _ => rfl
  | key :: ks, hks, first, others, hfirst, hothers => by
    obtain ⟨hkey, hks⟩ := List.forall_mem_cons.mp hks
    rw [List.foldl_cons, scan_glue hkey hfirst hothers, scanAll_glue hks hfirst, concealAll,
      concealAll, List.foldl_cons]
    intro s hs
    rcases mem_conceal hs with hs | rfl
    · exact hothers s hs
    · exact marker_free

theorem bearer_ne_nil : ∀ m ∈ bearerMarkers, m ≠ [] := by decide

theorem bearer_free : ∀ m ∈ bearerMarkers, 34 ∉ m := by decide

theorem hide_glue {m : List ℕ} (hm : m ∈ bearerMarkers) : ∀ (others : List (List ℕ)) (first : List ℕ),
    hide m marker isStop (glue 34 first others) =
      glue 34 (hide m marker isStop first) (others.map (hide m marker isStop))
  | [], first => by simp [glue, tails]
  | s :: others, first => by
    have ih := hide_glue hm others s
    rw [glue] at ih ⊢
    rw [tails_cons, hide_separated (bearer_ne_nil m hm) rfl (bearer_free m hm), ih]
    rfl

theorem hideBearer_glue (first : List ℕ) (others : List (List ℕ)) :
    hideBearer (glue 34 first others) = glue 34 (hideBearer first) (others.map hideBearer) := by
  rw [hideBearer, hide_glue (by decide), hide_glue (by decide), List.map_map]
  rfl

theorem hideBearer_free {s : List ℕ} (hs : 34 ∉ s) : 34 ∉ hideBearer s := by
  intro hmem
  rcases mem_hide (bearer_ne_nil _ (by decide)) _ hmem with hmem | hmem
  · rcases mem_hide (bearer_ne_nil _ (by decide)) _ hmem with hmem | hmem
    · exact hs hmem
    · exact marker_free hmem
  · exact marker_free hmem

theorem map_hideBearer_free {others : List (List ℕ)} (h : ∀ s ∈ others, 34 ∉ s) :
    ∀ s ∈ others.map hideBearer, 34 ∉ s := by
  intro s hs
  obtain ⟨r, hr, rfl⟩ := List.mem_map.mp hs
  exact hideBearer_free (h r hr)

/-- **`redact` ends**, with the text that it makes of the segments. -/
theorem redacts (t : List ℕ) : Redacts t (redacted (segments 34 t).1 (segments 34 t).2) := by
  obtain ⟨n, hn⟩ := loops_scan marker id (fun _ => upTo isStop) bearer_ne_nil t
  obtain ⟨k, hk⟩ := loops_scan marker needle (fun _ => toQuote) (l := keys)
    (fun key _ => needle_ne_nil key) (hideBearer t)
  obtain ⟨hfirst, hothers⟩ := segments_free (d := 34) t
  have hglue := hideBearer_glue (segments 34 t).1 (segments 34 t).2
  rw [glue_segments] at hglue
  have hkeys := scanAll_glue keys_free (hideBearer_free hfirst) (map_hideBearer_free hothers)
  rw [← hglue] at hkeys
  refine ⟨max n k, fun rounds hrounds => ?_⟩
  rw [redacted, ← hkeys, ← hk rounds (by omega)]
  exact congrArg (· >>= _) (hn rounds (by omega))

theorem Redacts.unique {t o o' : List ℕ} (h : Redacts t o) (h' : Redacts t o') : o = o' := by
  obtain ⟨n, hn⟩ := h
  obtain ⟨k, hk⟩ := h'
  exact Option.some.inj ((hn (max n k) (le_max_left n k)).symm.trans (hk _ (le_max_right n k)))

theorem redacts_iff {t o : List ℕ} :
    Redacts t o ↔ o = redacted (segments 34 t).1 (segments 34 t).2 :=
  ⟨fun h => h.unique (redacts t), fun h => h ▸ redacts t⟩

/-! ## Once is enough -/

theorem fits_upper : Fits (text "Bearer ") marker isStop :=
  ⟨⟨66, text "earer ", by decide, by decide, by decide, by decide⟩, by decide, by decide⟩

theorem fits_lower : Fits (text "bearer ") marker isStop :=
  ⟨⟨98, text "earer ", by decide, by decide, by decide, by decide⟩, by decide, by decide⟩

theorem hideBearer_idem (x : List ℕ) : hideBearer (hideBearer x) = hideBearer x := by
  have hupper := settled_hide_of_settled fits_upper fits_lower (by decide) (by decide) (by decide) _
    (settled_hide fits_upper x)
  have hlower := settled_hide fits_lower (hide (text "Bearer ") marker isStop x)
  rw [hideBearer, hideBearer, hide_of_settled fits_upper _ hupper, hide_of_settled fits_lower _ hlower]

theorem mem_hide_of_mem {m : List ℕ} (hm : m ∈ bearerMarkers) : ∀ x : List ℕ, 32 ∈ x →
    32 ∈ hide m marker isStop x := by
  have hspace : ∀ m ∈ bearerMarkers, 32 ∈ m := by decide
  refine markers_induction isStop (bearer_ne_nil m hm)
    (fun h => absurd h List.not_mem_nil) ?_ ?_
  · intro c t hp ih h
    rw [hide_skip hp]
    rcases List.mem_cons.mp h with rfl | h
    · exact List.mem_cons_self
    · exact List.mem_cons_of_mem c (ih h)
  · intro t _ _
    rw [hide_marker (bearer_ne_nil m hm)]
    exact List.mem_append_left _ (hspace m hm)

/-- A text without spaces has no header marker. -/
theorem hideBearer_self {x : List ℕ} (h : 32 ∉ x) : hideBearer x = x := by
  have hspace : ∀ m ∈ bearerMarkers, 32 ∈ m := by decide
  have hself : ∀ m ∈ bearerMarkers, hide m marker isStop x = x := fun m hm =>
    hide_of_not_infix (bearer_ne_nil m hm) x fun hmarker => h (hmarker.subset (hspace m hm))
  rw [hideBearer, hself _ (by decide), hself _ (by decide)]

/-- The header loops make no text without spaces. -/
theorem eq_of_hideBearer_eq {x y : List ℕ} (h : hideBearer x = y) (hy : 32 ∉ y) : x = y := by
  have hx : 32 ∉ x := fun hmem => hy (h ▸ mem_hide_of_mem (by decide) _
    (mem_hide_of_mem (by decide) _ hmem))
  rw [← h, hideBearer_self hx]

/-- Only the value of the key changes, if it is closed. -/
theorem getElem?_conceal (key : List ℕ) (others : List (List ℕ)) (i : ℕ) :
    (conceal key others)[i]? = others[i]? ∨
      (conceal key others)[i]? = some marker ∧ ∃ j, i = j + 2 ∧ others[j]? = some key ∧
        others[j + 1]? = some [58] ∧ j + 3 < others.length := by
  fun_induction conceal key others generalizing i with
  | case1 a c v x others h ih =>
    obtain ⟨rfl, rfl⟩ := h
    rcases i with _ | _ | _ | i
    · exact .inl rfl
    · exact .inl rfl
    · exact .inr ⟨rfl, 0, rfl, rfl, rfl, by simp⟩
    · refine (ih i).imp id ?_
      rintro ⟨hm, j, rfl, hk, hc, hlt⟩
      exact ⟨hm, j + 3, rfl, hk, hc, by simp only [List.length_cons] at hlt ⊢; omega⟩
  | case2 a c v x others h ih =>
    rcases i with _ | i
    · exact .inl rfl
    · refine (ih i).imp id ?_
      rintro ⟨hm, j, rfl, hk, hc, hlt⟩
      exact ⟨hm, j + 1, rfl, hk, hc, by simp only [List.length_cons] at hlt ⊢; omega⟩
  | case3 others _ => exact .inl rfl

/-- A closed value of a key that stays is replaced. -/
theorem conceal_value {key : List ℕ} (hmarker : key ≠ marker) (hcolon : key ≠ [58])
    (others : List (List ℕ)) (i : ℕ) (hk : others[i]? = some key) (hc : others[i + 1]? = some [58])
    (hlt : i + 3 < others.length) (hstays : (conceal key others)[i]? = some key) :
    (conceal key others)[i + 2]? = some marker := by
  fun_induction conceal key others generalizing i with
  | case1 a c v x others h ih =>
    rcases i with _ | _ | _ | i
    · rfl
    · obtain ⟨-, rfl⟩ := h
      exact absurd (Option.some.inj hk).symm hcolon
    · exact absurd (Option.some.inj hstays).symm hmarker
    · exact ih i hk hc (by simp only [List.length_cons] at hlt ⊢; omega) hstays
  | case2 a c v x others h ih =>
    rcases i with _ | i
    · exact absurd ⟨Option.some.inj hk, Option.some.inj hc⟩ h
    · exact ih i hk hc (by simp only [List.length_cons] at hlt ⊢; omega) hstays
  | case3 others h =>
    rcases others with _ | ⟨a, _ | ⟨c, _ | ⟨v, _ | ⟨x, others⟩⟩⟩⟩
    · simp at hlt
    · simp at hlt
    · simp at hlt
    · simp at hlt
    · exact absurd rfl (h a c v x others)

/-- Where the closed values are the marker already, nothing changes. -/
theorem conceal_of_values {key : List ℕ} {others : List (List ℕ)}
    (h : ∀ i, others[i]? = some key → others[i + 1]? = some [58] → i + 3 < others.length →
      others[i + 2]? = some marker) : conceal key others = others := by
  refine List.ext_getElem? fun i => ?_
  rcases getElem?_conceal key others i with hsame | ⟨hm, j, rfl, hk, hc, hlt⟩
  · exact hsame
  · rw [hm, h j hk hc hlt]

section

variable {key : List ℕ} (hmarker : key ≠ marker) (hcolon : key ≠ [58])
include hmarker hcolon

theorem conceal_conceal (others : List (List ℕ)) :
    conceal key (conceal key others) = conceal key others := by
  refine conceal_of_values fun i hk hc hlt => ?_
  rw [length_conceal] at hlt
  have hk' : others[i]? = some key := by
    rcases getElem?_conceal key others i with hsame | ⟨hm, -⟩
    · rw [← hsame, hk]
    · rw [hm] at hk
      exact absurd (Option.some.inj hk).symm hmarker
  have hc' : others[i + 1]? = some [58] := by
    rcases getElem?_conceal key others (i + 1) with hsame | ⟨hm, -⟩
    · rw [← hsame, hc]
    · rw [hm] at hc
      exact absurd (Option.some.inj hc) (by decide)
  exact conceal_value hmarker hcolon others i hk' hc' hlt hk

/-- What another key replaces does not matter. -/
theorem conceal_of_concealed {others : List (List ℕ)} (h : conceal key others = others)
    (other : List ℕ) : conceal key (conceal other others) = conceal other others := by
  refine conceal_of_values fun i hk hc hlt => ?_
  rw [length_conceal] at hlt
  have hk' : others[i]? = some key := by
    rcases getElem?_conceal other others i with hsame | ⟨hm, -⟩
    · rw [← hsame, hk]
    · rw [hm] at hk
      exact absurd (Option.some.inj hk).symm hmarker
  have hc' : others[i + 1]? = some [58] := by
    rcases getElem?_conceal other others (i + 1) with hsame | ⟨hm, -⟩
    · rw [← hsame, hc]
    · rw [hm] at hc
      exact absurd (Option.some.inj hc) (by decide)
  have hvalue := conceal_value hmarker hcolon others i hk' hc' hlt (by rw [h, hk'])
  rw [h] at hvalue
  rcases getElem?_conceal other others (i + 2) with hsame | ⟨hm, -⟩
  · rw [hsame, hvalue]
  · exact hm

end

theorem keys_ne : ∀ key ∈ keys, key ≠ marker ∧ key ≠ [58] ∧ 32 ∉ key := by decide

theorem concealAll_cons (key : List ℕ) (ks others : List (List ℕ)) :
    concealAll (key :: ks) others = concealAll ks (conceal key others) := rfl

theorem conceal_of_concealedAll {key : List ℕ} (hmarker : key ≠ marker) (hcolon : key ≠ [58]) :
    ∀ {ks others : List (List ℕ)}, conceal key others = others →
      conceal key (concealAll ks others) = concealAll ks others
  | [], _, h => h
  | k :: ks, others, h => by
    rw [concealAll_cons]
    exact conceal_of_concealedAll hmarker hcolon (conceal_of_concealed hmarker hcolon h k)

theorem conceal_concealAll {key : List ℕ} (hmarker : key ≠ marker) (hcolon : key ≠ [58]) :
    ∀ {ks others : List (List ℕ)}, key ∈ ks →
      conceal key (concealAll ks others) = concealAll ks others
  | k :: ks, others, h => by
    rw [concealAll_cons]
    rcases List.mem_cons.mp h with rfl | h
    · exact conceal_of_concealedAll hmarker hcolon (conceal_conceal hmarker hcolon others)
    · exact conceal_concealAll hmarker hcolon h

theorem concealAll_of_concealed : ∀ {ks others : List (List ℕ)},
    (∀ key ∈ ks, conceal key others = others) → concealAll ks others = others
  | [], _, _ => rfl
  | key :: ks, others, h => by
    obtain ⟨hkey, hks⟩ := List.forall_mem_cons.mp h
    rw [concealAll_cons, hkey]
    exact concealAll_of_concealed hks

theorem mem_concealAll {s : List ℕ} : ∀ {ks others : List (List ℕ)}, s ∈ concealAll ks others →
    s ∈ others ∨ s = marker
  | [], _, h => .inl h
  | key :: ks, others, h => by
    rcases mem_concealAll (show s ∈ concealAll ks (conceal key others) from h) with h | h
    · exact mem_conceal h
    · exact .inr h

theorem length_concealAll : ∀ (ks others : List (List ℕ)),
    (concealAll ks others).length = others.length
  | [], _ => rfl
  | key :: ks, others => (length_concealAll ks _).trans (length_conceal key others)

theorem redacted_free {first : List ℕ} {others : List (List ℕ)} (hfirst : 34 ∉ first)
    (hothers : ∀ s ∈ others, 34 ∉ s) : 34 ∉ hideBearer first ∧
      ∀ s ∈ concealAll keys (others.map hideBearer), 34 ∉ s := by
  refine ⟨hideBearer_free hfirst, fun s hs => ?_⟩
  rcases mem_concealAll hs with hs | rfl
  · exact map_hideBearer_free hothers s hs
  · exact marker_free

/-- **The second time `redact` changes nothing.** -/
theorem redacts_again {t o : List ℕ} (h : Redacts t o) : Redacts o o := by
  rw [redacts_iff] at h ⊢
  subst h
  obtain ⟨hfirst, hothers⟩ := segments_free (d := 34) t
  obtain ⟨hfree, hfrees⟩ := redacted_free hfirst hothers
  have hmap : (concealAll keys ((segments 34 t).2.map hideBearer)).map hideBearer =
      concealAll keys ((segments 34 t).2.map hideBearer) := by
    refine (List.map_congr_left fun s hs => ?_).trans (List.map_id _)
    rcases mem_concealAll hs with hs | rfl
    · obtain ⟨x, -, rfl⟩ := List.mem_map.mp hs
      exact hideBearer_idem x
    · exact hideBearer_self (by decide)
  have hkeys : concealAll keys (concealAll keys ((segments 34 t).2.map hideBearer)) =
      concealAll keys ((segments 34 t).2.map hideBearer) := concealAll_of_concealed fun key hkey =>
    conceal_concealAll (keys_ne key hkey).1 (keys_ne key hkey).2.1 hkey
  rw [redacted, segments_glue hfree hfrees]
  dsimp only
  rw [redacted, hideBearer_idem, hmap, hkeys]

end IdenGrid.Agent.Redaction
