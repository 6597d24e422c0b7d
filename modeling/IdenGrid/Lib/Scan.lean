import Mathlib.Data.List.Basic
import Mathlib.Data.List.DropRight
import Mathlib.Data.List.Infix
import Mathlib.Tactic.Common

/-! # Replacing what stands after a marker

A loop with a cursor looks for the next marker, replaces the value after it in place and goes on behind
the replacement. `step` is one round on the text and the cursor, `loop` repeats a step at most a number
of times. `scan` is the text that comes out, by recursion on what is still to be read; `loop_scan`: the
loop ends, with that text. -/

namespace IdenGrid.Lib.Scan

/-- Repeats the step until it has nothing to do; `none` where this is not reached in time. -/
def loop {σ : Type*} (step : σ → Option σ) : ℕ → σ → Option σ
  | 0, _ => none
  | n + 1, s =>
    match step s with
    | none => some s
    | some s' => loop step n s'

variable {α : Type*}

/-! ## Values, markers and stops -/

section

variable (stop : α → Bool)

/-- What follows the value. -/
def behind (t : List α) : List α := t.dropWhile fun c => !stop c

end

/-- A marker whose first character occurs nowhere else in it or in the replacement; neither that
character nor any of the replacement is a stop. -/
structure Fits (marker replacement : List α) (stop : α → Bool) : Prop where
  cons : ∃ h m, marker = h :: m ∧ h ∉ m ∧ h ∉ replacement ∧ stop h = false
  free : ∀ c ∈ replacement, stop c = false
  nonempty : replacement ≠ []

/-- No marker lies across the border of the two texts. -/
def NoCross (marker x y : List α) : Prop :=
  ∀ a b, a ≠ [] → b ≠ [] → marker = a ++ b → a <:+ x → b <+: y → False

/-- Every marker stands before the replacement, which ends at a stop or with the text. -/
def Settled (marker replacement : List α) (stop : α → Bool) (x : List α) : Prop :=
  ∀ u w, x = u ++ (marker ++ w) → ∃ z, w = replacement ++ z ∧ behind stop z = z

variable {marker replacement : List α} {stop : α → Bool}

theorem Fits.ne_nil (hf : Fits marker replacement stop) : marker ≠ [] := by
  obtain ⟨h, m, rfl, -⟩ := hf.cons
  exact List.cons_ne_nil h m

theorem drop_findIdx (t : List α) : t.drop (t.findIdx stop) = behind stop t := by
  rw [behind, List.dropWhile_eq_drop_findIdx_not]
  simp

theorem length_behind_le (stop : α → Bool) (t : List α) : (behind stop t).length ≤ t.length :=
  (List.dropWhile_suffix fun c => !stop c).length_le

theorem behind_stop {d : α} (hd : stop d = true) (y : List α) : behind stop (d :: y) = d :: y := by
  rw [behind, List.dropWhile_cons_of_neg (by simp [hd])]

theorem behind_behind (t : List α) : behind stop (behind stop t) = behind stop t :=
  List.dropWhile_idempotent _ t

theorem noCross_of_head {x y : List α} (h : ∀ c ∈ y.head?, c ∉ marker.tail) :
    NoCross marker x y := by
  rintro (_ | ⟨a, as⟩) (_ | ⟨b, bs⟩) ha hb rfl - ⟨t, rfl⟩
  · exact ha rfl
  · exact ha rfl
  · exact hb rfl
  · exact h b rfl (List.mem_append_right as List.mem_cons_self)

theorem noCross_of_last {x y : List α} (h : ∀ c ∈ x.getLast?, c ∉ marker) :
    NoCross marker x y := by
  rintro a b ha - rfl ⟨t, rfl⟩ -
  obtain ⟨as, c, rfl⟩ := List.eq_nil_or_concat a |>.resolve_left ha
  rw [List.concat_eq_append, ← List.append_assoc] at h
  exact h c (by rw [List.getLast?_concat]; rfl) (by simp)

theorem NoCross.of_suffix {x x' y : List α} (h : NoCross marker x y) (hs : x' <:+ x) :
    NoCross marker x' y :=
  fun a b ha hb hm hax hby => h a b ha hb hm (hax.trans hs) hby

theorem behind_append (x y : List α) :
    behind stop (x ++ y) = if (behind stop x).isEmpty then behind stop y else behind stop x ++ y :=
  List.dropWhile_append

theorem NoCross.marker_prefix {x y : List α} (h : NoCross marker x y) (hx : x ≠ [])
    (hp : marker <+: x ++ y) : marker <+: x := by
  obtain ⟨t, ht⟩ := hp
  rcases List.append_eq_append_iff.mp ht with ⟨b, rfl, -⟩ | ⟨b, rfl, hb⟩
  · exact List.prefix_append marker b
  · rcases b with _ | ⟨b, bs⟩
    · rw [List.append_nil]
    · exact (h x (b :: bs) hx (List.cons_ne_nil b bs) rfl (List.suffix_refl x) ⟨t, hb.symm⟩).elim

theorem Settled.of_suffix {x y : List α} (h : Settled marker replacement stop x) (hs : y <:+ x) :
    Settled marker replacement stop y := by
  obtain ⟨t, rfl⟩ := hs
  exact fun u w hy => h (t ++ u) w (by rw [hy, List.append_assoc])

theorem behind_replacement (hf : Fits marker replacement stop) (z : List α) :
    behind stop (replacement ++ z) = behind stop z := by
  rw [behind, List.dropWhile_append_of_pos fun c hc => by rw [hf.free c hc]; rfl, behind]

/-- A marker that starts before a text of its first character starts behind it. -/
theorem occurs_behind {h : α} {m block u w z : List α} (hmem : h ∉ block)
    (heq : block ++ z = u ++ (h :: m ++ w)) :
    ∃ u', u = block ++ u' ∧ z = u' ++ (h :: m ++ w) := by
  rcases List.append_eq_append_iff.mp heq with ⟨u', rfl, hz⟩ | ⟨b, rfl, hz⟩
  · exact ⟨u', rfl, hz⟩
  · rcases b with _ | ⟨c, b⟩
    · exact ⟨[], by rw [List.append_nil, List.append_nil], hz.symm⟩
    · obtain ⟨rfl, -⟩ := List.cons.inj hz
      exact absurd (List.mem_append_right u List.mem_cons_self) hmem

/-! ## The loop -/

variable [DecidableEq α]

/-- The first place where the needle occurs. -/
def find (needle : List α) : List α → Option ℕ
  | [] => if needle = [] then some 0 else none
  | c :: t => if needle.isPrefixOf (c :: t) then some 0 else (find needle t).map (· + 1)

/-- What stands before the needle. -/
def before (needle x : List α) : List α :=
  match find needle x with
  | none => x
  | some n => x.take n

variable (marker replacement) (valueLength : List α → Option ℕ)

/-- One round; it ends the loop where no marker is left, or where the value has no length. -/
def step (s : List α × ℕ) : Option (List α × ℕ) :=
  match find marker (s.1.drop s.2) with
  | none => none
  | some relativeStart =>
    let valueStart := s.2 + relativeStart + marker.length
    match valueLength (s.1.drop valueStart) with
    | none => none
    | some length =>
      some (s.1.take valueStart ++ (replacement ++ s.1.drop (valueStart + length)),
        valueStart + replacement.length)

/-- The text with the values replaced. -/
def scan (x : List α) : List α :=
  if _h : marker ≠ [] ∧ marker <+: x then
    match valueLength (x.drop marker.length) with
    | none => x
    | some length => marker ++ (replacement ++ scan ((x.drop marker.length).drop length))
  else
    match x with
    | [] => []
    | c :: t => c :: scan t
termination_by x.length
decreasing_by
  · have hpos := List.length_pos_iff.mpr _h.1
    have hle := _h.2.length_le
    simp only [List.length_drop]
    omega
  · exact Nat.lt_succ_self _

variable {marker replacement valueLength}

theorem scan_nil (hm : marker ≠ []) : scan marker replacement valueLength [] = [] := by
  rw [scan, dif_neg]
  exact fun h => hm (List.prefix_nil.mp h.2)

theorem scan_skip {c : α} {t : List α} (h : ¬ marker <+: c :: t) :
    scan marker replacement valueLength (c :: t) =
      c :: scan marker replacement valueLength t := by
  rw [scan, dif_neg fun hm => h hm.2]

theorem scan_marker (hm : marker ≠ []) (t : List α) :
    scan marker replacement valueLength (marker ++ t) =
      (valueLength t).elim (marker ++ t) fun length =>
        marker ++ (replacement ++ scan marker replacement valueLength (t.drop length)) := by
  rw [scan, dif_pos ⟨hm, List.prefix_append marker t⟩, List.drop_left]
  cases valueLength t <;> rfl

/-- No marker starts in a text without its first character. -/
theorem scan_block (hm : marker ≠ []) (z : List α) : ∀ block : List α,
    (∀ c ∈ marker.head?, c ∉ block) → scan marker replacement valueLength (block ++ z) =
      block ++ scan marker replacement valueLength z
  | [], _ => rfl
  | c :: block, h => by
    have hskip : ¬ marker <+: c :: (block ++ z) := by
      rintro ⟨t, ht⟩
      obtain ⟨d, m, rfl⟩ := List.exists_cons_of_ne_nil hm
      obtain ⟨rfl, -⟩ := List.cons.inj ht
      exact h d rfl List.mem_cons_self
    rw [List.cons_append, scan_skip hskip, scan_block hm z block fun e he hmem =>
      h e he (List.mem_cons_of_mem c hmem), List.cons_append]

/-- No marker starts before the place that is found. -/
theorem find_eq_some (replacement : List α) (valueLength : List α → Option ℕ) (hm : marker ≠ []) :
    ∀ {x : List α} {i : ℕ}, find marker x = some i →
    ∃ pre t, x = pre ++ (marker ++ t) ∧ pre.length = i ∧
      scan marker replacement valueLength x =
        pre ++ scan marker replacement valueLength (marker ++ t)
  | [], i, h => by
    rw [find, if_neg hm] at h
    cases h
  | c :: x, i, h => by
    rw [find] at h
    by_cases hp : marker.isPrefixOf (c :: x) = true
    · rw [if_pos hp] at h
      obtain ⟨t, ht⟩ := List.isPrefixOf_iff_prefix.mp hp
      exact ⟨[], t, ht.symm, Option.some.inj h, by rw [← ht, List.nil_append]⟩
    · rw [if_neg hp] at h
      obtain ⟨j, hj, rfl⟩ := Option.map_eq_some_iff.mp h
      obtain ⟨pre, t, rfl, hlength, hscan⟩ := find_eq_some replacement valueLength hm hj
      refine ⟨c :: pre, t, rfl, by rw [List.length_cons, hlength], ?_⟩
      rw [scan_skip fun hprefix => hp (List.isPrefixOf_iff_prefix.mpr hprefix), hscan,
        List.cons_append]

theorem find_eq_none (hm : marker ≠ []) : ∀ {x : List α}, find marker x = none →
    scan marker replacement valueLength x = x
  | [], _ => scan_nil hm
  | c :: x, h => by
    rw [find] at h
    by_cases hp : marker.isPrefixOf (c :: x) = true
    · rw [if_pos hp] at h
      cases h
    · rw [if_neg hp] at h
      rw [scan_skip fun hprefix => hp (List.isPrefixOf_iff_prefix.mpr hprefix),
        find_eq_none hm (Option.map_eq_none_iff.mp h)]

theorem find_at_start : ∀ {x : List α}, marker <+: x → find marker x = some 0
  | [], hp => by rw [find, if_pos (List.prefix_nil.mp hp)]
  | c :: x, hp => by rw [find, if_pos (List.isPrefixOf_iff_prefix.mpr hp)]

/-- A marker that is found stays where it is when the text goes on. -/
theorem find_append_of_some (hm : marker ≠ []) (y : List α) : ∀ {x : List α} {i : ℕ},
    find marker x = some i → find marker (x ++ y) = some i
  | [], i, h => by
    rw [find, if_neg hm] at h
    cases h
  | c :: x, i, h => by
    have hwhole := h
    rw [find] at h
    by_cases hp : marker <+: c :: x
    · rw [if_pos (List.isPrefixOf_iff_prefix.mpr hp)] at h
      rw [find_at_start (hp.trans (List.prefix_append (c :: x) y)), h]
    · rw [if_neg fun hp' => hp (List.isPrefixOf_iff_prefix.mp hp')] at h
      obtain ⟨j, hj, rfl⟩ := Option.map_eq_some_iff.mp h
      have hp' : ¬ marker <+: c :: (x ++ y) := by
        intro hp'
        obtain ⟨pre, t, rfl, -, -⟩ := find_eq_some [] (fun _ => none) hm hj
        refine hp (List.prefix_of_prefix_length_le hp' (List.prefix_append (c :: _) y) ?_)
        simp only [List.length_cons, List.length_append]
        omega
      rw [List.cons_append, find, if_neg fun h => hp' (List.isPrefixOf_iff_prefix.mp h),
        find_append_of_some hm y hj, Option.map_some]

/-- Behind a text without the marker the search goes on. -/
theorem find_append_of_none {y : List α} (hm : marker ≠ []) : ∀ {x : List α},
    find marker x = none → NoCross marker x y →
      find marker (x ++ y) = (find marker y).map (· + x.length)
  | [], _, _ => by simp
  | c :: x, h, hcross => by
    rw [find] at h
    by_cases hp : marker.isPrefixOf (c :: x) = true
    · rw [if_pos hp] at h
      cases h
    rw [if_neg hp] at h
    have hp' : ¬ marker <+: c :: (x ++ y) := fun hp' => hp (List.isPrefixOf_iff_prefix.mpr
      (hcross.marker_prefix (List.cons_ne_nil c x) hp'))
    rw [List.cons_append, find, if_neg fun h => hp' (List.isPrefixOf_iff_prefix.mp h),
      find_append_of_none hm (Option.map_eq_none_iff.mp h)
        (hcross.of_suffix (List.suffix_cons c x)), Option.map_map]
    rcases find marker y with _ | n
    · rfl
    · simp only [Option.map_some, Function.comp_apply, List.length_cons]
      rw [Nat.add_assoc]

theorem before_append_of_some {x : List α} {i : ℕ} (hm : marker ≠ []) (h : find marker x = some i)
    (y : List α) : before marker (x ++ y) = before marker x := by
  have hle : i ≤ x.length := by
    obtain ⟨pre, t, rfl, rfl, -⟩ := find_eq_some [] (fun _ => none) hm h
    simp
  simp only [before, find_append_of_some hm y h, h]
  exact List.take_append_of_le_length hle

theorem before_append_of_none {x y : List α} (hm : marker ≠ []) (h : find marker x = none)
    (hcross : NoCross marker x y) : before marker (x ++ y) = x ++ before marker y := by
  simp only [before, find_append_of_none hm h hcross]
  rcases find marker y with _ | n
  · rfl
  · simp only [Option.map_some]
    rw [Nat.add_comm, List.take_length_add_append]

theorem before_at_start {x : List α} (hp : marker <+: x) : before marker x = [] := by
  simp only [before, find_at_start hp, List.take_zero]

/-- **The loop ends**, with the values of the rest of the text replaced. -/
theorem loop_scan (replacement : List α) (valueLength : List α → Option ℕ) (hm : marker ≠ []) :
    ∀ (n : ℕ) (done rest : List α), rest.length < n →
    (loop (step marker replacement valueLength) n (done ++ rest, done.length)).map Prod.fst =
      some (done ++ scan marker replacement valueLength rest)
  | n + 1, done, rest, h => by
    rw [loop]
    rcases hfind : find marker rest with _ | i
    · have hstep : step marker replacement valueLength (done ++ rest, done.length) = none := by
        rw [step, List.drop_left, hfind]
      rw [hstep, find_eq_none hm hfind, Option.map_some]
    obtain ⟨pre, t, rfl, rfl, hscan⟩ :=
      find_eq_some replacement valueLength hm hfind
    have hwhole : done ++ (pre ++ (marker ++ t)) = done ++ (pre ++ marker) ++ t := by simp
    have hstart : done.length + pre.length + marker.length = (done ++ (pre ++ marker)).length := by
      simp only [List.length_append]
      omega
    have hdrop : (done ++ (pre ++ (marker ++ t))).drop
        (done.length + pre.length + marker.length) = t := by
      rw [hwhole, hstart, List.drop_left]
    rw [hscan, scan_marker hm]
    rcases hvalue : valueLength t with _ | length
    · have hstep : step marker replacement valueLength (done ++ (pre ++ (marker ++ t)), done.length) =
          none := by
        simp only [step, List.drop_left, hfind, hdrop, hvalue]
      rw [hstep, Option.map_some, Option.elim_none]
    · have htake : (done ++ (pre ++ (marker ++ t))).take
          (done.length + pre.length + marker.length) = done ++ (pre ++ marker) := by
        rw [hwhole, hstart, List.take_left]
      have hstep : step marker replacement valueLength (done ++ (pre ++ (marker ++ t)), done.length) =
          some (done ++ (pre ++ (marker ++ replacement)) ++ t.drop length,
            (done ++ (pre ++ (marker ++ replacement))).length) := by
        have hrest : (done ++ (pre ++ (marker ++ t))).drop
            (done.length + pre.length + marker.length + length) = t.drop length := by
          rw [← List.drop_drop, hdrop]
        simp only [step, List.drop_left, hfind, hdrop, hvalue, htake, hrest, List.length_append,
          List.append_assoc]
        simp only [Option.some.injEq, Prod.mk.injEq, true_and]
        omega
      have hpos := List.length_pos_iff.mpr hm
      have ih := loop_scan replacement valueLength hm n (done ++ (pre ++ (marker ++ replacement)))
        (t.drop length) (by
          simp only [List.length_append, List.length_drop] at h ⊢
          omega)
      rw [hstep, Option.elim_some]
      dsimp only
      rw [ih]
      simp only [List.append_assoc]

/-- Loops one after the other end. -/
theorem loops_scan (replacement : List α) {β : Type*} (markers : β → List α) (lengths : β → List α → Option ℕ) :
    ∀ {l : List β}, (∀ b ∈ l, markers b ≠ []) → ∀ t : List α, ∃ n, ∀ m ≥ n,
      l.foldlM (fun t b => (loop (step (markers b) replacement (lengths b)) m (t, 0)).map Prod.fst) t =
        some (l.foldl (fun t b => scan (markers b) replacement (lengths b) t) t)
  | [], _, t => ⟨0, fun _ _ => rfl⟩
  | b :: l, h, t => by
    obtain ⟨hb, hl⟩ := List.forall_mem_cons.mp h
    obtain ⟨n, hn⟩ := loops_scan replacement markers lengths hl (scan (markers b) replacement (lengths b) t)
    refine ⟨max (t.length + 1) n, fun m hm => ?_⟩
    have hfirst := loop_scan replacement (lengths b) hb m [] t (by omega)
    rw [List.nil_append, List.nil_append] at hfirst
    rw [List.foldlM_cons, List.foldl_cons]
    exact (congrArg (· >>= _) hfirst).trans (hn m (by omega))

/-! ## Values up to a stop -/

variable (marker replacement stop)

/-- The value goes up to the next stop or the end. -/
def upTo (t : List α) : Option ℕ := some (t.findIdx stop)

/-- The text with the values up to a stop replaced. -/
def hide (x : List α) : List α := scan marker replacement (upTo stop) x

/-- The text ends within the value of a marker. -/
def pending (x : List α) : Bool :=
  if _h : marker ≠ [] ∧ marker <+: x then
    if (behind stop (x.drop marker.length)).isEmpty then true
    else pending (behind stop (x.drop marker.length))
  else
    match x with
    | [] => false
    | _ :: t => pending t
termination_by x.length
decreasing_by
  · have hpos := List.length_pos_iff.mpr _h.1
    have hle := _h.2.length_le
    have hdrop := (List.dropWhile_suffix (l := x.drop marker.length) fun c => !stop c).length_le
    simp only [behind, List.length_drop] at hdrop ⊢
    omega
  · exact Nat.lt_succ_self _

variable {marker replacement stop}

theorem hide_marker (hm : marker ≠ []) (t : List α) :
    hide marker replacement stop (marker ++ t) =
      marker ++ (replacement ++ hide marker replacement stop (behind stop t)) := by
  rw [hide, scan_marker hm, upTo, Option.elim_some, drop_findIdx, hide]

theorem hide_skip {c : α} {t : List α} (h : ¬ marker <+: c :: t) :
    hide marker replacement stop (c :: t) = c :: hide marker replacement stop t := scan_skip h

theorem hide_nil (hm : marker ≠ []) : hide marker replacement stop [] = [] := scan_nil hm

theorem pending_nil (hm : marker ≠ []) : pending marker stop [] = false := by
  rw [pending, dif_neg]
  exact fun h => hm (List.prefix_nil.mp h.2)

theorem pending_skip {c : α} {t : List α} (h : ¬ marker <+: c :: t) :
    pending marker stop (c :: t) = pending marker stop t := by
  rw [pending, dif_neg fun hm => h hm.2]

theorem pending_marker (hm : marker ≠ []) (t : List α) :
    pending marker stop (marker ++ t) =
      if (behind stop t).isEmpty then true else pending marker stop (behind stop t) := by
  rw [pending, dif_pos ⟨hm, List.prefix_append marker t⟩, List.drop_left]

/-- Recursion along the markers of a text. -/
theorem markers_induction (stop : α → Bool) (hm : marker ≠ []) {P : List α → Prop} (nil : P [])
    (skip : ∀ c t, ¬ marker <+: c :: t → P t → P (c :: t))
    (found : ∀ t, P (behind stop t) → P (marker ++ t)) : ∀ x, P x := by
  intro x
  induction hn : x.length using Nat.strong_induction_on generalizing x with
  | _ n ih =>
    by_cases hp : marker <+: x
    · obtain ⟨t, rfl⟩ := hp
      have hpos := List.length_pos_iff.mpr hm
      have hle := length_behind_le stop t
      rw [List.length_append] at hn
      exact found t (ih _ (by omega) _ rfl)
    · rcases x with _ | ⟨c, t⟩
      · exact nil
      · rw [List.length_cons] at hn
        exact skip c t hp (ih _ (by omega) t rfl)

/-- **The values of two texts in a row**: the second starts within a value if the first ends within
one. -/
theorem hide_append (hm : marker ≠ []) {y : List α} : ∀ x : List α, NoCross marker x y →
    hide marker replacement stop (x ++ y) = hide marker replacement stop x ++
      hide marker replacement stop (if pending marker stop x then behind stop y else y) := by
  refine markers_induction stop hm ?_ ?_ ?_
  · intro _
    rw [List.nil_append, hide_nil hm, pending_nil hm]
    rfl
  · intro c t hp ih h
    have hp' : ¬ marker <+: c :: (t ++ y) := fun hpre =>
      hp (h.marker_prefix (List.cons_ne_nil c t) hpre)
    rw [List.cons_append, hide_skip hp', hide_skip hp, pending_skip hp,
      ih (h.of_suffix (List.suffix_cons c t)), List.cons_append]
  · intro t ih h
    have hsuffix : behind stop t <:+ marker ++ t :=
      (List.dropWhile_suffix _).trans (List.suffix_append marker t)
    rw [List.append_assoc, hide_marker hm, hide_marker hm, pending_marker hm, behind_append]
    by_cases hempty : (behind stop t).isEmpty = true
    · rw [if_pos hempty, if_pos hempty, List.isEmpty_iff.mp hempty, hide_nil hm, if_pos rfl]
      simp only [List.append_assoc, List.append_nil]
    · rw [if_neg hempty, if_neg hempty, ih (h.of_suffix hsuffix)]
      simp only [List.append_assoc]

/-- A stop that no marker has separates a text. -/
theorem hide_separated (hm : marker ≠ []) {d : α} (hd : stop d = true) (hmem : d ∉ marker)
    (x y : List α) : hide marker replacement stop (x ++ d :: y) =
      hide marker replacement stop x ++ d :: hide marker replacement stop y := by
  have hskip : ¬ marker <+: d :: y := fun ⟨t, ht⟩ => by
    obtain ⟨h, m, rfl⟩ := List.exists_cons_of_ne_nil hm
    obtain ⟨rfl, -⟩ := List.cons.inj ht
    exact hmem List.mem_cons_self
  have hcross : NoCross marker x (d :: y) := noCross_of_head fun c hc => by
    obtain rfl := Option.some.inj hc
    exact fun h => hmem (List.mem_of_mem_tail h)
  rw [hide_append hm x hcross, behind_stop hd, ite_self, hide_skip hskip]

theorem hide_of_not_infix (hm : marker ≠ []) : ∀ x : List α, ¬ marker <:+: x →
    hide marker replacement stop x = x := by
  refine markers_induction stop hm (fun _ => hide_nil hm) ?_ ?_
  · intro c t hp ih h
    rw [hide_skip hp, ih fun hi => h (hi.trans (List.suffix_cons c t).isInfix)]
  · exact fun t _ h => absurd (List.prefix_append marker t).isInfix h

theorem mem_hide (hm : marker ≠ []) {c : α} : ∀ x : List α, c ∈ hide marker replacement stop x →
    c ∈ x ∨ c ∈ replacement := by
  refine markers_induction stop hm ?_ ?_ ?_
  · intro h
    rw [hide_nil hm] at h
    exact .inl h
  · intro d t hp ih h
    rw [hide_skip hp, List.mem_cons] at h
    rcases h with rfl | h
    · exact .inl List.mem_cons_self
    · exact (ih h).imp_left (List.mem_cons_of_mem d)
  · intro t ih h
    rw [hide_marker hm, List.mem_append, List.mem_append] at h
    rcases h with h | h | h
    · exact .inl (List.mem_append_left t h)
    · exact .inr h
    · exact (ih h).imp_left fun h => List.mem_append_right marker
        ((List.dropWhile_suffix _).subset h)

/-- A text that ends within a value ends with the replacement. -/
theorem hide_pending (replacement : List α) (hm : marker ≠ []) : ∀ x : List α, pending marker stop x = true →
    ∃ z, hide marker replacement stop x = z ++ replacement := by
  refine markers_induction stop hm ?_ ?_ ?_
  · intro h
    rw [pending_nil hm] at h
    cases h
  · intro c t hp ih h
    rw [pending_skip hp] at h
    obtain ⟨z, hz⟩ := ih h
    exact ⟨c :: z, by rw [hide_skip hp, hz, List.cons_append]⟩
  · intro t ih h
    rw [hide_marker hm]
    rw [pending_marker hm] at h
    by_cases hempty : (behind stop t).isEmpty = true
    · refine ⟨marker, ?_⟩
      rw [List.isEmpty_iff.mp hempty, hide_nil hm, List.append_nil]
    · rw [if_neg hempty] at h
      obtain ⟨z, hz⟩ := ih h
      exact ⟨marker ++ (replacement ++ z), by rw [hz]; simp only [List.append_assoc]⟩

/-! ## Once is enough -/

theorem hide_of_settled (hf : Fits marker replacement stop) : ∀ x : List α,
    Settled marker replacement stop x → hide marker replacement stop x = x := by
  refine markers_induction stop hf.ne_nil (fun _ => hide_nil hf.ne_nil) ?_ ?_
  · intro c t hp ih h
    rw [hide_skip hp, ih (h.of_suffix (List.suffix_cons c t))]
  · intro t ih h
    obtain ⟨z, rfl, hz⟩ := h [] t rfl
    have hbehind : behind stop (replacement ++ z) = z := by rw [behind_replacement hf, hz]
    rw [hbehind] at ih
    rw [hide_marker hf.ne_nil, hbehind,
      ih (h.of_suffix ((List.suffix_append replacement z).trans (List.suffix_append marker _)))]

/-- Where the text ends or a stop stands, nothing changes. -/
theorem behind_hide (hf : Fits marker replacement stop) {z : List α} (hz : behind stop z = z) :
    behind stop (hide marker replacement stop z) = hide marker replacement stop z := by
  obtain ⟨h, m, rfl, -, -, hstop⟩ := hf.cons
  rcases z with _ | ⟨d, z⟩
  · rw [hide_nil (List.cons_ne_nil h m)]
    rfl
  · have hd : stop d = true := by
      by_contra hd
      rw [behind, List.dropWhile_cons_of_pos (by simp [hd])] at hz
      have hlength := congrArg List.length hz
      have hle := length_behind_le stop z
      rw [behind] at hle
      rw [List.length_cons] at hlength
      omega
    have hskip : ¬ (h :: m) <+: d :: z := fun ⟨t, ht⟩ => by
      obtain ⟨rfl, -⟩ := List.cons.inj ht
      rw [hd] at hstop
      cases hstop
    rw [hide_skip hskip, behind_stop hd]

/-- The characters up to the length of a marker stay. -/
theorem take_hide (replacement : List α) (stop : α → Bool) (hm : marker ≠ []) : ∀ x : List α, ∀ n ≤ marker.length,
    (hide marker replacement stop x).take n = x.take n := by
  refine markers_induction stop hm ?_ ?_ ?_
  · intro n _
    rw [hide_nil hm]
  · intro c t hp ih n hn
    rw [hide_skip hp]
    rcases n with _ | n
    · rfl
    · rw [List.take_succ_cons, List.take_succ_cons, ih n (by omega)]
  · intro t _ n hn
    rw [hide_marker hm, List.take_append_of_le_length hn, List.take_append_of_le_length hn]

/-- **The hidden text is settled.** -/
theorem settled_hide (hf : Fits marker replacement stop) : ∀ x : List α,
    Settled marker replacement stop (hide marker replacement stop x) := by
  obtain ⟨h, m, rfl, hhead, hrep, hstop⟩ := hf.cons
  refine markers_induction stop hf.ne_nil ?_ ?_ ?_
  · intro u w heq
    rw [hide_nil hf.ne_nil] at heq
    simp at heq
  · intro c t hp ih u w heq
    rw [hide_skip hp] at heq
    rcases u with _ | ⟨d, u⟩
    · refine absurd ?_ hp
      obtain ⟨rfl, ht⟩ := List.cons.inj heq
      replace ht : hide (c :: m) replacement stop t = m ++ w := ht
      have htake := take_hide replacement stop hf.ne_nil t m.length
        (Nat.le_succ _)
      rw [ht, List.take_left] at htake
      exact List.cons_prefix_cons.mpr ⟨rfl, List.prefix_iff_eq_take.mpr htake⟩
    · exact ih u w (List.cons.inj heq).2
  · intro t ih u w heq
    rw [hide_marker hf.ne_nil] at heq
    rcases u with _ | ⟨d, u⟩
    · refine ⟨_, (List.append_cancel_left heq).symm, behind_hide hf (behind_behind t)⟩
    · have hrest : m ++ replacement ++ hide (h :: m) replacement stop (behind stop t) =
          u ++ (h :: m ++ w) := by
        rw [List.append_assoc]
        exact (List.cons.inj heq).2
      obtain ⟨u', -, hz⟩ := occurs_behind (fun hmem => (List.mem_append.mp hmem).elim hhead hrep) hrest
      exact ih u' w hz

/-- Hiding by a marker that shares no start with another leaves what the other has settled. -/
theorem settled_hide_of_settled {marker' : List α} (hf : Fits marker replacement stop)
    (hf' : Fits marker' replacement stop) (hlength : marker.length ≤ marker'.length + 1)
    (hhead : ∀ c ∈ marker.head?, c ∉ marker') (hhead' : ∀ c ∈ marker'.head?, c ∉ marker) :
    ∀ x : List α, Settled marker replacement stop x →
      Settled marker replacement stop (hide marker' replacement stop x) := by
  obtain ⟨h, m, rfl, -, hrep, -⟩ := hf.cons
  refine markers_induction stop hf'.ne_nil ?_ ?_ ?_
  · intro _ u w heq
    rw [hide_nil hf'.ne_nil] at heq
    simp at heq
  · intro c t hp ih hx u w heq
    rw [hide_skip hp] at heq
    rcases u with _ | ⟨d, u⟩
    · obtain ⟨rfl, ht⟩ := List.cons.inj heq
      replace ht : hide marker' replacement stop t = m ++ w := ht
      have htake := take_hide replacement stop hf'.ne_nil t m.length
        (Nat.le_of_succ_le_succ hlength)
      rw [ht, List.take_left] at htake
      obtain ⟨r, rfl⟩ := List.prefix_iff_eq_take.mpr htake
      obtain ⟨z, rfl, hbehind⟩ := hx [] r rfl
      have hfirst : ∀ c ∈ marker'.head?, c ∉ m ++ replacement := by
        obtain ⟨h', m', rfl, -, hrep', -⟩ := hf'.cons
        intro d hd hmem
        obtain rfl := Option.some.inj hd
        exact (List.mem_append.mp hmem).elim
          (fun hmem => hhead' _ rfl (List.mem_cons_of_mem c hmem)) hrep'
      rw [← List.append_assoc, hide, scan_block hf'.ne_nil z _ hfirst, List.append_assoc] at ht
      exact ⟨_, (List.append_cancel_left ht).symm, behind_hide hf' hbehind⟩
    · exact ih (hx.of_suffix (List.suffix_cons c t)) u w (List.cons.inj heq).2
  · intro t ih hx u w heq
    rw [hide_marker hf'.ne_nil, ← List.append_assoc] at heq
    have hmem : h ∉ marker' ++ replacement := fun hmem =>
      (List.mem_append.mp hmem).elim (hhead h rfl) hrep
    obtain ⟨u', -, hz⟩ := occurs_behind hmem heq
    exact ih (hx.of_suffix ((List.dropWhile_suffix _).trans (List.suffix_append marker' t))) u' w hz

end IdenGrid.Lib.Scan
