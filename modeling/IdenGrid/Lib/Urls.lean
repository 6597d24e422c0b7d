import Mathlib.Data.List.DropRight
import Mathlib.Data.List.TakeWhile
import IdenGrid.Lib.JsonDumps

/-! # The parts of a URL, for two readers

`urlsplit` is that of `urllib.parse`, up to the authority: the text between two slashes after the
scheme and the next slash, question mark or number sign. It looks at the host and the port only when
asked (`hostInfo`, `portOf`). `parseHttps` is the reader of the URL Standard for the scheme `https`:
backslashes count as slashes, any number of them may stand before the authority, blanks at both ends
go, and the host and the port have to be right. How a host is read and how the other parts are
written is a parameter. Texts are lists of code points.

`authority_bare` and `between_of_within`: where both find a host, they find it in the same place. -/

namespace IdenGrid.Lib.Urls

open IdenGrid.Lib.Json IdenGrid.Lib.JsonDumps IdenGrid.Lib.Unicode

/-- The C0 controls and the space. -/
def isBlank (c : ℕ) : Bool := decide (c ≤ 32)

/-- Tab, line feed and carriage return are removed everywhere. -/
def isLine (c : ℕ) : Bool := c == 9 || c == 10 || c == 13

def isAlpha (c : ℕ) : Bool := decide (65 ≤ c ∧ c ≤ 90 ∨ 97 ≤ c ∧ c ≤ 122)

def isSchemeChar (c : ℕ) : Bool := isAlpha c || isDigit c || c == 43 || c == 45 || c == 46

def lower (c : ℕ) : ℕ := if 65 ≤ c ∧ c ≤ 90 then c + 32 else c

/-- What stands before the first colon, if that can be a scheme. -/
def schemeOf (t : List ℕ) : List ℕ :=
  let s := t.takeWhile (· != 58)
  if 58 ∈ t ∧ s.head?.any isAlpha ∧ s.all isSchemeChar then s.map lower else []

def afterScheme (t : List ℕ) : List ℕ :=
  if schemeOf t = [] then t else (t.dropWhile (· != 58)).tail

/-- A slash, a question mark or a number sign. -/
def isStop (c : ℕ) : Bool := c == 47 || c == 63 || c == 35

/-- What stands behind the last `@`. -/
def afterAt (t : List ℕ) : List ℕ := t.rtakeWhile (· != 64)

/-! ## `urlsplit` -/

/-- The blanks at the start go, and the line ends. -/
def clean (t : List ℕ) : List ℕ := (t.dropWhile isBlank).filter (!isLine ·)

/-- What stands behind two slashes. -/
def netloc (t : List ℕ) : List ℕ :=
  if t.take 2 = [47, 47] then (t.drop 2).takeWhile (!isStop ·) else []

/-- The checks of a host in brackets and of characters beyond ASCII, and the lower-case text of a
host. -/
structure Tables where
  bracketed : List ℕ → Bool
  normal : List ℕ → Bool
  lower : List ℕ → List ℕ

/-- What stands between the first bracket and the next closing one. -/
def between (t : List ℕ) : List ℕ := (t.dropWhile (· != 91)).tail.takeWhile (· != 93)

/-- The scheme and the authority of `urlsplit`; `none` is a `ValueError`. -/
def urlsplit (T : Tables) (url : List ℕ) : Option (List ℕ × List ℕ) :=
  let t := clean url
  let n := netloc (afterScheme t)
  if ¬ (91 ∈ n ↔ 93 ∈ n) then none
  else if 91 ∈ n ∧ ¬ T.bracketed (between n) then none
  else if ¬ T.normal n then none
  else some (schemeOf t, n)

/-- The host and the port of an authority, both as they stand there. -/
def hostInfo (n : List ℕ) : List ℕ × List ℕ :=
  let info := afterAt n
  if 91 ∈ info then
    (between info, ((((info.dropWhile (· != 91)).tail.dropWhile (· != 93)).tail).dropWhile (· != 58)).tail)
  else (info.takeWhile (· != 58), (info.dropWhile (· != 58)).tail)

/-- The host with its brackets. -/
def hostText (n : List ℕ) : List ℕ :=
  if 91 ∈ afterAt n then 91 :: ((hostInfo n).1 ++ [93]) else (hostInfo n).1

/-- The number of a port, if it is one; without a port it is that of `https`. -/
def portOf (p : List ℕ) : Option ℕ :=
  if p = [] then some 443
  else if p.all isDigit ∧ ofDecimal p ≤ 65535 then some (ofDecimal p) else none

/-! ## The URL Standard -/

/-- The blanks at both ends go, and the line ends. -/
def strip (t : List ℕ) : List ℕ := ((t.dropWhile isBlank).rdropWhile isBlank).filter (!isLine ·)

def isSlash (c : ℕ) : Bool := c == 47 || c == 92

def isEnd (c : ℕ) : Bool := isStop c || c == 92

/-- The host and the text behind the first colon that stands in no brackets. -/
def splitHost : Bool → List ℕ → List ℕ × Option (List ℕ)
  | _, [] => ([], none)
  | inside, c :: t =>
    if c = 58 ∧ inside = false then ([], some t)
    else
      let r := splitHost (if c = 91 then true else if c = 93 then false else inside) t
      (c :: r.1, r.2)

structure Url (Host : Type) where
  scheme : List ℕ
  username : List ℕ
  password : Option (List ℕ)
  host : Option Host
  port : Option ℕ
  path : List ℕ
  query : Option (List ℕ)
  fragment : Option (List ℕ)

/-- The reader of hosts, and how the other parts are written. -/
structure Parts (Host : Type) where
  host : List ℕ → Option Host
  userinfo : List ℕ → List ℕ × Option (List ℕ)
  path : List ℕ → List ℕ
  query : List ℕ → List ℕ
  fragment : List ℕ → List ℕ

/-- The authority and what stands behind it. -/
def authority (t : List ℕ) : List ℕ × List ℕ :=
  let rest := (afterScheme t).dropWhile isSlash
  (rest.takeWhile (!isEnd ·), rest.dropWhile (!isEnd ·))

/-- The URL with this host and this port. -/
def urlOf {Host : Type} (S : Parts Host) (t : List ℕ) (x : Host) (port : ℕ) : Url Host :=
  let (a, tail) := authority t
  let user := if 64 ∈ a then S.userinfo (a.rdropWhile (· != 64)) else ([], none)
  { scheme := text "https"
    username := user.1
    password := user.2
    host := some x
    port := if port = 443 then none else some port
    path := S.path (tail.takeWhile fun c => c != 63 && c != 35)
    query := if 63 ∈ tail.takeWhile (· != 35) then
      some (S.query (((tail.takeWhile (· != 35)).dropWhile (· != 63)).tail)) else none
    fragment := if 35 ∈ tail then some (S.fragment (tail.dropWhile (· != 35)).tail) else none }

/-- A URL with the scheme `https`, without blanks at its ends. -/
def parseHttps {Host : Type} (S : Parts Host) (t : List ℕ) : Option (Url Host) :=
  let (h, p) := splitHost false (afterAt (authority t).1)
  if h = [] then none
  else (S.host h).bind fun x => (portOf (p.getD [])).map (urlOf S t x)

theorem parseHttps_eq_some {Host : Type} {S : Parts Host} {t : List ℕ} {url : Url Host} :
    parseHttps S t = some url ↔ ∃ h p x port, splitHost false (afterAt (authority t).1) = (h, p) ∧
      h ≠ [] ∧ S.host h = some x ∧ portOf (p.getD []) = some port ∧ url = urlOf S t x port := by
  unfold parseHttps
  rcases hsplit : splitHost false (afterAt (authority t).1) with ⟨h, p⟩
  dsimp only
  by_cases hne : h = []
  · rw [if_pos hne]
    refine iff_of_false (by simp) ?_
    rintro ⟨h', p', x, port, heq, hne', -⟩
    obtain ⟨rfl, -⟩ := Prod.mk.inj heq
    exact hne' hne
  · rw [if_neg hne, Option.bind_eq_some_iff]
    simp only [Option.map_eq_some_iff]
    constructor
    · rintro ⟨x, hx, port, hport, rfl⟩
      exact ⟨h, p, x, port, rfl, hne, hx, hport, rfl⟩
    · rintro ⟨h', p', x, port, heq, -, hx, hport, rfl⟩
      obtain ⟨rfl, rfl⟩ := Prod.mk.inj heq
      exact ⟨x, hx, port, hport, rfl⟩

/-- Nothing of a query or a fragment is found exactly if their marks are not there. -/
theorem urlOf_bare {Host : Type} {S : Parts Host} {t : List ℕ} {x : Host} {port : ℕ} :
    (urlOf S t x port).query = none ∧ (urlOf S t x port).fragment = none ↔
      63 ∉ (authority t).2 ∧ 35 ∉ (authority t).2 := by
  unfold urlOf
  dsimp only
  by_cases hmark : 35 ∈ (authority t).2
  · simp [hmark]
  · have htake : (authority t).2.takeWhile (· != 35) = (authority t).2 := by
      rw [List.takeWhile_eq_self_iff]
      exact fun c hc => bne_iff_ne.mpr fun heq => hmark (heq ▸ hc)
    by_cases hquery : 63 ∈ (authority t).2
    · simp [hmark, htake, hquery]
    · simp [hmark, htake, hquery]

/-! ## The two texts -/

theorem clean_eq (t : List ℕ) : ∃ w, clean t = strip t ++ w ∧ ∀ c ∈ w, c ≤ 32 := by
  refine ⟨((t.dropWhile isBlank).rtakeWhile isBlank).filter (!isLine ·), ?_, fun c hc => ?_⟩
  · rw [strip, ← List.filter_append, List.rdropWhile_append_rtakeWhile]
    rfl
  · have hblank : isBlank c = true := List.mem_rtakeWhile_imp (List.mem_filter.mp hc).1
    exact of_decide_eq_true hblank

theorem mem_strip_iff {t : List ℕ} {c : ℕ} (hc : 32 < c) : c ∈ strip t ↔ c ∈ t := by
  have hblank : isBlank c = false := decide_eq_false (by omega)
  have hline : isLine c = false := by
    simp only [isLine, Bool.or_eq_false_iff, beq_eq_false_iff_ne]
    omega
  have hdrop : ∀ {l : List ℕ}, c ∈ l.dropWhile isBlank ↔ c ∈ l := fun {l} => by
    constructor
    · exact fun h => (List.dropWhile_sublist _).subset h
    · intro h
      rw [← List.takeWhile_append_dropWhile (p := isBlank) (l := l), List.mem_append] at h
      rcases h with h | h
      · rw [List.mem_takeWhile_imp h] at hblank
        simp at hblank
      · exact h
  rw [strip, List.mem_filter, hline, List.rdropWhile, List.mem_reverse, hdrop, List.mem_reverse, hdrop]
  simp

theorem scheme_cases {t : List ℕ} (h : schemeOf t ≠ []) :
    ∃ s r, t = s ++ 58 :: r ∧ 58 ∉ s ∧ s.all isSchemeChar = true ∧ afterScheme t = r ∧
      ∀ r', schemeOf (s ++ 58 :: r') = schemeOf t ∧ afterScheme (s ++ 58 :: r') = r' := by
  have hne := h
  unfold schemeOf at h
  dsimp only at h
  split_ifs at h with hscheme
  swap
  · exact absurd rfl h
  obtain ⟨hcolon, hhead, hall⟩ := hscheme
  have hnot : 58 ∉ t.takeWhile (· != 58) := fun hmem => by
    simpa using List.mem_takeWhile_imp hmem
  have hrest : t.dropWhile (· != 58) = 58 :: (t.dropWhile (· != 58)).tail := by
    rcases hdrop : t.dropWhile (· != 58) with _ | ⟨c, r⟩
    · have := List.dropWhile_eq_nil_iff.mp hdrop 58 hcolon
      simp at this
    · have hc := List.head?_dropWhile_not (· != 58) t
      rw [hdrop] at hc
      rw [List.tail_cons, show c = 58 by simpa using hc]
  have ht : t = t.takeWhile (· != 58) ++ 58 :: (t.dropWhile (· != 58)).tail := by
    rw [← hrest, List.takeWhile_append_dropWhile]
  have hafter : ∀ r', schemeOf (t.takeWhile (· != 58) ++ 58 :: r') = schemeOf t ∧
      afterScheme (t.takeWhile (· != 58) ++ 58 :: r') = r' := by
    intro r'
    have hpos : ∀ c ∈ t.takeWhile (· != 58), (c != 58) = true := fun c hc =>
      List.mem_takeWhile_imp (p := (· != 58)) hc
    have htake : (t.takeWhile (· != 58) ++ 58 :: r').takeWhile (· != 58) = t.takeWhile (· != 58) := by
      rw [List.takeWhile_append_of_pos hpos, List.takeWhile_cons_of_neg (by simp), List.append_nil]
    have hdrop : (t.takeWhile (· != 58) ++ 58 :: r').dropWhile (· != 58) = 58 :: r' := by
      rw [List.dropWhile_append_of_pos hpos, List.dropWhile_cons_of_neg (by simp)]
    have hsame : schemeOf (t.takeWhile (· != 58) ++ 58 :: r') = schemeOf t := by
      unfold schemeOf
      simp only [htake]
      rw [if_pos ⟨by simp, hhead, hall⟩, if_pos ⟨hcolon, hhead, hall⟩]
    exact ⟨hsame, by rw [afterScheme, hsame, if_neg hne, hdrop, List.tail_cons]⟩
  exact ⟨_, _, ht, hnot, hall, by rw [afterScheme, if_neg hne], hafter⟩

/-- **Where `urlsplit` finds an authority**, the reader of the standard finds slashes as well. -/
theorem strip_of_netloc {t n : List ℕ} (hs : schemeOf (clean t) ≠ [])
    (hn : netloc (afterScheme (clean t)) = n) (hne : n ≠ []) :
    ∃ m w, schemeOf (strip t) = schemeOf (clean t) ∧ afterScheme (strip t) = 47 :: 47 :: m ∧
      (∀ c ∈ w, c ≤ 32) ∧ n = (m ++ w).takeWhile (!isStop ·) ∧
      ∀ c, c = 63 ∨ c = 35 → (c ∈ t ↔ c ∈ m) := by
  obtain ⟨w, hclean, hw⟩ := clean_eq t
  obtain ⟨s, r, hsr, hcolon, hall, hafter, hsame⟩ := scheme_cases hs
  unfold netloc at hn
  rw [hafter] at hn
  split_ifs at hn with hslashes
  · obtain ⟨k, rfl⟩ : ∃ k, r = 47 :: 47 :: k := by
      rcases r with _ | ⟨a, _ | ⟨b, k⟩⟩
      · simp at hslashes
      · simp at hslashes
      · obtain ⟨rfl, hb⟩ := List.cons.inj hslashes
        exact ⟨k, by rw [(List.cons.inj hb).1]⟩
    have hjoin : (s ++ [58, 47, 47]) ++ k = strip t ++ w := by
      rw [← hclean, hsr]
      simp
    obtain ⟨m, hm, rfl⟩ : ∃ m, strip t = (s ++ [58, 47, 47]) ++ m ∧ k = m ++ w := by
      rcases List.append_eq_append_iff.mp hjoin with ⟨m, hm, hk⟩ | ⟨m, hm, hk⟩
      · exact ⟨m, hm, hk⟩
      · -- the slashes are no blanks
        rcases List.eq_nil_or_concat m with rfl | ⟨l, c, rfl⟩
        · exact ⟨[], by simpa using hm.symm, by simpa using hk.symm⟩
        · have hlast := congrArg List.getLast? hm
          have hc : c = 47 := by simpa [List.getLast?_append, eq_comm] using hlast
          have := hw c (by rw [hk]; simp)
          omega
    have hstrip : strip t = s ++ 58 :: (47 :: 47 :: m) := by rw [hm]; simp
    obtain ⟨hscheme, hrest⟩ := hsame (47 :: 47 :: m)
    refine ⟨m, w, by rw [hstrip, hscheme], by rw [hstrip, hrest], hw, by rw [← hn]; rfl, ?_⟩
    intro c hc
    have hnot : c ∉ s := fun hmem => by
      have := List.all_eq_true.mp hall c hmem
      rcases hc with rfl | rfl <;> simp [isSchemeChar, isAlpha, isDigit] at this
    have hcolon' : c ≠ 58 := by omega
    have hslash : c ≠ 47 := by omega
    rw [← mem_strip_iff (by omega), hstrip]
    simp [hnot, hcolon', hslash]
  · exact absurd hn.symm hne

/-! ## The two authorities -/

/-- A host and what may stand behind it. -/
def withPort (h : List ℕ) (p : Option (List ℕ)) : List ℕ := h ++ p.elim [] (58 :: ·)

theorem splitHost_append {inside : Bool} {a h : List ℕ} {p : Option (List ℕ)}
    (heq : splitHost inside a = (h, p)) : a = withPort h p := by
  induction a generalizing inside h p with
  | nil =>
    obtain ⟨rfl, rfl⟩ := Prod.mk.inj heq
    rfl
  | cons c a ih =>
    rw [splitHost] at heq
    split_ifs at heq with hcolon
    · obtain ⟨rfl, rfl⟩ := Prod.mk.inj heq
      rw [hcolon.1]
      rfl
    all_goals
      obtain ⟨rfl, rfl⟩ := Prod.mk.inj heq
      exact congrArg (c :: ·) (ih rfl)

theorem splitHost_bare {h : List ℕ} (hh : ∀ c ∈ h, c ≠ 58 ∧ c ≠ 91) (p : Option (List ℕ)) :
    splitHost false (withPort h p) = (h, p) := by
  induction h with
  | nil =>
    cases p with
    | none => rfl
    | some q => rfl
  | cons c h ih =>
    obtain ⟨hc, hh⟩ := List.forall_mem_cons.mp hh
    have hinside : (if c = 91 then true else if c = 93 then false else false) = false := by
      rw [if_neg hc.2, ite_self]
    rw [withPort, List.cons_append, splitHost, if_neg (by simp [hc.1]), hinside]
    have := ih hh
    rw [withPort] at this
    rw [this]

theorem splitHost_inside {b : List ℕ} (hb : 93 ∉ b) (r : List ℕ) :
    splitHost true (b ++ 93 :: r) = (b ++ 93 :: (splitHost false r).1, (splitHost false r).2) := by
  induction b with
  | nil => rfl
  | cons c b ih =>
    rw [List.mem_cons, not_or] at hb
    have hinside : (if c = 91 then true else if c = 93 then false else true) = true := by
      rw [if_neg (Ne.symm hb.1), ite_self]
    rw [List.cons_append, splitHost, if_neg (by simp), hinside, ih hb.2]
    rfl

theorem splitHost_bracketed {b : List ℕ} (hb : 93 ∉ b) (p : Option (List ℕ)) :
    splitHost false (withPort (91 :: (b ++ [93])) p) = (91 :: (b ++ [93]), p) := by
  have htext : withPort (91 :: (b ++ [93])) p = 91 :: (b ++ 93 :: p.elim [] (58 :: ·)) := by
    simp [withPort]
  have hrest : splitHost false (p.elim [] (58 :: ·)) = ([], p) := splitHost_bare (h := []) (by simp) p
  rw [htext, splitHost, if_neg (by simp), if_pos rfl, splitHost_inside hb, hrest]

theorem afterAt_of_not_mem {t : List ℕ} (h : 64 ∉ t) : afterAt t = t := by
  rw [afterAt, List.rtakeWhile_eq_self_iff]
  exact fun c hc => by simpa using fun heq : c = 64 => h (heq ▸ hc)

theorem takeWhile_of_all {p : ℕ → Bool} {a r : List ℕ} (ha : ∀ c ∈ a, p c = true)
    (hr : ∀ c ∈ r.head?, p c = false) : (a ++ r).takeWhile p = a ∧ (a ++ r).dropWhile p = r := by
  rw [List.takeWhile_append_of_pos ha, List.dropWhile_append_of_pos ha]
  rcases r with _ | ⟨c, r⟩
  · exact ⟨List.append_nil a, rfl⟩
  · have hc : ¬ p c = true := by simp [hr c rfl]
    rw [List.takeWhile_cons_of_neg hc, List.dropWhile_cons_of_neg hc]
    exact ⟨List.append_nil a, rfl⟩

theorem head_dropWhile {p : ℕ → Bool} (t : List ℕ) : ∀ c ∈ (t.dropWhile p).head?, p c = false := by
  intro c hc
  have hnot := List.head?_dropWhile_not p t
  rw [hc] at hnot
  exact hnot

/-- **A host without brackets** stands in the same place for both readers, if the authority has no
blanks and no backslashes. -/
theorem authority_bare {t m w n : List ℕ} (ht : afterScheme t = 47 :: 47 :: m)
    (hw : ∀ c ∈ w, c ≤ 32) (hn : n = (m ++ w).takeWhile (!isStop ·)) (hne : n ≠ [])
    (hplain : ∀ c ∈ n, 32 < c ∧ c ≠ 92) : (authority t).1 = n := by
  have hstop : ∀ c ∈ n, (!isStop c) = true := fun c hc => by
    rw [hn] at hc
    exact List.mem_takeWhile_imp (p := (!isStop ·)) hc
  obtain ⟨r, hm, hr⟩ : ∃ r, m = n ++ r ∧ ∀ c ∈ r.head?, isEnd c = true := by
    have hhead := head_dropWhile (p := (!isStop ·)) m
    have hsplit : m = m.takeWhile (!isStop ·) ++ m.dropWhile (!isStop ·) := by simp
    rcases hrest : m.dropWhile (!isStop ·) with _ | ⟨c, r⟩
    · -- the whole text up to its blanks is the authority
      have hall : ∀ c ∈ m ++ w, (!isStop c) = true := by
        rw [List.forall_mem_append]
        refine ⟨List.dropWhile_eq_nil_iff.mp hrest, fun c hc => ?_⟩
        have := hw c hc
        simp only [isStop, Bool.not_eq_true', Bool.or_eq_false_iff, beq_eq_false_iff_ne]
        omega
      rw [List.takeWhile_eq_self_iff.mpr hall] at hn
      have hnil : w = [] := by
        refine List.eq_nil_iff_forall_not_mem.mpr fun c hc => ?_
        have := hw c hc
        have := (hplain c (by rw [hn]; simp [hc])).1
        omega
      exact ⟨[], by rw [hn, hnil]; simp, by simp⟩
    · rw [hrest] at hsplit hhead
      have hc : isStop c = true := by simpa using hhead c rfl
      have htake : (m ++ w).takeWhile (!isStop ·) = m.takeWhile (!isStop ·) := by
        conv_lhs => rw [hsplit]
        rw [List.append_assoc]
        exact (takeWhile_of_all (fun d hd => List.mem_takeWhile_imp (p := (!isStop ·)) hd)
          (by simp [hc])).1
      refine ⟨c :: r, by rw [hn, htake]; exact hsplit, fun d hd => ?_⟩
      obtain rfl := Option.some.inj hd
      rw [isEnd, hc, Bool.true_or]
  have hslash : (47 :: 47 :: m).dropWhile isSlash = m := by
    obtain ⟨c, n, rfl⟩ := List.exists_cons_of_ne_nil hne
    have hc : isSlash c = false := by
      have hstop := hstop c List.mem_cons_self
      have := (hplain c List.mem_cons_self).2
      simp only [isStop, Bool.not_eq_true', Bool.or_eq_false_iff, beq_eq_false_iff_ne] at hstop
      simp only [isSlash, Bool.or_eq_false_iff, beq_eq_false_iff_ne]
      omega
    rw [hm, List.dropWhile_cons_of_pos rfl, List.dropWhile_cons_of_pos rfl, List.cons_append,
      List.dropWhile_cons_of_neg (by simp [hc])]
  have hend : ∀ c ∈ n, (!isEnd c) = true := fun c hc => by
    have hstop := hstop c hc
    have := (hplain c hc).2
    simp only [Bool.not_eq_true'] at hstop ⊢
    simp [isEnd, hstop, this]
  unfold authority
  rw [ht, hslash, hm]
  exact (takeWhile_of_all hend fun c hc => by simp [hr c hc]).1

theorem between_of_append {x b r : List ℕ} (hx : 91 ∉ x) (hb : 93 ∉ b) :
    between (x ++ 91 :: (b ++ 93 :: r)) = b := by
  have hne : ∀ {l : List ℕ} {d : ℕ}, d ∉ l → ∀ c ∈ l, (c != d) = true := fun hl c hc => by
    rw [bne_iff_ne]
    rintro rfl
    exact hl hc
  rw [between, (takeWhile_of_all (p := (· != 91)) (hne hx) (by simp)).2, List.tail_cons,
    (takeWhile_of_all (p := (· != 93)) (hne hb) (by simp)).1]

/-- The authority of the standard stands within that of `urlsplit`, behind backslashes, if that has a
bracket: a slash among them would end it. -/
theorem authority_within {t m w n : List ℕ} (ht : afterScheme t = 47 :: 47 :: m)
    (hn : n = (m ++ w).takeWhile (!isStop ·)) (hmem : 91 ∈ n) :
    ∃ x r, n = x ++ ((authority t).1 ++ r) ∧ 91 ∉ x := by
  have hslash : (47 :: 47 :: m).dropWhile isSlash = m.dropWhile isSlash := by
    rw [List.dropWhile_cons_of_pos rfl, List.dropWhile_cons_of_pos rfl]
  have hsplit : m = m.takeWhile isSlash ++ m.dropWhile isSlash := by simp
  have hback : ∀ c ∈ m.takeWhile isSlash, (!isStop c) = true := by
    by_contra hnot
    push Not at hnot
    obtain ⟨c, hc, hstop⟩ := hnot
    obtain ⟨x, y, hxy⟩ := List.append_of_mem hc
    have hx : ∀ d ∈ x, isSlash d = true := fun d hd =>
      List.mem_takeWhile_imp (p := isSlash) (by rw [hxy]; simp [hd])
    have hmx : m ++ w = x ++ c :: (y ++ (m.dropWhile isSlash ++ w)) := by
      conv_lhs => rw [hsplit, hxy]
      simp
    have hsub : ∀ d ∈ n, d ∈ x := by
      intro d hd
      rw [hn, hmx, List.takeWhile_append] at hd
      split_ifs at hd
      · rw [List.takeWhile_cons_of_neg (by simpa using hstop), List.append_nil] at hd
        exact hd
      · exact (List.takeWhile_sublist _).subset hd
    have := hx 91 (hsub 91 hmem)
    simp [isSlash] at this
  have hend : ∀ c, isStop c = true → isEnd c = true := fun c hc => by rw [isEnd, hc, Bool.true_or]
  have hrest : m.dropWhile isSlash = (m.dropWhile isSlash).takeWhile (!isEnd ·) ++
      (m.dropWhile isSlash).dropWhile (!isEnd ·) := by simp
  refine ⟨m.takeWhile isSlash, ((m.dropWhile isSlash).dropWhile (!isEnd ·) ++ w).takeWhile (!isStop ·),
    ?_, fun h91 => ?_⟩
  · unfold authority
    rw [ht, hslash, hn]
    conv_lhs => rw [hsplit]
    rw [List.append_assoc, List.takeWhile_append_of_pos hback]
    congr 1
    conv_lhs => rw [hrest, List.append_assoc]
    refine List.takeWhile_append_of_pos fun c hc => ?_
    have hnot := List.mem_takeWhile_imp (p := (!isEnd ·)) hc
    rcases hstop : isStop c with _ | _
    · rfl
    · rw [hend c hstop] at hnot
      simp at hnot
  · have := List.mem_takeWhile_imp (p := isSlash) h91
    simp [isSlash] at this

/-- **A host in brackets** that the standard finds is the one that stands between the brackets. -/
theorem between_of_within {n x r b : List ℕ} {p : Option (List ℕ)}
    (hn : n = x ++ (withPort (91 :: (b ++ [93])) p ++ r)) (hx : 91 ∉ x) (hb : 93 ∉ b) :
    between n = b := by
  have hfull : n = x ++ 91 :: (b ++ 93 :: (p.elim [] (58 :: ·) ++ r)) := by
    rw [hn]
    simp [withPort]
  rw [hfull]
  exact between_of_append hx hb

/-- What stands behind the slashes is the authority and the rest. -/
theorem mem_iff_tail {t m : List ℕ} (ht : afterScheme t = 47 :: 47 :: m) {c : ℕ}
    (hc : c = 63 ∨ c = 35) : c ∈ m ↔ c ∈ (authority t).2 := by
  have hslash : (47 :: 47 :: m).dropWhile isSlash = m.dropWhile isSlash := by
    rw [List.dropWhile_cons_of_pos rfl, List.dropWhile_cons_of_pos rfl]
  have hnot : ∀ {q : ℕ → Bool} {l : List ℕ}, q c = false → (c ∈ l ↔ c ∈ l.dropWhile q) := by
    intro q l hq
    conv_lhs => rw [← List.takeWhile_append_dropWhile (p := q) (l := l)]
    rw [List.mem_append, or_iff_right]
    intro hmem
    rw [List.mem_takeWhile_imp hmem] at hq
    simp at hq
  unfold authority
  rw [ht, hslash, hnot (q := isSlash), hnot (q := (!isEnd ·))]
  · rcases hc with rfl | rfl <;> rfl
  · rcases hc with rfl | rfl <;> rfl

end IdenGrid.Lib.Urls
