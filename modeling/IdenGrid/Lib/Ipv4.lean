import Mathlib.Algebra.Group.Nat.Defs
import Mathlib.Data.List.Basic
import Mathlib.Data.Nat.Notation
import Mathlib.Tactic.Common
import Mathlib.Tactic.SplitIfs

/-! # IPv4 addresses

`parse` is the constructor of `ipaddress.IPv4Address` on a text, given as code points; an address is
a number below `2^32`. `isGlobal` is its property `is_global`. `render` is the text of an address; no
other text is parsed to it. -/

namespace IdenGrid.Lib.Ipv4

/-- An octet: one to three ASCII digits without a leading zero, up to 255. -/
def octet (t : List ℕ) : Option ℕ :=
  let n := t.foldl (fun acc c => acc * 10 + (c - 48)) 0
  if t.length = 0 ∨ 3 < t.length then none
  else if t.any fun c => c < 48 || 57 < c then none
  else if t ≠ [48] ∧ t.head? = some 48 then none
  else if 255 < n then none
  else some n

/-- The octets between the dots. -/
def octets (t : List ℕ) : List (List ℕ) := t.splitOn 46

def parse (t : List ℕ) : Option ℕ :=
  match (octets t).map octet with
  | [some a, some b, some c, some d] => some (((a * 256 + b) * 256 + c) * 256 + d)
  | _ => none

/-- The address is in the network. -/
def inNetwork (n : ℕ) (net : (ℕ × ℕ × ℕ × ℕ) × ℕ) : Bool :=
  let base := ((net.1.1 * 256 + net.1.2.1) * 256 + net.1.2.2.1) * 256 + net.1.2.2.2
  n / 2 ^ (32 - net.2) == base / 2 ^ (32 - net.2)

def privateNetworks : List ((ℕ × ℕ × ℕ × ℕ) × ℕ) :=
  [((0, 0, 0, 0), 8), ((10, 0, 0, 0), 8), ((127, 0, 0, 0), 8), ((169, 254, 0, 0), 16),
    ((172, 16, 0, 0), 12), ((192, 0, 0, 0), 24), ((192, 0, 0, 170), 31), ((192, 0, 2, 0), 24),
    ((192, 168, 0, 0), 16), ((198, 18, 0, 0), 15), ((198, 51, 100, 0), 24), ((203, 0, 113, 0), 24),
    ((240, 0, 0, 0), 4), ((255, 255, 255, 255), 32)]

def privateExceptions : List ((ℕ × ℕ × ℕ × ℕ) × ℕ) :=
  [((192, 0, 0, 9), 32), ((192, 0, 0, 10), 32)]

def isPrivate (n : ℕ) : Bool :=
  privateNetworks.any (inNetwork n) && !privateExceptions.any (inNetwork n)

def isGlobal (n : ℕ) : Bool := !inNetwork n ((100, 64, 0, 0), 10) && !isPrivate n

/-! ## The characters of an address -/

theorem octet_digits {t : List ℕ} {n : ℕ} (h : octet t = some n) :
    ∀ c ∈ t, 48 ≤ c ∧ c ≤ 57 := by
  unfold octet at h
  dsimp only at h
  split_ifs at h with hlen hdigits
  intro c hc
  have := List.any_eq_false.mp (Bool.eq_false_iff.mpr hdigits) c hc
  simp only [Bool.or_eq_true, decide_eq_true_eq] at this
  omega

theorem mem_intercalate {α : Type*} {sep : List α} {ls : List (List α)} {c : α}
    (h : c ∈ List.intercalate sep ls) : c ∈ sep ∨ ∃ l ∈ ls, c ∈ l := by
  induction ls with
  | nil => simp at h
  | cons l ls ih =>
    cases ls with
    | nil => exact Or.inr ⟨l, List.mem_singleton.mpr rfl, by simpa using h⟩
    | cons m ms =>
      rw [List.intercalate_cons_cons, List.mem_append, List.mem_append] at h
      rcases h with (h | h) | h
      · exact Or.inr ⟨l, List.mem_cons_self, h⟩
      · exact Or.inl h
      · rcases ih h with hsep | ⟨x, hx, hc⟩
        · exact Or.inl hsep
        · exact Or.inr ⟨x, List.mem_cons_of_mem _ hx, hc⟩

/-- An address is made of ASCII digits and dots. -/
theorem parse_digits {t : List ℕ} {n : ℕ} (h : parse t = some n) :
    ∀ c ∈ t, c = 46 ∨ 48 ≤ c ∧ c ≤ 57 := by
  have hpieces : ∀ l ∈ octets t, ∃ m, octet l = some m := by
    intro l hl
    have hmem : octet l ∈ (octets t).map octet := List.mem_map_of_mem hl
    unfold parse at h
    split at h
    · next a b c d heq =>
      rw [heq] at hmem
      simp only [List.mem_cons, List.not_mem_nil, or_false] at hmem
      rcases hmem with hmem | hmem | hmem | hmem <;> exact ⟨_, hmem⟩
    · simp at h
  intro c hc
  rw [show t = List.intercalate [46] (octets t) from (List.intercalate_splitOn 46).symm] at hc
  rcases mem_intercalate hc with hsep | ⟨l, hl, hmem⟩
  · exact Or.inl (List.mem_singleton.mp hsep)
  · obtain ⟨m, hm⟩ := hpieces l hl
    exact Or.inr (octet_digits hm c hmem)

/-! ## The text of an address -/

/-- The digits of an octet. -/
def octetText (n : ℕ) : List ℕ :=
  if n < 10 then [48 + n]
  else if n < 100 then [48 + n / 10, 48 + n % 10]
  else [48 + n / 100, 48 + n / 10 % 10, 48 + n % 10]

/-- `str(IPv4Address(n))`. -/
def render (n : ℕ) : List ℕ :=
  octetText (n / 256 / 256 / 256) ++ 46 :: (octetText (n / 256 / 256 % 256) ++
    46 :: (octetText (n / 256 % 256) ++ 46 :: octetText (n % 256)))

theorem octet_octetText : ∀ n < 256, octet (octetText n) = some n := by
  decide +kernel

theorem octet_eq_some {t : List ℕ} {n : ℕ} : octet t = some n ↔ n < 256 ∧ t = octetText n := by
  constructor
  · intro h
    have hdigits := octet_digits h
    unfold octet at h
    dsimp only at h
    split_ifs at h with hlen hany hzero hbig
    have hn := Option.some.inj h
    rw [hn] at hbig
    refine ⟨by omega, ?_⟩
    unfold octetText
    rcases t with _ | ⟨a, _ | ⟨b, _ | ⟨c, _ | ⟨d, t⟩⟩⟩⟩
    · simp at hlen
    · have ha := hdigits a (by simp)
      simp only [List.foldl_cons, List.foldl_nil] at hn
      rw [if_pos (by omega)]
      congr 1
      omega
    · have ha := hdigits a (by simp)
      have hb := hdigits b (by simp)
      have : a ≠ 48 := by
        rintro rfl
        simp at hzero
      simp only [List.foldl_cons, List.foldl_nil] at hn
      rw [if_neg (by omega), if_pos (by omega)]
      simp only [List.cons.injEq, and_true]
      omega
    · have ha := hdigits a (by simp)
      have hb := hdigits b (by simp)
      have hc := hdigits c (by simp)
      have : a ≠ 48 := by
        rintro rfl
        simp at hzero
      simp only [List.foldl_cons, List.foldl_nil] at hn
      rw [if_neg (by omega), if_neg (by omega)]
      simp only [List.cons.injEq, and_true]
      omega
    · simp at hlen
  · rintro ⟨hn, rfl⟩
    exact octet_octetText n hn

theorem octets_append {t r : List ℕ} {n : ℕ} (h : octet t = some n) :
    octets (t ++ 46 :: r) = t :: octets r := by
  refine List.splitOnP_append_cons_of_forall_mem (fun c hc => ?_) 46 rfl r
  have := octet_digits h c hc
  exact beq_false_of_ne (by omega)

theorem octets_single {t : List ℕ} {n : ℕ} (h : octet t = some n) : octets t = [t] := by
  refine List.splitOnP_eq_singleton fun c hc => ?_
  have := octet_digits h c hc
  exact beq_false_of_ne (by omega)

/-- Every address has exactly one text. -/
theorem parse_eq_some {t : List ℕ} {n : ℕ} : parse t = some n ↔ n < 2 ^ 32 ∧ t = render n := by
  constructor
  · intro h
    unfold parse at h
    split at h
    · next a b c d heq =>
      obtain ⟨w, ws, hws, hw, heq⟩ := List.map_eq_cons_iff.mp heq
      obtain ⟨x, xs, rfl, hx, heq⟩ := List.map_eq_cons_iff.mp heq
      obtain ⟨y, ys, rfl, hy, heq⟩ := List.map_eq_cons_iff.mp heq
      obtain ⟨z, zs, rfl, hz, heq⟩ := List.map_eq_cons_iff.mp heq
      obtain rfl := List.map_eq_nil_iff.mp heq
      obtain ⟨ha, rfl⟩ := octet_eq_some.mp hw
      obtain ⟨hb, rfl⟩ := octet_eq_some.mp hx
      obtain ⟨hc, rfl⟩ := octet_eq_some.mp hy
      obtain ⟨hd, rfl⟩ := octet_eq_some.mp hz
      have hn := Option.some.inj h
      refine ⟨by omega, ?_⟩
      have ht : t = List.intercalate [46] (octets t) := (List.intercalate_splitOn 46).symm
      rw [ht, hws]
      simp only [List.intercalate_cons_cons, List.intercalate_singleton, List.append_assoc,
        List.singleton_append]
      unfold render
      rw [show n / 256 / 256 / 256 = a by omega, show n / 256 / 256 % 256 = b by omega,
        show n / 256 % 256 = c by omega, show n % 256 = d by omega]
    · simp at h
  · rintro ⟨hn, rfl⟩
    have ha := octet_octetText (n / 256 / 256 / 256) (by omega)
    have hb := octet_octetText (n / 256 / 256 % 256) (by omega)
    have hc := octet_octetText (n / 256 % 256) (by omega)
    have hd := octet_octetText (n % 256) (by omega)
    unfold parse render
    rw [octets_append ha, octets_append hb, octets_append hc, octets_single hd]
    simp only [List.map_cons, List.map_nil, ha, hb, hc, hd]
    congr 1
    omega

end IdenGrid.Lib.Ipv4
