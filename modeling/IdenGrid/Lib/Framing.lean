import Mathlib.Algebra.Order.Ring.Nat
import Mathlib.Data.List.Basic
import Mathlib.Tactic.Common
import Mathlib.Tactic.Ring

/-! # Length-prefixed payloads

A list of byte strings is written as one, each with its length in eight bytes before it.
`frames_inj`: the list can be told from the text. -/

namespace IdenGrid.Lib.Framing

/-- `n.to_bytes(k, "big")` -/
def bigEndian : ℕ → ℕ → List ℕ
  | 0, _ => []
  | k + 1, n => bigEndian k (n / 256) ++ [n % 256]

theorem length_bigEndian : ∀ k n : ℕ, (bigEndian k n).length = k
  | 0, _ => rfl
  | k + 1, n => by rw [bigEndian, List.length_append, length_bigEndian k]; rfl

theorem bigEndian_inj : ∀ {k m n : ℕ}, m < 256 ^ k → n < 256 ^ k → bigEndian k m = bigEndian k n →
    m = n
  | 0, m, n, hm, hn, _ => by
    rw [pow_zero] at hm hn
    omega
  | k + 1, m, n, hm, hn, h => by
    have hlength := (length_bigEndian k (m / 256)).trans (length_bigEndian k (n / 256)).symm
    obtain ⟨hhigh, hlow⟩ := List.append_inj h hlength
    have hbound : 256 ^ (k + 1) = 256 ^ k * 256 := by ring
    have hdiv : m / 256 = n / 256 := bigEndian_inj (Nat.div_lt_of_lt_mul (by omega))
      (Nat.div_lt_of_lt_mul (by omega)) hhigh
    have hmod : m % 256 = n % 256 := List.singleton_inj.mp hlow
    omega

/-- The payloads, each after its length; `none` where a length needs more than eight bytes. -/
def frames : List (List ℕ) → Option (List ℕ)
  | [] => some []
  | p :: ps =>
    if p.length < 256 ^ 8 then (frames ps).map fun t => bigEndian 8 p.length ++ (p ++ t) else none

theorem frames_cons {p t : List ℕ} {ps : List (List ℕ)} (h : frames (p :: ps) = some t) :
    p.length < 256 ^ 8 ∧ ∃ u, frames ps = some u ∧ t = bigEndian 8 p.length ++ (p ++ u) := by
  rw [frames] at h
  split_ifs at h with hp
  obtain ⟨u, hu, rfl⟩ := Option.map_eq_some_iff.mp h
  exact ⟨hp, u, hu, rfl⟩

/-- **The payloads can be told from the text.** -/
theorem frames_inj : ∀ {ps qs : List (List ℕ)} {t : List ℕ}, frames ps = some t →
    frames qs = some t → ps = qs
  | [], [], _, _, _ => rfl
  | [], q :: qs, t, hp, hq => by
    obtain ⟨-, u, -, rfl⟩ := frames_cons hq
    have hlength := congrArg List.length (Option.some.inj hp)
    rw [List.length_append, length_bigEndian] at hlength
    simp only [List.length_nil] at hlength
    omega
  | p :: ps, [], t, hp, hq => by
    obtain ⟨-, u, -, rfl⟩ := frames_cons hp
    have hlength := congrArg List.length (Option.some.inj hq)
    rw [List.length_append, length_bigEndian] at hlength
    simp only [List.length_nil] at hlength
    omega
  | p :: ps, q :: qs, t, hp, hq => by
    obtain ⟨hlp, u, hu, rfl⟩ := frames_cons hp
    obtain ⟨hlq, v, hv, heq⟩ := frames_cons hq
    have hprefix := (length_bigEndian 8 p.length).trans (length_bigEndian 8 q.length).symm
    obtain ⟨hlength, hrest⟩ := List.append_inj heq hprefix
    obtain ⟨rfl, rfl⟩ := List.append_inj hrest (bigEndian_inj hlp hlq hlength)
    rw [frames_inj hu hv]

end IdenGrid.Lib.Framing
