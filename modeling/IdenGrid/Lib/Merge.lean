import Mathlib.Data.List.Dedup
import Mathlib.Data.List.Perm.Basic
import IdenGrid.Lib.Store

/-! # Updates that merge

Updates of a state that commute and that can be repeated: the result of a sequence of them depends
only on the set of those that occur in it (`Merges.foldl_eq`). `upsert` is an update of one row of a
table, or its INSERT; `get?_foldl` takes a sequence of updates of a table apart, key by key. -/

namespace IdenGrid.Lib.Merge

open IdenGrid.Lib.Store

section Fold

variable {σ α : Type*} {f : σ → α → σ} {S : α → Prop}

/-- The updates in `S` commute, and a repetition changes nothing. -/
structure Merges (f : σ → α → σ) (S : α → Prop) : Prop where
  comm : ∀ a b, S a → S b → ∀ s, f (f s a) b = f (f s b) a
  idem : ∀ a, S a → ∀ s, f (f s a) a = f s a

theorem Merges.foldl_perm (h : Merges f S) {l l' : List α} (hl : ∀ a ∈ l, S a) (hp : l.Perm l')
    (s : σ) : l.foldl f s = l'.foldl f s :=
  hp.foldl_eq' (fun a ha b hb s => (h.comm b a (hl b hb) (hl a ha) s).symm) s

/-- An update that comes again is redundant. -/
theorem Merges.foldl_cons (h : Merges f S) {l : List α} (hl : ∀ a ∈ l, S a) {a : α} (ha : a ∈ l)
    (s : σ) : (a :: l).foldl f s = l.foldl f s := by
  classical
  have hp : l.Perm (a :: l.erase a) := List.perm_cons_erase ha
  rw [List.foldl_cons, h.foldl_perm hl hp, h.foldl_perm hl hp, List.foldl_cons, List.foldl_cons,
    h.idem a (hl a ha)]

theorem Merges.foldl_dedup [DecidableEq α] (h : Merges f S) : ∀ {l : List α}, (∀ a ∈ l, S a) →
    ∀ s, l.dedup.foldl f s = l.foldl f s
  | [], _, _ => rfl
  | a :: l, hl, s => by
    have hrest : ∀ b ∈ l, S b := fun b hb => hl b (List.mem_cons_of_mem a hb)
    by_cases ha : a ∈ l
    · rw [List.dedup_cons_of_mem ha, h.foldl_dedup hrest, h.foldl_cons hrest ha]
    · rw [List.dedup_cons_of_notMem ha, List.foldl_cons, List.foldl_cons, h.foldl_dedup hrest]

/-- **The result depends on the set of the updates only.** -/
theorem Merges.foldl_eq (h : Merges f S) {l l' : List α} (hl : ∀ a ∈ l, S a)
    (hset : ∀ a, a ∈ l ↔ a ∈ l') (s : σ) : l.foldl f s = l'.foldl f s := by
  classical
  have hl' : ∀ a ∈ l', S a := fun a ha => hl a ((hset a).mpr ha)
  have hp : l.dedup.Perm l'.dedup := by
    refine (List.perm_ext_iff_of_nodup (List.nodup_dedup l) (List.nodup_dedup l')).mpr fun a => ?_
    rw [List.mem_dedup, List.mem_dedup]
    exact hset a
  rw [← h.foldl_dedup hl, ← h.foldl_dedup hl']
  exact h.foldl_perm (fun a ha => hl a (List.mem_dedup.mp ha)) hp s

end Fold

section Table

variable {ρ κ α : Type*} {key : ρ → κ} [DecidableEq κ]

/-- The row of a key is updated, or a new one is inserted. -/
def upsert (t : Table key) (new : ρ) (f : ρ → ρ) : Table key :=
  match h : t.get? (key new) with
  | none => t.insert new (Table.get?_eq_none.mp h)
  | some old => t.put (f old)

/-- What becomes of the row of the key. -/
def upserted (old : Option ρ) (new : ρ) (f : ρ → ρ) : ρ := old.elim new f

theorem get?_upsert {t : Table key} {new : ρ} {f : ρ → ρ} (hf : ∀ r, key (f r) = key r) (k : κ) :
    (upsert t new f).get? k =
      if k = key new then some (upserted (t.get? k) new f) else t.get? k := by
  unfold upsert
  split
  · next h =>
    by_cases hk : k = key new
    · have hnew : upserted (t.get? k) new f = new := by rw [hk, h]; rfl
      rw [if_pos hk, hnew]
      exact Table.get?_eq_some.mpr
        ⟨List.mem_append_right _ (List.mem_singleton.mpr rfl), hk.symm⟩
    · rw [if_neg hk]
      rcases hold : t.get? k with _ | r
      · refine Table.get?_eq_none.mpr fun x hx => ?_
        rcases List.mem_append.mp hx with hx | hx
        · exact Table.get?_eq_none.mp hold x hx
        · obtain rfl := List.mem_singleton.mp hx
          exact Ne.symm hk
      · obtain ⟨hr, hkey⟩ := Table.get?_eq_some.mp hold
        exact Table.get?_eq_some.mpr ⟨List.mem_append_left _ hr, hkey⟩
  · next old h =>
    obtain ⟨-, hold⟩ := Table.get?_eq_some.mp h
    have hkey : key (f old) = key new := (hf old).trans hold
    by_cases hk : k = key new
    · rw [if_pos hk, hk, h, ← hkey]
      exact Table.get?_put_self (hkey ▸ h)
    · rw [if_neg hk]
      exact Table.get?_put_of_ne (hkey ▸ hk)

/-- A sequence of updates that each touch one key does to the row of a key what those do that touch
it. -/
theorem get?_foldl {update : Table key → α → Table key} {at_ : α → κ}
    {step : Option ρ → α → Option ρ}
    (h : ∀ t a k, (update t a).get? k = if k = at_ a then step (t.get? k) a else t.get? k) (k : κ) :
    ∀ (l : List α) (t : Table key),
      (l.foldl update t).get? k = (l.filter fun a => at_ a = k).foldl step (t.get? k)
  | [], _ => rfl
  | a :: l, t => by
    rw [List.foldl_cons, get?_foldl h k l, h]
    by_cases hk : k = at_ a
    · rw [if_pos hk, List.filter_cons, if_pos (decide_eq_true hk.symm), List.foldl_cons]
    · rw [if_neg hk, List.filter_cons, if_neg (by simpa using Ne.symm hk)]

end Table

end IdenGrid.Lib.Merge
