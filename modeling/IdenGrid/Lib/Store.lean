import Mathlib.Data.List.Nodup
import Mathlib.Tactic.Common

/-! # Tables with a primary key

A table is a list of rows whose keys are pairwise distinct, as a field. The operations are those of
a relational store as the handlers use them: lookup by key, first row with a property, an UPDATE
(`mapRows`), writing one row back (`put`) and an INSERT, which has to be given a fresh key. -/

namespace IdenGrid.Lib.Store

variable {ρ κ : Type*} {key : ρ → κ}

/-- Rows with pairwise distinct keys. -/
structure Table (key : ρ → κ) where
  rows : List ρ
  nodup : (rows.map key).Nodup

namespace Table

/-- The empty table. -/
def empty : Table key := ⟨[], List.nodup_nil⟩

/-- The table of one row. -/
def single (r : ρ) : Table key := ⟨[r], List.nodup_singleton _⟩

/-- The first row with a property. -/
def first (t : Table key) (p : ρ → Bool) : Option ρ := t.rows.find? p

/-- An UPDATE: every row is replaced by its image, which keeps the key. -/
def mapRows (t : Table key) (f : ρ → ρ) (hf : ∀ r, key (f r) = key r) : Table key where
  rows := t.rows.map f
  nodup := by
    have : key ∘ f = key := funext hf
    rw [List.map_map, this]; exact t.nodup

/-- An INSERT of a row with a fresh key. -/
def insert (t : Table key) (r : ρ) (h : ∀ x ∈ t.rows, key x ≠ key r) : Table key where
  rows := t.rows ++ [r]
  nodup := by
    rw [List.map_append, List.nodup_append]
    refine ⟨t.nodup, by simp, ?_⟩
    intro a ha b hb
    obtain ⟨x, hx, rfl⟩ := List.mem_map.mp ha
    obtain rfl : b = key r := by simpa using hb
    exact h x hx

variable [DecidableEq κ]

/-- The row of a key. -/
def get? (t : Table key) (k : κ) : Option ρ := t.rows.find? fun r => key r = k

/-- Writing one row back. -/
def put (t : Table key) (r : ρ) : Table key :=
  t.mapRows (fun x => if key x = key r then r else x) fun x => by
    split_ifs with h
    · exact h.symm
    · rfl

/-- An update of the first row with a property, if there is one. -/
def updateFirst (t : Table key) (q : ρ → Bool) (f : ρ → ρ) : Table key :=
  match t.first q with
  | some row => t.put (f row)
  | none => t

omit [DecidableEq κ] in
theorem first_mem {t : Table key} {p : ρ → Bool} {r : ρ} (h : t.first p = some r) :
    r ∈ t.rows ∧ p r = true := ⟨List.mem_of_find?_eq_some h, List.find?_some h⟩

omit [DecidableEq κ] in
theorem mem_mapRows {t : Table key} {f : ρ → ρ} {hf : ∀ r, key (f r) = key r} {r : ρ} :
    r ∈ (t.mapRows f hf).rows ↔ ∃ x ∈ t.rows, f x = r := List.mem_map

theorem mem_put {t : Table key} {r x : ρ} (h : x ∈ (t.put r).rows) :
    x = r ∨ (x ∈ t.rows ∧ key x ≠ key r) := by
  obtain ⟨y, hy, rfl⟩ := mem_mapRows.mp h
  split_ifs with hk
  · exact Or.inl rfl
  · exact Or.inr ⟨hy, hk⟩

omit [DecidableEq κ] in
/-- Two rows of a table with the same key are the same row. -/
theorem eq_of_key {t : Table key} {x y : ρ} (hx : x ∈ t.rows) (hy : y ∈ t.rows)
    (hk : key x = key y) : x = y := List.inj_on_of_nodup_map t.nodup hx hy hk

omit [DecidableEq κ] in
/-- The only row with a property is the first one. -/
theorem first_eq_some {t : Table key} {p : ρ → Bool} {r : ρ} (hr : r ∈ t.rows) (hp : p r = true)
    (honly : ∀ x ∈ t.rows, p x = true → key x = key r) : t.first p = some r := by
  rcases hf : t.first p with _ | x
  · have := List.find?_eq_none.mp hf r hr
    exact absurd hp this
  · obtain ⟨hx, hpx⟩ := first_mem hf
    rw [eq_of_key hx hr (honly x hx hpx)]

theorem get?_eq_some {t : Table key} {k : κ} {r : ρ} :
    t.get? k = some r ↔ r ∈ t.rows ∧ key r = k := by
  constructor
  · intro h
    exact ⟨List.mem_of_find?_eq_some h, by simpa using List.find?_some h⟩
  · rintro ⟨hr, rfl⟩
    rcases hf : t.get? (key r) with _ | x
    · have := List.find?_eq_none.mp hf r hr
      simp at this
    · have hk : key x = key r := by simpa using List.find?_some hf
      rw [eq_of_key (List.mem_of_find?_eq_some hf) hr hk]

theorem get?_eq_none {t : Table key} {k : κ} : t.get? k = none ↔ ∀ r ∈ t.rows, key r ≠ k := by
  simp [get?, List.find?_eq_none]

theorem get?_mapRows {t : Table key} {f : ρ → ρ} {hf : ∀ r, key (f r) = key r} (k : κ) :
    (t.mapRows f hf).get? k = (t.get? k).map f := by
  rcases h : t.get? k with _ | r
  · rw [Option.map_none, get?_eq_none]
    intro r hr
    obtain ⟨x, hx, rfl⟩ := mem_mapRows.mp hr
    rw [hf]; exact get?_eq_none.mp h x hx
  · obtain ⟨hr, rfl⟩ := get?_eq_some.mp h
    exact get?_eq_some.mpr ⟨mem_mapRows.mpr ⟨r, hr, rfl⟩, hf r⟩

theorem get?_put_of_ne {t : Table key} {r : ρ} {k : κ} (h : k ≠ key r) :
    (t.put r).get? k = t.get? k := by
  rw [put, get?_mapRows]
  rcases hg : t.get? k with _ | x
  · rfl
  · obtain ⟨-, rfl⟩ := get?_eq_some.mp hg
    simp [h]

theorem get?_put_self {t : Table key} {r x : ρ} (h : t.get? (key r) = some x) :
    (t.put r).get? (key r) = some r := by
  rw [put, get?_mapRows, h]
  have := (get?_eq_some.mp h).2
  simp [this]

/-- The row written back is in the table, if its key was. -/
theorem mem_put_self {t : Table key} {r x : ρ} (hx : x ∈ t.rows) (hk : key r = key x) :
    r ∈ (t.put r).rows :=
  (get?_eq_some.mp (get?_put_self (get?_eq_some.mpr ⟨hx, hk.symm⟩))).1

/-! ### Agreement of two tables on the rows of a property -/

theorem filter_put {t : Table key} {r : ρ} {p : ρ → Bool}
    (h : ∀ x ∈ t.rows, key x = key r → p x = p r) :
    (t.put r).rows.filter p = (t.rows.filter p).map fun x => if key x = key r then r else x := by
  change (t.rows.map _).filter p = _
  rw [List.filter_map]
  congr 1
  refine List.filter_congr fun x hx => ?_
  by_cases hk : key x = key r
  · rw [Function.comp_apply, if_pos hk, h x hx hk]
  · rw [Function.comp_apply, if_neg hk]

omit [DecidableEq κ] in
/-- The tables have the same rows of the property, in the same order. -/
def AgreeOn (p : ρ → Bool) (t u : Table key) : Prop := t.rows.filter p = u.rows.filter p

theorem AgreeOn.put {p : ρ → Bool} {t u : Table key} (h : AgreeOn p t u) {r : ρ}
    (ht : ∀ x ∈ t.rows, key x = key r → p x = p r)
    (hu : ∀ x ∈ u.rows, key x = key r → p x = p r) : AgreeOn p (t.put r) (u.put r) := by
  rw [AgreeOn, filter_put ht, filter_put hu]
  exact congrArg _ h

/-- Writing back a row without the property changes no row that has it. -/
theorem agreeOn_put_of_not {p : ρ → Bool} {t : Table key} {r : ρ}
    (h : ∀ x ∈ t.rows, key x = key r → p x = p r) (hr : p r = false) : AgreeOn p (t.put r) t := by
  rw [AgreeOn, filter_put h]
  conv_rhs => rw [← List.map_id (List.filter p t.rows)]
  refine List.map_congr_left fun x hx => ?_
  obtain ⟨hx, hp⟩ := List.mem_filter.mp hx
  have hk : key x ≠ key r := by
    intro hk
    rw [h x hx hk, hr] at hp
    exact Bool.noConfusion hp
  rw [if_neg hk]
  rfl

omit [DecidableEq κ] in
theorem AgreeOn.first {p q : ρ → Bool} {t u : Table key} (h : AgreeOn p t u)
    (hq : ∀ r, q r = true → p r = true) : t.first q = u.first q := by
  have hfilter (l : List ρ) : l.find? q = (l.filter p).find? q := by
    have : (fun r => decide (p r = true ∧ q r = true)) = q := by
      funext r
      have := hq r
      cases hqr : q r
      · simp
      · simp [this hqr]
    rw [List.find?_filter, this]
  rw [Table.first, Table.first, hfilter t.rows, hfilter u.rows]
  exact congrArg _ h

section UpdateFirst

variable {t u : Table key} {p q : ρ → Bool} {f : ρ → ρ}

omit [DecidableEq κ] in
/-- What the update writes back has the property exactly if the row it replaces has it. -/
theorem kept_of_first {r : ρ} (hr : t.first q = some r) (hf : ∀ r, key (f r) = key r)
    (hp : ∀ r, p (f r) = p r) : ∀ x ∈ t.rows, key x = key (f r) → p x = p (f r) := by
  intro x hx hk
  rw [hp, eq_of_key hx (first_mem hr).1 (hk.trans (hf r))]

/-- An update of a row without the property changes no row that has it. -/
theorem agreeOn_updateFirst (hf : ∀ r, key (f r) = key r) (hp : ∀ r, p (f r) = p r)
    (hq : ∀ r, q r = true → p r = false) : AgreeOn p (t.updateFirst q f) t := by
  rcases hr : t.first q with _ | r
  · simp only [updateFirst, hr]
    exact rfl
  · simp only [updateFirst, hr]
    exact agreeOn_put_of_not (kept_of_first hr hf hp) ((hp r).trans (hq r (first_mem hr).2))

theorem AgreeOn.updateFirst (h : AgreeOn p t u) (hf : ∀ r, key (f r) = key r)
    (hp : ∀ r, p (f r) = p r) (hq : ∀ r, q r = true → p r = true) :
    AgreeOn p (t.updateFirst q f) (u.updateFirst q f) := by
  have hu := h.first hq
  rcases hr : t.first q with _ | r
  · simp only [Table.updateFirst, ← hu, hr]
    exact h
  · simp only [Table.updateFirst, ← hu, hr]
    exact h.put (kept_of_first hr hf hp) (kept_of_first (hu ▸ hr) hf hp)

end UpdateFirst

end Table

end IdenGrid.Lib.Store
