import IdenGrid.Lib.Orm
import IdenGrid.Lib.Store

/-! # Units of work on a table

What a session does to a table at its commit: it writes loaded rows back, column by column
(`writeBack`, `writeBackAll`), deletes rows (`delete`) and inserts new ones (`insert?`). The UPDATE of
a loaded row fails if the row is gone by then, an INSERT if the key is taken; a DELETE of a row that
is gone does nothing.

A table after any of these is described row by row: `writeBackAll_rows` with `flushAll`, of which
`flushAll_rel`, `flushAll_of_mem` and `flushAll_of_notMem` say what it does to one row, `mem_delete`
and `mem_insert?`. -/

namespace IdenGrid.Lib.WriteBack

open IdenGrid.Lib.Store IdenGrid.Lib.Orm

variable {ρ κ : Type*} {key : ρ → κ}

/-- How a loaded row is written over the current one: the columns that changed since the load. -/
structure Mapping (key : ρ → κ) where
  flush : ρ → ρ → ρ → ρ
  flush_key : ∀ loaded new cur, key (flush loaded new cur) = key cur
  flush_same : ∀ loaded cur, flush loaded loaded cur = cur

section Flush

variable [DecidableEq κ] (m : Mapping key)

/-- One row of the table under the write-back. -/
def flushRow (loaded new cur : ρ) : ρ :=
  if key cur = key loaded then m.flush loaded new cur else cur

theorem flushRow_key (loaded new cur : ρ) :
    key (flushRow m loaded new cur) = key cur := by
  unfold flushRow; split_ifs
  · exact m.flush_key loaded new cur
  · rfl

@[simp] theorem flushRow_same (loaded cur : ρ) : flushRow m loaded loaded cur = cur := by
  unfold flushRow; split_ifs
  · exact m.flush_same loaded cur
  · rfl

/-- The UPDATE of a loaded row, if anything changed; `none` if the row is gone. -/
def writeBack [DecidableEq ρ] (loaded new : ρ) (t : Table key) : Option (Table key) :=
  if new = loaded ∨ (t.get? (key loaded)).isSome then
    some (t.mapRows (flushRow m loaded new) (flushRow_key m loaded new))
  else none

variable {m} [DecidableEq ρ] {loaded new : ρ} {t t' : Table key}

theorem writeBack_rows (h : writeBack m loaded new t = some t') :
    t'.rows = t.rows.map (flushRow m loaded new) := by
  unfold writeBack at h
  split_ifs at h
  obtain rfl : t.mapRows (flushRow m loaded new) (flushRow_key m loaded new) = t' := by simpa using h
  rfl

theorem mem_writeBack (h : writeBack m loaded new t = some t') {x' : ρ} :
    x' ∈ t'.rows ↔ ∃ x ∈ t.rows, flushRow m loaded new x = x' := by
  rw [writeBack_rows h, List.mem_map]

/-- A row that is still there is written back. -/
theorem writeBack_isSome (new : ρ) (h : ∃ x ∈ t.rows, key x = key loaded) :
    ∃ t', writeBack m loaded new t = some t' := by
  obtain ⟨x, hx, hk⟩ := h
  have hget : t.get? (key loaded) = some x := Table.get?_eq_some.mpr ⟨hx, hk⟩
  exact ⟨_, if_pos (Or.inr (by rw [hget]; rfl))⟩

variable (m) in
/-- The UPDATEs of several loaded rows, each with its new values. -/
def writeBackAll (dirty : List (ρ × ρ)) (t : Table key) : Option (Table key) :=
  dirty.foldlM (fun t d => writeBack m d.1 d.2 t) t

omit [DecidableEq ρ] in
variable (m) in
/-- One row of the table under several write-backs. -/
def flushAll (dirty : List (ρ × ρ)) (x : ρ) : ρ :=
  dirty.foldl (fun x d => flushRow m d.1 d.2 x) x

@[simp] theorem writeBackAll_nil (t : Table key) : writeBackAll m [] t = some t := rfl

omit [DecidableEq ρ] in
@[simp] theorem flushAll_nil (x : ρ) : flushAll m [] x = x := rfl

omit [DecidableEq ρ] in
@[simp] theorem map_flushAll_nil (rows : List ρ) : rows.map (flushAll m []) = rows := List.map_id rows

omit [DecidableEq ρ] in
theorem flushAll_cons (d : ρ × ρ) (dirty : List (ρ × ρ)) (x : ρ) :
    flushAll m (d :: dirty) x = flushAll m dirty (flushRow m d.1 d.2 x) := rfl

omit [DecidableEq ρ] in
theorem flushAll_key (dirty : List (ρ × ρ)) (x : ρ) : key (flushAll m dirty x) = key x := by
  induction dirty generalizing x with
  | nil => rfl
  | cons d dirty ih => exact (ih _).trans (flushRow_key m d.1 d.2 x)

theorem writeBackAll_rows {dirty : List (ρ × ρ)} {t t' : Table key}
    (h : writeBackAll m dirty t = some t') : t'.rows = t.rows.map (flushAll m dirty) := by
  induction dirty generalizing t with
  | nil =>
    obtain rfl : t = t' := by simpa using h
    exact (List.map_id _).symm
  | cons d dirty ih =>
    simp only [writeBackAll, List.foldlM_cons, Option.bind_eq_bind, Option.bind_eq_some_iff] at h
    obtain ⟨u, hu, h⟩ := h
    rw [ih h, writeBack_rows hu, List.map_map]
    rfl

/-- Rows that are still there are written back. -/
theorem writeBackAll_isSome {dirty : List (ρ × ρ)} {t : Table key}
    (h : ∀ d ∈ dirty, ∃ x ∈ t.rows, key x = key d.1) :
    ∃ t', writeBackAll m dirty t = some t' := by
  induction dirty generalizing t with
  | nil => exact ⟨t, rfl⟩
  | cons d dirty ih =>
    obtain ⟨u, hu⟩ := writeBack_isSome (m := m) d.2 (h d List.mem_cons_self)
    have hkeys : ∀ e ∈ dirty, ∃ x ∈ u.rows, key x = key e.1 := by
      intro e he
      obtain ⟨x, hx, hk⟩ := h e (List.mem_cons_of_mem d he)
      exact ⟨_, (mem_writeBack hu).mpr ⟨x, hx, rfl⟩, (flushRow_key m d.1 d.2 x).trans hk⟩
    obtain ⟨t', ht'⟩ := ih hkeys
    refine ⟨t', ?_⟩
    simp only [writeBackAll, List.foldlM_cons, Option.bind_eq_bind, Option.bind_eq_some_iff]
    exact ⟨u, hu, ht'⟩

/-- Only a row that is still there is written back. -/
theorem mem_of_writeBackAll {dirty : List (ρ × ρ)} {t t' : Table key}
    (h : writeBackAll m dirty t = some t') {d : ρ × ρ} (hd : d ∈ dirty) (hne : d.2 ≠ d.1) :
    ∃ x ∈ t.rows, key x = key d.1 := by
  induction dirty generalizing t with
  | nil => exact absurd hd List.not_mem_nil
  | cons e dirty ih =>
    simp only [writeBackAll, List.foldlM_cons, Option.bind_eq_bind, Option.bind_eq_some_iff] at h
    obtain ⟨u, hu, h⟩ := h
    rcases List.mem_cons.mp hd with rfl | hd
    · unfold writeBack at hu
      split_ifs at hu with hkeep
      rcases hkeep with hsame | hget
      · exact absurd hsame hne
      · obtain ⟨x, hx⟩ := Option.isSome_iff_exists.mp hget
        exact ⟨x, Table.get?_eq_some.mp hx⟩
    · obtain ⟨y, hy, hk⟩ := ih h hd
      obtain ⟨x, hx, rfl⟩ := (mem_writeBack hu).mp hy
      exact ⟨x, hx, (flushRow_key m e.1 e.2 x).symm.trans hk⟩

omit [DecidableEq ρ] in
/-- What every single write-back does to a row, several of them do. -/
theorem flushAll_rel {R : ρ → ρ → Prop} (hrefl : ∀ x, R x x)
    (htrans : ∀ x y z, R x y → R y z → R x z) {dirty : List (ρ × ρ)}
    (h : ∀ d ∈ dirty, ∀ x, key x = key d.1 → R x (m.flush d.1 d.2 x)) (x : ρ) :
    R x (flushAll m dirty x) := by
  induction dirty generalizing x with
  | nil => exact hrefl x
  | cons d dirty ih =>
    have hd : R x (flushRow m d.1 d.2 x) := by
      unfold flushRow
      split_ifs with hk
      · exact h d List.mem_cons_self x hk
      · exact hrefl x
    exact htrans _ _ _ hd (ih (fun e he => h e (List.mem_cons_of_mem d he)) _)

omit [DecidableEq ρ] in
theorem flushAll_of_notMem {dirty : List (ρ × ρ)} {x : ρ}
    (h : ∀ d ∈ dirty, key d.1 ≠ key x) : flushAll m dirty x = x := by
  induction dirty with
  | nil => rfl
  | cons d dirty ih =>
    have hx : flushRow m d.1 d.2 x = x := if_neg fun hk => h d List.mem_cons_self hk.symm
    rw [flushAll_cons, hx]
    exact ih fun e he => h e (List.mem_cons_of_mem d he)

omit [DecidableEq ρ] in
/-- A column that no write-back of the row changes stays as it is. -/
theorem flushAll_unwritten {β : Type*} [DecidableEq β] {c : ρ → β}
    (hc : ∀ a b x, c (m.flush a b x) = col (c a) (c b) (c x)) {dirty : List (ρ × ρ)} {x : ρ}
    (h : ∀ d ∈ dirty, key d.1 = key x → c d.1 = c d.2) : c (flushAll m dirty x) = c x := by
  induction dirty generalizing x with
  | nil => rfl
  | cons d dirty ih =>
    have hstep : c (flushRow m d.1 d.2 x) = c x := by
      unfold flushRow
      split_ifs with hk
      · rw [hc, h d List.mem_cons_self hk.symm, col_same]
      · rfl
    rw [flushAll_cons, ih, hstep]
    intro e he hk
    exact h e (List.mem_cons_of_mem d he) (hk.trans (flushRow_key m d.1 d.2 x))

omit [DecidableEq ρ] in
/-- A column that some write-back of the row changes gets the new value of one of them. -/
theorem flushAll_written {β : Type*} [DecidableEq β] {c : ρ → β}
    (hc : ∀ a b x, c (m.flush a b x) = col (c a) (c b) (c x)) {dirty : List (ρ × ρ)} {x : ρ}
    (h : ∃ d ∈ dirty, key d.1 = key x ∧ c d.1 ≠ c d.2) :
    ∃ d ∈ dirty, key d.1 = key x ∧ c d.1 ≠ c d.2 ∧ c (flushAll m dirty x) = c d.2 := by
  induction dirty generalizing x with
  | nil =>
    obtain ⟨d, hd, -⟩ := h
    exact absurd hd List.not_mem_nil
  | cons d dirty ih =>
    have hkey : key (flushRow m d.1 d.2 x) = key x := flushRow_key m d.1 d.2 x
    by_cases hrest : ∃ e ∈ dirty, key e.1 = key x ∧ c e.1 ≠ c e.2
    · obtain ⟨e, he, hk, hne⟩ := hrest
      obtain ⟨e', he', hk', hne', heq⟩ := ih (x := flushRow m d.1 d.2 x)
        ⟨e, he, hk.trans hkey.symm, hne⟩
      exact ⟨e', List.mem_cons_of_mem d he', hk'.trans hkey, hne', heq⟩
    · push Not at hrest
      obtain ⟨e, he, hk, hne⟩ := h
      rcases List.mem_cons.mp he with rfl | he
      · refine ⟨e, List.mem_cons_self, hk, hne, ?_⟩
        rw [flushAll_cons, flushAll_unwritten hc fun d hd hkd => hrest d hd (hkd.trans hkey),
          flushRow, if_pos hk.symm, hc, col_of_ne hne.symm]
      · exact absurd (hrest e he hk) hne

omit [DecidableEq ρ] in
/-- A column after several write-backs. -/
theorem flushAll_column {β : Type*} [DecidableEq β] {c : ρ → β}
    (hc : ∀ a b x, c (m.flush a b x) = col (c a) (c b) (c x)) (dirty : List (ρ × ρ)) (x : ρ) :
    c (flushAll m dirty x) = c x ∨
      ∃ d ∈ dirty, key d.1 = key x ∧ c d.1 ≠ c d.2 ∧ c (flushAll m dirty x) = c d.2 := by
  by_cases h : ∃ d ∈ dirty, key d.1 = key x ∧ c d.1 ≠ c d.2
  · exact Or.inr (flushAll_written hc h)
  · push Not at h
    exact Or.inl (flushAll_unwritten hc h)

omit [DecidableEq ρ] in
/-- Of several write-backs of different rows, at most one is to a row. -/
theorem flushAll_of_mem {dirty : List (ρ × ρ)} (hnd : (dirty.map fun d => key d.1).Nodup)
    {d : ρ × ρ} (hd : d ∈ dirty) {x : ρ} (hk : key x = key d.1) :
    flushAll m dirty x = m.flush d.1 d.2 x := by
  induction dirty with
  | nil => exact absurd hd List.not_mem_nil
  | cons e dirty ih =>
    rw [List.map_cons, List.nodup_cons] at hnd
    rw [flushAll_cons]
    rcases List.mem_cons.mp hd with rfl | hd
    · rw [flushRow, if_pos hk]
      refine flushAll_of_notMem fun e he heq => hnd.1 (List.mem_map.mpr ⟨e, he, ?_⟩)
      rw [heq, m.flush_key, hk]
    · have hne : ¬ key x = key e.1 := fun h =>
        hnd.1 (List.mem_map.mpr ⟨d, hd, hk.symm.trans h⟩)
      rw [flushRow, if_neg hne]
      exact ih hnd.2 hd

omit [DecidableEq ρ] in
/-- **Nobody in between**: write-backs of rows that are as they were loaded put the new values in
their place, so that the table is mapped by any function that says the same. -/
theorem map_flushAll_of_current {dirty : List (ρ × ρ)} {t : Table key} {f : ρ → ρ}
    (hnd : (dirty.map fun d => key d.1).Nodup)
    (hcur : ∀ d ∈ dirty, d.1 ∈ t.rows ∧ m.flush d.1 d.2 d.1 = d.2)
    (hf : ∀ d ∈ dirty, f d.1 = d.2)
    (hid : ∀ x ∈ t.rows, (∀ d ∈ dirty, d.1 ≠ x) → f x = x) :
    t.rows.map (flushAll m dirty) = t.rows.map f := by
  refine List.map_congr_left fun x hx => ?_
  by_cases h : ∃ d ∈ dirty, d.1 = x
  · obtain ⟨d, hd, rfl⟩ := h
    rw [flushAll_of_mem hnd hd rfl, (hcur d hd).2, hf d hd]
  · push Not at h
    rw [hid x hx h, flushAll_of_notMem]
    intro d hd hk
    exact h d hd (Table.eq_of_key (hcur d hd).1 hx hk)

/-- A change of the row of one key. -/
def atKey (key : ρ → κ) (k : κ) (f : ρ → ρ) (x : ρ) : ρ := if key x = k then f x else x

omit [DecidableEq ρ] in
theorem atKey_cases (key : ρ → κ) (k : κ) (f : ρ → ρ) (x : ρ) :
    (key x ≠ k ∧ atKey key k f x = x) ∨ (key x = k ∧ atKey key k f x = f x) := by
  unfold atKey
  by_cases h : key x = k
  · exact Or.inr ⟨h, if_pos h⟩
  · exact Or.inl ⟨h, if_neg h⟩

/-- The same, of the row of a loaded row, if there is one. -/
def atRow (key : ρ → κ) (row : Option ρ) (f : ρ → ρ) (x : ρ) : ρ :=
  match row with
  | some a => atKey key (key a) f x
  | none => x

omit [DecidableEq ρ] in
@[simp] theorem atRow_some (a : ρ) (f : ρ → ρ) : atRow key (some a) f = atKey key (key a) f := rfl

omit [DecidableEq ρ] in
@[simp] theorem map_atRow_none (rows : List ρ) (f : ρ → ρ) :
    rows.map (atRow key none f) = rows := List.map_id rows

omit [DecidableEq ρ] in
theorem map_flush_of_current {t : Table key} {row : Option ρ} {f : ρ → ρ}
    (h : ∀ a ∈ row, a ∈ t.rows ∧ m.flush a (f a) a = f a) :
    t.rows.map (flushAll m (row.map fun a => (a, f a)).toList) =
      t.rows.map (atRow key row f) := by
  refine map_flushAll_of_current ?_ ?_ ?_ ?_
  · rcases row with _ | a <;> simp
  · intro d hd
    obtain ⟨a, ha, rfl⟩ : ∃ a, row = some a ∧ (a, f a) = d := by simpa using hd
    exact h a ha
  · intro d hd
    obtain ⟨a, rfl, rfl⟩ : ∃ a, row = some a ∧ (a, f a) = d := by simpa using hd
    exact if_pos rfl
  · intro x hx hne
    rcases row with _ | a
    · rfl
    · refine if_neg fun hk => hne (a, f a) (by simp) ?_
      exact Table.eq_of_key (h a rfl).1 hx hk.symm

end Flush

/-- A DELETE. -/
def delete (p : ρ → Bool) (t : Table key) : Table key where
  rows := t.rows.filter fun r => !p r
  nodup := t.nodup.sublist (List.filter_sublist.map key)

@[simp] theorem mem_delete {p : ρ → Bool} {t : Table key} {r : ρ} :
    r ∈ (delete p t).rows ↔ r ∈ t.rows ∧ p r = false := by
  simp [delete]

/-- An INSERT; `none` if the key is taken. -/
def insert? [DecidableEq κ] (r : ρ) (t : Table key) : Option (Table key) :=
  if h : ∀ x ∈ t.rows, key x ≠ key r then some (t.insert r h) else none

theorem insert?_eq_some [DecidableEq κ] {r : ρ} {t t' : Table key} (h : insert? r t = some t') :
    (∀ x ∈ t.rows, key x ≠ key r) ∧ t'.rows = t.rows ++ [r] := by
  unfold insert? at h
  split_ifs at h with hfresh
  obtain rfl : t.insert r hfresh = t' := by simpa using h
  exact ⟨hfresh, rfl⟩

theorem mem_insert? [DecidableEq κ] {r x : ρ} {t t' : Table key} (h : insert? r t = some t') :
    x ∈ t'.rows ↔ x ∈ t.rows ∨ x = r := by
  rw [(insert?_eq_some h).2, List.mem_append, List.mem_singleton]

/-- A fresh key goes in. -/
theorem insert?_isSome [DecidableEq κ] {r : ρ} {t : Table key} (h : ∀ x ∈ t.rows, key x ≠ key r) :
    ∃ t', insert? r t = some t' := ⟨_, dif_pos h⟩

end IdenGrid.Lib.WriteBack
