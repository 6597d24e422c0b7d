import IdenGrid.Lib.WriteBack

/-! # References between tables

`Refers ref s key t`: every reference of a row of `s` is the key of a row of `t`, as a foreign key
would have it. A change of `t` that keeps the keys keeps it, a new row has to bring its reference
along, and with a row of `t` have to go the rows of `s` that refer to it. -/

namespace IdenGrid.Lib.References

open IdenGrid.Lib.Store IdenGrid.Lib.WriteBack

variable {σ ρ κ : Type*} {ref : σ → Option κ} {key : ρ → κ} {s s' : List σ} {t t' : List ρ}

/-- The key of every row of `t` is one of `t'`. -/
def Keeps (key : ρ → κ) (t t' : List ρ) : Prop := ∀ r ∈ t, ∃ r' ∈ t', key r' = key r

theorem Keeps.refl (t : List ρ) : Keeps key t t := fun r hr => ⟨r, hr, rfl⟩

theorem Keeps.trans {t'' : List ρ} (h : Keeps key t t') (h' : Keeps key t' t'') :
    Keeps key t t'' := by
  intro r hr
  obtain ⟨r', hr', hkey⟩ := h r hr
  obtain ⟨r'', hr'', hkey'⟩ := h' r' hr'
  exact ⟨r'', hr'', hkey'.trans hkey⟩

theorem Keeps.append (new : List ρ) : Keeps key t (t ++ new) :=
  fun r hr => ⟨r, List.mem_append_left _ hr, rfl⟩

theorem Keeps.map {f : ρ → ρ} (hf : ∀ r ∈ t, key (f r) = key r) : Keeps key t (t.map f) :=
  fun r hr => ⟨f r, List.mem_map_of_mem hr, hf r hr⟩

theorem Keeps.mapRows {t : Table key} {f : ρ → ρ} (hf : ∀ r, key (f r) = key r) :
    Keeps key t.rows (t.mapRows f hf).rows := Keeps.map fun r _ => hf r

theorem Keeps.put [DecidableEq κ] {t : Table key} (r : ρ) : Keeps key t.rows (t.put r).rows :=
  Keeps.mapRows _

/-- Every reference of a row of `s` is the key of a row of `t`. -/
def Refers (ref : σ → Option κ) (s : List σ) (key : ρ → κ) (t : List ρ) : Prop :=
  ∀ x ∈ s, ∀ k, ref x = some k → ∃ r ∈ t, key r = k

theorem Refers.nil : Refers ref [] key t := fun _ hx => absurd hx List.not_mem_nil

theorem Refers.keep (h : Refers ref s key t) (ht : Keeps key t t') : Refers ref s key t' := by
  intro x hx k hk
  obtain ⟨r, hr, rfl⟩ := h x hx k hk
  exact ht r hr

/-- Rows that refer to nothing but what other rows refer to. -/
theorem Refers.of (h : Refers ref s key t)
    (hs : ∀ x' ∈ s', ∀ k, ref x' = some k → ∃ x ∈ s, ref x = some k) : Refers ref s' key t := by
  intro x' hx' k hk
  obtain ⟨x, hx, hxk⟩ := hs x' hx' k hk
  exact h x hx k hxk

theorem Refers.subset (h : Refers ref s key t) (hs : ∀ x ∈ s', x ∈ s) : Refers ref s' key t :=
  h.of fun x hx _ hk => ⟨x, hs x hx, hk⟩

theorem Refers.map {f : σ → σ} (h : Refers ref s key t)
    (hf : ∀ x ∈ s, ref (f x) = ref x ∨ ref (f x) = none) : Refers ref (s.map f) key t := by
  refine h.of fun x' hx' k hk => ?_
  obtain ⟨x, hx, rfl⟩ := List.mem_map.mp hx'
  rcases hf x hx with hsame | hnone
  · exact ⟨x, hx, hsame.symm.trans hk⟩
  · exact absurd (hk.symm.trans hnone) (Option.some_ne_none k)

theorem Refers.append (h : Refers ref s key t) (h' : Refers ref s' key t) :
    Refers ref (s ++ s') key t := fun x hx => (List.mem_append.mp hx).elim (h x) (h' x)

theorem Refers.singleton {x : σ} (h : ∀ k, ref x = some k → ∃ r ∈ t, key r = k) :
    Refers ref [x] key t := by
  intro y hy
  obtain rfl := List.mem_singleton.mp hy
  exact h

/-- One row is written. -/
theorem Refers.put {ι : Type*} [DecidableEq ι] {own : σ → ι} {s : Table own} {x : σ}
    (h : Refers ref s.rows key t) (hx : ∀ k, ref x = some k → ∃ r ∈ t, key r = k) :
    Refers ref (s.put x).rows key t := by
  intro y hy k hk
  rcases Table.mem_put hy with rfl | ⟨hy, -⟩
  · exact hx k hk
  · exact h y hy k hk

/-- **A row goes, and what refers to it.** -/
theorem Refers.delete [DecidableEq κ] {k : κ} (h : Refers ref s key t)
    (hs : ∀ x ∈ s', x ∈ s ∧ ref x ≠ some k) :
    Refers ref s' key (t.filter fun r => key r ≠ k) := by
  intro x hx k' hk'
  obtain ⟨hmem, hne⟩ := hs x hx
  obtain ⟨r, hr, hkey⟩ := h x hmem k' hk'
  refine ⟨r, List.mem_filter.mpr ⟨hr, decide_eq_true fun hk => hne ?_⟩, hkey⟩
  rw [hk', ← hkey, hk]

theorem Refers.deleteRow [DecidableEq κ] {t : Table key} {k : κ} (h : Refers ref s key t.rows)
    (hs : ∀ x ∈ s', x ∈ s ∧ ref x ≠ some k) :
    Refers ref s' key (WriteBack.delete (fun r => key r == k) t).rows := by
  intro x hx k' hk'
  obtain ⟨r, hr, hkey⟩ := h.delete hs x hx k' hk'
  obtain ⟨hr, hne⟩ := List.mem_filter.mp hr
  exact ⟨r, mem_delete.mpr ⟨hr, beq_eq_false_iff_ne.mpr (of_decide_eq_true hne)⟩, hkey⟩

/-- The lookup of a reference. -/
theorem Refers.get? [DecidableEq κ] {t : Table key} (h : Refers ref s key t.rows) {x : σ}
    (hx : x ∈ s) {k : κ} (hk : ref x = some k) : ∃ r, t.get? k = some r := by
  obtain ⟨r, hr, hkey⟩ := h x hx k hk
  exact ⟨r, Table.get?_eq_some.mpr ⟨hr, hkey⟩⟩

end IdenGrid.Lib.References
