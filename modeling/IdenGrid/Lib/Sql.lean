import Mathlib.Data.List.Dedup
import Mathlib.Data.List.Pairwise

/-! # Uniqueness with NULL

A row gives every column a value or `none`, which is NULL. A unique index takes NULLs for distinct,
`GROUP BY` takes them for equal. `unique_generated`: a unique index over columns that are NULL in the
rows that do not count is a unique index over those that do. `duplicates_eq_zero`: a query for
duplicates finds none exactly if the index accepts the rows and no two of them agree with a NULL. -/

namespace IdenGrid.Lib.Sql

variable {κ ν : Type*}

abbrev Row (κ ν : Type*) := κ → Option ν

section

variable [DecidableEq ν]

/-- `column IN (values)`; unknown for a NULL. -/
def isIn (row : Row κ ν) (column : κ) (values : List ν) : Option Bool :=
  (row column).map fun v => decide (v ∈ values)

/-- `WHERE column IN (values)` -/
def whereIn (column : κ) (values : List ν) (rows : List (Row κ ν)) : List (Row κ ν) :=
  rows.filter fun row => isIn row column values = some true

/-- `CASE WHEN column IN (values) THEN source ELSE NULL END` -/
def caseIn (row : Row κ ν) (column : κ) (values : List ν) (source : κ) : Option ν :=
  if isIn row column values = some true then row source else none

end

/-- The columns of both rows are equal, none of them NULL. -/
def Same (columns : List κ) (a b : Row κ ν) : Prop :=
  ∀ c ∈ columns, a c ≠ none ∧ a c = b c

instance decidableSame [DecidableEq ν] (columns : List κ) (a b : Row κ ν) :
    Decidable (Same columns a b) :=
  inferInstanceAs (Decidable (∀ c ∈ columns, a c ≠ none ∧ a c = b c))

/-- They are equal for `GROUP BY`. -/
def Grouped (columns : List κ) (a b : Row κ ν) : Prop := ∀ c ∈ columns, a c = b c

/-- A unique index accepts the rows. -/
def Unique (columns : List κ) (rows : List (Row κ ν)) : Prop :=
  rows.Pairwise fun a b => ¬ Same columns a b

instance decidableUnique [DecidableEq ν] (columns : List κ) (rows : List (Row κ ν)) :
    Decidable (Unique columns rows) :=
  inferInstanceAs (Decidable (rows.Pairwise fun a b => ¬ Same columns a b))

/-- Two of the rows are related. -/
def Two (R : Row κ ν → Row κ ν → Prop) (rows : List (Row κ ν)) : Prop :=
  ∃ a b, [a, b].Sublist rows ∧ R a b

/-- Two rows that agree, with a NULL in them. -/
def NullTwins (columns : List κ) : List (Row κ ν) → Prop :=
  Two fun a b => Grouped columns a b ∧ ∃ c ∈ columns, a c = none

/-- The number of groups with several rows: `count` of
`SELECT columns … GROUP BY columns HAVING count(*) > 1`. -/
def duplicates [DecidableEq ν] (columns : List κ) (rows : List (Row κ ν)) : ℕ :=
  let keys := rows.map fun row => columns.map row
  (keys.dedup.filter fun key => 1 < keys.count key).length

variable {columns : List κ} {rows : List (Row κ ν)} {a b : Row κ ν}

theorem two_iff {R : Row κ ν → Row κ ν → Prop} : Two R rows ↔ ¬ rows.Pairwise fun a b => ¬ R a b := by
  rw [List.pairwise_iff_forall_sublist]
  constructor
  · rintro ⟨a, b, hab, hR⟩ hno
    exact hno hab hR
  · intro h
    by_contra hno
    exact h fun {a b} hab hR => hno ⟨a, b, hab, hR⟩

theorem not_unique : ¬ Unique columns rows ↔ Two (Same columns) rows := two_iff.symm

theorem grouped_iff :
    Grouped columns a b ↔ Same columns a b ∨ Grouped columns a b ∧ ∃ c ∈ columns, a c = none := by
  constructor
  · intro h
    by_cases hnull : ∃ c ∈ columns, a c = none
    · exact Or.inr ⟨h, hnull⟩
    · exact Or.inl fun c hc => ⟨fun hnone => hnull ⟨c, hc, hnone⟩, h c hc⟩
  · rintro (h | h)
    · exact fun c hc => (h c hc).2
    · exact h.1

/-- **Columns that are NULL outside the rows that count.** -/
theorem unique_generated [DecidableEq ν] {pairs : List (κ × κ)} (hpairs : pairs ≠ []) (status : κ)
    (values : List ν) (g : Row κ ν → Row κ ν)
    (hg : ∀ row, ∀ p ∈ pairs, g row p.1 = caseIn row status values p.2) :
    Unique (pairs.map Prod.fst) (rows.map g) ↔
      Unique (pairs.map Prod.snd) (whereIn status values rows) := by
  have hactive : ∀ {row : Row κ ν} {p : κ × κ}, p ∈ pairs →
      isIn row status values = some true → g row p.1 = row p.2 := fun hp hin => by
    rw [hg _ _ hp, caseIn, if_pos hin]
  have hnone : ∀ {row : Row κ ν} {p : κ × κ}, p ∈ pairs →
      g row p.1 ≠ none → isIn row status values = some true := by
    intro row p hp hne
    by_contra hin
    rw [hg _ _ hp, caseIn, if_neg hin] at hne
    exact hne rfl
  have hsame : ∀ a b : Row κ ν, Same (pairs.map Prod.fst) (g a) (g b) ↔
      isIn a status values = some true ∧ isIn b status values = some true ∧
        Same (pairs.map Prod.snd) a b := by
    intro a b
    simp only [Same, List.forall_mem_map]
    constructor
    · intro h
      obtain ⟨p, hp⟩ := List.exists_mem_of_ne_nil pairs hpairs
      have ha := hnone hp (h p hp).1
      have hb : isIn b status values = some true := hnone hp ((h p hp).2 ▸ (h p hp).1)
      refine ⟨ha, hb, fun q hq => ?_⟩
      rw [← hactive hq ha, ← hactive hq hb]
      exact h q hq
    · rintro ⟨ha, hb, h⟩ p hp
      rw [hactive hp ha, hactive hp hb]
      exact h p hp
  rw [Unique, Unique, whereIn, List.pairwise_map, List.pairwise_filter]
  refine ⟨fun h => h.imp ?_, fun h => h.imp ?_⟩
  · intro a b hno ha hb hab
    exact hno ((hsame a b).mpr ⟨of_decide_eq_true ha, of_decide_eq_true hb, hab⟩)
  · intro a b hno hab
    obtain ⟨ha, hb, hab⟩ := (hsame a b).mp hab
    exact hno (decide_eq_true ha) (decide_eq_true hb) hab

theorem duplicates_eq_zero_iff [DecidableEq ν] :
    duplicates columns rows = 0 ↔ rows.Pairwise fun a b => ¬ Grouped columns a b := by
  have hkeys : duplicates columns rows = 0 ↔ (rows.map fun row => columns.map row).Nodup := by
    rw [duplicates, List.length_eq_zero_iff, List.filter_eq_nil_iff, List.nodup_iff_count_le_one]
    constructor
    · intro h key
      by_cases hkey : key ∈ rows.map fun row => columns.map row
      · simpa using h key (List.mem_dedup.mpr hkey)
      · rw [List.count_eq_zero_of_not_mem hkey]
        omega
    · intro h key _
      simpa using h key
  rw [hkeys, List.Nodup, List.pairwise_map]
  have hne : ∀ a b : Row κ ν, columns.map a ≠ columns.map b ↔ ¬ Grouped columns a b := fun a b =>
    not_congr List.map_inj_left
  simp only [hne]

/-- **A query for duplicates and a unique index** differ by the rows that agree with a NULL. -/
theorem duplicates_eq_zero [DecidableEq ν] :
    duplicates columns rows = 0 ↔ Unique columns rows ∧ ¬ NullTwins columns rows := by
  rw [duplicates_eq_zero_iff, NullTwins, two_iff, not_not, Unique, ← List.pairwise_and_iff]
  have hsplit : ∀ a b : Row κ ν, ¬ Grouped columns a b ↔
      ¬ Same columns a b ∧ ¬ (Grouped columns a b ∧ ∃ c ∈ columns, a c = none) := fun a b => by
    rw [← not_or, ← grouped_iff]
  simp only [hsplit]

end IdenGrid.Lib.Sql
