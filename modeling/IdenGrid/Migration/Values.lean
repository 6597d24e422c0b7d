import IdenGrid.Lib.Sql
import IdenGrid.Migration.Fingerprints

/-! # Columns and their fingerprints

The rows of a table give each column a value or NULL. `_fingerprint` is taken of the selected columns
of the rows, each as a dictionary from the names to the values.

`framed_inj`: before they are hashed, the rows can be told from the text, except that a datetime
without an offset is the same as one in UTC. The texts of a database have no surrogates. -/

namespace IdenGrid.Migration.Values

open IdenGrid.Lib IdenGrid.Lib.FloatRepr IdenGrid.Lib.Framing IdenGrid.Lib.JsonDumps
open IdenGrid.Lib.Sql
open IdenGrid.Migration.Fingerprints

/-- A value of a column other than NULL. -/
inductive Value
  | bool (b : Bool)
  | int (n : ℤ)
  | float (x : Float64)
  | infinite (negative : Bool)
  | text (s : String)
  | bytes (b : List UInt8)
  | date (d : Calendar.Date)
  | time (clock : Clock) (offset : Option Offset)
  | datetime (d : DateTime)
  | decimal (s : String)
  deriving DecidableEq

/-- What a driver gives for a value. -/
def driverValue : Option Value → Fingerprints.Value
  | none => .none
  | some (.bool b) => .bool b
  | some (.int n) => .int n
  | some (.float x) => .float x
  | some (.infinite negative) => .infinite negative
  | some (.text s) => .text (.ofString s)
  | some (.bytes b) => .bytes b
  | some (.date d) => .date d
  | some (.time clock offset) => .time clock offset
  | some (.datetime d) => .datetime d
  | some (.decimal s) => .decimal s

theorem ofString_injective : Function.Injective Text.ofString := fun _ _ h =>
  Unicode.text_injective (congrArg Text.points h)

/-- `dict(row)` of these columns. -/
def dictionary (columns : List String) (row : Row String Value) : Fingerprints.Row where
  items := columns.dedup.map fun c => (.ofString c, driverValue (row c))
  nodup := by
    rw [List.map_map]
    exact (List.nodup_dedup columns).map ofString_injective

/-- What `_fingerprint` feeds to the digest; `none` where it raises. -/
def framed (columns : List String) (rows : List (Row String Value)) : Option (List ℕ) :=
  Fingerprints.framed (rows.map (dictionary columns))

/-- `_fingerprint` -/
def fingerprint (sha256 : List ℕ → List ℕ) (columns : List String) (rows : List (Row String Value)) :
    Option (List ℕ) :=
  Fingerprints.fingerprint sha256 (rows.map (dictionary columns))

/-- Two rows have the same values in these columns, or datetimes of one instant. -/
def SameRow (columns : List String) (a b : Row String Value) : Prop :=
  ∀ c ∈ columns, Fingerprints.Same (driverValue (a c)) (driverValue (b c))

variable {columns : List String}

theorem dictionary_plain (row : Row String Value) : (dictionary columns row).Plain := by
  intro item hitem
  obtain ⟨c, -, rfl⟩ := List.mem_map.mp hitem
  refine ⟨noPair_text c, fun t ht => ?_⟩
  rcases hv : row c with _ | v
  · simp [hv, driverValue] at ht
  · cases v <;> simp only [hv, driverValue] at ht <;> cases ht
    exact noPair_text _

theorem get_dictionary {row : Row String Value} {c : String} (hc : c ∈ columns) :
    (dictionary columns row).get (.ofString c) = some (driverValue (row c)) :=
  Row.get_eq_some.mpr (List.mem_map.mpr ⟨c, List.mem_dedup.mpr hc, rfl⟩)

theorem sameRow_of_dictionary {a b : Row String Value}
    (h : Fingerprints.SameRow (dictionary columns a) (dictionary columns b)) :
    SameRow columns a b := by
  intro c hc
  obtain ⟨w, hw, hsame⟩ := sameRow_some h (get_dictionary hc)
  rw [get_dictionary hc] at hw
  rwa [Option.some.inj hw]

/-- **What is hashed tells the rows.** -/
theorem framed_inj {rows rows' : List (Row String Value)} {t : List ℕ}
    (h : framed columns rows = some t) (h' : framed columns rows' = some t) :
    List.Forall₂ (SameRow columns) rows rows' := by
  have hplain : ∀ rows : List (Row String Value), ∀ r ∈ rows.map (dictionary columns), r.Plain := by
    intro rows r hr
    obtain ⟨row, -, rfl⟩ := List.mem_map.mp hr
    exact dictionary_plain row
  obtain ⟨ps, hps, ht⟩ := Option.bind_eq_some_iff.mp h
  obtain ⟨qs, hqs, ht'⟩ := Option.bind_eq_some_iff.mp h'
  obtain rfl := frames_inj ht ht'
  have hsame := (mapM_canonicalRowBytes_iff (hplain rows) (hplain rows') hps).mp hqs
  rw [List.forall₂_map_left_iff, List.forall₂_map_right_iff] at hsame
  exact hsame.imp fun _ _ => sameRow_of_dictionary

end IdenGrid.Migration.Values
