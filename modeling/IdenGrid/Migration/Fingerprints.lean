import Mathlib.Data.List.Perm.Basic
import Mathlib.Data.List.Sort
import IdenGrid.Lib.Base64
import IdenGrid.Lib.Calendar
import IdenGrid.Lib.FloatRepr
import IdenGrid.Lib.Framing
import IdenGrid.Lib.JsonText
import IdenGrid.Lib.Results

/-! # What a fingerprint tells

`_fingerprint` on any rows: dictionaries from texts to values of the types that columns have. A row
is written as a JSON object with sorted keys, in which values that JSON does not have are tagged
objects; what is hashed is each row's text after its length.

`fingerprint_iff`: what is hashed is the same for two lists of rows exactly if they are pairwise equal
as maps of typed values, up to datetimes of one instant, provided that no text of theirs has a high
surrogate right before a low one; `surrogates_collide`: why that has to be excluded. -/

namespace IdenGrid.Migration.Fingerprints

open IdenGrid.Lib.Base64 IdenGrid.Lib.Calendar IdenGrid.Lib.FloatRepr IdenGrid.Lib.Framing
open IdenGrid.Lib IdenGrid.Lib.JsonDumps IdenGrid.Lib.JsonText IdenGrid.Lib.Results
open IdenGrid.Lib.Unicode

/-! ## Values -/

/-- A `str`: its code points, surrogates included. -/
structure Text where
  points : List ℕ
  valid : ∀ c ∈ points, c < 0x110000
  deriving DecidableEq

/-- A time of day in microseconds. -/
abbrev Clock := { clock : ℕ // clock < dayLength }

/-- The offset of a time zone in microseconds. -/
abbrev Offset := { offset : ℤ // offset.natAbs < dayLength }

structure DateTime where
  date : Date
  clock : Clock
  offset : Option Offset
  deriving DecidableEq

/-- The instant, in microseconds; a datetime without an offset is taken as UTC. -/
def DateTime.instant (d : DateTime) : ℤ :=
  ymd2ord d.date.year d.date.month d.date.day * dayLength + d.clock.1 -
    d.offset.elim 0 fun offset => offset.1

/-- A value of a row. A decimal is its text, which is ASCII. -/
inductive Value
  | none
  | bool (b : Bool)
  | int (n : ℤ)
  | float (x : Float64)
  | infinite (negative : Bool)
  | nan
  | text (t : Text)
  | bytes (b : List UInt8)
  | date (d : Date)
  | time (clock : Clock) (offset : Option Offset)
  | datetime (d : DateTime)
  | decimal (s : String)
  deriving DecidableEq

/-- A `str` without surrogates. -/
def Text.ofString (s : String) : Text := ⟨Unicode.text s, fun _ => text_lt⟩

/-- A dictionary, its items in the order of insertion. -/
structure Row where
  items : List (Text × Value)
  nodup : (items.map Prod.fst).Nodup

/-! ## The fingerprint -/

/-- `value.astimezone(UTC).isoformat(timespec="microseconds").replace("+00:00", "Z")`; `none` for an
`OverflowError`. -/
def utcText (instant : ℤ) : Option (List ℕ) :=
  let ordinal := (instant / dayLength).toNat
  if 1 ≤ ordinal ∧ ordinal ≤ maxOrdinal then
    let date := ord2ymd ordinal
    some (dateText date.1 date.2.1 date.2.2 ++
      84 :: (clockText (instant % dayLength).toNat ++ [90]))
  else none

/-- `_canonical_value`; `none` where it raises, or `dumps` at the value. -/
def canonicalValue : Value → Option (Atom Float64)
  | .datetime d => (utcText d.instant).map (.tagged (text "datetime"))
  | .date d => some (.tagged (text "date") d.isoformat)
  | .time clock offset =>
    some (.tagged (text "time") (clockText clock.1 ++ offset.elim [] fun o => offsetText o.1))
  | .bytes b => some (.tagged (text "bytes") (b64encode (b.map UInt8.toNat)))
  | .decimal s => some (.tagged (text "decimal") (text s))
  | .none => some .null
  | .bool b => some (.bool b)
  | .int n => some (.int n)
  | .float x => some (.float x)
  -- `allow_nan=False`: `dumps` raises a `ValueError` when it comes to the value.
  | .infinite _ | .nan => none
  | .text t => some (.str t.points)

/-- The items of the canonical dictionary. -/
def canonicalItems (row : Row) : Option (List (List ℕ × Atom Float64)) :=
  row.items.mapM fun item => (canonicalValue item.2).map fun value => (item.1.points, value)

/-- `canonical_row_bytes` -/
def canonicalRowBytes (row : Row) : Option (List ℕ) :=
  (canonicalItems row).bind fun items => dumpObject floatText (items.insertionSort (·.1 ≤ ·.1))

/-- What `_fingerprint` feeds to the digest; `none` where it raises. -/
def framed (rows : List Row) : Option (List ℕ) := (rows.mapM canonicalRowBytes).bind frames

/-- `_fingerprint` -/
def fingerprint (sha256 : List ℕ → List ℕ) (rows : List Row) : Option (List ℕ) :=
  (framed rows).map sha256

/-! ## Rows as maps -/

/-- Equal values of one type, or datetimes of one instant. -/
inductive Same : Value → Value → Prop
  | refl (v : Value) : Same v v
  | instant {d d' : DateTime} (h : d.instant = d'.instant) : Same (.datetime d) (.datetime d')

/-- `row.get(key)` -/
def Row.get (row : Row) (key : Text) : Option Value :=
  (row.items.find? (·.1 = key)).map Prod.snd

def SameRow (a b : Row) : Prop := ∀ key, Option.Rel Same (a.get key) (b.get key)

/-- No high surrogate stands right before a low one in a text of the row. -/
def Row.Plain (row : Row) : Prop :=
  ∀ item ∈ row.items, NoPair item.1.points ∧ ∀ t, item.2 = .text t → NoPair t.points

/-! ## Values are told apart -/

theorem utcText_inj {i j : ℤ} {t : List ℕ} (hi : utcText i = some t) (hj : utcText j = some t) :
    i = j := by
  have hday : (0 : ℤ) < dayLength := by decide
  have hclock : ∀ i : ℤ, (i % dayLength).toNat < dayLength := fun i => by
    have := Int.emod_lt_of_pos i hday
    omega
  unfold utcText at hi hj
  dsimp only at hi hj
  split_ifs at hi hj with hri hrj
  obtain ⟨hy, hm, hd⟩ := ord2ymd_lt hri.1 hri.2
  obtain ⟨hy', hm', hd'⟩ := ord2ymd_lt hrj.1 hrj.2
  obtain ⟨hsame, hrest⟩ := dateText_inj hy hm hd hy' hm' hd' (Option.some.inj (hi.trans hj.symm))
  obtain ⟨hclocks, -⟩ := clockText_inj (hclock i) (hclock j) (List.cons.inj hrest).2
  have hordinals : (i / dayLength).toNat = (j / dayLength).toNat :=
    ord2ymd_inj hri.1 hrj.1 hsame
  have hi' := Int.emod_add_mul_ediv i dayLength
  have hj' := Int.emod_add_mul_ediv j dayLength
  have hmodi := Int.emod_nonneg i hday.ne'
  have hmodj := Int.emod_nonneg j hday.ne'
  have hquotient : i / dayLength = j / dayLength := by omega
  have hremainder : i % dayLength = j % dayLength := by omega
  rw [← hi', ← hj', hquotient, hremainder]

theorem text_ext {s t : Text} (h : s.points = t.points) : s = t := by
  cases s
  cases t
  cases h
  rfl

theorem isoformat_inj {d d' : Date} (h : d.isoformat = d'.isoformat) : d = d' := by
  have hdays : ∀ leap : Bool, ∀ month < 13, daysInMonth leap month < 100 := by decide
  have hbound : ∀ d : Date, d.year < 10000 ∧ d.month < 100 ∧ d.day < 100 := fun d => by
    have := d.year_range
    have := d.month_range
    have := d.day_range
    have := hdays (isLeap d.year) d.month (by omega)
    omega
  obtain ⟨hy, hm, hd⟩ := hbound d
  obtain ⟨hy', hm', hd'⟩ := hbound d'
  obtain ⟨hsame, -⟩ := dateText_inj (r := []) (s := []) hy hm hd hy' hm' hd'
    ((List.append_nil _).trans (h.trans (List.append_nil _).symm))
  obtain ⟨y, m, d, _, _, _⟩ := d
  obtain ⟨y', m', d', _, _, _⟩ := d'
  simp only [Prod.mk.injEq] at hsame
  obtain ⟨rfl, rfl, rfl⟩ := hsame
  rfl

theorem time_inj {c c' : Clock} {o o' : Option Offset}
    (h : clockText c.1 ++ (o.elim [] fun o => offsetText o.1) =
      clockText c'.1 ++ o'.elim [] fun o => offsetText o.1) : c = c' ∧ o = o' := by
  obtain ⟨hclock, hoffset⟩ := clockText_inj c.2 c'.2 h
  refine ⟨Subtype.ext hclock, ?_⟩
  rcases o with _ | o <;> rcases o' with _ | o'
  · rfl
  · cases hoffset
  · cases hoffset
  · rw [Subtype.ext (offsetText_inj o.2 o'.2 hoffset)]

theorem bytes_inj {b b' : List UInt8}
    (h : b64encode (b.map UInt8.toNat) = b64encode (b'.map UInt8.toNat)) : b = b' := by
  have hbyte : ∀ b : List UInt8, ∀ n ∈ b.map UInt8.toNat, n < 256 := fun b n hn => by
    obtain ⟨x, -, rfl⟩ := List.mem_map.mp hn
    exact x.toNat_lt
  have hread := b64decode_b64encode (hbyte b)
  rw [h, b64decode_b64encode (hbyte b')] at hread
  exact List.map_injective_iff.mpr (fun x y hxy => UInt8.toNat_inj.mp hxy)
    (Option.some.inj hread).symm

/-- The tag of a value that JSON does not have. -/
def tag : Value → Option String
  | .datetime _ => some "datetime"
  | .date _ => some "date"
  | .time _ _ => some "time"
  | .bytes _ => some "bytes"
  | .decimal _ => some "decimal"
  | _ => none

theorem canonicalValue_tag {v : Value} {a : Atom Float64} (h : canonicalValue v = some a) :
    tag v = none ∧ (∀ t w, a ≠ .tagged t w) ∨ ∃ t w, tag v = some t ∧ a = .tagged (text t) w := by
  cases v with
  | datetime d =>
    obtain ⟨w, -, rfl⟩ := Option.map_eq_some_iff.mp h
    exact .inr ⟨_, _, rfl, rfl⟩
  | date | time | bytes | decimal =>
    obtain rfl := Option.some.inj h
    exact .inr ⟨_, _, rfl, rfl⟩
  | none | bool | int | float | text =>
    obtain rfl := Option.some.inj h
    exact .inl ⟨rfl, fun _ _ ht => by cases ht⟩
  | infinite | nan => cases h

/-- **Values that are written alike are the same**, up to the instant of a datetime. -/
theorem same_of_canonicalValue {v w : Value} {a : Atom Float64} (hv : canonicalValue v = some a)
    (hw : canonicalValue w = some a) : Same v w := by
  have htag : tag v = tag w := by
    rcases canonicalValue_tag hv with ⟨htv, hno⟩ | ⟨t, x, htv, rfl⟩ <;>
      rcases canonicalValue_tag hw with ⟨htw, hno'⟩ | ⟨t', x', htw, ha⟩
    · rw [htv, htw]
    · exact absurd ha (hno _ _)
    · exact absurd rfl (hno' _ _)
    · rw [htv, htw, text_injective (Atom.tagged.inj ha).1]
  cases v <;> cases w <;>
    first | (simp [tag] at htag; done) | (cases hv; done) | (cases hw; done) | skip
  case datetime.datetime d d' =>
    obtain ⟨t, ht, rfl⟩ := Option.map_eq_some_iff.mp hv
    obtain ⟨t', ht', hsame⟩ := Option.map_eq_some_iff.mp hw
    rw [(Atom.tagged.inj hsame).2] at ht'
    exact .instant (utcText_inj ht ht')
  all_goals have h := Option.some.inj (hv.trans hw.symm)
  case none.none => exact .refl _
  case bool.bool => rw [Atom.bool.inj h]; exact .refl _
  case int.int => rw [Atom.int.inj h]; exact .refl _
  case float.float => rw [Atom.float.inj h]; exact .refl _
  case text.text => rw [text_ext (Atom.str.inj h)]; exact .refl _
  case bytes.bytes => rw [bytes_inj (Atom.tagged.inj h).2]; exact .refl _
  case date.date => rw [isoformat_inj (Atom.tagged.inj h).2]; exact .refl _
  case time.time =>
    obtain ⟨rfl, rfl⟩ := time_inj (Atom.tagged.inj h).2
    exact .refl _
  case decimal.decimal => rw [text_injective (Atom.tagged.inj h).2]; exact .refl _
  all_goals cases h

theorem canonicalValue_same {v w : Value} (h : Same v w) : canonicalValue v = canonicalValue w := by
  cases h with
  | refl => rfl
  | instant h => simp only [canonicalValue, h]

theorem utcText_lt {i : ℤ} {t : List ℕ} (h : utcText i = some t) : ∀ c ∈ t, c < 0x80 := by
  unfold utcText at h
  dsimp only at h
  split_ifs at h
  obtain rfl := Option.some.inj h
  intro c hc
  simp only [List.mem_append, List.mem_cons, List.not_mem_nil, or_false] at hc
  rcases hc with hc | rfl | hc | rfl
  · exact dateText_lt _ _ _ c hc
  · decide
  · exact clockText_lt _ c hc
  · decide

theorem canonicalValue_plain {v : Value} {a : Atom Float64} (h : canonicalValue v = some a)
    (hplain : ∀ t, v = .text t → NoPair t.points) : a.Plain := by
  cases v with
  | datetime d =>
    obtain ⟨t, ht, rfl⟩ := Option.map_eq_some_iff.mp h
    exact ⟨noPair_text _, noPair_of_ascii (utcText_lt ht)⟩
  | none | bool | int | float =>
    obtain rfl := Option.some.inj h
    trivial
  | infinite | nan => cases h
  | text t =>
    obtain rfl := Option.some.inj h
    exact hplain t rfl
  | bytes b =>
    obtain rfl := Option.some.inj h
    exact ⟨noPair_text _, noPair_of_ascii (b64encode_lt _)⟩
  | date d =>
    obtain rfl := Option.some.inj h
    exact ⟨noPair_text _, noPair_of_ascii (dateText_lt _ _ _)⟩
  | decimal s =>
    obtain rfl := Option.some.inj h
    exact ⟨noPair_text _, noPair_text _⟩
  | time clock offset =>
    obtain rfl := Option.some.inj h
    refine ⟨noPair_text _, noPair_of_ascii fun c hc => ?_⟩
    rcases List.mem_append.mp hc with hc | hc
    · exact clockText_lt _ c hc
    · rcases offset with _ | offset
      · cases hc
      · exact offsetText_lt _ c hc

/-! ## Rows are told apart -/

theorem Row.get_eq_some {row : Row} {key : Text} {v : Value} :
    row.get key = some v ↔ (key, v) ∈ row.items := by
  unfold Row.get
  constructor
  · intro h
    obtain ⟨⟨key', w⟩, hfind, rfl⟩ := Option.map_eq_some_iff.mp h
    have hkey := List.find?_some hfind
    simp only [decide_eq_true_eq] at hkey
    subst hkey
    exact List.mem_of_find?_eq_some hfind
  · intro h
    rcases hfind : row.items.find? (·.1 = key) with _ | ⟨key', w⟩
    · have := List.find?_eq_none.mp hfind _ h
      simp at this
    · have hkey := List.find?_some hfind
      simp only [decide_eq_true_eq] at hkey
      subst hkey
      have hsame := List.inj_on_of_nodup_map row.nodup (List.mem_of_find?_eq_some hfind) h rfl
      rw [hfind, Option.map_some, (Prod.mk.inj hsame).2]

/-- The canonical items are the values of the keys. -/
theorem mem_canonicalItems {row : Row} {items : List (List ℕ × Atom Float64)}
    (h : canonicalItems row = some items) {m : List ℕ × Atom Float64} :
    m ∈ items ↔
      ∃ key v, row.get key = some v ∧ key.points = m.1 ∧ canonicalValue v = some m.2 := by
  rw [← (mapM_eq_some.mp h).2, List.mem_filterMap]
  constructor
  · rintro ⟨⟨key, v⟩, hmem, hm⟩
    obtain ⟨a, ha, rfl⟩ := Option.map_eq_some_iff.mp hm
    exact ⟨key, v, Row.get_eq_some.mpr hmem, rfl, ha⟩
  · rintro ⟨key, v, hget, hkey, hv⟩
    exact ⟨(key, v), Row.get_eq_some.mp hget, by rw [hv, Option.map_some, hkey]⟩

theorem canonicalValue_ne_none {row : Row} {items : List (List ℕ × Atom Float64)}
    (h : canonicalItems row = some items) {key : Text} {v : Value} (hget : row.get key = some v) :
    ∃ a, canonicalValue v = some a := by
  have hitem := (mapM_eq_some.mp h).1 _ (Row.get_eq_some.mp hget)
  rcases hv : canonicalValue v with _ | a
  · rw [hv] at hitem
    exact absurd rfl hitem
  · exact ⟨a, rfl⟩

/-- A dictionary with equal items has the same value for each key. -/
theorem same_get {a b : Row} {as bs : List (List ℕ × Atom Float64)}
    (ha : canonicalItems a = some as) (hb : canonicalItems b = some bs)
    (hsub : ∀ m ∈ as, m ∈ bs) {key : Text} {v : Value} (hget : a.get key = some v) :
    ∃ w, b.get key = some w ∧ Same v w := by
  obtain ⟨x, hx⟩ := canonicalValue_ne_none ha hget
  obtain ⟨key', w, hw, hkey, hxw⟩ :=
    (mem_canonicalItems hb).mp (hsub (key.points, x)
      ((mem_canonicalItems ha).mpr ⟨key, v, hget, rfl, hx⟩))
  rw [text_ext hkey] at hw
  exact ⟨w, hw, same_of_canonicalValue hx hxw⟩

theorem same_symm {v w : Value} (h : Same v w) : Same w v := by
  cases h with
  | refl => exact .refl _
  | instant h => exact .instant h.symm

theorem sameRow_symm {a b : Row} (h : SameRow a b) : SameRow b a := fun key => by
  have hkey := h key
  rcases ha : a.get key with _ | v <;> rcases hb : b.get key with _ | w <;>
    rw [ha, hb] at hkey <;> cases hkey
  · exact .none
  · exact .some (same_symm ‹_›)

theorem sameRow_of_items {a b : Row} {as bs : List (List ℕ × Atom Float64)}
    (ha : canonicalItems a = some as) (hb : canonicalItems b = some bs) (h : as.Perm bs) :
    SameRow a b := fun key => by
  rcases hget : a.get key with _ | v
  · rcases hget' : b.get key with _ | w
    · exact .none
    · obtain ⟨v, hv, -⟩ := same_get hb ha (fun m => h.mem_iff.mpr) hget'
      rw [hget] at hv
      cases hv
  · obtain ⟨w, hw, hsame⟩ := same_get ha hb (fun m => h.mem_iff.mp) hget
    rw [hw]
    exact .some hsame

theorem sameRow_some {a b : Row} (h : SameRow a b) {key : Text} {v : Value}
    (hget : a.get key = some v) : ∃ w, b.get key = some w ∧ Same v w := by
  have hkey := h key
  rw [hget] at hkey
  rcases hb : b.get key with _ | w <;> rw [hb] at hkey <;> cases hkey
  exact ⟨w, rfl, ‹_›⟩

theorem nodup_keys {row : Row} {items : List (List ℕ × Atom Float64)}
    (h : canonicalItems row = some items) : (items.map Prod.fst).Nodup := by
  have hkeys : ∀ {l : List (Text × Value)} {ms : List (List ℕ × Atom Float64)},
      (l.mapM fun item => (canonicalValue item.2).map fun value => (item.1.points, value)) =
        some ms → ms.map Prod.fst = (l.map Prod.fst).map Text.points := by
    intro l
    induction l with
    | nil =>
      intro ms hms
      obtain rfl := Option.some.inj hms
      rfl
    | cons item l ih =>
      intro ms hms
      obtain ⟨m, ns, hm, hns, rfl⟩ := mapM_cons_eq_some.mp hms
      obtain ⟨a, -, rfl⟩ := Option.map_eq_some_iff.mp hm
      rw [List.map_cons, ih hns]
      rfl
  rw [hkeys h]
  exact row.nodup.map fun _ _ => text_ext

theorem items_of_sameRow {a b : Row} {as : List (List ℕ × Atom Float64)}
    (ha : canonicalItems a = some as) (h : SameRow a b) :
    ∃ bs, canonicalItems b = some bs ∧ as.Perm bs := by
  have hdefined : ∀ item ∈ b.items,
      ((canonicalValue item.2).map fun value => (item.1.points, value)) ≠ none := by
    rintro ⟨key, w⟩ hmem
    obtain ⟨v, hv, hsame⟩ := sameRow_some (sameRow_symm h) (Row.get_eq_some.mpr hmem)
    obtain ⟨x, hx⟩ := canonicalValue_ne_none ha hv
    simp [canonicalValue_same hsame, hx]
  obtain ⟨bs, hb⟩ : ∃ bs, canonicalItems b = some bs := ⟨_, mapM_eq_some.mpr ⟨hdefined, rfl⟩⟩
  have hsub : ∀ {a b : Row} {as bs : List (List ℕ × Atom Float64)},
      canonicalItems a = some as → canonicalItems b = some bs → SameRow a b →
        ∀ m ∈ as, m ∈ bs := by
    intro a b as bs ha hb h m hm
    obtain ⟨key, v, hget, hkey, hv⟩ := (mem_canonicalItems ha).mp hm
    obtain ⟨w, hw, hsame⟩ := sameRow_some h hget
    exact (mem_canonicalItems hb).mpr ⟨key, w, hw, hkey, canonicalValue_same hsame ▸ hv⟩
  refine ⟨bs, hb, (List.perm_ext_iff_of_nodup (nodup_keys ha).of_map (nodup_keys hb).of_map).mpr ?_⟩
  exact fun m => ⟨hsub ha hb h m, hsub hb ha (sameRow_symm h) m⟩

/-- The order of insertion is lost. -/
theorem sorted_eq_iff {as bs : List (List ℕ × Atom Float64)} (h : (as.map Prod.fst).Nodup) :
    as.insertionSort (·.1 ≤ ·.1) = bs.insertionSort (·.1 ≤ ·.1) ↔ as.Perm bs := by
  have hsorted : ∀ l : List (List ℕ × Atom Float64),
      (l.insertionSort (·.1 ≤ ·.1)).Pairwise (·.1 ≤ ·.1) := fun l =>
    haveI : Std.Total (fun m n : List ℕ × Atom Float64 => m.1 ≤ n.1) := ⟨fun m n => le_total m.1 n.1⟩
    haveI : IsTrans (List ℕ × Atom Float64) (fun m n => m.1 ≤ n.1) :=
      ⟨fun _ _ _ => le_trans⟩
    List.pairwise_insertionSort _ l
  have hperm := fun l : List (List ℕ × Atom Float64) => List.perm_insertionSort (·.1 ≤ ·.1) l
  constructor
  · exact fun heq => (hperm as).symm.trans (heq ▸ hperm bs)
  · intro hab
    have hsame := (hperm as).trans (hab.trans (hperm bs).symm)
    refine List.Perm.eq_of_pairwise (fun m n hm hn hle hle' => ?_) (hsorted as) (hsorted bs) hsame
    have hm' : m ∈ as := (hperm as).mem_iff.mp hm
    have hn' : n ∈ as := (hperm as).mem_iff.mp (hsame.mem_iff.mpr hn)
    exact List.inj_on_of_nodup_map h hm' hn' (le_antisymm hle hle')

theorem canonicalItems_plain {row : Row} {items : List (List ℕ × Atom Float64)}
    (h : canonicalItems row = some items) (hplain : row.Plain) : ∀ m ∈ items, PlainEntry m := by
  intro m hm
  obtain ⟨key, v, hget, hkey, hv⟩ := (mem_canonicalItems h).mp hm
  obtain ⟨hk, ht⟩ := hplain _ (Row.get_eq_some.mp hget)
  exact ⟨hkey ▸ hk, canonicalValue_plain hv ht⟩

/-- **Rows that are written alike are the same maps.** -/
theorem canonicalRowBytes_iff {a b : Row} (hplain : a.Plain) (hplain' : b.Plain) {x : List ℕ}
    (h : canonicalRowBytes a = some x) : canonicalRowBytes b = some x ↔ SameRow a b := by
  obtain ⟨as, ha, hx⟩ := Option.bind_eq_some_iff.mp h
  have hsort := fun l : List (List ℕ × Atom Float64) => List.perm_insertionSort (·.1 ≤ ·.1) l
  constructor
  · intro hb
    obtain ⟨bs, hb, hx'⟩ := Option.bind_eq_some_iff.mp hb
    refine sameRow_of_items ha hb ((sorted_eq_iff (nodup_keys ha)).mp ?_)
    exact dumpObject_inj (fun m hm => canonicalItems_plain ha hplain m ((hsort as).mem_iff.mp hm))
      (fun m hm => canonicalItems_plain hb hplain' m ((hsort bs).mem_iff.mp hm)) hx hx'
  · intro hsame
    obtain ⟨bs, hb, hperm⟩ := items_of_sameRow ha hsame
    rw [canonicalRowBytes, hb, Option.bind_some, ← (sorted_eq_iff (nodup_keys ha)).mpr hperm, hx]

/-! ## Tables are told apart -/

theorem mapM_canonicalRowBytes_iff : ∀ {rows rows' : List Row} {ps : List (List ℕ)},
    (∀ r ∈ rows, r.Plain) → (∀ r ∈ rows', r.Plain) → rows.mapM canonicalRowBytes = some ps →
      (rows'.mapM canonicalRowBytes = some ps ↔ List.Forall₂ SameRow rows rows')
  | [], [], ps, _, _, h => ⟨fun _ => .nil, fun _ => h⟩
  | [], r' :: rows', ps, _, _, h => by
    obtain rfl := Option.some.inj h
    refine ⟨fun h' => ?_, fun h' => by cases h'⟩
    obtain ⟨_, _, -, -, hcons⟩ := mapM_cons_eq_some.mp h'
    cases hcons
  | r :: rows, [], ps, _, _, h => by
    obtain ⟨p, qs, -, -, rfl⟩ := mapM_cons_eq_some.mp h
    refine ⟨fun h' => ?_, fun h' => by cases h'⟩
    cases Option.some.inj h'
  | r :: rows, r' :: rows', ps, hplain, hplain', h => by
    obtain ⟨hr, hrows⟩ := List.forall_mem_cons.mp hplain
    obtain ⟨hr', hrows'⟩ := List.forall_mem_cons.mp hplain'
    obtain ⟨p, qs, hp, hqs, rfl⟩ := mapM_cons_eq_some.mp h
    rw [mapM_cons_eq_some, List.forall₂_cons, ← canonicalRowBytes_iff hr hr' hp,
      ← mapM_canonicalRowBytes_iff hrows hrows' hqs]
    constructor
    · rintro ⟨_, _, hp', hqs', hcons⟩
      obtain ⟨rfl, rfl⟩ := List.cons.inj hcons
      exact ⟨hp', hqs'⟩
    · rintro ⟨hp', hqs'⟩
      exact ⟨p, qs, hp', hqs', rfl⟩

/-- **Fingerprints tell tables apart.** Two tables, none of whose texts has a high surrogate right
before a low one, are hashed from the same bytes exactly if their rows are pairwise the same maps. -/
theorem fingerprint_iff (rows rows' : List Row) (hplain : ∀ r ∈ rows, r.Plain)
    (hplain' : ∀ r ∈ rows', r.Plain) (s : List ℕ) (h : framed rows = some s) :
    framed rows' = some s ↔ List.Forall₂ SameRow rows rows' := by
  obtain ⟨ps, hps, hs⟩ := Option.bind_eq_some_iff.mp h
  rw [← mapM_canonicalRowBytes_iff hplain hplain' hps]
  constructor
  · intro h'
    obtain ⟨qs, hqs, hs'⟩ := Option.bind_eq_some_iff.mp h'
    rwa [frames_inj hs hs']
  · intro h'
    rw [framed, h', Option.bind_some, hs]

/-- An hour of 2 January 2026, and the hours that its time zone is ahead of UTC. -/
def seenAt (hour offset : ℕ) (hclock : hour * Calendar.hour < dayLength)
    (hoffset : (offset * Calendar.hour : ℤ).natAbs < dayLength) : Text × Value :=
  (⟨[116], by decide⟩, .datetime ⟨⟨2026, 1, 2, by decide, by decide, by decide⟩, ⟨_, hclock⟩,
    some ⟨_, hoffset⟩⟩)

def faceText : Text × Value := (⟨[115], by decide⟩, .text ⟨[0x1F600], by decide⟩)

def sampleRow : Row := ⟨[faceText, seenAt 3 0 (by decide) (by decide)], by decide⟩

/-- The same row in another order, with the instant in another time zone. -/
def movedRow : Row := ⟨[seenAt 5 2 (by decide) (by decide), faceText], by decide⟩

theorem plain_seenAt (hour offset : ℕ) (hclock : hour * Calendar.hour < dayLength)
    (hoffset : (offset * Calendar.hour : ℤ).natAbs < dayLength) :
    NoPair (seenAt hour offset hclock hoffset).1.points ∧
      ∀ t, (seenAt hour offset hclock hoffset).2 = .text t → NoPair t.points :=
  ⟨noPair_of_ascii (by simp [seenAt]), fun _ ht => by cases ht⟩

theorem plain_faceText :
    NoPair faceText.1.points ∧ ∀ t, faceText.2 = .text t → NoPair t.points := by
  refine ⟨noPair_of_scalar (by decide), fun t ht => ?_⟩
  cases ht
  exact noPair_of_scalar (by decide)

theorem fingerprint_of_moved :
    (framed [sampleRow]).isSome = true ∧ List.Forall₂ SameRow [sampleRow] [movedRow] := by
  obtain ⟨s, hs⟩ : ∃ s, framed [sampleRow] = some s :=
    Option.isSome_iff_exists.mp (by decide +kernel)
  have hmoved : framed [movedRow] = framed [sampleRow] := by decide +kernel
  refine ⟨by rw [hs]; rfl, (fingerprint_iff _ _ ?_ ?_ s hs).mp (hmoved.trans hs)⟩
  · exact List.forall_mem_singleton.mpr (List.forall_mem_cons.mpr
      ⟨plain_faceText, List.forall_mem_singleton.mpr (plain_seenAt _ _ _ _)⟩)
  · exact List.forall_mem_singleton.mpr (List.forall_mem_cons.mpr
      ⟨plain_seenAt _ _ _ _, List.forall_mem_singleton.mpr plain_faceText⟩)

/-- A row with one text. -/
def textRow (points : List ℕ) (h : ∀ c ∈ points, c < 0x110000) : Row :=
  ⟨[(⟨[115], by decide⟩, .text ⟨points, h⟩)], List.nodup_singleton _⟩

/-- Two surrogates are written as the character that they stand for in UTF-16. -/
theorem surrogates_collide :
    framed [textRow [0xD800, 0xDC00] (by decide)] = framed [textRow [0x10000] (by decide)] ∧
      (framed [textRow [0x10000] (by decide)]).isSome = true ∧
      ¬ List.Forall₂ SameRow [textRow [0xD800, 0xDC00] (by decide)]
        [textRow [0x10000] (by decide)] := by
  refine ⟨by decide +kernel, by decide +kernel, fun h => ?_⟩
  obtain ⟨w, hw, hsame⟩ := sameRow_some (List.forall₂_cons.mp h).1
    (Row.get_eq_some.mpr List.mem_cons_self)
  cases Option.some.inj hw
  cases hsame

end IdenGrid.Migration.Fingerprints
