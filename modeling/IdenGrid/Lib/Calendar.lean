import Mathlib.Data.List.Basic
import Mathlib.Tactic.Common
import Mathlib.Tactic.Ring

/-! # Dates, times and their texts in ISO format

Dates of the proleptic Gregorian calendar from year 1 to 9999, times of day in microseconds, and
offsets from UTC of less than a day. `ymd2ord` and `ord2ymd` convert between a date and its number,
counted from 1 January of year 1.

`ymd2ord_ord2ymd`: the number of a date that was found by its number. `utcText_inj`, `timeText_inj`
and `dateText_inj`: what is written can be told from its text. -/

namespace IdenGrid.Lib.Calendar

/-! ## The calendar -/

def isLeap (year : ℕ) : Bool := year % 4 == 0 && (year % 100 != 0 || year % 400 == 0)

/-- The days of a year before the month. -/
def daysBeforeMonth (leap : Bool) (month : ℕ) : ℕ :=
  [0, 0, 31, 59, 90, 120, 151, 181, 212, 243, 273, 304, 334].getD month 0 +
    if 2 < month ∧ leap then 1 else 0

def daysInMonth (leap : Bool) (month : ℕ) : ℕ :=
  if month = 2 ∧ leap then 29 else [0, 31, 28, 31, 30, 31, 30, 31, 31, 30, 31, 30, 31].getD month 0

/-- The days before 1 January of the year. -/
def daysBeforeYear (year : ℕ) : ℕ :=
  (year - 1) * 365 + (year - 1) / 4 - (year - 1) / 100 + (year - 1) / 400

structure Date where
  year : ℕ
  month : ℕ
  day : ℕ
  year_range : 1 ≤ year ∧ year ≤ 9999
  month_range : 1 ≤ month ∧ month ≤ 12
  day_range : 1 ≤ day ∧ day ≤ daysInMonth (isLeap year) month
  deriving DecidableEq

/-- The number of a date. -/
def ymd2ord (year month day : ℕ) : ℕ :=
  daysBeforeYear year + daysBeforeMonth (isLeap year) month + day

/-- The number of 31 December 9999. -/
def maxOrdinal : ℕ := 3652059

/-- Month and day of a day of the year, counted from zero. -/
def monthDay (leap : Bool) (n : ℕ) : ℕ × ℕ :=
  let month := (n + 50) / 32
  let preceding := daysBeforeMonth leap month
  if n < preceding then
    let month := month - 1
    (month, n - (preceding - daysInMonth leap month) + 1)
  else (month, n - preceding + 1)

/-- The date of a day by the cycles of 400, 100, 4 and one year before it. -/
def dateOfCycles (n400 n100 n4 n1 n : ℕ) : ℕ × ℕ × ℕ :=
  let year := n400 * 400 + 1 + n100 * 100 + n4 * 4 + n1
  if n1 = 4 ∨ n100 = 4 then (year - 1, 12, 31)
  else (year, monthDay (n1 == 3 && (n4 != 24 || n100 == 3)) n)

/-- The date with this number. -/
def ord2ymd (n : ℕ) : ℕ × ℕ × ℕ :=
  dateOfCycles ((n - 1) / 146097) ((n - 1) % 146097 / 36524) ((n - 1) % 146097 % 36524 / 1461)
    ((n - 1) % 146097 % 36524 % 1461 / 365) ((n - 1) % 146097 % 36524 % 1461 % 365)

theorem monthDay_spec (leap : Bool) {n : ℕ} (h : n < if leap then 366 else 365) :
    daysBeforeMonth leap (monthDay leap n).1 + (monthDay leap n).2 = n + 1 := by
  have hall : ∀ leap : Bool, ∀ n < 366, n < (if leap then 366 else 365) →
      daysBeforeMonth leap (monthDay leap n).1 + (monthDay leap n).2 = n + 1 := by
    decide +kernel
  have hlt : n < 366 := by
    split_ifs at h <;> omega
  exact hall leap n hlt h

theorem monthDay_lt (leap : Bool) {n : ℕ} (h : n < 366) :
    (monthDay leap n).1 < 100 ∧ (monthDay leap n).2 < 100 := by
  have hall : ∀ leap : Bool, ∀ n < 366,
      (monthDay leap n).1 < 100 ∧ (monthDay leap n).2 < 100 := by
    decide +kernel
  exact hall leap n h

/-- A year by its place in the cycles of 400, 100 and 4 years. -/
theorem daysBeforeYear_eq {a b c d : ℕ} (hb : b ≤ 3) (hc : c ≤ 24) (hd : d ≤ 3) :
    daysBeforeYear (400 * a + 100 * b + 4 * c + d + 1) =
      146097 * a + 36524 * b + 1461 * c + 365 * d := by
  unfold daysBeforeYear
  omega

theorem isLeap_eq {a b c d : ℕ} (hb : b ≤ 3) (hc : c ≤ 24) (hd : d ≤ 3) :
    isLeap (400 * a + 100 * b + 4 * c + d + 1) = (d == 3 && (c != 24 || b == 3)) := by
  rw [Bool.eq_iff_iff]
  simp only [isLeap, Bool.and_eq_true, Bool.or_eq_true, beq_iff_eq, bne_iff_ne, ne_eq]
  omega

/-- The last day of a leap year. -/
theorem ymd2ord_lastDay {a b c : ℕ} (hb : b ≤ 3) (hc : c ≤ 24) (hleap : c ≠ 24 ∨ b = 3) :
    ymd2ord (400 * a + 100 * b + 4 * c + 3 + 1) 12 31 =
      146097 * a + 36524 * b + 1461 * c + 1461 := by
  have hl : isLeap (400 * a + 100 * b + 4 * c + 3 + 1) = true := by
    rw [isLeap_eq hb hc le_rfl]
    simpa using hleap
  have hdays : daysBeforeMonth true 12 = 335 := rfl
  rw [ymd2ord, hl, hdays, daysBeforeYear_eq hb hc le_rfl]

theorem ymd2ord_dateOfCycles {a b c d e : ℕ} (hb : b ≤ 4) (hc : c ≤ 24) (hd : d ≤ 4) (he : e < 365)
    (hfour : b = 4 → c = 0 ∧ d = 0 ∧ e = 0) (hone : d = 4 → e = 0 ∧ c ≠ 24) :
    ymd2ord (dateOfCycles a b c d e).1 (dateOfCycles a b c d e).2.1 (dateOfCycles a b c d e).2.2 =
      146097 * a + 36524 * b + 1461 * c + 365 * d + e + 1 := by
  have hyear : a * 400 + 1 + b * 100 + c * 4 + d = 400 * a + 100 * b + 4 * c + d + 1 := by ring
  simp only [dateOfCycles, hyear]
  by_cases hlast : d = 4 ∨ b = 4
  · -- 31 December of a leap year
    rw [if_pos hlast]
    by_cases hb' : b = 4
    · obtain ⟨rfl, rfl, rfl⟩ := hfour hb'
      have hsame : 400 * a + 100 * b + 4 * 0 + 0 + 1 - 1 = 400 * a + 100 * 3 + 4 * 24 + 3 + 1 := by
        omega
      rw [hsame, ymd2ord_lastDay le_rfl le_rfl (.inr rfl)]
      omega
    · obtain ⟨rfl, hc'⟩ := hone (hlast.resolve_right hb')
      have hsame : 400 * a + 100 * b + 4 * c + d + 1 - 1 = 400 * a + 100 * b + 4 * c + 3 + 1 := by
        omega
      rw [hsame, ymd2ord_lastDay (by omega) hc (.inl hc')]
      omega
  · rw [if_neg hlast]
    have hb3 : b ≤ 3 := by omega
    have hd3 : d ≤ 3 := by omega
    have hmonth := monthDay_spec (d == 3 && (c != 24 || b == 3)) (n := e) (by split_ifs <;> omega)
    dsimp only
    rw [ymd2ord, isLeap_eq hb3 hc hd3, daysBeforeYear_eq hb3 hc hd3]
    omega

/-- **The date with a number has that number.** -/
theorem ymd2ord_ord2ymd {n : ℕ} (h : 1 ≤ n) :
    ymd2ord (ord2ymd n).1 (ord2ymd n).2.1 (ord2ymd n).2.2 = n := by
  rw [ord2ymd, ymd2ord_dateOfCycles]
  all_goals omega

theorem ord2ymd_inj {m n : ℕ} (hm : 1 ≤ m) (hn : 1 ≤ n) (h : ord2ymd m = ord2ymd n) : m = n := by
  rw [← ymd2ord_ord2ymd hm, h, ymd2ord_ord2ymd hn]

/-- The date of a day up to 31 December 9999 has at most four digits and twice two. -/
theorem ord2ymd_lt {n : ℕ} (hpos : 1 ≤ n) (h : n ≤ maxOrdinal) :
    (ord2ymd n).1 < 10000 ∧ (ord2ymd n).2.1 < 100 ∧ (ord2ymd n).2.2 < 100 := by
  have hmax : maxOrdinal = 3652059 := rfl
  unfold ord2ymd dateOfCycles
  split_ifs with hlast
  · refine ⟨?_, show 12 < 100 by decide, show 31 < 100 by decide⟩
    dsimp only
    omega
  · refine ⟨?_, monthDay_lt _ (by omega)⟩
    dsimp only
    omega

/-! ## Texts -/

/-- A number in this many decimal digits. -/
def padded : ℕ → ℕ → List ℕ
  | 0, _ => []
  | k + 1, n => padded k (n / 10) ++ [n % 10 + 48]

@[simp] theorem length_padded : ∀ k n : ℕ, (padded k n).length = k
  | 0, _ => rfl
  | k + 1, n => by rw [padded, List.length_append, length_padded k]; rfl

theorem padded_inj : ∀ {k m n : ℕ}, m < 10 ^ k → n < 10 ^ k → padded k m = padded k n → m = n
  | 0, m, n, hm, hn, _ => by
    rw [pow_zero] at hm hn
    omega
  | k + 1, m, n, hm, hn, h => by
    have hlength := (length_padded k (m / 10)).trans (length_padded k (n / 10)).symm
    obtain ⟨hhigh, hlow⟩ := List.append_inj h hlength
    have hbound : 10 ^ (k + 1) = 10 ^ k * 10 := by ring
    have hdiv : m / 10 = n / 10 := padded_inj (Nat.div_lt_of_lt_mul (by omega))
      (Nat.div_lt_of_lt_mul (by omega)) hhigh
    have hmod := List.singleton_inj.mp hlow
    omega

theorem padded_lt (k n : ℕ) : ∀ c ∈ padded k n, c < 0x80 := by
  induction k generalizing n with
  | zero => simp [padded]
  | succ k ih =>
    intro c hc
    rcases List.mem_append.mp hc with hc | hc
    · exact ih _ c hc
    · obtain rfl := List.mem_singleton.mp hc
      omega

/-- Two numbers with a separator between them. -/
theorem padded_append_inj {k m n : ℕ} {r s : List ℕ} (hm : m < 10 ^ k) (hn : n < 10 ^ k)
    (h : padded k m ++ r = padded k n ++ s) : m = n ∧ r = s := by
  obtain ⟨hnumber, hrest⟩ :=
    List.append_inj h ((length_padded k m).trans (length_padded k n).symm)
  exact ⟨padded_inj hm hn hnumber, hrest⟩

/-- `YYYY-MM-DD` -/
def dateText (year month day : ℕ) : List ℕ :=
  padded 4 year ++ 45 :: (padded 2 month ++ 45 :: padded 2 day)

/-- `date.isoformat()` -/
def Date.isoformat (d : Date) : List ℕ := dateText d.year d.month d.day

/-- The microseconds of a second, a minute, an hour and a day. -/
def second : ℕ := 1000000
def minute : ℕ := 60 * second
def hour : ℕ := 60 * minute
def dayLength : ℕ := 24 * hour

/-- `HH:MM:SS.ffffff` -/
def clockText (clock : ℕ) : List ℕ :=
  padded 2 (clock / hour) ++ 58 :: (padded 2 (clock / minute % 60) ++
    58 :: (padded 2 (clock / second % 60) ++ 46 :: padded 6 (clock % second)))

/-- The microseconds of an offset, where it has some. -/
def fractionText (n : ℕ) : List ℕ :=
  if n % second = 0 then [] else 46 :: padded 6 (n % second)

/-- The seconds of an offset, where it has some. -/
def secondsText (n : ℕ) : List ℕ :=
  if n % minute = 0 then [] else 58 :: (padded 2 (n / second % 60) ++ fractionText n)

/-- `+HH:MM`, with seconds and microseconds where the offset has some. -/
def offsetText (offset : ℤ) : List ℕ :=
  (if offset < 0 then 45 else 43) :: (padded 2 (offset.natAbs / hour) ++
    58 :: (padded 2 (offset.natAbs / minute % 60) ++ secondsText offset.natAbs))

theorem dateText_inj {y m d y' m' d' : ℕ} (hy : y < 10000) (hm : m < 100) (hd : d < 100)
    (hy' : y' < 10000) (hm' : m' < 100) (hd' : d' < 100) {r s : List ℕ}
    (h : dateText y m d ++ r = dateText y' m' d' ++ s) : (y, m, d) = (y', m', d') ∧ r = s := by
  simp only [dateText, List.append_assoc, List.cons_append] at h
  obtain ⟨h1, h⟩ := padded_append_inj (k := 4) (by omega) (by omega) h
  obtain ⟨h2, h⟩ := padded_append_inj (k := 2) (by omega) (by omega) (List.cons.inj h).2
  obtain ⟨h3, h⟩ := padded_append_inj (k := 2) (by omega) (by omega) (List.cons.inj h).2
  exact ⟨by rw [h1, h2, h3], h⟩

theorem hour_lt {n : ℕ} (h : n < dayLength) : n / hour < 10 ^ 2 := by
  unfold dayLength hour minute second at *
  omega

theorem sixty_lt (n : ℕ) : n % 60 < 10 ^ 2 := by omega

theorem micro_lt (n : ℕ) : n % second < 10 ^ 6 := Nat.mod_lt n (by decide)

theorem clockText_inj {c c' : ℕ} (hc : c < dayLength) (hc' : c' < dayLength) {r s : List ℕ}
    (h : clockText c ++ r = clockText c' ++ s) : c = c' ∧ r = s := by
  simp only [clockText, List.append_assoc, List.cons_append] at h
  obtain ⟨h1, h⟩ := padded_append_inj (hour_lt hc) (hour_lt hc') h
  obtain ⟨h2, h⟩ := padded_append_inj (sixty_lt _) (sixty_lt _) (List.cons.inj h).2
  obtain ⟨h3, h⟩ := padded_append_inj (sixty_lt _) (sixty_lt _) (List.cons.inj h).2
  obtain ⟨h4, h⟩ := padded_append_inj (micro_lt _) (micro_lt _) (List.cons.inj h).2
  refine ⟨?_, h⟩
  unfold hour minute second at *
  omega

theorem fractionText_inj {m n : ℕ} (h : fractionText m = fractionText n) :
    m % second = n % second := by
  unfold fractionText at h
  by_cases hm : m % second = 0 <;> by_cases hn : n % second = 0
  · rw [hm, hn]
  · rw [if_pos hm, if_neg hn] at h
    cases h
  · rw [if_neg hm, if_pos hn] at h
    cases h
  · rw [if_neg hm, if_neg hn] at h
    exact padded_inj (micro_lt m) (micro_lt n) (List.cons.inj h).2

theorem secondsText_inj {m n : ℕ} (h : secondsText m = secondsText n) :
    m % minute = n % minute := by
  have hparts : ∀ n, n % minute = n / second % 60 * second + n % second := fun n => by
    unfold minute second
    omega
  unfold secondsText at h
  by_cases hm : m % minute = 0 <;> by_cases hn : n % minute = 0
  · rw [hm, hn]
  · rw [if_pos hm, if_neg hn] at h
    cases h
  · rw [if_neg hm, if_pos hn] at h
    cases h
  · rw [if_neg hm, if_neg hn] at h
    obtain ⟨hseconds, hrest⟩ :=
      padded_append_inj (sixty_lt _) (sixty_lt _) (List.cons.inj h).2
    rw [hparts m, hparts n, hseconds, fractionText_inj hrest]

theorem offsetText_inj {o o' : ℤ} (ho : o.natAbs < dayLength) (ho' : o'.natAbs < dayLength)
    (h : offsetText o = offsetText o') : o = o' := by
  obtain ⟨hsign, h⟩ := List.cons.inj h
  obtain ⟨h1, h⟩ := padded_append_inj (hour_lt ho) (hour_lt ho') h
  obtain ⟨h2, h⟩ := padded_append_inj (sixty_lt _) (sixty_lt _) (List.cons.inj h).2
  have h3 := secondsText_inj h
  have habs : o.natAbs = o'.natAbs := by
    unfold hour minute second at *
    omega
  split_ifs at hsign <;> omega

theorem dateText_lt (y m d : ℕ) : ∀ c ∈ dateText y m d, c < 0x80 := by
  intro c hc
  simp only [dateText, List.mem_append, List.mem_cons] at hc
  rcases hc with hc | rfl | hc | rfl | hc
  · exact padded_lt _ _ c hc
  · decide
  · exact padded_lt _ _ c hc
  · decide
  · exact padded_lt _ _ c hc

theorem clockText_lt (clock : ℕ) : ∀ c ∈ clockText clock, c < 0x80 := by
  intro c hc
  simp only [clockText, List.mem_append, List.mem_cons] at hc
  rcases hc with hc | rfl | hc | rfl | hc | rfl | hc
  · exact padded_lt _ _ c hc
  · decide
  · exact padded_lt _ _ c hc
  · decide
  · exact padded_lt _ _ c hc
  · decide
  · exact padded_lt _ _ c hc

theorem fractionText_lt (n : ℕ) : ∀ c ∈ fractionText n, c < 0x80 := by
  unfold fractionText
  split_ifs
  · simp
  · intro c hc
    rcases List.mem_cons.mp hc with rfl | hc
    · decide
    · exact padded_lt _ _ c hc

theorem secondsText_lt (n : ℕ) : ∀ c ∈ secondsText n, c < 0x80 := by
  unfold secondsText
  split_ifs
  · simp
  · intro c hc
    simp only [List.mem_cons, List.mem_append] at hc
    rcases hc with rfl | hc | hc
    · decide
    · exact padded_lt _ _ c hc
    · exact fractionText_lt n c hc

theorem offsetText_lt (offset : ℤ) : ∀ c ∈ offsetText offset, c < 0x80 := by
  intro c hc
  simp only [offsetText, List.mem_append, List.mem_cons] at hc
  rcases hc with rfl | hc | rfl | hc | hc
  · split_ifs <;> decide
  · exact padded_lt _ _ c hc
  · decide
  · exact padded_lt _ _ c hc
  · exact secondsText_lt _ c hc

end IdenGrid.Lib.Calendar
