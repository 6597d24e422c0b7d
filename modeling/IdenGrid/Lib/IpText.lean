import Mathlib.Data.List.TakeWhile
import IdenGrid.Lib.Ipv4

/-! # The text of an IP address

`parse` is `str::parse::<IpAddr>` and `render` is `IpAddr::to_string`, both of Rust; a text is given by
its bytes. The text of an IPv6 address may leave out a run of zero groups, `::`, and may end in an
IPv4 address. `render` leaves out the first of the longest runs of more than one group, and writes
an IPv4 address only for the addresses that stand for one.

`parse_render`: an address is read back from its text. -/

namespace IdenGrid.Lib.IpText

open IdenGrid.Lib.Ipv4 (octetText)

inductive IpAddr
  | v4 (octets : Vector UInt8 4)
  | v6 (octets : Vector UInt8 16)
  deriving DecidableEq, Repr

/-! ## Reading -/

/-- `char::to_digit`. -/
def toDigit (radix c : ℕ) : Option ℕ :=
  let d := if 48 ≤ c ∧ c ≤ 57 then some (c - 48)
    else if 97 ≤ c ∧ c ≤ 122 then some (c - 87)
    else if 65 ≤ c ∧ c ≤ 90 then some (c - 55)
    else none
  d.filter (· < radix)

def isDigit (radix c : ℕ) : Bool := (toDigit radix c).isSome

/-- `Parser::read_number`, for numbers below `bound`. It reads all the digits that there are. -/
def readNumber (radix maxDigits : ℕ) (allowZeroPrefix : Bool) (bound : ℕ) (s : List ℕ) :
    Option (ℕ × List ℕ) :=
  let digits := s.takeWhile (isDigit radix)
  let n := (digits.filterMap (toDigit radix)).foldl (fun n d => n * radix + d) 0
  if digits.length = 0 ∨ maxDigits < digits.length then none
  else if allowZeroPrefix = false ∧ s.head? = some 48 ∧ 1 < digits.length then none
  else if n < bound then some (n, s.dropWhile (isDigit radix))
  else none

/-- `Parser::read_given_char`. -/
def readChar (target : ℕ) : List ℕ → Option (List ℕ)
  | c :: s => if c = target then some s else none
  | [] => none

/-- `Parser::read_separator`: all but the first have the separator before them. -/
def readSeparator {α : Type} (sep : ℕ) (first : Bool) (inner : List ℕ → Option (α × List ℕ))
    (s : List ℕ) : Option (α × List ℕ) :=
  if first then inner s else (readChar sep s).bind inner

/-- The octets of an IPv4 address. -/
def readOctets : Bool → ℕ → List ℕ → Option (List ℕ × List ℕ)
  | _, 0, s => some ([], s)
  | first, n + 1, s => do
    let (octet, s) ← readSeparator 46 first (readNumber 10 3 false 256) s
    let (octets, s) ← readOctets false n s
    some (octet :: octets, s)

/-- `Parser::read_ipv4_addr`. -/
def readIpv4 (s : List ℕ) : Option (List ℕ × List ℕ) := readOctets true 4 s

/-- The pairs of octets. -/
def segments : List ℕ → List ℕ
  | a :: b :: t => (a * 256 + b) :: segments t
  | _ => []

/-- `read_groups`: the groups, whether they end in an IPv4 address, and the rest. -/
def readGroups : Bool → ℕ → List ℕ → List ℕ × Bool × List ℕ
  | _, 0, s => ([], false, s)
  | first, left + 1, s =>
    match if 0 < left then readSeparator 58 first readIpv4 s else none with
    | some (octets, s) => (segments octets, true, s)
    | none =>
      match readSeparator 58 first (readNumber 16 4 true 65536) s with
      | some (g, s) =>
        let (gs, ipv4, s) := readGroups false left s
        (g :: gs, ipv4, s)
      | none => ([], false, s)

/-- `Parser::read_ipv6_addr`. -/
def readIpv6 (s : List ℕ) : Option (List ℕ × List ℕ) :=
  let (head, ipv4, s) := readGroups true 8 s
  if head.length = 8 then some (head, s)
  else if ipv4 then none
  else do
    let s ← readChar 58 s
    let s ← readChar 58 s
    let (tail, _, s) := readGroups true (7 - head.length) s
    some (head ++ List.replicate (8 - head.length - tail.length) 0 ++ tail, s)

/-- The octets of the segments. -/
def octetsOf (segs : List ℕ) : List ℕ := segs.flatMap fun s => [s / 256, s % 256]

/-- The bytes as an array of the length. -/
def toVector (k : ℕ) (l : List ℕ) : Option (Vector UInt8 k) :=
  if h : (l.map UInt8.ofNat).length = k then some ⟨(l.map UInt8.ofNat).toArray, by simpa using h⟩
  else none

/-- `str::parse::<IpAddr>`: the whole text is an address. -/
def parse (s : List ℕ) : Option IpAddr :=
  match readIpv4 s with
  | some (octets, rest) => if rest = [] then (toVector 4 octets).map .v4 else none
  | none =>
    match readIpv6 s with
    | some (segs, rest) => if rest = [] then (toVector 16 (octetsOf segs)).map .v6 else none
    | none => none

/-! ## Writing -/

def hexDigit (d : ℕ) : ℕ := if d < 10 then 48 + d else 87 + d

/-- `{:x}` of a `u16`. -/
def hexText (n : ℕ) : List ℕ :=
  if n < 16 then [hexDigit n]
  else if n < 256 then [hexDigit (n / 16), hexDigit (n % 16)]
  else if n < 4096 then [hexDigit (n / 256), hexDigit (n / 16 % 16), hexDigit (n % 16)]
  else [hexDigit (n / 4096), hexDigit (n / 256 % 16), hexDigit (n / 16 % 16), hexDigit (n % 16)]

/-- The texts, each but the first with the separator before it. -/
def separated (sep : ℕ) (f : ℕ → List ℕ) : List ℕ → List ℕ
  | [] => []
  | n :: t => f n ++ t.flatMap fun n => sep :: f n

/-- The scan for the longest run of zero segments: start and length of the longest run so far and
of the run that the scan is in. -/
def scanZeros (i : ℕ) (longest current : ℕ × ℕ) : List ℕ → ℕ × ℕ
  | [] => longest
  | s :: t =>
    if s = 0 then
      let current := (if current.2 = 0 then i else current.1, current.2 + 1)
      scanZeros (i + 1) (if longest.2 < current.2 then current else longest) current t
    else scanZeros (i + 1) longest (0, 0) t

def longestZeros (segs : List ℕ) : ℕ × ℕ := scanZeros 0 (0, 0) (0, 0) segs

/-- `Ipv4Addr::fmt`. -/
def renderV4 (octets : List ℕ) : List ℕ := separated 46 octetText octets

/-- `fmt_subslice`. -/
def renderGroups (segs : List ℕ) : List ℕ := separated 58 hexText segs

/-- `Ipv6Addr::fmt`. -/
def renderV6 (segs : List ℕ) : List ℕ :=
  if segs.take 6 = [0, 0, 0, 0, 0, 0xFFFF] then
    [58, 58, 102, 102, 102, 102, 58] ++ renderV4 (octetsOf (segs.drop 6))
  else
    let zeros := longestZeros segs
    if 1 < zeros.2 then
      renderGroups (segs.take zeros.1) ++ 58 :: 58 :: renderGroups (segs.drop (zeros.1 + zeros.2))
    else renderGroups segs

/-- `IpAddr::to_string`. -/
def render : IpAddr → List ℕ
  | .v4 octets => renderV4 (octets.toList.map UInt8.toNat)
  | .v6 octets => renderV6 (segments (octets.toList.map UInt8.toNat))

/-! ## Numbers -/

/-- The text does not go on with a digit. -/
def Stops (radix : ℕ) (s : List ℕ) : Prop := ∀ c ∈ s.head?, isDigit radix c = false

theorem stops_nil (radix : ℕ) : Stops radix [] := fun c hc => by simp at hc

theorem stops_cons {radix c : ℕ} (h : isDigit radix c = false) (s : List ℕ) :
    Stops radix (c :: s) := by
  intro d hd
  obtain rfl := Option.some.inj hd
  exact h

theorem Stops.takeWhile {radix : ℕ} {s : List ℕ} (h : Stops radix s) :
    s.takeWhile (isDigit radix) = [] := by
  cases s with
  | nil => rfl
  | cons c s => rw [List.takeWhile_cons, h c rfl]; rfl

theorem Stops.dropWhile {radix : ℕ} {s : List ℕ} (h : Stops radix s) :
    s.dropWhile (isDigit radix) = s := by
  cases s with
  | nil => rfl
  | cons c s => rw [List.dropWhile_cons, h c rfl]; rfl

variable {radix maxDigits bound : ℕ} {allowZeroPrefix : Bool}

theorem readNumber_stops {s : List ℕ} (h : Stops radix s) :
    readNumber radix maxDigits allowZeroPrefix bound s = none := by
  unfold readNumber
  rw [h.takeWhile]
  exact if_pos (Or.inl rfl)

/-- What follows the digits of a number is left. -/
theorem readNumber_append {ds rest : List ℕ} (hds : ∀ c ∈ ds, isDigit radix c = true)
    (hne : ds ≠ []) (hrest : Stops radix rest) :
    readNumber radix maxDigits allowZeroPrefix bound (ds ++ rest) =
      (readNumber radix maxDigits allowZeroPrefix bound ds).map fun p => (p.1, rest) := by
  have htake : (ds ++ rest).takeWhile (isDigit radix) = ds.takeWhile (isDigit radix) := by
    rw [List.takeWhile_append_of_pos hds, hrest.takeWhile, List.append_nil,
      List.takeWhile_eq_self_iff.mpr hds]
  have hdrop : (ds ++ rest).dropWhile (isDigit radix) = rest := by
    rw [List.dropWhile_append_of_pos hds, hrest.dropWhile]
  have hhead : (ds ++ rest).head? = ds.head? := List.head?_append_of_ne_nil ds hne
  unfold readNumber
  simp only [htake, hdrop, hhead]
  split_ifs <;> rfl

/-- A number is what the digits before a stop say. -/
theorem readNumber_text {ds rest : List ℕ} {n : ℕ} (hds : ∀ c ∈ ds, isDigit radix c = true)
    (hn : readNumber radix maxDigits allowZeroPrefix bound ds = some (n, []))
    (hrest : Stops radix rest) :
    readNumber radix maxDigits allowZeroPrefix bound (ds ++ rest) = some (n, rest) := by
  have hne : ds ≠ [] := by
    rintro rfl
    rw [readNumber_stops (stops_nil radix)] at hn
    exact absurd hn.symm (Option.some_ne_none _)
  rw [readNumber_append hds hne hrest, hn]
  rfl

theorem toDigit_hexDigit : ∀ d < 16, toDigit 16 (hexDigit d) = some d := by
  decide

theorem isDigit_hexDigit {d : ℕ} (h : d < 16) : isDigit 16 (hexDigit d) = true := by
  unfold isDigit
  rw [toDigit_hexDigit d h]
  rfl

theorem hexText_digits {n : ℕ} (h : n < 65536) : ∀ c ∈ hexText n, isDigit 16 c = true := by
  intro c hc
  unfold hexText at hc
  split_ifs at hc <;> simp only [List.mem_cons, List.not_mem_nil, or_false] at hc
  · exact hc ▸ isDigit_hexDigit (by omega)
  · rcases hc with rfl | rfl <;> exact isDigit_hexDigit (by omega)
  · rcases hc with rfl | rfl | rfl <;> exact isDigit_hexDigit (by omega)
  · rcases hc with rfl | rfl | rfl | rfl <;> exact isDigit_hexDigit (by omega)

/-- A list of digits is read as the number that they are. -/
theorem readNumber_digits (ds : List ℕ) {n : ℕ} (hlen : ds.length ≠ 0) (hmax : ds.length ≤ 4)
    (hds : ∀ d ∈ ds, d < 16) (hn : ds.foldl (fun n d => n * 16 + d) 0 = n) (hbound : n < 65536) :
    readNumber 16 4 true 65536 (ds.map hexDigit) = some (n, []) := by
  have hall : ∀ c ∈ ds.map hexDigit, isDigit 16 c = true := by
    intro c hc
    obtain ⟨d, hd, rfl⟩ := List.mem_map.mp hc
    exact isDigit_hexDigit (hds d hd)
  have hback : (ds.map hexDigit).filterMap (toDigit 16) = ds := by
    rw [List.filterMap_map]
    calc ds.filterMap (toDigit 16 ∘ hexDigit) = ds.filterMap some :=
          List.filterMap_congr fun d hd => toDigit_hexDigit d (hds d hd)
      _ = ds := List.filterMap_some
  unfold readNumber
  simp only [List.takeWhile_eq_self_iff.mpr hall, hback, hn, List.length_map]
  rw [if_neg (by omega), if_neg (by simp), if_pos hbound, List.dropWhile_eq_nil_iff.mpr hall]

theorem readNumber_hexText {n : ℕ} (h : n < 65536) {rest : List ℕ} (hrest : Stops 16 rest) :
    readNumber 16 4 true 65536 (hexText n ++ rest) = some (n, rest) := by
  refine readNumber_text (hexText_digits h) ?_ hrest
  unfold hexText
  split_ifs with h1 h2 h3
  · exact readNumber_digits [n] (by simp) (by simp) (by simpa) (by simp) h
  · refine readNumber_digits [n / 16, n % 16] (by simp) (by simp) ?_ ?_ h
    · simp only [List.mem_cons, List.not_mem_nil, or_false, forall_eq_or_imp, forall_eq]
      omega
    · simp only [List.foldl_cons, List.foldl_nil]
      omega
  · refine readNumber_digits [n / 256, n / 16 % 16, n % 16] (by simp) (by simp) ?_ ?_ h
    · simp only [List.mem_cons, List.not_mem_nil, or_false, forall_eq_or_imp, forall_eq]
      omega
    · simp only [List.foldl_cons, List.foldl_nil]
      omega
  · refine readNumber_digits [n / 4096, n / 256 % 16, n / 16 % 16, n % 16] (by simp)
      (by simp) ?_ ?_ h
    · simp only [List.mem_cons, List.not_mem_nil, or_false, forall_eq_or_imp, forall_eq]
      omega
    · simp only [List.foldl_cons, List.foldl_nil]
      omega

theorem octetText_digits : ∀ n < 256, (octetText n).all (isDigit 10) = true := by
  decide +kernel

theorem readNumber_octetText_nil :
    ∀ n < 256, readNumber 10 3 false 256 (octetText n) = some (n, []) := by
  decide +kernel

theorem readNumber_octetText {n : ℕ} (h : n < 256) {rest : List ℕ} (hrest : Stops 10 rest) :
    readNumber 10 3 false 256 (octetText n ++ rest) = some (n, rest) :=
  readNumber_text (fun c hc => List.all_eq_true.mp (octetText_digits n h) c hc)
    (readNumber_octetText_nil n h) hrest

/-! ## The groups -/

theorem readSeparator_true {α : Type} (sep : ℕ) (inner : List ℕ → Option (α × List ℕ))
    (s : List ℕ) : readSeparator sep true inner s = inner s := rfl

theorem readSeparator_false {α : Type} (sep : ℕ) (inner : List ℕ → Option (α × List ℕ))
    (s : List ℕ) : readSeparator sep false inner (sep :: s) = inner s := by
  unfold readSeparator readChar
  simp

/-- The octets after the first. -/
theorem readOctets_text {rest : List ℕ} (hrest : Stops 10 rest) : ∀ octets : List ℕ,
    (∀ n ∈ octets, n < 256) →
      readOctets false octets.length (octets.flatMap (fun n => 46 :: octetText n) ++ rest) =
        some (octets, rest)
  | [], _ => rfl
  | n :: octets, h => by
    obtain ⟨hn, ht⟩ := List.forall_mem_cons.mp h
    have hstop : Stops 10 (octets.flatMap (fun n => 46 :: octetText n) ++ rest) := by
      cases octets with
      | nil => exact hrest
      | cons m octets => exact stops_cons rfl _
    have ih := readOctets_text hrest octets ht
    rw [List.length_cons, readOctets, List.flatMap_cons, List.cons_append, List.cons_append,
      List.append_assoc, readSeparator_false, readNumber_octetText hn hstop]
    simp only [Option.bind_eq_bind, Option.bind_some, ih]

/-- An IPv4 address is read back from its text. -/
theorem readIpv4_renderV4 {octets rest : List ℕ} (hlen : octets.length = 4)
    (h : ∀ n ∈ octets, n < 256) (hrest : Stops 10 rest) :
    readIpv4 (renderV4 octets ++ rest) = some (octets, rest) := by
  obtain ⟨a, t, rfl⟩ := List.exists_cons_of_length_eq_add_one hlen
  obtain ⟨ha, ht⟩ := List.forall_mem_cons.mp h
  have ht3 : t.length = 3 := Nat.succ_injective hlen
  have hstop : Stops 10 (t.flatMap (fun n => 46 :: octetText n) ++ rest) := by
    obtain ⟨b, u, rfl⟩ := List.exists_cons_of_length_eq_add_one ht3
    exact stops_cons rfl _
  have htail := readOctets_text hrest t ht
  rw [ht3] at htail
  show readOctets true 4 (renderV4 (a :: t) ++ rest) = _
  rw [readOctets, readSeparator_true, renderV4, separated, List.append_assoc,
    readNumber_octetText ha hstop]
  simp only [Option.bind_eq_bind, Option.bind_some, htail]

/-- No IPv4 address is read where there is no dot after the first number. -/
theorem readIpv4_eq_none {s : List ℕ}
    (h : ∀ n t, readNumber 10 3 false 256 s = some (n, t) → t.head? ≠ some 46) :
    readIpv4 s = none := by
  show readOctets true 4 s = none
  rw [readOctets, readSeparator_true]
  cases hn : readNumber 10 3 false 256 s with
  | none => rfl
  | some p =>
    obtain ⟨n, t⟩ := p
    have hdot : readChar 46 t = none := by
      cases t with
      | nil => rfl
      | cons c t =>
        have hc : c ≠ 46 := fun heq => h n (c :: t) hn (congrArg some heq)
        exact if_neg hc
    simp only [Option.bind_eq_bind, Option.bind_some]
    rw [readOctets, readSeparator, if_neg Bool.false_ne_true, hdot]
    rfl

theorem readNumber_rest {s t : List ℕ} {n : ℕ}
    (h : readNumber radix maxDigits allowZeroPrefix bound s = some (n, t)) :
    t = s.dropWhile (isDigit radix) := by
  unfold readNumber at h
  dsimp only at h
  split_ifs at h
  exact ((Prod.mk.inj (Option.some.inj h)).2).symm

/-- No IPv4 address is read where there are no dots. -/
theorem readIpv4_noDots {s : List ℕ} (h : 46 ∉ s) : readIpv4 s = none := by
  refine readIpv4_eq_none fun n t hn hdot => h ?_
  have hmem : 46 ∈ t := List.mem_of_mem_head? hdot
  rw [readNumber_rest hn] at hmem
  exact (List.dropWhile_sublist _).mem hmem

theorem readSeparator_noDots {s : List ℕ} (h : 46 ∉ s) (first : Bool) :
    readSeparator 58 first readIpv4 s = none := by
  cases first with
  | true => exact readIpv4_noDots h
  | false =>
    cases s with
    | nil => rfl
    | cons c s =>
      by_cases hc : c = 58
      · subst hc
        rw [readSeparator_false]
        exact readIpv4_noDots fun hmem => h (List.mem_cons_of_mem _ hmem)
      · unfold readSeparator readChar
        simp [hc]

/-- What stands after the groups: nothing, or the colons for the groups that are left out. -/
def GroupsEnd (rest : List ℕ) : Prop := rest = [] ∨ ∃ t, rest = 58 :: 58 :: t

theorem GroupsEnd.stops {rest : List ℕ} (h : GroupsEnd rest) (radix : ℕ) : Stops radix rest := by
  obtain rfl | ⟨t, rfl⟩ := h
  · exact stops_nil radix
  · exact stops_cons rfl _

/-- No group stands there. -/
theorem GroupsEnd.readGroups {rest : List ℕ} (h : GroupsEnd rest) (hdots : 46 ∉ rest)
    (first : Bool) (left : ℕ) : readGroups first left rest = ([], false, rest) := by
  cases left with
  | zero => rfl
  | succ left =>
    have hnumber : readSeparator 58 first (readNumber 16 4 true 65536) rest = none := by
      cases first with
      | true => exact readNumber_stops (h.stops 16)
      | false =>
        obtain rfl | ⟨t, rfl⟩ := h
        · rfl
        · rw [readSeparator_false]
          exact readNumber_stops (stops_cons rfl t)
    rw [IpText.readGroups, readSeparator_noDots hdots, ite_self, hnumber]

theorem GroupsEnd.cons {segs rest : List ℕ} (h : GroupsEnd rest) :
    Stops 16 (segs.flatMap (fun n => 58 :: hexText n) ++ rest) := by
  cases segs with
  | nil => exact h.stops 16
  | cons m segs => exact stops_cons rfl _

/-- The groups after the first. -/
theorem readGroups_tail {rest : List ℕ} (hrest : GroupsEnd rest) : ∀ (segs : List ℕ) (left : ℕ),
    segs.length ≤ left → (∀ n ∈ segs, n < 65536) →
      46 ∉ segs.flatMap (fun n => 58 :: hexText n) ++ rest →
        readGroups false left (segs.flatMap (fun n => 58 :: hexText n) ++ rest) =
          (segs, false, rest)
  | [], left, _, _, hdots => hrest.readGroups hdots false left
  | n :: segs, left, hle, h, hdots => by
    obtain ⟨hn, ht⟩ := List.forall_mem_cons.mp h
    obtain ⟨left, rfl⟩ := Nat.exists_eq_add_of_le' (Nat.le_trans (Nat.succ_pos _) hle)
    rw [List.length_cons] at hle
    rw [readGroups, readSeparator_noDots hdots, ite_self]
    rw [List.flatMap_cons, List.cons_append, List.cons_append, List.append_assoc] at hdots ⊢
    rw [readSeparator_false, readNumber_hexText hn hrest.cons]
    have hdots' : 46 ∉ segs.flatMap (fun n => 58 :: hexText n) ++ rest := fun hmem =>
      hdots (List.mem_cons_of_mem _ (List.mem_append_right _ hmem))
    simp only [readGroups_tail hrest segs left (by omega) ht hdots']

/-- The groups are read back from their text. -/
theorem readGroups_renderGroups {segs rest : List ℕ} {left : ℕ} (hrest : GroupsEnd rest)
    (hle : segs.length ≤ left) (h : ∀ n ∈ segs, n < 65536) (hdots : 46 ∉ renderGroups segs ++ rest) :
    readGroups true left (renderGroups segs ++ rest) = (segs, false, rest) := by
  cases segs with
  | nil => exact hrest.readGroups hdots true left
  | cons n segs =>
    obtain ⟨hn, ht⟩ := List.forall_mem_cons.mp h
    obtain ⟨left, rfl⟩ := Nat.exists_eq_add_of_le' (Nat.le_trans (Nat.succ_pos _) hle)
    rw [List.length_cons] at hle
    rw [readGroups, readSeparator_noDots hdots, ite_self]
    rw [renderGroups, separated, List.append_assoc] at hdots ⊢
    rw [readSeparator_true, readNumber_hexText hn hrest.cons]
    have hdots' : 46 ∉ segs.flatMap (fun n => 58 :: hexText n) ++ rest := fun hmem =>
      hdots (List.mem_append_right _ hmem)
    simp only [readGroups_tail hrest segs left (by omega) ht hdots']

theorem hexText_noDots {n : ℕ} (h : n < 65536) : 46 ∉ hexText n := by
  intro hmem
  exact absurd (hexText_digits h 46 hmem) (by decide)

theorem renderGroups_noDots {segs : List ℕ} (h : ∀ n ∈ segs, n < 65536) :
    46 ∉ renderGroups segs := by
  cases segs with
  | nil => exact List.not_mem_nil
  | cons n segs =>
    obtain ⟨hn, ht⟩ := List.forall_mem_cons.mp h
    intro hmem
    rcases List.mem_append.mp hmem with hmem | hmem
    · exact hexText_noDots hn hmem
    · obtain ⟨m, hm, hmem⟩ := List.mem_flatMap.mp hmem
      rcases List.mem_cons.mp hmem with heq | hmem
      · exact absurd heq (by decide)
      · exact hexText_noDots (ht m hm) hmem

/-! ## The run that is left out -/

/-- The segments of the span are zeros. -/
def Zeros (segs : List ℕ) (span : ℕ × ℕ) : Prop :=
  ∀ j, span.1 ≤ j → j < span.1 + span.2 → segs[j]? = some 0

/-- The scan finds zeros if the spans it starts with are zeros and the current one ends where the
scan is. -/
theorem scanZeros_zeros : ∀ (t done : List ℕ) (longest current : ℕ × ℕ),
    Zeros (done ++ t) longest → Zeros (done ++ t) current →
      (current.2 ≠ 0 → current.1 + current.2 = done.length) →
        Zeros (done ++ t) (scanZeros done.length longest current t)
  | [], _, _, _, hlongest, _, _ => hlongest
  | s :: t, done, longest, current, hlongest, hcurrent, hends => by
    have hlen : done.length + 1 = (done ++ [s]).length := by rw [List.length_append]; rfl
    have hsplit : done ++ s :: t = (done ++ [s]) ++ t := by
      rw [List.append_assoc, List.singleton_append]
    by_cases hs : s = 0
    · -- The current span grows by the segment.
      have hgrown : Zeros (done ++ s :: t)
          (if current.2 = 0 then done.length else current.1, current.2 + 1) := by
        intro j hj hj'
        dsimp only at hj hj'
        have hlast : (done ++ s :: t)[done.length]? = some 0 := by
          rw [List.getElem?_append_right (le_refl _), Nat.sub_self, hs]
          rfl
        split_ifs at hj hj' with h0
        · have : j = done.length := by omega
          rw [this]
          exact hlast
        · have hend := hends h0
          by_cases hjl : j < current.1 + current.2
          · exact hcurrent j hj hjl
          · have : j = done.length := by omega
            rw [this]
            exact hlast
      rw [scanZeros, if_pos hs, hlen]
      rw [hsplit] at hlongest hgrown ⊢
      refine scanZeros_zeros t _ _ _ ?_ hgrown fun _ => ?_
      · by_cases hlt : longest.2 < current.2 + 1
        · rw [if_pos hlt]
          exact hgrown
        · rw [if_neg hlt]
          exact hlongest
      · dsimp only
        split_ifs with h0
        · omega
        · have := hends h0
          omega
    · rw [scanZeros, if_neg hs, hlen]
      rw [hsplit] at hlongest ⊢
      exact scanZeros_zeros t _ _ _ hlongest (fun j _ hj => absurd hj (by simp))
        (fun h => absurd rfl h)

theorem longestZeros_zeros (segs : List ℕ) : Zeros segs (longestZeros segs) :=
  scanZeros_zeros segs [] (0, 0) (0, 0) (fun j _ hj => absurd hj (by simp))
    (fun j _ hj => absurd hj (by simp)) fun h => absurd rfl h

/-- What is left out are zeros. -/
theorem Zeros.eq {segs : List ℕ} {span : ℕ × ℕ} (h : Zeros segs span)
    (hspan : 0 < span.2) :
    span.1 + span.2 ≤ segs.length ∧
      segs = segs.take span.1 ++ List.replicate span.2 0 ++ segs.drop (span.1 + span.2) := by
  have hlen : span.1 + span.2 ≤ segs.length := by
    obtain ⟨hlt, -⟩ := List.getElem?_eq_some_iff.mp
      (h (span.1 + span.2 - 1) (by omega) (by omega))
    omega
  refine ⟨hlen, ?_⟩
  have hzeros : (segs.drop span.1).take span.2 = List.replicate span.2 0 := by
    refine List.eq_replicate_iff.mpr ⟨?_, fun b hb => ?_⟩
    · rw [List.length_take, List.length_drop]
      omega
    · obtain ⟨i, hi, rfl⟩ := List.getElem_of_mem hb
      rw [List.length_take] at hi
      have hz := h (span.1 + i) (by omega) (by omega)
      rw [List.getElem_take, List.getElem_drop]
      exact (List.getElem?_eq_some_iff.mp hz).2
  calc segs = segs.take span.1 ++ segs.drop span.1 := (List.take_append_drop _ _).symm
    _ = segs.take span.1 ++ ((segs.drop span.1).take span.2 ++ (segs.drop span.1).drop span.2) :=
      congrArg (segs.take span.1 ++ ·) (List.take_append_drop _ _).symm
    _ = _ := by rw [hzeros, List.drop_drop, List.append_assoc]

/-! ## The round trip -/

/-- A text without an IPv4 address in it is read back. -/
theorem readIpv6_groups {segs : List ℕ} (hlen : segs.length = 8) (h : ∀ n ∈ segs, n < 65536) :
    readIpv6 (renderGroups segs) = some (segs, []) := by
  have hgroups : readGroups true 8 (renderGroups segs ++ []) = (segs, false, []) :=
    readGroups_renderGroups (Or.inl rfl) (Nat.le_of_eq hlen) h
      (by rw [List.append_nil]; exact renderGroups_noDots h)
  rw [List.append_nil] at hgroups
  unfold readIpv6
  rw [hgroups]
  exact if_pos hlen

/-- A text that leaves out the zeros between two parts is read back. -/
theorem readIpv6_compressed {front back : List ℕ} (hlen : front.length + back.length ≤ 6)
    (hfront : ∀ n ∈ front, n < 65536) (hback : ∀ n ∈ back, n < 65536) :
    readIpv6 (renderGroups front ++ 58 :: 58 :: renderGroups back) =
      some (front ++ List.replicate (8 - front.length - back.length) 0 ++ back, []) := by
  have hcolons : 46 ∉ 58 :: 58 :: renderGroups back := by
    intro hmem
    rcases List.mem_cons.mp hmem with heq | hmem
    · exact absurd heq (by decide)
    · rcases List.mem_cons.mp hmem with heq | hmem
      · exact absurd heq (by decide)
      · exact renderGroups_noDots hback hmem
  have hhead : readGroups true 8 (renderGroups front ++ 58 :: 58 :: renderGroups back) =
      (front, false, 58 :: 58 :: renderGroups back) :=
    readGroups_renderGroups (Or.inr ⟨_, rfl⟩) (by omega) hfront fun hmem =>
      (List.mem_append.mp hmem).elim (renderGroups_noDots hfront) hcolons
  have htail : readGroups true (7 - front.length) (renderGroups back ++ []) = (back, false, []) :=
    readGroups_renderGroups (Or.inl rfl) (by omega) hback
      (by rw [List.append_nil]; exact renderGroups_noDots hback)
  rw [List.append_nil] at htail
  have hcolon : ∀ s, readChar 58 (58 :: s) = some s := fun s => by
    rw [readChar, if_pos rfl]
  unfold readIpv6
  rw [hhead]
  dsimp only
  rw [if_neg (by omega), if_neg Bool.false_ne_true, hcolon]
  simp only [Option.bind_eq_bind, Option.bind_some, hcolon, htail]

theorem length_octetsOf (segs : List ℕ) : (octetsOf segs).length = 2 * segs.length := by
  induction segs with
  | nil => rfl
  | cons s segs ih =>
    show (s / 256 :: s % 256 :: octetsOf segs).length = _
    rw [List.length_cons, List.length_cons, List.length_cons, ih]
    omega

theorem octetsOf_lt {segs : List ℕ} (h : ∀ n ∈ segs, n < 65536) : ∀ n ∈ octetsOf segs, n < 256 := by
  intro n hn
  obtain ⟨s, hs, hn⟩ := List.mem_flatMap.mp hn
  have := h s hs
  simp only [List.mem_cons, List.not_mem_nil, or_false] at hn
  omega

theorem segments_octetsOf (segs : List ℕ) : segments (octetsOf segs) = segs := by
  induction segs with
  | nil => rfl
  | cons s segs ih =>
    show (s / 256 * 256 + s % 256) :: segments (octetsOf segs) = _
    rw [ih, Nat.div_add_mod']

/-- The text of an address that stands for an IPv4 address is read back. -/
theorem readIpv6_mapped {segs : List ℕ} (hlen : segs.length = 8) (h : ∀ n ∈ segs, n < 65536)
    (hmapped : segs.take 6 = [0, 0, 0, 0, 0, 0xFFFF]) :
    readIpv6 ([58, 58, 102, 102, 102, 102, 58] ++ renderV4 (octetsOf (segs.drop 6))) =
      some (segs, []) := by
  have hdrop : (segs.drop 6).length = 2 := by rw [List.length_drop, hlen]
  have hv4 : readIpv4 (renderV4 (octetsOf (segs.drop 6)) ++ []) =
      some (octetsOf (segs.drop 6), []) :=
    readIpv4_renderV4 (by rw [length_octetsOf, hdrop])
      (octetsOf_lt fun n hn => h n (List.mem_of_mem_drop hn)) (stops_nil 10)
  rw [List.append_nil] at hv4
  generalize renderV4 (octetsOf (segs.drop 6)) = text at hv4 ⊢
  show readIpv6 (58 :: 58 :: 102 :: 102 :: 102 :: 102 :: 58 :: text) = _
  -- No group stands before the colons.
  have hhead : readGroups true 8 (58 :: 58 :: 102 :: 102 :: 102 :: 102 :: 58 :: text) =
      ([], false, 58 :: 58 :: 102 :: 102 :: 102 :: 102 :: 58 :: text) := by
    have hstop : ∀ radix, Stops radix (58 :: 58 :: 102 :: 102 :: 102 :: 102 :: 58 :: text) :=
      fun radix => stops_cons rfl _
    have hnone : readIpv4 (58 :: 58 :: 102 :: 102 :: 102 :: 102 :: 58 :: text) = none :=
      readIpv4_eq_none fun n t hn => by
        rw [readNumber_stops (hstop 10)] at hn
        exact absurd hn.symm (Option.some_ne_none _)
    rw [readGroups, readSeparator_true, hnone, ite_self, readSeparator_true,
      readNumber_stops (hstop 16)]
  -- After them stand `ffff` and the IPv4 address.
  have hffff : readNumber 16 4 true 65536 (102 :: 102 :: 102 :: 102 :: 58 :: text) =
      some (0xFFFF, 58 :: text) :=
    readNumber_hexText (n := 0xFFFF) (by decide) (stops_cons rfl text)
  have htail : readGroups true 7 (102 :: 102 :: 102 :: 102 :: 58 :: text) =
      (0xFFFF :: segs.drop 6, true, []) := by
    have hnone : readIpv4 (102 :: 102 :: 102 :: 102 :: 58 :: text) = none :=
      readIpv4_eq_none fun n t hn => by
        rw [readNumber_stops (stops_cons rfl _)] at hn
        exact absurd hn.symm (Option.some_ne_none _)
    rw [readGroups, readSeparator_true, hnone, ite_self, readSeparator_true, hffff]
    dsimp only
    rw [readGroups, readSeparator_false, hv4, if_pos (by decide)]
    dsimp only
    rw [segments_octetsOf]
  have hcolon : ∀ s, readChar 58 (58 :: s) = some s := fun s => by
    rw [readChar, if_pos rfl]
  unfold readIpv6
  rw [hhead]
  dsimp only
  rw [if_neg (by decide), if_neg Bool.false_ne_true, hcolon]
  simp only [Option.bind_eq_bind, Option.bind_some, hcolon, List.length_nil, Nat.sub_zero, htail,
    List.length_cons, hdrop, List.nil_append]
  congr 2
  calc List.replicate 5 0 ++ 0xFFFF :: segs.drop 6 = segs.take 6 ++ segs.drop 6 := by
        rw [hmapped]; rfl
    _ = segs := List.take_append_drop 6 segs

/-- **The segments of an address are read back from its text.** -/
theorem readIpv6_renderV6 {segs : List ℕ} (hlen : segs.length = 8) (h : ∀ n ∈ segs, n < 65536) :
    readIpv6 (renderV6 segs) = some (segs, []) := by
  unfold renderV6
  by_cases hmapped : segs.take 6 = [0, 0, 0, 0, 0, 0xFFFF]
  · rw [if_pos hmapped]
    exact readIpv6_mapped hlen h hmapped
  · rw [if_neg hmapped]
    by_cases hspan : 1 < (longestZeros segs).2
    · obtain ⟨hle, heq⟩ := (longestZeros_zeros segs).eq (by omega)
      have hfront : (segs.take (longestZeros segs).1).length = (longestZeros segs).1 := by
        rw [List.length_take]
        omega
      have hback : (segs.drop ((longestZeros segs).1 + (longestZeros segs).2)).length =
          8 - ((longestZeros segs).1 + (longestZeros segs).2) := by
        rw [List.length_drop, hlen]
      rw [if_pos hspan, readIpv6_compressed (by omega)
        (fun n hn => h n (List.mem_of_mem_take hn)) fun n hn => h n (List.mem_of_mem_drop hn)]
      congr 2
      have hzeros : 8 - (segs.take (longestZeros segs).1).length -
          (segs.drop ((longestZeros segs).1 + (longestZeros segs).2)).length =
            (longestZeros segs).2 := by
        omega
      rw [hzeros]
      exact heq.symm
    · rw [if_neg hspan]
      exact readIpv6_groups hlen h

/-- The text of an IPv6 address is not begun by an IPv4 address. -/
theorem readIpv4_renderV6 {segs : List ℕ} (h : ∀ n ∈ segs, n < 65536) :
    readIpv4 (renderV6 segs) = none := by
  unfold renderV6
  dsimp only
  split_ifs
  · refine readIpv4_eq_none fun n t hn => ?_
    rw [List.cons_append, readNumber_stops (stops_cons rfl _)] at hn
    exact absurd hn.symm (Option.some_ne_none _)
  · refine readIpv4_noDots fun hmem => ?_
    rcases List.mem_append.mp hmem with hmem | hmem
    · exact renderGroups_noDots (fun n hn => h n (List.mem_of_mem_take hn)) hmem
    · simp only [List.mem_cons] at hmem
      rcases hmem with heq | heq | hmem
      · exact absurd heq (by decide)
      · exact absurd heq (by decide)
      · exact renderGroups_noDots (fun n hn => h n (List.mem_of_mem_drop hn)) hmem
  · exact readIpv4_noDots (renderGroups_noDots h)

theorem octetsOf_segments : ∀ {octets : List ℕ}, octets.length % 2 = 0 → (∀ n ∈ octets, n < 256) →
    octetsOf (segments octets) = octets
  | [], _, _ => rfl
  | [a], h, _ => absurd h Nat.one_ne_zero
  | a :: b :: t, hlen, h => by
    obtain ⟨ha, ht⟩ := List.forall_mem_cons.mp h
    obtain ⟨hb, ht⟩ := List.forall_mem_cons.mp ht
    have ih : octetsOf (segments t) = t :=
      octetsOf_segments (by simp only [List.length_cons] at hlen; omega) ht
    show (a * 256 + b) / 256 :: (a * 256 + b) % 256 :: octetsOf (segments t) = _
    rw [ih, show (a * 256 + b) / 256 = a by omega, show (a * 256 + b) % 256 = b by omega]

theorem length_segments : ∀ octets : List ℕ, (segments octets).length = octets.length / 2
  | [] => rfl
  | [a] => by simp [segments]
  | a :: b :: t => by
    rw [segments, List.length_cons, length_segments t, List.length_cons, List.length_cons]
    omega

theorem segments_lt : ∀ {octets : List ℕ}, (∀ n ∈ octets, n < 256) →
    ∀ n ∈ segments octets, n < 65536
  | [], _, n, hn => by simp [segments] at hn
  | [a], _, n, hn => by simp [segments] at hn
  | a :: b :: t, h, n, hn => by
    obtain ⟨ha, ht⟩ := List.forall_mem_cons.mp h
    obtain ⟨hb, ht⟩ := List.forall_mem_cons.mp ht
    rcases List.mem_cons.mp hn with rfl | hn
    · omega
    · exact segments_lt ht n hn

theorem numbers_lt {k : ℕ} (v : Vector UInt8 k) : ∀ n ∈ v.toList.map UInt8.toNat, n < 256 := by
  intro n hn
  obtain ⟨b, -, rfl⟩ := List.mem_map.mp hn
  exact b.toNat_lt

theorem toVector_numbers {k : ℕ} (v : Vector UInt8 k) :
    toVector k (v.toList.map UInt8.toNat) = some v := by
  have hback : (v.toList.map UInt8.toNat).map UInt8.ofNat = v.toList := by
    rw [List.map_map]
    calc v.toList.map (UInt8.ofNat ∘ UInt8.toNat) = v.toList.map id :=
          List.map_congr_left fun b _ => UInt8.ofNat_toNat
      _ = v.toList := List.map_id _
  have hlen : v.toList.length = k := by simp
  unfold toVector
  rw [dif_pos (by rw [hback]; exact hlen)]
  congr 1
  apply Vector.toArray_inj.mp
  show ((v.toList.map UInt8.toNat).map UInt8.ofNat).toArray = v.toArray
  rw [hback]
  exact Array.toArray_toList

/-- **An address is read back from its text.** -/
theorem parse_render (ip : IpAddr) : parse (render ip) = some ip := by
  cases ip with
  | v4 octets =>
    have hlen : (octets.toList.map UInt8.toNat).length = 4 := by simp
    have h := readIpv4_renderV4 hlen (numbers_lt octets) (stops_nil 10)
    rw [List.append_nil] at h
    unfold parse render
    dsimp only
    rw [h]
    dsimp only
    rw [if_pos rfl, toVector_numbers]
    rfl
  | v6 octets =>
    have hlen : (octets.toList.map UInt8.toNat).length = 16 := by simp
    have hsegs : (segments (octets.toList.map UInt8.toNat)).length = 8 := by
      rw [length_segments, hlen]
    have hlt := segments_lt (numbers_lt octets)
    unfold parse render
    dsimp only
    rw [readIpv4_renderV6 hlt, readIpv6_renderV6 hsegs hlt]
    dsimp only
    rw [if_pos rfl, octetsOf_segments (by rw [hlen]) (numbers_lt octets), toVector_numbers]
    rfl

/-! ## The characters of a text -/

theorem isDigit_lt {c : ℕ} (h : isDigit radix c = true) : c < 128 := by
  unfold isDigit toDigit at h
  by_contra hc
  rw [if_neg (by omega), if_neg (by omega), if_neg (by omega)] at h
  exact absurd h Bool.false_ne_true

theorem separated_lt {sep : ℕ} {f : ℕ → List ℕ} {l : List ℕ} (hsep : sep < 128)
    (hf : ∀ n ∈ l, ∀ c ∈ f n, c < 128) : ∀ c ∈ separated sep f l, c < 128 := by
  cases l with
  | nil => exact fun c hc => absurd hc List.not_mem_nil
  | cons n l =>
    obtain ⟨hn, hl⟩ := List.forall_mem_cons.mp hf
    intro c hc
    rcases List.mem_append.mp hc with hc | hc
    · exact hn c hc
    · obtain ⟨m, hm, hc⟩ := List.mem_flatMap.mp hc
      rcases List.mem_cons.mp hc with rfl | hc
      · exact hsep
      · exact hl m hm c hc

theorem renderV4_lt {octets : List ℕ} (h : ∀ n ∈ octets, n < 256) :
    ∀ c ∈ renderV4 octets, c < 128 :=
  separated_lt (by decide) fun n hn c hc =>
    isDigit_lt (List.all_eq_true.mp (octetText_digits n (h n hn)) c hc)

theorem renderGroups_lt {segs : List ℕ} (h : ∀ n ∈ segs, n < 65536) :
    ∀ c ∈ renderGroups segs, c < 128 :=
  separated_lt (by decide) fun n hn c hc => isDigit_lt (hexText_digits (h n hn) c hc)

theorem renderV6_lt {segs : List ℕ} (h : ∀ n ∈ segs, n < 65536) :
    ∀ c ∈ renderV6 segs, c < 128 := by
  intro c hc
  unfold renderV6 at hc
  dsimp only at hc
  split_ifs at hc
  · rcases List.mem_append.mp hc with hc | hc
    · simp only [List.mem_cons, List.not_mem_nil, or_false] at hc
      omega
    · exact renderV4_lt (octetsOf_lt fun n hn => h n (List.mem_of_mem_drop hn)) c hc
  · rcases List.mem_append.mp hc with hc | hc
    · exact renderGroups_lt (fun n hn => h n (List.mem_of_mem_take hn)) c hc
    · rcases List.mem_cons.mp hc with rfl | hc
      · decide
      · rcases List.mem_cons.mp hc with rfl | hc
        · decide
        · exact renderGroups_lt (fun n hn => h n (List.mem_of_mem_drop hn)) c hc
  · exact renderGroups_lt h c hc

/-- The text of an address is ASCII. -/
theorem render_lt (ip : IpAddr) : ∀ c ∈ render ip, c < 128 := by
  cases ip with
  | v4 octets => exact renderV4_lt (numbers_lt octets)
  | v6 octets => exact renderV6_lt (segments_lt (numbers_lt octets))

end IdenGrid.Lib.IpText
