import IdenGrid.Edge.Sddl
import IdenGrid.Lib.Results

/-! # What a security descriptor grants, and what the checks read of it

A `Descriptor` is what Windows writes as a text: an owner, a group, an access list, perhaps an audit
list. The entries of the access list are balanced in their parentheses; the expression of a
conditional one may nest them and hold quoted text. `pieces` is the part of the list that the checks
look at: the entries without an expression, and whatever stands innermost in an expression, up to the
first `S:`. `checks_iff`: the checks are sound exactly where the entries that they do not look at are
harmless, or where one of the pieces is refused. -/

namespace IdenGrid.Edge.Descriptors

open IdenGrid.Edge.Sddl IdenGrid.Lib.Json IdenGrid.Lib.PythonInt IdenGrid.Lib.Scan
open IdenGrid.Lib.Results IdenGrid.Lib.Segments IdenGrid.Lib.Unicode

/-! ## Entries -/

/-- The rights that have a code, those of registry keys included. -/
inductive Right
  | GA | GW | GR | GX | FA | FW | FR | FX | CC | DC | LC | SW | RP | WP | DT | LO | CR | SD | RC | WD
  | WO | KA | KR | KW | KX
  deriving DecidableEq, Repr

def Right.code : Right → List ℕ
  | GA => text "GA" | GW => text "GW" | GR => text "GR" | GX => text "GX" | FA => text "FA"
  | FW => text "FW" | FR => text "FR" | FX => text "FX" | CC => text "CC" | DC => text "DC"
  | LC => text "LC" | SW => text "SW" | RP => text "RP" | WP => text "WP" | DT => text "DT"
  | LO => text "LO" | CR => text "CR" | SD => text "SD" | RC => text "RC" | WD => text "WD"
  | WO => text "WO" | KA => text "KA" | KR => text "KR" | KW => text "KW" | KX => text "KX"

/-- The bits of an access mask that a right stands for. -/
def Right.bits : Right → ℕ
  | GA => 2 ^ 28 | GX => 2 ^ 29 | GW => 2 ^ 30 | GR => 2 ^ 31
  | FA => 0x1F01FF | FW => 0x120116 | FR => 0x120089 | FX => 0x1200A0
  | CC => 2 ^ 0 | DC => 2 ^ 1 | LC => 2 ^ 2 | SW => 2 ^ 3 | RP => 2 ^ 4 | WP => 2 ^ 5 | DT => 2 ^ 6
  | LO => 2 ^ 7 | CR => 2 ^ 8
  | SD => 2 ^ 16 | RC => 2 ^ 17 | WD => 2 ^ 18 | WO => 2 ^ 19
  | KA => 0xF003F | KR => 0x20019 | KW => 0x20006 | KX => 0x20019

/-- The rights of an entry: codes, or a number to the base 16. -/
inductive Rights
  | codes (l : List Right)
  | hex (digits : List ℕ) (nonempty : digits ≠ []) (ok : ∀ c ∈ digits, (hexVal c).isSome)

def Rights.spelled : Rights → List ℕ
  | codes l => l.flatMap Right.code
  | hex digits _ _ => 48 :: 120 :: digits

def Rights.bits : Rights → ℕ
  | codes l => l.foldl (fun mask r => mask ||| r.bits) 0
  | hex digits _ _ => digits.foldl (fun n c => 16 * n + (hexVal c).getD 0) 0

inductive AceFlag
  | containerInherit | objectInherit | noPropagate | inheritOnly | inherited | auditSuccess
  | auditFailure | trustProtected | critical
  deriving DecidableEq, Repr

def AceFlag.code : AceFlag → List ℕ
  | containerInherit => text "CI" | objectInherit => text "OI"
  | noPropagate => text "NP" | inheritOnly => text "IO"
  | inherited => text "ID" | auditSuccess => text "SA"
  | auditFailure => text "FA" | trustProtected => text "TP"
  | critical => text "CR"

/-- The parentheses outside quoted text are balanced, from this depth on. -/
def balanced : ℕ → Bool → List ℕ → Bool
  | depth, quoted, [] => depth == 0 && !quoted
  | depth, quoted, c :: t =>
    if c = 34 then balanced depth (!quoted) t
    else if quoted then balanced depth quoted t
    else if c = 40 then balanced (depth + 1) quoted t
    else if c = 41 then decide (0 < depth) && balanced (depth - 1) quoted t
    else balanced depth quoted t

/-- The expression of a conditional entry, without the parentheses around it. -/
structure Condition where
  expression : List ℕ
  balanced : balanced 0 false expression = true

/-- The kinds of entries of an access list. -/
inductive Kind
  | allow
  | deny
  | allowObject
  | denyObject
  | allowCallback (condition : Condition)
  | denyCallback (condition : Condition)
  | allowCallbackObject (condition : Condition)

def Kind.code : Kind → List ℕ
  | allow => text "A"
  | deny => text "D"
  | allowObject => text "OA"
  | denyObject => text "OD"
  | allowCallback _ => text "XA"
  | denyCallback _ => text "XD"
  | allowCallbackObject _ => text "ZA"

def Kind.condition : Kind → Option Condition
  | allowCallback e | denyCallback e | allowCallbackObject e => some e
  | _ => none

/-- The kinds that grant what the entry names. -/
def Kind.Allows : Kind → Prop
  | deny | denyObject | denyCallback _ => False
  | _ => True

/-- Neither a parenthesis, a colon nor a semicolon. -/
def Free (t : List ℕ) : Prop := ∀ c ∈ t, c ≠ 40 ∧ c ≠ 41 ∧ c ≠ 58 ∧ c ≠ 59

instance (t : List ℕ) : Decidable (Free t) := inferInstanceAs (Decidable (∀ c ∈ t, _))

structure Entry where
  kind : Kind
  flags : List AceFlag
  rights : Rights
  object : List ℕ
  inheritObject : List ℕ
  trustee : List ℕ
  object_free : Free object
  inheritObject_free : Free inheritObject
  trustee_free : Free trustee

/-- The six fields of an entry, as texts. -/
def Entry.ace (e : Entry) : Ace :=
  ⟨e.kind.code, e.flags.flatMap AceFlag.code, e.rights.spelled, e.object, e.inheritObject, e.trustee⟩

def Entry.body (e : Entry) : List ℕ :=
  glue 59 e.ace.aceType ([e.ace.flags, e.ace.rights, e.object, e.inheritObject, e.trustee] ++
    (e.kind.condition.map fun x => 40 :: (x.expression ++ [41])).toList)

def Entry.spelled (e : Entry) : List ℕ := 40 :: (e.body ++ [41])

/-- The entry does not grant a right of the mask on the object itself to a stranger. -/
def Entry.Safe (mask : ℕ) (e : Entry) : Prop :=
  e.kind.Allows → AceFlag.inheritOnly ∉ e.flags → e.trustee ∉ systemSids ++ adminSids →
    e.rights.bits &&& mask = 0

/-- Full access for SYSTEM, not inherited. -/
def Entry.FullSystem (e : Entry) : Prop :=
  e.kind = .allow ∧ e.flags = [] ∧ e.object = [] ∧ e.inheritObject = [] ∧ e.trustee ∈ systemSids ∧
    (e.rights.bits = 0x1F01FF ∨ e.rights = .codes [.GA])

/-- Reading for LOCAL SERVICE. -/
def Entry.ReadService (e : Entry) : Prop :=
  e.kind = .allow ∧ e.flags = [] ∧ e.object = [] ∧ e.inheritObject = [] ∧
    e.trustee ∈ localServiceSids ∧ (e.rights.bits = 0x120089 ∨ e.rights = .codes [.GR])

/-! ## Descriptors -/

inductive DaclFlag
  | isProtected | autoInheritRequired | autoInherited | noAccessControl
  deriving DecidableEq, Repr

def DaclFlag.code : DaclFlag → List ℕ
  | isProtected => text "P"
  | autoInheritRequired => text "AR"
  | autoInherited => text "AI"
  | noAccessControl => text "NO_ACCESS_CONTROL"

structure Descriptor where
  owner : Option (List ℕ)
  group : Option (List ℕ)
  flags : List DaclFlag
  entries : List Entry
  sacl : Option (List ℕ)
  owner_free : ∀ t ∈ owner, Free t
  group_free : ∀ t ∈ group, Free t

/-- A part of a descriptor, behind its letter. -/
def part (letter : String) (t : Option (List ℕ)) : List ℕ := t.elim [] (text letter ++ ·)

def Descriptor.sddl (d : Descriptor) : List ℕ :=
  part "O:" d.owner ++ (part "G:" d.group ++ (text "D:" ++
    (d.flags.flatMap DaclFlag.code ++ (d.entries.flatMap Entry.spelled ++ part "S:" d.sacl))))

/-- A protected list of two entries: full access for SYSTEM and reading for LOCAL SERVICE. -/
def Descriptor.Restricted (d : Descriptor) : Prop :=
  .isProtected ∈ d.flags ∧ ∃ s l : Entry, (d.entries = [s, l] ∨ d.entries = [l, s]) ∧
    s.FullSystem ∧ l.ReadService

/-! ## What the checks look at -/

/-- An entry, or what stands between parentheses in the expression of one. -/
inductive Piece
  | entry (e : Entry)
  | stray (g : List ℕ)

def Piece.group : Piece → List ℕ
  | entry e => e.body
  | stray g => g

/-- The list ends for the checks at the first `S:`. -/
def pieces : List Entry → List Piece
  | [] => []
  | e :: l =>
    match e.kind.condition with
    | none => .entry e :: pieces l
    | some _ =>
      (groups (before (text "S:") e.spelled)).map .stray ++
        if find (text "S:") e.spelled = none then pieces l else []

/-- The code knows the kind, the flags and the rights. -/
def Rights.Known : Rights → Prop
  | codes l => ∀ r ∈ l, r ≠ .KA ∧ r ≠ .KR ∧ r ≠ .KW ∧ r ≠ .KX
  | hex _ _ _ => True

def Entry.Known (e : Entry) : Prop :=
  (e.kind = .allow ∨ e.kind = .deny) ∧ .trustProtected ∉ e.flags ∧ .critical ∉ e.flags ∧
    e.rights.Known

/-- The directory check takes the piece. -/
def Piece.Passes (U : IdenGrid.Lib.PythonInt.Unicode) (mask : ℕ) : Piece → Prop
  | entry e => e.Known ∧ e.Safe mask
  | stray g => ∃ ace ∈ aceOf g, directoryAceOk U mask ace = true

/-- The file check takes the piece for the entry of SYSTEM. -/
def Piece.System (U : IdenGrid.Lib.PythonInt.Unicode) : Piece → Prop
  | entry e => e.rights.Known ∧ e.FullSystem
  | stray g => ∃ ace ∈ aceOf g, fileAceOk U ace = true ∧ ace.trustee ∈ systemSids

/-- The file check takes the piece for the entry of LOCAL SERVICE. -/
def Piece.Service (U : IdenGrid.Lib.PythonInt.Unicode) : Piece → Prop
  | entry e => e.rights.Known ∧ e.ReadService
  | stray g => ∃ ace ∈ aceOf g, fileAceOk U ace = true ∧ ace.trustee ∈ localServiceSids

/-! ## The text up to the audit list -/

theorem marker_head {h c : ℕ} {x y : List ℕ} (hy : ∀ d ∈ y.head?, d ≠ c) : NoCross [h, c] x y :=
  noCross_of_head fun d hd hmem => hy d hd (List.mem_singleton.mp hmem)

/-- A text without the second character of the marker does not hold the marker. -/
theorem find_free {h c : ℕ} : ∀ {x : List ℕ}, c ∉ x → find [h, c] x = none
  | [], _ => rfl
  | d :: x, hx => by
    have ih : find [h, c] x = none := find_free fun hmem => hx (List.mem_cons_of_mem d hmem)
    rw [find, ih, if_neg]
    · rfl
    · intro hp
      obtain ⟨t, ht⟩ := List.isPrefixOf_iff_prefix.mp hp
      rw [← ht] at hx
      exact hx (by simp)

theorem Free.not_mem {t : List ℕ} {c : ℕ} (h : Free t) (hc : c ∈ [40, 41, 58, 59]) : c ∉ t := by
  intro hmem
  obtain ⟨h1, h2, h3, h4⟩ := h c hmem
  simp only [List.mem_cons, List.not_mem_nil, or_false] at hc
  rcases hc with rfl | rfl | rfl | rfl
  exacts [h1 rfl, h2 rfl, h3 rfl, h4 rfl]

theorem free_flatMap {α : Type*} {l : List α} {f : α → List ℕ} (h : ∀ a, Free (f a)) :
    Free (l.flatMap f) := by
  intro c hc
  obtain ⟨a, -, hca⟩ := List.mem_flatMap.mp hc
  exact h a c hca

theorem DaclFlag.code_free (f : DaclFlag) : Free f.code := by cases f <;> decide

theorem AceFlag.code_free (f : AceFlag) : Free f.code := by cases f <;> decide

theorem Right.code_free (r : Right) : Free r.code := by cases r <;> decide

theorem Kind.code_free (k : Kind) : Free k.code := by cases k <;> simp only [Kind.code] <;> decide

theorem hex_bounds {c : ℕ} (h : (hexVal c).isSome) : 48 ≤ c ∧ c ≤ 57 ∨ 65 ≤ c ∧ c ≤ 102 := by
  unfold hexVal at h
  split_ifs at h <;> first | omega | cases h

theorem Rights.spelled_free : ∀ r : Rights, Free r.spelled
  | codes l => free_flatMap Right.code_free
  | hex digits _ ok => by
    intro c hc
    rcases List.mem_cons.mp hc with rfl | hc
    · decide
    rcases List.mem_cons.mp hc with rfl | hc
    · decide
    have := hex_bounds (ok c hc)
    omega

/-- The part goes before the marker `D:`. -/
theorem find_part (letter : String) {t : Option (List ℕ)} {y : List ℕ}
    (hl : ∃ c, c ≠ 58 ∧ c ≠ 68 ∧ text letter = [c, 58]) (ht : ∀ x ∈ t, Free x)
    (hy : ∀ c ∈ y.head?, c ≠ 58) :
    (∀ c ∈ (part letter t ++ y).head?, c ≠ 58) ∧
      find (text "D:") (part letter t ++ y) =
        (find (text "D:") y).map (· + (part letter t).length) := by
  obtain ⟨c, hc, hd, hletter⟩ := hl
  rcases t with _ | t
  · exact ⟨hy, by simp [part]⟩
  have hfree := (ht t rfl).not_mem (c := 58) (by decide)
  have hmarker : text "D:" = [68, 58] := rfl
  have hhead : ∀ c ∈ (t ++ y).head?, c ≠ 58 := by
    rcases t with _ | ⟨b, t⟩
    · exact hy
    · rintro _ ⟨⟩ rfl
      exact hfree List.mem_cons_self
  have hpart : part letter (some t) ++ y = [c, 58] ++ (t ++ y) := by
    rw [part, Option.elim_some, hletter, List.append_assoc]
  have hfind : find [68, 58] [c, 58] = none := by
    have hfirst : ¬ ([68, 58] : List ℕ).isPrefixOf [c, 58] = true := by
      intro hp
      obtain ⟨u, hu⟩ := List.isPrefixOf_iff_prefix.mp hp
      exact hd (List.cons.inj hu).1.symm
    rw [find, if_neg hfirst]
    rfl
  refine ⟨?_, ?_⟩
  · rw [hpart]
    rintro _ ⟨⟩
    exact hc
  · rw [hpart, hmarker, find_append_of_none (by simp) hfind (marker_head hhead),
      find_append_of_none (by simp) (find_free hfree) (marker_head hy), Option.map_map]
    congr 1
    funext n
    simp only [Function.comp_apply, part, Option.elim_some, hletter, List.length_append]
    omega

/-- What the checks take as the text of the entries. -/
def shown : List Entry → List ℕ
  | [] => []
  | e :: l =>
    before (text "S:") e.spelled ++ if find (text "S:") e.spelled = none then shown l else []

theorem before_entries (sacl : Option (List ℕ)) : ∀ l : List Entry,
    before (text "S:") (l.flatMap Entry.spelled ++ part "S:" sacl) = shown l
  | [] => by
    rcases sacl with _ | t
    · rfl
    · rw [List.flatMap_nil, List.nil_append, part, Option.elim_some,
        before_at_start (List.prefix_append _ t)]
      rfl
  | e :: l => by
    have hm : text "S:" ≠ [] := by decide
    rw [List.flatMap_cons, List.append_assoc, shown]
    rcases hfind : find (text "S:") e.spelled with _ | n
    · have hhead : ∀ c ∈ (l.flatMap Entry.spelled ++ part "S:" sacl).head?, c ≠ 58 := by
        rcases l with _ | ⟨e', l⟩
        · rcases sacl with _ | t
          · simp [part]
          · rintro _ ⟨⟩
            decide
        · rintro _ ⟨⟩
          decide
      have hbefore : before (text "S:") e.spelled = e.spelled := by rw [before, hfind]
      rw [before_append_of_none hm hfind (marker_head hhead), before_entries sacl l, hbefore,
        if_pos rfl]
    · rw [before_append_of_some hm hfind, if_neg (by simp), List.append_nil]

/-- **The list that the checks see**, up to the first `S:` in the expression of an entry. -/
theorem dacl_sddl (d : Descriptor) :
    dacl d.sddl = some (text "D:" ++ (d.flags.flatMap DaclFlag.code ++ shown d.entries)) := by
  have hm : text "S:" ≠ [] := by decide
  set rest := d.flags.flatMap DaclFlag.code ++
    (d.entries.flatMap Entry.spelled ++ part "S:" d.sacl) with hrest
  have hstart : ∀ c ∈ (text "D:" ++ rest).head?, c ≠ 58 := by
    rintro _ ⟨⟩
    decide
  obtain ⟨hgroup, hfind'⟩ := find_part "G:" ⟨71, by decide, by decide, rfl⟩ d.group_free hstart
  obtain ⟨-, hfind⟩ := find_part "O:" ⟨79, by decide, by decide, rfl⟩ d.owner_free hgroup
  have hbefore : before (text "S:") rest = d.flags.flatMap DaclFlag.code ++ shown d.entries := by
    have hfree := (free_flatMap (l := d.flags) DaclFlag.code_free).not_mem (c := 58) (by decide)
    have hhead : ∀ c ∈ (d.entries.flatMap Entry.spelled ++ part "S:" d.sacl).head?, c ≠ 58 := by
      rcases d.entries with _ | ⟨e, l⟩
      · rcases d.sacl with _ | t
        · simp [part]
        · rintro _ ⟨⟩
          decide
      · rintro _ ⟨⟩
        decide
    rw [hrest, before_append_of_none hm (find_free hfree) (marker_head hhead), before_entries]
  have hdrop : d.sddl.drop ((part "G:" d.group).length + (part "O:" d.owner).length) =
      text "D:" ++ rest := by
    rw [Descriptor.sddl, ← List.append_assoc, Nat.add_comm, ← List.length_append, List.drop_left]
  have hsddl : find (text "D:") d.sddl =
      some ((part "G:" d.group).length + (part "O:" d.owner).length) := by
    rw [Descriptor.sddl, ← hrest, hfind, hfind', find_at_start (List.prefix_append _ rest)]
    simp
  have hskip : d.sddl.drop ((part "G:" d.group).length + (part "O:" d.owner).length + 2) = rest := by
    rw [← List.drop_drop, hdrop]
    rfl
  rw [dacl, hsddl, Option.map_some, hdrop, hskip, ← hbefore, before]
  rcases find (text "S:") rest with _ | n
  · rfl
  · have htake : (text "D:" ++ rest).take ((text "D:").length + n) = text "D:" ++ rest.take n :=
      List.take_length_add_append n
    exact congrArg some htake

/-! ## The groups -/

theorem groups_append (y : List ℕ) : ∀ x : List ℕ,
    groups (x ++ 41 :: y) = groups (x ++ [41]) ++ groups y
  | [] => rfl
  | c :: x => by
    have hstop : ∀ z : List ℕ, ((x ++ 41 :: z).dropWhile fun c => !isParen c).head? =
        ((x ++ [41]).dropWhile fun c => !isParen c).head? := by
      intro z
      rw [List.dropWhile_append, List.dropWhile_append]
      split <;> simp [isParen, List.head?_append]
    have htake : ((x ++ 41 :: y).takeWhile fun c => !isParen c) =
        (x ++ [41]).takeWhile fun c => !isParen c := by
      rw [List.takeWhile_append, List.takeWhile_append]
      split <;> simp [isParen]
    rw [List.cons_append, List.cons_append, groups, groups, hstop y, htake, groups_append y x]
    split <;> rfl

theorem groups_free {y : List ℕ} : ∀ {x : List ℕ}, 40 ∉ x → groups (x ++ y) = groups y
  | [], _ => rfl
  | c :: x, h => by
    have hc : c ≠ 40 := fun hc => h (hc ▸ List.mem_cons_self)
    rw [List.cons_append, groups, if_neg fun h => hc h.1,
      groups_free fun hmem => h (List.mem_cons_of_mem c hmem)]

/-- A group without parentheses is found. -/
theorem groups_flat {x : List ℕ} (h : ∀ c ∈ x, isParen c = false) : groups (40 :: (x ++ [41])) = [x] := by
  have hx : ∀ c ∈ x, (!isParen c) = true := fun c hc => by rw [h c hc]; rfl
  have hnone : 40 ∉ x := fun hmem => by simpa [isParen] using h 40 hmem
  rw [groups, List.dropWhile_append_of_pos hx, List.takeWhile_append_of_pos hx, if_pos ⟨rfl, rfl⟩,
    groups_free hnone]
  simp [groups, isParen]

/-! ## Entries without an expression -/

theorem Entry.fields_free (e : Entry) : Free e.kind.code ∧
    ∀ t ∈ [e.ace.flags, e.ace.rights, e.object, e.inheritObject, e.trustee], Free t := by
  refine ⟨e.kind.code_free, fun t ht => ?_⟩
  simp only [List.mem_cons, List.not_mem_nil, or_false] at ht
  rcases ht with rfl | rfl | rfl | rfl | rfl
  · exact free_flatMap AceFlag.code_free
  · exact e.rights.spelled_free
  · exact e.object_free
  · exact e.inheritObject_free
  · exact e.trustee_free

section Plain

variable {e : Entry} (h : e.kind.condition = none)
include h

theorem Entry.body_plain : e.body =
    glue 59 e.kind.code [e.ace.flags, e.ace.rights, e.object, e.inheritObject, e.trustee] := by
  rw [Entry.body, h]
  rfl

/-- The text holds no parenthesis and no colon. -/
theorem Entry.mem_body {c : ℕ} (hc : c ∈ e.body) : c ≠ 40 ∧ c ≠ 41 ∧ c ≠ 58 := by
  obtain ⟨hkind, hfields⟩ := e.fields_free
  rw [Entry.body_plain h, glue, tails, List.mem_append] at hc
  rcases hc with hc | hc
  · obtain ⟨h1, h2, h3, -⟩ := hkind c hc
    exact ⟨h1, h2, h3⟩
  · obtain ⟨t, ht, hct⟩ := List.mem_flatMap.mp hc
    rcases List.mem_cons.mp hct with rfl | hct
    · decide
    · obtain ⟨h1, h2, h3, -⟩ := hfields t ht c hct
      exact ⟨h1, h2, h3⟩

theorem Entry.aceOf_body : aceOf e.body = some e.ace := by
  obtain ⟨hkind, hfields⟩ := e.fields_free
  have hseg := segments_glue (hkind.not_mem (c := 59) (by decide)) fun t ht =>
    (hfields t ht).not_mem (c := 59) (by decide)
  rw [aceOf, Entry.body_plain h, hseg]
  rfl

theorem Entry.find_plain : find (text "S:") e.spelled = none := by
  refine find_free fun hc => ?_
  rcases List.mem_cons.mp hc with hc | hc
  · cases hc
  rcases List.mem_append.mp hc with hc | hc
  · exact (Entry.mem_body h hc).2.2 rfl
  · cases List.mem_singleton.mp hc

theorem Entry.groups_plain : groups e.spelled = [e.body] :=
  groups_flat fun c hc => by
    obtain ⟨h1, h2, -⟩ := Entry.mem_body h hc
    simp [isParen, h1, h2]

end Plain

/-- The groups that the checks find are those of the pieces. -/
theorem groups_shown : ∀ l : List Entry, groups (shown l) = (pieces l).map Piece.group
  | [] => rfl
  | e :: l => by
    have ih := groups_shown l
    have hclosed (hfind : find (text "S:") e.spelled = none) :
        groups (before (text "S:") e.spelled ++ shown l) =
          groups (before (text "S:") e.spelled) ++ groups (shown l) := by
      have hbefore : before (text "S:") e.spelled = (40 :: e.body) ++ [41] := by rw [before, hfind]; rfl
      rw [hbefore, List.append_assoc]
      exact groups_append (shown l) (40 :: e.body)
    rw [shown, pieces]
    rcases hcond : e.kind.condition with _ | x
    · have hfind := Entry.find_plain hcond
      have hbefore : before (text "S:") e.spelled = e.spelled := by rw [before, hfind]
      rw [if_pos hfind, hclosed hfind, hbefore, Entry.groups_plain hcond, ih]
      rfl
    · dsimp only
      rw [List.map_append, List.map_map]
      have hmap : Piece.group ∘ Piece.stray = id := rfl
      rw [hmap, List.map_id]
      by_cases hfind : find (text "S:") e.spelled = none
      · rw [if_pos hfind, if_pos hfind, hclosed hfind, ih]
      · rw [if_neg hfind, if_neg hfind, List.append_nil, List.map_nil, List.append_nil]

theorem groups_dacl (d : Descriptor) :
    groups (text "D:" ++ (d.flags.flatMap DaclFlag.code ++ shown d.entries)) =
      (pieces d.entries).map Piece.group := by
  have hflags := (free_flatMap (l := d.flags) DaclFlag.code_free).not_mem (c := 40) (by decide)
  rw [groups_free (by decide), groups_free hflags, groups_shown]

/-! ## Rights -/

@[simp] theorem Right.code_upper (r : Right) : r.code.map upper = r.code := by cases r <;> decide

theorem Right.code_pair (r : Right) : ∃ a b, r.code = [a, b] ∧ a ≠ 48 := by
  cases r <;> exact ⟨_, _, rfl, by decide⟩

theorem Right.eq_of_code {r r' : Right} (hr : r' ∈ [FA, GA, FR, GR]) (h : r.code = r'.code) :
    r = r' := by
  simp only [List.mem_cons, List.not_mem_nil, or_false] at hr
  rcases hr with rfl | rfl | rfl | rfl <;> cases r <;> first | rfl | exact absurd h (by decide)

theorem Right.lookup_code (r : Right) : rightCodes.lookup r.code =
    if r ≠ .KA ∧ r ≠ .KR ∧ r ≠ .KW ∧ r ≠ .KX then some r.bits else none := by
  cases r <;> decide

theorem pairs_codes {α : Type*} {f : α → List ℕ} (hf : ∀ a, ∃ b c, f a = [b, c]) : ∀ l : List α,
    pairs (l.flatMap f) = l.map f
  | [] => rfl
  | a :: l => by
    obtain ⟨b, c, hbc⟩ := hf a
    rw [List.flatMap_cons, hbc, List.map_cons, ← pairs_codes hf l, hbc]
    rfl

instance : (r : Rights) → Decidable r.Known
  | .codes l => inferInstanceAs (Decidable (∀ r ∈ l, _))
  | .hex _ _ _ => isTrue trivial

theorem codesMask_codes (l : List Right) (mask : ℕ) :
    (l.map Right.code).foldlM (fun mask code =>
      (rightCodes.lookup (code.map upper)).map (mask ||| ·)) mask =
      if (Rights.codes l).Known then some (l.foldl (fun mask r => mask ||| r.bits) mask) else none := by
  induction l generalizing mask with
  | nil => rfl
  | cons r l ih =>
    rw [List.map_cons, List.foldlM_cons, Right.code_upper, Right.lookup_code]
    by_cases hr : r ≠ .KA ∧ r ≠ .KR ∧ r ≠ .KW ∧ r ≠ .KX
    · have hknown : (Rights.codes (r :: l)).Known ↔ (Rights.codes l).Known := by
        simp only [Rights.Known, List.forall_mem_cons]
        exact and_iff_right hr
      simp only [if_pos hr, hknown, Option.map_some, Option.bind_eq_bind, Option.bind_some, ih,
        List.foldl_cons]
    · have hknown : ¬ (Rights.codes (r :: l)).Known := fun h => hr (h r List.mem_cons_self)
      rw [if_neg hr, if_neg hknown]
      rfl

theorem foldl_hex : ∀ (l : List ℕ) (n : ℕ), (∀ c ∈ l, (hexVal c).isSome) →
    l.foldl (fun n c => ((hexVal c).map (16 * n + ·)).getD n) n =
      l.foldl (fun n c => 16 * n + (hexVal c).getD 0) n
  | [], _, _ => rfl
  | c :: l, n, h => by
    obtain ⟨v, hv⟩ := Option.isSome_iff_exists.mp (h c List.mem_cons_self)
    simp only [List.foldl_cons, hv, Option.map_some, Option.getD_some]
    exact foldl_hex l _ fun d hd => h d (List.mem_cons_of_mem c hd)

theorem hexSeparated_digits {digits : List ℕ} (hne : digits ≠ [])
    (h : ∀ c ∈ digits, (hexVal c).isSome) : hexSeparated digits = true := by
  obtain ⟨c, t, rfl⟩ := List.exists_cons_of_ne_nil hne
  have hlast := h _ (List.getLast_mem hne)
  have hpairs : ∀ p ∈ (c :: t).zip (c :: t).tail,
      ((hexVal p.1).isSome || (hexVal p.2).isSome) = true := fun p hp => by
    rw [h p.1 (List.of_mem_zip hp).1, Bool.true_or]
  rw [hexSeparated, List.getLast?_eq_some_getLast hne, List.head?_cons, Option.any_some,
    Option.any_some, h c List.mem_cons_self, hlast, List.all_eq_true.mpr hpairs]
  rfl

theorem hexMagnitude_digits (U : IdenGrid.Lib.PythonInt.Unicode) {digits : List ℕ}
    (hne : digits ≠ []) (h : ∀ c ∈ digits, (hexVal c).isSome) :
    hexMagnitude U digits = some (digits.foldl (fun n c => 16 * n + (hexVal c).getD 0) 0) := by
  have hsame : digits.map (transform U) = digits := by
    refine (List.map_congr_left fun c hc => ?_).trans (List.map_id _)
    have := hex_bounds (h c hc)
    exact if_pos (by omega)
  have hhead : ¬ digits.head? = some 95 := fun hhead =>
    absurd (h 95 (List.mem_of_mem_head? hhead)) (by decide)
  have hrun : ∀ c ∈ digits, inHexRun c = true := fun c hc => by rw [inHexRun, h c hc, Bool.true_or]
  unfold hexMagnitude
  dsimp only
  rw [hsame, if_neg hhead, List.takeWhile_eq_self_iff.mpr hrun, List.dropWhile_eq_nil_iff.mpr hrun,
    if_pos ⟨hexSeparated_digits hne h, rfl⟩, foldl_hex digits 0 h]

/-- **The rights are read as they are meant**, where all of them are known. -/
theorem rightsMask_spelled (U : IdenGrid.Lib.PythonInt.Unicode) : ∀ r : Rights,
    rightsMask U r.spelled = if r.Known then some r.bits else none
  | .hex digits hne h => by
    rw [if_pos (show (Rights.hex digits hne h).Known from trivial), Rights.spelled, rightsMask, if_pos (Or.inl rfl), hexMagnitude_digits U hne h]
    rfl
  | .codes l => by
    have hlength : ∀ l : List Right, (l.flatMap Right.code).length % 2 = 0 := by
      intro l
      induction l with
      | nil => rfl
      | cons r l ih =>
        obtain ⟨a, b, hr, -⟩ := r.code_pair
        rw [List.flatMap_cons, List.length_append, hr, List.length_cons, List.length_singleton]
        omega
    have hmask : rightsMask U (l.flatMap Right.code) = rightsMask.codesMask (l.flatMap Right.code) := by
      rcases l with _ | ⟨r, l⟩
      · rfl
      obtain ⟨a, b, hr, ha⟩ := r.code_pair
      rw [List.flatMap_cons, hr, List.cons_append]
      unfold rightsMask
      split
      · next h => exact absurd (List.cons.inj h).1 ha
      · rfl
    rw [Rights.spelled, hmask, rightsMask.codesMask, if_neg (by rw [hlength l]; decide),
      pairs_codes fun r => (r.code_pair).imp fun a h => h.imp fun b h => h.1, codesMask_codes]
    rfl

theorem Rights.map_upper {r : Rights} {c : Right} (hc : c ∈ [.FA, .GA, .FR, .GR]) :
    r.spelled.map upper = c.code ↔ r = codes [c] := by
  obtain ⟨a, b, hcode, ha⟩ := c.code_pair
  refine ⟨fun h => ?_, ?_⟩
  · rcases r with l | ⟨digits, hne, hok⟩
    · rcases l with _ | ⟨r, _ | ⟨r', l⟩⟩
      · rw [hcode] at h
        cases h
      · rw [spelled, List.flatMap_singleton, Right.code_upper] at h
        rw [Right.eq_of_code hc h]
      · obtain ⟨x, y, hr, -⟩ := r.code_pair
        obtain ⟨z, w, hr', -⟩ := r'.code_pair
        have hlength := congrArg List.length h
        simp only [spelled, List.flatMap_cons, hr, hr', hcode, List.length_map, List.length_append,
          List.length_cons, List.length_nil] at hlength
        omega
    · rw [hcode] at h
      exact absurd (List.cons.inj h).1.symm ha
  · rintro rfl
    rw [spelled, List.flatMap_singleton, Right.code_upper]

/-! ## The checks of an entry -/

theorem AceFlag.code_pair (f : AceFlag) : ∃ a b, f.code = [a, b] := by cases f <;> exact ⟨_, _, rfl⟩

theorem AceFlag.code_mem (f : AceFlag) :
    f.code ∈ aceFlags ↔ f ≠ .trustProtected ∧ f ≠ .critical := by cases f <;> decide

theorem AceFlag.inheritOnly_iff (f : AceFlag) : f.code = text "IO" ↔ f = .inheritOnly := by
  cases f <;> decide

theorem flags_even : ∀ l : List AceFlag, (l.flatMap AceFlag.code).length % 2 = 0
  | [] => rfl
  | f :: l => by
    obtain ⟨a, b, hf⟩ := f.code_pair
    have ih := flags_even l
    rw [List.flatMap_cons, List.length_append, hf, List.length_cons, List.length_singleton]
    omega

theorem Kind.code_allow (k : Kind) : k.code = text "A" ↔ k = .allow := by
  cases k <;> simp [code, text]

theorem Kind.code_deny (k : Kind) : k.code = text "D" ↔ k = .deny := by
  cases k <;> simp [code, text]

/-- **The directory check of an entry**: it is known to the code, and harmless. -/
theorem directoryAceOk_iff (U : IdenGrid.Lib.PythonInt.Unicode) (mask : ℕ) (e : Entry) :
    directoryAceOk U mask e.ace = true ↔ e.Known ∧ e.Safe mask := by
  have hrights : rightsMask U e.ace.rights = if e.rights.Known then some e.rights.bits else none :=
    rightsMask_spelled U e.rights
  rw [directoryAceOk, hrights]
  by_cases hk : e.rights.Known
  · have hflags : pairs e.ace.flags = e.flags.map AceFlag.code := pairs_codes AceFlag.code_pair e.flags
    have hall : (e.flags.map AceFlag.code).all (· ∈ aceFlags) = true ↔
        .trustProtected ∉ e.flags ∧ .critical ∉ e.flags := by
      simp only [List.all_map, List.all_eq_true, Function.comp_apply, decide_eq_true_eq,
        AceFlag.code_mem]
      exact ⟨fun h => ⟨fun hm => (h _ hm).1 rfl, fun hm => (h _ hm).2 rfl⟩,
        fun h f hf => ⟨fun hm => h.1 (hm ▸ hf), fun hm => h.2 (hm ▸ hf)⟩⟩
    have hinherit : text "IO" ∈ e.flags.map AceFlag.code ↔ .inheritOnly ∈ e.flags := by
      simp only [List.mem_map, AceFlag.inheritOnly_iff, exists_eq_right]
    have heven : (e.ace.flags.length % 2 == 0) = true := by
      rw [show e.ace.flags.length % 2 = 0 from flags_even e.flags]
      rfl
    have hallows : e.kind = .allow ∨ e.kind = .deny → (e.kind = .allow ↔ e.kind.Allows) := by
      rintro (hkind | hkind) <;> simp [hkind, Kind.Allows]
    rw [if_pos hk]
    simp only [hflags, heven, Bool.and_eq_true, Bool.not_eq_true', hall, Bool.and_eq_false_iff,
      decide_eq_true_eq, decide_eq_false_iff_not, not_not, bne_eq_false_iff_eq, and_true,
      show e.ace.aceType = e.kind.code from rfl, Kind.code_allow, Kind.code_deny, hinherit,
      show e.ace.trustee = e.trustee from rfl]
    rw [Entry.Known, Entry.Safe]
    constructor
    · rintro ⟨⟨hkind, hf⟩, hsafe⟩
      refine ⟨⟨hkind, hf.1, hf.2, hk⟩, fun ha hi ht => ?_⟩
      rcases hsafe with ((hsafe | hsafe) | hsafe) | hsafe
      · exact absurd ((hallows hkind).mpr ha) hsafe
      · exact absurd hsafe hi
      · exact absurd hsafe ht
      · exact hsafe
    · rintro ⟨⟨hkind, h1, h2, -⟩, hsafe⟩
      refine ⟨⟨hkind, h1, h2⟩, ?_⟩
      by_cases ha : e.kind = .allow
      · by_cases hi : .inheritOnly ∈ e.flags
        · exact Or.inl (Or.inl (Or.inr hi))
        · by_cases ht : e.trustee ∈ systemSids ++ adminSids
          · exact Or.inl (Or.inr ht)
          · exact Or.inr (hsafe ((hallows hkind).mp ha) hi ht)
      · exact Or.inl (Or.inl (Or.inl ha))
  · rw [if_neg hk]
    simp only [Bool.false_eq_true, false_iff]
    exact fun h => hk h.1.2.2.2

theorem disjoint_sids {t : List ℕ} (h : t ∈ localServiceSids) : t ∉ systemSids := by
  simp only [localServiceSids, List.mem_cons, List.not_mem_nil, or_false] at h
  rcases h with rfl | rfl <;> decide

/-- The file check of the rights. -/
theorem fileRights_iff (U : IdenGrid.Lib.PythonInt.Unicode) (r : Rights) {a b : Right} {n : ℕ}
    (ha : a ∈ [.FA, .GA, .FR, .GR]) (hb : b ∈ [.FA, .GA, .FR, .GR]) (hbits : a.bits = n)
    (hknown : (Rights.codes [a]).Known) (hknown' : (Rights.codes [b]).Known) :
    (r.spelled.map upper ∈ [a.code, b.code] ∨ rightsMask U r.spelled = some n) ↔
      r.Known ∧ (r.bits = n ∨ r = .codes [b]) := by
  rw [List.mem_cons, List.mem_singleton, Rights.map_upper ha, Rights.map_upper hb,
    rightsMask_spelled]
  constructor
  · rintro ((rfl | rfl) | h)
    · refine ⟨hknown, Or.inl ?_⟩
      rw [← hbits]
      simp [Rights.bits]
    · exact ⟨hknown', Or.inr rfl⟩
    · split at h
      · next hk => exact ⟨hk, Or.inl (Option.some.inj h)⟩
      · cases h
  · rintro ⟨hk, rfl | rfl⟩
    · rw [if_pos hk]
      exact Or.inr rfl
    · exact Or.inl (Or.inr rfl)

theorem fileAceOk_eq (U : IdenGrid.Lib.PythonInt.Unicode) (e : Entry) : fileAceOk U e.ace = true ↔
    (e.kind = .allow ∧ e.flags = [] ∧ e.object = [] ∧ e.inheritObject = []) ∧
      if e.trustee ∈ systemSids then
        e.rights.Known ∧ (e.rights.bits = 0x1F01FF ∨ e.rights = .codes [.GA])
      else e.trustee ∈ localServiceSids ∧
        e.rights.Known ∧ (e.rights.bits = 0x120089 ∨ e.rights = .codes [.GR]) := by
  have hflags : e.ace.flags = [] ↔ e.flags = [] := by
    refine ⟨fun h => ?_, fun h => by rw [Entry.ace, h]; rfl⟩
    rcases hf : e.flags with _ | ⟨f, l⟩
    · rfl
    obtain ⟨a, b, hcode⟩ := f.code_pair
    rw [Entry.ace, hf, List.flatMap_cons, hcode] at h
    cases h
  have hfull := fileRights_iff U e.rights (a := .FA) (b := .GA) (n := 0x1F01FF) (by simp) (by simp)
    rfl (by decide) (by decide)
  have hread := fileRights_iff U e.rights (a := .FR) (b := .GR) (n := 0x120089) (by simp) (by simp)
    rfl (by decide) (by decide)
  rw [← hfull, ← hread, ← Kind.code_allow, ← hflags, fileAceOk]
  rw [Bool.and_eq_true]
  refine and_congr decide_eq_true_iff ?_
  by_cases ht : e.ace.trustee ∈ systemSids
  · rw [if_pos ht, if_pos (show e.trustee ∈ systemSids from ht), decide_eq_true_eq]
    rfl
  · rw [if_neg ht, if_neg (show e.trustee ∉ systemSids from ht), Bool.and_eq_true, decide_eq_true_eq,
      decide_eq_true_eq]
    rfl

/-- **The file check of an entry.** -/
theorem fileAceOk_iff (U : IdenGrid.Lib.PythonInt.Unicode) (e : Entry) :
    (fileAceOk U e.ace = true ∧ e.trustee ∈ systemSids ↔ e.rights.Known ∧ e.FullSystem) ∧
      (fileAceOk U e.ace = true ∧ e.trustee ∈ localServiceSids ↔
        e.rights.Known ∧ e.ReadService) := by
  rw [fileAceOk_eq, Entry.FullSystem, Entry.ReadService]
  constructor
  · constructor
    · rintro ⟨⟨⟨h1, h2, h3, h4⟩, hrights⟩, ht⟩
      rw [if_pos ht] at hrights
      exact ⟨hrights.1, h1, h2, h3, h4, ht, hrights.2⟩
    · rintro ⟨hk, h1, h2, h3, h4, ht, hrights⟩
      exact ⟨⟨⟨h1, h2, h3, h4⟩, by rw [if_pos ht]; exact ⟨hk, hrights⟩⟩, ht⟩
  · constructor
    · rintro ⟨⟨⟨h1, h2, h3, h4⟩, hrights⟩, ht⟩
      rw [if_neg (disjoint_sids ht)] at hrights
      exact ⟨hrights.2.1, h1, h2, h3, h4, ht, hrights.2.2⟩
    · rintro ⟨hk, h1, h2, h3, h4, ht, hrights⟩
      exact ⟨⟨⟨h1, h2, h3, h4⟩, by rw [if_neg (disjoint_sids ht)]; exact ⟨ht, hk, hrights⟩⟩, ht⟩

/-! ## The checks of a descriptor -/

theorem plain_of_mem_pieces {e : Entry} : ∀ {l : List Entry}, .entry e ∈ pieces l →
    e ∈ l ∧ e.kind.condition = none
  | e' :: l, h => by
    rw [pieces] at h
    rcases hcond : e'.kind.condition with _ | x
    · rw [hcond] at h
      rcases List.mem_cons.mp h with heq | h
      · rw [Piece.entry.inj heq]
        exact ⟨List.mem_cons_self, hcond⟩
      · exact ⟨List.mem_cons_of_mem e' (plain_of_mem_pieces h).1, (plain_of_mem_pieces h).2⟩
    · rw [hcond] at h
      rcases List.mem_append.mp h with h | h
      · obtain ⟨g, -, hg⟩ := List.mem_map.mp h
        cases hg
      · split at h
        · exact ⟨List.mem_cons_of_mem e' (plain_of_mem_pieces h).1, (plain_of_mem_pieces h).2⟩
        · cases h

theorem pieces_plain : ∀ {l : List Entry}, (∀ e ∈ l, e.kind.condition = none) →
    pieces l = l.map .entry
  | [], _ => rfl
  | e :: l, h => by
    rw [pieces, h e List.mem_cons_self, pieces_plain fun e' he' => h e' (List.mem_cons_of_mem e he')]
    rfl

theorem aces_sddl (d : Descriptor) : aces d.sddl =
    if pieces d.entries = [] then none else ((pieces d.entries).map Piece.group).mapM aceOf := by
  simp only [aces, dacl_sddl, Option.bind_eq_bind, Option.bind_some, groups_dacl, List.map_eq_nil_iff]

/-- What holds of the fields that the checks read holds of the fields of the entry. -/
theorem aceOf_entry {e : Entry} {l : List Entry} (he : .entry e ∈ pieces l) (f : Ace → Prop) :
    (∃ ace ∈ aceOf (Piece.entry e).group, f ace) ↔ f e.ace := by
  have hace : aceOf (Piece.entry e).group = some e.ace :=
    Entry.aceOf_body (plain_of_mem_pieces he).2
  simp [hace]

theorem all_aces {f : Ace → Bool} : ∀ gs : List (List ℕ),
    (∃ l, gs.mapM aceOf = some l ∧ l.all f = true) ↔ ∀ g ∈ gs, ∃ ace ∈ aceOf g, f ace = true
  | [] => by simp
  | g :: gs => by
    have ih := all_aces (f := f) gs
    simp only [List.forall_mem_cons, ← ih, mapM_cons_eq_some]
    constructor
    · rintro ⟨_, ⟨a, l, ha, hl, rfl⟩, hall⟩
      rw [List.all_cons, Bool.and_eq_true] at hall
      exact ⟨⟨a, ha, hall.1⟩, l, hl, hall.2⟩
    · rintro ⟨⟨a, ha, hf⟩, l, hl, hall⟩
      exact ⟨a :: l, ⟨a, l, ha, hl, rfl⟩, by rw [List.all_cons, hf, hall]; rfl⟩

/-- **The directory check** takes a list with pieces, all of which pass. -/
theorem respectsMask_iff (U : IdenGrid.Lib.PythonInt.Unicode) (d : Descriptor) (mask : ℕ) :
    windowsDirectorySddlRespectsMask U d.sddl mask = true ↔
      pieces d.entries ≠ [] ∧ ∀ p ∈ pieces d.entries, p.Passes U mask := by
  have hpasses : ∀ p ∈ pieces d.entries,
      (∃ ace ∈ aceOf p.group, directoryAceOk U mask ace = true) ↔ p.Passes U mask := by
    intro p hp
    rcases p with e | g
    · exact (aceOf_entry hp _).trans (directoryAceOk_iff U mask e)
    · rfl
  rw [windowsDirectorySddlRespectsMask, aces_sddl]
  by_cases hnil : pieces d.entries = []
  · simp [hnil]
  · have hall := all_aces (f := directoryAceOk U mask) ((pieces d.entries).map Piece.group)
    rw [if_neg hnil, and_iff_right hnil]
    simp only [List.forall_mem_map] at hall
    rw [← forall₂_congr hpasses, ← hall]
    rcases ((pieces d.entries).map Piece.group).mapM aceOf with _ | l
    · simp
    · simp

theorem shown_head : ∀ (l : List Entry), ∀ c ∈ (shown l).head?, c = 40
  | [], _, hc => by cases hc
  | e :: l, c, hc => by
    rw [shown] at hc
    rcases hfind : find (text "S:") e.spelled with _ | n
    · have hbefore : before (text "S:") e.spelled = e.spelled := by rw [before, hfind]
      rw [hbefore] at hc
      exact (Option.some.inj hc).symm
    · have hbefore : before (text "S:") e.spelled = e.spelled.take n := by rw [before, hfind]
      rw [hbefore, hfind, if_neg (by simp), List.append_nil] at hc
      rcases n with _ | n
      · cases hc
      · exact (Option.some.inj hc).symm

theorem protected_iff (d : Descriptor) :
    (text "D:P").isPrefixOf (text "D:" ++ (d.flags.flatMap DaclFlag.code ++ shown d.entries)) = true ↔
      d.flags.head? = some .isProtected := by
  have hp : text "D:P" = text "D:" ++ [80] := rfl
  rw [List.isPrefixOf_iff_prefix, hp, List.prefix_append_right_inj]
  rcases d.flags with _ | ⟨f, l⟩
  · refine ⟨fun ⟨t, ht⟩ => ?_, fun h => by cases h⟩
    rw [List.flatMap_nil, List.nil_append] at ht
    have h40 := shown_head d.entries 80 (by rw [← ht]; rfl)
    cases h40
  · cases f with
    | isProtected => exact ⟨fun _ => rfl, fun _ => ⟨_, rfl⟩⟩
    | _ =>
      refine ⟨fun ⟨t, ht⟩ => ?_, fun h => by cases h⟩
      cases (List.cons.inj ht).1

/-- One piece for SYSTEM, one for LOCAL SERVICE. -/
def Pair (U : IdenGrid.Lib.PythonInt.Unicode) (l : List Piece) : Prop :=
  ∃ p q : Piece, (l = [p, q] ∨ l = [q, p]) ∧ p.System U ∧ q.Service U

theorem system_iff (U : IdenGrid.Lib.PythonInt.Unicode) {p : Piece} {l : List Entry}
    (hp : p ∈ pieces l) : p.System U ↔
      ∃ ace ∈ aceOf p.group, fileAceOk U ace = true ∧ ace.trustee ∈ systemSids := by
  rcases p with e | g
  · exact (fileAceOk_iff U e).1.symm.trans (aceOf_entry hp fun ace =>
      fileAceOk U ace = true ∧ ace.trustee ∈ systemSids).symm
  · rfl

theorem service_iff (U : IdenGrid.Lib.PythonInt.Unicode) {p : Piece} {l : List Entry}
    (hp : p ∈ pieces l) : p.Service U ↔
      ∃ ace ∈ aceOf p.group, fileAceOk U ace = true ∧ ace.trustee ∈ localServiceSids := by
  rcases p with e | g
  · exact (fileAceOk_iff U e).2.symm.trans (aceOf_entry hp fun ace =>
      fileAceOk U ace = true ∧ ace.trustee ∈ localServiceSids).symm
  · rfl

/-- The check of two entries: one is of SYSTEM and the other of LOCAL SERVICE. -/
theorem two_aces (U : IdenGrid.Lib.PythonInt.Unicode) (a b : Ace) :
    ([a, b].all (fileAceOk U) && [a, b].any (fun ace => decide (ace.trustee ∈ systemSids)) &&
      [a, b].any fun ace => decide (ace.trustee ∈ localServiceSids)) = true ↔
      (fileAceOk U a = true ∧ a.trustee ∈ systemSids) ∧
          (fileAceOk U b = true ∧ b.trustee ∈ localServiceSids) ∨
        (fileAceOk U b = true ∧ b.trustee ∈ systemSids) ∧
          (fileAceOk U a = true ∧ a.trustee ∈ localServiceSids) := by
  simp only [List.all_cons, List.all_nil, List.any_cons, List.any_nil, Bool.and_true, Bool.or_false,
    Bool.and_eq_true, Bool.or_eq_true, decide_eq_true_eq]
  constructor
  · rintro ⟨⟨⟨ha, hb⟩, hs⟩, hl⟩
    rcases hs with hs | hs
    · exact Or.inl ⟨⟨ha, hs⟩, hb, hl.resolve_left fun h => disjoint_sids h hs⟩
    · exact Or.inr ⟨⟨hb, hs⟩, ha, hl.resolve_right fun h => disjoint_sids h hs⟩
  · rintro (⟨⟨ha, hs⟩, hb, hl⟩ | ⟨⟨hb, hs⟩, ha, hl⟩)
    · exact ⟨⟨⟨ha, hb⟩, Or.inl hs⟩, Or.inr hl⟩
    · exact ⟨⟨⟨ha, hb⟩, Or.inr hs⟩, Or.inl hl⟩

/-- **The file check** takes a protected list of two pieces, one of each kind. -/
theorem isRestricted_iff (U : IdenGrid.Lib.PythonInt.Unicode) (d : Descriptor) :
    windowsSddlIsRestricted U d.sddl = true ↔
      d.flags.head? = some .isProtected ∧ Pair U (pieces d.entries) := by
  rw [windowsSddlIsRestricted, dacl_sddl, aces_sddl, ← protected_iff]
  by_cases hlength : (pieces d.entries).length = 2
  · obtain ⟨p, q, hpq⟩ := List.length_eq_two.mp hlength
    have hp : p ∈ pieces d.entries := by simp [hpq]
    have hq : q ∈ pieces d.entries := by simp [hpq]
    have hpair : Pair U (pieces d.entries) ↔ p.System U ∧ q.Service U ∨ q.System U ∧ p.Service U := by
      rw [Pair, hpq]
      constructor
      · rintro ⟨x, y, h | h, hs, hl⟩ <;> cases h
        · exact Or.inl ⟨hs, hl⟩
        · exact Or.inr ⟨hs, hl⟩
      · rintro (h | h)
        · exact ⟨p, q, Or.inl rfl, h⟩
        · exact ⟨q, p, Or.inr rfl, h⟩
    rw [hpair, system_iff U hp, system_iff U hq, service_iff U hp, service_iff U hq, if_neg (by simp [hpq]),
      hpq, List.map_cons, List.map_cons, List.map_nil]
    rcases ha : aceOf p.group with _ | a
    · simp [ha]
    rcases hb : aceOf q.group with _ | b
    · simp [ha, hb]
    have hmap : [p.group, q.group].mapM aceOf = some [a, b] := by simp [ha, hb]
    rw [hmap]
    simp only [Option.mem_def, Option.some.injEq, exists_eq_left', Bool.and_assoc]
    rw [Bool.and_eq_true, Bool.and_eq_true, ← Bool.and_assoc, two_aces]
    simp
  · have hpair : ¬ Pair U (pieces d.entries) := by
      rintro ⟨p, q, h | h, -⟩ <;> simp [h] at hlength
    rw [iff_false_right fun h => hpair h.2]
    split
    · next list entries _ hentries =>
      have hlength' : entries.length ≠ 2 := by
        split at hentries
        · cases hentries
        · rwa [length_of_mapM hentries, List.length_map]
      simp [hlength']
    · simp

/-- **The checks are sound** exactly for these descriptors: the directory check where it refuses a
piece or where the entries that are no pieces are harmless; the file check where no entry is conditional
or where it refuses the pieces. -/
theorem checks_iff (U : IdenGrid.Lib.PythonInt.Unicode) (d : Descriptor) (mask : ℕ) :
    ((windowsDirectorySddlRespectsMask U d.sddl mask = true → ∀ e ∈ d.entries, e.Safe mask) ↔
      (∀ e ∈ d.entries, .entry e ∉ pieces d.entries → e.Safe mask) ∨ pieces d.entries = [] ∨
        ∃ p ∈ pieces d.entries, ¬ p.Passes U mask) ∧
    ((windowsSddlIsRestricted U d.sddl = true → d.Restricted) ↔
      (∀ e ∈ d.entries, e.kind.condition = none) ∨ d.flags.head? ≠ some .isProtected ∨
        ¬ Pair U (pieces d.entries)) := by
  constructor
  · rw [respectsMask_iff]
    constructor
    · intro h
      by_contra hc
      obtain ⟨h1, h2, h3⟩ := not_or.mp hc |>.imp_right not_or.mp
      have hpass : ∀ p ∈ pieces d.entries, p.Passes U mask := fun p hp => by
        by_contra hn
        exact h3 ⟨p, hp, hn⟩
      exact h1 fun e he _ => h ⟨h2, hpass⟩ e he
    · rintro h ⟨hne, hpass⟩ e he
      by_cases hpiece : .entry e ∈ pieces d.entries
      · exact (hpass _ hpiece).2
      · rcases h with h | h | ⟨p, hp, hn⟩
        · exact h e he hpiece
        · exact absurd h hne
        · exact absurd (hpass p hp) hn
  · rw [isRestricted_iff]
    constructor
    · intro h
      by_contra hc
      obtain ⟨h1, h2, h3⟩ := not_or.mp hc |>.imp_right not_or.mp
      obtain ⟨-, s, l, hentries, hs, hl⟩ := h ⟨not_not.mp h2, not_not.mp h3⟩
      refine h1 fun e he => ?_
      have hkind : e.kind = .allow := by
        rcases hentries with hentries | hentries
        all_goals
          rw [hentries] at he
          simp only [List.mem_cons, List.not_mem_nil, or_false] at he
          rcases he with rfl | rfl
          · first | exact hs.1 | exact hl.1
          · first | exact hs.1 | exact hl.1
      rw [hkind]
      rfl
    · rintro h ⟨hprot, hpair⟩
      have hplain : ∀ e ∈ d.entries, e.kind.condition = none := by
        rcases h with h | h | h
        · exact h
        · exact absurd hprot h
        · exact absurd hpair h
      obtain ⟨p, q, hpq, hs, hl⟩ := hpair
      rw [pieces_plain hplain] at hpq
      refine ⟨List.mem_of_mem_head? hprot, ?_⟩
      have hentry : ∀ x y : Piece, d.entries.map Piece.entry = [x, y] →
          ∃ a b, d.entries = [a, b] ∧ x = .entry a ∧ y = .entry b := by
        intro x y hxy
        have hlength := congrArg List.length hxy
        rw [List.length_map] at hlength
        obtain ⟨a, b, hab⟩ := List.length_eq_two.mp hlength
        rw [hab] at hxy
        cases hxy
        exact ⟨a, b, hab, rfl, rfl⟩
      rcases hpq with hpq | hpq
      · obtain ⟨a, b, hab, rfl, rfl⟩ := hentry p q hpq
        exact ⟨a, b, Or.inl hab, hs.2, hl.2⟩
      · obtain ⟨a, b, hab, rfl, rfl⟩ := hentry q p hpq
        exact ⟨b, a, Or.inr hab, hs.2, hl.2⟩

/-- An expression that quotes an entry, for everybody. -/
def quotedEntry : Entry where
  kind := .allowCallback ⟨text "@User.x==\"(A;;GR;;;SY)\"", by decide⟩
  flags := []
  rights := .codes [.GA]
  object := []
  inheritObject := []
  trustee := text "WD"
  object_free := by decide
  inheritObject_free := by decide
  trustee_free := by decide

def quotedDescriptor : Descriptor where
  owner := none
  group := none
  flags := [.isProtected]
  entries := [quotedEntry]
  sacl := none
  owner_free := by decide
  group_free := by decide

theorem quotedEntry_unsound : ¬ ∀ (U : IdenGrid.Lib.PythonInt.Unicode) (d : Descriptor) (mask : ℕ),
    (windowsDirectorySddlRespectsMask U d.sddl mask = true → ∀ e ∈ d.entries, e.Safe mask) ∧
      (windowsSddlIsRestricted U d.sddl = true → d.Restricted) := by
  intro h
  have haccepts : windowsDirectorySddlRespectsMask .ascii quotedDescriptor.sddl writeMask = true := by
    decide +kernel
  have hsafe := (h .ascii quotedDescriptor writeMask).1 haccepts quotedEntry List.mem_cons_self
  exact absurd (hsafe trivial (by decide) (by decide)) (by decide)

end IdenGrid.Edge.Descriptors
