import IdenGrid.Lib.PythonInt
import IdenGrid.Lib.Scan
import IdenGrid.Lib.Segments
import IdenGrid.Lib.Unicode

/-! # Access lists of the Windows configuration

How `config.py` takes the access list of a security descriptor apart and which lists it accepts: that of
the file, of the directory that holds it, and of the directories above. Descriptors are texts of code
points; `U` says what is a digit and white space beyond ASCII, which `int` takes. -/

namespace IdenGrid.Edge.Sddl

open IdenGrid.Lib.Json IdenGrid.Lib.PythonInt IdenGrid.Lib.Scan IdenGrid.Lib.Segments
open IdenGrid.Lib.Unicode

/-! ## Trustees and rights -/

def systemSids : List (List ℕ) := [text "SY", text "S-1-5-18"]

def adminSids : List (List ℕ) := [text "BA", text "S-1-5-32-544"]

def trustedInstallerSids : List (List ℕ) :=
  [text "S-1-5-80-956008885-3418522649-1831038044-1853292631-2271478464"]

def localServiceSids : List (List ℕ) := [text "LS", text "S-1-5-19"]

/-- `_WRITE_MASK` -/
def writeMask : ℕ := 0x10000000 ||| 0x40000000 ||| 0x000D0156

/-- `_REPLACE_MASK` -/
def replaceMask : ℕ := 0x10000000 ||| 0x40000000 ||| 0x000D0040

/-- The codes of rights, each with its bits. -/
def rightCodes : List (List ℕ × ℕ) :=
  [(text "GA", 0x10000000), (text "GW", 0x40000000), (text "GR", 0x80000000),
    (text "GX", 0x20000000), (text "FA", 0x001F01FF), (text "FW", 0x00120116),
    (text "FR", 0x00120089), (text "FX", 0x001200A0), (text "CC", 0x00000001),
    (text "DC", 0x00000002), (text "LC", 0x00000004), (text "SW", 0x00000008),
    (text "RP", 0x00000010), (text "WP", 0x00000020), (text "DT", 0x00000040),
    (text "LO", 0x00000080), (text "CR", 0x00000100), (text "SD", 0x00010000),
    (text "RC", 0x00020000), (text "WD", 0x00040000), (text "WO", 0x00080000)]

/-- The capital of a character where it is an ASCII letter; the long s and the dotless i have one. -/
def upper (c : ℕ) : ℕ :=
  if 97 ≤ c ∧ c ≤ 122 then c - 32 else if c = 0x17F then 83 else if c = 0x131 then 73 else c

/-- The parts of two characters each, the last one shorter if their number is odd. -/
def pairs : List ℕ → List (List ℕ)
  | a :: b :: t => [a, b] :: pairs t
  | [a] => [[a]]
  | [] => []

def inHexRun (c : ℕ) : Bool := (hexVal c).isSome || c == 95

/-- The underscores of a run of hexadecimal digits stand between digits. -/
def hexSeparated (run : List ℕ) : Bool :=
  run.head?.any (fun c => (hexVal c).isSome) && run.getLast?.any (fun c => (hexVal c).isSome) &&
    (run.zip run.tail).all fun p => (hexVal p.1).isSome || (hexVal p.2).isSome

/-- `int` to the base 16 of what stands behind `0x`; an underscore may follow the `x`. -/
def hexMagnitude (U : Unicode) (t : List ℕ) : Option ℕ :=
  let t := t.map (transform U)
  let t := if t.head? = some 95 then t.tail else t
  let run := t.takeWhile inHexRun
  if hexSeparated run ∧ (t.dropWhile inHexRun).all isBlank then
    some (run.foldl (fun n c => ((hexVal c).map (16 * n + ·)).getD n) 0)
  else none

/-- `_rights_mask`. Beyond ASCII no character has an x or a hexadecimal digit as its small letter. -/
def rightsMask (U : Unicode) (rights : List ℕ) : Option ℕ :=
  match rights with
  | 48 :: x :: t => if x = 120 ∨ x = 88 then hexMagnitude U t else codesMask (48 :: x :: t)
  | _ => codesMask rights
where
  /-- The union of the codes that a text consists of. -/
  codesMask (rights : List ℕ) : Option ℕ :=
    if rights.length % 2 = 1 then none
    else (pairs rights).foldlM (fun mask code =>
      (rightCodes.lookup (code.map upper)).map (mask ||| ·)) 0

/-! ## The entries of the list -/

/-- An access control entry, by its six fields. -/
structure Ace where
  aceType : List ℕ
  flags : List ℕ
  rights : List ℕ
  object : List ℕ
  inheritObject : List ℕ
  trustee : List ℕ
  deriving DecidableEq, Repr

/-- `_dacl` -/
def dacl (sddl : List ℕ) : Option (List ℕ) :=
  (find (text "D:") sddl).map fun start =>
    match find (text "S:") (sddl.drop (start + 2)) with
    | none => sddl.drop start
    | some length => (sddl.drop start).take (2 + length)

def isParen (c : ℕ) : Bool := c == 40 || c == 41

/-- What `\(([^()]*)\)` finds. A group holds no parenthesis, so no other one starts within it. -/
def groups : List ℕ → List (List ℕ)
  | [] => []
  | c :: t =>
    if c = 40 ∧ (t.dropWhile fun c => !isParen c).head? = some 41 then
      t.takeWhile (fun c => !isParen c) :: groups t
    else groups t

/-- `ace.split(";")`, if there are six fields. -/
def aceOf (group : List ℕ) : Option Ace :=
  match (segments 59 group).1 :: (segments 59 group).2 with
  | [aceType, flags, rights, object, inheritObject, trustee] =>
    some ⟨aceType, flags, rights, object, inheritObject, trustee⟩
  | _ => none

/-- `_aces` -/
def aces (sddl : List ℕ) : Option (List Ace) := do
  let raw := groups (← dacl sddl)
  if raw = [] then none else raw.mapM aceOf

/-! ## The checks -/

/-- An entry of the list of the file: full access for SYSTEM, or reading for LOCAL SERVICE. -/
def fileAceOk (U : Unicode) (ace : Ace) : Bool :=
  decide (ace.aceType = text "A" ∧ ace.flags = [] ∧ ace.object = [] ∧ ace.inheritObject = []) &&
    if ace.trustee ∈ systemSids then
      decide (ace.rights.map upper ∈ [text "FA", text "GA"] ∨
        rightsMask U ace.rights = some 0x001F01FF)
    else
      decide (ace.trustee ∈ localServiceSids) &&
        decide (ace.rights.map upper ∈ [text "FR", text "GR"] ∨
          rightsMask U ace.rights = some 0x00120089)

/-- `_windows_sddl_is_restricted` -/
def windowsSddlIsRestricted (U : Unicode) (sddl : List ℕ) : Bool :=
  match dacl sddl, aces sddl with
  | some list, some entries =>
    (text "D:P").isPrefixOf list && entries.length == 2 && entries.all (fileAceOk U) &&
      entries.any (fun ace => decide (ace.trustee ∈ systemSids)) &&
      entries.any fun ace => decide (ace.trustee ∈ localServiceSids)
  | _, _ => false

def aceFlags : List (List ℕ) :=
  [text "CI", text "OI", text "NP", text "IO", text "ID", text "SA", text "FA"]

/-- An entry of the list of a directory: of a known kind, and granting none of these rights to a stranger. -/
def directoryAceOk (U : Unicode) (unsafeMask : ℕ) (ace : Ace) : Bool :=
  match rightsMask U ace.rights with
  | none => false
  | some mask =>
    decide (ace.aceType = text "A" ∨ ace.aceType = text "D") && ace.flags.length % 2 == 0 &&
      (pairs ace.flags).all (· ∈ aceFlags) &&
      !(decide (ace.aceType = text "A") && decide (text "IO" ∉ pairs ace.flags) &&
        decide (ace.trustee ∉ systemSids ++ adminSids) && mask &&& unsafeMask != 0)

/-- `_windows_directory_sddl_respects_mask` -/
def windowsDirectorySddlRespectsMask (U : Unicode) (sddl : List ℕ) (unsafeMask : ℕ) : Bool :=
  match aces sddl with
  | none => false
  | some entries => entries.all (directoryAceOk U unsafeMask)

/-- `_windows_directory_sddl_is_restricted` -/
def windowsDirectorySddlIsRestricted (U : Unicode) (sddl : List ℕ) : Bool :=
  windowsDirectorySddlRespectsMask U sddl writeMask

/-- `_windows_ancestor_sddl_is_restricted` -/
def windowsAncestorSddlIsRestricted (U : Unicode) (sddl : List ℕ) : Bool :=
  windowsDirectorySddlRespectsMask U sddl replaceMask

end IdenGrid.Edge.Sddl
