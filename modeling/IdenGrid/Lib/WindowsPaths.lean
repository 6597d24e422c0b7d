import IdenGrid.Lib.Scan
import IdenGrid.Lib.Segments
import IdenGrid.Lib.Unicode

/-! # Paths of Windows

`normpath` and `PureWindowsPath` on texts of code points. They take drives, shares and extended paths
apart each in its own way. `lower` is the lower case of a text; two paths are one if their parts are,
up to case.

`mem_climb`: a path and its ancestors are the path, its parent, the parent of that and so on. -/

namespace IdenGrid.Lib.WindowsPaths

open IdenGrid.Lib.Scan IdenGrid.Lib.Segments IdenGrid.Lib.Unicode

/-- `path.replace("/", "\\")` -/
def replaceSep (path : List ℕ) : List ℕ := path.map fun c => if c = 47 then 92 else c

/-- The capital of an ASCII letter. -/
def upperAscii (c : ℕ) : ℕ := if 97 ≤ c ∧ c ≤ 122 then c - 32 else c

/-- `path.split("\\")` -/
def components (path : List ℕ) : List (List ℕ) := (segments 92 path).1 :: (segments 92 path).2

/-- `"\\".join(parts)` -/
def join (parts : List (List ℕ)) : List ℕ := List.intercalate [92] parts

/-! ## Normal paths -/

/-- `splitdrive`, of a path without slashes. -/
def splitDrive (path : List ℕ) : List ℕ × List ℕ :=
  if [92, 92].isPrefixOf path then
    let start := if (path.take 8).map upperAscii = text "\\\\?\\UNC\\" then 8 else 2
    match find [92] (path.drop start) with
    | none => (path, [])
    | some host =>
      match find [92] (path.drop (start + host + 1)) with
      | none => (path, [])
      | some share => (path.take (start + host + 1 + share), path.drop (start + host + 1 + share))
  else if (path.drop 1).head? = some 58 then (path.take 2, path.drop 2)
  else ([], path)

/-- The components that stay, the last one first: those that are empty or a dot go, and two dots take the
component before them with them. -/
def normalize (rooted : Bool) (kept : List (List ℕ)) (component : List ℕ) : List (List ℕ) :=
  if component = [] ∨ component = [46] then kept
  else if component = [46, 46] then
    match kept with
    | [] => if rooted then [] else [component]
    | last :: before => if last = [46, 46] then component :: kept else before
  else component :: kept

/-- `ntpath.normpath` -/
def normpath (path : List ℕ) : List ℕ :=
  let (drive, rest) := splitDrive (replaceSep path)
  let anchor := if rest.head? = some 92 then drive ++ [92] else drive
  let rest := rest.dropWhile (· == 92)
  let kept := ((components rest).foldl (normalize (anchor.getLast? == some 92)) []).reverse
  if anchor = [] ∧ kept = [] then [46] else anchor ++ join kept

/-! ## Pure paths -/

structure PureWindowsPath where
  drive : List ℕ
  root : List ℕ
  parts : List (List ℕ)
  deriving DecidableEq, Repr

namespace PureWindowsPath

def isLetter (c : ℕ) : Bool := decide (65 ≤ c ∧ c ≤ 90 ∨ 97 ≤ c ∧ c ≤ 122)

/-- `_split_extended_path` -/
def splitExtendedPath (path : List ℕ) : List ℕ × List ℕ :=
  if (text "\\\\?\\").isPrefixOf path then
    let rest := path.drop 4
    if (text "UNC\\").isPrefixOf rest then (path.take 7, 92 :: rest.drop 3) else (path.take 4, rest)
  else ([], path)

/-- What `splitroot` finds where the path starts with a share: the drive and what follows the root. -/
def splitShare (extended path : List ℕ) : Option (List ℕ × List ℕ) :=
  if [92, 92].isPrefixOf path ∧ (path.drop 2).head? ≠ some 92 then
    match find [92] (path.drop 2) with
    | none => none
    | some host =>
      match find [92] (path.drop (2 + host + 1)) with
      | some 0 => none
      | some share =>
        let stop := 2 + host + 1 + share
        some (if extended = [] then path.take stop else extended ++ (path.take stop).drop 1,
          path.drop (stop + 1))
      | none => some (if extended = [] then path else extended ++ path.drop 1, [])
  else none

/-- `splitroot`, of a path without slashes. -/
def splitRoot (path : List ℕ) : List ℕ × List ℕ × List ℕ :=
  let (extended, path) := if [92, 92].isPrefixOf path then splitExtendedPath path else ([], path)
  match splitShare extended path with
  | some (drive, rest) => (drive, [92], rest)
  | none =>
    let lettered := path.head?.any isLetter && (path.drop 1).head? == some 58
    let drive := if lettered then path.take 2 else []
    let rest := if lettered then path.drop 2 else path
    (extended ++ drive, if rest.head? = some 92 then [92] else [],
      if rest.head? = some 92 then rest.dropWhile (· == 92) else rest)

/-- `PureWindowsPath(path)` -/
def parse (path : List ℕ) : PureWindowsPath :=
  let (drive, root, rest) := splitRoot (replaceSep path)
  let names := (components rest).filter fun name => name ≠ [] ∧ name ≠ [46]
  ⟨drive, root, if drive ++ root = [] then names else (drive ++ root) :: names⟩

/-- `str(path)` -/
def str (path : PureWindowsPath) : List ℕ :=
  let t := if path.drive ++ path.root = [] then join path.parts
    else path.drive ++ path.root ++ join path.parts.tail
  if t = [] then [46] else t

def parent (path : PureWindowsPath) : PureWindowsPath :=
  if path.parts.length = 1 ∧ path.drive ++ path.root ≠ [] then path
  else { path with parts := path.parts.dropLast }

/-- `==` of paths. -/
def same (lower : List ℕ → List ℕ) (p q : PureWindowsPath) : Bool :=
  p.parts.map lower == q.parts.map lower

variable {lower : List ℕ → List ℕ} {p : PureWindowsPath}

/-- A parent that is another path has fewer parts. -/
theorem length_parent (h : ¬ p.same lower p.parent = true) :
    p.parent.parts.length < p.parts.length := by
  unfold parent at h ⊢
  split_ifs at h ⊢ with htop
  · simp [same] at h
  · rcases hparts : p.parts with _ | ⟨a, t⟩
    · simp [same, hparts] at h
    · simp

theorem same_parent_iff : p.same lower p.parent = true ↔ p.parent = p := by
  constructor
  · intro h
    have hlength : p.parent.parts.length = p.parts.length := by
      simpa using (congrArg List.length (beq_iff_eq.mp h)).symm
    unfold parent at hlength ⊢
    split_ifs at hlength ⊢ with htop
    · rfl
    · rcases hparts : p.parts with _ | ⟨a, t⟩
      · rw [List.dropLast_nil, ← hparts]
      · rw [hparts, List.length_dropLast, List.length_cons] at hlength
        omega
  · intro h
    rw [h, same, beq_self_eq_true]

theorem length_parent_lt (h : p.parent ≠ p) : p.parent.parts.length < p.parts.length :=
  length_parent fun hsame : p.same id p.parent = true => h (same_parent_iff.mp hsame)

/-- The path, its parent and so on, up to a path that is its own parent. -/
def climb : ℕ → PureWindowsPath → List PureWindowsPath
  | 0, p => [p]
  | n + 1, p => if p.parent = p then [p] else p :: climb n p.parent

/-- Every directory above the path, the next one first. -/
def ancestors (p : PureWindowsPath) : List PureWindowsPath := climb p.parts.length p.parent

theorem climb_of_top (h : p.parent = p) (n : ℕ) : climb n p = [p] := by
  cases n with
  | zero => rfl
  | succ n => rw [climb, if_pos h]

/-- As many steps as there are parts are enough. -/
theorem climb_of_not_top (h : p.parent ≠ p) {n : ℕ} (hn : p.parts.length ≤ n) :
    climb n p = p :: climb n p.parent := by
  induction n generalizing p with
  | zero =>
    have := length_parent_lt h
    omega
  | succ n ih =>
    have hlt := length_parent_lt h
    rw [climb, if_neg h]
    by_cases htop : p.parent.parent = p.parent
    · rw [climb_of_top htop, climb_of_top htop]
    · have hlt' := length_parent_lt htop
      rw [climb, if_neg htop, ih htop (by omega)]

theorem climb_eq {n : ℕ} (hn : p.parts.length ≤ n) : climb n p = climb p.parts.length p := by
  induction hk : p.parts.length using Nat.strong_induction_on generalizing p n with
  | _ k ih =>
    by_cases htop : p.parent = p
    · rw [climb_of_top htop, climb_of_top htop]
    · have hlt := length_parent_lt htop
      have hn' := ih _ (hk ▸ hlt) (n := n) (by omega) rfl
      have hk' := ih _ (hk ▸ hlt) (n := k) (by omega) rfl
      rw [climb_of_not_top htop hn, climb_of_not_top htop hk.le, hn', hk']

/-- **The ancestors are the parent, the parent of that and so on.** -/
theorem mem_climb {n : ℕ} (hn : p.parts.length ≤ n) {q : PureWindowsPath} :
    q ∈ climb n p ↔ ∃ k, q = parent^[k] p := by
  induction hk : p.parts.length using Nat.strong_induction_on generalizing p with
  | _ m ih =>
    by_cases htop : p.parent = p
    · have hfix : ∀ k, parent^[k] p = p := fun k => Function.iterate_fixed htop k
      rw [climb_of_top htop, List.mem_singleton]
      exact ⟨fun h => ⟨0, h⟩, fun ⟨k, hq⟩ => hq.trans (hfix k)⟩
    · have hlt := length_parent_lt htop
      rw [climb_of_not_top htop hn, List.mem_cons, ih _ (hk ▸ hlt) (by omega) rfl]
      constructor
      · rintro (rfl | ⟨k, rfl⟩)
        · exact ⟨0, rfl⟩
        · exact ⟨k + 1, rfl⟩
      · rintro ⟨_ | k, rfl⟩
        · exact .inl rfl
        · exact .inr ⟨k, rfl⟩

theorem length_parent_le (p : PureWindowsPath) : p.parent.parts.length ≤ p.parts.length := by
  by_cases htop : p.parent = p
  · rw [htop]
  · exact (length_parent_lt htop).le

end PureWindowsPath

end IdenGrid.Lib.WindowsPaths
