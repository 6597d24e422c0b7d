import Mathlib.Data.List.Basic
import Mathlib.Tactic.Common

/-! # Environment files

A file of assignments `NAME=VALUE`, one on a line. Readers of such files differ in what they make of
quotes, backslashes and blanks; `ReadsPlain` is what they have in common. `readsPlain_readFile`: a
reader that cuts lines at the first `=` is one. -/

namespace IdenGrid.Lib.EnvFile

/-- Visible ASCII other than quotes and backslashes. -/
def isPlain (c : ℕ) : Bool := decide (33 ≤ c ∧ c < 127 ∧ c ≠ 34 ∧ c ≠ 39 ∧ c ≠ 92)

/-- Capital letters and underscores. -/
def isNameChar (c : ℕ) : Bool := decide (65 ≤ c ∧ c ≤ 90 ∨ c = 95)

/-- A variable and its value, with nothing in them that a reader may treat in a way of its own. -/
structure Plain (a : List ℕ × List ℕ) : Prop where
  ne_nil : a.1 ≠ []
  name : a.1.all isNameChar = true
  value : a.2.all isPlain = true

def line (a : List ℕ × List ℕ) : List ℕ := a.1 ++ 61 :: a.2

def fileText (assignments : List (List ℕ × List ℕ)) : List ℕ :=
  assignments.flatMap fun a => line a ++ [10]

/-- Plain assignments are read as they stand. -/
def ReadsPlain (reader : List ℕ → List (List ℕ × List ℕ)) : Prop :=
  ∀ assignments, (assignments.map Prod.fst).Nodup → (∀ a ∈ assignments, Plain a) →
    ∀ a ∈ assignments, (reader (fileText assignments)).lookup a.1 = some a.2

def readLine (t : List ℕ) : Option (List ℕ × List ℕ) :=
  if 61 ∈ t then some (t.takeWhile (· ≠ 61), (t.dropWhile (· ≠ 61)).tail) else none

/-- A reader that knows no quotes, blanks or comments. -/
def readFile (t : List ℕ) : List (List ℕ × List ℕ) := (t.splitOn 10).filterMap readLine

variable {a : List ℕ × List ℕ} {assignments : List (List ℕ × List ℕ)}

theorem Plain.name_ne (h : Plain a) : ∀ c ∈ a.1, c ≠ 61 ∧ c ≠ 10 := fun c hc => by
  have := of_decide_eq_true (List.all_eq_true.mp h.name c hc)
  omega

theorem Plain.value_ne (h : Plain a) : ∀ c ∈ a.2, c ≠ 10 := fun c hc => by
  have := of_decide_eq_true (List.all_eq_true.mp h.value c hc)
  omega

theorem readLine_line (h : Plain a) : readLine (line a) = some a := by
  have hname : ∀ c ∈ a.1, decide (c ≠ 61) = true := fun c hc => decide_eq_true (h.name_ne c hc).1
  rw [readLine, line, if_pos (List.mem_append_right _ List.mem_cons_self),
    List.takeWhile_append_of_pos hname, List.dropWhile_append_of_pos hname]
  simp

theorem splitOn_fileText : ∀ {assignments : List (List ℕ × List ℕ)}, (∀ a ∈ assignments, Plain a) →
    (fileText assignments).splitOn 10 = assignments.map line ++ [[]]
  | [], _ => rfl
  | a :: assignments, h => by
    obtain ⟨ha, hrest⟩ := List.forall_mem_cons.mp h
    have hline : ∀ c ∈ line a, (c == 10) = false := by
      intro c hc
      rcases List.mem_append.mp hc with hc | hc
      · exact beq_false_of_ne (ha.name_ne c hc).2
      · rcases List.mem_cons.mp hc with rfl | hc
        · rfl
        · exact beq_false_of_ne (ha.value_ne c hc)
    have hcut := List.splitOnP_append_cons_of_forall_mem hline 10 rfl (fileText assignments)
    rw [← List.splitOn_eq_splitOnP, ← List.splitOn_eq_splitOnP, splitOn_fileText hrest] at hcut
    rw [fileText, List.flatMap_cons, List.append_assoc]
    exact hcut

/-- **What is written is read back.** -/
theorem readFile_fileText (h : ∀ a ∈ assignments, Plain a) :
    readFile (fileText assignments) = assignments := by
  rw [readFile, splitOn_fileText h, List.filterMap_append, List.filterMap_map]
  have hlines : assignments.filterMap (readLine ∘ line) = assignments.filterMap some :=
    List.filterMap_congr fun a ha => readLine_line (h a ha)
  rw [hlines, List.filterMap_some]
  exact List.append_nil _

theorem readsPlain_readFile : ReadsPlain readFile := by
  intro assignments hnodup h a ha
  rw [readFile_fileText h]
  induction assignments with
  | nil => cases ha
  | cons b assignments ih =>
    obtain ⟨hb, hnodup⟩ := List.nodup_cons.mp hnodup
    rcases List.mem_cons.mp ha with rfl | ha
    · exact List.lookup_cons_self
    · have hne : (a.1 == b.1) = false := beq_false_of_ne fun heq =>
        hb (heq ▸ List.mem_map_of_mem ha)
      rw [List.lookup_cons, hne]
      exact ih hnodup (fun c hc => h c (List.mem_cons_of_mem _ hc)) ha

end IdenGrid.Lib.EnvFile
