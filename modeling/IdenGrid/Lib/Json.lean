import Mathlib.Data.Nat.Digits.Defs
import IdenGrid.Lib.Double
import IdenGrid.Lib.Unicode

/-! # JSON as `json.loads` reads it

`loads` follows the scanner of the standard library: white space, strict strings with their
escapes, integers of any sign and up to `maxDigits` digits, floats, the constants `NaN`,
`Infinity` and `-Infinity`, and objects in which the last value of a key wins. It fails in one of
two ways: with a `ValueError` (`JSONDecodeError` is one) or, where containers are nested deeper than
the interpreter's limit, with a `RecursionError`. -/

namespace IdenGrid.Lib.Json

open IdenGrid.Lib.Double IdenGrid.Lib.Unicode

inductive Value
  | null
  | bool (b : Bool)
  | int (n : ℤ)
  | float (x : Binary64)
  | str (t : List ℕ)
  | arr (vs : List Value)
  | obj (fields : List (List ℕ × Value))

inductive Err
  | value
  | recursion
  deriving DecidableEq, Repr

/-- The longest integer literal `int` converts. -/
def maxDigits : ℕ := 4300

def isSpace (c : ℕ) : Bool := c == 32 || c == 9 || c == 10 || c == 13

def skip (t : List ℕ) : List ℕ := t.dropWhile isSpace

/-- The text after this character. -/
def expect (c : ℕ) : List ℕ → Except Err (List ℕ)
  | d :: t => if c = d then .ok t else .error .value
  | [] => .error .value

/-! ## Strings -/

def hexVal (c : ℕ) : Option ℕ :=
  if 48 ≤ c ∧ c ≤ 57 then some (c - 48) else if 97 ≤ c ∧ c ≤ 102 then some (c - 87)
  else if 65 ≤ c ∧ c ≤ 70 then some (c - 55) else none

def hex4 (a b c d : ℕ) : Option ℕ :=
  match hexVal a, hexVal b, hexVal c, hexVal d with
  | some a, some b, some c, some d => some (((a * 16 + b) * 16 + c) * 16 + d)
  | _, _, _, _ => none

/-- The one-character escapes. -/
def unescape (c : ℕ) : Option ℕ :=
  if c = 34 ∨ c = 92 ∨ c = 47 then some c else if c = 98 then some 8 else if c = 102 then some 12
  else if c = 110 then some 10 else if c = 114 then some 13 else if c = 116 then some 9 else none

/-- The characters of a string up to its closing quote; the flag marks a `\uXXXX` escape. -/
def scanUnits : List ℕ → Except Err (List (Bool × ℕ) × List ℕ)
  | [] => .error .value
  | c :: t =>
    if c = 34 then .ok ([], t)
    else if c = 92 then
      match t with
      | [] => .error .value
      | e :: t =>
        if e = 117 then
          match t with
          | a :: b :: c :: d :: t =>
            match hex4 a b c d with
            | some u => (scanUnits t).map fun p => ((true, u) :: p.1, p.2)
            | none => .error .value
          | _ => .error .value
        else
          match unescape e with
          | some u => (scanUnits t).map fun p => ((false, u) :: p.1, p.2)
          | none => .error .value
    else if c < 32 then .error .value
    else (scanUnits t).map fun p => ((false, c) :: p.1, p.2)

/-- Two escapes in a row that form a surrogate pair are one character. -/
def joinEscapes : List (Bool × ℕ) → List ℕ
  | (e, hi) :: (f, lo) :: t =>
    if e ∧ f ∧ isHigh hi ∧ isLow lo then pair hi lo :: joinEscapes t
    else hi :: joinEscapes ((f, lo) :: t)
  | [(_, c)] => [c]
  | [] => []

/-- A string, after its opening quote. -/
def scanString (t : List ℕ) : Except Err (List ℕ × List ℕ) :=
  (scanUnits t).map fun p => (joinEscapes p.1, p.2)

/-! ## Numbers -/

def isDigit (c : ℕ) : Bool := decide (48 ≤ c ∧ c ≤ 57)

/-- The number with these decimal digits. -/
def ofDecimal (ds : List ℕ) : ℕ := Nat.ofDigits 10 (ds.reverse.map (· - 48))

/-- The digits of the integer part: a zero, or digits that do not start with one. -/
def scanIntPart : List ℕ → Except Err (List ℕ × List ℕ)
  | [] => .error .value
  | c :: t =>
    if c = 48 then .ok ([48], t)
    else if isDigit c then .ok (c :: t.takeWhile isDigit, t.dropWhile isDigit)
    else .error .value

/-- The digits of a fraction, if there is one. -/
def scanFraction (t : List ℕ) : Option (List ℕ × List ℕ) :=
  match t with
  | 46 :: d :: r =>
    if isDigit d then some (d :: r.takeWhile isDigit, r.dropWhile isDigit) else none
  | _ => none

/-- The exponent, if there is one. -/
def scanExponent (t : List ℕ) : Option (ℤ × List ℕ) :=
  match t with
  | e :: r =>
    if e = 69 ∨ e = 101 then
      let negative := r.head? == some 45
      let ds := if r.head? = some 43 ∨ r.head? = some 45 then r.tail else r
      if (ds.takeWhile isDigit).isEmpty then none
      else
        let n : ℤ := ofDecimal (ds.takeWhile isDigit)
        some (if negative then -n else n, ds.dropWhile isDigit)
    else none
  | [] => none

def signed (negative : Bool) (n : ℕ) : ℤ := if negative then -(n : ℤ) else n

/-- A number after its sign. -/
def scanMagnitude (negative : Bool) (t : List ℕ) : Except Err (Value × List ℕ) :=
  match scanIntPart t with
  | .error e => .error e
  | .ok (int, t) =>
    let fraction := (scanFraction t).map Prod.fst
    let t := ((scanFraction t).map Prod.snd).getD t
    let exponent := (scanExponent t).map Prod.fst
    let t := ((scanExponent t).map Prod.snd).getD t
    if fraction.isNone ∧ exponent.isNone then
      if maxDigits < int.length then .error .value
      else .ok (.int (signed negative (ofDecimal int)), t)
    else
      let frac := fraction.getD []
      let m : ℚ := signed negative (ofDecimal (int ++ frac))
      .ok (.float (ofRat (m * 10 ^ (exponent.getD 0 - frac.length))), t)

def scanNumber (t : List ℕ) : Except Err (Value × List ℕ) :=
  if t.head? = some 45 then scanMagnitude true t.tail else scanMagnitude false t

/-! ## Containers -/

/-- `d[key] = value`: a new key goes to the end, an old one keeps its place. -/
def dictSet (key : List ℕ) (value : Value) : List (List ℕ × Value) → List (List ℕ × Value)
  | [] => [(key, value)]
  | f :: fs => if f.1 = key then (key, value) :: fs else f :: dictSet key value fs

section

variable (item : List ℕ → Except Err (Value × List ℕ))

/-- `"key": value`. -/
def member (t : List ℕ) : Except Err ((List ℕ × Value) × List ℕ) := do
  let t ← expect 34 t
  let (key, t) ← scanString t
  let t ← expect 58 (skip t)
  let (value, t) ← item (skip t)
  pure ((key, value), t)

/-- The members of an object and its closing brace. Each round reads a character at least, so the
length of the text bounds their number. -/
def members : ℕ → List (List ℕ × Value) → List ℕ → Except Err (Value × List ℕ)
  | 0, _, _ => .error .value
  | n + 1, acc, t => do
    let (f, t) ← member item t
    let acc := dictSet f.1 f.2 acc
    match skip t with
    | [] => .error .value
    | c :: t =>
      if c = 125 then .ok (.obj acc, t)
      else if c = 44 then members n acc (skip t)
      else .error .value

/-- An object, after its opening brace. -/
def object (t : List ℕ) : Except Err (Value × List ℕ) :=
  match skip t with
  | [] => .error .value
  | c :: r => if c = 125 then .ok (.obj [], r) else members item t.length [] (c :: r)

/-- The elements of an array and its closing bracket. -/
def elements : ℕ → List Value → List ℕ → Except Err (Value × List ℕ)
  | 0, _, _ => .error .value
  | n + 1, acc, t => do
    let (v, t) ← item t
    match skip t with
    | [] => .error .value
    | c :: t =>
      if c = 93 then .ok (.arr (acc ++ [v]), t)
      else if c = 44 then elements n (acc ++ [v]) (skip t)
      else .error .value

/-- An array, after its opening bracket. -/
def array (t : List ℕ) : Except Err (Value × List ℕ) :=
  match skip t with
  | [] => .error .value
  | c :: r => if c = 93 then .ok (.arr [], r) else elements item t.length [] (c :: r)

end

/-- `d[key]`. -/
def get (fields : List (List ℕ × Value)) (key : List ℕ) : Option Value :=
  (fields.find? fun f => f.1 == key).map Prod.snd

/-! ## Values -/

/-- The literals, each with the value it stands for. -/
def literals : List (List ℕ × Value) :=
  [(text "null", .null), (text "true", .bool true), (text "false", .bool false),
    (text "NaN", .float .nan), (text "Infinity", .float (.inf false)),
    (text "-Infinity", .float (.inf true))]

/-- One value; `obj` and `arr` read an object or an array after its opening character. -/
def scanValue (obj arr : List ℕ → Except Err (Value × List ℕ)) (t : List ℕ) :
    Except Err (Value × List ℕ) :=
  match t with
  | [] => .error .value
  | c :: r =>
    if c = 34 then (scanString r).map fun p => (.str p.1, p.2)
    else if c = 123 then obj r
    else if c = 91 then arr r
    else
      match literals.find? fun l => l.1.isPrefixOf t with
      | some l => .ok (l.2, t.drop l.1.length)
      | none => scanNumber t

/-- `scan_once`; the number bounds the nesting of containers. -/
def scanOnce : ℕ → List ℕ → Except Err (Value × List ℕ)
  | 0, t => scanValue (fun _ => .error .recursion) (fun _ => .error .recursion) t
  | depth + 1, t => scanValue (object (scanOnce depth)) (array (scanOnce depth)) t

/-- The decoder on a text. -/
def decode (depth : ℕ) (t : List ℕ) : Except Err Value :=
  match scanOnce depth (skip t) with
  | .error e => .error e
  | .ok (v, r) => if skip r = [] then .ok v else .error .value

/-- `json.loads` of a byte string, under the interpreter's nesting limit. -/
def loads (depth : ℕ) (s : List ℕ) : Except Err Value :=
  match decodeJson s with
  | none => .error .value
  | some t => decode depth t

end IdenGrid.Lib.Json
