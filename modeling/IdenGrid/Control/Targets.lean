import Mathlib.Data.Int.Notation
import IdenGrid.Lib.Unicode

/-! # The control plane: which targets may be reached

`PublicTargetPolicy.resolve` of the control plane. Lower-casing, IDNA encoding and the
classification of addresses are those of the standard library; the answers of the resolver are an
argument, since they differ from call to call. -/

namespace IdenGrid.Control.Targets

open IdenGrid.Lib.Unicode

/-- The library functions the policy calls.

* `lower`: `str.lower`;
* `idna`: `host.encode("idna").decode("ascii")`, `none` where it raises a `UnicodeError`;
* `isPublic`: `_is_public`, `none` where `ip_address` raises. -/
structure Names where
  lower : List ℕ → List ℕ
  idna : List ℕ → Option (List ℕ)
  idna_ascii : ∀ h a, idna h = some a → ∀ c ∈ a, c < 0x80
  isPublic : List ℕ → Option Bool

/-- A codec that takes ASCII names only gives them back as they are. -/
theorem ascii_of_idna {h a : List ℕ}
    (ha : (if ∀ c ∈ h, c < 0x80 then some h else none) = some a) : ∀ c ∈ a, c < 0x80 := by
  split_ifs at ha with hc
  obtain rfl := Option.some.inj ha
  exact hc

/-- Library functions for concrete runs: on ASCII names and public addresses they are the real
ones. -/
def Names.sample : Names where
  lower := List.map fun c => if 65 ≤ c ∧ c ≤ 90 then c + 32 else c
  idna h := if ∀ c ∈ h, c < 0x80 then some h else none
  idna_ascii _ _ ha := ascii_of_idna ha
  isPublic _ := some true

structure ResolvedTarget where
  host : List ℕ
  port : ℤ
  address : List ℕ
  family : ℤ
  deriving DecidableEq, Repr

/-- `TunnelTargetDenied` with its message, or another exception. -/
inductive Denial
  | denied (message : String)
  | uncaught
  deriving DecidableEq, Repr

def allowedPorts : List ℤ := [80, 443]

/-- `AF_INET` and `AF_INET6`. -/
def families : List ℤ := [2, 10]

/-- `host.rstrip(".")`. -/
def stripDots (host : List ℕ) : List ℕ := (host.reverse.dropWhile (· == 46)).reverse

instance pairMemDecidable (pair : ℤ × List ℕ) (pairs : List (ℤ × List ℕ)) :
    Decidable (pair ∈ pairs) :=
  inferInstance

section

variable (N : Names)

/-- The answers of the resolver as pairs of family and address, each once, if all are public. -/
def vetted : List (ℤ × List ℕ) → List (ℤ × List ℕ) → Except Denial (List (ℤ × List ℕ))
  | resolved, [] => .ok resolved
  | resolved, answer :: answers =>
    if answer.1 ∉ families then .error (.denied "target resolves to a blocked network")
    else
      match N.isPublic answer.2 with
      | none => .error .uncaught
      | some false => .error (.denied "target resolves to a blocked network")
      | some true =>
        vetted (if answer ∈ resolved then resolved else resolved ++ [answer]) answers

/-- `PublicTargetPolicy.resolve`; `answers` is what the resolver yields, `none` an `OSError`. -/
def resolve (answers : Option (List (ℤ × List ℕ))) (host : List ℕ) (port : ℤ) :
    Except Denial ResolvedTarget :=
  if port ∉ allowedPorts then .error (.denied "only HTTP and HTTPS target ports are allowed")
  else
    let host := N.lower (stripDots host)
    if host = [] ∨ host = text "localhost" ∨ (text ".localhost").isSuffixOf host then
      .error (.denied "local targets are blocked")
    else
      match N.idna host with
      | none => .error (.denied "invalid target hostname")
      | some asciiHost =>
        match answers with
        | none => .error (.denied "target DNS resolution failed")
        | some [] => .error (.denied "target DNS resolution returned no addresses")
        | some (answer :: answers) =>
          match vetted N [] (answer :: answers) with
          | .error e => .error e
          | .ok [] => .error .uncaught
          | .ok ((family, address) :: _) => .ok ⟨asciiHost, port, address, family⟩

end

/-- **What an accepted target is**: an ASCII host and one of the two ports. -/
theorem resolve_eq_ok {N : Names} {answers : Option (List (ℤ × List ℕ))} {host : List ℕ}
    {port : ℤ} {target : ResolvedTarget} (h : resolve N answers host port = .ok target) :
    (∀ c ∈ target.host, c < 0x80) ∧ target.port = port ∧ port ∈ allowedPorts := by
  unfold resolve at h
  by_cases hport : port ∈ allowedPorts
  swap
  · simp [hport] at h
  simp only [hport, not_true_eq_false, if_false] at h
  split_ifs at h with hlocal
  rcases hidna : N.idna (N.lower (stripDots host)) with _ | asciiHost
  · simp [hidna] at h
  rcases answers with _ | _ | ⟨answer, answers⟩
  · simp [hidna] at h
  · simp [hidna] at h
  rcases hv : vetted N [] (answer :: answers) with e | _ | ⟨⟨family, address⟩, rest⟩
  · simp [hidna, hv] at h
  · simp [hidna, hv] at h
  simp only [hidna, hv] at h
  obtain rfl := Except.ok.inj h
  exact ⟨N.idna_ascii _ _ hidna, rfl, hport⟩

/-- The host of a target is not empty, if the codec makes no empty name of another one. -/
theorem resolve_host_ne {N : Names} (hidna : ∀ h a, N.idna h = some a → h ≠ [] → a ≠ [])
    {answers : Option (List (ℤ × List ℕ))} {host : List ℕ} {port : ℤ} {target : ResolvedTarget}
    (h : resolve N answers host port = .ok target) : target.host ≠ [] := by
  unfold resolve at h
  by_cases hport : port ∈ allowedPorts
  swap
  · simp [hport] at h
  simp only [hport, not_true_eq_false, if_false] at h
  split_ifs at h with hlocal
  rcases hcodec : N.idna (N.lower (stripDots host)) with _ | asciiHost
  · simp [hcodec] at h
  rcases answers with _ | _ | ⟨answer, answers⟩
  · simp [hcodec] at h
  · simp [hcodec] at h
  rcases hv : vetted N [] (answer :: answers) with e | _ | ⟨⟨family, address⟩, rest⟩
  · simp [hcodec, hv] at h
  · simp [hcodec, hv] at h
  simp only [hcodec, hv] at h
  obtain rfl := Except.ok.inj h
  exact hidna _ _ hcodec fun hnil => hlocal (.inl hnil)

end IdenGrid.Control.Targets
