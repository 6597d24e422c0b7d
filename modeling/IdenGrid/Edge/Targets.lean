import IdenGrid.Control.Targets

/-! # The Edge: which targets may be reached

`PublicTargetPolicy.resolve` of the Edge. `Library` has what it takes from the standard library:
lower-casing, IDNA encoding and `ip_address` with the properties of an address; the policy of the
control plane takes them from there too (`Library.names`). -/

namespace IdenGrid.Edge.Targets

open IdenGrid.Lib.Unicode IdenGrid.Control.Targets

/-- An address of `ipaddress`. -/
structure Address where
  version : ℤ
  compressed : List ℕ
  isPrivate : Bool
  isLoopback : Bool
  isLinkLocal : Bool
  isMulticast : Bool
  isReserved : Bool
  isUnspecified : Bool
  isGlobal : Bool
  private_of_loopback : isLoopback = true → isPrivate = true
  private_of_linkLocal : isLinkLocal = true → isPrivate = true
  private_of_unspecified : isUnspecified = true → isPrivate = true
  not_private_of_global : isGlobal = true → isPrivate = false

/-- `str.lower`, the IDNA codec and `ip_address`; `none` where these raise. -/
structure Library where
  lower : List ℕ → List ℕ
  idna : List ℕ → Option (List ℕ)
  idna_ascii : ∀ h a, idna h = some a → ∀ c ∈ a, c < 0x80
  ipAddress : List ℕ → Option Address

/-- `_is_public` of the control plane. -/
def Address.centralPublic (value : Address) : Bool :=
  !(value.isPrivate || value.isLoopback || value.isLinkLocal || value.isMulticast ||
    value.isReserved || value.isUnspecified)

/-- `_public` -/
def Address.isPublic (value : Address) : Bool := value.isGlobal && !value.isMulticast

/-- `AF_INET` or `AF_INET6`. -/
def Address.family (value : Address) : ℤ := if value.version = 4 then 2 else 10

/-- The library as the control plane's policy uses it. -/
def Library.names (L : Library) : Names where
  lower := L.lower
  idna := L.idna
  idna_ascii := L.idna_ascii
  isPublic address := (L.ipAddress address).map Address.centralPublic

/-! ## Host names -/

/-- `[a-z0-9]` -/
def isAlnum (c : ℕ) : Bool := decide (97 ≤ c ∧ c ≤ 122 ∨ 48 ≤ c ∧ c ≤ 57)

/-- `[a-z0-9](?:[a-z0-9-]{0,61}[a-z0-9])?` -/
def isLabel (t : List ℕ) : Bool :=
  decide (1 ≤ t.length ∧ t.length ≤ 63) && t.all (fun c => isAlnum c || c == 45) &&
    t.head?.any isAlnum && t.getLast?.any isAlnum

/-- `_HOST_RE.fullmatch` -/
def isHostname (t : List ℕ) : Bool :=
  decide (1 ≤ t.length ∧ t.length ≤ 253) && (t.splitOn 46).all isLabel

section

variable (L : Library)

/-- A hostname, or a text that `IPv6Address` takes. -/
def nameOk (asciiHost : List ℕ) : Bool :=
  isHostname asciiHost || (L.ipAddress asciiHost).any fun value => value.version == 6

/-- The entries as pairs of family and address, each once, if all are public. -/
def vetted : List (ℤ × List ℕ) → List (ℤ × List ℕ) → Except String (List (ℤ × List ℕ))
  | vetted_, [] => .ok vetted_
  | vetted_, (family, address) :: entries =>
    match L.ipAddress address with
    | none => .error "target DNS returned an invalid address"
    | some parsed =>
      if family ≠ parsed.family ∨ parsed.isPublic = false then
        .error "target resolves to a blocked network"
      else
        let pair := (family, parsed.compressed)
        vetted (if pair ∈ vetted_ then vetted_ else vetted_ ++ [pair]) entries

/-- `PublicTargetPolicy.resolve`; an error is the message of a `TargetDenied`. -/
def resolve (answers : Option (List (ℤ × List ℕ))) (host : List ℕ) (port : ℤ) :
    Except String ResolvedTarget :=
  if port ≠ 80 ∧ port ≠ 443 then .error "only target ports 80 and 443 are allowed"
  else
    let normalized := L.lower (stripDots host)
    if normalized = [] ∨ normalized = text "localhost" ∨ (text ".localhost").isSuffixOf normalized then
      .error "local target hostname is blocked"
    else
      match L.idna normalized with
      | none => .error "invalid target hostname"
      | some asciiHost =>
        if nameOk L asciiHost = false then .error "invalid target hostname"
        else
          match answers with
          | none => .error "target DNS resolution failed"
          | some [] => .error "target DNS resolution returned no addresses"
          | some (entry :: entries) =>
            match vetted L [] (entry :: entries) with
            | .error e => .error e
            | .ok [] => .error "list index out of range"
            | .ok ((family, address) :: _) => .ok ⟨asciiHost, port, address, family⟩

end

end IdenGrid.Edge.Targets
