import IdenGrid.Lib.Base64
import IdenGrid.Lib.JsonTree
import IdenGrid.Lib.PythonInt

/-! # Windows releases

A release is a package and a manifest with its name, its digest, its size and its version, signed with
Ed25519. `sign_release_manifest.py` writes a manifest and checks one; the control plane checks it again
before it hands the package out, with a JSON reader that refuses repeated keys.

`verified_iff`: the control plane serves the releases that the tool verifies with its key, except the
manifests that say something twice or give their schema version as another value that equals one.
`released_served`: it serves everything that the tool signs. -/

namespace IdenGrid.Edge.Release

open IdenGrid.Lib.Unicode IdenGrid.Lib.Json IdenGrid.Lib.JsonDumps IdenGrid.Lib.JsonTree
open IdenGrid.Lib.Base64 (b64encode standardDecode)
open IdenGrid.Lib.PythonInt (strip)
open IdenGrid.Lib.JsonHooks (Hooks Admits)

/-- SHA-256 and Ed25519. -/
structure Crypto where
  sha256 : List ℕ → List ℕ
  publicBytes : (privateKey : List ℕ) → List ℕ
  sign : (privateKey raw : List ℕ) → List ℕ
  verify : (publicKey signature raw : List ℕ) → Bool

/-- The sizes of what they return, and that a signature passes with the key it was made with. -/
structure Crypto.Correct (K : Crypto) : Prop where
  digest : ∀ data, (K.sha256 data).length = 32 ∧ ∀ b ∈ K.sha256 data, b < 256
  signature : ∀ key raw, (K.sign key raw).length = 64 ∧ ∀ b ∈ K.sign key raw, b < 256
  publicKey : ∀ key, (K.publicBytes key).length = 32 ∧ ∀ b ∈ K.publicBytes key, b < 256
  verifies : ∀ key raw, K.verify (K.publicBytes key) (K.sign key raw) raw = true

/-- `hexdigest()` -/
def hexdigest (digest : List ℕ) : List ℕ := digest.flatMap fun b => [hexDigit (b / 16), hexDigit (b % 16)]

/-- `raw.decode("ascii")` -/
def asciiDecode (raw : List ℕ) : Option (List ℕ) := if raw.all (decide <| · < 128) then some raw else none

/-! ## Names -/

def fileStem : List ℕ := text "IdenGrid-Edge-Windows-Server-2025-x64-v"

def zipSuffix : List ℕ := text ".zip"

/-- The file name of a version. -/
def filenameOf (version : List ℕ) : List ℕ := fileStem ++ version ++ zipSuffix

/-- `[A-Za-z0-9.-]` -/
def isFileChar (c : ℕ) : Bool :=
  decide (65 ≤ c ∧ c ≤ 90 ∨ 97 ≤ c ∧ c ≤ 122 ∨ 48 ≤ c ∧ c ≤ 57 ∨ c = 46 ∨ c = 45)

/-- `[0-9a-f]` -/
def isHexChar (c : ℕ) : Bool := decide (48 ≤ c ∧ c ≤ 57 ∨ 97 ≤ c ∧ c ≤ 102)

/-- `(?:-[A-Za-z0-9.-]+)?` and the end. -/
def matchesLabel : List ℕ → Bool
  | [] => true
  | 45 :: t => !t.isEmpty && t.all isFileChar
  | _ => false

/-- `[0-9]+` and what matches behind it. -/
def matchesDigits (rest : List ℕ → Bool) (t : List ℕ) : Bool :=
  !(t.takeWhile isDigit).isEmpty && rest (t.dropWhile isDigit)

/-- `\.` and what matches behind it. -/
def matchesDot (rest : List ℕ → Bool) : List ℕ → Bool
  | 46 :: t => rest t
  | _ => false

/-- `VERSION_RE.fullmatch` -/
def matchesVersion : List ℕ → Bool :=
  matchesDigits (matchesDot (matchesDigits (matchesDot (matchesDigits matchesLabel))))

/-- `FILE_RE.fullmatch` -/
def matchesFile (t : List ℕ) : Bool :=
  let body := (t.drop fileStem.length).take (t.length - fileStem.length - zipSuffix.length)
  t == fileStem ++ body ++ zipSuffix && !body.isEmpty && body.all isFileChar

/-- `SHA_RE.fullmatch` -/
def matchesSha (t : List ℕ) : Bool := decide (t.length = 64) && t.all isHexChar

/-- The components of a path that `PurePosixPath` keeps. -/
def components (t : List ℕ) : List (List ℕ) :=
  (t.splitOn 47).filter fun c => c ≠ [] ∧ c ≠ [46]

/-- `Path(t).name` -/
def pathName (t : List ℕ) : List ℕ := (components t).getLast?.getD []

/-! ## The tool -/

/-- What a manifest says about the package. -/
structure Package where
  filename : List ℕ
  sha256 : List ℕ
  size : ℤ
  version : List ℕ
  deriving DecidableEq, Repr

inductive Fault
  | valueError (message : String)
  | recursionError
  | invalidSignature
  deriving DecidableEq, Repr

/-- `set(fields) == {...}` -/
def hasKeys (names : List String) (fields : List (List ℕ × Value)) : Bool :=
  names.all (fun n => (get fields (text n)).isSome) && fields.all fun f => names.any fun n => text n == f.1

/-- `value == 1` -/
def equalsOne : Value → Bool
  | .int n => n == 1
  | .bool b => b
  | .float (.finite q) => q == 1
  | _ => false

/-- A field that holds a string. -/
def stringField (fields : List (List ℕ × Value)) (name : String) : Option (List ℕ) :=
  match get fields (text name) with
  | some (.str t) => some t
  | _ => none

/-- A field that holds an `int`, and no `bool`. -/
def intField (fields : List (List ℕ × Value)) (name : String) : Option ℤ :=
  match get fields (text name) with
  | some (.int n) => some n
  | _ => none

def maxPackageBytes : ℤ := 8 * 1024 ^ 3

/-- The package of a manifest, after its shape. -/
def validatePackage (package : List (List ℕ × Value)) : Except Fault Package :=
  let filename := stringField package "filename"
  let sha256 := stringField package "sha256"
  let size := intField package "size"
  let version := stringField package "version"
  if ¬ filename.any matchesFile then .error (.valueError "release filename is invalid")
  else if ¬ sha256.any matchesSha then .error (.valueError "release SHA256 is invalid")
  else if ¬ size.any fun n => 0 < n ∧ n ≤ maxPackageBytes then
    .error (.valueError "release size is invalid")
  else if ¬ version.any matchesVersion then .error (.valueError "release version is invalid")
  else if filename ≠ version.map filenameOf then
    .error (.valueError "release filename/version mismatch")
  else .ok ⟨filename.getD [], sha256.getD [], size.getD 0, version.getD []⟩

/-- `validate_manifest`; `depth` is how deep the decoder nests. -/
def validateManifest (depth : ℕ) (raw : List ℕ) : Except Fault Package :=
  if 4096 < raw.length then .error (.valueError "release manifest is too large")
  else
    match asciiDecode raw with
    | none => .error (.valueError "release manifest must be ASCII JSON")
    | some t =>
      match Lib.Json.decode depth t with
      | .error .recursion => .error .recursionError
      | .error .value => .error (.valueError "release manifest must be ASCII JSON")
      | .ok (.obj doc) =>
        if ¬ (hasKeys ["schema_version", "package"] doc ∧
            (get doc (text "schema_version")).any equalsOne) then
          .error (.valueError "release manifest top-level shape is invalid")
        else
          match get doc (text "package") with
          | some (.obj package) =>
            if ¬ hasKeys ["filename", "sha256", "size", "version"] package then
              .error (.valueError "release manifest package shape is invalid")
            else validatePackage package
          | _ => .error (.valueError "release manifest package shape is invalid")
      | .ok _ => .error (.valueError "release manifest top-level shape is invalid")

/-- `b64` of the tool. -/
def b64 (value : List ℕ) (size : ℕ) : Option (List ℕ) :=
  (standardDecode value).filter fun decoded => decoded.length = size

section Tool

variable (K : Crypto) (depth : ℕ)

/-- `--verify` -/
def verifyManifest (raw signature publicKeyBase64 : List ℕ) : Except Fault Package :=
  match validateManifest depth raw with
  | .error e => .error e
  | .ok package =>
    match (asciiDecode signature).bind fun t => b64 (strip .ascii t) 64 with
    | none => .error (.valueError "signature is not valid base64")
    | some decoded =>
      match b64 publicKeyBase64 32 with
      | none => .error (.valueError "public key is not valid base64")
      | some publicKey =>
        if K.verify publicKey decoded raw then .ok package else .error .invalidSignature

/-- The manifest of a package. -/
def manifestDoc (version package : List ℕ) : Doc :=
  .obj [(text "schema_version", .int 1),
    (text "package", .obj [(text "filename", .str (filenameOf version)),
      (text "sha256", .str (hexdigest (K.sha256 package))), (text "size", .int package.length),
      (text "version", .str version)])]

/-- What signing writes: the manifest, its signature, and the public key it prints. -/
structure Signed where
  raw : List ℕ
  signature : List ℕ
  publicKeyBase64 : List ℕ
  deriving DecidableEq, Repr

/-- Signing a package that lies in a file of this name. -/
def signManifest (name version package privateKey : List ℕ) : Except Fault Signed :=
  if ¬ matchesVersion version then .error (.valueError "version is invalid")
  else if name ≠ filenameOf version then .error (.valueError "package basename/version is invalid")
  else
    match (manifestDoc K version package).sorted.write compact with
    | none => .error (.valueError "Exceeds the limit for integer string conversion")
    | some t =>
      match validateManifest depth (t ++ [10]) with
      | .error e => .error e
      | .ok _ =>
        if privateKey.length ≠ 32 then
          .error (.valueError "private key must contain exactly 32 bytes")
        else
          .ok ⟨t ++ [10], b64encode (K.sign privateKey (t ++ [10])) ++ [10],
            b64encode (K.publicBytes privateKey)⟩

end Tool

/-! ## The control plane -/

/-- A file that could be opened without following a link. -/
structure Entry where
  regular : Bool
  data : List ℕ
  deriving DecidableEq, Repr

/-- `_read_small_regular_file` -/
def readSmallRegularFile (file : Option Entry) (limit : ℕ) : Option (List ℕ) :=
  match file with
  | some entry => if entry.regular ∧ entry.data.length ≤ limit then some entry.data else none
  | none => none

/-- `_strict_json_object`; `none` for a duplicate key. -/
def strictJsonObject : (result pairs : List (List ℕ × Value)) → Option (List (List ℕ × Value))
  | result, [] => some result
  | result, (key, value) :: pairs =>
    if (get result key).isSome then none else strictJsonObject (result ++ [(key, value)]) pairs

/-- The decoder with `_strict_json_object`. -/
def strictHooks : Hooks Err where
  object pairs :=
    match strictJsonObject [] pairs with
    | some result => .ok (.obj result)
    | none => .error .value
  constant := plainHooks.constant
  invalid := plainHooks.invalid
  recursion := plainHooks.recursion

def publicKeyBase64 : List ℕ := text "Wf/s6zRs0+FjSCqM1BQb5vXIpyv4Ivxm5nAS2wWZGxk="

/-- The directory of the releases. -/
def directory : List ℕ := text "/data/dist/"

def routeOf (filename : List ℕ) : List ℕ := text "/edge-package/" ++ filename

structure WindowsRelease where
  packagePath : List ℕ
  checksum : List ℕ
  route : List ℕ
  size : ℤ
  manifestRaw : List ℕ
  signatureRaw : List ℕ
  deriving DecidableEq, Repr

/-- The answer 503, and an exception that nobody catches. -/
inductive Refusal
  | unavailable
  | recursionError
  deriving DecidableEq, Repr

/-- The conditions on the decoded manifest; `none` where one fails or a subscript raises. -/
def packageOf : Value → Option Package
  | .obj document =>
    match get document (text "package") with
    | some (.obj package) =>
      let filename := stringField package "filename"
      let sha256 := stringField package "sha256"
      let size := intField package "size"
      let version := stringField package "version"
      if ¬ hasKeys ["schema_version", "package"] document ∨
          intField document "schema_version" ≠ some 1 ∨
          ¬ hasKeys ["filename", "sha256", "size", "version"] package ∨
          ¬ (filename.any fun t => fileStem.isPrefixOf t ∧ zipSuffix.isSuffixOf t ∧ pathName t = t) ∨
          ¬ (sha256.any fun t => t.length = 64 ∧ t.all isHexChar) ∨
          ¬ (size.any fun n => 0 < n ∧ n ≤ maxPackageBytes) ∨
          ¬ version.any matchesVersion ∨ filename ≠ version.map filenameOf then none
      else some ⟨filename.getD [], sha256.getD [], size.getD 0, version.getD []⟩
    | _ => none
  | _ => none

def releaseOf (p : Package) (manifestRaw signatureRaw : List ℕ) : WindowsRelease where
  packagePath := directory ++ p.filename
  checksum := p.sha256
  route := routeOf p.filename
  size := p.size
  manifestRaw := manifestRaw
  signatureRaw := signatureRaw

section Server

variable (K : Crypto) (depth : ℕ)

/-- The signature of the manifest passes with the key of the control plane. -/
def authentic (manifestRaw signatureRaw : List ℕ) : Bool :=
  match (asciiDecode signatureRaw).bind fun t => standardDecode (strip .ascii t),
    standardDecode publicKeyBase64 with
  | some signature, some publicKey =>
    decide (signature.length = 64 ∧ publicKey.length = 32) && K.verify publicKey signature manifestRaw
  | _, _ => false

/-- `verified_windows_release` -/
def verifiedWindowsRelease (manifest signature : Option Entry) : Except Refusal WindowsRelease :=
  match readSmallRegularFile manifest 4096, readSmallRegularFile signature 256 with
  | some manifestRaw, some signatureRaw =>
    if ¬ authentic K manifestRaw signatureRaw then .error .unavailable
    else
      match asciiDecode manifestRaw with
      | none => .error .unavailable
      | some t =>
        match Lib.JsonHooks.decode strictHooks depth t with
        | .error .recursion => .error .recursionError
        | .error .value => .error .unavailable
        | .ok document =>
          match packageOf document with
          | some package => .ok (releaseOf package manifestRaw signatureRaw)
          | none => .error .unavailable
  | _, _ => .error .unavailable

end Server

/-! ## Names of versions -/

theorem all_matchesLabel {t : List ℕ} (h : matchesLabel t = true) : ∀ c ∈ t, isFileChar c = true := by
  unfold matchesLabel at h
  split at h
  · simp
  · next t =>
    rw [Bool.and_eq_true, List.all_eq_true] at h
    exact List.forall_mem_cons.mpr ⟨by decide, h.2⟩
  · simp at h

theorem all_matchesDot {rest : List ℕ → Bool} (hrest : ∀ t, rest t = true → ∀ c ∈ t, isFileChar c = true)
    {t : List ℕ} (h : matchesDot rest t = true) : ∀ c ∈ t, isFileChar c = true := by
  unfold matchesDot at h
  split at h
  · exact List.forall_mem_cons.mpr ⟨by decide, hrest _ h⟩
  · simp at h

theorem isFileChar_digit {c : ℕ} (h : isDigit c = true) : isFileChar c = true := by
  have hrange := isDigit_iff.mp h
  exact decide_eq_true (by omega)

theorem all_matchesDigits {rest : List ℕ → Bool}
    (hrest : ∀ t, rest t = true → ∀ c ∈ t, isFileChar c = true) {t : List ℕ}
    (h : matchesDigits rest t = true) : ∀ c ∈ t, isFileChar c = true := by
  intro c hc
  rw [matchesDigits, Bool.and_eq_true] at h
  rw [← List.takeWhile_append_dropWhile (p := isDigit) (l := t)] at hc
  rcases List.mem_append.mp hc with hc | hc
  · exact isFileChar_digit (List.mem_takeWhile_imp hc)
  · exact hrest _ h.2 c hc

/-- A version has characters of file names only, and at least one. -/
theorem all_matchesVersion {t : List ℕ} (h : matchesVersion t = true) :
    t ≠ [] ∧ ∀ c ∈ t, isFileChar c = true := by
  constructor
  · rintro rfl
    exact absurd h (by decide)
  · exact all_matchesDigits (fun _ => all_matchesDot fun _ => all_matchesDigits fun _ =>
      all_matchesDot fun _ => all_matchesDigits fun _ => all_matchesLabel) h

theorem isFileChar_range {c : ℕ} (h : isFileChar c = true) : 45 ≤ c ∧ c < 128 ∧ c ≠ 47 := by
  have hrange := of_decide_eq_true h
  omega

theorem matchesFile_filenameOf {version : List ℕ} (h : matchesVersion version = true) :
    matchesFile (filenameOf version) = true := by
  obtain ⟨hne, hall⟩ := all_matchesVersion h
  have hbody : ((filenameOf version).drop fileStem.length).take
      ((filenameOf version).length - fileStem.length - zipSuffix.length) = version := by
    have hlen : (filenameOf version).length - fileStem.length - zipSuffix.length = version.length := by
      simp only [filenameOf, List.length_append]
      omega
    rw [hlen, filenameOf, List.append_assoc, List.drop_left, List.take_left]
  simp only [matchesFile, hbody]
  simpa [filenameOf, hne] using hall

/-- The file name of a version has no slash. -/
theorem pathName_filenameOf {version : List ℕ} (h : matchesVersion version = true) :
    pathName (filenameOf version) = filenameOf version := by
  have hstem : 47 ∉ fileStem ∧ 47 ∉ zipSuffix := by decide
  have hslash : 47 ∉ filenameOf version := by
    intro hc
    simp only [filenameOf, List.mem_append] at hc
    rcases hc with (hc | hc) | hc
    · exact hstem.1 hc
    · exact (isFileChar_range ((all_matchesVersion h).2 _ hc)).2.2 rfl
    · exact hstem.2 hc
  have hlong : 2 ≤ (filenameOf version).length := by
    simp only [filenameOf, List.length_append, zipSuffix]
    have hzip : (text ".zip").length = 4 := by decide
    omega
  have hcomponents : components (filenameOf version) = [filenameOf version] := by
    rw [components, List.splitOn_eq_singleton hslash]
    have hkept : filenameOf version ≠ [] ∧ filenameOf version ≠ [46] := by
      constructor <;> intro hshort <;> simp [hshort] at hlong
    exact List.filter_cons_of_pos (decide_eq_true hkept)
  rw [pathName, hcomponents]
  rfl

/-! ## Both checks of a manifest -/

/-- What both checks ask of the package of a manifest. -/
structure Describes (package : List (List ℕ × Value)) (p : Package) : Prop where
  filename : stringField package "filename" = some p.filename
  sha256 : stringField package "sha256" = some p.sha256
  size : intField package "size" = some p.size
  version : stringField package "version" = some p.version
  digest : matchesSha p.sha256 = true
  positive : 0 < p.size ∧ p.size ≤ maxPackageBytes
  released : matchesVersion p.version = true
  named : p.filename = filenameOf p.version

theorem validatePackage_eq_ok {package : List (List ℕ × Value)} {p : Package} :
    validatePackage package = .ok p ↔ Describes package p := by
  constructor
  · intro h
    unfold validatePackage at h
    dsimp only at h
    split_ifs at h with hfilename hsha hsize hversion hnamed
    obtain ⟨sha256, hs, hsha⟩ := (Option.any_eq_true _ _).mp hsha
    obtain ⟨size, hz, hsize⟩ := (Option.any_eq_true _ _).mp hsize
    obtain ⟨version, hv, hversion⟩ := (Option.any_eq_true _ _).mp hversion
    rw [ne_eq, not_not, hv, Option.map_some] at hnamed
    obtain rfl := Except.ok.inj h
    simp only [hnamed, hs, hz, hv, Option.getD_some]
    exact ⟨hnamed, hs, hz, hv, hsha, of_decide_eq_true hsize, hversion, rfl⟩
  · rintro ⟨hfilename, hsha, hsize, hversion, hdigest, hpositive, hreleased, hnamed⟩
    have hfile := matchesFile_filenameOf hreleased
    unfold validatePackage
    simp only [hfilename, hsha, hsize, hversion, Option.any_some, Option.map_some, Option.getD_some,
      hnamed, hfile, hdigest, hpositive, hreleased]
    simp [← hnamed]

/-- The control plane asks the same, and a schema version that is the integer one. -/
theorem packageOf_eq_some {document : Value} {p : Package} : packageOf document = some p ↔
    ∃ fields package, document = .obj fields ∧ get fields (text "package") = some (.obj package) ∧
      hasKeys ["schema_version", "package"] fields = true ∧ intField fields "schema_version" = some 1 ∧
      hasKeys ["filename", "sha256", "size", "version"] package = true ∧ Describes package p := by
  constructor
  · intro h
    unfold packageOf at h
    split at h
    · next fields =>
      split at h
      · next package hpackage =>
        dsimp only at h
        split_ifs at h with hcond
        simp only [not_or, Decidable.not_not] at hcond
        obtain ⟨hkeys, hschema, hshape, hfilename, hsha, hsize, hversion, hnamed⟩ := hcond
        obtain ⟨sha256, hs, hsha⟩ := (Option.any_eq_true _ _).mp hsha
        obtain ⟨size, hz, hsize⟩ := (Option.any_eq_true _ _).mp hsize
        obtain ⟨version, hv, hversion⟩ := (Option.any_eq_true _ _).mp hversion
        rw [hv, Option.map_some] at hnamed
        obtain rfl := Option.some.inj h
        refine ⟨fields, package, rfl, hpackage, hkeys, hschema, hshape, ?_⟩
        simp only [hnamed, hs, hz, hv, Option.getD_some]
        exact ⟨hnamed, hs, hz, hv, by simpa [matchesSha] using hsha, of_decide_eq_true hsize, hversion,
          rfl⟩
      · simp at h
    · simp at h
  · rintro ⟨fields, package, rfl, hpackage, hkeys, hschema, hshape, hfilename, hsha, hsize, hversion,
      hdigest, hpositive, hreleased, hnamed⟩
    have hname := pathName_filenameOf hreleased
    have hends : fileStem.isPrefixOf (filenameOf p.version) = true ∧
        zipSuffix.isSuffixOf (filenameOf p.version) = true := by
      rw [List.isPrefixOf_iff_prefix, List.isSuffixOf_iff_suffix, filenameOf]
      exact ⟨List.append_assoc _ _ _ ▸ List.prefix_append _ _, List.suffix_append _ _⟩
    have hhex : p.sha256.length = 64 ∧ p.sha256.all isHexChar = true := by
      simpa [matchesSha] using hdigest
    simp only [packageOf, hpackage, hfilename, hsha, hsize, hversion, hkeys, hschema, hshape,
      Option.any_some, Option.map_some, Option.getD_some, hnamed, hname, hends.1, hends.2, hhex.1, hhex.2,
      hpositive.1, hpositive.2, hreleased]
    simp [← hnamed]

/-! ## The strict reader -/

theorem get_isSome {fields : List (List ℕ × Value)} {key : List ℕ} :
    (get fields key).isSome = true ↔ key ∈ fields.map Prod.fst := by
  rw [Lib.Json.get, Option.isSome_map, List.find?_isSome]
  simp

theorem strictJsonObject_eq_some : ∀ {pairs acc result : List (List ℕ × Value)},
    strictJsonObject acc pairs = some result ↔
      (∀ f ∈ pairs, f.1 ∉ acc.map Prod.fst) ∧ (pairs.map Prod.fst).Nodup ∧ result = acc ++ pairs
  | [], acc, result => by simp [strictJsonObject, eq_comm]
  | (key, value) :: pairs, acc, result => by
    have ih := @strictJsonObject_eq_some pairs (acc ++ [(key, value)]) result
    rw [strictJsonObject]
    by_cases hkey : key ∈ acc.map Prod.fst
    · rw [if_pos (get_isSome.mpr hkey)]
      simp only [reduceCtorEq, false_iff]
      exact fun h => h.1 _ List.mem_cons_self hkey
    · rw [if_neg (mt get_isSome.mp hkey), ih]
      simp only [List.map_append, List.map_cons, List.map_nil, List.mem_append, List.mem_singleton, not_or,
        List.forall_mem_cons, List.nodup_cons, List.append_assoc, List.singleton_append, List.mem_map,
        not_exists, not_and]
      constructor
      · rintro ⟨hnew, hnodup, rfl⟩
        exact ⟨⟨fun f hf hfk => hkey (List.mem_map.mpr ⟨f, hf, hfk⟩), fun f hf g hg => (hnew f hf).1 g hg⟩,
          ⟨fun f hf => (hnew f hf).2, hnodup⟩, rfl⟩
      · rintro ⟨⟨-, hnew⟩, ⟨hdistinct, hnodup⟩, rfl⟩
        exact ⟨fun f hf => ⟨fun g hg => hnew f hf g hg, hdistinct f hf⟩, hnodup, rfl⟩

theorem strictHooks_object {pairs : List (List ℕ × Value)} {v : Value} :
    strictHooks.object pairs = .ok v ↔ (pairs.map Prod.fst).Nodup ∧ v = .obj pairs := by
  simp only [strictHooks]
  rcases hresult : strictJsonObject [] pairs with _ | result
  · simp only [reduceCtorEq, false_iff, not_and]
    rintro hnodup -
    have hkept : strictJsonObject [] pairs = some ([] ++ pairs) :=
      strictJsonObject_eq_some.mpr ⟨fun f _ => by simp, hnodup, rfl⟩
    rw [hresult] at hkept
    simp at hkept
  · obtain ⟨-, hnodup, rfl⟩ := strictJsonObject_eq_some.mp hresult
    simp [hnodup, eq_comm]

theorem keepsObjects_strict : KeepsObjects strictHooks :=
  fun _ hnodup => strictHooks_object.mpr ⟨hnodup, rfl⟩

/-- What the strict reader reads, `json.loads` reads as well. -/
theorem admits_strict : Admits strictHooks plainHooks where
  object pairs v h := by
    obtain ⟨hnodup, rfl⟩ := strictHooks_object.mp h
    exact keepsObjects_plain pairs hnodup
  constant _ _ h := h

/-- No object of the manifest repeats a key, and its schema version is an `int`. -/
def Strict (depth : ℕ) (raw : List ℕ) : Prop :=
  ∃ t fields, asciiDecode raw = some t ∧ Lib.JsonHooks.decode strictHooks depth t = .ok (.obj fields) ∧
    intField fields "schema_version" = some 1

/-- What the tool asks of the text of a manifest. -/
theorem validateManifest_eq_ok {depth : ℕ} {raw : List ℕ} {p : Package} :
    validateManifest depth raw = .ok p ↔ raw.length ≤ 4096 ∧ ∃ t fields package,
      asciiDecode raw = some t ∧ Lib.Json.decode depth t = .ok (.obj fields) ∧
        hasKeys ["schema_version", "package"] fields = true ∧
        (get fields (text "schema_version")).any equalsOne = true ∧
        get fields (text "package") = some (.obj package) ∧
        hasKeys ["filename", "sha256", "size", "version"] package = true ∧ Describes package p := by
  constructor
  · intro h
    unfold validateManifest at h
    by_cases hlong : 4096 < raw.length
    · simp [hlong] at h
    rw [if_neg hlong] at h
    refine ⟨by omega, ?_⟩
    rcases hascii : asciiDecode raw with _ | t
    · simp [hascii] at h
    simp only [hascii] at h
    split at h
    · simp at h
    · simp at h
    · next fields hfields =>
      split_ifs at h with hshape
      split at h
      · next package hpackage =>
        split_ifs at h with hkeys
        exact ⟨t, fields, package, rfl, hfields, hshape.1, hshape.2, hpackage, hkeys,
          validatePackage_eq_ok.mp h⟩
      · simp at h
    · simp at h
  · rintro ⟨hlen, t, fields, package, hascii, hfields, hkeys, hschema, hpackage, hshape, hp⟩
    unfold validateManifest
    rw [if_neg (by omega), hascii]
    simp only [hfields, hkeys, hschema, hpackage, hshape, validatePackage_eq_ok.mpr hp]
    simp

section

variable {K : Crypto} {depth : ℕ}

/-- The tool's check of a signature, with a key of the right size. -/
theorem verifyManifest_eq_ok {raw signature : List ℕ} {p : Package} :
    verifyManifest K depth raw signature publicKeyBase64 = .ok p ↔
      validateManifest depth raw = .ok p ∧ authentic K raw signature = true := by
  unfold verifyManifest authentic
  rcases validateManifest depth raw with e | p'
  · simp
  simp only [Except.ok.injEq]
  rcases (asciiDecode signature) with _ | t
  · simp
  simp only [Option.bind_some, b64]
  rcases standardDecode (strip .ascii t) with _ | decoded
  · simp
  rcases standardDecode publicKeyBase64 with _ | publicKey
  · by_cases hd : decoded.length = 64 <;> simp [hd, Option.filter_some]
  by_cases hd : decoded.length = 64
  · by_cases hk : publicKey.length = 32
    · simp only [Option.filter_some, hd, hk, decide_true, if_true, and_self, Bool.true_and]
      split_ifs with hverify <;> simp [hverify]
    · simp [Option.filter_some, hd, hk]
  · simp [Option.filter_some, hd]

theorem readSmallRegularFile_eq_some {file : Option Entry} {limit : ℕ} {data : List ℕ} :
    readSmallRegularFile file limit = some data ↔ file = some ⟨true, data⟩ ∧ data.length ≤ limit := by
  rcases file with _ | ⟨regular, content⟩
  · simp [readSmallRegularFile]
  · rw [readSmallRegularFile]
    constructor
    · intro h
      split_ifs at h with hfile
      obtain rfl := Option.some.inj h
      obtain ⟨hregular, hlen⟩ := hfile
      simp only at hregular
      exact ⟨by rw [hregular], hlen⟩
    · rintro ⟨hfile, hlen⟩
      obtain ⟨rfl, rfl⟩ := Entry.mk.inj (Option.some.inj hfile)
      exact if_pos ⟨rfl, hlen⟩

theorem asciiDecode_eq_some {raw t : List ℕ} :
    asciiDecode raw = some t ↔ t = raw ∧ ∀ c ∈ raw, c < 128 := by
  have hall : raw.all (decide <| · < 128) = true ↔ ∀ c ∈ raw, c < 128 := by
    simp only [List.all_eq_true, decide_eq_true_iff]
  unfold asciiDecode
  split_ifs with hascii
  · rw [Option.some.injEq, eq_comm, and_iff_left (hall.mp hascii)]
  · simp [mt hall.mpr hascii]

/-- A release is what the strict reader finds in a manifest with a good signature. -/
theorem verified_eq_ok {manifest signature : Option Entry} {release : WindowsRelease} :
    verifiedWindowsRelease K depth manifest signature = .ok release ↔
      ∃ raw sig document p, readSmallRegularFile manifest 4096 = some raw ∧
        readSmallRegularFile signature 256 = some sig ∧ authentic K raw sig = true ∧
        asciiDecode raw = some raw ∧ Lib.JsonHooks.decode strictHooks depth raw = .ok document ∧
        packageOf document = some p ∧ release = releaseOf p raw sig := by
  unfold verifiedWindowsRelease
  constructor
  · intro h
    rcases hmanifest : readSmallRegularFile manifest 4096 with _ | raw
    · simp [hmanifest] at h
    rcases hsignature : readSmallRegularFile signature 256 with _ | sig
    · simp [hmanifest, hsignature] at h
    simp only [hmanifest, hsignature] at h
    by_cases hauth : authentic K raw sig = true
    swap
    · simp [hauth] at h
    rw [if_neg (not_not.mpr hauth)] at h
    rcases hascii : asciiDecode raw with _ | t
    · simp [hascii] at h
    obtain ⟨rfl, -⟩ := asciiDecode_eq_some.mp hascii
    simp only [hascii] at h
    rcases hdecode : Lib.JsonHooks.decode strictHooks depth t with (_ | _) | document
    · simp [hdecode] at h
    · simp [hdecode] at h
    simp only [hdecode] at h
    rcases hpackage : packageOf document with _ | p
    · simp [hpackage] at h
    simp only [hpackage, Except.ok.injEq] at h
    exact ⟨t, sig, document, p, rfl, rfl, hauth, hascii, hdecode, hpackage, h.symm⟩
  · rintro ⟨raw, sig, document, p, hmanifest, hsignature, hauth, hascii, hdecode, hpackage, rfl⟩
    simp only [hmanifest, hsignature, hauth, hascii, hdecode, hpackage]
    rfl

/-- **The control plane serves the releases that the tool verifies with its key**, if the manifest is
strict and both files are regular and small. -/
theorem verified_iff {manifest signature : Option Entry} {release : WindowsRelease} :
    verifiedWindowsRelease K depth manifest signature = .ok release ↔
      ∃ raw sig p, readSmallRegularFile manifest 4096 = some raw ∧
        readSmallRegularFile signature 256 = some sig ∧
        verifyManifest K depth raw sig publicKeyBase64 = .ok p ∧ Strict depth raw ∧
        release = releaseOf p raw sig := by
  -- the plain reader reads the same document
  have hplain : ∀ {t : List ℕ} {v : Value}, Lib.JsonHooks.decode strictHooks depth t = .ok v →
      Lib.Json.decode depth t = .ok v := by
    intro t v h
    rw [decode_plain]
    exact Lib.JsonHooks.decode_admits admits_strict h
  rw [verified_eq_ok]
  constructor
  · rintro ⟨raw, sig, document, p, hmanifest, hsignature, hauth, hascii, hdecode, hp, rfl⟩
    obtain ⟨-, hlen⟩ := readSmallRegularFile_eq_some.mp hmanifest
    obtain ⟨fields, package, rfl, hpackage, hkeys, hschema, hshape, hdescribes⟩ :=
      packageOf_eq_some.mp hp
    have hone : (get fields (text "schema_version")).any equalsOne = true := by
      unfold intField at hschema
      split at hschema
      · next n hn =>
        rw [hn]
        simpa [equalsOne] using hschema
      · simp at hschema
    have hvalid : validateManifest depth raw = .ok p := validateManifest_eq_ok.mpr
      ⟨hlen, raw, fields, package, hascii, hplain hdecode, hkeys, hone, hpackage, hshape, hdescribes⟩
    exact ⟨raw, sig, p, hmanifest, hsignature, verifyManifest_eq_ok.mpr ⟨hvalid, hauth⟩,
      ⟨raw, fields, hascii, hdecode, hschema⟩, rfl⟩
  · rintro ⟨raw, sig, p, hmanifest, hsignature, hverify, ⟨t, fields, hascii, hstrict, hschema⟩, rfl⟩
    obtain ⟨hvalid, hauth⟩ := verifyManifest_eq_ok.mp hverify
    obtain ⟨-, t', fields', package, hascii', hfields, hkeys, -, hpackage, hshape, hp⟩ :=
      validateManifest_eq_ok.mp hvalid
    obtain rfl := Option.some.inj (hascii.symm.trans hascii')
    obtain ⟨rfl, -⟩ := asciiDecode_eq_some.mp hascii
    obtain rfl := Value.obj.inj (Except.ok.inj ((hplain hstrict).symm.trans hfields))
    have hpackageOf := packageOf_eq_some.mpr
      ⟨fields, package, rfl, hpackage, hkeys, hschema, hshape, hp⟩
    exact ⟨t, sig, _, p, hmanifest, hsignature, hauth, hascii, hstrict, hpackageOf, rfl⟩

/-! ## What the tool signs -/

/-- The manifest as it is written: with its keys in order. -/
def sortedDoc (version digest : List ℕ) (size : ℤ) : Doc :=
  .obj [(text "package", .obj [(text "filename", .str (filenameOf version)),
      (text "sha256", .str digest), (text "size", .int size), (text "version", .str version)]),
    (text "schema_version", .int 1)]

theorem sorted_manifestDoc (version package : List ℕ) : (manifestDoc K version package).sorted =
    sortedDoc version (hexdigest (K.sha256 package)) package.length := by
  rfl

theorem ascii_filenameOf {version : List ℕ} (h : matchesVersion version = true) :
    ∀ c ∈ filenameOf version, c < 0x80 := by
  have hends : (∀ c ∈ fileStem, c < 0x80) ∧ ∀ c ∈ zipSuffix, c < 0x80 := by decide
  intro c hc
  simp only [filenameOf, List.mem_append] at hc
  rcases hc with (hc | hc) | hc
  · exact hends.1 c hc
  · exact (isFileChar_range ((all_matchesVersion h).2 c hc)).2.1
  · exact hends.2 c hc

theorem isHexChar_hexDigit {d : ℕ} (h : d < 16) : isHexChar (hexDigit d) = true := by
  unfold isHexChar hexDigit
  split_ifs <;> exact decide_eq_true (by omega)

theorem matchesSha_hexdigest {digest : List ℕ} (hlen : digest.length = 32) (h : ∀ b ∈ digest, b < 256) :
    matchesSha (hexdigest digest) = true := by
  have hlength : (hexdigest digest).length = 64 := by
    simp [hexdigest, List.length_flatMap, hlen]
  have hall : (hexdigest digest).all isHexChar = true := by
    refine List.all_eq_true.mpr fun c hc => ?_
    obtain ⟨b, hb, hc⟩ := List.mem_flatMap.mp hc
    have hbyte := h b hb
    simp only [List.mem_cons, List.not_mem_nil, or_false] at hc
    rcases hc with rfl | rfl
    · exact isHexChar_hexDigit (by omega)
    · exact isHexChar_hexDigit (by omega)
  simp [matchesSha, hlength, hall]

theorem hexDigit_inj {d d' : ℕ} (hd : d < 16) (hd' : d' < 16) (h : hexDigit d = hexDigit d') : d = d' := by
  have hval := hexVal_hexDigit hd
  rw [h, hexVal_hexDigit hd'] at hval
  exact (Option.some.inj hval).symm

/-- A digest is known from its text. -/
theorem hexdigest_inj : ∀ {digest digest' : List ℕ}, (∀ b ∈ digest, b < 256) → (∀ b ∈ digest', b < 256) →
    hexdigest digest = hexdigest digest' → digest = digest'
  | [], [], _, _, _ => rfl
  | [], b :: digest', _, _, h => by simp [hexdigest] at h
  | b :: digest, [], _, _, h => by simp [hexdigest] at h
  | b :: digest, b' :: digest', hd, hd', h => by
    rw [List.forall_mem_cons] at hd hd'
    simp only [hexdigest, List.flatMap_cons, List.cons_append, List.nil_append, List.cons.injEq] at h
    obtain ⟨hhigh, hlow, hrest⟩ := h
    have h1 := hexDigit_inj (by omega) (by omega) hhigh
    have h2 := hexDigit_inj (Nat.mod_lt _ (by decide)) (Nat.mod_lt _ (by decide)) hlow
    rw [hexdigest_inj hd.2 hd'.2 hrest, List.cons.injEq, and_iff_left rfl]
    omega

theorem isHexChar_lt {c : ℕ} (h : isHexChar c = true) : c < 0x80 := by
  have hrange := of_decide_eq_true h
  omega

/-- Both readers read the manifest back. -/
theorem decode_sortedDoc {version digest t : List ℕ} {size : ℤ} (hversion : matchesVersion version = true)
    (hdigest : matchesSha digest = true) (hdepth : 2 ≤ depth)
    (ht : (sortedDoc version digest size).write compact = some t) :
    Lib.JsonHooks.decode strictHooks depth (t ++ [10]) = .ok (sortedDoc version digest size).value := by
  have hpair : ∀ t : List ℕ, (∀ c ∈ t, c < 0x80) → NoPair t := fun t => noPair_of_ascii
  have hdigestPair : NoPair digest := by
    refine hpair digest fun c hc => isHexChar_lt ?_
    simp only [matchesSha, Bool.and_eq_true, List.all_eq_true] at hdigest
    exact hdigest.2 c hc
  have hversionPair : NoPair version :=
    hpair version fun c hc => (isFileChar_range ((all_matchesVersion hversion).2 c hc)).2.1
  have hnamePair : NoPair (filenameOf version) := hpair _ (ascii_filenameOf hversion)
  have hkey := noPair_text
  have hvalid : (sortedDoc version digest size).Valid := by
    simp only [sortedDoc, Doc.Valid, ValidFields, hkey, hdigestPair, hversionPair, hnamePair, and_true,
      true_and, List.map_cons, List.map_nil]
    decide
  have hheight : (sortedDoc version digest size).height ≤ depth := by
    simpa [sortedDoc, Doc.height, heightFields] using hdepth
  exact decode_write keepsObjects_strict hvalid hheight ht (by decide)

theorem describes_sortedDoc {version digest : List ℕ} {size : ℤ} (hversion : matchesVersion version = true)
    (hdigest : matchesSha digest = true) (hsize : 0 < size ∧ size ≤ maxPackageBytes) :
    packageOf (sortedDoc version digest size).value = some ⟨filenameOf version, digest, size, version⟩ := by
  refine packageOf_eq_some.mpr ⟨_, [(text "filename", .str (filenameOf version)),
    (text "sha256", .str digest), (text "size", .int size), (text "version", .str version)], rfl, rfl,
    rfl, rfl, rfl, ⟨rfl, rfl, rfl, rfl, hdigest, hsize, hversion, rfl⟩⟩

/-- The signature file of the tool is read back. -/
theorem strip_signature (data : List ℕ) (hne : data ≠ []) :
    strip .ascii (b64encode data ++ [10]) = b64encode data := by
  have hwhite : ∀ c ∈ b64encode data, Lib.PythonInt.isWhite .ascii c = false := by
    intro c hc
    have hrange := Lib.Base64.b64encode_ge data c hc
    have hblank : ¬ (9 ≤ c ∧ c ≤ 13 ∨ 28 ≤ c ∧ c ≤ 32) := by omega
    simp [Lib.PythonInt.isWhite, Lib.PythonInt.Unicode.ascii, hblank]
  have htext : b64encode data ≠ [] := by
    intro hnil
    have hlen := Lib.Base64.length_b64encode data
    have hpos := List.length_pos_iff.mpr hne
    rw [hnil, List.length_nil] at hlen
    omega
  exact Lib.PythonInt.strip_append .ascii (fun c hc => hwhite c (List.mem_of_mem_head? hc))
    (fun c hc => hwhite c (List.mem_of_getLast? hc)) htext (by decide)

theorem authentic_signed (hK : K.Correct) (raw : List ℕ) {key : List ℕ}
    (hkey : b64encode (K.publicBytes key) = publicKeyBase64) :
    authentic K raw (b64encode (K.sign key raw) ++ [10]) = true := by
  obtain ⟨hlen, hbytes⟩ := hK.signature key raw
  obtain ⟨hkeyLen, hkeyBytes⟩ := hK.publicKey key
  have hne : K.sign key raw ≠ [] := by
    intro hnil
    simp [hnil] at hlen
  have hascii : asciiDecode (b64encode (K.sign key raw) ++ [10]) =
      some (b64encode (K.sign key raw) ++ [10]) := by
    refine asciiDecode_eq_some.mpr ⟨rfl, fun c hc => ?_⟩
    rcases List.mem_append.mp hc with hc | hc
    · exact Lib.Base64.b64encode_lt _ c hc
    · rw [List.mem_singleton.mp hc]
      decide
  simp only [authentic, hascii, Option.bind_some, strip_signature _ hne,
    Lib.Base64.standardDecode_b64encode hbytes, ← hkey, Lib.Base64.standardDecode_b64encode hkeyBytes,
    hlen, hkeyLen, hK.verifies]
  rfl

/-- What the tool signs, and what the control plane reads in it. -/
theorem signed_read (hK : K.Correct) (hdepth : 2 ≤ depth) {name version package privateKey : List ℕ}
    {s : Signed} (h : signManifest K depth name version package privateKey = .ok s) :
    s.raw.length ≤ 4096 ∧ asciiDecode s.raw = some s.raw ∧
      s.signature = b64encode (K.sign privateKey s.raw) ++ [10] ∧
      s.publicKeyBase64 = b64encode (K.publicBytes privateKey) ∧
      ∃ document, Lib.JsonHooks.decode strictHooks depth s.raw = .ok document ∧
        packageOf document = some ⟨name, hexdigest (K.sha256 package), package.length, version⟩ := by
  unfold signManifest at h
  by_cases hversion : matchesVersion version = true
  swap
  · simp [hversion] at h
  by_cases hname : name = filenameOf version
  swap
  · simp [hversion, hname] at h
  rw [if_neg (not_not.mpr hversion), if_neg (not_not.mpr hname), sorted_manifestDoc] at h
  rcases hwrite : (sortedDoc version (hexdigest (K.sha256 package)) package.length).write compact with _ | t
  · simp [hwrite] at h
  simp only [hwrite] at h
  rcases hvalid : validateManifest depth (t ++ [10]) with e | p
  · simp [hvalid] at h
  simp only [hvalid] at h
  split_ifs at h with hlength
  obtain rfl := Except.ok.inj h
  have hdigest := matchesSha_hexdigest (hK.digest package).1 (hK.digest package).2
  have hstrict := decode_sortedDoc hversion hdigest hdepth hwrite
  obtain ⟨hlen, t', fields, fields', hascii, hfields, -, -, hpackage, -, hdescribes⟩ :=
    validateManifest_eq_ok.mp hvalid
  obtain ⟨hraw, -⟩ := asciiDecode_eq_some.mp hascii
  -- the tool has checked the size with the reader that takes repeated keys
  have hplain : Lib.Json.decode depth t' =
      .ok (sortedDoc version (hexdigest (K.sha256 package)) package.length).value := by
    rw [hraw, decode_plain]
    exact Lib.JsonHooks.decode_admits admits_strict hstrict
  obtain rfl := Value.obj.inj (Except.ok.inj (hplain.symm.trans hfields))
  obtain rfl := Value.obj.inj (Option.some.inj (show some _ = some _ from hpackage))
  have hsize : (package.length : ℤ) = p.size := Option.some.inj hdescribes.size
  have hfits := hdescribes.positive
  rw [← hsize] at hfits
  have hpackageOf := describes_sortedDoc hversion hdigest hfits
  rw [← hname] at hpackageOf
  exact ⟨hlen, hraw ▸ hascii, rfl, rfl, _, hstrict, hpackageOf⟩

/-- **The control plane serves everything that the tool signs** with the key it has the public half of. -/
theorem released_served (hK : K.Correct) (hdepth : 2 ≤ depth) {name version package privateKey : List ℕ}
    {s : Signed} (h : signManifest K depth name version package privateKey = .ok s)
    (hkey : s.publicKeyBase64 = publicKeyBase64) :
    verifiedWindowsRelease K depth (some ⟨true, s.raw⟩) (some ⟨true, s.signature⟩) =
      .ok ⟨directory ++ name, hexdigest (K.sha256 package), routeOf name, package.length, s.raw,
        s.signature⟩ := by
  obtain ⟨hlen, hascii, hsignature, hpublic, document, hstrict, hpackageOf⟩ := signed_read hK hdepth h
  have hshort : s.signature.length ≤ 256 := by
    rw [hsignature, List.length_append, Lib.Base64.length_b64encode, (hK.signature privateKey s.raw).1]
    decide
  have hauth : authentic K s.raw s.signature = true :=
    hsignature ▸ authentic_signed hK s.raw (hpublic.symm.trans hkey)
  have hreadRaw : readSmallRegularFile (some ⟨true, s.raw⟩) 4096 = some s.raw :=
    readSmallRegularFile_eq_some.mpr ⟨rfl, hlen⟩
  have hreadSig : readSmallRegularFile (some ⟨true, s.signature⟩) 256 = some s.signature :=
    readSmallRegularFile_eq_some.mpr ⟨rfl, hshort⟩
  exact verified_eq_ok.mpr
    ⟨s.raw, s.signature, document, _, hreadRaw, hreadSig, hauth, hascii, hstrict, hpackageOf, rfl⟩

end

/-- `sha256(b"PK").digest()` -/
def packageDigest : List ℕ :=
  [252, 171, 127, 204, 43, 76, 255, 217, 187, 69, 0, 59, 252, 46, 70, 138, 4, 239, 111, 119, 202, 130,
    0, 167, 52, 31, 2, 118, 49, 88, 77, 37]

/-- The digest of one package, the key of the control plane, and zeros for the signatures of its private
half. -/
def zeros : Crypto where
  sha256 data := if data = text "PK" then packageDigest else List.replicate 32 0
  publicBytes _ := (standardDecode publicKeyBase64).getD []
  sign _ _ := List.replicate 64 0
  verify _ signature _ := signature == List.replicate 64 0

theorem packageDigest_octets : packageDigest.length = 32 ∧ ∀ b ∈ packageDigest, b < 256 := by decide

theorem correct_zeros : zeros.Correct where
  digest data := by
    simp only [zeros]
    split_ifs
    · exact packageDigest_octets
    · exact ⟨rfl, by simp⟩
  signature _ _ := ⟨rfl, by simp [zeros]⟩
  publicKey _ := by
    have hkey : ((standardDecode publicKeyBase64).getD []).length = 32 ∧
        ∀ b ∈ (standardDecode publicKeyBase64).getD [], b < 256 := by decide +kernel
    exact hkey
  verifies _ _ := beq_self_eq_true _

theorem released_served_zeros : ∃ s,
    signManifest zeros 2 (filenameOf (text "1.2.3")) (text "1.2.3") (text "PK") (List.replicate 32 7) =
        .ok s ∧
      verifiedWindowsRelease zeros 2 (some ⟨true, s.raw⟩) (some ⟨true, s.signature⟩) =
        .ok ⟨directory ++ filenameOf (text "1.2.3"),
          text "fcab7fcc2b4cffd9bb45003bfc2e468a04ef6f77ca8200a7341f027631584d25",
          routeOf (filenameOf (text "1.2.3")), 2, s.raw, s.signature⟩ := by
  have hsigned : (signManifest zeros 2 (filenameOf (text "1.2.3")) (text "1.2.3") (text "PK")
      (List.replicate 32 7)).map Signed.publicKeyBase64 = .ok publicKeyBase64 := by
    decide +kernel
  obtain ⟨s, hs, hkey⟩ := Lib.Results.map_eq_ok.mp hsigned
  have hserved := released_served correct_zeros le_rfl hs hkey
  have hdigest : hexdigest (zeros.sha256 (text "PK")) =
      text "fcab7fcc2b4cffd9bb45003bfc2e468a04ef6f77ca8200a7341f027631584d25" := by decide +kernel
  rw [hdigest] at hserved
  exact ⟨s, hs, hserved⟩

end IdenGrid.Edge.Release
