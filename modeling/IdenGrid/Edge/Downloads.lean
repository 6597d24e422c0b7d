import IdenGrid.Edge.Release
import IdenGrid.Lib.Requests

/-! # Downloads of a release

The handler `windows_edge_versioned_package`, cut at its system calls: it reads the manifest and its
signature, opens the package, compares its size, reads it once for its digest and once more to send it.
Any number of downloads run at once, while a deployment replaces files or writes into them; a system call
may fail and a client may go.

A file is a name for an inode, which a descriptor keeps open. An inode counts the writes to it, so a
download whose inode has the same count in the end has seen one content.

`delivered_released`: what such a download delivers is a package that the release tool has signed, under
the name that the client has asked for. -/

namespace IdenGrid.Edge.Downloads

open IdenGrid.Lib.Run IdenGrid.Lib.Requests IdenGrid.Lib.Unicode IdenGrid.Edge.Release
open IdenGrid.Lib.JsonDumps (hexDigit)

structure Inode where
  entry : Entry
  writes : ℕ
  deriving DecidableEq, Repr

structure Host where
  names : List ℕ → Option ℕ
  inodes : ℕ → Inode

/-- The file of a name. -/
def Host.file (host : Host) (path : List ℕ) : Option Entry :=
  (host.names path).map fun i => (host.inodes i).entry

/-- The file with this inode now has this content. -/
def Host.write (host : Host) (inode : ℕ) (entry : Entry) : Host :=
  let written : Inode := ⟨entry, (host.inodes inode).writes + 1⟩
  { host with inodes := Function.update host.inodes inode written }

def manifestPath : List ℕ := text "/data/dist/release-manifest.json"

def signaturePath : List ℕ := text "/data/dist/release-manifest.json.sig"

inductive Stage
  | idle
  | verifying
  | opening
  | measuring
  | hashing
  | streaming
  | delivered
  | refused (statusCode : ℕ)
  | broken
  deriving DecidableEq, Repr

/-- A download: the name in its path, what it has read so far, and the writes its inode counted when it
was opened and when the stream came to its end. -/
structure Download where
  stage : Stage
  filename : List ℕ
  manifest : Option Entry
  signature : Option Entry
  release : Option WindowsRelease
  inode : ℕ
  opened : ℕ
  hashed : List ℕ
  sent : List ℕ
  closed : ℕ
  deriving DecidableEq, Repr

/-- The system calls of a download, and what happens to the files meanwhile. `n` is how many bytes a call
reads at most. -/
inductive Event
  | requested (filename : List ℕ)
  | verified
  | opened
  | measured
  | hashed (n : ℕ)
  | sent (n : ℕ)
  | failed
  | replaced (path : List ℕ) (inode : Option ℕ)
  | written (inode : ℕ) (entry : Entry)
  deriving DecidableEq, Repr

/-- `os.read` at an offset. -/
def readAt (data : List ℕ) (offset n : ℕ) : List ℕ := (data.drop offset).take n

variable (K : Crypto) (depth : ℕ)

/-- The end of `_open_verified_windows_package`. -/
def compareDigest (release : WindowsRelease) (d : Download) : Download :=
  if hexdigest (K.sha256 d.hashed) = release.checksum then { d with stage := .streaming }
  else { d with stage := .refused 503 }

/-- One step of a download. -/
def act (_r : ℕ) (host : Host) (d : Download) (e : Event) : Option (Host × Download) :=
  match d.stage, e with
  | _, .replaced path inode => some ({ host with names := Function.update host.names path inode }, d)
  | _, .written inode entry => some (host.write inode entry, d)
  | .idle, .requested filename =>
    some (host, { d with stage := .verifying, filename := filename, manifest := host.file manifestPath })
  | .verifying, .verified =>
    let signature := host.file signaturePath
    match verifiedWindowsRelease K depth d.manifest signature with
    | .error .unavailable => some (host, { d with stage := .refused 503 })
    | .error .recursionError => some (host, { d with stage := .refused 500 })
    | .ok release =>
      if release.route ≠ routeOf d.filename then some (host, { d with stage := .refused 404 })
      else some (host, { d with stage := .opening, signature := signature, release := some release })
  | .opening, .opened =>
    match d.release.bind fun release => host.names release.packagePath with
    | none => some (host, { d with stage := .refused 503 })
    | some i =>
      some (host, { d with stage := .measuring, inode := i, opened := (host.inodes i).writes })
  | .measuring, .measured =>
    let entry := (host.inodes d.inode).entry
    if entry.regular ∧ some (entry.data.length : ℤ) = d.release.map WindowsRelease.size ∧
        0 < entry.data.length ∧ (entry.data.length : ℤ) ≤ maxPackageBytes then
      some (host, { d with stage := .hashing, hashed := [] })
    else some (host, { d with stage := .refused 503 })
  | .hashing, .hashed n =>
    match d.release, readAt (host.inodes d.inode).entry.data d.hashed.length (n + 1) with
    | some release, [] => some (host, compareDigest K release { d with sent := [] })
    | some _, chunk => some (host, { d with hashed := d.hashed ++ chunk })
    | none, _ => none
  | .streaming, .sent n =>
    match readAt (host.inodes d.inode).entry.data d.sent.length (n + 1) with
    | [] => some (host, { d with stage := .delivered, closed := (host.inodes d.inode).writes })
    | chunk => some (host, { d with sent := d.sent ++ chunk })
  | .streaming, .failed => some (host, { d with stage := .broken })
  | .verifying, .failed | .opening, .failed | .measuring, .failed | .hashing, .failed =>
    some (host, { d with stage := .refused 503 })
  | _, _ => none

def idle : Download := ⟨.idle, [], none, none, none, 0, 0, [], [], 0⟩

/-- Downloads that have not begun. -/
def start (host : Host) : Crew Host Download := ⟨host, fun _ => idle⟩

/-! ## What a download knows -/

/-- The release of a download is verified, and is the one that the client has asked for. -/
def Verified (d : Download) (release : WindowsRelease) : Prop :=
  d.release = some release ∧ verifiedWindowsRelease K depth d.manifest d.signature = .ok release ∧
    release.route = routeOf d.filename

/-- The invariant of a download. -/
structure Knows (host : Host) (d : Download) : Prop where
  opening : d.stage = .opening → ∃ release, Verified K depth d release
  measuring : d.stage = .measuring → d.opened ≤ (host.inodes d.inode).writes ∧
    ∃ release, Verified K depth d release
  hashing : d.stage = .hashing → d.opened ≤ (host.inodes d.inode).writes ∧
    ∃ release, Verified K depth d release ∧ ((host.inodes d.inode).writes = d.opened →
      d.hashed <+: (host.inodes d.inode).entry.data ∧
        ((host.inodes d.inode).entry.data.length : ℤ) = release.size)
  streaming : d.stage = .streaming → d.opened ≤ (host.inodes d.inode).writes ∧
    ∃ release, Verified K depth d release ∧ hexdigest (K.sha256 d.hashed) = release.checksum ∧
      ((host.inodes d.inode).writes = d.opened → d.hashed = (host.inodes d.inode).entry.data ∧
        d.sent <+: (host.inodes d.inode).entry.data ∧ (d.hashed.length : ℤ) = release.size)
  delivered : d.stage = .delivered → ∃ release, Verified K depth d release ∧
    hexdigest (K.sha256 d.hashed) = release.checksum ∧
      (d.closed = d.opened → d.sent = d.hashed ∧ (d.hashed.length : ℤ) = release.size)

variable {K depth} {host host' : Host} {d d' : Download}

theorem knows_idle (host : Host) : Knows K depth host idle := by
  constructor <;> intro h <;> cases h

/-- A stage of which nothing is known. -/
theorem Knows.of_ended (h : d.stage = .idle ∨ d.stage = .verifying ∨ (∃ c, d.stage = .refused c) ∨
    d.stage = .broken) : Knows K depth host d := by
  constructor <;> intro hs <;> simp [hs] at h

theorem Knows.of_opening (hstage : d.stage = .opening)
    (h : ∃ release, Verified K depth d release) : Knows K depth host d := by
  constructor
  case opening => exact fun _ => h
  all_goals
    intro hs
    cases hstage.symm.trans hs

theorem Knows.of_measuring (hstage : d.stage = .measuring)
    (hopened : d.opened ≤ (host.inodes d.inode).writes)
    (h : ∃ release, Verified K depth d release) : Knows K depth host d := by
  constructor
  case measuring => exact fun _ => ⟨hopened, h⟩
  all_goals
    intro hs
    cases hstage.symm.trans hs

theorem Knows.of_hashing (hstage : d.stage = .hashing)
    (hopened : d.opened ≤ (host.inodes d.inode).writes) {release : WindowsRelease}
    (hverified : Verified K depth d release)
    (hcontent : (host.inodes d.inode).writes = d.opened →
      d.hashed <+: (host.inodes d.inode).entry.data ∧
        ((host.inodes d.inode).entry.data.length : ℤ) = release.size) :
    Knows K depth host d := by
  constructor
  case hashing => exact fun _ => ⟨hopened, release, hverified, hcontent⟩
  all_goals
    intro hs
    cases hstage.symm.trans hs

theorem Knows.of_streaming (hstage : d.stage = .streaming)
    (hopened : d.opened ≤ (host.inodes d.inode).writes) {release : WindowsRelease}
    (hverified : Verified K depth d release)
    (hdigest : hexdigest (K.sha256 d.hashed) = release.checksum)
    (hcontent : (host.inodes d.inode).writes = d.opened →
      d.hashed = (host.inodes d.inode).entry.data ∧
        d.sent <+: (host.inodes d.inode).entry.data ∧ (d.hashed.length : ℤ) = release.size) :
    Knows K depth host d := by
  constructor
  case streaming => exact fun _ => ⟨hopened, release, hverified, hdigest, hcontent⟩
  all_goals
    intro hs
    cases hstage.symm.trans hs

theorem Knows.of_delivered (hstage : d.stage = .delivered) {release : WindowsRelease}
    (hverified : Verified K depth d release)
    (hdigest : hexdigest (K.sha256 d.hashed) = release.checksum)
    (hcontent : d.closed = d.opened → d.sent = d.hashed ∧ (d.hashed.length : ℤ) = release.size) :
    Knows K depth host d := by
  constructor
  case delivered => exact fun _ => ⟨release, hverified, hdigest, hcontent⟩
  all_goals
    intro hs
    cases hstage.symm.trans hs

/-- Files that get another name leave every download as it is. -/
theorem Knows.of_inodes (hK : Knows K depth host d) (h : host'.inodes = host.inodes) :
    Knows K depth host' d := by
  obtain ⟨hopening, hmeasuring, hhashing, hstreaming, hdelivered⟩ := hK
  exact ⟨hopening, h ▸ hmeasuring, h ▸ hhashing, h ▸ hstreaming, hdelivered⟩

theorem writes_write (host : Host) (i j : ℕ) (entry : Entry) :
    (host.inodes j).writes ≤ ((host.write i entry).inodes j).writes ∧
      (((host.write i entry).inodes j).writes = (host.inodes j).writes →
        (host.write i entry).inodes j = host.inodes j) := by
  rcases eq_or_ne j i with rfl | hne
  · simp [Host.write]
  · simp [Host.write, Function.update_of_ne hne]

/-- A write into a file ends what a download that has it open knows of its content. -/
theorem Knows.write (hK : Knows K depth host d) (i : ℕ) (entry : Entry) :
    Knows K depth (host.write i entry) d := by
  obtain ⟨hle, hsame⟩ := writes_write host i d.inode entry
  -- while the count is as it was when the file was opened, so is the inode
  have hkept : d.opened ≤ (host.inodes d.inode).writes →
      ((host.write i entry).inodes d.inode).writes = d.opened →
      (host.write i entry).inodes d.inode = host.inodes d.inode ∧
        (host.inodes d.inode).writes = d.opened := by
    intro hopened hcount
    have hequal : ((host.write i entry).inodes d.inode).writes = (host.inodes d.inode).writes := by
      omega
    exact ⟨hsame hequal, hequal ▸ hcount⟩
  refine ⟨hK.opening, fun hs => ?_, fun hs => ?_, fun hs => ?_, hK.delivered⟩
  · obtain ⟨hopened, hrelease⟩ := hK.measuring hs
    exact ⟨hopened.trans hle, hrelease⟩
  · obtain ⟨hopened, release, hverified, hcontent⟩ := hK.hashing hs
    refine ⟨hopened.trans hle, release, hverified, fun hcount => ?_⟩
    obtain ⟨hinode, hcount⟩ := hkept hopened hcount
    rw [hinode]
    exact hcontent hcount
  · obtain ⟨hopened, release, hverified, hdigest, hcontent⟩ := hK.streaming hs
    refine ⟨hopened.trans hle, release, hverified, hdigest, fun hcount => ?_⟩
    obtain ⟨hinode, hcount⟩ := hkept hopened hcount
    rw [hinode]
    exact hcontent hcount

theorem append_readAt {data read : List ℕ} (h : read <+: data) (n : ℕ) :
    read ++ readAt data read.length n <+: data := by
  obtain ⟨rest, rfl⟩ := h
  rw [readAt, List.drop_left]
  exact (List.prefix_append_right_inj read).mpr (List.take_prefix n rest)

/-- Nothing is left to read only when everything has been read. -/
theorem eq_of_readAt_nil {data read : List ℕ} (h : read <+: data) {n : ℕ}
    (hnil : readAt data read.length (n + 1) = []) : read = data := by
  obtain ⟨rest, rfl⟩ := h
  rw [readAt, List.drop_left] at hnil
  rcases rest with _ | ⟨b, rest⟩
  · rw [List.append_nil]
  · simp at hnil

/-- What a step does to the files, and what it reads of the release. -/
structure Touches (host host' : Host) (d d' : Download) (e : Event) : Prop where
  inodes : host'.inodes = host.inodes ∨ ∃ i entry, e = .written i entry ∧ host' = host.write i entry
  manifest : d'.manifest = d.manifest ∨ d'.manifest = host.file manifestPath
  signature : d'.signature = d.signature ∨ d'.signature = host.file signaturePath

theorem act_touches {r : ℕ} {e : Event} (h : act K depth r host d e = some (host', d')) :
    Touches host host' d d' e := by
  unfold act at h
  generalize d.stage = stage at h
  split at h
  case h_2 =>
    obtain ⟨rfl, rfl⟩ := Prod.mk.inj (Option.some.inj h)
    exact ⟨.inr ⟨_, _, rfl, rfl⟩, .inl rfl, .inl rfl⟩
  case h_3 =>
    obtain ⟨rfl, rfl⟩ := Prod.mk.inj (Option.some.inj h)
    exact ⟨.inl rfl, .inr rfl, .inl rfl⟩
  case h_4 =>
    dsimp only at h
    split at h
    · obtain ⟨rfl, rfl⟩ := Prod.mk.inj (Option.some.inj h)
      exact ⟨.inl rfl, .inl rfl, .inl rfl⟩
    · obtain ⟨rfl, rfl⟩ := Prod.mk.inj (Option.some.inj h)
      exact ⟨.inl rfl, .inl rfl, .inl rfl⟩
    · split_ifs at h
      · obtain ⟨rfl, rfl⟩ := Prod.mk.inj (Option.some.inj h)
        exact ⟨.inl rfl, .inl rfl, .inl rfl⟩
      · obtain ⟨rfl, rfl⟩ := Prod.mk.inj (Option.some.inj h)
        exact ⟨.inl rfl, .inl rfl, .inr rfl⟩
  case h_5 | h_8 =>
    split at h <;> obtain ⟨rfl, rfl⟩ := Prod.mk.inj (Option.some.inj h) <;>
      exact ⟨.inl rfl, .inl rfl, .inl rfl⟩
  case h_6 =>
    dsimp only at h
    split_ifs at h <;> obtain ⟨rfl, rfl⟩ := Prod.mk.inj (Option.some.inj h) <;>
      exact ⟨.inl rfl, .inl rfl, .inl rfl⟩
  case h_7 =>
    split at h
    · obtain ⟨rfl, rfl⟩ := Prod.mk.inj (Option.some.inj h)
      unfold compareDigest
      split_ifs <;> exact ⟨.inl rfl, .inl rfl, .inl rfl⟩
    · obtain ⟨rfl, rfl⟩ := Prod.mk.inj (Option.some.inj h)
      exact ⟨.inl rfl, .inl rfl, .inl rfl⟩
    · cases h
  case h_14 => cases h
  all_goals
    obtain ⟨rfl, rfl⟩ := Prod.mk.inj (Option.some.inj h)
    exact ⟨.inl rfl, .inl rfl, .inl rfl⟩

/-- **One step of a download** keeps what it knows. -/
theorem act_knows {r : ℕ} {e : Event} (hK : Knows K depth host d)
    (h : act K depth r host d e = some (host', d')) : Knows K depth host' d' := by
  unfold act at h
  generalize hstage : d.stage = stage at h
  split at h
  case h_1 =>
    obtain ⟨rfl, rfl⟩ := Prod.mk.inj (Option.some.inj h)
    exact hK.of_inodes rfl
  case h_2 =>
    obtain ⟨rfl, rfl⟩ := Prod.mk.inj (Option.some.inj h)
    exact hK.write _ _
  case h_3 =>
    obtain ⟨rfl, rfl⟩ := Prod.mk.inj (Option.some.inj h)
    exact .of_ended (.inr (.inl rfl))
  case h_4 =>
    dsimp only at h
    split at h
    · obtain ⟨rfl, rfl⟩ := Prod.mk.inj (Option.some.inj h)
      exact .of_ended (.inr (.inr (.inl ⟨503, rfl⟩)))
    · obtain ⟨rfl, rfl⟩ := Prod.mk.inj (Option.some.inj h)
      exact .of_ended (.inr (.inr (.inl ⟨500, rfl⟩)))
    · next release hrelease =>
      split_ifs at h with hroute
      · obtain ⟨rfl, rfl⟩ := Prod.mk.inj (Option.some.inj h)
        exact .of_ended (.inr (.inr (.inl ⟨404, rfl⟩)))
      · obtain ⟨rfl, rfl⟩ := Prod.mk.inj (Option.some.inj h)
        have hverified : Verified K depth { d with
            stage := .opening, signature := host.file signaturePath, release := some release } release :=
          ⟨rfl, hrelease, not_not.mp hroute⟩
        exact .of_opening rfl ⟨release, hverified⟩
  case h_5 =>
    obtain ⟨release, hverified⟩ := hK.opening hstage
    split at h
    · obtain ⟨rfl, rfl⟩ := Prod.mk.inj (Option.some.inj h)
      exact .of_ended (.inr (.inr (.inl ⟨503, rfl⟩)))
    · obtain ⟨rfl, rfl⟩ := Prod.mk.inj (Option.some.inj h)
      exact .of_measuring rfl le_rfl ⟨release, hverified⟩
  case h_6 =>
    obtain ⟨hopened, release, hverified⟩ := hK.measuring hstage
    dsimp only at h
    split_ifs at h with hmeasure
    · obtain ⟨rfl, rfl⟩ := Prod.mk.inj (Option.some.inj h)
      have hsize := hmeasure.2.1
      rw [hverified.1, Option.map_some] at hsize
      exact .of_hashing rfl hopened hverified
        fun _ => ⟨List.nil_prefix, Option.some.inj hsize⟩
    · obtain ⟨rfl, rfl⟩ := Prod.mk.inj (Option.some.inj h)
      exact .of_ended (.inr (.inr (.inl ⟨503, rfl⟩)))
  case h_7 n =>
    obtain ⟨hopened, release, hverified, hcontent⟩ := hK.hashing hstage
    split at h
    · next release' hrelease' hnil =>
      -- the end of the file
      obtain rfl := Option.some.inj (hverified.1.symm.trans hrelease')
      obtain ⟨rfl, rfl⟩ := Prod.mk.inj (Option.some.inj h)
      unfold compareDigest
      split_ifs with hdigest
      · refine .of_streaming rfl hopened hverified hdigest fun hcount => ?_
        obtain ⟨hstarts, hsize⟩ := hcontent hcount
        have hall := eq_of_readAt_nil hstarts hnil
        exact ⟨hall, List.nil_prefix, by simpa only [hall] using hsize⟩
      · exact .of_ended (.inr (.inr (.inl ⟨503, rfl⟩)))
    · obtain ⟨rfl, rfl⟩ := Prod.mk.inj (Option.some.inj h)
      refine .of_hashing rfl hopened hverified fun hcount => ?_
      obtain ⟨hstarts, hsize⟩ := hcontent hcount
      exact ⟨append_readAt hstarts _, hsize⟩
    · cases h
  case h_8 n =>
    obtain ⟨hopened, release, hverified, hdigest, hcontent⟩ := hK.streaming hstage
    split at h
    · next hnil =>
      obtain ⟨rfl, rfl⟩ := Prod.mk.inj (Option.some.inj h)
      refine .of_delivered rfl hverified hdigest fun hcount => ?_
      obtain ⟨hhashed, hstarts, hsize⟩ := hcontent hcount
      exact ⟨(eq_of_readAt_nil hstarts hnil).trans hhashed.symm, hsize⟩
    · obtain ⟨rfl, rfl⟩ := Prod.mk.inj (Option.some.inj h)
      refine .of_streaming rfl hopened hverified hdigest fun hcount => ?_
      obtain ⟨hhashed, hstarts, hsize⟩ := hcontent hcount
      exact ⟨hhashed, append_readAt hstarts _, hsize⟩
  case h_9 =>
    obtain ⟨rfl, rfl⟩ := Prod.mk.inj (Option.some.inj h)
    exact .of_ended (.inr (.inr (.inr rfl)))
  case h_14 => cases h
  -- a call that fails before anything has been sent
  all_goals
    obtain ⟨rfl, rfl⟩ := Prod.mk.inj (Option.some.inj h)
    exact .of_ended (.inr (.inr (.inl ⟨503, rfl⟩)))

/-- A step of one download takes no content away from another one, unless it is a write. -/
theorem knows_stable {r : ℕ} {e : Event} {q : Download} (hK : Knows K depth host q)
    (h : act K depth r host d e = some (host', d')) : Knows K depth host' q := by
  rcases (act_touches h).inodes with hinodes | ⟨i, entry, -, rfl⟩
  · exact hK.of_inodes hinodes
  · exact hK.write i entry

/-- A file that has been there, from the beginning or since a step of the run. -/
def Appears (host : Host) (es : List (ℕ × Event)) (entry : Entry) : Prop :=
  (∃ i, (host.inodes i).entry = entry) ∨ ∃ r i, (r, .written i entry) ∈ es

/-- What the downloads have read are files that have been there. -/
def Sees (A : Entry → Prop) (k : Crew Host Download) : Prop :=
  (∀ i, A (k.shared.inodes i).entry) ∧
    ∀ r, (∀ m ∈ (k.loc r).manifest, A m) ∧ ∀ m ∈ (k.loc r).signature, A m

theorem sees_step {A : Entry → Prop} {k k' : Crew Host Download} {e : ℕ × Event} (hS : Sees A k)
    (he : ∀ i entry, e.2 = .written i entry → A entry) (hs : step (act K depth) k e = some k') :
    Sees A k' := by
  obtain ⟨host', d', ha, rfl⟩ := step_eq_some.mp hs
  obtain ⟨hinodes, hmanifest, hsignature⟩ := act_touches ha
  have hfile : ∀ path, ∀ m ∈ k.shared.file path, A m := by
    intro path m hm
    obtain ⟨i, -, rfl⟩ := Option.map_eq_some_iff.mp hm
    exact hS.1 i
  refine ⟨fun i => ?_, fun r => ?_⟩
  · rcases hinodes with hinodes | ⟨j, entry, hwritten, rfl⟩
    · simpa only [hinodes] using hS.1 i
    · rcases eq_or_ne i j with rfl | hne
      · simpa [Host.write] using he i entry hwritten
      · simpa [Host.write, Function.update_of_ne hne] using hS.1 i
  · rcases eq_or_ne r e.1 with rfl | hne
    · simp only [Function.update_self]
      refine ⟨?_, ?_⟩
      · rcases hmanifest with hsame | hread
        · rw [hsame]
          exact (hS.2 e.1).1
        · rw [hread]
          exact hfile manifestPath
      · rcases hsignature with hsame | hread
        · rw [hsame]
          exact (hS.2 e.1).2
        · rw [hread]
          exact hfile signaturePath
    · simpa only [Function.update_of_ne hne] using hS.2 r

/-- What a download delivers is the content of a file that has been there, unless it was written into. -/
def Delivers (A : Entry → Prop) (d : Download) : Prop :=
  d.stage = .delivered → d.closed = d.opened → ∃ entry, A entry ∧ entry.data = d.sent

theorem act_delivers {A : Entry → Prop} {r : ℕ} {e : Event} (hK : Knows K depth host d)
    (hA : ∀ i, A (host.inodes i).entry) (hD : Delivers A d)
    (h : act K depth r host d e = some (host', d')) : Delivers A d' := by
  have hended : d'.stage ≠ .delivered → Delivers A d' := fun hne hs => absurd hs hne
  unfold act at h
  generalize hstage : d.stage = stage at h
  split at h
  case h_1 | h_2 =>
    obtain ⟨rfl, rfl⟩ := Prod.mk.inj (Option.some.inj h)
    exact hD
  case h_4 =>
    dsimp only at h
    split at h
    · obtain ⟨rfl, rfl⟩ := Prod.mk.inj (Option.some.inj h)
      exact hended (by simp)
    · obtain ⟨rfl, rfl⟩ := Prod.mk.inj (Option.some.inj h)
      exact hended (by simp)
    · split_ifs at h <;> obtain ⟨rfl, rfl⟩ := Prod.mk.inj (Option.some.inj h) <;>
        exact hended (by simp)
  case h_5 =>
    split at h <;> obtain ⟨rfl, rfl⟩ := Prod.mk.inj (Option.some.inj h) <;> exact hended (by simp)
  case h_6 =>
    dsimp only at h
    split_ifs at h <;> obtain ⟨rfl, rfl⟩ := Prod.mk.inj (Option.some.inj h) <;>
      exact hended (by simp)
  case h_7 =>
    split at h
    · obtain ⟨rfl, rfl⟩ := Prod.mk.inj (Option.some.inj h)
      unfold compareDigest
      split_ifs <;> exact fun hs => absurd hs (by simp)
    · obtain ⟨rfl, rfl⟩ := Prod.mk.inj (Option.some.inj h)
      exact hended (by simp)
    · cases h
  case h_8 =>
    obtain ⟨-, release, -, -, hcontent⟩ := hK.streaming hstage
    split at h
    · next hnil =>
      -- the end of the stream: what has been sent is the whole file
      obtain ⟨rfl, rfl⟩ := Prod.mk.inj (Option.some.inj h)
      intro _ hcount
      obtain ⟨-, hstarts, -⟩ := hcontent hcount
      exact ⟨_, hA d.inode, (eq_of_readAt_nil hstarts hnil).symm⟩
    · obtain ⟨rfl, rfl⟩ := Prod.mk.inj (Option.some.inj h)
      exact hended (by simp)
  case h_14 => cases h
  all_goals
    obtain ⟨rfl, rfl⟩ := Prod.mk.inj (Option.some.inj h)
    exact hended (by simp)

/-- What holds of a run whose files are those of `A`. -/
structure Reads (K : Crypto) (depth : ℕ) (A : Entry → Prop) (k : Crew Host Download) : Prop where
  sees : Sees A k
  knows : ∀ r, Knows K depth k.shared (k.loc r)
  delivers : ∀ r, Delivers A (k.loc r)

theorem reads_step {A : Entry → Prop} {k k' : Crew Host Download} {e : ℕ × Event}
    (hR : Reads K depth A k) (he : ∀ i entry, e.2 = .written i entry → A entry)
    (hs : step (act K depth) k e = some k') : Reads K depth A k' := by
  have hsees := sees_step hR.sees he hs
  obtain ⟨host', d', ha, rfl⟩ := step_eq_some.mp hs
  refine ⟨hsees, fun r => ?_, fun r => ?_⟩
  · rcases eq_or_ne r e.1 with rfl | hne
    · simpa using act_knows (hR.knows e.1) ha
    · simpa [Function.update_of_ne hne] using knows_stable (hR.knows r) ha
  · rcases eq_or_ne r e.1 with rfl | hne
    · simpa using act_delivers (hR.knows e.1) hR.sees.1 (hR.delivers e.1) ha
    · simpa [Function.update_of_ne hne] using hR.delivers r

theorem reads_run {es : List (ℕ × Event)} {host : Host} {k : Crew Host Download}
    (hrun : run (step (act K depth)) (start host) es = some k) :
    Reads K depth (Appears host es) k := by
  have hstart : Reads K depth (Appears host es) (start host) := by
    refine ⟨⟨fun i => .inl ⟨i, rfl⟩, fun r => ?_⟩, fun r => knows_idle host, fun r => ?_⟩
    · exact ⟨by simp [start, idle], by simp [start, idle]⟩
    · simp [Delivers, start, idle]
  have hevents : ∀ e ∈ es, ∀ i entry, e.2 = .written i entry → Appears host es entry := by
    rintro ⟨r, e⟩ he i entry rfl
    exact .inr ⟨r, i, he⟩
  exact run_inv_along (fun _ _ _ hR he hs => reads_step hR he hs) es _ k hstart
    (along_of_forall hevents _) hrun

/-- A release under a signature of the tool is the package that was signed. -/
theorem release_of_signed (hK : K.Correct) (hdepth : 2 ≤ depth) {manifest signature : Option Entry}
    {release : WindowsRelease} (h : verifiedWindowsRelease K depth manifest signature = .ok release) :
    ∃ m s : Entry, manifest = some m ∧ signature = some s ∧ authentic K m.data s.data = true ∧
      ∀ {name version package key signed}, signManifest K depth name version package key = .ok signed →
        signed.raw = m.data →
          release.route = routeOf name ∧ release.checksum = hexdigest (K.sha256 package) := by
  obtain ⟨raw, sig, document, p, hmanifest, hsignature, hauth, -, hstrict, hp, rfl⟩ := verified_eq_ok.mp h
  obtain ⟨rfl, -⟩ := readSmallRegularFile_eq_some.mp hmanifest
  obtain ⟨rfl, -⟩ := readSmallRegularFile_eq_some.mp hsignature
  refine ⟨_, _, rfl, rfl, hauth, fun hsigned hraw => ?_⟩
  obtain ⟨-, -, -, -, document', hstrict', hp'⟩ := signed_read hK hdepth hsigned
  rw [hraw] at hstrict'
  obtain rfl := Except.ok.inj (hstrict.symm.trans hstrict')
  obtain rfl := Option.some.inj (hp.symm.trans hp')
  exact ⟨rfl, rfl⟩

/-- **What a download delivers is a package that the tool has signed**, under the name that the client has
asked for, if nobody has written into the file while it was open: in every state of a run of any number of
downloads and deployments. Of all the files that have been there, only what the tool has signed has a good
signature, and only a package has the digest of one. -/
theorem delivered_released (hK : K.Correct) (hdepth : 2 ≤ depth) {published : Set (List ℕ × List ℕ)}
    {es : List (ℕ × Event)} {host : Host}
    (hsigned : ∀ m s, Appears host es m → Appears host es s → authentic K m.data s.data = true →
      ∃ name version package key signed, (name, package) ∈ published ∧
        signManifest K depth name version package key = .ok signed ∧ signed.raw = m.data)
    (hcollision : ∀ p ∈ published, ∀ entry, Appears host es entry →
      K.sha256 entry.data = K.sha256 p.2 → entry.data = p.2)
    {k : Crew Host Download} (hrun : run (step (act K depth)) (start host) es = some k) {r : ℕ}
    (h : (k.loc r).stage = .delivered) (hkept : (k.loc r).closed = (k.loc r).opened) :
    ((k.loc r).filename, (k.loc r).sent) ∈ published := by
  have hreads := reads_run hrun
  obtain ⟨release, ⟨-, hverified, hroute⟩, hdigest, hcontent⟩ := (hreads.knows r).delivered h
  obtain ⟨hsent, -⟩ := hcontent hkept
  obtain ⟨m, s, hm, hs, hauth, hrelease⟩ := release_of_signed hK hdepth hverified
  obtain ⟨hmanifest, hsignature⟩ := hreads.sees.2 r
  obtain ⟨name, version, package, key, signed, hpublished, htool, hraw⟩ :=
    hsigned m s (hmanifest m hm) (hsignature s hs) hauth
  obtain ⟨hname, hchecksum⟩ := hrelease htool hraw
  have hfilename : (k.loc r).filename = name :=
    List.append_cancel_left (hroute.symm.trans hname)
  have hsha : K.sha256 (k.loc r).hashed = K.sha256 package :=
    hexdigest_inj (hK.digest _).2 (hK.digest _).2 (hdigest.trans hchecksum)
  obtain ⟨entry, happears, hdata⟩ := hreads.delivers r h hkept
  have hpackage := hcollision _ hpublished entry happears (by rw [hdata, hsent, hsha])
  rw [hfilename, ← hdata, hpackage]
  exact hpublished

/-! ## A download during a deployment -/

/-- The manifest of a package of two bytes. -/
def sampleRaw : List ℕ :=
  ((sortedDoc (text "1.2.3") (hexdigest packageDigest) 2).write Lib.JsonTree.compact).getD [] ++ [10]

/-- The digest of one package, and another signature for every other manifest. -/
def sample : Crypto where
  sha256 data := if data = text "PK" then packageDigest else List.replicate 32 1
  publicBytes := zeros.publicBytes
  sign _ raw := if raw = sampleRaw then List.replicate 64 0 else List.replicate 64 1
  verify _ signature raw :=
    signature == if raw = sampleRaw then List.replicate 64 0 else List.replicate 64 1

theorem correct_sample : sample.Correct where
  digest data := by
    simp only [sample]
    split_ifs
    · exact packageDigest_octets
    · exact ⟨rfl, by simp⟩
  signature key raw := by
    simp only [sample]
    split_ifs <;> exact ⟨rfl, by simp⟩
  publicKey := correct_zeros.publicKey
  verifies key raw := beq_self_eq_true _

/-- The files of the sample. -/
def sampleEntries : List Entry :=
  [⟨true, sampleRaw⟩, ⟨true, Lib.Base64.b64encode (List.replicate 64 0) ++ [10]⟩, ⟨true, text "PK"⟩,
    ⟨true, []⟩]

def sampleHost : Host where
  names path :=
    if path = manifestPath then some 0 else if path = signaturePath then some 1
    else if path = directory ++ filenameOf (text "1.2.3") then some 2 else none
  inodes i := ⟨sampleEntries.getD i ⟨true, []⟩, 0⟩

/-- The package is removed, and its manifest overwritten, while it is sent. -/
def sampleEvents : List (ℕ × Event) :=
  [(0, .requested (filenameOf (text "1.2.3"))), (0, .verified), (0, .opened), (0, .measured),
    (0, .hashed 0), (0, .hashed 7), (0, .hashed 7), (0, .sent 0),
    (1, .replaced (directory ++ filenameOf (text "1.2.3")) none), (1, .written 0 ⟨true, []⟩),
    (0, .sent 7), (0, .sent 7)]

theorem appears_sample {entry : Entry} (h : Appears sampleHost sampleEvents entry) :
    entry ∈ sampleEntries := by
  rcases h with ⟨i, rfl⟩ | ⟨r, i, h⟩
  · simp only [sampleHost, List.getD_eq_getElem?_getD]
    rcases hi : sampleEntries[i]? with _ | entry
    · simp [sampleEntries]
    · exact List.mem_of_getElem? hi
  · simp only [sampleEvents, List.mem_cons, Prod.mk.injEq, reduceCtorEq, and_false, List.not_mem_nil,
      Event.written.injEq, false_or, or_false] at h
    obtain ⟨-, -, rfl⟩ := h
    simp [sampleEntries]

theorem delivered_released_sample : ∃ k, run (step (act sample 2)) (start sampleHost) sampleEvents = some k ∧
    ((k.loc 0).filename, (k.loc 0).sent) ∈
      ({(filenameOf (text "1.2.3"), text "PK")} : Set (List ℕ × List ℕ)) := by
  have hsigned : ∀ m s, Appears sampleHost sampleEvents m → Appears sampleHost sampleEvents s →
      authentic sample m.data s.data = true → ∃ name version package key signed,
        (name, package) ∈ ({(filenameOf (text "1.2.3"), text "PK")} : Set (List ℕ × List ℕ)) ∧
          signManifest sample 2 name version package key = .ok signed ∧ signed.raw = m.data := by
    intro m s hm hs hauth
    have hall : ∀ m ∈ sampleEntries, ∀ s ∈ sampleEntries,
        authentic sample m.data s.data = true → m.data = sampleRaw := by decide +kernel
    have htool : (signManifest sample 2 (filenameOf (text "1.2.3")) (text "1.2.3") (text "PK")
        (List.replicate 32 7)).map Signed.raw = .ok sampleRaw := by decide +kernel
    obtain ⟨signed, hok, hraw⟩ := Lib.Results.map_eq_ok.mp htool
    exact ⟨_, _, _, _, signed, rfl, hok,
      hraw.trans (hall m (appears_sample hm) s (appears_sample hs) hauth).symm⟩
  have hcollision : ∀ p ∈ ({(filenameOf (text "1.2.3"), text "PK")} : Set (List ℕ × List ℕ)),
      ∀ entry, Appears sampleHost sampleEvents entry → sample.sha256 entry.data = sample.sha256 p.2 →
        entry.data = p.2 := by
    rintro p rfl entry - h
    by_contra hne
    simp only [sample, if_neg hne] at h
    exact absurd h (by decide)
  have hend : ((run (step (act sample 2)) (start sampleHost) sampleEvents).map fun k =>
      ((k.loc 0).stage, (k.loc 0).closed, (k.loc 0).opened)) = some (.delivered, 0, 0) := by
    decide +kernel
  obtain ⟨k, hk, hlast⟩ := Option.map_eq_some_iff.mp hend
  simp only [Prod.mk.injEq] at hlast
  obtain ⟨hstage, hclosed, hopened⟩ := hlast
  exact ⟨k, hk, delivered_released correct_sample le_rfl hsigned hcollision hk hstage
    (hclosed.trans hopened.symm)⟩

end IdenGrid.Edge.Downloads
