import IdenGrid.Edge.Config
import IdenGrid.Edge.Sddl
import IdenGrid.Lib.WindowsPaths

/-! # The configuration loader on Windows

`_windows_settings_from_file` against an adversary: what `open`, `inspect` and `read_limited` answer may
depend on everything that happened before. A run is the log of its calls. `close` does not fail. -/

namespace IdenGrid.Edge.WindowsLoader

open IdenGrid.Edge.Config IdenGrid.Edge.Sddl IdenGrid.Lib.Unicode IdenGrid.Lib.WindowsPaths

/-! ## The injected API -/

/-- What is known of an open handle. A pair of numbers is always true, so its identity is. -/
structure WindowsObjectInfo where
  finalPath : List ℕ
  identity : ℤ × ℤ
  isDirectory : Bool
  isReparsePoint : Bool
  ownerSid : List ℕ
  sddl : List ℕ
  deriving DecidableEq, Repr

/-- What a call raises. -/
inductive Raised
  | osError
  | fault (f : Fault)
  deriving DecidableEq, Repr

inductive Event (H : Type)
  | opened (path : List ℕ) (directory : Bool) (outcome : Except Raised H)
  | inspected (handle : H) (outcome : Except Raised WindowsObjectInfo)
  | read (handle : H) (limit : ℕ) (outcome : Except Raised (List ℕ))
  | closed (handle : H)

/-- The answers of the API, after these events. -/
structure Api (H : Type) where
  open_ : List (Event H) → List ℕ → Bool → Except Raised H
  inspect : List (Event H) → H → Except Raised WindowsObjectInfo
  readLimited : List (Event H) → H → ℕ → Except Raised (List ℕ)

/-- The maps of `str.lower` and `str.casefold`, and the digits and white space beyond ASCII. -/
structure Alphabet where
  lower : List ℕ → List ℕ
  casefold : List ℕ → List ℕ
  unicode : IdenGrid.Lib.PythonInt.Unicode

/-- The log, and the variables `handles` and `identities`. -/
structure Session (H : Type) where
  log : List (Event H)
  handles : List H
  identities : List (ℤ × ℤ)

variable {H α β : Type}

/-- A piece of the loader, up to an exception. -/
def Action (H α : Type) : Type := Session H → Except Raised α × Session H

def Session.record (w : Session H) (e : Event H) : Session H := { w with log := w.log ++ [e] }

instance : Monad (Action H) where
  pure a w := (.ok a, w)
  bind m f w :=
    match m w with
    | (.ok a, w) => f a w
    | (.error e, w) => (.error e, w)

/-! ## The loader -/

variable (A : Api H) (L : Alphabet)

/-- `api.open`, and the handle goes to `handles`. -/
def openHandle (path : List ℕ) (directory : Bool) : Action H H := fun w =>
  let outcome := A.open_ w.log path directory
  let w := w.record (.opened path directory outcome)
  match outcome with
  | .ok handle => (.ok handle, { w with handles := w.handles ++ [handle] })
  | .error e => (.error e, w)

def inspect (handle : H) : Action H WindowsObjectInfo := fun w =>
  (A.inspect w.log handle, w.record (.inspected handle (A.inspect w.log handle)))

def readLimited (handle : H) (limit : ℕ) : Action H (List ℕ) := fun w =>
  (A.readLimited w.log handle limit, w.record (.read handle limit (A.readLimited w.log handle limit)))

/-- `identities.add` -/
def remember (identity : ℤ × ℤ) : Action H Unit := fun w =>
  (.ok (), { w with identities := w.identities ++ [identity] })

/-- A check that may read `identities`. -/
def check (c : List (ℤ × ℤ) → Except Raised Unit) : Action H Unit := fun w => (c w.identities, w)

/-- `_windows_path_key` -/
def windowsPathKey (path : List ℕ) : List ℕ :=
  let value := normpath path
  L.casefold (if (text "\\\\?\\UNC\\").isPrefixOf value then text "\\\\" ++ value.drop 8
    else if (text "\\\\?\\").isPrefixOf value then value.drop 4 else value)

def raiseRuntimeError (message : String) : Except Raised Unit :=
  .error (.fault (.runtimeError (text message)))

/-- The checks of the file. -/
def checkLeaf (requested : List ℕ) (info : WindowsObjectInfo) : Except Raised Unit :=
  if info.isDirectory ∨ info.isReparsePoint ∨ windowsPathKey L info.finalPath ≠ requested then
    raiseRuntimeError "unsafe config path"
  else if info.ownerSid ∉ systemSids ∨ ¬ windowsSddlIsRestricted L.unicode info.sddl then
    raiseRuntimeError "unsafe config permissions"
  else .ok ()

/-- The trusted owners and the check of the access list of a directory above the file; those of the one
that holds it are stricter, unless that is the root. -/
def owners (strict : Bool) : List (List ℕ) :=
  if strict then systemSids ++ adminSids else systemSids ++ adminSids ++ trustedInstallerSids

def directoryAclOk (strict : Bool) (sddl : List ℕ) : Bool :=
  if strict then windowsDirectorySddlIsRestricted L.unicode sddl
  else windowsAncestorSddlIsRestricted L.unicode sddl

/-- The checks of a directory. -/
def checkDirectory (strict : Bool) (path : List ℕ) (info : WindowsObjectInfo)
    (identities : List (ℤ × ℤ)) : Except Raised Unit :=
  if ¬ info.isDirectory ∨ info.isReparsePoint ∨ info.identity ∈ identities ∨
      windowsPathKey L info.finalPath ≠ windowsPathKey L path then
    raiseRuntimeError "unsafe config path"
  else if info.ownerSid ∉ owners strict ∨ ¬ directoryAclOk L strict info.sddl then
    raiseRuntimeError "unsafe parent directory permissions"
  else .ok ()

/-- A directory is opened, inspected and checked. -/
def visit (strict : Bool) (path : List ℕ) : Action H WindowsObjectInfo := do
  let handle ← openHandle A path true
  let info ← inspect A handle
  check (checkDirectory L strict path info)
  pure info

/-- The loop over the directories below the root; it ends with the root, which is its own parent. -/
def walk (current : PureWindowsPath) (immediateParent : Bool) : Action H PureWindowsPath :=
  if _h : current.same L.lower current.parent = true then pure current
  else do
    let info ← visit A L immediateParent current.str
    remember info.identity
    walk current.parent false
termination_by current.parts.length
decreasing_by exact PureWindowsPath.length_parent _h

/-- The body of the `try`. -/
def body (path : List ℕ) : Action H (List ℕ) := do
  let leaf ← openHandle A path false
  let leafInfo ← inspect A leaf
  check fun _ => checkLeaf L (windowsPathKey L path) leafInfo
  remember leafInfo.identity
  let root ← walk A L (PureWindowsPath.parse leafInfo.finalPath).parent true
  let _ ← visit A L false root.str
  readLimited A leaf maxConfigBytes

/-- `_windows_settings_from_file`: what it returns or raises, and the log after it. -/
def windowsSettingsFromFile (depth : ℕ) (path : List ℕ) (log : List (Event H)) :
    Except Fault Settings × List (Event H) :=
  let (outcome, w) := body A L path ⟨log, [], []⟩
  let log := w.log ++ w.handles.map .closed
  match outcome with
  | .ok raw => (settingsFromBytes depth raw, log)
  | .error .osError => (.error (.runtimeError (text "config file is unavailable")), log)
  | .error (.fault f) => (.error f, log)

/-! ## What a run opens -/

/-- What the loader tried to open. -/
def openedPaths (events : List (Event H)) : List (List ℕ) :=
  events.filterMap fun e => match e with
    | .opened path _ _ => some path
    | _ => none

def openedHandles (events : List (Event H)) : List H :=
  events.filterMap fun e => match e with
    | .opened _ _ (.ok handle) => some handle
    | _ => none

def closedHandles (events : List (Event H)) : List H :=
  events.filterMap fun e => match e with
    | .closed handle => some handle
    | _ => none

/-- What happens between two states of the variables: nothing is closed, and all handles are kept. -/
structure Trace (w w' : Session H) (events : List (Event H)) : Prop where
  log : w'.log = w.log ++ events
  handles : w'.handles = w.handles ++ openedHandles events
  open_ : closedHandles events = []

/-- The piece tries to open these paths in turn, and all of them unless it raises. -/
def Opens (w : Session H) (out : Except Raised α × Session H) (paths : List (List ℕ)) : Prop :=
  ∃ events, Trace w out.2 events ∧ openedPaths events <+: paths ∧
    ∀ a, out.1 = .ok a → openedPaths events = paths

theorem Trace.refl (w : Session H) : Trace w w [] :=
  ⟨(List.append_nil _).symm, (List.append_nil _).symm, rfl⟩

theorem Trace.trans {w w₁ w₂ : Session H} {e e' : List (Event H)} (h : Trace w w₁ e)
    (h' : Trace w₁ w₂ e') : Trace w w₂ (e ++ e') where
  log := by rw [h'.log, h.log, List.append_assoc]
  handles := by rw [h'.handles, h.handles, openedHandles, openedHandles, openedHandles,
    List.filterMap_append, List.append_assoc]
  open_ := by
    have hfirst := h.open_
    have hsecond := h'.open_
    rw [closedHandles] at hfirst hsecond ⊢
    rw [List.filterMap_append, hfirst, hsecond, List.append_nil]

theorem bind_ok {m : Action H α} {f : α → Action H β} {w w' : Session H} {b : β}
    (h : (m >>= f) w = (.ok b, w')) : ∃ a w₁, m w = (.ok a, w₁) ∧ f a w₁ = (.ok b, w') := by
  have hbind : (m >>= f) w = match m w with
    | (.ok a, w) => f a w
    | (.error e, w) => (.error e, w) := rfl
  rw [hbind] at h
  rcases hm : m w with ⟨_ | a, w₁⟩
  · rw [hm] at h
    cases h
  · rw [hm] at h
    exact ⟨a, w₁, rfl, h⟩

theorem Opens.bind {m : Action H α} {f : α → Action H β} {w : Session H} {p q : List (List ℕ)}
    (h : Opens w (m w) p) (hf : ∀ a w₁, m w = (.ok a, w₁) → Opens w₁ (f a w₁) q) :
    Opens w ((m >>= f) w) (p ++ q) := by
  have hbind : (m >>= f) w = match m w with
    | (.ok a, w) => f a w
    | (.error e, w) => (.error e, w) := rfl
  obtain ⟨events, htrace, hprefix, hall⟩ := h
  rw [hbind]
  rcases hm : m w with ⟨e | a, w₁⟩
  · rw [hm] at htrace
    exact ⟨events, htrace, hprefix.trans (List.prefix_append p q), fun b hb => by cases hb⟩
  · rw [hm] at htrace
    obtain ⟨events', htrace', hprefix', hall'⟩ := hf a w₁ hm
    have hpaths : openedPaths events = p := hall a (by rw [hm])
    refine ⟨events ++ events', htrace.trans htrace', ?_, fun b hb => ?_⟩
    · rw [openedPaths, List.filterMap_append, ← openedPaths, ← openedPaths, hpaths]
      exact (List.prefix_append_right_inj p).mpr hprefix'
    · rw [openedPaths, List.filterMap_append, ← openedPaths, ← openedPaths, hpaths, hall' b hb]

/-- What follows may depend on the answer. -/
theorem Opens.bind_exists {m : Action H α} {f : α → Action H β} {w : Session H}
    {p : List (List ℕ)} {R : List (List ℕ) → Prop} (h : Opens w (m w) p) (hnone : ∃ q, R q)
    (hf : ∀ a w₁, m w = (.ok a, w₁) → ∃ q, R q ∧ Opens w₁ (f a w₁) q) :
    ∃ q, R q ∧ Opens w ((m >>= f) w) (p ++ q) := by
  rcases hm : m w with ⟨e | a, w₁⟩
  · obtain ⟨q, hq⟩ := hnone
    exact ⟨q, hq, h.bind fun b w₂ hb => by rw [hm] at hb; cases hb⟩
  · obtain ⟨q, hq, hopens⟩ := hf a w₁ hm
    refine ⟨q, hq, h.bind fun b w₂ hb => ?_⟩
    rw [hm] at hb
    cases hb
    exact hopens

/-- A piece that only records an answer. -/
theorem opens_nil {w w' : Session H} {out : Except Raised α} (events : List (Event H))
    (h : Trace w w' events) (hnone : openedPaths events = []) : Opens w (out, w') [] :=
  ⟨events, h, by rw [hnone], fun _ _ => hnone⟩

theorem opens_openHandle (path : List ℕ) (directory : Bool) (w : Session H) :
    Opens w (openHandle A path directory w) [path] := by
  unfold openHandle
  rcases houtcome : A.open_ w.log path directory with e | handle
  · exact ⟨[.opened path directory (.error e)], ⟨rfl, (List.append_nil _).symm, rfl⟩,
      List.prefix_refl _, fun _ _ => rfl⟩
  · exact ⟨[.opened path directory (.ok handle)], ⟨rfl, rfl, rfl⟩, List.prefix_refl _, fun _ _ => rfl⟩

theorem opens_inspect (handle : H) (w : Session H) : Opens w (inspect A handle w) [] :=
  opens_nil [.inspected handle (A.inspect w.log handle)]
    ⟨rfl, (List.append_nil _).symm, rfl⟩ rfl

theorem opens_readLimited (handle : H) (limit : ℕ) (w : Session H) :
    Opens w (readLimited A handle limit w) [] :=
  opens_nil [.read handle limit (A.readLimited w.log handle limit)]
    ⟨rfl, (List.append_nil _).symm, rfl⟩ rfl

theorem opens_check (c : List (ℤ × ℤ) → Except Raised Unit) (w : Session H) :
    Opens w (check c w) [] :=
  opens_nil [] (Trace.refl w) rfl

theorem opens_remember (identity : ℤ × ℤ) (w : Session H) : Opens w (remember identity w) [] :=
  opens_nil [] ⟨(List.append_nil _).symm, (List.append_nil _).symm, rfl⟩ rfl

theorem opens_pure (a : α) (w : Session H) : Opens w ((pure a : Action H α) w) [] :=
  opens_nil [] (Trace.refl w) rfl

theorem opens_visit (strict : Bool) (path : List ℕ) (w : Session H) :
    Opens w (visit A L strict path w) [path] :=
  (opens_openHandle A path true w).bind fun handle w _ =>
    (opens_inspect A handle w).bind (q := []) fun info w _ =>
      (opens_check _ w).bind (q := []) fun _ w _ => opens_pure info w

/-- The paths of the walk: those of the directories below the root. -/
def below (current : PureWindowsPath) : List (List ℕ) :=
  ((current.climb current.parts.length).dropLast).map PureWindowsPath.str

theorem below_of_top {current : PureWindowsPath} (h : current.parent = current) :
    below current = [] := by
  rw [below, PureWindowsPath.climb_of_top h]
  rfl

theorem below_of_not_top {current : PureWindowsPath} (h : current.parent ≠ current) :
    below current = current.str :: below current.parent := by
  have hlt := PureWindowsPath.length_parent_lt h
  have hne : current.parent.climb current.parent.parts.length ≠ [] :=
    List.ne_nil_of_mem ((PureWindowsPath.mem_climb le_rfl).mpr ⟨0, rfl⟩)
  rw [below, PureWindowsPath.climb_of_not_top h le_rfl, PureWindowsPath.climb_eq hlt.le,
    List.dropLast_cons_of_ne_nil hne, List.map_cons, below]

theorem opens_walk (current : PureWindowsPath) (immediateParent : Bool) (w : Session H) :
    Opens w (walk A L current immediateParent w) (below current) := by
  induction current, immediateParent using walk.induct L generalizing w with
  | case1 current immediateParent h =>
    rw [walk, dif_pos h, below_of_top (PureWindowsPath.same_parent_iff.mp h)]
    exact opens_pure current w
  | case2 current immediateParent h ih =>
    rw [walk, dif_neg h, below_of_not_top fun htop => h (PureWindowsPath.same_parent_iff.mpr htop)]
    exact (opens_visit A L immediateParent current.str w).bind fun info w _ =>
      (opens_remember info.identity w).bind (p := []) fun _ w _ => ih w

/-! ## What a directory has to be -/

/-- A file or directory that was opened and inspected. -/
structure Visited (H : Type) where
  path : List ℕ
  handle : H
  info : WindowsObjectInfo

def Visited.events (directory : Bool) (v : Visited H) : List (Event H) :=
  [.opened v.path directory (.ok v.handle), .inspected v.handle (.ok v.info)]

structure SafeLeaf (v : Visited H) : Prop where
  file : v.info.isDirectory = false
  noReparse : v.info.isReparsePoint = false
  final : windowsPathKey L v.info.finalPath = windowsPathKey L v.path
  owner : v.info.ownerSid ∈ systemSids
  acl : windowsSddlIsRestricted L.unicode v.info.sddl = true

structure SafeDirectory (strict : Bool) (v : Visited H) : Prop where
  directory : v.info.isDirectory = true
  noReparse : v.info.isReparsePoint = false
  final : windowsPathKey L v.info.finalPath = windowsPathKey L v.path
  owner : v.info.ownerSid ∈ owners strict
  acl : directoryAclOk L strict v.info.sddl = true

variable {A L}

theorem safeLeaf_of_check {v : Visited H}
    (h : checkLeaf L (windowsPathKey L v.path) v.info = .ok ()) : SafeLeaf L v := by
  unfold checkLeaf raiseRuntimeError at h
  split_ifs at h with hkind hsafe
  simp only [not_or, Bool.not_eq_true, Bool.not_eq_false, not_not] at hkind hsafe
  exact ⟨hkind.1, hkind.2.1, hkind.2.2, hsafe.1, hsafe.2⟩

theorem safeDirectory_of_check {strict : Bool} {v : Visited H} {identities : List (ℤ × ℤ)}
    (h : checkDirectory L strict v.path v.info identities = .ok ()) :
    SafeDirectory L strict v ∧ v.info.identity ∉ identities := by
  unfold checkDirectory raiseRuntimeError at h
  split_ifs at h with hkind hsafe
  simp only [not_or, Bool.not_eq_true, Bool.not_eq_false, not_not] at hkind hsafe
  exact ⟨⟨hkind.1, hkind.2.1, hkind.2.2.2, hsafe.1, hsafe.2⟩, hkind.2.2.1⟩

theorem openHandle_ok {path : List ℕ} {directory : Bool} {w w' : Session H} {handle : H}
    (h : openHandle A path directory w = (.ok handle, w')) :
    w'.log = w.log ++ [.opened path directory (.ok handle)] ∧ w'.handles = w.handles ++ [handle] ∧
      w'.identities = w.identities := by
  unfold openHandle at h
  rcases houtcome : A.open_ w.log path directory with e | handle'
  · rw [houtcome] at h
    cases h
  · rw [houtcome] at h
    cases h
    exact ⟨rfl, rfl, rfl⟩

theorem inspect_ok {handle : H} {info : WindowsObjectInfo} {w w' : Session H}
    (h : inspect A handle w = (.ok info, w')) :
    w'.log = w.log ++ [.inspected handle (.ok info)] ∧ w'.handles = w.handles ∧
      w'.identities = w.identities := by
  obtain ⟨hinfo, rfl⟩ := Prod.mk.inj h
  rw [hinfo]
  exact ⟨rfl, rfl, rfl⟩

theorem check_ok {c : List (ℤ × ℤ) → Except Raised Unit} {w w' : Session H}
    (h : check c w = (.ok (), w')) : c w.identities = .ok () ∧ w' = w := by
  obtain ⟨hc, rfl⟩ := Prod.mk.inj h
  exact ⟨hc, rfl⟩

/-- What is added to the log, the handles and the identities by these visits. -/
structure Adds (w w' : Session H) (visits : List (Visited H)) : Prop where
  log : w'.log = w.log ++ visits.flatMap (Visited.events true)
  handles : w'.handles = w.handles ++ visits.map (·.handle)

theorem visit_ok {strict : Bool} {path : List ℕ} {w w' : Session H} {info : WindowsObjectInfo}
    (h : visit A L strict path w = (.ok info, w')) : ∃ v : Visited H, v.path = path ∧ v.info = info ∧
      Adds w w' [v] ∧ w'.identities = w.identities ∧ SafeDirectory L strict v ∧
        info.identity ∉ w.identities := by
  obtain ⟨handle, w₁, hopen, h⟩ := bind_ok h
  obtain ⟨info', w₂, hinspect, h⟩ := bind_ok h
  obtain ⟨⟨⟩, w₃, hcheck, h⟩ := bind_ok h
  obtain ⟨hinfo, rfl⟩ := Prod.mk.inj h
  obtain rfl : info' = info := Except.ok.inj hinfo
  obtain ⟨hlog, hhandles, hids⟩ := openHandle_ok hopen
  obtain ⟨hlog', hhandles', hids'⟩ := inspect_ok hinspect
  obtain ⟨hcheck, rfl⟩ := check_ok hcheck
  have hsafe := safeDirectory_of_check (v := ⟨path, handle, info'⟩) hcheck
  rw [hids', hids] at hsafe
  refine ⟨⟨path, handle, info'⟩, rfl, rfl, ⟨?_, ?_⟩, hids'.trans hids, hsafe⟩
  · rw [hlog', hlog, List.append_assoc]
    rfl
  · rw [hhandles', hhandles]
    rfl

theorem Adds.trans {w w₁ w₂ : Session H} {vs vs' : List (Visited H)} (h : Adds w w₁ vs)
    (h' : Adds w₁ w₂ vs') : Adds w w₂ (vs ++ vs') where
  log := by rw [h'.log, h.log, List.flatMap_append, List.append_assoc]
  handles := by rw [h'.handles, h.handles, List.map_append, List.append_assoc]

/-- **The walk** visits the directories below the root, each of them safe, with identities of their own. -/
theorem walk_ok {current root : PureWindowsPath} {immediateParent : Bool} {w w' : Session H}
    (h : walk A L current immediateParent w = (.ok root, w')) : ∃ dirs : List (Visited H),
      Adds w w' dirs ∧ dirs.map (·.path) = below current ∧
        (current.climb current.parts.length).getLast? = some root ∧
        (∀ i v, dirs[i]? = some v → SafeDirectory L (immediateParent && i == 0) v) ∧
        w'.identities = w.identities ++ dirs.map (·.info.identity) ∧
        (w.identities.Nodup → w'.identities.Nodup) := by
  induction current, immediateParent using walk.induct L generalizing w with
  | case1 current immediateParent htop =>
    rw [walk, dif_pos htop] at h
    obtain ⟨hroot, rfl⟩ := Prod.mk.inj h
    obtain rfl : current = root := Except.ok.inj hroot
    have hparent := PureWindowsPath.same_parent_iff.mp htop
    refine ⟨[], ⟨(List.append_nil _).symm, (List.append_nil _).symm⟩, (below_of_top hparent).symm, ?_,
      fun i v hv => by simp at hv, (List.append_nil _).symm, id⟩
    rw [PureWindowsPath.climb_of_top hparent]
    rfl
  | case2 current immediateParent htop ih =>
    rw [walk, dif_neg htop] at h
    obtain ⟨info, w₁, hvisit, h⟩ := bind_ok h
    obtain ⟨⟨⟩, w₂, hremember, h⟩ := bind_ok h
    obtain ⟨-, rfl⟩ := Prod.mk.inj hremember
    obtain ⟨v, hpath, hinfo, hadds, hids, hsafe, hnew⟩ := visit_ok hvisit
    obtain ⟨dirs, hadds', hpaths, hlast, hdirs, hids', hnodup⟩ := ih h
    have hparent : current.parent ≠ current := fun heq => htop (PureWindowsPath.same_parent_iff.mpr heq)
    have hlt := PureWindowsPath.length_parent_lt hparent
    refine ⟨v :: dirs, hadds.trans ⟨hadds'.log, hadds'.handles⟩, ?_, ?_, ?_, ?_, fun hw => hnodup ?_⟩
    · rw [List.map_cons, hpath, hpaths, below_of_not_top hparent]
    · have hne : current.parent.climb current.parent.parts.length ≠ [] :=
        List.ne_nil_of_mem ((PureWindowsPath.mem_climb le_rfl).mpr ⟨0, rfl⟩)
      rw [PureWindowsPath.climb_of_not_top hparent le_rfl, PureWindowsPath.climb_eq hlt.le,
        List.getLast?_cons_of_ne_nil hne, hlast]
    · rintro (_ | i) d hd
      · obtain rfl : v = d := Option.some.inj hd
        rw [beq_self_eq_true, Bool.and_true]
        exact hsafe
      · have hd' := hdirs i d hd
        rw [Bool.false_and] at hd'
        rw [show (i + 1 == 0) = false from rfl, Bool.and_false]
        exact hd'
    · rw [hids', hids, List.map_cons, hinfo, List.append_assoc]
      rfl
    · rw [hids]
      exact List.nodup_append.mpr ⟨hw, List.nodup_singleton _, fun a ha b hb hab =>
        hnew (by rw [← List.mem_singleton.mp hb, ← hab]; exact ha)⟩

/-! ## The whole run -/

theorem below_append {current root : PureWindowsPath}
    (h : (current.climb current.parts.length).getLast? = some root) :
    below current ++ [root.str] = (current.climb current.parts.length).map PureWindowsPath.str := by
  rw [below, ← List.map_singleton, ← List.map_append, List.dropLast_append_getLast? root h]

theorem ancestors_eq (p : PureWindowsPath) :
    p.ancestors = p.parent.climb p.parent.parts.length :=
  PureWindowsPath.climb_eq (PureWindowsPath.length_parent_le p)

theorem opens_body (path : List ℕ) (w : Session H) :
    ∃ qs, (∃ top : PureWindowsPath, qs = top.ancestors.map PureWindowsPath.str) ∧
      Opens w (body A L path w) ([path] ++ qs) := by
  refine (opens_openHandle A path false w).bind_exists ⟨_, .parse [], rfl⟩ fun leaf w _ =>
    (opens_inspect A leaf w).bind_exists ⟨_, .parse [], rfl⟩ fun info w _ =>
      ⟨_, ⟨.parse info.finalPath, rfl⟩, ?_⟩
  refine (opens_check _ w).bind (p := []) fun _ w _ =>
    (opens_remember info.identity w).bind (p := []) fun _ w _ => ?_
  obtain ⟨root, hroot⟩ : ∃ root, ((PureWindowsPath.parse info.finalPath).parent.climb
      (PureWindowsPath.parse info.finalPath).parent.parts.length).getLast? = some root := by
    have hne := List.ne_nil_of_mem ((PureWindowsPath.mem_climb le_rfl).mpr
      ⟨0, (rfl : (PureWindowsPath.parse info.finalPath).parent = _)⟩)
    exact ⟨_, List.getLast?_eq_some_getLast hne⟩
  rw [ancestors_eq, ← below_append hroot]
  refine (opens_walk A L _ true w).bind fun root' w hwalk => ?_
  obtain ⟨-, -, -, hlast, -⟩ := walk_ok hwalk
  rw [hroot] at hlast
  obtain rfl := Option.some.inj hlast
  exact (opens_visit A L false root.str w).bind (q := []) fun _ w _ =>
    opens_readLimited A leaf maxConfigBytes w

/-- What the body has seen when it returns: the file, and every directory above it in turn. -/
structure Loaded (L : Alphabet) (path : List ℕ) (leaf : Visited H) (dirs : List (Visited H)) :
    Prop where
  opened : leaf.path = path
  safeLeaf : SafeLeaf L leaf
  ancestors : dirs.map (·.path) =
    (PureWindowsPath.parse leaf.info.finalPath).ancestors.map PureWindowsPath.str
  safeDirectories : ∀ i v, dirs[i]? = some v →
    SafeDirectory L (decide (i = 0 ∧ 1 < dirs.length)) v
  distinct : ((leaf :: dirs).map (·.info.identity)).Nodup

/-- The directories below the root are followed by the root, where nothing is strict. -/
theorem safeDirectories_concat {dirs : List (Visited H)} {v : Visited H}
    (h : ∀ i d, dirs[i]? = some d → SafeDirectory L (true && i == 0) d) (hv : SafeDirectory L false v) :
    ∀ i d, (dirs ++ [v])[i]? = some d →
      SafeDirectory L (decide (i = 0 ∧ 1 < (dirs ++ [v]).length)) d := by
  intro i d hd
  rw [List.length_append, List.length_singleton]
  rcases Nat.lt_or_ge i dirs.length with hi | hi
  · rw [List.getElem?_append_left hi] at hd
    have hsafe := h i d hd
    have hsame : (true && i == 0) = decide (i = 0 ∧ 1 < dirs.length + 1) := by
      rw [Bool.true_and, Bool.eq_iff_iff, beq_iff_eq, decide_eq_true_iff]
      omega
    exact hsame ▸ hsafe
  · rw [List.getElem?_append_right hi] at hd
    have hroot : i - dirs.length = 0 := by
      have hlt := (List.getElem?_eq_some_iff.mp hd).1
      rw [List.length_singleton] at hlt
      omega
    rw [hroot] at hd
    obtain rfl : v = d := Option.some.inj hd
    rw [decide_eq_false (by omega)]
    exact hv

theorem body_ok {path raw : List ℕ} {log : List (Event H)} {w' : Session H}
    (h : body A L path ⟨log, [], []⟩ = (.ok raw, w')) :
    ∃ (leaf : Visited H) (dirs : List (Visited H)), Loaded L path leaf dirs ∧
      w'.log = log ++ leaf.events false ++ dirs.flatMap (Visited.events true) ++
        [.read leaf.handle maxConfigBytes (.ok raw)] ∧
      w'.handles = (leaf :: dirs).map (·.handle) := by
  obtain ⟨handle, w₁, hopen, h⟩ := bind_ok h
  obtain ⟨info, w₂, hinspect, h⟩ := bind_ok h
  obtain ⟨⟨⟩, w₃, hcheck, h⟩ := bind_ok h
  obtain ⟨⟨⟩, w₄, hremember, h⟩ := bind_ok h
  obtain ⟨root, w₅, hwalk, h⟩ := bind_ok h
  obtain ⟨rootInfo, w₆, hvisit, h⟩ := bind_ok h
  obtain ⟨hread, rfl⟩ := Prod.mk.inj h
  obtain ⟨hlog, hhandles, hids⟩ := openHandle_ok hopen
  obtain ⟨hlog', hhandles', hids'⟩ := inspect_ok hinspect
  obtain ⟨hsafeLeaf, rfl⟩ := check_ok hcheck
  obtain ⟨-, rfl⟩ := Prod.mk.inj hremember
  obtain ⟨dirs, hadds, hpaths, hlast, hdirs, hids₅, hnodup⟩ := walk_ok hwalk
  obtain ⟨v, hpath, hinfo, hadds', hids₆, hsafe, hnew⟩ := visit_ok hvisit
  have hall := hadds.trans hadds'
  have hknown : w₅.identities = info.identity :: dirs.map (·.info.identity) := by
    rw [hids₅, hids', hids]
    rfl
  refine ⟨⟨path, handle, info⟩, dirs ++ [v], ⟨rfl, safeLeaf_of_check hsafeLeaf, ?_,
    safeDirectories_concat hdirs hsafe, ?_⟩, ?_, ?_⟩
  · rw [List.map_append, hpaths, List.map_singleton, hpath, below_append hlast, ancestors_eq]
  · have hw := hnodup (by rw [hids', hids]; exact List.nodup_singleton info.identity)
    rw [hknown] at hw hnew
    rw [List.map_cons, List.map_append, List.map_singleton, hinfo, ← List.cons_append]
    exact List.nodup_append.mpr ⟨hw, List.nodup_singleton _, fun a ha b hb hab =>
      hnew (by rw [← List.mem_singleton.mp hb, ← hab]; exact ha)⟩
  · rw [hread, Session.record, hall.log]
    dsimp only
    rw [hlog', hlog]
    simp [Visited.events]
  · rw [Session.record, hall.handles]
    dsimp only
    rw [hhandles', hhandles]
    simp

/-- **The loader.** Whatever the API answers, every handle is closed once and in the end, and settings come
from a file that was safe, in directories that were safe, while all of them were open. -/
theorem windowsSettingsFromFile_sound (A : Api H) (L : Alphabet) (depth : ℕ) (path : List ℕ)
    (log : List (Event H)) :
    (∃ (events : List (Event H)) (top : PureWindowsPath),
      (windowsSettingsFromFile A L depth path log).2 =
        log ++ events ++ (openedHandles events).map .closed ∧
      closedHandles events = [] ∧
      openedPaths events <+: path :: top.ancestors.map PureWindowsPath.str) ∧
    ∀ settings, (windowsSettingsFromFile A L depth path log).1 = .ok settings →
      ∃ (leaf : Visited H) (dirs : List (Visited H)) (raw : List ℕ), Loaded L path leaf dirs ∧
        (windowsSettingsFromFile A L depth path log).2 =
          log ++ leaf.events false ++ dirs.flatMap (Visited.events true) ++
            [.read leaf.handle maxConfigBytes (.ok raw)] ++
            (leaf :: dirs).map (fun v => .closed v.handle) ∧
        settingsFromBytes depth raw = .ok settings := by
  have hlog : (windowsSettingsFromFile A L depth path log).2 =
      (body A L path ⟨log, [], []⟩).2.log ++ (body A L path ⟨log, [], []⟩).2.handles.map .closed := by
    unfold windowsSettingsFromFile
    rcases body A L path ⟨log, [], []⟩ with ⟨⟨_ | _⟩ | _, w⟩ <;> rfl
  rw [hlog]
  constructor
  · obtain ⟨_, ⟨top, rfl⟩, events, htrace, hopened, -⟩ := opens_body (A := A) (L := L) path ⟨log, [], []⟩
    exact ⟨events, top, by rw [htrace.log, htrace.handles, List.nil_append], htrace.open_, hopened⟩
  · intro settings h
    rcases hbody : body A L path ⟨log, [], []⟩ with ⟨e | raw, w⟩
    · unfold windowsSettingsFromFile at h
      rw [hbody] at h
      rcases e with _ | f <;> cases h
    · obtain ⟨leaf, dirs, hloaded, hlog', hhandles⟩ := body_ok hbody
      refine ⟨leaf, dirs, raw, hloaded, ?_, ?_⟩
      · rw [hlog', hhandles, List.map_map]
        rfl
      · unfold windowsSettingsFromFile at h
        rw [hbody] at h
        exact h

/-! ### A file in a directory below the root -/

/-- ASCII in small letters. -/
def sampleAlphabet : Alphabet := ⟨id, id, .ascii⟩

def sampleFile : List ℕ :=
  text "\x7b\"schema_version\":1,\"node_id\":\"edge-a\"," ++
    text "\"ticket_secret\":\"" ++ List.replicate 32 120 ++ text "\",\"max_connections\":64," ++
    text "\"max_frame_bytes\":1048576," ++ text "\"max_bytes_per_connection\":67108864," ++
    text "\"idle_timeout\":60," ++ text "\"max_connection_seconds\":600," ++
    text "\"connect_timeout\":10," ++ text "\"ticket_max_ttl\":60\x7d"

def sampleObject (path : List ℕ) : WindowsObjectInfo :=
  if path = text "c:\\x\\edge.json" then
    ⟨path, (7, 0), false, false, text "S-1-5-18", text "D:P(A;;FA;;;SY)(A;;FR;;;LS)"⟩
  else ⟨path, (7, path.length), true, false, text "S-1-5-18", text "D:P(A;;FA;;;SY)(A;;FA;;;BA)"⟩

/-- Every path is there, and it is its own handle. -/
def sampleApi : Api (List ℕ) where
  open_ _ path _ := .ok path
  inspect _ handle := .ok (sampleObject handle)
  readLimited _ _ _ := .ok sampleFile

theorem windowsSettingsFromFile_sample : ∃ (leaf : Visited (List ℕ)) (dirs : List (Visited (List ℕ)))
    (raw : List ℕ), Loaded sampleAlphabet (text "c:\\x\\edge.json") leaf dirs ∧
      settingsFromBytes 100 raw = .ok ⟨text "edge-a", List.replicate 32 120, 64, 1048576, 67108864,
        .finite 60, .finite 600, .finite 10, 60⟩ := by
  obtain ⟨leaf, dirs, raw, hloaded, -, hsettings⟩ :=
    (windowsSettingsFromFile_sound sampleApi sampleAlphabet 100 (text "c:\\x\\edge.json") []).2 _
      (by decide +kernel : _ = Except.ok ⟨text "edge-a", List.replicate 32 120, 64, 1048576, 67108864,
        .finite 60, .finite 600, .finite 10, 60⟩)
  exact ⟨leaf, dirs, raw, hloaded, hsettings⟩

end IdenGrid.Edge.WindowsLoader
