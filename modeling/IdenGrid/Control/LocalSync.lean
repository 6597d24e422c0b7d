import Mathlib.Data.List.Sort
import IdenGrid.Lib.Merge
import IdenGrid.Control.Stores

/-! # History and tabs from several devices

`local_browser_sync` with the checks of `NetworkPolicy.is_url_allowed`: the items of the history are
merged into the entries of the user one by one, and the tabs replace the snapshot of the device.

`sync_merges`: whatever the order of the requests, and however often they are repeated, the entries
end up the same, if items that agree in their URL and time agree in their title. Times and counts
never decrease, and a request leaves the other users and the other devices alone. -/

namespace IdenGrid.Control.LocalSync

open IdenGrid.Lib.Store IdenGrid.Lib.Merge IdenGrid.Control.Stores

/-! ## What may be synchronised -/

/-- What `ip_address` finds of an address. -/
structure AddressFlags where
  isPrivate : Bool
  isLoopback : Bool
  isLinkLocal : Bool
  isMulticast : Bool
  isReserved : Bool
  isUnspecified : Bool

/-- The library functions that the policy calls: `urlparse` with `hostname`, `str.lower`, and
`ip_address`; `none` is a `ValueError`. -/
structure Library where
  urlparse : String → Option (String × Option String)
  lower : String → String
  ipAddress : String → Option AddressFlags

/-- `hostname.rstrip(".")`. -/
def stripDots (hostname : String) : String :=
  String.ofList (hostname.toList.reverse.dropWhile (· == '.')).reverse

section Policy

variable (L : Library)

/-- `NetworkPolicy.is_url_allowed`; `none` if it raises. -/
def isUrlAllowed (url : String) : Option Bool :=
  (L.urlparse url).map fun (scheme, hostname) =>
    if (scheme ≠ "http" ∧ scheme ≠ "https") ∨ hostname.getD "" = "" then false
    else
      let hostname := L.lower (stripDots (hostname.getD ""))
      if hostname = "localhost" ∨ ".localhost".toList.isSuffixOf hostname.toList then false
      else
        match L.ipAddress hostname with
        | none => true
        | some address =>
          !(address.isPrivate || address.isLoopback || address.isLinkLocal ||
            address.isMulticast || address.isReserved || address.isUnspecified)

/-- The URLs of a request are checked one after the other. -/
def checkUrls : List String → Except Fault Unit
  | [] => .ok ()
  | url :: urls =>
    match isUrlAllowed L url with
    | none => .error .uncaught
    | some false => .error (.http 400 "Unsafe URL in sync payload")
    | some true => checkUrls urls

end Policy

/-! ## Requests and rows -/

structure LocalHistoryItem where
  url : String
  title : String
  lastVisitMs : ℕ
  visitCount : ℕ
  deriving DecidableEq, Repr

structure LocalTabItem where
  url : String
  title : String
  deriving DecidableEq, Repr

structure LocalSyncBody where
  deviceId : String
  history : List LocalHistoryItem
  tabs : List LocalTabItem
  deriving DecidableEq, Repr

/-- A row of `local_history_entries`. -/
structure LocalHistoryEntry where
  userId : ℕ
  url : String
  title : String
  lastVisitMs : ℕ
  visitCount : ℕ
  deriving DecidableEq, Repr

attribute [ext] LocalHistoryEntry

/-- A row of `local_tab_snapshots`; `tabs_json` is modelled by the tabs. -/
structure LocalTabSnapshot where
  userId : ℕ
  deviceId : String
  tabs : List LocalTabItem
  updatedAt : ℕ
  deriving DecidableEq, Repr

/-- The database: what a comparison looks at in a text (all of it in SQLite, its folded form under a
collation), and the greatest numbers that the columns hold. -/
structure Backend where
  key : String → String
  maxTime : ℕ
  maxCount : ℕ

def sqlite : Backend where
  key := id
  maxTime := 2 ^ 63 - 1
  maxCount := 2 ^ 63 - 1

section Sync

variable (L : Library) (B : Backend)

def LocalHistoryEntry.key (e : LocalHistoryEntry) : ℕ × String := (e.userId, B.key e.url)

def LocalTabSnapshot.key (s : LocalTabSnapshot) : ℕ × String := (s.userId, B.key s.deviceId)

/-- The tables, one row for each URL or device of a user, and the `local_browser.synced` events with
their actor and device. -/
structure Db where
  entries : Table (LocalHistoryEntry.key B)
  snapshots : Table (LocalTabSnapshot.key B)
  events : List (ℕ × String)

/-- A request of a user. -/
structure Sync where
  userId : ℕ
  body : LocalSyncBody
  deriving DecidableEq, Repr

/-- The entry of an item that comes for the first time. -/
def newEntry (userId : ℕ) (item : LocalHistoryItem) : LocalHistoryEntry where
  userId := userId
  url := item.url
  title := item.title
  lastVisitMs := item.lastVisitMs
  visitCount := item.visitCount

/-- The entry with an item merged into it. -/
def LocalHistoryEntry.update (item : LocalHistoryItem) (entry : LocalHistoryEntry) :
    LocalHistoryEntry :=
  let entry :=
    if entry.lastVisitMs ≤ item.lastVisitMs then
      { entry with title := item.title, lastVisitMs := item.lastVisitMs }
    else entry
  { entry with visitCount := max entry.visitCount item.visitCount }

/-- One item of the history. -/
def syncItem (entries : Table (LocalHistoryEntry.key B)) (w : ℕ × LocalHistoryItem) :
    Table (LocalHistoryEntry.key B) :=
  upsert entries (newEntry w.1 w.2) (LocalHistoryEntry.update w.2)

/-- The snapshot of the device. -/
def syncTabs (r : Sync) (now : ℕ) (snapshots : Table (LocalTabSnapshot.key B)) :
    Table (LocalTabSnapshot.key B) :=
  upsert snapshots ⟨r.userId, r.body.deviceId, r.body.tabs, now⟩ fun s =>
    { s with tabs := r.body.tabs, updatedAt := now }

/-- What is written of a request. -/
def Sync.writes (r : Sync) : List (ℕ × LocalHistoryItem) := r.body.history.map fun i => (r.userId, i)

/-- The numbers of an item that the columns hold. The stored ones do, so one that does not is greater,
would be written, and makes the driver raise. -/
def fits (item : LocalHistoryItem) : Bool :=
  decide (item.lastVisitMs ≤ B.maxTime ∧ item.visitCount ≤ B.maxCount)

/-- What `local_browser_sync` answers. -/
structure SyncResponse where
  history : List LocalHistoryItem
  tabsByDevice : List (String × List LocalTabItem)
  deriving DecidableEq, Repr

variable {B} in
def syncResponse (userId : ℕ) (db : Db B) : SyncResponse where
  history :=
    (((db.entries.rows.filter fun e => e.userId = userId).insertionSort fun a b =>
      b.lastVisitMs ≤ a.lastVisitMs).take 1000).map fun e =>
        ⟨e.url, e.title, e.lastVisitMs, e.visitCount⟩
  tabsByDevice :=
    ((db.snapshots.rows.filter fun s => s.userId = userId).insertionSort fun a b =>
      a.deviceId ≤ b.deviceId).map fun s => (s.deviceId, s.tabs)

variable {B} in
/-- `local_browser_sync`; `now` is the time of the snapshot. -/
def localBrowserSync (r : Sync) (now : ℕ) (db : Db B) : Except Fault (Db B × SyncResponse) := do
  checkUrls L (r.body.history.map (·.url) ++ r.body.tabs.map (·.url))
  if r.body.history.all (fits B) then
    let db :=
      { entries := r.writes.foldl (syncItem B) db.entries
        snapshots := syncTabs B r now db.snapshots
        events := db.events ++ [(r.userId, r.body.deviceId)] }
    .ok (db, syncResponse r.userId db)
  else .error .uncaught

variable {B} in
/-- The tables after a request; one that is refused changes nothing. -/
def sync (db : Db B) (x : Sync × ℕ) : Db B :=
  match localBrowserSync L x.1 x.2 db with
  | .ok (db', _) => db'
  | .error _ => db

/-- The request is accepted. -/
def Accepted (r : Sync) : Prop :=
  (∀ url ∈ r.body.history.map (·.url) ++ r.body.tabs.map (·.url), isUrlAllowed L url = some true) ∧
    ∀ item ∈ r.body.history, fits B item = true

end Sync

/-! ## What a request does -/

section Effect

variable {L : Library} {B : Backend}

section Update

variable (item : LocalHistoryItem) (e : LocalHistoryEntry)

@[simp] theorem update_userId : (e.update item).userId = e.userId := by
  unfold LocalHistoryEntry.update
  split_ifs <;> rfl

@[simp] theorem update_url : (e.update item).url = e.url := by
  unfold LocalHistoryEntry.update
  split_ifs <;> rfl

@[simp] theorem update_title : (e.update item).title =
    if e.lastVisitMs ≤ item.lastVisitMs then item.title else e.title := by
  unfold LocalHistoryEntry.update
  split_ifs <;> rfl

@[simp] theorem update_lastVisitMs :
    (e.update item).lastVisitMs = max e.lastVisitMs item.lastVisitMs := by
  unfold LocalHistoryEntry.update
  split_ifs with h
  · exact (max_eq_right h).symm
  · exact (max_eq_left (not_le.mp h).le).symm

@[simp] theorem update_visitCount :
    (e.update item).visitCount = max e.visitCount item.visitCount := by
  unfold LocalHistoryEntry.update
  split_ifs <;> rfl

@[simp] theorem update_key : (e.update item).key B = e.key B := by
  simp [LocalHistoryEntry.key]

end Update

theorem checkUrls_eq_ok {urls : List String} :
    checkUrls L urls = .ok () ↔ ∀ url ∈ urls, isUrlAllowed L url = some true := by
  induction urls with
  | nil => simp [checkUrls]
  | cons url urls ih =>
    rw [List.forall_mem_cons, ← ih, checkUrls]
    rcases isUrlAllowed L url with _ | _ | _ <;> simp

theorem sync_of_accepted {r : Sync} (h : Accepted L B r) (now : ℕ) (db : Db B) :
    sync L db (r, now) =
      { entries := r.writes.foldl (syncItem B) db.entries
        snapshots := syncTabs B r now db.snapshots
        events := db.events ++ [(r.userId, r.body.deviceId)] } := by
  have hall : r.body.history.all (fits B) = true := List.all_eq_true.mpr h.2
  unfold sync localBrowserSync
  simp only [checkUrls_eq_ok.mpr h.1, hall, if_true]
  rfl

theorem sync_of_refused {r : Sync} (h : ¬ Accepted L B r) (now : ℕ) (db : Db B) :
    sync L db (r, now) = db := by
  unfold sync localBrowserSync
  rcases hurls : checkUrls L (r.body.history.map (·.url) ++ r.body.tabs.map (·.url)) with e | ⟨⟨⟩⟩
  · rfl
  · have hall : ¬ r.body.history.all (fits B) = true := fun hall =>
      h ⟨checkUrls_eq_ok.mp hurls, List.all_eq_true.mp hall⟩
    simp only [hall]
    rfl

/-- One item, merged into the entry of its URL. -/
def absorb (old : Option LocalHistoryEntry) (w : ℕ × LocalHistoryItem) :
    Option LocalHistoryEntry :=
  some (upserted old (newEntry w.1 w.2) (LocalHistoryEntry.update w.2))

variable (B) in
/-- The user and the URL that a write is about. -/
def target (w : ℕ × LocalHistoryItem) : ℕ × String := (w.1, B.key w.2.url)

theorem get?_syncItem (entries : Table (LocalHistoryEntry.key B)) (w : ℕ × LocalHistoryItem)
    (k : ℕ × String) : (syncItem B entries w).get? k =
      if k = target B w then absorb (entries.get? k) w else entries.get? k :=
  get?_upsert (update_key w.2) k

/-- **The entry of a URL after a request.** -/
theorem get?_writes (entries : Table (LocalHistoryEntry.key B)) (ws : List (ℕ × LocalHistoryItem))
    (k : ℕ × String) : (ws.foldl (syncItem B) entries).get? k =
      (ws.filter fun w => target B w = k).foldl absorb (entries.get? k) :=
  get?_foldl get?_syncItem k ws entries

theorem get?_syncTabs (r : Sync) (now : ℕ) (snapshots : Table (LocalTabSnapshot.key B))
    {k : ℕ × String} (hk : k ≠ (r.userId, B.key r.body.deviceId)) :
    (syncTabs B r now snapshots).get? k = snapshots.get? k := by
  have hkey : ∀ s : LocalTabSnapshot, LocalTabSnapshot.key B
      { s with tabs := r.body.tabs, updatedAt := now } = LocalTabSnapshot.key B s := fun _ => rfl
  unfold syncTabs
  rw [get?_upsert hkey]
  exact if_neg hk

/-! ## Merging -/

variable (B) in
/-- The entry with its URL as the database compares it. -/
def LocalHistoryEntry.folded (e : LocalHistoryEntry) : LocalHistoryEntry :=
  { e with url := B.key e.url }

variable (B) in
/-- A write with its URL as the database compares it. -/
def foldedWrite (w : ℕ × LocalHistoryItem) : ℕ × LocalHistoryItem :=
  (w.1, { w.2 with url := B.key w.2.url })

theorem folded_update (item : LocalHistoryItem) (url : String) (e : LocalHistoryEntry) :
    (e.update item).folded B = (e.folded B).update { item with url := url } := by
  ext1 <;> simp [LocalHistoryEntry.folded]

theorem map_absorb (old : Option LocalHistoryEntry) (w : ℕ × LocalHistoryItem) :
    (absorb old w).map (LocalHistoryEntry.folded B) =
      absorb (old.map (LocalHistoryEntry.folded B)) (foldedWrite B w) := by
  cases old with
  | none => rfl
  | some e => exact congrArg some (folded_update w.2 _ e)

theorem map_foldl_absorb (ws : List (ℕ × LocalHistoryItem)) (old : Option LocalHistoryEntry) :
    (ws.foldl absorb old).map (LocalHistoryEntry.folded B) =
      ws.foldl (fun old w => absorb old (foldedWrite B w))
        (old.map (LocalHistoryEntry.folded B)) :=
  (List.foldl_hom _ fun old w => (map_absorb old w).symm).symm

variable (B) in
/-- Items of one URL have one title at one time. -/
def Agree (w w' : ℕ × LocalHistoryItem) : Prop :=
  target B w = target B w' → w.2.lastVisitMs = w'.2.lastVisitMs → w.2.title = w'.2.title

/-- Two items of one URL can be merged in either order. -/
theorem update_comm {a b : LocalHistoryItem} (htitle : a.lastVisitMs = b.lastVisitMs →
    a.title = b.title) (e : LocalHistoryEntry) : (e.update a).update b = (e.update b).update a := by
  ext1
  · simp
  · simp
  · simp only [update_title, update_lastVisitMs]
    split_ifs <;> first | rfl | omega | exact (htitle (by omega)).symm
  · simp only [update_lastVisitMs]
    omega
  · simp only [update_visitCount]
    omega

theorem update_idem (a : LocalHistoryItem) (e : LocalHistoryEntry) :
    (e.update a).update a = e.update a := by
  ext1
  · simp
  · simp
  · simp only [update_title, update_lastVisitMs]
    split_ifs <;> first | rfl | omega
  · simp only [update_lastVisitMs]
    omega
  · simp only [update_visitCount]
    omega

/-- Which of two items of one URL comes first makes no difference. -/
theorem update_newEntry {a b : LocalHistoryItem} (hurl : a.url = b.url)
    (htitle : a.lastVisitMs = b.lastVisitMs → a.title = b.title) (userId : ℕ) :
    (newEntry userId a).update b = (newEntry userId b).update a := by
  ext1
  · simp [newEntry]
  · simp [newEntry, hurl]
  · simp only [update_title, newEntry]
    split_ifs <;> first | rfl | omega | exact (htitle (by omega)).symm
  · simp only [update_lastVisitMs, newEntry]
    omega
  · simp only [update_visitCount, newEntry]
    omega

theorem update_newEntry_self (a : LocalHistoryItem) (userId : ℕ) :
    (newEntry userId a).update a = newEntry userId a := by
  ext1 <;> simp [newEntry]

/-- The items of one URL merge. -/
theorem merges_absorb {S : ℕ × LocalHistoryItem → Prop} {k : ℕ × String}
    (hk : ∀ w, S w → target B w = k) (hagree : ∀ w w', S w → S w' → Agree B w w') :
    Merges (fun old w => absorb old (foldedWrite B w)) S := by
  constructor
  · rintro ⟨u, a⟩ ⟨u', b⟩ ha hb old
    have htarget : target B (u, a) = target B (u', b) := (hk _ ha).trans (hk _ hb).symm
    have htitle := hagree _ _ ha hb htarget
    obtain ⟨rfl, hurl⟩ : u = u' ∧ B.key a.url = B.key b.url := Prod.mk.inj htarget
    cases old with
    | none =>
      exact congrArg some
        (update_newEntry (a := (foldedWrite B (u, a)).2) (b := (foldedWrite B (u, b)).2) hurl
          htitle u)
    | some e => exact congrArg some (update_comm htitle e)
  · rintro ⟨u, a⟩ - old
    cases old with
    | none => exact congrArg some (update_newEntry_self _ u)
    | some e => exact congrArg some (update_idem _ e)

/-! ## Whole runs -/

variable (L B) in
/-- What the accepted requests write, one after the other. -/
noncomputable def writes (rs : List Sync) : List (ℕ × LocalHistoryItem) :=
  open Classical in rs.flatMap fun r => if Accepted L B r then r.writes else []

theorem mem_writes {rs : List Sync} {w : ℕ × LocalHistoryItem} :
    w ∈ writes L B rs ↔ ∃ r ∈ rs, Accepted L B r ∧ w ∈ r.writes := by
  unfold writes
  rw [List.mem_flatMap]
  refine exists_congr fun r => and_congr_right fun _ => ?_
  split_ifs with hr
  · exact (and_iff_right hr).symm
  · exact iff_of_false List.not_mem_nil fun h => hr h.1

theorem writes_cons_of_accepted {r : Sync} (hr : Accepted L B r) (rs : List Sync) :
    writes L B (r :: rs) = r.writes ++ writes L B rs := by
  unfold writes
  rw [List.flatMap_cons, if_pos hr]

theorem writes_cons_of_refused {r : Sync} (hr : ¬ Accepted L B r) (rs : List Sync) :
    writes L B (r :: rs) = writes L B rs := by
  unfold writes
  rw [List.flatMap_cons, if_neg hr, List.nil_append]

/-- **The entry of a URL after a run.** -/
theorem get?_run (rs : List (Sync × ℕ)) (db : Db B) (k : ℕ × String) :
    (rs.foldl (sync L) db).entries.get? k =
      ((writes L B (rs.map Prod.fst)).filter fun w => target B w = k).foldl absorb
        (db.entries.get? k) := by
  induction rs generalizing db with
  | nil => rfl
  | cons x rs ih =>
    obtain ⟨r, now⟩ := x
    rw [List.foldl_cons, ih, List.map_cons]
    by_cases hr : Accepted L B r
    · rw [sync_of_accepted hr, writes_cons_of_accepted hr, List.filter_append, List.foldl_append,
        get?_writes]
    · rw [sync_of_refused hr, writes_cons_of_refused hr]

/-- **The order of the requests makes no difference, and neither does a repetition.** -/
theorem run_eq_of_agree {rs rs' : List (Sync × ℕ)} {userId : ℕ}
    (hset : ∀ r, r ∈ rs.map Prod.fst ↔ r ∈ rs'.map Prod.fst)
    (hagree : ∀ w ∈ writes L B (rs.map Prod.fst), ∀ w' ∈ writes L B (rs.map Prod.fst),
      w.1 = userId → Agree B w w') (db : Db B) (url : String) :
    ((rs.foldl (sync L) db).entries.get? (userId, url)).map (LocalHistoryEntry.folded B) =
      ((rs'.foldl (sync L) db).entries.get? (userId, url)).map (LocalHistoryEntry.folded B) := by
  have hwrites : ∀ w, w ∈ writes L B (rs.map Prod.fst) ↔ w ∈ writes L B (rs'.map Prod.fst) := by
    intro w
    simp only [mem_writes, hset]
  have hmerges : Merges (fun old w => absorb old (foldedWrite B w))
      (fun w => w ∈ writes L B (rs.map Prod.fst) ∧ target B w = (userId, url)) :=
    merges_absorb (fun w hw => hw.2) fun w w' hw hw' =>
      hagree w hw.1 w' hw'.1 (Prod.mk.inj hw.2).1
  rw [get?_run, get?_run, map_foldl_absorb, map_foldl_absorb]
  refine hmerges.foldl_eq (fun w hw => ?_) (fun w => ?_) _
  · obtain ⟨hw, htarget⟩ := List.mem_filter.mp hw
    exact ⟨hw, of_decide_eq_true htarget⟩
  · rw [List.mem_filter, List.mem_filter, hwrites]

/-- What never changes of an entry, and what never decreases. -/
structure Grown (e e' : LocalHistoryEntry) : Prop where
  userId : e'.userId = e.userId
  url : e'.url = e.url
  lastVisitMs : e.lastVisitMs ≤ e'.lastVisitMs
  visitCount : e.visitCount ≤ e'.visitCount

theorem foldl_absorb_some (ws : List (ℕ × LocalHistoryItem)) (e : LocalHistoryEntry) :
    ∃ e', ws.foldl absorb (some e) = some e' ∧ Grown e e' := by
  induction ws generalizing e with
  | nil => exact ⟨e, rfl, rfl, rfl, le_rfl, le_rfl⟩
  | cons w ws ih =>
    obtain ⟨e', he', h⟩ := ih (e.update w.2)
    refine ⟨e', he', ?_, ?_, ?_, ?_⟩
    · rw [h.userId, update_userId]
    · rw [h.url, update_url]
    · have := h.lastVisitMs
      rw [update_lastVisitMs] at this
      omega
    · have := h.visitCount
      rw [update_visitCount] at this
      omega

/-- Entries only grow. -/
theorem run_grown (rs : List (Sync × ℕ)) {db : Db B} {k : ℕ × String} {e : LocalHistoryEntry}
    (he : db.entries.get? k = some e) :
    ∃ e', (rs.foldl (sync L) db).entries.get? k = some e' ∧ Grown e e' := by
  rw [get?_run, he]
  exact foldl_absorb_some _ e

/-- The entries of a user who synchronises nothing. -/
theorem run_entries_of_other {rs : List (Sync × ℕ)} {userId : ℕ}
    (h : ∀ x ∈ rs, x.1.userId ≠ userId) (db : Db B) (url : String) :
    (rs.foldl (sync L) db).entries.get? (userId, url) = db.entries.get? (userId, url) := by
  rw [get?_run, List.filter_eq_nil_iff.mpr, List.foldl_nil]
  intro w hw
  obtain ⟨r, hr, -, hw⟩ := mem_writes.mp hw
  obtain ⟨x, hx, rfl⟩ := List.mem_map.mp hr
  obtain ⟨item, -, rfl⟩ := List.mem_map.mp hw
  exact fun htarget => h x hx (Prod.mk.inj (of_decide_eq_true htarget)).1

variable (B) in
/-- The key of the device of a request. -/
def Sync.device (r : Sync) : ℕ × String := (r.userId, B.key r.body.deviceId)

/-- The snapshot of a device that no request comes from. -/
theorem run_snapshots {rs : List (Sync × ℕ)} {k : ℕ × String}
    (h : ∀ x ∈ rs, x.1.device B ≠ k) (db : Db B) :
    (rs.foldl (sync L) db).snapshots.get? k = db.snapshots.get? k := by
  induction rs generalizing db with
  | nil => rfl
  | cons x rs ih =>
    obtain ⟨hx, hrs⟩ := List.forall_mem_cons.mp h
    obtain ⟨r, now⟩ := x
    rw [List.foldl_cons, ih hrs]
    by_cases hr : Accepted L B r
    · rw [sync_of_accepted hr]
      exact get?_syncTabs r now db.snapshots hx.symm
    · rw [sync_of_refused hr]

/-- The events of a user who synchronises nothing. -/
theorem run_events_of_other {rs : List (Sync × ℕ)} {userId : ℕ}
    (h : ∀ x ∈ rs, x.1.userId ≠ userId) (db : Db B) :
    (rs.foldl (sync L) db).events.filter (fun e => e.1 = userId) =
      db.events.filter fun e => e.1 = userId := by
  induction rs generalizing db with
  | nil => rfl
  | cons x rs ih =>
    obtain ⟨hx, hrs⟩ := List.forall_mem_cons.mp h
    obtain ⟨r, now⟩ := x
    rw [List.foldl_cons, ih hrs]
    by_cases hr : Accepted L B r
    · rw [sync_of_accepted hr, List.filter_append]
      simp [show r.userId ≠ userId from hx]
    · rw [sync_of_refused hr]

/-- **Synchronisation is a merge.** If a user's accepted items with the same URL and time have the
same title, what becomes of the entries depends only on which requests occur. Entries only grow, and
nothing changes for a device, or a user, that no request comes from. -/
theorem sync_merges (L : Library) (B : Backend) (db : Db B) (rs : List (Sync × ℕ)) :
    (∀ (rs' : List (Sync × ℕ)) (userId : ℕ), (∀ r, r ∈ rs.map Prod.fst ↔ r ∈ rs'.map Prod.fst) →
      (∀ w ∈ writes L B (rs.map Prod.fst), ∀ w' ∈ writes L B (rs.map Prod.fst),
        w.1 = userId → Agree B w w') →
      ∀ url, ((rs.foldl (sync L) db).entries.get? (userId, url)).map (LocalHistoryEntry.folded B) =
        ((rs'.foldl (sync L) db).entries.get? (userId, url)).map (LocalHistoryEntry.folded B)) ∧
    (∀ k e, db.entries.get? k = some e →
      ∃ e', (rs.foldl (sync L) db).entries.get? k = some e' ∧ Grown e e') ∧
    (∀ k, (∀ x ∈ rs, x.1.device B ≠ k) →
      (rs.foldl (sync L) db).snapshots.get? k = db.snapshots.get? k) ∧
    ∀ userId, (∀ x ∈ rs, x.1.userId ≠ userId) →
      (∀ url, (rs.foldl (sync L) db).entries.get? (userId, url) = db.entries.get? (userId, url)) ∧
      (∀ device,
        (rs.foldl (sync L) db).snapshots.get? (userId, device) =
          db.snapshots.get? (userId, device)) ∧
      (rs.foldl (sync L) db).events.filter (fun e => e.1 = userId) =
        db.events.filter fun e => e.1 = userId := by
  refine ⟨fun rs' userId hset hagree => run_eq_of_agree hset hagree db, fun k e => run_grown rs,
    fun k h => run_snapshots h db, fun userId h => ⟨run_entries_of_other h db, fun device => ?_,
      run_events_of_other h db⟩⟩
  exact run_snapshots (fun x hx hdevice => h x hx (Prod.mk.inj hdevice).1) db

end Effect

/-! ## Two devices -/

/-- The library on one URL. -/
def libraryOne : Library where
  urlparse url := if url = "https://example.com/" then some ("https", some "example.com") else none
  lower hostname := hostname
  ipAddress _ := none

/-- A request with one visit, from a device of user 1. -/
def visit (device title : String) (time : ℕ) : Sync where
  userId := 1
  body := ⟨device, [⟨"https://example.com/", title, time, 1⟩], []⟩

theorem accepted_visit (device title : String) {time : ℕ} (h : time < 2 ^ 63) :
    Accepted libraryOne sqlite (visit device title time) := by
  constructor
  · intro url hurl
    obtain rfl : url = "https://example.com/" := by simpa [visit] using hurl
    decide +kernel
  · intro item hitem
    obtain rfl : item = ⟨"https://example.com/", title, time, 1⟩ := by simpa [visit] using hitem
    exact decide_eq_true ⟨Nat.le_sub_one_of_lt h, show 1 ≤ 2 ^ 63 - 1 by decide⟩

def noTables : Db sqlite := ⟨.empty, .empty, []⟩

theorem sync_merges_devices :
    (([(visit "laptop" "Old" 1, 0), (visit "phone" "New" 2, 0)].foldl (sync libraryOne)
      noTables).entries.get? (1, "https://example.com/")).map (LocalHistoryEntry.folded sqlite) =
    (([(visit "phone" "New" 2, 0), (visit "laptop" "Old" 1, 0)].foldl (sync libraryOne)
      noTables).entries.get? (1, "https://example.com/")).map (LocalHistoryEntry.folded sqlite) := by
  refine (sync_merges libraryOne sqlite noTables _).1 _ 1 (fun r => ?_) (fun w hw w' hw' _ => ?_) _
  · simp only [List.map_cons, List.map_nil, List.mem_cons, List.not_mem_nil, or_false]
    exact or_comm
  · obtain ⟨r, hr, -, hw⟩ := mem_writes.mp hw
    obtain ⟨r', hr', -, hw'⟩ := mem_writes.mp hw'
    simp only [List.map_cons, List.map_nil, List.mem_cons, List.not_mem_nil, or_false] at hr hr'
    obtain rfl | rfl := hr <;> obtain rfl | rfl := hr' <;>
      simp_all [Sync.writes, visit, Agree]

/-- Of two titles of one visit the last one stays. -/
theorem sync_order_matters :
    Accepted libraryOne sqlite (visit "laptop" "Old" 1) ∧
    Accepted libraryOne sqlite (visit "phone" "New" 1) ∧
    (([(visit "laptop" "Old" 1, 0), (visit "phone" "New" 1, 0)].foldl (sync libraryOne)
      noTables).entries.get? (1, "https://example.com/")).map (·.title) = some "New" ∧
    (([(visit "phone" "New" 1, 0), (visit "laptop" "Old" 1, 0)].foldl (sync libraryOne)
      noTables).entries.get? (1, "https://example.com/")).map (·.title) = some "Old" ∧
    (([(visit "laptop" "Old" 1, 0), (visit "phone" "New" 1, 0),
      (visit "laptop" "Old" 1, 0)].foldl (sync libraryOne)
      noTables).entries.get? (1, "https://example.com/")).map (·.title) = some "Old" :=
  ⟨accepted_visit _ _ (by decide), accepted_visit _ _ (by decide), by decide +kernel,
    by decide +kernel, by decide +kernel⟩

end IdenGrid.Control.LocalSync
