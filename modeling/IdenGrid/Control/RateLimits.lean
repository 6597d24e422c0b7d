import IdenGrid.Lib.PythonInt
import IdenGrid.Lib.Window

/-! # The rate limits of the registration and enrollment endpoints

The middleware of the control plane looks at every request before its handler does. It limits the
creations of node registrations by the source address, and the claims and reports of enrollments by
path and client. `served`: what a sequence of requests is answered; `reaches`: the limiter a request
gets to, and its key. The lists of both tables are sliding windows (`table_after`), so that the bound,
the exact condition of a refusal and the independence of the keys are those of `Lib.Window`. -/

namespace IdenGrid.Control.RateLimits

open IdenGrid.Lib.Unicode IdenGrid.Lib.PythonInt IdenGrid.Lib.Window

/-- What the middleware reads of a request, and the clock when it reads it, in microseconds.
`sourceIp` is what `enrollment_source_ip(request)` returns; the callable of the deployment may look at
anything in the request. -/
structure Request where
  path : String
  method : String
  contentLength : Option String
  bodyLength : ℕ
  client : Option String
  sourceIp : Option String
  now : ℤ
  deriving DecidableEq, Repr

/-- `JSONResponse(status_code=…, content={"detail": …})`, or the answer of the handler. -/
inductive Answer
  | response (status : ℕ) (detail : String)
  | callNext
  deriving DecidableEq, Repr

/-- The arguments of `create_app` that the middleware uses, and the digits of `int`.
`enrollmentSourceIp`: whether the callable is given. -/
structure App where
  cloudVideoEnabled : Bool
  enrollmentSourceIp : Bool
  unicode : Unicode

/-- `app.state.registration_rate` and `app.state.enrollment_rate`; an absent key has no entries. -/
structure Rates where
  registrationRate : String → List ℤ
  enrollmentRate : String × String → List ℤ

/-- Both dictionaries are empty at the start. -/
def Rates.initial : Rates := ⟨fun _ => [], fun _ => []⟩

def seconds (n : ℤ) : ℤ := n * 1000000

/-- `s.startswith(start)` -/
def startsWith (start s : String) : Bool := (text start).isPrefixOf (text s)

/-- `s.endswith(ending)` -/
def endsWith (ending s : String) : Bool := (text ending).isSuffixOf (text s)

def bodyTooLarge : Answer := .response 413 "Request body too large"
def rateLimited : Answer := .response 429 "Rate limit exceeded"
def videoDisabled : Answer := .response 410 "Cloud video is disabled"

section Middleware

variable (A : App)

/-- The announced length, or this one where the header is no integer. -/
def announcedLength (invalid : ℤ) (r : Request) : ℤ :=
  (parseInt A.unicode (text (r.contentLength.getD "0"))).getD invalid

/-- `request.client.host if request.client else "unknown"` -/
def clientHost (r : Request) : String := r.client.getD "unknown"

/-- `str(candidate)` -/
def registrationKey (r : Request) : String :=
  if A.enrollmentSourceIp then r.sourceIp.getD "None" else clientHost r

/-- The first block of `disable_cloud_video`. -/
def registrationBlock (r : Request) (rates : Rates) : Except Answer Rates :=
  if startsWith "/api/node-registration-requests" r.path then
    if 8192 < announcedLength A 8193 r then .error bodyTooLarge
    else if r.method ∈ ["POST", "PUT", "PATCH"] ∧ 8192 < r.bodyLength then .error bodyTooLarge
    else if r.path = "/api/node-registration-requests" ∧ r.method = "POST" then
      let rateKey := registrationKey A r
      let kept := recent (seconds 3600) r.now (rates.registrationRate rateKey)
      if 3 ≤ kept.length then .error rateLimited
      else .ok { rates with
        registrationRate := Function.update rates.registrationRate rateKey (kept ++ [r.now]) }
    else .ok rates
  else .ok rates

/-- The second block of `disable_cloud_video`. -/
def enrollmentBlock (r : Request) (rates : Rates) : Except Answer Rates :=
  if r.path ∈ ["/api/edge-enrollments/claim", "/api/edge-enrollments/report"] then
    if 4096 < announcedLength A 4097 r then .error bodyTooLarge
    else
      let rateKey := (r.path, clientHost r)
      let kept := recent (seconds 60) r.now (rates.enrollmentRate rateKey)
      let limit := if endsWith "/claim" r.path then 20 else 120
      if limit ≤ kept.length then .error rateLimited
      else .ok { rates with
        enrollmentRate := Function.update rates.enrollmentRate rateKey (kept ++ [r.now]) }
  else .ok rates

def isVideoPath (path : String) : Bool :=
  ["/api/sessions/", "/api/admin/sessions/", "/viewer/"].any (startsWith · path) ||
    ["/api/sessions", "/api/admin/sessions", "/api/diagnostics/egress"].contains path

/-- The third block of `disable_cloud_video`. -/
def videoAnswer (r : Request) : Answer :=
  if !A.cloudVideoEnabled && isVideoPath r.path then videoDisabled else .callNext

/-- `disable_cloud_video` -/
def disableCloudVideo (r : Request) (rates : Rates) : Rates × Answer :=
  match registrationBlock A r rates with
  | .error answer => (rates, answer)
  | .ok rates =>
    match enrollmentBlock A r rates with
    | .error answer => (rates, answer)
    | .ok rates => (rates, videoAnswer A r)

/-- What a sequence of requests is answered, each with the tables the ones before it leave. -/
def served : Rates → List Request → List (Request × Answer)
  | _, [] => []
  | rates, r :: rs =>
    (r, (disableCloudVideo A r rates).2) :: served (disableCloudVideo A r rates).1 rs

/-! ## The limiters -/

/-- The key of a limiter: a source of registrations, or a path and a client. -/
inductive RateKey
  | registration (source : String)
  | enrollment (path client : String)
  deriving DecidableEq, Repr

/-- The limiter a request gets to. -/
def reaches (r : Request) : Option RateKey :=
  if r.path = "/api/node-registration-requests" then
    if r.method = "POST" ∧ announcedLength A 8193 r ≤ 8192 ∧ r.bodyLength ≤ 8192 then
      some (.registration (registrationKey A r))
    else none
  else if r.path ∈ ["/api/edge-enrollments/claim", "/api/edge-enrollments/report"] then
    if announcedLength A 4097 r ≤ 4096 then some (.enrollment r.path (clientHost r)) else none
  else none

end Middleware

/-- Three creations in an hour, twenty claims or a hundred and twenty reports in a minute. -/
def limits : Limits RateKey ℤ where
  limit
    | .registration _ => 3
    | .enrollment path _ => if path = "/api/edge-enrollments/claim" then 20 else 120
  width
    | .registration _ => seconds 3600
    | .enrollment _ _ => seconds 60

/-- Both tables as one. -/
def Rates.table (rates : Rates) : RateKey → List ℤ
  | .registration source => rates.registrationRate source
  | .enrollment path client => rates.enrollmentRate (path, client)

/-- The requests that get to a limiter, with its key. -/
def events (A : App) (rs : List Request) : List (RateKey × ℤ) :=
  rs.filterMap fun r => (reaches A r).map fun key => (key, r.now)

/-- When the requests of a key passed its limiter. -/
def letThrough (A : App) (key : RateKey) (answers : List (Request × Answer)) : List ℤ :=
  (answers.filter fun p => reaches A p.1 = some key ∧ p.2 ≠ rateLimited).map fun p => p.1.now

/-- The tables after a sequence of requests. -/
def ratesAfter (A : App) (rs : List Request) : Rates :=
  rs.foldl (fun rates r => (disableCloudVideo A r rates).1) .initial

/-- What a request is answered after a sequence of requests. -/
def answerAfter (A : App) (rs : List Request) (r : Request) : Answer :=
  (disableCloudVideo A r (ratesAfter A rs)).2

variable {A : App} {r : Request} {rates : Rates}

/-! ## One request -/

theorem registrationBlock_of_ne (A : App) (rates : Rates) (h : r.path ≠ "/api/node-registration-requests") :
    registrationBlock A r rates = .ok rates ∨ registrationBlock A r rates = .error bodyTooLarge := by
  unfold registrationBlock
  split_ifs with _ _ _ hpath
  · exact .inr rfl
  · exact .inr rfl
  · exact absurd hpath.1 h
  · exact .inl rfl
  · exact .inl rfl

theorem enrollmentBlock_of_notMem
    (h : r.path ∉ ["/api/edge-enrollments/claim", "/api/edge-enrollments/report"]) :
    enrollmentBlock A r rates = .ok rates := if_neg h

theorem videoAnswer_ne (A : App) (r : Request) : videoAnswer A r ≠ rateLimited := by
  unfold videoAnswer
  split_ifs <;> decide

/-- The paths of the two blocks do not meet. -/
theorem notMem_of_registration (h : r.path = "/api/node-registration-requests") :
    r.path ∉ ["/api/edge-enrollments/claim", "/api/edge-enrollments/report"] := by
  rw [h]
  decide

theorem registrationBlock_of_enrollment
    (h : r.path ∈ ["/api/edge-enrollments/claim", "/api/edge-enrollments/report"]) :
    registrationBlock A r rates = .ok rates := by
  have hstart : startsWith "/api/node-registration-requests" r.path = false := by
    rcases List.mem_pair.mp h with h | h <;> rw [h] <;> decide
  rw [registrationBlock, hstart]
  rfl

/-- **A request that gets to no limiter** changes no table and is not refused by one. -/
theorem disableCloudVideo_of_none (rates : Rates) (h : reaches A r = none) :
    (disableCloudVideo A r rates).1.table = rates.table ∧
      (disableCloudVideo A r rates).2 ≠ rateLimited := by
  by_cases hreg : r.path = "/api/node-registration-requests"
  · rw [reaches, if_pos hreg] at h
    have hblock : registrationBlock A r rates = .ok rates ∨
        registrationBlock A r rates = .error bodyTooLarge := by
      unfold registrationBlock
      split_ifs with _ hlong hbody hpost
      · exact .inr rfl
      · exact .inr rfl
      · refine absurd h (by rw [if_pos ⟨hpost.2, not_lt.mp hlong, not_lt.mp fun hl => hbody ?_⟩]; simp)
        exact ⟨by rw [hpost.2]; decide, hl⟩
      · exact .inl rfl
      · exact .inl rfl
    rcases hblock with hb | hb
    · simp only [disableCloudVideo, hb, enrollmentBlock_of_notMem (notMem_of_registration hreg)]
      exact ⟨trivial, videoAnswer_ne _ _⟩
    · simp only [disableCloudVideo, hb]
      exact ⟨trivial, by decide⟩
  · rw [reaches, if_neg hreg] at h
    rcases registrationBlock_of_ne A rates hreg with hb | hb
    · by_cases henr : r.path ∈ ["/api/edge-enrollments/claim", "/api/edge-enrollments/report"]
      · rw [if_pos henr] at h
        have hlong : 4096 < announcedLength A 4097 r := by
          by_contra hshort
          rw [if_pos (not_lt.mp hshort)] at h
          simp at h
        simp only [disableCloudVideo, hb, enrollmentBlock, if_pos henr, if_pos hlong]
        exact ⟨trivial, by decide⟩
      · simp only [disableCloudVideo, hb, enrollmentBlock_of_notMem henr]
        exact ⟨trivial, videoAnswer_ne _ _⟩
    · simp only [disableCloudVideo, hb]
      exact ⟨trivial, by decide⟩

theorem table_registration (source : String) (seen : List ℤ) :
    ({ rates with
      registrationRate := Function.update rates.registrationRate source seen } : Rates).table =
      Function.update rates.table (.registration source) seen := by
  funext key
  cases key with
  | registration other =>
    by_cases h : other = source
    · subst h
      simp [Rates.table]
    · rw [Function.update_of_ne (by simpa using h)]
      exact Function.update_of_ne h ..
  | enrollment path client => rw [Function.update_of_ne (by simp)]; rfl

theorem table_enrollment (path client : String) (seen : List ℤ) :
    ({ rates with
      enrollmentRate := Function.update rates.enrollmentRate (path, client) seen } : Rates).table =
      Function.update rates.table (.enrollment path client) seen := by
  funext key
  cases key with
  | registration other => rw [Function.update_of_ne (by simp)]; rfl
  | enrollment path' client' =>
    by_cases h : (path', client') = (path, client)
    · obtain ⟨rfl, rfl⟩ := Prod.mk.inj h
      simp [Rates.table]
    · rw [Function.update_of_ne (by simpa using h)]
      exact Function.update_of_ne h ..

theorem admits_eq_false {e : RateKey × ℤ} {table : RateKey → List ℤ}
    (h : admits limits table e = false) :
    limits.limit e.1 ≤ (recent (limits.width e.1) e.2 (table e.1)).length :=
  not_lt.mp (of_decide_eq_false h)

theorem lt_of_admits {e : RateKey × ℤ} {table : RateKey → List ℤ} (h : admits limits table e = true) :
    ¬ limits.limit e.1 ≤ (recent (limits.width e.1) e.2 (table e.1)).length :=
  not_le.mpr (of_decide_eq_true h)

/-- **A request that gets to a limiter** is a request of its key to the sliding window. -/
theorem disableCloudVideo_of_some (rates : Rates) {key : RateKey} (h : reaches A r = some key) :
    (disableCloudVideo A r rates).1.table = next limits rates.table (key, r.now) ∧
      (disableCloudVideo A r rates).2 =
        if admits limits rates.table (key, r.now) then videoAnswer A r else rateLimited := by
  by_cases hreg : r.path = "/api/node-registration-requests"
  · rw [reaches, if_pos hreg] at h
    split_ifs at h with hpost
    obtain rfl := Option.some.inj h
    have hstart : startsWith "/api/node-registration-requests" r.path = true := by
      rw [hreg]
      decide
    have hbody : ¬ (r.method ∈ ["POST", "PUT", "PATCH"] ∧ 8192 < r.bodyLength) := fun hb =>
      absurd hpost.2.2 (not_le.mpr hb.2)
    have hblock : registrationBlock A r rates = _ :=
      (if_pos hstart).trans ((if_neg (not_lt.mpr hpost.2.1)).trans
        ((if_neg hbody).trans (if_pos ⟨hreg, hpost.1⟩)))
    rcases ha : admits limits rates.table (.registration (registrationKey A r), r.now) with _ | _
    · have hrefused := hblock.trans (if_pos (admits_eq_false ha))
      simp only [disableCloudVideo, hrefused, next, ha]
      exact ⟨rfl, rfl⟩
    · have hpassed := hblock.trans (if_neg (lt_of_admits ha))
      simp only [disableCloudVideo, hpassed, next, ha, if_true,
        enrollmentBlock_of_notMem (notMem_of_registration hreg)]
      exact ⟨table_registration _ _, trivial⟩
  · rw [reaches, if_neg hreg] at h
    split_ifs at h with henr hshort
    obtain rfl := Option.some.inj h
    have hblock : enrollmentBlock A r rates = _ :=
      (if_pos henr).trans (if_neg (not_lt.mpr hshort))
    have hlimit : (if endsWith "/claim" r.path then 20 else 120) =
        limits.limit (.enrollment r.path (clientHost r)) := by
      rcases List.mem_pair.mp henr with h | h <;> simp only [h] <;> rfl
    dsimp only at hblock
    rw [hlimit] at hblock
    rcases ha : admits limits rates.table (.enrollment r.path (clientHost r), r.now) with _ | _
    · have hrefused := hblock.trans (if_pos (admits_eq_false ha))
      simp only [disableCloudVideo, registrationBlock_of_enrollment henr, hrefused, next, ha]
      exact ⟨rfl, rfl⟩
    · have hpassed := hblock.trans (if_neg (lt_of_admits ha))
      simp only [disableCloudVideo, registrationBlock_of_enrollment henr, hpassed, next, ha, if_true]
      exact ⟨table_enrollment _ _ _, trivial⟩

/-- A request that gets to a limiter is refused where its sliding window does not admit it. -/
theorem answer_eq_rateLimited_iff (rates : Rates) {key : RateKey} (h : reaches A r = some key) :
    (disableCloudVideo A r rates).2 = rateLimited ↔
      admits limits rates.table (key, r.now) = false := by
  rw [(disableCloudVideo_of_some rates h).2]
  rcases admits limits rates.table (key, r.now) with _ | _
  · exact iff_of_true rfl rfl
  · exact iff_of_false (videoAnswer_ne A r) (by decide)

/-! ## Sequences of requests -/

theorem events_cons_none {rs : List Request} (h : reaches A r = none) :
    events A (r :: rs) = events A rs := by
  rw [events, List.filterMap_cons, h]
  rfl

theorem events_cons_some (rs : List Request) {key : RateKey} (h : reaches A r = some key) :
    events A (r :: rs) = (key, r.now) :: events A rs := by
  rw [events, List.filterMap_cons, h]
  rfl

/-- **The tables are those of the sliding windows.** -/
theorem table_foldl : ∀ (rs : List Request) (rates : Rates),
    (rs.foldl (fun rates r => (disableCloudVideo A r rates).1) rates).table =
      after limits rates.table (events A rs)
  | [], _ => rfl
  | r :: rs, rates => by
    rw [List.foldl_cons, table_foldl rs]
    rcases h : reaches A r with _ | key
    · rw [events_cons_none h, (disableCloudVideo_of_none _ h).1]
    · rw [events_cons_some rs h, (disableCloudVideo_of_some _ h).1]
      rfl

theorem table_initial : Rates.initial.table = fun _ => [] := by
  funext key
  cases key <;> rfl

theorem table_ratesAfter (rs : List Request) :
    (ratesAfter A rs).table = after limits (fun _ => []) (events A rs) := by
  rw [ratesAfter, table_foldl, table_initial]

/-- **The requests that are let through are those the sliding windows pass.** -/
theorem letThrough_served (key : RateKey) : ∀ (rs : List Request) (rates : Rates),
    letThrough A key (served A rates rs) = times key (passed limits rates.table (events A rs))
  | [], _ => rfl
  | r :: rs, rates => by
    have ih := letThrough_served key rs (disableCloudVideo A r rates).1
    rw [letThrough] at ih
    rw [served, letThrough, List.filter_cons]
    rcases h : reaches A r with _ | k
    · rw [events_cons_none h, ← (disableCloudVideo_of_none rates h).1, ← ih]
      simp
    · rw [events_cons_some rs h, passed, ← (disableCloudVideo_of_some rates h).1]
      have hanswer := answer_eq_rateLimited_iff rates h
      rcases ha : admits limits rates.table (k, r.now) with _ | _
      · simpa [hanswer.mpr ha] using ih
      · have hpassed : (disableCloudVideo A r rates).2 ≠ rateLimited := fun hlimited =>
          absurd (hanswer.mp hlimited) (by rw [ha]; decide)
        by_cases hkey : k = key
        · simpa [times, hkey, hpassed] using ih
        · simpa [times, hkey] using ih

theorem letThrough_initial (key : RateKey) (rs : List Request) :
    letThrough A key (served A .initial rs) =
      times key (passed limits (fun _ => []) (events A rs)) := by
  rw [letThrough_served, table_initial]

theorem events_snoc {rs : List Request} {key : RateKey} (h : reaches A r = some key) :
    events A (rs ++ [r]) = events A rs ++ [(key, r.now)] := by
  rw [events, List.filterMap_append]
  exact congrArg _ (events_cons_some [] h)

theorem events_pairwise {rs : List Request} (horder : rs.Pairwise (·.now ≤ ·.now)) :
    (events A rs).Pairwise (·.2 ≤ ·.2) := by
  refine List.Pairwise.filterMap _ ?_ horder
  intro r r' hle e he e' he'
  obtain ⟨key, -, rfl⟩ := Option.map_eq_some_iff.mp he
  obtain ⟨key', -, rfl⟩ := Option.map_eq_some_iff.mp he'
  exact hle

theorem events_filter (key : RateKey) : ∀ rs : List Request,
    (events A rs).filter (·.1 = key) = events A (rs.filter (reaches A · = some key))
  | [] => rfl
  | r :: rs => by
    have ih := events_filter key rs
    rw [List.filter_cons]
    rcases h : reaches A r with _ | k
    · rw [events_cons_none h, if_neg (by simp), ih]
    · rw [events_cons_some rs h, List.filter_cons]
      by_cases hkey : k = key
      · rw [if_pos (by simpa using hkey), if_pos (by simpa using hkey), events_cons_some _ h, ih]
      · rw [if_neg (by simpa using hkey), if_neg (by simpa using hkey), ih]

/-! ## The limits -/

/-- The times of any stretch shorter than the window. -/
theorem letThrough_le {rs : List Request} (horder : rs.Pairwise (·.now ≤ ·.now)) (key : RateKey)
    (p : ℤ → Bool) (hp : ∀ x y, p x = true → p y = true → y - x < limits.width key) :
    ((letThrough A key (served A .initial rs)).filter p).length ≤ limits.limit key := by
  rw [letThrough_initial]
  exact passed_in_window_le (events_pairwise horder) key p hp

/-- The last window. -/
theorem lastWindow_le {rs : List Request} (horder : rs.Pairwise (·.now ≤ ·.now)) (key : RateKey)
    (now : ℤ) :
    ((letThrough A key (served A .initial rs)).filter fun t =>
      now - limits.width key < t ∧ t ≤ now).length ≤ limits.limit key := by
  refine letThrough_le horder key _ fun x y hx hy => ?_
  have hx := of_decide_eq_true hx
  have hy := of_decide_eq_true hy
  omega

/-- **When a request is refused**, by what was let through before it. -/
theorem answerAfter_eq_rateLimited_iff {before : List Request} {key : RateKey}
    (horder : (before ++ [r]).Pairwise (·.now ≤ ·.now)) (h : reaches A r = some key) :
    answerAfter A before r = rateLimited ↔
      limits.limit key ≤ ((letThrough A key (served A .initial before)).filter fun t =>
        r.now - limits.width key < t ∧ t ≤ r.now).length := by
  have hevents := events_pairwise (A := A) horder
  rw [events_snoc h] at hevents
  have hlast : (letThrough A key (served A .initial before)).filter
      (fun t => r.now - limits.width key < t ∧ t ≤ r.now) =
      recent (limits.width key) r.now (times key (passed limits (fun _ => []) (events A before))) := by
    rw [letThrough_initial]
    refine List.filter_congr fun t ht => ?_
    have hle : t ≤ r.now := (List.pairwise_append.mp hevents).2.2 _
      ((passed_sublist _ _).subset (mem_times.mp ht)) _ List.mem_cons_self
    simp [hle]
  rw [answerAfter, answer_eq_rateLimited_iff _ h, table_ratesAfter, ← Bool.not_eq_true,
    admits_after_iff hevents, not_lt, hlast]

/-- **The other keys**: only the requests of its own key count for the answer to a request. -/
theorem answerAfter_congr {before before' : List Request} {key : RateKey}
    (h : reaches A r = some key)
    (hsame : before.filter (reaches A · = some key) = before'.filter (reaches A · = some key)) :
    answerAfter A before r = answerAfter A before' r := by
  have htable : (ratesAfter A before).table key = (ratesAfter A before').table key := by
    rw [table_ratesAfter, table_ratesAfter, after_filter key (events A before) _ _ rfl,
      after_filter key (events A before') _ _ rfl, events_filter, events_filter, hsame]
  rw [answerAfter, answerAfter, (disableCloudVideo_of_some _ h).2, (disableCloudVideo_of_some _ h).2,
    admits_congr htable]

/-- **The rate limits.** -/
theorem rate_limits (A : App) (rs : List Request) (horder : rs.Pairwise (·.now ≤ ·.now)) :
    (∀ key start, ((letThrough A key (served A .initial rs)).filter fun t =>
      start ≤ t ∧ t < start + limits.width key).length ≤ limits.limit key) ∧
    (∀ key start, ((letThrough A key (served A .initial rs)).filter fun t =>
      start < t ∧ t ≤ start + limits.width key).length ≤ limits.limit key) ∧
    (∀ before r rest key, rs = before ++ r :: rest → reaches A r = some key →
      (answerAfter A before r = rateLimited ↔
        ((letThrough A key (served A .initial before)).filter fun t =>
          r.now - limits.width key < t ∧ t ≤ r.now).length = limits.limit key)) ∧
    ∀ before before' r key, reaches A r = some key →
      before.filter (reaches A · = some key) = before'.filter (reaches A · = some key) →
        answerAfter A before r = answerAfter A before' r := by
  refine ⟨fun key start => ?_, fun key start => ?_, ?_, fun _ _ _ _ => answerAfter_congr⟩
  · refine letThrough_le horder key _ fun x y hx hy => ?_
    have hx := of_decide_eq_true hx
    have hy := of_decide_eq_true hy
    omega
  · refine letThrough_le horder key _ fun x y hx hy => ?_
    have hx := of_decide_eq_true hx
    have hy := of_decide_eq_true hy
    omega
  · rintro before r rest key rfl hkey
    have hupto : (before ++ [r]).Pairwise (·.now ≤ ·.now) :=
      horder.sublist (List.Sublist.append_left (by simp) before)
    rw [answerAfter_eq_rateLimited_iff hupto hkey]
    have hle := lastWindow_le (A := A) (List.pairwise_append.mp hupto).1 key r.now
    exact ⟨fun h => le_antisymm hle h, fun h => h.ge⟩

/-- Four creations of one source, the last one a second before an hour is over. -/
def burst : List Request :=
  [0, 1, 2, 3599].map fun t =>
    { path := "/api/node-registration-requests"
      method := "POST"
      contentLength := some "800"
      bodyLength := 800
      client := some "203.0.113.7"
      sourceIp := none
      now := seconds t }

def sampleApp : App := ⟨false, false, .ascii⟩

theorem rate_limits_burst :
    (served sampleApp .initial burst).map Prod.snd =
      [.callNext, .callNext, .callNext, rateLimited] ∧
    ∀ start, ((letThrough sampleApp (.registration "203.0.113.7")
      (served sampleApp .initial burst)).filter fun t =>
        start ≤ t ∧ t < start + seconds 3600).length ≤ 3 :=
  ⟨by decide +kernel,
    fun start => (rate_limits sampleApp burst (by decide)).1 (.registration "203.0.113.7") start⟩

end IdenGrid.Control.RateLimits
