import IdenGrid.Control.Sessions
import Mathlib.Order.MinMax

/-! # The native login throttle

The table `native_login_throttles` and the three transactions of `native_login` that touch it: the
block check at the start, the bookkeeping of a failed verification and the clearing by a successful
one. A row is keyed by the HMAC of its materials, which is taken to be collision-free: the key *is*
the tuple of materials. -/

namespace IdenGrid.Control.Throttle

open IdenGrid.Control.Rows IdenGrid.Control.Sessions

/-- The materials of a throttle key. -/
inductive ThrottleKey
  | accountSource (account source : String)
  | deviceSource (device source : String)
  | source (source : String)
  deriving DecidableEq, Repr

/-- A row of `native_login_throttles`. -/
structure NativeLoginThrottle where
  failureCount : ℕ
  penaltyLevel : ℕ
  windowStartedAt : ℕ
  blockedUntil : Option ℕ
  updatedAt : ℕ
  deriving DecidableEq, Repr

/-- The table, by primary key. -/
abbrev Throttles := ThrottleKey → Option NativeLoginThrottle

/-- `throttle_keys` of a request. -/
def throttleKeys (P : Primitives) (body : NativeLoginBody) (sourceIp : String) :
    List ThrottleKey :=
  [.accountSource (P.casefold body.username) sourceIp, .deviceSource body.deviceId sourceIp,
    .source sourceIp]

/-- `throttle_thresholds`. -/
def throttleThresholds : List ℕ := [5, 5, 20]

theorem throttleKeys_nodup (P : Primitives) (body : NativeLoginBody) (sourceIp : String) :
    (throttleKeys P body sourceIp).Nodup := by
  simp [throttleKeys]

/-- The row `lock_throttles` inserts for a key that has none. -/
def initialThrottle (atTime : ℕ) : NativeLoginThrottle where
  failureCount := 0
  penaltyLevel := 0
  windowStartedAt := atTime
  blockedUntil := none
  updatedAt := atTime

/-- `lock_throttles`: every key has a row afterwards, existing rows are kept. -/
def lockThrottles (keys : List ThrottleKey) (atTime : ℕ) (table : Throttles) : Throttles :=
  fun key => if key ∈ keys then some ((table key).getD (initialThrottle atTime)) else table key

/-- The rows `lock_throttles` returns, in the order of the keys. -/
def lockedRows (keys : List ThrottleKey) (atTime : ℕ) (table : Throttles) :
    List NativeLoginThrottle :=
  keys.map fun key => (table key).getD (initialThrottle atTime)

/-- `blocked_until > at_time`. -/
def NativeLoginThrottle.blockedAt (row : NativeLoginThrottle) (atTime : ℕ) : Bool :=
  row.blockedUntil.any (atTime < ·)

/-- A key is blocked if its row is. -/
def blocked (table : Throttles) (atTime : ℕ) (key : ThrottleKey) : Bool :=
  (table key).any (·.blockedAt atTime)

/-- `math.ceil((blocked_until - at_time).total_seconds())` of a blocked row, 0 of another. -/
def retryAfter (row : NativeLoginThrottle) (atTime : ℕ) : ℕ :=
  row.blockedUntil.elim 0 fun b => if atTime < b then (b - atTime + 999999) / 1000000 else 0

/-- `active_retry_after`. -/
def activeRetryAfter (rows : List NativeLoginThrottle) (atTime : ℕ) : ℕ :=
  rows.foldl (fun acc row => max acc (retryAfter row atTime)) 0

/-- `timedelta(hours=24)`. -/
def staleAfter : ℕ := seconds (24 * 60 * 60)

/-- The DELETE of the block check. -/
def purgeThrottles (now : ℕ) (table : Throttles) : Throttles :=
  fun key => (table key).filter fun row => ¬ row.updatedAt + staleAfter ≤ now

/-- **The block check**: purge, lock, read; the answer is the seconds to wait, 0 for none. -/
def blockCheck (keys : List ThrottleKey) (now : ℕ) (table : Throttles) : Throttles × ℕ :=
  (lockThrottles keys now (purgeThrottles now table),
    activeRetryAfter (lockedRows keys now (purgeThrottles now table)) now)

/-- `(300, 900, 1800)[penalty_level - 1]`. -/
def penaltyWait (level : ℕ) : ℕ := if level ≤ 1 then 300 else if level = 2 then 900 else 1800

/-- The start of the bookkeeping of one key: a window of ten minutes that has passed is opened
anew, then the failure is counted. -/
def countFailure (failureTime : ℕ) (row : NativeLoginThrottle) : NativeLoginThrottle :=
  if row.windowStartedAt + minutes 10 ≤ failureTime then
    { row with failureCount := 1, windowStartedAt := failureTime, updatedAt := failureTime }
  else { row with failureCount := row.failureCount + 1, updatedAt := failureTime }

/-- The rest: at the threshold the count starts over and the key is blocked. -/
def penalize (threshold : ℕ) (failureTime : ℕ) (row : NativeLoginThrottle) :
    NativeLoginThrottle :=
  if threshold ≤ row.failureCount then
    { row with
      failureCount := 0
      penaltyLevel := min (row.penaltyLevel + 1) 3
      blockedUntil := some (failureTime + seconds (penaltyWait (min (row.penaltyLevel + 1) 3))) }
  else row

/-- One turn of the bookkeeping loop. -/
def recordFailure (threshold : ℕ) (failureTime : ℕ) (row : NativeLoginThrottle) :
    NativeLoginThrottle :=
  penalize threshold failureTime (countFailure failureTime row)

/-- The wait that turn triggers, 0 if it stays below the threshold. -/
def triggeredWait (threshold : ℕ) (failureTime : ℕ) (row : NativeLoginThrottle) : ℕ :=
  if threshold ≤ (countFailure failureTime row).failureCount then
    penaltyWait (min (row.penaltyLevel + 1) 3) else 0

/-- The bookkeeping loop over the keys and their thresholds. -/
def recordFailures (failureTime : ℕ) : List (ThrottleKey × ℕ) → Throttles → Throttles
  | [], table => table
  | (key, threshold) :: rest, table =>
    recordFailures failureTime rest
      (Function.update table key
        (some (recordFailure threshold failureTime
          ((table key).getD (initialThrottle failureTime)))))

/-- The blocks the bookkeeping of the keys sets: the key and the end of its block. -/
def newBlocks (failureTime : ℕ) (pairs : List (ThrottleKey × ℕ)) (table : Throttles) :
    List (ThrottleKey × ℕ) :=
  pairs.filterMap fun (key, threshold) =>
    let wait := triggeredWait threshold failureTime ((table key).getD (initialThrottle failureTime))
    if 0 < wait then some (key, failureTime + seconds wait) else none

/-- `triggered_retry_after`. -/
def triggeredRetryAfter (failureTime : ℕ) (rows : List (NativeLoginThrottle × ℕ)) : ℕ :=
  rows.foldl (fun acc p => max acc (triggeredWait p.2 failureTime p.1)) 0

/-- What the bookkeeping transaction of a failed verification answers. -/
inductive FailureAnswer
  | blocked (retryAfter : ℕ)
  | throttled (retryAfter : ℕ)
  | invalidCredentials
  | serverError
  deriving DecidableEq, Repr

/-- **The bookkeeping of a failed verification**: lock, check for a block, count. A raising audit
record rolls the transaction back. -/
def bookFailure (P : Primitives) (username : String) (keys : List ThrottleKey) (failureTime : ℕ)
    (table : Throttles) : Throttles × FailureAnswer :=
  let rows := lockedRows keys failureTime table
  if 0 < activeRetryAfter rows failureTime then
    (lockThrottles keys failureTime table, .blocked (activeRetryAfter rows failureTime))
  else if P.auditRaises username then (table, .serverError)
  else
    (recordFailures failureTime (keys.zip throttleThresholds)
        (lockThrottles keys failureTime table),
      if 0 < triggeredRetryAfter failureTime (rows.zip throttleThresholds) then
        .throttled (triggeredRetryAfter failureTime (rows.zip throttleThresholds))
      else .invalidCredentials)

/-- **The clearing by a success**: the DELETE of the account and the device row. -/
def clearThrottles (keys : List ThrottleKey) (table : Throttles) : Throttles :=
  fun key => if key ∈ keys.take 2 then none else table key

/-! ## Facts about the three transactions -/

theorem retryAfter_pos {row : NativeLoginThrottle} {atTime : ℕ} :
    0 < retryAfter row atTime ↔ row.blockedAt atTime = true := by
  unfold retryAfter NativeLoginThrottle.blockedAt
  rcases row.blockedUntil with _ | b
  · simp
  · simp only [Option.elim_some, Option.any_some, decide_eq_true_eq]
    split_ifs with h
    · have hpos : 0 < b - atTime := Nat.sub_pos_of_lt h
      refine iff_of_true ?_ h
      generalize b - atTime = d at hpos
      omega
    · simp [h]

theorem foldl_max_pos {β : Type*} (f : β → ℕ) :
    ∀ (l : List β) (acc : ℕ),
      0 < l.foldl (fun acc b => max acc (f b)) acc ↔ 0 < acc ∨ ∃ b ∈ l, 0 < f b
  | [], acc => by simp
  | b :: l, acc => by
    rw [List.foldl_cons, foldl_max_pos f l]
    simp only [List.mem_cons, exists_eq_or_imp, lt_max_iff, or_assoc]

/-- **The handlers' test for a block**: some row is blocked. -/
theorem activeRetryAfter_pos {rows : List NativeLoginThrottle} {atTime : ℕ} :
    0 < activeRetryAfter rows atTime ↔ ∃ row ∈ rows, row.blockedAt atTime = true := by
  unfold activeRetryAfter
  rw [foldl_max_pos]
  simp [retryAfter_pos]

theorem initialThrottle_not_blocked (t atTime : ℕ) :
    (initialThrottle t).blockedAt atTime = false := rfl

theorem blockedAt_getD (table : Throttles) (t atTime : ℕ) (key : ThrottleKey) :
    ((table key).getD (initialThrottle t)).blockedAt atTime = blocked table atTime key := by
  unfold blocked
  rcases table key with _ | row
  · exact initialThrottle_not_blocked t atTime
  · simp

/-- The rows a transaction has locked show a block exactly if one of its keys is blocked. -/
theorem activeRetryAfter_locked_pos {keys : List ThrottleKey} {t : ℕ} {table : Throttles} :
    0 < activeRetryAfter (lockedRows keys t table) t ↔
      ∃ key ∈ keys, blocked table t key = true := by
  rw [activeRetryAfter_pos]
  simp [lockedRows, blockedAt_getD]

theorem activeRetryAfter_of_free {keys : List ThrottleKey} {t : ℕ} {table : Throttles}
    (hfree : ∀ key ∈ keys, blocked table t key = false) :
    ¬ 0 < activeRetryAfter (lockedRows keys t table) t := by
  rw [activeRetryAfter_locked_pos]
  rintro ⟨key, hk, hb⟩
  rw [hfree key hk] at hb
  cases hb

/-- Locking rows blocks nothing and unblocks nothing. -/
@[simp] theorem blocked_lockThrottles (keys : List ThrottleKey) (t atTime : ℕ)
    (table : Throttles) (key : ThrottleKey) :
    blocked (lockThrottles keys t table) atTime key = blocked table atTime key := by
  unfold lockThrottles
  by_cases hk : key ∈ keys
  · have := blockedAt_getD table t atTime key
    simpa [blocked, hk] using this
  · simp [blocked, hk]

/-- When the block of a key ends, if its row was ever blocked. -/
def blockEnd (table : Throttles) (key : ThrottleKey) : Option ℕ :=
  (table key).bind (·.blockedUntil)

theorem blocked_iff {table : Throttles} {atTime : ℕ} {key : ThrottleKey} :
    blocked table atTime key = true ↔ ∃ b, blockEnd table key = some b ∧ atTime < b := by
  unfold blocked blockEnd NativeLoginThrottle.blockedAt
  rcases table key with _ | row
  · simp
  · simp [Option.any_eq_true]

theorem blockEnd_lockThrottles (keys : List ThrottleKey) (t : ℕ) (table : Throttles)
    (key : ThrottleKey) : blockEnd (lockThrottles keys t table) key = blockEnd table key := by
  unfold blockEnd lockThrottles
  split_ifs
  · rcases table key with _ | row <;> rfl
  · rfl

/-- Neither purging nor clearing adds a block. -/
theorem blockEnd_purgeThrottles {now b : ℕ} {table : Throttles} {key : ThrottleKey}
    (h : blockEnd (purgeThrottles now table) key = some b) : blockEnd table key = some b := by
  unfold blockEnd purgeThrottles at h
  obtain ⟨row, hrow, hb⟩ := Option.bind_eq_some_iff.mp h
  exact Option.bind_eq_some_iff.mpr ⟨row, (Option.filter_eq_some_iff.mp hrow).1, hb⟩

theorem blockEnd_clearThrottles {keys : List ThrottleKey} {b : ℕ} {table : Throttles}
    {key : ThrottleKey} (h : blockEnd (clearThrottles keys table) key = some b) :
    blockEnd table key = some b := by
  unfold blockEnd clearThrottles at h
  split_ifs at h
  · cases h
  · exact h

/-- Keys outside the loop are not touched. -/
theorem recordFailures_of_notMem {failureTime : ℕ} :
    ∀ {pairs : List (ThrottleKey × ℕ)} {table : Throttles} {key : ThrottleKey},
      key ∉ pairs.map Prod.fst → recordFailures failureTime pairs table key = table key
  | [], _, _, _ => rfl
  | (k, θ) :: rest, table, key, h => by
    simp only [List.map_cons, List.mem_cons, not_or] at h
    rw [recordFailures, recordFailures_of_notMem h.2, Function.update_of_ne h.1]

/-- **The loop counts the failure once on each key**: with pairwise distinct keys, the row of a key
after the loop is the row before it after one turn. -/
theorem recordFailures_of_mem {failureTime : ℕ} :
    ∀ {pairs : List (ThrottleKey × ℕ)} {table : Throttles} {key : ThrottleKey} {threshold : ℕ},
      (pairs.map Prod.fst).Nodup → (key, threshold) ∈ pairs →
        recordFailures failureTime pairs table key =
          some (recordFailure threshold failureTime
            ((table key).getD (initialThrottle failureTime)))
  | [], _, _, _, _, h => by simp at h
  | (k, θ) :: rest, table, key, threshold, hnd, h => by
    simp only [List.map_cons, List.nodup_cons] at hnd
    rw [recordFailures]
    rcases List.mem_cons.mp h with heq | hrest
    · obtain ⟨rfl, rfl⟩ : key = k ∧ threshold = θ := by simpa using heq
      rw [recordFailures_of_notMem hnd.1, Function.update_self]
    · have hne : key ≠ k := by
        rintro rfl
        exact hnd.1 (List.mem_map.mpr ⟨_, hrest, rfl⟩)
      rw [recordFailures_of_mem hnd.2 hrest, Function.update_of_ne hne]

/-! ## One failure, written out -/

/-- The failures a row counts in the window that is open at a time: none, if ten minutes have passed
since the window began. -/
def NativeLoginThrottle.failuresAt (row : NativeLoginThrottle) (atTime : ℕ) : ℕ :=
  if row.windowStartedAt + minutes 10 ≤ atTime then 0 else row.failureCount

/-- **A failure is counted once** on a row: `new` is what `old` becomes by it. The window stays open,
or a new one begins. Below the threshold the failure adds one to the count and nothing else; at the
threshold the count starts over, the level rises by one up to three, and the key is blocked for 5,
15 or 30 minutes. -/
structure CountedOnce (threshold failureTime : ℕ) (old new : NativeLoginThrottle) : Prop where
  updated : new.updatedAt = failureTime
  window : new.windowStartedAt =
    if old.windowStartedAt + minutes 10 ≤ failureTime then failureTime else old.windowStartedAt
  below : old.failuresAt failureTime + 1 < threshold →
    new.failureCount = old.failuresAt failureTime + 1 ∧ new.penaltyLevel = old.penaltyLevel ∧
      new.blockedUntil = old.blockedUntil
  reached : threshold ≤ old.failuresAt failureTime + 1 →
    new.failureCount = 0 ∧ new.penaltyLevel = min (old.penaltyLevel + 1) 3 ∧
      new.blockedUntil = some (failureTime + minutes
        (if old.penaltyLevel = 0 then 5 else if old.penaltyLevel = 1 then 15 else 30))

/-- **One failure on a row**: it is the first of a new window or one more of the old one, and it
either stays below the threshold or blocks the key at the next level. -/
theorem recordFailure_cases (θ t : ℕ) (r : NativeLoginThrottle) :
    ∃ count window,
      (r.windowStartedAt + minutes 10 ≤ t ∧ count = 1 ∧ window = t ∨
        t < r.windowStartedAt + minutes 10 ∧ count = r.failureCount + 1 ∧
          window = r.windowStartedAt) ∧
      (count < θ ∧ recordFailure θ t r =
          { r with failureCount := count, windowStartedAt := window, updatedAt := t } ∨
        θ ≤ count ∧ recordFailure θ t r =
          { failureCount := 0
            penaltyLevel := min (r.penaltyLevel + 1) 3
            windowStartedAt := window
            blockedUntil := some (t + seconds (penaltyWait (min (r.penaltyLevel + 1) 3)))
            updatedAt := t }) := by
  unfold recordFailure countFailure
  by_cases hw : r.windowStartedAt + minutes 10 ≤ t
  · refine ⟨1, t, Or.inl ⟨hw, rfl, rfl⟩, ?_⟩
    rw [if_pos hw]
    by_cases hθ : θ ≤ 1
    · exact Or.inr ⟨hθ, if_pos hθ⟩
    · exact Or.inl ⟨by omega, if_neg hθ⟩
  · refine ⟨r.failureCount + 1, r.windowStartedAt, Or.inr ⟨by omega, rfl, rfl⟩, ?_⟩
    rw [if_neg hw]
    by_cases hθ : θ ≤ r.failureCount + 1
    · exact Or.inr ⟨hθ, if_pos hθ⟩
    · exact Or.inl ⟨by omega, if_neg hθ⟩

theorem seconds_penaltyWait (level : ℕ) : seconds (penaltyWait (min (level + 1) 3)) =
    minutes (if level = 0 then 5 else if level = 1 then 15 else 30) := by
  rcases level with _ | _ | level
  · rfl
  · rfl
  · have hmin : min (level + 1 + 1 + 1) 3 = 3 := by omega
    rw [hmin]
    rfl

/-- **One turn of the loop counts the failure once.** -/
theorem recordFailure_countedOnce (θ t : ℕ) (r : NativeLoginThrottle) :
    CountedOnce θ t r (recordFailure θ t r) := by
  obtain ⟨count, window, hopen, hcount⟩ := recordFailure_cases θ t r
  have hfailures : count = r.failuresAt t + 1 := by
    unfold NativeLoginThrottle.failuresAt
    split_ifs <;> omega
  have hwindow : window = if r.windowStartedAt + minutes 10 ≤ t then t else r.windowStartedAt := by
    split_ifs <;> omega
  subst hfailures
  rcases hcount with ⟨hlt, hr⟩ | ⟨hle, hr⟩
  · rw [hr]
    exact ⟨rfl, hwindow, fun _ => ⟨rfl, rfl, rfl⟩, fun hle => absurd hle (Nat.not_le_of_lt hlt)⟩
  · rw [hr, seconds_penaltyWait]
    exact ⟨rfl, hwindow, fun hlt => absurd hle (Nat.not_le_of_lt hlt), fun _ => ⟨rfl, rfl, rfl⟩⟩

/-- A row that stays as it is has not counted a failure. -/
theorem not_countedOnce_self {θ t : ℕ} (hθ : 2 ≤ θ) (r : NativeLoginThrottle) :
    ¬ CountedOnce θ t r r := by
  rintro ⟨-, hwindow, hbelow, hreached⟩
  by_cases hpassed : r.windowStartedAt + minutes 10 ≤ t
  · -- a window that has passed is opened anew
    rw [if_pos hpassed] at hwindow
    have hpos : 0 < minutes 10 := by decide
    omega
  · have hfailures : r.failuresAt t = r.failureCount := if_neg hpassed
    rw [hfailures] at hbelow hreached
    rcases Nat.lt_or_ge (r.failureCount + 1) θ with hlt | hle
    · have := (hbelow hlt).1
      omega
    · have := (hreached hle).1
      omega

/-! ## The ends of blocks -/

theorem blockEnd_recordFailure {threshold failureTime b : ℕ} {row : NativeLoginThrottle}
    (h : (recordFailure threshold failureTime row).blockedUntil = some b) :
    row.blockedUntil = some b ∨ (0 < triggeredWait threshold failureTime row ∧
      b = failureTime + seconds (triggeredWait threshold failureTime row)) := by
  have hcount : (countFailure failureTime row).blockedUntil = row.blockedUntil ∧
      (countFailure failureTime row).penaltyLevel = row.penaltyLevel := by
    unfold countFailure; split_ifs <;> exact ⟨rfl, rfl⟩
  unfold recordFailure penalize at h
  unfold triggeredWait
  split_ifs at h ⊢
  · right
    have hb : failureTime + seconds (penaltyWait (min (row.penaltyLevel + 1) 3)) = b := by
      simpa [hcount.2] using h
    refine ⟨?_, hb.symm⟩
    unfold penaltyWait
    split_ifs <;> omega
  · left; rw [← hcount.1]; exact h

theorem recordFailure_updatedAt (threshold failureTime : ℕ) (row : NativeLoginThrottle) :
    (recordFailure threshold failureTime row).updatedAt = failureTime := by
  unfold recordFailure penalize countFailure
  split_ifs <;> rfl

theorem penaltyWait_le (level : ℕ) : penaltyWait level ≤ 1800 := by
  unfold penaltyWait; split_ifs <;> omega

theorem triggeredWait_le (threshold failureTime : ℕ) (row : NativeLoginThrottle) :
    triggeredWait threshold failureTime row ≤ 1800 := by
  unfold triggeredWait
  split_ifs
  · exact penaltyWait_le _
  · exact Nat.zero_le _

theorem mem_newBlocks {failureTime b threshold : ℕ} {pairs : List (ThrottleKey × ℕ)}
    {table : Throttles} {key : ThrottleKey} (hp : (key, threshold) ∈ pairs)
    (hw : 0 < triggeredWait threshold failureTime
      ((table key).getD (initialThrottle failureTime)))
    (hb : b = failureTime + seconds (triggeredWait threshold failureTime
      ((table key).getD (initialThrottle failureTime)))) :
    (key, b) ∈ newBlocks failureTime pairs table :=
  List.mem_filterMap.mpr ⟨(key, threshold), hp, by simp only [hw, if_true, hb]⟩

theorem throttleKeys_zip (P : Primitives) (body : NativeLoginBody) (sourceIp : String) :
    ((throttleKeys P body sourceIp).zip throttleThresholds).map Prod.fst =
      throttleKeys P body sourceIp := rfl

/-- A block runs for at most half an hour from the last failure counted on its row. -/
def Bounded (table : Throttles) : Prop :=
  ∀ key row, table key = some row → ∀ b, row.blockedUntil = some b →
    b ≤ row.updatedAt + seconds 1800

theorem Bounded.lockThrottles {table : Throttles} (h : Bounded table) (keys : List ThrottleKey)
    (t : ℕ) : Bounded (lockThrottles keys t table) := by
  intro key row hrow b hb
  unfold Throttle.lockThrottles at hrow
  split_ifs at hrow
  · rcases hk : table key with _ | old <;> rw [hk] at hrow
    · obtain rfl := Option.some.inj hrow
      cases hb
    · obtain rfl := Option.some.inj hrow
      exact h key old hk b hb
  · exact h key row hrow b hb

theorem Bounded.purgeThrottles {table : Throttles} (h : Bounded table) (now : ℕ) :
    Bounded (purgeThrottles now table) :=
  fun key row hrow => h key row (Option.filter_eq_some_iff.mp hrow).1

theorem Bounded.clearThrottles {table : Throttles} (h : Bounded table)
    (keys : List ThrottleKey) : Bounded (clearThrottles keys table) := by
  intro key row hrow
  unfold Throttle.clearThrottles at hrow
  split_ifs at hrow
  exact h key row hrow

/-- A row stale for a day is not blocked: purging removes no running block. -/
theorem blocked_purgeThrottles {table : Throttles} (h : Bounded table) {now : ℕ}
    {key : ThrottleKey} (hb : blocked table now key = true) :
    blocked (purgeThrottles now table) now key = true := by
  obtain ⟨b, hend, hlt⟩ := blocked_iff.mp hb
  obtain ⟨row, hrow, hrb⟩ := Option.bind_eq_some_iff.mp hend
  have hle := h key row hrow b hrb
  have hfresh : ¬ row.updatedAt + staleAfter ≤ now := by
    unfold staleAfter seconds at *
    omega
  refine blocked_iff.mpr ⟨b, ?_, hlt⟩
  simp [blockEnd, purgeThrottles, hrow, Option.filter, hfresh, hrb]

/-- What the bookkeeping leaves of the rows of its keys, where it counts. -/
theorem bookFailure_counts {P : Primitives} {username : String} {keys : List ThrottleKey}
    {failureTime : ℕ} {table : Throttles} (haudit : P.auditRaises username = false)
    (hfree : ∀ key ∈ keys, blocked table failureTime key = false) :
    (bookFailure P username keys failureTime table).1 =
      recordFailures failureTime (keys.zip throttleThresholds)
        (lockThrottles keys failureTime table) := by
  simp only [bookFailure, activeRetryAfter_of_free hfree, haudit, if_false, Bool.false_eq_true]

/-- Where it cannot write its audit record, it leaves the table as it was. -/
theorem bookFailure_raises {P : Primitives} {username : String} {keys : List ThrottleKey}
    {failureTime : ℕ} {table : Throttles} (haudit : P.auditRaises username = true)
    (hfree : ∀ key ∈ keys, blocked table failureTime key = false) :
    (bookFailure P username keys failureTime table).1 = table := by
  simp only [bookFailure, activeRetryAfter_of_free hfree, haudit, if_false, if_true]

/-- **The bookkeeping of a failure counts it once on each key**: one turn of the loop for every key
of the request, and no other row changes. -/
theorem recordFailures_spec (P : Primitives) (body : NativeLoginBody) (sourceIp : String)
    (failureTime : ℕ) (table : Throttles) :
    let keys := throttleKeys P body sourceIp
    let table' := recordFailures failureTime (keys.zip throttleThresholds)
      (lockThrottles keys failureTime table)
    (∀ p ∈ keys.zip throttleThresholds, table' p.1 =
      some (recordFailure p.2 failureTime ((table p.1).getD (initialThrottle failureTime)))) ∧
    ∀ key, key ∉ keys → table' key = table key := by
  refine ⟨fun p hp => ?_, fun key hk => ?_⟩
  · have hnd : (((throttleKeys P body sourceIp).zip throttleThresholds).map Prod.fst).Nodup :=
      throttleKeys_nodup P body sourceIp
    have hmem : p.1 ∈ throttleKeys P body sourceIp := (List.of_mem_zip hp).1
    rw [recordFailures_of_mem hnd hp]
    simp [lockThrottles, hmem]
  · rw [recordFailures_of_notMem (by rw [throttleKeys_zip]; exact hk)]
    simp [lockThrottles, hk]

/-- The bookkeeping: it finds a block, its audit record fails, or it counts. -/
theorem bookFailure_cases (P : Primitives) (username : String) (keys : List ThrottleKey)
    (failureTime : ℕ) (table : Throttles) :
    (∃ n, bookFailure P username keys failureTime table =
      (lockThrottles keys failureTime table, .blocked n)) ∨
    bookFailure P username keys failureTime table = (table, .serverError) ∨
    (∀ key ∈ keys, blocked table failureTime key = false) ∧
      (bookFailure P username keys failureTime table).1 =
        recordFailures failureTime (keys.zip throttleThresholds)
          (lockThrottles keys failureTime table) ∧
      ((∃ n, (bookFailure P username keys failureTime table).2 = .throttled n) ∨
        (bookFailure P username keys failureTime table).2 = .invalidCredentials) := by
  by_cases hb : 0 < activeRetryAfter (lockedRows keys failureTime table) failureTime
  · left
    simp only [bookFailure, hb, if_true]
    exact ⟨_, rfl⟩
  right
  have hfree : ∀ key ∈ keys, blocked table failureTime key = false := by
    intro key hk
    rw [activeRetryAfter_locked_pos] at hb
    exact Bool.eq_false_iff.mpr fun hbk => hb ⟨key, hk, hbk⟩
  rcases ha : P.auditRaises username with _ | _
  · right
    refine ⟨hfree, bookFailure_counts ha hfree, ?_⟩
    simp only [bookFailure, hb, ha, if_false, Bool.false_eq_true]
    by_cases ht : 0 < triggeredRetryAfter failureTime
        ((lockedRows keys failureTime table).zip throttleThresholds)
    · rw [if_pos ht]; exact Or.inl ⟨_, rfl⟩
    · rw [if_neg ht]; exact Or.inr rfl
  · left
    simp only [bookFailure, hb, ha, if_false, if_true]

theorem Bounded.recordFailures {P : Primitives} {body : NativeLoginBody} {sourceIp : String}
    {failureTime : ℕ} {table : Throttles} (h : Bounded table)
    (hfree : ∀ key ∈ throttleKeys P body sourceIp, blocked table failureTime key = false) :
    Bounded (recordFailures failureTime ((throttleKeys P body sourceIp).zip throttleThresholds)
      (Throttle.lockThrottles (throttleKeys P body sourceIp) failureTime table)) := by
  obtain ⟨hin, hout⟩ := recordFailures_spec P body sourceIp failureTime table
  intro key row hrow b hb
  by_cases hk : key ∈ throttleKeys P body sourceIp
  · have hkey := hk
    rw [← throttleKeys_zip P body sourceIp] at hk
    obtain ⟨p, hp, rfl⟩ := List.mem_map.mp hk
    rw [hin p hp] at hrow
    obtain rfl := Option.some.inj hrow
    rw [recordFailure_updatedAt]
    rcases blockEnd_recordFailure hb with hold | ⟨-, rfl⟩
    · -- an old block has ended, since the failure is counted
      have hnot : ¬ failureTime < b := by
        intro hlt
        have hbl : blocked table failureTime p.1 = true := by
          rw [← blockedAt_getD table failureTime]
          simp [NativeLoginThrottle.blockedAt, hold, hlt]
        rw [hfree p.1 hkey] at hbl; cases hbl
      omega
    · have := triggeredWait_le p.2 failureTime
        ((table p.1).getD (initialThrottle failureTime))
      unfold seconds
      omega
  · exact h key row (by rw [← hout key hk]; exact hrow) b hb

theorem blockEnd_recordFailures {P : Primitives} {body : NativeLoginBody} {sourceIp : String}
    {failureTime b : ℕ} {table : Throttles} {key : ThrottleKey}
    (h : blockEnd (recordFailures failureTime
      ((throttleKeys P body sourceIp).zip throttleThresholds)
      (lockThrottles (throttleKeys P body sourceIp) failureTime table)) key = some b) :
    blockEnd table key = some b ∨
      (key, b) ∈ newBlocks failureTime ((throttleKeys P body sourceIp).zip throttleThresholds)
        table := by
  obtain ⟨hin, hout⟩ := recordFailures_spec P body sourceIp failureTime table
  by_cases hk : key ∈ throttleKeys P body sourceIp
  · rw [← throttleKeys_zip P body sourceIp] at hk
    obtain ⟨p, hp, rfl⟩ := List.mem_map.mp hk
    rw [blockEnd, hin p hp, Option.bind_some] at h
    rcases blockEnd_recordFailure h with hold | ⟨hw, hb⟩
    · left
      unfold blockEnd
      rcases hrow : table p.1 with _ | row
      · rw [hrow] at hold; cases hold
      · rw [hrow] at hold; exact hold
    · exact Or.inr (mem_newBlocks hp hw hb)
  · left; rw [blockEnd, hout key hk] at h; exact h

end IdenGrid.Control.Throttle
