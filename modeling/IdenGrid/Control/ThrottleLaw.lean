import IdenGrid.Control.Serial
import Mathlib.Data.List.Chain

/-! # The law of the serial throttle

A history of native logins, one at a time, seen from one key of the throttle. Each login purges the
row of the key, locks it, counts one failure on it or deletes it (`KeyMove`, `attempt_move`);
`keyLog` lists what a history counted on the key and when a success reset it. The law
(`throttle_law`): the bounds of the row (`Sound`), the escalation of the blocks along a stretch of
failures without a reset or a pause of a day (`climb`), and the number of failures of ten minutes
(`window_le`). -/

namespace IdenGrid.Control.ThrottleLaw

open IdenGrid.Lib.Store IdenGrid.Control.Rows IdenGrid.Control.Sessions
open IdenGrid.Control.Throttle IdenGrid.Control.Serial

/-- One login of a history: its request, its clock readings and random values, and the accounts and
sessions it finds, which other requests may have changed since the login before. -/
structure Attempt where
  users : Table User.id
  sessions : Table DeviceSession.id
  body : NativeLoginBody
  sourceIp : String
  inputs : LoginInputs

/-- The readings of the clock never go back. A login reads `failureTime` or `issueTime`; the other
one stands for the reading before it. -/
def Orderly : ℕ → List Attempt → Prop
  | _, [] => True
  | t, a :: as =>
    (t ≤ a.inputs.checkTime ∧ a.inputs.checkTime ≤ a.inputs.failureTime ∧
      a.inputs.failureTime ≤ a.inputs.issueTime) ∧ Orderly a.inputs.issueTime as

/-- The last reading of a history that began at `t`. -/
def clock (t : ℕ) (as : List Attempt) : ℕ := as.foldl (fun _ a => a.inputs.issueTime) t

theorem orderly_append : ∀ {as bs : List Attempt} {t : ℕ},
    Orderly t (as ++ bs) ↔ Orderly t as ∧ Orderly (clock t as) bs
  | [], bs, t => by simp [Orderly, clock]
  | a :: as, bs, t => by
    rw [List.cons_append, Orderly, Orderly, orderly_append]
    exact and_assoc.symm

variable (P : Primitives)

def Attempt.keys (a : Attempt) : List ThrottleKey := throttleKeys P a.body a.sourceIp

def Attempt.login (a : Attempt) (table : Throttles) : Db × Answer :=
  nativeLogin P a.body a.sourceIp a.inputs ⟨a.users, a.sessions, table⟩

/-- What a login makes of the throttle. -/
def attempt (table : Throttles) (a : Attempt) : Throttles := (a.login P table).1.throttles

/-- What a history makes of the throttle. -/
def history (table : Throttles) (as : List Attempt) : Throttles := as.foldl (attempt P) table

/-- The throttle as the block check of a login leaves it. -/
def Attempt.checked (a : Attempt) (table : Throttles) : Throttles :=
  (blockCheck (a.keys P) a.inputs.checkTime table).1

/-- Did the bookkeeping count? -/
def counted : FailureAnswer → Bool
  | .throttled _ | .invalidCredentials => true
  | .blocked _ | .serverError => false

/-- The login passes the block check, its verification fails, and the bookkeeping counts that. -/
def Attempt.counts (a : Attempt) (table : Throttles) : Bool :=
  (blockCheck (a.keys P) a.inputs.checkTime table).2 == 0 &&
    !loginVerified P (a.users.first fun u => u.username = a.body.username) a.body.password &&
    counted (bookFailure P a.body.username (a.keys P) a.inputs.failureTime (a.checked P table)).2

/-- The login hands out a token pair. -/
def Attempt.succeeds (a : Attempt) (table : Throttles) : Bool :=
  match (a.login P table).2 with
  | .tokens _ _ => true
  | _ => false

/-- A failure counted on a key: the reading of its block check, that of its bookkeeping, and the end
of the block it sets, if it sets one. -/
structure Failure where
  checkTime : ℕ
  time : ℕ
  block : Option ℕ
  deriving DecidableEq, Repr

/-- What a login does to a key. -/
inductive KeyEvent
  | failure (f : Failure)
  | reset (time : ℕ)
  deriving DecidableEq, Repr

/-- The end of the block a key has at a time. -/
def runningBlock (table : Throttles) (key : ThrottleKey) (time : ℕ) : Option ℕ :=
  (blockEnd table key).filter (time < ·)

/-- What a login does to the key: it counts a failure, or it succeeds and deletes the row. -/
def observe (key : ThrottleKey) (table : Throttles) (a : Attempt) : Option KeyEvent :=
  if key ∈ a.keys P ∧ a.counts P table = true then
    some (.failure ⟨a.inputs.checkTime, a.inputs.failureTime,
      runningBlock (attempt P table a) key a.inputs.failureTime⟩)
  else if key ∈ (a.keys P).take 2 ∧ a.succeeds P table = true then
    some (.reset a.inputs.issueTime)
  else none

/-- What a history does to the key. -/
def keyLog (key : ThrottleKey) : Throttles → List Attempt → List KeyEvent
  | _, [] => []
  | table, a :: as => (observe P key table a).toList ++ keyLog key (attempt P table a) as

/-! ## What a login can do to a row -/

/-- What the purge leaves of a row. -/
def purged (now : ℕ) (row : Option NativeLoginThrottle) : Option NativeLoginThrottle :=
  row.filter fun r => ¬ r.updatedAt + staleAfter ≤ now

/-- The row the block check locks. -/
def found (now : ℕ) (row : Option NativeLoginThrottle) : NativeLoginThrottle :=
  (purged now row).getD (initialThrottle now)

/-- The threshold of a key. -/
def threshold : ThrottleKey → ℕ
  | .accountSource _ _ => 5
  | .deviceSource _ _ => 5
  | .source _ => 20

theorem threshold_pos (key : ThrottleKey) : 0 < threshold key := by
  cases key <;> simp [threshold]

theorem mem_zip_thresholds {body : NativeLoginBody} {sourceIp : String} {key : ThrottleKey}
    (h : key ∈ throttleKeys P body sourceIp) :
    (key, threshold key) ∈ (throttleKeys P body sourceIp).zip throttleThresholds := by
  simp only [throttleKeys, List.mem_cons, List.not_mem_nil, or_false] at h
  rcases h with rfl | rfl | rfl <;> simp [throttleKeys, throttleThresholds, threshold]

/-- **The moves of a row**: purged, locked, a failure counted on it while it is not blocked, or
deleted. -/
inductive KeyMove (θ : ℕ) (i : LoginInputs) (row : Option NativeLoginThrottle) :
    Option KeyEvent → Option NativeLoginThrottle → Prop
  | purged : KeyMove θ i row none (purged i.checkTime row)
  | locked : KeyMove θ i row none (some (found i.checkTime row))
  | counted (hfree : (found i.checkTime row).blockedAt i.failureTime = false) :
    KeyMove θ i row
      (some (.failure ⟨i.checkTime, i.failureTime,
        (recordFailure θ i.failureTime (found i.checkTime row)).blockedUntil.filter
          (i.failureTime < ·)⟩))
      (some (recordFailure θ i.failureTime (found i.checkTime row)))
  | reset : KeyMove θ i row (some (.reset i.issueTime)) none

theorem checked_of_mem {a : Attempt} {table : Throttles} {key : ThrottleKey}
    (h : key ∈ a.keys P) : a.checked P table key = some (found a.inputs.checkTime (table key)) := by
  simp only [Attempt.checked, blockCheck, lockThrottles, if_pos h]
  rfl

theorem checked_of_notMem {a : Attempt} {table : Throttles} {key : ThrottleKey}
    (h : key ∉ a.keys P) : a.checked P table key = purged a.inputs.checkTime (table key) := by
  simp only [Attempt.checked, blockCheck, lockThrottles, if_neg h]
  rfl

/-- Rows that are locked stay as they are when they are locked again. -/
theorem lock_checked (a : Attempt) (table : Throttles) (t : ℕ) :
    lockThrottles (a.keys P) t (a.checked P table) = a.checked P table := by
  funext key
  unfold lockThrottles
  by_cases hk : key ∈ a.keys P
  · rw [if_pos hk, checked_of_mem P hk]
    rfl
  · rw [if_neg hk]

/-- The bookkeeping of a failed verification counts it on keys that are not blocked, or leaves the
table as it is. -/
theorem book_cases (a : Attempt) (table : Throttles) :
    let book := bookFailure P a.body.username (a.keys P) a.inputs.failureTime (a.checked P table)
    (book.1 = a.checked P table ∧ counted book.2 = false) ∨
    (book.1 = recordFailures a.inputs.failureTime ((a.keys P).zip throttleThresholds)
        (a.checked P table) ∧ counted book.2 = true ∧
      ∀ key ∈ a.keys P, blocked (a.checked P table) a.inputs.failureTime key = false) := by
  have hlock := lock_checked P a table a.inputs.failureTime
  rcases bookFailure_cases P a.body.username (a.keys P) a.inputs.failureTime (a.checked P table)
    with ⟨n, h⟩ | h | ⟨hfree, h, hanswer⟩
  · left
    rw [h, hlock]
    exact ⟨rfl, rfl⟩
  · left
    rw [h]
    exact ⟨rfl, rfl⟩
  · right
    rw [hlock] at h
    refine ⟨h, ?_, hfree⟩
    rcases hanswer with ⟨n, hn⟩ | hn <;> rw [hn] <;> rfl

/-- The answers of a login, and the throttle each of them leaves. -/
theorem login_answers (a : Attempt) (table : Throttles) :
    let check := blockCheck (a.keys P) a.inputs.checkTime table
    let verified :=
      loginVerified P (a.users.first fun u => u.username = a.body.username) a.body.password
    let book := bookFailure P a.body.username (a.keys P) a.inputs.failureTime check.1
    (0 < check.2 ∧ a.login P table = (⟨a.users, a.sessions, check.1⟩, .refused 429)) ∨
    (check.2 = 0 ∧ verified = true ∧
      ∃ status, a.login P table = (⟨a.users, a.sessions, check.1⟩, .refused status)) ∨
    (check.2 = 0 ∧ verified = true ∧
      (a.login P table).1.throttles = clearThrottles (a.keys P) check.1 ∧
      ∃ access refresh, (a.login P table).2 = .tokens access refresh) ∨
    (check.2 = 0 ∧ verified = false ∧
      a.login P table = (⟨a.users, a.sessions, book.1⟩, .refused (failureStatus book.2))) := by
  intro check verified book
  by_cases hwait : 0 < check.2
  · left
    refine ⟨hwait, ?_⟩
    simp only [Attempt.login, nativeLogin]
    exact if_pos hwait
  right
  have hlogin : a.login P table =
      nativeLogin P a.body a.sourceIp a.inputs ⟨a.users, a.sessions, table⟩ := rfl
  simp only [nativeLogin] at hlogin
  replace hlogin := hlogin.trans (if_neg hwait)
  have hzero : check.2 = 0 := Nat.eq_zero_of_not_pos hwait
  rcases hv : loginVerified P (a.users.first fun u => u.username = a.body.username)
    a.body.password with _ | _
  · right; right
    refine ⟨hzero, hv, ?_⟩
    rw [hlogin, hv]
    rcases a.users.first fun u => u.username = a.body.username with _ | u <;> rfl
  · rcases hu : a.users.first fun u => u.username = a.body.username with _ | u
    · simp only [hu, loginVerified, loginPasswordHash] at hv
      simp at hv
    · rw [hv, hu] at hlogin
      rcases hre : (a.users.get? u.id).filter (recheck u.passwordHash u.tokenVersion) with _ | u'
      · left
        simp only [hre] at hlogin
        exact ⟨hzero, hv, 401, hlogin⟩
      · simp only [hre] at hlogin
        rcases loginFinal_spec P a.body a.sourceIp a.inputs u' ⟨a.users, a.sessions, check.1⟩
          with h | ⟨d, -, -, htokens, -, hclear, -⟩
        · left
          exact ⟨hzero, hv, 500, hlogin.trans h⟩
        · right; left
          refine ⟨hzero, hv, ?_, _, _, (congrArg Prod.snd hlogin).trans htokens⟩
          rw [hlogin]
          exact hclear

/-- **What a login does to the table**: nothing but the block check, the clearing by a success, or
the count of a failure on keys that are not blocked. -/
theorem login_cases (a : Attempt) (table : Throttles) :
    (attempt P table a = a.checked P table ∧ a.counts P table = false ∧
      a.succeeds P table = false) ∨
    (attempt P table a = clearThrottles (a.keys P) (a.checked P table) ∧
      a.counts P table = false ∧ a.succeeds P table = true) ∨
    (attempt P table a = recordFailures a.inputs.failureTime
        ((a.keys P).zip throttleThresholds) (a.checked P table) ∧
      a.counts P table = true ∧ a.succeeds P table = false ∧
      ∀ key ∈ a.keys P, blocked (a.checked P table) a.inputs.failureTime key = false) := by
  unfold attempt Attempt.succeeds Attempt.counts
  rcases login_answers P a table with ⟨hwait, h⟩ | ⟨hzero, hv, status, h⟩ |
    ⟨hzero, hv, hclear, access, refresh, h⟩ | ⟨hzero, hv, h⟩
  · left
    simp [h, hwait.ne', Attempt.checked]
  · left
    simp [h, hv, Attempt.checked]
  · right; left
    simp [h, hv, hclear, Attempt.checked]
  · rw [h, hzero, hv]
    rcases book_cases P a table with ⟨hbook, hcount⟩ | ⟨hbook, hcount, hfree⟩
    · left
      exact ⟨hbook, by rw [hcount, Bool.and_false], rfl⟩
    · right; right
      exact ⟨hbook, by rw [hcount]; rfl, rfl, hfree⟩

/-- **A login moves every row.** -/
theorem attempt_move (key : ThrottleKey) (table : Throttles) (a : Attempt) :
    KeyMove (threshold key) a.inputs (table key) (observe P key table a)
      (attempt P table a key) := by
  unfold observe
  rcases login_cases P a table with ⟨h, hcount, hsucc⟩ | ⟨h, hcount, hsucc⟩ |
    ⟨h, hcount, hsucc, hfree⟩
  · rw [h, hcount, hsucc]
    simp only [Bool.false_eq_true, and_false, if_false]
    by_cases hk : key ∈ a.keys P
    · rw [checked_of_mem P hk]
      exact .locked
    · rw [checked_of_notMem P hk]
      exact .purged
  · rw [h, hcount, hsucc]
    simp only [Bool.false_eq_true, and_false, if_false, and_true, clearThrottles]
    by_cases hk : key ∈ (a.keys P).take 2
    · rw [if_pos hk, if_pos hk]
      exact .reset
    · rw [if_neg hk, if_neg hk]
      by_cases hk' : key ∈ a.keys P
      · rw [checked_of_mem P hk']
        exact .locked
      · rw [checked_of_notMem P hk']
        exact .purged
  · obtain ⟨hin, hout⟩ := recordFailures_spec P a.body a.sourceIp a.inputs.failureTime
      (a.checked P table)
    have hlock := lock_checked P a table a.inputs.failureTime
    simp only [Attempt.keys] at hlock hin hout h hfree
    rw [hlock] at hin hout
    rw [hcount, hsucc, runningBlock, blockEnd, h]
    simp only [and_true, Bool.false_eq_true, and_false, if_false, Attempt.keys]
    by_cases hk : key ∈ throttleKeys P a.body a.sourceIp
    · have hrow := hin (key, threshold key) (mem_zip_thresholds P hk)
      have hchecked : a.checked P table key = some (found a.inputs.checkTime (table key)) :=
        checked_of_mem P hk
      rw [hchecked, Option.getD_some] at hrow
      rw [if_pos hk, hrow, Option.bind_some]
      refine .counted ?_
      have := hfree key hk
      rw [blocked, hchecked] at this
      simpa using this
    · rw [if_neg hk, hout key hk, checked_of_notMem P hk]
      exact .purged

/-! ## The bounds of a row -/

/-- A row between two logins: the count is below the threshold, the level at most 3, and a block runs
for at most half an hour from the last failure counted. -/
structure Sound (θ : ℕ) (r : NativeLoginThrottle) : Prop where
  count : r.failureCount < θ
  level : r.penaltyLevel ≤ 3
  block : ∀ b, r.blockedUntil = some b → b ≤ r.updatedAt + seconds 1800

theorem sound_initial {θ : ℕ} (hθ : 0 < θ) (t : ℕ) : Sound θ (initialThrottle t) :=
  ⟨hθ, Nat.zero_le 3, fun b hb => by cases hb⟩

theorem purged_eq_some {now : ℕ} {row : Option NativeLoginThrottle} {r : NativeLoginThrottle} :
    purged now row = some r ↔ row = some r ∧ now < r.updatedAt + staleAfter := by
  unfold purged
  rw [Option.filter_eq_some_iff]
  simp

theorem sound_purged {θ now : ℕ} {row : Option NativeLoginThrottle}
    (h : ∀ r, row = some r → Sound θ r) (r : NativeLoginThrottle) (hr : purged now row = some r) :
    Sound θ r :=
  h r (purged_eq_some.mp hr).1

theorem sound_found {θ : ℕ} (hθ : 0 < θ) {row : Option NativeLoginThrottle}
    (h : ∀ r, row = some r → Sound θ r) (now : ℕ) : Sound θ (found now row) := by
  unfold found
  rcases hr : purged now row with _ | r
  · exact sound_initial hθ now
  · exact sound_purged h r hr

theorem penaltyWait_pos (level : ℕ) : 300 ≤ penaltyWait level := by
  unfold penaltyWait
  split_ifs <;> omega

theorem sound_recordFailure {θ t : ℕ} (hθ : 0 < θ) {r : NativeLoginThrottle} (h : Sound θ r)
    (hfree : r.blockedAt t = false) : Sound θ (recordFailure θ t r) := by
  obtain ⟨count, window, -, ⟨hlt, hr⟩ | ⟨-, hr⟩⟩ := recordFailure_cases θ t r
  · rw [hr]
    refine ⟨hlt, h.level, fun b hb => ?_⟩
    have hb : r.blockedUntil = some b := hb
    have hended : ¬ t < b := by simpa [NativeLoginThrottle.blockedAt, hb] using hfree
    exact le_trans (by omega) (Nat.le_add_right t (seconds 1800))
  · rw [hr]
    refine ⟨hθ, min_le_right _ _, fun b hb => ?_⟩
    obtain rfl := Option.some.inj hb
    have := penaltyWait_le (min (r.penaltyLevel + 1) 3)
    simp only [seconds]
    omega

/-- The block a failure sets and the level it leaves. -/
theorem newBlock_cases (θ : ℕ) {t : ℕ} {r : NativeLoginThrottle} (hfree : r.blockedAt t = false) :
    ((recordFailure θ t r).blockedUntil.filter (t < ·) = none ∧
      (recordFailure θ t r).penaltyLevel = r.penaltyLevel) ∨
    ((recordFailure θ t r).blockedUntil.filter (t < ·) =
        some (t + seconds (penaltyWait (min (r.penaltyLevel + 1) 3))) ∧
      (recordFailure θ t r).penaltyLevel = min (r.penaltyLevel + 1) 3) := by
  obtain ⟨count, window, -, ⟨-, hr⟩ | ⟨-, hr⟩⟩ := recordFailure_cases θ t r
  · left
    rw [hr]
    refine ⟨?_, rfl⟩
    rcases hb : r.blockedUntil with _ | b
    · rfl
    · have hended : ¬ t < b := by simpa [NativeLoginThrottle.blockedAt, hb] using hfree
      simp [Option.filter, hended]
  · right
    rw [hr]
    refine ⟨?_, rfl⟩
    have hpos : t < t + seconds (penaltyWait (min (r.penaltyLevel + 1) 3)) := by
      have := penaltyWait_pos (min (r.penaltyLevel + 1) 3)
      simp only [seconds]
      omega
    simp only [Option.filter, hpos, decide_true, if_true]

theorem KeyMove.sound {θ : ℕ} (hθ : 0 < θ) {i : LoginInputs} {row row' : Option NativeLoginThrottle}
    {e : Option KeyEvent} (hm : KeyMove θ i row e row') (h : ∀ r, row = some r → Sound θ r) :
    ∀ r, row' = some r → Sound θ r := by
  intro r hr
  cases hm with
  | purged => exact sound_purged h r hr
  | locked =>
    obtain rfl := Option.some.inj hr
    exact sound_found hθ h i.checkTime
  | counted hfree =>
    obtain rfl := Option.some.inj hr
    exact sound_recordFailure hθ (sound_found hθ h i.checkTime) hfree
  | reset => cases hr

/-- **The rows of a history keep their bounds.** -/
theorem history_sound (key : ThrottleKey) (as : List Attempt) (table : Throttles)
    (h : ∀ r, table key = some r → Sound (threshold key) r) :
    ∀ r, history P table as key = some r → Sound (threshold key) r := by
  induction as generalizing table with
  | nil => exact h
  | cons a as ih =>
    have hstep := (attempt_move P key table a).sound (threshold_pos key) h
    exact ih (attempt P table a) hstep

/-! ## The log of a history -/

theorem history_append (as bs : List Attempt) (table : Throttles) :
    history P table (as ++ bs) = history P (history P table as) bs := by
  simp [history, List.foldl_append]

/-- Where the log splits, the history splits. -/
theorem keyLog_eq_append {key : ThrottleKey} {as : List Attempt} {table : Throttles}
    {l₁ l₂ : List KeyEvent} (h : keyLog P key table as = l₁ ++ l₂) :
    ∃ as₁ as₂, as = as₁ ++ as₂ ∧ keyLog P key table as₁ = l₁ ∧
      keyLog P key (history P table as₁) as₂ = l₂ := by
  induction as generalizing table l₁ with
  | nil =>
    obtain ⟨rfl, rfl⟩ := List.append_eq_nil_iff.mp h.symm
    exact ⟨[], [], rfl, rfl, rfl⟩
  | cons a as ih =>
    rcases l₁ with _ | ⟨e', l₁⟩
    · exact ⟨[], a :: as, rfl, rfl, h⟩
    rw [keyLog] at h
    rcases he : observe P key table a with _ | e
    · rw [he] at h
      obtain ⟨as₁, as₂, rfl, h₁, h₂⟩ := ih h
      exact ⟨a :: as₁, as₂, rfl, by rw [keyLog, he, h₁]; rfl, h₂⟩
    · rw [he] at h
      obtain ⟨rfl, hrest⟩ := List.cons.inj h
      obtain ⟨as₁, as₂, rfl, h₁, h₂⟩ := ih hrest
      exact ⟨a :: as₁, as₂, rfl, by rw [keyLog, he, h₁]; rfl, h₂⟩

/-- Where the log goes on, some login goes on with it, after others that the log does not show. -/
theorem keyLog_eq_cons {key : ThrottleKey} {as : List Attempt} {table : Throttles} {e : KeyEvent}
    {l : List KeyEvent} (h : keyLog P key table as = e :: l) :
    ∃ as₁ a as₂, as = as₁ ++ a :: as₂ ∧ keyLog P key table as₁ = [] ∧
      observe P key (history P table as₁) a = some e ∧
      keyLog P key (attempt P (history P table as₁) a) as₂ = l := by
  induction as generalizing table with
  | nil => cases h
  | cons a as ih =>
    rw [keyLog] at h
    rcases he : observe P key table a with _ | e'
    · rw [he] at h
      obtain ⟨as₁, b, as₂, rfl, h₁, h₂, h₃⟩ := ih h
      exact ⟨a :: as₁, b, as₂, rfl, by rw [keyLog, he, h₁]; rfl, h₂, h₃⟩
    · rw [he] at h
      obtain ⟨rfl, hrest⟩ := List.cons.inj h
      exact ⟨[], a, as, rfl, rfl, he, hrest⟩

/-- What a move that the log does not show preserves, logins that the log does not show preserve. -/
theorem quiet_inv {key : ThrottleKey} {I : ℕ → Option NativeLoginThrottle → Prop}
    (hstep : ∀ t i row row', t ≤ i.checkTime → i.checkTime ≤ i.issueTime → I t row →
      KeyMove (threshold key) i row none row' → I i.issueTime row') :
    ∀ {as : List Attempt} {t : ℕ} {table : Throttles}, Orderly t as →
      keyLog P key table as = [] → I t (table key) → I (clock t as) (history P table as key)
  | [], _, _, _, _, h => h
  | a :: as, t, table, ho, hlog, h => by
    obtain ⟨hnone, hrest⟩ := List.append_eq_nil_iff.mp hlog
    have hmove := attempt_move P key table a
    rw [Option.toList_eq_nil_iff.mp hnone] at hmove
    have hissue := ho.1.2.1.trans ho.1.2.2
    have ih : I (clock a.inputs.issueTime as) (history P (attempt P table a) as key) :=
      quiet_inv hstep ho.2 hrest (hstep t a.inputs _ _ ho.1.1 hissue h hmove)
    exact ih

/-- The login that the log shows next. -/
theorem next_move {key : ThrottleKey} {as : List Attempt} {t : ℕ} {table : Throttles}
    {e : KeyEvent} {l : List KeyEvent} (ho : Orderly t as)
    (hlog : keyLog P key table as = e :: l) :
    ∃ as₁ a as₂, Orderly t as₁ ∧ keyLog P key table as₁ = [] ∧
      clock t as₁ ≤ a.inputs.checkTime ∧ a.inputs.checkTime ≤ a.inputs.failureTime ∧
      Orderly a.inputs.issueTime as₂ ∧
      KeyMove (threshold key) a.inputs (history P table as₁ key) (some e)
        (attempt P (history P table as₁) a key) ∧
      keyLog P key (attempt P (history P table as₁) a) as₂ = l := by
  obtain ⟨as₁, a, as₂, rfl, hquiet, he, hrest⟩ := keyLog_eq_cons P hlog
  obtain ⟨ho₁, ⟨hcheck, hfail, -⟩, ho₂⟩ := orderly_append.mp ho
  have hmove := attempt_move P key (history P table as₁) a
  rw [he] at hmove
  exact ⟨as₁, a, as₂, ho₁, hquiet, hcheck, hfail, ho₂, hmove, hrest⟩

/-! ## The escalation -/

/-- The seconds of the block after `n` others. -/
def nthWait (n : ℕ) : ℕ := if n = 0 then 300 else if n = 1 then 900 else 1800

theorem penaltyWait_next (n : ℕ) : penaltyWait (min (min n 3 + 1) 3) = nthWait n := by
  unfold penaltyWait nthWait
  split_ifs <;> omega

/-- **A stretch of failures without a break**: successive ones are less than a day apart, and where
another failure came before the stretch, the first login of the stretch checked for blocks a day
after it or later. A reset breaks every stretch, since a stretch has failures only. -/
structure Unbroken (before : List KeyEvent) (stretch : List Failure) : Prop where
  dense : stretch.IsChain fun f g => g.time < f.time + staleAfter
  rested : ∀ f g, before.getLast? = some (.failure f) → stretch.head? = some g →
    f.time + staleAfter ≤ g.checkTime

/-- The blocks a stretch of failures has set. -/
def blocks (stretch : List Failure) : ℕ := stretch.countP (·.block.isSome)

/-- The row is purged by a check at `c`, or no block has been set since its insertion. -/
def Rested (c : ℕ) (row : Option NativeLoginThrottle) : Prop :=
  ∀ r, row = some r → r.updatedAt + staleAfter ≤ c ∨ r.penaltyLevel = 0

/-- The last failure was counted at `u` and left the level `ℓ`; a day later the row may be gone. -/
def Level (u ℓ t : ℕ) (row : Option NativeLoginThrottle) : Prop :=
  u + staleAfter ≤ t ∨ ∃ r, row = some r ∧ r.updatedAt = u ∧ r.penaltyLevel = ℓ

theorem rested_none (c : ℕ) : Rested c none := fun r hr => by cases hr

theorem Rested.found {c : ℕ} {row : Option NativeLoginThrottle} (h : Rested c row) :
    (found c row).penaltyLevel = 0 := by
  unfold ThrottleLaw.found
  rcases hr : purged c row with _ | r
  · rfl
  · obtain ⟨hrow, hfresh⟩ := purged_eq_some.mp hr
    rcases h r hrow with hold | hzero
    · omega
    · exact hzero

theorem Rested.quiet {c θ : ℕ} {i : LoginInputs} {row row' : Option NativeLoginThrottle}
    (h : Rested c row) (hm : KeyMove θ i row none row') : Rested c row' := by
  intro r hr
  cases hm with
  | purged => exact h r (purged_eq_some.mp hr).1
  | locked =>
    obtain rfl := Option.some.inj hr
    unfold ThrottleLaw.found
    rcases hp : ThrottleLaw.purged i.checkTime row with _ | r
    · exact Or.inr rfl
    · exact h r (purged_eq_some.mp hp).1

theorem Level.purged {u ℓ t now : ℕ} {row : Option NativeLoginThrottle} (h : Level u ℓ t row)
    (ht : t ≤ now) : u + staleAfter ≤ now ∨
      ∃ r, ThrottleLaw.purged now row = some r ∧ r.updatedAt = u ∧ r.penaltyLevel = ℓ := by
  rcases h with hold | ⟨r, rfl, rfl, rfl⟩
  · exact Or.inl (hold.trans ht)
  · by_cases hstale : r.updatedAt + staleAfter ≤ now
    · exact Or.inl hstale
    · exact Or.inr ⟨r, purged_eq_some.mpr ⟨rfl, by omega⟩, rfl, rfl⟩

theorem Level.quiet {u ℓ t θ : ℕ} {i : LoginInputs} {row row' : Option NativeLoginThrottle}
    (h : Level u ℓ t row) (ht : t ≤ i.checkTime) (hissue : i.checkTime ≤ i.issueTime)
    (hm : KeyMove θ i row none row') : Level u ℓ i.issueTime row' := by
  rcases h.purged ht with hold | ⟨r, hr, hu, hl⟩
  · exact Or.inl (hold.trans hissue)
  · cases hm with
    | purged => exact Or.inr ⟨r, hr, hu, hl⟩
    | locked => exact Or.inr ⟨found i.checkTime row, rfl, by simp [found, hr, hu, hl]⟩

/-- The level after a failure that was counted on a row of level `ℓ`. -/
def levelAfter (ℓ : ℕ) (f : Failure) : ℕ := if f.block.isSome then min (ℓ + 1) 3 else ℓ

theorem KeyMove.level {θ : ℕ} {i : LoginInputs} {row row' : Option NativeLoginThrottle}
    {f : Failure} (hm : KeyMove θ i row (some (.failure f)) row') :
    Level f.time (levelAfter (found i.checkTime row).penaltyLevel f) i.issueTime row' ∧
      ∀ b, f.block = some b → b = f.time +
        seconds (penaltyWait (min ((found i.checkTime row).penaltyLevel + 1) 3)) := by
  cases hm with
  | counted hfree =>
    have hu := recordFailure_updatedAt θ i.failureTime (found i.checkTime row)
    rcases newBlock_cases θ hfree with ⟨hb, hl⟩ | ⟨hb, hl⟩
    · refine ⟨Or.inr ⟨_, rfl, hu, ?_⟩, fun b h => ?_⟩
      · simp [levelAfter, hb, hl]
      · rw [hb] at h
        cases h
    · refine ⟨Or.inr ⟨_, rfl, hu, ?_⟩, fun b h => ?_⟩
      · simp [levelAfter, hb, hl]
      · exact (Option.some.inj (hb.symm.trans h)).symm

theorem KeyMove.times {θ : ℕ} {i : LoginInputs} {row row' : Option NativeLoginThrottle}
    {f : Failure} (hm : KeyMove θ i row (some (.failure f)) row') :
    f.checkTime = i.checkTime ∧ f.time = i.failureTime := by
  cases hm with
  | counted hfree => exact ⟨rfl, rfl⟩

/-- The first failure of a stretch finds a row without penalty. -/
theorem first_failure {key : ThrottleKey} {as : List Attempt} {t : ℕ} {table : Throttles}
    {f : Failure} {l : List KeyEvent} (ho : Orderly t as)
    (hrest : Rested f.checkTime (table key))
    (hlog : keyLog P key table as = .failure f :: l) :
    (∃ as' t' table', Orderly t' as' ∧ Level f.time (levelAfter 0 f) t' (table' key) ∧
      keyLog P key table' as' = l) ∧ ∀ b, f.block = some b → b = f.time + seconds (nthWait 0) := by
  obtain ⟨as₁, a, as₂, ho₁, hquiet, -, -, ho₂, hmove, hl⟩ := next_move P ho hlog
  have hrow : Rested f.checkTime (history P table as₁ key) :=
    quiet_inv P (I := fun _ row => Rested f.checkTime row)
      (fun _ _ _ _ _ _ h hm => h.quiet hm) ho₁ hquiet hrest
  rw [hmove.times.1] at hrow
  obtain ⟨hlevel, hblock⟩ := hmove.level
  rw [hrow.found] at hlevel hblock
  exact ⟨⟨as₂, _, _, ho₂, hlevel, hl⟩, hblock⟩

/-- A failure less than a day after another one finds the level that one left. -/
theorem next_failure {key : ThrottleKey} {as : List Attempt} {t u ℓ : ℕ} {table : Throttles}
    {f : Failure} {l : List KeyEvent} (ho : Orderly t as) (hlevel : Level u ℓ t (table key))
    (hsoon : f.time < u + staleAfter) (hlog : keyLog P key table as = .failure f :: l) :
    (∃ as' t' table', Orderly t' as' ∧ Level f.time (levelAfter ℓ f) t' (table' key) ∧
      keyLog P key table' as' = l) ∧
    ∀ b, f.block = some b → b = f.time + seconds (penaltyWait (min (ℓ + 1) 3)) := by
  obtain ⟨as₁, a, as₂, ho₁, hquiet, hcheck, hfail, ho₂, hmove, hl⟩ := next_move P ho hlog
  have hrow : Level u ℓ (clock t as₁) (history P table as₁ key) :=
    quiet_inv P (fun _ _ _ _ ht hissue h hm => h.quiet ht hissue hm) ho₁ hquiet hlevel
  have hfound : (found a.inputs.checkTime (history P table as₁ key)).penaltyLevel = ℓ := by
    rcases hrow.purged hcheck with hold | ⟨r, hr, -, hℓ⟩
    · rw [hmove.times.2] at hsoon
      omega
    · rw [found, hr]
      exact hℓ
  obtain ⟨hafter, hblock⟩ := hmove.level
  rw [hfound] at hafter hblock
  exact ⟨⟨as₂, _, _, ho₂, hafter, hl⟩, hblock⟩

theorem foldl_levelAfter (stretch : List Failure) {ℓ : ℕ} (h : ℓ ≤ 3) :
    stretch.foldl levelAfter ℓ = min (ℓ + blocks stretch) 3 := by
  induction stretch generalizing ℓ with
  | nil => simp [blocks, h]
  | cons f stretch ih =>
    have hnext : levelAfter ℓ f ≤ 3 := by
      unfold levelAfter
      split_ifs <;> omega
    rw [List.foldl_cons, ih hnext, blocks, blocks, List.countP_cons, levelAfter]
    split_ifs <;> omega

/-- **The climb**: along a stretch, each block raises the level that the next one starts from. -/
theorem climb {key : ThrottleKey} {f : Failure} {l : List KeyEvent} :
    ∀ {stretch : List Failure} {as : List Attempt} {t ℓ : ℕ} {g : Failure} {table : Throttles},
      Orderly t as → Level g.time ℓ t (table key) →
      (g :: (stretch ++ [f])).IsChain (fun f g => g.time < f.time + staleAfter) →
      keyLog P key table as = (stretch ++ [f]).map .failure ++ l → ∀ b, f.block = some b →
        b = f.time + seconds (penaltyWait (min (stretch.foldl levelAfter ℓ + 1) 3))
  | [], as, t, ℓ, g, table, ho, hlevel, hchain, hlog, b, hb => by
    have hsoon := (List.isChain_cons_cons.mp hchain).1
    exact (next_failure P ho hlevel hsoon hlog).2 b hb
  | h :: stretch, as, t, ℓ, g, table, ho, hlevel, hchain, hlog, b, hb => by
    obtain ⟨hsoon, hrest⟩ := List.isChain_cons_cons.mp hchain
    obtain ⟨⟨as', t', table', ho', hlevel', hlog'⟩, -⟩ := next_failure P ho hlevel hsoon hlog
    exact climb ho' hlevel' hrest hlog' b hb

/-- What the last login that the log shows leaves: no row, or one that a check a day later purges. -/
theorem KeyMove.rested {θ c : ℕ} {i : LoginInputs} {row row' : Option NativeLoginThrottle}
    {e : KeyEvent} (hm : KeyMove θ i row (some e) row')
    (h : ∀ f, e = .failure f → f.time + staleAfter ≤ c) : Rested c row' := by
  cases hm with
  | counted hfree =>
    intro r hr
    obtain rfl := Option.some.inj hr
    rw [recordFailure_updatedAt]
    exact Or.inl (h _ rfl)
  | reset => exact rested_none c

theorem rested_after {key : ThrottleKey} {as : List Attempt} (ho : Orderly 0 as) {c : ℕ}
    (h : ∀ f, (keyLog P key (fun _ => none) as).getLast? = some (.failure f) →
      f.time + staleAfter ≤ c) : Rested c (history P (fun _ => none) as key) := by
  have hkeep {as : List Attempt} {t : ℕ} {table : Throttles} (ho : Orderly t as)
      (hlog : keyLog P key table as = []) (hrow : Rested c (table key)) :
      Rested c (history P table as key) :=
    quiet_inv P (I := fun _ row => Rested c row) (fun _ _ _ _ _ _ h hm => h.quiet hm) ho hlog hrow
  rcases List.eq_nil_or_concat (keyLog P key (fun _ => none) as) with hlog | ⟨init, e, hlog⟩
  · exact hkeep ho hlog (rested_none c)
  · rw [List.concat_eq_append] at hlog
    obtain ⟨as₁, as₂, rfl, -, hlast⟩ := keyLog_eq_append P hlog
    obtain ⟨-, ho₂⟩ := orderly_append.mp ho
    obtain ⟨as₃, a, as₄, rfl, hquiet, he, hrest⟩ := keyLog_eq_cons P hlast
    obtain ⟨-, -, ho₄⟩ := orderly_append.mp ho₂
    have hmove := attempt_move P key (history P (history P (fun _ => none) as₁) as₃) a
    rw [he] at hmove
    have hrow := hmove.rested fun f hf => h f (by rw [hlog, List.getLast?_concat, hf])
    have hend : Rested c
        (history P (attempt P (history P (history P (fun _ => none) as₁) as₃) a) as₄ key) :=
      hkeep ho₄ hrest hrow
    rw [history_append, history_append]
    exact hend

/-- **The escalation**: the block after `n` others of an unbroken stretch lasts 300 seconds, 900, and
then always 1800. -/
theorem escalation {key : ThrottleKey} {as : List Attempt} (ho : Orderly 0 as)
    {before after : List KeyEvent} {stretch : List Failure} {f : Failure} {b : ℕ}
    (hlog : keyLog P key (fun _ => none) as =
      before ++ ((stretch ++ [f]).map .failure ++ after))
    (hs : Unbroken before (stretch ++ [f])) (hb : f.block = some b) :
    b = f.time + seconds (nthWait (blocks stretch)) := by
  obtain ⟨as₁, as₂, rfl, hbefore, hrest⟩ := keyLog_eq_append P hlog
  obtain ⟨ho₁, ho₂⟩ := orderly_append.mp ho
  rcases stretch with _ | ⟨g, stretch⟩
  · have hrow : Rested f.checkTime (history P (fun _ => none) as₁ key) :=
      rested_after P ho₁ fun e he => hs.rested e f (by rw [← hbefore, he]) rfl
    exact (first_failure P ho₂ hrow hrest).2 b hb
  · have hrow : Rested g.checkTime (history P (fun _ => none) as₁ key) :=
      rested_after P ho₁ fun e he => hs.rested e g (by rw [← hbefore, he]) rfl
    obtain ⟨⟨as', t', table', ho', hlevel, hlog'⟩, -⟩ := first_failure P ho₂ hrow hrest
    have hblock := climb P ho' hlevel hs.dense hlog' b hb
    have hcount : stretch.foldl levelAfter (levelAfter 0 g) = min (0 + blocks (g :: stretch)) 3 :=
      foldl_levelAfter (g :: stretch) (Nat.zero_le 3)
    rw [hcount, Nat.zero_add, penaltyWait_next] at hblock
    exact hblock

/-! ## The failures of ten minutes -/

/-- Is the event a failure counted in the ten minutes from `a`? -/
def countsIn (a : ℕ) : KeyEvent → Bool
  | .failure f => a ≤ f.time && f.time < a + minutes 10
  | .reset _ => false

/-- **The count of a row**: `n` failures were counted in the ten minutes from `a`, with no block, one
block or two blocks set there. A window that began before `a` ends there at most once; the second
block outlasts the ten minutes. -/
def Within (θ a n : ℕ) (r : NativeLoginThrottle) : Prop :=
  (n ≤ (θ - 1) + r.failureCount ∧ (r.windowStartedAt < a → n ≤ r.failureCount)) ∨
  (1 ≤ r.penaltyLevel ∧ (∃ b, r.blockedUntil = some b ∧ a + seconds 300 ≤ b) ∧
    n ≤ (2 * θ - 1) + r.failureCount ∧ (r.windowStartedAt < a → n ≤ θ + r.failureCount)) ∨
  (n ≤ 3 * θ - 1 ∧ ∃ b, r.blockedUntil = some b ∧ a + minutes 10 ≤ b)

/-- The row at the time `t` in or before the ten minutes from `a`. -/
structure Tally (θ a n t : ℕ) (row : Option NativeLoginThrottle) : Prop where
  early : t < a → n = 0
  absent : row = none → n = 0
  present : ∀ r, row = some r → (0 < n → a ≤ r.updatedAt) ∧ Within θ a n r

theorem within_zero (θ a : ℕ) (r : NativeLoginThrottle) : Within θ a 0 r :=
  Or.inl ⟨Nat.zero_le _, fun _ => Nat.zero_le _⟩

theorem Within.le {θ a n : ℕ} {r : NativeLoginThrottle} (h : Within θ a n r) (hr : Sound θ r) :
    n ≤ 3 * θ - 1 := by
  have := hr.count
  rcases h with ⟨h, -⟩ | ⟨-, -, h, -⟩ | ⟨h, -⟩ <;> omega

/-- One more failure, counted at `t` in the ten minutes. -/
theorem Within.count {θ a n t : ℕ} {r : NativeLoginThrottle} (h : Within θ a n r)
    (hr : Sound θ r) (hfree : r.blockedAt t = false) (ha : a ≤ t) (hend : t < a + minutes 10) :
    Within θ a (n + 1) (recordFailure θ t r) := by
  have hc := hr.count
  have hunblocked : ∀ b, r.blockedUntil = some b → b ≤ t := by
    intro b hb
    simpa [NativeLoginThrottle.blockedAt, hb] using hfree
  obtain ⟨count, window, hwindow, ⟨hlt, hr'⟩ | ⟨hle, hr'⟩⟩ := recordFailure_cases θ t r
  · rw [hr']
    rcases h with ⟨hn, hold⟩ | ⟨hl, hb, hn, hold⟩ | ⟨-, b, hb, hlate⟩
    · left
      show n + 1 ≤ (θ - 1) + count ∧ (window < a → n + 1 ≤ count)
      omega
    · right; left
      refine ⟨hl, hb, ?_⟩
      show n + 1 ≤ (2 * θ - 1) + count ∧ (window < a → n + 1 ≤ θ + count)
      omega
    · have := hunblocked b hb
      omega
  · have hwait := penaltyWait_pos (min (r.penaltyLevel + 1) 3)
    rw [hr']
    rcases h with ⟨hn, hold⟩ | ⟨hl, ⟨b, hb, hfirst⟩, hn, hold⟩ | ⟨-, b, hb, hlate⟩
    · right; left
      refine ⟨by show 1 ≤ min (r.penaltyLevel + 1) 3; omega, ⟨_, rfl, ?_⟩, ?_⟩
      · simp only [seconds]
        omega
      · show n + 1 ≤ (2 * θ - 1) + 0 ∧ (window < a → n + 1 ≤ θ + 0)
        omega
    · right; right
      have hlong : 900 ≤ penaltyWait (min (r.penaltyLevel + 1) 3) := by
        unfold penaltyWait
        split_ifs <;> omega
      have := hunblocked b hb
      refine ⟨by omega, _, rfl, ?_⟩
      simp only [seconds, minutes] at hfirst ⊢
      omega
    · have := hunblocked b hb
      omega

/-- A purge leaves no row only where nothing was counted in the ten minutes. -/
theorem Tally.purged {θ a n t now : ℕ} {row : Option NativeLoginThrottle} (h : Tally θ a n t row)
    (hend : now < a + minutes 10) (hnone : ThrottleLaw.purged now row = none) : n = 0 := by
  rcases row with _ | r
  · exact h.absent rfl
  · obtain ⟨hlate, -⟩ := h.present r rfl
    by_contra hn
    have hold : ¬ now < r.updatedAt + staleAfter := by
      intro hlt
      have := purged_eq_some.mpr ⟨rfl, hlt⟩
      rw [hnone] at this
      cases this
    have := hlate (Nat.pos_of_ne_zero hn)
    simp only [staleAfter, seconds, minutes] at hold hend
    omega

theorem Tally.found {θ a n t now : ℕ} {row : Option NativeLoginThrottle} (h : Tally θ a n t row)
    (hend : now < a + minutes 10) :
    (0 < n → a ≤ (ThrottleLaw.found now row).updatedAt) ∧
      Within θ a n (ThrottleLaw.found now row) := by
  unfold ThrottleLaw.found
  rcases hp : ThrottleLaw.purged now row with _ | r
  · obtain rfl := h.purged hend hp
    exact ⟨fun hn => absurd hn (Nat.lt_irrefl 0), within_zero θ a _⟩
  · exact h.present r (purged_eq_some.mp hp).1

/-- A login that the log does not show. -/
theorem Tally.quiet {θ a n t : ℕ} {i : LoginInputs} {row row' : Option NativeLoginThrottle}
    (h : Tally θ a n t row) (ht : t ≤ i.issueTime) (hend : i.checkTime < a + minutes 10)
    (hm : KeyMove θ i row none row') : Tally θ a n i.issueTime row' := by
  have hearly : i.issueTime < a → n = 0 := fun hlt => h.early (by omega)
  cases hm with
  | purged => exact ⟨hearly, h.purged hend, fun r hr => h.present r (purged_eq_some.mp hr).1⟩
  | locked =>
    refine ⟨hearly, fun hr => absurd hr (Option.some_ne_none _), fun r hr => ?_⟩
    obtain rfl := Option.some.inj hr
    exact h.found hend

/-- A failure counted before the ten minutes are over. -/
theorem Tally.failure {θ a n t : ℕ} (hθ : 0 < θ) {i : LoginInputs}
    {row row' : Option NativeLoginThrottle} {f : Failure} (h : Tally θ a n t row)
    (hsound : ∀ r, row = some r → Sound θ r) (ht : t ≤ i.checkTime)
    (hi : i.checkTime ≤ i.failureTime ∧ i.failureTime ≤ i.issueTime)
    (hend : f.time < a + minutes 10) (hm : KeyMove θ i row (some (.failure f)) row') :
    Tally θ a (n + if a ≤ f.time then 1 else 0) i.issueTime row' := by
  cases hm with
  | counted hfree =>
    have hend : i.failureTime < a + minutes 10 := hend
    obtain ⟨hlate, hwithin⟩ := h.found (lt_of_le_of_lt hi.1 hend)
    show Tally θ a (n + if a ≤ i.failureTime then 1 else 0) i.issueTime _
    by_cases ha : a ≤ i.failureTime
    · rw [if_pos ha]
      refine ⟨fun hlt => by omega, fun hr => absurd hr (Option.some_ne_none _), fun r hr => ?_⟩
      obtain rfl := Option.some.inj hr
      rw [recordFailure_updatedAt]
      exact ⟨fun _ => ha, hwithin.count (sound_found hθ hsound i.checkTime) hfree ha hend⟩
    · obtain rfl : n = 0 := h.early (by omega)
      rw [if_neg ha]
      exact ⟨fun _ => rfl, fun _ => rfl, fun r _ =>
        ⟨fun hn => absurd hn (Nat.lt_irrefl 0), within_zero θ a r⟩⟩

/-- **The failures of ten minutes**: with no reset there, at most `3 * θ - 1`. -/
theorem window_le {key : ThrottleKey} {a : ℕ} {as : List Attempt} {t n : ℕ} {table : Throttles}
    (ho : Orderly t as) (hsound : ∀ r, table key = some r → Sound (threshold key) r)
    (htally : t < a + minutes 10 → Tally (threshold key) a n t (table key))
    (hn : n ≤ 3 * threshold key - 1)
    (hreset : ∀ s, .reset s ∈ keyLog P key table as → ¬ (a ≤ s ∧ s < a + minutes 10)) :
    n + (keyLog P key table as).countP (countsIn a) ≤ 3 * threshold key - 1 := by
  induction as generalizing t n table with
  | nil => simpa [keyLog] using hn
  | cons x as ih =>
    obtain ⟨⟨ht, hi⟩, ho⟩ := ho
    have hmove := attempt_move P key table x
    have hsound' := hmove.sound (threshold_pos key) hsound
    have hfewer : ∀ s, .reset s ∈ keyLog P key (attempt P table x) as →
        ¬ (a ≤ s ∧ s < a + minutes 10) :=
      fun s hs => hreset s (List.mem_append_right _ hs)
    rw [keyLog, List.countP_append]
    rcases he : observe P key table x with _ | ⟨f⟩ | s
    · rw [he] at hmove
      have hrest := ih ho hsound'
        (fun hend => (htally (by omega)).quiet (by omega) (by omega) hmove) hn hfewer
      simpa using hrest
    · rw [he] at hmove
      obtain ⟨-, htime⟩ := hmove.times
      have hnext : f.time < a + minutes 10 →
          Tally (threshold key) a (n + if a ≤ f.time then 1 else 0) x.inputs.issueTime
            (attempt P table x key) := fun hend =>
        (htally (by omega)).failure (threshold_pos key) hsound ht hi hend hmove
      by_cases hin : a ≤ f.time ∧ f.time < a + minutes 10
      · have htally' := hnext hin.2
        rw [if_pos hin.1] at htally'
        have hle : n + 1 ≤ 3 * threshold key - 1 := by
          rcases hr : attempt P table x key with _ | r
          · have := htally'.absent hr
            omega
          · exact (htally'.present r hr).2.le (hsound' r hr)
        have hrest := ih ho hsound' (fun _ => htally') hle hfewer
        have hone : [KeyEvent.failure f].countP (countsIn a) = 1 := by simp [countsIn, hin]
        rw [Option.toList_some, hone]
        omega
      · have hrest := ih ho hsound' (n := n) (fun hend => ?_) hn hfewer
        · have hnone : [KeyEvent.failure f].countP (countsIn a) = 0 := by
            simp [countsIn, hin]
          rw [Option.toList_some, hnone]
          omega
        · have hlt : f.time < a + minutes 10 := by omega
          have htally' := hnext hlt
          rw [if_neg fun ha => hin ⟨ha, hlt⟩] at htally'
          exact htally'
    · rw [he] at hmove
      have hrow : attempt P table x key = none ∧ s = x.inputs.issueTime := by
        generalize attempt P table x key = row' at hmove
        cases hmove with
        | reset => exact ⟨rfl, rfl⟩
      have hout := hreset s (by rw [keyLog, he]; exact List.mem_cons_self)
      have hrest := ih ho hsound' (fun hend => ?_) hn hfewer
      · simpa [countsIn] using hrest
      · have hzero : n = 0 := (htally (by omega)).early (by omega)
        rw [hrow.1]
        exact ⟨fun _ => hzero, fun _ => hzero, fun r hr => by cases hr⟩

/-! ## The law -/

/-- `(300, 900, 1800)`. -/
def penaltyWaits : List ℕ := [300, 900, 1800]

/-- **The law of one key** after a history that began with an empty table. -/
structure Law (as : List Attempt) (key : ThrottleKey) : Prop where
  below : ∀ row, history P (fun _ => none) as key = some row →
    row.failureCount < threshold key ∧ row.penaltyLevel ≤ 3
  indexed : ∀ a b, key ∈ a.keys P → a.counts P (history P (fun _ => none) as) = true →
    runningBlock (attempt P (history P (fun _ => none) as) a) key a.inputs.failureTime = some b →
    ∃ row wait, attempt P (history P (fun _ => none) as) a key = some row ∧
      1 ≤ row.penaltyLevel ∧ penaltyWaits[row.penaltyLevel - 1]? = some wait ∧
      b = a.inputs.failureTime + seconds wait
  escalates : ∀ before stretch f after b,
    keyLog P key (fun _ => none) as = before ++ ((stretch ++ [f]).map .failure ++ after) →
    Unbroken before (stretch ++ [f]) → f.block = some b →
    b = f.time + seconds (nthWait (blocks stretch))
  unblocked : ∀ a, Orderly 0 (as ++ [a]) → a.counts P (history P (fun _ => none) as) = true →
    ∀ k ∈ a.keys P, blocked (history P (fun _ => none) as) a.inputs.failureTime k = false
  spared : ∀ now, blocked (history P (fun _ => none) as) now key = true →
    purgeThrottles now (history P (fun _ => none) as) key = history P (fun _ => none) as key
  window : ∀ a, (∀ s, .reset s ∈ keyLog P key (fun _ => none) as →
      ¬ (a ≤ s ∧ s < a + minutes 10)) →
    (keyLog P key (fun _ => none) as).countP (countsIn a) ≤ 3 * threshold key - 1

theorem penaltyWaits_get {level : ℕ} (h : 1 ≤ level) (h' : level ≤ 3) :
    penaltyWaits[level - 1]? = some (penaltyWait level) := by
  obtain rfl | rfl | rfl : level = 1 ∨ level = 2 ∨ level = 3 := by omega
  all_goals rfl

/-- The row of a key that is blocked at `t` stays through every purge before. -/
theorem purged_of_blocked {θ now t : ℕ} {row : Option NativeLoginThrottle}
    (h : ∀ r, row = some r → Sound θ r) (ht : now ≤ t)
    (hb : row.any (·.blockedAt t) = true) : purged now row = row := by
  obtain ⟨r, rfl, hr⟩ := (Option.any_eq_true _ _).mp hb
  obtain ⟨b, hend, hlt⟩ := (Option.any_eq_true _ _).mp hr
  have hbound := (h r rfl).block b hend
  have hlt : t < b := of_decide_eq_true hlt
  refine purged_eq_some.mpr ⟨rfl, ?_⟩
  simp only [staleAfter, seconds] at hbound ⊢
  omega

/-- A block that a failure sets lasts as long as the wait of the level it leaves. -/
theorem KeyMove.indexed {θ : ℕ} {i : LoginInputs} {row row' : Option NativeLoginThrottle}
    {f : Failure} {b : ℕ} (hm : KeyMove θ i row (some (.failure f)) row') (hb : f.block = some b) :
    ∃ r wait, row' = some r ∧ 1 ≤ r.penaltyLevel ∧
      penaltyWaits[r.penaltyLevel - 1]? = some wait ∧ b = f.time + seconds wait := by
  cases hm with
  | counted hfree =>
    rcases newBlock_cases θ hfree with ⟨hnone, -⟩ | ⟨hnew, hl⟩
    · exact absurd (hnone.symm.trans hb) nofun
    · have hpos : 1 ≤ min ((found i.checkTime row).penaltyLevel + 1) 3 := by omega
      refine ⟨_, _, rfl, by rw [hl]; exact hpos, ?_, Option.some.inj (hb.symm.trans hnew)⟩
      rw [hl]
      exact penaltyWaits_get hpos (min_le_right _ _)

theorem no_rows (key : ThrottleKey) (r : NativeLoginThrottle)
    (hr : (fun _ => none : Throttles) key = some r) : Sound (threshold key) r := by
  cases hr

/-- **The law of the serial throttle**: for every history of logins with a clock that does not go
back, and for every key. -/
theorem throttle_law (as : List Attempt) (ho : Orderly 0 as) (key : ThrottleKey) :
    Law P as key where
  below row hrow := by
    have h := history_sound P key as _ (no_rows key) row hrow
    exact ⟨h.count, h.level⟩
  indexed a b hk hcount hb := by
    have hmove := attempt_move P key (history P (fun _ => none) as) a
    rw [observe, if_pos ⟨hk, hcount⟩, hb] at hmove
    exact hmove.indexed rfl
  escalates before stretch f after b hlog hs hb := escalation P ho hlog hs hb
  unblocked a hoa hcount k hk := by
    have hi := (orderly_append.mp hoa).2.1.2.1
    have hsound := history_sound P k as (fun _ => none) (no_rows k)
    rcases login_cases P a (history P (fun _ => none) as) with ⟨-, h, -⟩ | ⟨-, h, -⟩ |
      ⟨-, -, -, hfree⟩
    · rw [h] at hcount
      cases hcount
    · rw [h] at hcount
      cases hcount
    · refine Bool.eq_false_iff.mpr fun hb => ?_
      have hkept := purged_of_blocked hsound hi hb
      have hchecked := hfree k hk
      rw [Attempt.checked, blockCheck, blocked_lockThrottles] at hchecked
      have hb' : blocked (purgeThrottles a.inputs.checkTime (history P (fun _ => none) as))
          a.inputs.failureTime k = true := by
        rw [← hb]
        exact congrArg (Option.any (·.blockedAt a.inputs.failureTime)) hkept
      rw [hchecked] at hb'
      cases hb'
  spared now hb := purged_of_blocked (history_sound P key as _ (no_rows key)) le_rfl hb
  window a hreset := by
    have h := window_le P ho (no_rows key) (n := 0) (a := a)
      (fun _ => ⟨fun _ => rfl, fun _ => rfl, fun r hr => by cases hr⟩) (Nat.zero_le _) hreset
    rwa [Nat.zero_add] at h

/-- The `n`-th of failed logins a second apart, at an account that does not exist. -/
def sampleFailure (n : ℕ) : Attempt where
  users := Table.empty
  sessions := Table.empty
  body := sampleBody
  sourceIp := "192.0.2.1"
  inputs := ⟨seconds n, seconds n, seconds n, seconds n, "session", "secret"⟩

/-- Five of them block the account at this source. -/
def sampleFailures : List Attempt := (List.range 5).map sampleFailure

theorem throttle_law_sample :
    Law Primitives.sample sampleFailures (.accountSource "alice" "192.0.2.1") :=
  throttle_law Primitives.sample sampleFailures
    (by simp [sampleFailures, List.range_succ, Orderly, sampleFailure, seconds]) _

example : (keyLog Primitives.sample (.accountSource "alice" "192.0.2.1") (fun _ => none)
    sampleFailures).getLast? = some (.failure ⟨seconds 4, seconds 4, some (seconds 304)⟩) := by
  decide +kernel

end IdenGrid.Control.ThrottleLaw
