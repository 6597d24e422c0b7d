import IdenGrid.Control.Logins

/-! # The login throttle under interleaving

The block check of a login and its success are separate transactions, and the success deletes two
throttle rows without looking at them. So a block that another attempt sets in between does not stop
the login, and the login removes it. `Sound` is what every move should do to the throttle table,
`undisturbed` the condition under which it does (`throttle_sound_iff`).

The invariant is about the ends of blocks: a key of an attempt past its block check is blocked only
until a time that had passed at the check, or by one of the blocks set since (`Explained`). -/

namespace IdenGrid.Control.Lockout

open IdenGrid.Lib.Run IdenGrid.Lib.Requests IdenGrid.Lib.Store
open IdenGrid.Control.Rows IdenGrid.Control.Sessions IdenGrid.Control.Throttle
open IdenGrid.Control.Serial IdenGrid.Control.Logins

/-- The blocks set since the block check of an attempt. -/
def recentBlocks (s : Shared) (a : Attempt) : List (ThrottleKey × ℕ) :=
  s.blocks.take (s.blocks.length - a.blocksSeen)

variable (P : Primitives)

/-- What keeps a move sound.

* A login does not go through, as its new session's identifier is taken; or no block set on one of
  its keys since its block check still stands and runs, and none that had ended at the check runs,
  as one may if the clock was set back.
* The bookkeeping of a failed login finds a block, or the audit record can be written. -/
def undisturbed (s : Shared) : Stage → Move → Bool
  | .loginLocked a _ user, .loginCommit i =>
    collides a.body i user s.db ||
      ((recentBlocks s a).all fun b =>
          b.1 ∉ a.keys P || blockEnd s.db.throttles b.1 != some b.2 || b.2 ≤ i.issueTime) &&
        (a.keys P).all fun key => (blockEnd s.db.throttles key).all fun b =>
          a.checkTime < b || b ≤ i.issueTime
  | .loginFailed a, .loginBookFailure t =>
    ((a.keys P).any fun key => blocked s.db.throttles t key) || !P.auditRaises a.body.username
  | _, _ => true

/-- What a move may do to the throttle table.

* a block check removes no running block;
* a login that succeeds at `t` has no key blocked at `t`, and removes no block running at `t`;
* a failure that finds no running block on its keys is counted once on each of them, on no other
  key, and its request is over. -/
def Sound (s s' : Shared) (m' : Stage) : Stage → Move → Prop
  | .idle, .loginCheck _ _ now =>
    ∀ key, blocked s.db.throttles now key = true → blocked s'.db.throttles now key = true
  | .loginLocked a _ user, .loginCommit i =>
    (∃ access refresh,
      (loginFinal P a.body a.sourceIp i user s.db).2 = .tokens access refresh) →
    (∀ key ∈ a.keys P, blocked s.db.throttles i.issueTime key = false) ∧
      ∀ key, blocked s.db.throttles i.issueTime key = true →
        blocked s'.db.throttles i.issueTime key = true
  | .loginFailed a, .loginBookFailure t =>
    (∀ key ∈ a.keys P, blocked s.db.throttles t key = false) →
      (∀ p ∈ (a.keys P).zip throttleThresholds, ∃ row, s'.db.throttles p.1 = some row ∧
        CountedOnce p.2 t ((s.db.throttles p.1).getD ⟨0, 0, t, none, t⟩) row) ∧
      (∀ key, key ∉ a.keys P → s'.db.throttles key = s.db.throttles key) ∧ m' = .done
  | _, _ => True

variable {P}

/-! ## What one move does to the throttle table -/

/-- A move leaves the table alone, checks, books a failure, or clears. -/
inductive TableMove (P : Primitives) (s s' : Shared) : Prop
  | same (hth : s'.db.throttles = s.db.throttles) (hblocks : s'.blocks = s.blocks)
  | check {keys : List ThrottleKey} {now : ℕ}
      (hth : s'.db.throttles = (blockCheck keys now s.db.throttles).1)
      (hblocks : s'.blocks = s.blocks)
  | book {a : Attempt} {t : ℕ} (hs : s' = loginBookFailure P s a t)
  | clear {keys : List ThrottleKey} (hth : s'.db.throttles = clearThrottles keys s.db.throttles)
      (hblocks : s'.blocks = s.blocks)

theorem act_tableMove {s s' : Shared} {r : ℕ} {m m' : Stage} {a : Move}
    (h : act P r s m a = some (s', m')) : TableMove P s s' := by
  unfold act at h
  split at h
  · obtain ⟨rfl, -⟩ := by simpa using h
    exact .check rfl rfl
  · obtain ⟨rfl, -⟩ := by simpa using h
    exact .same rfl rfl
  · split at h <;> obtain ⟨rfl, -⟩ := by simpa using h
    · exact .same rfl rfl
    · exact .same rfl rfl
  · obtain ⟨rfl, -⟩ := by simpa using h
    exact .book rfl
  · split_ifs at h
    split at h <;> obtain ⟨rfl, -⟩ := by simpa using h
    · exact .same rfl rfl
    · exact .same rfl rfl
  · -- loginCommit
    next x seen user i =>
    obtain ⟨rfl, -⟩ := by simpa using h
    rcases loginFinal_spec P x.body x.sourceIp i user s.db with hf | ⟨d, -, -, -, -, hth, -⟩
    · exact .same (by simp only [loginCommit, hf]) rfl
    · exact .clear hth rfl
  · split at h <;> obtain ⟨rfl, -⟩ := by simpa using h
    · exact .same rfl rfl
    · exact .same rfl rfl
  · split_ifs at h
    obtain ⟨rfl, -⟩ := by simpa using h
    exact .same rfl rfl
  · obtain ⟨rfl, -⟩ := by simpa using h
    exact .same rfl rfl
  · cases h

/-- A move records the blocks it sets, and sets no other. -/
theorem TableMove.blocks {s s' : Shared} (h : TableMove P s s') :
    ∃ new, s'.blocks = new ++ s.blocks ∧ ∀ key b, blockEnd s'.db.throttles key = some b →
      blockEnd s.db.throttles key = some b ∨ (key, b) ∈ new := by
  cases h with
  | same hth hblocks => exact ⟨[], hblocks, fun key b hk => Or.inl (hth ▸ hk)⟩
  | check hth hblocks =>
    refine ⟨[], hblocks, fun key b hk => Or.inl ?_⟩
    simp only [hth, blockCheck, blockEnd_lockThrottles] at hk
    exact blockEnd_purgeThrottles hk
  | clear hth hblocks =>
    exact ⟨[], hblocks, fun key b hk => Or.inl (blockEnd_clearThrottles (hth ▸ hk))⟩
  | @book a t hs =>
    subst hs
    rcases bookFailure_cases P a.body.username (a.keys P) t s.db.throttles with
      ⟨n, hb⟩ | hb | ⟨-, hth, hans⟩
    · refine ⟨[], by simp only [loginBookFailure, hb]; rfl, fun key b hk => Or.inl ?_⟩
      simpa only [loginBookFailure, hb, blockEnd_lockThrottles] using hk
    · refine ⟨[], by simp only [loginBookFailure, hb]; rfl, fun key b hk => Or.inl ?_⟩
      simpa only [loginBookFailure, hb] using hk
    · refine ⟨newBlocks t ((a.keys P).zip throttleThresholds) s.db.throttles, ?_,
        fun key b hk => ?_⟩
      · rcases hans with ⟨n, hans⟩ | hans <;> simp only [loginBookFailure, hans]
      · simp only [loginBookFailure, hth] at hk
        exact blockEnd_recordFailures hk

/-- Rows of the new table are old ones, initial ones, or have just counted a failure. -/
theorem TableMove.bounded {s s' : Shared} (h : TableMove P s s') (hI : Bounded s.db.throttles) :
    Bounded s'.db.throttles := by
  cases h with
  | same hth => rw [hth]; exact hI
  | check hth => rw [hth]; exact (hI.purgeThrottles _).lockThrottles _ _
  | clear hth => rw [hth]; exact hI.clearThrottles _
  | @book a t hs =>
    subst hs
    rcases bookFailure_cases P a.body.username (a.keys P) t s.db.throttles with
      ⟨n, hb⟩ | hb | ⟨hfree, hth, -⟩
    · simp only [loginBookFailure, hb]
      exact hI.lockThrottles _ _
    · simp only [loginBookFailure, hb]
      exact hI
    · simp only [loginBookFailure, hth]
      exact hI.recordFailures hfree

/-! ## Assertions and invariant -/

/-- The attempt of a login past its block check. -/
def attempt? : Stage → Option Attempt
  | .loginChecked a => some a
  | .loginRead a _ => some a
  | .loginFailed a => some a
  | .loginVerified a _ => some a
  | .loginLocked a _ _ => some a
  | _ => none

/-- Blocks on the keys of an attempt had ended at its block check, or were set since. -/
def Explained (P : Primitives) (s : Shared) (a : Attempt) : Prop :=
  a.blocksSeen ≤ s.blocks.length ∧ ∀ key ∈ a.keys P, ∀ b,
    blockEnd s.db.throttles key = some b → b ≤ a.checkTime ∨ (key, b) ∈ recentBlocks s a

def Relies (P : Primitives) (_r : ℕ) (s : Shared) (m : Stage) : Prop :=
  ∀ a ∈ attempt? m, Explained P s a

/-- `Explained` is stable under the moves of the others. -/
theorem Explained.step {s s' : Shared} {r : ℕ} {m m' : Stage} {a : Move}
    (h : act P r s m a = some (s', m')) {x : Attempt} (hx : Explained P s x) :
    Explained P s' x := by
  obtain ⟨new, hblocks, hends⟩ := (act_tableMove h).blocks
  obtain ⟨hle, hends0⟩ := hx
  have hrecent : recentBlocks s' x = new ++ recentBlocks s x := by
    unfold recentBlocks
    rw [hblocks, List.length_append, Nat.add_sub_assoc hle, List.take_length_add_append]
  refine ⟨by rw [hblocks, List.length_append]; omega, fun key hk b hb => ?_⟩
  rw [hrecent, List.mem_append]
  rcases hends key b hb with hold | hnew
  · rcases hends0 key hk b hold with h1 | h2
    · exact Or.inl h1
    · exact Or.inr (Or.inr h2)
  · exact Or.inr (Or.inl hnew)

/-- A block check that lets a login pass has seen no running block. -/
theorem blockCheck_explained {s : Shared} {body : NativeLoginBody} {sourceIp : String} {now : ℕ}
    (hpass : ¬ 0 < (blockCheck (throttleKeys P body sourceIp) now s.db.throttles).2)
    {th : Throttles}
    (hth : th = (blockCheck (throttleKeys P body sourceIp) now s.db.throttles).1) :
    Explained P { s with db := { s.db with throttles := th } }
      ⟨body, sourceIp, now, s.blocks.length⟩ := by
  refine ⟨le_rfl, fun key hk b hb => Or.inl ?_⟩
  subst hth
  simp only [blockCheck, activeRetryAfter_locked_pos] at hpass
  by_contra hlt
  refine hpass ⟨key, hk, blocked_iff.mpr ⟨b, ?_, Nat.lt_of_not_le hlt⟩⟩
  simpa [blockCheck, blockEnd_lockThrottles] using hb

/-- A request past its block check keeps its attempt. -/
theorem act_relies {s s' : Shared} {r : ℕ} {m m' : Stage} {a : Move} (hA : Relies P r s m)
    (h : act P r s m a = some (s', m')) : Relies P r s' m' := by
  intro x hx
  -- any later stage of the attempt inherits the assertion, the first one has just been checked
  have hkeep : x ∈ attempt? m → Explained P s' x := fun hm => (hA x hm).step h
  unfold act at h
  split at h
  · obtain ⟨rfl, rfl⟩ := by simpa using h
    split_ifs at hx with hpass
    · cases hx
    · obtain rfl := Option.some.inj hx
      exact blockCheck_explained hpass rfl
  · obtain ⟨-, rfl⟩ := by simpa using h
    exact hkeep hx
  · split at h <;> obtain ⟨-, rfl⟩ := by simpa using h
    · exact hkeep hx
    · exact hkeep hx
  · obtain ⟨-, rfl⟩ := by simpa using h
    cases hx
  · split_ifs at h
    split at h <;> obtain ⟨-, rfl⟩ := by simpa using h
    · exact hkeep hx
    · cases hx
  · obtain ⟨-, rfl⟩ := by simpa using h
    cases hx
  · split at h <;> obtain ⟨-, rfl⟩ := by simpa using h
    · split_ifs at hx <;> cases hx
    · cases hx
  · split_ifs at h
    obtain ⟨-, rfl⟩ := by simpa using h
    cases hx
  · obtain ⟨-, rfl⟩ := by simpa using h
    cases hx
  · cases h

/-! ## Every undisturbed move is sound, and no other -/

/-- The keys of an attempt are free exactly if no block set since its check still stands and runs,
and none that had ended at the check runs. -/
theorem keys_free_iff {s : Shared} {a : Attempt} {t : ℕ} (hA : Explained P s a) :
    ((recentBlocks s a).all (fun b =>
        b.1 ∉ a.keys P || blockEnd s.db.throttles b.1 != some b.2 || b.2 ≤ t) &&
      (a.keys P).all fun key => (blockEnd s.db.throttles key).all fun b =>
        a.checkTime < b || b ≤ t) = true ↔
    ∀ key ∈ a.keys P, blocked s.db.throttles t key = false := by
  simp only [Bool.and_eq_true, List.all_eq_true, Bool.or_eq_true, decide_eq_true_eq, bne_iff_ne,
    Option.all_eq_true]
  constructor
  · rintro ⟨hrecent, hended⟩ key hk
    rw [Bool.eq_false_iff]
    intro hb
    obtain ⟨b, hend, hlt⟩ := blocked_iff.mp hb
    rcases hA.2 key hk b hend with hle | hnew
    · have := hended key hk b hend
      omega
    · rcases hrecent (key, b) hnew with (hno | hno) | hle
      · exact hno hk
      · exact hno hend
      · simp only at hle
        omega
  · intro hfree
    have hpast : ∀ key ∈ a.keys P, ∀ b, blockEnd s.db.throttles key = some b → b ≤ t := by
      intro key hk b hend
      by_contra hlt
      have hb := blocked_iff.mpr ⟨b, hend, Nat.lt_of_not_le hlt⟩
      rw [hfree key hk] at hb
      cases hb
    refine ⟨fun b _ => ?_, fun key hk b hend => Or.inr (hpast key hk b hend)⟩
    by_cases hk : b.1 ∈ a.keys P
    · by_cases hend : blockEnd s.db.throttles b.1 = some b.2
      · exact Or.inr (hpast b.1 hk b.2 hend)
      · exact Or.inl (Or.inr hend)
    · exact Or.inl (Or.inl hk)

/-- The bookkeeping of a failure that can be audited counts it. -/
theorem loginBookFailure_sound {s : Shared} {a : Attempt} {t : ℕ}
    (haudit : P.auditRaises a.body.username = false)
    (hfree : ∀ key ∈ a.keys P, blocked s.db.throttles t key = false) :
    (∀ p ∈ (a.keys P).zip throttleThresholds,
      ∃ row, (loginBookFailure P s a t).db.throttles p.1 = some row ∧
        CountedOnce p.2 t ((s.db.throttles p.1).getD ⟨0, 0, t, none, t⟩) row) ∧
    ∀ key, key ∉ a.keys P → (loginBookFailure P s a t).db.throttles key = s.db.throttles key := by
  have hth : (loginBookFailure P s a t).db.throttles = _ := bookFailure_counts haudit hfree
  rw [hth]
  obtain ⟨hin, hout⟩ := recordFailures_spec P a.body a.sourceIp t s.db.throttles
  exact ⟨fun p hp => ⟨_, hin p hp, recordFailure_countedOnce p.2 t _⟩, hout⟩

/-- The bookkeeping of a failure that cannot be audited counts nothing. -/
theorem loginBookFailure_not_counted {s : Shared} {a : Attempt} {t : ℕ}
    (haudit : P.auditRaises a.body.username = true)
    (hfree : ∀ key ∈ a.keys P, blocked s.db.throttles t key = false) :
    ¬ ∀ p ∈ (a.keys P).zip throttleThresholds,
      ∃ row, (loginBookFailure P s a t).db.throttles p.1 = some row ∧
        CountedOnce p.2 t ((s.db.throttles p.1).getD ⟨0, 0, t, none, t⟩) row := by
  intro h
  have hth : (loginBookFailure P s a t).db.throttles = s.db.throttles :=
    bookFailure_raises haudit hfree
  obtain ⟨row, hrow, hcounted⟩ :=
    h (.accountSource (P.casefold a.body.username) a.sourceIp, 5) List.mem_cons_self
  rw [hth] at hrow
  rw [hrow] at hcounted
  exact not_countedOnce_self (show 2 ≤ 5 by decide) row hcounted

/-- **One move**: where it is undisturbed, it is sound. -/
theorem act_sound {s s' : Shared} {r : ℕ} {m m' : Stage} {a : Move} (hI : Bounded s.db.throttles)
    (hA : Relies P r s m) (hC : undisturbed P s m a = true)
    (h : act P r s m a = some (s', m')) : Sound P s s' m' m a := by
  unfold act at h
  split at h
  · -- loginCheck
    obtain ⟨rfl, -⟩ := by simpa using h
    intro key hb
    simpa [blockCheck] using blocked_purgeThrottles hI hb
  · trivial
  · trivial
  · -- loginBookFailure
    next a t =>
    obtain ⟨rfl, rfl⟩ := by simpa using h
    intro hfree
    have haudit : P.auditRaises a.body.username = false := by
      rcases Bool.or_eq_true_iff.mp hC with hany | hC
      · obtain ⟨key, hk, hb⟩ := List.any_eq_true.mp hany
        rw [hfree key hk] at hb
        cases hb
      · simpa using hC
    obtain ⟨hin, hout⟩ := loginBookFailure_sound haudit hfree
    exact ⟨hin, hout, rfl⟩
  · trivial
  · -- loginCommit
    next a seen user i =>
    obtain ⟨rfl, -⟩ := by simpa using h
    intro hsuccess
    rw [loginFinal_tokens_iff] at hsuccess
    have hfree := (keys_free_iff (t := i.issueTime) (hA a rfl)).mp
      ((Bool.or_eq_true_iff.mp hC).resolve_left (by rw [hsuccess]; exact Bool.false_ne_true))
    refine ⟨hfree, fun key hb => ?_⟩
    rcases loginFinal_spec P a.body a.sourceIp i user s.db with hf | ⟨d, -, -, -, -, hth, -⟩
    · simpa only [loginCommit, hf] using hb
    · -- the rows deleted are not blocked, the others are as before
      have hkey : key ∉ (a.keys P).take 2 := by
        intro hk
        rw [hfree key (List.mem_of_mem_take hk)] at hb; cases hb
      have hsame : clearThrottles (a.keys P) s.db.throttles key = s.db.throttles key :=
        if_neg hkey
      simp only [loginCommit, hth]
      unfold blocked at hb ⊢
      rw [← hb]
      exact congrArg _ hsame
  · trivial
  · trivial
  · trivial
  · cases h

/-- **Conversely**: a sound move is undisturbed. -/
theorem undisturbed_of_sound {s : Shared} {r : ℕ} {m : Stage} {a : Move} (hA : Relies P r s m)
    (hS : ∀ s' m', act P r s m a = some (s', m') → Sound P s s' m' m a) :
    undisturbed P s m a = true := by
  unfold undisturbed
  split
  · -- loginCommit
    next a seen user i =>
    rw [Bool.or_eq_true_iff, or_iff_not_imp_left]
    intro hfresh
    have hsuccess := (loginFinal_tokens_iff P a.body a.sourceIp i user s.db).mpr
      (Bool.eq_false_iff.mpr hfresh)
    exact (keys_free_iff (hA a rfl)).mpr (hS _ _ rfl hsuccess).1
  · -- loginBookFailure
    next a t =>
    rw [Bool.or_eq_true_iff, or_iff_not_imp_left]
    intro hany
    have hfree : ∀ key ∈ a.keys P, blocked s.db.throttles t key = false := fun key hk =>
      Bool.eq_false_iff.mpr fun hb => hany (List.any_eq_true.mpr ⟨key, hk, hb⟩)
    rcases haudit : P.auditRaises a.body.username with _ | _
    · rfl
    · exact absurd (hS _ _ rfl hfree).1 (loginBookFailure_not_counted haudit hfree)
  · rfl

/-- **The throttle under interleaving**: in a run of any number of attempts, no login succeeds while
one of its keys is blocked, no login removes a running block, and every failure that finds no running
block is counted exactly once on each of its three keys, exactly if no attempt of the run is
disturbed. -/
theorem throttle_sound_iff (P : Primitives) (users : Table User.id) (moves : List (ℕ × Move)) :
    Along (step (act P)) (fun c e => undisturbed P c.shared (c.loc e.1) e.2 = true)
      (start users) moves ↔
    Along (step (act P)) (fun c e => ∀ s' m', act P e.1 c.shared (c.loc e.1) e.2 = some (s', m') →
      Sound P c.shared s' m' (c.loc e.1) e.2) (start users) moves := by
  refine along_iff_of_inv (I := Holds (fun s => Bounded s.db.throttles) (Relies P)) ?_ ?_ moves _ ?_
  · intro c e c' hH hs
    refine holds_step (fun s' m' h => ?_) (fun s' m' h q _ => ?_) hs
    · exact ⟨(act_tableMove h).bounded hH.1, act_relies (hH.2 e.1) h⟩
    · exact fun x hx => (hH.2 q x hx).step h
  · intro c e hH
    exact ⟨fun hC s' m' h => act_sound hH.1 (hH.2 e.1) hC h, undisturbed_of_sound (hH.2 e.1)⟩
  · exact ⟨fun key row hrow => by simp [start] at hrow,
      fun r a ha => by simp [start, attempt?] at ha⟩

/-! ## Two schedules -/

/-- A whole failing attempt on the account and the device of `sampleBody`. -/
def badGuess (r t : ℕ) : List (ℕ × Move) :=
  [(r, .loginCheck { sampleBody with password := "guess" } "203.0.113.7" t), (r, .loginRead),
    (r, .loginVerify), (r, .loginBookFailure t)]

/-- A login and the failing attempts that overlap it, up to its final commit. -/
def overlapSchedule (guesses : List ℕ) : List (ℕ × Move) :=
  [(0, .loginCheck sampleBody "203.0.113.7" (seconds 100)), (0, .loginRead), (0, .loginVerify)] ++
    guesses.flatMap (fun r => badGuess r (seconds 101)) ++ [(0, .loginLock)]

def overlapInputs : LoginInputs :=
  ⟨seconds 100, seconds 102, seconds 102, seconds 102, "session-1", "secret-1"⟩

/-- The final commit of the login. -/
def overlapCommit : Move := .loginCommit overlapInputs

/-- Four overlapping failures set no block: the login is not disturbed. -/
theorem throttle_sound_iff_four :
    Along (step (act .sample)) (fun c e => ∀ s' m',
        act .sample e.1 c.shared (c.loc e.1) e.2 = some (s', m') →
          Sound .sample c.shared s' m' (c.loc e.1) e.2)
      (start ⟨[sampleUser], by decide⟩) (overlapSchedule [1, 2, 3, 4] ++ [(0, overlapCommit)]) :=
  (throttle_sound_iff .sample _ _).mp (by decide +kernel)

/-- A fifth one blocks the account and the device for five minutes; the login succeeds a second
later all the same. -/
theorem overlapped_login_ignores_block :
    ¬ Along (step (act .sample)) (fun c e => ∀ s' m',
        act .sample e.1 c.shared (c.loc e.1) e.2 = some (s', m') →
          Sound .sample c.shared s' m' (c.loc e.1) e.2)
      (start ⟨[sampleUser], by decide⟩)
      (overlapSchedule [1, 2, 3, 4, 5] ++ [(0, overlapCommit)]) := by
  intro h
  let key : ThrottleKey := .deviceSource "device-a" "203.0.113.7"
  have hrun : (run (step (act .sample)) (start ⟨[sampleUser], by decide⟩)
      (overlapSchedule [1, 2, 3, 4, 5])).map (fun c =>
        (c.loc 0, blocked c.shared.db.throttles (seconds 102) key,
          collides sampleBody overlapInputs sampleUser c.shared.db)) =
      some (.loginLocked ⟨sampleBody, "203.0.113.7", seconds 100, 0⟩ sampleUser sampleUser,
        true, false) := by
    decide +kernel
  obtain ⟨c, hc, hobs⟩ := Option.map_eq_some_iff.mp hrun
  obtain ⟨hloc, hobs⟩ := Prod.mk.inj hobs
  obtain ⟨hblocked, hfresh⟩ := Prod.mk.inj hobs
  have hcommit := (((along_append _ _ _).mp h).2 c hc).1
  simp only [hloc] at hcommit
  have hsuccess := (loginFinal_tokens_iff .sample sampleBody "203.0.113.7" overlapInputs sampleUser
    c.shared.db).mpr hfresh
  have hfree := (hcommit _ _ rfl hsuccess).1 key (by decide)
  exact absurd (hfree.symm.trans hblocked) Bool.false_ne_true

end IdenGrid.Control.Lockout
