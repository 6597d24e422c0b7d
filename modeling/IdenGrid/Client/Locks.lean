import IdenGrid.Client.Frames

/-! # Who holds the lock of a store

Whatever happens, the lock file of a store belongs to the launch whose agent is up, unless nobody has
got the `Process` of that agent: a launch that is under way has it (`Launching`), a record in `running`
has it, and so has a record that `quitAllAndWait` is stopping. `Locked` and `At` are the invariant;
every operation of the manager keeps it and `Spares` the other tasks. -/

namespace IdenGrid.Client.Locks

open IdenGrid.Lib.Run IdenGrid.Lib.Requests IdenGrid.Client.Launches IdenGrid.Client.Launches.App
open IdenGrid.Client.Frames

/-- A process that somebody could tell to end, and has not. -/
structure Process.Up (p : Process) (kind : Kind) : Prop where
  kind : p.kind = kind
  terminated : p.terminated = false
  held : p.held = true

theorem created_inj {p q : ℕ} (h : some (Lock.created p) = some (.created q)) : p = q :=
  Lock.created.inj (Option.some.inj h)

structure Locked (s : App) : Prop where
  record : ∀ x p, s.running.lookup x = some p → s.locks x = some (.created p) ∧ s.stopping x = none
  stopping : ∀ x q p, s.stopping x = some (q, p) → s.locks x = some (.created p)
  agent : ∀ p ∈ s.processes, Process.Up p .agent → s.locks p.store = some (.created p.launch)

/-- The launch `r` of the store has the lock and is not on record yet. -/
def Launching (s : App) (r : ℕ) (store : String) : Prop :=
  s.locks store = some (.created r) ∧ s.running.lookup store = none ∧ s.stopping store = none

structure At (r : ℕ) (s : App) (t : Task) : Prop where
  launching : ∀ x, Task.store? t = some x → Launching s r x
  stops : ∀ x p, s.stopping x = some (r, p) ↔ Task.stops t = some (x, p)

/-- From `s` to `s'` nothing is taken from the task `q`. -/
structure Spares (q : ℕ) (s s' : App) : Prop where
  launching : ∀ x, Launching s q x → Launching s' q x
  stopping : ∀ x p, s'.stopping x = some (q, p) ↔ s.stopping x = some (q, p)

namespace Spares

theorem refl (q : ℕ) (s : App) : Spares q s s := ⟨fun _ => id, fun _ _ => Iff.rfl⟩

theorem trans {q : ℕ} {s s' s'' : App} (h : Spares q s s') (h' : Spares q s' s'') :
    Spares q s s'' where
  launching x := h'.launching x ∘ h.launching x
  stopping x p := (h'.stopping x p).trans (h.stopping x p)

/-- What the tables of the locks leave alone. -/
theorem of_eq {q : ℕ} {s s' : App} (hl : s'.locks = s.locks) (hr : s'.running = s.running)
    (hs : s'.stopping = s.stopping) : Spares q s s' where
  launching x h := by unfold Launching; rw [hl, hr, hs]; exact h
  stopping x p := by rw [hs]

end Spares

theorem At.spared {q : ℕ} {s s' : App} {t : Task} (h : At q s t) (hs : Spares q s s') :
    At q s' t where
  launching x hx := hs.launching x (h.launching x hx)
  stops x p := (hs.stopping x p).trans (h.stops x p)

theorem Locked.of_eq {s s' : App} (h : Locked s) (hl : s'.locks = s.locks)
    (hr : s'.running = s.running) (hs : s'.stopping = s.stopping)
    (hp : s'.processes = s.processes) : Locked s' where
  record x p := by rw [hl, hr, hs]; exact h.record x p
  stopping x q p := by rw [hl, hs]; exact h.stopping x q p
  agent p := by rw [hl, hp]; exact h.agent p

/-! ## The operations -/

@[simp] theorem mem_terminate {s : App} {launch : ℕ} {kind : Kind} {p : Process} :
    p ∈ (s.terminate launch kind).processes ↔
      ∃ q ∈ s.processes,
        (if q.launch = launch ∧ q.kind = kind then { q with terminated := true } else q) = p :=
  List.mem_map

/-- A process is up after `terminate` exactly if it was before, and is another one. -/
theorem up_terminate {s : App} {launch : ℕ} {kind kind' : Kind} {p : Process}
    (hp : p ∈ (s.terminate launch kind').processes) (hup : Process.Up p kind) :
    p ∈ s.processes ∧ ¬ (p.launch = launch ∧ p.kind = kind') := by
  obtain ⟨q, hq, rfl⟩ := mem_terminate.mp hp
  by_cases hc : q.launch = launch ∧ q.kind = kind'
  · rw [if_pos hc] at hup
    exact absurd hup.terminated (by simp)
  · rw [if_neg hc]
    exact ⟨hq, hc⟩

theorem locked_terminate {s : App} (h : Locked s) (launch : ℕ) (kind : Kind) :
    Locked (s.terminate launch kind) where
  record := h.record
  stopping := h.stopping
  agent p hp hup := h.agent p (up_terminate hp hup).1 hup

theorem locked_tearDown {s : App} (h : Locked s) (x : String) (state : LaunchState) :
    Locked (s.tearDown x state) := by
  unfold tearDown
  split
  · exact h.of_eq rfl rfl rfl rfl
  · next p hp =>
    obtain ⟨hlock, hstop⟩ := h.record x p hp
    constructor
    · intro y q hq
      change (s.running.erase x).lookup y = some q at hq
      change Function.update s.locks x none y = some (.created q) ∧ s.stopping y = none
      rcases eq_or_ne y x with rfl | hne
      · rw [AList.lookup_erase] at hq
        exact absurd hq.symm (Option.some_ne_none q)
      · rw [AList.lookup_erase_ne hne] at hq
        rw [Function.update_of_ne hne]
        exact h.record y q hq
    · intro y q q' hq
      change s.stopping y = some (q, q') at hq
      change Function.update s.locks x none y = some (.created q')
      rcases eq_or_ne y x with rfl | hne
      · rw [hstop] at hq
        exact absurd hq.symm (Option.some_ne_none _)
      · rw [Function.update_of_ne hne]
        exact h.stopping y q q' hq
    · intro q hq hup
      obtain ⟨hq, hne⟩ := up_terminate hq hup
      obtain ⟨hq, -⟩ := up_terminate hq hup
      have hl := h.agent q hq hup
      change Function.update s.locks x none q.store = some (.created q.launch)
      -- the agents that are up in the store all are those of its record
      rcases eq_or_ne q.store x with hx | hx
      · rw [hx, hlock] at hl
        exact absurd ⟨created_inj hl.symm, hup.kind⟩ hne
      · rw [Function.update_of_ne hx]
        exact hl

theorem spares_tearDown (s : App) (x : String) (state : LaunchState) (q : ℕ) :
    Spares q s (s.tearDown x state) := by
  unfold tearDown
  split
  · exact .of_eq rfl rfl rfl
  · next p hp =>
    constructor
    · rintro y ⟨hl, hr, hs⟩
      have hne : y ≠ x := by
        rintro rfl
        exact absurd (hp.symm.trans hr) (Option.some_ne_none p)
      refine ⟨?_, ?_, hs⟩
      · change Function.update s.locks x none y = some (.created q)
        rw [Function.update_of_ne hne]
        exact hl
      · change (s.running.erase x).lookup y = none
        rw [AList.lookup_erase_ne hne]
        exact hr
    · exact fun y p => Iff.rfl

/-- What the locks are concerned with across a step that is not special. -/
theorem frame_locks : Frame fun s s' => (Locked s → Locked s') ∧ ∀ q, Spares q s s' where
  same hs := ⟨fun h => h.of_eq (congrArg Tables.locks hs) (congrArg Tables.running hs)
      (congrArg Tables.stopping hs) (congrArg Tables.processes hs),
    fun _ => .of_eq (congrArg Tables.locks hs) (congrArg Tables.running hs)
      (congrArg Tables.stopping hs)⟩
  trans h h' := ⟨h'.1 ∘ h.1, fun q => (h.2 q).trans (h'.2 q)⟩
  tearDown s x _ _ := ⟨fun h => locked_tearDown h x _, spares_tearDown s x _⟩
  closeAfter s x := ⟨fun h => (locked_tearDown h x .idle).of_eq rfl rfl rfl rfl,
    fun q => (spares_tearDown s x .idle q).trans (.of_eq rfl rfl rfl)⟩
  exit _ _ := ⟨fun h => ⟨h.record, h.stopping, fun q hq => h.agent q (List.mem_of_mem_filter hq)⟩,
    fun _ => .of_eq rfl rfl rfl⟩
  answered _ _ := ⟨fun h => h.of_eq rfl rfl rfl rfl, fun _ => .of_eq rfl rfl rfl⟩

/-! ## Steps

What the task `r` leaves behind at its next await. -/

structure Keeps (r : ℕ) (s s' : App) (t : Task) : Prop where
  locked : Locked s'
  here : At r s' t
  spares : ∀ q, q ≠ r → Spares q s s'

/-- A task that has come to its end, or goes on without a lock. -/
theorem At.rest {r : ℕ} {s : App} {t : Task} (h : ∀ x p, s.stopping x ≠ some (r, p))
    (hl : Task.store? t = none) (hs : Task.stops t = none) : At r s t where
  launching x hx := absurd (hl.symm.trans hx) (Option.some_ne_none x).symm
  stops x p := by simp [h x p, hs]

/-- A step after others that spared the rest. -/
theorem Keeps.after {r : ℕ} {s s' s'' : App} {t : Task} (h : Keeps r s' s'' t)
    (hs : ∀ q, q ≠ r → Spares q s s') : Keeps r s s'' t :=
  ⟨h.locked, h.here, fun q hq => (hs q hq).trans (h.spares q hq)⟩

/-! ### Quitting -/

/-- `quitAllAndWait` takes a record out of `running`. -/
theorem keeps_takeOut {r began p : ℕ} {s : App} {x : String} {rest : List String} {success : Bool}
    (h : Locked s) (hfree : ∀ x p, s.stopping x ≠ some (r, p)) (hp : s.running.lookup x = some p) :
    Keeps r s
      { (s.stopPolling x).terminate p .browser with
        running := s.running.erase x
        stopping := Function.update s.stopping x (some (r, p)) }
      (.stopping began x p none rest success) := by
  obtain ⟨hlock, hstop⟩ := h.record x p hp
  refine ⟨⟨?_, ?_, ?_⟩, ⟨fun y hy => ?_, ?_⟩, fun q hq => ⟨?_, ?_⟩⟩
  · intro y q hy
    change (s.running.erase x).lookup y = some q at hy
    change s.locks y = some (.created q) ∧ Function.update s.stopping x _ y = none
    rcases eq_or_ne y x with rfl | hne
    · rw [AList.lookup_erase] at hy
      exact absurd hy.symm (Option.some_ne_none q)
    · rw [AList.lookup_erase_ne hne] at hy
      rw [Function.update_of_ne hne]
      exact h.record y q hy
  · intro y q q' hy
    change Function.update s.stopping x (some (r, p)) y = some (q, q') at hy
    change s.locks y = some (.created q')
    rcases eq_or_ne y x with rfl | hne
    · rw [Function.update_self] at hy
      rw [hlock, (Prod.mk.inj (Option.some.inj hy)).2]
    · rw [Function.update_of_ne hne] at hy
      exact h.stopping y q q' hy
  · exact fun q hq hup => h.agent q (up_terminate hq hup).1 hup
  · exact absurd hy.symm (Option.some_ne_none y)
  · intro y q
    change Function.update s.stopping x (some (r, p)) y = some (r, q) ↔ some (x, p) = some (y, q)
    rcases eq_or_ne y x with rfl | hne
    · simp
    · rw [Function.update_of_ne hne]
      refine iff_of_false (hfree y q) fun he => hne ?_
      exact (Prod.mk.inj (Option.some.inj he)).1.symm
  · rintro y ⟨hl, hr, hs⟩
    have hne : y ≠ x := by
      rintro rfl
      exact absurd (hp.symm.trans hr) (Option.some_ne_none p)
    refine ⟨hl, ?_, ?_⟩
    · exact (AList.lookup_erase_ne hne).trans hr
    · exact (Function.update_of_ne hne _ _).trans hs
  · intro y q'
    change Function.update s.stopping x (some (r, p)) y = some (q, q') ↔ _
    rcases eq_or_ne y x with rfl | hne
    · rw [Function.update_self, hstop]
      refine iff_of_false (fun he => hq ?_) (Option.some_ne_none _).symm
      exact (Prod.mk.inj (Option.some.inj he)).1.symm
    · rw [Function.update_of_ne hne]

theorem keeps_quitAllAndWait (r began : ℕ) :
    ∀ (keys : List String) (success : Bool) (s : App), Locked s →
      (∀ x p, s.stopping x ≠ some (r, p)) →
      Keeps r s (quitAllAndWait r began s success keys).1
        (quitAllAndWait r began s success keys).2
  | [], success, s, h, hfree => by
    unfold quitAllAndWait
    by_cases hc : success ∧ s.running.keys = []
    · rw [if_pos hc]
      exact ⟨h.of_eq rfl rfl rfl rfl, .rest hfree rfl rfl, fun q _ => .of_eq rfl rfl rfl⟩
    · rw [if_neg hc]
      exact ⟨h, .rest hfree rfl rfl, fun q _ => .refl q s⟩
  | x :: rest, success, s, h, hfree => by
    unfold quitAllAndWait
    split
    · have hk := keeps_quitAllAndWait r began rest success (s.stopPolling x)
        (h.of_eq rfl rfl rfl rfl) hfree
      have hs : ∀ q, Spares q s (s.stopPolling x) := fun q => .of_eq rfl rfl rfl
      exact hk.after fun q _ => hs q
    · next p hp => exact keeps_takeOut h hfree hp

section Stopped

variable {r p : ℕ} {s : App} {x : String}

theorem launching_ne (hstop : s.stopping x = some (r, p)) {q : ℕ} {y : String}
    (h : Launching s q y) : y ≠ x := by
  rintro rfl
  exact absurd (hstop.symm.trans h.2.2) (Option.some_ne_none _)

theorem record_ne (h : Locked s) (hstop : s.stopping x = some (r, p)) {q : ℕ} {y : String}
    (hy : s.running.lookup y = some q) : y ≠ x := by
  rintro rfl
  exact absurd (hstop.symm.trans (h.record y q hy).2) (Option.some_ne_none _)

/-- The other tasks still have the records they have been stopping. -/
theorem stopping_other (hstop : s.stopping x = some (r, p)) {q : ℕ} (hq : q ≠ r) (y : String)
    (q' : ℕ) : Function.update s.stopping x none y = some (q, q') ↔ s.stopping y = some (q, q') := by
  rcases eq_or_ne y x with rfl | hne
  · rw [Function.update_self, hstop]
    refine iff_of_false (Option.some_ne_none _).symm fun he => hq ?_
    exact (Prod.mk.inj (Option.some.inj he)).1.symm
  · rw [Function.update_of_ne hne]

theorem stopping_of_update {q q' : ℕ} {y : String}
    (h : Function.update s.stopping x none y = some (q, q')) : y ≠ x ∧ s.stopping y = some (q, q') := by
  rcases eq_or_ne y x with rfl | hne
  · rw [Function.update_self] at h
    exact absurd h.symm (Option.some_ne_none _)
  · rw [Function.update_of_ne hne] at h
    exact ⟨hne, h⟩

/-- Both processes have ended. -/
theorem keeps_released (h : Locked s) (hstop : s.stopping x = some (r, p))
    (hgone : s.isRunning x p .agent = false) {s' : App}
    (hs' : s' = ({ s with stopping := Function.update s.stopping x none }.releaseLock x).setState x
      .idle) : Locked s' ∧ ∀ q, q ≠ r → Spares q s s' := by
  subst hs'
  refine ⟨⟨fun y q hy => ?_, fun y q q' hy => ?_, fun q hq hup => ?_⟩,
    fun q hq => ⟨fun y hy => ?_, stopping_other hstop hq⟩⟩
  · have hne := record_ne h hstop hy
    refine ⟨?_, ?_⟩
    · exact (Function.update_of_ne hne _ _).trans (h.record y q hy).1
    · exact (Function.update_of_ne hne _ _).trans (h.record y q hy).2
  · obtain ⟨hne, hy⟩ := stopping_of_update hy
    exact (Function.update_of_ne hne _ _).trans (h.stopping y q q' hy)
  · change q ∈ s.processes at hq
    change Function.update s.locks x none q.store = some (.created q.launch)
    have hl := h.agent q hq hup
    rcases eq_or_ne q.store x with hx | hx
    · rw [hx, h.stopping x r p hstop] at hl
      have hrun : s.isRunning x p .agent = true := by
        unfold isRunning
        rw [List.any_eq_true]
        exact ⟨q, hq, by simpa using ⟨hx, created_inj hl.symm, hup.kind⟩⟩
      rw [hgone] at hrun
      exact absurd hrun Bool.false_ne_true
    · rw [Function.update_of_ne hx]
      exact hl
  · have hne := launching_ne hstop hy
    refine ⟨?_, hy.2.1, ?_⟩
    · exact (Function.update_of_ne hne _ _).trans hy.1
    · exact (Function.update_of_ne hne _ _).trans hy.2.2

/-- They have not, and the record goes back. -/
theorem keeps_putBack (h : Locked s) (hstop : s.stopping x = some (r, p)) (state : LaunchState)
    {s' : App}
    (hs' : s' = ({ s with
      stopping := Function.update s.stopping x none
      running := s.running.insert x p } : App).setState x state) :
    Locked s' ∧ ∀ q, q ≠ r → Spares q s s' := by
  subst hs'
  refine ⟨⟨fun y q hy => ?_, fun y q q' hy => ?_, h.agent⟩,
    fun q hq => ⟨fun y hy => ?_, stopping_other hstop hq⟩⟩
  · change (s.running.insert x p).lookup y = some q at hy
    change s.locks y = some (.created q) ∧ Function.update s.stopping x none y = none
    rcases eq_or_ne y x with rfl | hne
    · rw [AList.lookup_insert] at hy
      rw [Function.update_self, h.stopping y r p hstop, Option.some.inj hy]
      exact ⟨rfl, rfl⟩
    · rw [AList.lookup_insert_ne hne] at hy
      rw [Function.update_of_ne hne]
      exact h.record y q hy
  · exact h.stopping y q q' (stopping_of_update hy).2
  · have hne := launching_ne hstop hy
    refine ⟨hy.1, ?_, ?_⟩
    · exact (AList.lookup_insert_ne hne).trans hy.2.1
    · exact (Function.update_of_ne hne _ _).trans hy.2.2

/-- `quitAllAndWait` after the processes of a record have ended, or have not. -/
theorem keeps_stopped {began : ℕ} {rest : List String} {success both : Bool} {t : Task}
    (h : Locked s) (ha : At r s t) (ht : Task.stops t = some (x, p))
    (hboth : both = true → s.isRunning x p .agent = false) :
    Keeps r s (stopped r s began x p both rest success).1
      (stopped r s began x p both rest success).2 := by
  have hstop : s.stopping x = some (r, p) := (ha.stops x p).mpr ht
  have hfree : ∀ y q, Function.update s.stopping x none y ≠ some (r, q) := by
    intro y q hy
    obtain ⟨hne, hy⟩ := stopping_of_update hy
    have he := ht.symm.trans ((ha.stops y q).mp hy)
    exact hne (Prod.mk.inj (Option.some.inj he)).1.symm
  unfold stopped
  dsimp only
  cases both with
  | true =>
    obtain ⟨hl, hs⟩ := keeps_released h hstop (hboth rfl) rfl
    exact (keeps_quitAllAndWait r began rest success _ hl hfree).after hs
  | false =>
    obtain ⟨hl, hs⟩ := keeps_putBack h hstop notStopped rfl
    exact (keeps_quitAllAndWait r began rest false _ hl hfree).after hs

end Stopped

/-! ### Launches -/

section Launch

variable {r : ℕ} {s : App} {l : Launch} {lease : ℕ}

theorem At.free {t : Task} (h : At r s t) (ht : Task.stops t = none) (x : String) (p : ℕ) :
    s.stopping x ≠ some (r, p) := by
  rw [Ne, h.stops x p, ht]
  exact (Option.some_ne_none _).symm

theorem Launching.ne (h : Launching s r l.store.id) {q : ℕ} (hq : q ≠ r) {y : String}
    (hy : Launching s q y) : y ≠ l.store.id := by
  rintro rfl
  exact hq (created_inj (hy.1.symm.trans h.1))

theorem keeps_disconnect {s' : App} (hl : Locked s') (hs : ∀ q, q ≠ r → Spares q s s')
    (hfree : ∀ x p, s'.stopping x ≠ some (r, p)) :
    Keeps r s (disconnect r s' l lease).1 (disconnect r s' l lease).2 := by
  have hk : Keeps r s' (disconnect r s' l lease).1 (disconnect r s' l lease).2 :=
    ⟨hl.of_eq rfl rfl rfl rfl, .rest hfree rfl rfl, fun _ _ => .of_eq rfl rfl rfl⟩
  exact hk.after hs

theorem keeps_abandon (h : Locked s) (hx : Launching s r l.store.id)
    (hfree : ∀ x p, s.stopping x ≠ some (r, p)) (failure : Failure) :
    Keeps r s (abandon r s l lease failure).1 (abandon r s l lease failure).2 := by
  have hrec : ∀ y p, s.running.lookup y = some p → y ≠ l.store.id := by
    rintro y p hy rfl
    exact absurd (hy.symm.trans hx.2.1) (Option.some_ne_none p)
  refine keeps_disconnect ⟨fun y p hy => ?_, fun y q p hy => ?_, fun q hq hup => ?_⟩
    (fun q hq => ⟨fun y hy => ?_, fun y p => Iff.rfl⟩) hfree
  · exact ⟨(Function.update_of_ne (hrec y p hy) _ _).trans (h.record y p hy).1, (h.record y p hy).2⟩
  · change s.stopping y = some (q, p) at hy
    have hne : y ≠ l.store.id := by
      rintro rfl
      exact absurd (hy.symm.trans hx.2.2) (Option.some_ne_none _)
    exact (Function.update_of_ne hne _ _).trans (h.stopping y q p hy)
  · obtain ⟨hq, hne⟩ := up_terminate hq hup
    have hl := h.agent q hq hup
    change Function.update s.locks l.store.id none q.store = some (.created q.launch)
    rcases eq_or_ne q.store l.store.id with hy | hy
    · rw [hy, hx.1] at hl
      exact absurd ⟨created_inj hl.symm, hup.kind⟩ hne
    · rw [Function.update_of_ne hy]
      exact hl
  · exact ⟨(Function.update_of_ne (hx.ne hq hy) _ _).trans hy.1, hy.2⟩

/-- A launch comes into the manager. -/
theorem keeps_enter (h : Locked s) (hf : ∀ x p, s.stopping x ≠ some (r, p))
    (prepared : Prepared) :
    Keeps r s (enter r s l lease prepared).1 (enter r s l lease prepared).2 := by
  have hfail : ∀ failure, Keeps r s
      (disconnect r (s.setState l.store.id failure) l lease).1
      (disconnect r (s.setState l.store.id failure) l lease).2 := fun failure =>
    keeps_disconnect (h.of_eq rfl rfl rfl rfl) (fun q _ => .of_eq rfl rfl rfl) hf
  unfold enter
  split
  · exact ⟨h, .rest hf rfl rfl, fun q _ => .refl q s⟩
  · next hrun =>
    rw [← AList.lookup_eq_none] at hrun
    dsimp only
    split
    · exact hfail _
    · exact hfail _
    · exact hfail _
    · next failure _ =>
      have hl : Locked { s.setState l.store.id (.failed failure.localizedDescription) with
          processes := ⟨r, l.store.id, .agent, false, false⟩ :: s.processes } := by
        refine ⟨h.record, h.stopping, fun q hq hup => ?_⟩
        rcases List.mem_cons.mp hq with rfl | hq
        · exact absurd hup.held Bool.false_ne_true
        · exact h.agent q hq hup
      exact keeps_disconnect hl (fun q _ => .of_eq rfl rfl rfl) hf
    · next hlock =>
      have hstop : s.stopping l.store.id = none := by
        by_contra hne
        obtain ⟨⟨q, p⟩, hqp⟩ := Option.ne_none_iff_exists'.mp hne
        exact absurd ((h.stopping _ q p hqp).symm.trans hlock) (Option.some_ne_none _)
      have hold : ∀ y lock, s.locks y = some lock → y ≠ l.store.id := by
        rintro y lock hy rfl
        exact absurd (hy.symm.trans hlock) (Option.some_ne_none lock)
      refine ⟨⟨fun y p hy => ?_, fun y q p hy => ?_, fun q hq hup => ?_⟩,
        ⟨fun y hy => ?_, fun y p => ?_⟩,
        fun q _ => ⟨fun y hy => ?_, fun y p => Iff.rfl⟩⟩
      · have hr := h.record y p hy
        exact ⟨(Function.update_of_ne (hold y _ hr.1) _ _).trans hr.1, hr.2⟩
      · have hs := h.stopping y q p hy
        exact (Function.update_of_ne (hold y _ hs) _ _).trans hs
      · rcases List.mem_cons.mp hq with rfl | hq
        · exact Function.update_self _ _ _
        · have hl := h.agent q hq hup
          exact (Function.update_of_ne (hold _ _ hl) _ _).trans hl
      · obtain rfl : l.store.id = y := Option.some.inj hy
        exact ⟨Function.update_self _ _ _, hrun, hstop⟩
      · exact iff_of_false (hf y p) (Option.some_ne_none _).symm
      · exact ⟨(Function.update_of_ne (hold y _ hy.1) _ _).trans hy.1, hy.2⟩

/-- A launch goes on record. -/
theorem keeps_verified (h : Locked s) (hx : Launching s r l.store.id)
    (hfree : ∀ x p, s.stopping x ≠ some (r, p)) (answer : Except Failure (ℕ × Option String))
    (browser : Option Failure) :
    Keeps r s (verified r s l lease answer browser).1 (verified r s l lease answer browser).2 := by
  unfold verified
  split
  · exact keeps_abandon h hx hfree _
  · refine ⟨⟨fun y p hy => ?_, h.stopping, fun q hq hup => ?_⟩, .rest hfree rfl rfl,
      fun q hq => ⟨fun y hy => ⟨hy.1, ?_, hy.2.2⟩, fun y p => Iff.rfl⟩⟩
    · change (s.running.insert l.store.id r).lookup y = some p at hy
      rcases eq_or_ne y l.store.id with rfl | hne
      · rw [AList.lookup_insert] at hy
        obtain rfl := Option.some.inj hy
        exact ⟨hx.1, hx.2.2⟩
      · rw [AList.lookup_insert_ne hne] at hy
        exact h.record y p hy
    · rcases List.mem_cons.mp hq with rfl | hq
      · exact absurd hup.kind Kind.noConfusion
      · exact h.agent q hq hup
    · exact (AList.lookup_insert_ne (hx.ne hq hy)).trans hy.2.1

theorem keeps_queried {device : String} (h : Locked s) {t : Task} (ha : At r s t)
    (ht : Task.store? t = some l.store.id) (hs : Task.stops t = none)
    (answer : Except Failure AgentStatus) :
    Keeps r s (queried device r s l lease answer).1 (queried device r s l lease answer).2 := by
  have hx := ha.launching _ ht
  have hfree := ha.free hs
  unfold queried
  split
  · exact keeps_abandon h hx hfree _
  · split
    · split
      · exact keeps_abandon h hx hfree _
      · refine ⟨h, ⟨fun y hy => ?_, fun y p => ?_⟩, fun q _ => .refl q s⟩
        · obtain rfl : l.store.id = y := Option.some.inj hy
          exact hx
        · exact iff_of_false (hfree y p) (Option.some_ne_none _).symm
    · exact keeps_abandon h hx hfree _

theorem keeps_ready (h : Locked s) (hx : Launching s r l.store.id)
    (hfree : ∀ x p, s.stopping x ≠ some (r, p)) (failure : Option Failure) :
    Keeps r s (ready r s l lease failure).1 (ready r s l lease failure).2 := by
  cases failure with
  | none =>
    refine ⟨h.of_eq rfl rfl rfl rfl, ⟨fun y hy => ?_, fun y p => ?_⟩,
      fun q _ => .of_eq rfl rfl rfl⟩
    · obtain rfl : l.store.id = y := Option.some.inj hy
      exact hx
    · exact iff_of_false (hfree y p) (Option.some_ne_none _).symm
  | some failure => exact keeps_abandon h hx hfree failure

end Launch

/-! ### Every step -/

variable {device : String}

/-- A step that leaves the tables of the locks alone, to a place without a lock. -/
theorem Keeps.rests {r : ℕ} {s s' : App} {t t' : Task} (h : Locked s) (ha : At r s t)
    (ht : Task.stops t = none) (hl : Task.store? t' = none) (hs : Task.stops t' = none)
    (hsame : tables s' = { tables s with
      edgeLatencies := s'.edgeLatencies, latencyTasks := s'.latencyTasks }) : Keeps r s s' t' := by
  have hlocks : s'.locks = s.locks := congrArg Tables.locks hsame
  have hrun : s'.running = s.running := congrArg Tables.running hsame
  have hstop : s'.stopping = s.stopping := congrArg Tables.stopping hsame
  refine ⟨h.of_eq hlocks hrun hstop (congrArg Tables.processes hsame), .rest ?_ hl hs,
    fun q _ => .of_eq hlocks hrun hstop⟩
  intro x p
  rw [hstop]
  exact ha.free ht x p

theorem keeps_terminate {r : ℕ} {s : App} (h : Locked s) (ha : At r s .idle) :
    Keeps r s (prepareForApplicationTermination r s).1 (prepareForApplicationTermination r s).2 := by
  have hk := keeps_quitAllAndWait r s.clock (sorted s.running.keys) true s.tick
    (h.of_eq rfl rfl rfl rfl) (ha.free rfl)
  exact hk.after fun q _ => .of_eq rfl rfl rfl

/-- `quitAllAndWait` between the browser and the agent. -/
theorem keeps_waited {r began p : ℕ} {s : App} {x : String} {rest : List String} {success b : Bool}
    (h : Locked s) (ha : At r s (.stopping began x p none rest success)) :
    Keeps r s (s.terminate p .agent) (.stopping began x p (some b) rest success) := by
  refine ⟨locked_terminate h p .agent, ⟨fun y hy => ?_, ha.stops⟩, fun q _ => .of_eq rfl rfl rfl⟩
  exact absurd hy.symm (Option.some_ne_none y)

theorem keeps_special {r : ℕ} {s : App} {t : Task} {m : Move} {p : App × Task} (h : Locked s)
    (ha : At r s t) (hs : Special device r s t m p) : Keeps r s p.1 p.2 := by
  cases hs with
  | entered l retried lease prepared => exact keeps_enter h (ha.free rfl) prepared
  | ready l lease failure => exact keeps_ready h (ha.launching _ rfl) (ha.free rfl) failure
  | queried l lease answer => exact keeps_queried h ha rfl rfl answer
  | verified l lease answer browser =>
    exact keeps_verified h (ha.launching _ rfl) (ha.free rfl) answer browser
  | measured l answer =>
    obtain ⟨latencies, hs⟩ := refreshEdgeLatency_eq s l.store.id answer
    rw [hs]
    exact .rests h ha rfl rfl rfl rfl
  | polled store answer =>
    obtain ⟨latencies, hs⟩ := refreshEdgeLatency_eq s store answer
    rw [hs]
    dsimp only
    split
    · exact .rests h ha rfl rfl rfl rfl
    · exact .rests h ha rfl rfl rfl rfl
  | terminated => exact keeps_terminate h ha
  | browserWaited began store record rest success => exact keeps_waited h ha
  | agentWaited began store record b rest success =>
    refine keeps_stopped h ha rfl fun hb => ?_
    exact Bool.eq_false_of_not_eq_true (of_decide_eq_true hb).2

theorem keeps_act {r : ℕ} {s s' : App} {t t' : Task} {m : Move} (h : Locked s) (ha : At r s t)
    (hact : act device r s t m = some (s', t')) : Keeps r s s' t' := by
  rcases frame_locks.act hact with ⟨⟨hl, hs⟩, rfl | ⟨ht, ht', hx⟩⟩ | hspecial
  · exact ⟨hl h, ha.spared (hs r), fun q _ => hs q⟩
  · refine ⟨hl h, .rest (fun x p hp => ?_) hx ht', fun q _ => hs q⟩
    exact ha.free ht x p (((hs r).stopping x p).mp hp)
  · exact keeps_special h ha hspecial

/-- **The locks along every run**: whatever the tasks do, the agent that is up in a store is the one of
the launch that has its lock. -/
theorem locked_step {c c' : Crew App Task} {e : ℕ × Move} (h : Holds Locked At c)
    (hs : step (act device) c e = some c') : Holds Locked At c' :=
  holds_step
    (fun _ _ ha => ⟨(keeps_act h.1 (h.2 e.1) ha).locked, (keeps_act h.1 (h.2 e.1) ha).here⟩)
    (fun _ _ ha q hq => (h.2 q).spared ((keeps_act h.1 (h.2 e.1) ha).spares q hq)) hs

theorem locked_start (token : Option AccessToken) (found : String → Bool) :
    Holds Locked At ⟨Launches.start token found, fun _ => .idle⟩ := by
  refine ⟨⟨fun x p hp => ?_, fun x q p hp => ?_, fun p hp => absurd hp List.not_mem_nil⟩,
    fun r => .rest (fun x p hp => ?_) rfl rfl⟩
  · exact absurd hp.symm (Option.some_ne_none p)
  · exact absurd hp.symm (Option.some_ne_none _)
  · exact absurd hp.symm (Option.some_ne_none _)

end IdenGrid.Client.Locks
