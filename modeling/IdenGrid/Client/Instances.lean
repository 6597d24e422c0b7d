import IdenGrid.Lib.Requests

/-! # The lock file of a store across instances of the macOS app

`acquireLock`, `releaseLock` and `recoverStaleLocks` on the lock file of one store, with the processes
of the store, for any number of instances of the app. Each file operation is a step of its own, and so
is each process that is spawned or ends; signals only have processes end, which any may do at any time.
An instance goes by its process id. Which launches have created the lock file and may still spawn
something is bookkeeping (`holders`). -/

namespace IdenGrid.Client.Instances

open IdenGrid.Lib.Run IdenGrid.Lib.Requests

inductive Life
  | unborn
  | alive
  | dead
deriving DecidableEq, Repr

inductive Kind
  | agent
  | browser
deriving DecidableEq, Repr

structure Process where
  launch : ℕ
  kind : Kind
deriving DecidableEq, Repr

/-- The lock file: the launch that created it, and the process id once it is written. -/
structure LockFile where
  creator : ℕ
  pid : Option ℕ
deriving DecidableEq, Repr

structure Holder where
  launch : ℕ
  app : ℕ
deriving DecidableEq, Repr

structure World where
  lock : Option LockFile
  apps : ℕ → Life
  /-- The record of the store in each instance. -/
  running : ℕ → Option ℕ
  processes : List Process
  holders : List Holder

inductive Task
  | idle
  /-- `launch`: before `open`, before `write`, before the agent, and before the browser. -/
  | opening (app : ℕ)
  | created (app : ℕ)
  | locked (app : ℕ)
  | waiting (app : ℕ)
  /-- Before `removeItem` in `releaseLock`. -/
  | releasing (app : ℕ)
  /-- In `quitAllAndWait`: for the browser, then (with the result) for the agent. -/
  | stopping (app record : ℕ) (browserStopped : Option Bool)
  /-- `recoverStaleLocks`: before `String(contentsOf:)`, before `kill`, before `removeItem`. -/
  | reading (app : ℕ)
  | checking (app pid : ℕ)
  | removing (app : ℕ)
  | ended
deriving DecidableEq, Repr

/-- The instance a task runs in. -/
def Task.app? : Task → Option ℕ
  | .opening app | .created app | .locked app | .waiting app | .releasing app | .stopping app _ _
  | .reading app | .checking app _ | .removing app => some app
  | .idle | .ended => none

/-- How far `launch` gets between the lock and its first await: it fails before the agent is up, or
afterwards (`logHandle.close()`), or not. -/
inductive Prepared
  | failed
  | leaked
  | spawned
deriving DecidableEq, Repr

inductive Move
  | start (app : ℕ)
  | launch (app : ℕ)
  | open
  | write
  | prepared (outcome : Prepared)
  | verified (ok : Bool)
  /-- `close`, `quitAll` or `handleUnexpectedExit`. -/
  | close (app : ℕ)
  | quit (app : ℕ)
  | waited
  | release
  | read
  /-- `kill(pid, 0)`; `taken` if another program has the process id. -/
  | check (taken : Bool)
  | remove
  | exit (launch : ℕ) (kind : Kind)
  | crash (app : ℕ)
deriving DecidableEq, Repr

namespace World

def isRunning (w : World) (launch : ℕ) (kind : Kind) : Bool := ⟨launch, kind⟩ ∈ w.processes

def spawn (w : World) (launch : ℕ) (kind : Kind) : World :=
  { w with processes := ⟨launch, kind⟩ :: w.processes }

/-- The launch `r` has spawned all it will. -/
def leave (w : World) (r : ℕ) : World :=
  { w with holders := w.holders.filter fun h => h.launch ≠ r }

end World

/-- `open` with `O_CREAT | O_EXCL`. -/
def openLock (r : ℕ) (w : World) (app : ℕ) : World × Task :=
  match w.lock with
  | some _ => (w, .ended)
  | none =>
    ({ w with lock := some ⟨r, none⟩, holders := ⟨r, app⟩ :: w.holders }, .created app)

/-- The write goes to the file that the launch created, wherever that is by now. -/
def writePid (r : ℕ) (w : World) (app : ℕ) : World :=
  { w with lock := w.lock.map fun file =>
      if file.creator = r then { file with pid := some app } else file }

/-- `launch` after `acquireLock`, up to its first await. -/
def prepared (r : ℕ) (w : World) (app : ℕ) : Prepared → World × Task
  | .failed => (w.leave r, .releasing app)
  | .leaked => ((w.spawn r .agent).leave r, .releasing app)
  | .spawned => (w.spawn r .agent, .waiting app)

/-- `launch` after `verifyEgress`. -/
def verified (r : ℕ) (w : World) (app : ℕ) (ok : Bool) : World × Task :=
  if ok then
    ({ (w.spawn r .browser).leave r with running := Function.update w.running app (some r) }, .ended)
  else (w.leave r, .releasing app)

/-- `quitAllAndWait` after both waits. -/
def stopped (w : World) (app record : ℕ) (both : Bool) : World × Task :=
  if both then (w, .releasing app)
  else ({ w with running := Function.update w.running app (some record) }, .ended)

def readLock (w : World) (app : ℕ) : Task :=
  match w.lock.bind LockFile.pid with
  | some pid => .checking app pid
  | none => .ended

def crash (w : World) (app : ℕ) : World :=
  { w with
    apps := Function.update w.apps app .dead
    holders := w.holders.filter fun h => h.app ≠ app }

/-- A step of a task whose instance is alive. -/
def advance (r : ℕ) (w : World) (t : Task) (m : Move) : Option (World × Task) :=
  match m, t with
  | .open, .opening app => some (openLock r w app)
  | .write, .created app => some (writePid r w app, .locked app)
  | .prepared outcome, .locked app => some (prepared r w app outcome)
  | .verified ok, .waiting app => some (verified r w app ok)
  | .waited, .stopping app record none =>
    some (w, .stopping app record (some ¬ w.isRunning record .browser))
  | .waited, .stopping app record (some browserStopped) =>
    some (stopped w app record (browserStopped ∧ ¬ w.isRunning record .agent))
  | .release, .releasing _ => some ({ w with lock := none }, .ended)
  | .read, .reading app => some (w, readLock w app)
  | .check taken, .checking app pid =>
    some (w, if w.apps pid = .alive ∨ taken then .ended else .removing app)
  | .remove, .removing _ => some ({ w with lock := none }, .ended)
  | _, _ => none

def act (r : ℕ) (w : World) (t : Task) (m : Move) : Option (World × Task) :=
  match m, t with
  | .start app, .idle =>
    if w.apps app = .unborn then
      some ({ w with apps := Function.update w.apps app .alive }, .reading app)
    else none
  | .launch app, .idle =>
    if w.apps app = .alive ∧ w.running app = none then some (w, .opening app) else none
  | .close app, .idle =>
    if w.apps app = .alive ∧ (w.running app).isSome then
      some ({ w with running := Function.update w.running app none }, .releasing app)
    else none
  | .quit app, .idle =>
    if w.apps app = .alive then
      (w.running app).map fun record =>
        ({ w with running := Function.update w.running app none }, .stopping app record none)
    else none
  | .exit launch kind, t =>
    some ({ w with processes := w.processes.filter fun p => p ≠ ⟨launch, kind⟩ }, t)
  | .crash app, t => if w.apps app = .alive then some (crash w app, t) else none
  | m, t =>
    match t.app? with
    | some app => if w.apps app = .alive then advance r w t m else none
    | none => none

/-- No process of the store is alive and no instance has started yet; a lock file may have been left
behind. -/
def before (lock : Option LockFile) : Crew World Task where
  shared := ⟨lock, fun _ => .unborn, fun _ => none, [], []⟩
  loc _ := .idle

/-! ## One task on its own -/

/-- One task moves. -/
def solo (i : ℕ) (p : World × Task) (m : Move) : Option (World × Task) := act i p.1 p.2 m

/-- Of the tasks with odd numbers, those from `n` on have not begun. -/
def Unused (n : ℕ) (loc : ℕ → Task) : Prop := ∀ k, n ≤ k → loc (2 * k + 1) = .idle

section Solo

variable {i : ℕ} {w : World}

/-- The lock file is there, with the process id in it. -/
def lockedBy (i : ℕ) (w : World) : World :=
  { w with lock := some ⟨i, some 1⟩, holders := ⟨i, 1⟩ :: w.holders }

/-- The lock file is created, and the launch gets to its first await. -/
theorem run_entered (hw : w.apps 1 = .alive) (hrun : w.running 1 = none) (hlock : w.lock = none)
    (outcome : Prepared) (ms : List Move) :
    run (solo i) (w, .idle) (.launch 1 :: .open :: .write :: .prepared outcome :: ms) =
      run (solo i) (prepared i (lockedBy i w) 1 outcome) ms := by
  simp [run, solo, act, advance, Task.app?, openLock, writePid, hw, hrun, hlock, lockedBy]

theorem run_verified (hw : w.apps 1 = .alive) (ok : Bool) (ms : List Move) :
    run (solo i) (w, .waiting 1) (.verified ok :: ms) = run (solo i) (verified i w 1 ok) ms := by
  simp [run, solo, act, advance, Task.app?, hw]

theorem run_release (hw : w.apps 1 = .alive) :
    run (solo i) (w, .releasing 1) [.release] = some ({ w with lock := none }, .ended) := by
  simp [run, solo, act, advance, Task.app?, hw]

theorem run_close (hw : w.apps 1 = .alive) (hrun : (w.running 1).isSome = true) :
    run (solo i) (w, .idle) [.close 1, .release] =
      some ({ w with running := Function.update w.running 1 none, lock := none }, .ended) := by
  simp [run, solo, act, advance, Task.app?, hw, hrun]

theorem run_quit (hw : w.apps 1 = .alive) {record : ℕ} (hrun : w.running 1 = some record) :
    run (solo i) (w, .idle) [.quit 1] =
      some ({ w with running := Function.update w.running 1 none }, .stopping 1 record none) := by
  simp [run, solo, act, hw, hrun]

/-- The first instance has started and has left the lock file where it was: a process id in there is
that of a process that is alive. -/
theorem run_started (lock : Option LockFile) : ∃ ms,
    run (solo 1) ((before lock).shared, .idle) ms =
      some ({ (before lock).shared with
        apps := Function.update (before lock).shared.apps 1 .alive }, .ended) := by
  rcases hpid : lock.bind LockFile.pid with _ | pid
  · refine ⟨[.start 1, .read], ?_⟩
    simp [run, solo, before, act, advance, Task.app?, readLock, hpid]
  · refine ⟨[.start 1, .read, .check true], ?_⟩
    simp [run, solo, before, act, advance, Task.app?, readLock, hpid]

end Solo

/-! ## One pair of processes -/

/-- At most one browser and at most one agent are alive. -/
def OnePair (c : Crew World Task) : Prop :=
  ∀ kind, (c.shared.processes.filter fun p => p.kind = kind).length ≤ 1

/-- The lock file is created only when no process of the store is alive and no other launch that created
it may still start one. -/
def exclusive (w : World) (t : Task) (m : Move) : Bool :=
  match m, t with
  | .open, .opening _ => w.lock = none → w.processes = [] ∧ w.holders = []
  | _, _ => true

def Exclusive (c : Crew World Task) (e : ℕ × Move) : Prop := exclusive c.shared (c.loc e.1) e.2 = true

instance decidableExclusive (c : Crew World Task) (e : ℕ × Move) : Decidable (Exclusive c e) :=
  inferInstanceAs (Decidable (_ = _))

/-- All processes are those of the one launch that has created the lock. -/
structure Single (w : World) : Prop where
  holders : ∀ h ∈ w.holders, ∀ h' ∈ w.holders, h.launch = h'.launch
  owned : ∀ p ∈ w.processes, ∀ h ∈ w.holders, p.launch = h.launch
  pair : ∀ kind, (w.processes.filter fun p => p.kind = kind).length ≤ 1

/-- The processes that a launch has spawned so far. -/
def Spawned (w : World) (r : ℕ) : Task → Prop
  | .created _ | .locked _ => ∀ p ∈ w.processes, p.launch ≠ r
  | .waiting _ => ∀ p ∈ w.processes, p.launch = r → p.kind = .agent
  | _ => True

/-- The task may still spawn a process. -/
def Task.holds : Task → Option ℕ
  | .created app | .locked app | .waiting app => some app
  | _ => none

structure At (r : ℕ) (w : World) (t : Task) : Prop where
  born : ∀ app, t.app? = some app → w.apps app ≠ .unborn
  holder : ∀ app, Task.holds t = some app → w.apps app = .alive → ⟨r, app⟩ ∈ w.holders
  spawned : ∀ app, Task.holds t = some app → w.apps app = .alive → Spawned w r t

/-- From `w` to `w'` nothing is taken from the task `q`. -/
structure Spares (q : ℕ) (w w' : World) : Prop where
  born : ∀ app, w.apps app ≠ .unborn → w'.apps app ≠ .unborn
  alive : ∀ app, w'.apps app = .alive → w.apps app ≠ .unborn → w.apps app = .alive
  holder : ∀ app, w'.apps app = .alive → ⟨q, app⟩ ∈ w.holders → ⟨q, app⟩ ∈ w'.holders
  spawned : ∀ p ∈ w'.processes, p.launch = q → p ∈ w.processes

theorem app?_of_holds {t : Task} {app : ℕ} (h : Task.holds t = some app) : t.app? = some app := by
  cases t <;> first | exact h | exact absurd h.symm (Option.some_ne_none app)

theorem Spawned.mono {q : ℕ} {w w' : World} (hs : ∀ p ∈ w'.processes, p.launch = q → p ∈ w.processes)
    {t : Task} (h : Spawned w q t) : Spawned w' q t := by
  cases t with
  | created | locked => exact fun p hp hq => h p (hs p hp hq) hq
  | waiting => exact fun p hp hq => h p (hs p hp hq) hq
  | _ => trivial

theorem At.spared {q : ℕ} {w w' : World} {t : Task} (h : At q w t) (hs : Spares q w w') :
    At q w' t where
  born app ha := hs.born app (h.born app ha)
  holder app ha hl :=
    hs.holder app hl (h.holder app ha (hs.alive app hl (h.born app (app?_of_holds ha))))
  spawned app ha hl :=
    (h.spawned app ha (hs.alive app hl (h.born app (app?_of_holds ha)))).mono hs.spawned

/-- What a step of the task `r` leaves behind. -/
structure Keeps (r : ℕ) (w w' : World) (t' : Task) : Prop where
  single : Single w'
  here : At r w' t'
  spares : ∀ q, q ≠ r → Spares q w w'

/-- A task that cannot spawn anything. -/
theorem At.rest {r : ℕ} {w : World} {t : Task} (hb : ∀ app, t.app? = some app → w.apps app ≠ .unborn)
    (ht : Task.holds t = none) : At r w t where
  born := hb
  holder app ha := absurd (ha.symm.trans ht) (Option.some_ne_none app)
  spawned app ha := absurd (ha.symm.trans ht) (Option.some_ne_none app)

/-! ## The steps -/

theorem Spares.of_eq {q : ℕ} {w w' : World} (ha : w'.apps = w.apps) (hh : w'.holders = w.holders)
    (hp : w'.processes = w.processes) : Spares q w w' where
  born app h := by rw [ha]; exact h
  alive app h _ := by rwa [ha] at h
  holder app _ h := by rw [hh]; exact h
  spawned p h _ := by rwa [hp] at h

theorem Single.of_eq {w w' : World} (h : Single w) (hh : w'.holders = w.holders)
    (hp : w'.processes = w.processes) : Single w' where
  holders := by rw [hh]; exact h.holders
  owned := by rw [hh, hp]; exact h.owned
  pair := by rw [hp]; exact h.pair

/-- A step that is neither on the processes nor on their launches. -/
theorem Keeps.moves {r : ℕ} {w w' : World} {t' : Task} (h : Single w) (ha : w'.apps = w.apps)
    (hh : w'.holders = w.holders) (hp : w'.processes = w.processes) (hat : At r w' t') :
    Keeps r w w' t' :=
  ⟨h.of_eq hh hp, hat, fun _ _ => .of_eq ha hh hp⟩

section Steps

variable {r : ℕ} {w : World} {app : ℕ}

theorem single_leave (h : Single w) : Single (w.leave r) where
  holders a ha b hb := h.holders a (List.mem_of_mem_filter ha) b (List.mem_of_mem_filter hb)
  owned p hp a ha := h.owned p hp a (List.mem_of_mem_filter ha)
  pair := h.pair

theorem spares_leave {q : ℕ} (hq : q ≠ r) : Spares q w (w.leave r) where
  born _ := id
  alive _ h _ := h
  holder _ _ h := List.mem_filter.mpr ⟨h, decide_eq_true hq⟩
  spawned _ h _ := h

/-- A launch that fails. -/
theorem keeps_leave (h : Single w) (halive : w.apps app = .alive) :
    Keeps r w (w.leave r) (.releasing app) := by
  refine ⟨single_leave h, .rest (fun a ha => ?_) rfl, fun q hq => spares_leave hq⟩
  obtain rfl : app = a := Option.some.inj ha
  change w.apps app ≠ .unborn
  rw [halive]
  exact Life.noConfusion

theorem keeps_openLock (h : Single w) (ha : At r w (.opening app))
    (he : exclusive w (.opening app) .open = true) :
    Keeps r w (openLock r w app).1 (openLock r w app).2 := by
  unfold openLock
  split
  · exact .moves h rfl rfl rfl (.rest (fun a ha => absurd ha.symm (Option.some_ne_none a)) rfl)
  · next hlock =>
    obtain ⟨hp, hh⟩ := of_decide_eq_true he hlock
    have hnone : ∀ {P : Prop}, ∀ p ∈ w.processes, P := by
      intro P p hmem
      rw [hp] at hmem
      exact absurd hmem List.not_mem_nil
    refine ⟨⟨fun a ha b hb => ?_, fun p hp => hnone p hp, h.pair⟩,
      ⟨ha.born, fun a ha _ => ?_, fun _ _ _ p hp => hnone p hp⟩,
      fun q hq => ⟨fun _ => id, fun _ h _ => h, ?_, fun p h _ => h⟩⟩
    · change a ∈ ⟨r, app⟩ :: w.holders at ha
      change b ∈ ⟨r, app⟩ :: w.holders at hb
      rw [hh, List.mem_singleton] at ha hb
      rw [ha, hb]
    · obtain rfl : app = a := Option.some.inj ha
      exact List.mem_cons_self
    · exact fun a _ ha => List.mem_cons_of_mem _ ha

/-- The agent of a launch is the only process. -/
theorem single_spawn (h : Single w) (ha : At r w (.locked app)) (halive : w.apps app = .alive) :
    Single (w.spawn r .agent) ∧ ∀ p ∈ (w.spawn r .agent).processes, p.kind = .agent := by
  have hmem := ha.holder app rfl halive
  have hnone : w.processes = [] := by
    refine List.eq_nil_iff_forall_not_mem.mpr fun p hp => ?_
    exact ha.spawned app rfl halive p hp (h.owned p hp _ hmem)
  have hone : (w.spawn r .agent).processes = [⟨r, .agent⟩] := congrArg (List.cons _) hnone
  refine ⟨⟨h.holders, fun p hp a ha => ?_, fun kind => ?_⟩, fun p hp => ?_⟩
  · rw [hone, List.mem_singleton] at hp
    rw [hp]
    exact h.holders _ hmem a ha
  · rw [hone]
    exact List.length_filter_le _ _
  · rw [hone, List.mem_singleton] at hp
    rw [hp]

theorem spares_spawn {q : ℕ} (hq : q ≠ r) (kind : Kind) : Spares q w (w.spawn r kind) where
  born _ := id
  alive _ h _ := h
  holder _ _ := id
  spawned p hp hpq := by
    rcases List.mem_cons.mp hp with rfl | hp
    · exact absurd hpq.symm hq
    · exact hp

theorem keeps_prepared (h : Single w) (ha : At r w (.locked app)) (halive : w.apps app = .alive)
    (outcome : Prepared) : Keeps r w (prepared r w app outcome).1 (prepared r w app outcome).2 := by
  cases outcome with
  | failed => exact keeps_leave h halive
  | leaked =>
    have hk : Keeps r (w.spawn r .agent) ((w.spawn r .agent).leave r) (.releasing app) :=
      keeps_leave (single_spawn h ha halive).1 halive
    refine ⟨hk.single, hk.here, fun q hq => ⟨fun _ => id, fun _ h _ => h, ?_, ?_⟩⟩
    · exact (spares_leave hq).holder
    · exact (spares_spawn hq .agent).spawned
  | spawned =>
    obtain ⟨hsingle, hagent⟩ := single_spawn h ha halive
    refine ⟨hsingle, ⟨ha.born, fun a hh _ => ?_, fun a _ _ p hp _ => hagent p hp⟩,
      fun q hq => spares_spawn hq .agent⟩
    obtain rfl : app = a := Option.some.inj hh
    exact ha.holder app rfl halive

theorem keeps_verified (h : Single w) (ha : At r w (.waiting app)) (halive : w.apps app = .alive)
    (ok : Bool) : Keeps r w (verified r w app ok).1 (verified r w app ok).2 := by
  cases ok with
  | false => exact keeps_leave h halive
  | true =>
    have hmem := ha.holder app rfl halive
    have hagent : ∀ p ∈ w.processes, p.kind = .agent := fun p hp =>
      ha.spawned app rfl halive p hp (h.owned p hp _ hmem)
    refine ⟨⟨(single_leave h).holders, fun p hp a ha => ?_, fun kind => ?_⟩,
      .rest (fun a ha => absurd ha.symm (Option.some_ne_none a)) rfl,
      fun q hq => ⟨fun _ => id, fun _ h _ => h, fun _ _ h => ?_, fun p hp hpq => ?_⟩⟩
    · have ha := List.mem_of_mem_filter ha
      rcases List.mem_cons.mp hp with rfl | hp
      · exact h.holders _ hmem a ha
      · exact h.owned p hp a ha
    · change ((⟨r, .browser⟩ :: w.processes).filter fun p => p.kind = kind).length ≤ 1
      cases kind with
      | agent => exact h.pair .agent
      | browser =>
        have hnil : (w.processes.filter fun p => p.kind = .browser) = [] := by
          refine List.filter_eq_nil_iff.mpr fun p hp => ?_
          rw [hagent p hp]
          decide
        rw [List.filter_cons_of_pos (by rfl), hnil]
        exact le_rfl
    · exact List.mem_filter.mpr ⟨h, decide_eq_true hq⟩
    · rcases List.mem_cons.mp hp with rfl | hp
      · exact absurd hpq.symm hq
      · exact hp

end Steps

theorem keeps_advance {r app : ℕ} {w w' : World} {t t' : Task} {m : Move} (h : Single w)
    (ha : At r w t) (happ : t.app? = some app) (halive : w.apps app = .alive)
    (he : exclusive w t m = true) (hact : advance r w t m = some (w', t')) : Keeps r w w' t' := by
  have step : ∀ {p : World × Task}, Keeps r w p.1 p.2 → some p = some (w', t') →
      Keeps r w w' t' := by
    rintro p hp hs
    obtain rfl := Option.some.inj hs
    exact hp
  have ended : ∀ {w : World}, At r w .ended :=
    .rest (fun a ha => absurd ha.symm (Option.some_ne_none a)) rfl
  unfold advance at hact
  split at hact
  · exact step (keeps_openLock h ha he) hact
  · next a =>
    exact step (.moves h rfl rfl rfl ⟨ha.born, ha.holder, ha.spawned⟩) hact
  · obtain rfl := Option.some.inj happ
    exact step (keeps_prepared h ha halive _) hact
  · obtain rfl := Option.some.inj happ
    exact step (keeps_verified h ha halive _) hact
  · exact step (.moves h rfl rfl rfl (.rest ha.born rfl)) hact
  · refine step ?_ hact
    unfold stopped
    split
    · exact .moves h rfl rfl rfl (.rest ha.born rfl)
    · exact .moves h rfl rfl rfl ended
  · exact step (.moves h rfl rfl rfl ended) hact
  · refine step (.moves h rfl rfl rfl ?_) hact
    unfold readLock
    split
    · exact .rest ha.born rfl
    · exact ended
  · refine step (.moves h rfl rfl rfl ?_) hact
    dsimp only
    split
    · exact ended
    · exact .rest ha.born rfl
  · exact step (.moves h rfl rfl rfl ended) hact
  · exact absurd hact.symm (Option.some_ne_none _)

theorem keeps_start {r app : ℕ} {w : World} (h : Single w) (happ : w.apps app = .unborn) :
    Keeps r w { w with apps := Function.update w.apps app .alive } (.reading app) := by
  refine ⟨h.of_eq rfl rfl, .rest (fun a ha => ?_) rfl,
    fun q _ => ⟨fun a hb => ?_, fun a hl hb => ?_, fun _ _ => id, fun _ hp _ => hp⟩⟩
  · obtain rfl : app = a := Option.some.inj ha
    change Function.update w.apps app .alive app ≠ .unborn
    rw [Function.update_self]
    exact Life.noConfusion
  · change Function.update w.apps app .alive a ≠ .unborn
    rcases eq_or_ne a app with rfl | hne
    · exact absurd happ hb
    · rwa [Function.update_of_ne hne]
  · change Function.update w.apps app .alive a = .alive at hl
    rcases eq_or_ne a app with rfl | hne
    · exact absurd happ hb
    · rwa [Function.update_of_ne hne] at hl

theorem single_crash {w : World} (h : Single w) (app : ℕ) : Single (crash w app) where
  holders a ha b hb := h.holders a (List.mem_of_mem_filter ha) b (List.mem_of_mem_filter hb)
  owned p hp a ha := h.owned p hp a (List.mem_of_mem_filter ha)
  pair := h.pair

theorem spares_crash (q : ℕ) (w : World) (app : ℕ) : Spares q w (crash w app) := by
  have hne : ∀ a, Function.update w.apps app .dead a = .alive → a ≠ app := by
    rintro a hl rfl
    rw [Function.update_self] at hl
    exact Life.noConfusion hl
  refine ⟨fun a hb => ?_, fun a hl _ => ?_, fun a hl hmem => ?_, fun _ hp _ => hp⟩
  · change Function.update w.apps app .dead a ≠ .unborn
    rcases eq_or_ne a app with rfl | hx
    · rw [Function.update_self]
      exact Life.noConfusion
    · rwa [Function.update_of_ne hx]
  · exact (Function.update_of_ne (hne a hl) _ _).symm.trans hl
  · exact List.mem_filter.mpr ⟨hmem, decide_eq_true (hne a hl)⟩

theorem single_exit {w : World} (h : Single w) (launch : ℕ) (kind : Kind) :
    Single { w with processes := w.processes.filter fun p => p ≠ ⟨launch, kind⟩ } where
  holders := h.holders
  owned p hp := h.owned p (List.mem_of_mem_filter hp)
  pair k := by
    refine le_trans ?_ (h.pair k)
    exact (List.filter_sublist.filter _).length_le

theorem keeps_act {r : ℕ} {w w' : World} {t t' : Task} {m : Move} (h : Single w) (ha : At r w t)
    (he : exclusive w t m = true) (hact : act r w t m = some (w', t')) : Keeps r w w' t' := by
  have alone : ∀ {w₁ : World}, Single w₁ → (∀ q, Spares q w w₁) → some (w₁, t) = some (w', t') →
      Keeps r w w' t' := by
    rintro w₁ hw hs hp
    obtain ⟨rfl, rfl⟩ := Prod.mk.inj (Option.some.inj hp)
    exact ⟨hw, ha.spared (hs r), fun q _ => hs q⟩
  have hno : ∀ {p : World × Task}, none = some p → Keeps r w w' t' :=
    fun hp => absurd hp.symm (Option.some_ne_none _)
  have hborn : ∀ {app}, w.apps app = .alive → ∀ a, some app = some a → w.apps a ≠ .unborn := by
    rintro app hl a ha
    obtain rfl := Option.some.inj ha
    rw [hl]
    exact Life.noConfusion
  unfold act at hact
  split at hact
  · split at hact
    · next happ =>
      obtain ⟨rfl, rfl⟩ := Prod.mk.inj (Option.some.inj hact)
      exact keeps_start h happ
    · exact hno hact
  · split at hact
    · next hl =>
      obtain ⟨rfl, rfl⟩ := Prod.mk.inj (Option.some.inj hact)
      exact .moves h rfl rfl rfl (.rest (hborn hl.1) rfl)
    · exact hno hact
  · split at hact
    · next hl =>
      obtain ⟨rfl, rfl⟩ := Prod.mk.inj (Option.some.inj hact)
      exact .moves h rfl rfl rfl (.rest (hborn hl.1) rfl)
    · exact hno hact
  · split at hact
    · next hl =>
      obtain ⟨record, -, hp⟩ := Option.map_eq_some_iff.mp hact
      obtain ⟨rfl, rfl⟩ := Prod.mk.inj hp
      exact .moves h rfl rfl rfl (.rest (hborn hl) rfl)
    · exact hno hact
  · exact alone (single_exit h _ _)
      (fun q => ⟨fun _ => id, fun _ hl _ => hl, fun _ _ => id, fun p hp _ => List.mem_of_mem_filter hp⟩)
      hact
  · split at hact
    · exact alone (single_crash h _) (fun q => spares_crash q w _) hact
    · exact hno hact
  · split at hact
    · next app happ =>
      split at hact
      · next halive => exact keeps_advance h ha happ halive he hact
      · exact hno hact
    · exact hno hact

/-- **One pair per store**: in every run in which the lock file is only created when no process of the
store is alive and no launch that created it before is still under way, at most one browser and one
agent of the store are alive at any time, whatever the instances of the app do. -/
theorem onePair_of_exclusive (lock : Option LockFile) (as : List (ℕ × Move))
    (he : Along (step act) Exclusive (before lock) as) :
    Visits (step act) OnePair (before lock) as := by
  have h0 : Holds Single At (before lock) := by
    refine ⟨⟨fun h hh => absurd hh List.not_mem_nil, fun p hp => absurd hp List.not_mem_nil,
      fun kind => Nat.zero_le 1⟩, fun r => .rest (fun app ha => ?_) rfl⟩
    exact absurd ha.symm (Option.some_ne_none app)
  rintro pre ⟨post, rfl⟩ c hr
  rw [along_append] at he
  have hc : Holds Single At c := run_owicki (C := Exclusive)
    (fun c r a w' t' hI hA hC hact =>
      ⟨(keeps_act hI hA hC hact).single, (keeps_act hI hA hC hact).here⟩)
    (fun c r a w' t' q hI hA hC hact hq hAq => hAq.spared ((keeps_act hI hA hC hact).spares q hq))
    h0 he.1 hr
  exact hc.1.pair

/-! ## Three ways to two pairs -/

/-- The launch `r` in the instance `app`, with success. -/
def launchIn (app r : ℕ) : List (ℕ × Move) :=
  [(r, .launch app), (r, .open), (r, .write), (r, .prepared .spawned), (r, .verified true)]

/-- The instance `app` starts, its recovery being the task `r`. -/
def opened (app r : ℕ) : List (ℕ × Move) := [(r, .start app), (r, .read)]

/-- The store is closed and launched again before its processes have ended. -/
def closedEarly : List (ℕ × Move) :=
  opened 0 0 ++ launchIn 0 1 ++ [(2, .close 0), (2, .release)] ++ launchIn 0 3

/-- The app crashes, and the next instance clears the lock of the processes it leaves behind. -/
def crashed : List (ℕ × Move) :=
  opened 0 0 ++ launchIn 0 1 ++ [(1, .crash 0)] ++ opened 1 2 ++
    [(2, .check false), (2, .remove)] ++ launchIn 1 3

/-- Two instances find the same stale lock; one removes the lock that the other has made since. -/
def swept : List (ℕ × Move) :=
  opened 0 0 ++ [(0, .check false)] ++ opened 1 1 ++ [(1, .check false), (1, .remove)] ++
    launchIn 1 2 ++ [(0, .remove)] ++ launchIn 0 3

theorem two_browsers {lock : Option LockFile} {moves : List (ℕ × Move)}
    (h : ((run (step act) (before lock) moves).any fun c =>
      1 < (c.shared.processes.filter fun q => q.kind = .browser).length) = true) :
    ∃ c, run (step act) (before lock) moves = some c ∧ ¬ OnePair c := by
  obtain ⟨c, hc, htwo⟩ := (Option.any_eq_true _ _).mp h
  exact ⟨c, hc, fun hone => absurd (hone .browser) (not_le.mpr (of_decide_eq_true htwo))⟩

/-- **Two browsers on one profile**: after a close, after a crash, and after two starts at a time. -/
theorem two_pairs :
    (∃ c, run (step act) (before none) closedEarly = some c ∧ ¬ OnePair c) ∧
    (∃ c, run (step act) (before none) crashed = some c ∧ ¬ OnePair c) ∧
    ∃ c, run (step act) (before (some ⟨7, some 9⟩)) swept = some c ∧ ¬ OnePair c := by
  refine ⟨two_browsers ?_, two_browsers ?_, two_browsers ?_⟩
  · decide +kernel
  · decide +kernel
  · decide +kernel

/-- The store is launched again when its processes have ended. -/
def relaunched : List (ℕ × Move) :=
  opened 0 0 ++ launchIn 0 1 ++ [(2, .close 0), (1, .exit 1 .agent), (1, .exit 1 .browser),
    (2, .release)] ++ launchIn 0 3

theorem onePair_relaunched : Visits (step act) OnePair (before none) relaunched :=
  onePair_of_exclusive none relaunched (by decide +kernel)

end IdenGrid.Client.Instances
