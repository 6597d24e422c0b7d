import IdenGrid.Lib.Requests

/-! # Containers of browsers

`PodmanBrowserRunner.start` and `stop`, cut at their commands: any number of calls run at once, in any
number of processes that share a data directory, every command may fail before or after it has had its
effect, and a call may die anywhere with its process. A profile has a lock (`flock` on a file in its
directory), and containers carry their profile as a label.

A `podman run` whose caller has given up may still have its effect later. `exclusive_iff`: this is the
only thing that can bring up a second container of a profile, or one under the hands of a call that has
found none. -/

namespace IdenGrid.Control.Runner

open IdenGrid.Lib.Run IdenGrid.Lib.Requests

/-- A container, with the session in its name and the profile on its label. -/
structure Container where
  session : String
  profile : String
  running : Bool
  deriving DecidableEq, Repr

/-- Who refers to an open lock file: a call, or the entry of a session in `_locks` of a process. -/
inductive Owner
  | call (r : ℕ)
  | entry (proc : ℕ) (session : String)
  deriving DecidableEq, Repr

/-- `left` are the sessions and profiles of the `podman run` commands left behind. -/
structure Host where
  containers : List Container
  owner : String → Option Owner
  left : List (String × String)

/-- The exceptions: those of `_run` for a command that fails, the other ones that are an `Exception`, such
as `TimeoutExpired`, and the ones that are not. -/
inductive Failure
  | runtimeError
  | exception
  | baseException
  deriving DecidableEq, Repr

/-- The command a call waits for, or what it does next. `unwinding`: an exception has left `start`, and
the lock file is closed when its frame goes. -/
inductive Stage
  | idle
  | locking
  | listing
  | cleaning
  | naming
  | removingOld
  | creating (made : Bool)
  | waiting
  | recovering
  | storing
  | unwinding
  | finding
  | stopping
  | removing
  | popping
  | ended
  deriving DecidableEq, Repr

structure Call where
  stage : Stage
  proc : ℕ
  session : String
  profile : String
  deriving DecidableEq, Repr

def Call.new : Call := ⟨.idle, 0, "", ""⟩

/-- What happens to a call. `failure` is what its command raises, `done` says that the command has had its
effect. The last five events are those of the host: a process forgets an entry of its `_locks` when it
ends, a container stops by itself or is removed by somebody else, and a `podman run` that was left behind
has its effect. -/
inductive Event
  | start (proc : ℕ) (session profile : String)
  | flock
  | listed (failure : Option Failure)
  | cleaned (failure : Option Failure)
  | named (failure : Option Failure)
  | removedOld (done : Bool) (failure : Option Failure)
  | made (running : Bool)
  | returned (failure : Option Failure)
  | ready (failure : Option Failure)
  | recovered (done : Bool) (failure : Option Failure)
  | stored
  | dropped
  | stop (proc : ℕ) (session : String)
  | found (failure : Option Failure)
  | stopped (done : Bool) (failure : Option Failure)
  | removed (done : Bool) (failure : Option Failure)
  | popped
  | died
  | forgot (proc : ℕ) (session : String)
  | exited (session : String)
  | vanished (session : String)
  | appeared (session profile : String) (running : Bool)
  deriving DecidableEq, Repr

/-! ## The host -/

/-- The containers of a profile that run. -/
def Host.running (h : Host) (profile : String) : ℕ :=
  h.containers.countP fun c => c.profile == profile && c.running

/-- `_container_exists` -/
def Host.exists (h : Host) (session : String) : Bool := h.containers.any fun c => c.session == session

/-- `podman rm -f` -/
def Host.remove (h : Host) (session : String) : Host :=
  { h with containers := h.containers.filter fun c => c.session != session }

/-- `podman rm` leaves a container that runs. -/
def Host.removeStopped (h : Host) (session : String) : Host :=
  { h with containers := h.containers.filter fun c => c.session != session || c.running }

def Container.halt (session : String) (c : Container) : Container :=
  if c.session = session then { c with running := false } else c

/-- `podman stop` -/
def Host.halt (h : Host) (session : String) : Host :=
  { h with containers := h.containers.map (Container.halt session) }

def Host.add (h : Host) (c : Container) : Host := { h with containers := c :: h.containers }

/-- The lock file that `o` refers to is closed. -/
def Host.close (h : Host) (o : Owner) : Host :=
  { h with owner := fun p => if h.owner p = some o then none else h.owner p }

def Host.own (h : Host) (profile : String) (o : Owner) : Host :=
  { h with owner := Function.update h.owner profile (some o) }

/-- The effect of a command, if it has had it. -/
def Host.effect (h : Host) (f : Host → Host) (done : Bool) : Host := if done then f h else h

/-! ## The calls -/

/-- The `except` clause of `start`. -/
def raised : Failure → Stage
  | .baseException => .unwinding
  | _ => .recovering

/-- A `podman run` that ends by itself leaves nothing behind. -/
def leave (h : Host) (c : Call) (made : Bool) : Failure → Host
  | .runtimeError => h
  | _ => if made then h else { h with left := (c.session, c.profile) :: h.left }

/-- The next thing that happens to the call `r`. -/
def act (r : ℕ) (h : Host) (c : Call) (e : Event) : Option (Host × Call) :=
  match c.stage, e with
  | .idle, .start proc session profile => some (h, ⟨.locking, proc, session, profile⟩)
  | .locking, .flock =>
    if h.owner c.profile = none then some (h.own c.profile (.call r), { c with stage := .listing })
    else some (h, { c with stage := .ended })
  | .listing, .listed none =>
    if h.running c.profile = 0 then some (h, { c with stage := .cleaning })
    else some (h.close (.call r), { c with stage := .ended })
  | .listing, .listed (some _) => some (h, { c with stage := .unwinding })
  | .cleaning, .cleaned none => some (h, { c with stage := .naming })
  | .cleaning, .cleaned (some _) => some (h, { c with stage := .unwinding })
  | .naming, .named none =>
    some (h, { c with stage := if h.exists c.session then .removingOld else .creating false })
  | .naming, .named (some _) => some (h, { c with stage := .unwinding })
  | .removingOld, .removedOld done none =>
    some (h.effect (Host.remove · c.session) done, { c with stage := .creating false })
  | .removingOld, .removedOld done (some _) =>
    some (h.effect (Host.remove · c.session) done, { c with stage := .unwinding })
  | .creating false, .made running =>
    if h.exists c.session then none
    else some (h.add ⟨c.session, c.profile, running⟩, { c with stage := .creating true })
  | .creating made, .returned none => if made then some (h, { c with stage := .waiting }) else none
  | .creating made, .returned (some f) => some (leave h c made f, { c with stage := raised f })
  | .waiting, .ready none => some (h, { c with stage := .storing })
  | .waiting, .ready (some f) => some (h, { c with stage := raised f })
  | .recovering, .recovered done failure =>
    let h := h.effect (Host.remove · c.session) done
    if failure = none ∨ failure = some .runtimeError then
      some (h.close (.call r), { c with stage := .ended })
    else some (h, { c with stage := .unwinding })
  | .storing, .stored =>
    some ((h.close (.entry c.proc c.session)).own c.profile (.entry c.proc c.session),
      { c with stage := .ended })
  | .unwinding, .dropped => some (h.close (.call r), { c with stage := .ended })
  | .idle, .stop proc session => some (h, ⟨.finding, proc, session, ""⟩)
  | .finding, .found none =>
    some (h, { c with stage := if h.exists c.session then .stopping else .popping })
  | .finding, .found (some _) => some (h, { c with stage := .ended })
  | .stopping, .stopped done failure =>
    some (h.effect (Host.halt · c.session) done,
      { c with stage := if failure = none then .removing else .ended })
  | .removing, .removed done failure =>
    some (h.effect (Host.removeStopped · c.session) done,
      { c with stage := if failure = none then .popping else .ended })
  | .popping, .popped => some (h.close (.entry c.proc c.session), { c with stage := .ended })
  | .creating made, .died =>
    some ((leave h c made .baseException).close (.call r), { c with stage := .ended })
  | _, .died => some (h.close (.call r), { c with stage := .ended })
  | _, .forgot proc session => some (h.close (.entry proc session), c)
  | _, .exited session => some (h.halt session, c)
  | _, .vanished session => some (h.remove session, c)
  | _, .appeared session profile running =>
    if (session, profile) ∈ h.left ∧ h.exists session = false then
      some ({ h with left := h.left.erase (session, profile) }.add ⟨session, profile, running⟩, c)
    else none
  | _, _ => none

/-! ## What is to hold -/

/-- The call has locked its profile and not given it back. -/
def Stage.holds : Stage → Bool
  | .listing | .cleaning | .naming | .removingOld | .creating _ | .waiting | .recovering | .storing
  | .unwinding => true
  | _ => false

/-- The call has found no container of its profile, and its own is not there yet. -/
def Stage.past : Stage → Bool
  | .cleaning | .naming | .removingOld | .creating false => true
  | _ => false

/-- **One container a profile**: at most one runs, and none while a call that has looked for them removes
the locks of Chromium, removes an old container of its name, or waits for `podman run`. -/
structure Exclusive (c : Crew Host Call) : Prop where
  one : ∀ profile, c.shared.running profile ≤ 1
  clear : ∀ r, (c.loc r).stage.past = true → c.shared.running (c.loc r).profile = 0

/-- A command that was left behind brings up a container of a profile only if none of it runs and no call
relies on that. -/
def Careful (c : Crew Host Call) : ℕ × Event → Prop
  | (_, .appeared _ profile true) => c.shared.running profile = 0 ∧
      ∀ q, (c.loc q).stage.past = true → (c.loc q).profile ≠ profile
  | _ => True

/-- The host before the first call: no lock file is open. -/
def start (containers : List Container) : Crew Host Call where
  shared := ⟨containers, fun _ => none, []⟩
  loc := fun _ => .new

/-! ## What a step does to the host -/

/-- No more containers run, and every other call refers to the lock files it referred to. -/
structure Keeps (r : ℕ) (h h' : Host) : Prop where
  running : ∀ p, h'.running p ≤ h.running p
  owner : ∀ p q, q ≠ r → h.owner p = some (.call q) → h'.owner p = some (.call q)

variable {r : ℕ} {h h' h'' : Host} {c c' : Call}

theorem Keeps.refl (r : ℕ) (h : Host) : Keeps r h h := ⟨fun _ => le_rfl, fun _ _ _ ho => ho⟩

theorem Keeps.trans (h₁ : Keeps r h h') (h₂ : Keeps r h' h'') : Keeps r h h'' where
  running p := (h₂.running p).trans (h₁.running p)
  owner p q hq ho := h₂.owner p q hq (h₁.owner p q hq ho)

theorem keeps_filter (f : Container → Bool) :
    Keeps r h { h with containers := h.containers.filter f } where
  running p := by
    have hsub : (h.containers.filter f).Sublist h.containers := List.filter_sublist
    exact hsub.countP_le
  owner _ _ _ ho := ho

theorem keeps_halt (session : String) : Keeps r h (h.halt session) where
  running p := by
    rw [Host.running, Host.halt, List.countP_map]
    refine List.countP_mono_left fun c _ hc => ?_
    simp only [Function.comp_apply, Container.halt] at hc
    split at hc
    · simp at hc
    · exact hc
  owner _ _ _ ho := ho

theorem keeps_effect {f : Host → Host} (hf : Keeps r h (f h)) (done : Bool) :
    Keeps r h (h.effect f done) := by
  cases done
  · exact .refl r h
  · exact hf

theorem keeps_leave (c : Call) (made : Bool) (f : Failure) : Keeps r h (leave h c made f) := by
  cases f <;> cases made <;> exact ⟨fun _ => le_rfl, fun _ _ _ ho => ho⟩

theorem keeps_close_call : Keeps r h (h.close (.call r)) where
  running _ := le_rfl
  owner p q hq ho := by
    have hne : h.owner p ≠ some (.call r) := by
      rw [ho]
      simpa using hq
    exact (if_neg hne).trans ho

theorem owner_close_entry {proc : ℕ} {session p : String} {q : ℕ}
    (ho : h.owner p = some (.call q)) : (h.close (.entry proc session)).owner p = some (.call q) := by
  have hne : h.owner p ≠ some (.entry proc session) := by simp [ho]
  exact (if_neg hne).trans ho

theorem keeps_close_entry (proc : ℕ) (session : String) :
    Keeps r h (h.close (.entry proc session)) where
  running _ := le_rfl
  owner _ _ _ ho := owner_close_entry ho

/-- A lock file is taken that is free, or that the call has. -/
theorem keeps_own {profile : String} {o : Owner}
    (hfree : ∀ q, q ≠ r → h.owner profile ≠ some (.call q)) : Keeps r h (h.own profile o) where
  running _ := le_rfl
  owner p q hq ho := by
    have hne : p ≠ profile := by
      rintro rfl
      exact hfree q hq ho
    exact (Function.update_of_ne hne _ _).trans ho

theorem running_add (c : Container) (p : String) :
    (h.add c).running p = h.running p + if c.profile = p ∧ c.running = true then 1 else 0 := by
  simp [Host.running, Host.add, List.countP_cons]

/-! ## The invariant -/

/-- What a call relies on. -/
structure Relies (r : ℕ) (h : Host) (c : Call) : Prop where
  locked : c.stage.holds = true → h.owner c.profile = some (.call r)
  clear : c.stage.past = true → h.running c.profile = 0

def AtMostOne (h : Host) : Prop := ∀ profile, h.running profile ≤ 1

theorem Stage.holds_of_past {s : Stage} (h : s.past = true) : s.holds = true := by
  cases s <;> first | rfl | exact Bool.noConfusion h

/-- A call that no longer has a lock relies on nothing. -/
theorem relies_of_not_holds (h : c.stage.holds = false) : Relies r h' c where
  locked hc := absurd (h.symm.trans hc) Bool.false_ne_true
  clear hc := absurd (h.symm.trans (Stage.holds_of_past hc)) Bool.false_ne_true

/-- Another stage with the same lock, which is not past the check or was so already. -/
theorem Relies.move (hA : Relies r h c) (hholds : c.stage.holds = true)
    (howner : h'.owner c.profile = h.owner c.profile)
    (hrunning : h'.running c.profile ≤ h.running c.profile) {s : Stage}
    (hpast : s.past = true → c.stage.past = true) : Relies r h' { c with stage := s } where
  locked _ := howner.trans (hA.locked hholds)
  clear hs := Nat.le_zero.mp (hrunning.trans_eq (hA.clear (hpast hs)))

theorem Relies.stable (hA : Relies r h c) {q : ℕ} (hq : r ≠ q) (hk : Keeps q h h') :
    Relies r h' c where
  locked hc := hk.owner c.profile r hq (hA.locked hc)
  clear hc := Nat.le_zero.mp ((hk.running c.profile).trans_eq (hA.clear hc))

/-- The two events that bring up a container. -/
def Event.creates : Event → Bool
  | .made _ | .appeared _ _ _ => true
  | _ => false

theorem keeps_effect_filter (f : Container → Bool) (done : Bool) :
    Keeps r h (h.effect (fun h => { h with containers := h.containers.filter f }) done) :=
  keeps_effect (f := fun h => { h with containers := h.containers.filter f }) (keeps_filter f) done

@[simp] theorem owner_effect (f : Host → Host) (hf : (f h).owner = h.owner) (done : Bool) :
    (h.effect f done).owner = h.owner := by
  cases done
  · rfl
  · exact hf

@[simp] theorem owner_leave (c : Call) (made : Bool) (f : Failure) :
    (leave h c made f).owner = h.owner := by
  cases f <;> cases made <;> rfl

theorem raised_past (f : Failure) : (raised f).past = false := by cases f <;> rfl

/-- **One event of a call** that brings up no container. -/
theorem act_keeps {e : Event} (hA : Relies r h c) (he : e.creates = false)
    (ha : act r h c e = some (h', c')) : Keeps r h h' ∧ Relies r h' c' := by
  unfold act at ha
  generalize hstage : c.stage = stage at ha
  have hmove : ∀ s : Stage, stage.holds = true → (s.past = true → stage.past = true) →
      Relies r h { c with stage := s } := fun s hholds hpast =>
    hA.move (hstage ▸ hholds) rfl le_rfl (hstage ▸ hpast)
  split at ha
  case h_2 =>
    split_ifs at ha with hfree
    · obtain ⟨rfl, rfl⟩ := Prod.mk.inj (Option.some.inj ha)
      refine ⟨keeps_own fun q _ => by simp [hfree], fun _ => Function.update_self _ _ _, ?_⟩
      exact fun hpast => absurd hpast Bool.false_ne_true
    · obtain ⟨rfl, rfl⟩ := Prod.mk.inj (Option.some.inj ha)
      exact ⟨.refl r h, relies_of_not_holds rfl⟩
  case h_3 =>
    split_ifs at ha with hnone
    · obtain ⟨rfl, rfl⟩ := Prod.mk.inj (Option.some.inj ha)
      exact ⟨.refl r h, fun _ => hA.locked (by rw [hstage]; rfl), fun _ => hnone⟩
    · obtain ⟨rfl, rfl⟩ := Prod.mk.inj (Option.some.inj ha)
      exact ⟨keeps_close_call, relies_of_not_holds rfl⟩
  case h_7 =>
    obtain ⟨rfl, rfl⟩ := Prod.mk.inj (Option.some.inj ha)
    refine ⟨.refl r h, hmove _ rfl fun _ => rfl⟩
  case h_4 | h_5 | h_6 | h_8 | h_14 =>
    obtain ⟨rfl, rfl⟩ := Prod.mk.inj (Option.some.inj ha)
    exact ⟨.refl r h, hmove _ rfl (by decide)⟩
  case h_9 | h_10 =>
    obtain ⟨rfl, rfl⟩ := Prod.mk.inj (Option.some.inj ha)
    have hk := keeps_effect_filter (r := r) (h := h) (fun x => x.session != c.session) ‹Bool›
    refine ⟨hk, hA.move (hstage ▸ rfl) ?_ (hk.running _) (hstage ▸ by decide)⟩
    exact congrFun (owner_effect _ rfl _) _
  case h_11 => exact Bool.noConfusion he
  case h_12 =>
    split_ifs at ha
    obtain ⟨rfl, rfl⟩ := Prod.mk.inj (Option.some.inj ha)
    exact ⟨.refl r h, hmove _ rfl fun hpast => absurd hpast Bool.false_ne_true⟩
  case h_13 f =>
    obtain ⟨rfl, rfl⟩ := Prod.mk.inj (Option.some.inj ha)
    have hk := keeps_leave (r := r) (h := h) c ‹Bool› f
    refine ⟨hk, hA.move (hstage ▸ rfl) (by rw [owner_leave]) (hk.running _) fun hpast => ?_⟩
    exact absurd (raised_past f) (ne_of_eq_of_ne hpast nofun)
  case h_15 f =>
    obtain ⟨rfl, rfl⟩ := Prod.mk.inj (Option.some.inj ha)
    exact ⟨.refl r h, hmove _ rfl fun hpast => absurd (raised_past f) (ne_of_eq_of_ne hpast nofun)⟩
  case h_16 =>
    have hk := keeps_effect_filter (r := r) (h := h) (fun x => x.session != c.session) ‹Bool›
    split_ifs at ha
    · obtain ⟨rfl, rfl⟩ := Prod.mk.inj (Option.some.inj ha)
      exact ⟨hk.trans keeps_close_call, relies_of_not_holds rfl⟩
    · obtain ⟨rfl, rfl⟩ := Prod.mk.inj (Option.some.inj ha)
      refine ⟨hk, hA.move (hstage ▸ rfl) ?_ (hk.running _) fun hpast => absurd hpast nofun⟩
      exact congrFun (owner_effect _ rfl _) _
  case h_17 =>
    obtain ⟨rfl, rfl⟩ := Prod.mk.inj (Option.some.inj ha)
    have hmine : h.owner c.profile = some (.call r) := hA.locked (hstage ▸ rfl)
    refine ⟨(keeps_close_entry _ _).trans (keeps_own fun q hq => ?_), relies_of_not_holds rfl⟩
    rw [owner_close_entry hmine]
    simpa using hq.symm
  case h_18 | h_26 =>
    obtain ⟨rfl, rfl⟩ := Prod.mk.inj (Option.some.inj ha)
    exact ⟨keeps_close_call, relies_of_not_holds rfl⟩
  case h_1 | h_19 | h_21 =>
    obtain ⟨rfl, rfl⟩ := Prod.mk.inj (Option.some.inj ha)
    exact ⟨.refl r h, relies_of_not_holds rfl⟩
  case h_20 =>
    obtain ⟨rfl, rfl⟩ := Prod.mk.inj (Option.some.inj ha)
    refine ⟨.refl r h, relies_of_not_holds ?_⟩
    dsimp only
    split <;> rfl
  case h_22 =>
    obtain ⟨rfl, rfl⟩ := Prod.mk.inj (Option.some.inj ha)
    refine ⟨keeps_effect (keeps_halt _) _, relies_of_not_holds ?_⟩
    dsimp only
    split <;> rfl
  case h_23 =>
    obtain ⟨rfl, rfl⟩ := Prod.mk.inj (Option.some.inj ha)
    refine ⟨keeps_effect_filter (fun x => x.session != c.session || x.running) _,
      relies_of_not_holds ?_⟩
    dsimp only
    split <;> rfl
  case h_24 =>
    obtain ⟨rfl, rfl⟩ := Prod.mk.inj (Option.some.inj ha)
    exact ⟨keeps_close_entry _ _, relies_of_not_holds rfl⟩
  case h_25 =>
    obtain ⟨rfl, rfl⟩ := Prod.mk.inj (Option.some.inj ha)
    exact ⟨(keeps_leave c _ _).trans keeps_close_call, relies_of_not_holds rfl⟩
  case h_27 =>
    obtain ⟨rfl, rfl⟩ := Prod.mk.inj (Option.some.inj ha)
    have hk := keeps_close_entry (r := r) (h := h) ‹ℕ› ‹String›
    exact ⟨hk, fun hc => owner_close_entry (hA.locked hc), hA.clear⟩
  case h_28 =>
    obtain ⟨rfl, rfl⟩ := Prod.mk.inj (Option.some.inj ha)
    have hk := keeps_halt (r := r) (h := h) ‹String›
    exact ⟨hk, hA.locked, fun hc => Nat.le_zero.mp ((hk.running _).trans_eq (hA.clear hc))⟩
  case h_29 =>
    obtain ⟨rfl, rfl⟩ := Prod.mk.inj (Option.some.inj ha)
    have hk := keeps_filter (r := r) (h := h) fun x => x.session != ‹String›
    exact ⟨hk, hA.locked, fun hc => Nat.le_zero.mp ((hk.running _).trans_eq (hA.clear hc))⟩
  case h_30 => exact Bool.noConfusion he
  case h_31 => cases ha

theorem act_made {running : Bool} (ha : act r h c (.made running) = some (h', c')) :
    c.stage = .creating false ∧ h' = h.add ⟨c.session, c.profile, running⟩ ∧
      c' = { c with stage := .creating true } := by
  unfold act at ha
  generalize hstage : c.stage = stage at ha
  split at ha <;> try contradiction
  rename_i he
  obtain rfl := Event.made.inj he
  split_ifs at ha
  obtain ⟨rfl, rfl⟩ := Prod.mk.inj (Option.some.inj ha)
  exact ⟨rfl, rfl, rfl⟩

theorem act_appeared {session profile : String} {running : Bool}
    (ha : act r h c (.appeared session profile running) = some (h', c')) :
    c' = c ∧ h' = { h with left := h.left.erase (session, profile) }.add ⟨session, profile, running⟩ := by
  unfold act at ha
  split at ha <;> try contradiction
  rename_i he
  obtain ⟨rfl, rfl, rfl⟩ := Event.appeared.inj he
  split_ifs at ha
  obtain ⟨rfl, rfl⟩ := Prod.mk.inj (Option.some.inj ha)
  exact ⟨rfl, rfl⟩

/-- A call keeps the invariant and its own part of it. -/
theorem act_relies {k : Crew Host Call} {e : Event} (hI : AtMostOne k.shared)
    (hA : Relies r k.shared (k.loc r)) (hC : Careful k (r, e))
    (ha : act r k.shared (k.loc r) e = some (h', c')) : AtMostOne h' ∧ Relies r h' c' := by
  rcases hcreates : e.creates with _ | _
  · obtain ⟨hk, hA'⟩ := act_keeps hA hcreates ha
    exact ⟨fun p => (hk.running p).trans (hI p), hA'⟩
  cases e <;> try exact Bool.noConfusion hcreates
  case made running =>
    obtain ⟨hstage, rfl, rfl⟩ := act_made ha
    have hnone : k.shared.running (k.loc r).profile = 0 := hA.clear (by rw [hstage]; rfl)
    refine ⟨fun p => ?_, fun _ => hA.locked (by rw [hstage]; rfl), nofun⟩
    rw [running_add]
    split_ifs with hp
    · rw [← hp.1, hnone]
    · exact hI p
  case appeared session profile running =>
    obtain ⟨rfl, rfl⟩ := act_appeared ha
    cases running with
    | false =>
      have hsame : ∀ p, Host.running (({ k.shared with left := k.shared.left.erase (session, profile) } :
          Host).add ⟨session, profile, false⟩) p = k.shared.running p := fun p => by
        rw [running_add]
        simp [Host.running]
      exact ⟨fun p => (hsame p).trans_le (hI p), hA.locked, fun hp => (hsame _).trans (hA.clear hp)⟩
    | true =>
      obtain ⟨hnone, hothers⟩ := hC
      refine ⟨fun p => ?_, hA.locked, fun hpast => ?_⟩
      · rw [running_add]
        split_ifs with hp
        · rw [← hp.1]
          exact (congrArg (· + 1) hnone).le
        · exact hI p
      · rw [running_add, if_neg fun hp => hothers r hpast hp.1.symm]
        exact hA.clear hpast

/-- A call leaves the other ones what they rely on. -/
theorem act_stable {k : Crew Host Call} {e : Event} {q : ℕ} (hA : Relies r k.shared (k.loc r))
    (hC : Careful k (r, e)) (ha : act r k.shared (k.loc r) e = some (h', c')) (hq : q ≠ r)
    (hAq : Relies q k.shared (k.loc q)) : Relies q h' (k.loc q) := by
  rcases hcreates : e.creates with _ | _
  · exact hAq.stable hq (act_keeps hA hcreates ha).1
  cases e <;> try exact Bool.noConfusion hcreates
  case made running =>
    obtain ⟨hstage, rfl, -⟩ := act_made ha
    have hmine := hA.locked (by rw [hstage]; rfl)
    refine ⟨hAq.locked, fun hpast => ?_⟩
    have hother : (k.loc r).profile ≠ (k.loc q).profile := by
      intro hp
      have hlocked := hAq.locked (Stage.holds_of_past hpast)
      rw [← hp, hmine] at hlocked
      exact hq (Owner.call.inj (Option.some.inj hlocked)).symm
    rw [running_add, if_neg fun hp => hother hp.1]
    exact hAq.clear hpast
  case appeared session profile running =>
    obtain ⟨-, rfl⟩ := act_appeared ha
    refine ⟨hAq.locked, fun hpast => ?_⟩
    rw [running_add]
    cases running with
    | false =>
      rw [if_neg fun hp => Bool.false_ne_true hp.2]
      exact hAq.clear hpast
    | true =>
      rw [if_neg fun hp => hC.2 q hpast hp.1.symm]
      exact hAq.clear hpast

abbrev Invariant : Crew Host Call → Prop := Holds AtMostOne Relies

theorem Invariant.exclusive {k : Crew Host Call} (hI : Invariant k) : Exclusive k :=
  ⟨hI.1, fun r => (hI.2 r).clear⟩

theorem invariant_start {containers : List Container}
    (h : ∀ p, containers.countP (fun c => c.profile == p && c.running) ≤ 1) :
    Invariant (start containers) := ⟨h, fun _ => relies_of_not_holds rfl⟩

/-- A container that comes up where one runs, or under the hands of a call that has found none. -/
theorem careless_step {k k' : Crew Host Call} {e : ℕ × Event} (hC : ¬ Careful k e)
    (hs : step act k e = some k') : ¬ Exclusive k' := by
  obtain ⟨r, e⟩ := e
  obtain ⟨h', c', ha, rfl⟩ := step_eq_some.mp hs
  cases e <;> try exact absurd trivial hC
  case appeared session profile running =>
    cases running with
    | false => exact absurd trivial hC
    | true =>
      obtain ⟨hc', rfl⟩ := act_appeared ha
      intro hE
      have hrunning : k.shared.running profile = 0 := by
        have hone := hE.one profile
        rw [running_add, if_pos ⟨rfl, rfl⟩] at hone
        exact Nat.le_zero.mp (Nat.le_of_succ_le_succ hone)
      refine hC ⟨hrunning, fun q hpast hprofile => ?_⟩
      have hsame : Function.update k.loc r c' q = k.loc q := by
        rcases eq_or_ne q r with rfl | hne
        · rw [Function.update_self, hc']
        · exact Function.update_of_ne hne _ _
      have hclear := hE.clear q (by simpa only [hsame] using hpast)
      simp only [hsame, hprofile, running_add] at hclear
      simp at hclear

/-- **At most one container of a profile**, in every state of a run of any number of calls: exactly if the
commands left behind bring up no container where one runs or a call has found none. -/
theorem exclusive_iff {containers : List Container}
    (hone : ∀ p, containers.countP (fun c => c.profile == p && c.running) ≤ 1)
    {es : List (ℕ × Event)} {k : Crew Host Call} (hrun : run (step act) (start containers) es = some k) :
    Along (step act) Careful (start containers) es ↔
      Visits (step act) Exclusive (start containers) es := by
  refine along_iff_visits (I := Invariant) (fun _ => Invariant.exclusive) ?_ ?_ es _ k
    (invariant_start hone) hrun
  · exact owicki_step (fun k r e h' c' hI hA hC ha => act_relies hI hA hC ha)
      fun k r e h' c' q _ hA hC ha hq hAq => act_stable hA hC ha hq hAq
  · exact fun k e k' _ hC hs => careless_step hC hs

/-- A process ends while it waits for `podman run`, another one starts a browser of the same profile, and
then the first command has its effect. -/
def overtaken : List (ℕ × Event) :=
  [(0, .start 0 "first" "user-1"), (0, .flock), (0, .listed none), (0, .cleaned none),
    (0, .named none), (0, .died), (1, .start 1 "second" "user-1"), (1, .flock), (1, .listed none),
    (1, .cleaned none), (1, .named none), (1, .made true), (1, .returned none), (1, .ready none),
    (1, .stored), (2, .appeared "first" "user-1" true)]

theorem exclusive_iff_overtaken : (∀ p, ([] : List Container).countP
      (fun c => c.profile == p && c.running) ≤ 1) ∧
    ∃ k, run (step act) (start []) overtaken = some k ∧
      (Along (step act) Careful (start []) overtaken ↔
        Visits (step act) Exclusive (start []) overtaken) := by
  have hone : ∀ p, ([] : List Container).countP (fun c => c.profile == p && c.running) ≤ 1 :=
    fun _ => Nat.zero_le 1
  obtain ⟨k, hk⟩ := Option.isSome_iff_exists.mp
    (by decide +kernel : (run (step act) (start []) overtaken).isSome = true)
  exact ⟨hone, k, hk, exclusive_iff hone hk⟩

end IdenGrid.Control.Runner
