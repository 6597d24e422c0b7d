import IdenGrid.Client.Drains

/-! # What each task of the manager relies on

`Sound` is the invariant of the shared tables, `At r s t` what is known of the task `r` where it stands
at `t`: its slot in `starting`, the record that it cleans up, and, in `QuitAllAsync`, which stores are
cleared already. `Does r s s'` bounds what one step of `r` does to the tables, and `At.stable` says that
no such step disturbs what is known of another task. -/

namespace IdenGrid.Client.Cleanups

open IdenGrid.Client.Drains

/-! ## The shared tables -/

/-- The launches on record in the tables have all read the drain generation of `g` or a later one. -/
def Since (g : ℕ) (s : Manager) : Prop :=
  (∀ x v, s.running.lookup x = some v → g ≤ v.observed) ∧
    ∀ x u o, s.starting.lookup x = some ⟨u, some o⟩ → g ≤ o

/-- The cleanup of every record that has been registered runs exactly once: it has not run where the
record is running, and has run once where it is not. -/
structure Once (s : Manager) : Prop where
  cleaned : s.cleaned.Nodup
  running : ∀ x v, s.running.lookup x = some v → v.launch ∉ s.cleaned
  registered : ∀ x p, (x, p) ∈ s.registered →
    (s.running.lookup x).map RunningStore.launch = some p ∨ p ∈ s.cleaned

structure Sound (s : Manager) : Prop extends Once s where
  entered : ∀ x v, s.running.lookup x = some v → (x, v.launch) ∈ s.registered
  store : ∀ x y p, (x, p) ∈ s.registered → (y, p) ∈ s.registered → x = y
  claims : ∀ p ∈ s.cleaned, s.claimed p ≠ none
  completions : ∀ p ∈ s.cleanupCompleted, p ∈ s.cleaned
  generations : ∀ g ∈ s.finished, g ≤ s.drainGeneration
  since : ∀ g ∈ s.finished, Since g s

/-- What the assertions speak of; all but the states of the stores, the flag and the startups. -/
structure Same (s s' : Manager) : Prop where
  starting : s'.starting = s.starting
  running : s'.running = s.running
  gate : s'.launchRegistrationGate = s.launchRegistrationGate
  generation : s'.drainGeneration = s.drainGeneration
  claimed : s'.claimed = s.claimed
  completed : s'.cleanupCompleted = s.cleanupCompleted
  registered : s'.registered = s.registered
  cleaned : s'.cleaned = s.cleaned
  finished : s'.finished = s.finished

/-- The other fields may change at will. -/
theorem same_with (s : Manager) (states : String → StoreRuntimeState) (draining : Bool)
    (cancelled completed : List (ℕ × String)) :
    Same s { s with
      states := states
      drainingLaunches := draining
      cancelled := cancelled
      completed := completed } :=
  ⟨rfl, rfl, rfl, rfl, rfl, rfl, rfl, rfl, rfl⟩

theorem Same.refl (s : Manager) : Same s s :=
  same_with s s.states s.drainingLaunches s.cancelled s.completed

theorem Sound.of_same {s s' : Manager} (h : Sound s) (hs : Same s s') : Sound s' where
  cleaned := by rw [hs.cleaned]; exact h.cleaned
  running := by rw [hs.running, hs.cleaned]; exact h.running
  registered := by rw [hs.registered, hs.running, hs.cleaned]; exact h.registered
  entered := by rw [hs.running, hs.registered]; exact h.entered
  store := by rw [hs.registered]; exact h.store
  claims := by rw [hs.cleaned, hs.claimed]; exact h.claims
  completions := by rw [hs.completed, hs.cleaned]; exact h.completions
  generations := by rw [hs.finished, hs.generation]; exact h.generations
  since := by
    intro g hg
    rw [hs.finished] at hg
    unfold Since
    rw [hs.running, hs.starting]
    exact h.since g hg

/-! ## A step of one task -/

/-- At most this a step of the task `r` does to the tables. -/
structure Does (r : ℕ) (s s' : Manager) : Prop where
  others : ∀ x v, v.task ≠ r → (s'.starting.lookup x = some v ↔ s.starting.lookup x = some v)
  slots : ∀ x o, s'.starting.lookup x = some ⟨r, some o⟩ →
    s.starting.lookup x = some ⟨r, some o⟩ ∨ s.launchRegistrationGate = none
  running : ∀ x, s'.running.lookup x = s.running.lookup x ∨ s'.running.lookup x = none ∨
    ∃ o, s.starting.lookup x = some ⟨r, some o⟩ ∧ s'.running.lookup x = some ⟨r, o⟩
  gate : ∀ q, q ≠ r → s.launchRegistrationGate = some q → s'.launchRegistrationGate = some q
  generation : s.drainGeneration ≤ s'.drainGeneration
  claimed : ∀ p q, s.claimed p = some q → s'.claimed p = some q
  registered : ∀ x p, (x, p) ∈ s.registered → (x, p) ∈ s'.registered
  enters : ∀ x p, (x, p) ∈ s'.registered → (x, p) ∈ s.registered ∨ p = r
  cleaned : ∀ p ∈ s.cleaned, p ∈ s'.cleaned
  cleans : ∀ p ∈ s'.cleaned, p ∈ s.cleaned ∨
    (s.claimed p = some r ∧ (p = r ∨ ∃ x, (x, p) ∈ s.registered))
  finished : ∀ g ∈ s.finished, g ∈ s'.finished

variable {q r p g : ℕ} {s s' : Manager} {x : String}

theorem Does.of_same (hs : Same s s') : Does r s s' where
  others _ _ _ := by rw [hs.starting]
  slots x o h := by rw [hs.starting] at h; exact .inl h
  running x := .inl (by rw [hs.running])
  gate q _ h := by rw [hs.gate]; exact h
  generation := hs.generation.ge
  claimed p q h := by rw [hs.claimed]; exact h
  registered x p h := by rw [hs.registered]; exact h
  enters x p h := by rw [hs.registered] at h; exact .inl h
  cleaned p h := by rw [hs.cleaned]; exact h
  cleans p h := by rw [hs.cleaned] at h; exact .inl h
  finished g h := by rw [hs.finished]; exact h

theorem Does.refl (r : ℕ) (s : Manager) : Does r s s := Does.of_same (Same.refl s)

/-! ## What is known of a task -/

/-- The launch `r` has no record yet. -/
def Fresh (r : ℕ) (s : Manager) : Prop :=
  r ∉ s.cleaned ∧ ∀ x, (x, r) ∉ s.registered

/-- The store has neither a record nor the startup of a launch. -/
def Clear (s : Manager) (x : String) : Prop :=
  s.running.lookup x = none ∧ ∀ u o, s.starting.lookup x ≠ some ⟨u, some o⟩

/-- The store has no record but `p`. -/
def AtMost (p : ℕ) (s : Manager) (x : String) : Prop :=
  ∀ v, s.running.lookup x = some v → v.launch = p

/-- The task `r` is to clean up the record `p`, which nobody has done yet. -/
def Cleans (r : ℕ) (s : Manager) (x : String) (p : ℕ) : Prop :=
  s.claimed p = some r ∧ p ∉ s.cleaned ∧ ((x, p) ∈ s.registered ∨ (p = r ∧ Fresh r s))

/-- The drain `g` of `r` is under way, and every store but those of `todo` is clear. -/
def Draining (r : ℕ) (s : Manager) (todo : List String) (g : ℕ) : Prop :=
  s.launchRegistrationGate = some r ∧ g ≤ s.drainGeneration ∧ ∀ x, x ∉ todo → Clear s x

/-- What the drain behind a close of `x` has still to do, `x` included. -/
def Due (r : ℕ) (s : Manager) (x : String) (thrown : Bool) : Option Drain → Prop
  | none => True
  | some drain => Draining r s (x :: if thrown then [] else drain.rest) drain.generation

/-- A close of `x` holds its slot, and the store has no record but `p`. -/
def Serves (r : ℕ) (s : Manager) (x : String) (p : ℕ) (thrown : Bool) : Owner → Prop
  | .close drain =>
    s.starting.lookup x = some ⟨r, none⟩ ∧ AtMost p s x ∧ Due r s x thrown drain
  | .launch _ | .handler => True

/-- What is known of the task `r` where it stands. -/
def At (r : ℕ) (s : Manager) : Task → Prop
  | .idle | .observed _ _ | .looking _ _ | .found _ _ _ | .outliving _ _ _ | .gating _ _ => Fresh r s
  | .building x g | .adding x g => Fresh r s ∧ s.starting.lookup x = some ⟨r, some g⟩
  | .added x _ => (x, r) ∈ s.registered
  | .failing x _ => (x, r) ∈ s.registered ∨ Fresh r s
  | .following _ _ | .leaving _ _ | .left _ | .entering | .ended => True
  | .opening x drain | .cancelling x _ drain | .awaiting x _ drain => Due r s x false drain
  | .closing x drain => s.starting.lookup x = some ⟨r, none⟩ ∧ Due r s x false drain
  | .claiming x p drain => (x, p) ∈ s.registered ∧ Serves r s x p false (.close drain)
  | .stopping x p owner => Cleans r s x p ∧ Serves r s x p false owner
  | .cleaning x p thrown owner | .removing x p thrown owner =>
    Cleans r s x p ∧ Serves r s x p thrown owner
  | .completing x p thrown owner => p ∈ s.cleaned ∧ Serves r s x p thrown owner
  | .outwaiting x p owner => Serves r s x p false owner
  | .shutting x thrown drain =>
    s.starting.lookup x = some ⟨r, none⟩ ∧ s.running.lookup x = none ∧ Due r s x thrown drain
  | .shut _ thrown drain =>
    ∀ d ∈ drain, Draining r s (if thrown then [] else d.rest) d.generation
  | .incrementing => s.launchRegistrationGate = some r
  | .flagging g | .listingStarting g =>
    s.launchRegistrationGate = some r ∧ g ≤ s.drainGeneration
  | .listingRunning g starting =>
    s.launchRegistrationGate = some r ∧ g ≤ s.drainGeneration ∧
      ∀ x u o, s.starting.lookup x = some ⟨u, some o⟩ → x ∈ starting
  | .unflagging g | .releasing g => Draining r s [] g

/-! ## No other step disturbs it -/

theorem Fresh.stable (hd : Does r s s') (hq : q ≠ r) (h : Fresh q s) : Fresh q s' := by
  refine ⟨fun hc => ?_, fun x hx => ?_⟩
  · rcases hd.cleans q hc with hc | ⟨-, rfl | ⟨x, hx⟩⟩
    · exact h.1 hc
    · exact hq rfl
    · exact h.2 x hx
  · rcases hd.enters x q hx with hx | rfl
    · exact h.2 x hx
    · exact hq rfl

theorem slot_stable (hd : Does r s s') (hq : q ≠ r) {o : Option ℕ}
    (h : s.starting.lookup x = some ⟨q, o⟩) : s'.starting.lookup x = some ⟨q, o⟩ :=
  (hd.others x ⟨q, o⟩ hq).mpr h

/-- A store whose slot another task has gets no record. -/
theorem running_stable (hd : Does r s s') (hq : q ≠ r) {o : Option ℕ}
    (h : s.starting.lookup x = some ⟨q, o⟩) :
    s'.running.lookup x = s.running.lookup x ∨ s'.running.lookup x = none := by
  rcases hd.running x with hx | hx | ⟨o', hx, -⟩
  · exact .inl hx
  · exact .inr hx
  · rw [h] at hx
    obtain ⟨rfl, -⟩ := StartingStore.mk.inj (Option.some.inj hx)
    exact absurd rfl hq

theorem AtMost.stable (hd : Does r s s') (hq : q ≠ r) {o : Option ℕ}
    (hslot : s.starting.lookup x = some ⟨q, o⟩) (h : AtMost p s x) : AtMost p s' x := by
  intro v hv
  rcases running_stable hd hq hslot with hx | hx
  · rw [hx] at hv
    exact h v hv
  · rw [hx] at hv
    exact absurd hv.symm (Option.some_ne_none v)

/-- While the gate is held, a clear store stays clear. -/
theorem Clear.stable (hd : Does r s s') (hg : s.launchRegistrationGate ≠ none) (h : Clear s x) :
    Clear s' x := by
  refine ⟨?_, fun u o hx => ?_⟩
  · rcases hd.running x with hx | hx | ⟨o, hx, -⟩
    · rw [hx]; exact h.1
    · exact hx
    · exact absurd hx (h.2 r o)
  · by_cases hu : u = r
    · subst hu
      rcases hd.slots x o hx with hx | hnone
      · exact h.2 u o hx
      · exact hg hnone
    · exact h.2 u o ((hd.others x ⟨u, some o⟩ hu).mp hx)

theorem held {r : ℕ} {s : Manager} (h : s.launchRegistrationGate = some r) :
    s.launchRegistrationGate ≠ none := by
  rw [h]; exact Option.some_ne_none r

theorem Draining.stable (hd : Does r s s') (hq : q ≠ r) {todo : List String}
    (h : Draining q s todo g) : Draining q s' todo g :=
  ⟨hd.gate q hq h.1, h.2.1.trans hd.generation, fun x hx => (h.2.2 x hx).stable hd (held h.1)⟩

theorem Due.stable (hd : Does r s s') (hq : q ≠ r) {thrown : Bool} {drain : Option Drain}
    (h : Due q s x thrown drain) : Due q s' x thrown drain := by
  rcases drain with _ | drain
  · trivial
  · exact Draining.stable hd hq h

theorem Cleans.stable (hd : Does r s s') (hq : q ≠ r) (h : Cleans q s x p) : Cleans q s' x p := by
  obtain ⟨hclaim, hnot, hreg⟩ := h
  refine ⟨hd.claimed p q hclaim, fun hc => ?_, ?_⟩
  · rcases hd.cleans p hc with hc | ⟨hclaim', -⟩
    · exact hnot hc
    · exact hq (Option.some.inj (hclaim.symm.trans hclaim'))
  · rcases hreg with hx | ⟨rfl, hfresh⟩
    · exact .inl (hd.registered x p hx)
    · exact .inr ⟨rfl, hfresh.stable hd hq⟩

theorem Serves.stable (hd : Does r s s') (hq : q ≠ r) {thrown : Bool} {owner : Owner}
    (h : Serves q s x p thrown owner) : Serves q s' x p thrown owner := by
  rcases owner with _ | drain | _
  · trivial
  · obtain ⟨hslot, hmost, hdue⟩ := h
    exact ⟨slot_stable hd hq hslot, hmost.stable hd hq hslot, hdue.stable hd hq⟩
  · trivial

/-- **A step of one task disturbs nothing that is known of another.** -/
theorem At.stable (hd : Does r s s') (hq : q ≠ r) {t : Task} (h : At q s t) : At q s' t := by
  cases t with
  | idle | observed | looking | found | outliving | gating => exact Fresh.stable hd hq h
  | building | adding => exact ⟨h.1.stable hd hq, slot_stable hd hq h.2⟩
  | added x g => exact hd.registered x q h
  | failing x g => exact h.imp (hd.registered x q) fun h => h.stable hd hq
  | following | leaving | left | entering | ended => trivial
  | opening | cancelling | awaiting => exact Due.stable hd hq h
  | closing => exact ⟨slot_stable hd hq h.1, h.2.stable hd hq⟩
  | claiming x p drain => exact ⟨hd.registered x p h.1, h.2.stable hd hq⟩
  | stopping | cleaning | removing => exact ⟨h.1.stable hd hq, h.2.stable hd hq⟩
  | completing x p thrown owner => exact ⟨hd.cleaned p h.1, h.2.stable hd hq⟩
  | outwaiting => exact Serves.stable hd hq h
  | shutting x thrown drain =>
    obtain ⟨hslot, hnone, hdue⟩ := h
    refine ⟨slot_stable hd hq hslot, ?_, hdue.stable hd hq⟩
    rcases running_stable hd hq hslot with hx | hx
    · rw [hx]; exact hnone
    · exact hx
  | shut x thrown drain => exact fun d hd' => (h d hd').stable hd hq
  | incrementing => exact hd.gate q hq h
  | flagging | listingStarting => exact ⟨hd.gate q hq h.1, h.2.trans hd.generation⟩
  | listingRunning g starting =>
    obtain ⟨hgate, hgen, hstart⟩ := h
    refine ⟨hd.gate q hq hgate, hgen.trans hd.generation, fun x u o hx => ?_⟩
    by_cases hu : u = r
    · subst hu
      rcases hd.slots x o hx with hx | hnone
      · exact hstart x u o hx
      · exact absurd hnone (held hgate)
    · exact hstart x u o ((hd.others x ⟨u, some o⟩ hu).mp hx)
  | unflagging | releasing => exact Draining.stable hd hq h

/-- Nor does a step that touches none of this. -/
theorem At.of_same {t : Task} (hs : Same s s') (h : At q s t) : At q s' t :=
  h.stable (Does.of_same (r := q + 1) hs) (by omega)

/-! ## The startups -/

theorem lookup_start (s : Manager) (x y : String) (v : StartingStore) :
    (s.start x v).starting.lookup y = if y = x then some v else s.starting.lookup y := by
  show (s.starting.insert x v).lookup y = _
  split_ifs with hy
  · subst hy; exact AList.lookup_insert _
  · exact AList.lookup_insert_ne hy

theorem Sound.start (h : Sound s) {u : ℕ} {o : Option ℕ}
    (ho : ∀ n ∈ o, ∀ g ∈ s.finished, g ≤ n) : Sound (s.start x ⟨u, o⟩) := by
  refine { h with since := fun g hg => ⟨(h.since g hg).1, fun y w n hy => ?_⟩ }
  rw [lookup_start] at hy
  split_ifs at hy
  · obtain ⟨-, rfl⟩ := StartingStore.mk.inj (Option.some.inj hy)
    exact ho n rfl g hg
  · exact (h.since g hg).2 y w n hy

theorem Does.start (hx : s.starting.lookup x = none) {o : Option ℕ}
    (ho : o = none ∨ s.launchRegistrationGate = none) : Does r s (s.start x ⟨r, o⟩) := by
  refine { Does.refl r s with others := fun y v hv => ?_, slots := fun y n hy => ?_ }
  · rw [lookup_start]
    split_ifs with hy
    · subst hy
      rw [hx]
      refine iff_of_false (fun h => hv ?_) (Option.some_ne_none v).symm
      rw [← Option.some.inj h]
    · exact Iff.rfl
  · rw [lookup_start] at hy
    split_ifs at hy
    · obtain ⟨-, rfl⟩ := StartingStore.mk.inj (Option.some.inj hy)
      exact .inr (ho.resolve_left (Option.some_ne_none n))
    · exact .inl hy

/-- Removing a startup only takes away that startup. -/
theorem lookup_unstart {v w : StartingStore} {y : String} :
    (s.unstart x v).starting.lookup y = some w ↔
      s.starting.lookup y = some w ∧ (y = x → w ≠ v) := by
  unfold Manager.unstart
  split_ifs with hx
  · show (s.starting.erase x).lookup y = some w ↔ _
    by_cases hy : y = x
    · subst hy
      rw [AList.lookup_erase, hx]
      refine iff_of_false (Option.some_ne_none w).symm fun h => h.2 rfl (Option.some.inj h.1).symm
    · rw [AList.lookup_erase_ne hy]
      exact ⟨fun h => ⟨h, fun h' => absurd h' hy⟩, And.left⟩
  · refine ⟨fun h => ⟨h, ?_⟩, And.left⟩
    rintro rfl rfl
    exact hx h

theorem unstart_eq (s : Manager) (x : String) (v : StartingStore) :
    s.unstart x v = { s with starting := (s.unstart x v).starting } := by
  unfold Manager.unstart
  split_ifs <;> rfl

theorem Sound.unstart (h : Sound s) (v : StartingStore) : Sound (s.unstart x v) := by
  have hsub : ∀ y w, (s.unstart x v).starting.lookup y = some w → s.starting.lookup y = some w :=
    fun y w hy => (lookup_unstart.mp hy).1
  rw [unstart_eq]
  exact { h with since := fun g hg => ⟨(h.since g hg).1, fun y u o hy => (h.since g hg).2 y u o
    (hsub y ⟨u, some o⟩ hy)⟩ }

theorem Does.unstart (o : Option ℕ) : Does r s (s.unstart x ⟨r, o⟩) := by
  have hothers : ∀ y v, v.task ≠ r →
      ((s.unstart x ⟨r, o⟩).starting.lookup y = some v ↔ s.starting.lookup y = some v) := by
    intro y v hv
    rw [lookup_unstart, and_iff_left]
    rintro - rfl
    exact hv rfl
  have hslots : ∀ y n, (s.unstart x ⟨r, o⟩).starting.lookup y = some ⟨r, some n⟩ →
      s.starting.lookup y = some ⟨r, some n⟩ := fun y n hy => (lookup_unstart.mp hy).1
  rw [unstart_eq]
  exact { Does.refl r s with others := hothers, slots := fun y n hy => .inl (hslots y n hy) }

/-! ## The records -/

/-- `_running.TryAdd` by the launch that has the slot of the store. -/
def recorded (r : ℕ) (s : Manager) (x : String) (g : ℕ) : Manager :=
  { s with
    running := s.running.insert x ⟨r, g⟩
    registered := (x, r) :: s.registered }

theorem lookup_recorded (r : ℕ) (s : Manager) (x y : String) (g : ℕ) :
    (recorded r s x g).running.lookup y = if y = x then some ⟨r, g⟩ else s.running.lookup y := by
  show (s.running.insert x ⟨r, g⟩).lookup y = _
  split_ifs with hy
  · subst hy; exact AList.lookup_insert _
  · exact AList.lookup_insert_ne hy

theorem Sound.enter (h : Sound s) (hfresh : Fresh r s) (hx : s.running.lookup x = none)
    (hslot : s.starting.lookup x = some ⟨r, some g⟩) : Sound (recorded r s x g) where
  cleaned := h.cleaned
  running := by
    intro y v hy
    rw [lookup_recorded] at hy
    split_ifs at hy
    · rw [← Option.some.inj hy]; exact hfresh.1
    · exact h.running y v hy
  registered := by
    intro y p hp
    rw [lookup_recorded]
    rcases List.mem_cons.mp hp with hnew | hold
    · obtain ⟨rfl, rfl⟩ := Prod.mk.inj hnew
      rw [if_pos rfl]; exact .inl rfl
    · split_ifs with hy
      · subst hy
        refine (h.registered y p hold).imp (fun hr => ?_) id
        rw [hx] at hr
        exact absurd hr.symm (Option.some_ne_none p)
      · exact h.registered y p hold
  entered := by
    intro y v hy
    rw [lookup_recorded] at hy
    split_ifs at hy with hyx
    · rw [← Option.some.inj hy, hyx]; exact List.mem_cons_self
    · exact List.mem_cons_of_mem _ (h.entered y v hy)
  store := by
    intro y z p hy hz
    rcases List.mem_cons.mp hy with hy | hy <;> rcases List.mem_cons.mp hz with hz | hz
    · exact (Prod.mk.inj hy).1.trans (Prod.mk.inj hz).1.symm
    · rw [(Prod.mk.inj hy).2] at hz
      exact absurd hz (hfresh.2 z)
    · rw [(Prod.mk.inj hz).2] at hy
      exact absurd hy (hfresh.2 y)
    · exact h.store y z p hy hz
  claims := h.claims
  completions := h.completions
  generations := h.generations
  since := by
    intro n hn
    refine ⟨fun y v hy => ?_, (h.since n hn).2⟩
    rw [lookup_recorded] at hy
    split_ifs at hy
    · rw [← Option.some.inj hy]; exact (h.since n hn).2 x r g hslot
    · exact (h.since n hn).1 y v hy

theorem Does.enter (hslot : s.starting.lookup x = some ⟨r, some g⟩) :
    Does r s (recorded r s x g) := by
  refine { Does.refl r s with running := fun y => ?_, registered := ?_, enters := ?_ }
  · rw [lookup_recorded]
    split_ifs with hy
    · subst hy; exact .inr (.inr ⟨g, hslot, rfl⟩)
    · exact .inl rfl
  · exact fun y p hp => List.mem_cons_of_mem _ hp
  · exact fun y p hp => (List.mem_cons.mp hp).symm.imp id fun hp => (Prod.mk.inj hp).2

/-- `TryClaimCleanup` where it succeeds. -/
theorem Sound.claim (h : Sound s) (p : ℕ) : Sound (s.claim p r) := by
  refine { h with claims := fun n hn => ?_ }
  show Function.update s.claimed p (some r) n ≠ none
  rcases eq_or_ne n p with rfl | hne
  · rw [Function.update_self]; exact Option.some_ne_none r
  · rw [Function.update_of_ne hne]; exact h.claims n hn

theorem Does.claim (hp : s.claimed p = none) : Does r s (s.claim p r) := by
  refine { Does.refl r s with claimed := fun n q hn => ?_ }
  show Function.update s.claimed p (some r) n = some q
  have hne : n ≠ p := by
    rintro rfl
    rw [hp] at hn
    exact absurd hn.symm (Option.some_ne_none q)
  rw [Function.update_of_ne hne]
  exact hn

/-- What `_running.Remove` leaves: every record but `p`. -/
theorem lookup_remove (s : Manager) (x y : String) (p : ℕ) :
    (s.remove x p).running.lookup y =
      if y = x ∧ (s.running.lookup x).map RunningStore.launch = some p then none
      else s.running.lookup y := by
  unfold Manager.remove
  dsimp only
  by_cases hp : (s.running.lookup x).map RunningStore.launch = some p
  · rw [if_pos hp]
    by_cases hy : y = x
    · subst hy
      rw [if_pos ⟨rfl, hp⟩, AList.lookup_erase]
    · rw [if_neg fun h => hy h.1, AList.lookup_erase_ne hy]
  · rw [if_neg hp, if_neg fun h => hp h.2]

theorem Sound.remove (h : Sound s) (hc : Cleans r s x p) : Sound (s.remove x p) where
  cleaned := List.nodup_cons.mpr ⟨hc.2.1, h.cleaned⟩
  running := by
    intro y v hy
    rw [lookup_remove] at hy
    split_ifs at hy with hyx
    have hne : v.launch ≠ p := by
      rintro rfl
      have hin : (y, v.launch) ∈ s.registered := h.entered y v hy
      rcases hc.2.2 with hreg | ⟨hr, hfresh⟩
      · obtain rfl := h.store y x v.launch hin hreg
        exact hyx ⟨rfl, by rw [hy]; rfl⟩
      · rw [hr] at hin
        exact hfresh.2 y hin
    exact List.not_mem_cons_of_ne_of_not_mem hne (h.running y v hy)
  registered := by
    intro y q hq
    rw [lookup_remove]
    rcases h.registered y q hq with hr | hcl
    · split_ifs with hyx
      · obtain ⟨rfl, hp⟩ := hyx
        refine .inr (List.mem_cons.mpr (.inl ?_))
        exact Option.some.inj (hr.symm.trans hp)
      · exact .inl hr
    · exact .inr (List.mem_cons_of_mem p hcl)
  entered := by
    intro y v hy
    rw [lookup_remove] at hy
    split_ifs at hy
    exact h.entered y v hy
  store := h.store
  claims := by
    intro n hn
    rcases List.mem_cons.mp hn with rfl | hn
    · show s.claimed n ≠ none
      rw [hc.1]; exact Option.some_ne_none r
    · exact h.claims n hn
  completions n hn := List.mem_cons_of_mem p (h.completions n hn)
  generations := h.generations
  since := by
    intro n hn
    refine ⟨fun y v hy => ?_, (h.since n hn).2⟩
    rw [lookup_remove] at hy
    split_ifs at hy
    exact (h.since n hn).1 y v hy

theorem Does.remove (hc : Cleans r s x p) : Does r s (s.remove x p) := by
  refine { Does.refl r s with running := fun y => ?_, cleaned := ?_, cleans := fun n hn => ?_ }
  · rw [lookup_remove]
    split_ifs
    · exact .inr (.inl rfl)
    · exact .inl rfl
  · exact fun n hn => List.mem_cons_of_mem p hn
  · rcases List.mem_cons.mp hn with rfl | hn
    · exact .inr ⟨hc.1, hc.2.2.symm.imp And.left fun hreg => ⟨x, hreg⟩⟩
    · exact .inl hn

end IdenGrid.Client.Cleanups
