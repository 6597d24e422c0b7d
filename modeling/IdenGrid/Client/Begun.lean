import IdenGrid.Client.Cleanups

/-! # Launches that have begun before a drain

A launch enters the tables with the drain generation that it has read when it began (`Reads`), and a
drain that is called when the generation is `d` ends with a generation above `d` (`After`). -/

namespace IdenGrid.Client.Begun

open IdenGrid.Lib.Run IdenGrid.Lib.Requests
open IdenGrid.Client.Drains IdenGrid.Client.Cleanups

variable {q r d : ℕ} {s s' : Manager} {x : String} {t : Task} {m : Move}

/-! ## What a launch has read -/

/-- The generation that a launch has read, until it has a record. -/
def observation : Task → Option ℕ
  | .observed _ g | .looking _ g | .found _ g _ | .outliving _ g _ | .gating _ g
  | .building _ g | .adding _ g => some g
  | _ => none

theorem observation_proceed (g : ℕ) (rest : List String) : observation (proceed g rest) = none := by
  rcases rest with _ | ⟨y, rest⟩ <;> rfl

theorem observation_closed (thrown : Bool) (drain : Option Drain) :
    observation (closed thrown drain) = none := by
  rcases drain with _ | drain
  · rfl
  · rcases thrown with _ | _
    · exact observation_proceed _ _
    · rfl

theorem observation_next (owner : Owner) (thrown : Bool) :
    observation (owner.next x thrown) = none := by
  rcases owner with _ | _ | _ <;> rfl

theorem proceed_ne_idle (g : ℕ) (rest : List String) : proceed g rest ≠ .idle := by
  rcases rest with _ | ⟨y, rest⟩ <;> exact nofun

theorem closed_ne_idle (thrown : Bool) (drain : Option Drain) : closed thrown drain ≠ .idle := by
  rcases drain with _ | drain
  · exact nofun
  · rcases thrown with _ | _
    · exact proceed_ne_idle _ _
    · exact nofun

theorem next_ne_idle (owner : Owner) (thrown : Bool) : owner.next x thrown ≠ .idle := by
  rcases owner with _ | _ | _ <;> exact nofun

/-- What a step of `r` from `t` does with what its launch has read. -/
structure Goes (r : ℕ) (s : Manager) (t : Task) (n : Manager × Task) : Prop where
  begun : n.2 ≠ .idle
  reads : ∀ g, observation n.2 = some g →
    observation t = some g ∨ (t = .idle ∧ g = s.drainGeneration)
  slots : ∀ x g, n.1.starting.lookup x = some ⟨r, some g⟩ →
    s.starting.lookup x = some ⟨r, some g⟩ ∨ observation t = some g

theorem Goes.quiet {n : Manager × Task} (hb : n.2 ≠ .idle) (hr : observation n.2 = none)
    (hs : ∀ x v, n.1.starting.lookup x = some v → s.starting.lookup x = some v) : Goes r s t n where
  begun := hb
  reads g hg := absurd (hr.symm.trans hg).symm (Option.some_ne_none g)
  slots x g hx := .inl (hs x ⟨r, some g⟩ hx)

theorem Goes.on {n : Manager × Task} (hb : n.2 ≠ .idle) (hr : observation n.2 = observation t)
    (hs : n.1.starting = s.starting) : Goes r s t n where
  begun := hb
  reads g hg := .inl (hr.symm.trans hg)
  slots x g hx := .inl (by rw [← hs]; exact hx)

theorem goes_register {g : ℕ} : Goes r s (.gating x g) (register r s x g) := by
  unfold register
  split_ifs
  · exact Goes.quiet nofun rfl fun _ _ h => h
  · split
    · refine ⟨nofun, fun n hn => .inl hn, fun y n hy => ?_⟩
      rw [lookup_start] at hy
      split_ifs at hy
      · exact .inr (StartingStore.mk.inj (Option.some.inj hy)).2
      · exact .inl hy
    · exact Goes.quiet nofun rfl fun _ _ h => h

theorem goes_tryAdd {g : ℕ} : Goes r s (.adding x g) (tryAdd r s x g) := by
  unfold tryAdd
  split <;> exact Goes.quiet nofun rfl fun _ _ h => h

theorem goes_tryClaim {p : ℕ} {owner : Owner} {otherwise : Task} (ho : otherwise ≠ .idle)
    (hr : observation otherwise = none) : Goes r s t (tryClaim r s x p owner otherwise) := by
  unfold tryClaim
  split_ifs
  · exact Goes.quiet nofun rfl fun _ _ h => h
  · exact Goes.quiet ho hr fun _ _ h => h

theorem goes_openSlot {drain : Option Drain} : Goes r s t (openSlot r s x drain) := by
  unfold openSlot
  split
  · refine ⟨nofun, nofun, fun y g hy => .inl ?_⟩
    rw [lookup_start] at hy
    split_ifs at hy
    · have ho := (StartingStore.mk.inj (Option.some.inj hy)).2
      exact absurd ho.symm (Option.some_ne_none g)
    · exact hy
  · exact Goes.quiet nofun rfl fun _ _ h => h

theorem goes_closeRunning {drain : Option Drain} : Goes r s t (closeRunning s x drain) := by
  unfold closeRunning
  split <;> exact Goes.quiet nofun rfl fun _ _ h => h

theorem goes_keep {g : ℕ} {alive : Bool} : Goes r s t (keep r s x g alive) := by
  unfold keep
  split_ifs <;> exact Goes.quiet nofun rfl fun _ _ h => h

theorem goes_advance {n : Manager × Task} (ha : advance r s t = some n) : Goes r s t n := by
  cases t with
  | observed x g =>
    obtain rfl := Option.some.inj ha
    split_ifs
    · exact Goes.quiet nofun rfl fun _ _ h => h
    · exact Goes.on nofun rfl rfl
  | looking x g =>
    obtain rfl := Option.some.inj ha
    split <;> exact Goes.on nofun rfl rfl
  | outliving x g record =>
    obtain ⟨-, ha⟩ := Option.ite_none_right_eq_some.mp ha
    obtain rfl := Option.some.inj ha
    exact Goes.on nofun rfl rfl
  | gating x g =>
    obtain ⟨-, ha⟩ := Option.ite_none_right_eq_some.mp ha
    obtain rfl := Option.some.inj ha
    exact goes_register
  | adding x g =>
    obtain rfl := Option.some.inj ha
    exact goes_tryAdd
  | failing | claiming =>
    obtain rfl := Option.some.inj ha
    exact goes_tryClaim nofun rfl
  | leaving | shutting =>
    obtain rfl := Option.some.inj ha
    exact Goes.quiet nofun rfl fun _ _ h => (lookup_unstart.mp h).1
  | opening x drain =>
    obtain rfl := Option.some.inj ha
    exact goes_openSlot
  | closing x drain =>
    obtain rfl := Option.some.inj ha
    exact goes_closeRunning
  | shut x thrown drain =>
    obtain rfl := Option.some.inj ha
    exact Goes.quiet (closed_ne_idle _ _) (observation_closed _ _) fun _ _ h => h
  | completing x p thrown owner =>
    obtain rfl := Option.some.inj ha
    exact Goes.quiet (next_ne_idle _ _) (observation_next _ _) fun _ _ h => h
  | outwaiting x p owner =>
    obtain ⟨-, ha⟩ := Option.ite_none_right_eq_some.mp ha
    obtain rfl := Option.some.inj ha
    exact Goes.quiet (next_ne_idle _ _) (observation_next _ _) fun _ _ h => h
  | listingRunning g starting =>
    obtain rfl := Option.some.inj ha
    exact Goes.quiet (proceed_ne_idle _ _) (observation_proceed _ _) fun _ _ h => h
  | following | awaiting | entering =>
    obtain ⟨-, ha⟩ := Option.ite_none_right_eq_some.mp ha
    obtain rfl := Option.some.inj ha
    exact Goes.quiet nofun rfl fun _ _ h => h
  | left | cancelling | cleaning | removing | incrementing | flagging | listingStarting
  | unflagging | releasing =>
    obtain rfl := Option.some.inj ha
    exact Goes.quiet nofun rfl fun _ _ h => h
  | idle | found | building | added | stopping | ended => exact nomatch ha

theorem goes_act {n : Manager × Task} (ha : act r s t m = some n) : Goes r s t n := by
  unfold act at ha
  split at ha
  · obtain rfl := Option.some.inj ha
    exact ⟨nofun, fun g hg => .inr ⟨rfl, (Option.some.inj hg).symm⟩, fun _ _ h => .inl h⟩
  · obtain rfl := Option.some.inj ha
    exact Goes.on nofun rfl rfl
  · obtain rfl := Option.some.inj ha
    exact Goes.on nofun rfl rfl
  · obtain ⟨-, ha⟩ := Option.ite_none_right_eq_some.mp ha
    obtain rfl := Option.some.inj ha
    exact goes_tryClaim nofun rfl
  · exact goes_advance ha
  · obtain rfl := Option.some.inj ha
    split_ifs
    · exact Goes.quiet nofun rfl fun _ _ h => h
    · exact Goes.on nofun rfl rfl
  · obtain rfl := Option.some.inj ha
    exact Goes.quiet nofun rfl fun _ _ h => h
  · obtain rfl := Option.some.inj ha
    exact Goes.quiet nofun rfl fun _ _ h => h
  · obtain rfl := Option.some.inj ha
    exact Goes.quiet nofun rfl fun _ _ h => h
  · obtain rfl := Option.some.inj ha
    exact Goes.on nofun rfl rfl
  · obtain rfl := Option.some.inj ha
    split
    · exact Goes.quiet nofun rfl fun _ _ h => h
    · exact Goes.quiet nofun rfl fun _ _ h => h
    · split_ifs
      · exact Goes.quiet nofun rfl fun _ _ h => h
      · exact Goes.on nofun rfl rfl
  · obtain rfl := Option.some.inj ha
    exact goes_keep
  · obtain rfl := Option.some.inj ha
    exact Goes.quiet nofun rfl fun _ _ h => h
  · exact nomatch ha

/-- Whatever the launch `q` has read, and whatever its entries in the tables carry, is `d` at most. -/
structure Reads (q d : ℕ) (c : Crew Manager Task) : Prop where
  observed : ∀ g, observation (c.loc q) = some g → g ≤ d
  starting : ∀ x g, c.shared.starting.lookup x = some ⟨q, some g⟩ → g ≤ d
  running : ∀ x v, c.shared.running.lookup x = some v → v.launch = q → v.observed ≤ d

/-- It stays so once the launch has begun. -/
theorem Reads.act {c : Crew Manager Task} {n : Manager × Task} (h : Reads q d c)
    (hd : Does r c.shared n.1) (ha : act r c.shared (c.loc r) m = some n)
    (hq : c.loc q ≠ .idle ∨ c.shared.drainGeneration ≤ d) :
    Reads q d ⟨n.1, Function.update c.loc r n.2⟩ := by
  have hgoes := goes_act ha
  have hrun : ∀ x v, n.1.running.lookup x = some v → v.launch = q → v.observed ≤ d := by
    intro x v hx hv
    rcases hd.running x with he | he | ⟨o, hslot, he⟩
    · rw [he] at hx
      exact h.running x v hx hv
    · rw [he] at hx
      exact absurd hx.symm (Option.some_ne_none v)
    · rw [he] at hx
      obtain rfl := Option.some.inj hx
      obtain rfl : r = q := hv
      exact h.starting x o hslot
  by_cases hqr : q = r
  · subst hqr
    refine ⟨fun g hg => ?_, fun x g hx => ?_, hrun⟩
    · have hg : observation n.2 = some g := by simpa using hg
      rcases hgoes.reads g hg with hg | ⟨hidle, rfl⟩
      · exact h.observed g hg
      · exact hq.resolve_left (fun hne => hne hidle)
    · rcases hgoes.slots x g hx with hx | hg
      · exact h.starting x g hx
      · exact h.observed g hg
  · refine ⟨fun g hg => h.observed g ?_, fun x g hx => h.starting x g ?_, hrun⟩
    · simpa [Function.update_of_ne hqr] using hg
    · exact (hd.others x ⟨q, some g⟩ hqr).mp hx

/-! ## The drain of a task -/

/-- The drain for which a record is cleaned up. -/
def drainOf : Owner → Option Drain
  | .close drain => drain
  | .launch _ | .handler => none

/-- The generation of the drain that the task is in. -/
def generation : Task → Option ℕ
  | .opening _ drain | .cancelling _ _ drain | .awaiting _ _ drain | .closing _ drain
  | .claiming _ _ drain | .shutting _ _ drain | .shut _ _ drain => drain.map Drain.generation
  | .stopping _ _ owner | .cleaning _ _ _ owner | .removing _ _ _ owner | .completing _ _ _ owner
  | .outwaiting _ _ owner => (drainOf owner).map Drain.generation
  | .flagging g | .listingStarting g | .listingRunning g _ | .unflagging g | .releasing g => some g
  | _ => none

/-- The task is in a `QuitAllAsync` that was called when the generation was `d`, or has ended it. -/
def After (d : ℕ) (s : Manager) : Task → Prop
  | .entering | .incrementing => d ≤ s.drainGeneration
  | .ended => ∃ g ∈ s.finished, d < g
  | t => ∃ g ∈ generation t, d < g

theorem after_proceed {g : ℕ} (h : d < g) (rest : List String) : After d s (proceed g rest) := by
  rcases rest with _ | ⟨y, rest⟩
  · exact ⟨g, rfl, h⟩
  · exact ⟨g, rfl, h⟩

theorem after_closed {thrown : Bool} {drain : Option Drain}
    (h : After d s (.shut x thrown drain)) : After d s' (closed thrown drain) := by
  obtain ⟨g, hg, hd⟩ := h
  rcases drain with _ | drain
  · exact nomatch hg
  · obtain rfl : drain.generation = g := Option.some.inj hg
    rcases thrown with _ | _
    · exact after_proceed hd _
    · exact ⟨drain.generation, rfl, hd⟩

theorem after_next {thrown : Bool} {owner : Owner}
    (h : ∃ g ∈ (drainOf owner).map Drain.generation, d < g) : After d s (owner.next x thrown) := by
  obtain ⟨g, hg, hd⟩ := h
  rcases owner with _ | drain | _
  · exact nomatch hg
  · exact ⟨g, hg, hd⟩
  · exact nomatch hg

theorem after_tryClaim {p : ℕ} {drain : Option Drain} (h : After d s (.claiming x p drain)) :
    After d s' (tryClaim r s x p (.close drain) (.outwaiting x p (.close drain))).2 := by
  unfold tryClaim
  split_ifs <;> exact h

theorem after_openSlot {drain : Option Drain} (h : After d s (.opening x drain)) :
    After d s' (openSlot r s x drain).2 := by
  unfold openSlot
  split <;> exact h

theorem after_closeRunning {drain : Option Drain} (h : After d s (.closing x drain)) :
    After d s' (closeRunning s x drain).2 := by
  unfold closeRunning
  split <;> exact h

theorem after_advance {n : Manager × Task} (h : After d s t) (ha : advance r s t = some n) :
    After d n.1 n.2 := by
  cases t with
  | entering =>
    obtain ⟨-, ha⟩ := Option.ite_none_right_eq_some.mp ha
    obtain rfl := Option.some.inj ha
    exact h
  | incrementing =>
    obtain rfl := Option.some.inj ha
    exact ⟨s.drainGeneration + 1, rfl, Nat.lt_succ_of_le h⟩
  | listingRunning g starting =>
    obtain rfl := Option.some.inj ha
    obtain ⟨g', hg, hd⟩ := h
    obtain rfl : g = g' := Option.some.inj hg
    exact after_proceed hd _
  | releasing g =>
    obtain rfl := Option.some.inj ha
    obtain ⟨g', hg, hd⟩ := h
    obtain rfl : g = g' := Option.some.inj hg
    exact ⟨g, List.mem_cons_self, hd⟩
  | opening x drain =>
    obtain rfl := Option.some.inj ha
    exact after_openSlot h
  | awaiting x startup drain =>
    obtain ⟨-, ha⟩ := Option.ite_none_right_eq_some.mp ha
    obtain rfl := Option.some.inj ha
    exact h
  | closing x drain =>
    obtain rfl := Option.some.inj ha
    exact after_closeRunning h
  | claiming x p drain =>
    obtain rfl := Option.some.inj ha
    exact after_tryClaim h
  | shut x thrown drain =>
    obtain rfl := Option.some.inj ha
    exact after_closed h
  | completing x p thrown owner =>
    obtain rfl := Option.some.inj ha
    exact after_next h
  | outwaiting x p owner =>
    obtain ⟨-, ha⟩ := Option.ite_none_right_eq_some.mp ha
    obtain rfl := Option.some.inj ha
    exact after_next h
  | flagging | listingStarting | unflagging | cancelling | shutting | cleaning | removing =>
    obtain rfl := Option.some.inj ha
    exact h
  | idle | observed | looking | found | outliving | gating | following | building | adding | added
  | failing | leaving | left =>
    obtain ⟨g, hg, -⟩ := h
    exact nomatch hg
  | stopping | ended => exact nomatch ha

theorem after_act {n : Manager × Task} (h : After d s t) (ha : act r s t m = some n) :
    After d n.1 n.2 := by
  unfold act at ha
  split at ha
  case h_5 => exact after_advance h ha
  case h_13 =>
    obtain rfl := Option.some.inj ha
    exact h
  case h_14 => exact nomatch ha
  all_goals
    obtain ⟨g, hg, -⟩ := h
    exact nomatch hg

/-- The steps of the other tasks leave it where it is. -/
theorem After.stable (hd : Does r s s') (h : After d s t) : After d s' t := by
  cases t with
  | entering | incrementing => exact h.trans hd.generation
  | ended =>
    obtain ⟨g, hg, hlt⟩ := h
    exact ⟨g, hd.finished g hg, hlt⟩
  | _ => exact h

end IdenGrid.Client.Begun
