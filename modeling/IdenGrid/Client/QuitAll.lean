import IdenGrid.Client.Begun

/-! # Closing all stores on Windows

`keeps_act` is the step lemma: under `Thorough` a step of a task keeps `Sound`, takes the task to a
point where `At` holds and does no more than `Does` allows. `drained_of_thorough` is what follows for
whole runs. -/

namespace IdenGrid.Client.QuitAll

open IdenGrid.Lib.Run IdenGrid.Lib.Requests
open IdenGrid.Client.Drains IdenGrid.Client.Cleanups IdenGrid.Client.Begun

variable {r p g : ℕ} {s s' : Manager} {x : String} {t t' : Task}

/-- A step of `r` to `t'`. -/
structure Keeps (r : ℕ) (s s' : Manager) (t' : Task) : Prop where
  sound : Sound s'
  here : At r s' t'
  does : Does r s s'

theorem Keeps.of_same (h : Sound s) (hs : Same s s') (ht : At r s t') : Keeps r s s' t' :=
  ⟨h.of_same hs, ht.of_same hs, Does.of_same hs⟩

theorem Keeps.refl (h : Sound s) (ht : At r s t') : Keeps r s s t' :=
  Keeps.of_same h (Same.refl s) ht

theorem Keeps.setState (h : Sound s) (ht : At r s t') (x : String) (state : StoreRuntimeState) :
    Keeps r s (s.setState x state) t' :=
  Keeps.of_same h (same_with s _ _ _ _) ht

theorem Keeps.complete (h : Sound s) (ht : At r s t') (u : ℕ) (x : String) :
    Keeps r s (s.complete u x) t' :=
  Keeps.of_same h (same_with s _ _ _ _) ht

/-! ## The task's own drain -/

theorem Draining.own (hd : Does r s s')
    (hg : s'.launchRegistrationGate = s.launchRegistrationGate) {todo : List String}
    (h : Draining r s todo g) : Draining r s' todo g :=
  ⟨hg.trans h.1, h.2.1.trans hd.generation, fun x hx => (h.2.2 x hx).stable hd (held h.1)⟩

theorem Due.own (hd : Does r s s') (hg : s'.launchRegistrationGate = s.launchRegistrationGate)
    {thrown : Bool} {drain : Option Drain} (h : Due r s x thrown drain) :
    Due r s' x thrown drain := by
  rcases drain with _ | drain
  · trivial
  · exact Draining.own hd hg h

theorem Serves.own (hd : Does r s s') (hg : s'.launchRegistrationGate = s.launchRegistrationGate)
    (hst : s'.starting = s.starting)
    (hrun : ∀ v, s'.running.lookup x = some v → s.running.lookup x = some v)
    {thrown : Bool} {owner : Owner} (h : Serves r s x p thrown owner) :
    Serves r s' x p thrown owner := by
  rcases owner with _ | drain | _
  · trivial
  · obtain ⟨hslot, hmost, hdue⟩ := h
    exact ⟨by rw [hst]; exact hslot, fun v hv => hmost v (hrun v hv), Due.own hd hg hdue⟩
  · trivial

/-- Where the stores of the drain are all clear once `x` is, they still are with `x` clear. -/
theorem Draining.done {todo : List String} (h : Draining r s (x :: todo) g) (hx : Clear s x) :
    Draining r s todo g := by
  refine ⟨h.1, h.2.1, fun y hy => ?_⟩
  rcases eq_or_ne y x with rfl | hne
  · exact hx
  · exact h.2.2 y (List.not_mem_cons_of_ne_of_not_mem hne hy)

theorem at_proceed {rest : List String} (h : Draining r s rest g) : At r s (proceed g rest) := by
  rcases rest with _ | ⟨y, rest⟩
  · exact h
  · exact h

theorem at_closed {thrown : Bool} {drain : Option Drain} (h : At r s (.shut x thrown drain)) :
    At r s (closed thrown drain) := by
  rcases drain with _ | drain
  · trivial
  · have hd := h drain rfl
    unfold closed
    rcases thrown with _ | _
    · exact at_proceed hd
    · exact hd

/-! ## Launching -/

theorem keeps_register (h : Sound s) (hf : Fresh r s) (hg : s.launchRegistrationGate = none) :
    Keeps r s (register r s x g).1 (register r s x g).2 := by
  unfold register
  split_ifs with hd
  · exact Keeps.refl h trivial
  · push Not at hd
    split
    · rename_i hx
      refine ⟨h.start ?_, ⟨hf, ?_⟩, Does.start hx (.inr hg)⟩
      · intro n hn m hm
        rw [← Option.mem_some.mp hn, ← hd.2]
        exact h.generations m hm
      · rw [lookup_start, if_pos rfl]
    · exact Keeps.refl h trivial

theorem keeps_tryAdd (h : Sound s) (hA : At r s (.adding x g)) :
    Keeps r s (tryAdd r s x g).1 (tryAdd r s x g).2 := by
  unfold tryAdd
  split
  · rename_i hx
    exact ⟨h.enter hA.1 hx hA.2, List.mem_cons_self, Does.enter hA.2⟩
  · exact Keeps.refl h (.inr hA.1)

theorem keeps_keep (h : Sound s) (hA : At r s (.added x g)) (alive : Bool) :
    Keeps r s (keep r s x g alive).1 (keep r s x g alive).2 := by
  unfold keep
  split_ifs
  · refine Keeps.setState h ?_ x .running
    trivial
  · exact Keeps.refl h (.inl hA)

/-! ## Closing -/

theorem keeps_openSlot (h : Sound s) {drain : Option Drain} (hdue : Due r s x false drain) :
    Keeps r s (openSlot r s x drain).1 (openSlot r s x drain).2 := by
  unfold openSlot
  split
  · rename_i hx
    have hd : Does r s (s.start x ⟨r, none⟩) := Does.start hx (.inl rfl)
    refine ⟨h.start fun n hn => absurd hn (Option.not_mem_none n), ⟨?_, Due.own hd rfl hdue⟩, hd⟩
    rw [lookup_start, if_pos rfl]
  · exact Keeps.refl h hdue

theorem keeps_closeRunning (h : Sound s) {drain : Option Drain} (hA : At r s (.closing x drain)) :
    Keeps r s (closeRunning s x drain).1 (closeRunning s x drain).2 := by
  unfold closeRunning
  split
  · rename_i hx
    refine Keeps.setState h ?_ x .idle
    exact ⟨hA.1, hx, hA.2⟩
  · rename_i v hx
    refine Keeps.refl h ⟨h.entered x v hx, hA.1, fun w hw => ?_, hA.2⟩
    rw [← Option.some.inj (hx.symm.trans hw)]

theorem keeps_tryClaim (h : Sound s) {owner : Owner}
    (hreg : (x, p) ∈ s.registered ∨ (p = r ∧ Fresh r s)) (hs : Serves r s x p false owner)
    {otherwise : Task} (hother : At r s otherwise) :
    Keeps r s (tryClaim r s x p owner otherwise).1 (tryClaim r s x p owner otherwise).2 := by
  unfold tryClaim
  split_ifs with hp
  · have hd : Does r s (s.claim p r) := Does.claim hp
    refine ⟨h.claim p, ⟨⟨?_, fun hc => h.claims p hc hp, hreg⟩, ?_⟩, hd⟩
    · exact Function.update_self p (some r) s.claimed
    · exact Serves.own hd rfl rfl (fun _ hv => hv) hs
  · exact Keeps.refl h hother

/-- The close leaves its slot, and with it a store that is clear. -/
theorem keeps_shutting (h : Sound s) {thrown : Bool} {drain : Option Drain}
    (hA : At r s (.shutting x thrown drain)) :
    Keeps r s (s.unstart x ⟨r, none⟩) (.shut x thrown drain) := by
  obtain ⟨hslot, hnone, hdue⟩ := hA
  have hd : Does r s (s.unstart x ⟨r, none⟩) := Does.unstart none
  have hrun : (s.unstart x ⟨r, none⟩).running = s.running := by rw [unstart_eq]
  have hgate : (s.unstart x ⟨r, none⟩).launchRegistrationGate = s.launchRegistrationGate := by
    rw [unstart_eq]
  refine ⟨h.unstart _, fun d hd' => ?_, hd⟩
  obtain rfl : drain = some d := hd'
  refine Draining.done (Draining.own hd hgate hdue) ⟨by rw [hrun]; exact hnone, fun u o hx => ?_⟩
  have hx := (lookup_unstart.mp hx).1
  rw [hslot] at hx
  have ho := (StartingStore.mk.inj (Option.some.inj hx)).2
  exact absurd ho.symm (Option.some_ne_none o)

/-! ## Cleaning up -/

/-- What `CloseAsync` goes on with once its record is cleaned up. -/
theorem at_next (h : Sound s) {thrown : Bool} {owner : Owner} (hp : p ∈ s.cleaned)
    (hs : Serves r s x p thrown owner) : At r s (owner.next x thrown) := by
  rcases owner with _ | drain | _
  · trivial
  · obtain ⟨hslot, hmost, hdue⟩ := hs
    refine ⟨hslot, ?_, hdue⟩
    rcases hx : s.running.lookup x with _ | v
    · rfl
    · have hv := h.running x v hx
      rw [hmost v hx] at hv
      exact absurd hp hv
  · trivial

theorem keeps_removing (h : Sound s) {thrown : Bool} {owner : Owner}
    (hA : At r s (.removing x p thrown owner)) :
    Keeps r s (s.remove x p) (.completing x p thrown owner) := by
  have hd := Does.remove hA.1
  refine ⟨h.remove hA.1, ⟨List.mem_cons_self, Serves.own hd rfl rfl (fun v hv => ?_) hA.2⟩, hd⟩
  rw [lookup_remove] at hv
  split_ifs at hv
  exact hv

theorem keeps_completing (h : Sound s) {thrown : Bool} {owner : Owner}
    (hA : At r s (.completing x p thrown owner)) :
    Keeps r s { s with cleanupCompleted := p :: s.cleanupCompleted } (owner.next x thrown) := by
  have hsound : Sound { s with cleanupCompleted := p :: s.cleanupCompleted } :=
    { h with
      completions := by
        intro n hn
        rcases List.mem_cons.mp hn with rfl | hn
        · exact hA.1
        · exact h.completions n hn }
  have hd : Does r s { s with cleanupCompleted := p :: s.cleanupCompleted } :=
    { Does.refl r s with }
  exact ⟨hsound, at_next hsound hA.1 (Serves.own hd rfl rfl (fun _ hv => hv) hA.2), hd⟩

/-! ## The drain -/

theorem keeps_entering (h : Sound s) (hg : s.launchRegistrationGate = none) :
    Keeps r s { s with launchRegistrationGate := some r } .incrementing := by
  refine ⟨{ h with }, rfl, ?_⟩
  exact { Does.refl r s with
    gate := fun q _ hq => by
      rw [hg] at hq
      exact absurd hq.symm (Option.some_ne_none q) }

theorem keeps_incrementing (h : Sound s) (hA : At r s .incrementing) :
    Keeps r s { s with drainGeneration := s.drainGeneration + 1 }
      (.flagging (s.drainGeneration + 1)) := by
  refine ⟨{ h with generations := fun g hg => (h.generations g hg).trans (Nat.le_succ _) },
    ⟨hA, le_rfl⟩, ?_⟩
  exact { Does.refl r s with
    generation := Nat.le_succ _ }

/-- Nothing escapes the list of stores: no launch has got a startup since the first half of it. -/
theorem keeps_listingRunning (h : Sound s) {starting : List String}
    (hA : At r s (.listingRunning g starting)) :
    Keeps r s s (proceed g (starting ++ s.running.keys).dedup) := by
  obtain ⟨hgate, hgen, hstart⟩ := hA
  refine Keeps.refl h (at_proceed ⟨hgate, hgen, fun x hx => ?_⟩)
  rw [List.mem_dedup, List.mem_append, not_or] at hx
  exact ⟨AList.lookup_eq_none.mpr hx.2, fun u o ho => hx.1 (hstart x u o ho)⟩

theorem keeps_releasing (h : Sound s) (hA : At r s (.releasing g)) :
    Keeps r s { s with launchRegistrationGate := none, finished := g :: s.finished } .ended := by
  obtain ⟨hgate, hgen, hclear⟩ := hA
  refine ⟨{ h with generations := ?_, since := ?_ }, trivial, ?_⟩
  · intro n hn
    rcases List.mem_cons.mp hn with rfl | hn
    · exact hgen
    · exact h.generations n hn
  · intro n hn
    rcases List.mem_cons.mp hn with rfl | hn
    · refine ⟨fun x v hx => ?_, fun x u o hx => ?_⟩
      · have hnone := (hclear x List.not_mem_nil).1
        exact absurd (hnone.symm.trans hx).symm (Option.some_ne_none v)
      · exact absurd hx ((hclear x List.not_mem_nil).2 u o)
    · exact h.since n hn
  · exact { Does.refl r s with
      gate := fun q hq hq' => absurd (Option.some.inj (hq'.symm.trans hgate)) hq
      finished := fun n hn => List.mem_cons_of_mem g hn }

/-! ## The step -/

/-- The stores that a drain leaves out where stopping the processes of one throws. -/
def leftOut : Task → Move → List String
  | .stopping _ _ (.close (some drain)), .stopped true => drain.rest
  | _, _ => []

theorem at_cleaning {owner : Owner} (hA : At r s (.stopping x p owner)) {thrown : Bool}
    (hC : ∀ y ∈ leftOut (.stopping x p owner) (.stopped thrown), Clear s y) :
    At r s (.cleaning x p (thrown && owner.throws) owner) := by
  refine ⟨hA.1, ?_⟩
  rcases owner with _ | drain | _
  · trivial
  · obtain ⟨-, hslot, hmost, hdue⟩ := hA
    refine ⟨hslot, hmost, ?_⟩
    rcases drain with _ | drain
    · trivial
    · rcases thrown with _ | _
      · exact hdue
      · refine ⟨hdue.1, hdue.2.1, fun y hy => ?_⟩
        by_cases hr : y ∈ drain.rest
        · exact hC y hr
        · exact hdue.2.2 y (List.not_mem_cons_of_ne_of_not_mem (List.ne_of_not_mem_cons hy) hr)
  · trivial

theorem keeps_advance {n : Manager × Task} (h : Sound s) (hA : At r s t)
    (ha : advance r s t = some n) : Keeps r s n.1 n.2 := by
  cases t with
  | observed x g =>
    obtain rfl := Option.some.inj ha
    refine Keeps.refl h ?_
    split_ifs
    · trivial
    · exact hA
  | looking x g =>
    obtain rfl := Option.some.inj ha
    refine Keeps.refl h ?_
    split
    · exact hA
    · exact hA
  | outliving x g record =>
    obtain ⟨-, ha⟩ := Option.ite_none_right_eq_some.mp ha
    obtain rfl := Option.some.inj ha
    exact Keeps.refl h hA
  | gating x g =>
    obtain ⟨hg, ha⟩ := Option.ite_none_right_eq_some.mp ha
    obtain rfl := Option.some.inj ha
    exact keeps_register h hA hg
  | following x startup =>
    obtain ⟨-, ha⟩ := Option.ite_none_right_eq_some.mp ha
    obtain rfl := Option.some.inj ha
    exact Keeps.refl h trivial
  | adding x g =>
    obtain rfl := Option.some.inj ha
    exact keeps_tryAdd h hA
  | failing x g =>
    obtain rfl := Option.some.inj ha
    have hs : Serves r s x r false (.launch g) := trivial
    exact keeps_tryClaim h (hA.imp id fun hf => ⟨rfl, hf⟩) hs trivial
  | leaving x g =>
    obtain rfl := Option.some.inj ha
    exact ⟨h.unstart _, trivial, Does.unstart _⟩
  | left x =>
    obtain rfl := Option.some.inj ha
    refine Keeps.complete h ?_ r x
    trivial
  | opening x drain =>
    obtain rfl := Option.some.inj ha
    exact keeps_openSlot h hA
  | cancelling x startup drain =>
    obtain rfl := Option.some.inj ha
    exact Keeps.of_same h (same_with s _ _ _ _) hA
  | awaiting x startup drain =>
    obtain ⟨-, ha⟩ := Option.ite_none_right_eq_some.mp ha
    obtain rfl := Option.some.inj ha
    exact Keeps.refl h hA
  | closing x drain =>
    obtain rfl := Option.some.inj ha
    exact keeps_closeRunning h hA
  | claiming x p drain =>
    obtain rfl := Option.some.inj ha
    exact keeps_tryClaim h (.inl hA.1) hA.2 hA.2
  | shutting x thrown drain =>
    obtain rfl := Option.some.inj ha
    exact keeps_shutting h hA
  | shut x thrown drain =>
    obtain rfl := Option.some.inj ha
    exact Keeps.complete h (at_closed hA) r x
  | cleaning x p thrown owner =>
    obtain rfl := Option.some.inj ha
    refine Keeps.setState h ?_ x owner.final
    exact hA
  | removing x p thrown owner =>
    obtain rfl := Option.some.inj ha
    exact keeps_removing h hA
  | completing x p thrown owner =>
    obtain rfl := Option.some.inj ha
    exact keeps_completing h hA
  | outwaiting x p owner =>
    obtain ⟨hp, ha⟩ := Option.ite_none_right_eq_some.mp ha
    obtain rfl := Option.some.inj ha
    exact Keeps.refl h (at_next h (h.completions p hp) hA)
  | entering =>
    obtain ⟨hg, ha⟩ := Option.ite_none_right_eq_some.mp ha
    obtain rfl := Option.some.inj ha
    exact keeps_entering h hg
  | incrementing =>
    obtain rfl := Option.some.inj ha
    exact keeps_incrementing h hA
  | flagging g =>
    obtain rfl := Option.some.inj ha
    exact Keeps.of_same h (same_with s _ _ _ _) hA
  | listingStarting g =>
    obtain rfl := Option.some.inj ha
    refine Keeps.refl h ⟨hA.1, hA.2, fun x u o hx => ?_⟩
    exact AList.mem_keys.mp (AList.lookup_isSome.mp (by rw [hx]; rfl))
  | listingRunning g starting =>
    obtain rfl := Option.some.inj ha
    exact keeps_listingRunning h hA
  | unflagging g =>
    obtain rfl := Option.some.inj ha
    exact Keeps.of_same h (same_with s _ _ _ _) hA
  | releasing g =>
    obtain rfl := Option.some.inj ha
    exact keeps_releasing h hA
  | idle | found | building | added | stopping | ended => exact nomatch ha

/-- **The step lemma.** -/
theorem keeps_act {m : Move} {n : Manager × Task} (h : Sound s) (hA : At r s t)
    (hC : ∀ y ∈ leftOut t m, Clear s y) (ha : act r s t m = some n) : Keeps r s n.1 n.2 := by
  unfold act at ha
  split at ha
  · obtain rfl := Option.some.inj ha
    exact Keeps.refl h hA
  · obtain rfl := Option.some.inj ha
    exact Keeps.refl h trivial
  · obtain rfl := Option.some.inj ha
    exact Keeps.refl h trivial
  · split_ifs at ha with hreg
    obtain rfl := Option.some.inj ha
    refine keeps_tryClaim h (.inl hreg) ?_ ?_
    · trivial
    · trivial
  · exact keeps_advance h hA ha
  · obtain rfl := Option.some.inj ha
    refine Keeps.refl h ?_
    split_ifs
    · trivial
    · exact hA
  · obtain rfl := Option.some.inj ha
    exact Keeps.refl h trivial
  · obtain rfl := Option.some.inj ha
    exact Keeps.refl h trivial
  · obtain rfl := Option.some.inj ha
    exact Keeps.refl h trivial
  · obtain rfl := Option.some.inj ha
    exact Keeps.setState h hA _ _
  · obtain rfl := Option.some.inj ha
    split
    · exact Keeps.refl h trivial
    · refine Keeps.setState h ?_ _ .failed
      trivial
    · split_ifs
      · exact Keeps.refl h (.inr hA.1)
      · exact Keeps.refl h hA
  · obtain rfl := Option.some.inj ha
    exact keeps_keep h hA _
  · obtain rfl := Option.some.inj ha
    exact Keeps.refl h (at_cleaning hA hC)
  · exact nomatch ha

/-! ## Runs -/

/-- The manager, before the first call. -/
def start : Crew Manager Task := ⟨created, fun _ => .idle⟩

/-- Where stopping the processes of a store throws in a drain, no store that the drain has still to
close has a record or the startup of a launch. -/
def Thorough (c : Crew Manager Task) (e : ℕ × Move) : Prop :=
  ∀ y ∈ leftOut (c.loc e.1) e.2, Clear c.shared y

instance decidableClear (s : Manager) (x : String) : Decidable (Clear s x) :=
  decidable_of_iff
    (s.running.lookup x = none ∧ (s.starting.lookup x).bind StartingStore.observed = none) <| by
    refine and_congr_right fun _ => ⟨fun h u o hx => ?_, fun h => ?_⟩
    · rw [hx] at h
      exact absurd h (Option.some_ne_none o)
    · rcases hx : s.starting.lookup x with _ | ⟨u, _ | o⟩
      · rfl
      · rfl
      · exact absurd hx (h u o)

instance decidableThorough (c : Crew Manager Task) (e : ℕ × Move) : Decidable (Thorough c e) :=
  List.decidableBAll _ _

theorem holds_start : Holds Sound At start := by
  refine ⟨?_, fun r => ⟨List.not_mem_nil, fun x => List.not_mem_nil⟩⟩
  exact {
    cleaned := List.nodup_nil
    running := fun x v h => absurd h.symm (Option.some_ne_none v)
    registered := fun x p h => absurd h List.not_mem_nil
    entered := fun x v h => absurd h.symm (Option.some_ne_none v)
    store := fun x y p h => absurd h List.not_mem_nil
    claims := fun p h => absurd h List.not_mem_nil
    completions := fun p h => absurd h List.not_mem_nil
    generations := fun g h => absurd h List.not_mem_nil
    since := fun g h => absurd h List.not_mem_nil }

variable {c c' : Crew Manager Task} {e : ℕ × Move} {es : List (ℕ × Move)}

theorem sound_step (h : Holds Sound At c) (hC : Thorough c e) (hs : step act c e = some c') :
    Holds Sound At c' :=
  owicki_step (C := Thorough)
    (fun _ _ _ _ _ hI hA hC ha => ⟨(keeps_act hI hA hC ha).sound, (keeps_act hI hA hC ha).here⟩)
    (fun _ _ _ _ _ _ hI hA hC ha hq hAq => hAq.stable (keeps_act hI hA hC ha).does hq) c e c' h hC hs

/-- Whatever the tables say of launches, these have read the present generation or an earlier one. -/
structure Dated (c : Crew Manager Task) : Prop where
  holds : Holds Sound At c
  reads : ∀ q, Reads q c.shared.drainGeneration c

theorem Reads.mono {q d d' : ℕ} (h : Reads q d c) (hd : d ≤ d') : Reads q d' c where
  observed g hg := (h.observed g hg).trans hd
  starting x g hx := (h.starting x g hx).trans hd
  running x v hx hv := (h.running x v hx hv).trans hd

theorem dated_step (h : Dated c) (hC : Thorough c e) (hs : step act c e = some c') : Dated c' := by
  refine ⟨sound_step h.holds hC hs, fun q => ?_⟩
  obtain ⟨s', t', ha, rfl⟩ := step_eq_some.mp hs
  have hd := (keeps_act h.holds.1 (h.holds.2 e.1) hC ha).does
  exact Reads.mono ((h.reads q).act hd ha (.inr le_rfl)) hd.generation

/-- The launch `q` has begun before the drain `r`. -/
structure Before (q r d : ℕ) (c : Crew Manager Task) : Prop where
  holds : Holds Sound At c
  begun : c.loc q ≠ .idle
  reads : Reads q d c
  after : After d c.shared (c.loc r)

theorem quit_act {n : Manager × Task} (ha : act r s t .quit = some n) : n = (s, .entering) := by
  cases t with
  | idle => exact (Option.some.inj ha).symm
  | _ => exact nomatch ha

theorem before_quit {q : ℕ} (h : Dated c) (hC : Thorough c (r, .quit))
    (hs : step act c (r, .quit) = some c') (hq : c.loc q ≠ .idle) :
    Before q r c.shared.drainGeneration c' := by
  have hH := sound_step h.holds hC hs
  obtain ⟨s', t', ha, rfl⟩ := step_eq_some.mp hs
  have hd := (keeps_act h.holds.1 (h.holds.2 r) hC ha).does
  have hreads := (h.reads q).act hd ha (.inl hq)
  obtain ⟨rfl, rfl⟩ := Prod.mk.inj (quit_act ha)
  refine ⟨hH, ?_, hreads, ?_⟩
  · show Function.update c.loc r .entering q ≠ .idle
    by_cases hqr : q = r
    · subst hqr
      rw [Function.update_self]
      exact nofun
    · rw [Function.update_of_ne hqr]
      exact hq
  · show After _ c.shared (Function.update c.loc r .entering r)
    rw [Function.update_self]
    exact le_refl c.shared.drainGeneration

theorem before_step {q r d : ℕ} (h : Before q r d c) (hC : Thorough c e)
    (hs : step act c e = some c') : Before q r d c' := by
  have hH := sound_step h.holds hC hs
  obtain ⟨s', t', ha, rfl⟩ := step_eq_some.mp hs
  have hd := (keeps_act h.holds.1 (h.holds.2 e.1) hC ha).does
  refine ⟨hH, ?_, h.reads.act hd ha (.inl h.begun), ?_⟩
  · show Function.update c.loc e.1 t' q ≠ .idle
    by_cases hq : q = e.1
    · subst hq
      rw [Function.update_self]
      exact (goes_act ha).begun
    · rw [Function.update_of_ne hq]
      exact h.begun
  · show After d s' (Function.update c.loc e.1 t' r)
    by_cases hr : r = e.1
    · subst hr
      rw [Function.update_self]
      exact after_act h.after ha
    · rw [Function.update_of_ne hr]
      exact h.after.stable hd

/-! ## The drain empties the tables -/

/-- Neither a record nor a startup of the launch `q` is in the tables. -/
def Gone (q : ℕ) (s : Manager) : Prop :=
  (∀ x v, s.running.lookup x = some v → v.launch ≠ q) ∧
    ∀ x o, s.starting.lookup x ≠ some ⟨q, some o⟩

/-- Where a `QuitAllAsync` is about to end, no store is running or starting. -/
def Drained (c : Crew Manager Task) : Prop :=
  ∀ r g, c.loc r = .releasing g → ∀ x, Clear c.shared x

/-- Once the drain has ended, nothing is left of the launch. -/
theorem Before.gone {q r d : ℕ} (h : Before q r d c) (hr : c.loc r = .ended) :
    Gone q c.shared := by
  have hafter := h.after
  rw [hr] at hafter
  obtain ⟨g, hg, hlt⟩ := hafter
  have hsince := h.holds.1.since g hg
  refine ⟨fun x v hx hv => ?_, fun x o hx => ?_⟩
  · have := hsince.1 x v hx
    have := h.reads.running x v hx hv
    omega
  · have := hsince.2 x q o hx
    have := h.reads.starting x o hx
    omega

/-- **Quitting closes every store, if it is thorough**: whatever the interleaving, no store is running
or starting when a `QuitAllAsync` ends, nothing is left of a launch that has begun before it, and the
cleanup of every record runs exactly once. -/
theorem drained_of_thorough (hC : Along (step act) Thorough start es) :
    Visits (step act) (fun c => Drained c ∧ Once c.shared) start es ∧
      ∀ (pre : List (ℕ × Move)) (r : ℕ) (post : List (ℕ × Move)) (c c' : Crew Manager Task),
        es = pre ++ (r, .quit) :: post → run (step act) start pre = some c →
        run (step act) start es = some c' → c'.loc r = .ended →
        ∀ q, c.loc q ≠ .idle → Gone q c'.shared := by
  constructor
  · rintro pre ⟨post, rfl⟩ c hr
    rw [along_append] at hC
    have hc : Holds Sound At c := run_inv_along (C := Thorough) (I := Holds Sound At)
      (fun _ _ _ h hC hs => sound_step h hC hs) pre start c holds_start hC.1 hr
    refine ⟨fun r g hg x => ?_, hc.1.toOnce⟩
    have hA := hc.2 r
    rw [hg] at hA
    exact hA.2.2 x List.not_mem_nil
  · rintro pre r post c c' rfl hpre hrun hend q hq
    rw [along_append] at hC
    have hdated : Dated c := by
      refine run_inv_along (C := Thorough) (I := Dated) (fun _ _ _ h hC hs => dated_step h hC hs)
        pre start c ⟨holds_start, fun q => ⟨nofun, nofun, nofun⟩⟩ hC.1 hpre
    rw [run_append, hpre] at hrun
    obtain ⟨c₁, hs, hrun⟩ := run_eq_some_cons.mp hrun
    obtain ⟨hquit, hpost⟩ := along_cons.mp (hC.2 c hpre)
    have hbefore := before_quit hdated hquit hs hq
    have hlast : Before q r c.shared.drainGeneration c' :=
      run_inv_along (C := Thorough) (I := Before q r c.shared.drainGeneration)
        (fun _ _ _ h hC hs => before_step h hC hs) post c₁ c' hbefore (hpost c₁ hs) hrun
    exact hlast.gone hend

/-! ## Two quits -/

/-- The task `r` launches the store. -/
def launched (r : ℕ) (store : String) : List (ℕ × Move) :=
  [(r, .launch store), (r, .go), (r, .go), (r, .go), (r, .built .ready), (r, .go), (r, .kept true),
    (r, .go), (r, .go)]

/-- Two stores are running, a third one is starting. -/
def busy : List (ℕ × Move) :=
  launched 0 "one" ++ launched 1 "two" ++
    [(2, .launch "three"), (2, .go), (2, .go), (2, .go), (2, .phase .startingAgent)]

/-- The drain up to its loop, and its first store, where it cancels the launch under way. -/
def cancelled : List (ℕ × Move) :=
  [(3, .go), (3, .go), (3, .go), (3, .go), (3, .go), (3, .go), (3, .go), (2, .built .ready), (2, .go),
    (2, .stopped false), (2, .go), (2, .go), (2, .go), (2, .go), (2, .go), (3, .go), (3, .go),
    (3, .go), (3, .go), (3, .go)]

/-- The drain closes a store that is running. -/
def stopped (thrown : Bool) : List (ℕ × Move) :=
  [(3, .go), (3, .go), (3, .go), (3, .stopped thrown), (3, .go), (3, .go), (3, .go), (3, .go),
    (3, .go)]

/-- Only the last store does not stop. -/
theorem drained_twice : ∃ c, run (step act) start
      (busy ++ (3, .quit) :: (cancelled ++ stopped false ++ stopped true ++ [(3, .go), (3, .go)])) =
        some c ∧ Gone 0 c.shared ∧ Gone 1 c.shared ∧ Gone 2 c.shared := by
  have hbusy : ((run (step act) start busy).any fun c =>
      c.loc 0 ≠ .idle ∧ c.loc 1 ≠ .idle ∧ c.loc 2 ≠ .idle) = true := by decide +kernel
  have hquit : ((run (step act) start
      (busy ++ (3, .quit) :: (cancelled ++ stopped false ++ stopped true ++ [(3, .go), (3, .go)]))).any
        fun c => c.loc 3 = .ended) = true := by decide +kernel
  obtain ⟨c, hc, hbegun⟩ := (Option.any_eq_true _ _).mp hbusy
  obtain ⟨c', hc', hend⟩ := (Option.any_eq_true _ _).mp hquit
  obtain ⟨h0, h1, h2⟩ := of_decide_eq_true hbegun
  have hgone := (drained_of_thorough (by decide +kernel)).2 busy 3 _ c c' rfl hc hc'
    (of_decide_eq_true hend)
  exact ⟨c', hc', hgone 0 h0, hgone 1 h1, hgone 2 h2⟩

/-- **A quit that gives up**: stopping the second of three stores throws, and `QuitAllAsync` ends with
the third one still running. -/
theorem quit_gives_up : ∃ c c', run (step act) start busy = some c ∧ c.loc 0 ≠ .idle ∧
    run (step act) start (busy ++ (3, .quit) :: (cancelled ++ stopped true ++ [(3, .go), (3, .go)])) =
      some c' ∧ c'.loc 3 = .ended ∧ ¬ Gone 0 c'.shared := by
  have hbusy : ((run (step act) start busy).any fun c => c.loc 0 ≠ .idle) = true := by
    decide +kernel
  have hquit : ((run (step act) start
      (busy ++ (3, .quit) :: (cancelled ++ stopped true ++ [(3, .go), (3, .go)]))).any fun c =>
        c.loc 3 = .ended ∧ c.shared.running.lookup "one" = some ⟨0, 0⟩) = true := by decide +kernel
  obtain ⟨c, hc, hbegun⟩ := (Option.any_eq_true _ _).mp hbusy
  obtain ⟨c', hc', hlast⟩ := (Option.any_eq_true _ _).mp hquit
  obtain ⟨hend, hone⟩ := of_decide_eq_true hlast
  exact ⟨c, c', hc, of_decide_eq_true hbegun, hc', hend, fun hgone => hgone.1 "one" _ hone rfl⟩

end IdenGrid.Client.QuitAll
