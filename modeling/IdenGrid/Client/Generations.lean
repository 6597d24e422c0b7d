import IdenGrid.Client.Mac

/-! # The generations of the macOS client

A login or a sign-out begins a new `sessionGeneration`; a refresh and a restored session read it when
they begin. `cut` is the `clock` at which the current generation began: what began before it has read
an older one (`mac_redated`), and so has what began before a sign-out that is over. -/

namespace IdenGrid.Client.Generations

open IdenGrid.Control.Rows IdenGrid.Control.Sessions IdenGrid.Control.Serial
open IdenGrid.Client.Session

variable {s s' : App} {l l' : Task} {P : Primitives} {cut : ℕ}

/-- When something began, and the generation that it has read. -/
structure Stamped (s : App) (cut began generation : ℕ) : Prop where
  past : began < s.clock
  read : generation ≤ s.generation
  older : began < cut → generation < s.generation

/-- The current generation began at `cut`, and no sign-out since. -/
structure Dated (cut : ℕ) (s : App) : Prop where
  past : cut ≤ s.clock
  signedOut : s.signedOut ≤ cut
  refresh : ∀ rf, s.refresh = some rf → Stamped s cut rf.began rf.generation

/-- The stamps of a handler. -/
def Stamps (cut : ℕ) (s : App) : Task → Prop
  | .restoring began generation _ => Stamped s cut began generation
  | .listing (some began) generation => Stamped s cut began generation
  | .loggingOut began _ => began ≤ cut
  | _ => True

/-- The clock goes on. -/
theorem Stamped.later {began generation : ℕ} (h : Stamped s cut began generation)
    (hclock : s.clock ≤ s'.clock) (hsame : s'.generation = s.generation) :
    Stamped s' cut began generation := by
  obtain ⟨hpast, hread, holder⟩ := h
  refine ⟨by omega, by omega, fun hcut => ?_⟩
  have := holder hcut
  omega

/-- A new generation begins. -/
theorem Stamped.renewed {began generation : ℕ} (h : Stamped s cut began generation)
    (hclock : s'.clock = s.clock + 1) (hnext : s'.generation = s.generation + 1) :
    Stamped s' s.clock began generation := by
  obtain ⟨hpast, hread, -⟩ := h
  exact ⟨by omega, by omega, fun _ => by omega⟩

theorem Stamps.later (h : Stamps cut s l) (hclock : s.clock ≤ s'.clock)
    (hsame : s'.generation = s.generation) : Stamps cut s' l := by
  cases l with
  | restoring began generation call => exact Stamped.later h hclock hsame
  | listing restored generation =>
    cases restored with
    | some began => exact Stamped.later h hclock hsame
    | none => trivial
  | loggingOut began call => exact h
  | _ => trivial

theorem Stamps.renewed (h : Stamps cut s l) (hcut : cut ≤ s.clock)
    (hclock : s'.clock = s.clock + 1) (hnext : s'.generation = s.generation + 1) :
    Stamps s.clock s' l := by
  cases l with
  | restoring began generation call => exact Stamped.renewed h hclock hnext
  | listing restored generation =>
    cases restored with
    | some began => exact Stamped.renewed h hclock hnext
    | none => trivial
  | loggingOut began call => exact le_trans h hcut
  | _ => trivial

/-- What a step leaves of the stamps: a date, its own stamps, and those of the others. -/
def Redated (cut : ℕ) (s s' : App) (l' : Task) : Prop :=
  ∃ cut', Dated cut' s' ∧ Stamps cut' s' l' ∧ ∀ q, Stamps cut s q → Stamps cut' s' q

/-- The refresh in progress is the one before, if there is one. -/
def SameRefresh (s s' : App) : Prop :=
  ∀ rf', s'.refresh = some rf' → ∃ rf, s.refresh = some rf ∧ rf.began = rf'.began ∧
    rf.generation = rf'.generation

theorem sameRefresh_of_eq (h : s'.refresh = s.refresh) : SameRefresh s s' :=
  fun rf' hrf' => ⟨rf', h ▸ hrf', rfl, rfl⟩

theorem sameRefresh_of_none (h : s'.refresh = none) : SameRefresh s s' :=
  fun _ hrf' => absurd (hrf'.symm.trans h) (Option.some_ne_none _)

theorem sameRefresh_of_proceed {rf : Refresh} {progress : Progress} (hrf : s.refresh = some rf)
    (h : s'.refresh = some { rf with progress := progress }) : SameRefresh s s' := by
  intro rf' hrf'
  obtain rfl := Option.some.inj (h.symm.trans hrf')
  exact ⟨rf, hrf, rfl, rfl⟩

/-- Nothing that has a date changes. -/
structure Steady (s s' : App) : Prop where
  clock : s'.clock = s.clock
  generation : s'.generation = s.generation
  signedOut : s'.signedOut = s.signedOut
  refresh : SameRefresh s s'

theorem steady_of_eq (hclock : s'.clock = s.clock) (hgeneration : s'.generation = s.generation)
    (hsignedOut : s'.signedOut = s.signedOut) (hrefresh : s'.refresh = s.refresh) : Steady s s' :=
  ⟨hclock, hgeneration, hsignedOut, sameRefresh_of_eq hrefresh⟩

theorem Steady.redated (hsteady : Steady s s') (h : Dated cut s) (hl : Stamps cut s l') :
    Redated cut s s' l' := by
  have hlater : ∀ q, Stamps cut s q → Stamps cut s' q :=
    fun q hq => hq.later hsteady.clock.ge hsteady.generation
  refine ⟨cut, ⟨hsteady.clock ▸ h.past, hsteady.signedOut ▸ h.signedOut, fun rf' hrf' => ?_⟩,
    hlater l' hl, hlater⟩
  obtain ⟨rf, hrf, hbegan, hgeneration⟩ := hsteady.refresh rf' hrf'
  rw [← hbegan, ← hgeneration]
  exact (h.refresh rf hrf).later hsteady.clock.ge hsteady.generation

/-- A new generation. -/
theorem redated_of_renewed (h : Dated cut s) (hclock : s'.clock = s.clock + 1)
    (hnext : s'.generation = s.generation + 1) (hsignedOut : s'.signedOut ≤ s.clock)
    (hrefresh : s'.refresh = s.refresh) (hl : Stamps s.clock s' l') : Redated cut s s' l' := by
  refine ⟨s.clock, ⟨by omega, hsignedOut, fun rf hrf => ?_⟩, hl,
    fun _ hq => hq.renewed h.past hclock hnext⟩
  exact (h.refresh rf (hrefresh ▸ hrf)).renewed hclock hnext

/-- What begins now has read the current generation. -/
theorem Dated.stamp (h : Dated cut s) (hclock : s'.clock = s.clock + 1)
    (hsame : s'.generation = s.generation) : Stamped s' cut s.clock s.generation := by
  have := h.past
  exact ⟨by omega, by omega, fun hcut => absurd hcut (by omega)⟩

/-! ## Steps of the macOS client -/

/-- The step leaves the dates as they are, and its handler has none. -/
def Plain (s : App) (p : App × Task) : Prop := Steady s p.1 ∧ ∀ cut, Stamps cut s p.2

theorem Plain.redated {p : App × Task} (hplain : Plain s p) (h : Dated cut s) :
    Redated cut s p.1 p.2 := hplain.1.redated h (hplain.2 cut)

theorem plain_of_eq {p : App × Task} (hclock : p.1.clock = s.clock)
    (hgeneration : p.1.generation = s.generation) (hsignedOut : p.1.signedOut = s.signedOut)
    (hrefresh : p.1.refresh = s.refresh) (hl : ∀ cut, Stamps cut s p.2) : Plain s p :=
  ⟨steady_of_eq hclock hgeneration hsignedOut hrefresh, hl⟩

theorem plain_of_ended (hclock : s'.clock = s.clock) (hgeneration : s'.generation = s.generation)
    (hsignedOut : s'.signedOut = s.signedOut) (hrefresh : s'.refresh = none) :
    Plain s (s', .ended) :=
  ⟨⟨hclock, hgeneration, hsignedOut, sameRefresh_of_none hrefresh⟩, fun _ => trivial⟩

theorem spawn_plain (r : ℕ) (s : App) (store : String) (token : NativeAccess) :
    Plain s (spawn r s store token) := by
  unfold spawn
  split <;> exact plain_of_eq rfl rfl rfl rfl fun _ => trivial

theorem mac_launch_plain (s : App) (store : String) :
    Plain s (Mac.launch s store) ∧ Plain s (Mac.relaunch s store) := by
  unfold Mac.launch Mac.relaunch
  cases s.session with
  | some t =>
    exact ⟨plain_of_eq rfl rfl rfl rfl fun _ => trivial, plain_of_eq rfl rfl rfl rfl fun _ => trivial⟩
  | none =>
    exact ⟨plain_of_eq rfl rfl rfl rfl fun _ => trivial, plain_of_eq rfl rfl rfl rfl fun _ => trivial⟩

theorem mac_listed_plain (s : App) (generation : ℕ) : Plain s (Mac.listed s generation) := by
  unfold Mac.listed
  split <;> exact plain_of_eq rfl rfl rfl rfl fun _ => trivial

theorem mac_loggedIn_plain (s : App) (generation : ℕ) (saved : Bool) (answer : Option Answer) :
    Plain s (Mac.loggedIn s generation saved answer) := by
  unfold Mac.loggedIn
  split
  · cases outcome answer with
    | tokens t => cases saved <;> exact plain_of_eq rfl rfl rfl rfl fun _ => trivial
    | rejected => exact plain_of_eq rfl rfl rfl rfl fun _ => trivial
    | failed => exact plain_of_eq rfl rfl rfl rfl fun _ => trivial
  · exact plain_of_eq rfl rfl rfl rfl fun _ => trivial

theorem mac_refreshed_plain {rf : Refresh} (hrf : s.refresh = some rf) (back : Option String)
    (saved : Bool) (answer : Option Answer) : Plain s (Mac.refreshed s rf back saved answer) := by
  unfold Mac.refreshed
  split
  · cases outcome answer with
    | tokens t =>
      cases saved with
      | true => exact ⟨⟨rfl, rfl, rfl, sameRefresh_of_proceed hrf rfl⟩, fun _ => trivial⟩
      | false => exact plain_of_ended rfl rfl rfl rfl
    | rejected => exact plain_of_ended rfl rfl rfl rfl
    | failed => exact plain_of_ended rfl rfl rfl rfl
  · exact plain_of_ended rfl rfl rfl rfl

theorem mac_sessionRefreshed_steady (s : App) (began generation : ℕ) (saved : Bool)
    (answer : Option Answer) : Steady s (Mac.sessionRefreshed s began generation saved answer).1 ∧
      ∀ cut, Stamped s cut began generation →
        Stamps cut s (Mac.sessionRefreshed s began generation saved answer).2 := by
  unfold Mac.sessionRefreshed
  split
  · cases outcome answer with
    | tokens t =>
      cases saved with
      | true => exact ⟨steady_of_eq rfl rfl rfl rfl, fun _ hstamped => hstamped⟩
      | false => exact ⟨steady_of_eq rfl rfl rfl rfl, fun _ _ => trivial⟩
    | rejected => exact ⟨steady_of_eq rfl rfl rfl rfl, fun _ _ => trivial⟩
    | failed => exact ⟨steady_of_eq rfl rfl rfl rfl, fun _ _ => trivial⟩
  · exact ⟨steady_of_eq rfl rfl rfl rfl, fun _ _ => trivial⟩

/-- A call that gets further keeps its dates. -/
theorem advance_steady (s : App) (l : Task) (call : Call) : Steady s (advance s l call).1 ∧
    (Stamps cut s l → Stamps cut s (advance s l call).2) := by
  unfold advance
  cases l with
  | refreshing back =>
    cases hrf : s.refresh with
    | none => exact ⟨steady_of_eq rfl rfl rfl rfl, fun _ => trivial⟩
    | some rf => exact ⟨⟨rfl, rfl, rfl, sameRefresh_of_proceed hrf rfl⟩, fun _ => trivial⟩
  | _ => exact ⟨steady_of_eq rfl rfl rfl rfl, fun h => h⟩

theorem mac_delivery_plain {back : Option String} {m : Move}
    (hs : Mac.delivery s back m = some (s', l')) : Plain s (s', l') := by
  unfold Mac.delivery at hs
  split at hs
  · next rf hrf =>
    split at hs
    · next token pending failed id store answer hprogress =>
      split at hs
      · obtain ⟨rfl, rfl⟩ := Prod.mk.inj (Option.some.inj hs)
        cases answer <;> exact ⟨⟨rfl, rfl, rfl, sameRefresh_of_proceed hrf rfl⟩, fun _ => trivial⟩
      · exact absurd hs.symm (Option.some_ne_none _)
    · next token failed thrown hprogress =>
      rw [← Option.some.inj hs]
      refine ⟨⟨rfl, rfl, rfl, sameRefresh_of_none rfl⟩, fun cut => ?_⟩
      cases back <;> trivial
    · exact absurd hs.symm (Option.some_ne_none _)
  · exact absurd hs.symm (Option.some_ne_none _)

theorem mac_refreshAccessToken_same (s : App) (back : Option String) :
    (Mac.refreshAccessTokenIfNeeded s back).1.signedOut = s.signedOut := by
  unfold Mac.refreshAccessTokenIfNeeded
  split
  · split <;> rfl
  · rfl

/-- A refresh that begins, or does not. -/
theorem mac_refreshAccessToken_redated (h : Dated cut s) (back : Option String) :
    Redated cut s (Mac.refreshAccessTokenIfNeeded s back).1
      (Mac.refreshAccessTokenIfNeeded s back).2 := by
  unfold Mac.refreshAccessTokenIfNeeded
  split
  · split
    · refine ⟨cut, ⟨h.past.trans (Nat.le_succ _), h.signedOut, fun rf hrf => ?_⟩, trivial,
        fun _ hq => hq.later (Nat.le_succ _) rfl⟩
      obtain rfl := Option.some.inj hrf
      exact h.stamp rfl rfl
    · have hplain : Plain s (Mac.startScheduler s, .ended) :=
        plain_of_eq rfl rfl rfl rfl fun _ => trivial
      exact hplain.redated h
  · exact (steady_of_eq rfl rfl rfl rfl).redated h trivial

theorem mac_restoreSession_redated (h : Dated cut s) :
    Redated cut s (Mac.restoreSession s).1 (Mac.restoreSession s).2 := by
  unfold Mac.restoreSession
  split
  · refine ⟨cut, ⟨h.past.trans (Nat.le_succ _), h.signedOut, fun rf hrf => ?_⟩, h.stamp rfl rfl,
      fun _ hq => hq.later (Nat.le_succ _) rfl⟩
    exact (h.refresh rf hrf).later (Nat.le_succ _) rfl
  · exact (steady_of_eq rfl rfl rfl rfl).redated h trivial

theorem mac_signOut_redated (h : Dated cut s) :
    Redated cut s (Mac.signOut s).1 (Mac.signOut s).2 := by
  have hpast := h.signedOut.trans h.past
  unfold Mac.signOut
  cases s.session with
  | some t => exact redated_of_renewed h rfl rfl hpast rfl le_rfl
  | none => exact redated_of_renewed h rfl rfl (max_le hpast le_rfl) rfl trivial

theorem mac_preflighted_redated (h : Dated cut s) (r : ℕ) (store : String) (token : NativeAccess)
    (retried : Bool) (answer : Preflight) :
    Redated cut s (Mac.preflighted r s store token retried answer).1
      (Mac.preflighted r s store token retried answer).2 := by
  cases answer with
  | ok => exact (spawn_plain r s store token).redated h
  | rejected =>
    cases retried with
    | true => exact (steady_of_eq rfl rfl rfl rfl).redated h trivial
    | false => exact mac_refreshAccessToken_redated h (some store)
  | failed => exact (steady_of_eq rfl rfl rfl rfl).redated h trivial

theorem mac_receive_redated (h : Dated cut s) (hl : Stamps cut s l) {saved : Bool}
    (hs : Mac.receive s l saved = some (s', l')) : Redated cut s s' l' := by
  unfold Mac.receive at hs
  split at hs
  · next back answer hcall =>
    obtain ⟨rf, hrf, heq⟩ := Option.map_eq_some_iff.mp hs
    have hredated := (mac_refreshed_plain hrf back saved answer).redated h
    rwa [heq] at hredated
  · next began generation call answer hcall =>
    obtain ⟨hsteady, hstamps⟩ := mac_sessionRefreshed_steady s began generation saved answer
    have hredated := hsteady.redated h (hstamps cut hl)
    rwa [Option.some.inj hs] at hredated
  · next generation call answer hcall =>
    have hredated := (mac_loggedIn_plain s generation saved answer).redated h
    rwa [Option.some.inj hs] at hredated
  · next began call answer hcall =>
    obtain ⟨rfl, rfl⟩ := Prod.mk.inj (Option.some.inj hs)
    refine ⟨cut, ⟨h.past, max_le h.signedOut hl, fun rf hrf => ?_⟩, trivial,
      fun _ hq => hq.later le_rfl rfl⟩
    exact (h.refresh rf hrf).later le_rfl rfl
  · exact absurd hs.symm (Option.some_ne_none _)

/-- **One step of the macOS client keeps the dates.** -/
theorem mac_redated (h : Dated cut s) (hl : Stamps cut s l) {r : ℕ} {m : Move}
    (hs : Mac.act P r s l m = some (s', l')) : Redated cut s s' l' := by
  have hof : ∀ {p : App × Task}, some p = some (s', l') → Redated cut s p.1 p.2 →
      Redated cut s s' l' := by
    intro p heq hp
    rwa [Option.some.inj heq] at hp
  have hsteady : ∀ {s₂ : App}, Steady s s₂ → Redated cut s s₂ l := fun hs => hs.redated h hl
  unfold Mac.act at hs
  split at hs
  · exact hof hs (mac_restoreSession_redated h)
  · exact hof hs (redated_of_renewed h rfl rfl (h.signedOut.trans h.past) rfl trivial)
  · exact hof hs (mac_signOut_redated h)
  · next store => exact hof hs ((mac_launch_plain s store).1.redated h)
  · exact hof hs (mac_refreshAccessToken_redated h none)
  · exact hof hs (mac_preflighted_redated h r _ _ _ _)
  · next store => exact hof hs ((mac_launch_plain s store).2.redated h)
  · exact hof hs (Plain.redated (plain_of_eq rfl rfl rfl rfl fun _ => trivial) h)
  · exact hof hs (Plain.redated (plain_of_eq rfl rfl rfl rfl fun _ => trivial) h)
  · next restored generation => exact hof hs ((mac_listed_plain s generation).redated h)
  · exact (mac_delivery_plain hs).redated h
  · exact (mac_delivery_plain hs).redated h
  · exact mac_receive_redated h hl hs
  · next i =>
    obtain ⟨out, -, hadvanced⟩ := serve_eq_some hs
    obtain ⟨hadvance, hstamps⟩ := advance_steady { s with db := (handle P (out.request i) s.db).1 }
      l (.answered (some (handle P (out.request i) s.db).2))
    rw [hadvanced] at hadvance hstamps
    have hserved : Steady s s' :=
      ⟨hadvance.clock, hadvance.generation, hadvance.signedOut, hadvance.refresh⟩
    exact hserved.redated h ((hstamps (hl.later le_rfl rfl)).later le_rfl rfl)
  · obtain ⟨call, -, heq⟩ := Option.map_eq_some_iff.mp hs
    obtain ⟨hadvance, hstamps⟩ := advance_steady s l (.answered none)
    have hredated := hadvance.redated h (hstamps hl)
    rwa [heq] at hredated
  · exact hof hs (hsteady (steady_of_eq rfl rfl rfl rfl))
  · exact hof hs (hsteady (steady_of_eq rfl rfl rfl rfl))
  · exact hof hs (hsteady (steady_of_eq rfl rfl rfl rfl))
  · exact hof hs (hsteady (steady_of_eq rfl rfl rfl rfl))
  · exact hof hs (hsteady (steady_of_eq rfl rfl rfl rfl))
  · exact absurd hs.symm (Option.some_ne_none _)

/-- What began before a sign-out that is over has read an older generation. -/
theorem Stamped.mismatch {began generation : ℕ} (hstamped : Stamped s cut began generation)
    (h : Dated cut s) (hstale : began < s.signedOut) : generation ≠ s.generation := by
  have := h.signedOut
  have := hstamped.older (by omega)
  omega

end IdenGrid.Client.Generations
