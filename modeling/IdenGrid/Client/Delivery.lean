import IdenGrid.Client.Invariant

/-! # A refresh reaches the agents

`newest_of_careful`: while no refresh is in progress, every agent that lives holds the token of the
client, provided that agents are started with the current token, that no launch is between the start
of its agent and the entry in `running` when a refresh delivers, and that the delivery runs to its
end. `launch_missed`: the agent of a launch that is there is missed. -/

namespace IdenGrid.Client.Delivery

open IdenGrid.Lib.Run IdenGrid.Lib.Requests
open IdenGrid.Control.Rows IdenGrid.Control.Sessions IdenGrid.Control.Serial
open IdenGrid.Client.Session IdenGrid.Client.Invariant

variable {s s' : App} {P : Primitives}

/-! ## Steps of the macOS client -/

theorem mem_foldl_close {failed : List String} {agents : List Agent} {a : Agent} :
    a ∈ failed.foldl close agents ↔ a ∈ agents ∧ ¬ (a.store ∈ failed ∧ a.stage = .running) := by
  induction failed generalizing agents with
  | nil => simp
  | cons store failed ih =>
    rw [List.foldl_cons, ih]
    simp only [close, List.mem_filter, decide_eq_true_eq, List.mem_cons]
    tauto

theorem mac_refreshAccessToken_fresh (h : Fresh s) (back : Option String) :
    Fresh (Mac.refreshAccessTokenIfNeeded s back).1 := by
  unfold Mac.refreshAccessTokenIfNeeded
  split
  · next hnone =>
    have hsettled := h.settled (still_of_none hnone.1)
    split
    · next token _ =>
      have hcalling : Settled { s.tick with
          refresh := some ⟨s.clock, s.generation, .calling (.sent (.refresh token))⟩ } :=
        hsettled.frame (Or.inl rfl) (fewer_refl _)
      exact hcalling.fresh
    · exact h.frame (Or.inl rfl) rfl (fewer_refl _)
  · exact h

theorem mac_refreshed_fresh (h : Fresh s) (hstill : Still s) {rf : Refresh} {back : Option String}
    {saved : Bool} {answer : Option Answer}
    (hcareful : saved = true → (outcome answer matches .tokens _) = true →
      rf.generation = s.generation → allRunning s = true) :
    Fresh (Mac.refreshed s rf back saved answer).1 := by
  have hsettled := h.settled hstill
  have hended : ∀ s' : App, s'.session = s.session ∨ s'.session = none →
      Fewer s.agents s'.agents → Fresh s' :=
    fun s' hsession hfewer => (hsettled.frame hsession hfewer).fresh
  unfold Mac.refreshed
  split
  · next hgeneration =>
    cases hout : outcome answer with
    | tokens t =>
      simp only
      split
      · next hsaved => exact delivering_fresh (hcareful hsaved (by rw [hout]) hgeneration.1)
      · exact hended _ (Or.inl rfl) (fewer_refl _)
    | rejected => exact hended _ (Or.inr rfl) (fewer_filter _ _)
    | failed => exact hended _ (Or.inl rfl) (fewer_refl _)
  · exact hended _ (Or.inl rfl) (fewer_refl _)

/-- **The end of a delivery**: the agents that are left have got the token. -/
theorem mac_updated_fresh (h : Fresh s) {rf : Refresh} {token : NativeAccess}
    {failed : List String} {back : Option String} (hrf : s.refresh = some rf)
    (hprogress : rf.progress = .delivering token [] failed) (hcareful : closesFailed s = true) :
    Fresh (Mac.updated s failed back).1 := by
  have hsettled : Settled { s with agents := failed.foldl close s.agents, refresh := none } := by
    intro t ht a ha halive
    obtain ⟨ha, hclosed⟩ := mem_foldl_close.mp ha
    rcases h t ht a ha halive with heq | ⟨rf', pending, failed', hrf', hprogress', hmem⟩
    · exact heq
    · obtain rfl := Option.some.inj (hrf.symm.trans hrf')
      obtain ⟨-, rfl, rfl⟩ : token = t.access ∧ [] = pending ∧ failed = failed' := by
        simpa [hprogress] using hprogress'
      have hfailed : a.store ∈ failed := hmem.resolve_left List.not_mem_nil
      obtain ⟨began, generation, progress⟩ := rf
      obtain rfl : progress = .delivering token [] failed := hprogress
      unfold closesFailed at hcareful
      rw [hrf] at hcareful
      have hcloses := List.all_eq_true.mp hcareful a ha
      simp only [halive, Bool.not_true, Bool.false_or, hfailed, not_true, decide_false,
        Bool.or_eq_true, decide_eq_true_eq] at hcloses
      rcases hcloses with hrunning | hcurrent
      · exact absurd ⟨hfailed, hrunning⟩ hclosed
      · exact current_iff.mp hcurrent t ht
  have hstarted : Settled (Mac.updated s failed back).1 :=
    hsettled.frame (Or.inl rfl) (fewer_refl _)
  exact hstarted.fresh

theorem mac_receive_fresh (h : Fresh s) {l l' : Task} {saved : Bool}
    (hcareful : macCareful s l (.receive saved) = true)
    (hs : Mac.receive s l saved = some (s', l')) : Fresh s' := by
  unfold Mac.receive at hs
  split at hs
  · next back answer hcall =>
    obtain ⟨rf, hrf, heq⟩ := Option.map_eq_some_iff.mp hs
    have hfresh : Fresh (Mac.refreshed s rf back saved answer).1 := by
      refine mac_refreshed_fresh h (still_of_awaited rfl hcall) fun hsaved htokens hgeneration => ?_
      subst hsaved
      simpa [macCareful, brings_of hcall htokens, hrf, hgeneration] using hcareful
    rwa [heq] at hfresh
  · next began generation call answer hcall =>
    have hnone : saved = true → (outcome answer matches .tokens _) = true →
        generation = s.generation → noneAlive s = true := by
      intro hsaved htokens hgeneration
      subst hsaved hgeneration
      simpa [macCareful, brings_of hcall htokens] using hcareful
    have hfresh : Fresh (Mac.sessionRefreshed s began generation saved answer).1 := by
      unfold Mac.sessionRefreshed
      split
      · next hgeneration =>
        cases hout : outcome answer with
        | tokens t =>
          simp only
          split
          · next hsaved => exact apply_fresh (hnone hsaved (by rw [hout]) hgeneration)
          · exact h
        | rejected => exact h.frame (Or.inr rfl) rfl (fewer_refl _)
        | failed => exact h
      · exact h
    rwa [Option.some.inj hs] at hfresh
  · next generation call answer hcall =>
    have hnone : saved = true → (outcome answer matches .tokens _) = true →
        generation = s.generation → noneAlive s = true := by
      intro hsaved htokens hgeneration
      subst hsaved hgeneration
      simpa [macCareful, brings_of hcall htokens] using hcareful
    have hfresh : Fresh (Mac.loggedIn s generation saved answer).1 := by
      unfold Mac.loggedIn
      split
      · next hgeneration =>
        cases hout : outcome answer with
        | tokens t =>
          simp only
          split
          · next hsaved => exact apply_fresh (hnone hsaved (by rw [hout]) hgeneration)
          · exact h
        | rejected => exact h
        | failed => exact h
      · exact h
    rwa [Option.some.inj hs] at hfresh
  · obtain ⟨rfl, -⟩ := Prod.mk.inj (Option.some.inj hs)
    exact h.frame (Or.inl rfl) rfl (fewer_refl _)
  · exact absurd hs.symm (Option.some_ne_none _)

theorem mac_delivery_fresh (h : Fresh s) {back : Option String} {m : Move} {l' : Task}
    (hcareful : macCareful s (.refreshing back) m = true)
    (hs : Mac.delivery s back m = some (s', l')) : Fresh s' := by
  unfold Mac.delivery at hs
  split at hs
  · next rf hrf =>
    split at hs
    · next token pending failed id store answer hprogress =>
      split at hs
      · obtain ⟨rfl, -⟩ := Prod.mk.inj (Option.some.inj hs)
        exact deliver_fresh h hrf hprogress (deliver_careful hrf hprogress hcareful)
      · exact absurd hs.symm (Option.some_ne_none _)
    · next token failed thrown hprogress =>
      have hfresh : Fresh (Mac.updated s failed back).1 :=
        mac_updated_fresh h hrf hprogress hcareful
      rwa [Option.some.inj hs] at hfresh
    · exact absurd hs.symm (Option.some_ne_none _)
  · exact absurd hs.symm (Option.some_ne_none _)

theorem mac_preflighted_fresh (h : Fresh s) {r : ℕ} {store : String} {token : NativeAccess}
    {retried : Bool} {answer : Preflight}
    (hcareful : macCareful s (.launching store token retried) (.preflight answer) = true) :
    Fresh (Mac.preflighted r s store token retried answer).1 := by
  cases answer with
  | ok => exact spawn_fresh h hcareful
  | rejected =>
    cases retried with
    | true => exact h
    | false => exact mac_refreshAccessToken_fresh h (some store)
  | failed => exact h

/-- The other steps of a session. -/
theorem mac_session_fresh (h : Fresh s) : Fresh (Mac.restoreSession s).1 ∧
    (∀ body, Fresh (Mac.login s body).1) ∧ Fresh (Mac.signOut s).1 ∧
    (∀ generation, Fresh (Mac.listed s generation).1) ∧ (∀ store, Fresh (Mac.launch s store).1) ∧
    ∀ store, Fresh (Mac.relaunch s store).1 := by
  refine ⟨?_, fun body => ?_, ?_, fun generation => ?_, fun store => ?_, fun store => ?_⟩
  · unfold Mac.restoreSession
    cases s.vault with
    | some token => exact h.frame (Or.inl rfl) rfl (fewer_refl _)
    | none => exact h
  · exact h.frame (Or.inl rfl) rfl (fewer_refl _)
  · unfold Mac.signOut
    cases s.session with
    | some t => exact h.frame (Or.inr rfl) rfl (fewer_filter _ _)
    | none => exact h.frame (Or.inr rfl) rfl (fewer_filter _ _)
  · unfold Mac.listed
    split
    · exact h.frame (Or.inl rfl) rfl (fewer_refl _)
    · exact h
  · unfold Mac.launch
    split <;> exact h
  · unfold Mac.relaunch
    split <;> exact h

/-- **One careful step of the macOS client.** -/
theorem mac_fresh (h : Fresh s) {r : ℕ} {l l' : Task} {m : Move} (hcareful : macCareful s l m = true)
    (hs : Mac.act P r s l m = some (s', l')) : Fresh s' := by
  obtain ⟨hrestore, hlogin, hsignOut, hlisted, hlaunch, hrelaunch⟩ := mac_session_fresh h
  have hof : ∀ {p : App × Task}, some p = some (s', l') → Fresh p.1 → Fresh s' := by
    intro p heq hp
    rwa [Option.some.inj heq] at hp
  unfold Mac.act at hs
  split at hs
  · exact hof hs hrestore
  · next body => exact hof hs (hlogin body)
  · exact hof hs hsignOut
  · next store => exact hof hs (hlaunch store)
  · exact hof hs (mac_refreshAccessToken_fresh h none)
  · exact hof hs (mac_preflighted_fresh h hcareful)
  · next store => exact hof hs (hrelaunch store)
  · exact hof hs (h.frame (Or.inl rfl) rfl (fewer_register _ r))
  · exact hof hs (h.frame (Or.inl rfl) rfl (fewer_filter _ _))
  · next restored generation => exact hof hs (hlisted generation)
  · exact mac_delivery_fresh h hcareful hs
  · exact mac_delivery_fresh h hcareful hs
  · exact mac_receive_fresh h hcareful hs
  · exact serve_fresh h hs
  · exact lose_fresh h hs
  · exact hof hs (h.frame (Or.inl rfl) rfl (fewer_refl _))
  · exact hof hs (h.frame (Or.inl rfl) rfl (fewer_filter _ _))
  · exact hof hs (h.frame (Or.inl rfl) rfl (fewer_quit _ _))
  · exact hof hs (h.frame (Or.inl rfl) rfl (fewer_stopped _ _ _))
  · exact hof hs (h.frame (Or.inl rfl) rfl (fewer_exit _ _))
  · exact absurd hs.symm (Option.some_ne_none _)

/-! ## Steps of the Windows client -/

/-- The scheduler has no part in it. -/
theorem windows_startScheduler_eq (s : App) :
    (Windows.startScheduler s).session = s.session ∧
      (Windows.startScheduler s).refresh = s.refresh ∧
      (Windows.startScheduler s).agents = s.agents := by
  unfold Windows.startScheduler
  split
  · exact ⟨rfl, rfl, rfl⟩
  · split <;> exact ⟨rfl, rfl, rfl⟩

theorem windows_startScheduler_fresh (h : Fresh s) : Fresh (Windows.startScheduler s) := by
  obtain ⟨hsession, hrefresh, hagents⟩ := windows_startScheduler_eq s
  exact h.frame (Or.inl hsession) hrefresh (hagents ▸ fewer_refl _)

/-- Where no token is being delivered, the refresh may end. -/
theorem windows_rescheduled_fresh (h : Settled s) : Fresh (Windows.rescheduled s).1 := by
  have hended : Settled { s with refresh := none } := h.frame (Or.inl rfl) (fewer_refl _)
  exact windows_startScheduler_fresh hended.fresh

theorem windows_refreshAccessToken_fresh (h : Fresh s) : Fresh (Windows.refreshAccessToken s).1 := by
  unfold Windows.refreshAccessToken
  split
  · next hnone =>
    have hsettled := h.settled (still_of_none hnone.1)
    split
    · next token _ =>
      have hcalling : Settled { s.tick with
          refresh := some ⟨s.clock, s.generation, .calling (.sent (.refresh token))⟩ } :=
        hsettled.frame (Or.inl rfl) (fewer_refl _)
      exact hcalling.fresh
    · exact windows_startScheduler_fresh h
  · exact h

theorem windows_refreshed_fresh (h : Fresh s) (hstill : Still s) {rf : Refresh} {saved : Bool}
    {answer : Option Answer}
    (hcareful : (outcome answer matches .tokens _) = true →
      allRunning s = true ∧ (saved = true ∨ noneAlive s = true)) :
    Fresh (Windows.refreshed s rf saved answer).1 := by
  have hsettled := h.settled hstill
  unfold Windows.refreshed
  cases hout : outcome answer with
  | tokens t =>
    obtain ⟨hrunning, hnone⟩ := hcareful (by rw [hout])
    simp only
    split
    · exact delivering_fresh hrunning
    · next hsaved =>
      refine windows_rescheduled_fresh (settled_of_noneAlive (hnone.resolve_left hsaved) rfl)
  | rejected =>
    have hended : ∀ s' : App, s'.session = s.session → s'.agents = s.agents → Fresh s' :=
      fun s' hsession hagents =>
        (hsettled.frame (Or.inl hsession) (hagents ▸ fewer_refl _)).fresh
    simp only
    split
    · exact hended _ rfl rfl
    · exact hended _ rfl rfl
  | failed => exact windows_rescheduled_fresh hsettled

theorem windows_beginAuthenticatedSession_fresh {t : Tokens} {restored : Option ℕ} {saved : Bool}
    (h : noneAlive s = true) :
    Fresh (Windows.beginAuthenticatedSession s t restored saved).1 := by
  have hsettled : Settled (Windows.beginAuthenticatedSession s t restored saved).1 := by
    unfold Windows.beginAuthenticatedSession
    cases saved <;> exact settled_of_noneAlive h rfl
  exact hsettled.fresh

theorem windows_receive_fresh (h : Fresh s) {l l' : Task} {saved : Bool}
    (hcareful : windowsCareful s l (.receive saved) = true)
    (hs : Windows.receive s l saved = some (s', l')) : Fresh s' := by
  unfold Windows.receive at hs
  split at hs
  · next back answer hcall =>
    obtain ⟨rf, hrf, heq⟩ := Option.map_eq_some_iff.mp hs
    have hfresh : Fresh (Windows.refreshed s rf saved answer).1 := by
      refine windows_refreshed_fresh h (still_of_awaited rfl hcall) fun htokens => ?_
      simpa [windowsCareful, brings_of hcall htokens] using hcareful
    rwa [heq] at hfresh
  · next began generation call answer hcall =>
    have hfresh : Fresh (Windows.sessionRestored s began saved answer).1 := by
      unfold Windows.sessionRestored
      cases hout : outcome answer with
      | tokens t =>
        have htokens : (outcome answer matches .tokens _) = true := by rw [hout]
        refine windows_beginAuthenticatedSession_fresh ?_
        simpa [windowsCareful, brings_of hcall htokens] using hcareful
      | rejected => exact h.frame (Or.inl rfl) rfl (fewer_refl _)
      | failed => exact h
    rwa [Option.some.inj hs] at hfresh
  · next generation call answer hcall =>
    have hfresh : Fresh (Windows.loggedIn s saved answer).1 := by
      unfold Windows.loggedIn
      cases hout : outcome answer with
      | tokens t =>
        have htokens : (outcome answer matches .tokens _) = true := by rw [hout]
        refine windows_beginAuthenticatedSession_fresh ?_
        simpa [windowsCareful, brings_of hcall htokens] using hcareful
      | rejected => exact h
      | failed => exact h
    rwa [Option.some.inj hs] at hfresh
  · obtain ⟨rfl, -⟩ := Prod.mk.inj (Option.some.inj hs)
    exact h.frame (Or.inr rfl) rfl (fewer_refl _)
  · exact absurd hs.symm (Option.some_ne_none _)

/-- **One store that has failed is closed**: its agent is gone, the others are still to come. -/
theorem windows_closeFailed_fresh (h : Fresh s) {rf : Refresh} {token : NativeAccess}
    {store : String} {rest : List String} {thrown : Bool} (hrf : s.refresh = some rf)
    (hprogress : rf.progress = .delivering token [] (store :: rest))
    (hcareful : thrown = true → closesFirst s = true) :
    Fresh (Windows.closeFailed s rf token store rest thrown).1 := by
  have hleft : ∀ t, s.session = some t → ∀ a ∈ s.agents, a.alive = true → a.store ≠ store →
      a.token = t.access ∨ token = t.access ∧ a.store ∈ rest := by
    intro t ht a ha halive hstore
    refine (h t ht a ha halive).imp_right fun hunderway => ?_
    obtain ⟨rf', pending, failed, hrf', hprogress', hmem⟩ := hunderway
    obtain rfl := Option.some.inj (hrf.symm.trans hrf')
    obtain ⟨rfl, rfl, rfl⟩ : token = t.access ∧ [] = pending ∧ store :: rest = failed := by
      simpa [hprogress] using hprogress'
    have hfailed := hmem.resolve_left List.not_mem_nil
    exact ⟨rfl, (List.mem_cons.mp hfailed).resolve_left hstore⟩
  have hkept : ∀ a ∈ s.agents.filter (fun a => a.store ≠ store), a ∈ s.agents ∧ a.store ≠ store := by
    intro a ha
    obtain ⟨ha, hstore⟩ := List.mem_filter.mp ha
    exact ⟨ha, of_decide_eq_true hstore⟩
  unfold Windows.closeFailed
  simp only
  split
  · next hend =>
    refine windows_rescheduled_fresh fun t ht a ha halive => ?_
    obtain ⟨ha, hstore⟩ := hkept a ha
    rcases hleft t ht a ha halive hstore with heq | ⟨-, hrest⟩
    · exact heq
    · rcases hend with hthrown | rfl
      · have hcloses := hcareful hthrown
        obtain ⟨began, generation, progress⟩ := rf
        obtain rfl : progress = .delivering token [] (store :: rest) := hprogress
        unfold closesFirst at hcloses
        rw [hrf] at hcloses
        have hcurrent := List.all_eq_true.mp hcloses a ha
        simp only [halive, hstore, hrest, Bool.not_true, Bool.false_or, not_true, decide_false]
          at hcurrent
        exact current_iff.mp hcurrent t ht
      · exact absurd hrest List.not_mem_nil
  · intro t ht a ha halive
    obtain ⟨ha, hstore⟩ := hkept a ha
    refine (hleft t ht a ha halive hstore).imp_right fun hrest => ?_
    obtain ⟨rfl, hrest⟩ := hrest
    exact ⟨_, _, _, rfl, rfl, Or.inr hrest⟩

theorem windows_delivery_fresh (h : Fresh s) {back : Option String} {m : Move} {l' : Task}
    (hcareful : windowsCareful s (.refreshing back) m = true)
    (hs : Windows.delivery s m = some (s', l')) : Fresh s' := by
  unfold Windows.delivery at hs
  split at hs
  · next rf hrf =>
    split at hs
    · next token pending failed id store answer hprogress =>
      split at hs
      · obtain ⟨rfl, -⟩ := Prod.mk.inj (Option.some.inj hs)
        exact deliver_fresh h hrf hprogress (deliver_careful hrf hprogress hcareful)
      · exact absurd hs.symm (Option.some_ne_none _)
    · next token store rest thrown hprogress =>
      have hfresh : Fresh (Windows.closeFailed s rf token store rest thrown).1 := by
        refine windows_closeFailed_fresh h hrf hprogress fun hthrown => ?_
        simpa [windowsCareful, hthrown] using hcareful
      rwa [Option.some.inj hs] at hfresh
    · next token thrown hprogress =>
      have hsettled : Settled s := by
        intro t ht a ha halive
        rcases h t ht a ha halive with heq | ⟨rf', pending, failed, hrf', hprogress', hmem⟩
        · exact heq
        · obtain rfl := Option.some.inj (hrf.symm.trans hrf')
          obtain ⟨-, rfl, rfl⟩ : token = t.access ∧ [] = pending ∧ [] = failed := by
            simpa [hprogress] using hprogress'
          rcases hmem with hmem | hmem
          · exact absurd hmem List.not_mem_nil
          · exact absurd hmem List.not_mem_nil
      have hfresh := windows_rescheduled_fresh hsettled
      rwa [Option.some.inj hs] at hfresh
    · next thrown hprogress =>
      have hstill : Still s := by
        intro rf' token pending failed hrf' hprogress'
        obtain rfl := Option.some.inj (hrf.symm.trans hrf')
        cases hprogress.symm.trans hprogress'
      split at hs
      · obtain ⟨rfl, -⟩ := Prod.mk.inj (Option.some.inj hs)
        have hended : Settled { s with refresh := none } :=
          (h.settled hstill).frame (Or.inl rfl) (fewer_refl _)
        exact hended.fresh
      · split at hs
        · obtain ⟨rfl, -⟩ := Prod.mk.inj (Option.some.inj hs)
          exact fun t ht => absurd ht.symm (Option.some_ne_none _)
        · exact absurd hs.symm (Option.some_ne_none _)
    · exact absurd hs.symm (Option.some_ne_none _)
  · exact absurd hs.symm (Option.some_ne_none _)

/-- The other steps of a session. -/
theorem windows_session_fresh (h : Fresh s) : Fresh (Windows.restoreSession s).1 ∧
    (∀ body, Fresh (Windows.login s body).1) ∧ (∀ began, Fresh (Windows.logout s began).1) ∧
    ∀ store, Fresh (Windows.launch s store).1 := by
  refine ⟨?_, fun body => h.frame (Or.inl rfl) rfl (fewer_refl _), fun began => ?_, fun store => ?_⟩
  · unfold Windows.restoreSession
    cases s.vault with
    | some token => exact h.frame (Or.inl rfl) rfl (fewer_refl _)
    | none => exact h
  · unfold Windows.logout
    cases s.session with
    | some t => exact h
    | none => exact h.frame (Or.inr rfl) rfl (fewer_refl _)
  · unfold Windows.launch
    split
    · split <;> exact h
    · exact h

/-- **One careful step of the Windows client.** -/
theorem windows_fresh (h : Fresh s) {r : ℕ} {l l' : Task} {m : Move}
    (hcareful : windowsCareful s l m = true)
    (hs : Windows.act P r s l m = some (s', l')) : Fresh s' := by
  obtain ⟨hrestore, hlogin, hlogout, hlaunch⟩ := windows_session_fresh h
  have hof : ∀ {p : App × Task}, some p = some (s', l') → Fresh p.1 → Fresh s' := by
    intro p heq hp
    rwa [Option.some.inj heq] at hp
  unfold Windows.act at hs
  split at hs
  · exact hof hs hrestore
  · next body => exact hof hs (hlogin body)
  · unfold Windows.logoutClick at hs
    split at hs
    · exact absurd hs.symm (Option.some_ne_none _)
    · exact hof hs (h.frame (Or.inl rfl) rfl (fewer_refl _))
  · next began =>
    split at hs
    · exact hof hs (hlogout began)
    · exact absurd hs.symm (Option.some_ne_none _)
  · next store => exact hof hs (hlaunch store)
  · exact hof hs (spawn_fresh h hcareful)
  · exact hof hs (windows_refreshAccessToken_fresh h)
  · exact hof hs (h.frame (Or.inl rfl) rfl (fewer_register _ r))
  · exact hof hs (h.frame (Or.inl rfl) rfl (fewer_filter _ _))
  · exact hof hs (windows_startScheduler_fresh h)
  · exact windows_delivery_fresh h hcareful hs
  · exact windows_delivery_fresh h hcareful hs
  · exact windows_delivery_fresh h hcareful hs
  · exact windows_receive_fresh h hcareful hs
  · exact serve_fresh h hs
  · exact lose_fresh h hs
  · exact hof hs (h.frame (Or.inl rfl) rfl (fewer_refl _))
  · exact hof hs (h.frame (Or.inl rfl) rfl (fewer_filter _ _))
  · exact hof hs (h.frame (Or.inl rfl) rfl (fewer_exit _ _))
  · exact absurd hs.symm (Option.some_ne_none _)

/-! ## Runs -/

/-- What every careful step preserves, every careful run preserves. -/
theorem newest_of_steps {act : ℕ → App → Task → Move → Option (App × Task)}
    {careful : App → Task → Move → Bool}
    (hstep : ∀ r s l m s' l', Fresh s → careful s l m = true → act r s l m = some (s', l') → Fresh s')
    {vault : Option RefreshToken} {db : Db} {acts : List (ℕ × Move)} {c : Crew App Task}
    (hrun : run (step act) (opened vault db) acts = some c)
    (hcareful : Along (step act) (fun c e => careful c.shared (c.loc e.1) e.2 = true)
      (opened vault db) acts) : Newest c.shared := by
  have hstart : Fresh (opened vault db).shared :=
    fun t ht => absurd ht.symm (Option.some_ne_none _)
  have hfresh : Fresh c.shared := by
    refine run_inv_along (I := fun c => Fresh c.shared) ?_ acts (opened vault db) c hstart hcareful
      hrun
    intro d e d' hI hC hs
    obtain ⟨s', l', hact, rfl⟩ := step_eq_some.mp hs
    exact hstep e.1 d.shared (d.loc e.1) e.2 s' l' hI hC hact
  exact hfresh.newest

variable (P)

/-- **Every agent that lives has the newest token whenever no refresh is in progress**, on both
clients, in every interleaving whose steps take care. -/
theorem newest_of_careful (vault : Option RefreshToken) (db : Db) (acts : List (ℕ × Move))
    (c : Crew App Task) :
    (run (step (Mac.act P)) (opened vault db) acts = some c →
      Along (step (Mac.act P)) (fun c e => macCareful c.shared (c.loc e.1) e.2 = true)
        (opened vault db) acts → Newest c.shared) ∧
    (run (step (Windows.act P)) (opened vault db) acts = some c →
      Along (step (Windows.act P)) (fun c e => windowsCareful c.shared (c.loc e.1) e.2 = true)
        (opened vault db) acts → Newest c.shared) :=
  ⟨newest_of_steps fun _ _ _ _ _ _ h hcareful hs => mac_fresh h hcareful hs,
    newest_of_steps fun _ _ _ _ _ _ h hcareful hs => windows_fresh h hcareful hs⟩

/-- A launch, and then a refresh that the agent gets. -/
def sampleRefresh : List (ℕ × Move) :=
  [(1, .register), (2, .refresh), (2, .serve (sampleInputs (minutes 10) "secret-2")),
    (2, .receive true), (2, .deliver 1 "7" .updated), (2, .finish false)]

def sampleMac : List (ℕ × Move) :=
  sampleSignIn ++ [(1, .launch "7"), (1, .preflight .ok)] ++ sampleRefresh

def sampleWindows : List (ℕ × Move) :=
  sampleSignIn ++ [(1, .launch "7"), (1, .spawn)] ++ sampleRefresh

theorem newest_of_careful_sample :
    (∃ c, run (step (Mac.act .sample)) (opened none sampleDb) sampleMac = some c ∧
      c.shared.agents.length = 1 ∧ Newest c.shared) ∧
    ∃ c, run (step (Windows.act .sample)) (opened none sampleDb) sampleWindows = some c ∧
      c.shared.agents.length = 1 ∧ Newest c.shared := by
  constructor
  · obtain ⟨c, hc⟩ : ∃ c, run (step (Mac.act .sample)) (opened none sampleDb) sampleMac = some c :=
      ⟨_, rfl⟩
    have hone : ((run (step (Mac.act .sample)) (opened none sampleDb) sampleMac).any fun c =>
        c.shared.agents.length = 1) = true := by decide +kernel
    simp only [hc, Option.any_some, decide_eq_true_eq] at hone
    exact ⟨c, hc, hone,
      (newest_of_careful .sample none sampleDb sampleMac c).1 hc (by decide +kernel)⟩
  · obtain ⟨c, hc⟩ :
        ∃ c, run (step (Windows.act .sample)) (opened none sampleDb) sampleWindows = some c :=
      ⟨_, rfl⟩
    have hone : ((run (step (Windows.act .sample)) (opened none sampleDb) sampleWindows).any
        fun c => c.shared.agents.length = 1) = true := by decide +kernel
    simp only [hc, Option.any_some, decide_eq_true_eq] at hone
    exact ⟨c, hc, hone,
      (newest_of_careful .sample none sampleDb sampleWindows c).2 hc (by decide +kernel)⟩

/-- The refresh comes between the start of the agent and the entry in `running`. -/
def lateLaunch : List (ℕ × Move) :=
  [(2, .refresh), (2, .serve (sampleInputs (minutes 10) "secret-2")), (2, .receive true),
    (2, .finish false), (1, .register)]

/-- No refresh is in progress, and a running agent has an old token. -/
def missed (s : App) : Bool :=
  s.refresh.isNone && s.session.any fun t =>
    s.agents.any fun a => a.alive && a.stage = .running && a.token ≠ t.access

theorem not_newest_of_missed (h : missed s = true) : ¬ Newest s := by
  intro hnewest
  simp only [missed, Bool.and_eq_true, Option.isNone_iff_eq_none, Option.any_eq_true,
    List.any_eq_true, decide_eq_true_eq] at h
  obtain ⟨hnone, t, ht, a, ha, ⟨halive, -⟩, hold⟩ := h
  exact hold (hnewest hnone t ht a ha halive)

/-- **The agent of a launch in progress is missed**: the refresh is over, the agent runs, and it
keeps the token that the refresh has replaced. -/
theorem launch_missed :
    (∃ c, run (step (Mac.act .sample)) (opened none sampleDb)
      (sampleSignIn ++ [(1, .launch "7"), (1, .preflight .ok)] ++ lateLaunch) = some c ∧
        ¬ Newest c.shared) ∧
    ∃ c, run (step (Windows.act .sample)) (opened none sampleDb)
      (sampleSignIn ++ [(1, .launch "7"), (1, .spawn)] ++ lateLaunch) = some c ∧
        ¬ Newest c.shared := by
  have hmac : ((run (step (Mac.act .sample)) (opened none sampleDb)
      (sampleSignIn ++ [(1, .launch "7"), (1, .preflight .ok)] ++ lateLaunch)).any fun c =>
        missed c.shared) = true := by decide +kernel
  have hwindows : ((run (step (Windows.act .sample)) (opened none sampleDb)
      (sampleSignIn ++ [(1, .launch "7"), (1, .spawn)] ++ lateLaunch)).any fun c =>
        missed c.shared) = true := by decide +kernel
  obtain ⟨c, hc, hmissed⟩ := (Option.any_eq_true _ _).mp hmac
  obtain ⟨d, hd, hmissed'⟩ := (Option.any_eq_true _ _).mp hwindows
  exact ⟨⟨c, hc, not_newest_of_missed hmissed⟩, d, hd, not_newest_of_missed hmissed'⟩

end IdenGrid.Client.Delivery
