import IdenGrid.Client.Launches

/-! # What most steps leave alone

Most steps of the app are on the session, Central and the waiting itself, or close stores; nine of them
are `Special`. A relation that reflects what the first kind does (`Frame`) holds across every step that
is not special (`Frame.act`), so that an invariant only has to be looked at where something happens. -/

namespace IdenGrid.Client.Frames

open IdenGrid.Client.Launches IdenGrid.Client.Launches.App

variable {device : String} {R : App → App → Prop}

/-- The store whose agent the launch is waiting for. -/
def Task.store? : Task → Option String
  | .waiting l _ | .querying l _ | .verifying l _ => some l.store.id
  | _ => none

/-- The record that the task is stopping. -/
def Task.stops : Task → Option (String × ℕ)
  | .stopping _ store record _ _ _ => some (store, record)
  | _ => none

/-- The tables, processes and calls of the app. -/
structure Tables where
  states : String → Option LaunchState
  edgeLatencies : String → Option EdgeLatency
  running : AList fun _ : String => ℕ
  latencyTasks : String → Option ℕ
  locks : String → Option Lock
  processes : List Process
  disconnects : List Disconnect
  stopping : String → Option (ℕ × ℕ)

def tables (s : App) : Tables :=
  ⟨s.states, s.edgeLatencies, s.running, s.latencyTasks, s.locks, s.processes, s.disconnects,
    s.stopping⟩

structure Frame (R : App → App → Prop) : Prop where
  same : ∀ {s s'}, tables s' = tables s → R s s'
  trans : ∀ {s s' s''}, R s s' → R s' s'' → R s s''
  tearDown : ∀ s x {state}, state ≠ .running → R s (s.tearDown x state)
  closeAfter : ∀ s x, R s (closeAfterTokenUpdateFailure s x)
  exit : ∀ s p, R s (exit s p)
  answered : ∀ s r, R s { s with disconnects := s.disconnects.filter fun d => d.task ≠ r }

/-- The steps on which the tables change otherwise. -/
inductive Special (device : String) (r : ℕ) (s : App) : Task → Move → App × Task → Prop
  | entered (l retried lease prepared) :
    Special device r s (.preflighting l retried (some (.ok lease))) (.preflight prepared)
      (enter r s l lease prepared)
  | ready (l lease failure) :
    Special device r s (.waiting l lease) (.ready failure) (ready r s l lease failure)
  | queried (l lease answer) :
    Special device r s (.querying l lease) (.status answer) (queried device r s l lease answer)
  | verified (l lease answer browser) :
    Special device r s (.verifying l lease) (.egress answer browser)
      (verified r s l lease answer browser)
  | measured (l answer) :
    Special device r s (.measuring l) (.measured answer)
      (startLatencyPolling r (refreshEdgeLatency s l.store.id answer) l.store.id)
  | polled (store answer) :
    Special device r s (.polling store) (.measured answer)
      (refreshEdgeLatency s store answer, if r ∈ s.cancelled then .ended else .sleeping store)
  | terminated : Special device r s .idle .terminate (prepareForApplicationTermination r s)
  | browserWaited (began store record rest success) :
    Special device r s (.stopping began store record none rest success) .waited
      (s.terminate record .agent,
        .stopping began store record (some ¬ s.isRunning store record .browser) rest success)
  | agentWaited (began store record browserStopped rest success) :
    Special device r s (.stopping began store record (some browserStopped) rest success) .waited
      (stopped r s began store record (browserStopped ∧ ¬ s.isRunning store record .agent) rest
        success)

/-- The task stays where it is, or goes from one place without a lock to another. -/
def Idles (t t' : Task) : Prop :=
  t' = t ∨ Task.stops t = none ∧ Task.stops t' = none ∧ Task.store? t' = none

namespace Frame

theorem refl (hR : Frame R) (s : App) : R s s := hR.same rfl

theorem close (hR : Frame R) (s : App) (x : String) : R s (close s x) :=
  hR.tearDown s x LaunchState.noConfusion

theorem foldl (hR : Frame R) {f : App → String → App} (hf : ∀ s x, R s (f s x)) :
    ∀ (keys : List String) (s : App), R s (keys.foldl f s)
  | [], s => hR.refl s
  | x :: keys, s => hR.trans (hf s x) (hR.foldl hf keys (f s x))

theorem quitAll (hR : Frame R) (s : App) : R s (quitAll s) :=
  hR.foldl hR.close s.running.keys s

theorem signOut (hR : Frame R) (s : App) : R s (signOut s).1 := by
  have hs : R s { s.tick with
      accessToken := none, sessionGeneration := s.sessionGeneration + 1 } := hR.same rfl
  have hq := hR.trans hs (hR.quitAll _)
  unfold Launches.signOut
  dsimp only
  split
  · exact hq
  · exact hR.trans hq (hR.same rfl)

theorem refresh (hR : Frame R) (s : App) (back : Option Launch) :
    R s (refreshAccessTokenIfNeeded s back).1 := by
  unfold refreshAccessTokenIfNeeded
  split
  · exact hR.same rfl
  · exact hR.refl s

theorem renewed (hR : Frame R) (s : App) (back : Option Launch) (generation : ℕ)
    (answer : Renewal) : R s (renewed s back generation answer).1 := by
  have hs : R s { s with isRefreshingAccessToken := false } :=
    hR.same rfl
  unfold Launches.renewed
  dsimp only
  split
  · split
    · exact hR.same rfl
    · have hq := hR.trans hs (hR.quitAll _)
      exact hR.trans hq (hR.same rfl)
    · exact hs
  · exact hs

theorem updated (hR : Frame R) (s : App) (back : Option Launch) (failed : List String) :
    R s (updated s back failed).1 := by
  have hs : R s { s with isRefreshingAccessToken := false } :=
    hR.same rfl
  have hf := hR.trans hs (hR.foldl hR.closeAfter (sorted failed) _)
  unfold Launches.updated
  dsimp only
  split
  · exact hf
  · exact hf

theorem disconnected (hR : Frame R) (s : App) (r : ℕ) (served : Bool) :
    R s (disconnected r s served) := by
  obtain ⟨leases, hs⟩ := disconnected_eq r s served
  rw [hs]
  exact hR.trans (hR.answered s r) (hR.same rfl)

theorem served (hR : Frame R) (s : App) (l : Launch) : R s (nativeStorePreflight s l).1 := by
  obtain ⟨leases, issued, hs⟩ := nativeStorePreflight_eq s l
  rw [hs]
  exact hR.same rfl

end Frame

/-- A task that ends its refresh is on no store. -/
theorem idles_refresh (s : App) (t : Task) (back : Option Launch) (ht : Task.stops t = none) :
    Idles t (refreshAccessTokenIfNeeded s back).2 := by
  unfold refreshAccessTokenIfNeeded
  split
  · exact .inr ⟨ht, rfl, rfl⟩
  · exact .inr ⟨ht, rfl, rfl⟩

theorem idles_renewed (s : App) (back : Option Launch) (generation : ℕ) (answer : Renewal) :
    Idles (.refreshing back generation) (renewed s back generation answer).2 := by
  unfold renewed
  dsimp only
  split
  · split
    · exact .inr ⟨rfl, rfl, rfl⟩
    · exact .inr ⟨rfl, rfl, rfl⟩
    · exact .inr ⟨rfl, rfl, rfl⟩
  · exact .inr ⟨rfl, rfl, rfl⟩

theorem idles_updated (s : App) (back : Option Launch) (failed : List String) :
    Idles (.delivering back [] failed) (updated s back failed).2 := by
  unfold updated
  dsimp only
  split
  · exact .inr ⟨rfl, rfl, rfl⟩
  · exact .inr ⟨rfl, rfl, rfl⟩

/-- **One step**: it is special, or it does what every frame reflects. -/
theorem Frame.act (hR : Frame R) {r : ℕ} {s s' : App} {t t' : Task} {m : Move}
    (hact : act device r s t m = some (s', t')) :
    R s s' ∧ Idles t t' ∨ Special device r s t m (s', t') := by
  have plain : ∀ {p : App × Task}, R s p.1 ∧ Idles t p.2 → some p = some (s', t') →
      R s s' ∧ Idles t t' ∨ Special device r s t m (s', t') := by
    rintro p hp he
    obtain rfl := Option.some.inj he
    exact .inl hp
  have special : ∀ {p : App × Task}, Special device r s t m p → some p = some (s', t') →
      R s s' ∧ Idles t t' ∨ Special device r s t m (s', t') := by
    rintro p hp he
    obtain rfl := Option.some.inj he
    exact .inr hp
  unfold Launches.act at hact
  split at hact
  · refine plain ?_ hact
    unfold launch
    split
    · exact ⟨hR.same rfl, .inr ⟨rfl, rfl, rfl⟩⟩
    · exact ⟨hR.refl s, .inr ⟨rfl, rfl, rfl⟩⟩
  · refine plain ⟨hR.signOut s, ?_⟩ hact
    unfold Launches.signOut
    dsimp only
    split
    · exact .inr ⟨rfl, rfl, rfl⟩
    · exact .inr ⟨rfl, rfl, rfl⟩
  · exact special .terminated hact
  · exact plain ⟨hR.refresh s none, idles_refresh s .idle none rfl⟩ hact
  · exact plain ⟨hR.same rfl, .inl rfl⟩ hact
  · exact plain ⟨hR.same rfl, .inl rfl⟩ hact
  · exact plain ⟨hR.close s _, .inl rfl⟩ hact
  · exact plain ⟨hR.quitAll s, .inl rfl⟩ hact
  · split at hact
    · exact plain ⟨hR.served s _, .inr ⟨rfl, rfl, rfl⟩⟩ hact
    · exact plain ⟨hR.refl s, .inr ⟨rfl, rfl, rfl⟩⟩ hact
    · exact plain ⟨hR.refl s, .inr ⟨rfl, rfl, rfl⟩⟩ hact
  · next l retried answer =>
    -- only an accepted launch comes into the manager
    cases answer with
    | ok lease => exact special (.entered l retried lease _) hact
    | rejected =>
      cases retried with
      | true => exact plain ⟨hR.refl s, .inr ⟨rfl, rfl, rfl⟩⟩ hact
      | false => exact plain ⟨hR.refresh s (some l), idles_refresh s _ (some l) rfl⟩ hact
    | failed => exact plain ⟨hR.refl s, .inr ⟨rfl, rfl, rfl⟩⟩ hact
  · exact plain ⟨hR.renewed s _ _ _, idles_renewed s _ _ _⟩ hact
  · exact plain ⟨hR.refl s, .inr ⟨rfl, rfl, rfl⟩⟩ hact
  · exact plain ⟨hR.updated s _ _, idles_updated s _ _⟩ hact
  · exact special (.ready _ _ _) hact
  · exact special (.queried _ _ _) hact
  · exact special (.verified _ _ _ _) hact
  · exact special (.measured _ _) hact
  · refine plain ⟨hR.refl s, .inr ⟨rfl, ?_, ?_⟩⟩ hact
    · dsimp only; split <;> rfl
    · dsimp only; split <;> rfl
  · exact special (.polled _ _) hact
  · exact special (.browserWaited _ _ _ _ _) hact
  · exact special (.agentWaited _ _ _ _ _ _) hact
  · exact plain ⟨hR.same rfl, .inr ⟨rfl, rfl, rfl⟩⟩ hact
  · exact plain ⟨hR.disconnected s r _, .inr ⟨rfl, rfl, rfl⟩⟩ hact
  · obtain ⟨p, -, hp⟩ := Option.map_eq_some_iff.mp hact
    exact plain ⟨hR.exit s p, .inl rfl⟩ (congrArg some hp)
  · split at hact
    · refine plain ⟨hR.trans (hR.same ?_) (hR.tearDown _ _ LaunchState.noConfusion), .inl rfl⟩ hact
      rfl
    · exact absurd hact.symm (Option.some_ne_none _)
  · exact plain ⟨hR.same rfl, .inl rfl⟩ hact
  · exact absurd hact.symm (Option.some_ne_none _)

end IdenGrid.Client.Frames
