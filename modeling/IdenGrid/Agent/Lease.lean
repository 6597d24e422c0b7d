import IdenGrid.Lib.Run
import IdenGrid.Lib.History
import IdenGrid.Agent.Run

/-! # The agent's lease and endpoint

Two things about every run of the agent, whatever Central answers: a WebSocket goes to the URL of the
preflight with a ticket for the agent's lease (`Presents`), and an agent that has returned has
disconnected the lease that it had, once (`lease_returned`). The early return on an endpoint that is
no URL cannot be taken: `connect` has checked it (`connect_endpoint`). -/

namespace IdenGrid.Agent.Lease

open IdenGrid.Lib.Run IdenGrid.Lib.History
open IdenGrid.Agent.Central IdenGrid.Agent.Run
open IdenGrid.Agent.Run (step)

/-! ## The books -/

def Call.preflight? : Call → Option String
  | .preflight edgeEndpoint => some edgeEndpoint
  | _ => none

def Call.lease? : Call → Option String
  | .connected lease => some lease
  | _ => none

def Call.disconnect? : Call → Option String
  | .disconnect lease => some lease
  | _ => none

/-- The endpoints of the preflights, the leases obtained, and those disconnected. -/
structure Books (log : List Call) (endpoints leases returned : List String) : Prop where
  endpoints : log.filterMap Call.preflight? = endpoints
  leases : log.filterMap Call.lease? = leases
  returned : log.filterMap Call.disconnect? = returned

variable (U : Urls)

/-- A WebSocket goes to the URL of the preflight, with a ticket that Central has returned for the
lease obtained. -/
def Presents : Call → List Call → Prop
  | .webSocket url ticket, older => ∃ edgeEndpoint lease target response,
      older.filterMap Call.preflight? = [edgeEndpoint] ∧
      edgeTunnelUrl U edgeEndpoint = some url ∧ older.filterMap Call.lease? = [lease] ∧
      .ticket lease target response ∈ older ∧ response.leaseId = lease ∧ response.ticket = ticket
  | _, _ => True

/-- What is guaranteed: at any time at most one lease, disconnected at most once, and exactly the
lease obtained when the agent returns. -/
structure Sound (a : AgentState) : Prop where
  presents : Every (Presents U) a.log
  lease : (a.log.filterMap Call.lease?).length ≤ 1
  disconnect : a.log.filterMap Call.disconnect? = [] ∨
    a.log.filterMap Call.disconnect? = a.log.filterMap Call.lease?
  returned : ∀ ok, a.main = .returned ok →
    a.log.filterMap Call.disconnect? = a.log.filterMap Call.lease?

/-- The books at each stage. -/
def Accounts (log : List Call) : MainStage → Prop
  | .starting | .preflight => Books log [] [] []
  | .connecting endpoint => ∃ p, edgeTunnelUrl U p = some endpoint ∧ Books log [p] [] []
  | .leaving lease => ∃ p, Books log [p] [lease] [lease]
  | .binding lease endpoint | .serving lease endpoint =>
    ∃ p, edgeTunnelUrl U p = some endpoint ∧ Books log [p] [lease] []
  | .joining lease => ∃ p, Books log [p] [lease] []
  | .disconnecting lease _ => ∃ p, Books log [p] [lease] [lease]
  | .returned _ => ∃ ps ls, Books log ps ls ls ∧ ls.length ≤ 1

/-- What a connection expects is what the agent has. -/
def Expects (log : List Call) (t : SocksTask) : Prop :=
  ∃ p, edgeTunnelUrl U p = some t.endpoint ∧ log.filterMap Call.preflight? = [p] ∧
    log.filterMap Call.lease? = [t.lease]

structure Inv (a : AgentState) : Prop where
  presents : Every (Presents U) a.log
  accounts : Accounts U a.log a.main
  expects : ∀ t ∈ a.tasks, Expects U a.log t

variable {U} {a a' : AgentState} {log : List Call}

theorem Inv.start : Inv U .start :=
  ⟨trivial, ⟨rfl, rfl, rfl⟩, fun _ ht => absurd ht List.not_mem_nil⟩

theorem Accounts.books {main : MainStage} (h : Accounts U log main) : ∃ ps ls rs,
    Books log ps ls rs ∧ ls.length ≤ 1 ∧ (rs = [] ∨ rs = ls) := by
  cases main with
  | starting => exact ⟨_, _, _, h, Nat.zero_le _, Or.inl rfl⟩
  | preflight => exact ⟨_, _, _, h, Nat.zero_le _, Or.inl rfl⟩
  | connecting endpoint =>
    obtain ⟨p, -, hbooks⟩ := h
    exact ⟨_, _, _, hbooks, Nat.zero_le _, Or.inl rfl⟩
  | leaving lease =>
    obtain ⟨p, hbooks⟩ := h
    exact ⟨_, _, _, hbooks, Nat.le_refl _, Or.inr rfl⟩
  | binding lease endpoint =>
    obtain ⟨p, -, hbooks⟩ := h
    exact ⟨_, _, _, hbooks, Nat.le_refl _, Or.inl rfl⟩
  | serving lease endpoint =>
    obtain ⟨p, -, hbooks⟩ := h
    exact ⟨_, _, _, hbooks, Nat.le_refl _, Or.inl rfl⟩
  | joining lease =>
    obtain ⟨p, hbooks⟩ := h
    exact ⟨_, _, _, hbooks, Nat.le_refl _, Or.inl rfl⟩
  | disconnecting lease ok =>
    obtain ⟨p, hbooks⟩ := h
    exact ⟨_, _, _, hbooks, Nat.le_refl _, Or.inr rfl⟩
  | returned ok =>
    obtain ⟨ps, ls, hbooks, hle⟩ := h
    exact ⟨_, _, _, hbooks, hle, Or.inr rfl⟩

/-- **What the invariant guarantees.** -/
theorem Inv.sound (hI : Inv U a) : Sound U a := by
  obtain ⟨ps, ls, rs, hbooks, hle, hreturned⟩ := hI.accounts.books
  refine ⟨hI.presents, ?_, ?_, fun ok hok => ?_⟩
  · rw [hbooks.leases]
    exact hle
  · rw [hbooks.leases, hbooks.returned]
    exact hreturned
  · have haccounts := hI.accounts
    rw [hok] at haccounts
    obtain ⟨ps, ls, hbooks, -⟩ := haccounts
    rw [hbooks.returned, hbooks.leases]

theorem Inv.books_at {main : MainStage} (hI : Inv U a) (hmain : a.main = main) :
    Accounts U a.log main := hmain ▸ hI.accounts

/-- Before the connection there are no tasks. -/
theorem Inv.no_tasks (hI : Inv U a) {ps rs : List String} (hbooks : Books a.log ps [] rs) :
    ∀ t, t ∉ a.tasks := by
  intro t ht
  obtain ⟨p, -, -, hlease⟩ := hI.expects t ht
  rw [hbooks.leases] at hlease
  exact absurd hlease (List.cons_ne_nil _ _).symm

/-- A disconnect changes nothing for the connections. -/
theorem Expects.disconnect {t : SocksTask} (h : Expects U log t) (lease : String) :
    Expects U (.disconnect lease :: log) t := h

theorem Books.disconnect {ps : List String} {lease : String} (h : Books log ps [lease] []) :
    Books (.disconnect lease :: log) ps [lease] [lease] :=
  ⟨h.endpoints, h.leases, congrArg (lease :: ·) h.returned⟩

/-- **The agent disconnects.** -/
theorem Inv.disconnects (hI : Inv U a) {ps : List String} {lease : String}
    (hbooks : Books a.log ps [lease] []) {main : MainStage}
    (hmain : Books (.disconnect lease :: a.log) ps [lease] [lease] →
      Accounts U (.disconnect lease :: a.log) main) : Inv U (a.disconnects lease main) :=
  ⟨⟨trivial, hI.presents⟩, hmain hbooks.disconnect, fun t ht => (hI.expects t ht).disconnect lease⟩

theorem Inv.onPreflight (hI : Inv U a) (hmain : a.main = .preflight) (storeId : ℕ)
    (r : Option (Response (List StoreDto))) : Inv U (a.onPreflight U storeId r) := by
  have hbooks : Books a.log [] [] [] := hI.books_at hmain
  have hreturned : Inv U (a.to (.returned false)) :=
    ⟨hI.presents, ⟨[], [], hbooks, Nat.zero_le _⟩, hI.expects⟩
  simp only [AgentState.onPreflight]
  cases hstore : preflight U storeId r with
  | none => exact hreturned
  | some store =>
    cases hurl : edgeTunnelUrl U store.edgeEndpoint with
    | none =>
      simp only [hurl]
      exact hreturned
    | some endpoint =>
      simp only [hurl]
      refine ⟨⟨trivial, hI.presents⟩, ⟨store.edgeEndpoint, hurl, ?_⟩, fun t ht => ?_⟩
      · exact ⟨congrArg (store.edgeEndpoint :: ·) hbooks.endpoints, hbooks.leases, hbooks.returned⟩
      · exact absurd ht (hI.no_tasks hbooks t)

theorem Inv.onConnect (hI : Inv U a) {endpoint : Url} (hmain : a.main = .connecting endpoint)
    (r : Option (Response ConnectResponse)) : Inv U (a.onConnect U endpoint r) := by
  obtain ⟨p, hp, hbooks⟩ : ∃ p, edgeTunnelUrl U p = some endpoint ∧ Books a.log [p] [] [] :=
    hI.books_at hmain
  simp only [AgentState.onConnect]
  cases hconnection : connect U r with
  | none => exact ⟨hI.presents, ⟨[p], [], hbooks, Nat.zero_le _⟩, hI.expects⟩
  | some connection =>
    obtain ⟨url, hurl⟩ := connect_endpoint hconnection
    have hconnected : Books (.connected connection.leaseId :: a.log) [p] [connection.leaseId] [] :=
      ⟨hbooks.endpoints, congrArg (connection.leaseId :: ·) hbooks.leases, hbooks.returned⟩
    have htasks : ∀ t ∈ a.tasks, Expects U (.connected connection.leaseId :: a.log) t :=
      fun t ht => absurd ht (hI.no_tasks hbooks t)
    simp only [hurl]
    split_ifs
    · exact ⟨⟨trivial, trivial, hI.presents⟩, ⟨p, hconnected.disconnect⟩,
        fun t ht => (htasks t ht).disconnect _⟩
    · exact ⟨⟨trivial, hI.presents⟩, ⟨p, hp, hconnected⟩, htasks⟩

/-- Calls that the books do not keep. -/
structure Unbooked (calls : List Call) : Prop where
  endpoints : calls.filterMap Call.preflight? = []
  leases : calls.filterMap Call.lease? = []
  returned : calls.filterMap Call.disconnect? = []

theorem Unbooked.preflights {calls : List Call} (h : Unbooked calls) :
    (calls ++ log).filterMap Call.preflight? = log.filterMap Call.preflight? := by
  rw [List.filterMap_append, h.endpoints, List.nil_append]

theorem Unbooked.lease {calls : List Call} (h : Unbooked calls) :
    (calls ++ log).filterMap Call.lease? = log.filterMap Call.lease? := by
  rw [List.filterMap_append, h.leases, List.nil_append]

theorem Unbooked.books {calls : List Call} (h : Unbooked calls) {ps ls rs : List String}
    (hbooks : Books log ps ls rs) : Books (calls ++ log) ps ls rs := by
  refine ⟨h.preflights.trans hbooks.endpoints, h.lease.trans hbooks.leases, ?_⟩
  rw [List.filterMap_append, h.returned, List.nil_append, hbooks.returned]

theorem Unbooked.accounts {calls : List Call} (h : Unbooked calls) {main : MainStage}
    (haccounts : Accounts U log main) : Accounts U (calls ++ log) main := by
  cases main with
  | starting => exact h.books haccounts
  | preflight => exact h.books haccounts
  | connecting endpoint =>
    obtain ⟨p, hp, hbooks⟩ := haccounts
    exact ⟨p, hp, h.books hbooks⟩
  | leaving lease =>
    obtain ⟨p, hbooks⟩ := haccounts
    exact ⟨p, h.books hbooks⟩
  | binding lease endpoint =>
    obtain ⟨p, hp, hbooks⟩ := haccounts
    exact ⟨p, hp, h.books hbooks⟩
  | serving lease endpoint =>
    obtain ⟨p, hp, hbooks⟩ := haccounts
    exact ⟨p, hp, h.books hbooks⟩
  | joining lease =>
    obtain ⟨p, hbooks⟩ := haccounts
    exact ⟨p, h.books hbooks⟩
  | disconnecting lease ok =>
    obtain ⟨p, hbooks⟩ := haccounts
    exact ⟨p, h.books hbooks⟩
  | returned ok =>
    obtain ⟨ps, ls, hbooks, hle⟩ := haccounts
    exact ⟨ps, ls, h.books hbooks, hle⟩

theorem Unbooked.expects {calls : List Call} (h : Unbooked calls) {t : SocksTask}
    (hexpects : Expects U log t) : Expects U (calls ++ log) t := by
  obtain ⟨p, hp, hendpoint, hlease⟩ := hexpects
  exact ⟨p, hp, h.preflights.trans hendpoint, h.lease.trans hlease⟩

/-! ## The connections -/

/-- What a connection does: it keeps what it expects, and its calls are in order. -/
structure Behaves (U : Urls) (log : List Call) (t t' : SocksTask) (calls : List Call) : Prop where
  lease : t'.lease = t.lease
  endpoint : t'.endpoint = t.endpoint
  unbooked : Unbooked calls
  presents : Every (Presents U) log → Every (Presents U) (calls ++ log)

theorem behaves_quiet {t : SocksTask} (stage : SocksStage) :
    Behaves U log t { t with stage := stage } [] :=
  ⟨rfl, rfl, ⟨rfl, rfl, rfl⟩, id⟩

/-- **The check of a ticket**: the WebSocket goes to the connection's endpoint, with a ticket for its
lease. -/
theorem behaves_onTicket {t : SocksTask} (hexpects : Expects U log t) (target : Target)
    (r : Option (Response TicketResponse)) :
    Behaves U log t (t.onTicket U target r).1 (t.onTicket U target r).2 := by
  simp only [SocksTask.onTicket]
  cases hticket : Central.ticket U r with
  | none => exact behaves_quiet .ended
  | some ticket =>
    have hgranted : ∀ stage, Behaves U log t { t with stage := stage }
        [.ticket t.lease target ticket] := fun stage =>
      ⟨rfl, rfl, ⟨rfl, rfl, rfl⟩, fun h => ⟨trivial, h⟩⟩
    cases hurl : edgeTunnelUrl U ticket.edgeEndpoint with
    | none => simpa only [hurl] using hgranted .ended
    | some url =>
      simp only [hurl]
      split_ifs with hchanged hheader
      · exact hgranted .ended
      · push Not at hchanged
        obtain ⟨p, hp, hendpoint, hlease⟩ := hexpects
        refine ⟨rfl, rfl, ⟨rfl, rfl, rfl⟩, fun h => ⟨?_, trivial, h⟩⟩
        exact ⟨p, t.lease, target, ticket, hendpoint, hp, hlease, List.mem_cons_self,
          hchanged.1, rfl⟩
      · exact hgranted .ended

/-- **One connection gets on.** -/
theorem Inv.task (hI : Inv U a) {i : ℕ} {f : SocksTask → Option (SocksTask × List Call)}
    (hf : ∀ t ∈ a.tasks, ∀ t' calls, f t = some (t', calls) → Behaves U a.log t t' calls)
    (h : a.task i f = some a') : Inv U a' := by
  simp only [AgentState.task, Option.bind_eq_bind, Option.bind_eq_some_iff] at h
  obtain ⟨t, ht, ⟨t', calls⟩, hstep, h⟩ := h
  obtain rfl := Option.some.inj h
  have hmem : t ∈ a.tasks := List.mem_of_getElem? ht
  have hbehaves := hf t hmem t' calls hstep
  refine ⟨hbehaves.presents hI.presents, hbehaves.unbooked.accounts hI.accounts, fun u hu => ?_⟩
  rcases List.mem_or_eq_of_mem_set hu with hu | rfl
  · exact hbehaves.unbooked.expects (hI.expects u hu)
  · have hexpects := hbehaves.unbooked.expects (hI.expects t hmem)
    simpa only [Expects, hbehaves.lease, hbehaves.endpoint] using hexpects

/-! ## Runs -/

theorem Inv.stops (hI : Inv U a) {lease : String} {endpoint : Url}
    (hmain : a.main = .serving lease endpoint) : Inv U (a.stops lease) := by
  obtain ⟨p, -, hbooks⟩ : ∃ p, edgeTunnelUrl U p = some endpoint ∧ Books a.log [p] [lease] [] :=
    hI.books_at hmain
  exact ⟨hI.presents, ⟨p, hbooks⟩, hI.expects⟩

/-- **Every step keeps the invariant.** -/
theorem inv_step {storeId : ℕ} {e : Event} (hI : Inv U a) (h : step U storeId a e = some a') :
    Inv U a' := by
  cases e with
  | setUp ok =>
    simp only [step] at h
    split_ifs at h with hmain hok
    · obtain rfl := Option.some.inj h
      have hbooks : Books a.log [] [] [] := hI.books_at hmain
      exact ⟨hI.presents, hbooks, hI.expects⟩
    · obtain rfl := Option.some.inj h
      have hbooks : Books a.log [] [] [] := hI.books_at hmain
      exact ⟨hI.presents, ⟨[], [], hbooks, Nat.zero_le _⟩, hI.expects⟩
  | preflight r =>
    simp only [step] at h
    split_ifs at h with hmain
    obtain rfl := Option.some.inj h
    exact hI.onPreflight hmain storeId r
  | connect r =>
    simp only [step] at h
    split at h
    · next endpoint hmain =>
      obtain rfl := Option.some.inj h
      exact hI.onConnect hmain r
    · exact absurd h (Option.some_ne_none _).symm
  | bind ok =>
    simp only [step] at h
    split at h
    · next lease endpoint hmain =>
      obtain ⟨p, hp, hbooks⟩ : ∃ p, edgeTunnelUrl U p = some endpoint ∧
        Books a.log [p] [lease] [] := hI.books_at hmain
      split_ifs at h <;> obtain rfl := Option.some.inj h
      · exact ⟨hI.presents, ⟨p, hp, hbooks⟩, hI.expects⟩
      · exact hI.disconnects hbooks fun hbooks => ⟨p, hbooks⟩
    · exact absurd h (Option.some_ne_none _).symm
  | accepted ok =>
    simp only [step] at h
    split at h
    · next lease endpoint hmain =>
      obtain ⟨p, hp, hbooks⟩ : ∃ p, edgeTunnelUrl U p = some endpoint ∧
        Books a.log [p] [lease] [] := hI.books_at hmain
      split_ifs at h <;> obtain rfl := Option.some.inj h
      · refine ⟨hI.presents, hI.accounts, fun t ht => ?_⟩
        rcases List.mem_append.mp ht with ht | ht
        · exact hI.expects t ht
        · obtain rfl := List.mem_singleton.mp ht
          exact ⟨p, hp, hbooks.endpoints, hbooks.leases⟩
      · have hinv : Inv U (a.disconnects lease (.disconnecting lease false)) :=
          hI.disconnects hbooks fun hbooks => ⟨p, hbooks⟩
        exact ⟨hinv.presents, hinv.accounts, hinv.expects⟩
    · exact absurd h (Option.some_ne_none _).symm
  | shutdownSeen =>
    simp only [step] at h
    split at h
    · next lease endpoint hmain =>
      split_ifs at h
      obtain rfl := Option.some.inj h
      exact hI.stops hmain
    · exact absurd h (Option.some_ne_none _).symm
  | externalShutdown =>
    simp only [step] at h
    split at h
    · next lease endpoint hmain =>
      obtain rfl := Option.some.inj h
      exact hI.stops hmain
    · exact absurd h (Option.some_ne_none _).symm
  | joined =>
    simp only [step] at h
    split at h
    · next lease hmain =>
      split_ifs at h
      obtain rfl := Option.some.inj h
      obtain ⟨p, hbooks⟩ : ∃ p, Books a.log [p] [lease] [] := hI.books_at hmain
      exact hI.disconnects hbooks fun hbooks => ⟨p, hbooks⟩
    · exact absurd h (Option.some_ne_none _).symm
  | disconnected ok =>
    simp only [step] at h
    split at h
    · next lease hmain =>
      obtain rfl := Option.some.inj h
      obtain ⟨p, hbooks⟩ : ∃ p, Books a.log [p] [lease] [lease] := hI.books_at hmain
      exact ⟨hI.presents, ⟨[p], [lease], hbooks, Nat.le_refl _⟩, hI.expects⟩
    · next lease ok' hmain =>
      obtain rfl := Option.some.inj h
      obtain ⟨p, hbooks⟩ : ∃ p, Books a.log [p] [lease] [lease] := hI.books_at hmain
      exact ⟨hI.presents, ⟨[p], [lease], hbooks, Nat.le_refl _⟩, hI.expects⟩
    · exact absurd h (Option.some_ne_none _).symm
  | negotiated i target =>
    refine hI.task (fun t _ t' calls hstep => ?_) h
    split_ifs at hstep
    obtain ⟨rfl, rfl⟩ := Prod.mk.inj (Option.some.inj hstep)
    exact behaves_quiet _
  | ticket i r =>
    refine hI.task (fun t ht t' calls hstep => ?_) h
    split at hstep
    · next target hstage =>
      have hbehaves := behaves_onTicket (hI.expects t ht) target r
      rw [Option.some.inj hstep] at hbehaves
      exact hbehaves
    · exact absurd hstep (Option.some_ne_none _).symm
  | relayEnds i =>
    refine hI.task (fun t _ t' calls hstep => ?_) h
    split_ifs at hstep
    obtain ⟨rfl, rfl⟩ := Prod.mk.inj (Option.some.inj hstep)
    exact behaves_quiet _
  | aborted i =>
    refine hI.task (fun t _ t' calls hstep => ?_) h
    split_ifs at hstep
    obtain ⟨rfl, rfl⟩ := Prod.mk.inj (Option.some.inj hstep)
    exact behaves_quiet _
  | heartbeat ok =>
    simp only [step] at h
    split_ifs at h
    obtain rfl := Option.some.inj h
    exact ⟨hI.presents, hI.accounts, hI.expects⟩
  | heartbeatEnds =>
    simp only [step] at h
    split_ifs at h
    obtain rfl := Option.some.inj h
    exact ⟨hI.presents, hI.accounts, hI.expects⟩
  | control command =>
    simp only [step] at h
    split_ifs at h
    obtain rfl := Option.some.inj h
    exact ⟨hI.presents, hI.accounts, hI.expects⟩
  | controlEnds =>
    simp only [step] at h
    split_ifs at h
    obtain rfl := Option.some.inj h
    exact ⟨hI.presents, hI.accounts, hI.expects⟩

/-- **The lease is returned**: in every run of the agent, whatever Central answers and whatever the
connections, the heartbeats and the control requests do, every WebSocket goes to the URL of the
preflight with a ticket for the lease obtained, and once the agent has returned, it has disconnected
exactly this lease. -/
theorem lease_returned (U : Urls) (storeId : ℕ) (events : List Event) :
    Visits (step U storeId) (Sound U) AgentState.start events := by
  intro pre _ a ha
  exact (run_inv (fun _ _ _ hI h => inv_step hI h) pre _ a Inv.start ha).sound

end IdenGrid.Agent.Lease
