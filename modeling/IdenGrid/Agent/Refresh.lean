import IdenGrid.Lib.Run
import IdenGrid.Agent.Central
import IdenGrid.Control.Sessions

/-! # Heartbeats across token refreshes

The server, the client that refreshes the token and hands it to the agent, and the agent's
`heartbeat_loop`, each at its own pace: a refresh makes the old token invalid when it commits, the
new one reaches the agent with an `update_token` later on, and the requests and responses of a
heartbeat take their time. A heartbeat that is rejected is repeated once, and only if the agent has
got a token since it read the one it has sent. The lease stays active and its node online, so that a
heartbeat is rejected for its token alone.

`shut_down_iff`: this goes well if the rejection comes after the update, and the repetition before
the next refresh. -/

namespace IdenGrid.Agent.Refresh

open IdenGrid.Lib.Run IdenGrid.Agent.Central
open IdenGrid.Control.Rows IdenGrid.Control.Sessions

/-- The account and its device session. -/
structure Server where
  user : User
  session : DeviceSession
  deriving DecidableEq, Repr

/-- Whether an access token is accepted. -/
def Server.accepts (s : Server) (token : NativeAccess) (now : ℕ) : Bool :=
  (nativeAccessIdentity (fun id => if id = s.session.id then some s.session else none)
    (fun id => if id = s.user.id then some s.user else none) token now).isSome

variable (P : Primitives)

/-- A refresh that succeeds: the session, and the new access token. -/
def Server.refresh (s : Server) (now accessTime : ℕ) (secret : String) : Server × NativeAccess :=
  let session := rotateSet s.session now (P.refreshHash ⟨s.session.id, secret⟩) s.session
  ({ s with session := session }, issueNativeAccess s.user session accessTime)

/-- Where `heartbeat_loop` stands. A request keeps the token it carries and the generation read with
it; `retry` says that it is the second one. -/
inductive Beat
  | idle
  | sent (token : NativeAccess) (generation : ℕ) (retry : Bool)
  | answered (status : ℕ) (generation : ℕ) (retry : Bool)
  | shutDown
  deriving DecidableEq, Repr

/-- The server, the tokens the client has yet to deliver, and the agent with its token. -/
structure Net where
  server : Server
  pending : List NativeAccess
  token : NativeAccess
  generation : ℕ
  beat : Beat
  deriving DecidableEq, Repr

def Net.start (server : Server) (token : NativeAccess) : Net := ⟨server, [], token, 0, .idle⟩

inductive Move
  | refresh (now accessTime : ℕ) (secret : String)
  /-- An `update_token` with one of the tokens that are to be delivered. -/
  | update (token : NativeAccess)
  | tick
  /-- The server gets the request. -/
  | serve (now : ℕ)
  /-- The agent gets the response. -/
  | respond
  deriving DecidableEq, Repr

/-- `CentralClient::update_token`. -/
def Net.updateToken (n : Net) (token : NativeAccess) : Net :=
  { n with token := token, generation := n.generation + 1 }

/-- `CentralClient::heartbeat` with a response. -/
def Net.onResponse (n : Net) (status generation : ℕ) (retry : Bool) : Beat :=
  if (status = 401 ∨ status = 403) ∧ n.generation ≠ generation ∧ retry = false then
    .sent n.token n.generation true
  else if isSuccess status then .idle
  else .shutDown

def step (n : Net) (m : Move) : Option Net :=
  match m with
  | .refresh now accessTime secret =>
    let out := n.server.refresh P now accessTime secret
    some { n with server := out.1, pending := n.pending ++ [out.2] }
  | .update token =>
    if token ∈ n.pending then
      some ({ n with pending := n.pending.erase token }.updateToken token)
    else none
  | .tick =>
    if n.beat = .idle then some { n with beat := .sent n.token n.generation false } else none
  | .serve now =>
    match n.beat with
    | .sent token generation retry =>
      let status := if n.server.accepts token now then 200 else 401
      some { n with beat := .answered status generation retry }
    | _ => none
  | .respond =>
    match n.beat with
    | .answered status generation retry =>
      some { n with beat := n.onResponse status generation retry }
    | _ => none

/-! ## When the agent lives on -/

/-- A rejection reaches the agent only after an update since the rejected request, and a repeated
request reaches the server while its token is accepted. -/
def safe (n : Net) : Move → Bool
  | .serve now =>
    match n.beat with
    | .sent token _ true => n.server.accepts token now
    | _ => true
  | .respond =>
    match n.beat with
    | .answered status generation false => isSuccess status || n.generation ≠ generation
    | _ => true
  | _ => true

def Alive (n : Net) : Prop := n.beat ≠ .shutDown

/-- The server answers 200 or 401, and accepts the repeated requests. -/
def Answers (n : Net) : Prop :=
  ∀ status generation retry, n.beat = .answered status generation retry →
    status = 200 ∨ status = 401 ∧ retry = false

variable {P} {n n' : Net}

theorem onResponse_of_success {status : ℕ} (h : status = 200) (generation : ℕ) (retry : Bool) :
    n.onResponse status generation retry = .idle := by
  subst h
  rfl

theorem onResponse_of_rejected {status generation : ℕ} (h : status = 401)
    (hupdated : n.generation ≠ generation) :
    n.onResponse status generation false = .sent n.token n.generation true := by
  subst h
  exact if_pos ⟨Or.inl rfl, hupdated, rfl⟩

/-- The agent gives up. -/
theorem onResponse_shutDown {status generation : ℕ} {retry : Bool} (h : status = 401)
    (hfinal : n.generation = generation ∨ retry = true) :
    n.onResponse status generation retry = .shutDown := by
  subst h
  refine (if_neg ?_).trans rfl
  rintro ⟨-, hupdated, hretry⟩
  rcases hfinal with hfinal | hfinal
  · exact hupdated hfinal
  · exact Bool.false_ne_true (hretry.symm.trans hfinal)

/-- **A safe step keeps the agent alive.** -/
theorem alive_step {m : Move} (hI : Alive n ∧ Answers n) (hC : safe n m = true)
    (h : step P n m = some n') : Alive n' ∧ Answers n' := by
  obtain ⟨halive, hanswers⟩ := hI
  cases m with
  | refresh now accessTime secret =>
    obtain rfl := Option.some.inj h
    exact ⟨halive, hanswers⟩
  | update token =>
    simp only [step] at h
    split_ifs at h
    obtain rfl := Option.some.inj h
    exact ⟨halive, hanswers⟩
  | tick =>
    simp only [step] at h
    split_ifs at h
    obtain rfl := Option.some.inj h
    exact ⟨Beat.noConfusion, fun _ _ _ hbeat => Beat.noConfusion hbeat⟩
  | serve now =>
    cases hbeat : n.beat with
    | sent token generation retry =>
      simp only [step, hbeat] at h
      obtain rfl := Option.some.inj h
      refine ⟨Beat.noConfusion, fun status generation' retry' heq => ?_⟩
      obtain ⟨rfl, rfl, rfl⟩ := Beat.answered.inj heq
      cases retry with
      | true =>
        have haccepts : n.server.accepts token now = true := by simpa only [safe, hbeat] using hC
        exact Or.inl (if_pos haccepts)
      | false =>
        split_ifs
        · exact Or.inl rfl
        · exact Or.inr ⟨rfl, rfl⟩
    | _ =>
      simp only [step, hbeat] at h
      exact absurd h (Option.some_ne_none _).symm
  | respond =>
    cases hbeat : n.beat with
    | answered status generation retry =>
      simp only [step, hbeat] at h
      obtain rfl := Option.some.inj h
      rcases hanswers status generation retry hbeat with hsuccess | ⟨hrejected, rfl⟩
      · rw [onResponse_of_success hsuccess]
        exact ⟨Beat.noConfusion, fun _ _ _ heq => Beat.noConfusion heq⟩
      · have hupdated : n.generation ≠ generation := by
          subst hrejected
          simpa [safe, hbeat, isSuccess] using hC
        rw [onResponse_of_rejected hrejected hupdated]
        exact ⟨Beat.noConfusion, fun _ _ _ heq => Beat.noConfusion heq⟩
    | _ =>
      simp only [step, hbeat] at h
      exact absurd h (Option.some_ne_none _).symm

/-- The agent has shut down, or will as soon as it gets its response. -/
def Doomed (n : Net) : Prop :=
  n.beat = .shutDown ∨ ∃ generation, n.beat = .answered 401 generation true

theorem doomed_step {m : Move} (hD : Doomed n) (h : step P n m = some n') : Doomed n' := by
  cases m with
  | refresh now accessTime secret =>
    obtain rfl := Option.some.inj h
    exact hD
  | update token =>
    simp only [step] at h
    split_ifs at h
    obtain rfl := Option.some.inj h
    exact hD
  | tick =>
    rcases hD with hbeat | ⟨generation, hbeat⟩ <;> simp [step, hbeat] at h
  | serve now =>
    rcases hD with hbeat | ⟨generation, hbeat⟩ <;> simp [step, hbeat] at h
  | respond =>
    rcases hD with hbeat | ⟨generation, hbeat⟩
    · simp [step, hbeat] at h
    · simp only [step, hbeat] at h
      obtain rfl := Option.some.inj h
      exact Or.inl (onResponse_shutDown rfl (Or.inr rfl))

/-- **A step that is not safe dooms the agent.** -/
theorem unsafe_step {m : Move} (hC : ¬ safe n m = true) (h : step P n m = some n') :
    Doomed n' := by
  cases m with
  | serve now =>
    cases hbeat : n.beat with
    | sent token generation retry =>
      cases retry with
      | true =>
        simp only [safe, hbeat] at hC
        simp only [step, hbeat] at h
        obtain rfl := Option.some.inj h
        exact Or.inr ⟨generation, by rw [if_neg hC]⟩
      | false =>
        simp only [safe, hbeat] at hC
        exact absurd trivial hC
    | _ =>
      simp only [step, hbeat] at h
      exact absurd h (Option.some_ne_none _).symm
  | respond =>
    cases hbeat : n.beat with
    | answered status generation retry =>
      cases retry with
      | true =>
        simp only [safe, hbeat] at hC
        exact absurd trivial hC
      | false =>
        simp only [safe, hbeat, Bool.or_eq_true, decide_eq_true_eq, not_or, not_not] at hC
        simp only [step, hbeat] at h
        obtain rfl := Option.some.inj h
        refine Or.inl ((if_neg fun hretry => hretry.2.1 hC.2).trans (if_neg hC.1))
    | _ =>
      simp only [step, hbeat] at h
      exact absurd h (Option.some_ne_none _).symm
  | _ => exact absurd rfl hC

/-- **Token refreshes spare the agent, exactly**: a run whose steps are all safe never shuts the agent
down; and once all messages of its heartbeats have been delivered, a run that has not shut the agent
down was safe at every step. -/
theorem shut_down_iff (P : Primitives) (server : Server) (token : NativeAccess)
    {moves : List Move} {n : Net} (hr : run (step P) (Net.start server token) moves = some n) :
    (Along (step P) (fun n m => safe n m = true) (Net.start server token) moves →
      Visits (step P) Alive (Net.start server token) moves) ∧
    (n.beat = .idle →
      Along (step P) (fun n m => safe n m = true) (Net.start server token) moves) := by
  constructor
  · rintro h pre ⟨rest, rfl⟩ t ht
    have hpre := ((along_append pre rest _).mp h).1
    exact (run_inv_along (fun _ _ _ hI hC hs => alive_step hI hC hs) pre _ t
      ⟨Beat.noConfusion, fun _ _ _ hbeat => Beat.noConfusion hbeat⟩ hpre ht).1
  · intro hidle
    refine along_of_end (fun _ _ _ hC hs => unsafe_step hC hs)
      (fun _ _ _ hD hs => doomed_step hD hs) moves _ n hr fun hD => ?_
    rcases hD with hbeat | ⟨generation, hbeat⟩
    · exact Beat.noConfusion (hidle.symm.trans hbeat)
    · exact Beat.noConfusion (hidle.symm.trans hbeat)

/-! ## Concrete runs -/

def sampleServer : Server where
  user := sampleUser
  session := storeToken .sample (newSession sampleUser sampleBody 0 "session-1") "secret-1"

def oldToken : NativeAccess := issueNativeAccess sampleServer.user sampleServer.session 0

/-- A refresh, and the token that it gives. -/
def refresh (secret : String) : Move := .refresh (minutes 5) (minutes 5) secret

def newToken : NativeAccess := (sampleServer.refresh .sample (minutes 5) (minutes 5) "secret-2").2

/-- A heartbeat is overtaken by a refresh, and repeated with the new token. -/
theorem shut_down_iff_retry :
    Visits (step .sample) Alive (Net.start sampleServer oldToken)
      [.tick, refresh "secret-2", .serve (minutes 6), .update newToken, .respond,
        .serve (minutes 6), .respond] :=
  (shut_down_iff .sample sampleServer oldToken rfl).1
    ((shut_down_iff .sample sampleServer oldToken rfl).2 rfl)

/-- The rejection comes before the update: the agent shuts down, and the new token comes too late.
Or the repetition is overtaken by the next refresh. -/
theorem rejection_before_update :
    (∃ n, run (step .sample) (Net.start sampleServer oldToken)
      [refresh "secret-2", .tick, .serve (minutes 6), .respond, .update newToken] = some n ∧
      ¬ Alive n ∧ n.pending = [] ∧ n.server.accepts n.token (minutes 6) = true) ∧
    ∃ n, run (step .sample) (Net.start sampleServer oldToken)
      [.tick, refresh "secret-2", .serve (minutes 6), .update newToken, refresh "secret-3",
        .respond, .serve (minutes 6), .respond] = some n ∧ ¬ Alive n :=
  ⟨⟨_, rfl, not_not.mpr rfl, rfl, by decide +kernel⟩, ⟨_, rfl, not_not.mpr rfl⟩⟩

end IdenGrid.Agent.Refresh
