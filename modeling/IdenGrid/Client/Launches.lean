import IdenGrid.Lib.Requests
import Mathlib.Data.List.AList
import Mathlib.Data.List.Sort
import Mathlib.Data.String.Basic

/-! # Launches on macOS

`StoreProcessManager`, and of `StoreViewModel` what begins and ends launches, cut at their awaits:
whatever runs on the main actor between two awaits is one step, and the tasks interleave freely. The
processes that were spawned are in `processes` until they exit, which they may do at any time; an exit
is noticed by a later task on the main actor. Central is cut down to the leases of this device.

A launch, its agent and browser and its polling task all go by the number of the task that runs the
launch. `clock`, `finished` and `stopping` are bookkeeping: when calls began, which calls of `signOut`
and `prepareForApplicationTermination` have finished, and which record a call of `quitAllAndWait` has
in its hands. -/

namespace IdenGrid.Client.Launches

inductive LaunchState
  | idle
  | preflighting
  | startingAgent
  | verifyingEgress
  | launchingBrowser
  | running
  | failed (reason : String)
deriving DecidableEq, Repr

inductive ProcessError
  | storeAlreadyRunning
  | missingAgent
  | missingBundledBrowser
  | missingExtension
  | wrongArchitecture
  | configPermissions
  | agentTimeout
  | invalidAgentResponse
  | egressUnavailable
deriving DecidableEq, Repr

def ProcessError.errorDescription : ProcessError → String
  | storeAlreadyRunning => "店铺已在运行"
  | missingAgent => "缺少内置 Agent"
  | missingBundledBrowser => "缺少内置浏览器"
  | missingExtension => "缺少内置扩展"
  | wrongArchitecture => "组件不是纯 arm64"
  | configPermissions => "无法保护 Agent 配置"
  | agentTimeout => "Agent 就绪超时"
  | invalidAgentResponse => "Agent 状态无效"
  | egressUnavailable => "出口验证失败"

/-- What a step of a launch throws. -/
inductive Failure
  | process (error : ProcessError)
  | system (description : String)
deriving DecidableEq, Repr

def Failure.localizedDescription : Failure → String
  | process error => error.errorDescription
  | system description => description

structure EdgeLatency where
  scope : String
  source : String
  latestRttMs : Option ℤ
deriving DecidableEq, Repr

structure AgentStatus where
  status : String
  socksHost : String
  socksPort : ℤ
  deviceId : String
  edgeLatency : Option EdgeLatency
deriving DecidableEq, Repr

structure StoreDTO where
  id : String
  expectedPublicIPv4 : Option String
deriving DecidableEq, Repr

/-- An access token: the user it stands for, and which of his tokens it is. -/
structure AccessToken where
  user : ℕ
  serial : ℕ
deriving DecidableEq, Repr

inductive Kind
  | agent
  | browser
deriving DecidableEq, Repr

/-- A process that is alive; `terminated` if it has been told to end, `held` if the launch has got its
`Process`. -/
structure Process where
  launch : ℕ
  store : String
  kind : Kind
  terminated : Bool
  held : Bool
deriving DecidableEq, Repr

/-- The lock file of a store: it was there when the app started, or a launch has created it. -/
inductive Lock
  | found
  | created (launch : ℕ)
deriving DecidableEq, Repr

/-- The task that a `terminationHandler` puts on the main actor. -/
structure Notice where
  store : String
  launch : ℕ
  kind : Kind
deriving DecidableEq, Repr

/-- A call of `api.disconnect` on its way. -/
structure Disconnect where
  task : ℕ
  store : String
  user : ℕ
  lease : ℕ
deriving DecidableEq, Repr

structure App where
  accessToken : Option AccessToken
  sessionGeneration : ℕ
  isRefreshingAccessToken : Bool
  states : String → Option LaunchState
  edgeLatencies : String → Option EdgeLatency
  running : AList fun _ : String => ℕ
  latencyTasks : String → Option ℕ
  /-- The polling tasks that have been cancelled. -/
  cancelled : List ℕ
  locks : String → Option Lock
  processes : List Process
  notices : List Notice
  /-- The active lease of a store and a user for this device. -/
  leases : String × ℕ → Option ℕ
  /-- The number of leases that Central has made. -/
  issued : ℕ
  disconnects : List Disconnect
  clock : ℕ
  finished : List ℕ
  stopping : String → Option (ℕ × ℕ)

/-- The answer to `api.preflight`. -/
inductive Preflight
  | ok (lease : ℕ)
  | rejected
  | failed
deriving DecidableEq, Repr

structure Launch where
  store : StoreDTO
  token : AccessToken
  began : ℕ
deriving DecidableEq, Repr

inductive Task
  | idle
  | preflighting (launch : Launch) (retried : Bool) (answer : Option Preflight)
  /-- `refreshAccessTokenIfNeeded`; `back` is the launch that waits for it. -/
  | refreshing (back : Option Launch) (generation : ℕ)
  | delivering (back : Option Launch) (pending failed : List String)
  /-- In `waitForAuthenticatedReady`. -/
  | waiting (launch : Launch) (lease : ℕ)
  /-- In `agentStatus`. -/
  | querying (launch : Launch) (lease : ℕ)
  /-- In `verifyEgress`. -/
  | verifying (launch : Launch) (lease : ℕ)
  /-- In the first `refreshEdgeLatency`. -/
  | measuring (launch : Launch)
  | disconnecting (launch : Launch)
  | sleeping (store : String)
  | polling (store : String)
  /-- In `stopBrowserAndWait`, then (with its result) in `stopAgentAndWait`. -/
  | stopping (began : ℕ) (store : String) (record : ℕ) (browserStopped : Option Bool)
      (rest : List String) (success : Bool)
  | loggingOut (began : ℕ)
  | ended
deriving DecidableEq, Repr

/-- The launch a task is on. -/
def Task.launch? : Task → Option Launch
  | .preflighting l _ _ | .waiting l _ | .querying l _ | .verifying l _ | .measuring l
  | .disconnecting l => some l
  | .refreshing back _ | .delivering back _ _ => back
  | _ => none

/-- How far `launch` gets before its first await. -/
inductive Prepared
  /-- `createDirectories` throws. -/
  | unlocked (failure : Failure)
  /-- Something between the lock and the agent throws. -/
  | locked (failure : Failure)
  /-- `spawnAgent` throws when the agent is up: its log cannot be closed. -/
  | leaked (failure : Failure)
  | spawned
deriving DecidableEq, Repr

/-- The agent is up afterwards. -/
def Prepared.starts : Prepared → Bool
  | .leaked _ | .spawned => true
  | _ => false

/-- The agent is up afterwards, and nobody will end it. -/
def Prepared.leaks : Prepared → Bool
  | .leaked _ => true
  | _ => false

/-- What `api.refresh` comes to. -/
inductive Renewal
  | tokens (token : AccessToken)
  | rejected
  | failed
deriving DecidableEq, Repr

inductive Move
  | launch (store : StoreDTO)
  | signOut
  | terminate
  | refresh
  | login
  | authenticated (token : AccessToken)
  | close (store : String)
  | quitAll
  | serve (accepted : Option Bool)
  | preflight (prepared : Prepared)
  | renewed (answer : Renewal)
  | delivered (updated : Bool)
  | finish
  | ready (failure : Option Failure)
  | status (answer : Except Failure AgentStatus)
  | egress (answer : Except Failure (ℕ × Option String)) (browser : Option Failure)
  | measured (answer : Option AgentStatus)
  | woken
  | waited
  | loggedOut
  | disconnected (served : Bool)
  | exit (launch : ℕ) (kind : Kind)
  | notice (notice : Notice)
  /-- A lease ends at Central. -/
  | expire (store : String) (user : ℕ)
deriving Repr

/-! ## The tables -/

namespace App

def tick (s : App) : App := { s with clock := s.clock + 1 }

def finish (s : App) (began : ℕ) : App := { s with finished := began :: s.finished }

def setState (s : App) (store : String) (state : LaunchState) : App :=
  { s with states := Function.update s.states store (some state) }

def terminate (s : App) (launch : ℕ) (kind : Kind) : App :=
  { s with
    processes := s.processes.map fun p =>
      if p.launch = launch ∧ p.kind = kind then { p with terminated := true } else p }

def releaseLock (s : App) (store : String) : App :=
  { s with locks := Function.update s.locks store none }

def isRunning (s : App) (store : String) (launch : ℕ) (kind : Kind) : Bool :=
  s.processes.any fun p => p.store = store ∧ p.launch = launch ∧ p.kind = kind

/-- `latencyTasks.removeValue(forKey: storeID)?.cancel()` with the latency. -/
def stopPolling (s : App) (store : String) : App :=
  { s with
    cancelled := (s.latencyTasks store).toList ++ s.cancelled
    latencyTasks := Function.update s.latencyTasks store none
    edgeLatencies := Function.update s.edgeLatencies store none }

/-- What `close` and `handleUnexpectedExit` have in common. -/
def tearDown (s : App) (store : String) (state : LaunchState) : App :=
  match s.running.lookup store with
  | none => s.stopPolling store
  | some launch =>
    (((({ s.stopPolling store with running := s.running.erase store }).terminate launch .browser
      ).terminate launch .agent).releaseLock store).setState store state

end App

open App

def close (s : App) (store : String) : App := s.tearDown store .idle

def closeAfterTokenUpdateFailure (s : App) (store : String) : App :=
  (close s store).setState store (.failed "会话凭据更新失败，已安全关闭")

def quitAll (s : App) : App := s.running.keys.foldl close s

def handleUnexpectedExit (s : App) (n : Notice) : App :=
  s.tearDown n.store (.failed (match n.kind with
    | .agent => "Agent 已意外退出"
    | .browser => "浏览器已意外退出"))

/-! ## Quitting -/

def sorted (keys : List String) : List String := keys.insertionSort (· ≤ ·)

/-- `quitAllAndWait` from the head of its loop to the next await. -/
def quitAllAndWait (r began : ℕ) (s : App) (success : Bool) : List String → App × Task
  | [] => (if success ∧ s.running.keys = [] then s.finish began else s, .ended)
  | store :: rest =>
    match s.running.lookup store with
    | none => quitAllAndWait r began (s.stopPolling store) success rest
    | some record =>
      ({ (s.stopPolling store).terminate record .browser with
          running := s.running.erase store
          stopping := Function.update s.stopping store (some (r, record)) },
        .stopping began store record none rest success)

def prepareForApplicationTermination (r : ℕ) (s : App) : App × Task :=
  quitAllAndWait r s.clock s.tick true (sorted s.running.keys)

/-- The state of a store that `quitAllAndWait` could not stop. -/
def notStopped : LaunchState := .failed "浏览器未能安全结束，请重试退出"

/-- `quitAllAndWait` after `stopAgentAndWait`. -/
def stopped (r : ℕ) (s : App) (began : ℕ) (store : String) (record : ℕ) (both : Bool)
    (rest : List String) (success : Bool) : App × Task :=
  let s := { s with stopping := Function.update s.stopping store none }
  if both then
    quitAllAndWait r began ((s.releaseLock store).setState store .idle) success rest
  else
    quitAllAndWait r began
      (({ s with running := s.running.insert store record }).setState store notStopped) false rest

/-! ## The session -/

def signOut (s : App) : App × Task :=
  let s' := quitAll
    { s.tick with accessToken := none, sessionGeneration := s.sessionGeneration + 1 }
  match s.accessToken with
  | some _ => (s', .loggingOut s.clock)
  | none => (s'.finish s.clock, .ended)

def refreshAccessTokenIfNeeded (s : App) (back : Option Launch) : App × Task :=
  if s.isRefreshingAccessToken = false ∧ s.accessToken.isSome then
    ({ s with isRefreshingAccessToken := true }, .refreshing back s.sessionGeneration)
  else (s, .ended)

/-- `refreshAccessTokenIfNeeded` with its answer, up to the first `update_token`. -/
def renewed (s : App) (back : Option Launch) (generation : ℕ) (answer : Renewal) : App × Task :=
  let s' := { s with isRefreshingAccessToken := false }
  if generation = s.sessionGeneration ∧ s.accessToken.isSome then
    match answer with
    | .tokens token => ({ s with accessToken := some token }, .delivering back s.running.keys [])
    | .rejected => ({ quitAll s' with accessToken := none }, .ended)
    | .failed => (s', .ended)
  else (s', .ended)

/-- `refreshAccessTokenIfNeeded` after `updateAccessTokenForRunningAgents`, and the launch that goes on
with the new token. -/
def updated (s : App) (back : Option Launch) (failed : List String) : App × Task :=
  let s := (sorted failed).foldl closeAfterTokenUpdateFailure
    { s with isRefreshingAccessToken := false }
  match back, s.accessToken with
  | some l, some token => (s, .preflighting { l with token := token } true none)
  | _, _ => (s, .ended)

/-! ## Launches -/

def launch (s : App) (store : StoreDTO) : App × Task :=
  match s.accessToken with
  | some token => (s.tick, .preflighting ⟨store, token, s.clock⟩ false none)
  | none => (s, .ended)

/-- `native_store_preflight` -/
def nativeStorePreflight (s : App) (l : Launch) : App × ℕ :=
  match s.leases (l.store.id, l.token.user) with
  | some lease => (s, lease)
  | none =>
    ({ s with
        leases := Function.update s.leases (l.store.id, l.token.user) (some s.issued)
        issued := s.issued + 1 }, s.issued)

theorem nativeStorePreflight_eq (s : App) (l : Launch) :
    ∃ leases issued, (nativeStorePreflight s l).1 = { s with leases := leases, issued := issued } := by
  unfold nativeStorePreflight
  split
  · exact ⟨s.leases, s.issued, rfl⟩
  · exact ⟨_, s.issued + 1, rfl⟩

/-- `launch` of the view model where the manager's returns `false`. -/
def disconnect (r : ℕ) (s : App) (l : Launch) (lease : ℕ) : App × Task :=
  ({ s with disconnects := ⟨r, l.store.id, l.token.user, lease⟩ :: s.disconnects },
    .disconnecting l)

/-- The first `catch` of `launch`: the agent has been spawned. -/
def abandon (r : ℕ) (s : App) (l : Launch) (lease : ℕ) (failure : Failure) : App × Task :=
  disconnect r (((s.terminate r .agent).releaseLock l.store.id).setState l.store.id
    (.failed failure.localizedDescription)) l lease

/-- `launch` of the manager, up to its first await. -/
def enter (r : ℕ) (s : App) (l : Launch) (lease : ℕ) (prepared : Prepared) : App × Task :=
  if l.store.id ∈ s.running then (s, .ended)
  else
    let fail (failure : Failure) :=
      disconnect r (s.setState l.store.id (.failed failure.localizedDescription)) l lease
    match prepared, s.locks l.store.id with
    | .unlocked failure, _ => fail failure
    | _, some _ => fail (.process .storeAlreadyRunning)
    | .locked failure, none => fail failure
    | .leaked failure, none =>
      disconnect r
        { s.setState l.store.id (.failed failure.localizedDescription) with
          processes := ⟨r, l.store.id, .agent, false, false⟩ :: s.processes } l lease
    | .spawned, none =>
      ({ s.setState l.store.id .startingAgent with
          locks := Function.update s.locks l.store.id (some (.created r))
          processes := ⟨r, l.store.id, .agent, false, true⟩ :: s.processes },
        .waiting l lease)

def preflighted (r : ℕ) (s : App) (l : Launch) (retried : Bool) (prepared : Prepared) :
    Preflight → App × Task
  | .ok lease => enter r s l lease prepared
  | .rejected => if retried then (s, .ended) else refreshAccessTokenIfNeeded s (some l)
  | .failed => (s, .ended)

def ready (r : ℕ) (s : App) (l : Launch) (lease : ℕ) : Option Failure → App × Task
  | none => (s.setState l.store.id .verifyingEgress, .querying l lease)
  | some failure => abandon r s l lease failure

/-- `launch` with the agent's status, up to the request of `verifyEgress`. -/
def queried (device : String) (r : ℕ) (s : App) (l : Launch) (lease : ℕ) :
    Except Failure AgentStatus → App × Task
  | .error failure => abandon r s l lease failure
  | .ok status =>
    if status.status = "connected" ∧ status.deviceId = device ∧ status.socksHost = "127.0.0.1" ∧
        0 < status.socksPort then
      if l.store.expectedPublicIPv4.getD "" = "" then
        abandon r s l lease (.process .egressUnavailable)
      else (s, .verifying l lease)
    else abandon r s l lease (.process .invalidAgentResponse)

/-- What `verifyEgress` throws; `actual` is the text of the answer without the white space around it. -/
def egressFailure (l : Launch) : Except Failure (ℕ × Option String) → Option Failure
  | .error failure => some failure
  | .ok (statusCode, actual) =>
    if statusCode = 200 ∧ actual = l.store.expectedPublicIPv4 then none
    else some (.process .egressUnavailable)

/-- `launch` after `verifyEgress`: the browser and the record. -/
def verified (r : ℕ) (s : App) (l : Launch) (lease : ℕ)
    (answer : Except Failure (ℕ × Option String)) (browser : Option Failure) : App × Task :=
  match (egressFailure l answer).or browser with
  | some failure => abandon r s l lease failure
  | none =>
    ({ s.setState l.store.id .running with
        processes := ⟨r, l.store.id, .browser, false, true⟩ :: s.processes
        running := s.running.insert l.store.id r },
      .measuring l)

/-! ## Latencies -/

/-- The latency that `refreshEdgeLatency` takes from a status. -/
def AgentStatus.latency? (status : AgentStatus) : Option EdgeLatency :=
  status.edgeLatency.filter fun latency =>
    latency.scope = "mac_to_edge_websocket_rtt" ∧ latency.source = "websocket_ping"

def refreshEdgeLatency (s : App) (store : String) (answer : Option AgentStatus) : App :=
  match answer.bind AgentStatus.latency? with
  | some latency => { s with edgeLatencies := Function.update s.edgeLatencies store (some latency) }
  | none => s

/-- `startLatencyPolling` by the launch `r`. -/
def startLatencyPolling (r : ℕ) (s : App) (store : String) : App × Task :=
  ({ s with
      cancelled := (s.latencyTasks store).toList ++ s.cancelled
      latencyTasks := Function.update s.latencyTasks store (some r) },
    .sleeping store)

/-! ## Processes and Central -/

/-- A process ends; the handlers of `installCrashRecovery` are on the processes of the records in
`running`. -/
def exit (s : App) (p : Process) : App :=
  { s with
    processes := s.processes.filter fun q => ¬ (q.launch = p.launch ∧ q.kind = p.kind)
    notices :=
      if s.running.lookup p.store = some p.launch then ⟨p.store, p.launch, p.kind⟩ :: s.notices
      else s.notices }

/-- `disconnect_store` -/
def disconnectStore (s : App) (d : Disconnect) : App :=
  if s.leases (d.store, d.user) = some d.lease then
    { s with leases := Function.update s.leases (d.store, d.user) none }
  else s

theorem refreshEdgeLatency_eq (s : App) (store : String) (answer : Option AgentStatus) :
    ∃ latencies, refreshEdgeLatency s store answer = { s with edgeLatencies := latencies } := by
  unfold refreshEdgeLatency
  split
  · exact ⟨_, rfl⟩
  · exact ⟨s.edgeLatencies, rfl⟩

/-- The end of a call of `api.disconnect`; `served` says whether it got to Central. -/
def disconnected (r : ℕ) (s : App) (served : Bool) : App :=
  (s.disconnects.filter fun d => d.task = r).foldl
    (fun s d => if served then disconnectStore s d else s)
    { s with disconnects := s.disconnects.filter fun d => d.task ≠ r }

theorem disconnectStore_eq (s : App) (d : Disconnect) :
    ∃ leases, disconnectStore s d = { s with leases := leases } := by
  unfold disconnectStore
  split
  · exact ⟨_, rfl⟩
  · exact ⟨s.leases, rfl⟩

theorem disconnected_eq (r : ℕ) (s : App) (served : Bool) :
    ∃ leases, disconnected r s served =
      { s with leases := leases, disconnects := s.disconnects.filter fun d => d.task ≠ r } := by
  have hfold : ∀ (ds : List Disconnect) (s : App), ∃ leases,
      ds.foldl (fun s d => if served then disconnectStore s d else s) s =
        { s with leases := leases } := by
    intro ds
    induction ds with
    | nil => exact fun s => ⟨s.leases, rfl⟩
    | cons d ds ih =>
      intro s
      cases served with
      | false => exact ih s
      | true =>
        obtain ⟨leases, hs⟩ := disconnectStore_eq s d
        obtain ⟨leases', hs'⟩ := ih { s with leases := leases }
        refine ⟨leases', ?_⟩
        rw [List.foldl_cons, if_pos rfl, hs, hs']
  exact hfold _ _

/-! ## Steps -/

variable (device : String)

def act (r : ℕ) (s : App) (t : Task) (m : Move) : Option (App × Task) :=
  match m, t with
  | .launch store, .idle => some (launch s store)
  | .signOut, .idle => some (signOut s)
  | .terminate, .idle => some (prepareForApplicationTermination r s)
  | .refresh, .idle => some (refreshAccessTokenIfNeeded s none)
  | .login, t => some ({ s with sessionGeneration := s.sessionGeneration + 1 }, t)
  | .authenticated token, t => some ({ s with accessToken := some token }, t)
  | .close store, t => some (close s store, t)
  | .quitAll, t => some (quitAll s, t)
  | .serve accepted, .preflighting l retried none =>
    match accepted with
    | some true =>
      let (s', lease) := nativeStorePreflight s l
      some (s', .preflighting l retried (some (.ok lease)))
    | some false => some (s, .preflighting l retried (some .rejected))
    | none => some (s, .preflighting l retried (some .failed))
  | .preflight prepared, .preflighting l retried (some answer) =>
    some (preflighted r s l retried prepared answer)
  | .renewed answer, .refreshing back generation => some (renewed s back generation answer)
  | .delivered ok, .delivering back (store :: pending) failed =>
    some (s, .delivering back pending (if ok then failed else failed ++ [store]))
  | .finish, .delivering back [] failed => some (updated s back failed)
  | .ready failure, .waiting l lease => some (ready r s l lease failure)
  | .status answer, .querying l lease => some (queried device r s l lease answer)
  | .egress answer browser, .verifying l lease => some (verified r s l lease answer browser)
  | .measured answer, .measuring l =>
    some (startLatencyPolling r (refreshEdgeLatency s l.store.id answer) l.store.id)
  | .woken, .sleeping store => some (s, if r ∈ s.cancelled then .ended else .polling store)
  | .measured answer, .polling store =>
    some (refreshEdgeLatency s store answer, if r ∈ s.cancelled then .ended else .sleeping store)
  | .waited, .stopping began store record none rest success =>
    some (s.terminate record .agent,
      .stopping began store record (some ¬ s.isRunning store record .browser) rest success)
  | .waited, .stopping began store record (some browserStopped) rest success =>
    some (stopped r s began store record (browserStopped ∧ ¬ s.isRunning store record .agent) rest
      success)
  | .loggedOut, .loggingOut began => some (s.finish began, .ended)
  | .disconnected served, .disconnecting _ => some (disconnected r s served, .ended)
  | .exit launch kind, t =>
    (s.processes.find? fun p => p.launch = launch ∧ p.kind = kind).map fun p => (exit s p, t)
  | .notice n, t =>
    if n ∈ s.notices then
      some (handleUnexpectedExit { s with notices := s.notices.erase n } n, t)
    else none
  | .expire store user, t =>
    some ({ s with leases := Function.update s.leases (store, user) none }, t)
  | _, _ => none

/-- The app after its start; `found` are the stores whose lock file `recoverStaleLocks` has left. -/
def start (token : Option AccessToken) (found : String → Bool) : App where
  accessToken := token
  sessionGeneration := 0
  isRefreshingAccessToken := false
  states _ := none
  edgeLatencies _ := none
  running := ∅
  latencyTasks _ := none
  cancelled := []
  locks x := if found x then some .found else none
  processes := []
  notices := []
  leases _ := none
  issued := 0
  disconnects := []
  clock := 0
  finished := []
  stopping _ := none

/-! ## A store to launch -/

def sampleStore : StoreDTO := ⟨"7", some "192.0.2.1"⟩

def sampleStatus : AgentStatus := ⟨"connected", "127.0.0.1", 1080, "mac", none⟩

/-- Signed in, with nothing running. -/
def signedIn : Lib.Requests.Crew App Task :=
  ⟨start (some ⟨1, 0⟩) fun _ => false, fun _ => .idle⟩

/-- The launch `r` up to the request of `verifyEgress`. -/
def untilVerifying (r : ℕ) : List (ℕ × Move) :=
  [(r, .launch sampleStore), (r, .serve (some true)), (r, .preflight .spawned), (r, .ready none),
    (r, .status (.ok sampleStatus))]

/-- Its store is on record and its first latency asked for. -/
def untilMeasuring (r : ℕ) : List (ℕ × Move) :=
  untilVerifying r ++ [(r, .egress (.ok (200, some "192.0.2.1")) none)]

end IdenGrid.Client.Launches
