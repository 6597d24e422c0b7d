import IdenGrid.Agent.Central

/-! # A run of the agent

`run_with_shutdown` and `run_connected`, cut at their awaits, with the tasks that they spawn: the
heartbeat loop, the control loop, and `handle_socks` for every connection. What the awaits return is
an argument of the event. A task that is being aborted may still get on until the abort reaches it,
also after the agent has returned.

`log` keeps what has gone over the network, the newest first: a ticket with the lease that it was
asked for. -/

namespace IdenGrid.Agent.Run

open IdenGrid.Agent.Central

/-- The target of a SOCKS request. -/
structure Target where
  host : String
  port : ℕ
  deriving DecidableEq, Repr

inductive Call
  | preflight (edgeEndpoint : String)
  | connected (lease : String)
  | ticket (lease : String) (target : Target) (response : TicketResponse)
  | webSocket (url : Url) (ticket : String)
  | disconnect (lease : String)
  deriving DecidableEq, Repr

/-- Where `run_with_shutdown` stands: `leaving` is the disconnect after a changed endpoint,
`binding` to `joining` are `run_connected`, and `disconnecting` keeps its result. -/
inductive MainStage
  | starting
  | preflight
  | connecting (endpoint : Url)
  | leaving (lease : String)
  | binding (lease : String) (endpoint : Url)
  | serving (lease : String) (endpoint : Url)
  | joining (lease : String)
  | disconnecting (lease : String) (ok : Bool)
  | returned (ok : Bool)
  deriving DecidableEq, Repr

/-- Where `handle_socks` stands. -/
inductive SocksStage
  | negotiating
  | requesting (target : Target)
  | relaying
  | ended
  deriving DecidableEq, Repr

/-- `handle_socks` with its `expected_lease` and `immutable_endpoint`. -/
structure SocksTask where
  lease : String
  endpoint : Url
  stage : SocksStage
  deriving DecidableEq, Repr

/-- The agent. `shutdown` is the value of the watch channel, `aborting` says that the tasks are
being aborted. -/
structure AgentState where
  main : MainStage
  shutdown : Bool
  aborting : Bool
  heartbeat : Bool
  control : Bool
  tasks : List SocksTask
  log : List Call
  deriving DecidableEq, Repr

def AgentState.start : AgentState := ⟨.starting, false, false, false, false, [], []⟩

inductive ControlCommand
  | status
  | shutdown
  | updateToken
  deriving DecidableEq, Repr

/-- How an await ends; the number is that of the task. -/
inductive Event
  /-- `config.validate` and `CentralClient::new`. -/
  | setUp (ok : Bool)
  | preflight (r : Option (Response (List StoreDto)))
  | connect (r : Option (Response ConnectResponse))
  /-- The SOCKS listener, its address, and the control socket. -/
  | bind (ok : Bool)
  | accepted (ok : Bool)
  | shutdownSeen
  | externalShutdown
  | joined
  | disconnected (ok : Bool)
  | negotiated (i : ℕ) (target : Option Target)
  | ticket (i : ℕ) (r : Option (Response TicketResponse))
  | relayEnds (i : ℕ)
  | aborted (i : ℕ)
  | heartbeat (ok : Bool)
  | heartbeatEnds
  | control (command : ControlCommand)
  | controlEnds
  deriving DecidableEq, Repr

variable (U : Urls) (storeId : ℕ)

def AgentState.to (a : AgentState) (main : MainStage) : AgentState := { a with main := main }

/-- A call is made, or answered. -/
def AgentState.logs (a : AgentState) (c : Call) : AgentState := { a with log := c :: a.log }

/-- `central.disconnect`, and what it is awaited for. -/
def AgentState.disconnects (a : AgentState) (lease : String) (main : MainStage) : AgentState :=
  (a.logs (.disconnect lease)).to main

def AgentState.onPreflight (a : AgentState) (r : Option (Response (List StoreDto))) : AgentState :=
  match preflight U storeId r with
  | none => a.to (.returned false)
  | some store =>
    match edgeTunnelUrl U store.edgeEndpoint with
    | none => a.to (.returned false)
    | some endpoint => (a.logs (.preflight store.edgeEndpoint)).to (.connecting endpoint)

def AgentState.onConnect (a : AgentState) (endpoint : Url)
    (r : Option (Response ConnectResponse)) : AgentState :=
  match connect U r with
  | none => a.to (.returned false)
  | some connection =>
    let a := a.logs (.connected connection.leaseId)
    match edgeTunnelUrl U connection.edgeEndpoint with
    | none => a.to (.returned false)
    | some url =>
      if url ≠ endpoint then a.disconnects connection.leaseId (.leaving connection.leaseId)
      else a.to (.binding connection.leaseId endpoint)

/-- The accept loop ends. -/
def AgentState.stops (a : AgentState) (lease : String) : AgentState :=
  { a with main := .joining lease, shutdown := true, aborting := true }

/-- `handle_socks` with the answer to its ticket request: the task, and what it has logged. -/
def SocksTask.onTicket (t : SocksTask) (target : Target) (r : Option (Response TicketResponse)) :
    SocksTask × List Call :=
  match Central.ticket U r with
  | none => ({ t with stage := .ended }, [])
  | some ticket =>
    let granted := .ticket t.lease target ticket
    match edgeTunnelUrl U ticket.edgeEndpoint with
    | none => ({ t with stage := .ended }, [granted])
    | some ticketEndpoint =>
      if ticket.leaseId ≠ t.lease ∨ ticketEndpoint ≠ t.endpoint then
        ({ t with stage := .ended }, [granted])
      else if U.headerValue ("Bearer " ++ ticket.ticket) then
        ({ t with stage := .relaying }, [.webSocket t.endpoint ticket.ticket, granted])
      else ({ t with stage := .ended }, [granted])

/-- One task gets on. -/
def AgentState.task (a : AgentState) (i : ℕ) (f : SocksTask → Option (SocksTask × List Call)) :
    Option AgentState := do
  let t ← a.tasks[i]?
  let (t', calls) ← f t
  some { a with tasks := a.tasks.set i t', log := calls ++ a.log }

/-- The control socket has been bound: a connection to it may outlive the accept loop. -/
def MainStage.bound : MainStage → Bool
  | .serving _ _ | .joining _ | .disconnecting _ _ | .returned _ => true
  | _ => false

/-- No task of the join set is left. -/
def AgentState.joinable (a : AgentState) : Bool :=
  !a.heartbeat && !a.control && a.tasks.all fun t => t.stage = .ended

def step (a : AgentState) (e : Event) : Option AgentState :=
  match e with
  | .setUp ok =>
    if a.main = .starting then some (a.to (if ok then .preflight else .returned false)) else none
  | .preflight r => if a.main = .preflight then some (a.onPreflight U storeId r) else none
  | .connect r =>
    match a.main with
    | .connecting endpoint => some (a.onConnect U endpoint r)
    | _ => none
  | .bind ok =>
    match a.main with
    | .binding lease endpoint =>
      if ok then some { a with main := .serving lease endpoint, heartbeat := true, control := true }
      else some (a.disconnects lease (.disconnecting lease false))
    | _ => none
  | .accepted ok =>
    match a.main with
    | .serving lease endpoint =>
      if ok then some { a with tasks := a.tasks ++ [⟨lease, endpoint, .negotiating⟩] }
      else some { a.disconnects lease (.disconnecting lease false) with aborting := true }
    | _ => none
  | .shutdownSeen =>
    match a.main with
    | .serving lease _ => if a.shutdown then some (a.stops lease) else none
    | _ => none
  | .externalShutdown =>
    match a.main with
    | .serving lease _ => some (a.stops lease)
    | _ => none
  | .joined =>
    match a.main with
    | .joining lease =>
      if a.joinable then some (a.disconnects lease (.disconnecting lease true)) else none
    | _ => none
  | .disconnected _ =>
    match a.main with
    | .leaving _ => some (a.to (.returned false))
    | .disconnecting _ ok => some (a.to (.returned ok))
    | _ => none
  | .negotiated i target =>
    a.task i fun t =>
      if t.stage = .negotiating then
        some ({ t with stage := target.elim .ended .requesting }, [])
      else none
  | .ticket i r =>
    a.task i fun t =>
      match t.stage with
      | .requesting target => some (t.onTicket U target r)
      | _ => none
  | .relayEnds i =>
    a.task i fun t => if t.stage = .relaying then some ({ t with stage := .ended }, []) else none
  | .aborted i =>
    a.task i fun t => if a.aborting then some ({ t with stage := .ended }, []) else none
  | .heartbeat ok =>
    if a.heartbeat then
      some { a with heartbeat := ok, shutdown := a.shutdown || !ok }
    else none
  | .heartbeatEnds =>
    if a.heartbeat ∧ (a.shutdown || a.aborting) = true then some { a with heartbeat := false }
    else none
  | .control command =>
    if a.main.bound then some { a with shutdown := a.shutdown || command = .shutdown } else none
  | .controlEnds => if a.control then some { a with control := false } else none

end IdenGrid.Agent.Run
