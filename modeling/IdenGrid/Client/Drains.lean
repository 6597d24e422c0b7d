import IdenGrid.Lib.Requests
import Mathlib.Data.List.AList
import Mathlib.Data.List.Dedup

/-! # The store manager on Windows

`WindowsStoreProcessManager`, cut at its atomic steps: every operation on one of the shared tables, the
section of a launch under the registration gate, and every section under the `LifecycleGate` of a
record. What a launch does up to its record is one stage, which may fail at any time; stopping the
processes of a record may throw.

A `StartingStore` and a `RunningStore` go by the task that made them; `observed` is the drain generation
that a launch has read at its start. Which records have ever been registered (`registered`), which
have been cleaned up (`cleaned`) and which drains have ended (`finished`) is bookkeeping. -/

namespace IdenGrid.Client.Drains

inductive StoreRuntimeState
  | idle
  | startingAgent
  | verifyingEgress
  | launchingBrowser
  | running
  | failed
deriving DecidableEq, Repr

/-- `StartingStore`; the slot of a close has observed nothing. -/
structure StartingStore where
  task : ℕ
  observed : Option ℕ
deriving DecidableEq, Repr

structure RunningStore where
  launch : ℕ
  observed : ℕ
deriving DecidableEq, Repr

structure Manager where
  starting : AList fun _ : String => StartingStore
  running : AList fun _ : String => RunningStore
  states : String → StoreRuntimeState
  launchRegistrationGate : Option ℕ
  drainingLaunches : Bool
  drainGeneration : ℕ
  /-- The startups whose `Cancellation` is cancelled, and those whose `Completion` is set. -/
  cancelled : List (ℕ × String)
  completed : List (ℕ × String)
  /-- Who has claimed the cleanup of a record. -/
  claimed : ℕ → Option ℕ
  cleanupCompleted : List ℕ
  registered : List (String × ℕ)
  cleaned : List ℕ
  finished : List ℕ

/-- `QuitAllAsync` in its loop: its generation, and the stores after the current one. -/
structure Drain where
  generation : ℕ
  rest : List String
deriving DecidableEq, Repr

/-- On whose behalf a record is cleaned up. -/
inductive Owner
  | launch (observed : ℕ)
  | close (drain : Option Drain)
  | handler
deriving DecidableEq, Repr

inductive Task
  | idle
  /-- `LaunchAsync` up to its startup. -/
  | observed (store : String) (generation : ℕ)
  | looking (store : String) (generation : ℕ)
  | found (store : String) (generation record : ℕ)
  | outliving (store : String) (generation record : ℕ)
  | gating (store : String) (generation : ℕ)
  | following (store : String) (startup : ℕ)
  /-- `LaunchOwnedAsync`: up to the record, before `TryAdd`, after it, and in the `catch`. -/
  | building (store : String) (generation : ℕ)
  | adding (store : String) (generation : ℕ)
  | added (store : String) (generation : ℕ)
  | failing (store : String) (generation : ℕ)
  /-- The `finally` of `LaunchAsync`. -/
  | leaving (store : String) (generation : ℕ)
  | left (store : String)
  /-- `CloseAsync`. -/
  | opening (store : String) (drain : Option Drain)
  | cancelling (store : String) (startup : ℕ) (drain : Option Drain)
  | awaiting (store : String) (startup : ℕ) (drain : Option Drain)
  | closing (store : String) (drain : Option Drain)
  | claiming (store : String) (record : ℕ) (drain : Option Drain)
  | shutting (store : String) (thrown : Bool) (drain : Option Drain)
  | shut (store : String) (thrown : Bool) (drain : Option Drain)
  /-- The cleanup of a record, and waiting for that of another task. -/
  | stopping (store : String) (record : ℕ) (owner : Owner)
  | cleaning (store : String) (record : ℕ) (thrown : Bool) (owner : Owner)
  | removing (store : String) (record : ℕ) (thrown : Bool) (owner : Owner)
  | completing (store : String) (record : ℕ) (thrown : Bool) (owner : Owner)
  | outwaiting (store : String) (record : ℕ) (owner : Owner)
  /-- `QuitAllAsync` around its loop. -/
  | entering
  | incrementing
  | flagging (generation : ℕ)
  | listingStarting (generation : ℕ)
  | listingRunning (generation : ℕ) (starting : List String)
  | unflagging (generation : ℕ)
  | releasing (generation : ℕ)
  | ended
deriving DecidableEq, Repr

/-- How far `LaunchOwnedAsync` gets: it throws before its `try` block, in it without a record, or it has
its record. -/
inductive Built
  | unprepared
  | failed
  | ready
deriving DecidableEq, Repr

inductive Move
  | launch (store : String)
  | close (store : String)
  | quit
  /-- `HandleUnexpectedExit`, also where a launch calls it on a record that is no longer alive. -/
  | exit (store : String) (record : ℕ)
  | go
  /-- Whether both processes of the record in `running` are alive. -/
  | looked (alive : Bool)
  | cancel
  | phase (state : StoreRuntimeState)
  | built (outcome : Built)
  | kept (alive : Bool)
  | stopped (thrown : Bool)
deriving DecidableEq, Repr

namespace Manager

def setState (s : Manager) (store : String) (state : StoreRuntimeState) : Manager :=
  { s with states := Function.update s.states store state }

/-- `_starting.GetOrAdd` where the store has no startup yet. -/
def start (s : Manager) (store : String) (startup : StartingStore) : Manager :=
  { s with starting := s.starting.insert store startup }

/-- `_starting.Remove`, of this startup only. -/
def unstart (s : Manager) (store : String) (startup : StartingStore) : Manager :=
  if s.starting.lookup store = some startup then { s with starting := s.starting.erase store }
  else s

def claim (s : Manager) (record r : ℕ) : Manager :=
  { s with claimed := Function.update s.claimed record (some r) }

/-- `_running.Remove`, of this record only. -/
def remove (s : Manager) (store : String) (record : ℕ) : Manager :=
  { s with
    running :=
      if (s.running.lookup store).map RunningStore.launch = some record then
        s.running.erase store
      else s.running
    cleaned := record :: s.cleaned }

def complete (s : Manager) (startup : ℕ) (store : String) : Manager :=
  { s with completed := (startup, store) :: s.completed }

end Manager

open Manager

namespace Owner

/-- The state in which `CleanupRecord` leaves the store. -/
def final : Owner → StoreRuntimeState
  | .close _ => .idle
  | .launch _ | .handler => .failed

/-- Only a close lets through what stopping the processes has thrown. -/
def throws : Owner → Bool
  | .close _ => true
  | .launch _ | .handler => false

/-- Where the task goes on after the cleanup. -/
def next (store : String) (thrown : Bool) : Owner → Task
  | .launch observed => .leaving store observed
  | .close drain => .shutting store thrown drain
  | .handler => .ended

end Owner

/-- `QuitAllAsync` at the head of its loop. -/
def proceed (generation : ℕ) : List String → Task
  | [] => .unflagging generation
  | store :: rest => .opening store (some ⟨generation, rest⟩)

/-- What follows a call of `CloseAsync`. -/
def closed (thrown : Bool) : Option Drain → Task
  | none => .ended
  | some drain => if thrown then .unflagging drain.generation else proceed drain.generation drain.rest

/-- `TryClaimCleanup` -/
def tryClaim (r : ℕ) (s : Manager) (store : String) (record : ℕ) (owner : Owner) (otherwise : Task) :
    Manager × Task :=
  if s.claimed record = none then (s.claim record r, .stopping store record owner)
  else (s, otherwise)

/-- The section of `LaunchAsync` under the registration gate. -/
def register (r : ℕ) (s : Manager) (store : String) (generation : ℕ) : Manager × Task :=
  if s.drainingLaunches ∨ s.drainGeneration ≠ generation then (s, .ended)
  else
    match s.starting.lookup store with
    | none => (s.start store ⟨r, some generation⟩, .building store generation)
    | some startup => (s, .following store startup.task)

/-- `_running.TryAdd` -/
def tryAdd (r : ℕ) (s : Manager) (store : String) (generation : ℕ) : Manager × Task :=
  match s.running.lookup store with
  | none =>
    ({ s with
        running := s.running.insert store ⟨r, generation⟩
        registered := (store, r) :: s.registered }, .added store generation)
  | some _ => (s, .failing store generation)

/-- The section of `LaunchOwnedAsync` under the gate of its record. -/
def keep (r : ℕ) (s : Manager) (store : String) (generation : ℕ) (alive : Bool) : Manager × Task :=
  if (r, store) ∉ s.cancelled ∧ (s.running.lookup store).map RunningStore.launch = some r ∧
      s.claimed r = none ∧ alive then
    (s.setState store .running, .leaving store generation)
  else (s, .failing store generation)

/-- `CloseAsync` at the head of its loop. -/
def openSlot (r : ℕ) (s : Manager) (store : String) (drain : Option Drain) : Manager × Task :=
  match s.starting.lookup store with
  | none => (s.start store ⟨r, none⟩, .closing store drain)
  | some startup => (s, .cancelling store startup.task drain)

/-- `CloseRunningAsync` up to `TryClaimCleanup`. -/
def closeRunning (s : Manager) (store : String) (drain : Option Drain) : Manager × Task :=
  match s.running.lookup store with
  | none => (s.setState store .idle, .shutting store false drain)
  | some record => (s, .claiming store record.launch drain)

/-- A step with no outcome of its own. -/
def advance (r : ℕ) (s : Manager) : Task → Option (Manager × Task)
  | .observed store generation =>
    some (s, if s.drainingLaunches then .ended else .looking store generation)
  | .looking store generation =>
    some (s, match s.running.lookup store with
      | none => .gating store generation
      | some record => .found store generation record.launch)
  | .outliving store generation record =>
    if record ∈ s.cleanupCompleted then some (s, .looking store generation) else none
  | .gating store generation =>
    if s.launchRegistrationGate = none then some (register r s store generation) else none
  | .following store startup => if (startup, store) ∈ s.completed then some (s, .ended) else none
  | .adding store generation => some (tryAdd r s store generation)
  | .failing store generation =>
    some (tryClaim r s store r (.launch generation) (.outwaiting store r (.launch generation)))
  | .leaving store generation => some (s.unstart store ⟨r, some generation⟩, .left store)
  | .left store => some (s.complete r store, .ended)
  | .opening store drain => some (openSlot r s store drain)
  | .cancelling store startup drain =>
    some ({ s with cancelled := (startup, store) :: s.cancelled }, .awaiting store startup drain)
  | .awaiting store startup drain =>
    if (startup, store) ∈ s.completed then some (s, .opening store drain) else none
  | .closing store drain => some (closeRunning s store drain)
  | .claiming store record drain =>
    some (tryClaim r s store record (.close drain) (.outwaiting store record (.close drain)))
  | .shutting store thrown drain => some (s.unstart store ⟨r, none⟩, .shut store thrown drain)
  | .shut store thrown drain => some (s.complete r store, closed thrown drain)
  | .cleaning store record thrown owner =>
    some (s.setState store owner.final, .removing store record thrown owner)
  | .removing store record thrown owner =>
    some (s.remove store record, .completing store record thrown owner)
  | .completing store record thrown owner =>
    some ({ s with cleanupCompleted := record :: s.cleanupCompleted }, owner.next store thrown)
  | .outwaiting store record owner =>
    if record ∈ s.cleanupCompleted then some (s, owner.next store false) else none
  | .entering =>
    if s.launchRegistrationGate = none then
      some ({ s with launchRegistrationGate := some r }, .incrementing)
    else none
  | .incrementing =>
    some ({ s with drainGeneration := s.drainGeneration + 1 }, .flagging (s.drainGeneration + 1))
  | .flagging generation => some ({ s with drainingLaunches := true }, .listingStarting generation)
  | .listingStarting generation => some (s, .listingRunning generation s.starting.keys)
  | .listingRunning generation starting =>
    some (s, proceed generation (starting ++ s.running.keys).dedup)
  | .unflagging generation => some ({ s with drainingLaunches := false }, .releasing generation)
  | .releasing generation =>
    some ({ s with
      launchRegistrationGate := none
      finished := generation :: s.finished }, .ended)
  | _ => none

def act (r : ℕ) (s : Manager) (t : Task) (m : Move) : Option (Manager × Task) :=
  match m, t with
  | .launch store, .idle => some (s, .observed store s.drainGeneration)
  | .close store, .idle => some (s, .opening store none)
  | .quit, .idle => some (s, .entering)
  | .exit store record, .idle =>
    if (store, record) ∈ s.registered then some (tryClaim r s store record .handler .ended) else none
  | .go, t => advance r s t
  | .looked alive, .found store generation record =>
    some (s, if s.claimed record = none ∧ alive then .ended
      else .outliving store generation record)
  | .cancel, .outliving _ _ _ => some (s, .ended)
  | .cancel, .gating _ _ => some (s, .ended)
  | .cancel, .following _ _ => some (s, .ended)
  | .phase state, .building store generation =>
    some (s.setState store state, .building store generation)
  | .built outcome, .building store generation =>
    some (match outcome with
      | .unprepared => (s, .leaving store generation)
      | .failed => (s.setState store .failed, .leaving store generation)
      | .ready => (s, if (r, store) ∈ s.cancelled then .failing store generation
          else .adding store generation))
  | .kept alive, .added store generation => some (keep r s store generation alive)
  | .stopped thrown, .stopping store record owner =>
    some (s, .cleaning store record (thrown && owner.throws) owner)
  | _, _ => none

/-- The manager after its construction. -/
def created : Manager where
  starting := ∅
  running := ∅
  states _ := .idle
  launchRegistrationGate := none
  drainingLaunches := false
  drainGeneration := 0
  cancelled := []
  completed := []
  claimed _ := none
  cleanupCompleted := []
  registered := []
  cleaned := []
  finished := []

end IdenGrid.Client.Drains
