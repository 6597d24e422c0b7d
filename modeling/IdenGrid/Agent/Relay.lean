import Mathlib.Algebra.Group.Nat.Defs
import IdenGrid.Lib.Streams

/-! # The agent's relay loop

`connect_and_relay` from the success reply on, cut at its awaits: the `select!` over the local
socket, the WebSocket, the probe timers and the owner retry, and the sends and writes that its
branches await. The loop can be dropped at any await.

`owns` is what `lease.owns_probe()` says: the tracker is shared with the other relays, so it can
change at any time. The nonce of a probe is taken from the tracker as well. -/

namespace IdenGrid.Agent.Relay

open IdenGrid.Lib.Streams

/-- `BUFFER_SIZE`. -/
def bufferSize : ℕ := 16 * 1024

/-- The await the loop is suspended at. -/
inductive Stage
  | select
  | sending (frame : Frame UInt8)
  | writing (rest : List UInt8)
  | ended (ok : Bool)
  deriving DecidableEq, Repr

structure RelayLoop where
  stage : Stage
  outstanding : Option (List UInt8)
  owns : Bool
  successes : ℕ
  failures : ℕ
  fromLocal : List UInt8
  toLocal : List UInt8
  deriving DecidableEq, Repr

def RelayLoop.new (owns : Bool) : RelayLoop := ⟨.select, none, owns, 0, 0, [], []⟩

/-- How an await ends. `delivered` says whether a frame whose send is not completed still went out
as a whole. -/
inductive Event
  /-- `local_read.read` returns; no bytes at the end of the stream. -/
  | read (bytes : List UInt8)
  | readFails
  /-- `websocket_read.next()` returns the next frame. -/
  | message
  /-- `websocket_read.next()` returns `None` or an error. -/
  | streamEnds (ok : Bool)
  | sent
  | sendFails (delivered : Bool)
  /-- `write_all` gets on by some bytes. -/
  | wrote (n : ℕ)
  | writeFails
  | probeDue (nonce : ℕ)
  | probeTimeout
  | ownerRetry (claimed : Bool)
  | ownership (owns : Bool)
  | dropped (delivered : Bool)
  deriving DecidableEq, Repr

/-- `nonce.to_be_bytes()`. -/
def beBytes (nonce : ℕ) : List UInt8 :=
  (List.range 8).reverse.map fun i => UInt8.ofNat (nonce / 256 ^ i)

def Stage.live : Stage → Bool
  | .ended _ => false
  | _ => true

def RelayLoop.live (r : RelayLoop) : Bool := r.stage.live

/-- The frame whose send is under way, if it went out. -/
def RelayLoop.leftover (r : RelayLoop) (delivered : Bool) : List (Frame UInt8) :=
  match r.stage, delivered with
  | .sending frame, true => [frame]
  | _, _ => []

/-- The branch for a message. -/
def RelayLoop.onMessage (r : RelayLoop) : Frame UInt8 → RelayLoop
  | .binary [] => r
  | .binary bytes => { r with stage := .writing bytes }
  | .close => { r with stage := .ended true }
  | .text => { r with stage := .ended false }
  | .ping payload => { r with stage := .sending (.pong payload) }
  | .pong payload =>
    if r.outstanding = some payload then
      { r with outstanding := none, successes := r.successes + 1 }
    else r

/-- After a send: a close ends the loop, a probe is outstanding. -/
def RelayLoop.afterSend (r : RelayLoop) : Frame UInt8 → RelayLoop
  | .close => { r with stage := .ended true }
  | .ping payload => { r with stage := .select, outstanding := some payload }
  | _ => { r with stage := .select }

/-- One await of the loop ends: the relay, the frames left to receive, the frames sent. -/
def act (r : RelayLoop) (inbox : List (Frame UInt8)) (e : Event) :
    Option (RelayLoop × List (Frame UInt8) × List (Frame UInt8)) :=
  match e with
  | .read bytes =>
    if r.stage ≠ .select ∨ bufferSize < bytes.length then none
    else if bytes = [] then some ({ r with stage := .sending .close }, inbox, [])
    else
      some ({ r with stage := .sending (.binary bytes), fromLocal := r.fromLocal ++ bytes },
        inbox, [])
  | .readFails =>
    if r.stage = .select then some ({ r with stage := .ended false }, inbox, []) else none
  | .message =>
    match r.stage, inbox with
    | .select, frame :: inbox => some (r.onMessage frame, inbox, [])
    | _, _ => none
  | .streamEnds ok =>
    if r.stage = .select then some ({ r with stage := .ended ok }, inbox, []) else none
  | .sent =>
    match r.stage with
    | .sending frame => some (r.afterSend frame, inbox, [frame])
    | _ => none
  | .sendFails delivered =>
    match r.stage with
    | .sending _ => some ({ r with stage := .ended false }, inbox, r.leftover delivered)
    | _ => none
  | .wrote n =>
    match r.stage with
    | .writing rest =>
      some ({ r with
        stage := if rest.length ≤ n then .select else .writing (rest.drop n)
        toLocal := r.toLocal ++ rest.take n }, inbox, [])
    | _ => none
  | .writeFails =>
    match r.stage with
    | .writing _ => some ({ r with stage := .ended false }, inbox, [])
    | _ => none
  | .probeDue nonce =>
    if r.stage = .select ∧ r.owns = true ∧ r.outstanding = none then
      some ({ r with stage := .sending (.ping (beBytes nonce)) }, inbox, [])
    else none
  | .probeTimeout =>
    if r.stage = .select ∧ r.outstanding ≠ none then
      some ({ r with outstanding := none, failures := r.failures + 1 }, inbox, [])
    else none
  | .ownerRetry claimed =>
    if r.stage = .select then some ({ r with owns := r.owns || claimed }, inbox, []) else none
  | .ownership owns => some ({ r with owns := owns }, inbox, [])
  | .dropped delivered =>
    match r.stage with
    | .ended _ => none
    | _ => some ({ r with stage := .ended false }, inbox, r.leftover delivered)

/-! ### What an await changes -/

/-- The kinds of awaits by what they do to the two streams: the relay and the frames after it, and
the frames sent. -/
inductive Change (r : RelayLoop) (inbox : List (Frame UInt8)) :
    RelayLoop → List (Frame UInt8) → List (Frame UInt8) → Prop
  | reads (bytes : List UInt8) (stage : r.stage = .select) :
      Change r inbox { r with
        stage := .sending (.binary bytes), fromLocal := r.fromLocal ++ bytes } inbox []
  | receives (frame : Frame UInt8) (rest : List (Frame UInt8)) (stage : r.stage = .select)
      (next : inbox = frame :: rest) : Change r inbox (r.onMessage frame) rest []
  | sends (frame : Frame UInt8) (stage : r.stage = .sending frame) :
      Change r inbox (r.afterSend frame) inbox [frame]
  | writes (rest : List UInt8) (n : ℕ) (stage : r.stage = .writing rest) :
      Change r inbox { r with
        stage := if rest.length ≤ n then .select else .writing (rest.drop n)
        toLocal := r.toLocal ++ rest.take n } inbox []
  | stops (ok delivered : Bool) (live : r.live = true) :
      Change r inbox { r with stage := .ended ok } inbox (r.leftover delivered)
  | begins (frame : Frame UInt8) (stage : r.stage = .select) (control : frame.data = none) :
      Change r inbox { r with stage := .sending frame } inbox []
  | keeps (r' : RelayLoop) (stage : r'.stage = r.stage) (fromLocal : r'.fromLocal = r.fromLocal)
      (toLocal : r'.toLocal = r.toLocal) : Change r inbox r' inbox []

theorem live_of_stage {r : RelayLoop} {stage : Stage} (h : r.stage = stage)
    (hs : ∀ ok, stage ≠ .ended ok) : r.live = true := by
  rw [RelayLoop.live, h]
  rcases stage with _ | _ | _ | ok
  · rfl
  · rfl
  · rfl
  · exact absurd rfl (hs ok)

theorem leftover_false (r : RelayLoop) : r.leftover false = [] := by
  unfold RelayLoop.leftover
  split <;> simp_all

theorem act_change {r r' : RelayLoop} {inbox inbox' out : List (Frame UInt8)} {e : Event}
    (h : act r inbox e = some (r', inbox', out)) : Change r inbox r' inbox' out := by
  have stops : ∀ ok, r.live = true →
      Change r inbox { r with stage := .ended ok } inbox [] := fun ok hlive => by
    have hstops : Change r inbox { r with stage := .ended ok } inbox (r.leftover false) :=
      Change.stops ok false hlive
    rwa [leftover_false] at hstops
  rcases e with bytes | _ | _ | ok | _ | delivered | n | _ | nonce | _ | claimed | owns | delivered
  case read =>
    simp only [act] at h
    split_ifs at h with hno hnil
    · obtain ⟨rfl, rfl, rfl⟩ := by simpa using h
      exact .begins .close (by tauto) rfl
    · obtain ⟨rfl, rfl, rfl⟩ := by simpa using h
      exact .reads bytes (by tauto)
  case readFails =>
    simp only [act] at h
    split_ifs at h with hs
    obtain ⟨rfl, rfl, rfl⟩ := by simpa using h
    exact stops false (live_of_stage hs (by simp))
  case message =>
    simp only [act] at h
    split at h
    · next frame rest hs =>
      obtain ⟨rfl, rfl, rfl⟩ := by simpa using h
      exact .receives frame _ hs rfl
    · simp at h
  case streamEnds =>
    simp only [act] at h
    split_ifs at h with hs
    obtain ⟨rfl, rfl, rfl⟩ := by simpa using h
    exact stops ok (live_of_stage hs (by simp))
  case sent =>
    simp only [act] at h
    split at h
    · next frame hs =>
      obtain ⟨rfl, rfl, rfl⟩ := by simpa using h
      exact .sends frame hs
    · simp at h
  case sendFails =>
    simp only [act] at h
    split at h
    · next frame hs =>
      obtain ⟨rfl, rfl, rfl⟩ := by simpa using h
      exact .stops false delivered (live_of_stage hs (by simp))
    · simp at h
  case wrote =>
    simp only [act] at h
    split at h
    · next rest hs =>
      obtain ⟨rfl, rfl, rfl⟩ := by simpa using h
      exact .writes rest n hs
    · simp at h
  case writeFails =>
    simp only [act] at h
    split at h
    · next rest hs =>
      obtain ⟨rfl, rfl, rfl⟩ := by simpa using h
      exact stops false (live_of_stage hs (by simp))
    · simp at h
  case probeDue =>
    simp only [act] at h
    split_ifs at h with hs
    obtain ⟨rfl, rfl, rfl⟩ := by simpa using h
    exact .begins _ hs.1 rfl
  case probeTimeout =>
    simp only [act] at h
    split_ifs at h with hs
    obtain ⟨rfl, rfl, rfl⟩ := by simpa using h
    exact .keeps _ rfl rfl rfl
  case ownerRetry =>
    simp only [act] at h
    split_ifs at h with hs
    obtain ⟨rfl, rfl, rfl⟩ := by simpa using h
    exact .keeps _ rfl rfl rfl
  case ownership =>
    obtain ⟨rfl, rfl, rfl⟩ := by simpa [act] using h
    exact .keeps _ rfl rfl rfl
  case dropped =>
    simp only [act] at h
    split at h
    · simp at h
    · next hs =>
      obtain ⟨rfl, rfl, rfl⟩ := by simpa using h
      exact .stops false delivered (live_of_stage rfl hs)

/-! ### The loop as the ends of two streams -/

/-- The bytes of a binary frame being sent. -/
def Stage.hand : Stage → List UInt8
  | .sending (.binary bytes) => bytes
  | _ => []

/-- The bytes not yet written to the local socket. -/
def Stage.held : Stage → List UInt8
  | .writing rest => rest
  | _ => []

/-- The loop as the producer of what the local socket sends. -/
def RelayLoop.producer (r : RelayLoop) : Producer UInt8 := ⟨r.fromLocal, r.stage.hand, r.live⟩

/-- The loop as the consumer of what the target sends. -/
def RelayLoop.consumer (r : RelayLoop) : Consumer UInt8 := ⟨r.stage.held, r.toLocal, r.live⟩

/-- **Every await of the loop is a step of the producer.** -/
theorem act_producer {r r' : RelayLoop} {inbox inbox' out : List (Frame UInt8)} {e : Event}
    (h : act r inbox e = some (r', inbox', out)) :
    r.producer.Step r'.producer (payloads out) := by
  rcases r with ⟨stage, outstanding, owns, successes, failures, fromLocal, toLocal⟩
  cases act_change h with
  | reads bytes hs =>
    obtain rfl : stage = .select := hs
    exact .reads _ bytes rfl rfl
  | receives frame rest hs _ =>
    obtain rfl : stage = .select := hs
    rcases frame with (_ | ⟨b, bytes⟩) | _ | payload | payload | _
    · exact .quiet _
    · exact .quiet _
    · exact .stops _
    · exact .quiet _
    · simp only [RelayLoop.onMessage]
      split_ifs <;> exact .quiet _
    · exact .stops _
  | sends frame hs =>
    obtain rfl : stage = .sending frame := hs
    rcases frame with bytes | _ | payload | payload | _
    · exact .sends _ rfl
    · exact .quiet _
    · exact .quiet _
    · exact .quiet _
    · exact .stops _
  | writes rest n hs =>
    obtain rfl : stage = .writing rest := hs
    by_cases hn : rest.length ≤ n
    · simp only [if_pos hn]; exact .quiet _
    · simp only [if_neg hn]; exact .quiet _
  | stops ok delivered hlive =>
    rcases stage with _ | frame | rest | _
    · exact .stops _
    · rcases frame with bytes | _ | payload | payload | _ <;> cases delivered
      case binary.true => exact .sendsAndStops _ rfl
      all_goals exact .stops _
    · exact .stops _
    · exact .stops _
  | begins frame hs hcontrol =>
    obtain rfl : stage = .select := hs
    rcases frame with bytes | _ | payload | payload | _
    · simp [Frame.data] at hcontrol
    all_goals exact .quiet _
  | keeps r' hs hfrom hto =>
    have hsame : r'.producer = ⟨fromLocal, stage.hand, stage.live⟩ := by
      rw [RelayLoop.producer, RelayLoop.live, hs, hfrom]
    rw [hsame]
    exact .quiet _

/-- **Every await of the loop is a step of the consumer.** -/
theorem act_consumer {r r' : RelayLoop} {inbox inbox' out : List (Frame UInt8)} {e : Event}
    (h : act r inbox e = some (r', inbox', out)) :
    r.consumer.Step r'.consumer (payloads inbox) (payloads inbox') := by
  rcases r with ⟨stage, outstanding, owns, successes, failures, fromLocal, toLocal⟩
  cases act_change h with
  | reads bytes hs =>
    obtain rfl : stage = .select := hs
    exact .quiet _ _
  | receives frame rest hs hnext =>
    obtain rfl : stage = .select := hs
    obtain rfl := hnext
    rcases frame with (_ | ⟨b, bytes⟩) | _ | payload | payload | _
    · exact .takes _ [] _ rfl
    · exact .takes _ (b :: bytes) _ rfl
    · exact .stops _ [] _ _
    · exact .quiet _ _
    · simp only [RelayLoop.onMessage]
      split_ifs <;> exact .quiet _ _
    · exact .stops _ [] _ _
  | sends frame hs =>
    obtain rfl : stage = .sending frame := hs
    rcases frame with bytes | _ | payload | payload | _
    · exact .quiet _ _
    · exact .quiet _ _
    · exact .quiet _ _
    · exact .quiet _ _
    · exact .stops _ [] _ _
  | writes rest n hs =>
    obtain rfl : stage = .writing rest := hs
    by_cases hn : rest.length ≤ n
    · simp only [if_pos hn]
      have := Consumer.Step.writes (⟨rest, toLocal, true⟩ : Consumer UInt8) n (payloads inbox) rfl
      simp only [List.drop_eq_nil_of_le hn] at this
      exact this
    · simp only [if_neg hn]
      exact .writes _ n _ rfl
  | stops ok delivered hlive => exact .stops _ [] _ _
  | begins frame hs hcontrol =>
    obtain rfl : stage = .select := hs
    exact .quiet _ _
  | keeps r' hs hfrom hto =>
    have hsame : r'.consumer = ⟨stage.held, toLocal, stage.live⟩ := by
      rw [RelayLoop.consumer, RelayLoop.live, hs, hto]
    rw [hsame]
    exact .quiet _ _

end IdenGrid.Agent.Relay
