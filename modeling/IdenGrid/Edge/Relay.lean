import IdenGrid.Lib.Streams

/-! # The Edge's relay

`_relay`, cut at its awaits: the task `websocket_to_tcp`, the task `tcp_to_websocket`, and the
handler that waits for the first of them, closes the WebSocket at a limit and cancels what is left.
A ping is answered inside `ws.receive`; `writer.write` hands the data over at once and `drain` only
waits.

Once the WebSocket is being closed, `ws.receive` returns no message any more and `ws.close` throws
away the frames it meets. A task that has been asked to stop may still get on until the cancellation
reaches it. -/

namespace IdenGrid.Edge.Relay

open IdenGrid.Lib.Streams

structure Settings where
  maxFrameBytes : ℕ
  maxBytesPerConnection : ℕ
  deriving DecidableEq, Repr

/-- How a task ends: `limit` is a `TimeoutError` or the `ValueError` of `account`. -/
inductive TaskEnd
  | returned
  | limit
  | failed
  | cancelled
  deriving DecidableEq, Repr

/-- `websocket_to_tcp`. -/
inductive UpStage
  | receiving
  | draining
  | closing
  | done (e : TaskEnd)
  deriving DecidableEq, Repr

/-- `tcp_to_websocket`. -/
inductive DownStage
  | reading
  | sending (data : List UInt8)
  | done (e : TaskEnd)
  deriving DecidableEq, Repr

/-- The handler itself. -/
inductive MainStage
  | waiting
  | closing
  | gathering
  | ended
  deriving DecidableEq, Repr

/-- The relay. `sent` keeps the data of the frames sent to the agent. -/
structure RelayTasks where
  up : UpStage
  down : DownStage
  main : MainStage
  wsClosed : Bool
  transferred : ℕ
  fromTarget : List UInt8
  toTarget : List UInt8
  sent : List UInt8
  deriving DecidableEq, Repr

def RelayTasks.new : RelayTasks := ⟨.receiving, .reading, .waiting, false, 0, [], [], []⟩

/-- How an await ends. -/
inductive Event
  /-- `ws.receive()` gets the next frame. -/
  | receive
  /-- `ws.receive()` says that the WebSocket is closed or broken, or raises. -/
  | receiveEnds (e : TaskEnd)
  | drained
  | drainFails
  | upClosed (e : TaskEnd)
  /-- `reader.read` returns data. -/
  | read (data : List UInt8)
  /-- `reader.read` returns nothing, or raises. -/
  | readEnds (e : TaskEnd)
  | sent
  | sendFails (delivered : Bool)
  | cancelUp
  | cancelDown (delivered : Bool)
  /-- `asyncio.wait` returns; `limit` says that a done task has raised a limit error first. -/
  | wake (limit : Bool)
  | timeUp
  /-- `ws.close` meets a frame. -/
  | discard
  /-- The `ws.close` of the handler ends, or raises. -/
  | wsClosed
  | gathered
  | aborted
  deriving DecidableEq, Repr

variable (S : Settings)

/-- `account`: the size is added, and whether it is within the limit. -/
def account (r : RelayTasks) (size : ℕ) : RelayTasks × Bool :=
  ({ r with transferred := r.transferred + size },
    decide (r.transferred + size ≤ S.maxBytesPerConnection))

/-- `websocket_to_tcp` with a message: the relay and the frames sent in answer. -/
def onMessage (r : RelayTasks) : Frame UInt8 → RelayTasks × List (Frame UInt8)
  | .binary data =>
    match account S r data.length with
    | (r, true) => ({ r with up := .draining, toTarget := r.toTarget ++ data }, [])
    | (r, false) => ({ r with up := .done .limit }, [])
  | .close => ({ r with up := .done .returned, wsClosed := true }, [.close])
  | .text => ({ r with up := .closing, wsClosed := true }, [.close])
  | .ping payload => (r, [.pong payload])
  | .pong _ => (r, [])

/-- `tcp_to_websocket` with data read. -/
def onData (r : RelayTasks) (data : List UInt8) : RelayTasks :=
  match account S { r with fromTarget := r.fromTarget ++ data } data.length with
  | (r, true) => { r with down := .sending data }
  | (r, false) => { r with down := .done .limit }

/-- The data goes out as a frame. -/
def send (r : RelayTasks) (data : List UInt8) (down : DownStage) :
    RelayTasks × List (Frame UInt8) :=
  ({ r with down := down, sent := r.sent ++ data }, [.binary data])

def UpStage.ended : UpStage → Option TaskEnd
  | .done e => some e
  | _ => none

def DownStage.ended : DownStage → Option TaskEnd
  | .done e => some e
  | _ => none

/-- The handler has asked the tasks to stop. -/
def MainStage.stopping : MainStage → Bool
  | .gathering | .ended => true
  | _ => false

/-- `asyncio.wait` may return, with a limit error raised by a done task first or without. -/
def RelayTasks.wakes (r : RelayTasks) (limit : Bool) : Bool :=
  let ends := [r.up.ended, r.down.ended]
  if limit then ends.any (· == some .limit)
  else ends.any Option.isSome && (!ends.any (· == some .limit) || ends.any (· == some .failed))

/-- One await ends: the relay, the frames left to receive, the frames sent. -/
def act (r : RelayTasks) (inbox : List (Frame UInt8)) (e : Event) :
    Option (RelayTasks × List (Frame UInt8) × List (Frame UInt8)) :=
  match e with
  | .receive =>
    match r.up, r.wsClosed, inbox with
    | .receiving, false, frame :: inbox =>
      some ((onMessage S r frame).1, inbox, (onMessage S r frame).2)
    | _, _, _ => none
  | .receiveEnds e =>
    if r.up = .receiving ∧ e ≠ .cancelled then some ({ r with up := .done e }, inbox, [])
    else none
  | .drained => if r.up = .draining then some ({ r with up := .receiving }, inbox, []) else none
  | .drainFails =>
    if r.up = .draining then some ({ r with up := .done .failed }, inbox, []) else none
  | .upClosed e =>
    if r.up = .closing ∧ e ≠ .cancelled then some ({ r with up := .done e }, inbox, [])
    else none
  | .read data =>
    if r.down = .reading ∧ data ≠ [] ∧ data.length ≤ S.maxFrameBytes then
      some (onData S r data, inbox, [])
    else none
  | .readEnds e =>
    if r.down = .reading ∧ e ≠ .cancelled then some ({ r with down := .done e }, inbox, [])
    else none
  | .sent =>
    match r.down with
    | .sending data => some ((send r data .reading).1, inbox, (send r data .reading).2)
    | _ => none
  | .sendFails delivered =>
    match r.down with
    | .sending data =>
      if delivered then
        some ((send r data (.done .failed)).1, inbox, (send r data (.done .failed)).2)
      else some ({ r with down := .done .failed }, inbox, [])
    | _ => none
  | .cancelUp =>
    if r.main.stopping = true ∧ r.up.ended = none then
      some ({ r with up := .done .cancelled }, inbox, [])
    else none
  | .cancelDown delivered =>
    if r.main.stopping = true then
      match r.down with
      | .reading => some ({ r with down := .done .cancelled }, inbox, [])
      | .sending data =>
        if delivered then
          some ((send r data (.done .cancelled)).1, inbox, (send r data (.done .cancelled)).2)
        else some ({ r with down := .done .cancelled }, inbox, [])
      | .done _ => none
    else none
  | .wake limit =>
    if r.main = .waiting ∧ r.wakes limit = true then
      if limit then some ({ r with main := .closing, wsClosed := true }, inbox, [.close])
      else some ({ r with main := .gathering }, inbox, [])
    else none
  | .timeUp =>
    if r.main = .waiting then some ({ r with main := .gathering }, inbox, []) else none
  | .discard =>
    match r.wsClosed, inbox with
    | true, _ :: inbox => some (r, inbox, [])
    | _, _ => none
  | .wsClosed =>
    if r.main = .closing then some ({ r with main := .gathering }, inbox, []) else none
  | .gathered =>
    if r.main = .gathering ∧ r.up.ended.isSome ∧ r.down.ended.isSome then
      some ({ r with main := .ended }, inbox, [])
    else none
  | .aborted =>
    match r.main with
    | .waiting | .closing => some ({ r with main := .gathering }, inbox, [])
    | .gathering => some ({ r with main := .ended }, inbox, [])
    | .ended => none

/-! ### What an await changes -/

def UpStage.live : UpStage → Bool
  | .receiving | .draining => true
  | _ => false

def DownStage.live : DownStage → Bool
  | .done _ => false
  | _ => true

/-- The data of a frame being sent. -/
def DownStage.hand : DownStage → List UInt8
  | .sending data => data
  | _ => []

/-- The kinds of awaits by what they do to the two streams. -/
inductive Change (r : RelayTasks) (inbox : List (Frame UInt8)) :
    RelayTasks → List (Frame UInt8) → List (Frame UInt8) → Prop
  | receives (frame : Frame UInt8) (rest : List (Frame UInt8)) (stage : r.up = .receiving)
      (opened : r.wsClosed = false) (next : inbox = frame :: rest) :
      Change r inbox (onMessage S r frame).1 rest (onMessage S r frame).2
  | upMoves (up : UpStage) (keeps : up.live = true → r.up.live = true) :
      Change r inbox { r with up := up } inbox []
  | reads (data : List UInt8) (stage : r.down = .reading) :
      Change r inbox (onData S r data) inbox []
  | sends (data : List UInt8) (down : DownStage) (stage : r.down = .sending data)
      (sent : down.hand = []) :
      Change r inbox (send r data down).1 inbox (send r data down).2
  | downEnds (e : TaskEnd) : Change r inbox { r with down := .done e } inbox []
  | mainMoves (main : MainStage) (closed : Bool) (out : List (Frame UInt8))
      (keeps : r.wsClosed = true → closed = true) (control : payloads out = []) :
      Change r inbox { r with main := main, wsClosed := closed } inbox out
  | discards (frame : Frame UInt8) (rest : List (Frame UInt8)) (closed : r.wsClosed = true)
      (next : inbox = frame :: rest) : Change r inbox r rest []

theorem act_change {r r' : RelayTasks} {inbox inbox' out : List (Frame UInt8)} {e : Event}
    (h : act S r inbox e = some (r', inbox', out)) : Change S r inbox r' inbox' out := by
  have main : ∀ main, Change S r inbox { r with main := main } inbox [] := fun main =>
    .mainMoves main r.wsClosed [] id rfl
  cases e with
  | receive =>
    simp only [act] at h
    split at h
    · next frame rest hup hopen =>
      obtain ⟨rfl, rfl, rfl⟩ := by simpa using h
      exact .receives frame _ hup hopen rfl
    · simp at h
  | receiveEnds e =>
    simp only [act] at h
    split_ifs at h with hs
    obtain ⟨rfl, rfl, rfl⟩ := by simpa using h
    exact .upMoves _ (fun hl => Bool.noConfusion hl)
  | drained =>
    simp only [act] at h
    split_ifs at h with hs
    obtain ⟨rfl, rfl, rfl⟩ := by simpa using h
    exact .upMoves _ (fun _ => by rw [hs]; rfl)
  | drainFails =>
    simp only [act] at h
    split_ifs at h with hs
    obtain ⟨rfl, rfl, rfl⟩ := by simpa using h
    exact .upMoves _ (fun hl => Bool.noConfusion hl)
  | upClosed e =>
    simp only [act] at h
    split_ifs at h with hs
    obtain ⟨rfl, rfl, rfl⟩ := by simpa using h
    exact .upMoves _ (fun hl => Bool.noConfusion hl)
  | read data =>
    simp only [act] at h
    split_ifs at h with hs
    obtain ⟨rfl, rfl, rfl⟩ := by simpa using h
    exact .reads data hs.1
  | readEnds e =>
    simp only [act] at h
    split_ifs at h with hs
    obtain ⟨rfl, rfl, rfl⟩ := by simpa using h
    exact .downEnds e
  | sent =>
    simp only [act] at h
    split at h
    · next data hs =>
      obtain ⟨rfl, rfl, rfl⟩ := by simpa using h
      exact .sends data .reading hs rfl
    · simp at h
  | sendFails delivered =>
    simp only [act] at h
    split at h
    · next data hs =>
      split_ifs at h
      · obtain ⟨rfl, rfl, rfl⟩ := by simpa using h
        exact .sends data (.done .failed) hs rfl
      · obtain ⟨rfl, rfl, rfl⟩ := by simpa using h
        exact .downEnds .failed
    · simp at h
  | cancelUp =>
    simp only [act] at h
    split_ifs at h with hs
    obtain ⟨rfl, rfl, rfl⟩ := by simpa using h
    exact .upMoves _ (fun hl => Bool.noConfusion hl)
  | cancelDown delivered =>
    simp only [act] at h
    by_cases hs : r.main.stopping = true
    swap
    · simp [hs] at h
    rw [if_pos hs] at h
    split at h
    · obtain ⟨rfl, rfl, rfl⟩ := by simpa using h
      exact .downEnds .cancelled
    · next data hdown =>
      split_ifs at h
      · obtain ⟨rfl, rfl, rfl⟩ := by simpa using h
        exact .sends data (.done .cancelled) hdown rfl
      · obtain ⟨rfl, rfl, rfl⟩ := by simpa using h
        exact .downEnds .cancelled
    · simp at h
  | wake limit =>
    simp only [act] at h
    split_ifs at h with hs hlimit
    · obtain ⟨rfl, rfl, rfl⟩ := by simpa using h
      exact .mainMoves .closing true [.close] (fun _ => rfl) rfl
    · obtain ⟨rfl, rfl, rfl⟩ := by simpa using h
      exact main .gathering
  | timeUp =>
    simp only [act] at h
    split_ifs at h with hs
    obtain ⟨rfl, rfl, rfl⟩ := by simpa using h
    exact main .gathering
  | discard =>
    simp only [act] at h
    split at h
    · next frame rest hclosed =>
      obtain ⟨rfl, rfl, rfl⟩ := by simpa using h
      exact .discards frame _ hclosed rfl
    · simp at h
  | wsClosed =>
    simp only [act] at h
    split_ifs at h with hs
    obtain ⟨rfl, rfl, rfl⟩ := by simpa using h
    exact main .gathering
  | gathered =>
    simp only [act] at h
    split_ifs at h with hs
    obtain ⟨rfl, rfl, rfl⟩ := by simpa using h
    exact main .ended
  | aborted =>
    simp only [act] at h
    split at h
    · obtain ⟨rfl, rfl, rfl⟩ := by simpa using h
      exact main .gathering
    · obtain ⟨rfl, rfl, rfl⟩ := by simpa using h
      exact main .gathering
    · obtain ⟨rfl, rfl, rfl⟩ := by simpa using h
      exact main .ended
    · simp at h

/-- A binary frame is written to the target, or ends its task at the limit. -/
theorem onMessage_binary (r : RelayTasks) (data : List UInt8) :
    (onMessage S r (.binary data)).2 = [] ∧
      ((r.transferred + data.length ≤ S.maxBytesPerConnection ∧
          (onMessage S r (.binary data)).1 = { r with
            up := .draining
            transferred := r.transferred + data.length
            toTarget := r.toTarget ++ data }) ∨
        (onMessage S r (.binary data)).1 = { r with
          up := .done .limit, transferred := r.transferred + data.length }) := by
  by_cases hle : r.transferred + data.length ≤ S.maxBytesPerConnection
  · have ha : account S r data.length =
        ({ r with transferred := r.transferred + data.length }, true) := by
      rw [account, decide_eq_true hle]
    simp only [onMessage, ha]
    exact ⟨trivial, Or.inl ⟨hle, trivial⟩⟩
  · have ha : account S r data.length =
        ({ r with transferred := r.transferred + data.length }, false) := by
      rw [account, decide_eq_false hle]
    simp only [onMessage, ha]
    exact ⟨trivial, Or.inr trivial⟩

/-- Data read from the target is sent on, or ends its task at the limit. -/
theorem onData_cases (r : RelayTasks) (data : List UInt8) :
    (r.transferred + data.length ≤ S.maxBytesPerConnection ∧
        onData S r data = { r with
          down := .sending data
          transferred := r.transferred + data.length
          fromTarget := r.fromTarget ++ data }) ∨
      onData S r data = { r with
        down := .done .limit
        transferred := r.transferred + data.length
        fromTarget := r.fromTarget ++ data } := by
  by_cases hle : r.transferred + data.length ≤ S.maxBytesPerConnection
  · have ha : account S { r with fromTarget := r.fromTarget ++ data } data.length =
        ({ r with
          fromTarget := r.fromTarget ++ data
          transferred := r.transferred + data.length }, true) := by
      rw [account, decide_eq_true hle]
    simp only [onData, ha]
    exact Or.inl ⟨hle, trivial⟩
  · have ha : account S { r with fromTarget := r.fromTarget ++ data } data.length =
        ({ r with
          fromTarget := r.fromTarget ++ data
          transferred := r.transferred + data.length }, false) := by
      rw [account, decide_eq_false hle]
    simp only [onData, ha]
    exact Or.inr trivial

/-! ### The relay as the ends of two streams -/

/-- The relay as the producer of what the target sends. -/
def RelayTasks.producer (r : RelayTasks) : Producer UInt8 :=
  ⟨r.fromTarget, r.down.hand, r.down.live⟩

/-- The relay as the consumer of what the agent sends. -/
def RelayTasks.consumer (r : RelayTasks) : Consumer UInt8 :=
  ⟨[], r.toTarget, r.up.live && !r.wsClosed⟩

/-- **Every await of the relay is a step of the producer.** -/
theorem act_producer {r r' : RelayTasks} {inbox inbox' out : List (Frame UInt8)} {e : Event}
    (h : act S r inbox e = some (r', inbox', out)) :
    r.producer.Step r'.producer (payloads out) := by
  rcases r with ⟨up, down, main, wsClosed, transferred, fromTarget, toTarget, sent⟩
  cases act_change S h with
  | receives frame rest hs hopen _ =>
    rcases frame with data | _ | payload | payload | _
    · obtain ⟨hout, ⟨-, hr⟩ | hr⟩ := onMessage_binary S
        ⟨up, down, main, wsClosed, transferred, fromTarget, toTarget, sent⟩ data <;>
      · rw [hr, hout]; exact .quiet _
    all_goals exact .quiet _
  | upMoves up _ => exact .quiet _
  | reads data hs =>
    obtain rfl : down = .reading := hs
    rcases onData_cases S ⟨up, .reading, main, wsClosed, transferred, fromTarget, toTarget, sent⟩
      data with ⟨-, hr⟩ | hr
    · rw [hr]; exact .reads _ data rfl rfl
    · rw [hr]; exact .readsAndStops _ data rfl rfl
  | sends data down' hs hsent =>
    obtain rfl : down = .sending data := hs
    rcases down' with _ | data' | e
    · exact .sends _ rfl
    · obtain rfl : data' = [] := hsent
      exact .sends _ rfl
    · exact .sendsAndStops _ rfl
  | downEnds e => exact .stops _
  | mainMoves main closed out _ hcontrol =>
    rw [hcontrol]; exact .quiet _
  | discards => exact .quiet _

/-- A relay that takes nothing more may leave anything on its way. -/
theorem consumer_stops {r r' : RelayTasks} (hto : r'.toTarget = r.toTarget)
    (hdead : (r'.up.live && !r'.wsClosed) = false) (flight flight' : List (List UInt8)) :
    r.consumer.Step r'.consumer flight flight' := by
  have hconsumer : r'.consumer = ⟨[], r.toTarget, false⟩ := by
    rw [RelayTasks.consumer, hto, hdead]
  rw [hconsumer]
  exact .stops _ [] _ _

/-- **Every await of the relay is a step of the consumer.** -/
theorem act_consumer {r r' : RelayTasks} {inbox inbox' out : List (Frame UInt8)} {e : Event}
    (h : act S r inbox e = some (r', inbox', out)) :
    r.consumer.Step r'.consumer (payloads inbox) (payloads inbox') := by
  rcases r with ⟨up, down, main, wsClosed, transferred, fromTarget, toTarget, sent⟩
  cases act_change S h with
  | receives frame rest hs hopen hnext =>
    obtain rfl : up = .receiving := hs
    obtain rfl : wsClosed = false := hopen
    obtain rfl := hnext
    rcases frame with data | _ | payload | payload | _
    · obtain ⟨-, ⟨-, hr⟩ | hr⟩ := onMessage_binary S
        ⟨.receiving, down, main, false, transferred, fromTarget, toTarget, sent⟩ data
      · rw [hr]; exact .takesAndWrites _ data _ rfl rfl
      · rw [hr]; exact .stops _ [] _ _
    · exact .stops _ [] _ _
    · exact .quiet _ _
    · exact .quiet _ _
    · exact .stops _ [] _ _
  | upMoves up' hkeeps =>
    by_cases hlive : (up'.live && !wsClosed) = true
    · have hboth := Bool.and_eq_true_iff.mp hlive
      have hup : up.live = true := hkeeps hboth.1
      have hsame : RelayTasks.consumer ⟨up', down, main, wsClosed, transferred, fromTarget,
          toTarget, sent⟩ = RelayTasks.consumer ⟨up, down, main, wsClosed, transferred,
          fromTarget, toTarget, sent⟩ := by
        simp only [RelayTasks.consumer, hboth.1, hup]
      rw [hsame]
      exact .quiet _ _
    · refine consumer_stops ?_ ?_ _ _
      · rfl
      · exact Bool.eq_false_iff.mpr hlive
  | reads data hs =>
    obtain rfl : down = .reading := hs
    rcases onData_cases S ⟨up, .reading, main, wsClosed, transferred, fromTarget, toTarget, sent⟩
      data with ⟨-, hr⟩ | hr <;>
    · rw [hr]; exact .quiet _ _
  | sends data down' hs hsent => exact .quiet _ _
  | downEnds e => exact .quiet _ _
  | mainMoves main' closed out hkeeps hcontrol =>
    rcases closed with _ | _
    · obtain rfl : wsClosed = false := Bool.eq_false_iff.mpr fun hc => Bool.noConfusion (hkeeps hc)
      exact .quiet _ _
    · refine consumer_stops ?_ ?_ _ _
      · rfl
      · exact Bool.and_false _
  | discards frame rest hclosed hnext =>
    obtain rfl : wsClosed = true := hclosed
    refine consumer_stops ?_ ?_ _ _
    · rfl
    · exact Bool.and_false _

/-! ### The byte limit -/

/-- What the Edge forwards: the bytes written to the target and the bytes sent to the agent. -/
def RelayTasks.forwarded (r : RelayTasks) : ℕ := r.toTarget.length + r.sent.length

/-- What was forwarded, and the data about to be sent, was counted and stayed within the limit. -/
structure Budget (r : RelayTasks) : Prop where
  counted : r.forwarded + r.down.hand.length ≤ r.transferred
  bounded : r.forwarded + r.down.hand.length ≤ S.maxBytesPerConnection

/-- **Every await keeps the budget.** -/
theorem act_budget {r r' : RelayTasks} {inbox inbox' out : List (Frame UInt8)} {e : Event}
    (hb : Budget S r) (h : act S r inbox e = some (r', inbox', out)) : Budget S r' := by
  obtain ⟨hcounted, hbounded⟩ := hb
  rcases r with ⟨up, down, main, wsClosed, transferred, fromTarget, toTarget, sent⟩
  simp only [RelayTasks.forwarded] at hcounted hbounded
  cases act_change S h with
  | receives frame rest hs hopen _ =>
    rcases frame with data | _ | payload | payload | _
    · obtain ⟨-, ⟨hle, hr⟩ | hr⟩ := onMessage_binary S
        ⟨up, down, main, wsClosed, transferred, fromTarget, toTarget, sent⟩ data
      · rw [hr]
        constructor <;> simp only [RelayTasks.forwarded, List.length_append] at hle ⊢ <;> omega
      · rw [hr]
        constructor <;> simp only [RelayTasks.forwarded] <;> omega
    all_goals exact ⟨hcounted, hbounded⟩
  | upMoves up _ => exact ⟨hcounted, hbounded⟩
  | reads data hs =>
    obtain rfl : down = .reading := hs
    simp only [DownStage.hand, List.length_nil] at hcounted hbounded
    rcases onData_cases S ⟨up, .reading, main, wsClosed, transferred, fromTarget, toTarget, sent⟩
      data with ⟨hle, hr⟩ | hr
    · rw [hr]
      simp only at hle
      constructor <;> simp only [RelayTasks.forwarded, DownStage.hand] <;> omega
    · rw [hr]
      constructor <;> simp only [RelayTasks.forwarded, DownStage.hand, List.length_nil] <;> omega
  | sends data down' hs hsent =>
    obtain rfl : down = .sending data := hs
    simp only [DownStage.hand] at hcounted hbounded
    constructor <;>
    · simp only [send, RelayTasks.forwarded, hsent, List.length_append, List.length_nil]
      omega
  | downEnds e =>
    constructor <;> simp only [RelayTasks.forwarded, DownStage.hand, List.length_nil] <;> omega
  | mainMoves main closed out _ hcontrol => exact ⟨hcounted, hbounded⟩
  | discards => exact ⟨hcounted, hbounded⟩

end IdenGrid.Edge.Relay
