import IdenGrid.Lib.Run
import IdenGrid.Edge.Relay

/-! # The idle timeout of the relay

The relay with a clock. Each direction waits for its next message under a timer of its own
(`wait_for(..., idle_timeout)`), and the first timer that goes off ends the relay. A timer says that
its own direction has been idle (`Clocked.inv_step`), and nothing about the other one:
`idle_iff`. A download that never stops is cut when the agent has sent nothing for that long
(`download_cut`). -/

namespace IdenGrid.Edge.Idle

open IdenGrid.Lib.Run IdenGrid.Lib.Streams IdenGrid.Edge.Relay

/-- The relay, the frames it has to receive, and its clock: when the two waits for a message began,
and when data was last relayed to the target and to the agent. -/
structure Clocked where
  relay : RelayTasks
  inbox : List (Frame UInt8)
  now : ℕ
  receivingSince : ℕ
  readingSince : ℕ
  lastUp : Option ℕ
  lastDown : Option ℕ
  deriving DecidableEq, Repr

def Clocked.new (now : ℕ) : Clocked := ⟨.new, [], now, now, now, none, none⟩

inductive Move
  | pass (duration : ℕ)
  | deliver (frame : Frame UInt8)
  | await (e : Event)
  deriving DecidableEq, Repr

variable (S : Settings) (idleTimeout : ℕ)

/-- A `TimeoutError` is raised when the timer of the wait goes off, not before. -/
def due (c : Clocked) : Event → Bool
  | .receiveEnds .limit => c.receivingSince + idleTimeout ≤ c.now
  | .readEnds .limit => c.readingSince + idleTimeout ≤ c.now
  | _ => true

/-- The clock after an await. -/
def Clocked.after (c : Clocked) (relay : RelayTasks) (inbox : List (Frame UInt8)) : Clocked where
  relay := relay
  inbox := inbox
  now := c.now
  receivingSince :=
    if relay.up = .receiving ∧ c.relay.up ≠ .receiving then c.now else c.receivingSince
  readingSince :=
    if relay.down = .reading ∧ c.relay.down ≠ .reading then c.now else c.readingSince
  lastUp := if c.relay.toTarget.length < relay.toTarget.length then some c.now else c.lastUp
  lastDown := if c.relay.sent.length < relay.sent.length then some c.now else c.lastDown

def step (c : Clocked) : Move → Option Clocked
  | .pass duration => some { c with now := c.now + duration }
  | .deliver frame => some { c with inbox := c.inbox ++ [frame] }
  | .await e =>
    if due idleTimeout c e then
      (act S c.relay c.inbox e).map fun (relay, inbox, _) => c.after relay inbox
    else none

/-! ## What a timer says -/

/-- The relay is running, and no task has ended. -/
def Clocked.running (c : Clocked) : Bool :=
  c.relay.main = .waiting && c.relay.up.ended.isNone && c.relay.down.ended.isNone

/-- The timer of `ws.receive` ends the relay. -/
def Clocked.cutUp (c : Clocked) (m : Move) : Bool :=
  m = .await (.receiveEnds .limit) && c.running && c.relay.up = .receiving &&
    due idleTimeout c (.receiveEnds .limit)

/-- The timer of `reader.read` ends the relay. -/
def Clocked.cutDown (c : Clocked) (m : Move) : Bool :=
  m = .await (.readEnds .limit) && c.running && c.relay.down = .reading &&
    due idleTimeout c (.readEnds .limit)

/-- Nothing has been relayed during the timeout, given when it was last. -/
def Still (last : Option ℕ) (now : ℕ) : Prop := ∀ t, last = some t → t + idleTimeout ≤ now

/-- The relay ends because of the idle timeout only if neither direction has relayed anything during
the timeout. -/
def CutsIdle (c : Clocked) (m : Move) : Prop :=
  (c.cutUp idleTimeout m || c.cutDown idleTimeout m) = true →
    Still idleTimeout c.lastUp c.now ∧ Still idleTimeout c.lastDown c.now

/-- When the wait of one direction times out, the other one has relayed nothing meanwhile. -/
def OtherStill (c : Clocked) (m : Move) : Prop :=
  (c.cutUp idleTimeout m = true → Still idleTimeout c.lastDown c.now) ∧
    (c.cutDown idleTimeout m = true → Still idleTimeout c.lastUp c.now)

/-- A direction that waits has relayed nothing since its wait began. -/
structure Clocked.Inv (c : Clocked) : Prop where
  up : ∀ t, c.lastUp = some t → t ≤ c.now ∧ (c.relay.up = .receiving → t ≤ c.receivingSince)
  down : ∀ t, c.lastDown = some t → t ≤ c.now ∧ (c.relay.down = .reading → t ≤ c.readingSince)

theorem Clocked.inv_new (now : ℕ) : (Clocked.new now).Inv :=
  ⟨fun _ h => absurd h (Option.some_ne_none _).symm,
    fun _ h => absurd h (Option.some_ne_none _).symm⟩

variable {S idleTimeout} {c c' : Clocked}

/-- Data goes to the target when a frame is received, and is drained then. -/
theorem up_of_relayed {r r' : RelayTasks} {inbox inbox' out : List (Frame UInt8)} {e : Event}
    (h : act S r inbox e = some (r', inbox', out))
    (hlt : r.toTarget.length < r'.toTarget.length) : r'.up ≠ .receiving := by
  cases act_change S h with
  | receives frame rest hs hopen hnext =>
    cases frame with
    | binary data =>
      obtain ⟨-, ⟨-, hr⟩ | hr⟩ := onMessage_binary S r data
      · rw [hr]
        exact UpStage.noConfusion
      · rw [hr]
        exact UpStage.noConfusion
    | _ => exact absurd hlt (Nat.lt_irrefl _)
  | upMoves => exact absurd hlt (Nat.lt_irrefl _)
  | reads data hs =>
    rcases onData_cases S r data with ⟨-, hr⟩ | hr <;> rw [hr] at hlt <;>
      exact absurd hlt (Nat.lt_irrefl _)
  | sends => exact absurd hlt (Nat.lt_irrefl _)
  | downEnds => exact absurd hlt (Nat.lt_irrefl _)
  | mainMoves => exact absurd hlt (Nat.lt_irrefl _)
  | discards => exact absurd hlt (Nat.lt_irrefl _)

/-- Data goes to the agent when it has been read before. -/
theorem down_of_relayed {r r' : RelayTasks} {inbox inbox' out : List (Frame UInt8)} {e : Event}
    (h : act S r inbox e = some (r', inbox', out)) (hlt : r.sent.length < r'.sent.length) :
    r.down ≠ .reading := by
  cases act_change S h with
  | receives frame rest hs hopen hnext =>
    cases frame with
    | binary data =>
      obtain ⟨-, ⟨-, hr⟩ | hr⟩ := onMessage_binary S r data <;> rw [hr] at hlt <;>
        exact absurd hlt (Nat.lt_irrefl _)
    | _ => exact absurd hlt (Nat.lt_irrefl _)
  | upMoves => exact absurd hlt (Nat.lt_irrefl _)
  | reads data hs =>
    rcases onData_cases S r data with ⟨-, hr⟩ | hr <;> rw [hr] at hlt <;>
      exact absurd hlt (Nat.lt_irrefl _)
  | sends data down hs =>
    rw [hs]
    exact DownStage.noConfusion
  | downEnds => exact absurd hlt (Nat.lt_irrefl _)
  | mainMoves => exact absurd hlt (Nat.lt_irrefl _)
  | discards => exact absurd hlt (Nat.lt_irrefl _)

/-- **Every step keeps the invariant.** -/
theorem Clocked.inv_step {m : Move} (hI : c.Inv) (h : step S idleTimeout c m = some c') :
    c'.Inv := by
  obtain ⟨hup, hdown⟩ := hI
  cases m with
  | pass duration =>
    obtain rfl := Option.some.inj h
    exact ⟨fun t ht => ⟨Nat.le_trans (hup t ht).1 (Nat.le_add_right _ _), (hup t ht).2⟩,
      fun t ht => ⟨Nat.le_trans (hdown t ht).1 (Nat.le_add_right _ _), (hdown t ht).2⟩⟩
  | deliver frame =>
    obtain rfl := Option.some.inj h
    exact ⟨hup, hdown⟩
  | await e =>
    simp only [step] at h
    split_ifs at h with hdue
    obtain ⟨⟨relay, inbox, out⟩, hact, rfl⟩ := Option.map_eq_some_iff.mp h
    constructor
    · intro t ht
      simp only [Clocked.after] at ht ⊢
      split_ifs at ht with hlt
      · obtain rfl := Option.some.inj ht
        exact ⟨Nat.le_refl _, fun hrec => absurd hrec (up_of_relayed hact hlt)⟩
      · obtain ⟨hnow, hsince⟩ := hup t ht
        refine ⟨hnow, fun hrec => ?_⟩
        by_cases hwas : c.relay.up = .receiving
        · rw [if_neg (fun hnew => hnew.2 hwas)]
          exact hsince hwas
        · rw [if_pos ⟨hrec, hwas⟩]
          exact hnow
    · intro t ht
      simp only [Clocked.after] at ht ⊢
      split_ifs at ht with hlt
      · obtain rfl := Option.some.inj ht
        refine ⟨Nat.le_refl _, fun hread => ?_⟩
        have hnew : (c.after relay inbox).readingSince = c.now :=
          if_pos ⟨hread, down_of_relayed hact hlt⟩
        exact Nat.le_of_eq hnew.symm
      · obtain ⟨hnow, hsince⟩ := hdown t ht
        refine ⟨hnow, fun hread => ?_⟩
        by_cases hwas : c.relay.down = .reading
        · rw [if_neg (fun hnew => hnew.2 hwas)]
          exact hsince hwas
        · rw [if_pos ⟨hread, hwas⟩]
          exact hnow

/-- **The direction whose timer goes off has been idle.** -/
theorem still_up {m : Move} (hI : c.Inv) (h : c.cutUp idleTimeout m = true) :
    Still idleTimeout c.lastUp c.now := by
  simp only [Clocked.cutUp, due, Bool.and_eq_true, decide_eq_true_eq] at h
  intro t ht
  have := (hI.up t ht).2 h.1.2
  omega

theorem still_down {m : Move} (hI : c.Inv) (h : c.cutDown idleTimeout m = true) :
    Still idleTimeout c.lastDown c.now := by
  simp only [Clocked.cutDown, due, Bool.and_eq_true, decide_eq_true_eq] at h
  intro t ht
  have := (hI.down t ht).2 h.1.2
  omega

theorem idle_of_otherStill {m : Move} (hI : c.Inv) (h : OtherStill idleTimeout c m) :
    CutsIdle idleTimeout c m := by
  intro hcut
  rcases Bool.or_eq_true _ _ |>.mp hcut with hcut | hcut
  · exact ⟨still_up hI hcut, h.1 hcut⟩
  · exact ⟨h.2 hcut, still_down hI hcut⟩

theorem otherStill_of_idle {m : Move} (h : CutsIdle idleTimeout c m) :
    OtherStill idleTimeout c m := by
  refine ⟨fun hcut => (h ?_).2, fun hcut => (h ?_).1⟩
  · rw [hcut, Bool.true_or]
  · rw [hcut, Bool.or_true]

/-- **The idle timeout means that the tunnel is idle exactly as long as no direction waits for the
whole timeout while the other one relays**, for every schedule of frames and chunks. -/
theorem idle_iff (S : Settings) (idleTimeout now : ℕ) (moves : List Move) :
    Along (step S idleTimeout) (OtherStill idleTimeout) (Clocked.new now) moves ↔
      Along (step S idleTimeout) (CutsIdle idleTimeout) (Clocked.new now) moves := by
  constructor
  · intro h
    exact along_of_inv (I := Clocked.Inv) (fun _ _ _ hI _ hs => Clocked.inv_step hI hs)
      (fun _ _ hI hC => idle_of_otherStill hI hC) moves _ (Clocked.inv_new now) h
  · intro h
    exact along_of_inv (I := fun _ => True) (fun _ _ _ _ _ _ => trivial)
      (fun _ _ _ hC => otherStill_of_idle hC) moves _ trivial h

/-- Every second a byte comes from the target and goes to the agent, and the agent has nothing to
send; after two seconds its timer goes off. -/
def download : List Move :=
  [.pass 1, .await (.read [0]), .await .sent, .pass 1, .await (.read [0]), .await .sent,
    .await (.receiveEnds .limit), .await (.wake true)]

/-- A download under way is cut by the idle timeout, with the frame it has just relayed. -/
theorem download_cut :
    (∃ c, run (step ⟨1024, 1024⟩ 2) (Clocked.new 0) download = some c ∧
      c.relay.main = .closing) ∧
    ¬ Along (step ⟨1024, 1024⟩ 2) (CutsIdle 2) (Clocked.new 0) download := by
  refine ⟨⟨_, rfl, rfl⟩, fun h => ?_⟩
  have hsplit := (along_append (download.take 6) (download.drop 6) _).mp h
  obtain ⟨c, hc⟩ : ∃ c, run (step ⟨1024, 1024⟩ 2) (Clocked.new 0) (download.take 6) = some c :=
    ⟨_, rfl⟩
  have hlast : c.lastDown = some 2 ∧ c.now = 2 ∧
      c.cutUp 2 (.await (.receiveEnds .limit)) = true := by
    obtain rfl := Option.some.inj hc
    decide
  obtain ⟨hdown, hnow, hcut⟩ := hlast
  have hstill := ((hsplit.2 c hc).1 (by rw [hcut, Bool.true_or])).2 2 hdown
  rw [hnow] at hstill
  exact absurd hstill (by decide)

end IdenGrid.Edge.Idle
