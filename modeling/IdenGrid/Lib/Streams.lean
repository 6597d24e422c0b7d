import Mathlib.Tactic.Common

/-! # A one-way stream through a framed channel

A producer reads items, holds what it has read until it has sent it as a frame, and so on; the
frames travel in order; a consumer takes a frame and writes its items out, in one go or in parts.
Either side may stop at any time, with what it holds, or what is under way, lost.

`Intact` is what holds meanwhile: as long as both sides run, nothing is missing between what was
read and what was written; as long as the consumer runs, what it still gets continues what it has
written; and what was written is always a prefix of what was read. `Intact.produce` and
`Intact.consume`: every step of either side keeps it. -/

namespace IdenGrid.Lib.Streams

variable {α : Type*}

/-- The messages of a framed channel. -/
inductive Frame (α : Type*)
  | binary (data : List α)
  | text
  | ping (payload : List α)
  | pong (payload : List α)
  | close
  deriving DecidableEq, Repr

/-- The data of a frame. -/
def Frame.data : Frame α → Option (List α)
  | .binary data => some data
  | _ => none

/-- The data frames among the frames under way. -/
def payloads (frames : List (Frame α)) : List (List α) := frames.filterMap Frame.data

@[simp] theorem payloads_append (fs gs : List (Frame α)) :
    payloads (fs ++ gs) = payloads fs ++ payloads gs := List.filterMap_append

/-- What a producer has read, what of it is not sent yet, and whether it runs. -/
structure Producer (α : Type*) where
  read : List α
  hand : List α
  live : Bool

/-- What a consumer has taken but not written yet, what it has written, and whether it runs. -/
structure Consumer (α : Type*) where
  held : List α
  written : List α
  live : Bool

/-- A step of a producer, with the data frames it sends. -/
inductive Producer.Step : Producer α → Producer α → List (List α) → Prop
  | quiet (p : Producer α) : Step p p []
  | reads (p : Producer α) (items : List α) (live : p.live = true) (hand : p.hand = []) :
      Step p ⟨p.read ++ items, items, true⟩ []
  | sends (p : Producer α) (live : p.live = true) : Step p ⟨p.read, [], true⟩ [p.hand]
  | stops (p : Producer α) : Step p ⟨p.read, [], false⟩ []
  | readsAndStops (p : Producer α) (items : List α) (live : p.live = true) (hand : p.hand = []) :
      Step p ⟨p.read ++ items, [], false⟩ []
  | sendsAndStops (p : Producer α) (live : p.live = true) : Step p ⟨p.read, [], false⟩ [p.hand]

/-- A step of a consumer, with the data frames before and after. -/
inductive Consumer.Step : Consumer α → Consumer α → List (List α) → List (List α) → Prop
  | quiet (c : Consumer α) (flight : List (List α)) : Step c c flight flight
  | takes (c : Consumer α) (items : List α) (flight : List (List α)) (held : c.held = []) :
      Step c ⟨items, c.written, c.live⟩ (items :: flight) flight
  | writes (c : Consumer α) (n : ℕ) (flight : List (List α)) (live : c.live = true) :
      Step c ⟨c.held.drop n, c.written ++ c.held.take n, true⟩ flight flight
  | takesAndWrites (c : Consumer α) (items : List α) (flight : List (List α))
      (live : c.live = true) (held : c.held = []) :
      Step c ⟨[], c.written ++ items, true⟩ (items :: flight) flight
  | stops (c : Consumer α) (held : List α) (flight flight' : List (List α)) :
      Step c ⟨held, c.written, false⟩ flight flight'

/-- **Nothing lost, doubled or moved.** -/
structure Intact (p : Producer α) (flight : List (List α)) (c : Consumer α) : Prop where
  whole : p.live = true → c.live = true →
    c.written ++ c.held ++ flight.flatten ++ p.hand = p.read
  part : c.live = true → c.written ++ c.held ++ flight.flatten <+: p.read
  prefix_read : c.written <+: p.read

variable {p p' : Producer α} {c c' : Consumer α} {flight flight' : List (List α)}

theorem Intact.start (pl cl : Bool) : Intact (⟨[], [], pl⟩ : Producer α) [] ⟨[], [], cl⟩ :=
  ⟨fun _ _ => rfl, fun _ => List.prefix_refl _, List.prefix_refl _⟩

/-- Reading extends what was read; sending moves the hand into the channel. -/
theorem Intact.produce (h : Intact p flight c) {out : List (List α)} (hs : p.Step p' out) :
    Intact p' (flight ++ out) c := by
  have hgrow : ∀ items, c.written <+: p.read ++ items := fun items =>
    h.prefix_read.trans (List.prefix_append _ _)
  have hpart : ∀ items, c.live = true →
      c.written ++ c.held ++ flight.flatten <+: p.read ++ items := fun items hc =>
    (h.part hc).trans (List.prefix_append _ _)
  have hsent : c.written ++ c.held ++ (flight ++ [p.hand]).flatten =
      c.written ++ c.held ++ flight.flatten ++ p.hand := by simp
  cases hs with
  | quiet => rw [List.append_nil]; exact h
  | reads items live hand =>
    rw [List.append_nil]
    refine ⟨fun _ hc => ?_, hpart items, hgrow items⟩
    have := h.whole live hc
    rw [hand, List.append_nil] at this
    exact congrArg (· ++ items) this
  | sends live =>
    refine ⟨fun _ hc => ?_, fun hc => ?_, h.prefix_read⟩
    · rw [hsent, h.whole live hc]; exact List.append_nil _
    · exact ⟨[], by rw [List.append_nil, hsent, h.whole live hc]⟩
  | stops =>
    rw [List.append_nil]
    exact ⟨fun hp => Bool.noConfusion hp, h.part, h.prefix_read⟩
  | readsAndStops items live hand =>
    rw [List.append_nil]
    exact ⟨fun hp => Bool.noConfusion hp, hpart items, hgrow items⟩
  | sendsAndStops live =>
    refine ⟨fun hp => Bool.noConfusion hp, fun hc => ?_, h.prefix_read⟩
    exact ⟨[], by rw [List.append_nil, hsent, h.whole live hc]⟩

/-- Taking and writing move items towards the end of the stream. -/
theorem Intact.consume (h : Intact p flight c) (hs : c.Step c' flight flight') :
    Intact p flight' c' := by
  cases hs with
  | quiet => exact h
  | takes items flight' held =>
    have hflat : c.written ++ items ++ flight'.flatten =
        c.written ++ c.held ++ (items :: flight').flatten := by simp [held]
    refine ⟨fun hp hc => ?_, fun hc => ?_, h.prefix_read⟩
    · rw [hflat]; exact h.whole hp hc
    · rw [hflat]; exact h.part hc
  | writes n _ live =>
    have hmove : c.written ++ c.held.take n ++ c.held.drop n = c.written ++ c.held := by simp
    refine ⟨fun hp _ => ?_, fun _ => ?_, ?_⟩
    · rw [hmove]; exact h.whole hp live
    · rw [hmove]; exact h.part live
    · have hle : c.written ++ c.held.take n <+: c.written ++ c.held :=
        (List.prefix_append_right_inj _).mpr (List.take_prefix n c.held)
      exact hle.trans ((List.prefix_append _ _).trans (h.part live))
  | takesAndWrites items flight' live held =>
    have hflat : c.written ++ items ++ [] ++ flight'.flatten =
        c.written ++ c.held ++ (items :: flight').flatten := by simp [held]
    refine ⟨fun hp _ => ?_, fun _ => ?_, ?_⟩
    · rw [hflat]; exact h.whole hp live
    · rw [hflat]; exact h.part live
    · have := h.part live
      rw [← hflat, List.append_nil] at this
      exact (List.prefix_append _ _).trans this
  | stops held =>
    exact ⟨fun _ hc => Bool.noConfusion hc, fun hc => Bool.noConfusion hc, h.prefix_read⟩

end IdenGrid.Lib.Streams
