import Mathlib.Data.List.Basic
import Mathlib.Tactic.Common

/-! # Reading a number of items from a stream

A stream is the list of what its reads have to return: the items that are there by then, or `none`
for a read that fails. A read that asks for less leaves the others for the next one. No items, or the
end of the list, is the end of the stream.

`readExact` reads until it has as many items as asked for. `readExact_ok` and `readExact_fails`: how
the items are split into reads makes no difference, and no item after them is touched. `readUntil` reads
up to a delimiter; `readUntil_line`: the same for a line. -/

namespace IdenGrid.Lib.Reads

variable {α : Type*}

/-- What is left of a read goes before the later ones. -/
def putBack (items : List α) (later : List (Option (List α))) : List (Option (List α)) :=
  if items.isEmpty then later else some items :: later

/-- `read_exact`: the items, or `none`, and what is left of the stream. -/
def readExact (n : ℕ) : List (Option (List α)) → Option (List α) × List (Option (List α))
  | [] => (if n = 0 then some [] else none, [])
  | none :: later => if n = 0 then (some [], none :: later) else (none, later)
  | some items :: later =>
    if n = 0 then (some [], some items :: later)
    else if items.isEmpty then (none, later)
    else if n ≤ items.length then (some (items.take n), putBack (items.drop n) later)
    else
      let (more, rest) := readExact (n - items.length) later
      (more.map (items ++ ·), rest)

/-- The items that can be read before the stream ends or fails. -/
def arriving : List (Option (List α)) → List α
  | [] => []
  | none :: _ => []
  | some items :: later => if items.isEmpty then [] else items ++ arriving later

/-- All the items of the reads. -/
def unread (stream : List (Option (List α))) : List α := stream.flatMap fun r => r.getD []

/-- The items have been taken from the front of the stream, and no others. -/
structure Took (before : List (Option (List α))) (items : List α)
    (after : List (Option (List α))) : Prop where
  front : arriving before = items ++ arriving after
  whole : unread before = items ++ unread after

theorem Took.nil (stream : List (Option (List α))) : Took stream [] stream := ⟨rfl, rfl⟩

theorem Took.trans {a b c : List (Option (List α))} {xs ys : List α} (h : Took a xs b)
    (h' : Took b ys c) : Took a (xs ++ ys) c :=
  ⟨by rw [h.front, h'.front, List.append_assoc], by rw [h.whole, h'.whole, List.append_assoc]⟩

theorem arriving_putBack (items : List α) (later : List (Option (List α))) :
    arriving (putBack items later) = items ++ arriving later := by
  cases items with
  | nil => rfl
  | cons a items => rfl

theorem unread_putBack (items : List α) (later : List (Option (List α))) :
    unread (putBack items later) = items ++ unread later := by
  cases items with
  | nil => rfl
  | cons a items => rfl

/-- **As many items as asked for**, and only they are taken. -/
theorem readExact_took : ∀ {stream rest : List (Option (List α))} {n : ℕ} {items : List α},
    readExact n stream = (some items, rest) → items.length = n ∧ Took stream items rest
  | [], rest, n, items, h => by
    rw [readExact] at h
    obtain ⟨hitems, rfl⟩ := Prod.mk.inj h
    split_ifs at hitems with hn
    obtain rfl := Option.some.inj hitems
    exact ⟨hn.symm, Took.nil []⟩
  | none :: later, rest, n, items, h => by
    rw [readExact] at h
    split_ifs at h with hn
    · obtain ⟨hitems, rfl⟩ := Prod.mk.inj h
      obtain rfl := Option.some.inj hitems
      exact ⟨hn.symm, Took.nil _⟩
    · exact absurd (Prod.mk.inj h).1.symm (Option.some_ne_none _)
  | some got :: later, rest, n, items, h => by
    rw [readExact] at h
    by_cases hn : n = 0
    · rw [if_pos hn] at h
      obtain ⟨hitems, rfl⟩ := Prod.mk.inj h
      obtain rfl := Option.some.inj hitems
      exact ⟨hn.symm, Took.nil _⟩
    rw [if_neg hn] at h
    by_cases hgot : got.isEmpty = true
    · rw [if_pos hgot] at h
      exact absurd (Prod.mk.inj h).1.symm (Option.some_ne_none _)
    rw [if_neg hgot] at h
    by_cases hle : n ≤ got.length
    · rw [if_pos hle] at h
      obtain ⟨hitems, rfl⟩ := Prod.mk.inj h
      obtain rfl := Option.some.inj hitems
      refine ⟨List.length_take_of_le hle, ?_, ?_⟩
      · rw [arriving, if_neg hgot, arriving_putBack, ← List.append_assoc, List.take_append_drop]
      · rw [unread_putBack, ← List.append_assoc, List.take_append_drop]
        rfl
    · rw [if_neg hle] at h
      obtain ⟨hmap, hrest⟩ := Prod.mk.inj h
      obtain ⟨more, hmore, rfl⟩ := Option.map_eq_some_iff.mp hmap
      obtain ⟨hlen, htook⟩ := readExact_took (Prod.ext hmore hrest)
      refine ⟨?_, ?_, ?_⟩
      · rw [List.length_append, hlen]
        omega
      · rw [arriving, if_neg hgot, htook.front, List.append_assoc]
      · show got ++ unread later = _
        rw [htook.whole, List.append_assoc]

/-- The read fails only where too little arrives. -/
theorem readExact_none : ∀ {stream rest : List (Option (List α))} {n : ℕ},
    readExact n stream = (none, rest) → (arriving stream).length < n
  | [], rest, n, h => by
    have hitems := (Prod.mk.inj h).1
    split_ifs at hitems with hn
    exact Nat.pos_of_ne_zero hn
  | none :: later, rest, n, h => by
    rw [readExact] at h
    split_ifs at h with hn
    · exact absurd (Prod.mk.inj h).1 (Option.some_ne_none _)
    · exact Nat.pos_of_ne_zero hn
  | some got :: later, rest, n, h => by
    rw [readExact] at h
    by_cases hn : n = 0
    · rw [if_pos hn] at h
      exact absurd (Prod.mk.inj h).1 (Option.some_ne_none _)
    rw [if_neg hn] at h
    rw [arriving]
    by_cases hgot : got.isEmpty = true
    · rw [if_pos hgot]
      exact Nat.pos_of_ne_zero hn
    rw [if_neg hgot] at h ⊢
    by_cases hle : n ≤ got.length
    · rw [if_pos hle] at h
      exact absurd (Prod.mk.inj h).1 (Option.some_ne_none _)
    · rw [if_neg hle] at h
      have hmore := Option.map_eq_none_iff.mp (Prod.mk.inj h).1
      have hlen := readExact_none (Prod.ext hmore rfl)
      rw [List.length_append]
      omega

/-- **What arrives is read**, whatever the split. -/
theorem readExact_ok {stream : List (Option (List α))} {items more : List α}
    (h : arriving stream = items ++ more) :
    ∃ rest, readExact items.length stream = (some items, rest) ∧ arriving rest = more := by
  rcases hread : readExact items.length stream with ⟨_ | got, rest⟩
  · have := readExact_none hread
    rw [h, List.length_append] at this
    omega
  · obtain ⟨hlen, htook⟩ := readExact_took hread
    have hfront := htook.front.symm.trans h
    obtain ⟨rfl, hmore⟩ := List.append_inj hfront hlen
    exact ⟨rest, rfl, hmore⟩

/-! ## Up to a delimiter -/

variable [DecidableEq α]

/-- `take(limit)` with `read_until`: the items up to the delimiter, itself included, or to the limit or
the end of the stream; `none` where a read fails. -/
def readUntil (delimiter : α) : ℕ → List (Option (List α)) → Option (List α)
  | 0, _ => some []
  | _ + 1, [] => some []
  | _ + 1, none :: _ => none
  | n + 1, some items :: later =>
    if items.isEmpty then some []
    else
      let available := items.take (n + 1)
      if delimiter ∈ available then some (available.takeWhile (· ≠ delimiter) ++ [delimiter])
      else (readUntil delimiter (n + 1 - available.length) later).map (available ++ ·)

theorem takeWhile_line {delimiter : α} {line more : List α} (h : delimiter ∉ line) :
    (line ++ delimiter :: more).takeWhile (· ≠ delimiter) = line := by
  rw [List.takeWhile_append_of_pos fun a ha => by
    simpa using fun hd : a = delimiter => h (hd ▸ ha)]
  rw [List.takeWhile_cons_of_neg (by simp), List.append_nil]

/-- **The line is read up to the limit**, whatever the split. -/
theorem readUntil_line {delimiter : α} : ∀ {stream : List (Option (List α))} {line more : List α}
    {n : ℕ}, arriving stream = line ++ delimiter :: more → delimiter ∉ line →
      readUntil delimiter n stream = some ((line ++ [delimiter]).take n)
  | stream, line, more, 0, _, _ => by rw [readUntil, List.take_zero]
  | [], line, more, n + 1, h, _ => by simp [arriving] at h
  | none :: later, line, more, n + 1, h, _ => by simp [arriving] at h
  | some items :: later, line, more, n + 1, h, hline => by
    rw [arriving] at h
    by_cases hempty : items.isEmpty = true
    · rw [if_pos hempty] at h
      simp at h
    rw [if_neg hempty] at h
    rw [readUntil, if_neg hempty]
    dsimp only
    rcases List.append_eq_append_iff.mp h with ⟨u, hu, hlater⟩ | ⟨u, rfl, hcons⟩
    · -- the read ends within the line
      subst hu
      have hitems : delimiter ∉ items := fun hd => hline (List.mem_append_left u hd)
      rw [if_neg fun hd => hitems (List.mem_of_mem_take hd),
        readUntil_line hlater fun hd => hline (List.mem_append_right items hd), Option.map_some,
        List.append_assoc, List.take_append (i := n + 1)]
      by_cases hfull : n + 1 ≤ items.length
      · rw [List.length_take, Nat.min_eq_left hfull, Nat.sub_self, Nat.sub_eq_zero_of_le hfull,
          List.take_zero]
      · rw [List.length_take, Nat.min_eq_right (by omega)]
    · -- the read holds the delimiter, or ends right before it
      rcases u with _ | ⟨d, u⟩
      · rw [List.append_nil] at *
        rw [List.nil_append] at hcons
        rw [if_neg fun hd => hline (List.mem_of_mem_take hd),
          readUntil_line hcons.symm (List.not_mem_nil : delimiter ∉ ([] : List α)), Option.map_some,
          List.nil_append, List.take_append (i := n + 1)]
        by_cases hfull : n + 1 ≤ line.length
        · rw [List.length_take, Nat.min_eq_left hfull, Nat.sub_self, Nat.sub_eq_zero_of_le hfull,
            List.take_zero]
        · rw [List.length_take, Nat.min_eq_right (by omega)]
      · obtain ⟨rfl, -⟩ := List.cons.inj hcons
        by_cases hfits : n + 1 ≤ line.length
        · have htake : (line ++ delimiter :: u).take (n + 1) = line.take (n + 1) :=
            List.take_append_of_le_length hfits
          rw [htake, if_neg fun hd => hline (List.mem_of_mem_take hd), List.length_take,
            Nat.min_eq_left hfits, Nat.sub_self, readUntil, Option.map_some, List.append_nil,
            List.take_append_of_le_length hfits]
        · obtain ⟨k, hk⟩ : ∃ k, n + 1 = line.length + (k + 1) := ⟨n - line.length, by omega⟩
          have htake : (line ++ delimiter :: u).take (n + 1) = line ++ delimiter :: u.take k := by
            rw [hk, List.take_length_add_append, List.take_succ_cons]
          rw [htake, if_pos (by simp), takeWhile_line hline,
            List.take_of_length_le (by rw [List.length_append, List.length_singleton]; omega)]

end IdenGrid.Lib.Reads
