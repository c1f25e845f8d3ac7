import Mathlib.Data.List.Basic

/-!
# Bounded channels

A sender whose channel is full waits. What becomes of it depends on what the
receiver does meanwhile: the list of its turns is given to `send`, and a sender
that is still waiting at the end of it is one that was dropped.
-/

namespace Channels
set_option autoImplicit false

/-- `received` is the history of what the receiver took. -/
structure Channel (A : Type) where
  capacity : Nat
  buffer : List A
  received : List A
  closed : Bool
  pos : 0 < capacity
  fits : buffer.length ≤ capacity

inductive Turn where
  | receive
  | close
  deriving DecidableEq

inductive Sent where
  | accepted
  | refused
  | dropped
  deriving DecidableEq

namespace Channel
variable {A : Type}

def turn (c : Channel A) : Turn → Channel A
  | .receive =>
    { c with
      buffer := c.buffer.tail
      received := c.received ++ c.buffer.head?.toList
      fits := by
        have hfits := c.fits
        rw [List.length_tail]
        omega }
  | .close => { c with closed := true }

def push (c : Channel A) (a : A) (room : c.buffer.length < c.capacity) : Channel A :=
  { c with
    buffer := c.buffer ++ [a]
    fits := by
      rw [List.length_append, List.length_singleton]
      exact room }

def send (a : A) (c : Channel A) (turns : List Turn) : Sent × Channel A :=
  if c.closed then (.refused, c)
  else if room : c.buffer.length < c.capacity then (.accepted, c.push a room)
  else match turns with
    | [] => (.dropped, c)
    | t :: turns => send a (c.turn t) turns

/-- Everything the channel ever accepted, in order. -/
def accepted (c : Channel A) : List A := c.received ++ c.buffer

/-- The channel takes a message, at once or when the receiver makes room before anything else. -/
def Accepts (c : Channel A) (turns : List Turn) : Prop :=
  c.closed = false ∧ (c.buffer.length < c.capacity ∨ turns.head? = some .receive)

instance (c : Channel A) (turns : List Turn) : Decidable (c.Accepts turns) :=
  inferInstanceAs (Decidable (_ ∧ _))

@[simp] theorem turn_accepted (c : Channel A) (t : Turn) : (c.turn t).accepted = c.accepted := by
  cases t with
  | receive => cases h : c.buffer <;> simp [turn, accepted, h]
  | close => rfl

@[simp] theorem push_accepted (c : Channel A) (a : A) (room : c.buffer.length < c.capacity) :
    (c.push a room).accepted = c.accepted ++ [a] := by
  simp [push, accepted]

section Send
variable (a : A) {c : Channel A}

theorem send_of_closed (hclosed : c.closed = true) (turns : List Turn) :
    c.send a turns = (.refused, c) := by
  unfold send
  rw [if_pos hclosed]

theorem send_of_room (hclosed : c.closed = false) (room : c.buffer.length < c.capacity)
    (turns : List Turn) : c.send a turns = (.accepted, c.push a room) := by
  unfold send
  simp [hclosed, room]

theorem send_of_full (hclosed : c.closed = false) (hfull : ¬ c.buffer.length < c.capacity)
    (t : Turn) (turns : List Turn) : c.send a (t :: turns) = (c.turn t).send a turns := by
  rw [send]
  simp [hclosed, hfull]

theorem send_of_full_nil (hclosed : c.closed = false) (hfull : ¬ c.buffer.length < c.capacity) :
    c.send a [] = (.dropped, c) := by
  unfold send
  simp [hclosed, hfull]

theorem send_accepted_iff (c : Channel A) (turns : List Turn) :
    (c.send a turns).1 = .accepted ↔ c.Accepts turns := by
  unfold Accepts
  cases hclosed : c.closed with
  | true => simp [send_of_closed a hclosed]
  | false =>
    by_cases hroom : c.buffer.length < c.capacity
    · simp [send_of_room a hclosed hroom, hroom]
    · cases turns with
      | nil => simp [send_of_full_nil a hclosed hroom, hroom]
      | cons t turns =>
        rw [send_of_full a hclosed hroom]
        cases t with
        | close =>
          have hturn : (c.turn .close).closed = true := rfl
          simp [send_of_closed a hturn, hroom]
        | receive =>
          -- the first message taken makes the room
          have hturn : (c.turn .receive).closed = false := hclosed
          have hpos := c.pos
          have hfits := c.fits
          have hnext : (c.turn .receive).buffer.length < (c.turn .receive).capacity := by
            simp only [turn, List.length_tail]
            omega
          simp [send_of_room a hturn hnext]

theorem send_accepted (c : Channel A) (turns : List Turn) :
    (c.send a turns).2.accepted =
      if (c.send a turns).1 = .accepted then c.accepted ++ [a] else c.accepted := by
  induction turns generalizing c with
  | nil =>
    unfold send
    split
    · simp
    · split <;> simp
  | cons t turns ih =>
    unfold send
    split
    · simp
    · split
      · simp
      · simpa using ih (c.turn t)

end Send

end Channel

end Channels
