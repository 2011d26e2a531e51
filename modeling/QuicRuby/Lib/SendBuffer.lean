/-
A send buffer, abstractly: everything accepted so far, of which a first
part has been sent and a first part of that acknowledged.

It says what a reliable byte stream owes its writer. What is on the wire
is a prefix of what was accepted (`framed`), what may have to be sent
again is still at hand (`inFlight`), and accepting, sending and
acknowledging move the three marks without touching a byte.
-/
import Mathlib.Data.List.Basic

/-- The accepted sequence with its two marks. -/
structure SendBuffer (α : Type) where
  accepted : List α
  acked : Nat
  sent : Nat
  acked_le : acked ≤ sent
  sent_le : sent ≤ accepted.length

namespace SendBuffer

variable {α : Type} (b : SendBuffer α)

def empty : SendBuffer α := ⟨[], 0, 0, Nat.le_refl _, Nat.le_refl _⟩

/-- What has been sent. -/
def framed : List α := b.accepted.take b.sent

/-- What has not been sent yet. -/
def unsent : List α := b.accepted.drop b.sent

/-- What has been sent and not acknowledged. -/
def inFlight : List α := b.framed.drop b.acked

def accept (data : List α) : SendBuffer α :=
  { b with accepted := b.accepted ++ data, sent_le := Nat.le_trans b.sent_le (by simp) }

/-- Send the next `k`. -/
def frame (k : Nat) (h : k ≤ b.unsent.length) : SendBuffer α :=
  { b with
    sent := b.sent + k
    acked_le := Nat.le_trans b.acked_le (Nat.le_add_right _ _)
    sent_le := by have := b.sent_le; simp only [unsent, List.length_drop] at h; omega }

/-- Acknowledge the next `k`. -/
def ack (k : Nat) (h : b.acked + k ≤ b.sent) : SendBuffer α := { b with acked := b.acked + k, acked_le := h }

variable {b}

@[simp] theorem framed_length : b.framed.length = b.sent := by simp [framed, b.sent_le]

theorem unsent_length : b.unsent.length = b.accepted.length - b.sent := by simp [unsent]

@[simp] theorem framed_accept (data : List α) : (b.accept data).framed = b.framed := by
  simp [framed, accept, List.take_append_of_le_length b.sent_le]

theorem framed_frame {k : Nat} (h : k ≤ b.unsent.length) :
    (b.frame k h).framed = b.framed ++ b.unsent.take k := by
  simp only [framed, frame, unsent, List.take_add]

/-- Sending nothing changes nothing. -/
theorem frame_of_eq_zero {k : Nat} (h : k ≤ b.unsent.length) (hk : k = 0) : b.frame k h = b := by
  subst hk
  rfl

@[simp] theorem framed_ack {k : Nat} (h : b.acked + k ≤ b.sent) : (b.ack k h).framed = b.framed := rfl

end SendBuffer
