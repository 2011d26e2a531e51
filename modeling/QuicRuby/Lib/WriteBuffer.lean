/-
A buffer of fixed size with a write cursor, as a C function fills one:
`*p++ = x` and `memcpy(p, xs, n); p += n`. A write past the end is `none`.
-/
import Mathlib.Data.List.Basic

/-- The cells, and how many of them are behind the cursor. -/
structure WriteBuffer (α : Type) where
  cells : List α
  cursor : Nat
deriving DecidableEq, Repr

namespace WriteBuffer

variable {α : Type}

def put (w : WriteBuffer α) (x : α) : Option (WriteBuffer α) :=
  if w.cursor < w.cells.length then some { cells := w.cells.set w.cursor x, cursor := w.cursor + 1 } else none

def copy : List α → WriteBuffer α → Option (WriteBuffer α)
  | [], w => some w
  | x :: xs, w => (w.put x).bind (copy xs)

theorem copy_append (xs ys : List α) (w : WriteBuffer α) : copy (xs ++ ys) w = (copy xs w).bind (copy ys) := by
  induction xs generalizing w with
  | nil => rfl
  | cons x xs ih =>
    simp only [List.cons_append, copy, Option.bind_assoc]
    congr 1
    funext w'
    exact ih w'

/-- What fits is written, and the cursor ends behind it. -/
theorem copy_fits {xs : List α} {w : WriteBuffer α} (h : w.cursor + xs.length ≤ w.cells.length) :
    copy xs w = some
      { cells := w.cells.take w.cursor ++ (xs ++ w.cells.drop (w.cursor + xs.length))
        cursor := w.cursor + xs.length } := by
  induction xs generalizing w with
  | nil => simp [copy]
  | cons x xs ih =>
    simp only [List.length_cons] at h
    have hlt : w.cursor < w.cells.length := by omega
    have hfits : w.cursor + 1 + xs.length ≤ (w.cells.set w.cursor x).length := by
      rw [List.length_set]
      omega
    simp only [copy, put, hlt, if_true, Option.bind_some]
    rw [ih hfits]
    simp only [List.length_cons, Option.some.injEq, mk.injEq]
    have htake : (w.cells.set w.cursor x).take (w.cursor + 1) = w.cells.take w.cursor ++ [x] := by
      rw [List.take_add_one, List.take_set_of_le (Nat.le_refl _), List.getElem?_set_self hlt, Option.toList_some]
    have hdrop : (w.cells.set w.cursor x).drop (w.cursor + 1 + xs.length) =
        w.cells.drop (w.cursor + (xs.length + 1)) := by
      rw [List.drop_set_of_lt (by omega)]
      congr 1
      omega
    rw [htake, hdrop]
    exact ⟨by simp, by omega⟩

/-- What does not fit overruns the buffer. -/
theorem copy_overruns {xs : List α} {w : WriteBuffer α} (hcursor : w.cursor ≤ w.cells.length)
    (h : w.cells.length < w.cursor + xs.length) : copy xs w = none := by
  induction xs generalizing w with
  | nil => simp at h; omega
  | cons x xs ih =>
    simp only [List.length_cons] at h
    simp only [copy, put]
    split
    · next hlt =>
      rw [Option.bind_some]
      refine ih ?_ ?_
      · rw [List.length_set]
        exact hlt
      · simp only [List.length_set]
        omega
    · rfl

end WriteBuffer
