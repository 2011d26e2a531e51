/-
A log of blocks that only grows at its end, and of which only an end is kept.

What matters about a kept block is where it is in the whole log, so the rules
are about the log as if nothing had been dropped: `At` is a block at a
position, `Log` says which log the kept blocks end, and `At.kept` that a block
is kept as long as what was dropped ends before it does.
-/
import Mathlib.Data.List.Infix

namespace BlockLog

variable {κ α : Type}

/-- What the blocks hold, one after the other. -/
def flat (log : List (κ × List α)) : List α := log.flatMap Prod.snd

@[simp] theorem flat_nil : flat ([] : List (κ × List α)) = [] := rfl

@[simp] theorem flat_cons (b : κ × List α) (log : List (κ × List α)) : flat (b :: log) = b.2 ++ flat log := rfl

@[simp] theorem flat_append (log new : List (κ × List α)) : flat (log ++ new) = flat log ++ flat new := by
  simp [flat]

/-- The held blocks end the log, and the log holds `s`. -/
structure Log (log held : List (κ × List α)) (s : List α) : Prop where
  suffix : held <:+ log
  holds : flat log = s

/-- Blocks are put after those kept, and dropped before them. -/
def Slides (held new held' : List (κ × List α)) : Prop := ∃ passed, held ++ new = passed ++ held'

/-- The block `b` starts at `pos` in the log. -/
def At (log : List (κ × List α)) (b : κ × List α) (pos : Nat) : Prop :=
  ∃ pre post, log = pre ++ b :: post ∧ (flat pre).length = pos

variable {log held held' held'' new new' : List (κ × List α)} {b : κ × List α} {s : List α} {pos off n : Nat}

theorem Slides.refl (held : List (κ × List α)) : Slides held [] held := ⟨[], by simp⟩

theorem Slides.push (held new : List (κ × List α)) : Slides held new (held ++ new) := ⟨[], rfl⟩

theorem Slides.drop (h : held' <:+ held) : Slides held [] held' := by
  obtain ⟨passed, rfl⟩ := h
  exact ⟨passed, by simp⟩

theorem Slides.trans (h₁ : Slides held new held') (h₂ : Slides held' new' held'') :
    Slides held (new ++ new') held'' := by
  obtain ⟨p₁, h₁⟩ := h₁
  obtain ⟨p₂, h₂⟩ := h₂
  exact ⟨p₁ ++ p₂, by rw [← List.append_assoc, h₁, List.append_assoc, h₂, List.append_assoc]⟩

theorem Log.slide (h : Log log held s) (hs : Slides held new held') : Log (log ++ new) held' (s ++ flat new) := by
  obtain ⟨⟨dropped, rfl⟩, hc⟩ := h
  obtain ⟨passed, hs⟩ := hs
  refine ⟨⟨dropped ++ passed, ?_⟩, by rw [flat_append, hc]⟩
  rw [List.append_assoc, ← hs, List.append_assoc]

/-- How much was dropped is what the kept blocks leave of the whole. -/
theorem Log.dropped (h : Log log held s) :
    ∃ dropped, log = dropped ++ held ∧ (flat dropped).length + (flat held).length = s.length := by
  obtain ⟨⟨dropped, rfl⟩, hc⟩ := h
  exact ⟨dropped, rfl, by rw [← hc, flat_append, List.length_append]⟩

theorem At.append (h : At log b pos) (new : List (κ × List α)) : At (log ++ new) b pos := by
  obtain ⟨pre, post, rfl, hpos⟩ := h
  exact ⟨pre, post ++ new, by simp, hpos⟩

/-- A part of the block is a part of the whole. -/
theorem At.read (h : At log b pos) (hn : off + n ≤ b.2.length) :
    (b.2.drop off).take n = ((flat log).drop (pos + off)).take n := by
  obtain ⟨pre, post, rfl, rfl⟩ := h
  simp only [flat_append, flat_cons, ← List.drop_drop, List.drop_left]
  rw [List.drop_append_of_le_length (by omega), List.take_append_of_le_length (by simp; omega)]

/-- **A block is kept** as long as what was dropped ends before it does. -/
theorem At.kept {dropped : List (κ × List α)} (h : At (dropped ++ held) b pos)
    (hend : (flat dropped).length < pos + b.2.length) : b ∈ held := by
  obtain ⟨pre, post, heq, rfl⟩ := h
  rcases List.append_eq_append_iff.1 heq with ⟨mid, rfl, hkept⟩ | ⟨mid, rfl, hkept⟩
  · rw [hkept]
    simp
  · cases mid with
    | nil => rw [List.nil_append] at hkept; exact hkept ▸ List.mem_cons_self
    | cons x mid =>
      -- The block itself was dropped.
      obtain ⟨rfl, -⟩ := List.cons.inj hkept
      simp only [flat_append, flat_cons, List.length_append] at hend
      omega

end BlockLog
