/-
A flat sequence kept as a queue of chunks.

`locate` finds the element at a position by walking the chunks, `release`
drops whole chunks from the head as far as a mark allows. Both are stated
against the flat sequence (`List.flatten`): where the walk ends, what is
left to read from there, and what a release leaves.
-/
import Mathlib.Data.List.Basic

namespace ChunkQueue

variable {α : Type}

/-- The index of the chunk that holds position `pos`, that chunk, and the
offset in it. -/
def locate : List (List α) → Nat → Option (Nat × List α × Nat)
  | [], _ => none
  | c :: cs, pos =>
    if pos < c.length then some (0, c, pos)
    else (locate cs (pos - c.length)).map fun (i, c', off) => (i + 1, c', off)

/-- Drop chunks from the head while they end at or before `mark`; `base` is
the position at which the head starts. Returns what is left and its base. -/
def release : List (List α) → Nat → Nat → List (List α) × Nat
  | [], base, _ => ([], base)
  | c :: cs, base, mark => if base + c.length ≤ mark then release cs (base + c.length) mark else (c :: cs, base)

theorem locate_eq_none_iff {cs : List (List α)} {pos : Nat} :
    locate cs pos = none ↔ cs.flatten.length ≤ pos := by
  induction cs generalizing pos with
  | nil => simp [locate]
  | cons c cs ih =>
    simp only [locate, List.flatten_cons, List.length_append]
    split
    · simp; omega
    · rw [Option.map_eq_none_iff, ih]; omega

theorem locate_eq_some {cs : List (List α)} {pos i off : Nat} {c : List α}
    (h : locate cs pos = some (i, c, off)) :
    ∃ pre post, cs = pre ++ c :: post ∧ i = pre.length ∧ off < c.length ∧ pos = pre.flatten.length + off := by
  induction cs generalizing pos i with
  | nil => simp [locate] at h
  | cons d cs ih =>
    simp only [locate] at h
    split at h
    · next hlt =>
      simp only [Option.some.injEq, Prod.mk.injEq] at h
      obtain ⟨rfl, rfl, rfl⟩ := h
      exact ⟨[], cs, rfl, rfl, hlt, by simp⟩
    · next hge =>
      simp only [Option.map_eq_some_iff, Prod.mk.injEq] at h
      obtain ⟨⟨i', c', off'⟩, hl, rfl, rfl, rfl⟩ := h
      obtain ⟨pre, post, rfl, rfl, hoff, hpos⟩ := ih hl
      refine ⟨d :: pre, post, rfl, rfl, hoff, ?_⟩
      simp only [List.flatten_cons, List.length_append] at hpos ⊢
      omega

/-- What the located chunk still holds is what comes next in the sequence. -/
theorem locate_drop {cs : List (List α)} {pos i off : Nat} {c : List α} (h : locate cs pos = some (i, c, off)) :
    c.drop off = (cs.flatten.drop pos).take (c.length - off) := by
  obtain ⟨pre, post, rfl, rfl, hoff, rfl⟩ := locate_eq_some h
  simp only [List.flatten_append, List.flatten_cons, ← List.drop_drop, List.drop_left]
  rw [List.drop_append_of_le_length (Nat.le_of_lt hoff), List.take_append_of_le_length (by simp),
    List.take_of_length_le (by simp)]

/-- The chunk is the last one exactly when none follows it. -/
theorem locate_last {cs : List (List α)} {pos i off : Nat} {c : List α} (h : locate cs pos = some (i, c, off))
    (hi : i = cs.length - 1) : pos + (c.drop off).length = cs.flatten.length := by
  obtain ⟨pre, post, rfl, rfl, hoff, rfl⟩ := locate_eq_some h
  simp only [List.length_append, List.length_cons] at hi
  have hpost : post = [] := List.length_eq_zero_iff.1 (by omega)
  simp [hpost]
  omega

/-- Past a first part of the queue, the walk goes on in the rest. -/
theorem locate_append {pre : List (List α)} {pos : Nat} (h : pre.flatten.length ≤ pos) (cs : List (List α)) :
    locate (pre ++ cs) pos =
      (locate cs (pos - pre.flatten.length)).map fun (i, c, off) => (i + pre.length, c, off) := by
  induction pre generalizing pos with
  | nil => simp
  | cons d pre ih =>
    simp only [List.flatten_cons, List.length_append] at h ⊢
    simp only [List.cons_append, locate, show ¬ pos < d.length by omega, if_false]
    rw [ih (by omega), Option.map_map, Nat.sub_sub]
    rfl

/-- A mark at the end or past it releases everything. -/
theorem release_all {cs : List (List α)} {base mark : Nat} (h : base + cs.flatten.length ≤ mark) :
    release cs base mark = ([], base + cs.flatten.length) := by
  induction cs generalizing base with
  | nil => simp [release]
  | cons c cs ih =>
    simp only [List.flatten_cons, List.length_append] at h ⊢
    rw [release, if_pos (by omega), ih (by omega), Nat.add_assoc]

/-- A mark within the queue does not reach a chunk put after it. -/
theorem release_snoc {cs : List (List α)} {base mark : Nat} {c : List α} (hc : c ≠ [])
    (h : mark ≤ base + cs.flatten.length) :
    release (cs ++ [c]) base mark = ((release cs base mark).1 ++ [c], (release cs base mark).2) := by
  induction cs generalizing base with
  | nil =>
    have hpos := List.length_pos_iff.2 hc
    have hend : ¬ base + c.length ≤ mark := by simp at h; omega
    simp [release, hend]
  | cons d cs ih =>
    simp only [List.flatten_cons, List.length_append] at h
    simp only [List.cons_append, release]
    split
    · exact ih (by omega)
    · rfl

/-- A release drops chunks from the head and moves the base past them, but
not past the mark, and stops at a chunk that ends beyond the mark. -/
theorem release_eq {cs : List (List α)} {base mark : Nat} {cs' : List (List α)} {base' : Nat}
    (h : release cs base mark = (cs', base')) :
    (∃ pre, cs = pre ++ cs' ∧ base' = base + pre.flatten.length) ∧ (base ≤ mark → base' ≤ mark) ∧
      ∀ c ∈ cs'.head?, mark < base' + c.length := by
  induction cs generalizing base with
  | nil =>
    simp only [release, Prod.mk.injEq] at h
    obtain ⟨rfl, rfl⟩ := h
    exact ⟨⟨[], rfl, by simp⟩, id, by simp⟩
  | cons c cs ih =>
    simp only [release] at h
    split at h
    · next hle =>
      obtain ⟨⟨pre, rfl, rfl⟩, hm, hh⟩ := ih h
      refine ⟨⟨c :: pre, rfl, ?_⟩, fun _ => hm hle, hh⟩
      simp only [List.flatten_cons, List.length_append]
      omega
    · next hgt =>
      simp only [Prod.mk.injEq] at h
      obtain ⟨rfl, rfl⟩ := h
      exact ⟨⟨[], rfl, by simp⟩, id, by simpa using hgt⟩

end ChunkQueue
