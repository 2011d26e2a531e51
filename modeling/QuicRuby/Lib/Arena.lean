/-
Memory freed by hand. A cell has an address and points to other cells.
Freeing one that is not there, or that another cell still points to, is
undefined (`none`): a double free, or a dangling pointer.

A block is the cells of one owner in the order they were allocated, each
pointing only to earlier ones. It can be freed last to first while nothing
outside points into it, and what is left is the rest (`freeAll_block`).
-/
import Mathlib.Data.List.Induction
import Mathlib.Data.List.Nodup

namespace Arena

variable {κ : Type} [DecidableEq κ]

structure Cell (κ : Type) where
  addr : κ
  uses : List κ
deriving DecidableEq, Repr

def free (cells : List (Cell κ)) (a : κ) : Option (List (Cell κ)) :=
  if a ∈ cells.map Cell.addr ∧ ∀ x ∈ cells, a ∉ x.uses then some (cells.filter (·.addr ≠ a)) else none

/-- Free one after the other. -/
def freeAll (cells : List (Cell κ)) (as : List κ) : Option (List (Cell κ)) := as.foldlM free cells

/-- Each cell points to earlier ones only. -/
def Layered (own : List (Cell κ)) : Prop :=
  own.Pairwise (fun x y => y.addr ∉ x.uses) ∧ ∀ x ∈ own, x.addr ∉ x.uses

/-- No cell of `rest` points to one of `own`. -/
def Apart (own rest : List (Cell κ)) : Prop := ∀ x ∈ rest, ∀ y ∈ own, y.addr ∉ x.uses

section
variable {own pre post : List (Cell κ)}

/-- A cell nothing points to can be freed. -/
theorem free_cell {x : Cell κ} (hn : ((pre ++ x :: post).map Cell.addr).Nodup)
    (hout : ∀ y ∈ pre ++ x :: post, x.addr ∉ y.uses) : free (pre ++ x :: post) x.addr = some (pre ++ post) := by
  rw [free, if_pos ⟨by simp, hout⟩]
  simp only [List.map_append, List.map_cons, List.nodup_append, List.nodup_cons, List.mem_cons, List.mem_map] at hn
  obtain ⟨-, ⟨hpost, -⟩, hpre⟩ := hn
  have hkeep : ∀ l : List (Cell κ), (∀ y ∈ l, y.addr ≠ x.addr) → l.filter (·.addr ≠ x.addr) = l := by
    intro l hl
    exact List.filter_eq_self.2 fun y hy => decide_eq_true (hl y hy)
  rw [List.filter_append, List.filter_cons_of_neg (by simp), hkeep pre, hkeep post]
  · exact fun y hy heq => hpost ⟨y, hy, heq⟩
  · exact fun y hy heq => hpre y.addr ⟨y, hy, rfl⟩ x.addr (.inl rfl) heq

/-- **A block is freed last to first.** -/
theorem freeAll_block (hn : ((pre ++ own ++ post).map Cell.addr).Nodup) (hown : Layered own)
    (hout : Apart own (pre ++ post)) :
    freeAll (pre ++ own ++ post) (own.reverse.map Cell.addr) = some (pre ++ post) := by
  induction own using List.reverseRecOn generalizing post with
  | nil => simp [freeAll]
  | append_singleton own x ih =>
    have hcells : pre ++ (own ++ [x]) ++ post = (pre ++ own) ++ x :: post := by simp
    obtain ⟨hlayers, hself⟩ := hown
    obtain ⟨hlayers', -, hlast⟩ := List.pairwise_append.1 hlayers
    rw [hcells] at hn ⊢
    -- Nothing points to the last cell: not itself, not an earlier one, not one outside.
    have hfree : free (pre ++ own ++ x :: post) x.addr = some (pre ++ own ++ post) := by
      refine free_cell hn fun y hy => ?_
      simp only [List.mem_append, List.mem_cons] at hy
      rcases hy with (hy | hy) | rfl | hy
      · exact hout y (by simp [hy]) x (by simp)
      · exact hlast y hy x (by simp)
      · exact hself y (by simp)
      · exact hout y (by simp [hy]) x (by simp)
    have hrest : freeAll (pre ++ own ++ post) (own.reverse.map Cell.addr) = some (pre ++ post) := ih
      (hn.sublist (by simp only [List.map_append, List.map_cons]; simp))
      ⟨hlayers', fun y hy => hself y (by simp [hy])⟩ fun y hy z hz => hout y hy z (by simp [hz])
    rw [List.reverse_append, List.reverse_singleton, List.singleton_append, List.map_cons, freeAll, List.foldlM_cons,
      hfree]
    exact hrest

end

end Arena
