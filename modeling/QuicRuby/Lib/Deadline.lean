/-
A loop with a deadline. A turn reads the clock, gives up if the deadline has
passed, and otherwise makes a round with the time that is left; the loop ends
with the first round that brings something.

The clock is the environment's: a script gives what it reads at each turn.
`Paced` says how a turn's round moves it, by the time the round waited, and by
at most `ε` and at least `τ` in all. Then the loop gives up within `ε` of its
deadline (`Fruitless.on_time`), after a number of rounds that `τ` bounds
(`Fruitless.count`), and cannot go on for longer than that
(`deadlineLoop_returns`).
-/
import Mathlib.Algebra.Order.Field.Basic
import Mathlib.Tactic.Linarith
import QuicRuby.Lib.Loop

namespace Loops

variable {α σ ρ ε β : Type} [Field α] [LinearOrder α] [IsStrictOrderedRing α]

/-- The loop. Also returns the turns it left over, the one that gave up among
them. -/
def deadlineLoop (body : α → ρ → σ → Option (Except ε (Option β) × σ)) (deadline : α) :
    List (α × ρ) → σ → Option (Except ε (Option β) × σ × List (α × ρ))
  | [], _ => none
  | (now, round) :: turns, c =>
    if deadline - now ≤ 0 then some (.ok none, c, (now, round) :: turns)
    else
      match body (deadline - now) round c with
      | none => none
      | some (.error e, c) => some (.error e, c, turns)
      | some (.ok (some b), c) => some (.ok (some b), c, turns)
      | some (.ok none, c) => deadlineLoop body deadline turns c

/-- How the clock moves from turn to turn: by what the round waits, which may
depend on the time left, and a little more. -/
def Paced (wait : α → ρ → α) (deadline ε τ : α) : List (α × ρ) → Prop
  | (now, round) :: (now', round') :: turns =>
    now + τ ≤ now' ∧ now' ≤ now + wait (deadline - now) round + ε ∧
      Paced wait deadline ε τ ((now', round') :: turns)
  | _ => True

variable {body : α → ρ → σ → Option (Except ε (Option β) × σ)} {deadline : α}

/-- It goes through these rounds, none of which brings anything. -/
inductive Fruitless (body : α → ρ → σ → Option (Except ε (Option β) × σ)) (deadline : α) :
    σ → List (α × ρ) → σ → Prop
  | nil {c} : Fruitless body deadline c [] c
  | cons {c now round c₁ turns c'} : 0 < deadline - now → body (deadline - now) round c = some (.ok none, c₁) →
      Fruitless body deadline c₁ turns c' → Fruitless body deadline c ((now, round) :: turns) c'

/-- **When the loop gives up**: after rounds that brought nothing, at the first
reading of the clock that is past the deadline. -/
theorem deadlineLoop_nil_iff {turns rest : List (α × ρ)} {c c' : σ} :
    deadlineLoop body deadline turns c = some (.ok none, c', rest) ↔
      ∃ pre now round more, turns = pre ++ rest ∧ rest = (now, round) :: more ∧ deadline ≤ now ∧
        Fruitless body deadline c pre c' := by
  induction turns generalizing c with
  | nil =>
    refine ⟨fun h => (by cases h), fun ⟨pre, now, round, more, h, hrest, _⟩ => ?_⟩
    rw [hrest] at h
    simp at h
  | cons turn turns ih =>
    obtain ⟨now, round⟩ := turn
    rw [deadlineLoop]
    by_cases hd : deadline - now ≤ 0
    · rw [if_pos hd]
      constructor
      · intro h
        cases h
        exact ⟨[], now, round, turns, rfl, rfl, by linarith, .nil⟩
      · rintro ⟨pre, now', round', more, heq, rfl, -, hf⟩
        cases hf with
        | nil => rw [List.nil_append] at heq; rw [heq]
        | cons hlt => simp only [List.cons_append, List.cons.injEq, Prod.mk.injEq] at heq; linarith [heq.1.1]
    · rw [if_neg hd]
      constructor
      · intro h
        split at h
        · cases h
        · cases h
        · cases h
        · next c₁ hb =>
          obtain ⟨pre, now', round', more, rfl, hrest, hpast, hf⟩ := ih.1 h
          exact ⟨(now, round) :: pre, now', round', more, rfl, hrest, hpast, .cons (by linarith) hb hf⟩
      · rintro ⟨pre, now', round', more, heq, rfl, hpast, hf⟩
        cases hf with
        | nil => simp only [List.nil_append, List.cons.injEq, Prod.mk.injEq] at heq; linarith [heq.1.1]
        | cons hlt hb hf =>
          simp only [List.cons_append, List.cons.injEq, Prod.mk.injEq] at heq
          obtain ⟨⟨rfl, rfl⟩, rfl⟩ := heq
          simp only [hb]
          exact ih.2 ⟨_, _, _, _, rfl, rfl, hpast, hf⟩

section
variable {wait : α → ρ → α} {ε' τ : α} (hwait : ∀ left round, 0 < left → wait left round ≤ left)

include hwait in
/-- **It gives up on time**: the clock is past the deadline, or the start, by
`ε` at most. -/
theorem Fruitless.on_time {pre more : List (α × ρ)} {c c' : σ} {now latest : α} {round : ρ}
    (h : Fruitless body deadline c pre c') (hpaced : Paced wait deadline ε' τ (pre ++ (now, round) :: more))
    (hstart : ∀ turn ∈ (pre ++ (now, round) :: more).head?, turn.1 ≤ latest) (hlatest : deadline + ε' ≤ latest) :
    now ≤ latest := by
  induction h with
  | nil => exact hstart (now, round) rfl
  | @cons c now₁ round₁ c₁ turns c' hlt hb hf ih =>
    refine ih ?_ ?_
    · cases turns with
      | nil => exact hpaced.2.2
      | cons turn turns => exact hpaced.2.2
    · -- The round waited no longer than until the deadline.
      have hw := hwait (deadline - now₁) round₁ hlt
      cases turns with
      | nil =>
        rintro turn ⟨⟩
        have := hpaced.2.1
        dsimp only
        linarith
      | cons turn' turns =>
        rintro turn ⟨⟩
        have := hpaced.2.1
        linarith

/-- The rounds it makes fit in the time, but for the last. -/
theorem Fruitless.count {turn : α × ρ} {turns more : List (α × ρ)} {c c' : σ}
    (h : Fruitless body deadline c (turn :: turns) c') (hpaced : Paced wait deadline ε' τ (turn :: turns ++ more)) :
    turn.1 + turns.length * τ < deadline := by
  induction turns generalizing turn c with
  | nil =>
    cases h with
    | cons hlt => simp; linarith
  | cons turn' turns ih =>
    obtain ⟨now, round⟩ := turn
    cases h with
    | cons hlt hb hf =>
      have hrest := ih hf hpaced.2.2
      have hstep := hpaced.1
      simp only [List.length_cons, Nat.cast_add, Nat.cast_one]
      linarith

/-- **It comes back**: with rounds that do, before `τ` a turn has used up the
time. -/
theorem deadlineLoop_returns {turn : α × ρ} {turns : List (α × ρ)} {c : σ}
    (hbody : ∀ turn' ∈ turn :: turns, ∀ left c, 0 < left → (body left turn'.2 c).isSome = true)
    (hpaced : Paced wait deadline ε' τ (turn :: turns)) (henough : deadline ≤ turn.1 + turns.length * τ) :
    (deadlineLoop body deadline (turn :: turns) c).isSome = true := by
  induction turns generalizing turn c with
  | nil =>
    obtain ⟨now, round⟩ := turn
    rw [deadlineLoop, if_pos (by simpa using henough)]
    rfl
  | cons turn' turns ih =>
    obtain ⟨now, round⟩ := turn
    rw [deadlineLoop]
    split
    · rfl
    next hd =>
    obtain ⟨res, hres⟩ := Option.isSome_iff_exists.1
      (hbody (now, round) List.mem_cons_self (deadline - now) c (by linarith))
    rw [hres]
    obtain ⟨r, c₁⟩ := res
    rcases r with e | _ | b
    · rfl
    · refine ih (fun t ht => hbody t (List.mem_cons_of_mem _ ht)) hpaced.2.2 ?_
      have hstep := hpaced.1
      simp only [List.length_cons, Nat.cast_add, Nat.cast_one] at henough
      linarith
    · rfl

end

end Loops
