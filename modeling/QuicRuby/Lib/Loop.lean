/-
`body until pred`: a loop that looks at a condition and runs a round of its
body while it does not hold. A round may raise, which ends the loop.

The loop runs against a script of what its rounds meet; `none` says that
the script ran out and the loop is still waiting. `loopUntil_ok_iff` says
when the loop comes back and with which state, `loopUntil_weaker` what
becomes of a loop whose condition is too strong, `loopUntil_never` when a
loop never comes back at all.
-/
import Mathlib.Data.List.Basic

namespace Loops

variable {σ ρ ε : Type}

/-- The loop. Also returns the part of the script it left over. -/
def loopUntil (pred : σ → Bool) (body : ρ → σ → Option (Except ε Unit × σ)) :
    List ρ → σ → Option (Except ε Unit × σ × List ρ)
  | rounds, c =>
    if pred c then some (.ok (), c, rounds)
    else
      match rounds with
      | [] => none
      | round :: rounds =>
        match body round c with
        | none => none
        | some (.error e, c) => some (.error e, c, rounds)
        | some (.ok (), c) => loopUntil pred body rounds c

variable {pred : σ → Bool} {body : ρ → σ → Option (Except ε Unit × σ)}

/-- The loop passes through these rounds: each completes, and the condition
does not hold before it. -/
inductive Turns (pred : σ → Bool) (body : ρ → σ → Option (Except ε Unit × σ)) : σ → List ρ → σ → Prop
  | nil {c} : Turns pred body c [] c
  | cons {c round c₁ rounds c'} : pred c = false → body round c = some (.ok (), c₁) →
      Turns pred body c₁ rounds c' → Turns pred body c (round :: rounds) c'

theorem loopUntil_ready {c : σ} (h : pred c = true) (rounds : List ρ) :
    loopUntil pred body rounds c = some (.ok (), c, rounds) := by
  unfold loopUntil
  rw [if_pos h]

theorem loopUntil_waiting {c : σ} (h : pred c = false) : loopUntil pred body [] c = none := by
  unfold loopUntil
  simp [h]

theorem loopUntil_round {c : σ} {round : ρ} (h : pred c = false) (rounds : List ρ) :
    loopUntil pred body (round :: rounds) c =
      match body round c with
      | none => none
      | some (.error e, c) => some (.error e, c, rounds)
      | some (.ok (), c) => loopUntil pred body rounds c := by
  rw [loopUntil]
  simp [h]

theorem loopUntil_turns {c c' : σ} {pre : List ρ} (h : Turns pred body c pre c') (rest : List ρ) :
    loopUntil pred body (pre ++ rest) c = loopUntil pred body rest c' := by
  induction h with
  | nil => rfl
  | cons hp hb _ ih => rw [List.cons_append, loopUntil_round hp, hb]; exact ih

/-- **When the loop comes back**: after some rounds, in the first state in
which the condition holds. -/
theorem loopUntil_ok_iff {rounds rest : List ρ} {c c' : σ} :
    loopUntil pred body rounds c = some (.ok (), c', rest) ↔
      ∃ pre, rounds = pre ++ rest ∧ Turns pred body c pre c' ∧ pred c' = true := by
  constructor
  · intro h
    induction rounds generalizing c with
    | nil =>
      cases hp : pred c with
      | true =>
        rw [loopUntil_ready hp] at h
        cases h
        exact ⟨[], rfl, .nil, hp⟩
      | false => rw [loopUntil_waiting hp] at h; cases h
    | cons round rounds ih =>
      cases hp : pred c with
      | true =>
        rw [loopUntil_ready hp] at h
        cases h
        exact ⟨[], rfl, .nil, hp⟩
      | false =>
        rw [loopUntil_round hp] at h
        split at h
        · cases h
        · cases h
        · next c₁ hb =>
          obtain ⟨pre, rfl, hturns, hp'⟩ := ih h
          exact ⟨round :: pre, rfl, .cons hp hb hturns, hp'⟩
  · rintro ⟨pre, rfl, hturns, hp'⟩
    rw [loopUntil_turns hturns, loopUntil_ready hp']

/-- **A condition that is too strong.** Where `strong` implies `pred`, the
loop for `strong` does what the loop for `pred` does, and then goes on. -/
theorem loopUntil_weaker {strong : σ → Bool} (himp : ∀ c, strong c = true → pred c = true) (rounds : List ρ)
    (c : σ) :
    loopUntil strong body rounds c =
      match loopUntil pred body rounds c with
      | some (.ok (), c', rest) => loopUntil strong body rest c'
      | r => r := by
  induction rounds generalizing c with
  | nil =>
    cases hp : pred c with
    | true => rw [loopUntil_ready hp]
    | false =>
      have hs : strong c = false := Bool.eq_false_iff.2 fun hs => by simp [himp c hs] at hp
      rw [loopUntil_waiting hp, loopUntil_waiting hs]
  | cons round rounds ih =>
    cases hp : pred c with
    | true => rw [loopUntil_ready hp]
    | false =>
      have hs : strong c = false := Bool.eq_false_iff.2 fun hs => by simp [himp c hs] at hp
      rw [loopUntil_round hp, loopUntil_round hs]
      cases hb : body round c with
      | none => rfl
      | some res =>
        obtain ⟨r, c₁⟩ := res
        cases r with
        | error e => rfl
        | ok u => exact ih c₁

/-- **A loop that never comes back**: the condition fails, and every round of
the script keeps it so. -/
theorem loopUntil_never {I : σ → Prop} (hwait : ∀ c, I c → pred c = false) {rounds : List ρ} {c : σ} (h : I c)
    (hkeep : ∀ round ∈ rounds, ∀ c c', I c → body round c = some (.ok (), c') → I c') {r : Except ε Unit}
    {c' : σ} {rest : List ρ} (hr : loopUntil pred body rounds c = some (r, c', rest)) : ∃ e, r = .error e := by
  induction rounds generalizing c with
  | nil => rw [loopUntil_waiting (hwait c h)] at hr; cases hr
  | cons round rounds ih =>
    rw [loopUntil_round (hwait c h)] at hr
    split at hr
    · cases hr
    · next e c₁ hb => cases hr; exact ⟨e, rfl⟩
    · next c₁ hb =>
      exact ih (hkeep round List.mem_cons_self c c₁ h hb)
        (fun round' hm => hkeep round' (List.mem_cons_of_mem _ hm)) hr

end Loops
