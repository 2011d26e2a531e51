/-
Two runs of one machine on the same events.

`observe` is what a run shows: for each event its reply, if the machine
took it, and a view of the state after it. Two runs from related states
show the same as long as every event keeps them related;
`observe_eq_iff` is the exact condition, for events of which each either
keeps the runs together or tells them apart at once.
-/
import Mathlib.Data.List.Basic

namespace Lockstep

variable {σ ε ρ ω : Type}

/-- What one event shows, and the state after it. An event the machine does
not take changes nothing. -/
def turn (step : σ → ε → Option (ρ × σ)) (view : σ → ω) (e : ε) (c : σ) : (Option ρ × ω) × σ :=
  match step c e with
  | some (r, c') => ((some r, view c'), c')
  | none => ((none, view c), c)

/-- What a run shows. -/
def observe (step : σ → ε → Option (ρ × σ)) (view : σ → ω) : List ε → σ → List (Option ρ × ω)
  | [], _ => []
  | e :: es, c => (turn step view e c).1 :: observe step view es (turn step view e c).2

variable {step : σ → ε → Option (ρ × σ)} {view : σ → ω}

theorem turn_some {e : ε} {c c' : σ} {r : ρ} (h : step c e = some (r, c')) :
    turn step view e c = ((some r, view c'), c') := by simp only [turn, h]

theorem turn_none {e : ε} {c : σ} (h : step c e = none) : turn step view e c = ((none, view c), c) := by
  simp only [turn, h]

/-- **Telling two runs apart.** `together` events show the same on related
states and keep them related, the others show something different. Then two
runs from related states show the same exactly if all events are of the
first kind. -/
theorem observe_eq_iff {R : σ → σ → Prop} {together : ε → Prop} {es : List ε}
    (hkeep : ∀ e ∈ es, ∀ c d, R c d → together e →
      (turn step view e c).1 = (turn step view e d).1 ∧ R (turn step view e c).2 (turn step view e d).2)
    (hapart : ∀ e ∈ es, ∀ c d, R c d → ¬ together e → (turn step view e c).1 ≠ (turn step view e d).1)
    {c d : σ} (h : R c d) : observe step view es c = observe step view es d ↔ ∀ e ∈ es, together e := by
  induction es generalizing c d with
  | nil => simp [observe]
  | cons e es ih =>
    have hrest : ∀ {c d : σ}, R c d →
        (observe step view es c = observe step view es d ↔ ∀ e ∈ es, together e) :=
      ih (fun e hm => hkeep e (List.mem_cons_of_mem _ hm)) fun e hm => hapart e (List.mem_cons_of_mem _ hm)
    rw [observe, observe, List.cons.injEq, List.forall_mem_cons]
    by_cases htog : together e
    · obtain ⟨hshow, hR⟩ := hkeep e List.mem_cons_self c d h htog
      simp only [hshow, true_and, htog, hrest hR]
    · have hdiff := hapart e List.mem_cons_self c d h htog
      simp only [hdiff, false_and, htog]

end Lockstep
