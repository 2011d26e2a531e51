/-
Forward simulation. A machine is simulated by an abstract one, given as a
relation, when each of its steps is matched by one action there or by none
at all. Which action that is may depend on the state the step starts from,
so the actions of a trace are read off by replaying it (`actions`).

`Steps.simulated` is the rule: match one step, and a whole run is matched
by a run with the actions of its trace.
-/
import QuicRuby.Lib.Run

namespace Runs

variable {σ ε ρ α β : Type}

/-- A run of an abstract machine, with its actions. -/
inductive Acts (astep : α → β → α → Prop) (a : α) : List β → α → Prop
  | refl : Acts astep a [] a
  | tail {xs a' x a''} : Acts astep a xs a' → astep a' x a'' → Acts astep a (xs ++ [x]) a''

/-- At most one action: none leaves the state as it is. -/
inductive Matches (astep : α → β → α → Prop) (a : α) : Option β → α → Prop
  | stutter : Matches astep a none a
  | act {x a'} : astep a x a' → Matches astep a (some x) a'

section
variable {astep : α → β → α → Prop} {a a' : α} {xs : List β}

/-- What one action keeps, a run keeps; it may speak of the actions so far. -/
theorem Acts.invariant {I : List β → α → Prop} (h : Acts astep a xs a') (h₀ : I [] a)
    (hstep : ∀ xs a x a', I xs a → astep a x a' → I (xs ++ [x]) a') : I xs a' := by
  induction h with
  | refl => exact h₀
  | tail _ hs ih => exact hstep _ _ _ _ ih hs

theorem Acts.snoc {x : Option β} {a'' : α} (h : Acts astep a xs a') (hm : Matches astep a' x a'') :
    Acts astep a (xs ++ x.toList) a'' := by
  cases hm with
  | stutter => simpa using h
  | act hs => exact .tail h hs

/-- A run of two parts. -/
theorem Acts.split {ys : List β} (h : Acts astep a (xs ++ ys) a') :
    ∃ b, Acts astep a xs b ∧ Acts astep b ys a' := by
  generalize hzs : xs ++ ys = zs at h
  induction h generalizing ys with
  | refl =>
    obtain ⟨rfl, rfl⟩ := List.append_eq_nil_iff.1 hzs
    exact ⟨a, .refl, .refl⟩
  | @tail zs b x c h hs ih =>
    rcases List.eq_nil_or_concat ys with rfl | ⟨ys', y, rfl⟩
    · rw [List.append_nil] at hzs
      subst hzs
      exact ⟨c, .tail h hs, .refl⟩
    · rw [List.concat_eq_append, ← List.append_assoc] at hzs
      obtain ⟨rfl, hy⟩ := List.append_inj' hzs rfl
      obtain rfl := List.singleton_inj.1 hy
      obtain ⟨d, h₁, h₂⟩ := ih rfl
      rw [List.concat_eq_append]
      exact ⟨d, h₁, .tail h₂ hs⟩

end

/-- The actions of a trace, replayed from the state it starts in. -/
def actions (step : σ → ε → Option (ρ × σ)) (act : σ → ε → ρ → Option β) : σ → Trace ε ρ → List β
  | _, [] => []
  | c, (e, r) :: tr =>
    (act c e r).toList ++
      match step c e with
      | some (_, c') => actions step act c' tr
      | none => []

variable {step : σ → ε → Option (ρ × σ)} {K : Contract σ ε ρ} {act : σ → ε → ρ → Option β}

theorem Steps.actions_append {c c' : σ} {tr : Trace ε ρ} (h : Steps step K [] c tr c') (tr' : Trace ε ρ) :
    actions step act c (tr ++ tr') = actions step act c tr ++ actions step act c' tr' := by
  induction h generalizing tr' with
  | refl => rfl
  | tail _ _ hs ih =>
    rw [List.append_assoc, ih, ih, List.append_assoc]
    simp [actions, hs]

theorem Steps.actions_snoc {c c' c'' : σ} {tr : Trace ε ρ} {e : ε} {r : ρ} (h : Steps step K [] c tr c')
    (hs : step c' e = some (r, c'')) :
    actions step act c (tr ++ [(e, r)]) = actions step act c tr ++ (act c' e r).toList := by
  rw [h.actions_append]
  simp [actions, hs]

/-- **Simulation.** If each step is matched from related states, a run is
matched by a run with the actions of its trace. A step may be matched with
what is known of the whole trace it is part of. -/
theorem Steps.simulated {astep : α → β → α → Prop} {R : Trace ε ρ → σ → α → Prop} {c c' : σ} {tr : Trace ε ρ}
    {a : α} (h : Steps step K [] c tr c') (h₀ : R [] c a)
    (hstep : ∀ tr₁ c₁ e r c₂ a₁, tr₁ ++ [(e, r)] <+: tr → Steps step K [] c tr₁ c₁ → R tr₁ c₁ a₁ → K tr₁ c₁ e →
      step c₁ e = some (r, c₂) → ∃ a₂, Matches astep a₁ (act c₁ e r) a₂ ∧ R (tr₁ ++ [(e, r)]) c₂ a₂) :
    ∃ a', Acts astep a (actions step act c tr) a' ∧ R tr c' a' := by
  induction h with
  | refl => exact ⟨a, .refl, h₀⟩
  | tail h hK hs ih =>
    obtain ⟨a₁, hacts, hR⟩ := ih fun _ _ _ _ _ _ hp => hstep _ _ _ _ _ _ (hp.trans (List.prefix_append _ _))
    obtain ⟨a₂, hmatch, hR'⟩ := hstep _ _ _ _ _ _ List.prefix_rfl h hR hK hs
    rw [h.actions_snoc hs]
    exact ⟨a₂, hacts.snoc hmatch, hR'⟩

end Runs
