/-
Runs of a deterministic machine whose environment keeps a contract.

The machine answers an event with a reply and a next state, or does not
take it at all (`none`). A contract says which event the environment may
send next; it sees the trace so far (every event with its reply) as well
as the state, since what an environment promises is often about history:
"in order", "never twice", "only what was handed over".

`Steps.invariant` is the induction over a whole run, `Steps.everywhere_iff`
the exact condition under which a property holds all along a run: when one
step keeps it exactly if the event meets `L`, a run keeps it everywhere
exactly if all its events meet `L`.
-/
import Mathlib.Data.List.Infix

namespace Runs

/-- What has happened: each event with the reply it got. -/
abbrev Trace (ε ρ : Type) := List (ε × ρ)

/-- What the environment promises about its next event. -/
abbrev Contract (σ ε ρ : Type) := Trace ε ρ → σ → ε → Prop

variable {σ ε ρ : Type}

/-- No promise at all. -/
def Contract.any : Contract σ ε ρ := fun _ _ _ => True

instance : ∀ tr c e, Decidable ((Contract.any : Contract σ ε ρ) tr c e) := fun _ _ _ =>
  inferInstanceAs (Decidable True)

/-- Both contracts. -/
def Contract.and (K L : Contract σ ε ρ) : Contract σ ε ρ := fun tr c e => K tr c e ∧ L tr c e

instance {K L : Contract σ ε ρ} [∀ tr c e, Decidable (K tr c e)] [∀ tr c e, Decidable (L tr c e)] :
    ∀ tr c e, Decidable (K.and L tr c e) := fun tr c e => inferInstanceAs (Decidable (K tr c e ∧ L tr c e))

variable {step : σ → ε → Option (ρ × σ)} {K L : Contract σ ε ρ}

/-- Zero or more steps under `K`, from a trace and a state to a longer
trace and a later state. -/
inductive Steps (step : σ → ε → Option (ρ × σ)) (K : Contract σ ε ρ) (tr : Trace ε ρ) (c : σ) :
    Trace ε ρ → σ → Prop
  | refl : Steps step K tr c tr c
  | tail {tr' c' e r c''} : Steps step K tr c tr' c' → K tr' c' e → step c' e = some (r, c'') →
      Steps step K tr c (tr' ++ [(e, r)]) c''

theorem Steps.one {tr c e r c'} (hK : K tr c e) (h : step c e = some (r, c')) :
    Steps step K tr c (tr ++ [(e, r)]) c' := .tail .refl hK h

theorem Steps.trans {tr c tr' c' tr'' c''} (h₁ : Steps step K tr c tr' c') (h₂ : Steps step K tr' c' tr'' c'') :
    Steps step K tr c tr'' c'' := by
  induction h₂ with
  | refl => exact h₁
  | tail _ hK hs ih => exact .tail ih hK hs

theorem Steps.mono {tr c tr' c'} (hKL : ∀ tr c e, K tr c e → L tr c e) (h : Steps step K tr c tr' c') :
    Steps step L tr c tr' c' := by
  induction h with
  | refl => exact .refl
  | tail _ hK hs ih => exact .tail ih (hKL _ _ _ hK) hs

/-- **The run rule.** What one step keeps, a run keeps. -/
theorem Steps.invariant {I : Trace ε ρ → σ → Prop} {tr c tr' c'} (h : Steps step K tr c tr' c') (h₀ : I tr c)
    (hstep : ∀ tr c e r c', I tr c → K tr c e → step c e = some (r, c') → I (tr ++ [(e, r)]) c') :
    I tr' c' := by
  induction h with
  | refl => exact h₀
  | tail _ hK hs ih => exact hstep _ _ _ _ _ ih hK hs

/-- What each step of a run turns out to meet as well may be added to the
contract. -/
theorem Steps.strengthen {tr c tr' c'} (h : Steps step K tr c tr' c')
    (hL : ∀ tr' c' e, Steps step (K.and L) tr c tr' c' → K tr' c' e → L tr' c' e) :
    Steps step (K.and L) tr c tr' c' := by
  induction h with
  | refl => exact .refl
  | tail _ hK hs ih => exact .tail ih ⟨hK, hL _ _ _ ih hK⟩ hs

theorem Steps.grows {tr c tr' c'} (h : Steps step K tr c tr' c') : tr <+: tr' := by
  induction h with
  | refl => exact List.prefix_rfl
  | tail _ _ _ ih => exact ih.trans (List.prefix_append _ _)

/-- A step leads to a longer trace, so no run ends where it started. -/
theorem Steps.not_shorter {tr c tr' c' x} (h : Steps step K tr c tr' c') : tr ≠ tr' ++ [x] := by
  intro he
  have := h.grows.length_le
  rw [he, List.length_append, List.length_singleton] at this
  omega

/-- The last step of a run that has one. -/
theorem Steps.last {tr c tr' e r c''} (h : Steps step K tr c (tr' ++ [(e, r)]) c'')
    (hne : tr ≠ tr' ++ [(e, r)]) :
    ∃ c', Steps step K tr c tr' c' ∧ K tr' c' e ∧ step c' e = some (r, c'') := by
  generalize ht : tr' ++ [(e, r)] = t at h
  cases h with
  | refl => exact absurd ht.symm hne
  | tail hs hK hst =>
    obtain ⟨rfl, he⟩ := List.append_inj' ht rfl
    simp only [List.cons.injEq, Prod.mk.injEq, and_true] at he
    obtain ⟨rfl, rfl⟩ := he
    exact ⟨_, hs, hK, hst⟩

/-- The trace determines the state. -/
theorem Steps.det {tr c tr' c₁ c₂} (h₁ : Steps step K tr c tr' c₁) (h₂ : Steps step L tr c tr' c₂) :
    c₁ = c₂ := by
  induction h₁ generalizing c₂ with
  | refl =>
    cases h₂ with
    | refl => rfl
    | tail h _ _ => exact absurd rfl h.not_shorter
  | tail h _ hs ih =>
    obtain ⟨c', h', -, hs'⟩ := h₂.last h.not_shorter
    obtain rfl := ih h'
    rw [hs] at hs'
    cases hs'
    rfl

/-- The first step of a run that has one. -/
theorem Steps.first {tr c e r rest c'} (h : Steps step K tr c (tr ++ (e, r) :: rest) c') :
    K tr c e ∧ ∃ c₁, step c e = some (r, c₁) ∧
      Steps step K (tr ++ [(e, r)]) c₁ (tr ++ (e, r) :: rest) c' := by
  induction rest using List.reverseRecOn generalizing c' with
  | nil =>
    obtain ⟨c₁, h₁, hK, hs⟩ := h.last (by simp)
    obtain rfl := h₁.det (.refl : Steps step K tr c tr c)
    exact ⟨hK, c', hs, .refl⟩
  | append_singleton rest x ih =>
    have happ : tr ++ (e, r) :: (rest ++ [x]) = tr ++ (e, r) :: rest ++ [x] := by simp
    rw [happ] at h ⊢
    obtain ⟨c₂, h₂, hK₂, hs₂⟩ := h.last (by simp)
    obtain ⟨hK, c₁, hs, hrest⟩ := ih h₂
    exact ⟨hK, c₁, hs, .tail hrest hK₂ hs₂⟩

/-- **The exact condition along a run.** If each step from a state with `P`
keeps `P` exactly when its event meets `L`, then a run under `K` has `P` in
every state it passes exactly when all its events meet `L`. -/
theorem Steps.everywhere_iff {P : Trace ε ρ → σ → Prop} {tr₀ c₀ tr c} (h : Steps step K tr₀ c₀ tr c)
    (h₀ : P tr₀ c₀)
    (hstep : ∀ tr c e r c', Steps step K tr₀ c₀ tr c → P tr c → K tr c e → step c e = some (r, c') →
      (P (tr ++ [(e, r)]) c' ↔ L tr c e)) :
    (∀ tr₁ c₁, tr₁ <+: tr → Steps step K tr₀ c₀ tr₁ c₁ → P tr₁ c₁) ↔ Steps step (K.and L) tr₀ c₀ tr c := by
  induction h with
  | refl =>
    refine ⟨fun _ => .refl, fun _ tr₁ c₁ hp hs => ?_⟩
    obtain rfl := hp.eq_of_length_le hs.grows.length_le
    obtain rfl := hs.det (.refl : Steps step K tr₁ c₀ tr₁ c₀)
    exact h₀
  | @tail tr' c' e r c'' h hK hs ih =>
    constructor
    · intro hall
      have hrun := ih.1 fun tr₁ c₁ hp => hall tr₁ c₁ (hp.trans (List.prefix_append _ _))
      have hP := hall tr' c' (List.prefix_append _ _) h
      have hP' := hall _ c'' List.prefix_rfl (.tail h hK hs)
      exact .tail hrun ⟨hK, (hstep _ _ _ _ _ h hP hK hs).1 hP'⟩ hs
    · intro hrun tr₁ c₁ hp hs₁
      obtain ⟨c₂, hrun', hKL, -⟩ := hrun.last h.not_shorter
      obtain rfl := h.det hrun'
      have hall := ih.2 hrun'
      rcases List.prefix_concat_iff.1 hp with rfl | hp
      · obtain rfl := hs₁.det (.tail h hK hs)
        exact (hstep _ _ _ _ _ h (hall _ _ List.prefix_rfl h) hK hs).2 hKL.2
      · exact hall _ _ hp hs₁

/-! ## Computed runs -/

/-- Run the events, checking the contract at each. -/
def exec (step : σ → ε → Option (ρ × σ)) (K : Contract σ ε ρ) [∀ tr c e, Decidable (K tr c e)] :
    List ε → Trace ε ρ → σ → Option (Trace ε ρ × σ)
  | [], tr, c => some (tr, c)
  | e :: es, tr, c =>
    if K tr c e then
      match step c e with
      | some (r, c') => exec step K es (tr ++ [(e, r)]) c'
      | none => none
    else none

theorem Steps.of_exec [∀ tr c e, Decidable (K tr c e)] {es tr c tr' c'}
    (h : exec step K es tr c = some (tr', c')) : Steps step K tr c tr' c' := by
  induction es generalizing tr c with
  | nil =>
    simp only [exec, Option.some.injEq, Prod.mk.injEq] at h
    obtain ⟨rfl, rfl⟩ := h
    exact .refl
  | cons e es ih =>
    simp only [exec] at h
    split at h
    · next hK =>
      split at h
      · next r c₁ hs => exact (Steps.one hK hs).trans (ih h)
      · cases h
    · cases h

/-- Where the events lead, if the machine takes them all under the contract. -/
def run (step : σ → ε → Option (ρ × σ)) (K : Contract σ ε ρ) [∀ tr c e, Decidable (K tr c e)]
    (es : List ε) (tr : Trace ε ρ) (c : σ) : Trace ε ρ × σ := (exec step K es tr c).getD (tr, c)

theorem Steps.of_run [∀ tr c e, Decidable (K tr c e)] {es tr c} (h : (exec step K es tr c).isSome = true) :
    Steps step K tr c (run step K es tr c).1 (run step K es tr c).2 := by
  obtain ⟨⟨tr', c'⟩, he⟩ := Option.isSome_iff_exists.1 h
  have hr : run step K es tr c = (tr', c') := by simp only [run, he, Option.getD_some]
  rw [hr]
  exact .of_exec he

end Runs
