/-
Machines in layers. A step of an outer machine is a whole run of an inner
one, on the same state: `inner` says which. A trace of the outer machine,
replayed from the state it starts in, unfolds into one of the inner.

`Steps.unfolded` says that it is a run, and `Steps.flatMap_unfolded` that what
is read off each step may be read off the unfolded trace. `keeps` checks a
trace that is known to be a run against a contract.
-/
import QuicRuby.Lib.Run

namespace Runs

variable {σ ε ρ ε' ρ' α : Type}

/-- The inner trace of a trace. -/
def unfolded (step : σ → ε → Option (ρ × σ)) (inner : σ → ε → Trace ε' ρ') : σ → Trace ε ρ → Trace ε' ρ'
  | _, [] => []
  | c, (e, _) :: tr =>
    inner c e ++
      match step c e with
      | some (_, c') => unfolded step inner c' tr
      | none => []

/-- Each step of the outer machine is a run of the inner one. -/
def Layers (step : σ → ε → Option (ρ × σ)) (inner : σ → ε → Trace ε' ρ') (step' : σ → ε' → Option (ρ' × σ)) : Prop :=
  ∀ c e r c', step c e = some (r, c') → ∀ tr, Steps step' .any tr c (tr ++ inner c e) c'

section
variable {step : σ → ε → Option (ρ × σ)} {inner : σ → ε → Trace ε' ρ'} {step' : σ → ε' → Option (ρ' × σ)}
  {K : Contract σ ε ρ} {c c' : σ} {tr : Trace ε ρ}

theorem Steps.unfolded_append (h : Steps step K [] c tr c') (tr' : Trace ε ρ) :
    unfolded step inner c (tr ++ tr') = unfolded step inner c tr ++ unfolded step inner c' tr' := by
  induction h generalizing tr' with
  | refl => rfl
  | tail _ _ hs ih =>
    rw [List.append_assoc, ih, ih, List.append_assoc]
    simp [Runs.unfolded, hs]

theorem Steps.unfolded_snoc {e : ε} {r : ρ} {c'' : σ} (h : Steps step K [] c tr c') (hs : step c' e = some (r, c'')) :
    unfolded step inner c (tr ++ [(e, r)]) = unfolded step inner c tr ++ inner c' e := by
  rw [h.unfolded_append]
  simp [Runs.unfolded, hs]

/-- **A run unfolds into a run**, of a machine on what `f` shows of the state,
if each step does. `I` holds of the states on the way. -/
theorem Steps.unfolded_view {σ' : Type} {f : σ → σ'} {I : σ → Prop} {istep : σ' → ε' → Option (ρ' × σ')}
    (h : Steps step K [] c tr c') (h₀ : I c)
    (hl : ∀ c e r c', I c → step c e = some (r, c') →
      I c' ∧ ∀ tr, Steps istep .any tr (f c) (tr ++ inner c e) (f c')) :
    I c' ∧ Steps istep .any [] (f c) (Runs.unfolded step inner c tr) (f c') := by
  induction h with
  | refl => exact ⟨h₀, .refl⟩
  | tail h _ hs ih =>
    obtain ⟨hI, hrun⟩ := ih
    obtain ⟨hI', hstep⟩ := hl _ _ _ _ hI hs
    rw [h.unfolded_snoc hs]
    exact ⟨hI', hrun.trans (hstep _)⟩

theorem Steps.unfolded (h : Steps step K [] c tr c') (hl : Layers step inner step') :
    Steps step' .any [] c (unfolded step inner c tr) c' :=
  (h.unfolded_view (f := id) (I := fun _ => True) trivial fun c e r c' _ hs => ⟨trivial, hl c e r c' hs⟩).2

/-- What each step shows, the unfolded trace shows. -/
theorem Steps.flatMap_unfolded {f : ε × ρ → List α} {g : ε' × ρ' → List α} (h : Steps step K [] c tr c')
    (hview : ∀ c e r c', step c e = some (r, c') → (inner c e).flatMap g = f (e, r)) :
    (Runs.unfolded step inner c tr).flatMap g = tr.flatMap f := by
  induction h with
  | refl => rfl
  | tail h _ hs ih => rw [h.unfolded_snoc hs, List.flatMap_append, List.flatMap_append, ih, hview _ _ _ _ hs,
      List.flatMap_singleton]

end

/-- A run up to some point, and the rest of it. -/
theorem Steps.split {step : σ → ε → Option (ρ × σ)} {K : Contract σ ε ρ} {c c' : σ} {tr₀ tr₁ tr : Trace ε ρ}
    (h : Steps step K tr₀ c tr c') (h₀ : tr₀ <+: tr₁) (h₁ : tr₁ <+: tr) :
    ∃ c₁, Steps step K tr₀ c tr₁ c₁ ∧ Steps step K tr₁ c₁ tr c' := by
  induction h with
  | refl =>
    obtain rfl := h₁.eq_of_length_le h₀.length_le
    exact ⟨c, .refl, .refl⟩
  | tail h hK hs ih =>
    rcases List.prefix_concat_iff.1 h₁ with rfl | hp
    · exact ⟨_, .tail h hK hs, .refl⟩
    · obtain ⟨c₁, h₂, h₃⟩ := ih hp
      exact ⟨c₁, h₂, .tail h₃ hK hs⟩

/-- The events of a trace meet the contract where they happen. -/
def keeps (step : σ → ε → Option (ρ × σ)) (K : Contract σ ε ρ) [∀ tr c e, Decidable (K tr c e)] :
    Trace ε ρ → σ → Trace ε ρ → Bool
  | _, _, [] => true
  | tr, c, (e, r) :: rest =>
    decide (K tr c e) &&
      match step c e with
      | some (_, c') => keeps step K (tr ++ [(e, r)]) c' rest
      | none => false

theorem Steps.of_keeps_append {step : σ → ε → Option (ρ × σ)} {K L : Contract σ ε ρ} [∀ tr c e, Decidable (K tr c e)]
    {c c' : σ} {tr rest : Trace ε ρ} (h : Steps step L tr c (tr ++ rest) c') (hk : keeps step K tr c rest = true) :
    Steps step K tr c (tr ++ rest) c' := by
  induction rest generalizing tr c with
  | nil =>
    rw [List.append_nil] at h ⊢
    obtain rfl := h.det (.refl : Steps step L tr c tr c)
    exact .refl
  | cons x rest ih =>
    obtain ⟨e, r⟩ := x
    obtain ⟨-, c₁, hs, hrest⟩ := h.first
    simp only [keeps, hs, Bool.and_eq_true, decide_eq_true_eq] at hk
    have happ : tr ++ (e, r) :: rest = tr ++ [(e, r)] ++ rest := by simp
    rw [happ] at hrest ⊢
    exact (Steps.one hk.1 hs).trans (ih hrest hk.2)

theorem Steps.of_keeps {step : σ → ε → Option (ρ × σ)} {K L : Contract σ ε ρ} [∀ tr c e, Decidable (K tr c e)]
    {c c' : σ} {tr : Trace ε ρ} (h : Steps step L [] c tr c') (hk : keeps step K [] c tr = true) :
    Steps step K [] c tr c' := by
  rw [← List.nil_append tr] at h ⊢
  exact h.of_keeps_append hk

end Runs
