/-
Events under keys. A machine takes events one after the other, each under a
key, and its state shows something for each key that only the events under
that key change, by what is shown alone. Then what is shown for a key after
any events is what the key's own events make of it (`foldl_view`), so the
order of events under different keys does not matter (`foldl_interleave`).
-/
import Mathlib.Data.List.Basic

namespace Keyed

variable {σ ε κ ω : Type} [DecidableEq κ]

/-- The events under a key, in order. -/
def under (key : ε → κ) (k : κ) (es : List ε) : List ε := es.filter (key · = k)

theorem under_cons (key : ε → κ) (k : κ) (e : ε) (es : List ε) :
    under key k (e :: es) = if key e = k then e :: under key k es else under key k es := by
  by_cases hk : key e = k <;> simp [under, hk]

section
variable {act : σ → ε → σ} {key : ε → κ} {view : σ → κ → ω} {f : ω → ε → ω}
  /- `P c es`: the events may come in this order from `c`. -/
  {P : σ → List ε → Prop}
  (hok : ∀ c e es, P c (e :: es) → P (act c e) es)
  (hact : ∀ c e es, P c (e :: es) → ∀ k, view (act c e) k = if key e = k then f (view c k) e else view c k)
include hok hact

theorem foldl_view {c : σ} {es : List ε} (h : P c es) (k : κ) :
    view (es.foldl act c) k = (under key k es).foldl f (view c k) := by
  induction es generalizing c with
  | nil => rfl
  | cons e es ih =>
    rw [List.foldl_cons, ih (hok c e es h), hact c e es h k, under_cons]
    split <;> rfl

/-- **Interleaving.** Two orders that agree under each key show the same. -/
theorem foldl_interleave {c : σ} {es es' : List ε} (h : P c es) (h' : P c es')
    (hsame : ∀ k, under key k es = under key k es') (k : κ) :
    view (es.foldl act c) k = view (es'.foldl act c) k := by
  rw [foldl_view hok hact h, foldl_view hok hact h', hsame]

end

end Keyed
