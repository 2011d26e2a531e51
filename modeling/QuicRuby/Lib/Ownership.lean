/-
Cells that belong to someone. A heap is a list of cells, named by position,
and an allocation puts a new one at its end. Some cells belong to owners, each
to one, and have a property `P`; others are out in the world, which may read
and write them but none of the owners'.

An operation of one owner is an `Effect`: it may allocate, write the owner's
cells, take new ones and let go of some. `Separate.effect` says that the
separation survives it, and that nobody else's cells change.
-/
import Mathlib.Data.List.Nodup
import Mathlib.Data.List.Basic

namespace Ownership

variable {α : Type}

/-- What the cells hold. -/
def All (P : α → Prop) (h : List α) (vs : List Nat) : Prop := ∀ v ∈ vs, ∃ a, h[v]? = some a ∧ P a

/-- From the heap `h`, where the owner has `mine`, to `h'`, where it has
`mine'`. -/
structure Effect (P : α → Prop) (h : List α) (mine : List Nat) (h' : List α) (mine' : List Nat) : Prop where
  grows : h.length ≤ h'.length
  frame : ∀ v < h.length, v ∉ mine → h'[v]? = h[v]?
  nodup : mine'.Nodup
  fresh : ∀ v ∈ mine', v ∈ mine ∨ h.length ≤ v
  good : All P h' mine'

variable {P : α → Prop} {h h' h'' : List α} {mine mine' mine'' : List Nat}

theorem All.lt (hall : All P h mine) {v : Nat} (hv : v ∈ mine) : v < h.length := by
  obtain ⟨a, ha, -⟩ := hall v hv
  exact (List.getElem?_eq_some_iff.1 ha).1

theorem All.mono (hall : All P h mine) (hsub : ∀ v ∈ mine', v ∈ mine) : All P h mine' :=
  fun v hv => hall v (hsub v hv)

theorem All.append (hall : All P h mine) (a : α) : All P (h ++ [a]) mine := fun v hv => by
  obtain ⟨b, hb, hP⟩ := hall v hv
  exact ⟨b, by rw [List.getElem?_append_left (hall.lt hv), hb], hP⟩

/-- The cells others have are left alone. -/
theorem All.frame (hall : All P h mine) (hsame : ∀ v ∈ mine, h'[v]? = h[v]?) : All P h' mine := fun v hv => by
  obtain ⟨a, ha, hP⟩ := hall v hv
  exact ⟨a, by rw [hsame v hv, ha], hP⟩

namespace Effect

theorem refl (hn : mine.Nodup) (hall : All P h mine) : Effect P h mine h mine where
  grows := Nat.le_refl _
  frame _ _ _ := rfl
  nodup := hn
  fresh _ hv := .inl hv
  good := hall

/-- The owner lets go of some of its cells. -/
theorem drop (hn : mine.Nodup) (hall : All P h mine) (hsub : mine'.Sublist mine) : Effect P h mine h mine' where
  grows := Nat.le_refl _
  frame _ _ _ := rfl
  nodup := hn.sublist hsub
  fresh _ hv := .inl (hsub.subset hv)
  good := hall.mono fun _ hv => hsub.subset hv

/-- A new cell that it does not keep. -/
theorem alloc (hn : mine.Nodup) (hall : All P h mine) (a : α) : Effect P h mine (h ++ [a]) mine where
  grows := by simp
  frame v hv _ := List.getElem?_append_left hv
  nodup := hn
  fresh _ hv := .inl hv
  good := hall.append a

/-- A new cell that it takes. -/
theorem take (hn : mine.Nodup) (hall : All P h mine) {a : α} (ha : P a) :
    Effect P h mine (h ++ [a]) (mine ++ [h.length]) where
  grows := by simp
  frame v hv _ := List.getElem?_append_left hv
  nodup := by
    rw [List.nodup_append]
    refine ⟨hn, List.nodup_singleton _, fun v hv w hw heq => ?_⟩
    rw [List.mem_singleton.1 hw] at heq
    have := hall.lt hv
    omega
  fresh v hv := by
    rcases List.mem_append.1 hv with hv | hv
    · exact .inl hv
    · exact .inr (Nat.le_of_eq (List.mem_singleton.1 hv).symm)
  good v hv := by
    rcases List.mem_append.1 hv with hv | hv
    · exact hall.append a v hv
    · rw [List.mem_singleton.1 hv]
      exact ⟨a, by simp, ha⟩

/-- It writes one of its cells. -/
theorem write (hn : mine.Nodup) (hall : All P h mine) {v : Nat} (hv : v ∈ mine) {f : α → α}
    (hf : ∀ a, P a → P (f a)) : Effect P h mine (h.modify v f) mine where
  grows := by simp
  frame w _ hw := by
    exact List.getElem?_modify_ne _ _ (by rintro rfl; exact hw hv)
  nodup := hn
  fresh _ hw := .inl hw
  good w hw := by
    obtain ⟨a, ha, hP⟩ := hall w hw
    by_cases heq : v = w
    · subst heq
      exact ⟨f a, by rw [List.getElem?_modify_eq, ha]; rfl, hf a hP⟩
    · exact ⟨a, by rw [List.getElem?_modify_ne _ _ heq, ha], hP⟩

theorem trans (h₁ : Effect P h mine h' mine') (h₂ : Effect P h' mine' h'' mine'') : Effect P h mine h'' mine'' where
  grows := Nat.le_trans h₁.grows h₂.grows
  frame v hv hm := by
    have hm' : v ∉ mine' := by
      intro hv'
      rcases h₁.fresh v hv' with hold | hnew
      · exact hm hold
      · omega
    rw [h₂.frame v (Nat.lt_of_lt_of_le hv h₁.grows) hm', h₁.frame v hv hm]
  nodup := h₂.nodup
  fresh v hv := by
    rcases h₂.fresh v hv with hv' | hge
    · exact h₁.fresh v hv'
    · exact .inr (Nat.le_trans h₁.grows hge)
  good := h₂.good

end Effect

/-! ## Several owners, and the world -/

/-- Each owner has its own cells, and the world has none of them. -/
structure Separate (P : α → Prop) (h : List α) (owners : List (List Nat)) (theirs : List Nat) : Prop where
  nodup : owners.flatten.Nodup
  apart : ∀ v ∈ owners.flatten, v ∉ theirs
  good : All P h owners.flatten
  there : ∀ v ∈ theirs, v < h.length

namespace Separate

variable {owners : List (List Nat)} {theirs : List Nat} {i : Nat}

theorem mem (hi : owners[i]? = some mine) {v : Nat} (hv : v ∈ mine) : v ∈ owners.flatten :=
  List.mem_flatten.2 ⟨mine, List.mem_of_getElem? hi, hv⟩

/-- The owners before, this one, and those after. -/
theorem split (hi : owners[i]? = some mine) :
    ∃ pre post, owners = pre ++ mine :: post ∧ ∀ mine', owners.set i mine' = pre ++ mine' :: post := by
  obtain ⟨hlt, rfl⟩ := List.getElem?_eq_some_iff.1 hi
  refine ⟨owners.take i, owners.drop (i + 1), ?_, fun mine' => ?_⟩
  · rw [List.getElem_cons_drop, List.take_append_drop]
  · rw [List.set_eq_take_append_cons_drop, if_pos hlt]

theorem own (hsep : Separate P h owners theirs) (hi : owners[i]? = some mine) : mine.Nodup ∧ All P h mine := by
  obtain ⟨pre, post, rfl, -⟩ := split hi
  refine ⟨?_, hsep.good.mono fun v hv => mem hi hv⟩
  have := hsep.nodup
  simp only [List.flatten_append, List.flatten_cons, List.nodup_append] at this
  exact this.2.1.1

/-- Two owners have no cell in common. -/
theorem disjoint (hsep : Separate P h owners theirs) {j : Nat} (hi : owners[i]? = some mine)
    (hj : owners[j]? = some mine') (hne : i ≠ j) {v : Nat} (hv : v ∈ mine) : v ∉ mine' := by
  intro hv'
  have hpw := (List.nodup_flatten.1 hsep.nodup).2
  obtain ⟨hli, rfl⟩ := List.getElem?_eq_some_iff.1 hi
  obtain ⟨hlj, rfl⟩ := List.getElem?_eq_some_iff.1 hj
  rcases Nat.lt_or_gt_of_ne hne with hlt | hlt
  · exact List.pairwise_iff_getElem.1 hpw i j hli hlj hlt hv hv'
  · exact List.pairwise_iff_getElem.1 hpw j i hlj hli hlt hv' hv

/-- What one owner does leaves everything else alone. -/
theorem effect (hsep : Separate P h owners theirs) (hi : owners[i]? = some mine) (he : Effect P h mine h' mine') :
    Separate P h' (owners.set i mine') theirs ∧ (∀ v ∈ theirs, h'[v]? = h[v]?) ∧
      ∀ j other, j ≠ i → owners[j]? = some other → ∀ v ∈ other, h'[v]? = h[v]? := by
  have htheirs : ∀ v ∈ theirs, h'[v]? = h[v]? := fun v hv =>
    he.frame v (hsep.there v hv) fun hm => hsep.apart v (mem hi hm) hv
  have hothers : ∀ j other, j ≠ i → owners[j]? = some other → ∀ v ∈ other, h'[v]? = h[v]? :=
    fun j other hj hother v hv =>
      he.frame v (hsep.good.lt (mem hother hv)) (hsep.disjoint hother hi hj hv)
  refine ⟨?_, htheirs, hothers⟩
  -- A cell of the owner is old or new, and one of the others is neither.
  have hnew : ∀ v ∈ mine', ∀ j other, j ≠ i → owners[j]? = some other → v ∉ other := by
    intro v hv j other hj hother hv'
    rcases he.fresh v hv with hold | hge
    · exact hsep.disjoint hi hother hj.symm hold hv'
    · have := hsep.good.lt (mem hother hv')
      omega
  have hcases : ∀ v ∈ (owners.set i mine').flatten,
      v ∈ mine' ∨ ∃ j other, j ≠ i ∧ owners[j]? = some other ∧ v ∈ other := by
    intro v hv
    obtain ⟨l, hl, hv⟩ := List.mem_flatten.1 hv
    obtain ⟨j, hj⟩ := List.mem_iff_getElem?.1 hl
    rw [List.getElem?_set] at hj
    split at hj
    · next heq =>
      split at hj <;> cases hj
      exact .inl hv
    · next hne => exact .inr ⟨j, l, fun heq => hne heq.symm, hj, hv⟩
  constructor
  · rw [List.nodup_flatten]
    have hold := List.nodup_flatten.1 hsep.nodup
    constructor
    · intro l hl
      rcases List.mem_or_eq_of_mem_set hl with hl | rfl
      · exact hold.1 l hl
      · exact he.nodup
    · rw [List.pairwise_iff_getElem]
      intro j k hj hk hjk
      simp only [List.length_set] at hj hk
      rw [List.getElem_set, List.getElem_set]
      have hdis := List.pairwise_iff_getElem.1 hold.2 j k hj hk hjk
      split
      · next heq =>
        rw [if_neg (by omega)]
        exact fun v hv hv' => hnew v hv k _ (by omega) (List.getElem?_eq_getElem hk) hv'
      · split
        · exact fun v hv hv' => hnew v hv' j _ (by omega) (List.getElem?_eq_getElem hj) hv
        · exact hdis
  · intro v hv hv'
    rcases hcases v hv with hm | ⟨j, other, hj, hother, hm⟩
    · rcases he.fresh v hm with hold | hge
      · exact hsep.apart v (mem hi hold) hv'
      · have := hsep.there v hv'
        omega
    · exact hsep.apart v (mem hother hm) hv'
  · intro v hv
    rcases hcases v hv with hm | ⟨j, other, hj, hother, hm⟩
    · exact he.good v hm
    · obtain ⟨a, ha, hP⟩ := hsep.good v (mem hother hm)
      exact ⟨a, by rw [hothers j other hj hother v hm, ha], hP⟩
  · exact fun v hv => Nat.lt_of_lt_of_le (hsep.there v hv) he.grows

/-- A new cell that is nobody's. -/
theorem alloc (hsep : Separate P h owners theirs) (a : α) : Separate P (h ++ [a]) owners theirs where
  nodup := hsep.nodup
  apart := hsep.apart
  good := hsep.good.append a
  there v hv := by
    have := hsep.there v hv
    simp
    omega

/-- A new owner with a new cell. -/
theorem push (hsep : Separate P h owners theirs) {a : α} (ha : P a) :
    Separate P (h ++ [a]) (owners ++ [[h.length]]) theirs where
  nodup := by
    rw [List.flatten_append, List.flatten_singleton, List.nodup_append]
    refine ⟨hsep.nodup, List.nodup_singleton _, fun v hv w hw heq => ?_⟩
    rw [List.mem_singleton.1 hw] at heq
    have := hsep.good.lt hv
    omega
  apart v hv hv' := by
    rw [List.flatten_append, List.flatten_singleton] at hv
    rcases List.mem_append.1 hv with hv | hv
    · exact hsep.apart v hv hv'
    · rw [List.mem_singleton.1 hv] at hv'
      exact absurd (hsep.there _ hv') (Nat.lt_irrefl _)
  good v hv := by
    rw [List.flatten_append, List.flatten_singleton] at hv
    rcases List.mem_append.1 hv with hv | hv
    · exact hsep.good.append a v hv
    · rw [List.mem_singleton.1 hv]
      exact ⟨a, by simp, ha⟩
  there v hv := by
    have := hsep.there v hv
    simp
    omega

/-- The world gets cells that are nobody's. -/
theorem give (hsep : Separate P h owners theirs) {vs : List Nat} (hvs : ∀ v ∈ vs, v < h.length ∧ v ∉ owners.flatten) :
    Separate P h owners (theirs ++ vs) where
  nodup := hsep.nodup
  apart v hv hv' := by
    rcases List.mem_append.1 hv' with hold | hnew
    · exact hsep.apart v hv hold
    · exact (hvs v hnew).2 hv
  good := hsep.good
  there v hv := by
    rcases List.mem_append.1 hv with hold | hnew
    · exact hsep.there v hold
    · exact (hvs v hnew).1

/-- A write to a cell that is no owner's. -/
theorem write (hsep : Separate P h owners theirs) {v : Nat} (hv : v ∉ owners.flatten) (f : α → α) :
    Separate P (h.modify v f) owners theirs ∧ ∀ w ∈ owners.flatten, (h.modify v f)[w]? = h[w]? := by
  have hsame : ∀ w ∈ owners.flatten, (h.modify v f)[w]? = h[w]? := fun w hw =>
    List.getElem?_modify_ne _ _ (by rintro rfl; exact hv hw)
  exact ⟨⟨hsep.nodup, hsep.apart, hsep.good.frame hsame, by simpa using hsep.there⟩, hsame⟩

end Separate

end Ownership
