/-
A hash that remembers insertion order, as Ruby's does: assigning to a key
it has keeps the key's place, assigning to a new key puts it last, and
deleting closes the gap.
-/
import Mathlib.Data.List.Basic
import Mathlib.Data.List.Nodup

/-- Entries in insertion order, no key twice. -/
structure OrderedHash (κ α : Type) where
  entries : List (κ × α)
  nodup : (entries.map Prod.fst).Nodup

namespace OrderedHash

variable {κ α : Type} [DecidableEq κ] {h : OrderedHash κ α} {k k' : κ} {v v' : α}

def empty : OrderedHash κ α := ⟨[], List.nodup_nil⟩

/-- `hash[k]`. -/
def aref (h : OrderedHash κ α) (k : κ) : Option α := (h.entries.find? (·.1 == k)).map Prod.snd

/-- The entries after `hash[k] = v`. -/
def store (k : κ) (v : α) : List (κ × α) → List (κ × α)
  | [] => [(k, v)]
  | (k', v') :: es => if k' = k then (k, v) :: es else (k', v') :: store k v es

/-- `hash.values`. -/
def values (h : OrderedHash κ α) : List α := h.entries.map Prod.snd

theorem store_keys (es : List (κ × α)) :
    (store k v es).map Prod.fst = if k ∈ es.map Prod.fst then es.map Prod.fst else es.map Prod.fst ++ [k] := by
  induction es with
  | nil => simp [store]
  | cons e es ih =>
    obtain ⟨k', v'⟩ := e
    by_cases hk : k' = k
    · subst hk; simp [store]
    · have hk' : ¬ k = k' := fun he => hk he.symm
      simp only [store, hk, if_false, List.map_cons, ih, List.mem_cons, hk', false_or]
      split <;> simp

theorem store_nodup {es : List (κ × α)} (hn : (es.map Prod.fst).Nodup) :
    ((store k v es).map Prod.fst).Nodup := by
  rw [store_keys]
  split
  · exact hn
  · next hk =>
    refine List.nodup_append.2 ⟨hn, List.nodup_singleton k, fun a ha b hb he => hk ?_⟩
    rw [List.mem_singleton] at hb
    rwa [← hb, ← he]

/-- `hash[k] = v`. -/
def aset (h : OrderedHash κ α) (k : κ) (v : α) : OrderedHash κ α := ⟨store k v h.entries, store_nodup h.nodup⟩

/-- `hash.delete(k)`. -/
def delete (h : OrderedHash κ α) (k : κ) : OrderedHash κ α :=
  ⟨h.entries.filter (·.1 ≠ k), h.nodup.sublist (List.filter_sublist.map _)⟩

@[simp] theorem aref_empty : (empty : OrderedHash κ α).aref k = none := rfl

theorem aref_eq_some_iff : h.aref k = some v ↔ (k, v) ∈ h.entries := by
  obtain ⟨es, hn⟩ := h
  simp only [aref]
  induction es with
  | nil => simp
  | cons e es ih =>
    obtain ⟨k', v'⟩ := e
    simp only [List.map_cons, List.nodup_cons] at hn
    by_cases hk : k' = k
    · subst hk
      have hnot : (k', v) ∉ es := fun hm => hn.1 (List.mem_map_of_mem (f := Prod.fst) hm)
      simp [hnot, eq_comm]
    · have hk' : ¬ k = k' := fun he => hk he.symm
      simp [hk, hk', ih hn.2]

theorem mem_values_iff : v ∈ h.values ↔ ∃ k, h.aref k = some v := by
  simp [values, aref_eq_some_iff]

theorem store_find_self (es : List (κ × α)) : (store k v es).find? (·.1 == k) = some (k, v) := by
  induction es with
  | nil => simp [store]
  | cons e es ih =>
    obtain ⟨k', v'⟩ := e
    by_cases hk : k' = k
    · simp [store, hk]
    · simp [store, hk, ih]

theorem store_find_ne (hne : k' ≠ k) (es : List (κ × α)) :
    (store k v es).find? (·.1 == k') = es.find? (·.1 == k') := by
  induction es with
  | nil => simp [store, hne.symm]
  | cons e es ih =>
    obtain ⟨k₁, v₁⟩ := e
    by_cases hk : k₁ = k
    · subst hk; simp [store, hne.symm]
    · simp only [store, hk, if_false, List.find?_cons, ih]

@[simp] theorem aref_aset_self : (h.aset k v).aref k = some v := by
  simp [aref, aset, store_find_self]

theorem aref_aset_ne (hne : k' ≠ k) : (h.aset k v).aref k' = h.aref k' := by
  simp [aref, aset, store_find_ne hne]

theorem aref_aset : (h.aset k v).aref k' = if k' = k then some v else h.aref k' := by
  split
  · next he => rw [he, aref_aset_self]
  · next hne => exact aref_aset_ne hne

theorem aref_delete : (h.delete k).aref k' = if k' = k then none else h.aref k' := by
  simp only [aref, delete]
  split
  · next he => simp [he]
  · next hne =>
    rw [List.find?_filter]
    congr 2
    funext e
    by_cases he : e.1 = k'
    · simp [he, hne]
    · simp [he]

theorem aref_eq_none_iff : h.aref k = none ↔ k ∉ h.entries.map Prod.fst := by
  simp only [aref, Option.map_eq_none_iff, List.find?_eq_none, List.mem_map, beq_iff_eq, not_exists, not_and]

/-- How many keys meet `p`. -/
def countKeys (h : OrderedHash κ α) (p : κ → Bool) : Nat := (h.entries.map Prod.fst).countP p

theorem countKeys_aset (hk : h.aref k = none) (p : κ → Bool) :
    (h.aset k v).countKeys p = h.countKeys p + if p k then 1 else 0 := by
  simp only [countKeys, aset, store_keys]
  rw [if_neg (aref_eq_none_iff.1 hk), List.countP_append, List.countP_singleton]

theorem countKeys_delete (hk : h.aref k = some v) (p : κ → Bool) :
    h.countKeys p = (h.delete k).countKeys p + if p k then 1 else 0 := by
  have hm : k ∈ h.entries.map Prod.fst := List.mem_map_of_mem (f := Prod.fst) (aref_eq_some_iff.1 hk)
  have hkeys : (h.delete k).entries.map Prod.fst = (h.entries.map Prod.fst).erase k := by
    rw [h.nodup.erase_eq_filter, List.filter_map]
    simp only [delete, Function.comp_def, ne_eq, decide_not]
    rfl
  rw [countKeys, countKeys, hkeys, (List.perm_cons_erase hm).countP_eq, List.countP_cons]

/-- Deleting a key it has leaves fewer entries. -/
theorem entries_delete_lt (hk : h.aref k = some v) : (h.delete k).entries.length < h.entries.length := by
  refine List.length_filter_lt_length_iff_exists.2 ⟨(k, v), aref_eq_some_iff.1 hk, ?_⟩
  simp

end OrderedHash
