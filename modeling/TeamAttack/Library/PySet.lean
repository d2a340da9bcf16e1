import Mathlib

/-! # Python sets

    A set as its elements, each once.  Only sizes and the element of a
    singleton are read, so the order of iteration plays no part. -/

namespace PySet

variable {α : Type} [DecidableEq α]

/-- `set(items)`. -/
def ofItems (items : List α) : List α := items.dedup

/-- A set of one element. -/
theorem ofItems_eq_singleton {items : List α} {v : α} :
    ofItems items = [v] ↔ items ≠ [] ∧ ∀ x ∈ items, x = v := by
  unfold ofItems
  constructor
  · intro h
    refine ⟨?_, ?_⟩
    · rintro rfl
      cases h
    · intro x hx
      have hmem := List.mem_dedup.mpr hx
      rw [h] at hmem
      exact List.mem_singleton.mp hmem
  · rintro ⟨hne, hall⟩
    have hrep := List.eq_replicate_of_mem hall
    rw [hrep, List.replicate_dedup]
    intro hzero
    exact hne (List.length_eq_zero_iff.mp hzero)

/-- A set of one element, by its size. -/
theorem length_ofItems_cons {v : α} {items : List α} :
    (ofItems (v :: items)).length = 1 ↔ ∀ x ∈ items, x = v := by
  rw [List.length_eq_one_iff]
  constructor
  · rintro ⟨w, hw⟩
    obtain ⟨-, hall⟩ := ofItems_eq_singleton.mp hw
    rw [List.forall_mem_cons] at hall
    intro x hx
    rw [hall.2 x hx, hall.1]
  · intro h
    refine ⟨v, ofItems_eq_singleton.mpr ⟨List.cons_ne_nil v items, ?_⟩⟩
    rw [List.forall_mem_cons]
    exact ⟨rfl, h⟩

/-- A set is as large as a list of different items. -/
theorem length_ofItems {items : List α} :
    (ofItems items).length = items.length ↔ items.Nodup := by
  constructor
  · intro h
    exact List.dedup_eq_self.mp ((List.dedup_sublist items).eq_of_length h)
  · intro h
    exact congrArg List.length h.dedup

end PySet
