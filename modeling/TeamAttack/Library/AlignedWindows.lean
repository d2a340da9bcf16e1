import TeamAttack.Library.RustSlice

/-! # Aligned occurrences of a pattern

    The multiples of a step at which a slice holds a pattern, and the two ways
    code counts them: through its stepped windows, stopping at the second. -/

namespace RustSlice

variable {α : Type*}

theorem length_filterMap_ite (c : α) (q : Nat → Bool) (l : List Nat) :
    (l.filterMap (fun i => if q i then some c else none)).length = (l.filter q).length := by
  induction l with
  | nil => rfl
  | cons i rest ih =>
      cases hq : q i with
      | true => simp [hq, ih]
      | false => simp [hq, ih]

/-- A list without repetition that holds an element holds one only when it
    holds no other. -/
theorem length_one_iff {l : List Nat} (hnodup : l.Nodup) {a : Nat} (ha : a ∈ l) :
    (l.take 2).length = 1 ↔ ∀ b ∈ l, b = a := by
  rw [List.length_take]
  constructor
  · intro h b hb
    obtain ⟨c, rfl⟩ := List.length_eq_one_iff.mp (show l.length = 1 by omega)
    rw [List.mem_singleton.mp ha, List.mem_singleton.mp hb]
  · intro h
    rcases l with _ | ⟨b, _ | ⟨c, rest⟩⟩
    · cases ha
    · rfl
    · obtain rfl := h b List.mem_cons_self
      obtain rfl := h c (List.mem_cons_of_mem b List.mem_cons_self)
      exact absurd List.mem_cons_self (List.nodup_cons.mp hnodup).1

variable [DecidableEq α]

/-- The multiples of `step` at which `l` holds `sig`, in order. -/
def occurrences (l sig : List α) (step : Nat) : List Nat :=
  (List.range (l.length + 1 - sig.length)).filter
    (fun i => i % step = 0 && (l.drop i).take sig.length = sig)

theorem mem_occurrences {l sig : List α} {step i : Nat} :
    i ∈ occurrences l sig step ↔ i % step = 0 ∧ getRange l i (i + sig.length) = some sig := by
  rw [occurrences, List.mem_filter, List.mem_range, Bool.and_eq_true, decide_eq_true_eq,
    decide_eq_true_eq, getRange_eq_some, Nat.add_sub_cancel_left]
  constructor
  · rintro ⟨hlt, hstep, heq⟩
    exact ⟨hstep, Nat.le_add_right i _, by omega, heq⟩
  · rintro ⟨hstep, _, hle, heq⟩
    exact ⟨by omega, hstep, heq⟩

theorem nodup_occurrences (l sig : List α) (step : Nat) : (occurrences l sig step).Nodup :=
  List.Nodup.filter _ List.nodup_range

/-- The stepped windows equal to the pattern, counted. -/
theorem length_filter_windows (l sig : List α) (step : Nat) :
    ((stepBy (windows l sig.length) step).filter (· = sig)).length
      = (occurrences l sig step).length := by
  have hcount : (windows l sig.length).length = l.length + 1 - sig.length := by simp [windows]
  rw [stepBy, hcount, List.filter_filterMap, occurrences, ← length_filterMap_ite sig]
  congr 1
  refine List.filterMap_congr ?_
  intro i hi
  rw [windows_getElem? l (List.mem_range.mp hi)]
  by_cases hstep : i % step = 0
  · by_cases heq : (l.drop i).take sig.length = sig
    · simp [hstep, heq]
    · simp [hstep, heq]
  · simp [hstep]

/-- **Uniqueness by a lazy count.**  Where the pattern is held at `start`, the
    count stops at one exactly when no other aligned place holds it. -/
theorem windows_once_iff {l sig : List α} {start step : Nat} (hstep : start % step = 0)
    (hget : getRange l start (start + sig.length) = some sig) :
    (((stepBy (windows l sig.length) step).filter (· = sig)).take 2).length = 1 ↔
      ∀ i, i % step = 0 → getRange l i (i + sig.length) = some sig → i = start := by
  have hcount : (((stepBy (windows l sig.length) step).filter (· = sig)).take 2).length
      = ((occurrences l sig step).take 2).length := by
    rw [List.length_take, List.length_take, length_filter_windows]
  have hmem : start ∈ occurrences l sig step := mem_occurrences.mpr ⟨hstep, hget⟩
  rw [hcount, length_one_iff (nodup_occurrences l sig step) hmem]
  constructor
  · intro h i hi heq
    exact h i (mem_occurrences.mpr ⟨hi, heq⟩)
  · intro h i hi
    obtain ⟨hi, heq⟩ := mem_occurrences.mp hi
    exact h i hi heq

end RustSlice
