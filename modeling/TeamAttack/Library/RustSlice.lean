import Mathlib

/-! # Rust slices as lists -/

namespace RustSlice

variable {α : Type*}

/-- `slice.get(start..stop)`. -/
def getRange (l : List α) (start stop : Nat) : Option (List α) :=
  if start ≤ stop ∧ stop ≤ l.length then some ((l.drop start).take (stop - start)) else none

/-- `slice.windows(size)`, for a positive size. -/
def windows (l : List α) (size : Nat) : List (List α) :=
  (List.range (l.length + 1 - size)).map (fun i => (l.drop i).take size)

/-- `iterator.step_by(step)`. -/
def stepBy (l : List α) (step : Nat) : List α :=
  (List.range l.length).filterMap (fun i => if i % step = 0 then l[i]? else none)

theorem getRange_eq_some {l r : List α} {start stop : Nat} :
    getRange l start stop = some r ↔
      start ≤ stop ∧ stop ≤ l.length ∧ (l.drop start).take (stop - start) = r := by
  unfold getRange
  by_cases h : start ≤ stop ∧ stop ≤ l.length
  · rw [if_pos h, Option.some.injEq]
    exact ⟨fun hr => ⟨h.1, h.2, hr⟩, fun hr => hr.2.2⟩
  · rw [if_neg h]
    exact ⟨nofun, fun hr => absurd ⟨hr.1, hr.2.1⟩ h⟩

/-- A range of a generated slice. -/
theorem getRange_map_range (f : Nat → α) {n start stop : Nat} (hle : start ≤ stop)
    (hstop : stop ≤ n) :
    getRange ((List.range n).map f) start stop
      = some ((List.range (stop - start)).map (fun k => f (start + k))) := by
  rw [getRange_eq_some]
  refine ⟨hle, by simpa using hstop, ?_⟩
  refine List.ext_getElem ?_ ?_
  · simp
    omega
  · intro i _ _
    simp

theorem windows_getElem? (l : List α) {size i : Nat} (h : i < l.length + 1 - size) :
    (windows l size)[i]? = some ((l.drop i).take size) := by
  simp [windows, List.getElem?_range h]

theorem filterMap_only (c : α) (a : Nat) (l : List Nat) :
    l.filterMap (fun i => if i = a then some c else none) = List.replicate (l.count a) c := by
  induction l with
  | nil => rfl
  | cons i rest ih =>
      by_cases hi : i = a
      · simp [hi, ih, List.replicate_succ]
      · simp [hi, ih]

/-- Where a window occurs at one multiple of the step only, the filtered
    windows are that one. -/
theorem filter_windows_of_unique [DecidableEq α] {l sig : List α} {start step : Nat}
    (hstep : start % step = 0) (hget : getRange l start (start + sig.length) = some sig)
    (huniq : ∀ i, (l.drop i).take sig.length = sig → i = start) :
    (stepBy (windows l sig.length) step).filter (· = sig) = [sig] := by
  obtain ⟨-, hlen, heq⟩ := getRange_eq_some.mp hget
  rw [Nat.add_sub_cancel_left] at heq
  have hcount : (windows l sig.length).length = l.length + 1 - sig.length := by simp [windows]
  have hlt : start < l.length + 1 - sig.length := by omega
  rw [stepBy, hcount, List.filter_filterMap]
  -- of all indices, only `start` yields anything
  have hpick : ∀ i ∈ List.range (l.length + 1 - sig.length),
      Option.filter (fun w => decide (w = sig))
        (if i % step = 0 then (windows l sig.length)[i]? else none)
      = if i = start then some sig else none := by
    intro i hi
    rw [windows_getElem? l (List.mem_range.mp hi)]
    by_cases hi : i = start
    · rw [hi, if_pos hstep, if_pos rfl, heq]
      simp
    · have hne : (l.drop i).take sig.length ≠ sig := fun h => hi (huniq i h)
      rw [if_neg hi]
      split_ifs
      · simp [hne]
      · rfl
  rw [List.filterMap_congr hpick]
  rw [filterMap_only, List.count_eq_one_of_mem List.nodup_range (List.mem_range.mpr hlt)]
  rfl

/-- A window that holds a value found once in the slice occurs once. -/
theorem window_unique {f : Nat → α} {n start k : Nat} {sig : List α} {b : α}
    (hk : sig[k]? = some b) (honce : ∀ j < n, f j = b → j = start + k) {i : Nat}
    (h : (((List.range n).map f).drop i).take sig.length = sig) : i = start := by
  have hlt : k < sig.length := (List.getElem?_eq_some_iff.mp hk).1
  have hget : ((List.range n).map f)[i + k]? = some b := by
    rw [← h, List.getElem?_take_of_lt hlt, List.getElem?_drop] at hk
    exact hk
  obtain ⟨hn, hf⟩ := List.getElem?_eq_some_iff.mp hget
  have hj := honce (i + k) (by simpa using hn) (by simpa using hf)
  omega

end RustSlice
