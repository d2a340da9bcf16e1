import Mathlib

/-! # Python dictionaries

    A dictionary as its items in insertion order: an assignment replaces the
    value of a key where it stands, or adds the key at the end.  Lookup is
    `List.lookup`. -/

namespace PyDict

variable {K V : Type} [DecidableEq K]

/-- `key in d`. -/
def contains (d : List (K × V)) (key : K) : Bool := decide (key ∈ d.map Prod.fst)

/-- `d[key] = value`. -/
def insert (d : List (K × V)) (key : K) (value : V) : List (K × V) :=
  if key ∈ d.map Prod.fst then d.map fun x => if x.1 = key then (key, value) else x
  else d ++ [(key, value)]

/-- `dict(items)`. -/
def ofItems (items : List (K × V)) : List (K × V) :=
  items.foldl (fun d x => insert d x.1 x.2) []

theorem contains_of_new {d : List (K × V)} {key : K} (h : key ∉ d.map Prod.fst) :
    contains d key = false := decide_eq_false h

theorem insert_new {d : List (K × V)} {key : K} (h : key ∉ d.map Prod.fst) (value : V) :
    insert d key value = d ++ [(key, value)] := if_neg h

/-- Items with distinct keys are a dictionary as they stand. -/
theorem ofItems_of_nodup {items : List (K × V)} (h : (items.map Prod.fst).Nodup) :
    ofItems items = items := by
  have hstep : ∀ (rest d : List (K × V)), ((d ++ rest).map Prod.fst).Nodup →
      rest.foldl (fun d x => insert d x.1 x.2) d = d ++ rest := by
    intro rest
    induction rest with
    | nil =>
        intro d _
        exact (List.append_nil d).symm
    | cons x rest ih =>
        intro d hd
        have hkey : x.1 ∉ d.map Prod.fst := by
          intro hmem
          rw [List.map_append, List.map_cons] at hd
          exact List.disjoint_of_nodup_append hd hmem List.mem_cons_self
        have hsplit : d ++ x :: rest = d ++ [x] ++ rest := by
          rw [List.append_assoc, List.singleton_append]
        rw [List.foldl_cons, insert_new hkey, ih (d ++ [x]) (by rw [← hsplit]; exact hd), hsplit]
  exact hstep items [] h

theorem lookup_eq_some {K V : Type} [BEq K] [LawfulBEq K] {d : List (K × V)}
    (h : (d.map Prod.fst).Nodup) {key : K} {value : V}
    (hmem : (key, value) ∈ d) : d.lookup key = some value := by
  induction d with
  | nil => cases hmem
  | cons x d ih =>
      rw [List.map_cons, List.nodup_cons] at h
      rcases List.mem_cons.mp hmem with rfl | hmem
      · exact List.lookup_cons_self
      · have hne : key ≠ x.1 := by
          rintro rfl
          exact h.1 (List.mem_map.mpr ⟨_, hmem, rfl⟩)
        rw [List.lookup_cons, beq_false_of_ne hne]
        exact ih h.2 hmem

omit [DecidableEq K] in
theorem new_of_lookup [BEq K] [LawfulBEq K] {d : List (K × V)} {key : K} (h : d.lookup key = none) :
    key ∉ d.map Prod.fst := by
  intro hmem
  obtain ⟨x, hx, rfl⟩ := List.mem_map.mp hmem
  exact (bne_iff_ne.mp (List.lookup_eq_none_iff.mp h x hx)) rfl

/-- What is found after an assignment is the new value or was there. -/
theorem lookup_insert [BEq K] [LawfulBEq K] {d : List (K × V)} {key k : K} {value found : V}
    (h : d.lookup key = none) (hfound : (insert d key value).lookup k = some found) :
    (k = key ∧ found = value) ∨ d.lookup k = some found := by
  rw [insert_new (new_of_lookup h), List.lookup_append] at hfound
  cases hold : d.lookup k with
  | some old =>
      rw [hold] at hfound
      exact Or.inr hfound
  | none =>
      rw [hold, Option.none_or, List.lookup_cons] at hfound
      by_cases heq : k = key
      · rw [heq, beq_self_eq_true] at hfound
        exact Or.inl ⟨heq, (Option.some.inj hfound).symm⟩
      · rw [beq_false_of_ne heq] at hfound
        cases hfound

end PyDict
