import TeamAttack.Library.RustStr

/-! # Digits with separators

    A number as people write it: digits of one radix, an underscore allowed
    between two of them.  The grammar on the one side, on the other the three
    tests that find it in a text whose underscores are then dropped. -/

namespace RustStr

/-- A number: one digit, then digits, each alone or after an underscore. -/
inductive Digits (radix : Nat) : Str → Nat → Prop where
  | one {c : Char} {d : Nat} : toDigit? radix c = some d → Digits radix [c] d
  | next {s : Str} {n d : Nat} {c : Char} :
      Digits radix s n → toDigit? radix c = some d → Digits radix (s ++ [c]) (n * radix + d)
  | apart {s : Str} {n d : Nat} {c : Char} :
      Digits radix s n → toDigit? radix c = some d →
      Digits radix (s ++ ['_'] ++ [c]) (n * radix + d)

/-- No underscore beside another one. -/
def Single (s : Str) : Prop := ¬ "__".toList <:+: s

/-- No underscore at the end. -/
def Closed (s : Str) : Prop := s.getLast? ≠ some '_'

instance (s : Str) : Decidable (Single s) := inferInstanceAs (Decidable (¬ _))

instance (s : Str) : Decidable (Closed s) := inferInstanceAs (Decidable (¬ _))

/-- The text without its underscores. -/
def unseparated (s : Str) : Str := s.filter (· ≠ '_')

theorem unseparated_append (s t : Str) :
    unseparated (s ++ t) = unseparated s ++ unseparated t :=
  List.filter_append s t

theorem unseparated_single {c : Char} (h : c ≠ '_') : unseparated [c] = [c] :=
  List.filter_cons_of_pos (decide_eq_true h)

theorem toDigit?_separator (radix : Nat) : toDigit? radix '_' = none := rfl

theorem digit_ne_separator {radix d : Nat} {c : Char} (h : toDigit? radix c = some d) :
    c ≠ '_' := by
  rintro rfl
  rw [toDigit?_separator] at h
  cases h

theorem digitsValue?_concat (radix : Nat) (s : Str) (c : Char) :
    digitsValue? radix (s ++ [c]) = (digitsValue? radix s).bind
      (fun n => (toDigit? radix c).map (n * radix + ·)) := by
  rw [digitsValue?, List.foldlM_append]
  show (digitsValue? radix s).bind _ = _
  congr 1
  funext n
  show ((toDigit? radix c).map _).bind some = _
  exact Option.bind_fun_some _

/-- A digit after a text with a value. -/
theorem digitsValue?_more {radix n d : Nat} {s : Str} {c : Char}
    (hs : digitsValue? radix s = some n) (hc : toDigit? radix c = some d) :
    digitsValue? radix (s ++ [c]) = some (n * radix + d) := by
  rw [digitsValue?_concat, hs, Option.bind_some, hc]
  rfl

theorem digitsValue?_concat_eq_some {radix m : Nat} {s : Str} {c : Char}
    (h : digitsValue? radix (s ++ [c]) = some m) :
    ∃ n d, digitsValue? radix s = some n ∧ toDigit? radix c = some d ∧ m = n * radix + d := by
  rw [digitsValue?_concat] at h
  obtain ⟨n, hn, h⟩ := Option.bind_eq_some_iff.mp h
  obtain ⟨d, hd, rfl⟩ := Option.map_eq_some_iff.mp h
  exact ⟨n, d, hn, hd, rfl⟩

/-- A text with a value starts with a digit. -/
theorem digitsValue?_head {radix n : Nat} {c : Char} {s : Str}
    (h : digitsValue? radix (c :: s) = some n) : ∃ d, toDigit? radix c = some d := by
  rw [digitsValue?, List.foldlM_cons] at h
  obtain ⟨_, hfirst, _⟩ := Option.bind_eq_some_iff.mp h
  obtain ⟨d, hd, _⟩ := Option.map_eq_some_iff.mp hfirst
  exact ⟨d, hd⟩

/-- A text with a value has digits only. -/
theorem digitsValue?_mem {radix n : Nat} {s : Str} {c : Char}
    (h : digitsValue? radix s = some n) (hc : c ∈ s) : ∃ d, toDigit? radix c = some d := by
  induction s using List.reverseRecOn generalizing n with
  | nil => cases hc
  | append_singleton s last ih =>
      obtain ⟨_, d, hs, hd, _⟩ := digitsValue?_concat_eq_some h
      rcases List.mem_append.mp hc with hmem | hmem
      · exact ih hs hmem
      · rw [List.mem_singleton.mp hmem]
        exact ⟨d, hd⟩

/-- What the integer parser of the standard library accepts. -/
theorem fromStrRadix?_eq_some {bits radix n : Nat} {s : Str} :
    fromStrRadix? bits radix s = some n ↔ n < 2 ^ bits
      ∧ ∃ digits, digits ≠ [] ∧ digitsValue? radix digits = some n
        ∧ (s = digits ∨ s = '+' :: digits) := by
  have hdigits : ∀ digits : Str, (if digits = [] then none
      else (digitsValue? radix digits).filter (· < 2 ^ bits)) = some n ↔
      n < 2 ^ bits ∧ digits ≠ [] ∧ digitsValue? radix digits = some n := by
    intro digits
    by_cases hnil : digits = []
    · rw [if_pos hnil]
      constructor
      · intro h
        cases h
      · rintro ⟨_, h, _⟩
        exact absurd hnil h
    · rw [if_neg hnil, Option.filter_eq_some_iff, decide_eq_true_eq]
      constructor
      · rintro ⟨hvalue, hlt⟩
        exact ⟨hlt, hnil, hvalue⟩
      · rintro ⟨hlt, _, hvalue⟩
        exact ⟨hvalue, hlt⟩
  by_cases hplus : ∃ rest, s = '+' :: rest
  · obtain ⟨rest, rfl⟩ := hplus
    constructor
    · intro h
      obtain ⟨hlt, hne, hvalue⟩ := (hdigits rest).mp h
      exact ⟨hlt, rest, hne, hvalue, Or.inr rfl⟩
    · rintro ⟨hlt, digits, hne, hvalue, rfl | heq⟩
      · obtain ⟨d, hd⟩ := digitsValue?_head hvalue
        -- a plus sign is no digit
        cases hd
      · obtain ⟨-, rfl⟩ := List.cons.inj heq
        exact (hdigits rest).mpr ⟨hlt, hne, hvalue⟩
  · have hunsigned : fromStrRadix? bits radix s = if s = [] then none
        else (digitsValue? radix s).filter (· < 2 ^ bits) := by
      unfold fromStrRadix?
      dsimp only
      split
      · rename_i rest
        exact absurd ⟨rest, rfl⟩ hplus
      · rfl
    rw [hunsigned, hdigits]
    constructor
    · rintro ⟨hlt, hne, hvalue⟩
      exact ⟨hlt, s, hne, hvalue, Or.inl rfl⟩
    · rintro ⟨hlt, digits, hne, hvalue, rfl | heq⟩
      · exact ⟨hlt, hne, hvalue⟩
      · exact absurd ⟨digits, heq⟩ hplus

/-- Underscores meet at the end only. -/
theorem single_concat {s : Str} {c : Char} :
    Single (s ++ [c]) ↔ Single s ∧ ¬ (c = '_' ∧ s.getLast? = some '_') := by
  have hends : "__".toList <:+ s ++ [c] ↔ c = '_' ∧ s.getLast? = some '_' := by
    rw [List.suffix_concat_iff]
    constructor
    · rintro (hnil | ⟨t, ht, hs⟩)
      · cases hnil
      · have hparts : ['_'] ++ ['_'] = t ++ [c] := ht
        obtain ⟨rfl, hc⟩ := List.append_inj' hparts rfl
        obtain ⟨u, rfl⟩ := hs
        exact ⟨(List.cons.inj hc).1.symm, List.getLast?_concat⟩
    · rintro ⟨rfl, hs⟩
      obtain ⟨u, rfl⟩ := List.getLast?_eq_some_iff.mp hs
      exact Or.inr ⟨['_'], rfl, List.suffix_append u ['_']⟩
  unfold Single
  rw [List.infix_concat_iff, hends]
  tauto

theorem closed_concat {s : Str} {c : Char} : Closed (s ++ [c]) ↔ c ≠ '_' := by
  unfold Closed
  rw [List.getLast?_concat, ne_eq, Option.some.injEq]

theorem single_nil : Single [] := by
  intro h
  cases List.infix_nil.mp h

theorem single_cons {c : Char} {s : Str} (hc : c ≠ '_') : Single (c :: s) ↔ Single s := by
  unfold Single
  rw [List.infix_cons_iff, not_or, and_iff_right_iff_imp]
  rintro _ ⟨_, h⟩
  exact hc (List.cons.inj h).1.symm

theorem single_separator {c : Char} {s : Str} (hc : c ≠ '_') :
    Single ('_' :: c :: s) ↔ Single s := by
  refine Iff.trans ?_ (single_cons hc)
  unfold Single
  rw [List.infix_cons_iff, not_or, and_iff_right_iff_imp]
  rintro _ ⟨_, h⟩
  exact hc (List.cons.inj (List.cons.inj h).2).1.symm

theorem closed_cons {c : Char} {s : Str} (hc : c ≠ '_') : Closed (c :: s) ↔ Closed s := by
  unfold Closed
  cases s with
  | nil =>
      rw [List.getLast?_singleton, ne_eq, Option.some.injEq]
      exact ⟨fun _ h => absurd h (by decide), fun _ => hc⟩
  | cons d s => rw [List.getLast?_cons_cons]

theorem unseparated_cons {c : Char} (hc : c ≠ '_') (s : Str) :
    unseparated (c :: s) = c :: unseparated s :=
  List.filter_cons_of_pos (decide_eq_true hc)

theorem unseparated_separator (s : Str) : unseparated ('_' :: s) = unseparated s := rfl

theorem Digits.ne_nil {radix n : Nat} {s : Str} (h : Digits radix s n) : s ≠ [] := by
  cases h with
  | one _ => exact List.cons_ne_nil _ _
  | next _ _ => exact List.concat_ne_nil _ _
  | apart _ _ => exact List.concat_ne_nil _ _

/-- A number starts with a digit. -/
theorem Digits.head {radix n : Nat} {s : Str} (h : Digits radix s n) :
    ∃ c rest d, s = c :: rest ∧ toDigit? radix c = some d := by
  induction h with
  | @one c d hc => exact ⟨c, [], d, rfl, hc⟩
  | next hs hc ih =>
      obtain ⟨c, rest, d, rfl, hd⟩ := ih
      exact ⟨c, rest ++ _, d, rfl, hd⟩
  | apart hs hc ih =>
      obtain ⟨c, rest, d, rfl, hd⟩ := ih
      exact ⟨c, rest ++ ['_'] ++ _, d, rfl, hd⟩

theorem Digits.closed {radix n : Nat} {s : Str} (h : Digits radix s n) : Closed s := by
  cases h with
  | one hc => exact (closed_concat (s := [])).mpr (digit_ne_separator hc)
  | next hs hc => exact closed_concat.mpr (digit_ne_separator hc)
  | apart hs hc => exact closed_concat.mpr (digit_ne_separator hc)

theorem Digits.single {radix n : Nat} {s : Str} (h : Digits radix s n) : Single s := by
  induction h with
  | one hc =>
      exact (single_concat (s := [])).mpr ⟨single_nil, fun h => digit_ne_separator hc h.1⟩
  | next hs hc ih => exact single_concat.mpr ⟨ih, fun h => digit_ne_separator hc h.1⟩
  | apart hs hc ih =>
      refine single_concat.mpr ⟨?_, fun h => digit_ne_separator hc h.1⟩
      exact single_concat.mpr ⟨ih, fun h => hs.closed h.2⟩

theorem Digits.value {radix n : Nat} {s : Str} (h : Digits radix s n) :
    digitsValue? radix (unseparated s) = some n := by
  induction h with
  | @one c d hc =>
      rw [unseparated_single (digit_ne_separator hc)]
      have hfirst : digitsValue? radix ([] ++ [c]) = some (0 * radix + d) :=
        digitsValue?_more rfl hc
      rw [Nat.zero_mul, Nat.zero_add] at hfirst
      exact hfirst
  | next hs hc ih =>
      rw [unseparated_append, unseparated_single (digit_ne_separator hc)]
      exact digitsValue?_more ih hc
  | apart hs hc ih =>
      rw [unseparated_append, unseparated_append, unseparated_single (digit_ne_separator hc)]
      show digitsValue? radix (unseparated _ ++ [] ++ _) = _
      rw [List.append_nil]
      exact digitsValue?_more ih hc

/-- A text that passes the tests is a number.  By induction on its length,
    one digit off the end, and with it the underscore before it. -/
theorem digits_of_separated {radix n : Nat} {s : Str} (hne : s ≠ []) (hhead : s.head? ≠ some '_')
    (hclosed : Closed s) (hsingle : Single s)
    (hvalue : digitsValue? radix (unseparated s) = some n) : Digits radix s n := by
  induction hlen : s.length using Nat.strong_induction_on generalizing s n with
  | _ length ih =>
      obtain ⟨t, c, rfl⟩ := (List.eq_nil_or_concat' s).resolve_left hne
      have hc : c ≠ '_' := closed_concat.mp hclosed
      rw [unseparated_append, unseparated_single hc] at hvalue
      obtain ⟨m, d, hm, hd, rfl⟩ := digitsValue?_concat_eq_some hvalue
      rw [List.length_append, List.length_singleton] at hlen
      rcases List.eq_nil_or_concat' t with rfl | ⟨u, b, rfl⟩
      · obtain rfl : 0 = m := Option.some.inj hm
        rw [Nat.zero_mul, Nat.zero_add]
        exact Digits.one hd
      · have ht : Single (u ++ [b]) := (single_concat.mp hsingle).1
        rw [List.length_append, List.length_singleton] at hlen
        by_cases hb : b = '_'
        · subst hb
          have hu : u ≠ [] := by
            rintro rfl
            exact hhead rfl
          have hutail := single_concat.mp ht
          have hmu : digitsValue? radix (unseparated u) = some m := by
            rw [unseparated_append] at hm
            show digitsValue? radix (unseparated u) = some m
            exact (List.append_nil (unseparated u)) ▸ hm
          refine Digits.apart (ih u.length (by omega) hu ?_ ?_ hutail.1 hmu rfl) hd
          · rw [List.append_assoc, List.head?_append_of_ne_nil u hu] at hhead
            exact hhead
          · exact fun hlast => hutail.2 ⟨rfl, hlast⟩
        · refine Digits.next (ih (u ++ [b]).length ?_ (List.concat_ne_nil b u) ?_
            (closed_concat.mpr hb) ht hm rfl) hd
          · rw [List.length_append, List.length_singleton]
            omega
          · rw [List.head?_append_of_ne_nil (u ++ [b]) (List.concat_ne_nil b u)] at hhead
            exact hhead

/-- **The grammar by three tests.** -/
theorem digits_iff {radix n : Nat} {s : Str} :
    Digits radix s n ↔ s ≠ [] ∧ s.head? ≠ some '_' ∧ Closed s ∧ Single s
      ∧ digitsValue? radix (unseparated s) = some n := by
  constructor
  · intro h
    refine ⟨h.ne_nil, ?_, h.closed, h.single, h.value⟩
    obtain ⟨c, rest, d, rfl, hd⟩ := h.head
    exact fun heq => digit_ne_separator hd (Option.some.inj heq)
  · rintro ⟨hne, hhead, hclosed, hsingle, hvalue⟩
    exact digits_of_separated hne hhead hclosed hsingle hvalue

end RustStr
