import TeamAttack.Library.SeparatedDigits
import TeamAttack.Config

/-! # The integers of the configuration (`config.rs`)

    `parse_usize` tests the raw text for misplaced underscores and signs,
    drops the underscores, looks for `0x`, and hands the rest to the integer
    parser of the standard library.  The tests run before the underscores go
    and the prefix is looked for after, so `0_x10` passes; and the library
    parser takes a sign of its own, so `0x+10` passes. -/

namespace TeamAttack

open RustStr

/-! ## The intended grammar -/

/-- A numeral of the configuration and its value. -/
def Numeral (s : Str) (n : Nat) : Prop :=
  Digits 10 s n ∨ ∃ x tail, (x = 'x' ∨ x = 'X') ∧ s = '0' :: x :: tail ∧ Digits 16 tail n

/-- What `parse_usize` owes its caller on a text: the value of a numeral of
    64 bits, a syntax error at the line for every other text. -/
def MeetsGrammar (s : Str) (line : Nat) : Prop :=
  (∀ n : UInt64, parseUsize s line = .ok n ↔ Numeral s n.toNat)
    ∧ ((∀ n : UInt64, ¬ Numeral s n.toNat) →
      ∃ message, parseUsize s line = syntaxError line message)

/-- Hexadecimal digits as the library parser takes them: a plus sign may come
    first, underscores neither doubled nor last, the value under `2 ^ 64`. -/
def MissedTail (tail : Str) (n : Nat) : Prop :=
  Single tail ∧ Closed tail ∧ n < 2 ^ 64
    ∧ ∃ digits, digits ≠ [] ∧ digitsValue? 16 digits = some n
      ∧ (unseparated tail = digits ∨ unseparated tail = '+' :: digits)

/-- A text the tests overlook: the prefix is split by an underscore, or a
    plus sign follows it. -/
def Slipped (s : Str) (n : Nat) : Prop :=
  ∃ x tail, (x = 'x' ∨ x = 'X') ∧ MissedTail tail n
    ∧ (s = '0' :: '_' :: x :: tail ∨ s = '0' :: x :: tail ∧ tail.head? = some '+')

/-! ## The steps of `parse_usize` -/

/-- The tests on the raw text. -/
def misplaced (value : Str) : Bool :=
  value.head? = some '_' || value.getLast? = some '_' || decide ("__".toList <:+: value)
    || value.head? = some '+' || "0x_".toList.isPrefixOf value
    || "0X_".toList.isPrefixOf value

/-- The library parser behind the prefix test. -/
def compactValue? (compact : Str) : Option Nat :=
  match compact with
  | '0' :: 'x' :: hex => fromStrRadix? 64 16 hex
  | '0' :: 'X' :: hex => fromStrRadix? 64 16 hex
  | _ => fromStrRadix? 64 10 compact

theorem parseUsize_eq (value : Str) (line : Nat) :
    parseUsize value line =
      if misplaced value then syntaxError line "invalid integer separator or sign".toList
      else match compactValue? (unseparated value) with
        | some n => .ok (UInt64.ofNat n)
        | none => syntaxError line
          ("invalid non-negative integer '".toList ++ value ++ ['\'']) := by
  unfold parseUsize misplaced
  split
  · rfl
  · rfl

theorem misplaced_eq_false {s : Str} :
    misplaced s = false ↔ (s.head? ≠ some '_' ∧ Closed s ∧ Single s ∧ s.head? ≠ some '+')
      ∧ ∀ x, x = 'x' ∨ x = 'X' → ¬ ['0', x, '_'] <+: s := by
  have hprefix : ∀ p : Str, p.isPrefixOf s = false ↔ ¬ p <+: s := by
    intro p
    rw [← Bool.not_eq_true, List.isPrefixOf_iff_prefix]
  unfold misplaced Closed Single
  simp only [Bool.or_eq_false_iff, decide_eq_false_iff_not, hprefix, forall_eq_or_imp, forall_eq]
  constructor
  · rintro ⟨⟨⟨⟨⟨h1, h2⟩, h3⟩, h4⟩, h5⟩, h6⟩
    exact ⟨⟨h1, h2, h3, h4⟩, h5, h6⟩
  · rintro ⟨⟨h1, h2, h3, h4⟩, h5, h6⟩
    exact ⟨⟨⟨⟨⟨h1, h2⟩, h3⟩, h4⟩, h5⟩, h6⟩

/-- A text `parse_usize` takes, and its value. -/
def Accepted (s : Str) (n : Nat) : Prop :=
  misplaced s = false ∧ compactValue? (unseparated s) = some n

theorem accepted_lt {s : Str} {n : Nat} (h : Accepted s n) : n < 2 ^ 64 := by
  obtain ⟨_, hvalue⟩ := h
  unfold compactValue? at hvalue
  split at hvalue
  · exact (fromStrRadix?_eq_some.mp hvalue).1
  · exact (fromStrRadix?_eq_some.mp hvalue).1
  · exact (fromStrRadix?_eq_some.mp hvalue).1

theorem parseUsize_ok {s : Str} {line : Nat} {n : UInt64} :
    parseUsize s line = .ok n ↔ Accepted s n.toNat := by
  rw [parseUsize_eq]
  constructor
  · intro h
    split at h
    · cases h
    · rename_i hplaced
      rw [Bool.not_eq_true] at hplaced
      split at h
      · rename_i m hm
        have hlt := accepted_lt ⟨hplaced, hm⟩
        obtain rfl := Except.ok.inj h
        refine ⟨hplaced, ?_⟩
        rw [UInt64.toNat_ofNat_of_lt' hlt]
        exact hm
      · cases h
  · rintro ⟨hplaced, hvalue⟩
    rw [hplaced, if_neg Bool.false_ne_true, hvalue]
    show Except.ok (UInt64.ofNat n.toNat) = _
    rw [UInt64.ofNat_toNat]

/-- What is not accepted is a syntax error. -/
theorem parseUsize_refused {s : Str} (line : Nat) (h : ∀ n : UInt64, ¬ Accepted s n.toNat) :
    ∃ message, parseUsize s line = syntaxError line message := by
  rw [parseUsize_eq]
  split
  · exact ⟨_, rfl⟩
  · rename_i hplaced
    rw [Bool.not_eq_true] at hplaced
    split
    · rename_i m hm
      have hlt := accepted_lt ⟨hplaced, hm⟩
      refine absurd ⟨hplaced, ?_⟩ (h (UInt64.ofNat m))
      rw [UInt64.toNat_ofNat_of_lt' hlt]
      exact hm
    · exact ⟨_, rfl⟩

/-! ## What is accepted -/

theorem compactValue?_hex {x : Char} (hx : x = 'x' ∨ x = 'X') (hex : Str) :
    compactValue? ('0' :: x :: hex) = fromStrRadix? 64 16 hex := by
  rcases hx with rfl | rfl
  · rfl
  · rfl

theorem compactValue?_decimal {compact : Str}
    (h : ∀ x hex, x = 'x' ∨ x = 'X' → compact ≠ '0' :: x :: hex) :
    compactValue? compact = fromStrRadix? 64 10 compact := by
  unfold compactValue?
  split
  · exact absurd rfl (h 'x' _ (Or.inl rfl))
  · exact absurd rfl (h 'X' _ (Or.inr rfl))
  · rfl

theorem not_separator {x : Char} (hx : x = 'x' ∨ x = 'X') : x ≠ '_' := by
  rcases hx with rfl | rfl
  · decide
  · decide

/-- Behind the prefix the tests still see an underscore of the tail. -/
theorem placed_hex {x : Char} (hx : x = 'x' ∨ x = 'X') (tail : Str) :
    misplaced ('0' :: x :: tail) = false ↔
      tail.head? ≠ some '_' ∧ Closed tail ∧ Single tail := by
  have hzero : ('0' : Char) ≠ '_' := by decide
  rw [misplaced_eq_false, closed_cons hzero, closed_cons (not_separator hx), single_cons hzero,
    single_cons (not_separator hx)]
  constructor
  · rintro ⟨⟨_, hclosed, hsingle, _⟩, hprefix⟩
    refine ⟨?_, hclosed, hsingle⟩
    intro hhead
    obtain ⟨rest, rfl⟩ := List.head?_eq_some_iff.mp hhead
    exact hprefix x hx ⟨rest, rfl⟩
  · rintro ⟨hhead, hclosed, hsingle⟩
    refine ⟨⟨by simp, hclosed, hsingle, by simp⟩, ?_⟩
    rintro y _ ⟨rest, h⟩
    rw [← (List.cons.inj (List.cons.inj h).2).2] at hhead
    exact hhead rfl

/-- A split prefix escapes them. -/
theorem placed_split {x : Char} (hx : x = 'x' ∨ x = 'X') (tail : Str) :
    misplaced ('0' :: '_' :: x :: tail) = false ↔ Closed tail ∧ Single tail := by
  have hzero : ('0' : Char) ≠ '_' := by decide
  have hclosed : Closed ('_' :: x :: tail) ↔ Closed (x :: tail) := by
    unfold Closed
    rw [List.getLast?_cons_cons]
  rw [misplaced_eq_false, closed_cons hzero, hclosed, closed_cons (not_separator hx),
    single_cons hzero, single_separator (not_separator hx)]
  constructor
  · rintro ⟨⟨_, hclosed, hsingle, _⟩, _⟩
    exact ⟨hclosed, hsingle⟩
  · rintro ⟨hclosed, hsingle⟩
    refine ⟨⟨by simp, hclosed, hsingle, by simp⟩, ?_⟩
    rintro y hy ⟨rest, h⟩
    exact not_separator hy (List.cons.inj (List.cons.inj h).2).1

theorem accepted_split {x : Char} (hx : x = 'x' ∨ x = 'X') (tail : Str) (n : Nat) :
    Accepted ('0' :: '_' :: x :: tail) n ↔ MissedTail tail n := by
  unfold Accepted MissedTail
  rw [placed_split hx, unseparated_cons (by decide), unseparated_separator,
    unseparated_cons (not_separator hx), compactValue?_hex hx, fromStrRadix?_eq_some]
  constructor
  · rintro ⟨⟨hclosed, hsingle⟩, hvalue⟩
    exact ⟨hsingle, hclosed, hvalue⟩
  · rintro ⟨hsingle, hclosed, hvalue⟩
    exact ⟨⟨hclosed, hsingle⟩, hvalue⟩

/-- A text without a leading underscore keeps its first character. -/
theorem unseparated_head {s : Str} (h : s.head? ≠ some '_') :
    (unseparated s).head? = s.head? := by
  cases s with
  | nil => rfl
  | cons c s =>
      have hc : c ≠ '_' := fun heq => h (congrArg some heq)
      rw [unseparated_cons hc]
      rfl

theorem accepted_hex {x : Char} (hx : x = 'x' ∨ x = 'X') (tail : Str) (n : Nat) :
    Accepted ('0' :: x :: tail) n ↔
      n < 2 ^ 64 ∧ (Digits 16 tail n ∨ MissedTail tail n ∧ tail.head? = some '+') := by
  unfold Accepted
  rw [placed_hex hx, unseparated_cons (by decide), unseparated_cons (not_separator hx),
    compactValue?_hex hx, fromStrRadix?_eq_some]
  constructor
  · rintro ⟨⟨hhead, hclosed, hsingle⟩, hlt, digits, hne, hvalue, htext⟩
    refine ⟨hlt, ?_⟩
    -- the library parser takes digits, or a plus sign before them
    rcases htext with rfl | hplus
    · refine Or.inl (digits_iff.mpr ⟨?_, hhead, hclosed, hsingle, hvalue⟩)
      rintro rfl
      exact hne rfl
    · refine Or.inr ⟨⟨hsingle, hclosed, hlt, digits, hne, hvalue, Or.inr hplus⟩, ?_⟩
      rw [← unseparated_head hhead, hplus]
      rfl
  · rintro ⟨hlt, hdigits | ⟨⟨hsingle, hclosed, _, hvalue⟩, hplus⟩⟩
    · obtain ⟨hne, hhead, hclosed, hsingle, hvalue⟩ := digits_iff.mp hdigits
      refine ⟨⟨hhead, hclosed, hsingle⟩, hlt, unseparated tail, ?_, hvalue, Or.inl rfl⟩
      intro hnil
      have hfirst := unseparated_head hhead
      rw [hnil] at hfirst
      exact hne (List.head?_eq_none_iff.mp hfirst.symm)
    · refine ⟨⟨?_, hclosed, hsingle⟩, hlt, hvalue⟩
      rw [hplus]
      decide

/-- Where no prefix shows, the text is decimal. -/
theorem accepted_decimal {s : Str} {n : Nat}
    (h : ∀ x hex, x = 'x' ∨ x = 'X' → unseparated s ≠ '0' :: x :: hex) :
    Accepted s n ↔ n < 2 ^ 64 ∧ Digits 10 s n := by
  unfold Accepted
  rw [misplaced_eq_false, compactValue?_decimal h, fromStrRadix?_eq_some, digits_iff]
  constructor
  · rintro ⟨⟨⟨hhead, hclosed, hsingle, hunsigned⟩, _⟩, hlt, digits, hne, hvalue, htext⟩
    refine ⟨hlt, ?_, hhead, hclosed, hsingle, ?_⟩
    · rintro rfl
      rcases htext with rfl | hplus
      · exact hne rfl
      · cases hplus
    · rcases htext with rfl | hplus
      · exact hvalue
      -- a leading plus sign was refused in the raw text
      · rw [← unseparated_head hhead, hplus] at hunsigned
        exact absurd rfl hunsigned
  · rintro ⟨hlt, hne, hhead, hclosed, hsingle, hvalue⟩
    have hfirst := unseparated_head hhead
    obtain ⟨c, rest, rfl⟩ := List.exists_cons_of_ne_nil hne
    obtain ⟨digit, digits, hdigits⟩ :
        ∃ digit digits, unseparated (c :: rest) = digit :: digits := by
      refine List.exists_cons_of_ne_nil ?_
      intro hnil
      rw [hnil] at hfirst
      cases hfirst
    obtain rfl : digit = c := by
      rw [hdigits] at hfirst
      exact Option.some.inj hfirst
    refine ⟨⟨⟨hhead, hclosed, hsingle, ?_⟩, ?_⟩, hlt, unseparated (digit :: rest), ?_, hvalue,
      Or.inl rfl⟩
    · rw [hdigits] at hvalue
      obtain ⟨d, hd⟩ := digitsValue?_head hvalue
      intro hplus
      obtain rfl := Option.some.inj hplus
      cases hd
    · rintro x hx ⟨hex, hprefix⟩
      obtain ⟨rfl, hrest⟩ := List.cons.inj hprefix
      refine h x (unseparated hex) hx ?_
      rw [← hrest]
      show unseparated ('0' :: x :: '_' :: hex) = _
      rw [unseparated_cons (by decide), unseparated_cons (not_separator hx), unseparated_separator]
    · rw [hdigits]
      exact List.cons_ne_nil _ _

/-- Where a prefix that shows stands in the raw text. -/
theorem prefix_place {x : Char} {s hex : Str} (hx : x = 'x' ∨ x = 'X')
    (hhead : s.head? ≠ some '_') (hsingle : Single s) (h : unseparated s = '0' :: x :: hex) :
    ∃ tail, s = '0' :: x :: tail ∨ s = '0' :: '_' :: x :: tail := by
  cases s with
  | nil => cases h
  | cons c s =>
      have hc : c ≠ '_' := fun heq => hhead (congrArg some heq)
      rw [unseparated_cons hc] at h
      obtain ⟨rfl, hrest⟩ := List.cons.inj h
      rw [single_cons hc] at hsingle
      cases s with
      | nil => cases hrest
      | cons b s =>
          -- one underscore at most can stand between the two
          by_cases hb : b = '_'
          · subst hb
            cases s with
            | nil => cases hrest
            | cons a s =>
                have ha : a ≠ '_' := by
                  rintro rfl
                  exact hsingle ⟨[], s, rfl⟩
                rw [unseparated_separator, unseparated_cons ha] at hrest
                obtain ⟨rfl, -⟩ := List.cons.inj hrest
                exact ⟨s, Or.inr rfl⟩
          · rw [unseparated_cons hb] at hrest
            obtain ⟨rfl, -⟩ := List.cons.inj hrest
            exact ⟨s, Or.inl rfl⟩

/-- A prefix letter is no decimal digit. -/
theorem not_decimal_prefix {x : Char} {s hex : Str} {n : Nat} (hx : x = 'x' ∨ x = 'X')
    (h : unseparated s = '0' :: x :: hex) : ¬ Digits 10 s n := by
  intro hdigits
  have hvalue := hdigits.value
  rw [h] at hvalue
  have hnone : digitsValue? 10 ('0' :: x :: hex) = none := by
    rcases hx with rfl | rfl
    · rfl
    · rfl
  rw [hnone] at hvalue
  cases hvalue

/-- A slipped text is no numeral. -/
theorem numeral_not_slipped {s : Str} {m n : Nat} (h : Slipped s n) : ¬ Numeral s m := by
  -- the split prefix, then the sign behind the prefix
  obtain ⟨x, tail, hx, _, rfl | ⟨rfl, hplus⟩⟩ := h
  · rintro (hdecimal | ⟨y, rest, hy, htext, _⟩)
    · have hprefix : unseparated ('0' :: '_' :: x :: tail) = '0' :: x :: unseparated tail := by
        rw [unseparated_cons (by decide), unseparated_separator,
          unseparated_cons (not_separator hx)]
      exact not_decimal_prefix hx hprefix hdecimal
    · exact not_separator hy (List.cons.inj (List.cons.inj htext).2).1.symm
  · rintro (hdecimal | ⟨y, rest, hy, htext, hdigits⟩)
    · have hprefix : unseparated ('0' :: x :: tail) = '0' :: x :: unseparated tail := by
        rw [unseparated_cons (by decide), unseparated_cons (not_separator hx)]
      exact not_decimal_prefix hx hprefix hdecimal
    · obtain ⟨c, more, d, rfl, hd⟩ := hdigits.head
      rw [(List.cons.inj (List.cons.inj htext).2).2] at hplus
      obtain rfl := Option.some.inj hplus
      cases hd

/-- What is accepted: the numerals of 64 bits and the slipped texts. -/
theorem accepted_iff (s : Str) (n : Nat) :
    Accepted s n ↔ n < 2 ^ 64 ∧ (Numeral s n ∨ Slipped s n) := by
  constructor
  · intro h
    have hlt := accepted_lt h
    -- the prefix is looked for in the text without underscores
    by_cases hprefix : ∃ x hex, (x = 'x' ∨ x = 'X') ∧ unseparated s = '0' :: x :: hex
    · obtain ⟨x, hex, hx, hcompact⟩ := hprefix
      obtain ⟨⟨hhead, _, hsingle, _⟩, _⟩ := misplaced_eq_false.mp h.1
      obtain ⟨tail, rfl | rfl⟩ := prefix_place hx hhead hsingle hcompact
      · obtain ⟨_, hdigits | ⟨hmissed, hplus⟩⟩ := (accepted_hex hx tail n).mp h
        · exact ⟨hlt, Or.inl (Or.inr ⟨x, tail, hx, rfl, hdigits⟩)⟩
        · exact ⟨hlt, Or.inr ⟨x, tail, hx, hmissed, Or.inr ⟨rfl, hplus⟩⟩⟩
      · have hmissed := (accepted_split hx tail n).mp h
        exact ⟨hlt, Or.inr ⟨x, tail, hx, hmissed, Or.inl rfl⟩⟩
    · have hplain : ∀ x hex, x = 'x' ∨ x = 'X' → unseparated s ≠ '0' :: x :: hex :=
        fun x hex hx heq => hprefix ⟨x, hex, hx, heq⟩
      exact ⟨hlt, Or.inl (Or.inl ((accepted_decimal hplain).mp h).2)⟩
  · rintro ⟨hlt, (hdecimal | ⟨x, tail, hx, rfl, hdigits⟩) | ⟨x, tail, hx, hmissed, hplace⟩⟩
    · refine (accepted_decimal ?_).mpr ⟨hlt, hdecimal⟩
      intro x hex hx heq
      exact not_decimal_prefix hx heq hdecimal
    · exact (accepted_hex hx tail n).mpr ⟨hlt, Or.inl hdigits⟩
    · rcases hplace with rfl | ⟨rfl, hplus⟩
      · exact (accepted_split hx tail n).mpr hmissed
      · exact (accepted_hex hx tail n).mpr ⟨hlt, Or.inr ⟨hmissed, hplus⟩⟩

/-- **The grammar, with the two slips.** -/
theorem grammar_unless_slipped (s : Str) (line : Nat) :
    MeetsGrammar s line ↔ ∀ n, ¬ Slipped s n := by
  constructor
  · rintro ⟨hvalue, _⟩ n hslip
    have hlt : n < 2 ^ 64 := by
      obtain ⟨_, _, _, ⟨_, _, hlt, _⟩, _⟩ := hslip
      exact hlt
    have hn : (UInt64.ofNat n).toNat = n := UInt64.toNat_ofNat_of_lt' hlt
    have haccepted : Accepted s (UInt64.ofNat n).toNat := by
      rw [hn]
      exact (accepted_iff s n).mpr ⟨hlt, Or.inr hslip⟩
    -- a slipped text is no numeral, and the parser takes it
    exact numeral_not_slipped hslip ((hvalue _).mp (parseUsize_ok.mpr haccepted))
  · intro hsafe
    have hiff : ∀ n : UInt64, Accepted s n.toNat ↔ Numeral s n.toNat := by
      intro n
      rw [accepted_iff]
      constructor
      · rintro ⟨_, hnumeral | hslip⟩
        · exact hnumeral
        · exact absurd hslip (hsafe n.toNat)
      · intro hnumeral
        exact ⟨n.toNat_lt, Or.inl hnumeral⟩
    constructor
    · intro n
      rw [parseUsize_ok, hiff]
    · intro hnone
      exact parseUsize_refused line (fun n h => hnone n ((hiff n).mp h))

/-- A slipped text that is read does not meet the grammar. -/
theorem misses_of_slipped {s : Str} {n line : Nat} {v : UInt64} (h : Slipped s n)
    (hread : parseUsize s line = .ok v) : ¬ MeetsGrammar s line := fun hmeets =>
  numeral_not_slipped h ((hmeets.1 v).mp hread)

/-- A prefix split by an underscore, and a sign behind the prefix. -/
theorem grammar_misses_split_prefix :
    (parseUsize "0_x10".toList 1 = .ok 16 ∧ ¬ MeetsGrammar "0_x10".toList 1)
      ∧ parseUsize "0x+10".toList 1 = .ok 16 ∧ ¬ MeetsGrammar "0x+10".toList 1 := by
  have hsplit : Slipped "0_x10".toList 16 := by
    refine ⟨'x', "10".toList, Or.inl rfl, ⟨by decide, by decide, by decide, "10".toList, ?_⟩,
      Or.inl rfl⟩
    exact ⟨by decide, by decide, Or.inl rfl⟩
  have hsigned : Slipped "0x+10".toList 16 := by
    refine ⟨'x', "+10".toList, Or.inl rfl, ⟨by decide, by decide, by decide, "10".toList, ?_⟩,
      Or.inr ⟨rfl, rfl⟩⟩
    exact ⟨by decide, by decide, Or.inr rfl⟩
  have hread : parseUsize "0_x10".toList 1 = .ok 16 := by decide
  have hread' : parseUsize "0x+10".toList 1 = .ok 16 := by decide
  exact ⟨⟨hread, misses_of_slipped hsplit hread⟩, hread', misses_of_slipped hsigned hread'⟩

end TeamAttack
