import TeamAttack.Library.RustStr

/-! # Hexadecimal text

    Digits and pairs of digits read as numbers and bytes, and the relation to
    `from_str_radix` and to upper-case formatting. -/

namespace HexText

open RustStr

/-- `0-9`, `a-f` and `A-F`. -/
def isHexDigit (c : Char) : Bool :=
  ('0' ≤ c && c ≤ '9') || ('a' ≤ c && c ≤ 'f') || ('A' ≤ c && c ≤ 'F')

/-- The value of a hexadecimal digit. -/
def hexValue (c : Char) : Nat :=
  if c ≤ '9' then c.toNat - 48 else if c ≤ 'F' then c.toNat - 55 else c.toNat - 87

/-- Two digits a byte, the high one first. -/
def hexBytes : Str → List UInt8
  | hi :: lo :: rest => UInt8.ofNat (16 * hexValue hi + hexValue lo) :: hexBytes rest
  | _ => []

theorem char_le_iff {a b : Char} : a ≤ b ↔ a.toNat ≤ b.toNat := Iff.rfl

theorem isHexDigit_iff {c : Char} : isHexDigit c = true ↔
    (48 ≤ c.toNat ∧ c.toNat ≤ 57) ∨ (97 ≤ c.toNat ∧ c.toNat ≤ 102)
      ∨ (65 ≤ c.toNat ∧ c.toNat ≤ 70) := by
  simp only [isHexDigit, Bool.or_eq_true, Bool.and_eq_true, decide_eq_true_eq, char_le_iff,
    or_assoc]
  exact Iff.rfl

theorem hexValue_eq (c : Char) : hexValue c
    = if c.toNat ≤ 57 then c.toNat - 48
      else if c.toNat ≤ 70 then c.toNat - 55 else c.toNat - 87 := rfl

theorem hexValue_lt {c : Char} (h : isHexDigit c = true) : hexValue c < 16 := by
  have hc := isHexDigit_iff.mp h
  rw [hexValue_eq]
  split_ifs
  · omega
  · omega
  · omega

theorem isAscii_of_hexDigit {c : Char} (h : isHexDigit c = true) : isAscii c = true := by
  have hc := isHexDigit_iff.mp h
  rw [isAscii, decide_eq_true_eq]
  omega

/-- `to_digit(16)` knows the hexadecimal digits and no others. -/
theorem toDigit?_sixteen (c : Char) :
    toDigit? 16 c = if isHexDigit c then some (hexValue c) else none := by
  have hdigit := isHexDigit_iff (c := c)
  have hraw : toDigit? 16 c
      = (if 48 ≤ c.toNat ∧ c.toNat ≤ 57 then some (c.toNat - 48)
        else if 97 ≤ c.toNat ∧ c.toNat ≤ 122 then some (c.toNat - 97 + 10)
        else if 65 ≤ c.toNat ∧ c.toNat ≤ 90 then some (c.toNat - 65 + 10)
        else none).filter (· < 16) := rfl
  rw [hraw, hexValue_eq]
  by_cases hc : isHexDigit c = true
  · rw [if_pos hc]
    rcases hdigit.mp hc with h | h | h
    · rw [if_pos h, if_pos h.2, Option.filter_some, if_pos (decide_eq_true (by omega))]
    · rw [if_neg (by omega), if_pos (by omega), if_neg (by omega), if_neg (by omega),
        Option.filter_some, if_pos (decide_eq_true (by omega))]
      congr 1
      omega
    · rw [if_neg (by omega), if_neg (by omega), if_pos (by omega), if_neg (by omega),
        if_pos h.2, Option.filter_some, if_pos (decide_eq_true (by omega))]
      congr 1
      omega
  · rw [if_neg hc]
    rw [hdigit] at hc
    -- a letter after `f` has a value, but one too large for the radix
    rw [if_neg (by omega)]
    split_ifs with h1 h2
    · rw [Option.filter_some, if_neg (by rw [decide_eq_true_eq]; omega)]
    · rw [Option.filter_some, if_neg (by rw [decide_eq_true_eq]; omega)]
    · rfl

/-! ## One pair -/

/-- **What an eight-bit parse of two characters accepts**: two digits, and
    also a plus sign followed by one. -/
theorem fromStrRadix?_pair (hi lo : Char) :
    fromStrRadix? 8 16 [hi, lo]
      = if isHexDigit hi && isHexDigit lo then some (16 * hexValue hi + hexValue lo)
        else if hi = '+' && isHexDigit lo then some (hexValue lo)
        else none := by
  -- only a plus sign is no digit and still accepted
  by_cases hplus : hi = '+'
  · subst hplus
    have hraw : fromStrRadix? 8 16 ['+', lo]
        = (((toDigit? 16 lo).map (0 * 16 + ·)).bind some).filter (· < 2 ^ 8) := rfl
    have hsign : isHexDigit '+' = false := rfl
    rw [hraw, toDigit?_sixteen, hsign, Bool.false_and, if_neg Bool.false_ne_true,
      decide_eq_true rfl, Bool.true_and]
    cases hlo : isHexDigit lo with
    | false => rfl
    | true =>
        have hlt := hexValue_lt hlo
        rw [if_pos rfl, Option.map_some, Option.bind_some, Option.filter_some,
          if_pos (decide_eq_true (by omega)), Nat.zero_mul, Nat.zero_add]
  · have hraw : fromStrRadix? 8 16 [hi, lo]
        = (((toDigit? 16 hi).map (0 * 16 + ·)).bind fun n =>
            ((toDigit? 16 lo).map (n * 16 + ·)).bind some).filter (· < 2 ^ 8) :=
      fromStrRadix?_unsigned hplus 8 16 [lo]
    rw [hraw, toDigit?_sixteen, toDigit?_sixteen, decide_eq_false hplus, Bool.false_and,
      if_neg (c := false = true) Bool.false_ne_true]
    cases hhi : isHexDigit hi with
    | false => rfl
    | true =>
        cases hlo : isHexDigit lo with
        | false => rfl
        | true =>
            have hlthi := hexValue_lt hhi
            have hltlo := hexValue_lt hlo
            rw [if_pos rfl, if_pos rfl, if_pos (by rfl), Option.map_some, Option.bind_some,
              Option.map_some, Option.bind_some, Option.filter_some,
              if_pos (decide_eq_true (by omega))]
            congr 1
            omega

/-! ## Upper-case text -/

/-- The number written by hexadecimal digits. -/
def hexNumber (s : Str) : Nat := s.foldl (fun n c => 16 * n + hexValue c) 0

theorem hexNumber_concat (s : Str) (c : Char) :
    hexNumber (s ++ [c]) = 16 * hexNumber s + hexValue c := by
  rw [hexNumber, hexNumber, List.foldl_append, List.foldl_cons, List.foldl_nil]

theorem hexNumber_zeros (k : Nat) (s : Str) :
    hexNumber (List.replicate k '0' ++ s) = hexNumber s := by
  induction k with
  | zero => rfl
  | succ k ih => exact ih

theorem digitChar_upper : ∀ d : Fin 16, isHexDigit (Nat.digitChar d.val).toUpper = true
    ∧ hexValue (Nat.digitChar d.val).toUpper = d.val
    ∧ isHexDigit (Nat.digitChar d.val) = true := by
  decide

/-- The digits of a number, in upper case, are hexadecimal and write it. -/
theorem upperDigits (n : Nat) :
    (∀ c ∈ (Nat.toDigits 16 n).map Char.toUpper, isHexDigit c = true)
      ∧ hexNumber ((Nat.toDigits 16 n).map Char.toUpper) = n := by
  induction n using Nat.strong_induction_on with
  | _ n ih =>
      -- the last digit, and the digits of the quotient before it
      rw [Nat.toDigits_eq_if (by decide)]
      by_cases hn : n < 16
      · obtain ⟨hdigit, hvalue, -⟩ := digitChar_upper ⟨n, hn⟩
        rw [if_pos hn, List.map_singleton]
        refine ⟨?_, ?_⟩
        · intro c hc
          rw [List.mem_singleton.mp hc]
          exact hdigit
        · rw [hexNumber, List.foldl_cons, List.foldl_nil, hvalue, Nat.mul_zero, Nat.zero_add]
      · obtain ⟨hdigit, hvalue, -⟩ := digitChar_upper ⟨n % 16, Nat.mod_lt n (by decide)⟩
        obtain ⟨hrest, hnumber⟩ := ih (n / 16) (by omega)
        rw [if_neg hn, List.map_append, List.map_singleton]
        refine ⟨?_, ?_⟩
        · intro c hc
          rcases List.mem_append.mp hc with hc | hc
          · exact hrest c hc
          · rw [List.mem_singleton.mp hc]
            exact hdigit
        · rw [hexNumber_concat, hnumber, hvalue]
          exact Nat.div_add_mod n 16

theorem hexUpper_digits (width n : Nat) : ∀ c ∈ hexUpper width n, isHexDigit c = true := by
  intro c hc
  rcases List.mem_append.mp hc with hc | hc
  · rw [List.eq_of_mem_replicate hc]
    rfl
  · exact (upperDigits n).1 c hc

/-- **`{:0width$X}` can be read back.** -/
theorem hexNumber_hexUpper (width n : Nat) : hexNumber (hexUpper width n) = n :=
  (hexNumber_zeros _ _).trans (upperDigits n).2

/-- The digits `{:02X}` prints for a byte read back as the byte. -/
theorem hexUpper_pair (n : Fin 256) : ∃ hi lo, hexUpper 2 n.val = [hi, lo]
    ∧ isHexDigit hi = true ∧ isHexDigit lo = true ∧ 16 * hexValue hi + hexValue lo = n.val := by
  have hdigits := hexUpper_digits 2 n.val
  have hnumber := hexNumber_hexUpper 2 n.val
  have hshort : (Nat.toDigits 16 n.val).length ≤ 2 :=
    (Nat.length_toDigits_le_iff (by decide) (by decide)).mpr n.isLt
  have hlength : (hexUpper 2 n.val).length = 2 := by
    rw [hexUpper, List.length_append, List.length_replicate, List.length_map]
    omega
  obtain ⟨hi, lo, hpair⟩ := List.length_eq_two.mp hlength
  rw [hpair] at hdigits hnumber
  rw [hexNumber, List.foldl_cons, List.foldl_cons, List.foldl_nil] at hnumber
  refine ⟨hi, lo, hpair, hdigits hi List.mem_cons_self,
    hdigits lo (List.mem_cons_of_mem hi List.mem_cons_self), ?_⟩
  omega

/-- The digits of `{:x}`. -/
theorem toDigits_hexDigit (n : Nat) : ∀ c ∈ Nat.toDigits 16 n, isHexDigit c = true := by
  induction n using Nat.strong_induction_on with
  | _ n ih =>
      rw [Nat.toDigits_eq_if (by decide)]
      intro c hc
      by_cases hn : n < 16
      · rw [if_pos hn, List.mem_singleton] at hc
        rw [hc]
        exact (digitChar_upper ⟨n, hn⟩).2.2
      · rw [if_neg hn, List.mem_append, List.mem_singleton] at hc
        rcases hc with hc | hc
        · exact ih (n / 16) (by omega) c hc
        · rw [hc]
          exact (digitChar_upper ⟨n % 16, Nat.mod_lt n (by decide)⟩).2.2

end HexText
