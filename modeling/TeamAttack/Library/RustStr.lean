import Mathlib

/-! # Rust string slices

    A `str` is its list of Unicode scalar values.  Lengths and slice bounds
    are in UTF-8 bytes, as in Rust, so slicing is partial: `splitAtByte?`
    gives `none` where Rust panics, past the end or inside a character. -/

namespace RustStr

/-- A `str` as its characters. -/
abbrev Str := List Char

/-- `str::len`, in bytes. -/
def byteLen (s : Str) : Nat := (s.map Char.utf8Size).sum

/-- `str::bytes`. -/
def bytes (s : Str) : List UInt8 := s.flatMap String.utf8EncodeChar

/-- `str::split_at`, where it does not panic. -/
def splitAtByte? : Str → Nat → Option (Str × Str)
  | s, 0 => some ([], s)
  | [], _ + 1 => none
  | c :: s, n + 1 =>
      if c.utf8Size ≤ n + 1 then
        (splitAtByte? s (n + 1 - c.utf8Size)).map (fun r => (c :: r.1, r.2))
      else none

/-- `&s[..stop]`. -/
def sliceTo? (s : Str) (stop : Nat) : Option Str := (splitAtByte? s stop).map Prod.fst

/-- `&s[start..stop]`. -/
def slice? (s : Str) (start stop : Nat) : Option Str :=
  if start ≤ stop then
    (splitAtByte? s start).bind (fun r => sliceTo? r.2 (stop - start))
  else none

/-- `char::is_whitespace`, the Unicode `White_Space` characters. -/
def isWhitespace (c : Char) : Bool :=
  (0x9 ≤ c.toNat && c.toNat ≤ 0xd) || c.toNat = 0x20 || c.toNat = 0x85 || c.toNat = 0xa0
    || c.toNat = 0x1680 || (0x2000 ≤ c.toNat && c.toNat ≤ 0x200a) || c.toNat = 0x2028
    || c.toNat = 0x2029 || c.toNat = 0x202f || c.toNat = 0x205f || c.toNat = 0x3000

/-- `char::is_ascii_whitespace`. -/
def isAsciiWhitespace (c : Char) : Bool :=
  c = ' ' || c = '\t' || c = '\n' || c.toNat = 0xc || c = '\r'

/-- `u8::is_ascii_alphanumeric`. -/
def isAsciiAlphanumeric (b : UInt8) : Bool :=
  (0x30 ≤ b && b ≤ 0x39) || (0x41 ≤ b && b ≤ 0x5a) || (0x61 ≤ b && b ≤ 0x7a)

/-- `char::is_ascii`. -/
def isAscii (c : Char) : Bool := c.toNat < 0x80

/-- `str::trim`. -/
def trim (s : Str) : Str := (s.dropWhile isWhitespace).rdropWhile isWhitespace

/-- `str::split_once` at a character. -/
def splitOnce? (d : Char) : Str → Option (Str × Str)
  | [] => none
  | c :: s => if c = d then some ([], s) else (splitOnce? d s).map (fun r => (c :: r.1, r.2))

/-- `strip_suffix('\r')`, or the line unchanged. -/
def stripCr (s : Str) : Str := if s.getLast? = some '\r' then s.dropLast else s

/-- The lines of `current ++ s`, where `current` is the part of a line already
    read.  A last line without `\n` keeps its trailing `\r`. -/
def linesFrom (current : Str) : Str → List Str
  | [] => if current = [] then [] else [current]
  | c :: s =>
      if c = '\n' then stripCr current :: linesFrom [] s else linesFrom (current ++ [c]) s

/-- `str::lines`. -/
def lines (s : Str) : List Str := linesFrom [] s

/-- `char::to_digit`. -/
def toDigit? (radix : Nat) (c : Char) : Option Nat :=
  let d :=
    if '0' ≤ c ∧ c ≤ '9' then some (c.toNat - '0'.toNat)
    else if 'a' ≤ c ∧ c ≤ 'z' then some (c.toNat - 'a'.toNat + 10)
    else if 'A' ≤ c ∧ c ≤ 'Z' then some (c.toNat - 'A'.toNat + 10)
    else none
  d.filter (· < radix)

/-- The value of a digit string, most significant digit first. -/
def digitsValue? (radix : Nat) (s : Str) : Option Nat :=
  s.foldlM (fun n c => (toDigit? radix c).map (n * radix + ·)) 0

/-- `from_str_radix` of an unsigned type of `bits` bits: one leading `+` is
    skipped, at least one digit must remain, and the value must fit. -/
def fromStrRadix? (bits radix : Nat) (s : Str) : Option Nat :=
  let digits := match s with
    | '+' :: rest => rest
    | _ => s
  if digits = [] then none
  else (digitsValue? radix digits).filter (· < 2 ^ bits)

theorem fromStrRadix?_unsigned {c : Char} (hc : c ≠ '+') (bits radix : Nat) (s : Str) :
    fromStrRadix? bits radix (c :: s) = (digitsValue? radix (c :: s)).filter (· < 2 ^ bits) := by
  unfold fromStrRadix?
  dsimp only
  split
  · rename_i heq
    exact absurd (List.cons.inj heq).1 hc
  · exact if_neg (List.cons_ne_nil c s)

/-! ## Splitting -/

theorem splitOnce?_eq_none {d : Char} {s : Str} (h : d ∉ s) : splitOnce? d s = none := by
  induction s with
  | nil => rfl
  | cons c s ih =>
      rw [List.mem_cons, not_or] at h
      rw [splitOnce?, if_neg (Ne.symm h.1), ih h.2]
      rfl

/-- A text splits at the first occurrence. -/
theorem splitOnce?_append {d : Char} {key : Str} (h : d ∉ key) (value : Str) :
    splitOnce? d (key ++ d :: value) = some (key, value) := by
  induction key with
  | nil => exact if_pos rfl
  | cons c key ih =>
      rw [List.mem_cons, not_or] at h
      rw [List.cons_append, splitOnce?, if_neg (Ne.symm h.1), ih h.2]
      rfl

/-! ## Number formatting -/

/-- `{}` of an unsigned integer. -/
def decimal (n : Nat) : Str := Nat.toDigits 10 n

/-- `{:#x}`. -/
def hexLower (n : Nat) : Str := '0' :: 'x' :: Nat.toDigits 16 n

/-- `{:0width$X}`: upper-case hexadecimal, zero-padded on the left. -/
def hexUpper (width n : Nat) : Str :=
  let digits := (Nat.toDigits 16 n).map Char.toUpper
  List.replicate (width - digits.length) '0' ++ digits

/-- `{:0width$}`: decimal, zero-padded on the left. -/
def decimalPadded (width n : Nat) : Str :=
  let digits := decimal n
  List.replicate (width - digits.length) '0' ++ digits

/-! ## ASCII text

    Where every character is one byte, byte positions are character
    positions. -/

theorem utf8Size_ascii {c : Char} (h : isAscii c = true) : c.utf8Size = 1 := by
  rw [isAscii, decide_eq_true_eq] at h
  rw [Char.utf8Size_eq_one_iff]
  exact UInt32.le_iff_toNat_le.mpr (by show c.toNat ≤ 127; omega)

theorem byteLen_ascii {s : Str} (h : s.all isAscii = true) : byteLen s = s.length := by
  induction s with
  | nil => rfl
  | cons c rest ih =>
      rw [List.all_cons, Bool.and_eq_true] at h
      show c.utf8Size + byteLen rest = rest.length + 1
      rw [ih h.2, utf8Size_ascii h.1, Nat.add_comm]

theorem splitAtByte?_ascii {s : Str} (h : s.all isAscii = true) {n : Nat} (hn : n ≤ s.length) :
    splitAtByte? s n = some (s.take n, s.drop n) := by
  induction s generalizing n with
  | nil =>
      obtain rfl := Nat.le_zero.mp hn
      rfl
  | cons c rest ih =>
      rw [List.all_cons, Bool.and_eq_true] at h
      cases n with
      | zero => rfl
      | succ n =>
          have hrest := ih h.2 (Nat.le_of_succ_le_succ hn)
          rw [splitAtByte?, utf8Size_ascii h.1, if_pos (Nat.le_add_left 1 n),
            Nat.add_sub_cancel, hrest]
          rfl

theorem slice?_ascii {s : Str} (h : s.all isAscii = true) {start stop : Nat}
    (hstart : start ≤ stop) (hstop : stop ≤ s.length) :
    slice? s start stop = some ((s.drop start).take (stop - start)) := by
  have hrest : (s.drop start).all isAscii = true := by
    rw [List.all_eq_true] at h ⊢
    intro c hc
    exact h c (List.mem_of_mem_drop hc)
  rw [slice?, if_pos hstart, splitAtByte?_ascii h (Nat.le_trans hstart hstop), Option.bind_some,
    sliceTo?, splitAtByte?_ascii hrest (by rw [List.length_drop]; omega)]
  rfl

theorem utf8EncodeChar_ascii {c : Char} (h : isAscii c = true) :
    String.utf8EncodeChar c = [UInt8.ofNat c.toNat] := by
  rw [isAscii, decide_eq_true_eq] at h
  exact if_pos (Nat.le_of_lt_succ h)

/-- Beyond ASCII, no byte of a character is an ASCII one. -/
theorem utf8EncodeChar_high {c : Char} (h : isAscii c = false) :
    ∀ b ∈ String.utf8EncodeChar c, 128 ≤ b.toNat := by
  rw [isAscii, decide_eq_false_iff_not] at h
  have hnot : ¬ c.val.toNat ≤ 0x7f := fun hle => h (Nat.lt_succ_of_le hle)
  have hbyte : ∀ n, 128 ≤ n → n < 256 → 128 ≤ (UInt8.ofNat n).toNat := by
    intro n hlow hhigh
    rw [UInt8.toNat_ofNat_of_lt' hhigh]
    exact hlow
  rw [String.utf8EncodeChar, if_neg hnot]
  split_ifs
  · simp only [List.forall_mem_cons]
    exact ⟨hbyte _ (by omega) (by omega), hbyte _ (by omega) (by omega), List.forall_mem_nil _⟩
  · simp only [List.forall_mem_cons]
    exact ⟨hbyte _ (by omega) (by omega), hbyte _ (by omega) (by omega),
      hbyte _ (by omega) (by omega), List.forall_mem_nil _⟩
  · simp only [List.forall_mem_cons]
    exact ⟨hbyte _ (by omega) (by omega), hbyte _ (by omega) (by omega),
      hbyte _ (by omega) (by omega), hbyte _ (by omega) (by omega), List.forall_mem_nil _⟩

end RustStr
