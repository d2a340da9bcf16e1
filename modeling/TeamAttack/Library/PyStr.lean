import TeamAttack.Library.HexText

/-! # Python text

    The `str` methods and regular-expression pieces that readers of log files
    use, on a text as its list of characters: splitting into lines and words,
    stripping, and numbers in decimal digits of any script.  A piece of a
    pattern takes what it matches off the front of a text. -/

namespace PyStr

open RustStr (Str decimal decimalPadded)
open HexText

/-- `str.isspace` of one character, and what `\s` matches. -/
def isSpace (c : Char) : Bool :=
  (0x9 ≤ c.toNat && c.toNat ≤ 0xd) || (0x1c ≤ c.toNat && c.toNat ≤ 0x20) || c.toNat = 0x85
    || c.toNat = 0xa0 || c.toNat = 0x1680 || (0x2000 ≤ c.toNat && c.toNat ≤ 0x200a)
    || c.toNat = 0x2028 || c.toNat = 0x2029 || c.toNat = 0x202f || c.toNat = 0x205f
    || c.toNat = 0x3000

/-- Where `str.splitlines` breaks. -/
def isLineBreak (c : Char) : Bool :=
  (0xa ≤ c.toNat && c.toNat ≤ 0xd) || (0x1c ≤ c.toNat && c.toNat ≤ 0x1e) || c.toNat = 0x85
    || c.toNat = 0x2028 || c.toNat = 0x2029

/-- The zeros of the runs of ten decimal digits in the basic plane, as of
    Unicode 14. -/
def basicZeros : List Nat :=
  [0x30, 0x660, 0x6f0, 0x7c0, 0x966, 0x9e6, 0xa66, 0xae6, 0xb66, 0xbe6, 0xc66, 0xce6, 0xd66,
    0xde6, 0xe50, 0xed0, 0xf20, 0x1040, 0x1090, 0x17e0, 0x1810, 0x1946, 0x19d0, 0x1a80, 0x1a90,
    0x1b50, 0x1bb0, 0x1c40, 0x1c50, 0xa620, 0xa8d0, 0xa900, 0xa9d0, 0xa9f0, 0xaa50, 0xabf0,
    0xff10]

/-- The zeros of the runs beyond the basic plane. -/
def furtherZeros : List Nat :=
  [0x104a0, 0x10d30, 0x11066, 0x110f0, 0x11136, 0x111d0, 0x112f0, 0x11450, 0x114d0, 0x11650,
    0x116c0, 0x11730, 0x118e0, 0x11950, 0x11c50, 0x11d50, 0x11da0, 0x16a60, 0x16ac0, 0x16b50,
    0x1d7ce, 0x1d7d8, 0x1d7e2, 0x1d7ec, 0x1d7f6, 0x1e140, 0x1e2f0, 0x1e950, 0x1fbf0]

/-- Is `c` in the run of digits from `first`? -/
def inRun (c : Char) (first : Nat) : Bool := first ≤ c.toNat && c.toNat < first + 10

/-- The value of a decimal digit of any script. -/
def digit? (c : Char) : Option Nat :=
  ((basicZeros ++ furtherZeros).find? (inRun c)).map (c.toNat - ·)

/-- What `\d` matches. -/
def isDecimal (c : Char) : Bool := (digit? c).isSome

/-- `str.strip()`. -/
def strip (s : Str) : Str := (s.dropWhile isSpace).rdropWhile isSpace

/-- The lines of `current ++ s`, where `current` is the part of a line already
    read. -/
def linesFrom (current : Str) : Str → List Str
  | [] => if current = [] then [] else [current]
  | '\r' :: '\n' :: s => current :: linesFrom [] s
  | c :: s => if isLineBreak c then current :: linesFrom [] s else linesFrom (current ++ [c]) s

/-- `str.splitlines()`. -/
def splitlines (s : Str) : List Str := linesFrom [] s

/-- `str.split()`. -/
def split (s : Str) : List Str := (s.splitOnP isSpace).filter (· ≠ [])

/-- A literal piece of a pattern, or a prefix to remove. -/
def literal? : (p s : Str) → Option Str
  | [], s => some s
  | _ :: _, [] => none
  | a :: p, c :: s => if a = c then literal? p s else none

/-- `str.startswith`. -/
def startsWith (s p : Str) : Bool := (literal? p s).isSome

/-- The pattern `(\d+)`. -/
def digits? (s : Str) : Option (Str × Str) :=
  if s.takeWhile isDecimal = [] then none
  else some (s.takeWhile isDecimal, s.dropWhile isDecimal)

/-- `int` of decimal digits.  The interpreter refuses the empty text and more
    than 4300 digits. -/
def int? (digits : Str) : Option Nat :=
  if digits = [] ∨ 4300 < digits.length then none
  else digits.foldlM (fun n c => (digit? c).map (n * 10 + ·)) 0

/-- `bytes.decode("utf-8")`. -/
def decodeUtf8? (data : List UInt8) : Option Str := (data.toByteArray.utf8Decode?).map (·.toList)

/-! ## Lines -/

theorem space_of_lineBreak {c : Char} (h : isLineBreak c = true) : isSpace c = true := by
  simp only [isLineBreak, isSpace, Bool.or_eq_true, Bool.and_eq_true, decide_eq_true_eq] at h ⊢
  omega

theorem linesFrom_of_unbroken {l : Str} (h : ∀ c ∈ l, isLineBreak c = false) (rest : Str) :
    ∀ current, linesFrom current (l ++ '\n' :: rest) = (current ++ l) :: linesFrom [] rest := by
  induction l with
  | nil =>
      intro current
      rw [List.nil_append, List.append_nil, linesFrom]
      · rfl
      · intro s heq
        cases heq
  | cons c l ih =>
      intro current
      rw [List.forall_mem_cons] at h
      rw [List.cons_append, linesFrom, h.1, if_neg Bool.false_ne_true, ih h.2,
        List.append_assoc, List.singleton_append]
      rintro s rfl
      exact absurd h.1 (by decide)

/-- **Lines that were written line by line are read back.** -/
theorem splitlines_flatMap {ls : List Str} (h : ∀ l ∈ ls, ∀ c ∈ l, isLineBreak c = false) :
    splitlines (ls.flatMap (· ++ ['\n'])) = ls := by
  induction ls with
  | nil => rfl
  | cons l ls ih =>
      rw [List.forall_mem_cons] at h
      have hrest := ih h.2
      rw [splitlines] at hrest ⊢
      rw [List.flatMap_cons, List.append_assoc, List.singleton_append,
        linesFrom_of_unbroken h.1, List.nil_append, hrest]

/-! ## Stripping -/

/-- Neither the first nor the last character is a space. -/
def Stripped (s : Str) : Prop :=
  (∀ c ∈ s.head?, isSpace c = false) ∧ ∀ c ∈ s.getLast?, isSpace c = false

theorem strip_of_stripped {s : Str} (h : Stripped s) : strip s = s := by
  have hfront : s.dropWhile isSpace = s := by
    cases s with
    | nil => rfl
    | cons c s => exact List.dropWhile_cons_of_neg (by simp [h.1 c rfl])
  rw [strip, hfront]
  rcases List.eq_nil_or_concat s with rfl | ⟨s', c, rfl⟩
  · rfl
  · have hc : isSpace c = false := h.2 c (by simp)
    rw [List.concat_eq_append]
    exact List.rdropWhile_concat_neg _ _ _ (by rw [hc]; exact Bool.false_ne_true)

/-! ## Words -/

theorem split_append {x y : Str} {c : Char} (hc : isSpace c = true) :
    split (x ++ c :: y) = split x ++ split y := by
  rw [split, List.splitOnP_append_cons x y hc, List.filter_append]
  rfl

theorem split_word {w : Str} (hne : w ≠ []) (h : ∀ c ∈ w, isSpace c = false) :
    split w = [w] := by
  rw [split, List.splitOnP_eq_singleton h]
  exact List.filter_cons_of_pos (by simpa using hne)

theorem split_cons_space {c : Char} (hc : isSpace c = true) (s : Str) :
    split (c :: s) = split s := by
  have := split_append (x := []) (y := s) hc
  simpa [split] using this

/-- **Words separated by single spaces are read back.** -/
theorem split_words {ws : List Str} (h : ∀ w ∈ ws, w ≠ [] ∧ ∀ c ∈ w, isSpace c = false) :
    split (ws.flatMap (' ' :: ·)) = ws := by
  induction ws with
  | nil => rfl
  | cons w ws ih =>
      rw [List.forall_mem_cons] at h
      have hrest := ih h.2
      rw [List.flatMap_cons, List.cons_append, split_cons_space (by decide)]
      cases ws with
      | nil => rw [List.flatMap_nil, List.append_nil, split_word h.1.1 h.1.2]
      | cons w' ws' =>
          rw [List.flatMap_cons, List.cons_append, split_cons_space (by decide)] at hrest
          rw [List.flatMap_cons, List.cons_append, split_append (by decide), hrest,
            split_word h.1.1 h.1.2]
          rfl

/-- Spaces in front make no word. -/
theorem split_dropWhile (s : Str) : split (s.dropWhile isSpace) = split s := by
  induction s with
  | nil => rfl
  | cons c s ih =>
      by_cases hc : isSpace c = true
      · rw [List.dropWhile_cons_of_pos hc, ih, split_cons_space hc]
      · rw [List.dropWhile_cons_of_neg hc]

/-! ## Pieces of patterns -/

@[simp] theorem literal?_append (p s : Str) : literal? p (p ++ s) = some s := by
  induction p with
  | nil => rfl
  | cons a p ih =>
      rw [List.cons_append, literal?, if_pos rfl, ih]

theorem literal?_eq_some {p s rest : Str} : literal? p s = some rest ↔ s = p ++ rest := by
  constructor
  · intro h
    induction p generalizing s with
    | nil => exact Option.some.inj h
    | cons a p ih =>
        cases s with
        | nil => cases h
        | cons c s =>
            rw [literal?] at h
            split_ifs at h with hac
            rw [hac, ih h, List.cons_append]
  · rintro rfl
    exact literal?_append p rest

@[simp] theorem startsWith_append (p s : Str) : startsWith (p ++ s) p = true := by
  rw [startsWith, literal?_append]
  rfl

/-! ## Decimal text -/

theorem digit?_ascii {c : Char} (h : 48 ≤ c.toNat) (h' : c.toNat ≤ 57) :
    digit? c = some (c.toNat - 48) := by
  have hzero : inRun c 0x30 = true := by
    rw [inRun, Bool.and_eq_true, decide_eq_true_eq, decide_eq_true_eq]
    omega
  rw [digit?, basicZeros, List.cons_append, List.find?_cons_of_pos hzero]
  rfl

/-- The ASCII digits. -/
def IsDigits (s : Str) : Prop := ∀ c ∈ s, 48 ≤ c.toNat ∧ c.toNat ≤ 57

theorem isDigits_decimal (n : Nat) : IsDigits (decimal n) := by
  intro c hc
  have hdigit := Nat.isDigit_of_mem_toDigits (by decide) (by decide) hc
  rw [Char.isDigit, Bool.and_eq_true, decide_eq_true_eq, decide_eq_true_eq] at hdigit
  exact hdigit

theorem isDigits_decimalPadded (width n : Nat) : IsDigits (decimalPadded width n) := by
  intro c hc
  rw [decimalPadded, List.mem_append] at hc
  rcases hc with hc | hc
  · rw [List.eq_of_mem_replicate hc]
    decide
  · exact isDigits_decimal n c hc

theorem IsDigits.decimal {s : Str} (h : IsDigits s) : ∀ c ∈ s, isDecimal c = true := by
  intro c hc
  rw [isDecimal, digit?_ascii (h c hc).1 (h c hc).2]
  rfl

/-- Digits are taken up to the first character that is none. -/
theorem digits?_append {s rest : Str} (h : IsDigits s) (hne : s ≠ [])
    (hrest : ∀ c ∈ rest.head?, isDecimal c = false) :
    digits? (s ++ rest) = some (s, rest) := by
  have hhead : rest.takeWhile isDecimal = [] ∧ rest.dropWhile isDecimal = rest := by
    cases rest with
    | nil => exact ⟨rfl, rfl⟩
    | cons c rest =>
        have hc : ¬ isDecimal c = true := by simp [hrest c rfl]
        exact ⟨List.takeWhile_cons_of_neg hc, List.dropWhile_cons_of_neg hc⟩
  rw [digits?, List.takeWhile_append_of_pos h.decimal, List.dropWhile_append_of_pos h.decimal,
    hhead.1, hhead.2, List.append_nil, if_neg hne]

theorem foldlM_digits {s : Str} (h : IsDigits s) : ∀ n,
    s.foldlM (fun n c => (digit? c).map (n * 10 + ·)) n = some (Nat.ofDigitChars 10 s n) := by
  induction s with
  | nil =>
      intro n
      rw [Nat.ofDigitChars_nil]
      rfl
  | cons c s ih =>
      intro n
      have hc := h c List.mem_cons_self
      rw [List.foldlM_cons, digit?_ascii hc.1 hc.2, Nat.ofDigitChars_cons, Nat.mul_comm 10 n]
      exact ih (fun d hd => h d (List.mem_cons_of_mem c hd)) _

theorem int?_digits {s : Str} (h : IsDigits s) (hne : s ≠ []) (hlength : s.length ≤ 4300) :
    int? s = some (Nat.ofDigitChars 10 s 0) := by
  rw [int?, if_neg (not_or.mpr ⟨hne, Nat.not_lt.mpr hlength⟩), foldlM_digits h]

theorem decimal_ne_nil (n : Nat) : decimal n ≠ [] := Nat.toDigits_ne_nil

theorem decimalPadded_ne_nil (width n : Nat) : decimalPadded width n ≠ [] :=
  List.append_ne_nil_of_right_ne_nil _ (decimal_ne_nil n)

theorem decimal_length {n k : Nat} (hk : 0 < k) (hn : n < 10 ^ k) : (decimal n).length ≤ k :=
  (Nat.length_toDigits_le_iff (by decide) hk).mpr hn

/-- **A printed 64-bit number is read back.** -/
theorem int?_decimal_word {n : Nat} (hn : n < 2 ^ 64) : int? (decimal n) = some n := by
  have hlength : (decimal n).length ≤ 20 :=
    decimal_length (by decide) (Nat.lt_of_lt_of_le hn (by decide))
  rw [int?_digits (isDigits_decimal n) (decimal_ne_nil n)
    (Nat.le_trans hlength (by decide)), decimal, Nat.ofDigitChars_ten_toDigits]

/-- Leading zeros do not count. -/
theorem int?_decimalPadded {width n : Nat} (hwidth : width ≤ 4300) (hn : n < 2 ^ 64) :
    int? (decimalPadded width n) = some n := by
  have hlength : (decimalPadded width n).length ≤ 4300 := by
    have : (decimal n).length ≤ 20 :=
      decimal_length (by decide) (Nat.lt_of_lt_of_le hn (by decide))
    rw [decimalPadded, List.length_append, List.length_replicate]
    omega
  rw [int?_digits (isDigits_decimalPadded width n) (decimalPadded_ne_nil width n) hlength,
    decimalPadded, Nat.ofDigitChars_append, Nat.ofDigitChars_replicate_zero, Nat.mul_zero, decimal,
    Nat.ofDigitChars_ten_toDigits]

/-! ## Files -/

theorem decodeUtf8?_bytes (s : Str) : decodeUtf8? (RustStr.bytes s) = some s := by
  have hencode : (RustStr.bytes s).toByteArray = s.utf8Encode := rfl
  rw [decodeUtf8?, hencode, List.utf8Decode?_utf8Encode]
  rfl

end PyStr
