import TeamAttack.Library.LittleEndian

/-! # The LZ4 block format

    A block is a list of sequences, each a run of literals and a match, and
    perhaps a last run of literals.  Its bytes are the token of the two
    lengths, what of a length does not fit its nibble in runs of 255, the
    literals and the offset.  Its expansion copies a match byte by byte, so
    that a match may overlap what it writes. -/

namespace Lz4

open LittleEndian

/-- Literals, then a match of `matchLength` bytes from `offset` bytes back. -/
structure Sequence where
  literals : List UInt8
  offset : Nat
  matchLength : Nat

/-- The last run of literals, with the low nibble of its token. -/
structure Tail where
  literals : List UInt8
  low : Fin 16

structure Block where
  sequences : List Sequence
  last : Option Tail

/-! ## Serialisation -/

/-- A number in runs of 255. -/
def extension (n : Nat) : List UInt8 :=
  List.replicate (n / 255) 255 ++ [UInt8.ofNat (n % 255)]

/-- The nibble of a length. -/
def nibble (n : Nat) : Nat := min n 15

/-- What a length adds behind its nibble. -/
def lengthBytes (n : Nat) : List UInt8 := if n < 15 then [] else extension (n - 15)

def token (high low : Nat) : UInt8 := UInt8.ofNat (16 * high + low)

def Sequence.bytes (s : Sequence) : List UInt8 :=
  token (nibble s.literals.length) (nibble (s.matchLength - 4))
    :: (lengthBytes s.literals.length ++ (s.literals
      ++ (toLe 2 s.offset ++ lengthBytes (s.matchLength - 4))))

def Tail.bytes (t : Tail) : List UInt8 :=
  token (nibble t.literals.length) t.low.val
    :: (lengthBytes t.literals.length ++ t.literals)

def Block.bytes (b : Block) : List UInt8 :=
  b.sequences.flatMap Sequence.bytes ++ (b.last.map Tail.bytes).getD []

/-! ## Expansion -/

/-- `n` bytes copied one by one, each from `offset` bytes back. -/
def copied (out : List UInt8) (offset : Nat) : Nat → List UInt8
  | 0 => out
  | n + 1 =>
      let r := copied out offset n
      r ++ [r.getD (r.length - offset) 0]

def Sequence.expand (out : List UInt8) (s : Sequence) : List UInt8 :=
  copied (out ++ s.literals) s.offset s.matchLength

/-- A sequence that may follow the output so far. -/
structure Sequence.Fits (out : List UInt8) (s : Sequence) : Prop where
  matchLength : 4 ≤ s.matchLength
  positive : 1 ≤ s.offset
  word : s.offset < 2 ^ 16
  reached : s.offset ≤ out.length + s.literals.length

/-- Sequences each of which fits the output before it. -/
def FitFrom (out : List UInt8) : List Sequence → Prop
  | [] => True
  | s :: rest => s.Fits out ∧ FitFrom (s.expand out) rest

def Block.expandFrom (b : Block) (out : List UInt8) : List UInt8 :=
  b.sequences.foldl Sequence.expand out ++ (b.last.map Tail.literals).getD []

/-- A block of the format. -/
def Block.Valid (b : Block) : Prop := FitFrom [] b.sequences

def Block.expansion (b : Block) : List UInt8 := b.expandFrom []

/-! ## Lengths -/

theorem length_copied (out : List UInt8) (offset n : Nat) :
    (copied out offset n).length = out.length + n := by
  induction n with
  | zero => rfl
  | succ n ih =>
      rw [copied, List.length_append, ih]
      rfl

theorem length_expand (out : List UInt8) (s : Sequence) :
    (s.expand out).length = out.length + s.literals.length + s.matchLength := by
  rw [Sequence.expand, length_copied, List.length_append]

theorem length_le_foldl (sequences : List Sequence) (out : List UInt8) :
    out.length ≤ (sequences.foldl Sequence.expand out).length := by
  induction sequences generalizing out with
  | nil => exact le_rfl
  | cons s rest ih =>
      have hexpand := length_expand out s
      exact Nat.le_trans (by omega) (ih (s.expand out))

/-- An expansion only grows. -/
theorem length_le_expandFrom (b : Block) (out : List UInt8) :
    out.length ≤ (b.expandFrom out).length := by
  rw [Block.expandFrom, List.length_append]
  exact Nat.le_add_right_of_le (length_le_foldl b.sequences out)

/-- **An overlapping match repeats.**  Its bytes are the `offset` bytes before
    it, over and over. -/
theorem copied_repeats {out : List UInt8} {offset : Nat} (hpos : 1 ≤ offset)
    (hreached : offset ≤ out.length) (n : Nat) :
    copied out offset n
      = out ++ (List.range n).map (fun i => out.getD (out.length - offset + i % offset) 0) := by
  induction n with
  | zero => rw [copied, List.range_zero, List.map_nil, List.append_nil]
  | succ n ih =>
      rw [copied, List.range_succ, List.map_append, List.map_singleton, ← List.append_assoc, ← ih,
        length_copied]
      congr 2
      rw [ih]
      by_cases hfirst : n < offset
      · rw [Nat.mod_eq_of_lt hfirst, List.getD_append _ _ _ _ (by omega)]
        congr 1
        omega
      · rw [List.getD_append_right _ _ _ _ (by omega),
          show out.length + n - offset - out.length = n - offset by omega,
          List.getD_eq_getElem _ _ (by rw [List.length_map, List.length_range]; omega),
          List.getElem_map, List.getElem_range, Nat.mod_eq_sub_mod (by omega : offset ≤ n)]

/-! ## Length bytes -/

theorem extension_small {n : Nat} (h : n < 255) : extension n = [UInt8.ofNat n] := by
  rw [extension, Nat.div_eq_of_lt h, Nat.mod_eq_of_lt h]
  rfl

theorem extension_large (n : Nat) : extension (n + 255) = 255 :: extension n := by
  rw [extension, Nat.add_div_right n (by decide), Nat.add_mod_right, List.replicate_succ]
  rfl

theorem extension_pos (n : Nat) : 0 < (extension n).length := by
  rw [extension, List.length_append]
  exact Nat.succ_pos _

theorem nibble_le (n : Nat) : nibble n ≤ 15 := Nat.min_le_right n 15

theorem token_high {high low : Nat} (hhigh : high ≤ 15) (hlow : low ≤ 15) :
    (token high low).toNat / 16 = high := by
  rw [token, UInt8.toNat_ofNat_of_lt' (show 16 * high + low < 256 by omega)]
  omega

theorem token_low {high low : Nat} (hhigh : high ≤ 15) (hlow : low ≤ 15) :
    (token high low).toNat % 16 = low := by
  rw [token, UInt8.toNat_ofNat_of_lt' (show 16 * high + low < 256 by omega)]
  omega

/-- A byte is the token of its nibbles. -/
theorem token_nibbles (b : UInt8) : token (b.toNat / 16) (b.toNat % 16) = b := by
  rw [token, Nat.div_add_mod, UInt8.ofNat_toNat]

/-! ## Bytes at a cursor -/

/-- The bytes from `cursor` on begin with `bytes`. -/
def At (data : List UInt8) (cursor : Nat) (bytes : List UInt8) : Prop :=
  bytes <+: data.drop cursor

theorem at_nil (data : List UInt8) (cursor : Nat) : At data cursor [] :=
  List.nil_prefix

theorem at_cons {data bytes : List UInt8} {cursor : Nat} {b : UInt8} :
    At data cursor (b :: bytes) ↔ data[cursor]? = some b ∧ At data (cursor + 1) bytes := by
  unfold At
  rw [← List.tail_drop, ← List.head?_drop]
  cases data.drop cursor with
  | nil => simp
  | cons hd rest => simp [List.cons_prefix_cons, eq_comm]

/-- What stands at a cursor stands there part by part. -/
theorem at_append {data a b : List UInt8} {cursor : Nat} :
    At data cursor (a ++ b) ↔ At data cursor a ∧ At data (cursor + a.length) b := by
  induction a generalizing cursor with
  | nil => exact ⟨fun h => ⟨at_nil data cursor, h⟩, fun h => h.2⟩
  | cons hd rest ih =>
      rw [List.cons_append, at_cons, at_cons, ih, List.length_cons, and_assoc,
        Nat.add_right_comm cursor 1, Nat.add_assoc cursor]

theorem at_take {data bytes : List UInt8} {cursor : Nat} (h : At data cursor bytes) :
    (data.drop cursor).take bytes.length = bytes :=
  (List.prefix_iff_eq_take.mp h).symm

theorem take_at (data : List UInt8) (cursor n : Nat) :
    At data cursor ((data.drop cursor).take n) :=
  List.take_prefix n (data.drop cursor)

theorem at_length {data bytes : List UInt8} {cursor : Nat} (h : At data cursor bytes)
    (hcursor : cursor ≤ data.length) : cursor + bytes.length ≤ data.length := by
  have hle := List.IsPrefix.length_le h
  rw [List.length_drop] at hle
  omega

/-- Bytes that reach the end are all that is left. -/
theorem at_end {data bytes : List UInt8} {cursor : Nat} (hcursor : cursor ≤ data.length) :
    At data cursor bytes ∧ cursor + bytes.length = data.length ↔ bytes = data.drop cursor := by
  constructor
  · rintro ⟨h, hend⟩
    apply List.IsPrefix.eq_of_length h
    rw [List.length_drop]
    omega
  · rintro rfl
    constructor
    · exact List.prefix_rfl
    · rw [List.length_drop]
      omega

theorem bytes_append_tail {a b data : List UInt8} {cursor : Nat} :
    a ++ b = data.drop cursor ↔ At data cursor a ∧ b = data.drop (cursor + a.length) := by
  constructor
  · intro h
    have hat : At data cursor a := ⟨b, h⟩
    refine ⟨hat, ?_⟩
    rw [← List.drop_drop, ← h, List.drop_left]
  · rintro ⟨⟨t, ht⟩, rfl⟩
    rw [← List.drop_drop, ← ht, List.drop_left]

end Lz4
