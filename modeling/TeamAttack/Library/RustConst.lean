import TeamAttack.Library.HexText

/-! # Byte-array constants in Rust source

    The words and the punctuation of a source text without string literals,
    its line comments left out, and the items `pub const NAME: &[u8] = &[..];`
    read from them. -/

namespace RustConst

open RustStr HexText

/-! ## Tokens -/

inductive Token where
  | word (s : Str)
  | punct (c : Char)
  deriving DecidableEq

/-- In code, behind the start of a word, or in a line comment. -/
inductive Mode where
  | code (word : Str)
  | comment

/-- Letters, digits and underscores. -/
def isWordChar (c : Char) : Bool := c.isAlphanum || c = '_'

/-- The word read so far. -/
def flush (word : Str) : List Token := if word = [] then [] else [.word word]

def lex : Mode → Str → List Token
  | .code w, [] => flush w
  | .comment, [] => []
  | .comment, c :: rest => if c = '\n' then lex (.code []) rest else lex .comment rest
  | .code w, c :: rest =>
      if isWordChar c then lex (.code (w ++ [c])) rest
      else if c = '/' && rest.head? = some '/' then flush w ++ lex .comment rest
      else if isAsciiWhitespace c then flush w ++ lex (.code []) rest
      else flush w ++ .punct c :: lex (.code []) rest

/-! ## Items -/

/-- A `u8` literal in hexadecimal. -/
def readLiteral (w : Str) : Option UInt8 :=
  match w with
  | '0' :: 'x' :: digits => (fromStrRadix? 8 16 digits).map UInt8.ofNat
  | _ => none

/-- The elements of an array up to its end: the bytes, and the tokens behind
    the item. -/
def readElements : List Token → Option (List UInt8 × List Token)
  | .punct ']' :: .punct ';' :: rest => some ([], rest)
  | .word w :: .punct ']' :: .punct ';' :: rest => (readLiteral w).map fun b => ([b], rest)
  | .word w :: .punct ',' :: rest =>
      match readLiteral w, readElements rest with
      | some b, some (bs, behind) => some (b :: bs, behind)
      | _, _ => none
  | _ => none

/-- The items of a module, `n` at most. -/
def readItems : Nat → List Token → Option (List (Str × List UInt8))
  | _, [] => some []
  | n + 1, .word pub :: .word const :: .word name :: .punct ':' :: .punct '&' :: .punct '['
      :: .word u8 :: .punct ']' :: .punct '=' :: .punct '&' :: .punct '[' :: rest =>
      if pub = "pub".toList ∧ const = "const".toList ∧ u8 = "u8".toList then
        match readElements rest with
        | some (bytes, behind) => (readItems n behind).map fun more => (name, bytes) :: more
        | none => none
      else none
  | _, _ => none

/-- The constants of a module: an item has a token at least. -/
def readModule (text : Str) : Option (List (Str × List UInt8)) :=
  let tokens := lex (.code []) text
  readItems tokens.length tokens

/-! ## Lexing -/

theorem lex_word {word : Str} (h : ∀ c ∈ word, isWordChar c = true) (before rest : Str) :
    lex (.code before) (word ++ rest) = lex (.code (before ++ word)) rest := by
  induction word generalizing before with
  | nil => rw [List.append_nil, List.nil_append]
  | cons c word ih =>
      have hc := h c List.mem_cons_self
      rw [List.cons_append, lex, if_pos hc, ih fun d hd => h d (List.mem_cons_of_mem c hd),
        List.append_assoc]
      rfl

theorem flush_word {word : Str} (h : word ≠ []) : flush word = [.word word] := if_neg h

/-- The tokens of elements, each with its comma. -/
def elementTokens (words : List Str) : List Token :=
  words.flatMap fun w => [.word w, .punct ',']

/-- A row of words between commas. -/
theorem lex_row {words : List Str} (hne : words ≠ [])
    (hwords : ∀ w ∈ words, w ≠ [] ∧ ∀ c ∈ w, isWordChar c = true) (rest : Str) :
    lex (.code []) ([',', ' '].intercalate words ++ (',' :: '\n' :: rest))
      = elementTokens words ++ lex (.code []) rest := by
  induction words with
  | nil => exact absurd rfl hne
  | cons w words ih =>
      obtain ⟨hw, hchars⟩ := hwords w List.mem_cons_self
      cases words with
      | nil =>
          rw [List.intercalate_singleton, lex_word hchars, List.nil_append]
          show flush w ++ .punct ',' :: lex (.code []) rest = _
          rw [flush_word hw]
          rfl
      | cons next more =>
          rw [List.intercalate_cons_cons, List.append_assoc, List.append_assoc, lex_word hchars,
            List.nil_append]
          have hrest := ih (List.cons_ne_nil next more)
            fun v hv => hwords v (List.mem_cons_of_mem w hv)
          show flush w ++ .punct ','
            :: lex (.code []) ([',', ' '].intercalate (next :: more) ++ (',' :: '\n' :: rest)) = _
          rw [flush_word hw, hrest]
          rfl

/-! ## Reading back -/

/-- The tokens of an item. -/
def itemTokens (name : Str) (words : List Str) : List Token :=
  [.word "pub".toList, .word "const".toList, .word name, .punct ':', .punct '&', .punct '[',
    .word "u8".toList, .punct ']', .punct '=', .punct '&', .punct '['] ++ elementTokens words
    ++ [.punct ']', .punct ';']

theorem readElements_tokens {words : List Str} {bytes : List UInt8}
    (h : words.map readLiteral = bytes.map some) (rest : List Token) :
    readElements (elementTokens words ++ .punct ']' :: .punct ';' :: rest)
      = some (bytes, rest) := by
  induction words generalizing bytes with
  | nil =>
      obtain rfl := List.map_eq_nil_iff.mp h.symm
      rfl
  | cons w words ih =>
      cases bytes with
      | nil => cases h
      | cons b bytes =>
          obtain ⟨hb, hrest⟩ := List.cons.inj h
          show readElements (.word w :: .punct ','
            :: (elementTokens words ++ .punct ']' :: .punct ';' :: rest)) = _
          rw [readElements, hb, ih hrest]

theorem readItems_item {n : Nat} {name : Str} {tokens behind : List Token} {bytes : List UInt8}
    (h : readElements tokens = some (bytes, behind)) :
    readItems (n + 1) (.word "pub".toList :: .word "const".toList :: .word name :: .punct ':'
        :: .punct '&' :: .punct '[' :: .word "u8".toList :: .punct ']' :: .punct '=' :: .punct '&'
        :: .punct '[' :: tokens)
      = (readItems n behind).map fun more => (name, bytes) :: more := by
  rw [readItems, if_pos ⟨rfl, rfl, rfl⟩, h]

/-- **Items read back.** -/
theorem readItems_tokens {items : List (Str × List Str × List UInt8)}
    (h : ∀ item ∈ items, item.2.1.map readLiteral = item.2.2.map some) {n : Nat}
    (hn : items.length ≤ n) :
    readItems n (items.flatMap fun item => itemTokens item.1 item.2.1)
      = some (items.map fun item => (item.1, item.2.2)) := by
  induction items generalizing n with
  | nil => cases n <;> rfl
  | cons item items ih =>
      obtain ⟨n, rfl⟩ := Nat.exists_eq_add_of_le' (Nat.le_trans (Nat.succ_pos _) hn)
      have hitem := h item List.mem_cons_self
      have hrest := ih (fun i hi => h i (List.mem_cons_of_mem item hi))
        (Nat.le_of_succ_le_succ hn)
      have helements := readElements_tokens hitem
        (items.flatMap fun item => itemTokens item.1 item.2.1)
      rw [List.flatMap_cons, itemTokens, List.append_assoc, List.append_assoc]
      refine (readItems_item helements).trans ?_
      rw [hrest]
      rfl

end RustConst
