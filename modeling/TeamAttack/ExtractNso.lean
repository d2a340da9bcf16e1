import TeamAttack.Library.ExceptRules
import TeamAttack.Library.Lz4
import TeamAttack.Library.RustStr

/-! # The segment decompressor (`extract_nso.py`)

    `lz4_block` walks the stored bytes with a cursor.  Its slices are cut
    short past the end, its indexing raises there, and the output size is
    looked at after matches only; still it returns exactly the expansions of
    the blocks of the format that have the declared size. -/

namespace TeamAttack.ExtractNso

open RustStr ExceptRules LittleEndian Lz4

/-- The exceptions of `lz4_block`. -/
inductive PyError where
  | indexError
  | valueError (message : Str)
  deriving DecidableEq

/-- `data[cursor]`. -/
def index (data : List UInt8) (cursor : Nat) : Except PyError UInt8 :=
  match data[cursor]? with
  | some b => .ok b
  | none => .error .indexError

/-- The loop that extends a length: the length and the cursor behind it. -/
def readExtra (data : List UInt8) (cursor total : Nat) : Except PyError (Nat × Nat) :=
  if h : cursor < data.length then
    let extra := data[cursor]
    if extra ≠ 255 then .ok (total + extra.toNat, cursor + 1)
    else readExtra data (cursor + 1) (total + extra.toNat)
  else .error .indexError
termination_by data.length - cursor

/-- A length that starts with a nibble of the token. -/
def readLength (data : List UInt8) (cursor first : Nat) : Except PyError (Nat × Nat) :=
  if first = 15 then readExtra data cursor first else .ok (first, cursor)

/-- The token and the literals: the token, the output and the cursor behind them. -/
def readLiterals (data : List UInt8) (cursor : Nat) (out : List UInt8) :
    Except PyError (UInt8 × List UInt8 × Nat) := do
  let token ← index data cursor
  let (literal, cursor) ← readLength data (cursor + 1) (token.toNat / 16)
  return (token, out ++ (data.drop cursor).take literal, cursor + literal)

/-- The loop that copies a match. -/
def appendMatch (out : List UInt8) (offset length : Nat) : List UInt8 :=
  (List.range length).foldl (fun out _ => out ++ [out.getD (out.length - offset) 0]) out

/-- The match behind the literals: the cursor and the output behind it. -/
def readMatch (data : List UInt8) (outputSize : Int) (token : UInt8) (cursor : Nat)
    (out : List UInt8) : Except PyError (Nat × List UInt8) := do
  if cursor + 2 > data.length then
    .error (.valueError "truncated match offset".toList)
  let offset := fromLe ((data.drop cursor).take 2)
  if offset = 0 ∨ offset > out.length then
    .error (.valueError "invalid match offset".toList)
  let (length, cursor) ← readLength data (cursor + 2) (token.toNat % 16)
  let out := appendMatch out offset (length + 4)
  if (out.length : Int) > outputSize then
    .error (.valueError "decompressed segment exceeds declared size".toList)
  return (cursor, out)

/-- How one pass of the main loop ends: at `break`, or going on. -/
inductive Pass where
  | stop (cursor : Nat) (out : List UInt8)
  | next (cursor : Nat) (out : List UInt8)

/-- One pass of the main loop. -/
def pass (data : List UInt8) (outputSize : Int) (cursor : Nat) (out : List UInt8) :
    Except PyError Pass := do
  let (token, out, cursor) ← readLiterals data cursor out
  if cursor = data.length then
    return .stop cursor out
  else
    let (cursor, out) ← readMatch data outputSize token cursor out
    return .next cursor out

/-! ## The parts of a sequence -/

theorem index_eq_ok {data : List UInt8} {cursor : Nat} {b : UInt8} :
    index data cursor = .ok b ↔ data[cursor]? = some b := by
  unfold index
  cases data[cursor]? with
  | none => simp
  | some hd => simp

/-- The extension loop reads a number in runs of 255. -/
theorem readExtra_eq_ok {data : List UInt8} {cursor total n c : Nat} :
    readExtra data cursor total = .ok (n, c) ↔
      ∃ k, n = total + k ∧ At data cursor (extension k) ∧ c = cursor + (extension k).length := by
  fun_induction readExtra data cursor total with
  | case1 cursor total hlt extra hne =>
      have hsmall : extra.toNat < 255 := by
        have hle := extra.toNat_lt
        have hother : extra.toNat ≠ 255 := fun h => hne (UInt8.toNat_inj.mp h)
        omega
      have hone : extension extra.toNat = [extra] := by
        rw [extension_small hsmall, UInt8.ofNat_toNat]
      constructor
      · intro h
        obtain ⟨rfl, rfl⟩ := Prod.mk.inj (Except.ok.inj h)
        refine ⟨extra.toNat, rfl, ?_, ?_⟩
        · rw [hone, at_cons]
          exact ⟨List.getElem?_eq_getElem hlt, at_nil ..⟩
        · rw [hone]
          rfl
      · rintro ⟨k, rfl, hat, rfl⟩
        -- a run that starts with another byte than 255 has one byte
        have hk : k < 255 := by
          by_contra hge
          obtain ⟨m, rfl⟩ := Nat.exists_eq_add_of_le' (Nat.le_of_not_lt hge)
          rw [extension_large, at_cons, List.getElem?_eq_getElem hlt] at hat
          exact hne (Option.some.inj hat.1)
        rw [extension_small hk, at_cons, List.getElem?_eq_getElem hlt] at hat
        have heq : extra = UInt8.ofNat k := Option.some.inj hat.1
        rw [extension_small hk, heq, UInt8.toNat_ofNat_of_lt' (by omega : k < 256)]
        rfl
  | case2 cursor total hlt extra heq ih =>
      have hextra : extra = 255 := not_not.mp heq
      have hat255 : data[cursor]? = some 255 := by
        rw [List.getElem?_eq_getElem hlt]
        exact congrArg some hextra
      rw [ih, show extra.toNat = 255 by rw [hextra]; rfl]
      constructor
      · rintro ⟨k, rfl, hat, rfl⟩
        refine ⟨k + 255, by omega, ?_, ?_⟩
        · rw [extension_large, at_cons]
          exact ⟨hat255, hat⟩
        · rw [extension_large, List.length_cons]
          omega
      · rintro ⟨k, rfl, hat, rfl⟩
        have hk : 255 ≤ k := by
          by_contra hlt'
          rw [extension_small (by omega), at_cons, hat255] at hat
          have hval := congrArg UInt8.toNat (Option.some.inj hat.1)
          rw [UInt8.toNat_ofNat_of_lt' (show k < 256 by omega)] at hval
          have : k = 255 := hval.symm
          omega
        obtain ⟨m, rfl⟩ := Nat.exists_eq_add_of_le' hk
        rw [extension_large, at_cons] at hat
        refine ⟨m, by omega, hat.2, ?_⟩
        rw [extension_large, List.length_cons]
        omega
  | case3 cursor total hge =>
      constructor
      · intro h
        cases h
      · rintro ⟨k, rfl, hat, rfl⟩
        have hle := List.IsPrefix.length_le hat
        have hpos := extension_pos k
        rw [List.length_drop] at hle
        omega

/-- A length is read from its nibble and what it adds behind the token. -/
theorem readLength_eq_ok {data : List UInt8} {cursor first n c : Nat} (hfirst : first ≤ 15) :
    readLength data cursor first = .ok (n, c) ↔
      first = nibble n ∧ At data cursor (lengthBytes n) ∧ c = cursor + (lengthBytes n).length := by
  unfold readLength
  -- fifteen in the nibble means that bytes follow
  by_cases h : first = 15
  · rw [if_pos h, readExtra_eq_ok, h]
    constructor
    · rintro ⟨k, rfl, hat, rfl⟩
      have hbytes : lengthBytes (15 + k) = extension k := by
        rw [lengthBytes, if_neg (by omega), Nat.add_sub_cancel_left]
      rw [hbytes]
      exact ⟨(Nat.min_eq_right (by omega)).symm, hat, rfl⟩
    · rintro ⟨hnibble, hat, rfl⟩
      have hn : 15 ≤ n := by
        unfold nibble at hnibble
        omega
      have hbytes : lengthBytes n = extension (n - 15) := if_neg (by omega)
      rw [hbytes] at hat
      rw [hbytes]
      exact ⟨n - 15, by omega, hat, rfl⟩
  · rw [if_neg h]
    constructor
    · intro hok
      obtain ⟨rfl, rfl⟩ := Prod.mk.inj (Except.ok.inj hok)
      have hbytes : lengthBytes first = [] := if_pos (by omega)
      rw [hbytes]
      exact ⟨(Nat.min_eq_left hfirst).symm, at_nil .., rfl⟩
    · rintro ⟨hnibble, -, rfl⟩
      have hn : n < 15 := by
        unfold nibble at hnibble
        omega
      have hbytes : lengthBytes n = [] := if_pos hn
      rw [hbytes, hnibble, nibble, Nat.min_eq_left (by omega)]
      rfl

theorem appendMatch_eq_copied (out : List UInt8) (offset length : Nat) :
    appendMatch out offset length = copied out offset length := by
  induction length with
  | zero => rfl
  | succ n ih =>
      rw [appendMatch, List.range_succ, List.foldl_append, ← appendMatch, ih]
      rfl

/-- The literals of a pass that stay inside the data. -/
theorem readLiterals_eq_ok {data out o : List UInt8} {cursor c : Nat} {t : UInt8} :
    readLiterals data cursor out = .ok (t, o, c) ∧ c ≤ data.length ↔
      ∃ literals : List UInt8, t.toNat / 16 = nibble literals.length
        ∧ At data cursor (t :: (lengthBytes literals.length ++ literals))
        ∧ o = out ++ literals
        ∧ c = cursor + (t :: (lengthBytes literals.length ++ literals)).length
        ∧ c ≤ data.length := by
  have hhigh : t.toNat / 16 ≤ 15 := by
    have hlt := t.toNat_lt
    omega
  unfold readLiterals
  simp only [bind_eq_ok, Prod.exists, pure_eq_ok, Prod.mk.injEq, index_eq_ok]
  constructor
  · rintro ⟨⟨token, htoken, literal, c', hlength, rfl, rfl, rfl⟩, hle⟩
    rw [readLength_eq_ok hhigh] at hlength
    obtain ⟨hnibble, hat, rfl⟩ := hlength
    -- a slice inside the data has its full length
    have hroom : ((data.drop (cursor + 1 + (lengthBytes literal).length)).take literal).length
        = literal := by
      rw [List.length_take, List.length_drop]
      omega
    refine ⟨_, ?_, ?_, rfl, ?_, hle⟩
    · rw [hroom]
      exact hnibble
    · rw [hroom, at_cons, at_append]
      exact ⟨htoken, hat, take_at ..⟩
    · rw [List.length_cons, List.length_append, hroom]
      omega
  · rintro ⟨literals, hnibble, hat, rfl, rfl, hle⟩
    rw [at_cons, at_append] at hat
    obtain ⟨htoken, hbytes, hliterals⟩ := hat
    refine ⟨⟨t, htoken, literals.length, _, (readLength_eq_ok hhigh).mpr ⟨hnibble, hbytes, rfl⟩,
      rfl, ?_, ?_⟩, hle⟩
    · rw [at_take hliterals]
    · rw [List.length_cons, List.length_append]
      omega

/-- The match of a pass: an offset into the output and a length. -/
theorem readMatch_eq_ok {data out o : List UInt8} {outputSize : Int} {cursor c : Nat}
    {t : UInt8} :
    readMatch data outputSize t cursor out = .ok (c, o) ↔
      ∃ offset length, (1 ≤ offset ∧ offset < 2 ^ 16 ∧ offset ≤ out.length)
        ∧ t.toNat % 16 = nibble length
        ∧ At data cursor (toLe 2 offset ++ lengthBytes length)
        ∧ c = cursor + (toLe 2 offset ++ lengthBytes length).length
        ∧ o = copied out offset (length + 4) ∧ (o.length : Int) ≤ outputSize := by
  have hlow : t.toNat % 16 ≤ 15 := by omega
  unfold readMatch
  simp only [bind_eq_ok, check_eq_ok, Prod.exists, pure_eq_ok, Prod.mk.injEq, not_or,
    appendMatch_eq_copied]
  constructor
  · rintro ⟨hroom, ⟨hzero, hfar⟩, length, c', hlength, hsize, rfl, rfl⟩
    rw [readLength_eq_ok hlow] at hlength
    obtain ⟨hnibble, hat, rfl⟩ := hlength
    -- both bytes of the offset are there, as the check before asks
    have htwo : ((data.drop cursor).take 2).length = 2 := by
      rw [List.length_take, List.length_drop]
      omega
    have hback := toLe_fromLe ((data.drop cursor).take 2)
    have hword := fromLe_lt ((data.drop cursor).take 2)
    rw [htwo] at hback hword
    refine ⟨_, length, ⟨Nat.pos_of_ne_zero hzero, hword, by omega⟩, hnibble, ?_, ?_, rfl,
      not_lt.mp hsize⟩
    · rw [hback, at_append, htwo]
      exact ⟨take_at .., hat⟩
    · rw [List.length_append, length_toLe]
      omega
  · rintro ⟨offset, length, ⟨hpos, hword, hreach⟩, hnibble, hat, rfl, rfl, hsize⟩
    rw [at_append, length_toLe] at hat
    obtain ⟨hoffset, hbytes⟩ := hat
    have hread : fromLe ((data.drop cursor).take 2) = offset := by
      have htake := at_take hoffset
      rw [length_toLe] at htake
      rw [htake, fromLe_toLe_of_lt hword]
    have hlen := List.IsPrefix.length_le hoffset
    rw [length_toLe, List.length_drop] at hlen
    rw [hread]
    refine ⟨by omega, ⟨by omega, by omega⟩, length, _,
      (readLength_eq_ok hlow).mpr ⟨hnibble, hbytes, rfl⟩, not_lt.mpr hsize, ?_, rfl⟩
    rw [List.length_append, length_toLe]
    omega

/-! ## One pass -/

/-- The loop stops at a last run of literals. -/
theorem pass_eq_stop {data out o : List UInt8} {outputSize : Int} {cursor c : Nat}
    (hcursor : cursor ≤ data.length) :
    pass data outputSize cursor out = .ok (.stop c o) ↔
      ∃ t : Tail, t.bytes = data.drop cursor ∧ c = data.length ∧ o = out ++ t.literals := by
  unfold pass
  rw [bind_eq_ok]
  constructor
  · rintro ⟨⟨t, o', c'⟩, hliterals, hstop⟩
    simp only at hstop
    split at hstop
    · rename_i hend
      obtain ⟨literals, hnibble, hat, rfl, hc, hle⟩ :=
        readLiterals_eq_ok.mp ⟨hliterals, hend.le⟩
      obtain ⟨rfl, rfl⟩ := Pass.stop.inj (Except.ok.inj hstop)
      refine ⟨⟨literals, ⟨t.toNat % 16, Nat.mod_lt _ (by decide)⟩⟩, ?_, hend, rfl⟩
      rw [← at_end hcursor, Tail.bytes, ← hnibble, token_nibbles, ← hc]
      exact ⟨hat, hend⟩
    · rw [bind_eq_ok] at hstop
      obtain ⟨q, -, hnext⟩ := hstop
      exact Pass.noConfusion (Except.ok.inj hnext)
  -- the low nibble of the last token is not looked at
  · rintro ⟨t, hbytes, rfl, rfl⟩
    have hhigh : (token (nibble t.literals.length) t.low.val).toNat / 16
        = nibble t.literals.length := token_high (nibble_le _) (by omega)
    obtain ⟨hat, hend⟩ := (at_end hcursor).mpr hbytes
    obtain ⟨hok, -⟩ := readLiterals_eq_ok.mpr
      ⟨t.literals, hhigh, hat, rfl, rfl, hend.le⟩
    refine ⟨_, hok, ?_⟩
    simp only
    exact (if_pos hend).trans (congrArg (fun n => Except.ok (Pass.stop n _)) hend)

/-- The loop goes on behind a sequence that fits the output and the size. -/
theorem pass_eq_next {data out o : List UInt8} {outputSize : Int} {cursor c : Nat}
    (hcursor : cursor ≤ data.length) :
    pass data outputSize cursor out = .ok (.next c o) ↔
      ∃ s : Sequence, At data cursor s.bytes ∧ s.Fits out ∧ c = cursor + s.bytes.length
        ∧ o = s.expand out ∧ (o.length : Int) ≤ outputSize := by
  unfold pass
  rw [bind_eq_ok]
  constructor
  · rintro ⟨⟨t, o', c'⟩, hliterals, hnext⟩
    simp only at hnext
    split at hnext
    · exact Pass.noConfusion (Except.ok.inj hnext)
    rw [bind_eq_ok] at hnext
    obtain ⟨⟨c'', o''⟩, hmatch, hpass⟩ := hnext
    obtain ⟨rfl, rfl⟩ := Pass.next.inj (Except.ok.inj hpass)
    obtain ⟨offset, length, ⟨hpos, hword, hreach⟩, hlow, hatMatch, rfl, rfl, hsize⟩ :=
      readMatch_eq_ok.mp hmatch
    -- the two offset bytes show that the literals end inside the data
    have hinside : c' ≤ data.length := by
      have hle := List.IsPrefix.length_le hatMatch
      rw [List.length_append, length_toLe, List.length_drop] at hle
      omega
    obtain ⟨literals, hhigh, hat, rfl, hc, -⟩ := readLiterals_eq_ok.mp ⟨hliterals, hinside⟩
    have hbytes : Sequence.bytes ⟨literals, offset, length + 4⟩
        = (t :: (lengthBytes literals.length ++ literals))
          ++ (toLe 2 offset ++ lengthBytes length) := by
      rw [Sequence.bytes, Nat.add_sub_cancel, ← hhigh, ← hlow, token_nibbles, List.cons_append,
        List.append_assoc]
    refine ⟨⟨literals, offset, length + 4⟩, ?_, ⟨Nat.le_add_left .., hpos, hword, ?_⟩, ?_, rfl,
      hsize⟩
    · rw [hbytes, at_append, ← hc]
      exact ⟨hat, hatMatch⟩
    · rw [List.length_append] at hreach
      exact hreach
    · have hlen := congrArg List.length hbytes
      rw [List.length_append] at hlen
      rw [hlen, ← Nat.add_assoc, ← hc]
  · rintro ⟨s, hat, hfits, rfl, rfl, hsize⟩
    have hlen := at_length hat hcursor
    have hbytes : s.bytes
        = (token (nibble s.literals.length) (nibble (s.matchLength - 4))
            :: (lengthBytes s.literals.length ++ s.literals))
          ++ (toLe 2 s.offset ++ lengthBytes (s.matchLength - 4)) := by
      rw [Sequence.bytes, List.cons_append, List.append_assoc]
    have hmatchBytes : 2 ≤ (toLe 2 s.offset ++ lengthBytes (s.matchLength - 4)).length := by
      rw [List.length_append, length_toLe]
      exact Nat.le_add_right ..
    have hhigh := token_high (nibble_le s.literals.length) (nibble_le (s.matchLength - 4))
    have hlow := token_low (nibble_le s.literals.length) (nibble_le (s.matchLength - 4))
    rw [hbytes, List.length_append] at hlen
    rw [hbytes, at_append] at hat
    obtain ⟨hliterals, -⟩ := readLiterals_eq_ok.mpr
      ⟨s.literals, hhigh, hat.1, rfl, rfl, by omega⟩
    have hfour := hfits.matchLength
    have hmatch := readMatch_eq_ok.mpr
      ⟨s.offset, s.matchLength - 4,
        ⟨hfits.positive, hfits.word, hfits.reached.trans_eq (List.length_append ..).symm⟩, hlow,
        hat.2, rfl, rfl,
        show ((copied (out ++ s.literals) s.offset (s.matchLength - 4 + 4)).length : Int)
          ≤ outputSize by
          rw [Nat.sub_add_cancel hfour]
          exact hsize⟩
    refine ⟨_, hliterals, ?_⟩
    simp only
    rw [if_neg (by omega), bind_eq_ok]
    refine ⟨_, hmatch, ?_⟩
    rw [Nat.sub_add_cancel hfour, Nat.add_assoc, ← List.length_append, ← hbytes]
    rfl

theorem bytes_pos (s : Sequence) : 0 < s.bytes.length :=
  Nat.succ_pos _

theorem pass_cursor {data out o : List UInt8} {outputSize : Int} {cursor c : Nat}
    (hcursor : cursor ≤ data.length)
    (h : pass data outputSize cursor out = .ok (.next c o)) : cursor < c := by
  obtain ⟨s, -, -, rfl, -, -⟩ := (pass_eq_next hcursor).mp h
  exact Nat.lt_add_of_pos_right (bytes_pos s)

theorem block_bytes_cons (s : Sequence) (rest : List Sequence) (last : Option Tail) :
    Block.bytes ⟨s :: rest, last⟩ = s.bytes ++ Block.bytes ⟨rest, last⟩ := by
  rw [Block.bytes, List.flatMap_cons, List.append_assoc]
  rfl

/-- Only the empty block has no bytes. -/
theorem block_bytes_nil {sequences : List Sequence} {last : Option Tail}
    (h : Block.bytes ⟨sequences, last⟩ = []) : sequences = [] ∧ last = none := by
  cases sequences with
  | nil =>
      cases last with
      | none => exact ⟨rfl, rfl⟩
      | some t => cases h
  | cons s rest =>
      rw [block_bytes_cons] at h
      cases h

/-! ## The main loop -/

/-- The main loop: the cursor and the output behind it. -/
def loop (data : List UInt8) (outputSize : Int) (cursor : Nat) (out : List UInt8) :
    Except PyError (Nat × List UInt8) :=
  if cursor < data.length then
    match _hpass : pass data outputSize cursor out with
    | .error e => .error e
    | .ok (.stop c o) => .ok (c, o)
    | .ok (.next c o) => loop data outputSize c o
  else .ok (cursor, out)
termination_by data.length - cursor
decreasing_by
  have := pass_cursor (Nat.le_of_lt ‹cursor < data.length›) _hpass
  omega

theorem loop_done (data : List UInt8) (outputSize : Int) (out : List UInt8) :
    loop data outputSize data.length out = .ok (data.length, out) := by
  rw [loop, if_neg (Nat.lt_irrefl _)]

theorem loop_error {data out : List UInt8} {outputSize : Int} {cursor : Nat} {e : PyError}
    (hmore : cursor < data.length) (h : pass data outputSize cursor out = .error e) :
    loop data outputSize cursor out = .error e := by
  rw [loop, if_pos hmore]
  split <;> simp_all

theorem loop_stop {data out o : List UInt8} {outputSize : Int} {cursor c : Nat}
    (hmore : cursor < data.length) (h : pass data outputSize cursor out = .ok (.stop c o)) :
    loop data outputSize cursor out = .ok (c, o) := by
  rw [loop, if_pos hmore]
  split <;> simp_all

theorem loop_next {data out o : List UInt8} {outputSize : Int} {cursor c : Nat}
    (hmore : cursor < data.length) (h : pass data outputSize cursor out = .ok (.next c o)) :
    loop data outputSize cursor out = loop data outputSize c o := by
  rw [loop, if_pos hmore]
  split <;> simp_all

/-- **The loop decodes a block.**  It ends at the end of the data exactly when
    what is left there is a block that fits the output so far. -/
theorem loop_eq_ok {data out o : List UInt8} {outputSize : Int} {cursor : Nat}
    (hcursor : cursor ≤ data.length) (hsize : (o.length : Int) ≤ outputSize) :
    loop data outputSize cursor out = .ok (data.length, o) ↔
      ∃ b : Block, FitFrom out b.sequences ∧ b.bytes = data.drop cursor
        ∧ o = b.expandFrom out := by
  -- each pass moves the cursor, so the bytes that are left shrink
  induction hleft : data.length - cursor using Nat.strong_induction_on generalizing cursor out with
  | h left ih =>
      rcases Nat.eq_or_lt_of_le hcursor with rfl | hmore
      · rw [loop_done, List.drop_length]
        constructor
        · intro h
          obtain ⟨-, rfl⟩ := Prod.mk.inj (Except.ok.inj h)
          exact ⟨⟨[], none⟩, trivial, rfl, (List.append_nil _).symm⟩
        · rintro ⟨⟨sequences, last⟩, -, hbytes, rfl⟩
          obtain ⟨rfl, rfl⟩ := block_bytes_nil hbytes
          rw [Block.expandFrom, List.foldl_nil, Option.map_none, Option.getD_none,
            List.append_nil]
      constructor
      · intro h
        cases hpass : pass data outputSize cursor out with
        | error e =>
            rw [loop_error hmore hpass] at h
            cases h
        | ok p =>
            cases p with
            | stop c o' =>
                rw [loop_stop hmore hpass] at h
                obtain ⟨t, hbytes, -, rfl⟩ := (pass_eq_stop hcursor).mp hpass
                obtain ⟨-, rfl⟩ := Prod.mk.inj (Except.ok.inj h)
                exact ⟨⟨[], some t⟩, trivial, hbytes, rfl⟩
            | next c o' =>
                rw [loop_next hmore hpass] at h
                obtain ⟨s, hat, hfits, rfl, rfl, -⟩ := (pass_eq_next hcursor).mp hpass
                have hpos := bytes_pos s
                have hle := at_length hat hcursor
                obtain ⟨b, hfit, hbytes, rfl⟩ := (ih _ (by omega) hle rfl).mp h
                refine ⟨⟨s :: b.sequences, b.last⟩, ⟨hfits, hfit⟩, ?_, rfl⟩
                rw [block_bytes_cons, bytes_append_tail]
                exact ⟨hat, hbytes⟩
      · rintro ⟨⟨sequences, last⟩, hfit, hbytes, rfl⟩
        cases sequences with
        | nil =>
            cases last with
            | none =>
                have hlen := congrArg List.length hbytes
                rw [List.length_drop] at hlen
                have hzero : (Block.bytes ⟨[], none⟩).length = 0 := rfl
                omega
            | some t =>
                exact loop_stop hmore ((pass_eq_stop hcursor).mpr ⟨t, hbytes, rfl, rfl⟩)
        | cons s rest =>
            rw [block_bytes_cons, bytes_append_tail] at hbytes
            obtain ⟨hat, hrest⟩ := hbytes
            have hpos := bytes_pos s
            have hle := at_length hat hcursor
            -- the size is tested after each match: the output only grows, so every test passes
            have hgrow := length_le_expandFrom ⟨rest, last⟩ (s.expand out)
            have hstep : (s.expand out).length ≤ (Block.expandFrom ⟨s :: rest, last⟩ out).length :=
              hgrow
            rw [loop_next hmore ((pass_eq_next hcursor).mpr
              ⟨s, hat, hfit.1, rfl, rfl, by omega⟩)]
            exact (ih _ (by omega) hle rfl).mpr ⟨⟨rest, last⟩, hfit.2, hrest, rfl⟩

/-- `{}` of an integer. -/
def showInt (n : Int) : Str := if n < 0 then '-' :: decimal n.natAbs else decimal n.natAbs

/-- **`lz4_block`.** -/
def lz4Block (data : List UInt8) (outputSize : Int) : Except PyError (List UInt8) := do
  let (cursor, out) ← loop data outputSize 0 []
  if cursor ≠ data.length ∨ (out.length : Int) ≠ outputSize then
    .error (.valueError ("LZ4 size mismatch: input ".toList ++ decimal cursor ++ '/'
      :: decimal data.length ++ ", output ".toList ++ decimal out.length ++ '/'
      :: showInt outputSize))
  return out

theorem lz4Block_eq_ok {data d : List UInt8} {outputSize : Int} :
    lz4Block data outputSize = .ok d ↔
      loop data outputSize 0 [] = .ok (data.length, d) ∧ (d.length : Int) = outputSize := by
  unfold lz4Block
  simp only [bind_eq_ok, check_eq_ok, pure_eq_ok, Prod.exists, not_or, not_not]
  constructor
  · rintro ⟨c, o, hloop, ⟨rfl, hsize⟩, rfl⟩
    exact ⟨hloop, hsize⟩
  · rintro ⟨hloop, hsize⟩
    exact ⟨data.length, d, hloop, ⟨rfl, hsize⟩, rfl⟩

/-- **The decompressor is the format.**  It returns exactly the expansion of
    the block that the data are, when that has the declared size; on all other
    data it raises; and a match that overlaps what it writes repeats. -/
theorem decodes_blocks (data : List UInt8) (outputSize : Int) :
    (∀ d, lz4Block data outputSize = .ok d ↔
      ∃ b : Block, b.Valid ∧ data = b.bytes ∧ d = b.expansion ∧ (d.length : Int) = outputSize)
    ∧ ((¬ ∃ b : Block, b.Valid ∧ data = b.bytes ∧ (b.expansion.length : Int) = outputSize) →
      ∃ e, lz4Block data outputSize = .error e)
    ∧ ∀ (out : List UInt8) (offset n : Nat), 1 ≤ offset → offset ≤ out.length →
      copied out offset n
        = out ++ (List.range n).map
          (fun i => out.getD (out.length - offset + i % offset) 0) := by
  -- the whole block, from the empty output
  have hiff : ∀ d, lz4Block data outputSize = .ok d ↔ ∃ b : Block, b.Valid ∧ data = b.bytes
      ∧ d = b.expansion ∧ (d.length : Int) = outputSize := by
    intro d
    rw [lz4Block_eq_ok]
    constructor
    · rintro ⟨hloop, hsize⟩
      obtain ⟨b, hfit, hbytes, hd⟩ := (loop_eq_ok (Nat.zero_le _) hsize.le).mp hloop
      exact ⟨b, hfit, hbytes.symm, hd, hsize⟩
    · rintro ⟨b, hfit, hbytes, hd, hsize⟩
      exact ⟨(loop_eq_ok (Nat.zero_le _) hsize.le).mpr ⟨b, hfit, hbytes.symm, hd⟩, hsize⟩
  refine ⟨hiff, ?_, ?_⟩
  · intro hnone
    cases h : lz4Block data outputSize with
    | error e => exact ⟨e, rfl⟩
    | ok d =>
        obtain ⟨b, hvalid, hbytes, rfl, hsize⟩ := (hiff d).mp h
        exact absurd ⟨b, hvalid, hbytes, hsize⟩ hnone
  · intro out offset n hpos hreached
    exact copied_repeats hpos hreached n

/-- One letter and a match that runs into itself. -/
theorem decodes_blocks_overlap :
    lz4Block [0x12, 97, 1, 0] 7 = .ok (List.replicate 7 97)
      ∧ copied [97] 1 6 = 97 :: List.replicate 6 97 :=
  ⟨((decodes_blocks [0x12, 97, 1, 0] 7).1 _).mpr ⟨⟨[⟨[97], 1, 6⟩], none⟩,
      ⟨⟨by decide, by decide, by decide, by decide⟩, trivial⟩, by decide, by decide, by decide⟩,
    (decodes_blocks [0x12, 97, 1, 0] 7).2.2 [97] 1 6 (by decide) (by decide)⟩

end TeamAttack.ExtractNso
