import TeamAttack.Config
import TeamAttack.Library.ExceptRules
import TeamAttack.Library.HexText

/-! # Byte strings in the configuration (`decode_hex`)

    `decodeHex` drops separators and reads the rest two characters at a time.
    It delegates a pair to `u8::from_str_radix`, which also takes a plus sign
    before a digit, so a pair such as `+F` is read as a byte. -/

namespace TeamAttack

open RustStr HexText ExceptRules

/-- What is left of a value without its separators. -/
def hexCompact (value : Str) : Str :=
  value.filter (fun c => !isAsciiWhitespace c && c ≠ ':' && c ≠ '-')

/-- The pairs of `compact`, read one after another. -/
def readPairs (line : Nat) : Str → Parse (List UInt8)
  | hi :: lo :: rest => do
      match fromStrRadix? 8 16 [hi, lo] with
      | some n => return UInt8.ofNat n :: (← readPairs line rest)
      | none => syntaxError line "hex signature contains a non-hex character".toList
  | _ => return []

/-! ## The windows of `compact` are its pairs -/

/-- A pair lies where it is looked for. -/
theorem decodePair_eq {compact : Str} (hascii : compact.all isAscii = true) (line : Nat)
    {index : Nat} (hindex : index + 2 ≤ compact.length) :
    decodePair compact line index
      = match fromStrRadix? 8 16 ((compact.drop index).take 2) with
        | some n => .ok (UInt8.ofNat n)
        | none => syntaxError line "hex signature contains a non-hex character".toList := by
  rw [decodePair, slice?_ascii hascii (Nat.le_add_right index 2) hindex, Nat.add_sub_cancel_left]
  rfl

/-- The windows of a text behind its first pair are the windows of the rest. -/
theorem decodePair_later {hi lo : Char} {rest : Str}
    (hascii : (hi :: lo :: rest).all isAscii = true) (line : Nat) {index : Nat}
    (hindex : index + 2 ≤ rest.length) :
    decodePair (hi :: lo :: rest) line (index + 2) = decodePair rest line index := by
  have hrest : rest.all isAscii = true := by
    simp only [List.all_cons, Bool.and_eq_true] at hascii
    exact hascii.2.2
  have hlonger : index + 2 + 2 ≤ (hi :: lo :: rest).length := by
    show index + 2 + 2 ≤ rest.length + 1 + 1
    omega
  rw [decodePair_eq hascii line hlonger, decodePair_eq hrest line hindex]
  rfl

/-- The loop over the even indices reads the pairs. -/
theorem windows_eq_readPairs (line : Nat) : ∀ (k : Nat) (compact : Str),
    compact.all isAscii = true → compact.length = 2 * k →
      (List.range k).mapM (fun i => decodePair compact line (2 * i)) = readPairs line compact := by
  intro k
  induction k with
  | zero =>
      intro compact _ hlength
      obtain rfl := List.length_eq_zero_iff.mp hlength
      rfl
  | succ k ih =>
      intro compact hascii hlength
      match compact, hlength with
      | hi :: lo :: rest, hlength =>
          have hrestlen : rest.length = 2 * k := by
            have : rest.length + 1 + 1 = 2 * (k + 1) := hlength
            omega
          have hrest : rest.all isAscii = true := by
            simp only [List.all_cons, Bool.and_eq_true] at hascii
            exact hascii.2.2
          -- the window at `i + 1` is the one at `i` behind the first pair
          have hlater : (List.range k).mapM
                (fun i => decodePair (hi :: lo :: rest) line (2 * (i + 1)))
              = readPairs line rest := by
            rw [← ih rest hrest hrestlen]
            refine mapM_congr ?_
            intro i hi
            have hlt : i < k := List.mem_range.mp hi
            have hwindow : 2 * i + 2 ≤ rest.length := by omega
            exact decodePair_later hascii line hwindow
          have hfirst : decodePair (hi :: lo :: rest) line (2 * 0)
              = match fromStrRadix? 8 16 [hi, lo] with
                | some n => .ok (UInt8.ofNat n)
                | none => syntaxError line "hex signature contains a non-hex character".toList :=
            decodePair_eq hascii line (by show 0 + 2 ≤ rest.length + 1 + 1; omega)
          rw [List.range_succ_eq_map, List.mapM_cons, List.mapM_map, hfirst, readPairs]
          cases fromStrRadix? 8 16 [hi, lo] with
          | none => rfl
          | some n =>
              show (do
                let bytes ← (List.range k).mapM
                  (fun i => decodePair (hi :: lo :: rest) line (2 * (i + 1)))
                return UInt8.ofNat n :: bytes) = _
              rw [hlater]

/-- **`decode_hex` by its three refusals.** -/
theorem decodeHex_eq (value : Str) (line : Nat) :
    decodeHex value line
      = if (hexCompact value).all isAscii = true then
          if (hexCompact value).length % 2 = 0 then readPairs line (hexCompact value)
          else syntaxError line "hex signature must contain complete byte pairs".toList
        else syntaxError line
          "hex signature must contain ASCII hexadecimal characters only".toList := by
  show (do
    if !(hexCompact value).all isAscii then
      syntaxError line "hex signature must contain ASCII hexadecimal characters only".toList
    if byteLen (hexCompact value) % 2 ≠ 0 then
      syntaxError line "hex signature must contain complete byte pairs".toList
    (List.range (byteLen (hexCompact value) / 2)).mapM
      (fun i => decodePair (hexCompact value) line (2 * i)) : Parse (List UInt8)) = _
  by_cases hascii : (hexCompact value).all isAscii = true
  -- on ASCII the byte length is the number of characters
  · rw [if_pos hascii, byteLen_ascii hascii, hascii]
    by_cases heven : (hexCompact value).length % 2 = 0
    · rw [if_pos heven, ← windows_eq_readPairs line ((hexCompact value).length / 2) _ hascii
        (by omega), if_neg (by decide), if_neg (not_not.mpr heven)]
    · rw [if_neg heven, if_neg (by decide), if_pos heven]
      rfl
  · rw [if_neg hascii, if_pos (by rw [Bool.not_eq_true', ← Bool.not_eq_true]; exact hascii)]
    rfl

/-! ## Bytes printed in upper case -/

theorem readPairs_hexUpper (line : Nat) (bytes : List UInt8) :
    readPairs line (bytes.flatMap fun b => hexUpper 2 b.toNat) = .ok bytes := by
  induction bytes with
  | nil => rfl
  | cons b bytes ih =>
      obtain ⟨hi, lo, hpair, hhi, hlo, hvalue⟩ := hexUpper_pair ⟨b.toNat, b.toNat_lt⟩
      have htext : (b :: bytes).flatMap (fun b => hexUpper 2 b.toNat)
          = hi :: lo :: bytes.flatMap fun b => hexUpper 2 b.toNat :=
        congrArg (· ++ bytes.flatMap fun b => hexUpper 2 b.toNat) hpair
      have hread : fromStrRadix? 8 16 [hi, lo] = some b.toNat := by
        rw [fromStrRadix?_pair, hhi, hlo]
        exact congrArg some hvalue
      rw [htext, readPairs, hread, ih]
      exact congrArg (fun b => Except.ok (b :: bytes)) UInt8.ofNat_toNat

/-- **Bytes printed as two upper-case digits each are read back**, whatever
    separators stand between the digits. -/
theorem decodeHex_hexUpper {value : Str} {bytes : List UInt8}
    (h : hexCompact value = bytes.flatMap fun b => hexUpper 2 b.toNat) (line : Nat) :
    decodeHex value line = .ok bytes := by
  have hascii : (hexCompact value).all isAscii = true := by
    rw [h, List.all_eq_true]
    intro c hc
    obtain ⟨b, -, hcb⟩ := List.mem_flatMap.mp hc
    exact isAscii_of_hexDigit (hexUpper_digits 2 b.toNat c hcb)
  have hlength : (hexCompact value).length = 2 * bytes.length := by
    rw [h]
    clear h hascii
    induction bytes with
    | nil => rfl
    | cons b bytes ih =>
        obtain ⟨hi, lo, hpair, -⟩ := hexUpper_pair ⟨b.toNat, b.toNat_lt⟩
        have htwo : (hexUpper 2 b.toNat).length = 2 := congrArg List.length hpair
        rw [List.flatMap_cons, List.length_append, ih, htwo, List.length_cons]
        omega
  rw [decodeHex_eq, if_pos hascii, if_pos (by omega), h, readPairs_hexUpper]

/-! ## What is accepted -/

/-- Pairs of two digits, or of a plus sign and one digit. -/
def SignedPairs : Str → Prop
  | [] => True
  | [_] => False
  | hi :: lo :: rest =>
      (isHexDigit hi = true ∨ hi = '+') ∧ isHexDigit lo = true ∧ SignedPairs rest

/-- The bytes of such pairs: a plus sign counts for nothing. -/
def signedBytes : Str → List UInt8
  | hi :: lo :: rest =>
      (if hi = '+' then UInt8.ofNat (hexValue lo)
        else UInt8.ofNat (16 * hexValue hi + hexValue lo)) :: signedBytes rest
  | _ => []

/-- The pairs are read to the end, or a pair is refused. -/
theorem readPairs_cases (line : Nat) : ∀ (k : Nat) (compact : Str), compact.length = 2 * k →
    (SignedPairs compact ∧ readPairs line compact = .ok (signedBytes compact))
      ∨ (¬ SignedPairs compact ∧ readPairs line compact
          = syntaxError line "hex signature contains a non-hex character".toList) := by
  intro k
  induction k with
  | zero =>
      intro compact hlength
      obtain rfl := List.length_eq_zero_iff.mp hlength
      exact Or.inl ⟨trivial, rfl⟩
  | succ k ih =>
      intro compact hlength
      match compact, hlength with
      | hi :: lo :: rest, hlength =>
          have hrest : rest.length = 2 * k := by
            have : rest.length + 1 + 1 = 2 * (k + 1) := hlength
            omega
          rw [readPairs, fromStrRadix?_pair]
          by_cases hpair : (isHexDigit hi = true ∨ hi = '+') ∧ isHexDigit lo = true
          · obtain ⟨hhi, hlo⟩ := hpair
            -- the pair is read, whichever of the two it is
            have hread : (if isHexDigit hi && isHexDigit lo then
                  some (16 * hexValue hi + hexValue lo)
                else if hi = '+' && isHexDigit lo then some (hexValue lo) else none)
                = some (if hi = '+' then hexValue lo else 16 * hexValue hi + hexValue lo) := by
              by_cases hplus : hi = '+'
              · subst hplus
                rw [if_pos rfl, hlo]
                rfl
              · have hdigit := hhi.resolve_right hplus
                rw [if_neg hplus, hdigit, hlo]
                rfl
            have hbyte : UInt8.ofNat (if hi = '+' then hexValue lo
                  else 16 * hexValue hi + hexValue lo)
                = if hi = '+' then UInt8.ofNat (hexValue lo)
                  else UInt8.ofNat (16 * hexValue hi + hexValue lo) := apply_ite ..
            rw [hread]
            rcases ih rest hrest with ⟨hsigned, hok⟩ | ⟨hsigned, herr⟩
            · refine Or.inl ⟨⟨hhi, hlo, hsigned⟩, ?_⟩
              show (do return UInt8.ofNat _ :: (← readPairs line rest)) = _
              rw [hok, hbyte]
              rfl
            · refine Or.inr ⟨fun h => hsigned h.2.2, ?_⟩
              show (do return UInt8.ofNat _ :: (← readPairs line rest)) = _
              rw [herr]
              rfl
          · refine Or.inr ⟨fun h => hpair ⟨h.1, h.2.1⟩, ?_⟩
            have hdigits : ¬ (isHexDigit hi && isHexDigit lo) = true := by
              rw [Bool.and_eq_true]
              exact fun h => hpair ⟨Or.inl h.1, h.2⟩
            have hsign : ¬ (hi = '+' && isHexDigit lo) = true := by
              rw [Bool.and_eq_true, decide_eq_true_eq]
              exact fun h => hpair ⟨Or.inr h.1, h.2⟩
            rw [if_neg hdigits, if_neg hsign]

theorem signedPairs_length : ∀ {compact : Str}, SignedPairs compact → compact.length % 2 = 0
  | [], _ => rfl
  | [_], h => h.elim
  | _ :: _ :: rest, h => by
      have hrest : rest.length % 2 = 0 := signedPairs_length h.2.2
      show (rest.length + 1 + 1) % 2 = 0
      omega

theorem signedPairs_ascii : ∀ {compact : Str}, SignedPairs compact →
    compact.all isAscii = true
  | [], _ => rfl
  | [_], h => h.elim
  | hi :: lo :: rest, h => by
      have hhi : isAscii hi = true := by
        rcases h.1 with hdigit | rfl
        · exact isAscii_of_hexDigit hdigit
        · rfl
      have hrest : rest.all isAscii = true := signedPairs_ascii h.2.2
      rw [List.all_cons, List.all_cons, hhi, isAscii_of_hexDigit h.2.1, hrest]
      rfl

/-- **What `decode_hex` does on every string.** -/
theorem decodeHex_cases (value : Str) (line : Nat) :
    (SignedPairs (hexCompact value)
        ∧ decodeHex value line = .ok (signedBytes (hexCompact value)))
      ∨ (¬ SignedPairs (hexCompact value)
        ∧ ∃ message, decodeHex value line = syntaxError line message) := by
  rw [decodeHex_eq]
  by_cases hascii : (hexCompact value).all isAscii = true
  · rw [if_pos hascii]
    by_cases heven : (hexCompact value).length % 2 = 0
    · rw [if_pos heven]
      rcases readPairs_cases line ((hexCompact value).length / 2) (hexCompact value) (by omega)
        with hok | ⟨hsigned, herr⟩
      · exact Or.inl hok
      · exact Or.inr ⟨hsigned, _, herr⟩
    · rw [if_neg heven]
      exact Or.inr ⟨fun h => heven (signedPairs_length h), _, rfl⟩
  · rw [if_neg hascii]
    exact Or.inr ⟨fun h => hascii (signedPairs_ascii h), _, rfl⟩

/-! ## Hexadecimal digits only -/

/-- The characters are hexadecimal digits, an even number of them. -/
def HexPairs (compact : Str) : Prop :=
  compact.length % 2 = 0 ∧ ∀ c ∈ compact, isHexDigit c = true

/-- `decode_hex` takes pairs of digits, as their bytes, and refuses the rest. -/
def DecodesHexOnly (value : Str) (line : Nat) : Prop :=
  (∀ decoded, decodeHex value line = .ok decoded ↔
      HexPairs (hexCompact value) ∧ decoded = hexBytes (hexCompact value))
    ∧ (¬ HexPairs (hexCompact value) →
        ∃ message, decodeHex value line = syntaxError line message)

/-- Pairs of digits are the signed pairs without a sign. -/
theorem hexPairs_iff : ∀ (compact : Str),
    HexPairs compact ↔ SignedPairs compact ∧ '+' ∉ compact
  | [] => by simp [HexPairs, SignedPairs]
  | [c] => by simp [HexPairs, SignedPairs]
  | hi :: lo :: rest => by
      have ih := hexPairs_iff rest
      rw [HexPairs, List.forall_mem_cons, List.forall_mem_cons, List.mem_cons, List.mem_cons,
        not_or, not_or, SignedPairs]
      rw [HexPairs] at ih
      constructor
      · rintro ⟨hlength, hhi, hlo, hrest⟩
        have heven : rest.length % 2 = 0 := by
          have : (rest.length + 1 + 1) % 2 = 0 := hlength
          omega
        obtain ⟨hsigned, hplus⟩ := ih.mp ⟨heven, hrest⟩
        -- a plus sign is no digit
        refine ⟨⟨Or.inl hhi, hlo, hsigned⟩, ?_, ?_, hplus⟩
        · rintro rfl
          exact Bool.false_ne_true hhi
        · rintro rfl
          exact Bool.false_ne_true hlo
      · rintro ⟨⟨hhi, hlo, hsigned⟩, hnhi, -, hplus⟩
        obtain ⟨heven, hrest⟩ := ih.mpr ⟨hsigned, hplus⟩
        refine ⟨?_, hhi.resolve_right (Ne.symm hnhi), hlo, hrest⟩
        show (rest.length + 1 + 1) % 2 = 0
        omega

/-- Without a sign the bytes are those of the digits. -/
theorem signedBytes_eq : ∀ {compact : Str}, '+' ∉ compact →
    signedBytes compact = hexBytes compact
  | [], _ => rfl
  | [_], _ => rfl
  | hi :: lo :: rest, h => by
      simp only [List.mem_cons, not_or] at h
      have hrest : signedBytes rest = hexBytes rest := signedBytes_eq h.2.2
      rw [signedBytes, hexBytes, if_neg (Ne.symm h.1), hrest]

/-- **`decode_hex` takes hexadecimal byte strings only, unless every pair can
    be read and some pair has a sign.** -/
theorem decodesHexOnly_iff (value : Str) (line : Nat) :
    DecodesHexOnly value line
      ↔ ¬ (SignedPairs (hexCompact value) ∧ '+' ∈ hexCompact value) := by
  constructor
  · rintro ⟨haccept, -⟩ ⟨hsigned, hplus⟩
    rcases decodeHex_cases value line with ⟨-, hok⟩ | ⟨hnot, -⟩
    · exact ((hexPairs_iff _).mp ((haccept _).mp hok).1).2 hplus
    · exact hnot hsigned
  -- either some pair cannot be read, or no pair has a sign
  · intro hcond
    rcases decodeHex_cases value line with ⟨hsigned, hok⟩ | ⟨hnot, message, herr⟩
    · have hplus : '+' ∉ hexCompact value := fun h => hcond ⟨hsigned, h⟩
      have hpairs := (hexPairs_iff _).mpr ⟨hsigned, hplus⟩
      refine ⟨fun decoded => ?_, fun h => absurd hpairs h⟩
      rw [hok, signedBytes_eq hplus]
      constructor
      · intro h
        exact ⟨hpairs, (Except.ok.inj h).symm⟩
      · rintro ⟨-, rfl⟩
        rfl
    · have hpairs : ¬ HexPairs (hexCompact value) := fun h => hnot ((hexPairs_iff _).mp h).1
      refine ⟨fun decoded => ?_, fun _ => ⟨message, herr⟩⟩
      rw [herr]
      constructor
      · intro h
        cases h
      · rintro ⟨h, -⟩
        exact absurd h hpairs

/-- A sign and a digit are taken for a byte. -/
theorem signed_pair_decoded :
    decodeHex "+F".toList 1 = .ok [15] ∧ ¬ HexPairs (hexCompact "+F".toList)
      ∧ ¬ DecodesHexOnly "+F".toList 1 := by
  have hok : decodeHex "+F".toList 1 = .ok [15] := by decide
  have hpairs : ¬ HexPairs (hexCompact "+F".toList) := by
    rintro ⟨-, hdigits⟩
    exact Bool.false_ne_true (hdigits '+' (by decide))
  exact ⟨hok, hpairs, fun h => hpairs ((h.1 _).mp hok).1⟩

end TeamAttack
