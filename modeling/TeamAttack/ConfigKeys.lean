import TeamAttack.ConfigTotal
import TeamAttack.IntegerText

/-! # The keys of the configuration (`config.rs`)

    Each branch of the `match key` of `parse` decodes the value and stores it
    in one field.  `Key` names the branches; what a value decodes to does not
    depend on the line it stands on, and a value that decodes carries a quote
    or a `#` only between its own quotes. -/

namespace TeamAttack

open RustStr ExceptRules

/-- A signature: a string of hexadecimal digits. -/
def parseSignature (value : Str) (line : Nat) : Parse (List UInt8) := do
  let text ← parseString value line
  decodeHex text line

inductive Key where
  | enabled
  | mode
  | expectedGameVersion
  | serializerTextOffset
  | expectedPrologue
  | maxDumps
  | pollGlobalTeamAttack
  | observeRuleCodec
  | observeRuleApplication
  | callerTextOffset
  | expectedCallsite
  | reviewedAbi
  | reviewedBufferLen
  | evidenceReviewed
  | offlineTestAcknowledged
  | captureOffsets
  | runLabel
  deriving DecidableEq

namespace Key

/-- The key as a line spells it. -/
def name : Key → Str
  | enabled => "enabled".toList
  | mode => "mode".toList
  | expectedGameVersion => "expected_game_version".toList
  | serializerTextOffset => "serializer_text_offset".toList
  | expectedPrologue => "expected_prologue".toList
  | maxDumps => "max_dumps".toList
  | pollGlobalTeamAttack => "poll_global_team_attack".toList
  | observeRuleCodec => "observe_rule_codec".toList
  | observeRuleApplication => "observe_rule_application".toList
  | callerTextOffset => "caller_text_offset".toList
  | expectedCallsite => "expected_callsite".toList
  | reviewedAbi => "reviewed_abi".toList
  | reviewedBufferLen => "reviewed_buffer_len".toList
  | evidenceReviewed => "evidence_reviewed".toList
  | offlineTestAcknowledged => "offline_test_acknowledged".toList
  | captureOffsets => "capture_offsets".toList
  | runLabel => "run_label".toList

/-- The type of the field. -/
def Value : Key → Type
  | enabled | pollGlobalTeamAttack | observeRuleCodec | observeRuleApplication
  | evidenceReviewed | offlineTestAcknowledged => Bool
  | mode => Mode
  | expectedGameVersion | reviewedAbi | runLabel => Str
  | serializerTextOffset | callerTextOffset | reviewedBufferLen | maxDumps => UInt64
  | expectedPrologue | expectedCallsite | captureOffsets => List UInt8

/-- The field of a configuration. -/
def get : (k : Key) → Config → k.Value
  | enabled, config => config.enabled
  | mode, config => config.mode
  | expectedGameVersion, config => config.expectedGameVersion
  | serializerTextOffset, config => config.serializerTextOffset
  | expectedPrologue, config => config.expectedPrologue
  | maxDumps, config => config.maxDumps
  | pollGlobalTeamAttack, config => config.pollGlobalTeamAttack
  | observeRuleCodec, config => config.observeRuleCodec
  | observeRuleApplication, config => config.observeRuleApplication
  | callerTextOffset, config => config.callerTextOffset
  | expectedCallsite, config => config.expectedCallsite
  | reviewedAbi, config => config.reviewedAbi
  | reviewedBufferLen, config => config.reviewedBufferLen
  | evidenceReviewed, config => config.evidenceReviewed
  | offlineTestAcknowledged, config => config.offlineTestAcknowledged
  | captureOffsets, config => config.captureOffsets
  | runLabel, config => config.runLabel

/-- The configuration with the field replaced. -/
def set : (k : Key) → Config → k.Value → Config
  | enabled, config, v => { config with enabled := v }
  | mode, config, v => { config with mode := v }
  | expectedGameVersion, config, v => { config with expectedGameVersion := v }
  | serializerTextOffset, config, v => { config with serializerTextOffset := v }
  | expectedPrologue, config, v => { config with expectedPrologue := v }
  | maxDumps, config, v => { config with maxDumps := v }
  | pollGlobalTeamAttack, config, v => { config with pollGlobalTeamAttack := v }
  | observeRuleCodec, config, v => { config with observeRuleCodec := v }
  | observeRuleApplication, config, v => { config with observeRuleApplication := v }
  | callerTextOffset, config, v => { config with callerTextOffset := v }
  | expectedCallsite, config, v => { config with expectedCallsite := v }
  | reviewedAbi, config, v => { config with reviewedAbi := v }
  | reviewedBufferLen, config, v => { config with reviewedBufferLen := v }
  | evidenceReviewed, config, v => { config with evidenceReviewed := v }
  | offlineTestAcknowledged, config, v => { config with offlineTestAcknowledged := v }
  | captureOffsets, config, v => { config with captureOffsets := v }
  | runLabel, config, v => { config with runLabel := v }

/-- How the branch of the key reads its value. -/
def parseValue : (k : Key) → Str → Nat → Parse k.Value
  | enabled => parseBool
  | mode => parseMode
  | expectedGameVersion => parseString
  | serializerTextOffset => parseUsize
  | expectedPrologue => parseSignature
  | maxDumps => parseUsize
  | pollGlobalTeamAttack => parseBool
  | observeRuleCodec => parseBool
  | observeRuleApplication => parseBool
  | callerTextOffset => parseUsize
  | expectedCallsite => parseSignature
  | reviewedAbi => parseString
  | reviewedBufferLen => parseUsize
  | evidenceReviewed => parseBool
  | offlineTestAcknowledged => parseBool
  | captureOffsets => parseCaptureOffsets
  | runLabel => parseRunLabel

/-- The value a text decodes to, if it is one the key takes. -/
def decode (k : Key) (value : Str) : Option k.Value := (k.parseValue value 1).toOption

/-! ## Fields -/

@[simp] theorem get_set (k : Key) (config : Config) (v : k.Value) :
    k.get (k.set config v) = v := by
  cases k <;> rfl

theorem get_set_of_ne {k l : Key} (h : l ≠ k) (config : Config) (v : k.Value) :
    l.get (k.set config v) = l.get config := by
  cases k <;> cases l <;> first | rfl | exact absurd rfl h

/-- A configuration is its fields. -/
theorem config_ext {c d : Config} (h : ∀ k : Key, k.get c = k.get d) : c = d := by
  cases c
  cases d
  rw [Config.mk.injEq]
  exact ⟨h enabled, h mode, h expectedGameVersion, h serializerTextOffset, h expectedPrologue,
    h callerTextOffset, h expectedCallsite, h reviewedAbi, h reviewedBufferLen,
    h evidenceReviewed, h offlineTestAcknowledged, h captureOffsets, h runLabel, h maxDumps,
    h pollGlobalTeamAttack, h observeRuleCodec, h observeRuleApplication⟩

theorem name_injective {k l : Key} (h : k.name = l.name) : k = l := by
  cases k <;> cases l <;> first | rfl | exact absurd h (by decide)

end Key

/-! ## The branches of `match key` -/

/-- The branch of a known key. -/
theorem setKey_name (config : Config) (k : Key) (value : Str) (line : Nat) :
    setKey config k.name value line = (do return k.set config (← k.parseValue value line)) := by
  cases k with
  | expectedPrologue => exact (bind_assoc ..).symm
  | expectedCallsite => exact (bind_assoc ..).symm
  | _ => rfl

/-- Every other key is refused. -/
theorem setKey_unknown {key : Str} (h : ∀ k : Key, key ≠ k.name) (config : Config) (value : Str)
    (line : Nat) :
    setKey config key value line
      = syntaxError line ("unknown key '".toList ++ key ++ ['\'']) := by
  have hspelled : ∀ (k : Key) (s : String), String.ofList key = s → k.name ≠ s.toList := by
    rintro k s rfl hname
    rw [String.toList_ofList] at hname
    exact h k hname.symm
  unfold setKey
  -- the branches of `match key`, one for each name
  split
  · exact absurd rfl (hspelled .enabled _ ‹_›)
  · exact absurd rfl (hspelled .mode _ ‹_›)
  · exact absurd rfl (hspelled .expectedGameVersion _ ‹_›)
  · exact absurd rfl (hspelled .serializerTextOffset _ ‹_›)
  · exact absurd rfl (hspelled .expectedPrologue _ ‹_›)
  · exact absurd rfl (hspelled .maxDumps _ ‹_›)
  · exact absurd rfl (hspelled .pollGlobalTeamAttack _ ‹_›)
  · exact absurd rfl (hspelled .observeRuleCodec _ ‹_›)
  · exact absurd rfl (hspelled .observeRuleApplication _ ‹_›)
  · exact absurd rfl (hspelled .callerTextOffset _ ‹_›)
  · exact absurd rfl (hspelled .expectedCallsite _ ‹_›)
  · exact absurd rfl (hspelled .reviewedAbi _ ‹_›)
  · exact absurd rfl (hspelled .reviewedBufferLen _ ‹_›)
  · exact absurd rfl (hspelled .evidenceReviewed _ ‹_›)
  · exact absurd rfl (hspelled .offlineTestAcknowledged _ ‹_›)
  · exact absurd rfl (hspelled .captureOffsets _ ‹_›)
  · exact absurd rfl (hspelled .runLabel _ ‹_›)
  · rfl

/-! ## Values do not depend on their line -/

/-- What a check that passed leaves. -/
theorem syntaxCheck_ok {α : Type} {c : Prop} [Decidable c] {line : Nat} {message : Str}
    {k : PUnit → Parse α} {a : α} :
    (if c then (syntaxError line message : Parse PUnit) >>= k else k ⟨⟩) = .ok a
      ↔ ¬ c ∧ k ⟨⟩ = .ok a := check_eq_ok

theorem parseString_ok {value s : Str} {line : Nat} :
    parseString value line = .ok s ↔ value = '"' :: (s ++ ['"']) ∧ '"' ∉ s ∧ '\\' ∉ s := by
  unfold parseString
  constructor
  · intro h
    obtain ⟨hquoted, h⟩ := syntaxCheck_ok.mp h
    simp only [Bool.or_eq_true, decide_eq_true_eq, not_or, not_not, not_lt] at hquoted
    obtain ⟨⟨hlen, hfirst⟩, hlast⟩ := hquoted
    -- the quotes stand at both ends, so the slice is what is between them
    obtain ⟨inner, rfl⟩ := quoted_eq hlen hfirst hlast
    rw [string_cut, bind_eq_ok] at h
    obtain ⟨text, htext, h⟩ := h
    obtain rfl := Except.ok.inj htext
    obtain ⟨hplain, h⟩ := syntaxCheck_ok.mp h
    obtain rfl := Except.ok.inj h
    simp only [Bool.or_eq_true, List.contains_iff_mem, not_or] at hplain
    exact ⟨rfl, hplain⟩
  · rintro ⟨rfl, hquote, hescape⟩
    have hlen : 2 ≤ byteLen ('"' :: (s ++ ['"'])) := by
      rw [byteLen_cons, byteLen_append]
      show 2 ≤ 1 + (byteLen s + 1)
      omega
    have hlast : ('"' :: (s ++ ['"'])).getLast? = some '"' := List.getLast?_concat (l := '"' :: s)
    refine syntaxCheck_ok.mpr ⟨?_, ?_⟩
    · simp only [Bool.or_eq_true, decide_eq_true_eq, not_or, not_not, not_lt]
      exact ⟨⟨hlen, rfl⟩, hlast⟩
    · rw [show '"' :: (s ++ ['"']) = ['"'] ++ (s ++ ['"']) from rfl, string_cut]
      refine bind_eq_ok.mpr ⟨s, rfl, syntaxCheck_ok.mpr ⟨?_, rfl⟩⟩
      simp only [Bool.or_eq_true, List.contains_iff_mem, not_or]
      exact ⟨hquote, hescape⟩

theorem decodeHex_ok {value : Str} {line : Nat} {bytes : List UInt8} :
    decodeHex value line = .ok bytes
      ↔ SignedPairs (hexCompact value) ∧ signedBytes (hexCompact value) = bytes := by
  rcases decodeHex_cases value line with ⟨hpairs, hok⟩ | ⟨hpairs, message, herr⟩
  · rw [hok, Except.ok.injEq, and_iff_right hpairs]
  · rw [herr]
    constructor
    · intro h
      cases h
    · intro h
      exact absurd h.1 hpairs

theorem parseBool_ok {value : Str} {line : Nat} {b : Bool} :
    parseBool value line = .ok b
      ↔ value = "true".toList ∧ b = true ∨ value = "false".toList ∧ b = false := by
  unfold parseBool
  by_cases htrue : value = "true".toList
  · rw [if_pos htrue, Except.ok.injEq]
    constructor
    · rintro rfl
      exact Or.inl ⟨htrue, rfl⟩
    · rintro (⟨_, rfl⟩ | ⟨hfalse, _⟩)
      · rfl
      · exact absurd (htrue.symm.trans hfalse) (by decide)
  · rw [if_neg htrue]
    -- two literals, and everything else is refused
    by_cases hfalse : value = "false".toList
    · rw [if_pos hfalse, Except.ok.injEq]
      constructor
      · rintro rfl
        exact Or.inr ⟨hfalse, rfl⟩
      · rintro (⟨h, _⟩ | ⟨_, rfl⟩)
        · exact absurd h htrue
        · rfl
    · rw [if_neg hfalse]
      constructor
      · intro h
        cases h
      · rintro (⟨h, _⟩ | ⟨h, _⟩)
        · exact absurd h htrue
        · exact absurd h hfalse

/-- Two computations return the same values, if any. -/
def Alike {α : Type} (p q : Parse α) : Prop := ∀ a, p = .ok a ↔ q = .ok a

section Alike

variable {α β : Type} {n m : Nat}

theorem alike_refl (p : Parse α) : Alike p p := fun _ => Iff.rfl

theorem alike_syntaxError (message message' : Str) :
    Alike (syntaxError n message : Parse α) (syntaxError m message') := by
  intro a
  constructor
  · intro h
    cases h
  · intro h
    cases h

theorem alike_bind {p q : Parse α} {f g : α → Parse β} (hpq : Alike p q)
    (hfg : ∀ a, Alike (f a) (g a)) : Alike (p >>= f) (q >>= g) := by
  intro b
  rw [bind_eq_ok, bind_eq_ok]
  constructor
  · rintro ⟨a, ha, hb⟩
    exact ⟨a, (hpq a).mp ha, (hfg a b).mp hb⟩
  · rintro ⟨a, ha, hb⟩
    exact ⟨a, (hpq a).mpr ha, (hfg a b).mpr hb⟩

theorem alike_check {c : Prop} [Decidable c] {message : Str} {f g : PUnit → Parse α}
    (hfg : Alike (f ⟨⟩) (g ⟨⟩)) :
    Alike (if c then (syntaxError n message : Parse PUnit) >>= f else f ⟨⟩)
      (if c then (syntaxError m message : Parse PUnit) >>= g else g ⟨⟩) := by
  intro a
  rw [syntaxCheck_ok, syntaxCheck_ok, hfg a]

variable (n m) (value : Str)

theorem parseBool_alike : Alike (parseBool value n) (parseBool value m) := by
  intro b
  rw [parseBool_ok, parseBool_ok]

theorem parseString_alike : Alike (parseString value n) (parseString value m) := by
  intro s
  rw [parseString_ok, parseString_ok]

theorem parseUsize_alike : Alike (parseUsize value n) (parseUsize value m) := by
  intro i
  rw [parseUsize_ok, parseUsize_ok]

theorem decodeHex_alike : Alike (decodeHex value n) (decodeHex value m) := by
  intro bytes
  rw [decodeHex_ok, decodeHex_ok]

theorem parseSignature_alike : Alike (parseSignature value n) (parseSignature value m) :=
  alike_bind (parseString_alike n m value) (fun text => decodeHex_alike n m text)

theorem parseMode_alike : Alike (parseMode value n) (parseMode value m) := by
  refine alike_bind (parseString_alike n m value) ?_
  intro mode
  split
  · exact alike_refl _
  · split
    · exact alike_refl _
    · split
      · exact alike_refl _
      · exact alike_syntaxError _ _

theorem parseCaptureOffsets_alike :
    Alike (parseCaptureOffsets value n) (parseCaptureOffsets value m) := by
  refine alike_bind (parseString_alike n m value) ?_
  intro text
  refine alike_bind (decodeHex_alike n m text) ?_
  intro offsets
  refine alike_check ?_
  refine alike_check ?_
  exact alike_refl _

theorem parseRunLabel_alike : Alike (parseRunLabel value n) (parseRunLabel value m) := by
  refine alike_bind (parseString_alike n m value) ?_
  intro label
  refine alike_check ?_
  exact alike_refl _

theorem parseValue_alike (k : Key) : Alike (k.parseValue value n) (k.parseValue value m) := by
  cases k with
  | enabled | pollGlobalTeamAttack | observeRuleCodec | observeRuleApplication
  | evidenceReviewed | offlineTestAcknowledged => exact parseBool_alike n m value
  | mode => exact parseMode_alike n m value
  | expectedGameVersion | reviewedAbi => exact parseString_alike n m value
  | serializerTextOffset | callerTextOffset | reviewedBufferLen | maxDumps =>
      exact parseUsize_alike n m value
  | expectedPrologue | expectedCallsite => exact parseSignature_alike n m value
  | captureOffsets => exact parseCaptureOffsets_alike n m value
  | runLabel => exact parseRunLabel_alike n m value

end Alike

/-- **A value decodes alike on every line.** -/
theorem parseValue_ok {k : Key} {value : Str} {line : Nat} {v : k.Value} :
    k.parseValue value line = .ok v ↔ k.decode value = some v := by
  rw [parseValue_alike line 1 value k v, Key.decode]
  cases k.parseValue value 1 with
  | error e =>
      constructor
      · intro h
        cases h
      · intro h
        cases h
  | ok w =>
      constructor
      · intro h
        exact congrArg some (Except.ok.inj h)
      · intro h
        exact congrArg Except.ok (Option.some.inj h)

/-! ## Where a value has quotes -/

/-- A value with a quote or a `#` only between its own quotes, and no
    backslash there. -/
def Legible (value : Str) : Prop :=
  ('"' ∉ value ∧ '#' ∉ value)
    ∨ ∃ inner, value = '"' :: (inner ++ ['"']) ∧ '"' ∉ inner ∧ '\\' ∉ inner

theorem parseString_legible {value s : Str} {line : Nat} (h : parseString value line = .ok s) :
    Legible value :=
  Or.inr ⟨s, parseString_ok.mp h⟩

theorem parseBool_legible {value : Str} {line : Nat} {b : Bool}
    (h : parseBool value line = .ok b) : Legible value := by
  rcases parseBool_ok.mp h with ⟨rfl, _⟩ | ⟨rfl, _⟩
  · exact Or.inl (by decide)
  · exact Or.inl (by decide)

/-- Behind the prefix and the sign the characters are digits. -/
theorem compactValue?_digits {compact : Str} {n : Nat} {c : Char}
    (h : compactValue? compact = some n) (hc : c ∈ compact) (hplain : c ∉ "0xX+".toList) :
    ∃ radix d, toDigit? radix c = some d := by
  have hparsed : ∀ {radix : Nat} {s : Str}, fromStrRadix? 64 radix s = some n → c ∈ s →
      ∃ radix d, toDigit? radix c = some d := by
    intro radix s hs hcs
    obtain ⟨_, digits, _, hvalue, rfl | rfl⟩ := fromStrRadix?_eq_some.mp hs
    · exact ⟨radix, digitsValue?_mem hvalue hcs⟩
    · rcases List.mem_cons.mp hcs with rfl | hdigit
      · exact absurd (by decide) hplain
      · exact ⟨radix, digitsValue?_mem hvalue hdigit⟩
  -- a character that is not of the prefix stands behind it
  have hprefixed : ∀ {x : Char} {hex : Str}, x = 'x' ∨ x = 'X' → c ∈ '0' :: x :: hex → c ∈ hex := by
    intro x hex hx hcx
    rcases List.mem_cons.mp hcx with rfl | hcx
    · exact absurd (by decide) hplain
    · rcases List.mem_cons.mp hcx with rfl | hhex
      · rcases hx with rfl | rfl
        · exact absurd (by decide) hplain
        · exact absurd (by decide) hplain
      · exact hhex
  unfold compactValue? at h
  split at h
  · exact hparsed h (hprefixed (Or.inl rfl) hc)
  · exact hparsed h (hprefixed (Or.inr rfl) hc)
  · exact hparsed h hc

/-- A numeral has no quote and no `#`. -/
theorem accepted_legible {s : Str} {n : Nat} (h : Accepted s n) : Legible s := by
  have hkept : ∀ c : Char, c = '"' ∨ c = '#' → c ∈ s → ∃ radix d, toDigit? radix c = some d := by
    intro c hc hmem
    have hunseparated : c ∈ unseparated s := by
      refine List.mem_filter.mpr ⟨hmem, ?_⟩
      rcases hc with rfl | rfl
      · rfl
      · rfl
    refine compactValue?_digits h.2 hunseparated ?_
    rcases hc with rfl | rfl
    · decide
    · decide
  refine Or.inl ⟨?_, ?_⟩
  · intro hquote
    obtain ⟨radix, d, hd⟩ := hkept '"' (Or.inl rfl) hquote
    cases hd
  · intro hhash
    obtain ⟨radix, d, hd⟩ := hkept '#' (Or.inr rfl) hhash
    cases hd

theorem decode_legible {k : Key} {value : Str} {v : k.Value} (h : k.decode value = some v) :
    Legible value := by
  have hread : k.parseValue value 1 = .ok v := parseValue_ok.mpr h
  cases k with
  | enabled | pollGlobalTeamAttack | observeRuleCodec | observeRuleApplication
  | evidenceReviewed | offlineTestAcknowledged => exact parseBool_legible hread
  | expectedGameVersion | reviewedAbi => exact parseString_legible hread
  | serializerTextOffset | callerTextOffset | reviewedBufferLen | maxDumps =>
      exact accepted_legible (parseUsize_ok.mp hread)
  | mode | expectedPrologue | expectedCallsite | captureOffsets | runLabel =>
      obtain ⟨text, htext, -⟩ := bind_eq_ok.mp hread
      exact parseString_legible htext

end TeamAttack
