import TeamAttack.Library.CharBoundary
import TeamAttack.ConfigHex

/-! # Parsing a configuration ends with a value or an error (`config.rs`)

    Three functions cut strings at byte indices: `strip_comment` at a `#`,
    `parse_string` inside its quotes, `decode_hex` two bytes at a time.  The
    first cut is at a byte below 128, the second beside two such bytes, the
    third in a text that is ASCII throughout, so none falls inside a
    character, and the parser never panics. -/

namespace TeamAttack

open RustStr ExceptRules

/-- The computation ends with a value or a `ConfigError`. -/
def Answers {α : Type} (p : Parse α) : Prop := (∃ a, p = .ok a) ∨ ∃ e, p = .error (.error e)

section Rules

variable {α β : Type}

theorem answers_ok (a : α) : Answers (.ok a : Parse α) := Or.inl ⟨a, rfl⟩

theorem answers_syntaxError (line : Nat) (message : Str) :
    Answers (syntaxError line message : Parse α) := Or.inr ⟨_, rfl⟩

theorem answers_bind {p : Parse α} {f : α → Parse β} (hp : Answers p)
    (hf : ∀ a, p = .ok a → Answers (f a)) : Answers (p >>= f) := by
  rcases hp with ⟨a, rfl⟩ | ⟨e, rfl⟩
  · exact hf a rfl
  · exact Or.inr ⟨e, rfl⟩

/-- A check that refuses, before the rest of the code. -/
theorem answers_check {c : Prop} [Decidable c] {line : Nat} {message : Str}
    {k : PUnit → Parse β} (hk : ¬ c → Answers (k ⟨⟩)) :
    Answers (if c then (syntaxError line message : Parse PUnit) >>= k else k ⟨⟩) := by
  by_cases hc : c
  · rw [if_pos hc]
    exact Or.inr ⟨_, rfl⟩
  · rw [if_neg hc]
    exact hk hc

/-- A value stored in the configuration. -/
theorem answers_store {p : Parse α} (f : α → β) (hp : Answers p) :
    Answers (do return f (← p)) :=
  answers_bind hp (fun a _ => answers_ok (f a))

theorem answers_foldlM {f : β → α → Parse β} (hf : ∀ b a, Answers (f b a)) (l : List α) :
    ∀ b, Answers (l.foldlM f b) := by
  induction l with
  | nil =>
      intro b
      exact answers_ok b
  | cons a l ih =>
      intro b
      rw [List.foldlM_cons]
      exact answers_bind (hf b a) (fun b' _ => ih b')

end Rules

/-! ## The three cuts -/

/-- A comment starts at a `#`. -/
theorem commentIndex?_hash {text : List UInt8} {start index : Nat} {inQuotes escaped : Bool}
    (h : commentIndex? text start inQuotes escaped = some index) :
    start ≤ index ∧ text[index - start]? = some 0x23 := by
  induction text generalizing start inQuotes escaped with
  | nil => cases h
  | cons b text ih =>
      -- every branch but one goes on to the next byte
      have hlater : ∀ q e, commentIndex? text (start + 1) q e = some index →
          start ≤ index ∧ (b :: text)[index - start]? = some 0x23 := by
        intro q e hrest
        obtain ⟨hle, hbyte⟩ := ih hrest
        rw [show index - start = index - (start + 1) + 1 by omega, List.getElem?_cons_succ]
        exact ⟨by omega, hbyte⟩
      rw [commentIndex?] at h
      split at h
      · exact hlater _ _ h
      · split at h
        · exact hlater _ _ h
        · split at h
          · exact hlater _ _ h
          · split at h
            · rename_i hhash
              rw [Bool.and_eq_true, decide_eq_true_eq] at hhash
              obtain rfl := Option.some.inj h
              rw [Nat.sub_self, List.getElem?_cons_zero, hhash.1]
              exact ⟨le_rfl, rfl⟩
            · exact hlater _ _ h

theorem comment_cut {line : Str} {index : Nat}
    (h : commentIndex? (bytes line) 0 false false = some index) :
    ∃ kept, sliceTo? line index = some kept := by
  obtain ⟨_, hbyte⟩ := commentIndex?_hash h
  rw [Nat.sub_zero] at hbyte
  exact sliceTo?_at_ascii hbyte (by decide)

theorem stripComment_answers (line : Str) : Answers (stripComment line) := by
  unfold stripComment
  split
  · rename_i index hindex
    obtain ⟨kept, hkept⟩ := comment_cut hindex
    rw [hkept]
    exact answers_ok kept
  · exact answers_ok line

/-- A text of two bytes or more between double quotes. -/
theorem quoted_eq {value : Str} (hlen : 2 ≤ byteLen value) (hfirst : value.head? = some '"')
    (hlast : value.getLast? = some '"') : ∃ inner, value = ['"'] ++ (inner ++ ['"']) := by
  obtain ⟨rest, rfl⟩ := List.head?_eq_some_iff.mp hfirst
  cases rest with
  | nil => exact absurd hlen (by decide)
  | cons c rest =>
      rw [List.getLast?_cons_cons] at hlast
      obtain ⟨inner, hinner⟩ := List.getLast?_eq_some_iff.mp hlast
      exact ⟨inner, congrArg (List.cons '"') hinner⟩

theorem string_cut (inner : Str) :
    slice? (['"'] ++ (inner ++ ['"'])) 1 (byteLen (['"'] ++ (inner ++ ['"'])) - 1)
      = some inner := by
  have hquote : byteLen ['"'] = 1 := rfl
  have hstop : byteLen (['"'] ++ (inner ++ ['"'])) - 1 = byteLen ['"'] + byteLen inner := by
    rw [byteLen_append, byteLen_append, hquote]
    omega
  rw [hstop]
  exact slice?_append ['"'] inner ['"']

theorem parseString_answers (value : Str) (line : Nat) : Answers (parseString value line) := by
  unfold parseString
  refine answers_check ?_
  intro hquoted
  simp only [Bool.or_eq_true, decide_eq_true_eq, not_or, not_not, not_lt] at hquoted
  obtain ⟨⟨hlen, hfirst⟩, hlast⟩ := hquoted
  obtain ⟨inner, rfl⟩ := quoted_eq hlen hfirst hlast
  rw [string_cut]
  refine answers_bind (answers_ok inner) ?_
  intro text _
  refine answers_check ?_
  intro _
  exact answers_ok text

theorem decodeHex_answers (value : Str) (line : Nat) : Answers (decodeHex value line) := by
  rcases decodeHex_cases value line with ⟨_, hok⟩ | ⟨_, message, herr⟩
  · rw [hok]
    exact answers_ok _
  · rw [herr]
    exact answers_syntaxError line message

/-! ## The parser -/

theorem parseBool_answers (value : Str) (line : Nat) : Answers (parseBool value line) := by
  unfold parseBool
  split
  · exact answers_ok true
  · split
    · exact answers_ok false
    · exact answers_syntaxError line _

theorem parseUsize_answers (value : Str) (line : Nat) : Answers (parseUsize value line) := by
  unfold parseUsize
  refine answers_check ?_
  intro _
  dsimp only
  split
  · exact answers_ok _
  · exact answers_syntaxError line _

theorem parseMode_answers (value : Str) (line : Nat) : Answers (parseMode value line) := by
  refine answers_bind (parseString_answers value line) ?_
  intro mode _
  split
  · exact answers_ok _
  · split
    · exact answers_ok _
    · split
      · exact answers_ok _
      · exact answers_syntaxError line _

theorem parseCaptureOffsets_answers (value : Str) (line : Nat) :
    Answers (parseCaptureOffsets value line) := by
  refine answers_bind (parseString_answers value line) ?_
  intro text _
  refine answers_bind (decodeHex_answers text line) ?_
  intro offsets _
  refine answers_check ?_
  intro _
  refine answers_check ?_
  intro _
  exact answers_ok offsets

theorem parseRunLabel_answers (value : Str) (line : Nat) : Answers (parseRunLabel value line) := by
  refine answers_bind (parseString_answers value line) ?_
  intro label _
  refine answers_check ?_
  intro _
  exact answers_ok label

theorem setKey_answers (config : Config) (key value : Str) (line : Nat) :
    Answers (setKey config key value line) := by
  unfold setKey
  have hbool := parseBool_answers value line
  have hstring := parseString_answers value line
  have husize := parseUsize_answers value line
  have hhex : ∀ store : List UInt8 → Config, Answers (do
      let text ← parseString value line
      return store (← decodeHex text line)) := by
    intro store
    refine answers_bind hstring ?_
    intro text _
    exact answers_store store (decodeHex_answers text line)
  -- one case per key of the match, in its order
  split
  · exact answers_store _ hbool
  · exact answers_store _ (parseMode_answers value line)
  · exact answers_store _ hstring
  · exact answers_store _ husize
  · exact hhex _
  · exact answers_store _ husize
  · exact answers_store _ hbool
  · exact answers_store _ hbool
  · exact answers_store _ hbool
  · exact answers_store _ husize
  · exact hhex _
  · exact answers_store _ hstring
  · exact answers_store _ husize
  · exact answers_store _ hbool
  · exact answers_store _ hbool
  · exact answers_store _ (parseCaptureOffsets_answers value line)
  · exact answers_store _ (parseRunLabel_answers value line)
  · exact answers_syntaxError line _

theorem parseLine_answers (state : Config × List Str) (rawLine : Str) (line : Nat) :
    Answers (parseLine state rawLine line) := by
  obtain ⟨config, seen⟩ := state
  refine answers_bind (stripComment_answers rawLine) ?_
  intro stripped _
  dsimp only
  split
  · exact answers_ok _
  · split
    · exact answers_syntaxError line _
    · refine answers_check ?_
      intro _
      refine answers_check ?_
      intro _
      exact answers_store _ (setKey_answers config _ _ line)

theorem parse_answers (contents : Str) : Answers (parse contents) := by
  unfold parse
  refine answers_check ?_
  intro _
  refine answers_bind ?_ ?_
  · refine answers_foldlM ?_ _ _
    intro state l
    exact parseLine_answers state l.1 (l.2 + 1)
  · rintro ⟨config, seen⟩ _
    refine answers_check ?_
    intro _
    exact answers_ok config

/-- **Configuration parsing never panics.**  Every text is answered, and so is
    every call of the functions that cut strings. -/
theorem parse_never_panics :
    (∀ contents, Answers (parse contents))
      ∧ (∀ line, Answers (stripComment line))
      ∧ (∀ value line, Answers (parseString value line))
      ∧ (∀ value line, Answers (decodeHex value line)) :=
  ⟨parse_answers, stripComment_answers, parseString_answers, decodeHex_answers⟩

end TeamAttack
