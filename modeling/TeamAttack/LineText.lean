import TeamAttack.EventText
import TeamAttack.Library.PyStr

/-! # What the lines of the log are made of

    Labels, keys and values are plain: printable ASCII without blanks and
    without `=`.  So a line breaks only at its end, its words are its fields,
    and nothing in it reads as a header. -/

namespace TeamAttack

open RustStr HexText PyStr

/-- Printable ASCII, but neither the blank nor `=`. -/
def isPlain (c : Char) : Bool := 0x21 ≤ c.toNat && c.toNat ≤ 0x7e && c ≠ '='

def Plain (s : Str) : Prop := ∀ c ∈ s, isPlain c = true

theorem isPlain_iff {c : Char} :
    isPlain c = true ↔ 33 ≤ c.toNat ∧ c.toNat ≤ 126 ∧ c ≠ '=' := by
  rw [isPlain, Bool.and_eq_true, Bool.and_eq_true, decide_eq_true_eq, decide_eq_true_eq,
    decide_eq_true_eq, and_assoc]

theorem not_space_of_plain {c : Char} (h : isPlain c = true) : isSpace c = false := by
  have hc := isPlain_iff.mp h
  simp only [isSpace, Bool.or_eq_false_iff, Bool.and_eq_false_iff, decide_eq_false_iff_not]
  omega

/-- A plain character, or the blank. -/
def isInline (c : Char) : Bool := isPlain c || c = ' '

theorem not_lineBreak_of_inline {c : Char} (h : isInline c = true) : isLineBreak c = false := by
  rw [isInline, Bool.or_eq_true, decide_eq_true_eq] at h
  rcases h with h | rfl
  · rw [← Bool.not_eq_true]
    intro hbreak
    have := space_of_lineBreak hbreak
    rw [not_space_of_plain h] at this
    cases this
  · decide

/-! ## Plain pieces -/

theorem plain_of_all {s : Str} (h : s.all isPlain = true) : Plain s := List.all_eq_true.mp h

theorem Plain.append {s t : Str} (hs : Plain s) (ht : Plain t) : Plain (s ++ t) := by
  intro c hc
  rcases List.mem_append.mp hc with hc | hc
  · exact hs c hc
  · exact ht c hc

theorem isPlain_digit {c : Char} (h : 48 ≤ c.toNat ∧ c.toNat ≤ 57) : isPlain c = true := by
  refine isPlain_iff.mpr ⟨by omega, by omega, ?_⟩
  rintro rfl
  exact absurd h.2 (by decide)

theorem plain_decimal (n : Nat) : Plain (decimal n) :=
  fun c hc => isPlain_digit (isDigits_decimal n c hc)

theorem isPlain_hexDigit {c : Char} (h : isHexDigit c = true) : isPlain c = true := by
  have hc := isHexDigit_iff.mp h
  refine isPlain_iff.mpr ⟨by omega, by omega, ?_⟩
  rintro rfl
  cases h

theorem plain_hexUpper (width n : Nat) : Plain (hexUpper width n) :=
  fun c hc => isPlain_hexDigit (hexUpper_digits width n c hc)

theorem plain_hexLower (n : Nat) : Plain (hexLower n) := by
  intro c hc
  rw [hexLower, List.mem_cons, List.mem_cons] at hc
  rcases hc with rfl | rfl | hc
  · rfl
  · rfl
  · exact isPlain_hexDigit (toDigits_hexDigit n c hc)

theorem plain_showFlag (b : Bool) : Plain (showFlag b) := plain_decimal b.toNat

theorem plain_getD {names : List Str} {other : Str} (hnames : ∀ s ∈ names, Plain s)
    (hother : Plain other) (i : Nat) : Plain ((names[i]?).getD other) := by
  cases hi : names[i]? with
  | none => exact hother
  | some s => exact hnames s (List.mem_of_getElem? hi)

/-! ## Fields -/

/-- Characters of a key: plain, and no colon. -/
def isKeyChar (c : Char) : Bool := isPlain c && c ≠ ':'

/-- A field with a key and a plain value. -/
structure PlainField (f : Field) : Prop where
  key : f.1.all isKeyChar = true
  value : Plain f.2

theorem PlainField.item {f : Field} (h : PlainField f) : Plain (f.1 ++ ':' :: f.2) := by
  refine Plain.append ?_ ?_
  · intro c hc
    have := List.all_eq_true.mp h.key c hc
    rw [isKeyChar, Bool.and_eq_true] at this
    exact this.1
  · intro c hc
    rcases List.mem_cons.mp hc with rfl | hc
    · rfl
    · exact h.value c hc

/-- A key ends at the first colon. -/
theorem splitOnce?_key {key value : Str} (h : key.all isKeyChar = true) :
    splitOnce? ':' (key ++ ':' :: value) = some (key, value) := by
  refine splitOnce?_append ?_ value
  intro hmem
  exact absurd (List.all_eq_true.mp h ':' hmem) (by decide)

/-- **The words of a line of fields are its fields.** -/
theorem split_fieldsText {fields : List Field} (h : ∀ f ∈ fields, PlainField f) :
    split (fieldsText fields) = fields.map fun f => f.1 ++ ':' :: f.2 := by
  have hwords : fieldsText fields = (fields.map fun f => f.1 ++ ':' :: f.2).flatMap (' ' :: ·) := by
    rw [List.flatMap_map]
    rfl
  rw [hwords]
  refine split_words ?_
  intro w hw
  obtain ⟨f, hf, rfl⟩ := List.mem_map.mp hw
  refine ⟨List.append_ne_nil_of_right_ne_nil _ (List.cons_ne_nil _ _), ?_⟩
  intro c hc
  exact not_space_of_plain ((h f hf).item c hc)

theorem inline_fieldsText {fields : List Field} (h : ∀ f ∈ fields, PlainField f) :
    ∀ c ∈ fieldsText fields, isInline c = true := by
  intro c hc
  obtain ⟨f, hf, hcf⟩ := List.mem_flatMap.mp hc
  rw [isInline]
  rcases List.mem_cons.mp hcf with rfl | hcf
  · rfl
  · rw [(h f hf).item c hcf]
    rfl

/-- Fields end in a plain character. -/
theorem fieldsText_end {fields : List Field} (h : ∀ f ∈ fields, PlainField f)
    (hne : fields ≠ []) : ∃ s c, fieldsText fields = s ++ [c] ∧ isPlain c = true := by
  obtain ⟨init, last, rfl⟩ := List.eq_nil_or_concat fields |>.resolve_left hne
  rw [List.concat_eq_append] at h ⊢
  have hlast := h last (List.mem_append_right _ (List.mem_singleton_self _))
  have hitem : last.1 ++ ':' :: last.2 ≠ [] :=
    List.append_ne_nil_of_right_ne_nil _ (List.cons_ne_nil _ _)
  obtain ⟨s, c, hs⟩ := List.eq_nil_or_concat (last.1 ++ ':' :: last.2) |>.resolve_left hitem
  rw [List.concat_eq_append] at hs
  refine ⟨fieldsText init ++ ' ' :: s, c, ?_, ?_⟩
  · have hone : fieldsText [last] = ' ' :: (last.1 ++ ':' :: last.2) := List.append_nil _
    rw [fieldsText, List.flatMap_append]
    show fieldsText init ++ fieldsText [last] = _
    rw [hone, hs, List.append_assoc, List.cons_append]
  · refine hlast.item c ?_
    rw [hs]
    exact List.mem_append_right _ (List.mem_singleton_self _)

/-! ## The lines -/

theorem plainField {key value : Str} (hkey : key.all isKeyChar = true) (hvalue : Plain value) :
    PlainField (key, value) := ⟨hkey, hvalue⟩

theorem Application.Event.fields_plain (e : Application.Event) (sequence : Nat) :
    ∀ f ∈ e.fields sequence, PlainField f := by
  -- the three tables of names, and what stands for a code outside them
  have hnames : ∀ s ∈ Application.names, Plain s := by
    simp only [Application.names, List.forall_mem_cons]
    exact ⟨plain_of_all (by decide), plain_of_all (by decide), plain_of_all (by decide),
      plain_of_all (by decide), plain_of_all (by decide), plain_of_all (by decide),
      plain_of_all (by decide), plain_of_all (by decide), fun _ hs => nomatch hs⟩
  have horigins : ∀ s ∈ Application.submitOrigins, Plain s := by
    simp only [Application.submitOrigins, List.forall_mem_cons]
    exact ⟨plain_of_all (by decide), plain_of_all (by decide), plain_of_all (by decide),
      plain_of_all (by decide), fun _ hs => nomatch hs⟩
  have hactions : ∀ s ∈ Application.mutationActions, Plain s := by
    simp only [Application.mutationActions, List.forall_mem_cons]
    exact ⟨plain_of_all (by decide), plain_of_all (by decide), fun _ hs => nomatch hs⟩
  simp only [Application.Event.fields, List.forall_mem_cons]
  refine ⟨plainField (by decide) (plain_decimal _), plainField (by decide) (plain_decimal _),
    plainField (by decide) (plain_decimal _),
    plainField (by decide) (plain_getD hnames (plain_of_all (by decide)) _),
    plainField (by decide) (plain_hexUpper _ _), plainField (by decide) (plain_decimal _),
    plainField (by decide) (plain_decimal _), plainField (by decide) (plain_hexUpper _ _),
    plainField (by decide) (plain_hexUpper _ _), plainField (by decide) (plain_showFlag _),
    plainField (by decide) (plain_hexUpper _ _), plainField (by decide) (plain_hexUpper _ _),
    plainField (by decide) (plain_hexUpper _ _),
    plainField (by decide) (plain_getD horigins (plain_of_all (by decide)) _),
    plainField (by decide) (plain_getD hactions (plain_of_all (by decide)) _),
    fun _ hf => nomatch hf⟩

end TeamAttack
