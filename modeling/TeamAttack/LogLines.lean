import TeamAttack.LogText

/-! # What the readers make of each line

    Every line of a log is a header field, a comment or a dump.  Both readers
    keep a header field under its key, skip a comment they do not know and
    keep a dump under its sequence; `read_session` also keeps the status
    messages and the watch rows. -/

namespace TeamAttack

open RustStr HexText PyStr PyDict LogReaders

/-! ## Texts that end a line -/

/-- Inline text that ends in a plain character. -/
structure Ended (s : Str) : Prop where
  inline : ∀ c ∈ s, isInline c = true
  last : ∃ init c, s = init ++ [c] ∧ isPlain c = true

theorem isInline_of_plain {c : Char} (h : isPlain c = true) : isInline c = true := by
  rw [isInline, h, Bool.true_or]

theorem Ended.append {s t : Str} (hs : s.all isInline = true) (ht : Ended t) : Ended (s ++ t) := by
  obtain ⟨init, c, hinit, hc⟩ := ht.last
  constructor
  · intro d hd
    rcases List.mem_append.mp hd with hd | hd
    · exact List.all_eq_true.mp hs d hd
    · exact ht.inline d hd
  · exact ⟨s ++ init, c, by rw [hinit, List.append_assoc], hc⟩

theorem Ended.of_plain {s : Str} (h : Plain s) (hne : s ≠ []) : Ended s := by
  obtain ⟨init, c, rfl⟩ := List.eq_nil_or_concat s |>.resolve_left hne
  rw [List.concat_eq_append] at h ⊢
  exact ⟨fun d hd => isInline_of_plain (h d hd),
    init, c, rfl, h c (List.mem_append_right _ (List.mem_singleton_self c))⟩

theorem Ended.of_all {s : Str} (h : s.all isInline = true)
    (hlast : s.getLast?.any isPlain = true) : Ended s := by
  rcases List.eq_nil_or_concat s with rfl | ⟨init, c, rfl⟩
  · cases hlast
  · rw [List.concat_eq_append] at *
    rw [List.getLast?_concat] at hlast
    exact ⟨List.all_eq_true.mp h, init, c, rfl, hlast⟩

theorem Ended.fields {fields : List Field} (h : ∀ f ∈ fields, PlainField f)
    (hne : fields ≠ []) : Ended (fieldsText fields) :=
  ⟨inline_fieldsText h, fieldsText_end h hne⟩

theorem Ended.ne_nil {s : Str} (h : Ended s) : s ≠ [] := by
  obtain ⟨init, c, rfl, -⟩ := h.last
  exact List.append_ne_nil_of_right_ne_nil _ (List.cons_ne_nil _ _)

theorem Ended.not_mem_eq {s : Str} (h : Ended s) : '=' ∉ s := by
  intro hmem
  exact absurd (h.inline '=' hmem) (by decide)

/-! ## The texts of comments -/

theorem CodecProbe.EventLine.fields_plain (line : CodecProbe.EventLine) :
    ∀ f ∈ line.fields, PlainField f := by
  have hdirection : Plain (if line.encode then "encode".toList else "decode".toList) := by
    cases line.encode with
    | false => exact plain_of_all (by decide)
    | true => exact plain_of_all (by decide)
  simp only [CodecProbe.EventLine.fields, List.forall_mem_cons]
  exact ⟨plainField (by decide) (plain_decimal _), plainField (by decide) (plain_decimal _),
    plainField (by decide) hdirection, plainField (by decide) (plain_hexUpper _ _),
    plainField (by decide) (plain_hexUpper _ _), plainField (by decide) (plain_decimal _),
    plainField (by decide) (plain_decimal _), plainField (by decide) (plain_showFlag _),
    List.forall_mem_nil _⟩

theorem plain_watchValue (value : Option UInt8) : Plain (watchValue value) := by
  cases value with
  | none => exact plain_of_all (by decide)
  | some v => exact plain_hexUpper _ _

theorem decimal_ended (n : Nat) : Ended (decimal n) :=
  Ended.of_plain (plain_decimal n) (decimal_ne_nil n)

theorem hexUpper_byte_ended (byte : UInt8) : Ended (hexUpper 2 byte.toNat) := by
  obtain ⟨hi, lo, hpair, -⟩ := hexUpper_pair ⟨byte.toNat, byte.toNat_lt⟩
  refine Ended.of_plain (plain_hexUpper _ _) ?_
  intro hnil
  exact absurd (hpair.symm.trans hnil) (List.cons_ne_nil _ _)

theorem SelfTestCheck.error_ended (check : SelfTestCheck) (flags : UInt8) :
    Ended (check.error flags) := by
  refine Ended.append ?_ (hexUpper_byte_ended flags)
  cases check with
  | encoder => decide
  | decoderRoundtrip => decide
  | decoderBits => decide

theorem selfTestCounts_ended (calls : Nat) : Ended (Install.selfTestCounts calls) :=
  Ended.append
    (List.all_eq_true.mpr fun c hc => isInline_of_plain (plain_decimal calls c hc))
    (Ended.of_all (by decide) (by decide))

/-- Every status message ends its line. -/
theorem Status.message_ended (s : Status) : Ended s.message := by
  cases s with
  | selfTestFailed check flags => exact (check.error_ended flags).append (by decide)
  | hookedTestFailed check flags => exact (check.error_ended flags).append (by decide)
  | selfTestPassed calls => exact (selfTestCounts_ended calls).append (by decide)
  | hookedTestPassed calls => exact (selfTestCounts_ended calls).append (by decide)
  | logReady => exact Ended.of_all (by decide) (by decide)
  | codecVerified => exact Ended.of_all (by decide) (by decide)
  | selfTestStarted => exact Ended.of_all (by decide) (by decide)
  | applicationInstalling => exact Ended.of_all (by decide) (by decide)
  | applicationInstalled => exact Ended.of_all (by decide) (by decide)
  | hookInstalled => exact Ended.of_all (by decide) (by decide)
  | watchLimitReached => exact Ended.of_all (by decide) (by decide)

/-! ## Comments and header fields -/

theorem stripped_hash {s : Str} (hne : s ≠ []) (hlast : ∀ c ∈ s.getLast?, isSpace c = false) :
    Stripped ("# ".toList ++ s) := by
  constructor
  · intro c hc
    obtain rfl := Option.some.inj hc
    rfl
  · intro c hc
    rw [List.getLast?_append_of_ne_nil _ hne] at hc
    exact hlast c hc

theorem Ended.last_not_space {s : Str} (h : Ended s) : ∀ c ∈ s.getLast?, isSpace c = false := by
  obtain ⟨init, d, rfl, hd⟩ := h.last
  intro c hc
  rw [List.getLast?_concat] at hc
  obtain rfl := Option.some.inj hc
  exact not_space_of_plain hd

theorem strip_comment {text : Str} (h : Ended text) :
    strip ("# ".toList ++ text) = "# ".toList ++ text :=
  strip_of_stripped (stripped_hash h.ne_nil h.last_not_space)

theorem mem_of_mem_strip {c : Char} {s : Str} (h : c ∈ strip s) : c ∈ s :=
  (List.dropWhile_sublist _).subset ((List.rdropWhile_prefix _ _).subset h)

/-- No comment reads as a header field. -/
theorem header?_comment {text : Str} (h : Ended text) : header? ("# ".toList ++ text) = none := by
  refine splitOnce?_eq_none ?_
  intro hmem
  rcases List.mem_cons.mp (mem_of_mem_strip hmem) with heq | htext
  · cases heq
  · exact h.not_mem_eq htext

/-- A key and a value that a header line shows. -/
structure HeaderField (field : Field) : Prop where
  key : field.1.all isKeyChar = true
  value : Plain field.2

theorem plain_key {key : Str} (h : key.all isKeyChar = true) : Plain key := by
  intro c hc
  have := List.all_eq_true.mp h c hc
  rw [isKeyChar, Bool.and_eq_true] at this
  exact this.1

theorem HeaderField.not_space {field : Field} (h : HeaderField field) :
    ∀ c ∈ field.1 ++ '=' :: field.2, isSpace c = false := by
  intro c hc
  rcases List.mem_append.mp hc with hc | hc
  · exact not_space_of_plain (plain_key h.key c hc)
  · rcases List.mem_cons.mp hc with rfl | hc
    · rfl
    · exact not_space_of_plain (h.value c hc)

theorem stripped_of_not_space {s : Str} (h : ∀ c ∈ s, isSpace c = false) : Stripped s :=
  ⟨fun c hc => h c (List.mem_of_mem_head? hc), fun c hc => h c (List.mem_of_getLast? hc)⟩

theorem strip_fieldLine {field : Field} (h : HeaderField field) :
    strip (fieldLine field) = fieldLine field := by
  have hline : fieldLine field = "# ".toList ++ (field.1 ++ '=' :: field.2) :=
    List.append_assoc _ _ _
  have hne : field.1 ++ '=' :: field.2 ≠ [] :=
    List.append_ne_nil_of_right_ne_nil _ (List.cons_ne_nil _ _)
  rw [hline]
  exact strip_of_stripped (stripped_hash hne (stripped_of_not_space h.not_space).2)

/-- **A header line is read back.** -/
theorem header?_fieldLine {field : Field} (h : HeaderField field) :
    header? (fieldLine field) = some field := by
  have hkey : '=' ∉ field.1 := by
    intro hmem
    exact absurd (plain_key h.key '=' hmem) (by decide)
  have hdrop : strip ((fieldLine field).drop 1) = field.1 ++ '=' :: field.2 :=
    strip_of_stripped (stripped_of_not_space h.not_space)
  rw [header?, hdrop, splitOnce?_append hkey]

/-! ## Dumps -/

/-- One token of a dump. -/
def cellToken (x : UInt8 × Bool) : Str := if x.2 then hexUpper 2 x.1.toNat else "--".toList

/-- What a token says. -/
def cellValue (x : UInt8 × Bool) : Option Nat := if x.2 then some x.1.toNat else none

/-- The cells of a dump. -/
def cells (mask : Mask) (capture : Capture) : List (UInt8 × Bool) :=
  capture.bytes.toList.zip mask.toList

theorem cells_length (mask : Mask) (capture : Capture) :
    (cells mask capture).length = compactBufferLen := by
  rw [cells, List.length_zip, Vector.length_toList, Vector.length_toList, Nat.min_self]

theorem captureCell_eq (x : UInt8 × Bool) : captureCell x.1 x.2 = ' ' :: cellToken x := by
  rw [captureCell, cellToken]
  cases x.2 with
  | false => rfl
  | true => rfl

theorem isToken_cellToken (x : UInt8 × Bool) : isToken (cellToken x) = true := by
  rw [cellToken]
  cases x.2 with
  | false => rfl
  | true =>
      obtain ⟨hi, lo, hpair, hhi, hlo, -⟩ := hexUpper_pair ⟨x.1.toNat, x.1.toNat_lt⟩
      show isToken (hexUpper 2 x.1.toNat) = true
      rw [show hexUpper 2 x.1.toNat = [hi, lo] from hpair, isToken, hhi, hlo]
      rfl

/-- **A token says the byte, or that it was not read.** -/
theorem tokenValue_cellToken (x : UInt8 × Bool) : tokenValue (cellToken x) = cellValue x := by
  rw [cellToken, cellValue]
  cases x.2 with
  | false => rfl
  | true =>
      obtain ⟨hi, lo, hpair, hhi, -⟩ := hexUpper_pair ⟨x.1.toNat, x.1.toNat_lt⟩
      have hdash : hexUpper 2 x.1.toNat ≠ "--".toList := by
        intro heq
        have hhead := (List.cons.inj (hpair.symm.trans heq)).1
        rw [hhead] at hhi
        cases hhi
      show tokenValue (hexUpper 2 x.1.toNat) = some x.1.toNat
      rw [tokenValue, if_neg hdash, hexNumber_hexUpper]

theorem cellToken_plain (x : UInt8 × Bool) : Plain (cellToken x) := by
  have hdashes : Plain "--".toList := plain_of_all (by decide)
  rw [cellToken]
  cases x.2 with
  | false => exact hdashes
  | true => exact plain_hexUpper _ _

theorem cellToken_ended (x : UInt8 × Bool) : Ended (cellToken x) := by
  have hdashes : Ended "--".toList := Ended.of_all (by decide) (by decide)
  rw [cellToken]
  cases x.2 with
  | false => exact hdashes
  | true => exact hexUpper_byte_ended x.1

/-- The tokens of a dump, one blank before each. -/
def tokensText (mask : Mask) (capture : Capture) : Str :=
  ((cells mask capture).map cellToken).flatMap (' ' :: ·)

theorem split_tokensText (mask : Mask) (capture : Capture) :
    split (tokensText mask capture) = (cells mask capture).map cellToken := by
  refine split_words ?_
  intro w hw
  obtain ⟨x, -, rfl⟩ := List.mem_map.mp hw
  exact ⟨(cellToken_ended x).ne_nil, fun c hc => not_space_of_plain (cellToken_plain x c hc)⟩

theorem tokensText_ended (mask : Mask) (capture : Capture) : Ended (tokensText mask capture) := by
  have hne : cells mask capture ≠ [] := by
    intro hnil
    have := cells_length mask capture
    rw [hnil] at this
    cases this
  obtain ⟨init, x, heq⟩ := List.eq_nil_or_concat (cells mask capture) |>.resolve_left hne
  rw [tokensText, heq, List.concat_eq_append, List.map_append, List.flatMap_append]
  refine Ended.append ?_ ?_
  · rw [List.all_eq_true]
    intro c hc
    obtain ⟨w, hw, hcw⟩ := List.mem_flatMap.mp hc
    obtain ⟨y, -, rfl⟩ := List.mem_map.mp hw
    rcases List.mem_cons.mp hcw with rfl | hcw
    · rfl
    · exact isInline_of_plain (cellToken_plain y c hcw)
  · have hlast : ([x].map cellToken).flatMap (' ' :: ·) = [' '] ++ cellToken x :=
      List.append_nil _
    rw [hlast]
    exact (cellToken_ended x).append rfl

theorem dumpLine_eq (mask : Mask) (capture : Capture) :
    LogOp.line mask (.append capture)
      = "dump ".toList ++ (decimalPadded 4 capture.sequence ++ ':' :: tokensText mask capture) := by
  have htokens : ((cells mask capture).flatMap fun x => captureCell x.1 x.2)
      = tokensText mask capture := by
    rw [tokensText, List.flatMap_map]
    exact List.flatMap_congr fun x _ => captureCell_eq x
  rw [← htokens]
  exact List.append_assoc _ _ _

theorem strip_dumpLine (mask : Mask) (capture : Capture) :
    strip (LogOp.line mask (.append capture)) = LogOp.line mask (.append capture) := by
  have hlast := (tokensText_ended mask capture).last_not_space
  refine strip_of_stripped ⟨?_, ?_⟩
  · intro c hc
    obtain rfl := Option.some.inj hc
    rfl
  · intro c hc
    have hne := (tokensText_ended mask capture).ne_nil
    rw [dumpLine_eq, List.getLast?_append_of_ne_nil _ (List.append_ne_nil_of_right_ne_nil _
      (List.cons_ne_nil _ _)), List.getLast?_append_of_ne_nil _ (List.cons_ne_nil _ _),
      List.getLast?_cons_of_ne_nil hne] at hc
    exact hlast c hc

/-- The pattern of a dump takes what the writer wrote. -/
theorem dump?_dumpLine (mask : Mask) (capture : Capture) :
    dump? (LogOp.line mask (.append capture))
      = some (decimalPadded 4 capture.sequence,
          (tokensText mask capture).dropWhile isSpace) := by
  have hdigits := isDigits_decimalPadded 4 capture.sequence
  have hne := decimalPadded_ne_nil 4 capture.sequence
  rw [dumpLine_eq]
  generalize decimalPadded 4 capture.sequence = digits at hdigits hne ⊢
  have hword : literal? "dump".toList
      ("dump ".toList ++ (digits ++ ':' :: tokensText mask capture))
      = some (' ' :: (digits ++ ':' :: tokensText mask capture)) := rfl
  -- `\s+` takes the blank, and the sequence starts with a digit
  have hblank : (digits ++ ':' :: tokensText mask capture).dropWhile isSpace
      = digits ++ ':' :: tokensText mask capture := by
    obtain ⟨d, rest, rfl⟩ := List.exists_cons_of_ne_nil hne
    have hd := not_space_of_plain (isPlain_digit (hdigits d List.mem_cons_self))
    exact List.dropWhile_cons_of_neg (by rw [hd]; exact Bool.false_ne_true)
  -- the digits end at the colon
  have hcolon : ∀ c ∈ (':' :: tokensText mask capture).head?, isDecimal c = false := by
    intro c hc
    obtain rfl := Option.some.inj hc
    decide
  rw [dump?, hword, Option.bind_eq_bind, Option.bind_some]
  have htake : (' ' :: (digits ++ ':' :: tokensText mask capture)).takeWhile isSpace ≠ [] :=
    List.cons_ne_nil _ _
  have hdrop : (' ' :: (digits ++ ':' :: tokensText mask capture)).dropWhile isSpace
      = digits ++ ':' :: tokensText mask capture := hblank
  rw [if_neg htake, hdrop, digits?_append hdigits hne hcolon]
  rfl

end TeamAttack
