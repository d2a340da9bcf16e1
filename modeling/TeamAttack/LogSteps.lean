import TeamAttack.LogLines

/-! # One line of a log through a reader

    What a write adds to the state of `read_log` and of `read_session`
    (`readLogLine_op`, `readSessionLine_op`): each reader takes the line of a
    write without an error, where the write is one a session can make. -/

namespace TeamAttack

open RustStr HexText PyStr PyDict LogReaders

/-! ## What the writes say -/

/-- The observation of a watch row. -/
def LogOp.sample? : LogOp → Option (UInt64 × Watch.Observation)
  | .watch elapsedMs observation => some (elapsedMs, observation)
  | _ => none

/-- The capture of a dump. -/
def LogOp.capture? : LogOp → Option Capture
  | .append capture => some capture
  | _ => none

/-- The message of a status line. -/
def LogOp.message? : LogOp → Option Str
  | .status s => some s.message
  | _ => none

/-- A write of numbers that fit their types, with a byte of the global where
    it is initialized. -/
def LogOp.Fits : LogOp → Prop
  | .watch _ observation => observation.value.isSome = observation.initialized
      ∧ observation.serializerCalls < 2 ^ 64 ∧ observation.storedDumps < 2 ^ 64
  | .append capture => capture.sequence < 2 ^ 64
  | _ => True

/-- The row of a sample, as `read_session` keeps it. -/
def sampleRow (sample : UInt64 × Watch.Observation) : Row where
  elapsedMs := sample.1.toNat
  initialized := sample.2.initialized
  value := sample.2.value.map UInt8.toNat
  calls := sample.2.serializerCalls
  stored := sample.2.storedDumps

/-- The item of a capture, as `read_log` keeps it. -/
def captureItem (mask : Mask) (capture : Capture) : Nat × List (Option Nat) :=
  (capture.sequence, (cells mask capture).map cellValue)

/-- The item of a capture, as `read_session` keeps it. -/
def dumpItem (mask : Mask) (capture : Capture) : Nat × List Str :=
  (capture.sequence, (cells mask capture).map cellToken)

/-! ## `read_log` -/

theorem startsWith_hash (text : Str) : startsWith ("# ".toList ++ text) "#".toList = true :=
  startsWith_append "#".toList (' ' :: text)

theorem readLogLine_comment (path : Path) (state : LogContents) {text : Str} (h : Ended text)
    (number : Nat) : readLogLine path state ("# ".toList ++ text) number = .ok state := by
  have hne : "# ".toList ++ text ≠ [] := List.append_ne_nil_of_right_ne_nil _ h.ne_nil
  rw [readLogLine, strip_comment h]
  dsimp only
  rw [if_neg hne, if_pos (startsWith_hash text), header?_comment h]
  rfl

theorem readLogLine_field (path : Path) (state : LogContents) {field : Field}
    (h : HeaderField field) (hnew : field.1 ∉ state.metadata.map Prod.fst) (number : Nat) :
    readLogLine path state (fieldLine field) number
      = .ok { state with metadata := state.metadata ++ [field] } := by
  have hhash : startsWith (fieldLine field) "#".toList = true :=
    startsWith_append "#".toList (' ' :: field.1 ++ '=' :: field.2)
  have hne : fieldLine field ≠ [] :=
    List.append_ne_nil_of_right_ne_nil _ (List.cons_ne_nil _ _)
  rw [readLogLine, strip_fieldLine h]
  dsimp only
  rw [if_neg hne, if_pos hhash, header?_fieldLine h]
  dsimp only
  rw [contains_of_new hnew, if_neg Bool.false_ne_true, insert_new hnew]
  rfl

theorem readInt_decimal {n : Nat} (h : n < 2 ^ 64) : readInt (decimal n) = .ok n := by
  rw [readInt, int?_decimal_word h]

theorem readInt_sequence {sequence : Nat} (h : sequence < 2 ^ 64) :
    readInt (decimalPadded 4 sequence) = .ok sequence := by
  rw [readInt, int?_decimalPadded (by decide) h]

theorem tokens_fine (mask : Mask) (capture : Capture) :
    ((cells mask capture).map cellToken).length = compactBufferLen
      ∧ ((cells mask capture).map cellToken).any (fun token => !isToken token) = false := by
  refine ⟨by rw [List.length_map, cells_length], ?_⟩
  rw [List.any_eq_false]
  intro token htoken
  obtain ⟨x, -, rfl⟩ := List.mem_map.mp htoken
  rw [isToken_cellToken]
  exact Bool.false_ne_true

theorem readLogLine_dump (path : Path) (state : LogContents) (mask : Mask) {capture : Capture}
    (h : capture.sequence < 2 ^ 64) (hnew : capture.sequence ∉ state.captures.map Prod.fst)
    (number : Nat) :
    readLogLine path state (LogOp.line mask (.append capture)) number
      = .ok { state with captures := state.captures ++ [captureItem mask capture] } := by
  have hne : LogOp.line mask (.append capture) ≠ [] := by
    rw [dumpLine_eq]
    exact List.cons_ne_nil _ _
  -- a dump line starts with its sequence
  have hhash : startsWith (LogOp.line mask (.append capture)) "#".toList = false := by
    rw [dumpLine_eq]
    rfl
  obtain ⟨hlength, hany⟩ := tokens_fine mask capture
  rw [readLogLine, strip_dumpLine]
  dsimp only
  rw [if_neg hne, hhash, if_neg Bool.false_ne_true, dump?_dumpLine]
  dsimp only
  rw [readInt_sequence h, split_dropWhile, split_tokensText, hany, hlength]
  show (if contains state.captures capture.sequence then _ else _) = _
  rw [contains_of_new hnew, if_neg Bool.false_ne_true, insert_new hnew, List.map_map]
  have hvalues : (cells mask capture).map (tokenValue ∘ cellToken)
      = (cells mask capture).map cellValue :=
    List.map_congr_left fun x _ => tokenValue_cellToken x
  rw [hvalues]
  rfl

theorem dumpWritten_ended (sequence elapsedMs : Nat) :
    Ended ("dump_written: sequence:".toList ++ decimal sequence ++ " elapsed_ms:".toList
      ++ decimal elapsedMs) := by
  have hsequence : (decimal sequence).all isInline = true :=
    List.all_eq_true.mpr fun c hc => isInline_of_plain (plain_decimal sequence c hc)
  refine Ended.append ?_ (decimal_ended elapsedMs)
  rw [List.all_append, List.all_append, hsequence]
  decide

/-- The fields of a watch row. -/
def watchFields (elapsedMs : UInt64) (observation : Watch.Observation) : List Field :=
  [("elapsed_ms".toList, decimal elapsedMs.toNat),
    ("initialized".toList, showFlag observation.initialized),
    ("team_attack_global".toList, watchValue observation.value),
    ("serializer_calls".toList, decimal observation.serializerCalls),
    ("stored_dumps".toList, decimal observation.storedDumps)]

/-- The text of the comment a write leaves, if it does not leave a dump. -/
def LogOp.comment : LogOp → Str
  | .status s => "observer_status: ".toList ++ s.message
  | .codecEvent line => line.text
  | .applicationEvent line => line.text
  | .codecCounts elapsedMs counts => codecCountsText elapsedMs counts
  | .applicationCounts elapsedMs counts => applicationCountsText elapsedMs counts
  | .watch elapsedMs observation =>
      "watch:".toList ++ fieldsText (watchFields elapsedMs observation)
  | .dumpWritten sequence elapsedMs =>
      "dump_written: sequence:".toList ++ decimal sequence ++ " elapsed_ms:".toList
        ++ decimal elapsedMs
  | .append _ => []

theorem LogOp.line_comment (mask : Mask) (op : LogOp) (h : op.capture? = none) :
    op.line mask = "# ".toList ++ op.comment := by
  cases op with
  | status s => rfl
  | codecEvent line => rfl
  | applicationEvent line => rfl
  | codecCounts elapsedMs counts => rfl
  | applicationCounts elapsedMs counts => rfl
  | watch elapsedMs observation => rfl
  | dumpWritten sequence elapsedMs => rfl
  | append capture => cases h

theorem LogOp.comment_ended (op : LogOp) (h : op.capture? = none) : Ended op.comment := by
  cases op with
  | status s => exact Ended.append (by decide) s.message_ended
  | codecEvent line =>
      exact Ended.append (by decide) (Ended.fields line.fields_plain (List.cons_ne_nil _ _))
  | applicationEvent line =>
      exact Ended.append (by decide)
        (Ended.fields (line.event.fields_plain line.sequence) (List.cons_ne_nil _ _))
  | codecCounts elapsedMs counts =>
      refine Ended.append (by decide) (Ended.fields ?_ (List.cons_ne_nil _ _))
      simp only [List.forall_mem_cons]
      exact ⟨plainField (by decide) (plain_decimal _), plainField (by decide) (plain_decimal _),
        plainField (by decide) (plain_decimal _), plainField (by decide) (plain_decimal _),
        List.forall_mem_nil _⟩
  | applicationCounts elapsedMs counts =>
      refine Ended.append (by decide) (Ended.fields ?_ (List.cons_ne_nil _ _))
      simp only [List.forall_mem_cons]
      exact ⟨plainField (by decide) (plain_decimal _), plainField (by decide) (plain_decimal _),
        plainField (by decide) (plain_decimal _), plainField (by decide) (plain_decimal _),
        plainField (by decide) (plain_decimal _), plainField (by decide) (plain_decimal _),
        plainField (by decide) (plain_decimal _), plainField (by decide) (plain_decimal _),
        plainField (by decide) (plain_decimal _), plainField (by decide) (plain_decimal _),
        List.forall_mem_nil _⟩
  | watch elapsedMs observation =>
      refine Ended.append (by decide) (Ended.fields ?_ (List.cons_ne_nil _ _))
      simp only [watchFields, List.forall_mem_cons]
      exact ⟨plainField (by decide) (plain_decimal _), plainField (by decide) (plain_showFlag _),
        plainField (by decide) (plain_watchValue _), plainField (by decide) (plain_decimal _),
        plainField (by decide) (plain_decimal _), List.forall_mem_nil _⟩
  | dumpWritten sequence elapsedMs => exact dumpWritten_ended sequence elapsedMs
  | append capture => cases h

/-- **A write through `read_log`.** -/
theorem readLogLine_op (path : Path) (state : LogContents) (mask : Mask) (op : LogOp)
    (hfits : op.Fits)
    (hnew : ∀ capture ∈ op.capture?, capture.sequence ∉ state.captures.map Prod.fst)
    (number : Nat) :
    readLogLine path state (op.line mask) number
      = .ok { state with
          captures := state.captures ++ op.capture?.toList.map (captureItem mask) } := by
  cases hcapture : op.capture? with
  | none =>
      rw [op.line_comment mask hcapture, readLogLine_comment path state (op.comment_ended hcapture)]
      show _ = Except.ok { state with captures := state.captures ++ [] }
      rw [List.append_nil]
  | some capture =>
      cases op with
      | append capture' =>
          obtain rfl := Option.some.inj hcapture
          exact readLogLine_dump path state mask hfits (hnew _ rfl) number
      | status s => cases hcapture
      | codecEvent line => cases hcapture
      | applicationEvent line => cases hcapture
      | codecCounts elapsedMs counts => cases hcapture
      | applicationCounts elapsedMs counts => cases hcapture
      | watch elapsedMs observation => cases hcapture
      | dumpWritten sequence elapsedMs => cases hcapture

/-! ## Watch rows -/

theorem fieldsText_cons (field : Field) (fields : List Field) :
    fieldsText (field :: fields)
      = ' ' :: (field.1 ++ ':' :: (field.2 ++ fieldsText fields)) := by
  have hcons : fieldsText (field :: fields)
      = ' ' :: (field.1 ++ ':' :: field.2) ++ fieldsText fields := List.flatMap_cons
  rw [hcons, List.cons_append, List.append_assoc, List.cons_append]

/-- A literal up to a colon takes a label and the key of its first field. -/
theorem literal?_field (label key p rest : Str) (hp : p = label ++ ' ' :: (key ++ [':'])) :
    literal? p (label ++ ' ' :: (key ++ ':' :: rest)) = some rest := by
  have hsplit : label ++ ' ' :: (key ++ ':' :: rest)
      = label ++ ' ' :: (key ++ [':']) ++ rest := by
    rw [List.append_assoc, List.cons_append, List.append_assoc, List.singleton_append]
  rw [hp, hsplit, literal?_append]

theorem literal?_key (key p rest : Str) (hp : p = ' ' :: (key ++ [':'])) :
    literal? p (' ' :: (key ++ ':' :: rest)) = some rest := literal?_field [] key p rest hp

theorem digits?_blank (n : Nat) (rest : Str) :
    digits? (decimal n ++ ' ' :: rest) = some (decimal n, ' ' :: rest) := by
  refine digits?_append (isDigits_decimal n) (decimal_ne_nil n) ?_
  intro c hc
  obtain rfl := Option.some.inj hc
  decide

theorem digits?_end (n : Nat) : digits? (decimal n) = some (decimal n, []) := by
  have hnone : ∀ c ∈ ([] : Str).head?, isDecimal c = false := by
    intro c hc
    cases hc
  have htaken := digits?_append (isDigits_decimal n) (decimal_ne_nil n) hnone
  rwa [List.append_nil] at htaken

theorem flag?_showFlag (b : Bool) (rest : Str) : flag? (showFlag b ++ rest) = some (b, rest) := by
  cases b with
  | false => rfl
  | true => rfl

theorem isUpperHexDigit_upperDigit : ∀ n : Fin 16, isUpperHexDigit (upperDigit n) = true := by
  decide

theorem byte?_watchValue (value : Option UInt8) (rest : Str) :
    byte? (watchValue value ++ rest) = some (watchValue value, rest) := by
  cases value with
  | none => rfl
  | some v =>
      have hpair := hexUpper_byte ⟨v.toNat, v.toNat_lt⟩
      show byte? (hexUpper 2 v.toNat ++ rest) = some (hexUpper 2 v.toNat, rest)
      rw [show hexUpper 2 v.toNat = _ from hpair, List.cons_append, List.cons_append,
        List.nil_append, byte?, isUpperHexDigit_upperDigit, isUpperHexDigit_upperDigit]
      rfl

/-- **The pattern of a watch row takes what the log wrote.** -/
theorem watch?_watchText (elapsedMs : UInt64) (observation : Watch.Observation) :
    watch? (watchText elapsedMs observation)
      = some
        { elapsed := decimal elapsedMs.toNat
          initialized := observation.initialized
          value := watchValue observation.value
          calls := decimal observation.serializerCalls
          stored := decimal observation.storedDumps } := by
  have hline : watchText elapsedMs observation
      = "# watch:".toList ++ fieldsText (watchFields elapsedMs observation) := rfl
  have hend : fieldsText [] = [] := rfl
  rw [hline, watchFields]
  simp only [fieldsText_cons, hend, List.append_nil]
  -- field by field: a literal up to the colon, then the value
  rw [watch?, literal?_field _ _ _ _ (by decide)]
  dsimp only [Option.bind_eq_bind, Option.bind_some]
  rw [digits?_blank]
  dsimp only [Option.bind_some]
  rw [literal?_key _ _ _ (by decide)]
  dsimp only [Option.bind_some]
  rw [flag?_showFlag]
  dsimp only [Option.bind_some]
  rw [literal?_key _ _ _ (by decide)]
  dsimp only [Option.bind_some]
  rw [byte?_watchValue]
  dsimp only [Option.bind_some]
  rw [literal?_key _ _ _ (by decide)]
  dsimp only [Option.bind_some]
  rw [digits?_blank]
  dsimp only [Option.bind_some]
  rw [literal?_key _ _ _ (by decide)]
  dsimp only [Option.bind_some]
  rw [digits?_end]
  rfl

theorem tokenValue_watchValue (value : Option UInt8) :
    tokenValue (watchValue value) = value.map UInt8.toNat := by
  cases value with
  | none => exact tokenValue_cellToken (0, false)
  | some v => exact tokenValue_cellToken (v, true)

theorem row_watchText {elapsedMs : UInt64} {observation : Watch.Observation}
    (hcalls : observation.serializerCalls < 2 ^ 64) (hstored : observation.storedDumps < 2 ^ 64) :
    WatchGroups.row
        { elapsed := decimal elapsedMs.toNat
          initialized := observation.initialized
          value := watchValue observation.value
          calls := decimal observation.serializerCalls
          stored := decimal observation.storedDumps }
      = .ok (sampleRow (elapsedMs, observation)) := by
  rw [WatchGroups.row]
  dsimp only
  rw [readInt_decimal elapsedMs.toNat_lt, readInt_decimal hcalls, readInt_decimal hstored,
    tokenValue_watchValue]
  rfl

/-! ## `read_session` -/

theorem literal?_fits (p q s : Str) : literal? (p ++ q) (p ++ s) = literal? q s := by
  induction p with
  | nil => rfl
  | cons a p ih => rw [List.cons_append, List.cons_append, literal?, if_pos rfl, ih]

theorem startsWith_watch (text : Str) :
    startsWith ("# ".toList ++ text) "# watch:".toList = (literal? "watch:".toList text).isSome :=
  congrArg Option.isSome (literal?_fits "# ".toList "watch:".toList text)

theorem literal?_status (text : Str) :
    literal? "# observer_status: ".toList ("# ".toList ++ text)
      = literal? "observer_status: ".toList text :=
  literal?_fits "# ".toList "observer_status: ".toList text

theorem readSessionLine_comment (path : Path) (state : SessionState) {text : Str}
    (h : Ended text) (hwatch : literal? "watch:".toList text = none)
    (hstatus : literal? "observer_status: ".toList text = none) (number : Nat) :
    readSessionLine path state ("# ".toList ++ text) number = .ok state := by
  have hne : "# ".toList ++ text ≠ [] := List.append_ne_nil_of_right_ne_nil _ h.ne_nil
  rw [readSessionLine, strip_comment h]
  dsimp only
  rw [if_neg hne, startsWith_watch, hwatch, Option.isSome_none, if_neg Bool.false_ne_true,
    if_pos (startsWith_hash text), literal?_status, hstatus]
  dsimp only
  rw [header?_comment h]
  rfl

theorem readSessionLine_status (path : Path) (state : SessionState) {message : Str}
    (h : Ended message) (number : Nat) :
    readSessionLine path state ("# ".toList ++ ("observer_status: ".toList ++ message)) number
      = .ok { state with status := state.status ++ [message] } := by
  have hended : Ended ("observer_status: ".toList ++ message) := h.append (by decide)
  have hne : "# ".toList ++ ("observer_status: ".toList ++ message) ≠ [] :=
    List.append_ne_nil_of_right_ne_nil _ hended.ne_nil
  have hwatch : literal? "watch:".toList ("observer_status: ".toList ++ message) = none := rfl
  rw [readSessionLine, strip_comment hended]
  dsimp only
  rw [if_neg hne, startsWith_watch, hwatch, Option.isSome_none, if_neg Bool.false_ne_true,
    if_pos (startsWith_hash _), literal?_status, literal?_append]
  rfl

theorem readSessionLine_watch (path : Path) (state : SessionState) {elapsedMs : UInt64}
    {observation : Watch.Observation} (hfits : (LogOp.watch elapsedMs observation).Fits)
    (hforward : state.rows.getLast?.any (reversed (sampleRow (elapsedMs, observation))) = false)
    (number : Nat) :
    readSessionLine path state (watchText elapsedMs observation) number
      = .ok { state with
          transitions := addTransition state.transitions (sampleRow (elapsedMs, observation))
          rows := state.rows ++ [sampleRow (elapsedMs, observation)] } := by
  obtain ⟨hvalue, hcalls, hstored⟩ := hfits
  have hended : Ended (LogOp.comment (.watch elapsedMs observation)) :=
    LogOp.comment_ended (.watch elapsedMs observation) rfl
  have hline : watchText elapsedMs observation
      = "# ".toList ++ LogOp.comment (.watch elapsedMs observation) := rfl
  have hne : watchText elapsedMs observation ≠ [] := by
    rw [hline]
    exact List.append_ne_nil_of_right_ne_nil _ hended.ne_nil
  have hstart : startsWith (watchText elapsedMs observation) "# watch:".toList = true :=
    startsWith_append _ _
  have hstrip : strip (watchText elapsedMs observation) = watchText elapsedMs observation := by
    rw [hline]
    exact strip_comment hended
  -- the row says initialized exactly when it has a value
  have hsome : (sampleRow (elapsedMs, observation)).initialized
      = (sampleRow (elapsedMs, observation)).value.isSome := by
    show observation.initialized = (observation.value.map UInt8.toNat).isSome
    rw [Option.isSome_map, hvalue]
  rw [readSessionLine, hstrip]
  dsimp only
  rw [if_neg hne, if_pos hstart, readWatch, watch?_watchText]
  dsimp only
  rw [row_watchText hcalls hstored]
  show (if (sampleRow (elapsedMs, observation)).initialized ≠ _ then _ else _) = _
  rw [if_neg (not_not.mpr hsome), hforward, if_neg Bool.false_ne_true]
  rfl

/-- A label with a colon is not the start of a header field. -/
theorem literal?_key_none {p : Str} {field : Field} (hcolon : ':' ∈ p) (heq : '=' ∉ p)
    (h : HeaderField field) : literal? p (field.1 ++ '=' :: field.2) = none := by
  cases htaken : literal? p (field.1 ++ '=' :: field.2) with
  | none => rfl
  | some rest =>
      exfalso
      -- the label would end inside the key or behind its `=`
      rcases List.append_eq_append_iff.mp (literal?_eq_some.mp htaken) with
        ⟨more, rfl, htail⟩ | ⟨more, hkey, -⟩
      · cases more with
        | nil =>
            rw [List.append_nil] at hcolon
            exact absurd (List.all_eq_true.mp h.key ':' hcolon) (by decide)
        | cons c more =>
            obtain ⟨rfl, -⟩ := List.cons.inj htail
            exact heq (List.mem_append_right _ List.mem_cons_self)
      · have hmem : ':' ∈ field.1 := by
          rw [hkey]
          exact List.mem_append_left _ hcolon
        exact absurd (List.all_eq_true.mp h.key ':' hmem) (by decide)

theorem readSessionLine_field (path : Path) (state : SessionState) {field : Field}
    (h : HeaderField field) (hnew : field.1 ∉ state.metadata.map Prod.fst) (number : Nat) :
    readSessionLine path state (fieldLine field) number
      = .ok { state with metadata := state.metadata ++ [field] } := by
  have hline : fieldLine field = "# ".toList ++ (field.1 ++ '=' :: field.2) :=
    List.append_assoc _ _ _
  have hne : fieldLine field ≠ [] :=
    List.append_ne_nil_of_right_ne_nil _ (List.cons_ne_nil _ _)
  -- neither a watch row nor a status
  have hstart : startsWith (fieldLine field) "# watch:".toList = false := by
    rw [hline, startsWith_watch, literal?_key_none (by decide) (by decide) h]
    rfl
  have hhash : startsWith (fieldLine field) "#".toList = true := by
    rw [hline]
    exact startsWith_hash _
  have hstatus : literal? "# observer_status: ".toList (fieldLine field) = none := by
    rw [hline, literal?_status, literal?_key_none (by decide) (by decide) h]
  rw [readSessionLine, strip_fieldLine h]
  dsimp only
  rw [if_neg hne, hstart, if_neg Bool.false_ne_true, if_pos hhash, hstatus]
  dsimp only
  rw [header?_fieldLine h]
  dsimp only
  rw [contains_of_new hnew, if_neg Bool.false_ne_true, insert_new hnew]
  rfl

theorem readSessionLine_dump (path : Path) (state : SessionState) (mask : Mask)
    {capture : Capture} (h : capture.sequence < 2 ^ 64)
    (hnew : capture.sequence ∉ state.dumps.map Prod.fst) (number : Nat) :
    readSessionLine path state (LogOp.line mask (.append capture)) number
      = .ok { state with dumps := state.dumps ++ [dumpItem mask capture] } := by
  have hne : LogOp.line mask (.append capture) ≠ [] := by
    rw [dumpLine_eq]
    exact List.cons_ne_nil _ _
  have hstart : ∀ label : Str, label.head? = some '#' →
      startsWith (LogOp.line mask (.append capture)) label = false := by
    intro label hlabel
    cases label with
    | nil => cases hlabel
    | cons c label =>
        obtain rfl := Option.some.inj hlabel
        rw [dumpLine_eq]
        rfl
  obtain ⟨hlength, hany⟩ := tokens_fine mask capture
  rw [readSessionLine, strip_dumpLine]
  dsimp only
  rw [if_neg hne, hstart _ rfl, if_neg Bool.false_ne_true, hstart _ rfl,
    if_neg Bool.false_ne_true, dump?_dumpLine]
  dsimp only
  rw [readInt_sequence h, split_dropWhile, split_tokensText, hany, hlength]
  show (if contains state.dumps capture.sequence || _ || _ then _ else _) = _
  rw [contains_of_new hnew, insert_new hnew]
  rfl

/-- The state of `read_session` with a write more. -/
def LogReaders.SessionState.after (mask : Mask) (state : SessionState) (op : LogOp) :
    SessionState :=
  { state with
    rows := state.rows ++ op.sample?.toList.map sampleRow
    dumps := state.dumps ++ op.capture?.toList.map (dumpItem mask)
    transitions := (op.sample?.toList.map sampleRow).foldl addTransition state.transitions
    status := state.status ++ op.message?.toList }

/-- **A write through `read_session`.** -/
theorem readSessionLine_op (path : Path) (state : SessionState) (mask : Mask) (op : LogOp)
    (hfits : op.Fits)
    (hnew : ∀ capture ∈ op.capture?, capture.sequence ∉ state.dumps.map Prod.fst)
    (hforward : ∀ sample ∈ op.sample?,
      state.rows.getLast?.any (reversed (sampleRow sample)) = false)
    (number : Nat) :
    readSessionLine path state (op.line mask) number = .ok (state.after mask op) := by
  -- a comment that is neither a row nor a status changes nothing
  have hcomment : op.capture? = none → op.sample? = none → op.message? = none →
      literal? "watch:".toList op.comment = none →
      literal? "observer_status: ".toList op.comment = none →
      readSessionLine path state (op.line mask) number = .ok (state.after mask op) := by
    intro hcapture hsample hmessage hwatch hstatus
    rw [op.line_comment mask hcapture,
      readSessionLine_comment path state (op.comment_ended hcapture) hwatch hstatus,
      SessionState.after, hcapture, hsample, hmessage]
    simp
  cases op with
  | status s =>
      rw [LogOp.line_comment mask (.status s) rfl]
      refine (readSessionLine_status path state s.message_ended number).trans ?_
      simp [SessionState.after, LogOp.sample?, LogOp.capture?, LogOp.message?]
  | watch elapsedMs observation =>
      refine (readSessionLine_watch path state hfits (hforward _ rfl) number).trans ?_
      simp [SessionState.after, LogOp.sample?, LogOp.capture?, LogOp.message?]
  | append capture =>
      refine (readSessionLine_dump path state mask hfits (hnew _ rfl) number).trans ?_
      simp [SessionState.after, LogOp.sample?, LogOp.capture?, LogOp.message?]
  | codecEvent line => exact hcomment rfl rfl rfl rfl rfl
  | applicationEvent line => exact hcomment rfl rfl rfl rfl rfl
  | codecCounts elapsedMs counts => exact hcomment rfl rfl rfl rfl rfl
  | applicationCounts elapsedMs counts => exact hcomment rfl rfl rfl rfl rfl
  | dumpWritten sequence elapsedMs => exact hcomment rfl rfl rfl rfl rfl

end TeamAttack
