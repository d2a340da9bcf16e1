import TeamAttack.Allowlist
import TeamAttack.ConfigHex
import TeamAttack.LogSteps

/-! # The readers take every log

    A session's file is its header and the lines of its writes.  Both readers
    go through it without an error and give back what was written
    (`log_read_back`). -/

namespace TeamAttack

open RustStr HexText PyStr PyDict LogReaders ExceptRules

/-! ## A run label is plain -/

theorem label_byte {b : UInt8} (h : (isAsciiAlphanumeric b || b = 0x5f || b = 0x2d) = true) :
    (48 ≤ b.toNat ∧ b.toNat ≤ 57) ∨ (65 ≤ b.toNat ∧ b.toNat ≤ 90)
      ∨ (97 ≤ b.toNat ∧ b.toNat ≤ 122) ∨ b.toNat = 95 ∨ b.toNat = 45 := by
  simp only [isAsciiAlphanumeric, Bool.or_eq_true, Bool.and_eq_true, decide_eq_true_eq,
    UInt8.le_iff_toNat_le, ← UInt8.toNat_inj, or_assoc] at h
  exact h

theorem parseRunLabel_plain {value : Str} {line : Nat} {label : Str}
    (h : parseRunLabel value line = .ok label) : Plain label := by
  simp only [parseRunLabel, syntaxError, bind_eq_ok, check_eq_ok, pure_eq_ok, Bool.or_eq_true,
    not_or] at h
  obtain ⟨text, -, ⟨-, hall⟩, rfl⟩ := h
  rw [Bool.not_eq_true', Bool.not_eq_false, List.all_eq_true] at hall
  intro c hc
  -- the label is tested byte by byte, in its UTF-8 form
  have hbytes : ∀ b ∈ String.utf8EncodeChar c, _ :=
    fun b hb => label_byte (hall b (List.mem_flatMap.mpr ⟨c, hc, hb⟩))
  cases hascii : isAscii c with
  | false =>
      exfalso
      -- every byte of a wide character is above the ASCII range
      obtain ⟨b, hb⟩ := List.exists_mem_of_ne_nil _ (String.utf8EncodeChar_ne_nil (c := c))
      have hlow := hbytes b hb
      have hhigh := utf8EncodeChar_high hascii b hb
      omega
  | true =>
      have hlt : c.toNat < 128 := of_decide_eq_true hascii
      have hc := hbytes (UInt8.ofNat c.toNat)
        (by rw [utf8EncodeChar_ascii hascii]; exact List.mem_singleton_self _)
      rw [UInt8.toNat_ofNat_of_lt' (Nat.lt_trans hlt (by decide))] at hc
      refine isPlain_iff.mpr ⟨by omega, by omega, ?_⟩
      rintro rfl
      exact absurd hc (by decide)

theorem setKey_runLabel {config config' : Config} {key value : Str} {line : Nat}
    (hc : Plain config.runLabel) (h : setKey config key value line = .ok config') :
    Plain config'.runLabel := by
  unfold setKey at h
  split at h
  case h_17 =>
    simp only [bind_eq_ok, pure_eq_ok] at h
    obtain ⟨label, hlabel, rfl⟩ := h
    exact parseRunLabel_plain hlabel
  case h_18 => cases h
  all_goals
    simp only [bind_eq_ok, pure_eq_ok] at h
    first
      | obtain ⟨_, _, rfl⟩ := h
        exact hc
      | obtain ⟨_, _, _, _, rfl⟩ := h
        exact hc

theorem parse_runLabel {contents : Str} {config : Config} (h : parse contents = .ok config) :
    Plain config.runLabel :=
  parse_invariant (p := fun config => Plain config.runLabel)
    (plain_of_all (by decide)) (fun _ _ _ _ _ hc hset => setKey_runLabel hc hset) h

/-! ## The header -/

theorem plain_showBool (b : Bool) : Plain (showBool b) := by
  cases b with
  | false => exact plain_of_all (by decide)
  | true => exact plain_of_all (by decide)

theorem plain_signatureText (signature : List UInt8) : Plain (signatureText signature) := by
  intro c hc
  obtain ⟨b, -, hcb⟩ := List.mem_flatMap.mp hc
  exact plain_hexUpper 2 b.toNat c hcb

/-- Every header field can be shown on its line. -/
theorem headerFields_fine {contents : Str} {config : Config} {liveVersion : Str}
    (hparse : parse contents = .ok config) (hvalid : validateConfig config liveVersion = .ok ()) :
    ∀ field ∈ headerFields config, HeaderField field := by
  have hconfig := validConfig_of_ok hvalid
  have hversion : Plain config.expectedGameVersion := by
    rw [hconfig.expected, hconfig.live]
    exact plain_of_all (by decide)
  have habi : Plain config.reviewedAbi := by
    rw [hconfig.abi]
    exact plain_of_all (by decide)
  have hlabel := parse_runLabel hparse
  have hfine : ∀ {key : String} {value : Str}, key.toList.all isKeyChar = true → Plain value →
      HeaderField (key.toList, value) := fun hkey hvalue => ⟨hkey, hvalue⟩
  rw [headerFields, List.forall_mem_map, headerKeys, List.forall_mem_append,
    List.forall_mem_append]
  -- the first fields, those of the polled global, and the gates
  refine ⟨⟨?_, ?_⟩, ?_⟩
  · simp only [List.forall_mem_cons]
    exact ⟨hfine (by decide) (plain_of_all (by decide)), hfine (by decide) hlabel,
      hfine (by decide) (plain_showBool _), hfine (by decide) (plain_showBool _),
      List.forall_mem_nil _⟩
  · cases config.pollGlobalTeamAttack with
    | false => exact List.forall_mem_nil _
    | true =>
        rw [if_pos rfl]
        simp only [List.forall_mem_cons]
        exact ⟨hfine (by decide) (plain_of_all (by decide)),
          hfine (by decide) (plain_of_all (by decide)),
          hfine (by decide) (plain_of_all (by decide)),
          hfine (by decide) (plain_of_all (by decide)),
          hfine (by decide) (plain_of_all (by decide)),
          hfine (by decide) (plain_of_all (by decide)), List.forall_mem_nil _⟩
  · simp only [List.forall_mem_cons]
    exact ⟨hfine (by decide) (plain_showBool _), hfine (by decide) hversion,
      hfine (by decide) (plain_hexLower _), hfine (by decide) (plain_hexLower _),
      hfine (by decide) (plain_of_all (by decide)), hfine (by decide) habi,
      hfine (by decide) (plain_signatureText _), hfine (by decide) (plain_signatureText _),
      List.forall_mem_nil _⟩

/-- No key is written twice. -/
theorem headerFields_nodup (config : Config) : ((headerFields config).map Prod.fst).Nodup := by
  have hkeys : ((headerKeys config).map Prod.fst).Nodup := by
    rw [headerKeys]
    cases config.pollGlobalTeamAttack with
    | false =>
        simp only [Bool.false_eq_true, if_false, List.map_append, List.map_cons, List.map_nil]
        decide
    | true =>
        simp only [if_true, List.map_append, List.map_cons, List.map_nil]
        decide
  have hmap : (headerFields config).map Prod.fst
      = ((headerKeys config).map Prod.fst).map String.toList := by
    rw [headerFields, List.map_map, List.map_map]
    rfl
  rw [hmap]
  exact hkeys.map fun _ _ h => String.toList_injective h

/-! ## A reader over the lines of a file -/

/-- The reader takes the lines from `state` to `state'`, whatever their
    numbers. -/
def Reads {σ : Type} (step : σ → Str → Nat → Read σ) (ls : List Str) (state state' : σ) : Prop :=
  ∀ n, (ls.zipIdx n).foldlM (fun state line => step state line.1 line.2) state = .ok state'

theorem Reads.append {σ : Type} {step : σ → Str → Nat → Read σ} {xs ys : List Str} {a b c : σ}
    (hxs : Reads step xs a b) (hys : Reads step ys b c) : Reads step (xs ++ ys) a c := by
  intro n
  rw [List.zipIdx_append, List.foldlM_append, hxs n]
  exact hys _

theorem Reads.one {σ : Type} {step : σ → Str → Nat → Read σ} {l : Str} {a b : σ}
    (h : ∀ n, step a l n = .ok b) : Reads step [l] a b := by
  intro n
  rw [List.zipIdx_singleton, List.foldlM_cons, h n]
  rfl

/-- A reader takes the lines of `items` if it takes each in the state it
    reached on those before. -/
theorem reads_items {σ α : Type} {step : σ → Str → Nat → Read σ} {line : α → Str}
    (reached : List α → σ) {items : List α}
    (hstep : ∀ done item rest, done ++ item :: rest = items →
      ∀ n, step (reached done) (line item) n = .ok (reached (done ++ [item]))) :
    Reads step (items.map line) (reached []) (reached items) := by
  have hrest : ∀ rest done, done ++ rest = items →
      Reads step (rest.map line) (reached done) (reached items) := by
    intro rest
    induction rest with
    | nil =>
        intro done hdone n
        rw [List.append_nil] at hdone
        rw [hdone]
        rfl
    | cons item rest ih =>
        intro done hdone
        refine (Reads.one (hstep done item rest hdone)).append (ih (done ++ [item]) ?_)
        rw [List.append_assoc]
        exact hdone
  exact hrest items [] rfl

/-- The lines of a file come back as they were written. -/
theorem readLines_fileText {σ : Type} {step : σ → Str → Nat → Read σ} {ls : List Str} {a b : σ}
    (hunbroken : ∀ l ∈ ls, ∀ c ∈ l, isLineBreak c = false) (h : Reads step ls a b) :
    readLines step a (fileText ls) = .ok b := by
  have hlines : splitlines (fileText ls) = ls := splitlines_flatMap hunbroken
  rw [readLines, hlines]
  exact h 1

/-! ## No line breaks inside -/

theorem fieldLine_unbroken {field : Field} (h : HeaderField field) :
    ∀ c ∈ fieldLine field, isLineBreak c = false := by
  have hline : fieldLine field = "# ".toList ++ (field.1 ++ '=' :: field.2) :=
    List.append_assoc _ _ _
  intro c hc
  rw [hline] at hc
  rcases List.mem_cons.mp hc with rfl | hc
  · decide
  · rcases List.mem_cons.mp hc with rfl | hc
    · decide
    · cases hbreak : isLineBreak c with
      | false => rfl
      | true => exact absurd ((h.not_space c hc).symm.trans (space_of_lineBreak hbreak)) (by decide)

/-- The text of the last header line, behind the hash. -/
theorem formatLine_comment :
    ∃ text, formatLine = "# ".toList ++ text ∧ Ended text :=
  ⟨"format: dump <sequence>: 105 hex bytes or -- for unread bytes".toList, by decide,
    Ended.of_all (by decide) (by decide)⟩

theorem comment_unbroken {text : Str} (h : Ended text) :
    ∀ c ∈ "# ".toList ++ text, isLineBreak c = false := by
  intro c hc
  rcases List.mem_cons.mp hc with rfl | hc
  · decide
  · rcases List.mem_cons.mp hc with rfl | hc
    · decide
    · exact not_lineBreak_of_inline (h.inline c hc)

theorem LogOp.line_unbroken (mask : Mask) (op : LogOp) :
    ∀ c ∈ op.line mask, isLineBreak c = false := by
  cases hcapture : op.capture? with
  | none =>
      rw [op.line_comment mask hcapture]
      exact comment_unbroken (op.comment_ended hcapture)
  | some capture =>
      have hop : op = .append capture := by
        cases op <;> cases hcapture
        rfl
      intro c hc
      rw [hop, dumpLine_eq] at hc
      refine not_lineBreak_of_inline ?_
      have hword : "dump ".toList.all isInline = true := by decide
      rcases List.mem_append.mp hc with hc | hc
      · exact List.all_eq_true.mp hword c hc
      · rcases List.mem_append.mp hc with hc | hc
        · exact isInline_of_plain (isPlain_digit (isDigits_decimalPadded _ _ c hc))
        · rcases List.mem_cons.mp hc with rfl | hc
          · decide
          · exact (tokensText_ended mask capture).inline c hc

/-! ## The writes of a session -/

/-- Writes the writer thread can make: numbers that fit, no capture twice,
    and a clock and counters that do not go back. -/
structure Issued (ops : List LogOp) : Prop where
  fits : ∀ op ∈ ops, op.Fits
  distinct : ((ops.filterMap LogOp.capture?).map Capture.sequence).Nodup
  forward : (ops.filterMap LogOp.sample?).Pairwise fun a b =>
    a.1 ≤ b.1 ∧ a.2.serializerCalls ≤ b.2.serializerCalls ∧ a.2.storedDumps ≤ b.2.storedDumps

theorem filterMap_concat {α β : Type} (f : α → Option β) (l : List α) (a : α) :
    (l ++ [a]).filterMap f = l.filterMap f ++ (f a).toList := by
  rw [List.filterMap_append, List.filterMap_cons]
  cases f a with
  | none => rfl
  | some b => rfl

/-- A capture is new at its write. -/
theorem Issued.capture_new {done rest : List LogOp} {op : LogOp}
    (h : Issued (done ++ op :: rest)) {capture : Capture} (hcapture : capture ∈ op.capture?) :
    capture.sequence ∉ (done.filterMap LogOp.capture?).map Capture.sequence := by
  intro hmem
  have hdistinct := h.distinct
  rw [List.filterMap_append, List.filterMap_cons_some hcapture, List.map_append,
    List.map_cons] at hdistinct
  exact (List.nodup_cons.mp (List.nodup_middle.mp hdistinct)).1 (List.mem_append_left _ hmem)

/-- A row does not go back behind the last one. -/
theorem Issued.row_forward {done rest : List LogOp} {op : LogOp}
    (h : Issued (done ++ op :: rest)) {sample : UInt64 × Watch.Observation}
    (hsample : sample ∈ op.sample?) :
    ((done.filterMap LogOp.sample?).map sampleRow).getLast?.any (reversed (sampleRow sample))
      = false := by
  have hforward := h.forward
  rw [List.filterMap_append, List.filterMap_cons_some hsample] at hforward
  rw [List.getLast?_map]
  cases hlast : (done.filterMap LogOp.sample?).getLast? with
  | none => rfl
  | some previous =>
      obtain ⟨htime, hcalls, hstored⟩ := (List.pairwise_append.mp hforward).2.2 previous
        (List.mem_of_getLast? hlast) sample List.mem_cons_self
      have hclock : previous.1.toNat ≤ sample.1.toNat := UInt64.le_iff_toNat_le.mp htime
      show reversed (sampleRow sample) (sampleRow previous) = false
      rw [reversed, Bool.or_eq_false_iff, Bool.or_eq_false_iff]
      exact ⟨⟨decide_eq_false (Nat.not_lt.mpr hclock), decide_eq_false (Nat.not_lt.mpr hcalls)⟩,
        decide_eq_false (Nat.not_lt.mpr hstored)⟩

theorem Issued.op_fits {done rest : List LogOp} {op : LogOp} (h : Issued (done ++ op :: rest)) :
    op.Fits := h.fits op (List.mem_append_right _ List.mem_cons_self)

/-- **The writes through `read_log`.** -/
theorem readLog_ops (path : Path) (mask : Mask) {ops : List LogOp} (h : Issued ops)
    (metadata : List Field) :
    Reads (readLogLine path) (ops.map (LogOp.line mask)) ⟨metadata, []⟩
      ⟨metadata, (ops.filterMap LogOp.capture?).map (captureItem mask)⟩ := by
  refine reads_items (fun done => LogContents.mk metadata
    ((done.filterMap LogOp.capture?).map (captureItem mask))) ?_
  rintro done op rest rfl n
  rw [filterMap_concat, List.map_append]
  refine readLogLine_op path _ mask op h.op_fits ?_ n
  intro capture hcapture
  rw [List.map_map]
  exact h.capture_new hcapture

/-- **The writes through `read_session`.** -/
theorem readSession_ops (path : Path) (mask : Mask) {ops : List LogOp} (h : Issued ops)
    (metadata : List Field) :
    Reads (readSessionLine path) (ops.map (LogOp.line mask)) ⟨metadata, [], [], [], []⟩
      { metadata
        rows := (ops.filterMap LogOp.sample?).map sampleRow
        dumps := (ops.filterMap LogOp.capture?).map (dumpItem mask)
        transitions := ((ops.filterMap LogOp.sample?).map sampleRow).foldl addTransition []
        status := ops.filterMap LogOp.message? } := by
  refine reads_items (fun done => SessionState.mk metadata
    ((done.filterMap LogOp.sample?).map sampleRow)
    ((done.filterMap LogOp.capture?).map (dumpItem mask))
    (((done.filterMap LogOp.sample?).map sampleRow).foldl addTransition [])
    (done.filterMap LogOp.message?)) ?_
  rintro done op rest rfl n
  simp only [filterMap_concat, List.map_append, List.foldl_append]
  refine readSessionLine_op path _ mask op h.op_fits ?_ ?_ n
  · intro capture hcapture
    rw [List.map_map]
    exact h.capture_new hcapture
  · intro sample hsample
    exact h.row_forward hsample

/-! ## The header through the readers -/

theorem field_new {done rest : List Field} {field : Field}
    (h : ((done ++ field :: rest).map Prod.fst).Nodup) : field.1 ∉ done.map Prod.fst := by
  intro hmem
  rw [List.map_append, List.map_cons] at h
  exact (List.nodup_cons.mp (List.nodup_middle.mp h)).1 (List.mem_append_left _ hmem)

theorem readLog_fields (path : Path) {fields : List Field}
    (hfine : ∀ field ∈ fields, HeaderField field) (hdistinct : (fields.map Prod.fst).Nodup) :
    Reads (readLogLine path) (fields.map fieldLine) ⟨[], []⟩ ⟨fields, []⟩ := by
  refine reads_items (fun done => LogContents.mk done []) ?_
  rintro done field rest rfl n
  exact readLogLine_field path _ (hfine field (List.mem_append_right _ List.mem_cons_self))
    (field_new hdistinct) n

theorem readSession_fields (path : Path) {fields : List Field}
    (hfine : ∀ field ∈ fields, HeaderField field) (hdistinct : (fields.map Prod.fst).Nodup) :
    Reads (readSessionLine path) (fields.map fieldLine) ⟨[], [], [], [], []⟩
      ⟨fields, [], [], [], []⟩ := by
  refine reads_items (fun done => SessionState.mk done [] [] [] []) ?_
  rintro done field rest rfl n
  exact readSessionLine_field path _ (hfine field (List.mem_append_right _ List.mem_cons_self))
    (field_new hdistinct) n

theorem readLog_format (path : Path) (state : LogContents) :
    Reads (readLogLine path) [formatLine] state state := by
  obtain ⟨text, hline, hended⟩ := formatLine_comment
  refine Reads.one ?_
  intro n
  rw [hline]
  exact readLogLine_comment path state hended n

theorem readSession_format (path : Path) (state : SessionState) :
    Reads (readSessionLine path) [formatLine] state state := by
  have hended : Ended "format: dump <sequence>: 105 hex bytes or -- for unread bytes".toList :=
    Ended.of_all (by decide) (by decide)
  refine Reads.one ?_
  intro n
  exact readSessionLine_comment path state hended rfl rfl n

/-! ## The whole file -/

theorem createFrom_log {files : FileOutcomes} {config : Config} {log : CaptureLog}
    {session : Nat} : ∀ {sessions : List Nat},
    CaptureLog.createFrom files config sessions = .ok (log, session) →
      ∃ mask, maskOf config.captureOffsets = .ok mask ∧ log = ⟨writeHeader config, mask⟩ := by
  intro sessions
  induction sessions with
  | nil =>
      intro h
      cases h
  | cons n rest ih =>
      intro h
      rw [CaptureLog.createFrom] at h
      cases hnew : files.createNew n with
      | ok u =>
          rw [hnew] at h
          simp only [bind_eq_ok, pure_eq_ok] at h
          obtain ⟨-, -, -, -, -, -, mask, hmask, heq⟩ := h
          exact ⟨mask, hmask, (congrArg Prod.fst heq).symm⟩
      | error e =>
          rw [hnew] at h
          dsimp only at h
          -- a taken name sends the loop to the next
          by_cases hexists : e.kind = .alreadyExists
          · rw [if_pos hexists] at h
            exact ih h
          · rw [if_neg hexists] at h
            cases h

theorem create_log {files : FileOutcomes} {config : Config} {log : CaptureLog} {session : Nat}
    (h : CaptureLog.create files config = .ok (log, session)) :
    ∃ mask, maskOf config.captureOffsets = .ok mask ∧ log = ⟨writeHeader config, mask⟩ := by
  rw [CaptureLog.create, bind_eq_ok] at h
  obtain ⟨-, -, h⟩ := h
  exact createFrom_log h

/-- The bytes of a capture at the configured offsets. -/
def shownBytes (offsets : List UInt8) (capture : Capture) : List (Option Nat) :=
  (List.finRange compactBufferLen).map fun i =>
    if UInt8.ofNat i.val ∈ offsets then some (capture.bytes.get i).toNat else none

/-- The tokens of a dump: the configured bytes in digits. -/
def shownTokens (offsets : List UInt8) (capture : Capture) : List Str :=
  (List.finRange compactBufferLen).map fun i =>
    if UInt8.ofNat i.val ∈ offsets then hexUpper 2 (capture.bytes.get i).toNat else "--".toList

theorem cells_eq {offsets : List UInt8} {mask : Mask}
    (hmask : ∀ i : Fin compactBufferLen, mask.get i = decide (UInt8.ofNat i.val ∈ offsets))
    (capture : Capture) : cells mask capture = (List.finRange compactBufferLen).map fun i =>
      (capture.bytes.get i, decide (UInt8.ofNat i.val ∈ offsets)) := by
  refine List.ext_getElem (by simp [cells]) ?_
  intro n h1 h2
  simp [cells, Vector.get_eq_getElem, ← hmask]

theorem captureItem_eq {offsets : List UInt8} {mask : Mask}
    (hmask : ∀ i : Fin compactBufferLen, mask.get i = decide (UInt8.ofNat i.val ∈ offsets))
    (capture : Capture) :
    captureItem mask capture = (capture.sequence, shownBytes offsets capture) := by
  rw [captureItem, cells_eq hmask, List.map_map, shownBytes]
  refine congrArg (Prod.mk _) (List.map_congr_left fun i _ => ?_)
  exact if_congr decide_eq_true_iff rfl rfl

theorem dumpItem_eq {offsets : List UInt8} {mask : Mask}
    (hmask : ∀ i : Fin compactBufferLen, mask.get i = decide (UInt8.ofNat i.val ∈ offsets))
    (capture : Capture) :
    dumpItem mask capture = (capture.sequence, shownTokens offsets capture) := by
  rw [dumpItem, cells_eq hmask, List.map_map, shownTokens]
  refine congrArg (Prod.mk _) (List.map_congr_left fun i _ => ?_)
  exact if_congr decide_eq_true_iff rfl rfl

theorem fileLines_unbroken {config : Config} (mask : Mask) (ops : List LogOp)
    (hfine : ∀ field ∈ headerFields config, HeaderField field) :
    ∀ l ∈ headerLines config ++ ops.map (LogOp.line mask), ∀ c ∈ l, isLineBreak c = false := by
  obtain ⟨text, hline, hended⟩ := formatLine_comment
  intro l hl
  rcases List.mem_append.mp hl with hl | hl
  · rcases List.mem_append.mp hl with hl | hl
    · obtain ⟨field, hfield, rfl⟩ := List.mem_map.mp hl
      exact fieldLine_unbroken (hfine field hfield)
    · rw [List.mem_singleton.mp hl, hline]
      exact comment_unbroken hended
  · obtain ⟨op, -, rfl⟩ := List.mem_map.mp hl
    exact op.line_unbroken mask

/-- A digit is no separator. -/
theorem kept_hexDigit {c : Char} (h : isHexDigit c = true) :
    (!isAsciiWhitespace c && c ≠ ':' && c ≠ '-') = true := by
  have hc := isHexDigit_iff.mp h
  have hne : ∀ d : Char, isHexDigit d = false → c ≠ d := by
    rintro d hd rfl
    rw [h] at hd
    cases hd
  rw [isAsciiWhitespace, decide_eq_false (hne ' ' rfl), decide_eq_false (hne '\t' rfl),
    decide_eq_false (hne '\n' rfl), decide_eq_false (hne '\r' rfl),
    decide_eq_false (by omega : ¬ c.toNat = 0xc), decide_eq_true (hne ':' rfl),
    decide_eq_true (hne '-' rfl)]
  rfl

theorem signature_decoded (signature : List UInt8) (line : Nat) :
    decodeHex (signatureText signature) line = .ok signature := by
  refine decodeHex_hexUpper (List.filter_eq_self.mpr ?_) line
  intro c hc
  obtain ⟨b, -, hcb⟩ := List.mem_flatMap.mp hc
  exact kept_hexDigit (hexUpper_digits 2 b.toNat c hcb)

theorem readText_bytes (path : Path) {text : Str} (hsize : (bytes text).length ≤ maxLogBytes)
    (tooLong : Str) : readText path (bytes text) tooLong = .ok text := by
  rw [readText, if_neg (Nat.not_lt.mpr hsize), decodeUtf8?_bytes]

/-- `read_log` on the file of a session. -/
theorem readLog_file (path : Path) {config : Config} (mask : Mask) {ops : List LogOp}
    (hfine : ∀ field ∈ headerFields config, HeaderField field) (hissued : Issued ops)
    (happend : ops.filterMap LogOp.capture? ≠ [])
    (hsize : (bytes (fileText (headerLines config ++ ops.map (LogOp.line mask)))).length
      ≤ maxLogBytes) :
    readLog path (bytes (fileText (headerLines config ++ ops.map (LogOp.line mask))))
      = .ok ⟨headerFields config, (ops.filterMap LogOp.capture?).map (captureItem mask)⟩ := by
  have hreads : Reads (readLogLine path) (headerLines config ++ ops.map (LogOp.line mask)) ⟨[], []⟩
      ⟨headerFields config, (ops.filterMap LogOp.capture?).map (captureItem mask)⟩ :=
    ((readLog_fields path hfine (headerFields_nodup config)).append
      (readLog_format path _)).append (readLog_ops path mask hissued _)
  have hne : (ops.filterMap LogOp.capture?).map (captureItem mask) ≠ [] :=
    fun hnil => happend (List.map_eq_nil_iff.mp hnil)
  have hlines := readLines_fileText (fileLines_unbroken mask ops hfine) hreads
  rw [readLog, readText_bytes path hsize]
  refine bind_eq_ok.mpr ⟨_, rfl, bind_eq_ok.mpr ⟨_, hlines, ?_⟩⟩
  rw [if_neg hne]
  rfl

/-- What `read_session` collects from the lines of a session. -/
theorem readSessionLines_file (path : Path) {config : Config} (mask : Mask) {ops : List LogOp}
    (hfine : ∀ field ∈ headerFields config, HeaderField field) (hissued : Issued ops) :
    readLines (readSessionLine path) ⟨[], [], [], [], []⟩
        (fileText (headerLines config ++ ops.map (LogOp.line mask)))
      = .ok
        { metadata := headerFields config
          rows := (ops.filterMap LogOp.sample?).map sampleRow
          dumps := (ops.filterMap LogOp.capture?).map (dumpItem mask)
          transitions := ((ops.filterMap LogOp.sample?).map sampleRow).foldl addTransition []
          status := ops.filterMap LogOp.message? } := by
  have hreads : Reads (readSessionLine path) (headerLines config ++ ops.map (LogOp.line mask))
      ⟨[], [], [], [], []⟩ _ :=
    ((readSession_fields path hfine (headerFields_nodup config)).append
      (readSession_format path _)).append (readSession_ops path mask hissued _)
  exact readLines_fileText (fileLines_unbroken mask ops hfine) hreads

/-- A file whose lines show a session's header is read. -/
theorem readSession_of_lines (path : Path) {config : Config} {text : Str} {state : SessionState}
    (hlines : readLines (readSessionLine path) ⟨[], [], [], [], []⟩ text = .ok state)
    (hmetadata : state.metadata = headerFields config)
    (hsize : (bytes text).length ≤ maxLogBytes) :
    readSession path (bytes text) = .ok (state.session path) := by
  have hversion : (headerFields config).lookup "observer_version".toList = some packageVersion :=
    lookup_eq_some (headerFields_nodup config) List.mem_cons_self
  rw [readSession, readText_bytes path hsize]
  refine bind_eq_ok.mpr ⟨_, rfl, bind_eq_ok.mpr ⟨_, hlines, ?_⟩⟩
  rw [hmetadata, hversion]
  rfl

/-- **What a session writes, the readers read.**  For an accepted
    configuration and any writes a session can make, of which one is a dump,
    both readers take the file.  `read_log` gives the header fields and each
    capture at its sequence, `read_session` the header fields, the numbers of
    dumps and of watch rows, and the status messages in order; and the
    signatures of the header are the configured bytes. -/
theorem log_read_back {contents : Str} {config : Config} {liveVersion : Str}
    {files : FileOutcomes} {log : CaptureLog} {number : Nat} {ops : List LogOp} (path : Path)
    (hparse : parse contents = .ok config) (hvalid : validateConfig config liveVersion = .ok ())
    (hcreate : CaptureLog.create files config = .ok (log, number)) (hissued : Issued ops)
    (happend : ops.filterMap LogOp.capture? ≠ [])
    (hsize : (bytes (ops.foldl LogOp.perform log).written).length ≤ maxLogBytes) :
    readLog path (bytes (ops.foldl LogOp.perform log).written)
        = .ok
          { metadata := headerFields config
            captures := (ops.filterMap LogOp.capture?).map fun capture =>
              (capture.sequence, shownBytes config.captureOffsets capture) }
      ∧ (∀ entry ∈ headerKeys config,
          (headerFields config).lookup entry.1.toList = some entry.2)
      ∧ (∀ line, decodeHex (signatureText config.expectedPrologue) line
            = .ok config.expectedPrologue
          ∧ decodeHex (signatureText config.expectedCallsite) line = .ok config.expectedCallsite)
      ∧ ∃ session,
          readSession path (bytes (ops.foldl LogOp.perform log).written) = .ok session
          ∧ session.metadata = headerFields config
          ∧ session.serializerDumps = (ops.filterMap LogOp.capture?).length
          ∧ session.watchRows = (ops.filterMap LogOp.sample?).length
          ∧ session.statuses = ops.filterMap LogOp.message? := by
  obtain ⟨mask, hmask, rfl⟩ := create_log hcreate
  have hlt : ∀ o ∈ config.captureOffsets, o.toNat < compactBufferLen :=
    fun o ho => reviewedOffset_lt ((parse_captureOffsets hparse).2 o ho)
  -- the mask the log was opened with selects the configured offsets
  obtain ⟨mask', hmask', hget⟩ := maskOf_ok hlt
  obtain rfl := Except.ok.inj (hmask'.symm.trans hmask)
  have hfine := headerFields_fine hparse hvalid
  rw [written_lines] at hsize ⊢
  refine ⟨?_, ?_, ?_, _, readSession_of_lines path
    (readSessionLines_file path mask' hfine hissued) rfl hsize, rfl, ?_, ?_, rfl⟩
  · rw [readLog_file path mask' hfine hissued happend hsize]
    exact congrArg (fun captures => Except.ok (LogContents.mk (headerFields config) captures))
      (List.map_congr_left fun capture _ => captureItem_eq hget capture)
  · intro entry hentry
    exact lookup_eq_some (headerFields_nodup config) (List.mem_map_of_mem hentry)
  · exact fun line => ⟨signature_decoded _ line, signature_decoded _ line⟩
  · exact List.length_map _
  · exact List.length_map _

/-- A directory without logs. -/
def emptyDirectory : FileOutcomes where
  createDirAll := .ok ()
  createNew := fun _ => .ok ()
  writeHeader := .ok ()
  flush := .ok ()
  syncAll := .ok ()

/-- The run of a session with one configured byte: it ends if the file is not
    too long. -/
def oneByteSession (ops : List LogOp) : Parse Unit := do
  let config ← parse oneByteConfig
  (validateConfig config supportedGameVersion).mapError fun _ => .panic
  let created ← (CaptureLog.create emptyDirectory config).mapError fun _ => .panic
  if (bytes (ops.foldl LogOp.perform created.1).written).length ≤ maxLogBytes then return ()
  else .error .panic

theorem oneByteSession_ok {ops : List LogOp} (h : oneByteSession ops = .ok ()) :
    ∃ config log number, parse oneByteConfig = .ok config
      ∧ validateConfig config supportedGameVersion = .ok ()
      ∧ CaptureLog.create emptyDirectory config = .ok (log, number)
      ∧ (bytes (ops.foldl LogOp.perform log).written).length ≤ maxLogBytes := by
  have hok : ∀ {ε α : Type} {x : Except ε α} {fault : ParseFault} {a : α},
      x.mapError (fun _ => fault) = .ok a → x = .ok a := by
    intro ε α x fault a h
    cases x with
    | error e => cases h
    | ok b => rw [Except.ok.inj h]
  obtain ⟨config, hparse, h⟩ := bind_eq_ok.mp h
  obtain ⟨⟨⟩, hvalid, h⟩ := bind_eq_ok.mp h
  obtain ⟨⟨log, number⟩, hcreate, hsize⟩ := bind_eq_ok.mp h
  refine ⟨config, log, number, hparse, hok hvalid, hok hcreate, ?_⟩
  by_contra hlong
  rw [if_neg hlong] at hsize
  cases hsize

/-- A session with one capture between two rows. -/
def oneDumpOps : List LogOp :=
  [.status .hookInstalled, .watch 0 ⟨false, none, 0, 0⟩,
    .append ⟨0, Vector.replicate compactBufferLen 7⟩, .dumpWritten 0 12,
    .watch 250 ⟨true, some 1, 1, 1⟩]

theorem log_read_back_one_dump : ∃ config log number, parse oneByteConfig = .ok config
    ∧ CaptureLog.create emptyDirectory config = .ok (log, number)
    ∧ readLog ⟨[], []⟩ (bytes (oneDumpOps.foldl LogOp.perform log).written)
      = .ok ⟨headerFields config,
          [(0, shownBytes config.captureOffsets ⟨0, Vector.replicate compactBufferLen 7⟩)]⟩
    ∧ ∃ session, readSession ⟨[], []⟩ (bytes (oneDumpOps.foldl LogOp.perform log).written)
        = .ok session ∧ session.serializerDumps = 1 ∧ session.watchRows = 2
      ∧ session.statuses = [Status.hookInstalled.message] := by
  have hsession : oneByteSession oneDumpOps = .ok () := by decide +kernel
  obtain ⟨config, log, number, hparse, hvalid, hcreate, hsize⟩ := oneByteSession_ok hsession
  have hissued : Issued oneDumpOps := by
    constructor
    · simp [oneDumpOps, LogOp.Fits]
    · decide
    · decide
  obtain ⟨hlog, -, -, session, hread, -, hdumps, hrows, hstatuses⟩ :=
    log_read_back ⟨[], []⟩ hparse hvalid hcreate hissued (by decide) hsize
  exact ⟨config, log, number, hparse, hcreate, hlog, session, hread, hdumps, hrows, hstatuses⟩

end TeamAttack
