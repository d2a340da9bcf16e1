import TeamAttack.Allowlist
import TeamAttack.LineText
import TeamAttack.LogReaders

/-! # A log, line by line

    The writer thread's operations on a log, and the file they leave: one
    line for each header field and for each operation (`written_lines`).  No
    line breaks inside, none begins or ends with a blank, and only the header
    has a `=`. -/

namespace TeamAttack

open RustStr PyStr LogReaders ExceptRules

/-! ## The writer -/

/-- A write to the log after its header. -/
inductive LogOp where
  | status (status : Status)
  | codecEvent (line : CodecProbe.EventLine)
  | applicationEvent (line : ApplicationProbe.EventLine)
  | codecCounts (elapsedMs : UInt64) (counts : Nat × Nat × Nat)
  | applicationCounts (elapsedMs : UInt64) (counts : (ApplicationProbe.Kind → Nat) × Nat)
  | watch (elapsedMs : UInt64) (observation : Watch.Observation)
  | dumpWritten (sequence elapsedMs : Nat)
  | append (capture : Capture)

/-- The write, by the function of the log that makes it. -/
def LogOp.perform (log : CaptureLog) : LogOp → CaptureLog
  | .status s => log.status s.message
  | .codecEvent line => log.event line.text
  | .applicationEvent line => log.event line.text
  | .codecCounts elapsedMs counts => log.event (codecCountsText elapsedMs counts)
  | .applicationCounts elapsedMs counts => log.event (applicationCountsText elapsedMs counts)
  | .watch elapsedMs observation => log.watch elapsedMs observation
  | .dumpWritten sequence elapsedMs => log.dumpWritten sequence elapsedMs
  | .append capture => log.append capture

/-- The line a write adds. -/
def LogOp.line (mask : Mask) : LogOp → Str
  | .status s => "# observer_status: ".toList ++ s.message
  | .codecEvent line => "# ".toList ++ line.text
  | .applicationEvent line => "# ".toList ++ line.text
  | .codecCounts elapsedMs counts => "# ".toList ++ codecCountsText elapsedMs counts
  | .applicationCounts elapsedMs counts => "# ".toList ++ applicationCountsText elapsedMs counts
  | .watch elapsedMs observation => watchText elapsedMs observation
  | .dumpWritten sequence elapsedMs =>
      "# dump_written: sequence:".toList ++ decimal sequence ++ " elapsed_ms:".toList
        ++ decimal elapsedMs
  | .append capture =>
      "dump ".toList ++ decimalPadded 4 capture.sequence ++ ':'
        :: (capture.bytes.toList.zip mask.toList).flatMap fun x => captureCell x.1 x.2

theorem LogOp.perform_eq (log : CaptureLog) (op : LogOp) :
    op.perform log = { log with written := log.written ++ (op.line log.mask ++ ['\n']) } := by
  have hassoc : ∀ label x : Str, CaptureLog.mk (log.written ++ label ++ x ++ ['\n']) log.mask
      = ⟨log.written ++ (label ++ x ++ ['\n']), log.mask⟩ := by
    intro label x
    rw [List.append_assoc, List.append_assoc, List.append_assoc]
  cases op with
  | status s => exact hassoc _ s.message
  | codecEvent line => exact hassoc _ line.text
  | applicationEvent line => exact hassoc _ line.text
  | codecCounts elapsedMs counts => exact hassoc _ (codecCountsText elapsedMs counts)
  | applicationCounts elapsedMs counts => exact hassoc _ (applicationCountsText elapsedMs counts)
  | watch elapsedMs observation =>
      have h := hassoc (watchText elapsedMs observation) []
      rw [List.append_nil, List.append_nil] at h
      exact h
  | dumpWritten sequence elapsedMs =>
      have h : ∀ label clock a b : Str,
          CaptureLog.mk (log.written ++ label ++ a ++ clock ++ b ++ ['\n']) log.mask
            = ⟨log.written ++ (label ++ a ++ clock ++ b ++ ['\n']), log.mask⟩ := by
        intro label clock a b
        simp only [List.append_assoc]
      exact h _ _ (decimal sequence) (decimal elapsedMs)
  | append capture => exact rfl

/-- The keys and values of the header, in order. -/
def headerKeys (config : Config) : List (String × Str) :=
  [("observer_version", packageVersion), ("run_label", config.runLabel),
    ("observe_rule_codec", showBool config.observeRuleCodec),
    ("poll_global_team_attack", showBool config.pollGlobalTeamAttack)]
  ++ (if config.pollGlobalTeamAttack then
        [("global_text_offset", "0x530a981".toList),
          ("global_init_guard_text_offset", "0x53144d8".toList),
          ("global_poll_interval_ms", "250".toList), ("watch_heartbeat_ms", "5000".toList),
          ("watch_limit_ms", "1200000".toList), ("mutation_lifetime", "process".toList)]
      else [])
  ++ [("observe_rule_application", showBool config.observeRuleApplication),
    ("game_version", config.expectedGameVersion),
    ("serializer_text_offset", hexLower config.serializerTextOffset.toNat),
    ("caller_text_offset", hexLower config.callerTextOffset.toNat),
    ("compact_buffer_length", "0x69".toList), ("reviewed_abi", config.reviewedAbi),
    ("entry_signature", signatureText config.expectedPrologue),
    ("caller_signature", signatureText config.expectedCallsite)]

/-- The fields of the header. -/
def headerFields (config : Config) : List Field :=
  (headerKeys config).map fun key => (key.1.toList, key.2)

/-- The line of a header field. -/
def fieldLine (field : Field) : Str := "# ".toList ++ field.1 ++ '=' :: field.2

/-- The last line of the header. -/
def formatLine : Str := "# format: dump <sequence>: 105 hex bytes or -- for unread bytes".toList

/-- The lines of the header. -/
def headerLines (config : Config) : List Str :=
  (headerFields config).map fieldLine ++ [formatLine]

/-- Lines as a file has them. -/
def fileText (ls : List Str) : Str := ls.flatMap (· ++ ['\n'])

theorem fileText_append (xs ys : List Str) : fileText (xs ++ ys) = fileText xs ++ fileText ys :=
  List.flatMap_append

theorem fileText_fields (keys : List (String × Str)) :
    fileText ((keys.map fun key => (key.1.toList, key.2)).map fieldLine)
      = keys.flatMap fun key => headerLine key.1 key.2 := by
  rw [fileText, List.flatMap_map, List.flatMap_map]
  rfl

theorem writeHeader_lines (config : Config) :
    writeHeader config = fileText (headerLines config) := by
  have hformat : "# format: dump <sequence>: 105 hex bytes or -- for unread bytes\n".toList
      = fileText [formatLine] := by decide
  rw [headerLines, headerFields, fileText_append, fileText_fields, writeHeader, hformat]
  generalize fileText [formatLine] = format
  rw [headerKeys, List.flatMap_append, List.flatMap_append]
  cases config.pollGlobalTeamAttack with
  | true =>
      simp only [if_true, List.flatMap_cons, List.flatMap_nil, List.append_assoc, List.append_nil]
  | false =>
      simp only [Bool.false_eq_true, if_false, List.flatMap_cons, List.flatMap_nil,
        List.append_assoc, List.append_nil]

/-- **The file a session leaves**: its header lines and a line a write. -/
theorem written_lines (config : Config) (mask : Mask) (ops : List LogOp) :
    (ops.foldl LogOp.perform ⟨writeHeader config, mask⟩).written
      = fileText (headerLines config ++ ops.map (LogOp.line mask)) := by
  have hops : ∀ (ops : List LogOp) (log : CaptureLog),
      (ops.foldl LogOp.perform log).written
        = log.written ++ fileText (ops.map (LogOp.line log.mask)) := by
    intro ops
    induction ops with
    | nil =>
        intro log
        exact (List.append_nil _).symm
    | cons op ops ih =>
        intro log
        rw [List.foldl_cons, LogOp.perform_eq, ih, List.map_cons]
        exact List.append_assoc ..
  rw [hops, fileText_append, writeHeader_lines]

end TeamAttack
