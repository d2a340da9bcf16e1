import TeamAttack.Install

/-! # The lines of the log

    The text of an event, of a counts row, of a watch row and of a status
    line, as the probes and the log format them.  Every event line is a label
    and `key:value` fields, one blank before each. -/

namespace TeamAttack

open RustStr

/-- A key and its value. -/
abbrev Field := Str × Str

/-- The fields of an event line. -/
def fieldsText (fields : List Field) : Str :=
  fields.flatMap fun field => ' ' :: (field.1 ++ ':' :: field.2)

/-- `u8::from` of a `bool`, printed. -/
def showFlag (b : Bool) : Str := decimal b.toNat

/-! ## Application events (`application.rs`) -/

/-- `NAMES`. -/
def Application.names : List Str :=
  ["local_copy".toList, "participant_copy".toList, "selection_ready".toList,
    "apply_before".toList, "apply_after".toList, "rule_submit".toList,
    "rule_receive_before".toList, "rule_receive_team_stored".toList]

/-- `SUBMIT_ORIGINS`. -/
def Application.submitOrigins : List Str :=
  ["state_update".toList, "local_record".toList, "per_slot".toList, "initial_local".toList]

/-- `MUTATION_ACTIONS`. -/
def Application.mutationActions : List Str :=
  ["proposal_00_to_01".toList, "local_mirror_00_to_01".toList]

/-- The fields `Event::line` prints. -/
def Application.Event.fields (e : Application.Event) (sequence : Nat) : List Field :=
  [("sequence".toList, decimal sequence),
    ("elapsed_ms".toList, decimal (e.elapsedTicks / 19200).toNat),
    ("elapsed_ticks".toList, decimal e.elapsedTicks.toNat),
    ("kind".toList, (Application.names[e.kind.toNat]?).getD "invalid".toList),
    ("mode".toList, hexUpper 8 e.mode.toNat),
    ("request".toList, decimal e.request.toNat),
    ("prepared".toList, decimal e.prepared.toNat),
    ("rule_team".toList, hexUpper 2 e.team.toNat),
    ("global_team".toList, hexUpper 2 e.global.toNat),
    ("global_initialized".toList, showFlag e.initialized),
    ("participant_slot".toList, hexUpper 2 e.participant.toNat),
    ("local_slot".toList, hexUpper 2 e.localSlot.toNat),
    ("selected_owner_slot".toList, hexUpper 2 e.selectedOwner.toNat),
    ("submit_origin".toList,
      (Application.submitOrigins[e.submitOrigin.toNat]?).getD "unknown".toList),
    ("mutation_action".toList,
      (Application.mutationActions[e.mutationAction.toNat]?).getD "none".toList)]

/-- `Event::line`. -/
def Application.Event.line (e : Application.Event) (sequence : Nat) : Str :=
  "application_event:".toList ++ fieldsText (e.fields sequence)

/-- What `application_probe::drain` logs for a capture. -/
def ApplicationProbe.EventLine.text (line : ApplicationProbe.EventLine) : Str :=
  line.event.line line.sequence

/-! ## Codec events (`codec_probe.rs`) -/

/-- The fields `codec_probe::drain` prints for a capture. -/
def CodecProbe.EventLine.fields (line : CodecProbe.EventLine) : List Field :=
  [("sequence".toList, decimal line.sequence),
    ("elapsed_ms".toList, decimal line.elapsedMs.toNat),
    ("direction".toList, if line.encode then "encode".toList else "decode".toList),
    ("base_flag".toList, hexUpper 2 line.base.toNat),
    ("team_attack".toList, hexUpper 2 line.team.toNat),
    ("cursor_before".toList, decimal line.before.toNat),
    ("cursor_after".toList, decimal line.after.toNat),
    ("advanced_14".toList, showFlag line.advanced14)]

/-- What `codec_probe::drain` logs for a capture. -/
def CodecProbe.EventLine.text (line : CodecProbe.EventLine) : Str :=
  "codec_event:".toList ++ fieldsText line.fields

/-! ## Counts rows (`probe.rs`) -/

/-- The row of `codec_probe::counts`. -/
def codecCountsText (elapsedMs : UInt64) (counts : Nat × Nat × Nat) : Str :=
  "codec_counts:".toList ++ fieldsText
    [("elapsed_ms".toList, decimal elapsedMs.toNat), ("encode".toList, decimal counts.1),
      ("decode".toList, decimal counts.2.1), ("dropped".toList, decimal counts.2.2)]

/-- The row of `application_probe::counts`. -/
def applicationCountsText (elapsedMs : UInt64) (counts : (ApplicationProbe.Kind → Nat) × Nat) :
    Str :=
  "application_counts:".toList ++ fieldsText
    [("elapsed_ms".toList, decimal elapsedMs.toNat), ("local".toList, decimal (counts.1 0)),
      ("participant".toList, decimal (counts.1 1)), ("ready".toList, decimal (counts.1 2)),
      ("before".toList, decimal (counts.1 3)), ("after".toList, decimal (counts.1 4)),
      ("submit".toList, decimal (counts.1 5)), ("receive".toList, decimal (counts.1 6)),
      ("stored".toList, decimal (counts.1 7)), ("dropped".toList, decimal counts.2)]

/-! ## Watch rows and status lines (`capture_log.rs`, `probe.rs`) -/

/-- The byte of a watch row, `--` while there is none. -/
def watchValue (value : Option UInt8) : Str :=
  match value with
  | some v => hexUpper 2 v.toNat
  | none => "--".toList

/-- The row `CaptureLog::watch` writes. -/
def watchText (elapsedMs : UInt64) (state : Watch.Observation) : Str :=
  "# watch:".toList ++ fieldsText
    [("elapsed_ms".toList, decimal elapsedMs.toNat),
      ("initialized".toList, showFlag state.initialized),
      ("team_attack_global".toList, watchValue state.value),
      ("serializer_calls".toList, decimal state.serializerCalls),
      ("stored_dumps".toList, decimal state.storedDumps)]

/-- `CaptureLog::watch`. -/
def CaptureLog.watch (log : CaptureLog) (elapsedMs : UInt64) (state : Watch.Observation) :
    CaptureLog :=
  { log with written := log.written ++ watchText elapsedMs state ++ ['\n'] }

/-- The checks of `codec::self_test` that can fail. -/
inductive SelfTestCheck where
  | encoder
  | decoderRoundtrip
  | decoderBits
  deriving DecidableEq

/-- The error of a failed self-test. -/
def SelfTestCheck.error (check : SelfTestCheck) (flags : UInt8) : Str :=
  (match check with
    | .encoder => "encoder private-buffer check failed at flags ".toList
    | .decoderRoundtrip => "decoder private-buffer roundtrip failed at flags ".toList
    | .decoderBits => "decoder private-buffer bit check failed at flags ".toList)
    ++ hexUpper 2 flags.toNat

/-- The status lines of `install` and of the writer loop. -/
inductive Status where
  | logReady
  | codecVerified
  | selfTestStarted
  | selfTestFailed (check : SelfTestCheck) (flags : UInt8)
  | selfTestPassed (calls : Nat)
  | hookedTestPassed (calls : Nat)
  | hookedTestFailed (check : SelfTestCheck) (flags : UInt8)
  | applicationInstalling
  | applicationInstalled
  | hookInstalled
  | watchLimitReached
  deriving DecidableEq

/-- The message of a status line. -/
def Status.message : Status → Str
  | .logReady => "log_ready_before_hook".toList
  | .codecVerified => "codec_full_bodies_and_dispatch_table_verified".toList
  | .selfTestStarted => "codec_private_selftest_before_hooks_started".toList
  | .selfTestFailed check flags =>
      "codec_private_selftest_before_hooks_FAIL: ".toList ++ check.error flags
  | .selfTestPassed calls =>
      "codec_private_selftest_before_hooks_PASS: calls:".toList ++ Install.selfTestCounts calls
  | .hookedTestPassed calls =>
      "codec_private_selftest_after_hooks_PASS: calls:".toList ++ Install.selfTestCounts calls
  | .hookedTestFailed check flags =>
      "codec_private_selftest_after_hooks_FAIL: ".toList ++ check.error flags
  | .applicationInstalling =>
      "application_bodies_verified_installing_eight_passive_inline_sites".toList
  | .applicationInstalled =>
      "application_eight_sites_installed_single_instruction_patches_verified".toList
  | .hookInstalled => "hook_installed".toList
  | .watchLimitReached =>
      "watch_limit_reached_20_minutes_observation_stopped_mutation_active".toList

end TeamAttack
