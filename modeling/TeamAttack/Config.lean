import TeamAttack.Library.RustStr

/-! # The configuration file (`config.rs`)

    A restricted TOML: one `key = value` a line, `#` comments outside double
    quotes, every key at most once, unknown keys refused.  String slices are
    partial (`RustStr`), so a slice that Rust would panic on is the fault
    `panic` here. -/

namespace TeamAttack

open RustStr

def supportedGameVersion : Str := "13.0.5".toList
def maxConfigBytes : Nat := 16 * 1024

inductive Mode where
  | disabled
  | observe
  | proposalExperiment
  deriving DecidableEq

structure Config where
  enabled : Bool
  mode : Mode
  expectedGameVersion : Str
  serializerTextOffset : UInt64
  expectedPrologue : List UInt8
  callerTextOffset : UInt64
  expectedCallsite : List UInt8
  reviewedAbi : Str
  reviewedBufferLen : UInt64
  evidenceReviewed : Bool
  offlineTestAcknowledged : Bool
  captureOffsets : List UInt8
  runLabel : Str
  maxDumps : UInt64
  pollGlobalTeamAttack : Bool
  observeRuleCodec : Bool
  observeRuleApplication : Bool
  deriving DecidableEq

/-- `Config::default`. -/
def Config.default : Config where
  enabled := false
  mode := .disabled
  expectedGameVersion := supportedGameVersion
  serializerTextOffset := 0
  expectedPrologue := []
  callerTextOffset := 0
  expectedCallsite := []
  reviewedAbi := []
  reviewedBufferLen := 0
  evidenceReviewed := false
  offlineTestAcknowledged := false
  captureOffsets := []
  runLabel := "unlabelled".toList
  maxDumps := 32
  pollGlobalTeamAttack := false
  observeRuleCodec := false
  observeRuleApplication := false

inductive ConfigError where
  | io (message : Str)
  | syntaxError (line : Nat) (message : Str)
  deriving DecidableEq

/-- How parsing ends early: with an error, or with the panic of a string
    slice out of bounds or inside a character. -/
inductive ParseFault where
  | panic
  | error (e : ConfigError)
  deriving DecidableEq

abbrev Parse := Except ParseFault

/-- `Err(syntax(line, message))`. -/
def syntaxError {α : Type} (line : Nat) (message : Str) : Parse α :=
  .error (.error (.syntaxError line message))

/-- A string slice. -/
def sliced (s : Option Str) : Parse Str :=
  match s with
  | some s => .ok s
  | none => .error .panic

/-- The byte index of the first `#` outside quotes.  Inside quotes a
    backslash hides the next byte. -/
def commentIndex? : List UInt8 → (index : Nat) → (inQuotes escaped : Bool) → Option Nat
  | [], _, _, _ => none
  | b :: bs, index, inQuotes, escaped =>
      if escaped then commentIndex? bs (index + 1) inQuotes false
      else if b = 0x5c && inQuotes then commentIndex? bs (index + 1) inQuotes true
      else if b = 0x22 then commentIndex? bs (index + 1) (!inQuotes) false
      else if b = 0x23 && !inQuotes then some index
      else commentIndex? bs (index + 1) inQuotes false

def stripComment (line : Str) : Parse Str :=
  match commentIndex? (bytes line) 0 false false with
  | some index => sliced (sliceTo? line index)
  | none => .ok line

def parseBool (value : Str) (line : Nat) : Parse Bool :=
  if value = "true".toList then .ok true
  else if value = "false".toList then .ok false
  else syntaxError line "expected true or false".toList

def parseString (value : Str) (line : Nat) : Parse Str := do
  if byteLen value < 2 || value.head? ≠ some '"' || value.getLast? ≠ some '"' then
    syntaxError line "expected a double-quoted string".toList
  let inner ← sliced (slice? value 1 (byteLen value - 1))
  if inner.contains '"' || inner.contains '\\' then
    syntaxError line "escapes and embedded quotes are not supported".toList
  return inner

def parseUsize (value : Str) (line : Nat) : Parse UInt64 := do
  if value.head? = some '_' || value.getLast? = some '_' || decide ("__".toList <:+: value)
      || value.head? = some '+' || "0x_".toList.isPrefixOf value
      || "0X_".toList.isPrefixOf value then
    syntaxError line "invalid integer separator or sign".toList
  -- the tests above saw the underscores; the prefix is looked for without them
  let compact := value.filter (· ≠ '_')
  let parsed := match compact with
    | '0' :: 'x' :: hex => fromStrRadix? 64 16 hex
    | '0' :: 'X' :: hex => fromStrRadix? 64 16 hex
    | _ => fromStrRadix? 64 10 compact
  match parsed with
  | some n => return UInt64.ofNat n
  | none => syntaxError line ("invalid non-negative integer '".toList ++ value ++ ['\''])

/-- The byte written by the two characters at `index` of `compact`. -/
def decodePair (compact : Str) (line index : Nat) : Parse UInt8 := do
  let pair ← sliced (slice? compact index (index + 2))
  match fromStrRadix? 8 16 pair with
  | some n => return UInt8.ofNat n
  | none => syntaxError line "hex signature contains a non-hex character".toList

def decodeHex (value : Str) (line : Nat) : Parse (List UInt8) := do
  let compact := value.filter (fun c => !isAsciiWhitespace c && c ≠ ':' && c ≠ '-')
  if !compact.all isAscii then
    syntaxError line "hex signature must contain ASCII hexadecimal characters only".toList
  if byteLen compact % 2 ≠ 0 then
    syntaxError line "hex signature must contain complete byte pairs".toList
  (List.range (byteLen compact / 2)).mapM (fun i => decodePair compact line (2 * i))

/-- `matches!(offset, 0x04..=0x2c | 0x58..=0x5c)`. -/
def reviewedOffset (offset : UInt8) : Bool :=
  (0x04 ≤ offset && offset ≤ 0x2c) || (0x58 ≤ offset && offset ≤ 0x5c)

def parseMode (value : Str) (line : Nat) : Parse Mode := do
  let mode ← parseString value line
  if mode = "disabled".toList then return .disabled
  else if mode = "observe".toList then return .observe
  else if mode = "proposal_experiment".toList then return .proposalExperiment
  else syntaxError line ("unsupported mode '".toList ++ mode
    ++ "'; use 'disabled', 'observe', or 'proposal_experiment'".toList)

def parseCaptureOffsets (value : Str) (line : Nat) : Parse (List UInt8) := do
  let text ← parseString value line
  let offsets ← decodeHex text line
  if ¬ offsets.Nodup then
    syntaxError line "capture_offsets contains duplicates".toList
  if offsets.any (fun offset => !reviewedOffset offset) then
    syntaxError line "only reviewed rule bytes 04..2C or 58..5C may be captured".toList
  return offsets

def parseRunLabel (value : Str) (line : Nat) : Parse Str := do
  let label ← parseString value line
  if label = [] || byteLen label > 48
      || !(bytes label).all (fun b => isAsciiAlphanumeric b || b = 0x5f || b = 0x2d) then
    syntaxError line
      "run_label requires 1..48 ASCII letters, digits, underscores, or hyphens".toList
  return label

/-- The `match key` of `parse`. -/
def setKey (config : Config) (key value : Str) (line : Nat) : Parse Config :=
  match String.ofList key with
  | "enabled" => do return { config with enabled := ← parseBool value line }
  | "mode" => do return { config with mode := ← parseMode value line }
  | "expected_game_version" => do
      return { config with expectedGameVersion := ← parseString value line }
  | "serializer_text_offset" => do
      return { config with serializerTextOffset := ← parseUsize value line }
  | "expected_prologue" => do
      let text ← parseString value line
      return { config with expectedPrologue := ← decodeHex text line }
  | "max_dumps" => do return { config with maxDumps := ← parseUsize value line }
  | "poll_global_team_attack" => do
      return { config with pollGlobalTeamAttack := ← parseBool value line }
  | "observe_rule_codec" => do
      return { config with observeRuleCodec := ← parseBool value line }
  | "observe_rule_application" => do
      return { config with observeRuleApplication := ← parseBool value line }
  | "caller_text_offset" => do
      return { config with callerTextOffset := ← parseUsize value line }
  | "expected_callsite" => do
      let text ← parseString value line
      return { config with expectedCallsite := ← decodeHex text line }
  | "reviewed_abi" => do return { config with reviewedAbi := ← parseString value line }
  | "reviewed_buffer_len" => do
      return { config with reviewedBufferLen := ← parseUsize value line }
  | "evidence_reviewed" => do
      return { config with evidenceReviewed := ← parseBool value line }
  | "offline_test_acknowledged" => do
      return { config with offlineTestAcknowledged := ← parseBool value line }
  | "capture_offsets" => do
      return { config with captureOffsets := ← parseCaptureOffsets value line }
  | "run_label" => do return { config with runLabel := ← parseRunLabel value line }
  | _ => syntaxError line ("unknown key '".toList ++ key ++ ['\''])

/-- One iteration of the loop of `parse`, over the configuration so far and
    the keys seen. -/
def parseLine (state : Config × List Str) (rawLine : Str) (lineNumber : Nat) :
    Parse (Config × List Str) := do
  let (config, seen) := state
  let stripped ← stripComment rawLine
  let line := trim stripped
  if line = [] then return (config, seen)
  match splitOnce? '=' line with
  | none => syntaxError lineNumber "expected key = value".toList
  | some (rawKey, rawValue) =>
      let key := trim rawKey
      let value := trim rawValue
      if key = [] || value = [] then
        syntaxError lineNumber "key and value must both be present".toList
      if key ∈ seen then
        syntaxError lineNumber ("duplicate key '".toList ++ key ++ ['\''])
      return (← setKey config key value lineNumber, key :: seen)

def parse (contents : Str) : Parse Config := do
  if byteLen contents > maxConfigBytes then
    syntaxError 0 "configuration exceeds 16 KiB".toList
  let (config, _) ← (lines contents).zipIdx.foldlM
    (fun state l => parseLine state l.1 (l.2 + 1)) (Config.default, [])
  -- checked once, on the value that was left, and so under line 0
  if !(1 ≤ config.maxDumps && config.maxDumps ≤ 256) then
    syntaxError 0 "max_dumps must be between 1 and 256".toList
  return config

/-- `ConfigError::fmt`. -/
def ConfigError.text : ConfigError → Str
  | .io message => "I/O error: ".toList ++ message
  | .syntaxError line message =>
      "line ".toList ++ decimal line ++ ": ".toList ++ message

/-- What opening and reading the file at `CONFIG_PATH` gives. -/
inductive ConfigFile where
  | notFound
  | openError (message : Str)
  | readError (message : Str)
  | contents (text : Str)

/-- `Config::load`. -/
def Config.load : ConfigFile → Parse (Option Config)
  | .notFound => return none
  | .openError message => .error (.error (.io message))
  | .readError message => .error (.error (.io message))
  | .contents text => return some (← parse text)

end TeamAttack
