import TeamAttack.Capture
import TeamAttack.EventText
import TeamAttack.Library.PyDict
import TeamAttack.Library.PyStr

/-! # The readers of a log

    `read_log` of `tools/compare_dumps.py` and `read_session` of
    `tools/summarize_offline_batch.py`, over the bytes of a file.  Both take
    the lines one by one into a state; a line either is refused with its
    number or extends the state. -/

namespace TeamAttack.LogReaders

open RustStr HexText PyStr PyDict

/-- The path of a log, as messages show it, and its last component. -/
structure Path where
  text : Str
  name : Str

/-- What a reader raises: its own `ValueError`, that of `int` for a number of
    so many digits, or a `UnicodeDecodeError`. -/
inductive ReadError where
  | value (message : Str)
  | digits (count : Nat)
  | unicode
  deriving DecidableEq

abbrev Read := Except ReadError

/-- `MAX_LOG_BYTES`. -/
def maxLogBytes : Nat := 2 * 1024 * 1024

/-- `raise ValueError(f"{path}: {message}")`. -/
def failed {α : Type} (path : Path) (message : Str) : Read α :=
  .error (.value (path.text ++ ": ".toList ++ message))

/-- `raise ValueError(f"{path}:{number}: {message}")`. -/
def failedAt {α : Type} (path : Path) (number : Nat) (message : Str) : Read α :=
  .error (.value (path.text ++ ':' :: decimal number ++ ": ".toList ++ message))

/-- `int` of what `\d+` matched. -/
def readInt (digits : Str) : Read Nat :=
  match int? digits with
  | some n => .ok n
  | none => .error (.digits digits.length)

/-- `TOKEN.fullmatch`. -/
def isToken : Str → Bool
  | [a, b] => (isHexDigit a && isHexDigit b) || (a = '-' && b = '-')
  | _ => false

/-- The byte of a token, `None` where it was not read. -/
def tokenValue (token : Str) : Option Nat :=
  if token = "--".toList then none else some (hexNumber token)

/-- `DUMP.fullmatch`: the digits of the sequence, and the payload. -/
def dump? (line : Str) : Option (Str × Str) := do
  let afterWord ← literal? "dump".toList line
  if afterWord.takeWhile isSpace = [] then none
  let (digits, afterDigits) ← digits? (afterWord.dropWhile isSpace)
  let payload ← literal? ":".toList afterDigits
  return (digits, payload.dropWhile isSpace)

/-- `key, value = line[1:].strip().split("=", 1)`, if there is a `=`. -/
def header? (line : Str) : Option Field := splitOnce? '=' (strip (line.drop 1))

/-- The characters of a file, if it is not too long. -/
def readText (path : Path) (data : List UInt8) (tooLong : Str) : Read Str :=
  if data.length > maxLogBytes then failed path tooLong
  else match decodeUtf8? data with
    | some text => .ok text
    | none => .error .unicode

/-- The loop over `enumerate(text.splitlines(), 1)`. -/
def readLines {σ : Type} (step : σ → Str → Nat → Read σ) (start : σ) (text : Str) : Read σ :=
  ((splitlines text).zipIdx 1).foldlM (fun state line => step state line.1 line.2) start

/-! ## `compare_dumps.py` -/

/-- `CaptureLog` of the reader: its metadata and its captures, by sequence. -/
structure LogContents where
  metadata : List Field
  captures : List (Nat × List (Option Nat))

/-- The loop body of `read_log`. -/
def readLogLine (path : Path) (state : LogContents) (raw : Str) (number : Nat) :
    Read LogContents := do
  let line := strip raw
  if line = [] then return state
  if startsWith line "#".toList then
    match header? line with
    | none => return state
    | some field =>
        if contains state.metadata field.1 then
          failedAt path number ("duplicate header ".toList ++ field.1)
        return { state with metadata := insert state.metadata field.1 field.2 }
  else
    match dump? line with
    | none => failedAt path number "malformed capture line".toList
    | some (digits, payload) =>
        let sequence ← readInt digits
        if contains state.captures sequence then
          failedAt path number ("duplicate sequence ".toList ++ decimal sequence
            ++ "; do not concatenate logs".toList)
        let tokens := split payload
        if tokens.length ≠ compactBufferLen || tokens.any (fun token => !isToken token) then
          failedAt path number "require 105 byte tokens or -- markers".toList
        return { state with captures := insert state.captures sequence (tokens.map tokenValue) }

/-- `read_log`. -/
def readLog (path : Path) (data : List UInt8) : Read LogContents := do
  let text ← readText path data "log exceeds 2 MiB".toList
  let log ← readLines (readLogLine path) ⟨[], []⟩ text
  if log.captures = [] then failed path "no captures".toList
  return log

/-! ## `summarize_offline_batch.py` -/

/-- `row`. -/
structure Row where
  elapsedMs : Nat
  initialized : Bool
  value : Option Nat
  calls : Nat
  stored : Nat
  deriving DecidableEq

/-- A change of the global: its time and its new value. -/
structure Transition where
  elapsedMs : Nat
  value : Nat
  deriving DecidableEq

/-- The locals of `read_session`. -/
structure SessionState where
  metadata : List Field
  rows : List Row
  dumps : List (Nat × List Str)
  transitions : List Transition
  status : List Str

/-- `([01])`. -/
def flag? : Str → Option (Bool × Str)
  | '0' :: rest => some (false, rest)
  | '1' :: rest => some (true, rest)
  | _ => none

/-- `[0-9A-F]`. -/
def isUpperHexDigit (c : Char) : Bool := ('0' ≤ c && c ≤ '9') || ('A' ≤ c && c ≤ 'F')

/-- `([0-9A-F]{2}|--)`. -/
def byte? : Str → Option (Str × Str)
  | a :: b :: rest =>
      if (isUpperHexDigit a && isUpperHexDigit b) || (a = '-' && b = '-') then
        some ([a, b], rest)
      else none
  | _ => none

/-- The groups of `WATCH`. -/
structure WatchGroups where
  elapsed : Str
  initialized : Bool
  value : Str
  calls : Str
  stored : Str

/-- `WATCH.fullmatch`. -/
def watch? (line : Str) : Option WatchGroups := do
  let s ← literal? "# watch: elapsed_ms:".toList line
  let (elapsed, s) ← digits? s
  let s ← literal? " initialized:".toList s
  let (initialized, s) ← flag? s
  let s ← literal? " team_attack_global:".toList s
  let (value, s) ← byte? s
  let s ← literal? " serializer_calls:".toList s
  let (calls, s) ← digits? s
  let s ← literal? " stored_dumps:".toList s
  let (stored, s) ← digits? s
  if s ≠ [] then none
  return { elapsed, initialized, value, calls, stored }

/-- `row = dict(...)`. -/
def WatchGroups.row (groups : WatchGroups) : Read Row := do
  return {
    elapsedMs := ← readInt groups.elapsed
    initialized := groups.initialized
    value := tokenValue groups.value
    calls := ← readInt groups.calls
    stored := ← readInt groups.stored }

/-- Does a clock or a counter go back from one row to the next? -/
def reversed (row previous : Row) : Bool :=
  row.elapsedMs < previous.elapsedMs || row.calls < previous.calls || row.stored < previous.stored

/-- The transitions with those of one more row. -/
def addTransition (transitions : List Transition) (row : Row) : List Transition :=
  match row.value with
  | none => transitions
  | some value =>
      if transitions.getLast?.map Transition.value = some value then transitions
      else transitions ++ [⟨row.elapsedMs, value⟩]

/-- The branch of a watch row. -/
def readWatch (path : Path) (state : SessionState) (line : Str) (number : Nat) :
    Read SessionState :=
  match watch? line with
  | none => failedAt path number "malformed watch row".toList
  | some groups => do
      let row ← groups.row
      if row.initialized ≠ row.value.isSome then
        failedAt path number "uninitialized byte reported as data".toList
      if state.rows.getLast?.any (reversed row) then
        failedAt path number "clock/counter reversal; do not concatenate logs".toList
      return { state with
        transitions := addTransition state.transitions row, rows := state.rows ++ [row] }

/-- The loop body of `read_session`. -/
def readSessionLine (path : Path) (state : SessionState) (raw : Str) (number : Nat) :
    Read SessionState := do
  let line := strip raw
  if line = [] then return state
  if startsWith line "# watch:".toList then readWatch path state line number
  else if startsWith line "#".toList then
    match literal? "# observer_status: ".toList line with
    | some message => return { state with status := state.status ++ [message] }
    | none =>
        match header? line with
        | none => return state
        | some field =>
            if contains state.metadata field.1 then
              failedAt path number "duplicate header".toList
            return { state with metadata := insert state.metadata field.1 field.2 }
  else
    match dump? line with
    | none => failedAt path number "unknown data row".toList
    | some (digits, payload) =>
        let tokens := split payload
        let sequence ← readInt digits
        if contains state.dumps sequence || tokens.length ≠ compactBufferLen
            || tokens.any (fun token => !isToken token) then
          failedAt path number "malformed/duplicate dump".toList
        return { state with dumps := insert state.dumps sequence tokens }

/-- What `read_session` returns. -/
structure Session where
  file : Str
  metadata : List Field
  statuses : List Str
  watchRows : Nat
  lastElapsedMs : Option Nat
  largestWatchGapMs : Option Nat
  initializedGlobalValues : List Nat
  containsNonBooleanValue : Bool
  globalTransitions : List Transition
  serializerCalls : Option Nat
  serializerDumps : Nat
  watchEnabled : Bool

/-- The summary of a finished loop. -/
def SessionState.session (state : SessionState) (path : Path) : Session :=
  let values := (state.rows.filterMap Row.value).dedup.mergeSort
  { file := path.name
    metadata := state.metadata
    statuses := state.status
    watchRows := state.rows.length
    lastElapsedMs := state.rows.getLast?.map Row.elapsedMs
    largestWatchGapMs := (List.zipWith (fun a b => b.elapsedMs - a.elapsedMs) state.rows
      state.rows.tail).max?
    initializedGlobalValues := values
    containsNonBooleanValue := values.any (fun value => !(value = 0 || value = 1))
    globalTransitions := state.transitions
    serializerCalls := state.rows.getLast?.map Row.calls
    serializerDumps := state.dumps.length
    watchEnabled := state.metadata.lookup "poll_global_team_attack".toList = some "true".toList }

/-- `read_session`. -/
def readSession (path : Path) (data : List UInt8) : Read Session := do
  let text ← readText path data "oversized log".toList
  let state ← readLines (readSessionLine path) ⟨[], [], [], [], []⟩ text
  if (state.metadata.lookup "observer_version".toList).getD [] = [] then
    failed path "missing observer header".toList
  return state.session path

end TeamAttack.LogReaders
