import TeamAttack.Capture
import TeamAttack.Config

/-! # The capture log (`capture_log.rs`)

    The text the log writes, and how a session's file is opened.  Each
    function that writes is its text; whether the write succeeds is the
    caller's business.  `FileOutcomes` answers for the file system. -/

namespace TeamAttack

open RustStr

def logDir : Str := "sd:/ultimate/quickplay_team_attack/captures".toList

/-- `CARGO_PKG_VERSION`. -/
def packageVersion : Str := "0.3.1".toList

/-- The kinds of `io::Error` the log tells apart; the system's errors keep their
    raw code. -/
inductive ErrorKind where
  | alreadyExists
  | notFound
  | invalidInput
  | raw (code : UInt32)
  deriving DecidableEq

structure IoError where
  kind : ErrorKind
  message : Str
  deriving DecidableEq

/-- `check_create_result`.  The text of a raw code is the system's. -/
def checkCreateResult (osText : UInt32 → Str) (result : UInt32) : Except IoError Unit :=
  if result = 0 then .ok ()
  else if result = 0x402 then .error ⟨.alreadyExists, "capture already exists".toList⟩
  else if result = 0x202 then .error ⟨.notFound, "capture directory not found".toList⟩
  else .error ⟨.raw result, osText result⟩

/-- `[bool; COMPACT_BUFFER_LEN]`. -/
abbrev Mask := Vector Bool compactBufferLen

/-- What has been written, and the bytes a dump may show. -/
structure CaptureLog where
  written : Str
  mask : Mask

/-- `{}` of a `bool`. -/
def showBool (b : Bool) : Str := if b then "true".toList else "false".toList

/-- A line of the header, and its line break. -/
def headerLine (key : String) (value : Str) : Str :=
  "# ".toList ++ key.toList ++ '=' :: value ++ ['\n']

/-- The bytes of a signature, two upper-case digits each. -/
def signatureText (signature : List UInt8) : Str :=
  signature.flatMap (fun byte => hexUpper 2 byte.toNat)

/-- `write_header`. -/
def writeHeader (config : Config) : Str :=
  headerLine "observer_version" packageVersion
    ++ headerLine "run_label" config.runLabel
    ++ headerLine "observe_rule_codec" (showBool config.observeRuleCodec)
    ++ headerLine "poll_global_team_attack" (showBool config.pollGlobalTeamAttack)
    ++ (if config.pollGlobalTeamAttack then
          headerLine "global_text_offset" "0x530a981".toList
            ++ headerLine "global_init_guard_text_offset" "0x53144d8".toList
            ++ headerLine "global_poll_interval_ms" "250".toList
            ++ headerLine "watch_heartbeat_ms" "5000".toList
            ++ headerLine "watch_limit_ms" "1200000".toList
            ++ headerLine "mutation_lifetime" "process".toList
        else [])
    ++ headerLine "observe_rule_application" (showBool config.observeRuleApplication)
    ++ headerLine "game_version" config.expectedGameVersion
    ++ headerLine "serializer_text_offset" (hexLower config.serializerTextOffset.toNat)
    ++ headerLine "caller_text_offset" (hexLower config.callerTextOffset.toNat)
    ++ headerLine "compact_buffer_length" "0x69".toList
    ++ headerLine "reviewed_abi" config.reviewedAbi
    ++ headerLine "entry_signature" (signatureText config.expectedPrologue)
    ++ headerLine "caller_signature" (signatureText config.expectedCallsite)
    ++ "# format: dump <sequence>: 105 hex bytes or -- for unread bytes\n".toList

/-- One byte of a dump. -/
def captureCell (byte : UInt8) (selected : Bool) : Str :=
  if selected then ' ' :: hexUpper 2 byte.toNat else " --".toList

/-- `write_capture`. -/
def writeCapture (mask : Mask) (capture : Capture) : Str :=
  "dump ".toList ++ decimalPadded 4 capture.sequence ++ ':'
    :: (capture.bytes.toList.zip mask.toList).flatMap (fun x => captureCell x.1 x.2) ++ ['\n']

/-- `CaptureLog::append`. -/
def CaptureLog.append (log : CaptureLog) (capture : Capture) : CaptureLog :=
  { log with written := log.written ++ writeCapture log.mask capture }

/-- `CaptureLog::event`. -/
def CaptureLog.event (log : CaptureLog) (message : Str) : CaptureLog :=
  { log with written := log.written ++ "# ".toList ++ message ++ ['\n'] }

/-- `CaptureLog::status`, up to its flush. -/
def CaptureLog.status (log : CaptureLog) (message : Str) : CaptureLog :=
  { log with written := log.written ++ "# observer_status: ".toList ++ message ++ ['\n'] }

/-- `CaptureLog::dump_written`. -/
def CaptureLog.dumpWritten (log : CaptureLog) (sequence elapsedMs : Nat) : CaptureLog :=
  { log with written := log.written ++ "# dump_written: sequence:".toList ++ decimal sequence
      ++ " elapsed_ms:".toList ++ decimal elapsedMs ++ ['\n'] }

/-- The loop over `capture_offsets` that builds the mask. -/
def maskOf (offsets : List UInt8) : Except IoError Mask :=
  offsets.foldlM
    (fun mask offset =>
      if h : offset.toNat < compactBufferLen then .ok (mask.set offset.toNat true)
      else .error ⟨.invalidInput, "invalid capture offset".toList⟩)
    (Vector.replicate compactBufferLen false)

/-- The outcomes of the I/O of `create`, by session for the exclusive
    creation. -/
structure FileOutcomes where
  createDirAll : Except IoError Unit
  createNew : Nat → Except IoError Unit
  writeHeader : Except IoError Unit
  flush : Except IoError Unit
  syncAll : Except IoError Unit

/-- The loop of `create` over the sessions. -/
def CaptureLog.createFrom (files : FileOutcomes) (config : Config) :
    List Nat → Except IoError (CaptureLog × Nat)
  | [] =>
      .error ⟨.alreadyExists,
        "capture directory has 10,000 sessions; archive them first".toList⟩
  | session :: rest =>
      match files.createNew session with
      | .ok () => do
          files.writeHeader
          files.flush
          files.syncAll
          let mask ← maskOf config.captureOffsets
          return (⟨writeHeader config, mask⟩, session)
      | .error e =>
          if e.kind = .alreadyExists then CaptureLog.createFrom files config rest else .error e

/-- `CaptureLog::create`, with the number of the session it opened. -/
def CaptureLog.create (files : FileOutcomes) (config : Config) :
    Except IoError (CaptureLog × Nat) := do
  files.createDirAll
  CaptureLog.createFrom files config (List.range 10000)

/-! ## The mask -/

/-- Setting one entry after another sets exactly the entries named. -/
theorem maskLoop_ok (offsets : List UInt8) (hlt : ∀ o ∈ offsets, o.toNat < compactBufferLen) :
    ∀ start : Mask, ∃ mask : Mask,
      offsets.foldlM
        (fun mask offset =>
          if h : offset.toNat < compactBufferLen then .ok (mask.set offset.toNat true)
          else (.error ⟨.invalidInput, "invalid capture offset".toList⟩ : Except IoError Mask))
        start = .ok mask
      ∧ ∀ i : Fin compactBufferLen,
          mask.get i = (start.get i || decide (UInt8.ofNat i.val ∈ offsets)) := by
  induction offsets with
  | nil =>
      intro start
      refine ⟨start, rfl, ?_⟩
      intro i
      simp
  | cons o rest ih =>
      intro start
      have ho : o.toNat < compactBufferLen := hlt o List.mem_cons_self
      obtain ⟨mask, hmask, hget⟩ :=
        ih (fun x hx => hlt x (List.mem_cons_of_mem o hx)) (start.set o.toNat true)
      refine ⟨mask, ?_, ?_⟩
      · rw [List.foldlM_cons, dif_pos ho]
        exact hmask
      · intro i
        have hi : i.val < 256 := by
          have := i.isLt
          unfold compactBufferLen at this
          omega
        -- an index of the buffer fits a byte
        have heq : UInt8.ofNat i.val = o ↔ o.toNat = i.val := by
          constructor
          · rintro rfl
            rw [UInt8.toNat_ofNat', Nat.mod_eq_of_lt hi]
          · intro h
            rw [← h]
            exact UInt8.ofNat_toNat
        rw [hget i]
        by_cases h : o.toNat = i.val
        · have hset : (start.set o.toNat true).get i = true := by
            simp [Vector.get_eq_getElem, h]
          rw [hset, Bool.true_or, heq.mpr h, decide_eq_true List.mem_cons_self, Bool.or_true]
        · have hset : (start.set o.toNat true).get i = start.get i :=
            Vector.getElem_set_ne ho i.isLt h
          rw [hset]
          have hne : UInt8.ofNat i.val ≠ o := fun hx => h (heq.mp hx)
          congr 1
          simp [hne]

/-- Offsets inside the buffer always make a mask, of exactly these offsets. -/
theorem maskOf_ok {offsets : List UInt8} (hlt : ∀ o ∈ offsets, o.toNat < compactBufferLen) :
    ∃ mask, maskOf offsets = .ok mask
      ∧ ∀ i : Fin compactBufferLen, mask.get i = decide (UInt8.ofNat i.val ∈ offsets) := by
  obtain ⟨mask, hmask, hget⟩ := maskLoop_ok offsets hlt (Vector.replicate compactBufferLen false)
  refine ⟨mask, hmask, ?_⟩
  intro i
  rw [hget i]
  simp

/-! ## One line of a dump -/

/-- An upper-case hexadecimal digit. -/
def upperDigit (n : Fin 16) : Char := "0123456789ABCDEF".toList.get n

/-- The two digits of a byte. -/
theorem hexUpper_byte : ∀ n : Fin 256,
    hexUpper 2 n.val = [upperDigit ⟨n.val / 16, by omega⟩, upperDigit ⟨n.val % 16, by omega⟩] := by
  decide +kernel

end TeamAttack
