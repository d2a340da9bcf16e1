import TeamAttack.CaptureLog
import TeamAttack.CodecProbe
import TeamAttack.ApplicationProbe
import TeamAttack.Library.Hoare
import TeamAttack.Serializer
import TeamAttack.Validation
import TeamAttack.Watch

/-! # Installation (`probe.rs`, `lib.rs`)

    `main` loads the configuration and `install` goes through some twenty
    fallible steps before anything records or mutates.  `Env` answers for
    every call that leaves the plugin: the console, the kernel, the file
    system, the hooking library and the thread library.

    The history of a run is the list of its milestones, each with the value
    `EXPERIMENT` has after it. -/

namespace TeamAttack.Install

open RustStr CheckedWord ByteMemory Application Watch Hoare

/-! ## The outside -/

/-- The memory queries of `install`, in order. -/
inductive Query where
  | receiveTable
  | mode
  | modeLast
  | codecTable
  | global
  | guard
  deriving DecidableEq

/-- The status lines `install` writes. -/
inductive StatusLine where
  | logReady
  | codecVerified
  | selfTestStarted
  | selfTestFailed
  | selfTestPassed
  | hookedTestPassed
  | hookedTestFailed
  | applicationInstalling
  | applicationInstalled
  deriving DecidableEq

/-- The pieces of game code `install` patches. -/
inductive Patch where
  | codec (direction : CodecProbe.Direction)
  | application (kind : ApplicationProbe.Kind)
  | serializer
  deriving DecidableEq

/-- The words around an inline hook, before and after hooking it. -/
structure SiteWords where
  leftBefore : UInt32
  rightBefore : UInt32
  instruction : UInt32
  leftAfter : UInt32
  rightAfter : UInt32

/-- Exactly one branch was patched in. -/
def SiteWords.verified (w : SiteWords) : Bool :=
  !(w.instruction &&& 0xfc000000 ≠ 0x14000000 || w.leftAfter ≠ w.leftBefore
    || w.rightAfter ≠ w.rightBefore)

/-- The bytes of the reviewed game code, produced when the plugin is built. -/
structure ReviewedCode where
  bodies : Fin 7 → List UInt8
  encoder : List UInt8
  decoder : List UInt8

/-- The outcomes of one start of the game. -/
structure Env where
  configFile : ConfigFile
  displayVersion : Vector UInt8 16
  textAddress : UInt64
  rodataAddress : UInt64
  dataAddress : UInt64
  mem : Memory
  reviewed : ReviewedCode
  query : Query → UInt32 × MemoryInfo
  files : FileOutcomes
  status : StatusLine → Except IoError Unit
  selfTest : Checked Nat
  hookedSelfTest : Checked Nat
  codecTrampoline : CodecProbe.Direction → UInt64
  siteWords : ApplicationProbe.Kind → SiteWords
  startTick : UInt64
  spawn : Except IoError Unit
  serializerTrampoline : UInt64
  readyForCodec : Bool
  readyForApplication : Bool

/-- `from_raw_parts(address, length)`. -/
def rawParts (m : Memory) (address : UInt64) (length : Nat) : List UInt8 :=
  (List.range length).map (fun k => m (address + UInt64.ofNat k))

/-! ## The plugin -/

/-- The review gates. -/
inductive Gate where
  | configuration
  | region
  | signatures
  | applicationBodies
  | receiveTable
  | modeMapping
  | codecBodies
  | watchSource
  | globalMapping
  | guardMapping
  | captureLog
  | selfTest
  | hookedSelfTest
  deriving DecidableEq

inductive Action where
  | passed (gate : Gate)
  | patched (patch : Patch)
  | storedExperiment
  deriving DecidableEq

/-- A milestone of a run, and the value of `EXPERIMENT` after it. -/
structure Moment where
  action : Action
  experiment : Bool

/-- What the writer thread is started with, besides the log. -/
structure Writer where
  startTick : UInt64
  globalAddresses : Option (UInt64 × UInt64)

/-- The statics of the plugin, its log, its writer and the error it showed. -/
structure Boot where
  installAttempted : Bool
  application : ApplicationProbe.Statics
  codec : CodecProbe.Statics
  serializer : Serializer.Statics
  log : Option CaptureLog
  writer : Option Writer
  shown : Option Str
  history : List Moment

/-- Process start. -/
def Boot.start : Boot where
  installAttempted := false
  application := ApplicationProbe.Statics.boot
  codec := CodecProbe.Statics.boot
  serializer :=
    { original := 0, writerReady := false, maxDumps := 0, serializerCalls := 0,
      mask := Vector.replicate compactBufferLen 0, captures := CaptureStore.new }
  log := none
  writer := none
  shown := none
  history := []

/-- How `install` ends early. -/
inductive Exit where
  | refused (message : Str)
  | abort
  | panic
  deriving DecidableEq

abbrev M := Program Exit Boot

/-- Reaches a milestone. -/
def reach (action : Action) : M Unit :=
  modify fun b => { b with history := b.history ++ [⟨action, b.application.experiment⟩] }

/-- `result?`. -/
def tryOk {α : Type} (x : Checked α) : M α :=
  match x with
  | .ok a => pure a
  | .error e => throw (.refused e)

/-- `result?` at a review gate. -/
def pass {α : Type} (gate : Gate) (x : Checked α) : M α := do
  let a ← tryOk x
  reach (.passed gate)
  return a

/-- `result.map_err(..)`. -/
def mapErr {α : Type} (x : Except IoError α) (f : Str → Str) : Checked α :=
  match x with
  | .ok a => .ok a
  | .error e => .error (f e.message)

/-- `log.status(message)`: written and flushed, or an error. -/
def status (env : Env) (line : StatusLine) (message : Str) : M (Except IoError Unit) := do
  match env.status line with
  | .ok () =>
      modify fun b => { b with log := b.log.map (fun log => log.status message) }
      return .ok ()
  | .error e => return .error e

/-- `log.status(message).map_err(..)?`. -/
def requireStatus (env : Env) (line : StatusLine) (message : Str) (f : Str → Str) : M Unit := do
  tryOk (mapErr (← status env line message) f)

/-- Aborts unless the status line is written. -/
def statusOrAbort (env : Env) (line : StatusLine) (message : Str) : M Unit := do
  match ← status env line message with
  | .ok () => return
  | .error _ => throw .abort

def liveVersion (name : Vector UInt8 16) : Checked Str :=
  let bytes := name.toList.takeWhile (· ≠ 0)
  if bytes.length = 16 then refuse "runtime display version is not terminated"
  else match String.fromUTF8? ⟨bytes.toArray⟩ with
    | some version => .ok version.toList
    | none => refuse "invalid runtime version encoding"

def validateGlobalMapping (answer : UInt32 × MemoryInfo) (address dataStart : UInt64) :
    Checked Unit :=
  if answer.1 ≠ 0 then
    .error ("QueryMemory for global watcher failed: ".toList ++ hexLower answer.1.toNat)
  else validateMapping address dataStart answer.2

/-- The receive table part of the application checks. -/
def checkReceiveTable (env : Env) : Checked Unit := do
  let table ← okOr (checkedAdd env.textAddress 0x44f3b48) "receive table overflow"
  CodecProbe.validateTableMapping (env.query .receiveTable) table env.rodataAddress
  validateReceiveTable (rawParts env.mem table 4) 0x44f3b48

/-- The mode word part of the application checks. -/
def checkModeMapping (env : Env) : Checked Unit := do
  let mode ← okOr (checkedAdd env.textAddress modeOffset) "mode overflow"
  validateGlobalMapping (env.query .mode) mode env.dataAddress
  validateGlobalMapping (env.query .modeLast) (mode + 3) env.dataAddress

/-- The source part of the watcher checks. -/
def checkWatchSource (env : Env) (config : Config) (text : List UInt8) : Checked Unit := do
  if env.textAddress % 4096 ≠ 0 then
    refuse "global watcher requires page-aligned module text"
  validateSource config text

/-- The addresses the watcher polls. -/
def watchAddresses (env : Env) : Checked (UInt64 × UInt64) := do
  let global ← okOr (checkedAdd env.textAddress globalOffset) "global overflow"
  let guard ← okOr (checkedAdd env.textAddress guardOffset) "guard overflow"
  return (global, guard)

/-- The application block of the validations. -/
def validateApplication (env : Env) (text : List UInt8) : M Unit := do
  pass .applicationBodies (Application.validate env.reviewed.bodies text)
  pass .receiveTable (checkReceiveTable env)
  pass .modeMapping (checkModeMapping env)

/-- The watcher block of the validations. -/
def validateWatch (env : Env) (config : Config) (text : List UInt8) : M (UInt64 × UInt64) := do
  pass .watchSource (checkWatchSource env config text)
  let addresses ← tryOk (watchAddresses env)
  pass .globalMapping
    (validateGlobalMapping (env.query .global) addresses.1 env.dataAddress)
  pass .guardMapping
    (validateGlobalMapping (env.query .guard) addresses.2 env.dataAddress)
  return addresses

/-- `install` up to the creation of the log: everything is checked and
    nothing is changed. -/
def validateAll (env : Env) (config : Config) : M (Option (UInt64 × UInt64)) := do
  let version ← tryOk (liveVersion env.displayVersion)
  pass .configuration (validateConfig config version)
  let textLen ← pass .region (validateRegion env.textAddress env.rodataAddress)
  let text := rawParts env.mem env.textAddress textLen.toNat
  pass .signatures (validateSignatures config text)
  if config.observeRuleApplication then
    validateApplication env text
  if config.observeRuleCodec then
    pass .codecBodies (CodecProbe.validate env.reviewed.encoder env.reviewed.decoder text
      env.textAddress env.rodataAddress (env.query .codecTable) env.mem)
  if config.pollGlobalTeamAttack then
    return some (← validateWatch env config text)
  else return none

/-- The log is created, with its header flushed, and takes its first line. -/
def createLog (env : Env) (config : Config) : M Unit := do
  let created ← pass .captureLog (mapErr (CaptureLog.create env.files config)
    (fun e => "Create/flush capture log at ".toList ++ logDir ++ ": ".toList ++ e))
  modify fun b => { b with log := some created.1 }
  requireStatus env .logReady "log_ready_before_hook".toList
    (fun e => "Write startup status: ".toList ++ e)

/-- The counts a passed self-test reports. -/
def selfTestCounts (calls : Nat) : Str :=
  decimal calls ++ " roundtrips:128 decode_flag_values:256".toList

/-- One iteration of the loop of `codec_probe::install`. -/
def hookCodec (env : Env) (direction : CodecProbe.Direction) : M Unit := do
  reach (.patched (.codec direction))
  if env.codecTrampoline direction = 0 then throw .abort
  modify fun b =>
    let trampoline := Function.update b.codec.trampoline direction (env.codecTrampoline direction)
    { b with codec := { b.codec with trampoline } }

/-- The self-test before any hook. -/
def runSelfTest (env : Env) : M Unit := do
  match env.selfTest with
  | .error error =>
      let _ ← status env .selfTestFailed
        ("codec_private_selftest_before_hooks_FAIL: ".toList ++ error)
      throw (.refused error)
  | .ok calls =>
      reach (.passed .selfTest)
      requireStatus env .selfTestPassed
        ("codec_private_selftest_before_hooks_PASS: calls:".toList ++ selfTestCounts calls) id

/-- The self-test through the hooks. -/
def runHookedSelfTest (env : Env) : M Unit := do
  match env.hookedSelfTest with
  | .error error =>
      let _ ← status env .hookedTestFailed
        ("codec_private_selftest_after_hooks_FAIL: ".toList ++ error)
      throw .abort
  | .ok calls =>
      reach (.passed .hookedSelfTest)
      statusOrAbort env .hookedTestPassed
        ("codec_private_selftest_after_hooks_PASS: calls:".toList ++ selfTestCounts calls)

/-- The codec block of `install`. -/
def installCodec (env : Env) : M Unit := do
  requireStatus env .codecVerified "codec_full_bodies_and_dispatch_table_verified".toList id
  requireStatus env .selfTestStarted "codec_private_selftest_before_hooks_started".toList id
  runSelfTest env
  hookCodec env 0
  hookCodec env 1
  runHookedSelfTest env

/-- One iteration of the loop of `application_probe::install`. -/
def hookSite (env : Env) (kind : ApplicationProbe.Kind) : M Unit := do
  reach (.patched (.application kind))
  if !(env.siteWords kind).verified then throw .abort

/-- `application_probe::install`. -/
def applicationInstall (env : Env) (mode : Mode) : M Unit := do
  modify fun b =>
    let application := { b.application with
      base := env.textAddress, experiment := mode = .proposalExperiment }
    { b with application }
  reach .storedExperiment
  (List.finRange siteCount).forM (hookSite env)

/-- The application block of `install`. -/
def installApplication (env : Env) (config : Config) : M Unit := do
  requireStatus env .applicationInstalling
    "application_bodies_verified_installing_eight_passive_inline_sites".toList id
  applicationInstall env config.mode
  statusOrAbort env .applicationInstalled
    "application_eight_sites_installed_single_instruction_patches_verified".toList

/-- `codec_probe::stop` and `application_probe::stop_recording`, after
    `WRITER_READY` was lowered. -/
def stopRecording (b : Boot) : Boot :=
  let recording := ApplicationProbe.stopRecording b.application.recording
  { b with
    serializer := { b.serializer with writerReady := false }
    codec := CodecProbe.stop b.codec
    application := { b.application with recording } }

/-- What the callbacks need before there is a writer. -/
def announceWriter (config : Config) : M Unit := do
  match Serializer.storeMask config.captureOffsets (← get).serializer.mask with
  | none => throw .panic
  | some mask =>
      modify fun b =>
        let serializer := { b.serializer with
          mask, maxDumps := config.maxDumps.toNat, writerReady := true }
        { b with serializer }

/-- The writer thread is started. -/
def spawnWriter (env : Env) (addresses : Option (UInt64 × UInt64)) : M Unit := do
  match env.spawn with
  | .ok () => modify fun b => { b with writer := some ⟨env.startTick, addresses⟩ }
  | .error e =>
      modify stopRecording
      throw (.refused ("writer could not start: ".toList ++ e.message))

/-- The serializer hook, and the start of recording.  The writer runs by now:
    the two tests of `WRITER_READY` may find it lowered. -/
def hookSerializer (env : Env) (config : Config) : M Unit := do
  reach (.patched .serializer)
  if env.serializerTrampoline = 0 then throw .abort
  modify fun b =>
    { b with serializer := { b.serializer with original := env.serializerTrampoline } }
  if config.observeRuleCodec && env.readyForCodec then
    modify fun b => { b with codec := CodecProbe.start b.codec env.startTick }
  if config.observeRuleApplication && env.readyForApplication then
    modify fun b =>
      let recording := ApplicationProbe.start b.application.recording env.startTick
      { b with application := { b.application with recording } }

/-- `install` up to the spawn of the writer. -/
def prepare (env : Env) (config : Config) : M (Option (UInt64 × UInt64)) := do
  let attempted := (← get).installAttempted
  modify fun b => { b with installAttempted := true }
  if attempted then
    throw (.refused "installation already attempted; hot reload is unsupported".toList)
  let addresses ← validateAll env config
  createLog env config
  if config.observeRuleCodec then
    installCodec env
  if config.observeRuleApplication then
    installApplication env config
  announceWriter config
  return addresses

/-- `install`. -/
def install (env : Env) (config : Config) : M Unit := do
  let addresses ← prepare env config
  spawnWriter env addresses
  hookSerializer env config

/-- The details `startup_error` shows. -/
def startupDetails (error : Str) : Str :=
  (error.filter (· ≠ '\x00')).take 300 ++ "\n\nRecording did not start. ".toList
    ++ "Photograph this message and its Details. No match test is needed.\x00".toList

/-- `startup_error`. -/
def startupError (error : Str) : M Unit :=
  modify fun b => { b with shown := some (startupDetails error) }

/-- `main`. -/
def main (env : Env) : M Unit := do
  match Config.load env.configFile with
  | .error .panic => throw .panic
  | .error (.error e) => startupError ("Configuration: ".toList ++ e.text)
  | .ok none => return
  | .ok (some config) =>
      if !config.enabled || config.mode = .disabled then return
      tryCatch (install env config) fun
        | .refused error => startupError error
        | exit => throw exit

end TeamAttack.Install
