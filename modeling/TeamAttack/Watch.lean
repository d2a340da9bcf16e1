import TeamAttack.Validation

/-! # The global watcher (`watch.rs`)

    Where the reviewed global and its guard lie, how their source is
    recognised, and when a polled observation is logged. -/

namespace TeamAttack.Watch

open RustStr RustSlice LittleEndian CheckedWord

def globalOffset : UInt64 := 0x530a981
def guardOffset : UInt64 := 0x53144d8
def heartbeatMs : UInt64 := 5000
def watchLimitMs : UInt64 := 20 * 60 * 1000

/-- The module-relative page an `ADRP` into `register` names. -/
def adrpPage (pc : UInt64) (instruction register : UInt32) : Option UInt64 :=
  if instruction &&& 0x9f00001f ≠ 0x90000000 ||| register then none
  else
    let immediate := (((instruction >>> 5) &&& 0x7ffff) <<< 2) ||| ((instruction >>> 29) &&& 3)
    let displacement : Int64 := ((immediate <<< 11).toInt32 >>> 11).toInt64 * 4096
    let target : Int64 := (pc &&& ~~~0xfff).toInt64 + displacement
    if 0 ≤ target then some target.toUInt64 else none

/-- The instruction `relative` bytes into the serializer. -/
def sourceWord (text : List UInt8) (base relative : Nat) : Checked UInt32 := do
  let bytes ← okOr (getRange text (base + relative) (base + relative + 4))
    "global source instruction outside text"
  return of32 bytes

/-- One operand of the `||` chain of `validate_source`. -/
def requireSource (ok : Bool) : Checked Unit :=
  if ok then .ok () else refuse "reviewed global/guard source instruction mismatch"

def validateSource (config : Config) (text : List UInt8) : Checked Unit := do
  if config.serializerTextOffset ≠ 0x16e2c50 || config.captureOffsets ≠ [0x11] then
    refuse "global watcher requires the reviewed 13.0.5 serializer and byte 11"
  let base := config.serializerTextOffset
  let word := sourceWord text base.toNat
  requireSource (adrpPage (base + 0x30) (← word 0x30) 8 = some 0x5308000)
  requireSource ((← word 0x34) = 0x911da108)
  requireSource ((← word 0x5c) = 0x5284428a)
  requireSource ((← word 0x68) = 0xf86a690a)
  requireSource ((← word 0x74) = 0xf800c26a)
  requireSource (adrpPage (base + 0x1c) (← word 0x1c) 20 = some 0x5314000)
  requireSource ((← word 0x20) = 0x91136294)

/-- The kernel's answer to a memory query, as far as it is read. -/
structure MemoryInfo where
  address : UInt64
  size : UInt64
  memoryType : UInt32
  permission : UInt32
  deriving DecidableEq

def validateMapping (address dataStart : UInt64) (info : MemoryInfo) : Checked Unit := do
  let stop ← okOr (checkedAdd info.address info.size) "memory mapping overflow"
  if dataStart = 0 || address < dataStart || address < info.address || address ≥ stop
      || info.permission &&& 7 ≠ 3
      || !(info.memoryType &&& 0xff = 4 || info.memoryType &&& 0xff = 9) then
    refuse "global byte is outside readable module data"

structure Observation where
  initialized : Bool
  value : Option UInt8
  serializerCalls : Nat
  storedDumps : Nat
  deriving DecidableEq

structure WatchSchedule where
  last : Option Observation
  lastMs : UInt64
  deriving DecidableEq

/-- `WatchSchedule::default`. -/
def WatchSchedule.default : WatchSchedule := { last := none, lastMs := 0 }

/-- `elapsed.saturating_sub(last)`. -/
def saturatingSub (a b : UInt64) : UInt64 := if b ≤ a then a - b else 0

def WatchSchedule.shouldLog (schedule : WatchSchedule) (elapsedMs : UInt64)
    (observation : Observation) : Bool × WatchSchedule :=
  if schedule.last ≠ some observation
      || saturatingSub elapsedMs schedule.lastMs ≥ heartbeatMs then
    (true, { last := some observation, lastMs := elapsedMs })
  else (false, schedule)

end TeamAttack.Watch
