import TeamAttack.Application
import TeamAttack.Library.ByteMemory
import TeamAttack.Watch

/-! # The codec hooks (`codec_probe.rs`)

    Two hooks around the reviewed leaf codec.  They write no game memory; while
    recording is active, each call stores what the original left behind. -/

namespace TeamAttack.CodecProbe

open RustStr CheckedWord LittleEndian RustSlice ByteMemory Application Watch

/-! ## The reviewed code -/

def encoderOffset : UInt64 := 0x16a4920
def decoderOffset : UInt64 := 0x16a4b60
def tableOffset : UInt64 := 0x50831c0

/-- `validate_table_mapping` of `probe.rs`, with the answer of its query. -/
def validateTableMapping (answer : UInt32 × MemoryInfo) (address minimum : UInt64) :
    Checked Unit :=
  let (result, info) := answer
  let inside : Bool := match checkedAdd info.address info.size with
    | none => false
    | some stop => match checkedAdd address 16 with
      | none => false
      | some last => last ≤ stop
  if result ≠ 0 || address < minimum || address < info.address || !inside
      || info.permission &&& 1 = 0 || info.permission &&& 4 ≠ 0
      || !(info.memoryType &&& 0xff = 3 || info.memoryType &&& 0xff = 4
        || info.memoryType &&& 0xff = 9) then
    refuse "codec dispatch table is outside readable non-executable module memory"
  else .ok ()

/-- One iteration of the loop of `validate`. -/
def requireCodecBody (text : List UInt8) (body : UInt64 × List UInt8) : Checked Unit :=
  if matchesAt text body.1 body.2 then .ok ()
  else .error ("complete codec body mismatch at main+".toList ++ hexLower body.1.toNat
    ++ "; no native self-test or codec hooks".toList)

/-- `validate`, for the reviewed bytes of the two bodies. -/
def validate (encoder decoder : List UInt8) (text : List UInt8) (base rodata : UInt64)
    (answer : UInt32 × MemoryInfo) (m : Memory) : Checked Unit := do
  requireCodecBody text (encoderOffset, encoder)
  requireCodecBody text (decoderOffset, decoder)
  let table ← okOr (checkedAdd base tableOffset) "codec table overflow"
  validateTableMapping answer table rodata
  if pointer m table ≠ base + encoderOffset || pointer m (table + 8) ≠ base + decoderOffset then
    refuse "codec dispatch pointers do not match reviewed entries"

/-! ## Observations -/

/-- Encoder or decoder. -/
abbrev Direction := Fin 2

instance neZero_directions : NeZero 2 := ⟨by decide⟩

/-- The statics of the module. -/
structure Statics where
  trampoline : Direction → UInt64
  active : Bool
  startTick : UInt64
  calls : Direction → Nat
  dropped : Nat
  events : CaptureStore

/-- The statics at process start. -/
def Statics.boot : Statics where
  trampoline := fun _ => 0
  active := false
  startTick := 0
  calls := fun _ => 0
  dropped := 0
  events := CaptureStore.new

/-- `start`. -/
def start (s : Statics) (tick : UInt64) : Statics := { s with startTick := tick, active := true }

/-- `stop`. -/
def stop (s : Statics) : Statics := { s with active := false }

/-- What one hooked call stores. -/
structure Observation where
  direction : Direction
  base : UInt8
  team : UInt8
  before : UInt32
  after : UInt32
  elapsed : UInt64
  deriving DecidableEq

/-- The payload of an observation; byte 3 stays zero. -/
def Observation.encode (o : Observation) : Payload :=
  let b : Payload := Vector.replicate compactBufferLen 0
  let b := copyFromSlice b 0 [UInt8.ofNat o.direction.val, o.base, o.team]
  let b := copyFromSlice b 4 (le32 o.before)
  let b := copyFromSlice b 8 (le32 o.after)
  copyFromSlice b 12 (le64 o.elapsed)

/-- `load_position`. -/
def loadPosition (m : Memory) (cursor : UInt64) : UInt32 := word m (cursor + 12)

/-- `rule_values`. -/
def ruleValues (m : Memory) (desc : UInt64) : UInt8 × UInt8 :=
  let address := pointer m (desc + 8)
  (byte m (address + 9), byte m (address + 13))

/-- What the runtime supplies to one call: the memory before and after the
    original, whether recording is still active after it, the system tick, and
    whether the weak compare-exchange fails spuriously. -/
structure CallEnv where
  before : Memory
  after : Memory
  stillActive : Bool
  tick : UInt64
  spurious : Bool

/-- The sample closure of `observe`. -/
def sampleCall (s : Statics) (env : CallEnv) (direction : Direction) (desc cursor : UInt64) :
    Observation :=
  let (base, team) := ruleValues env.after desc
  { direction, base, team
    before := loadPosition env.before cursor
    after := loadPosition env.after cursor
    elapsed := (env.tick - s.startTick) / 19200 }

/-- `observe`.  Without its trampoline it aborts. -/
def observe (s : Statics) (env : CallEnv) (direction : Direction) (desc cursor : UInt64) :
    Option Statics :=
  if s.trampoline direction = 0 then none
  else if !(s.active && env.stillActive) then some s
  else
    let calls := Function.update s.calls direction (s.calls direction + 1)
    match s.events.tryCapture captureCapacity env.spurious
        (sampleCall s env direction desc cursor).encode with
    | (true, events) => some { s with calls, events }
    | (false, _) => some { s with calls, dropped := s.dropped + 1 }

/-- `counts`. -/
def counts (s : Statics) : Nat × Nat × Nat := (s.calls 0, s.calls 1, s.dropped)

/-- The fields of the line `drain` writes for a capture. -/
structure EventLine where
  sequence : Nat
  elapsedMs : UInt64
  encode : Bool
  base : UInt8
  team : UInt8
  before : UInt32
  after : UInt32
  advanced14 : Bool
  deriving DecidableEq

def eventLine (capture : Capture) : EventLine :=
  let b := capture.bytes
  let before := of32 (slice b 4 4)
  let after := of32 (slice b 8 4)
  { sequence := capture.sequence
    elapsedMs := of64 (slice b 12 8)
    encode := b.get 0 = 0
    base := b.get 1
    team := b.get 2
    before, after
    advanced14 := before ≤ after && after - before = 14 }

end TeamAttack.CodecProbe
