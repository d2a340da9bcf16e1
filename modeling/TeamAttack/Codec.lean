import TeamAttack.EventText
import TeamAttack.Library.MemoryBlocks

/-! # The leaf codec and its private self-test (`codec.rs`)

    The reviewed routines copy a rule record to fourteen bytes of a stream and
    back: thirteen scalar bytes, then one byte of seven flag bits.  `self_test`
    runs them on buffers of its own and compares everything they may touch. -/

namespace TeamAttack.Codec

open ByteMemory LittleEndian CheckedWord

/-- The offsets of a rule record the two routines work on. -/
structure Fields where
  scalars : Vector UInt64 13
  flags : Vector UInt64 7
  deriving DecidableEq

/-- `SCALARS` and `FLAGS`. -/
def reviewed : Fields where
  scalars := #v[1, 2, 4, 5, 6, 7, 8, 10, 11, 12, 14, 19, 20]
  flags := #v[9, 13, 15, 17, 21, 22, 23]

/-- `CodecFn`: a descriptor and a cursor, to `x0` and the memory left behind. -/
abbrev CodecFn := UInt64 → UInt64 → Memory → UInt64 × Memory

/-- `Descriptor { table, rule }` at `desc`. -/
def writeDescriptor (m : Memory) (desc table rule : UInt64) : Memory :=
  writePointer (writePointer m desc table) (desc + 8) rule

/-- `Cursor { buffer, capacity, position }` at `cursor`. -/
def writeCursor (m : Memory) (cursor buffer : UInt64) (capacity position : UInt32) : Memory :=
  writeWord (writeWord (writePointer m cursor buffer) (cursor + 8) capacity) (cursor + 12) position

/-! ## The reviewed routines -/

/-- `u8::from(value != 0) << bit`. -/
def flagBit (value : UInt8) (bit : Nat) : UInt8 :=
  (if value ≠ 0 then 1 else 0) <<< UInt8.ofNat bit

/-- `encode`, for the fields it copies. -/
def encodeFields (fields : Fields) : CodecFn := fun desc cursor m =>
  let rule := pointer m (desc + 8)
  let out := pointer m cursor + (word m (cursor + 12)).toUInt64
  let m := fields.scalars.toList.zipIdx.foldl
    (fun m x => writeByte m (out + UInt64.ofNat x.2) (byte m (rule + x.1))) m
  let flags := (fields.flags.toList.zipIdx.drop 1).foldl
    (fun flags x => flags ||| flagBit (byte m (rule + x.1)) x.2)
    (byte m (rule + fields.flags[0]))
  let m := writeByte m (out + 13) flags
  let m := writeWord m (cursor + 12) (word m (cursor + 12) + 14)
  (desc, m)

/-- `decode`, for the fields it fills. -/
def decodeFields (fields : Fields) : CodecFn := fun desc cursor m =>
  let rule := pointer m (desc + 8)
  let input := pointer m cursor + (word m (cursor + 12)).toUInt64
  let m := fields.scalars.toList.zipIdx.foldl
    (fun m x => writeByte m (rule + x.1) (byte m (input + UInt64.ofNat x.2))) m
  let m := fields.flags.toList.zipIdx.foldl
    (fun m x => writeByte m (rule + x.1) ((byte m (input + 13) >>> UInt8.ofNat x.2) &&& 1)) m
  let m := writeWord m (cursor + 12) (word m (cursor + 12) + 14)
  (desc, m)

/-- `encode`. -/
def encode : CodecFn := encodeFields reviewed

/-- `decode`. -/
def decode : CodecFn := decodeFields reviewed

/-! ## `self_test` -/

/-- The locals of a loop that the routines are handed pointers to. -/
structure Locals where
  source : UInt64
  stream : UInt64
  output : UInt64
  desc : UInt64
  cursor : UInt64
  apart : [span source 56, span stream 64, span output 56, span desc 16, span cursor 16].Pairwise
    List.Disjoint

/-- The source record of a round trip, between its guards. -/
def sourceBytes (flags : UInt8) : List UInt8 :=
  let source := reviewed.scalars.toList.foldl
    (fun source off => source.set (16 + off.toNat) (off.toUInt8 * 17 + (flags &&& ~~~2)))
    (List.replicate 56 0xA5)
  reviewed.flags.toList.zipIdx.foldl
    (fun source x => source.set (16 + x.1.toNat) ((flags >>> UInt8.ofNat x.2) &&& 1)) source

/-- `expected_stream`. -/
def expectedStream (source : List UInt8) (pos : Nat) (flags : UInt8) : List UInt8 :=
  let stream := reviewed.scalars.toList.zipIdx.foldl
    (fun stream x => stream.set (pos + x.2) (source.getD (16 + x.1.toNat) 0))
    (List.replicate 64 0xCC)
  stream.set (pos + 13) flags

/-- `expected_output`. -/
def expectedOutput (source : List UInt8) : List UInt8 :=
  (reviewed.scalars.toList ++ reviewed.flags.toList).foldl
    (fun output off => output.set (16 + off.toNat) (source.getD (16 + off.toNat) 0))
    (List.replicate 56 0xA5)

/-- `expected` of the second loop. -/
def expectedBits (flags : UInt8) : List UInt8 :=
  let expected := reviewed.scalars.toList.foldl
    (fun expected off => expected.set (16 + off.toNat) 0x63) (List.replicate 56 0xA5)
  reviewed.flags.toList.zipIdx.foldl
    (fun expected x => expected.set (16 + x.1.toNat) ((flags >>> UInt8.ofNat x.2) &&& 1)) expected

/-- What every comparison asks of the result, the descriptor and the cursor. -/
def argumentsKept (l : Locals) (returned rule : UInt64) (position : UInt32) (m : Memory) : Bool :=
  returned == l.desc && pointer m l.desc == 0 && pointer m (l.desc + 8) == rule
    && pointer m l.cursor == l.stream && word m (l.cursor + 8) == 64
    && word m (l.cursor + 12) == position

/-- One pass of the first loop: one call of each routine. -/
def roundTrip (encoder decoder : CodecFn) (l : Locals) (s : Nat × Memory) (flags : UInt8) :
    Checked (Nat × Memory) := do
  let (calls, m) := s
  let source := sourceBytes flags
  let pos : UInt32 := if flags &&& 1 = 0 then 7 else 31
  let m := writeBytes m l.source source
  let m := writeBytes m l.stream (List.replicate 64 0xCC)
  let m := writeDescriptor m l.desc 0 (l.source + 16)
  let m := writeCursor m l.cursor l.stream 64 pos
  let (returned, m) := encoder l.desc l.cursor m
  let calls := calls + 1
  let stream := expectedStream source pos.toNat flags
  if !argumentsKept l returned (l.source + 16) (pos + 14) m || readBytes m l.source 56 != source
      || readBytes m l.stream 64 != stream then
    .error (SelfTestCheck.encoder.error flags)
  let m := writeBytes m l.output (List.replicate 56 0xA5)
  let m := writePointer m (l.desc + 8) (l.output + 16)
  let m := writeWord m (l.cursor + 12) pos
  let (returned, m) := decoder l.desc l.cursor m
  let calls := calls + 1
  if !argumentsKept l returned (l.output + 16) (pos + 14) m
      || readBytes m l.output 56 != expectedOutput source || readBytes m l.stream 64 != stream then
    .error (SelfTestCheck.decoderRoundtrip.error flags)
  return (calls, m)

/-- One pass of the second loop: one call of the decoder. -/
def bitCheck (decoder : CodecFn) (l : Locals) (s : Nat × Memory) (flags : UInt8) :
    Checked (Nat × Memory) := do
  let (calls, m) := s
  let stream := (List.replicate 64 0x63).set 20 flags
  let m := writeBytes m l.stream stream
  let m := writeBytes m l.output (List.replicate 56 0xA5)
  let m := writeDescriptor m l.desc 0 (l.output + 16)
  let m := writeCursor m l.cursor l.stream 64 7
  let (returned, m) := decoder l.desc l.cursor m
  let calls := calls + 1
  if !argumentsKept l returned (l.output + 16) 21 m
      || readBytes m l.output 56 != expectedBits flags || readBytes m l.stream 64 != stream then
    .error (SelfTestCheck.decoderBits.error flags)
  return (calls, m)

/-- `self_test`, with the addresses of the locals of its two loops. -/
def selfTest (encoder decoder : CodecFn) (first second : Locals) (m : Memory) : Checked Nat := do
  let s ← (List.range 128).foldlM
    (fun s flags => roundTrip encoder decoder first s (UInt8.ofNat flags)) (0, m)
  let (calls, _) ← (List.range 256).foldlM
    (fun s flags => bitCheck decoder second s (UInt8.ofNat flags)) s
  return calls

end TeamAttack.Codec
