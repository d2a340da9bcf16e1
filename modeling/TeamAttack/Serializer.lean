import TeamAttack.CaptureLog
import TeamAttack.Library.ByteMemory

/-! # The serializer hook (`probe.rs`)

    `compact_serializer_observer` runs the original serializer and copies the
    selected bytes of its output into the compact capture store. -/

namespace TeamAttack.Serializer

open ByteMemory

/-- `[AtomicU8; COMPACT_BUFFER_LEN]`. -/
abbrev Selected := Vector UInt8 compactBufferLen

/-- The statics the hook works on. -/
structure Statics where
  original : UInt64
  writerReady : Bool
  maxDumps : Nat
  serializerCalls : Nat
  mask : Selected
  captures : CaptureStore

/-- The loop of `install` over `capture_offsets`; an offset outside the array
    panics. -/
def storeMask (offsets : List UInt8) (mask : Selected) : Option Selected :=
  offsets.foldlM
    (fun mask offset =>
      if h : offset.toNat < compactBufferLen then some (mask.set offset.toNat 1) else none)
    mask

/-- The sample closure: zero where a byte is not selected. -/
def sampleBuffer (mask : Selected) (m : Memory) (buffer : UInt64) : Payload :=
  Vector.ofFn fun i => if mask.get i ≠ 0 then m (buffer + UInt64.ofNat i.val) else 0

/-- `compact_serializer_observer`, once `original` has left its output in
    memory.  Without `original` it aborts. -/
def compactSerializerObserver (s : Statics) (m : Memory) (buffer : UInt64) (spurious : Bool) :
    Option Statics :=
  if s.original = 0 then none
  else
    let s := { s with serializerCalls := s.serializerCalls + 1 }
    if buffer = 0 || !s.writerReady then some s
    else
      let (_, captures) :=
        s.captures.tryCapture s.maxDumps spurious (sampleBuffer s.mask m buffer)
      some { s with captures }

/-- Offsets inside the array are stored, and nothing else is. -/
theorem storeMask_ok (offsets : List UInt8) (hlt : ∀ o ∈ offsets, o.toNat < compactBufferLen) :
    ∀ start : Selected, ∃ mask, storeMask offsets start = some mask
      ∧ ∀ i : Fin compactBufferLen,
          mask.get i = if UInt8.ofNat i.val ∈ offsets then 1 else start.get i := by
  induction offsets with
  | nil =>
      intro start
      exact ⟨start, rfl, fun i => by rw [if_neg (List.not_mem_nil)]⟩
  | cons o rest ih =>
      intro start
      have ho : o.toNat < compactBufferLen := hlt o List.mem_cons_self
      obtain ⟨mask, hmask, hget⟩ :=
        ih (fun x hx => hlt x (List.mem_cons_of_mem o hx)) (start.set o.toNat 1)
      refine ⟨mask, ?_, ?_⟩
      · rw [storeMask, List.foldlM_cons, dif_pos ho]
        exact hmask
      · intro i
        rw [hget i]
        -- the slot just written, or another
        by_cases h : o.toNat = i.val
        · have heq : UInt8.ofNat i.val = o := by
            rw [← h]
            exact UInt8.ofNat_toNat
          have hset : (start.set o.toNat 1).get i = 1 := by
            simp [Vector.get_eq_getElem, h]
          rw [hset, heq, if_pos List.mem_cons_self]
          split_ifs <;> rfl
        · have hi : i.val < 256 := by
            have := i.isLt
            unfold compactBufferLen at this
            omega
          have hne : UInt8.ofNat i.val ≠ o := by
            rintro rfl
            rw [UInt8.toNat_ofNat', Nat.mod_eq_of_lt hi] at h
            exact h rfl
          have hset : (start.set o.toNat 1).get i = start.get i := Vector.getElem_set_ne ho i.isLt h
          rw [hset]
          simp only [List.mem_cons, hne, false_or]

end TeamAttack.Serializer
