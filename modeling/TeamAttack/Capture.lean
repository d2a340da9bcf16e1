import Mathlib

/-! # Fixed, single-use capture slots (`capture.rs`)

    A store of 256 slots.  A producer reserves the next slot with one weak
    compare-exchange, fills it and publishes it; a consumer takes a published
    slot.  Slots are never reused.

    This file models the operations as a single thread performs them, one
    call at a time.  `TeamAttack.CaptureSchedule` splits them at their atomic
    steps. -/

namespace TeamAttack

/-- `COMPACT_BUFFER_LEN`. -/
def compactBufferLen : Nat := 0x69

instance neZero_compactBufferLen : NeZero compactBufferLen := ⟨by decide⟩

/-- `CAPTURE_CAPACITY`. -/
def captureCapacity : Nat := 256

/-- `[u8; COMPACT_BUFFER_LEN]`. -/
abbrev Payload := Vector UInt8 compactBufferLen

structure Capture where
  sequence : Nat
  bytes : Payload
  deriving DecidableEq

/-- The `AtomicU8` of a slot: 0, 1 and 2 in the source. -/
inductive SlotState where
  | unpublished
  | ready
  | consumed
  deriving DecidableEq

/-- `value` is `none` while the source's `MaybeUninit` is uninitialised. -/
structure Slot where
  state : SlotState
  value : Option Capture
  deriving DecidableEq

/-- `Slot::new`. -/
def Slot.new : Slot := { state := .unpublished, value := none }

structure CaptureStore where
  next : Nat
  slots : Fin captureCapacity → Slot

/-- `CaptureStore::new`. -/
def CaptureStore.new : CaptureStore := { next := 0, slots := fun _ => Slot.new }

/-- The store with slot `i` replaced. -/
def CaptureStore.put (store : CaptureStore) (i : Fin captureCapacity) (slot : Slot) :
    CaptureStore :=
  { store with slots := Function.update store.slots i slot }

@[simp] theorem CaptureStore.put_next (store : CaptureStore) (i : Fin captureCapacity)
    (slot : Slot) : (store.put i slot).next = store.next := rfl

@[simp] theorem CaptureStore.put_slots_self (store : CaptureStore)
    (i : Fin captureCapacity) (slot : Slot) : (store.put i slot).slots i = slot :=
  Function.update_self ..

theorem CaptureStore.put_slots_of_ne (store : CaptureStore) {i j : Fin captureCapacity}
    (slot : Slot) (h : j ≠ i) : (store.put i slot).slots j = store.slots j :=
  Function.update_of_ne h ..

/-- `CaptureStore::try_capture`, uninterrupted: then its weak compare-exchange
    fails only spuriously, when `spurious` is set. -/
def CaptureStore.tryCapture (store : CaptureStore) (limit : Nat) (spurious : Bool)
    (sample : Payload) : Bool × CaptureStore :=
  if h : store.next < min limit captureCapacity then
    if spurious then (false, store)
    else
      let index : Fin captureCapacity := ⟨store.next, by omega⟩
      (true, { store.put index ⟨.ready, some ⟨store.next, sample⟩⟩ with
                next := store.next + 1 })
  else (false, store)

/-- `CaptureStore::take`, uninterrupted.  The value of a ready slot is always
    initialised (`TeamAttack.CaptureSchedule`). -/
def CaptureStore.take (store : CaptureStore) (index : Nat) :
    Option Capture × CaptureStore :=
  if h : index < captureCapacity then
    let slot := store.slots ⟨index, h⟩
    if slot.state = .ready then
      (slot.value, store.put ⟨index, h⟩ { slot with state := .consumed })
    else (none, store)
  else (none, store)

/-- `CaptureStore::reserved`. -/
def CaptureStore.reserved (store : CaptureStore) : Nat := store.next

/-- `b[start..start + src.len()].copy_from_slice(src)`. -/
def copyFromSlice (b : Payload) (start : Nat) (src : List UInt8) : Payload :=
  Vector.ofFn fun i =>
    if start ≤ i.val then (src[i.val - start]?).getD b[i] else b[i]

/-- `b[start..start + len]`. -/
def slice (b : Payload) (start len : Nat) : List UInt8 := (b.toList.drop start).take len

end TeamAttack
