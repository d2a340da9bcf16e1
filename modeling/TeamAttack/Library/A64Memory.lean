import TeamAttack.Library.A64
import TeamAttack.Library.MemoryBlocks

/-! # Loads and stores in A64 code

    The 64-bit load from a base and an index register, and the 64-bit store at
    an unscaled offset, on a machine whose state beyond the registers is a
    byte-addressed memory.  A doubleword loaded at one address and stored at
    another arrives byte by byte (`writePointer_pointer`), and a register that
    no step writes keeps its value along a trace (`kept_along`). -/

namespace A64

open BitFields ByteMemory LittleEndian

/-- An instruction that moves a doubleword between a register and memory. -/
inductive Access where
  | ldrRegister (rt rn rm : Fin 32) (shift : Nat)
  | stur (rt rn : Fin 32) (imm : Int)
  deriving DecidableEq

def decodeAccess (w : Nat) : Option Access :=
  if field w 21 11 = 0b11111000011 ∧ field w 10 2 = 0b10 ∧ field w 13 3 = 0b011 then
    some (.ldrRegister (register w 0) (register w 5) (register w 16) (3 * field w 12 1))
  else if field w 21 11 = 0b11111000000 ∧ field w 10 2 = 0b00 then
    some (.stur (register w 0) (register w 5) (signed 9 (field w 12 9)))
  else none

/-- Registers and memory. -/
abbrev Machine := State Memory

def Access.exec (a : Access) (s : Machine) : Machine :=
  match a with
  | .ldrRegister rt rn rm shift =>
      (s.write rt (pointer s.rest ⟨s.readStack rn + s.readZero rm <<< shift⟩).toBitVec).next
  | .stur rt rn imm =>
      { s with
        rest := writePointer s.rest ⟨s.readStack rn + BitVec.ofInt 64 imm⟩ ⟨s.readZero rt⟩ }.next

/-- The words that are no constants or addresses: loads, stores, and what
    `other` says of the rest. -/
def accessStep (other : Nat → Machine → Machine → Prop) (w : Nat) (s s' : Machine) : Prop :=
  match decodeAccess w with
  | some a => s' = a.exec s
  | none => other w s s'

variable {other : Nat → Machine → Machine → Prop}

theorem step_of_access {w : Nat} {a : Access} {s s' : Machine} (hdecode : decode w = none)
    (haccess : decodeAccess w = some a) : Step (accessStep other) w s s' ↔ s' = a.exec s := by
  unfold Step accessStep
  rw [hdecode]
  dsimp only
  rw [haccess]

/-! ## One machine -/

/-- A machine for which every other word does nothing. -/
def execWord (w : Nat) (s : Machine) : Machine :=
  match decode w, decodeAccess w with
  | some i, _ => i.exec s
  | none, some a => a.exec s
  | none, none => s.next

theorem step_execWord (w : Nat) (s : Machine) :
    Step (accessStep fun _ s s' => s' = s.next) w s (execWord w s) := by
  unfold Step accessStep execWord
  cases decode w with
  | some i => rfl
  | none =>
      cases decodeAccess w with
      | some a => rfl
      | none => rfl

/-! ## What moves and what stays -/

theorem x_writeStack_other {ρ : Type} {s : State ρ} {r : Fin 31} {r' : Fin 32} {v : BitVec 64}
    (h : r.val ≠ r'.val) : (s.writeStack r' v).x r = s.x r := by
  unfold State.writeStack
  split
  · rfl
  · exact x_write_other h

/-- A register that no step of a stretch writes. -/
theorem kept_along {ρ : Type} {states : Nat → State ρ} {r : Fin 31} {a b : Nat} (hab : a ≤ b)
    (hkeep : ∀ k, a ≤ k → k < b → (states (k + 1)).x r = (states k).x r) :
    (states b).x r = (states a).x r := by
  induction b, hab using Nat.le_induction with
  | base => rfl
  | succ b hab ih =>
      rw [hkeep b hab (Nat.lt_succ_self b)]
      exact ih fun k hk hkb => hkeep k hk (Nat.lt_succ_of_lt hkb)

/-- A stretch that falls through. -/
theorem pc_along {ρ : Type} {states : Nat → State ρ} {n : Nat}
    (hnext : ∀ k < n, (states (k + 1)).pc = (states k).pc + 4) :
    (states n).pc = (states 0).pc + BitVec.ofNat 64 (4 * n) := by
  induction n with
  | zero => exact (BitVec.add_zero _).symm
  | succ n ih =>
      rw [hnext n (Nat.lt_succ_self n), ih fun k hk => hnext k (Nat.lt_succ_of_lt hk),
        BitVec.add_assoc, Nat.mul_succ, BitVec.ofNat_add]
      rfl

/-- A doubleword copied from one place to another. -/
theorem writePointer_pointer (m m' : Memory) (src dst : UInt64) {k : Nat} (hk : k < 8) :
    writePointer m' dst (pointer m src) (dst + UInt64.ofNat k) = m (src + UInt64.ofNat k) := by
  have hbytes : le64 (pointer m src) = readBytes m src 8 := by
    rw [pointer_eq, le64_of64 (length_readBytes m src 8)]
  have hlen : (readBytes m src 8).length = 8 := length_readBytes m src 8
  rw [writePointer, hbytes, writeBytes_apply m' dst (by omega) (k := k) (by omega),
    getElem_readBytes m src hk]

end A64
