import TeamAttack.Library.BitFields

/-! # Constants and addresses in A64 code

    The moves of wide immediates, the PC-relative addresses and the additions
    of immediates: their encodings, and what they do to a state of 64-bit
    registers.  All other instructions are a relation that the user gives. -/

namespace A64

open BitFields

/-- An instruction that makes a constant or an address.  `wide` is the
    64-bit form. -/
inductive Instr where
  | movz (wide : Bool) (rd : Fin 32) (imm lane : Nat)
  | movk (wide : Bool) (rd : Fin 32) (imm lane : Nat)
  | adr (rd : Fin 32) (imm : Int)
  | adrp (rd : Fin 32) (imm : Int)
  | addImmediate (wide : Bool) (rd rn : Fin 32) (imm : Nat)
  deriving DecidableEq

/-! ## Encodings -/

/-- The register in five bits of a word. -/
def register (w start : Nat) : Fin 32 := ⟨field w start 5, field_lt w start 5⟩

/-- The bit that selects the 64-bit form. -/
def isWide (w : Nat) : Bool := decide (field w 31 1 = 1)

/-- `immhi:immlo`, signed. -/
def addressImmediate (w : Nat) : Int := signed 21 (field w 5 19 * 2 ^ 2 + field w 29 2)

/-- `imm12`, shifted by twelve or not. -/
def addend (w : Nat) : Nat := field w 10 12 * 2 ^ (12 * field w 22 1)

/-- A lane that lies inside a register of the form's width. -/
def laneFits (w : Nat) : Bool := isWide w || decide (field w 22 1 = 0)

def decode (w : Nat) : Option Instr :=
  if field w 24 5 = 0b10000 then
    some (if isWide w then .adrp (register w 0) (addressImmediate w)
      else .adr (register w 0) (addressImmediate w))
  else if field w 23 8 = 0b10100101 ∧ laneFits w then
    some (.movz (isWide w) (register w 0) (field w 5 16) (16 * field w 21 2))
  else if field w 23 8 = 0b11100101 ∧ laneFits w then
    some (.movk (isWide w) (register w 0) (field w 5 16) (16 * field w 21 2))
  else if field w 23 8 = 0b00100010 then
    some (.addImmediate (isWide w) (register w 0) (register w 5) (addend w))
  else none

theorem decode_adrp {w : Nat} (h : field w 24 5 = 0b10000) (hwide : isWide w = true) :
    decode w = some (.adrp (register w 0) (addressImmediate w)) := by
  rw [decode, if_pos h, if_pos hwide]

theorem decode_adr {w : Nat} (h : field w 24 5 = 0b10000) (hwide : isWide w = false) :
    decode w = some (.adr (register w 0) (addressImmediate w)) := by
  rw [decode, if_pos h, if_neg (Bool.not_eq_true _ ▸ hwide)]

theorem class_of_op {w v : Nat} (h : field w 23 8 = v) : field w 24 5 = v / 2 % 32 := by
  unfold field at h ⊢
  omega

theorem decode_movz {w : Nat} (h : field w 23 8 = 0b10100101) (hlane : laneFits w = true) :
    decode w = some (.movz (isWide w) (register w 0) (field w 5 16) (16 * field w 21 2)) := by
  rw [decode, if_neg (by rw [class_of_op h]; decide), if_pos ⟨h, hlane⟩]

theorem decode_movk {w : Nat} (h : field w 23 8 = 0b11100101) (hlane : laneFits w = true) :
    decode w = some (.movk (isWide w) (register w 0) (field w 5 16) (16 * field w 21 2)) := by
  rw [decode, if_neg (by rw [class_of_op h]; decide), if_neg (fun hz => absurd hz.1 (by omega)),
    if_pos ⟨h, hlane⟩]

theorem decode_addImmediate {w : Nat} (h : field w 23 8 = 0b00100010) :
    decode w = some (.addImmediate (isWide w) (register w 0) (register w 5) (addend w)) := by
  rw [decode, if_neg (by rw [class_of_op h]; decide), if_neg (fun hz => absurd hz.1 (by omega)),
    if_neg (fun hk => absurd hk.1 (by omega)), if_pos h]

/-- A lane inside the register's width. -/
theorem laneFits_iff (w : Nat) :
    laneFits w = true ↔ 16 * field w 21 2 < if isWide w then 64 else 32 := by
  have hlt := field_lt w 21 2
  have htop : field w 22 1 = field w 21 2 / 2 := by
    unfold field
    omega
  unfold laneFits
  rw [Bool.or_eq_true, decide_eq_true_eq, htop]
  cases isWide w with
  | true => simpa using by omega
  | false =>
      rw [if_neg Bool.false_ne_true]
      constructor
      · rintro (h | h)
        · cases h
        · omega
      · intro h
        exact Or.inr (by omega)

/-! ## Execution -/

/-- General registers, stack pointer, program counter, and all the rest. -/
structure State (ρ : Type) where
  x : Fin 31 → BitVec 64
  sp : BitVec 64
  pc : BitVec 64
  rest : ρ

variable {ρ : Type}

/-- Register 31 reads as zero. -/
def State.readZero (s : State ρ) (r : Fin 32) : BitVec 64 :=
  if h : r.val < 31 then s.x ⟨r.val, h⟩ else 0

/-- Register 31 reads as the stack pointer. -/
def State.readStack (s : State ρ) (r : Fin 32) : BitVec 64 :=
  if h : r.val < 31 then s.x ⟨r.val, h⟩ else s.sp

/-- A write to register 31 is dropped. -/
def State.write (s : State ρ) (r : Fin 32) (v : BitVec 64) : State ρ :=
  { s with x := fun i => if i.val = r.val then v else s.x i }

/-- A write to register 31 goes to the stack pointer. -/
def State.writeStack (s : State ρ) (r : Fin 32) (v : BitVec 64) : State ρ :=
  if r.val = 31 then { s with sp := v } else s.write r v

def State.next (s : State ρ) : State ρ := { s with pc := s.pc + 4 }

/-- A 32-bit result clears the upper half. -/
def sized (wide : Bool) (v : BitVec 64) : BitVec 64 :=
  if wide then v else (v.setWidth 32).setWidth 64

/-- Sixteen bits put in place of others. -/
def insertLane (v : BitVec 64) (lane imm : Nat) : BitVec 64 :=
  (v &&& ~~~(0xffff#64 <<< lane)) ||| (BitVec.ofNat 64 imm <<< lane)

/-- The page of an address. -/
def page (pc : BitVec 64) : BitVec 64 := pc &&& ~~~0xfff#64

def Instr.exec (i : Instr) (s : State ρ) : State ρ :=
  match i with
  | .movz wide rd imm lane => (s.write rd (sized wide (BitVec.ofNat 64 imm <<< lane))).next
  | .movk wide rd imm lane => (s.write rd (sized wide (insertLane (s.readZero rd) lane imm))).next
  | .adr rd imm => (s.write rd (s.pc + BitVec.ofInt 64 imm)).next
  | .adrp rd imm => (s.write rd (page s.pc + BitVec.ofInt 64 (imm * 4096))).next
  | .addImmediate wide rd rn imm =>
      (s.writeStack rd (sized wide (s.readStack rn + BitVec.ofNat 64 imm))).next

/-- One word executed; `other` is what the words of other instructions do. -/
def Step (other : Nat → State ρ → State ρ → Prop) (w : Nat) (s s' : State ρ) : Prop :=
  match decode w with
  | some i => s' = i.exec s
  | none => other w s s'

/-- Words executed in order. -/
inductive Runs (other : Nat → State ρ → State ρ → Prop) :
    List Nat → State ρ → State ρ → Prop
  | nil (s : State ρ) : Runs other [] s s
  | cons {w : Nat} {rest : List Nat} {s m s' : State ρ} (hstep : Step other w s m)
      (hrest : Runs other rest m s') : Runs other (w :: rest) s s'

variable {other : Nat → State ρ → State ρ → Prop}

theorem step_of_decode {w : Nat} {i : Instr} {s s' : State ρ} (hdecode : decode w = some i) :
    Step other w s s' ↔ s' = i.exec s := by
  unfold Step
  rw [hdecode]

theorem runs_append {a b : List Nat} {s s' : State ρ} :
    Runs other (a ++ b) s s' ↔ ∃ m, Runs other a s m ∧ Runs other b m s' := by
  induction a generalizing s with
  | nil =>
      constructor
      · intro h
        exact ⟨s, .nil s, h⟩
      · rintro ⟨m, ⟨⟩, h⟩
        exact h
  | cons w rest ih =>
      constructor
      · rintro (_ | ⟨hstep, hrest⟩)
        obtain ⟨m, hm, hb⟩ := ih.mp hrest
        exact ⟨m, .cons hstep hm, hb⟩
      · rintro ⟨m, _ | ⟨hstep, hm⟩, hb⟩
        exact .cons hstep (ih.mpr ⟨m, hm, hb⟩)

theorem runs_singleton {w : Nat} {s s' : State ρ} :
    Runs other [w] s s' ↔ Step other w s s' := by
  constructor
  · rintro (_ | ⟨hstep, ⟨⟩⟩)
    exact hstep
  · intro h
    exact .cons h (.nil s')

/-! ## What a register holds -/

@[simp] theorem pc_next (s : State ρ) : s.next.pc = s.pc + 4 := rfl

@[simp] theorem x_next (s : State ρ) (r : Fin 31) : s.next.x r = s.x r := rfl

@[simp] theorem pc_write (s : State ρ) (r : Fin 32) (v : BitVec 64) : (s.write r v).pc = s.pc := rfl

@[simp] theorem pc_writeStack (s : State ρ) (r : Fin 32) (v : BitVec 64) :
    (s.writeStack r v).pc = s.pc := by
  unfold State.writeStack
  split <;> rfl

@[simp] theorem x_write_self (s : State ρ) (r : Fin 31) (v : BitVec 64) :
    (s.write r.castSucc v).x r = v := if_pos rfl

theorem x_write_other {s : State ρ} {r : Fin 31} {r' : Fin 32} {v : BitVec 64}
    (h : r.val ≠ r'.val) : (s.write r' v).x r = s.x r := if_neg h

@[simp] theorem x_writeStack_self (s : State ρ) (r : Fin 31) (v : BitVec 64) :
    (s.writeStack r.castSucc v).x r = v := by
  rw [State.writeStack, if_neg (show r.castSucc.val ≠ 31 from Nat.ne_of_lt r.isLt), x_write_self]

@[simp] theorem readZero_castSucc (s : State ρ) (r : Fin 31) :
    s.readZero r.castSucc = s.x r := dif_pos r.isLt

@[simp] theorem readStack_castSucc (s : State ρ) (r : Fin 31) :
    s.readStack r.castSucc = s.x r := dif_pos r.isLt

/-- Every modelled instruction falls through. -/
theorem pc_exec (i : Instr) (s : State ρ) : (i.exec s).pc = s.pc + 4 := by
  cases i <;> simp [Instr.exec]

/-! ## Constants as numbers -/

theorem ofNat_shiftLeft (n lane : Nat) :
    BitVec.ofNat 64 n <<< lane = BitVec.ofNat 64 (n <<< lane) := by
  apply BitVec.eq_of_toNat_eq
  rw [BitVec.toNat_shiftLeft, BitVec.toNat_ofNat, BitVec.toNat_ofNat, Nat.shiftLeft_eq,
    Nat.shiftLeft_eq, Nat.mod_mul_mod]

/-- A number of 32 bits is a 32-bit result. -/
theorem sized_ofNat {wide : Bool} {n : Nat} (h : wide = false → n < 2 ^ 32) :
    sized wide (BitVec.ofNat 64 n) = BitVec.ofNat 64 n := by
  cases wide with
  | true => rfl
  | false =>
      have hn := h rfl
      apply BitVec.eq_of_toNat_eq
      simp only [sized, Bool.false_eq_true, if_false, BitVec.toNat_setWidth, BitVec.toNat_ofNat]
      omega

/-- A lane of a number replaced, after a cut to the form's width. -/
def replaceLane (n bits lane imm : Nat) : Nat :=
  andNot (n % 2 ^ bits) (0xffff <<< lane) ||| imm <<< lane

theorem testBit_lane (lane i : Nat) :
    (0xffff <<< lane).testBit i = (decide (lane ≤ i) && decide (i - lane < 16)) := by
  rw [Nat.testBit_shiftLeft, show (0xffff : Nat) = 2 ^ 16 - 1 from rfl,
    Nat.testBit_two_pow_sub_one]

theorem testBit_replaceLane (n bits lane imm i : Nat) :
    (replaceLane n bits lane imm).testBit i
      = ((decide (i < bits) && n.testBit i && !(decide (lane ≤ i) && decide (i - lane < 16)))
        || (decide (lane ≤ i) && imm.testBit (i - lane))) := by
  rw [replaceLane, Nat.testBit_or, testBit_andNot, testBit_lane, Nat.testBit_mod_two_pow,
    Nat.testBit_shiftLeft]

theorem replaceLane_lt {n bits lane imm : Nat} (himm : imm < 2 ^ 16) (hlane : lane + 16 ≤ bits) :
    replaceLane n bits lane imm < 2 ^ bits := by
  apply Nat.lt_pow_two_of_testBit
  intro i hi
  have hhigh : imm.testBit (i - lane) = false :=
    Nat.testBit_lt_two_pow (himm.trans_le (Nat.pow_le_pow_right (by decide) (by omega)))
  rw [testBit_replaceLane, hhigh, decide_eq_false (Nat.not_lt.mpr hi), Bool.and_false,
    Bool.or_false, Bool.false_and, Bool.false_and]

theorem getLsbD_insertLane (n lane imm : Nat) {i : Nat} (hi : i < 64) :
    (insertLane (BitVec.ofNat 64 n) lane imm).getLsbD i
      = ((n.testBit i && !(decide (lane ≤ i) && decide (i - lane < 16)))
        || (decide (lane ≤ i) && imm.testBit (i - lane))) := by
  have hin : i - lane < 64 := Nat.lt_of_le_of_lt (Nat.sub_le i lane) hi
  have hmask : Nat.testBit 0xffff (i - lane) = decide (i - lane < 16) :=
    Nat.testBit_two_pow_sub_one 16 (i - lane)
  have hnot : (!decide (i < lane)) = decide (lane ≤ i) := by
    rw [← decide_not, decide_eq_decide]
    exact Nat.not_lt
  rw [insertLane, BitVec.getLsbD_or, BitVec.getLsbD_and, BitVec.getLsbD_not,
    BitVec.getLsbD_shiftLeft, BitVec.getLsbD_shiftLeft, BitVec.getLsbD_ofNat, BitVec.getLsbD_ofNat,
    BitVec.getLsbD_ofNat, hmask, hnot, decide_eq_true hi, decide_eq_true hin]
  simp only [Bool.true_and]

/-- `MOVK` on a register that holds a number. -/
theorem insertLane_ofNat {wide : Bool} {bits n lane imm : Nat} (himm : imm < 2 ^ 16)
    (hbits : bits = if wide then 64 else 32) (hlane : lane + 16 ≤ bits) :
    sized wide (insertLane (BitVec.ofNat 64 n) lane imm)
      = BitVec.ofNat 64 (replaceLane n bits lane imm) := by
  apply BitVec.eq_of_getLsbD_eq
  intro i hi
  rw [BitVec.getLsbD_ofNat, testBit_replaceLane, decide_eq_true hi, Bool.true_and]
  cases wide with
  | true =>
      rw [if_pos rfl] at hbits
      rw [sized, if_pos rfl, getLsbD_insertLane n lane imm hi, hbits, decide_eq_true hi,
        Bool.true_and]
  | false =>
      rw [if_neg Bool.false_ne_true] at hbits
      rw [sized, if_neg Bool.false_ne_true, BitVec.getLsbD_setWidth, BitVec.getLsbD_setWidth,
        getLsbD_insertLane n lane imm hi, hbits, decide_eq_true hi, Bool.true_and]
      by_cases hlow : i < 32
      · rw [decide_eq_true hlow, Bool.true_and, Bool.true_and]
      · -- above bit 31 the lane has no bit to give
        have hhigh : imm.testBit (i - lane) = false :=
          Nat.testBit_lt_two_pow (himm.trans_le (Nat.pow_le_pow_right (by decide) (by omega)))
        rw [decide_eq_false hlow, hhigh, Bool.false_and, Bool.false_and, Bool.false_and,
          Bool.and_false, Bool.or_false]

theorem page_ofInt (pc : Int) :
    page (BitVec.ofInt 64 pc) = BitVec.ofInt 64 (pc - pc % 4096) := by
  have hpage : ∀ b : BitVec 64, (page b).toNat = b.toNat / 4096 * 4096 := by
    intro b
    have hlt := b.isLt
    show (b &&& ~~~0xfff#64).toNat = _
    rw [BitVec.toNat_and, show (~~~0xfff#64).toNat = (2 ^ 52 - 1) * 2 ^ 12 from rfl, and_mask,
      field]
    omega
  apply BitVec.eq_of_toNat_eq
  rw [hpage, BitVec.toNat_ofInt, BitVec.toNat_ofInt]
  omega

end A64
