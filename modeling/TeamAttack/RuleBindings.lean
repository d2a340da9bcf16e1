import TeamAttack.Library.A64
import TeamAttack.Library.ExceptRules
import TeamAttack.Library.LittleEndian

/-! # Constant and address tracing (`ExportUiRuleBindings.py`)

    `hash_chain` follows a move of a wide immediate through the moves that
    keep the rest of the register; `address_uses` finds the addresses that one
    or two instructions make.  Both decode words on their own and cross the
    instructions they do not know when `can_cross` allows it. -/

namespace TeamAttack.RuleBindings

open LittleEndian BitFields A64 ExceptRules

/-- The exceptions: `struct.error`, and what `check` raises. -/
inductive PyError where
  | structError
  | check
  deriving DecidableEq

/-- The word at `pos`. -/
def wordAt (raw : List UInt8) (pos : Nat) : Nat := fromLe ((raw.drop pos).take 4)

/-- `struct.unpack_from('<I', raw, pos)[0]`. -/
def unpackFrom (raw : List UInt8) (pos : Nat) : Except PyError Nat :=
  if pos + 4 ≤ raw.length then .ok (wordAt raw pos) else .error .structError

/-! ## The decoders -/

/-- `v & ~0xfff`. -/
def clearOffset (v : Int) : Int := v - v % 0x1000

/-- `address_seed`: register, value and whether it is a page. -/
def addressSeed (word : Nat) (pc : Int) : Option (Nat × Int × Bool) :=
  let op := word &&& 0x9f000000
  if (op ≠ 0x10000000 ∧ op ≠ 0x90000000) ∨ word &&& 31 = 31 then none
  else
    let immediate := (word >>> 5 &&& 0x7ffff) <<< 2 ||| (word >>> 29 &&& 3)
    let immediate : Int :=
      if immediate &&& 0x100000 ≠ 0 then (immediate : Int) - 0x200000 else immediate
    some (word &&& 31,
      if op = 0x90000000 then clearOffset pc + immediate * 2 ^ 12 else pc + immediate,
      op = 0x90000000)

/-- `add_immediate`: register and addend. -/
def addImmediate (word register : Nat) : Option (Nat × Nat) :=
  if word &&& 0xff800000 ≠ 0x91000000 ∨ word >>> 5 &&& 31 ≠ register then none
  else if word &&& 31 = 31 then none
  else some (word &&& 31,
    (word >>> 10 &&& 0xfff) <<< (if word &&& (1 <<< 22) ≠ 0 then 12 else 0))

/-- What `move_wide` returns. -/
structure Move where
  zero : Bool
  register : Nat
  immediate : Nat
  shift : Nat
  width : Nat

def moveWide (word : Nat) : Option Move :=
  let op := word &&& 0x7f800000
  if (op ≠ 0x52800000 ∧ op ≠ 0x72800000) ∨ word &&& 31 = 31 then none
  else
    let width := if word &&& 0x80000000 ≠ 0 then 64 else 32
    let shift := (word >>> 21 &&& 3) * 16
    if shift ≥ width then none
    else some ⟨op = 0x52800000, word &&& 31, word >>> 5 &&& 0xffff, shift, width⟩

/-! ## `hash_chain` -/

/-- A pass over a word that is not the first: the value behind it, or a
    `break`. -/
def chainStep (word : Nat) (crosses : Bool) (register value : Nat) : Option Nat :=
  match moveWide word with
  | some m =>
      if m.register = register then
        if m.zero then none
        else some (andNot (value &&& ((1 <<< m.width) - 1)) (0xffff <<< m.shift)
          ||| m.immediate <<< m.shift)
      else some value
  | none => if crosses then some value else none

/-- The loop of `hash_chain` with `n` passes left. -/
def chainLoop (raw : List UInt8) (start : Nat) (origin : Int) (targets : List Int)
    (canCross : Int → Nat → Bool) (register : Nat) : Nat → Nat → Nat → Option (Nat × Int)
  | 0, _, _ => none
  | n + 1, index, value =>
      let pos := start + 4 * index
      if pos + 4 > raw.length then none
      else
        -- the seed itself is the first value
        let value := if index = 0 then some value
          else chainStep (wordAt raw pos) (canCross (origin + pos) register) register value
        match value with
        | none => none
        | some value =>
            if targets.contains (value : Int) then some (value, origin + pos)
            else chainLoop raw start origin targets canCross register n (index + 1) value

/-- **`hash_chain`**: the constant and the address of the word that completes it. -/
def hashChain (raw : List UInt8) (start : Nat) (origin : Int) (targets : List Int)
    (canCross : Int → Nat → Bool) : Except PyError (Option (Nat × Int)) := do
  let word ← unpackFrom raw start
  match moveWide word with
  | none => return none
  | some move =>
      if !move.zero then return none
      else
        return (chainLoop raw start origin targets canCross move.register 16 0
          (move.immediate <<< move.shift))

/-! ## `address_uses` -/

inductive Kind where
  | adr
  | adrpAdd
  deriving DecidableEq

/-- What `address_uses` yields. -/
structure Use where
  start : Int
  site : Int
  target : Int
  kind : Kind
  deriving DecidableEq

/-- `ADDRESS_PATTERN`. -/
def addressPattern (b : UInt8) : Bool :=
  [0x10, 0x30, 0x50, 0x70, 0x90, 0xb0, 0xd0, 0xf0].contains b

/-- The additions behind a page at `pos`, with `k` words left, from the `n`th on. -/
def addUses (raw : List UInt8) (origin : Int) (targets : List Int)
    (canCross : Int → Nat → Bool) (pos register : Nat) (value : Int) : Nat → Nat → List Use
  | 0, _ => []
  | k + 1, n =>
      let site := pos + n * 4
      if site + 4 > raw.length then []
      else
        let found := match addImmediate (wordAt raw site) register with
          | some (_, imm) =>
              if targets.contains (value + imm) then
                [⟨origin + pos, origin + site, value + imm, .adrpAdd⟩]
              else []
          | none => []
        -- an addition found does not end the search
        found ++ if canCross (origin + site) register then
            addUses raw origin targets canCross pos register value k (n + 1)
          else []

/-- The body of the loop of `address_uses`, at a match of the pattern. -/
def usesAt (raw : List UInt8) (origin length : Int) (targets : List Int)
    (canCross : Int → Nat → Bool) (found : Nat) : Except PyError (List Use) :=
  -- the pattern is the last byte of a word
  if found < 3 ∨ ((found - 3 : Nat) : Int) ≥ length ∨ (origin + (found - 3 : Nat)) % 4 ≠ 0 then
    .ok []
  else do
    let pos := found - 3
    let word ← unpackFrom raw pos
    match addressSeed word (origin + pos) with
    | none => return []
    | some (register, value, page) =>
        if !page then
          return if targets.contains value then [⟨origin + pos, origin + pos, value, .adr⟩] else []
        else if !(targets.map clearOffset).contains value then return []
        else return addUses raw origin targets canCross pos register value 16 1

/-- The loop of `address_uses`: what it yields and what ends it.  `check` may
    raise whenever it is called. -/
def usesLoop (raw : List UInt8) (origin length : Int) (targets : List Int)
    (canCross : Int → Nat → Bool) (check : Nat → Except PyError Unit) :
    Nat → List Nat → List Use × Option PyError
  | _, [] => ([], none)
  | index, found :: rest =>
      match (do
          if index % 8192 = 0 then check index
          usesAt raw origin length targets canCross found) with
      | .error e => ([], some e)
      | .ok uses =>
          let more := usesLoop raw origin length targets canCross check (index + 1) rest
          (uses ++ more.1, more.2)

/-- **`address_uses`.** -/
def addressUses (raw : List UInt8) (origin length : Int) (targets : List Int)
    (canCross : Int → Nat → Bool) (check : Nat → Except PyError Unit) :
    List Use × Option PyError :=
  usesLoop raw origin length targets canCross check 0
    ((List.range raw.length).filter (fun i => addressPattern (raw.getD i 0)))

/-! ## The decoders are the architecture's -/

/-- A decoded move, as an instruction that writes `rd`. -/
structure Decodes (w : Nat) (m : Move) (rd : Fin 31) (wide : Bool) : Prop where
  register : m.register = rd.val
  decode : decode w = some (if m.zero then .movz wide rd.castSucc m.immediate m.shift
    else .movk wide rd.castSucc m.immediate m.shift)
  width : m.width = if wide then 64 else 32
  immediate : m.immediate < 2 ^ 16
  lane : m.shift + 16 ≤ m.width

theorem low_register (w : Nat) : w &&& 31 = field w 0 5 :=
  shift_and_mask w 0 5

/-- A register that is not the thirty-second. -/
theorem register_below {w start : Nat} (h : field w start 5 ≠ 31) :
    ∃ rd : Fin 31, field w start 5 = rd.val ∧ register w start = rd.castSucc := by
  have hlt := field_lt w start 5
  exact ⟨⟨field w start 5, by omega⟩, rfl, rfl⟩

theorem moveWide_decodes {w : Nat} {m : Move} (h : moveWide w = some m) :
    ∃ rd wide, Decodes w m rd wide := by
  have hop (v : Nat) : w &&& 0x7f800000 = v * 2 ^ 23 ↔ field w 23 8 = v := and_mask_eq w 23 8 v
  have hmovz : w &&& 0x7f800000 = 0x52800000 ↔ field w 23 8 = 0b10100101 := hop 0b10100101
  have hmovk : w &&& 0x7f800000 = 0x72800000 ↔ field w 23 8 = 0b11100101 := hop 0b11100101
  have hwidth : (if w &&& 0x80000000 ≠ 0 then 64 else 32) = if isWide w then 64 else 32 := by
    simp only [show w &&& 0x80000000 ≠ 0 ↔ field w 31 1 = 1 from and_bit_ne w 31, isWide,
      decide_eq_true_eq]
  have hlane : w >>> 21 &&& 3 = field w 21 2 := shift_and_mask w 21 2
  have himm : w >>> 5 &&& 0xffff = field w 5 16 := shift_and_mask w 5 16
  unfold moveWide at h
  simp only [hwidth, hlane, himm, low_register, ne_eq, hmovz, hmovk] at h
  have hfits := laneFits_iff w
  have hmultiple : (16 : Nat) ∣ if isWide w then 64 else 32 := by
    cases isWide w <;> decide
  generalize hn : (if isWide w = true then 64 else 32) = n at h hfits hmultiple
  split_ifs at h with hbad hshift
  obtain rfl := Option.some.inj h
  -- what the refusal leaves: one of the two opcodes, and not register 31
  rw [not_or, not_and_or, not_not, not_not] at hbad
  obtain ⟨hkind, hrd⟩ := hbad
  obtain ⟨rd, hval, hreg⟩ := register_below hrd
  have hfit : laneFits w = true := hfits.mpr (by omega)
  refine ⟨rd, isWide w, hval, ?_, hn.symm, field_lt w 5 16, ?_⟩
  · rcases hkind with hz | hk
    · rw [decode_movz hz hfit, hreg, Nat.mul_comm 16]
      exact (congrArg some (if_pos (decide_eq_true hz))).symm
    · have hz : ¬ field w 23 8 = 165 := by omega
      rw [decode_movk hk hfit, hreg, Nat.mul_comm 16]
      exact (congrArg some (if_neg (by rw [decide_eq_false hz]; exact Bool.false_ne_true))).symm
  · show field w 21 2 * 16 + 16 ≤ n
    omega

/-- `op` of an address. -/
theorem address_op (w : Nat) :
    (w &&& 0x9f000000 = 0x90000000 ↔ isWide w = true ∧ field w 24 5 = 0b10000)
      ∧ (w &&& 0x9f000000 = 0x10000000 ↔ isWide w = false ∧ field w 24 5 = 0b10000) := by
  have hclass : w &&& 0x1f000000 = 0x10000000 ↔ field w 24 5 = 0b10000 :=
    and_mask_eq w 24 5 0b10000
  have hone : w &&& 0x80000000 = 0x80000000 ↔ field w 31 1 = 1 := and_mask_eq w 31 1 1
  have hzero : w &&& 0x80000000 = 0 ↔ field w 31 1 = 0 := and_mask_eq w 31 1 0
  have hlt := field_lt w 31 1
  have hparts (v : Nat) (hv : v &&& 0x80000000 = v) (hclear : v &&& 0x1f000000 = 0) :
      w &&& (0x80000000 ||| 0x1f000000) = v ||| 0x10000000
        ↔ w &&& 0x80000000 = v ∧ w &&& 0x1f000000 = 0x10000000 :=
    and_or_eq hv (by decide) hclear (by decide)
  constructor
  · rw [isWide, decide_eq_true_eq, ← hone, ← hclass]
    exact hparts 0x80000000 (by decide) (by decide)
  · rw [isWide, decide_eq_false_iff_not, show ¬ field w 31 1 = 1 ↔ field w 31 1 = 0 by omega,
      ← hzero, ← hclass]
    exact hparts 0 (by decide) (by decide)

/-- The immediate of an address, its sign extended. -/
theorem address_immediate (w : Nat) :
    (if ((w >>> 5 &&& 0x7ffff) <<< 2 ||| (w >>> 29 &&& 3)) &&& 0x100000 ≠ 0
      then (((w >>> 5 &&& 0x7ffff) <<< 2 ||| (w >>> 29 &&& 3) : Nat) : Int) - 0x200000
      else ((w >>> 5 &&& 0x7ffff) <<< 2 ||| (w >>> 29 &&& 3) : Nat)) = addressImmediate w := by
  have hhigh : w >>> 5 &&& 0x7ffff = field w 5 19 := shift_and_mask w 5 19
  have hlow : w >>> 29 &&& 3 = field w 29 2 := shift_and_mask w 29 2
  have hlt := field_lt w 5 19
  have hlt' := field_lt w 29 2
  rw [hhigh, hlow, Nat.shiftLeft_eq, or_field hlt', addressImmediate, signed]
  have hn : field w 5 19 * 2 ^ 2 + field w 29 2 < 2 ^ 21 := by omega
  generalize field w 5 19 * 2 ^ 2 + field w 29 2 = n at hn ⊢
  have hsign : n &&& 0x100000 ≠ 0 ↔ 2 ^ 20 ≤ n := by
    rw [show n &&& 0x100000 ≠ 0 ↔ field n 20 1 = 1 from and_bit_ne n 20, field]
    omega
  by_cases hneg : 2 ^ 20 ≤ n
  · rw [if_pos (hsign.mpr hneg), if_neg (by omega)]
    rfl
  · rw [if_neg (fun h => hneg (hsign.mp h)), if_pos (by omega)]

/-- An address made by `ADR` or `ADRP`. -/
theorem seed_step {ρ : Type} {other : Nat → State ρ → State ρ → Prop} {w r : Nat} {pc v : Int}
    {isPage : Bool} (h : addressSeed w pc = some (r, v, isPage)) :
    ∃ rd : Fin 31, r = rd.val ∧ register w 0 = rd.castSucc ∧ ∀ s s' : State ρ,
      s.pc = BitVec.ofInt 64 pc → Step other w s s' →
        s'.pc = s.pc + 4 ∧ s'.x rd = BitVec.ofInt 64 v := by
  obtain ⟨hadrp, hadr⟩ := address_op w
  unfold addressSeed at h
  simp only [address_immediate] at h
  rw [low_register] at h
  split_ifs at h with hbad hop
  · obtain ⟨rfl, hrest⟩ := Prod.mk.inj (Option.some.inj h)
    obtain ⟨rfl, -⟩ := Prod.mk.inj hrest
    -- `ADRP`
    obtain ⟨hwide, hclass⟩ := hadrp.mp hop
    obtain ⟨rd, hval, hreg⟩ := register_below fun hr => hbad (Or.inr hr)
    have hdecode := decode_adrp hclass hwide
    rw [hreg] at hdecode
    refine ⟨rd, hval, hreg, ?_⟩
    intro s s' hpc hstep
    obtain rfl := (step_of_decode hdecode).mp hstep
    refine ⟨pc_exec _ s, ?_⟩
    rw [Instr.exec, x_next, x_write_self, hpc, page_ofInt, ← BitVec.ofInt_add]
    rfl
  · obtain ⟨rfl, hrest⟩ := Prod.mk.inj (Option.some.inj h)
    obtain ⟨rfl, -⟩ := Prod.mk.inj hrest
    obtain ⟨rd, hval, hreg⟩ := register_below fun hr => hbad (Or.inr hr)
    -- `ADR`, the only other opcode let through
    have hop' : w &&& 0x9f000000 = 0x10000000 := by
      by_contra hno
      exact hbad (Or.inl ⟨hno, hop⟩)
    obtain ⟨hwide, hclass⟩ := hadr.mp hop'
    have hdecode := decode_adr hclass hwide
    rw [hreg] at hdecode
    refine ⟨rd, hval, hreg, ?_⟩
    intro s s' hpc hstep
    obtain rfl := (step_of_decode hdecode).mp hstep
    refine ⟨pc_exec _ s, ?_⟩
    rw [Instr.exec, x_next, x_write_self, hpc, BitVec.ofInt_add]

/-- An addition of an immediate to the register `rn`. -/
theorem add_step {ρ : Type} {other : Nat → State ρ → State ρ → Prop} {w d imm : Nat}
    {rn : Fin 31} (h : addImmediate w rn.val = some (d, imm)) :
    ∃ rd : Fin 31, d = rd.val ∧ register w 0 = rd.castSucc ∧ ∀ s s' : State ρ,
      Step other w s s' → s'.pc = s.pc + 4 ∧ s'.x rd = s.x rn + BitVec.ofNat 64 imm := by
  have hop : w &&& 0xff800000 = 0x91000000 ↔ field w 23 9 = 0b100100010 :=
    and_mask_eq w 23 9 0b100100010
  have hrn : w >>> 5 &&& 31 = field w 5 5 := shift_and_mask w 5 5
  have himm : w >>> 10 &&& 0xfff = field w 10 12 := shift_and_mask w 10 12
  have hshift : w &&& 1 <<< 22 ≠ 0 ↔ field w 22 1 = 1 := and_bit_ne w 22
  have hbit := field_lt w 22 1
  -- bit 22 shifts the immediate by twelve
  have hvalue : (w >>> 10 &&& 0xfff) <<< (if w &&& 1 <<< 22 ≠ 0 then 12 else 0) = addend w := by
    rw [himm, Nat.shiftLeft_eq, addend]
    by_cases hone : field w 22 1 = 1
    · rw [if_pos (hshift.mpr hone), hone]
    · rw [if_neg (fun h => hone (hshift.mp h)), show field w 22 1 = 0 by omega]
  unfold addImmediate at h
  rw [hrn, low_register, hvalue] at h
  split_ifs at h with hbad hrd
  obtain ⟨rfl, rfl⟩ := Prod.mk.inj (Option.some.inj h)
  rw [not_or, not_not, not_not] at hbad
  obtain ⟨hcode, hsource⟩ := hbad
  rw [hop] at hcode
  have hop8 : field w 23 8 = 0b00100010 := by
    unfold field at hcode ⊢
    omega
  have hwide : isWide w = true := by
    refine decide_eq_true ?_
    unfold field at hcode ⊢
    omega
  have hsourceReg : register w 5 = rn.castSucc := Fin.ext hsource
  obtain ⟨rd, hval, hreg⟩ := register_below hrd
  have hdecode := decode_addImmediate hop8
  rw [hreg, hsourceReg, hwide] at hdecode
  refine ⟨rd, hval, hreg, ?_⟩
  intro s s' hstep
  obtain rfl := (step_of_decode hdecode).mp hstep
  refine ⟨pc_exec _ s, ?_⟩
  rw [Instr.exec, x_next, x_writeStack_self, readStack_castSucc]
  rfl

/-- The constant of a move fits its width. -/
theorem move_lt {w : Nat} {m : Move} {rd : Fin 31} {wide : Bool} (h : Decodes w m rd wide) :
    m.immediate <<< m.shift < 2 ^ m.width := by
  rw [Nat.shiftLeft_eq]
  calc m.immediate * 2 ^ m.shift
      < 2 ^ 16 * 2 ^ m.shift := Nat.mul_lt_mul_of_pos_right h.immediate (Nat.two_pow_pos _)
    _ = 2 ^ (m.shift + 16) := by rw [← pow_add, Nat.add_comm]
    _ ≤ 2 ^ m.width := Nat.pow_le_pow_right (by decide) h.lane

/-- A move of a wide immediate writes its register and no other. -/
theorem move_step {ρ : Type} {other : Nat → State ρ → State ρ → Prop} {w : Nat} {m : Move}
    {rd : Fin 31} {wide : Bool} (h : Decodes w m rd wide) {s s' : State ρ}
    (hstep : Step other w s s') :
    s'.pc = s.pc + 4
      ∧ (m.zero = true → s'.x rd = BitVec.ofNat 64 (m.immediate <<< m.shift))
      ∧ (m.zero = false → ∀ v, s.x rd = BitVec.ofNat 64 v →
        s'.x rd = BitVec.ofNat 64 (replaceLane v m.width m.shift m.immediate))
      ∧ ∀ r, r ≠ rd → s'.x r = s.x r := by
  have hdecode := h.decode
  have hlane := h.lane
  have hwidth := h.width
  obtain rfl := (step_of_decode hdecode).mp hstep
  refine ⟨pc_exec _ s, ?_, ?_, ?_⟩
  · intro hz
    rw [if_pos hz, Instr.exec, x_next, x_write_self, ofNat_shiftLeft]
    -- `MOVZ` on a `W` register: the constant has 32 bits
    apply sized_ofNat
    rintro rfl
    have hlt := move_lt h
    rw [hwidth] at hlt
    exact hlt
  · intro hz v hv
    rw [if_neg (by rw [hz]; exact Bool.false_ne_true), Instr.exec, x_next, x_write_self,
      readZero_castSucc, hv]
    exact insertLane_ofNat h.immediate hwidth hlane
  · intro r hr
    have hne : r.val ≠ rd.castSucc.val := fun heq => hr (Fin.ext heq)
    cases hz : m.zero
    · rw [if_neg Bool.false_ne_true, Instr.exec, x_next, x_write_other hne]
    · rw [if_pos rfl, Instr.exec, x_next, x_write_other hne]

/-! ## Running the words -/

section Tracing

variable {ρ : Type} (other : Nat → State ρ → State ρ → Prop) (raw : List UInt8) (origin : Int)

/-- The program counter at a position of the code. -/
def pcAt (pos : Nat) : BitVec 64 := BitVec.ofInt 64 (origin + pos)

/-- The words of `n` instructions. -/
def words (start n : Nat) : List Nat := (List.range n).map fun k => wordAt raw (start + 4 * k)

/-- What `can_cross` promises of an instruction: it falls through and does not
    write the register. -/
def CrossesSafely (canCross : Int → Nat → Bool) : Prop :=
  ∀ (pos : Nat) (r : Fin 31) (s s' : State ρ), pos + 4 ≤ raw.length →
    canCross (origin + pos) r = true → s.pc = pcAt origin pos →
      Step other (wordAt raw pos) s s' → s'.pc = s.pc + 4 ∧ s'.x r = s.x r

/-- `n` words executed in order from `start` fall through one after the other
    and leave a value in a register. -/
structure Leaves (start n : Nat) (r : Fin 31) (v : BitVec 64) : Prop where
  inside : start + 4 * n ≤ raw.length
  inOrder : ∀ k ≤ n, ∀ s s', s.pc = pcAt origin start →
    Runs other (words raw start k) s s' → s'.pc = pcAt origin (start + 4 * k)
  value : ∀ s s', s.pc = pcAt origin start → Runs other (words raw start n) s s' → s'.x r = v

variable {other raw origin}

theorem pcAt_add_four (pos : Nat) : pcAt origin pos + 4 = pcAt origin (pos + 4) := by
  show BitVec.ofInt 64 (origin + pos) + BitVec.ofInt 64 4 = _
  rw [← BitVec.ofInt_add, Int.add_assoc]
  rfl

theorem words_succ (start n : Nat) :
    words raw start (n + 1) = words raw start n ++ [wordAt raw (start + 4 * n)] := by
  rw [words, List.range_succ, List.map_append]
  rfl

theorem Leaves.first {start : Nat} {r : Fin 31} {v : BitVec 64} (hinside : start + 4 ≤ raw.length)
    (hstep : ∀ s s', s.pc = pcAt origin start → Step other (wordAt raw start) s s' →
      s'.pc = s.pc + 4 ∧ s'.x r = v) : Leaves other raw origin start 1 r v := by
  have hone : ∀ s s', Runs other (words raw start 1) s s' → Step other (wordAt raw start) s s' := by
    intro s s' h
    exact runs_singleton.mp h
  refine ⟨hinside, ?_, ?_⟩
  · intro k hk s s' hpc hruns
    rcases Nat.le_one_iff_eq_zero_or_eq_one.mp hk with rfl | rfl
    · obtain ⟨⟩ := hruns
      exact hpc
    · rw [(hstep s s' hpc (hone s s' hruns)).1, hpc, pcAt_add_four]
  · intro s s' hpc hruns
    exact (hstep s s' hpc (hone s s' hruns)).2

/-- One more word. -/
theorem Leaves.next {start n : Nat} {r r' : Fin 31} {v v' : BitVec 64}
    (h : Leaves other raw origin start n r v) (hinside : start + 4 * n + 4 ≤ raw.length)
    (hstep : ∀ s s', s.pc = pcAt origin (start + 4 * n) → s.x r = v →
      Step other (wordAt raw (start + 4 * n)) s s' → s'.pc = s.pc + 4 ∧ s'.x r' = v') :
    Leaves other raw origin start (n + 1) r' v' := by
  have hlast : ∀ s s', s.pc = pcAt origin start → Runs other (words raw start (n + 1)) s s' →
      s'.pc = pcAt origin (start + 4 * (n + 1)) ∧ s'.x r' = v' := by
    intro s s' hpc hruns
    rw [words_succ, runs_append] at hruns
    obtain ⟨m, hm, hw⟩ := hruns
    have hmpc := h.inOrder n le_rfl s m hpc hm
    obtain ⟨hpc', hx⟩ := hstep m s' hmpc (h.value s m hpc hm) (runs_singleton.mp hw)
    rw [hpc', hmpc, pcAt_add_four]
    exact ⟨rfl, hx⟩
  refine ⟨hinside, ?_, fun s s' hpc hruns => (hlast s s' hpc hruns).2⟩
  intro k hk s s' hpc hruns
  rcases Nat.lt_or_eq_of_le hk with hlt | rfl
  · exact h.inOrder k (Nat.le_of_lt_succ hlt) s s' hpc hruns
  · exact (hlast s s' hpc hruns).1

/-! ## `hash_chain` -/

variable {canCross : Int → Nat → Bool}

/-- A pass of `hash_chain` computes what its word leaves in the register. -/
theorem chainStep_leaves (hsafe : CrossesSafely other raw origin canCross) {start n value v : Nat}
    {r : Fin 31} (h : Leaves other raw origin start n r (BitVec.ofNat 64 value))
    (hlt : value < 2 ^ 64) (hinside : start + 4 * n + 4 ≤ raw.length)
    (hv : chainStep (wordAt raw (start + 4 * n)) (canCross (origin + (start + 4 * n : Nat)) r.val)
      r.val value = some v) :
    Leaves other raw origin start (n + 1) r (BitVec.ofNat 64 v) ∧ v < 2 ^ 64 := by
  unfold chainStep at hv
  split at hv
  · rename_i m hm
    obtain ⟨rd, wide, hdecodes⟩ := moveWide_decodes hm
    by_cases hsame : m.register = r.val
    · obtain rfl : rd = r := Fin.ext (hdecodes.register.symm.trans hsame)
      rw [if_pos hsame] at hv
      cases hz : m.zero with
      | true =>
          rw [if_pos hz] at hv
          cases hv
      | false =>
          rw [if_neg (by rw [hz]; exact Bool.false_ne_true), Nat.one_shiftLeft,
            Nat.and_two_pow_sub_one_eq_mod] at hv
          obtain rfl := Option.some.inj hv
          constructor
          · apply h.next hinside
            intro s s' _ hx hstep
            obtain ⟨hpc, -, hkeep, -⟩ := move_step hdecodes hstep
            exact ⟨hpc, hkeep hz value hx⟩
          · refine (replaceLane_lt hdecodes.immediate hdecodes.lane).trans_le ?_
            rw [hdecodes.width]
            cases wide <;> decide
    · rw [if_neg hsame] at hv
      obtain rfl := Option.some.inj hv
      refine ⟨h.next hinside ?_, hlt⟩
      intro s s' _ hx hstep
      obtain ⟨hpc, -, -, hother⟩ := move_step hdecodes hstep
      have hne : r ≠ rd := by
        rintro rfl
        exact hsame hdecodes.register
      exact ⟨hpc, (hother r hne).trans hx⟩
  · -- an instruction that is no such move is crossed on the word of `can_cross`
    split at hv
    · rename_i hcross
      obtain rfl := Option.some.inj hv
      refine ⟨h.next hinside ?_, hlt⟩
      intro s s' hpc hx hstep
      obtain ⟨hpc', hkeep⟩ := hsafe _ r s s' hinside hcross hpc hstep
      exact ⟨hpc', hkeep.trans hx⟩
    · cases hv

/-- What the loop returns is in the targets and left by the words up to its site. -/
theorem chainLoop_leaves (hsafe : CrossesSafely other raw origin canCross) {targets : List Int}
    {start : Nat} {r : Fin 31} {passes index value v : Nat} {site : Int} (hindex : index ≠ 0)
    (h : Leaves other raw origin start index r (BitVec.ofNat 64 value)) (hlt : value < 2 ^ 64)
    (hv : chainLoop raw start origin targets canCross r.val passes index value = some (v, site)) :
    (v : Int) ∈ targets ∧ v < 2 ^ 64 ∧ ∃ n, site = origin + (start + 4 * n : Nat)
      ∧ Leaves other raw origin start (n + 1) r (BitVec.ofNat 64 v) := by
  induction passes generalizing index value with
  | zero => cases hv
  | succ passes ih =>
      rw [chainLoop] at hv
      simp only [if_neg hindex] at hv
      split at hv
      · cases hv
      rename_i hinside
      split at hv
      · cases hv
      rename_i next hnext
      -- one more word of the chain
      obtain ⟨hleaves, hnextlt⟩ :=
        chainStep_leaves hsafe h hlt (Nat.le_of_not_lt hinside) hnext
      split at hv
      · rename_i hmem
        obtain ⟨rfl, rfl⟩ := Prod.mk.inj (Option.some.inj hv)
        exact ⟨List.contains_iff_mem.mp hmem, hnextlt, index, rfl, hleaves⟩
      · exact ih (Nat.succ_ne_zero index) hleaves hnextlt hv

theorem unpackFrom_eq_ok {pos w : Nat} :
    unpackFrom raw pos = .ok w ↔ pos + 4 ≤ raw.length ∧ w = wordAt raw pos := by
  unfold unpackFrom
  split
  · rename_i h
    exact ⟨fun hw => ⟨h, (Except.ok.inj hw).symm⟩, fun hw => congrArg Except.ok hw.2.symm⟩
  · rename_i h
    exact ⟨nofun, fun hw => absurd hw.1 h⟩

/-- `hash_chain` is sound. -/
theorem hashChain_leaves (hsafe : CrossesSafely other raw origin canCross) {targets : List Int}
    {start v : Nat} {site : Int}
    (hv : hashChain raw start origin targets canCross = .ok (some (v, site))) :
    (v : Int) ∈ targets ∧ v < 2 ^ 64 ∧ ∃ (n : Nat) (r : Fin 31),
      site = origin + (start + 4 * n : Nat)
      ∧ (∃ wide imm lane, decode (wordAt raw start) = some (.movz wide r.castSucc imm lane))
      ∧ Leaves other raw origin start (n + 1) r (BitVec.ofNat 64 v) := by
  unfold hashChain at hv
  rw [bind_eq_ok] at hv
  obtain ⟨w, hw, hrest⟩ := hv
  obtain ⟨hinside, rfl⟩ := unpackFrom_eq_ok.mp hw
  split at hrest
  · cases hrest
  rename_i m hm
  obtain ⟨rd, wide, hdecodes⟩ := moveWide_decodes hm
  have hdecode := hdecodes.decode
  cases hz : m.zero with
  | false =>
      rw [hz] at hrest
      cases hrest
  | true =>
      rw [if_pos hz] at hdecode
      rw [hz, hdecodes.register] at hrest
      have hloop := Except.ok.inj hrest
      -- the chain starts with a `MOVZ`
      have hfirst : Leaves other raw origin start 1 rd
          (BitVec.ofNat 64 (m.immediate <<< m.shift)) := by
        apply Leaves.first hinside
        intro s s' _ hstep
        obtain ⟨hpc, hzero, -, -⟩ := move_step hdecodes hstep
        exact ⟨hpc, hzero hz⟩
      have hlt : m.immediate <<< m.shift < 2 ^ 64 := by
        refine (move_lt hdecodes).trans_le ?_
        rw [hdecodes.width]
        cases wide <;> decide
      rw [chainLoop] at hloop
      simp only [if_true] at hloop
      split at hloop
      · cases hloop
      split at hloop
      · rename_i hmem
        obtain ⟨rfl, rfl⟩ := Prod.mk.inj (Option.some.inj hloop)
        exact ⟨List.contains_iff_mem.mp hmem, hlt, 0, rd, rfl, ⟨wide, _, _, hdecode⟩, hfirst⟩
      · obtain ⟨hmem, hvlt, n, hsite, hleaves⟩ :=
          chainLoop_leaves hsafe Nat.one_ne_zero hfirst hlt hloop
        exact ⟨hmem, hvlt, n, rd, hsite, ⟨wide, _, _, hdecode⟩, hleaves⟩

/-! ## `address_uses` -/

/-- What a use claims about the code. -/
def UseHolds (other : Nat → State ρ → State ρ → Prop) (raw : List UInt8) (origin : Int)
    (targets : List Int) (use : Use) : Prop :=
  use.target ∈ targets ∧ ∃ (start n : Nat) (r : Fin 31), use.start = origin + start
    ∧ use.site = origin + (start + 4 * n : Nat)
    ∧ register (wordAt raw (start + 4 * n)) 0 = r.castSucc
    ∧ Leaves other raw origin start (n + 1) r (BitVec.ofInt 64 use.target)

/-- The additions behind a page: the words before each of them kept the page. -/
theorem addUses_hold (hsafe : CrossesSafely other raw origin canCross) {targets : List Int}
    {pos : Nat} {rn : Fin 31} {value : Int} {k n : Nat}
    (h : Leaves other raw origin pos n rn (BitVec.ofInt 64 value)) :
    ∀ use ∈ addUses raw origin targets canCross pos rn.val value k n,
      UseHolds other raw origin targets use := by
  induction k generalizing n with
  | zero =>
      intro use huse
      cases huse
  | succ k ih =>
      intro use huse
      rw [addUses, Nat.mul_comm n 4] at huse
      simp only at huse
      split at huse
      · cases huse
      rename_i hinside
      have hroom := Nat.le_of_not_lt hinside
      -- an addition here, or one behind a word that was crossed
      rcases List.mem_append.mp huse with hfound | hmore
      · split at hfound
        · rename_i d imm hadd
          obtain ⟨rd, -, hreg, hstep⟩ := add_step hadd
          split at hfound
          · rename_i hmem
            obtain rfl := List.mem_singleton.mp hfound
            refine ⟨List.contains_iff_mem.mp hmem, pos, n, rd, rfl, rfl, hreg, ?_⟩
            apply h.next hroom
            intro s s' _ hx hrun
            obtain ⟨hpc, hsum⟩ := hstep s s' hrun
            refine ⟨hpc, ?_⟩
            rw [hsum, hx, BitVec.ofInt_add]
            rfl
          · cases hfound
        · cases hfound
      · split at hmore
        · rename_i hcross
          refine ih (h.next hroom ?_) use hmore
          intro s s' hpc hx hrun
          obtain ⟨hpc', hkeep⟩ := hsafe _ rn s s' hroom hcross hpc hrun
          exact ⟨hpc', hkeep.trans hx⟩
        · cases hmore

theorem usesAt_hold (hsafe : CrossesSafely other raw origin canCross) {length : Int}
    {targets : List Int} {found : Nat} {uses : List Use}
    (hok : usesAt raw origin length targets canCross found = .ok uses) :
    ∀ use ∈ uses, UseHolds other raw origin targets use := by
  intro use huse
  unfold usesAt at hok
  split at hok
  · obtain rfl := Except.ok.inj hok
    cases huse
  simp only [bind_eq_ok] at hok
  obtain ⟨w, hw, hrest⟩ := hok
  obtain ⟨hinside, rfl⟩ := unpackFrom_eq_ok.mp hw
  split at hrest
  · obtain rfl := Except.ok.inj hrest
    cases huse
  rename_i r value isPage hseed
  obtain ⟨rd, rfl, hreg, hstep⟩ := seed_step hseed
  -- the seed is the first word of the trace
  have hfirst : Leaves other raw origin _ 1 rd _ := Leaves.first hinside hstep
  split at hrest
  · obtain rfl := Except.ok.inj hrest
    split at huse
    · rename_i hmem
      obtain rfl := List.mem_singleton.mp huse
      exact ⟨List.contains_iff_mem.mp hmem, found - 3, 0, rd, rfl, rfl, hreg, hfirst⟩
    · cases huse
  split at hrest
  · obtain rfl := Except.ok.inj hrest
    cases huse
  · obtain rfl := Except.ok.inj hrest
    exact addUses_hold hsafe hfirst use huse

/-- `address_uses` is sound, up to where it is stopped. -/
theorem addressUses_hold (hsafe : CrossesSafely other raw origin canCross) {length : Int}
    {targets : List Int} {check : Nat → Except PyError Unit} {use : Use}
    (huse : use ∈ (addressUses raw origin length targets canCross check).1) :
    UseHolds other raw origin targets use := by
  unfold addressUses at huse
  generalize 0 = index at huse
  generalize (List.range raw.length).filter _ = matches' at huse
  induction matches' generalizing index with
  | nil => cases huse
  | cons found rest ih =>
      rw [usesLoop] at huse
      split at huse
      · cases huse
      rename_i uses hbody
      -- the check of every 8192nd match only decides whether to go on
      have hok : usesAt raw origin length targets canCross found = .ok uses := by
        split at hbody
        · rw [bind_eq_ok] at hbody
          obtain ⟨_, _, hok⟩ := hbody
          exact hok
        · exact hbody
      rcases List.mem_append.mp huse with hhere | hmore
      · exact usesAt_hold hsafe hok use hhere
      · exact ih (index + 1) hmore

end Tracing

/-- **Tracing is sound.**  When `can_cross` keeps its promise, the constant
    that `hash_chain` returns and the address that `address_uses` yields are
    targets, and executing the words from the start to the site in order
    leaves them in the register: modulo 2^64 for an address, so exactly for
    every target that is a 64-bit address. -/
theorem tracing_sound {ρ : Type} {other : Nat → State ρ → State ρ → Prop} {raw : List UInt8}
    {origin : Int} {canCross : Int → Nat → Bool}
    (hsafe : CrossesSafely other raw origin canCross) :
    (∀ (start : Nat) (targets : List Int) (v : Nat) (site : Int),
      hashChain raw start origin targets canCross = .ok (some (v, site)) →
        (v : Int) ∈ targets ∧ (BitVec.ofNat 64 v).toNat = v ∧ ∃ (n : Nat) (r : Fin 31),
          site = origin + (start + 4 * n : Nat)
          ∧ (∃ wide imm lane, decode (wordAt raw start) = some (.movz wide r.castSucc imm lane))
          ∧ Leaves other raw origin start (n + 1) r (BitVec.ofNat 64 v))
    ∧ ∀ (length : Int) (targets : List Int) (check : Nat → Except PyError Unit) (use : Use),
      use ∈ (addressUses raw origin length targets canCross check).1 →
        (use.target ∈ targets ∧ ∃ (start n : Nat) (r : Fin 31), use.start = origin + start
          ∧ use.site = origin + (start + 4 * n : Nat)
          ∧ register (wordAt raw (start + 4 * n)) 0 = r.castSucc
          ∧ Leaves other raw origin start (n + 1) r (BitVec.ofInt 64 use.target))
        ∧ (0 ≤ use.target → use.target < 2 ^ 64 →
          ((BitVec.ofInt 64 use.target).toNat : Int) = use.target) := by
  constructor
  · intro start targets v site hv
    obtain ⟨hmem, hlt, hleaves⟩ := hashChain_leaves hsafe hv
    exact ⟨hmem, Nat.mod_eq_of_lt hlt, hleaves⟩
  · intro length targets check use huse
    refine ⟨addressUses_hold hsafe huse, ?_⟩
    intro hlow hhigh
    rw [BitVec.toNat_ofInt]
    omega

/-- `MOVZ`, `NOP`, `MOVK`, then `ADRP` and `ADD`. -/
def tracedCode : List UInt8 :=
  [0x80, 0x46, 0x82, 0xd2, 0x1f, 0x20, 0x03, 0xd5, 0x00, 0xcf, 0xaa, 0xf2,
    0x01, 0x00, 0x00, 0xb0, 0x21, 0x80, 0x00, 0x91]

/-- The `NOP` is crossed. -/
theorem tracing_sound_code :
    (0x56781234 ∈ [(0x56781234 : Int)] ∧ ∃ (n : Nat) (r : Fin 31),
      (0x7100000008 : Int) = 0x7100000000 + (0 + 4 * n : Nat)
      ∧ Leaves (fun _ (s s' : State Unit) => s' = s.next) tracedCode 0x7100000000 0 (n + 1) r
        (BitVec.ofNat 64 0x56781234))
    ∧ ∃ (start n : Nat) (r : Fin 31), (0x710000000c : Int) = 0x7100000000 + start
      ∧ Leaves (fun _ (s s' : State Unit) => s' = s.next) tracedCode 0x7100000000 start (n + 1) r
        (BitVec.ofInt 64 0x7100001020) := by
  have hsafe : CrossesSafely (fun _ (s s' : State Unit) => s' = s.next) tracedCode 0x7100000000
      (fun a _ => a = 0x7100000004) := by
    intro pos r s s' _ hcross _ hstep
    obtain rfl : pos = 4 := by
      have := of_decide_eq_true hcross
      omega
    obtain rfl : s' = s.next := hstep
    exact ⟨rfl, rfl⟩
  obtain ⟨hchain, huses⟩ := tracing_sound hsafe
  obtain ⟨hmem, -, n, r, hsite, -, hleaves⟩ :=
    hchain 0 [0x56781234] 0x56781234 0x7100000008 (by decide)
  obtain ⟨⟨-, start, n', r', hstart, -, -, hleaves'⟩, -⟩ :=
    huses 20 [0x7100001020] (fun _ => .ok ())
      ⟨0x710000000c, 0x7100000010, 0x7100001020, .adrpAdd⟩ (by decide)
  exact ⟨⟨hmem, n, r, hsite, hleaves⟩, start, n', r', hstart, hleaves'⟩

end TeamAttack.RuleBindings
