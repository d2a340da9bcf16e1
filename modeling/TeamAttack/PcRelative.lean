import TeamAttack.Library.BitFields
import TeamAttack.Validation
import TeamAttack.Watch

/-! # PC-relative decoding (`validation.rs`, `watch.rs`)

    `bl_target` and `adrp_page` extend a sign by shifting a `u32` up, through
    `i32` and down again, by counts that scale the immediate on the way.  Both
    compute the architecture's target, at every displacement and with no
    overflow, and give `none` exactly where the word is another instruction or
    the target lies below zero. -/

namespace TeamAttack

open BitFields Watch

/-! ## The two instructions -/

/-- `BL`: the top six bits are 100101. -/
def IsBl (w : UInt32) : Prop := field w.toNat 26 6 = 0b100101

/-- The word displacement of a `BL`. -/
def blImmediate (w : UInt32) : Int := signed 26 (field w.toNat 0 26)

/-- `ADRP` into a register. -/
def IsAdrp (w register : UInt32) : Prop :=
  field w.toNat 31 1 = 1 ∧ field w.toNat 24 5 = 0b10000 ∧ field w.toNat 0 5 = register.toNat

/-- The page displacement of an `ADRP`, `immhi:immlo`. -/
def adrpImmediate (w : UInt32) : Int :=
  signed 21 (field w.toNat 5 19 * 2 ^ 2 + field w.toNat 29 2)

/-! ## `bl_target` -/

theorem bl_mask (w : UInt32) : w &&& 0xfc000000 = 0x94000000 ↔ IsBl w := by
  rw [← UInt32.toNat_inj, UInt32.toNat_and]
  exact and_mask_eq w.toNat 26 6 0b100101

/-- A shift up, through `i32` and down again. -/
theorem toInt_shifted (x : UInt32) (up down : Nat) {u : UInt32} {d : Int32}
    (hu : u.toNat % 32 = up) (hd : (d.toBitVec.smod 32).toNat = down) :
    ((x <<< u).toInt32 >>> d).toInt
      = Int.bmod ((x.toNat * 2 ^ up : Nat) : Int) (2 ^ 32) / 2 ^ down := by
  have hleft : (x <<< u).toInt32.toInt = Int.bmod ((x.toNat * 2 ^ up : Nat) : Int) (2 ^ 32) := by
    show (x <<< u).toBitVec.toInt = _
    rw [BitVec.toInt_eq_toNat_bmod]
    show Int.bmod ((x <<< u).toNat : Int) (2 ^ 32) = _
    rw [UInt32.toNat_shiftLeft, hu, Nat.shiftLeft_eq]
    rw [Int.natCast_emod, Int.emod_bmod]
  show ((x <<< u).toInt32 >>> d).toBitVec.toInt = _
  rw [Int32.toBitVec_shiftRight, BitVec.sshiftRight', BitVec.toInt_sshiftRight, hd]
  show (x <<< u).toInt32.toInt >>> down = _
  rw [hleft, Int.shiftRight_eq_div_pow]
  push_cast
  rfl

/-- `bl_target`'s displacement is exact. -/
theorem bl_displacement (w : UInt32) :
    (((w &&& 0x03ffffff) <<< 6).toInt32 >>> 4).toInt = 4 * blImmediate w := by
  have hlow : (w &&& 0x03ffffff).toNat = field w.toNat 0 26 := by
    rw [UInt32.toNat_and]
    show w.toNat &&& (2 ^ 26 - 1) * 2 ^ 0 = _
    rw [and_mask, Nat.pow_zero, Nat.mul_one]
  have hlt := field_lt w.toNat 0 26
  rw [toInt_shifted (w &&& 0x03ffffff) 6 4 rfl rfl, hlow, blImmediate, signed,
    Int.bmod_def]
  split_ifs
  · omega
  · omega
  · omega
  · omega

/-- `bl_target`, at every offset: both ends must be `i64` offsets. -/
theorem blTarget_iff {pc : UInt64} {w : UInt32} {t : UInt64} :
    blTarget pc w = some t ↔ IsBl w ∧ pc.toNat < 2 ^ 63 ∧ t.toNat < 2 ^ 63
      ∧ (t.toNat : Int) = pc.toNat + 4 * blImmediate w := by
  unfold blTarget
  rw [bl_displacement]
  -- first the opcode, then the two ends of the `i64` range
  by_cases hbl : IsBl w
  · have hmask : ¬ w &&& 0xfc000000 ≠ 0x94000000 := not_not.mpr ((bl_mask w).mpr hbl)
    rw [if_neg hmask]
    dsimp only
    -- from here on the displacement is any integer
    generalize blImmediate w = s
    constructor
    · intro h
      split_ifs at h with hrange
      obtain rfl := Option.some.inj h
      obtain ⟨hpc, hhigh, hlow⟩ := hrange
      rw [UInt64.toNat_ofNat_of_lt' (by show _ < 2 ^ 64; omega), Int.toNat_of_nonneg hlow]
      exact ⟨hbl, hpc, by omega, rfl⟩
    · rintro ⟨_, hpc, ht, heq⟩
      rw [← heq, if_pos ⟨hpc, by omega, by omega⟩, Int.toNat_natCast, UInt64.ofNat_toNat]
  · rw [if_pos (fun h => hbl ((bl_mask w).mp h))]
    constructor
    · intro h
      cases h
    · rintro ⟨h, _⟩
      exact absurd h hbl

/-- **`bl_target` is exact.** -/
theorem blTarget_eq_some {pc : UInt64} (hpc : pc.toNat < 2 ^ 62) {w : UInt32} {t : UInt64} :
    blTarget pc w = some t ↔ IsBl w ∧ (t.toNat : Int) = pc.toNat + 4 * blImmediate w := by
  have hbounds := signed_bounds (field_lt w.toNat 0 26)
  rw [blTarget_iff]
  constructor
  · rintro ⟨hbl, _, _, heq⟩
    exact ⟨hbl, heq⟩
  · rintro ⟨hbl, heq⟩
    refine ⟨hbl, by omega, ?_, heq⟩
    unfold blImmediate at heq
    omega

/-! ## `adrp_page` -/

/-- `displacement` of `adrp_page`. -/
def adrpDisplacement (w : UInt32) : Int64 :=
  ((((((w >>> 5) &&& 0x7ffff) <<< 2) ||| ((w >>> 29) &&& 3)) <<< 11).toInt32 >>> 11).toInt64 * 4096

/-- `(pc & !0xfff) as i64`. -/
def pageBase (pc : UInt64) : Int64 := (pc &&& ~~~0xfff).toInt64

theorem adrpPage_eq (pc : UInt64) (w register : UInt32) :
    adrpPage pc w register =
      if w &&& 0x9f00001f ≠ 0x90000000 ||| register then none
      else if 0 ≤ pageBase pc + adrpDisplacement w then
        some (pageBase pc + adrpDisplacement w).toUInt64
      else none := rfl

theorem adrp_mask {w register : UInt32} (hreg : register.toNat < 32) :
    w &&& 0x9f00001f = 0x90000000 ||| register ↔ IsAdrp w register := by
  have hop := and_mask_eq w.toNat 31 1 1
  have hclass := and_mask_eq w.toNat 24 5 0b10000
  have hrd := and_mask_eq w.toNat 0 5 register.toNat
  have hlow : register.toNat &&& 0x1f = register.toNat := by
    show register.toNat &&& 2 ^ 5 - 1 = _
    rw [Nat.and_two_pow_sub_one_eq_mod, Nat.mod_eq_of_lt hreg]
  have hhigh : register.toNat &&& (0x80000000 ||| 0x1f000000) = 0 := by
    rw [← hlow, Nat.and_assoc]
    exact Nat.and_zero _
  rw [← UInt32.toNat_inj, UInt32.toNat_and, UInt32.toNat_or, IsAdrp, ← hop, ← hclass, ← hrd]
  show w.toNat &&& (0x80000000 ||| 0x1f000000 ||| 0x1f)
    = 0x80000000 ||| 0x10000000 ||| register.toNat ↔ _
  rw [and_or_eq (by decide) hlow (by decide) hhigh,
    and_or_eq (by decide) (by decide) (by decide) (by decide), and_assoc, Nat.pow_zero,
    Nat.mul_one, Nat.mul_one]
  exact Iff.rfl

theorem toInt_add_exact {a b : Int64} (hlow : -2 ^ 63 ≤ a.toInt + b.toInt)
    (hhigh : a.toInt + b.toInt < 2 ^ 63) : (a + b).toInt = a.toInt + b.toInt := by
  rw [Int64.toInt_add]
  exact Int.bmod_eq_of_le_mul_two (by omega) (by omega)

theorem toInt_mul_exact {a b : Int64} (hlow : -2 ^ 63 ≤ a.toInt * b.toInt)
    (hhigh : a.toInt * b.toInt < 2 ^ 63) : (a * b).toInt = a.toInt * b.toInt := by
  rw [Int64.toInt_mul]
  exact Int.bmod_eq_of_le_mul_two (by omega) (by omega)

/-- `immediate` of `adrp_page`. -/
theorem adrp_immediate (w : UInt32) :
    ((((w >>> 5) &&& 0x7ffff) <<< 2) ||| ((w >>> 29) &&& 3)).toNat
      = field w.toNat 5 19 * 2 ^ 2 + field w.toNat 29 2 := by
  have hhi : ((w >>> 5) &&& 0x7ffff).toNat = field w.toNat 5 19 := by
    rw [UInt32.toNat_and, UInt32.toNat_shiftRight, Nat.shiftRight_eq_div_pow]
    exact Nat.and_two_pow_sub_one_eq_mod (w.toNat / 2 ^ 5) 19
  have hlo : ((w >>> 29) &&& 3).toNat = field w.toNat 29 2 := by
    rw [UInt32.toNat_and, UInt32.toNat_shiftRight, Nat.shiftRight_eq_div_pow]
    exact Nat.and_two_pow_sub_one_eq_mod (w.toNat / 2 ^ 29) 2
  have hlt := field_lt w.toNat 5 19
  have hup : (((w >>> 5) &&& 0x7ffff) <<< 2).toNat = field w.toNat 5 19 * 2 ^ 2 := by
    rw [UInt32.toNat_shiftLeft, hhi, Nat.shiftLeft_eq]
    exact Nat.mod_eq_of_lt (show field w.toNat 5 19 * 2 ^ 2 < 2 ^ 32 by omega)
  rw [UInt32.toNat_or, hup, hlo, or_field (field_lt w.toNat 29 2)]

theorem adrpImmediate_bounds (w : UInt32) :
    -2 ^ 20 ≤ adrpImmediate w ∧ adrpImmediate w < 2 ^ 20 := by
  have hhi := field_lt w.toNat 5 19
  have hlo := field_lt w.toNat 29 2
  have hlt : field w.toNat 5 19 * 2 ^ 2 + field w.toNat 29 2 < 2 ^ 21 := by omega
  have hbounds := signed_bounds hlt
  unfold adrpImmediate
  omega

theorem adrpDisplacement_toInt (w : UInt32) :
    (adrpDisplacement w).toInt = 4096 * adrpImmediate w := by
  have hbounds := adrpImmediate_bounds w
  have hhi := field_lt w.toNat 5 19
  have hlo := field_lt w.toNat 29 2
  have hpages : ((((((w >>> 5) &&& 0x7ffff) <<< 2) ||| ((w >>> 29) &&& 3)) <<< 11).toInt32
      >>> 11).toInt64.toInt = adrpImmediate w := by
    rw [Int32.toInt_toInt64, toInt_shifted _ 11 11 rfl rfl, adrp_immediate,
      adrpImmediate, signed, Int.bmod_def]
    split_ifs
    · omega
    · omega
    · omega
    · omega
  have hfactor : (4096 : Int64).toInt = 4096 := rfl
  unfold adrpDisplacement
  rw [toInt_mul_exact, hpages, hfactor, mul_comm]
  · rw [hpages, hfactor]
    omega
  · rw [hpages, hfactor]
    omega

theorem pageBase_toInt {pc : UInt64} (hpc : pc.toNat < 2 ^ 62) :
    (pageBase pc).toInt = (pc.toNat / 4096 * 4096 : Nat) := by
  have hpage : (pc &&& ~~~0xfff).toNat = pc.toNat / 4096 * 4096 := by
    rw [UInt64.toNat_and]
    show pc.toNat &&& (2 ^ 52 - 1) * 2 ^ 12 = _
    rw [and_mask, field, Nat.mod_eq_of_lt (by omega)]
    rfl
  show (pc &&& ~~~0xfff).toBitVec.toInt = _
  rw [BitVec.toInt_eq_toNat_bmod]
  show Int.bmod ((pc &&& ~~~0xfff).toNat : Int) (2 ^ 64) = _
  rw [hpage]
  exact Int.bmod_eq_of_le_mul_two (by omega) (by omega)

/-- The target as the code adds it up. -/
theorem adrp_sum {pc : UInt64} (hpc : pc.toNat < 2 ^ 62) (w : UInt32) :
    (pageBase pc + adrpDisplacement w).toInt
      = (pc.toNat / 4096 * 4096 : Nat) + 4096 * adrpImmediate w := by
  have hbounds := adrpImmediate_bounds w
  rw [toInt_add_exact, pageBase_toInt hpc, adrpDisplacement_toInt]
  · rw [pageBase_toInt hpc, adrpDisplacement_toInt]
    omega
  · rw [pageBase_toInt hpc, adrpDisplacement_toInt]
    omega

/-- **`adrp_page` is exact.** -/
theorem adrpPage_eq_some {pc : UInt64} (hpc : pc.toNat < 2 ^ 62) {w register : UInt32}
    (hreg : register.toNat < 32) {p : UInt64} :
    adrpPage pc w register = some p ↔ IsAdrp w register
      ∧ (p.toNat : Int) = (pc.toNat / 4096 * 4096 : Nat) + 4096 * adrpImmediate w := by
  have hsum := adrp_sum hpc w
  have hbounds := adrpImmediate_bounds w
  have hp := p.toNat_lt
  rw [adrpPage_eq]
  by_cases hadrp : IsAdrp w register
  · have hmask : ¬ w &&& 0x9f00001f ≠ 0x90000000 ||| register :=
      not_not.mpr ((adrp_mask hreg).mpr hadrp)
    rw [if_neg hmask]
    have hzero : 0 ≤ pageBase pc + adrpDisplacement w ↔
        0 ≤ (pageBase pc + adrpDisplacement w).toInt := Int64.le_iff_toInt_le
    -- a sum that is not negative is its own `u64`
    have hunsigned : 0 ≤ (pageBase pc + adrpDisplacement w).toInt →
        ((pageBase pc + adrpDisplacement w).toUInt64.toNat : Int)
          = (pageBase pc + adrpDisplacement w).toInt := by
      intro hrange
      rw [Int64.toNat_toUInt64_of_le (hzero.mpr hrange)]
      exact Int.toNat_of_nonneg hrange
    constructor
    · intro h
      split_ifs at h with hrange
      obtain rfl := Option.some.inj h
      rw [hzero] at hrange
      refine ⟨hadrp, ?_⟩
      rw [hunsigned hrange, hsum]
    · rintro ⟨_, heq⟩
      have hrange : 0 ≤ (pageBase pc + adrpDisplacement w).toInt := by
        rw [hsum, ← heq]
        exact Int.natCast_nonneg _
      rw [if_pos (hzero.mpr hrange), Option.some.injEq, ← UInt64.toNat_inj, ← Int.natCast_inj,
        hunsigned hrange, hsum, heq]
  · rw [if_pos (fun h => hadrp ((adrp_mask hreg).mp h))]
    constructor
    · intro h
      cases h
    · rintro ⟨h, _⟩
      exact absurd h hadrp

/-! ## Encoding and back -/

/-- The `BL` from `pc` to `target`. -/
def bl (pc target : UInt64) : UInt32 :=
  0x94000000 ||| (((target.toInt64 - pc.toInt64) / 4).toUInt64.toUInt32 &&& 0x03ffffff)

/-- `adrp`: the `ADRP` at `pc` that loads the page `target`. -/
def adrp (pc target : UInt64) (rd : UInt32) : UInt32 :=
  let pages : UInt32 :=
    ((target.toInt64 - (pc &&& ~~~0xfff).toInt64) / 4096).toUInt64.toUInt32 &&& 0x1fffff
  (0x90000000 : UInt32) ||| ((pages &&& 3) <<< 29) ||| ((pages >>> 2) <<< 5) ||| rd

theorem toInt_toInt64 {x : UInt64} (h : x.toNat < 2 ^ 63) : x.toInt64.toInt = x.toNat := by
  have hbits : x.toInt64.toInt = Int.bmod x.toNat (2 ^ 64) :=
    BitVec.toInt_eq_toNat_bmod x.toBitVec
  rw [hbits]
  exact Int.bmod_eq_of_le_mul_two (by omega) (by omega)

/-- An exact quotient of a difference. -/
theorem toInt_quotient {a b c : Int64} {k : Int} (hc : 0 < c.toInt)
    (hexact : a.toInt - b.toInt = c.toInt * k) (hlow : -2 ^ 62 ≤ c.toInt * k)
    (hhigh : c.toInt * k < 2 ^ 62) : ((a - b) / c).toInt = k := by
  have hdiff : (a - b).toInt = c.toInt * k := by
    rw [Int64.toInt_sub, hexact]
    exact Int.bmod_eq_of_le_mul_two (by omega) (by omega)
  -- the quotient is no larger than the difference, so it does not wrap
  have hsize : |k| ≤ |c.toInt * k| := by
    rw [abs_mul]
    exact le_mul_of_one_le_left (abs_nonneg k) (by rw [abs_of_pos hc]; omega)
  have hprod := abs_le.mpr ⟨hlow, hhigh.le⟩
  obtain ⟨hklow, hkhigh⟩ := abs_le.mp (hsize.trans hprod)
  rw [Int64.toInt_div, hdiff, Int.mul_tdiv_cancel_left k hc.ne']
  exact Int.bmod_eq_of_le_mul_two (by omega) (by omega)

/-- Encoding a reachable target as `BL` and decoding returns it. -/
theorem blTarget_bl {pc target : UInt64} (hpc : pc.toNat < 2 ^ 62) {k : Int}
    (htarget : (target.toNat : Int) = pc.toNat + 4 * k) (hlow : -2 ^ 25 ≤ k) (hhigh : k < 2 ^ 25) :
    blTarget pc (bl pc target) = some target := by
  have hquotient : ((target.toInt64 - pc.toInt64) / 4).toInt = k := by
    have h4 : (4 : Int64).toInt = 4 := rfl
    refine toInt_quotient (by decide) ?_ (by rw [h4]; omega) (by rw [h4]; omega)
    rw [toInt_toInt64 (by omega), toInt_toInt64 (by omega), h4]
    omega
  have hword : (bl pc target).toNat = 0x94000000 ||| (k % 2 ^ 26).toNat := by
    rw [bl, UInt32.toNat_or, low_bits _ (show 26 ≤ 32 by decide) rfl, hquotient]
    rfl
  have hlt : (k % 2 ^ 26).toNat < 2 ^ 26 := by omega
  refine (blTarget_eq_some hpc).mpr ⟨?_, ?_⟩
  · rw [IsBl, hword, field_or]
    -- the offset stays below the opcode
    show 37 ||| (k % 2 ^ 26).toNat / 2 ^ 26 % 2 ^ 6 = 37
    rw [Nat.div_eq_of_lt hlt]
    rfl
  · have himm : blImmediate (bl pc target) = k := by
      rw [blImmediate, hword, field_or]
      have hfield : field (k % 2 ^ 26).toNat 0 26 = (k % 2 ^ 26).toNat := by
        rw [field, Nat.pow_zero, Nat.div_one, Nat.mod_eq_of_lt hlt]
      show signed 26 (0 ||| field (k % 2 ^ 26).toNat 0 26) = k
      rw [Nat.zero_or, hfield]
      exact signed_emod (by omega) (by omega)
    rw [himm]
    exact htarget

/-- The word of an `ADRP` over `k` pages, part by part. -/
theorem adrp_word {pc target : UInt64} {rd : UInt32} {k : Int}
    (hquotient : ((target.toInt64 - pageBase pc) / 4096).toInt = k) :
    (adrp pc target rd).toNat = 0x90000000 ||| (k % 2 ^ 21).toNat % 4 * 2 ^ 29
      ||| (k % 2 ^ 21).toNat / 4 * 2 ^ 5 ||| rd.toNat := by
  have hpages : (((target.toInt64 - (pc &&& ~~~0xfff).toInt64) / 4096).toUInt64.toUInt32
      &&& 0x1fffff).toNat = (k % 2 ^ 21).toNat := by
    rw [low_bits _ (show 21 ≤ 32 by decide) rfl]
    exact congrArg (fun q : Int => (q % 2 ^ 21).toNat) hquotient
  have hlt : (k % 2 ^ 21).toNat < 2 ^ 21 := by omega
  -- the low two bits of the page count go to bit 29, the others to bit 5
  have hlo : ∀ pages : UInt32, pages.toNat = (k % 2 ^ 21).toNat →
      ((pages &&& 3) <<< 29).toNat = (k % 2 ^ 21).toNat % 4 * 2 ^ 29 := by
    intro pages h
    rw [UInt32.toNat_shiftLeft, UInt32.toNat_and, h, Nat.shiftLeft_eq]
    show ((k % 2 ^ 21).toNat &&& 2 ^ 2 - 1) * 2 ^ 29 % 2 ^ 32 = _
    rw [Nat.and_two_pow_sub_one_eq_mod]
    omega
  have hhi : ∀ pages : UInt32, pages.toNat = (k % 2 ^ 21).toNat →
      ((pages >>> 2) <<< 5).toNat = (k % 2 ^ 21).toNat / 4 * 2 ^ 5 := by
    intro pages h
    rw [UInt32.toNat_shiftLeft, UInt32.toNat_shiftRight, h, Nat.shiftLeft_eq,
      Nat.shiftRight_eq_div_pow]
    show (k % 2 ^ 21).toNat / 4 * 2 ^ 5 % 2 ^ 32 = _
    omega
  rw [adrp, UInt32.toNat_or, UInt32.toNat_or, UInt32.toNat_or, hlo _ hpages, hhi _ hpages]
  rfl

/-- Encoding a reachable page as `ADRP` and decoding returns it. -/
theorem adrpPage_adrp {pc target : UInt64} (hpc : pc.toNat < 2 ^ 62) {rd : UInt32}
    (hrd : rd.toNat < 32) {k : Int}
    (htarget : (target.toNat : Int) = (pc.toNat / 4096 * 4096 : Nat) + 4096 * k)
    (hlow : -2 ^ 20 ≤ k) (hhigh : k < 2 ^ 20) :
    adrpPage pc (adrp pc target rd) rd = some target := by
  have hquotient : ((target.toInt64 - pageBase pc) / 4096).toInt = k := by
    have h4096 : (4096 : Int64).toInt = 4096 := rfl
    refine toInt_quotient (by decide) ?_ (by rw [h4096]; omega) (by rw [h4096]; omega)
    rw [toInt_toInt64 (by omega), pageBase_toInt hpc, h4096]
    omega
  have hword : (adrp pc target rd).toNat = 0x90000000 ||| (k % 2 ^ 21).toNat % 4 * 2 ^ 29
      ||| (k % 2 ^ 21).toNat / 4 * 2 ^ 5 ||| rd.toNat := adrp_word hquotient
  have hlt : (k % 2 ^ 21).toNat < 2 ^ 21 := by omega
  have hsigned : signed 21 (k % 2 ^ 21).toNat = k := signed_emod (by omega) (by omega)
  generalize (k % 2 ^ 21).toNat = pages at hword hlt hsigned
  -- a field of the word is the union of the fields of its four parts
  have hfield : ∀ start len, field (adrp pc target rd).toNat start len
      = field 0x90000000 start len ||| field (pages % 4 * 2 ^ 29) start len
        ||| field (pages / 4 * 2 ^ 5) start len ||| field rd.toNat start len := by
    intro start len
    rw [hword, field_or, field_or, field_or]
  refine (adrpPage_eq_some hpc hrd).mpr ⟨⟨?_, ?_, ?_⟩, ?_⟩
  · have h1 : field (pages % 4 * 2 ^ 29) 31 1 = 0 := by unfold field; omega
    have h2 : field (pages / 4 * 2 ^ 5) 31 1 = 0 := by unfold field; omega
    have h3 : field rd.toNat 31 1 = 0 := by unfold field; omega
    rw [hfield, h1, h2, h3]
    rfl
  · have h1 : field (pages % 4 * 2 ^ 29) 24 5 = 0 := by unfold field; omega
    have h2 : field (pages / 4 * 2 ^ 5) 24 5 = 0 := by unfold field; omega
    have h3 : field rd.toNat 24 5 = 0 := by unfold field; omega
    rw [hfield, h1, h2, h3]
    rfl
  · have h1 : field (pages % 4 * 2 ^ 29) 0 5 = 0 := by unfold field; omega
    have h2 : field (pages / 4 * 2 ^ 5) 0 5 = 0 := by unfold field; omega
    have h3 : field rd.toNat 0 5 = rd.toNat := by unfold field; omega
    rw [hfield, h1, h2, h3]
    exact Nat.zero_or _
  -- the two halves of the page count come back together
  · have himm : adrpImmediate (adrp pc target rd) = k := by
      have hhi : field (adrp pc target rd).toNat 5 19 = pages / 4 := by
        have h1 : field (pages % 4 * 2 ^ 29) 5 19 = 0 := by unfold field; omega
        have h2 : field (pages / 4 * 2 ^ 5) 5 19 = pages / 4 := by unfold field; omega
        have h3 : field rd.toNat 5 19 = 0 := by unfold field; omega
        rw [hfield, h1, h2, h3, Nat.or_zero, Nat.or_zero]
        exact Nat.zero_or _
      have hlo : field (adrp pc target rd).toNat 29 2 = pages % 4 := by
        have h1 : field (pages % 4 * 2 ^ 29) 29 2 = pages % 4 := by unfold field; omega
        have h2 : field (pages / 4 * 2 ^ 5) 29 2 = 0 := by unfold field; omega
        have h3 : field rd.toNat 29 2 = 0 := by unfold field; omega
        rw [hfield, h1, h2, h3, Nat.or_zero, Nat.or_zero]
        exact Nat.zero_or _
      rw [adrpImmediate, hhi, hlo, show pages / 4 * 2 ^ 2 + pages % 4 = pages by omega]
      exact hsigned
    rw [himm]
    exact htarget

/-- **The decoders are exact**: what they give, what they refuse, the way back
    from an encoded target, and no overflow in between. -/
theorem decoders_exact :
    (∀ (pc : UInt64) (w : UInt32) (t : UInt64), pc.toNat < 2 ^ 62 →
        (blTarget pc w = some t ↔ IsBl w ∧ (t.toNat : Int) = pc.toNat + 4 * blImmediate w))
      ∧ (∀ (pc : UInt64) (w r : UInt32) (p : UInt64), pc.toNat < 2 ^ 62 → r.toNat < 32 →
        (adrpPage pc w r = some p ↔ IsAdrp w r
          ∧ (p.toNat : Int) = (pc.toNat / 4096 * 4096 : Nat) + 4096 * adrpImmediate w))
      ∧ (∀ (pc target : UInt64) (k : Int), pc.toNat < 2 ^ 62 →
        (target.toNat : Int) = pc.toNat + 4 * k → -2 ^ 25 ≤ k → k < 2 ^ 25 →
        blTarget pc (bl pc target) = some target)
      ∧ (∀ (pc target : UInt64) (rd : UInt32) (k : Int), pc.toNat < 2 ^ 62 → rd.toNat < 32 →
        (target.toNat : Int) = (pc.toNat / 4096 * 4096 : Nat) + 4096 * k → -2 ^ 20 ≤ k →
        k < 2 ^ 20 → adrpPage pc (adrp pc target rd) rd = some target)
      ∧ ∀ (pc : UInt64) (w : UInt32), pc.toNat < 2 ^ 62 →
        (((w &&& 0x03ffffff) <<< 6).toInt32 >>> 4).toInt = 4 * blImmediate w
          ∧ -2 ^ 63 ≤ (pc.toNat : Int) + 4 * blImmediate w
          ∧ (pc.toNat : Int) + 4 * blImmediate w < 2 ^ 63
          ∧ (adrpDisplacement w).toInt = 4096 * adrpImmediate w
          ∧ (pageBase pc + adrpDisplacement w).toInt
            = (pageBase pc).toInt + (adrpDisplacement w).toInt := by
  refine ⟨?_, ?_, ?_, ?_, ?_⟩
  · intro pc w t hpc
    exact blTarget_eq_some hpc
  · intro pc w r p hpc hreg
    exact adrpPage_eq_some hpc hreg
  · intro pc target k hpc htarget hlow hhigh
    exact blTarget_bl hpc htarget hlow hhigh
  · intro pc target rd k hpc hrd htarget hlow hhigh
    exact adrpPage_adrp hpc hrd htarget hlow hhigh
  · intro pc w hpc
    have hbounds := signed_bounds (field_lt w.toNat 0 26)
    refine ⟨bl_displacement w, ?_, ?_, adrpDisplacement_toInt w, ?_⟩
    · unfold blImmediate
      omega
    · unfold blImmediate
      omega
    · rw [adrp_sum hpc, pageBase_toInt hpc, adrpDisplacement_toInt]

/-- A backward `BL` and an `ADRP` of one page down. -/
theorem decoders_exact_backwards :
    blTarget 0x1000 (bl 0x1000 0xff8) = some 0xff8
      ∧ adrpPage 0x5004 (adrp 0x5004 0x4000 8) 8 = some 0x4000 :=
  ⟨decoders_exact.2.2.1 0x1000 0xff8 (-2) (by decide) (by decide) (by decide) (by decide),
    decoders_exact.2.2.2.1 0x5004 0x4000 8 (-1) (by decide) (by decide) (by decide) (by decide)
      (by decide)⟩

end TeamAttack
