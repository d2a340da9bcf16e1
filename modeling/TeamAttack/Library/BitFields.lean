import Mathlib

/-! # Bit fields of a number

    `field n start len` is the number in `len` bits of `n`, from bit `start`
    up.  A masked comparison reads a field; a mask with two parts reads two;
    an arithmetic shift reads a signed field. -/

namespace BitFields

/-- `len` bits of `n` from bit `start` up. -/
def field (n start len : Nat) : Nat := n / 2 ^ start % 2 ^ len

/-- An unsigned number of `len` bits read as a signed one. -/
def signed (len n : Nat) : Int := if 2 * n < 2 ^ len then n else n - 2 ^ len

/-- `a & ~b`. -/
def andNot (a b : Nat) : Nat := a ^^^ (a &&& b)

theorem testBit_andNot (a b i : Nat) :
    (andNot a b).testBit i = (a.testBit i && !b.testBit i) := by
  rw [andNot, Nat.testBit_xor, Nat.testBit_and]
  cases a.testBit i <;> cases b.testBit i <;> rfl

theorem field_lt (n start len : Nat) : field n start len < 2 ^ len :=
  Nat.mod_lt _ (Nat.two_pow_pos len)

theorem testBit_field (n start len i : Nat) :
    (field n start len).testBit i = (decide (i < len) && n.testBit (i + start)) := by
  rw [field, Nat.testBit_mod_two_pow, Nat.testBit_div_two_pow]

/-- A mask of adjacent bits keeps a field in its place. -/
theorem and_mask (n start len : Nat) :
    n &&& (2 ^ len - 1) * 2 ^ start = field n start len * 2 ^ start := by
  refine Nat.eq_of_testBit_eq ?_
  intro i
  rw [Nat.testBit_and, Nat.testBit_mul_two_pow, Nat.testBit_mul_two_pow, testBit_field,
    Nat.testBit_two_pow_sub_one]
  by_cases hle : start ≤ i
  · rw [Nat.sub_add_cancel hle]
    cases n.testBit i <;> cases decide (i - start < len) <;> cases decide (start ≤ i) <;> rfl
  · simp [hle]

/-- A comparison under such a mask reads the field. -/
theorem and_mask_eq (n start len v : Nat) :
    n &&& (2 ^ len - 1) * 2 ^ start = v * 2 ^ start ↔ field n start len = v := by
  rw [and_mask, Nat.mul_left_inj (Nat.two_pow_pos start).ne']

/-- A shift down and a mask read a field. -/
theorem shift_and_mask (n start len : Nat) : n >>> start &&& 2 ^ len - 1 = field n start len := by
  rw [Nat.and_two_pow_sub_one_eq_mod, Nat.shiftRight_eq_div_pow, field]

/-- A test of one bit. -/
theorem and_bit_ne (n start : Nat) : n &&& 2 ^ start ≠ 0 ↔ field n start 1 = 1 := by
  have hmask := and_mask n start 1
  rw [show (2 ^ 1 - 1) * 2 ^ start = 2 ^ start from Nat.one_mul _] at hmask
  have hlt := field_lt n start 1
  have hpos := Nat.two_pow_pos start
  rw [hmask, Nat.mul_ne_zero_iff]
  omega

theorem or_and_cancel (m m' : Nat) : (m ||| m') &&& m = m := by
  refine Nat.eq_of_testBit_eq ?_
  intro i
  rw [Nat.testBit_and, Nat.testBit_or]
  cases m.testBit i <;> cases m'.testBit i <;> rfl

/-- A comparison under a mask of two parts is two comparisons. -/
theorem and_or_eq {n m m' v v' : Nat} (hv : v &&& m = v) (hv' : v' &&& m' = v')
    (hvm' : v &&& m' = 0) (hvm : v' &&& m = 0) :
    n &&& (m ||| m') = v ||| v' ↔ n &&& m = v ∧ n &&& m' = v' := by
  constructor
  · intro h
    constructor
    · rw [← or_and_cancel m m', ← Nat.and_assoc, h, Nat.and_or_distrib_right, hv, hvm, Nat.or_zero]
    · rw [← or_and_cancel m' m, Nat.or_comm, ← Nat.and_assoc, h, Nat.and_or_distrib_right, hvm',
        hv', Nat.zero_or]
  · rintro ⟨h, h'⟩
    rw [Nat.and_or_distrib_left, h, h']

/-- Two fields side by side make one. -/
theorem or_field {a b len : Nat} (hb : b < 2 ^ len) : a * 2 ^ len ||| b = a * 2 ^ len + b := by
  rw [Nat.mul_comm, Nat.two_pow_add_eq_or_of_lt hb]

/-- A field of a disjunction. -/
theorem field_or (a b start len : Nat) :
    field (a ||| b) start len = field a start len ||| field b start len := by
  refine Nat.eq_of_testBit_eq ?_
  intro i
  rw [Nat.testBit_or, testBit_field, testBit_field, testBit_field, Nat.testBit_or]
  cases decide (i < len) <;> rfl

/-- The low bits of a signed 64-bit number cut to 32. -/
theorem low_bits (x : Int64) {len : Nat} (hlen : len ≤ 32) {mask : UInt32}
    (hmask : mask.toNat = 2 ^ len - 1) :
    (x.toUInt64.toUInt32 &&& mask).toNat = (x.toInt % 2 ^ len).toNat := by
  have hword : x.toInt % 2 ^ 64 = x.toUInt64.toNat := by
    have hlt := x.toUInt64.toNat_lt
    have hbits : x.toInt = Int.bmod x.toUInt64.toNat (2 ^ 64) :=
      BitVec.toInt_eq_toNat_bmod x.toBitVec
    rw [hbits]
    exact (Int.bmod_emod ..).trans (Int.emod_eq_of_lt (Int.natCast_nonneg _) (by omega))
  have hdvd : (2 : Int) ^ len ∣ 2 ^ 64 := pow_dvd_pow 2 (by omega)
  rw [UInt32.toNat_and, UInt64.toNat_toUInt32, hmask, Nat.and_two_pow_sub_one_eq_mod,
    Nat.mod_mod_of_dvd _ (pow_dvd_pow 2 hlen), ← Int.emod_emod_of_dvd x.toInt hdvd, hword]
  exact_mod_cast (Int.toNat_natCast (x.toUInt64.toNat % 2 ^ len)).symm

theorem signed_bounds {len n : Nat} (h : n < 2 ^ len) :
    -2 ^ len ≤ 2 * signed len n ∧ 2 * signed len n < 2 ^ len := by
  have hcast : ((2 : Int) ^ len) = ((2 ^ len : Nat) : Int) := by push_cast; rfl
  rw [signed, hcast]
  split_ifs
  · omega
  · omega

/-- A signed number back from its low bits. -/
theorem signed_emod {len : Nat} {k : Int} (hlow : -2 ^ len ≤ 2 * k)
    (hhigh : 2 * k < 2 ^ len) : signed len (k % 2 ^ len).toNat = k := by
  have hcast : ((2 : Int) ^ len) = ((2 ^ len : Nat) : Int) := by push_cast; rfl
  have hpos : 0 < 2 ^ len := Nat.two_pow_pos len
  rw [hcast] at hlow hhigh ⊢
  unfold signed
  by_cases hneg : k < 0
  · have hmod : k % ((2 ^ len : Nat) : Int) = k + ((2 ^ len : Nat) : Int) := by
      rw [← Int.add_emod_right, Int.emod_eq_of_lt (by omega) (by omega)]
    rw [hmod, hcast, if_neg (by omega)]
    omega
  · rw [Int.emod_eq_of_lt (by omega) (by omega), if_pos (by omega)]
    omega

end BitFields
