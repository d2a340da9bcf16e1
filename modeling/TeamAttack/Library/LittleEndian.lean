import Mathlib

/-! # Little-endian byte strings

    `toLe n x` is the `n`-byte little-endian string of `x`, `fromLe` reads one
    back.  They are inverse to each other on `n`-byte strings and on numbers
    below `256 ^ n`. -/

namespace LittleEndian

/-- The low `n` bytes of `x`, least significant first. -/
def toLe : Nat → Nat → List UInt8
  | 0, _ => []
  | n + 1, x => UInt8.ofNat x :: toLe n (x / 256)

/-- The number a little-endian byte string denotes. -/
def fromLe : List UInt8 → Nat
  | [] => 0
  | b :: bs => b.toNat + 256 * fromLe bs

@[simp] theorem length_toLe (n x : Nat) : (toLe n x).length = n := by
  induction n generalizing x with
  | zero => rfl
  | succ n ih => rw [toLe, List.length_cons, ih]

theorem fromLe_toLe (n x : Nat) : fromLe (toLe n x) = x % 256 ^ n := by
  induction n generalizing x with
  | zero => rw [toLe, fromLe, Nat.pow_zero, Nat.mod_one]
  | succ n ih =>
      rw [toLe, fromLe, ih, Nat.pow_succ', Nat.mod_mul]
      rfl

theorem fromLe_toLe_of_lt {n x : Nat} (h : x < 256 ^ n) : fromLe (toLe n x) = x := by
  rw [fromLe_toLe, Nat.mod_eq_of_lt h]

theorem toLe_fromLe (bs : List UInt8) : toLe bs.length (fromLe bs) = bs := by
  induction bs with
  | nil => rfl
  | cons b bs ih =>
      have hlt : b.toNat < 256 := b.toNat_lt
      have hhead : UInt8.ofNat (b.toNat + 256 * fromLe bs) = b := by
        apply UInt8.toNat_inj.mp
        rw [UInt8.toNat_ofNat']
        omega
      have htail : (b.toNat + 256 * fromLe bs) / 256 = fromLe bs := by omega
      rw [List.length_cons, fromLe, toLe, hhead, htail, ih]

theorem fromLe_lt (bs : List UInt8) : fromLe bs < 256 ^ bs.length := by
  induction bs with
  | nil => exact Nat.zero_lt_one
  | cons b bs ih =>
      have hlt : b.toNat < 256 := b.toNat_lt
      rw [fromLe, List.length_cons, Nat.pow_succ']
      omega

/-- `u32::to_le_bytes`. -/
def le32 (x : UInt32) : List UInt8 := toLe 4 x.toNat

/-- `u64::to_le_bytes`. -/
def le64 (x : UInt64) : List UInt8 := toLe 8 x.toNat

/-- `u32::from_le_bytes`. -/
def of32 (bs : List UInt8) : UInt32 := UInt32.ofNat (fromLe bs)

/-- `u64::from_le_bytes`. -/
def of64 (bs : List UInt8) : UInt64 := UInt64.ofNat (fromLe bs)

@[simp] theorem length_le32 (x : UInt32) : (le32 x).length = 4 := length_toLe ..

@[simp] theorem length_le64 (x : UInt64) : (le64 x).length = 8 := length_toLe ..

@[simp] theorem of32_le32 (x : UInt32) : of32 (le32 x) = x := by
  rw [of32, le32, fromLe_toLe_of_lt x.toNat_lt, UInt32.ofNat_toNat]

@[simp] theorem of64_le64 (x : UInt64) : of64 (le64 x) = x := by
  rw [of64, le64, fromLe_toLe_of_lt x.toNat_lt, UInt64.ofNat_toNat]

theorem le32_of32 {bs : List UInt8} (h : bs.length = 4) : le32 (of32 bs) = bs := by
  have hlt := fromLe_lt bs
  have hback := toLe_fromLe bs
  rw [h] at hlt hback
  have hmod : fromLe bs % 2 ^ 32 = fromLe bs := Nat.mod_eq_of_lt hlt
  rw [le32, of32, UInt32.toNat_ofNat', hmod, hback]

theorem le64_of64 {bs : List UInt8} (h : bs.length = 8) : le64 (of64 bs) = bs := by
  have hlt := fromLe_lt bs
  have hback := toLe_fromLe bs
  rw [h] at hlt hback
  have hmod : fromLe bs % 2 ^ 64 = fromLe bs := Nat.mod_eq_of_lt hlt
  rw [le64, of64, UInt64.toNat_ofNat', hmod, hback]

end LittleEndian
