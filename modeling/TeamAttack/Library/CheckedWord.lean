import Mathlib

/-! # Checked arithmetic on 64-bit words

    `checked_add` and `checked_sub` return `none` exactly where the exact
    result does not fit, and otherwise the exact result. -/

namespace CheckedWord

/-- `usize::checked_add`. -/
def checkedAdd (a b : UInt64) : Option UInt64 :=
  if a.toNat + b.toNat < 2 ^ 64 then some (a + b) else none

/-- `usize::checked_sub`. -/
def checkedSub (a b : UInt64) : Option UInt64 :=
  if b ≤ a then some (a - b) else none

theorem checkedAdd_eq_some {a b c : UInt64} :
    checkedAdd a b = some c ↔ c.toNat = a.toNat + b.toNat := by
  have hc := c.toNat_lt
  unfold checkedAdd
  by_cases h : a.toNat + b.toNat < 2 ^ 64
  · rw [if_pos h, Option.some.injEq, ← UInt64.toNat_inj, UInt64.toNat_add,
      Nat.mod_eq_of_lt h, eq_comm]
  · rw [if_neg h]
    exact ⟨nofun, fun heq => absurd (heq ▸ hc) h⟩

theorem checkedSub_eq_some {a b c : UInt64} :
    checkedSub a b = some c ↔ a.toNat = b.toNat + c.toNat := by
  unfold checkedSub
  by_cases h : b ≤ a
  · have hle : b.toNat ≤ a.toNat := h
    rw [if_pos h, Option.some.injEq, ← UInt64.toNat_inj, UInt64.toNat_sub_of_le _ _ h]
    omega
  · have hlt : ¬ b.toNat ≤ a.toNat := h
    rw [if_neg h]
    exact ⟨nofun, fun heq => absurd heq (by omega)⟩

end CheckedWord
