import Mathlib

/-! # Byte-addressed memory with 64-bit wrapping addresses

    A memory is a total map from addresses to bytes.  Wider values are read
    little-endian from consecutive addresses, so a read is determined by the
    bytes it covers (`readLE_congr`) and is untouched by a write outside them
    (`readLE_writeByte`).  `AgreeOn` compares two memories on a list of
    addresses. -/

namespace ByteMemory

/-- Contents of every address. -/
abbrev Memory := UInt64 → UInt8

/-- The addresses of the `n` bytes starting at `a`. -/
def span (a : UInt64) (n : Nat) : List UInt64 :=
  (List.range n).map (fun k => a + UInt64.ofNat k)

/-- The little-endian value of the `n` bytes starting at `a`. -/
def readLE (m : Memory) (a : UInt64) : Nat → Nat
  | 0 => 0
  | n + 1 => readLE m a n + (m (a + UInt64.ofNat n)).toNat * 256 ^ n

/-- `ldrb`. -/
def byte (m : Memory) (a : UInt64) : UInt8 := m a

/-- `ldr` of a 32-bit register. -/
def word (m : Memory) (a : UInt64) : UInt32 := UInt32.ofNat (readLE m a 4)

/-- `ldr` of a 64-bit register. -/
def pointer (m : Memory) (a : UInt64) : UInt64 := UInt64.ofNat (readLE m a 8)

/-- `strb`. -/
def writeByte (m : Memory) (a : UInt64) (v : UInt8) : Memory := Function.update m a v

/-- The memory `m` moved up by `base`. -/
def relocate (base : UInt64) (m : Memory) : Memory := fun a => m (a - base)

/-- The memory that holds the cells listed, and zeros elsewhere. -/
def ofCells (cells : List (UInt64 × UInt8)) : Memory := fun a => (cells.lookup a).getD 0

/-- Two memories hold the same bytes at these addresses. -/
def AgreeOn (addresses : List UInt64) (m m' : Memory) : Prop :=
  ∀ a ∈ addresses, m a = m' a

/-- What holds of each listed element, checked one by one. -/
theorem forall_mem_of_all {α : Type} {p : α → Prop} [DecidablePred p] {l : List α}
    (h : (l.all fun a => decide (p a)) = true) : ∀ a ∈ l, p a :=
  fun a ha => of_decide_eq_true (List.all_eq_true.mp h a ha)

instance (addresses : List UInt64) (m m' : Memory) : Decidable (AgreeOn addresses m m') :=
  decidable_of_iff ((addresses.all fun a => decide (m a = m' a)) = true) (by simp [AgreeOn])

theorem span_succ (a : UInt64) (n : Nat) :
    span a (n + 1) = span a n ++ [a + UInt64.ofNat n] := by
  simp only [span, List.range_succ, List.map_append, List.map_cons, List.map_nil]

/-- A read depends only on the bytes it covers. -/
theorem readLE_congr {m m' : Memory} {a : UInt64} {n : Nat}
    (h : AgreeOn (span a n) m m') : readLE m a n = readLE m' a n := by
  induction n with
  | zero => rfl
  | succ n ih =>
      rw [span_succ] at h
      have hlast : m (a + UInt64.ofNat n) = m' (a + UInt64.ofNat n) :=
        h _ (List.mem_append.mpr (Or.inr (List.mem_singleton.mpr rfl)))
      have hinit := ih (fun b hb => h b (List.mem_append.mpr (Or.inl hb)))
      rw [readLE, readLE, hinit, hlast]

theorem word_congr {m m' : Memory} {a : UInt64}
    (h : AgreeOn (span a 4) m m') : word m a = word m' a :=
  congrArg UInt32.ofNat (readLE_congr h)

@[simp] theorem writeByte_self (m : Memory) (a : UInt64) (v : UInt8) :
    writeByte m a v a = v := Function.update_self ..

@[simp] theorem byte_writeByte_self (m : Memory) (a : UInt64) (v : UInt8) :
    byte (writeByte m a v) a = v := Function.update_self ..

theorem writeByte_of_ne (m : Memory) {a b : UInt64} (v : UInt8) (h : b ≠ a) :
    writeByte m a v b = m b := Function.update_of_ne h ..

theorem byte_writeByte_of_ne (m : Memory) {a b : UInt64} (v : UInt8) (h : b ≠ a) :
    byte (writeByte m a v) b = byte m b := writeByte_of_ne m v h

/-- Memories that agree at an address still agree there after the same write. -/
theorem writeByte_agree {m m' : Memory} {a b : UInt64} (v : UInt8) (h : m b = m' b) :
    writeByte m a v b = writeByte m' a v b := by
  by_cases hb : b = a
  · rw [hb, writeByte_self, writeByte_self]
  · rw [writeByte_of_ne m v hb, writeByte_of_ne m' v hb, h]

theorem byte_writeByte_agree {m m' : Memory} {b : UInt64} (a : UInt64) (v : UInt8)
    (h : byte m b = byte m' b) : byte (writeByte m a v) b = byte (writeByte m' a v) b :=
  writeByte_agree v h

theorem AgreeOn.symm {l : List UInt64} {m m' : Memory} (h : AgreeOn l m m') :
    AgreeOn l m' m := fun a ha => (h a ha).symm

/-- The same write keeps agreement. -/
theorem AgreeOn.writeByte {l : List UInt64} {m m' : Memory} (h : AgreeOn l m m')
    (a : UInt64) (v : UInt8) : AgreeOn l (writeByte m a v) (writeByte m' a v) :=
  fun b hb => writeByte_agree v (h b hb)

/-- A read is untouched by a write outside the bytes it covers. -/
theorem readLE_writeByte (m : Memory) {a b : UInt64} {n : Nat} (v : UInt8)
    (h : b ∉ span a n) : readLE (writeByte m b v) a n = readLE m a n :=
  readLE_congr fun _ hc => writeByte_of_ne m v (fun heq => h (heq ▸ hc))

theorem word_writeByte (m : Memory) {a b : UInt64} (v : UInt8)
    (h : b ∉ span a 4) : word (writeByte m b v) a = word m a :=
  congrArg UInt32.ofNat (readLE_writeByte m v h)

theorem pointer_writeByte (m : Memory) {a b : UInt64} (v : UInt8)
    (h : b ∉ span a 8) : pointer (writeByte m b v) a = pointer m a :=
  congrArg UInt64.ofNat (readLE_writeByte m v h)

theorem readLE_relocate (base : UInt64) (m : Memory) (a : UInt64) (n : Nat) :
    readLE (relocate base m) (base + a) n = readLE m a n := by
  induction n with
  | zero => rfl
  | succ n ih =>
      have haddr : base + a + UInt64.ofNat n - base = a + UInt64.ofNat n := by grind
      rw [readLE, readLE, ih, relocate, haddr]

theorem byte_relocate (base : UInt64) (m : Memory) (a : UInt64) :
    byte (relocate base m) (base + a) = byte m a := by
  have haddr : base + a - base = a := by grind
  rw [byte, relocate, haddr, byte]

theorem word_relocate (base : UInt64) (m : Memory) (a : UInt64) :
    word (relocate base m) (base + a) = word m a :=
  congrArg UInt32.ofNat (readLE_relocate base m a 4)

theorem pointer_relocate (base : UInt64) (m : Memory) (a : UInt64) :
    pointer (relocate base m) (base + a) = pointer m a :=
  congrArg UInt64.ofNat (readLE_relocate base m a 8)

theorem ofCells_eq_zero {cells : List (UInt64 × UInt8)} {a : UInt64}
    (h : ∀ c ∈ cells, c.1 ≠ a) : ofCells cells a = 0 := by
  rw [ofCells, List.lookup_eq_none_iff.mpr (fun c hc => by simpa using (h c hc).symm)]
  rfl

/-- A nonzero byte is one of the cells. -/
theorem mem_cells {cells : List (UInt64 × UInt8)} {a : UInt64} (h : ofCells cells a ≠ 0) :
    (a, ofCells cells a) ∈ cells := by
  cases hl : cells.lookup a with
  | none =>
      rw [ofCells, hl] at h
      exact absurd rfl h
  | some v =>
      have hv : ofCells cells a = v := by
        rw [ofCells, hl]
        rfl
      rw [hv]
      obtain ⟨l, k, hsplit, -⟩ := List.lookup_eq_some_iff.mp hl
      rw [hsplit]
      simp

end ByteMemory
