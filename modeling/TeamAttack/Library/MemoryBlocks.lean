import TeamAttack.Library.ByteMemory
import TeamAttack.Library.LittleEndian

/-! # Blocks of memory

    A program that writes a record writes cells, one after another.  Cells at
    different addresses keep what was stored (`storeAll_of_mem`), and nothing
    else changes (`storeAll_of_notMem`); blocks of bytes and little-endian
    words are such lists of cells.  A loop that copies out of cells it does not
    write is one list of cells (`copyLoop_eq`). -/

namespace ByteMemory

open LittleEndian

/-! ## Addresses -/

theorem mem_span {a b : UInt64} {n : Nat} : b ∈ span a n ↔ ∃ k < n, b = a + UInt64.ofNat k := by
  rw [span, List.mem_map]
  constructor
  · rintro ⟨k, hk, rfl⟩
    exact ⟨k, List.mem_range.mp hk, rfl⟩
  · rintro ⟨k, hk, rfl⟩
    exact ⟨k, List.mem_range.mpr hk, rfl⟩

@[simp] theorem length_span (a : UInt64) (n : Nat) : (span a n).length = n := by
  rw [span, List.length_map, List.length_range]

/-- A block within a block. -/
theorem span_subset {a : UInt64} {k n N : Nat} (h : k + n ≤ N) :
    span (a + UInt64.ofNat k) n ⊆ span a N := by
  intro b hb
  obtain ⟨i, hi, rfl⟩ := mem_span.mp hb
  refine mem_span.mpr ⟨k + i, by omega, ?_⟩
  rw [UInt64.ofNat_add, UInt64.add_assoc]

theorem span_prefix_subset {a : UInt64} {n N : Nat} (h : n ≤ N) : span a n ⊆ span a N := by
  intro b hb
  obtain ⟨k, hk, rfl⟩ := mem_span.mp hb
  exact mem_span.mpr ⟨k, by omega, rfl⟩

theorem add_ofNat_inj {a : UInt64} {i j : Nat} (hi : i < 2 ^ 64) (hj : j < 2 ^ 64)
    (h : a + UInt64.ofNat i = a + UInt64.ofNat j) : i = j := by
  have heq := congrArg UInt64.toNat (UInt64.add_right_inj a |>.mp h)
  rwa [UInt64.toNat_ofNat_of_lt' hi, UInt64.toNat_ofNat_of_lt' hj] at heq

theorem span_nodup (a : UInt64) {n : Nat} (h : n ≤ 2 ^ 64) : (span a n).Nodup := by
  refine List.Nodup.map_on ?_ List.nodup_range
  intro i hi j hj heq
  exact add_ofNat_inj (by have := List.mem_range.mp hi; omega)
    (by have := List.mem_range.mp hj; omega) heq

/-- Two parts of one block, one behind the other. -/
theorem span_apart {a : UInt64} {j n k n' : Nat} (h : j + n ≤ k) (hk : k + n' ≤ 2 ^ 64) :
    List.Disjoint (span (a + UInt64.ofNat j) n) (span (a + UInt64.ofNat k) n') := by
  intro b hb hb'
  obtain ⟨i, hi, rfl⟩ := mem_span.mp hb
  obtain ⟨i', hi', heq⟩ := mem_span.mp hb'
  rw [UInt64.add_assoc, UInt64.add_assoc, ← UInt64.ofNat_add, ← UInt64.ofNat_add] at heq
  have := add_ofNat_inj (by omega) (by omega) heq
  omega

/-- One block below another. -/
theorem span_below {a b : UInt64} {n n' : Nat} (h : a.toNat + n ≤ b.toNat)
    (hb : b.toNat + n' ≤ 2 ^ 64) : List.Disjoint (span a n) (span b n') := by
  intro c hc hc'
  obtain ⟨i, hi, rfl⟩ := mem_span.mp hc
  obtain ⟨j, hj, heq⟩ := mem_span.mp hc'
  have hi' : i < 2 ^ 64 := by omega
  have hj' : j < 2 ^ 64 := by omega
  have hplace := congrArg UInt64.toNat heq
  rw [UInt64.toNat_add, UInt64.toNat_add, UInt64.toNat_ofNat_of_lt' hi',
    UInt64.toNat_ofNat_of_lt' hj', Nat.mod_eq_of_lt (by omega), Nat.mod_eq_of_lt (by omega)]
    at hplace
  omega

/-- Blocks in ascending order, none reaching into the next. -/
theorem pairwise_below {b : List (UInt64 × Nat)}
    (h : b.Pairwise fun b c => b.1.toNat + b.2 ≤ c.1.toNat ∧ c.1.toNat + c.2 ≤ 2 ^ 64) :
    (b.map fun b => span b.1 b.2).Pairwise List.Disjoint :=
  List.pairwise_map.mpr (h.imp fun hbelow => span_below hbelow.1 hbelow.2)

theorem span_prefix_apart {a : UInt64} {n k n' : Nat} (h : n ≤ k) (hk : k + n' ≤ 2 ^ 64) :
    List.Disjoint (span a n) (span (a + UInt64.ofNat k) n') := by
  have hzero : a + UInt64.ofNat 0 = a := UInt64.add_zero a
  have hapart := span_apart (a := a) (j := 0) (n := n) (by omega) hk
  rwa [hzero] at hapart

/-! ## Cells -/

/-- The memory after the cells are stored, first to last. -/
def storeAll (m : Memory) (cells : List (UInt64 × UInt8)) : Memory :=
  cells.foldl (fun m c => writeByte m c.1 c.2) m

@[simp] theorem storeAll_nil (m : Memory) : storeAll m [] = m := rfl

@[simp] theorem storeAll_cons (m : Memory) (c : UInt64 × UInt8) (cells : List (UInt64 × UInt8)) :
    storeAll m (c :: cells) = storeAll (writeByte m c.1 c.2) cells := rfl

theorem storeAll_append (m : Memory) (cells cells' : List (UInt64 × UInt8)) :
    storeAll m (cells ++ cells') = storeAll (storeAll m cells) cells' :=
  List.foldl_append

/-- Nothing else changes. -/
theorem storeAll_of_notMem {a : UInt64} {cells : List (UInt64 × UInt8)} (m : Memory)
    (h : a ∉ cells.map Prod.fst) : storeAll m cells a = m a := by
  induction cells generalizing m with
  | nil => rfl
  | cons c cells ih =>
      rw [List.map_cons, List.mem_cons, not_or] at h
      rw [storeAll_cons, ih _ h.2, writeByte_of_ne m c.2 h.1]

/-- Cells at different addresses keep what was stored. -/
theorem storeAll_of_mem {a : UInt64} {v : UInt8} {cells : List (UInt64 × UInt8)} (m : Memory)
    (hnodup : (cells.map Prod.fst).Nodup) (h : (a, v) ∈ cells) : storeAll m cells a = v := by
  induction cells generalizing m with
  | nil => cases h
  | cons c cells ih =>
      rw [List.map_cons, List.nodup_cons] at hnodup
      rcases List.mem_cons.mp h with rfl | hrest
      · rw [storeAll_cons, storeAll_of_notMem _ hnodup.1, writeByte_self]
      · rw [storeAll_cons, ih _ hnodup.2 hrest]

theorem storeAll_agree {l : List UInt64} {cells : List (UInt64 × UInt8)} (m : Memory)
    (h : List.Disjoint l (cells.map Prod.fst)) : AgreeOn l (storeAll m cells) m :=
  fun _ ha => storeAll_of_notMem m (h ha)

/-- A loop that copies from cells none of its passes writes. -/
theorem copyLoop_eq {ι : Type} (dst src : ι → UInt64) (g : ι → UInt8 → UInt8) (items : List ι)
    (m : Memory) (h : ∀ x ∈ items, ∀ y ∈ items, src x ≠ dst y) :
    items.foldl (fun m x => writeByte m (dst x) (g x (m (src x)))) m
      = storeAll m (items.map fun x => (dst x, g x (m (src x)))) := by
  induction items generalizing m with
  | nil => rfl
  | cons x items ih =>
      rw [List.foldl_cons, List.map_cons, storeAll_cons,
        ih _ (fun y hy z hz => h y (List.mem_cons_of_mem _ hy) z (List.mem_cons_of_mem _ hz))]
      congr 1
      refine List.map_congr_left fun y hy => ?_
      rw [writeByte_of_ne m _ (h y (List.mem_cons_of_mem _ hy) x (List.mem_cons_self ..))]

/-! ## Blocks of bytes -/

/-- The `n` bytes from `a`. -/
def readBytes (m : Memory) (a : UInt64) (n : Nat) : List UInt8 := (span a n).map m

/-- The cells of the bytes `bs` from `a`. -/
def block (a : UInt64) (bs : List UInt8) : List (UInt64 × UInt8) := (span a bs.length).zip bs

/-- The memory with the bytes `bs` from `a`. -/
def writeBytes (m : Memory) (a : UInt64) (bs : List UInt8) : Memory := storeAll m (block a bs)

@[simp] theorem length_readBytes (m : Memory) (a : UInt64) (n : Nat) :
    (readBytes m a n).length = n := by
  rw [readBytes, List.length_map, length_span]

@[simp] theorem block_addresses (a : UInt64) (bs : List UInt8) :
    (block a bs).map Prod.fst = span a bs.length :=
  List.map_fst_zip (Nat.le_of_eq (length_span ..))

theorem readBytes_congr {m m' : Memory} {a : UInt64} {n : Nat} (h : AgreeOn (span a n) m m') :
    readBytes m a n = readBytes m' a n := List.map_congr_left h

theorem getElem_readBytes (m : Memory) (a : UInt64) {n k : Nat} (h : k < n) :
    getElem (readBytes m a n) k (by rwa [length_readBytes]) = m (a + UInt64.ofNat k) := by
  simp only [readBytes, span, List.getElem_map, List.getElem_range]

theorem writeBytes_agree {l : List UInt64} (m : Memory) {a : UInt64} {bs : List UInt8}
    (h : List.Disjoint l (span a bs.length)) : AgreeOn l (writeBytes m a bs) m :=
  storeAll_agree m (by rwa [block_addresses])

/-- What was written is read back. -/
theorem readBytes_writeBytes (m : Memory) (a : UInt64) (bs : List UInt8)
    (h : bs.length ≤ 2 ^ 64) : readBytes (writeBytes m a bs) a bs.length = bs := by
  refine List.ext_getElem (length_readBytes ..) fun k hk hk' => ?_
  rw [getElem_readBytes _ _ hk']
  refine storeAll_of_mem m (by rw [block_addresses]; exact span_nodup a h) ?_
  refine List.mem_iff_getElem.mpr ⟨k, ?_, ?_⟩
  · rw [block, List.length_zip, length_span, Nat.min_self]
    exact hk'
  · simp only [block, span, List.getElem_zip, List.getElem_map, List.getElem_range]

/-- One byte of what was written. -/
theorem writeBytes_apply (m : Memory) (a : UInt64) {bs : List UInt8} (h : bs.length ≤ 2 ^ 64)
    {k : Nat} (hk : k < bs.length) : writeBytes m a bs (a + UInt64.ofNat k) = bs[k] := by
  rw [← getElem_readBytes (writeBytes m a bs) a hk]
  exact List.getElem_of_eq (readBytes_writeBytes m a bs h) _

/-- The list with `ys` over its elements from place `k` on. -/
def splice {α : Type} (xs : List α) (k : Nat) (ys : List α) : List α :=
  xs.take k ++ ys ++ xs.drop (k + ys.length)

theorem length_splice {α : Type} {xs ys : List α} {k : Nat} (h : k + ys.length ≤ xs.length) :
    (splice xs k ys).length = xs.length := by
  simp only [splice, List.length_append, List.length_take, List.length_drop]
  omega

theorem getElem_splice {α : Type} {xs ys : List α} {k i : Nat} (h : k + ys.length ≤ xs.length)
    (hi : i < (splice xs k ys).length) :
    (splice xs k ys)[i] = if hlow : i < k then getElem xs i (by rwa [length_splice h] at hi)
      else if hin : i < k + ys.length then getElem ys (i - k) (by omega)
      else getElem xs i (by rwa [length_splice h] at hi) := by
  simp only [splice, List.getElem_append, List.length_append, List.length_take,
    List.getElem_take, List.getElem_drop]
  grind

/-- What was written within a block shows there. -/
theorem readBytes_writeBytes_within (m : Memory) (a : UInt64) {k n : Nat} {bs : List UInt8}
    (h : k + bs.length ≤ n) (hn : n ≤ 2 ^ 64) :
    readBytes (writeBytes m (a + UInt64.ofNat k) bs) a n = splice (readBytes m a n) k bs := by
  have houtside : ∀ i < n, (i < k ∨ k + bs.length ≤ i) →
      writeBytes m (a + UInt64.ofNat k) bs (a + UInt64.ofNat i) = m (a + UInt64.ofNat i) := by
    intro i hi hout
    refine storeAll_of_notMem m fun hmem => ?_
    rw [block_addresses] at hmem
    obtain ⟨j, hj, heq⟩ := mem_span.mp hmem
    rw [UInt64.add_assoc, ← UInt64.ofNat_add] at heq
    have := add_ofNat_inj (by omega) (by omega) heq
    omega
  refine List.ext_getElem ?_ fun i hi hi' => ?_
  · rw [length_splice (by rwa [length_readBytes]), length_readBytes, length_readBytes]
  · rw [length_readBytes] at hi
    rw [getElem_readBytes _ _ hi, getElem_splice (by rwa [length_readBytes])]
    split_ifs with hlow hin
    · rw [houtside i hi (Or.inl hlow), getElem_readBytes m a hi]
    · have hplace : a + UInt64.ofNat i = a + UInt64.ofNat k + UInt64.ofNat (i - k) := by
        rw [UInt64.add_assoc, ← UInt64.ofNat_add, Nat.add_sub_of_le (by omega)]
      rw [hplace, writeBytes_apply m _ (by omega) (by omega)]
    · rw [houtside i hi (Or.inr (by omega)), getElem_readBytes m a hi]

theorem readBytes_writeByte (m : Memory) (a : UInt64) {i n : Nat} (v : UInt8) (hi : i < n)
    (hn : n ≤ 2 ^ 64) :
    readBytes (writeByte m (a + UInt64.ofNat i) v) a n = (readBytes m a n).set i v := by
  refine List.ext_getElem (by simp) fun j hj hj' => ?_
  rw [length_readBytes] at hj
  rw [getElem_readBytes _ _ hj, List.getElem_set]
  by_cases heq : i = j
  · rw [if_pos heq, heq, writeByte_self]
  · rw [if_neg heq, getElem_readBytes _ _ hj]
    exact writeByte_of_ne m v fun h => heq (add_ofNat_inj (by omega) (by omega) h.symm)

/-- The list with these places set, first to last. -/
def setAll {α : Type} (xs : List α) (cells : List (Nat × α)) : List α :=
  cells.foldl (fun xs c => xs.set c.1 c.2) xs

/-- Cells within a block show there, the last of each place. -/
theorem readBytes_storeAll (m : Memory) (a : UInt64) {n : Nat} {cells : List (Nat × UInt8)}
    (h : ∀ c ∈ cells, c.1 < n) (hn : n ≤ 2 ^ 64) :
    readBytes (storeAll m (cells.map fun c => (a + UInt64.ofNat c.1, c.2))) a n
      = setAll (readBytes m a n) cells := by
  induction cells generalizing m with
  | nil => rfl
  | cons c cells ih =>
      rw [List.map_cons, storeAll_cons, ih _ (fun d hd => h d (List.mem_cons_of_mem _ hd)),
        readBytes_writeByte m a c.2 (h c (List.mem_cons_self ..)) hn, setAll, setAll,
        List.foldl_cons]

section Places

variable {α : Type} {xs : List α} {cells : List (Nat × α)} {k : Nat}

@[simp] theorem length_setAll (xs : List α) (cells : List (Nat × α)) :
    (setAll xs cells).length = xs.length := by
  induction cells generalizing xs with
  | nil => rfl
  | cons c cells ih => rw [setAll, List.foldl_cons, ← setAll, ih, List.length_set]

theorem setAll_append (xs : List α) (cells cells' : List (Nat × α)) :
    setAll xs (cells ++ cells') = setAll (setAll xs cells) cells' := List.foldl_append

theorem getElem?_setAll_of_notMem (h : k ∉ cells.map Prod.fst) :
    (setAll xs cells)[k]? = xs[k]? := by
  induction cells generalizing xs with
  | nil => rfl
  | cons c cells ih =>
      rw [List.map_cons, List.mem_cons, not_or] at h
      rw [setAll, List.foldl_cons, ← setAll, ih h.2, List.getElem?_set_ne (Ne.symm h.1)]

/-- A place holds one of the values set there. -/
theorem getElem?_setAll_of_mem (h : k ∈ cells.map Prod.fst) (hk : k < xs.length) :
    ∃ v, (k, v) ∈ cells ∧ (setAll xs cells)[k]? = some v := by
  induction cells generalizing xs with
  | nil => cases h
  | cons c cells ih =>
      rw [setAll, List.foldl_cons, ← setAll]
      by_cases hrest : k ∈ cells.map Prod.fst
      · obtain ⟨v, hmem, hv⟩ := @ih (xs.set c.1 c.2) hrest (by rwa [List.length_set])
        exact ⟨v, List.mem_cons_of_mem _ hmem, hv⟩
      · rw [List.map_cons, List.mem_cons] at h
        obtain rfl := h.resolve_right hrest
        exact ⟨c.2, List.mem_cons_self .., by
          rw [getElem?_setAll_of_notMem hrest, List.getElem?_set_self hk]⟩

/-- Of different places each holds the value set there. -/
theorem getElem?_setAll {v : α} (hnodup : (cells.map Prod.fst).Nodup) (h : (k, v) ∈ cells)
    (hk : k < xs.length) : (setAll xs cells)[k]? = some v := by
  obtain ⟨v', hmem, hv⟩ := getElem?_setAll_of_mem (List.mem_map_of_mem h) hk
  rw [hv, (Prod.mk.inj (List.inj_on_of_nodup_map hnodup hmem h rfl)).2]

/-- Consecutive places. -/
theorem setAll_zipIdx {ys : List α} (h : k + ys.length ≤ xs.length) :
    setAll xs (ys.zipIdx.map fun y => (k + y.2, y.1)) = splice xs k ys := by
  induction ys using List.reverseRecOn with
  | nil => simp [setAll, splice]
  | append_singleton ys y ih =>
      rw [List.length_append, List.length_singleton] at h
      rw [List.zipIdx_append, List.map_append, setAll_append, ih (by omega)]
      refine List.ext_getElem (by simp [setAll, splice]; omega) fun i hi hi' => ?_
      rw [getElem_splice (by simpa [setAll] using h)]
      simp only [setAll, List.zipIdx_singleton, List.map_cons, List.map_nil, List.foldl_cons,
        List.foldl_nil, List.getElem_set]
      rw [getElem_splice (by omega)]
      grind

end Places

/-! ## Little-endian words -/

/-- `str` of a 32-bit register. -/
def writeWord (m : Memory) (a : UInt64) (v : UInt32) : Memory := writeBytes m a (le32 v)

/-- `str` of a 64-bit register. -/
def writePointer (m : Memory) (a v : UInt64) : Memory := writeBytes m a (le64 v)

theorem fromLe_concat (bs : List UInt8) (b : UInt8) :
    fromLe (bs ++ [b]) = fromLe bs + b.toNat * 256 ^ bs.length := by
  induction bs with
  | nil => simp [fromLe]
  | cons c bs ih =>
      rw [List.cons_append, fromLe, fromLe, ih, List.length_cons, Nat.pow_succ]
      ring

theorem readLE_eq_fromLe (m : Memory) (a : UInt64) (n : Nat) :
    readLE m a n = fromLe (readBytes m a n) := by
  induction n with
  | zero => rfl
  | succ n ih =>
      rw [readLE, ih, readBytes, readBytes, span_succ, List.map_append, List.map_cons,
        List.map_nil, fromLe_concat, List.length_map, length_span]

theorem word_eq (m : Memory) (a : UInt64) : word m a = of32 (readBytes m a 4) :=
  congrArg UInt32.ofNat (readLE_eq_fromLe m a 4)

theorem pointer_eq (m : Memory) (a : UInt64) : pointer m a = of64 (readBytes m a 8) :=
  congrArg UInt64.ofNat (readLE_eq_fromLe m a 8)

theorem pointer_congr {m m' : Memory} {a : UInt64} (h : AgreeOn (span a 8) m m') :
    pointer m a = pointer m' a := congrArg UInt64.ofNat (readLE_congr h)

@[simp] theorem word_writeWord (m : Memory) (a : UInt64) (v : UInt32) :
    word (writeWord m a v) a = v := by
  have hread := readBytes_writeBytes m a (le32 v) (by rw [length_le32]; omega)
  rw [length_le32] at hread
  rw [word_eq, writeWord, hread, of32_le32]

@[simp] theorem pointer_writePointer (m : Memory) (a v : UInt64) :
    pointer (writePointer m a v) a = v := by
  have hread := readBytes_writeBytes m a (le64 v) (by rw [length_le64]; omega)
  rw [length_le64] at hread
  rw [pointer_eq, writePointer, hread, of64_le64]

theorem writeWord_agree {l : List UInt64} (m : Memory) {a : UInt64} (v : UInt32)
    (h : List.Disjoint l (span a 4)) : AgreeOn l (writeWord m a v) m :=
  writeBytes_agree m (by rwa [length_le32])

theorem writePointer_agree {l : List UInt64} (m : Memory) {a : UInt64} (v : UInt64)
    (h : List.Disjoint l (span a 8)) : AgreeOn l (writePointer m a v) m :=
  writeBytes_agree m (by rwa [length_le64])

theorem AgreeOn.trans {l : List UInt64} {m m' m'' : Memory} (h : AgreeOn l m m')
    (h' : AgreeOn l m' m'') : AgreeOn l m m'' := fun a ha => (h a ha).trans (h' a ha)

theorem AgreeOn.mono {l l' : List UInt64} {m m' : Memory} (h : AgreeOn l' m m')
    (hsub : l ⊆ l') : AgreeOn l m m' := fun a ha => h a (hsub ha)

end ByteMemory
