import TeamAttack.Codec

/-! # What the codec puts on the wire

    As lists of cells: the encoder writes the fourteen bytes `wire` of the
    record and moves the cursor on (`encodeFields_eq`), the decoder writes the
    twenty cells `fieldCells` of the wire (`decodeFields_eq`).  One after the
    other they carry the scalars over as they are and each flag as a bit
    (`encode_then_decode`). -/

namespace TeamAttack.Codec

open ByteMemory LittleEndian

/-! ## The wire -/

theorem baseFlag_lt : 0 < 7 := by decide

/-- The byte of the flags of a record with the bytes `f`. -/
def flagByte (fields : Fields) (f : UInt64 → UInt8) : UInt8 :=
  (fields.flags.toList.zipIdx.drop 1).foldl (fun flags x => flags ||| flagBit (f x.1) x.2)
    (f (getElem fields.flags 0 baseFlag_lt))

/-- The fourteen bytes of a record with the bytes `f`. -/
def wire (fields : Fields) (f : UInt64 → UInt8) : List UInt8 :=
  fields.scalars.toList.map f ++ [flagByte fields f]

/-- Bit `k` of a byte, as a byte. -/
def bitOf (flags : UInt8) (k : Nat) : UInt8 := (flags >>> UInt8.ofNat k) &&& 1

/-- The cells a wire with the bytes `w` fills at `rule`. -/
def fieldCells (fields : Fields) (rule : UInt64) (w : Nat → UInt8) : List (UInt64 × UInt8) :=
  fields.scalars.toList.zipIdx.map (fun x => (rule + x.1, w x.2))
    ++ fields.flags.toList.zipIdx.map (fun x => (rule + x.1, bitOf (w 13) x.2))

/-- All the offsets. -/
def Fields.offsets (fields : Fields) : List UInt64 :=
  fields.scalars.toList ++ fields.flags.toList

/-- A flag as the decoder leaves it: the base flag is sent as it is, its upper
    bits over those of the other flags. -/
def flagValue (fields : Fields) (f : UInt64 → UInt8) (k : Nat) (h : k < 7) : UInt8 :=
  bitOf (f fields.flags[0]) k ||| (if k ≠ 0 ∧ f fields.flags[k] ≠ 0 then 1 else 0)

@[simp] theorem length_wire (fields : Fields) (f : UInt64 → UInt8) :
    (wire fields f).length = 14 := by
  rw [wire, List.length_append, List.length_map, Vector.length_toList, List.length_singleton]

theorem fieldCells_addresses (fields : Fields) (rule : UInt64) (w : Nat → UInt8) :
    (fieldCells fields rule w).map Prod.fst = fields.offsets.map (rule + ·) := by
  have hfst (l : List UInt64) (g : UInt64 × Nat → UInt8) :
      (l.zipIdx.map fun x => (rule + x.1, g x)).map Prod.fst = l.map (rule + ·) := by
    calc (l.zipIdx.map fun x => (rule + x.1, g x)).map Prod.fst
        = (l.zipIdx.map Prod.fst).map (rule + ·) := by rw [List.map_map, List.map_map]; rfl
      _ = l.map (rule + ·) := by rw [List.zipIdx_map_fst]
  rw [fieldCells, List.map_append, hfst, hfst _ (fun x => bitOf (w 13) x.2), Fields.offsets,
    List.map_append]

theorem block_eq_zipIdx (a : UInt64) (bs : List UInt8) :
    block a bs = bs.zipIdx.map fun x => (a + UInt64.ofNat x.2, x.1) := by
  refine List.ext_getElem (by simp [block]) fun k hk hk' => ?_
  simp [block, span]

/-! ## What a call does -/

/-- The byte of a scalar lies within the wire. -/
theorem scalar_place (fields : Fields) (place : UInt64) {y : UInt64 × Nat}
    (hy : y ∈ fields.scalars.toList.zipIdx) : place + UInt64.ofNat y.2 ∈ span place 14 := by
  have hlt := List.snd_lt_of_mem_zipIdx hy
  rw [Vector.length_toList] at hlt
  exact mem_span.mpr ⟨y.2, by omega, rfl⟩

/-- What a routine reads of its descriptor and its cursor. -/
structure Reads (m : Memory) (desc cursor rule place : UInt64) (position : UInt32) : Prop where
  rule_eq : pointer m (desc + 8) = rule
  position_eq : word m (cursor + 12) = position
  place_eq : pointer m cursor + position.toUInt64 = place

section Calls

variable (fields : Fields) {m : Memory} {desc cursor rule place : UInt64} {position : UInt32}

/-- The fourteen cells of the wire, one store after another. -/
theorem writeBytes_wire (fields : Fields) (m : Memory) (place : UInt64) (f : UInt64 → UInt8) :
    writeByte (storeAll m (fields.scalars.toList.zipIdx.map fun x =>
        (place + UInt64.ofNat x.2, f x.1))) (place + 13) (flagByte fields f)
      = writeBytes m place (wire fields f) := by
  rw [writeBytes, block_eq_zipIdx, wire, List.zipIdx_append, List.map_append, storeAll_append,
    List.zipIdx_map, List.map_map, List.length_map, Vector.length_toList]
  rfl

theorem encodeFields_eq (h : Reads m desc cursor rule place position)
    (hrule : ∀ off ∈ fields.offsets, rule + off ∉ span place 14)
    (hcursor : List.Disjoint (span (cursor + 12) 4) (span place 14)) :
    encodeFields fields desc cursor m
      = (desc, writeWord (writeBytes m place (wire fields fun off => m (rule + off)))
          (cursor + 12) (position + 14)) := by
  have hcopy := copyLoop_eq (fun x : UInt64 × Nat => place + UInt64.ofNat x.2)
    (fun x => rule + x.1) (fun _ v => v) fields.scalars.toList.zipIdx m (by
      intro x hx y hy heq
      exact hrule x.1 (List.mem_append_left _ (List.fst_mem_of_mem_zipIdx hx))
        (heq ▸ scalar_place fields place hy))
  -- the flags are read after the scalars are out, and the same
  have hread : ∀ off ∈ fields.flags.toList, storeAll m (fields.scalars.toList.zipIdx.map fun x =>
      (place + UInt64.ofNat x.2, m (rule + x.1))) (rule + off) = m (rule + off) := by
    intro off hoff
    refine storeAll_of_notMem m fun hmem => hrule off (List.mem_append_right _ hoff) ?_
    obtain ⟨c, hc, hfst⟩ := List.mem_map.mp hmem
    obtain ⟨y, hy, rfl⟩ := List.mem_map.mp hc
    exact hfst ▸ scalar_place fields place hy
  have hflags : (fields.flags.toList.zipIdx.drop 1).foldl
      (fun flags x => flags ||| flagBit (byte (storeAll m (fields.scalars.toList.zipIdx.map fun x =>
        (place + UInt64.ofNat x.2, m (rule + x.1)))) (rule + x.1)) x.2)
      (byte (storeAll m (fields.scalars.toList.zipIdx.map fun x =>
        (place + UInt64.ofNat x.2, m (rule + x.1)))) (rule + fields.flags[0]))
      = flagByte fields fun off => m (rule + off) := by
    rw [flagByte, byte, hread _ (Vector.mem_toList_iff.mpr (Vector.getElem_mem _))]
    refine List.foldl_ext _ _ _ fun flags x hx => ?_
    rw [byte, hread x.1 (List.fst_mem_of_mem_zipIdx (List.mem_of_mem_drop hx))]
  have hwritten : AgreeOn (span (cursor + 12) 4)
      (writeBytes m place (wire fields fun off => m (rule + off))) m :=
    writeBytes_agree m (by rwa [length_wire])
  have hposition := word_congr hwritten
  simp only [encodeFields, h.rule_eq, h.position_eq, h.place_eq]
  simp only [byte] at hcopy hflags ⊢
  rw [hcopy, hflags, writeBytes_wire fields m place fun off => m (rule + off), hposition,
    h.position_eq]

theorem decodeFields_eq (h : Reads m desc cursor rule place position)
    (hrule : ∀ off ∈ fields.offsets, rule + off ∉ span place 14)
    (hcursor : ∀ off ∈ fields.offsets, rule + off ∉ span (cursor + 12) 4) :
    decodeFields fields desc cursor m
      = (desc, writeWord (storeAll m (fieldCells fields rule fun k => m (place + UInt64.ofNat k)))
          (cursor + 12) (position + 14)) := by
  have hlast : place + 13 ∈ span place 14 := mem_span.mpr ⟨13, by omega, rfl⟩
  have hscalars := copyLoop_eq (fun x : UInt64 × Nat => rule + x.1)
    (fun x => place + UInt64.ofNat x.2) (fun _ v => v) fields.scalars.toList.zipIdx m (by
      intro x hx y hy heq
      exact hrule y.1 (List.mem_append_left _ (List.fst_mem_of_mem_zipIdx hy))
        (heq ▸ scalar_place fields place hx))
  have hread : storeAll m (fields.scalars.toList.zipIdx.map fun x =>
      (rule + x.1, m (place + UInt64.ofNat x.2))) (place + 13) = m (place + 13) := by
    refine storeAll_of_notMem m fun hmem => ?_
    obtain ⟨c, hc, hfst⟩ := List.mem_map.mp hmem
    obtain ⟨y, hy, rfl⟩ := List.mem_map.mp hc
    exact hrule y.1 (List.mem_append_left _ (List.fst_mem_of_mem_zipIdx hy)) ((show rule + y.1 = place + 13 from hfst) ▸ hlast)
  have hflags := copyLoop_eq (fun x : UInt64 × Nat => rule + x.1) (fun _ => place + 13)
    (fun x v => bitOf v x.2) fields.flags.toList.zipIdx
    (storeAll m (fields.scalars.toList.zipIdx.map fun x =>
      (rule + x.1, m (place + UInt64.ofNat x.2)))) (by
      intro x hx y hy heq
      exact hrule y.1 (List.mem_append_right _ (List.fst_mem_of_mem_zipIdx hy)) (heq ▸ hlast))
  rw [hread, ← storeAll_append] at hflags
  have hfilled : AgreeOn (span (cursor + 12) 4)
      (storeAll m (fieldCells fields rule fun k => m (place + UInt64.ofNat k))) m := by
    refine storeAll_agree m fun a ha hmem => ?_
    rw [fieldCells_addresses] at hmem
    obtain ⟨off, hoff, rfl⟩ := List.mem_map.mp hmem
    exact hcursor off hoff ha
  have hposition := word_congr hfilled
  simp only [decodeFields, h.rule_eq, h.position_eq, h.place_eq, byte]
  rw [hscalars]
  simp only [bitOf] at hflags
  rw [hflags]
  simp only [fieldCells, bitOf] at hposition ⊢
  exact congrArg (fun p => (desc, writeWord _ (cursor + 12) (p + 14)))
    (hposition.trans h.position_eq)

end Calls

/-! ## The flags -/

theorem bitOf_or (a b : UInt8) (k : Nat) : bitOf (a ||| b) k = bitOf a k ||| bitOf b k := by
  rw [bitOf, bitOf, bitOf]
  apply UInt8.eq_of_toBitVec_eq
  ext i hi
  simp
  grind

theorem bitOf_flagBit (v : UInt8) {i k : Nat} (hi : i < 7) (hk : k < 7) :
    bitOf (flagBit v i) k = if i = k ∧ v ≠ 0 then 1 else 0 := by
  by_cases hv : v ≠ 0
  · have hbits : ∀ i < 7, ∀ k < 7, bitOf (1 <<< UInt8.ofNat i) k = if i = k then 1 else 0 := by
      decide
    rw [flagBit, if_pos hv, hbits i hi k hk]
    simp only [hv, and_true, ne_eq, not_false_eq_true]
  · have hzero : ∀ i < 7, ∀ k < 7, bitOf (0 <<< UInt8.ofNat i) k = 0 := by decide
    rw [flagBit, if_neg hv, hzero i hi k hk, if_neg (fun h => hv h.2)]

/-- Bits put over bits: a bit is up when one of those put there is. -/
theorem bitOf_foldl {l : List (UInt64 × Nat)} (f : UInt64 → UInt8) {k : Nat} (hk : k < 7)
    (hl : ∀ x ∈ l, x.2 < 7) (init : UInt8) :
    bitOf (l.foldl (fun flags x => flags ||| flagBit (f x.1) x.2) init) k
      = bitOf init k ||| (if ∃ x ∈ l, x.2 = k ∧ f x.1 ≠ 0 then 1 else 0) := by
  induction l generalizing init with
  | nil => simp
  | cons x l ih =>
      rw [List.foldl_cons, ih (fun y hy => hl y (List.mem_cons_of_mem _ hy)), bitOf_or,
        bitOf_flagBit _ (hl x (List.mem_cons_self ..)) hk]
      by_cases hx : x.2 = k ∧ f x.1 ≠ 0
      · have hhead : ∃ y ∈ x :: l, y.2 = k ∧ f y.1 ≠ 0 := ⟨x, List.mem_cons_self .., hx⟩
        rw [if_pos hx, if_pos hhead]
        split <;> simp [UInt8.or_assoc]
      · rw [if_neg hx]
        have hiff : (∃ y ∈ x :: l, y.2 = k ∧ f y.1 ≠ 0) ↔ ∃ y ∈ l, y.2 = k ∧ f y.1 ≠ 0 := by
          simp [hx]
        simp only [hiff, UInt8.or_zero]

/-- Each bit of the flag byte. -/
theorem bitOf_flagByte (fields : Fields) (f : UInt64 → UInt8) {k : Nat} (h : k < 7) :
    bitOf (flagByte fields f) k = flagValue fields f k h := by
  have hmem : ∀ x ∈ fields.flags.toList.zipIdx.drop 1, x.2 < 7 := by
    intro x hx
    simpa using List.snd_lt_of_mem_zipIdx (List.mem_of_mem_drop hx)
  rw [flagByte, bitOf_foldl f h hmem, flagValue]
  congr 2
  apply propext
  constructor
  · rintro ⟨x, hx, rfl, hf⟩
    obtain ⟨i, hi, rfl⟩ := List.mem_drop_iff_getElem.mp hx
    simp at hf ⊢
    exact hf
  · rintro ⟨hk, hf⟩
    refine ⟨(fields.flags[k], k), List.mem_drop_iff_getElem.mpr ⟨k - 1, ?_, ?_⟩, rfl, hf⟩
    · simp
      omega
    · have hback : 1 + (k - 1) = k := by omega
      simp [hback]

theorem bitOf_le (v : UInt8) (k : Nat) : bitOf v k ≤ 1 := UInt8.and_le_right

theorem bit_cases {v : UInt8} (h : v ≤ 1) : v = 0 ∨ v = 1 := by
  have hlt := UInt8.le_iff_toNat_le.mp h
  have hone : (1 : UInt8).toNat = 1 := rfl
  rcases Nat.le_one_iff_eq_zero_or_eq_one.mp (hone ▸ hlt) with hzero | hbit
  · exact Or.inl (UInt8.toNat_inj.mp hzero)
  · exact Or.inr (UInt8.toNat_inj.mp hbit)

/-- Of a record whose flags are bits, each flag is its own bit. -/
theorem flagValue_of_bits {fields : Fields} {f : UInt64 → UInt8} {k : Nat} (h : k < 7)
    (hbits : ∀ i (hi : i < 7), f fields.flags[i] ≤ 1) :
    flagValue fields f k h = f fields.flags[k] := by
  have hlow : ∀ k < 7, k ≠ 0 → bitOf 0 k = 0 ∧ bitOf 1 k = 0 := by decide
  rw [flagValue]
  cases k with
  | zero => rcases bit_cases (hbits 0 h) with hv | hv <;> simp [hv, bitOf]
  | succ k =>
      have hbase : bitOf (f fields.flags[0]) (k + 1) = 0 := by
        rcases bit_cases (hbits 0 (by omega)) with hv | hv
        · rw [hv]
          exact (hlow (k + 1) h (by omega)).1
        · rw [hv]
          exact (hlow (k + 1) h (by omega)).2
      rw [hbase]
      rcases bit_cases (hbits (k + 1) h) with hv | hv <;> simp [hv]

/-! ## Round trip -/

theorem reviewed_offset_lt : ∀ off ∈ reviewed.offsets, off.toNat < 24 :=
  forall_mem_of_all (by decide)

theorem mem_record {rule off : UInt64} (h : off ∈ reviewed.offsets) :
    rule + off ∈ span rule 24 :=
  mem_span.mpr ⟨off.toNat, reviewed_offset_lt off h, by rw [UInt64.ofNat_toNat]⟩

/-- The addresses of the fields are different. -/
theorem fieldAddresses_nodup (rule : UInt64) : (reviewed.offsets.map (rule + ·)).Nodup :=
  List.Nodup.map (fun _ _ h => UInt64.add_right_inj rule |>.mp h) (by decide)

/-- The position of a cursor is not its buffer. -/
theorem position_apart (cursor : UInt64) :
    List.Disjoint (span cursor 8) (span (cursor + 12) 4) :=
  span_prefix_apart (k := 12) (by omega) (by omega)

theorem position_subset (cursor : UInt64) : span (cursor + 12) 4 ⊆ span cursor 16 :=
  span_subset (k := 12) (by omega)

theorem rule_subset (desc : UInt64) : span (desc + 8) 8 ⊆ span desc 16 :=
  span_subset (k := 8) (by omega)

theorem scalar_mem_fieldCells (fields : Fields) (rule : UInt64) (w : Nat → UInt8) {i : Nat}
    (h : i < 13) : (rule + fields.scalars[i], w i) ∈ fieldCells fields rule w := by
  refine List.mem_append_left _ (List.mem_map.mpr ⟨(fields.scalars[i], i), ?_, rfl⟩)
  exact List.mem_zipIdx_iff_getElem?.mpr (by simp [h])

theorem flag_mem_fieldCells (fields : Fields) (rule : UInt64) (w : Nat → UInt8) {k : Nat}
    (h : k < 7) : (rule + fields.flags[k], bitOf (w 13) k) ∈ fieldCells fields rule w := by
  refine List.mem_append_right _ (List.mem_map.mpr ⟨(fields.flags[k], k), ?_, rfl⟩)
  exact List.mem_zipIdx_iff_getElem?.mpr (by simp [h])

theorem wire_scalar (fields : Fields) (f : UInt64 → UInt8) {i : Nat} (h : i < 13) :
    getElem (wire fields f) i (by rw [length_wire]; omega) = f fields.scalars[i] := by
  simp [wire, h]

theorem wire_flags (fields : Fields) (f : UInt64 → UInt8) :
    getElem (wire fields f) 13 (by rw [length_wire]; omega) = flagByte fields f := by
  simp [wire]

/-- What an encoder leaves behind: the wire at its place, the position fourteen
    bytes on, and nothing else changed. -/
structure Sent (m sent : Memory) (desc cursor rule place : UInt64) (position : UInt32) :
    Prop where
  scalars : ∀ i (hi : i < 13), sent (place + UInt64.ofNat i) = m (rule + reviewed.scalars[i])
  flags : sent (place + UInt64.ofNat 13) = flagByte reviewed fun off => m (rule + off)
  position_eq : word sent (cursor + 12) = position + 14
  rule_eq : pointer sent (desc + 8) = rule
  frame : ∀ a, a ∉ span place 14 → a ∉ span (cursor + 12) 4 → sent a = m a

theorem sent_wire {m : Memory} {desc cursor rule place : UInt64} {position : UInt32}
    (h : Reads m desc cursor rule place position)
    (hwireDesc : List.Disjoint (span place 14) (span (desc + 8) 8))
    (hwireCursor : List.Disjoint (span place 14) (span (cursor + 12) 4))
    (hdescCursor : List.Disjoint (span (desc + 8) 8) (span (cursor + 12) 4)) :
    Sent m (writeWord (writeBytes m place (wire reviewed fun off => m (rule + off)))
      (cursor + 12) (position + 14)) desc cursor rule place position := by
  generalize hbytes : wire reviewed (fun off => m (rule + off)) = bytes
  have hlen : bytes.length = 14 := by rw [← hbytes, length_wire]
  have hwritten : ∀ k (hk : k < bytes.length), writeWord (writeBytes m place bytes)
      (cursor + 12) (position + 14) (place + UInt64.ofNat k) = bytes[k] := by
    intro k hk
    rw [← writeBytes_apply m place (by omega) hk]
    exact writeWord_agree _ _ hwireCursor _ (mem_span.mpr ⟨k, by omega, rfl⟩)
  refine ⟨fun i hi => ?_, ?_, word_writeWord .., ?_, fun a hplace hcursor => ?_⟩
  · rw [hwritten i (by omega)]
    subst hbytes
    exact wire_scalar reviewed _ hi
  · rw [hwritten 13 (by omega)]
    subst hbytes
    exact wire_flags reviewed _
  · refine (pointer_congr ((writeWord_agree _ _ hdescCursor).trans
      (writeBytes_agree m fun a ha ha' => ?_))).trans h.rule_eq
    exact hwireDesc (hlen ▸ ha') ha
  · refine ((writeWord_agree (l := [a]) _ _ (List.singleton_disjoint.mpr hcursor)).trans
      (writeBytes_agree m ?_)) a (List.mem_singleton_self a)
    rw [hlen]
    exact List.singleton_disjoint.mpr hplace

/-- The memory after an encode, the descriptor at another record and the cursor
    put back. -/
def rewound (m : Memory) (desc cursor rule' : UInt64) (position : UInt32) (place : UInt64)
    (bytes : List UInt8) : Memory :=
  writeWord (writePointer (writeWord (writeBytes m place bytes) (cursor + 12) (position + 14))
    (desc + 8) rule') (cursor + 12) position

section Rewound

variable {m : Memory} {desc cursor rule rule' place : UInt64} {position : UInt32}
  {bytes : List UInt8}

theorem rewound_agree {l : List UInt64} (hplace : List.Disjoint l (span place bytes.length))
    (hdesc : List.Disjoint l (span (desc + 8) 8))
    (hcursor : List.Disjoint l (span (cursor + 12) 4)) :
    AgreeOn l (rewound m desc cursor rule' position place bytes) m :=
  (((writeWord_agree _ _ hcursor).trans (writePointer_agree _ _ hdesc)).trans
    (writeWord_agree _ _ hcursor)).trans (writeBytes_agree m hplace)

/-- The wire stands where it was written. -/
theorem rewound_wire (hlen : bytes.length ≤ 2 ^ 64)
    (hdesc : List.Disjoint (span place bytes.length) (span (desc + 8) 8))
    (hcursor : List.Disjoint (span place bytes.length) (span (cursor + 12) 4)) {k : Nat}
    (hk : k < bytes.length) :
    rewound m desc cursor rule' position place bytes (place + UInt64.ofNat k) = bytes[k] := by
  have hagree := ((writeWord_agree (writePointer (writeWord (writeBytes m place bytes)
    (cursor + 12) (position + 14)) (desc + 8) rule') position hcursor).trans
    (writePointer_agree _ rule' hdesc)).trans (writeWord_agree _ (position + 14) hcursor)
  rw [← writeBytes_apply m place hlen hk]
  exact hagree _ (mem_span.mpr ⟨k, hk, rfl⟩)

theorem reads_rewound (h : Reads m desc cursor rule place position)
    (hplace : List.Disjoint (span cursor 8) (span place bytes.length))
    (hdesc : List.Disjoint (span cursor 8) (span (desc + 8) 8))
    (hcursor : List.Disjoint (span (desc + 8) 8) (span (cursor + 12) 4)) :
    Reads (rewound m desc cursor rule' position place bytes) desc cursor rule' place position where
  rule_eq := (pointer_congr (writeWord_agree _ _ hcursor)).trans (pointer_writePointer ..)
  position_eq := word_writeWord ..
  place_eq := by
    rw [pointer_congr (rewound_agree hplace hdesc (position_apart cursor))]
    exact h.place_eq

end Rewound

/-- The memory after a decode of the wire `w`. -/
def filled (before : Memory) (cursor rule : UInt64) (position : UInt32) (w : Nat → UInt8) :
    Memory :=
  writeWord (storeAll before (fieldCells reviewed rule w)) (cursor + 12) (position + 14)

section Filled

variable {before : Memory} {cursor rule : UInt64} {position : UInt32} {w : Nat → UInt8}

theorem filled_agree {l : List UInt64}
    (hfields : List.Disjoint l (reviewed.offsets.map (rule + ·)))
    (hcursor : List.Disjoint l (span (cursor + 12) 4)) :
    AgreeOn l (filled before cursor rule position w) before := by
  refine (writeWord_agree _ _ hcursor).trans (storeAll_agree before ?_)
  rw [fieldCells_addresses]
  exact hfields

/-- Each field holds what its cell says: the fields are different places. -/
theorem filled_field (hcursor : List.Disjoint (span rule 24) (span (cursor + 12) 4))
    {off : UInt64} (hoff : off ∈ reviewed.offsets) {v : UInt8}
    (hcell : (rule + off, v) ∈ fieldCells reviewed rule w) :
    filled before cursor rule position w (rule + off) = v := by
  have hnodup : ((fieldCells reviewed rule w).map Prod.fst).Nodup := by
    rw [fieldCells_addresses]
    exact fieldAddresses_nodup rule
  exact (writeWord_agree _ _ hcursor _ (mem_record hoff)).trans
    (storeAll_of_mem before hnodup hcell)

theorem filled_scalar (hcursor : List.Disjoint (span rule 24) (span (cursor + 12) 4)) {i : Nat}
    (hi : i < 13) :
    filled before cursor rule position w (rule + reviewed.scalars[i]) = w i :=
  filled_field hcursor
    (List.mem_append_left _ (Vector.mem_toList_iff.mpr (Vector.getElem_mem _)))
    (scalar_mem_fieldCells reviewed rule w hi)

theorem filled_flag (hcursor : List.Disjoint (span rule 24) (span (cursor + 12) 4)) {k : Nat}
    (hk : k < 7) :
    filled before cursor rule position w (rule + reviewed.flags[k]) = bitOf (w 13) k :=
  filled_field hcursor
    (List.mem_append_right _ (Vector.mem_toList_iff.mpr (Vector.getElem_mem _)))
    (flag_mem_fieldCells reviewed rule w hk)

end Filled

/-- **Over the wire.**  Encode a record, rewind the cursor, decode into another
    record: each routine returns its descriptor and moves the position on by
    fourteen; the scalars arrive as they were, each flag as `flagValue` says,
    so that a record whose flags are bits arrives whole; and nothing changes
    but the wire, the fields of the second record, the record the descriptor
    names and the position. -/
theorem encode_then_decode (m : Memory) (desc cursor rule' : UInt64) (position : UInt32)
    (rule place : UInt64) (h : Reads m desc cursor rule place position)
    (happart : [span rule 24, span rule' 24, span place 14, span desc 16,
      span cursor 16].Pairwise List.Disjoint) :
    ∃ sent received,
      encode desc cursor m = (desc, sent) ∧ Sent m sent desc cursor rule place position
      ∧ decode desc cursor (writeWord (writePointer sent (desc + 8) rule') (cursor + 12) position)
          = (desc, received)
      ∧ (∀ off ∈ reviewed.scalars.toList, received (rule' + off) = m (rule + off))
      ∧ (∀ k (hk : k < 7), received (rule' + reviewed.flags[k])
          = flagValue reviewed (fun off => m (rule + off)) k hk)
      ∧ ((∀ off ∈ reviewed.flags.toList, m (rule + off) ≤ 1) →
          ∀ off ∈ reviewed.offsets, received (rule' + off) = m (rule + off))
      ∧ pointer received (desc + 8) = rule' ∧ word received (cursor + 12) = position + 14
      ∧ ∀ a, a ∉ span place 14 → a ∉ reviewed.offsets.map (rule' + ·) → a ∉ span (desc + 8) 8 →
          a ∉ span (cursor + 12) 4 → received a = m a := by
  simp only [List.pairwise_cons, List.mem_cons, List.not_mem_nil, or_false, forall_eq_or_imp,
    forall_eq, false_imp_iff, implies_true, List.Pairwise.nil, and_true] at happart
  obtain ⟨⟨-, hruleWire, -, -⟩, ⟨hruleWire', hruleDesc', hruleCursor'⟩,
    ⟨hwireDesc, hwireCursor⟩, hdescCursor⟩ := happart
  have hsub := rule_subset desc
  have hsub' := position_subset cursor
  have hlen := length_wire reviewed fun off => m (rule + off)
  have hsent := encodeFields_eq reviewed h (fun off hoff => hruleWire (mem_record hoff))
    (fun a ha ha' => hwireCursor ha' (hsub' ha))
  have heffect := sent_wire h (fun a ha ha' => hwireDesc ha (hsub ha'))
    (fun a ha ha' => hwireCursor ha (hsub' ha')) (fun a ha ha' => hdescCursor (hsub ha) (hsub' ha'))
  generalize hbytes : wire reviewed (fun off => m (rule + off)) = bytes at hsent hlen heffect
  have hreads : Reads (rewound m desc cursor rule' position place bytes) desc cursor rule' place
      position := reads_rewound h (by
        rw [hlen]
        exact fun a ha ha' => hwireCursor ha' (span_prefix_subset (by omega) ha))
      (fun a ha ha' => hdescCursor (hsub ha') (span_prefix_subset (by omega) ha))
      (fun a ha ha' => hdescCursor (hsub ha) (hsub' ha'))
  have hreceived := decodeFields_eq reviewed hreads
    (fun off hoff => hruleWire' (mem_record hoff))
    (fun off hoff ha => hruleCursor' (mem_record hoff) (hsub' ha))
  have hwire : ∀ k (hk : k < bytes.length), rewound m desc cursor rule' position place bytes
      (place + UInt64.ofNat k) = bytes[k] := fun k hk => rewound_wire (by omega)
    (by rw [hlen]; exact fun a ha ha' => hwireDesc ha (hsub ha'))
    (by rw [hlen]; exact fun a ha ha' => hwireCursor ha (hsub' ha')) hk
  generalize hbefore : rewound m desc cursor rule' position place bytes = before
    at hreads hreceived hwire
  have hfields : List.Disjoint (span rule' 24) (span (cursor + 12) 4) :=
    fun a ha ha' => hruleCursor' ha (hsub' ha')
  have hscalar : ∀ i (hi : i < 13), filled before cursor rule' position
      (fun k => before (place + UInt64.ofNat k)) (rule' + reviewed.scalars[i])
        = m (rule + reviewed.scalars[i]) := by
    intro i hi
    rw [filled_scalar hfields hi, hwire i (by omega)]
    subst hbytes
    exact wire_scalar reviewed _ hi
  have hflag : ∀ k (hk : k < 7), filled before cursor rule' position
      (fun k => before (place + UInt64.ofNat k)) (rule' + reviewed.flags[k])
        = flagValue reviewed (fun off => m (rule + off)) k hk := by
    intro k hk
    rw [filled_flag hfields hk, hwire 13 (by omega), ← bitOf_flagByte]
    subst hbytes
    exact congrArg (bitOf · k) (wire_flags reviewed _)
  refine ⟨_, _, hsent, heffect, (congrArg _ hbefore).trans hreceived, ?_, hflag, fun hbits => ?_,
    ?_, word_writeWord .., ?_⟩
  · intro off hoff
    obtain ⟨i, hi, rfl⟩ := Vector.getElem_of_mem (Vector.mem_toList_iff.mp hoff)
    exact hscalar i hi
  · intro off hoff
    rcases List.mem_append.mp hoff with hoff | hoff
    · obtain ⟨i, hi, rfl⟩ := Vector.getElem_of_mem (Vector.mem_toList_iff.mp hoff)
      exact hscalar i hi
    · obtain ⟨k, hk, rfl⟩ := Vector.getElem_of_mem (Vector.mem_toList_iff.mp hoff)
      exact (hflag k hk).trans (flagValue_of_bits hk fun j hj =>
        hbits _ (Vector.mem_toList_iff.mpr (Vector.getElem_mem _)))
  · refine (pointer_congr (filled_agree (fun a ha ha' => ?_) fun a ha ha' => ?_)).trans
      hreads.rule_eq
    · obtain ⟨off, hoff, rfl⟩ := List.mem_map.mp ha'
      exact hruleDesc' (mem_record hoff) (hsub ha)
    · exact hdescCursor (hsub ha) (hsub' ha')
  · intro a hplace hoffsets hdesc hcursor
    refine (filled_agree (List.singleton_disjoint.mpr hoffsets)
      (List.singleton_disjoint.mpr hcursor) a (List.mem_singleton_self a)).trans ?_
    rw [← hbefore]
    refine rewound_agree (l := [a]) ?_ (List.singleton_disjoint.mpr hdesc)
      (List.singleton_disjoint.mpr hcursor) a (List.mem_singleton_self a)
    rw [hlen]
    exact List.singleton_disjoint.mpr hplace

/-- A record at `1000` with both flags set, the stream at `3000`, a descriptor at
    `4000` and a cursor at `5000`. -/
def armedRecord : Memory :=
  ofCells [(0x1009, 1), (0x100d, 1), (0x4009, 0x10), (0x5001, 0x30)]

theorem reads_armedRecord : Reads armedRecord 0x4000 0x5000 0x1000 0x3000 0 where
  rule_eq := by decide +kernel
  position_eq := by decide +kernel
  place_eq := by decide +kernel

/-- Its flags go out in one byte and arrive. -/
theorem encode_then_decode_armed : ∃ sent received,
    encode 0x4000 0x5000 armedRecord = (0x4000, sent)
      ∧ sent (0x3000 + UInt64.ofNat 13) = 3 ∧ word sent (0x5000 + 12) = 14
      ∧ decode 0x4000 0x5000 (writeWord (writePointer sent (0x4000 + 8) 0x2000) (0x5000 + 12) 0)
          = (0x4000, received)
      ∧ received (0x2000 + 9) = 1 ∧ received (0x2000 + 13) = 1 := by
  obtain ⟨sent, received, hsent, heffect, hreceived, -, -, hwhole, -⟩ :=
    encode_then_decode armedRecord 0x4000 0x5000 0x2000 0 0x1000 0x3000 reads_armedRecord
      (pairwise_below (b := [(0x1000, 24), (0x2000, 24), (0x3000, 14), (0x4000, 16),
        (0x5000, 16)]) (by decide))
  have hflags : ∀ off ∈ reviewed.flags.toList, armedRecord (0x1000 + off) ≤ 1 :=
    forall_mem_of_all (by decide +kernel)
  refine ⟨sent, received, hsent, heffect.flags.trans (by decide +kernel), heffect.position_eq,
    hreceived, ?_, ?_⟩
  · exact (hwhole hflags 9 (by decide)).trans (by decide +kernel)
  · exact (hwhole hflags 13 (by decide)).trans (by decide +kernel)

end TeamAttack.Codec
