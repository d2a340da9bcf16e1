import TeamAttack.CodecRoundTrip

/-! # What the self-test tells

    Each pass puts the arguments into memory, calls a routine and compares the
    buffers.  At the level of buffers a routine splices the wire into the
    stream (`encode_buffers`) or fills the fields of the record
    (`decode_buffers`), whatever fields it is wired to.  So a pass succeeds
    when the bytes are the expected ones, and over all passes that leaves one
    wiring (`selfTest_ok_iff`). -/

namespace TeamAttack.Codec

open ByteMemory LittleEndian CheckedWord

/-! ## The arguments -/

/-- No two of the locals share a byte. -/
theorem Locals.disjoint (l : Locals) :
    (List.Disjoint (span l.source 56) (span l.stream 64)
      ∧ List.Disjoint (span l.source 56) (span l.output 56)
      ∧ List.Disjoint (span l.source 56) (span l.desc 16)
      ∧ List.Disjoint (span l.source 56) (span l.cursor 16))
    ∧ (List.Disjoint (span l.stream 64) (span l.output 56)
      ∧ List.Disjoint (span l.stream 64) (span l.desc 16)
      ∧ List.Disjoint (span l.stream 64) (span l.cursor 16))
    ∧ (List.Disjoint (span l.output 56) (span l.desc 16)
      ∧ List.Disjoint (span l.output 56) (span l.cursor 16))
    ∧ List.Disjoint (span l.desc 16) (span l.cursor 16) := by
  simpa using l.apart

/-- The descriptor and the cursor name these buffers. -/
structure Arguments (l : Locals) (m : Memory) (rule : UInt64) (position : UInt32) : Prop where
  table : pointer m l.desc = 0
  rule_eq : pointer m (l.desc + 8) = rule
  buffer : pointer m l.cursor = l.stream
  capacity : word m (l.cursor + 8) = 64
  position_eq : word m (l.cursor + 12) = position

section Arguments

variable {l : Locals} {m m' : Memory} {rule : UInt64} {position : UInt32}

theorem argumentsKept_iff : argumentsKept l l.desc rule position m = true
    ↔ Arguments l m rule position := by
  simp only [argumentsKept, Bool.and_eq_true, beq_iff_eq]
  constructor
  · rintro ⟨⟨⟨⟨⟨-, htable⟩, hrule⟩, hbuffer⟩, hcapacity⟩, hposition⟩
    exact ⟨htable, hrule, hbuffer, hcapacity, hposition⟩
  · rintro ⟨htable, hrule, hbuffer, hcapacity, hposition⟩
    exact ⟨⟨⟨⟨⟨trivial, htable⟩, hrule⟩, hbuffer⟩, hcapacity⟩, hposition⟩

theorem capacity_subset (cursor : UInt64) : span (cursor + 8) 4 ⊆ span cursor 16 :=
  span_subset (k := 8) (by omega)

/-- They stay as long as their bytes do. -/
theorem Arguments.congr (h : Arguments l m rule position)
    (hdesc : AgreeOn (span l.desc 16) m' m) (hcursor : AgreeOn (span l.cursor 16) m' m) :
    Arguments l m' rule position where
  table := (pointer_congr (hdesc.mono (span_prefix_subset (by omega)))).trans h.table
  rule_eq := (pointer_congr (hdesc.mono (rule_subset _))).trans h.rule_eq
  buffer := (pointer_congr (hcursor.mono (span_prefix_subset (by omega)))).trans h.buffer
  capacity := (word_congr (hcursor.mono (capacity_subset _))).trans h.capacity
  position_eq := (word_congr (hcursor.mono (position_subset _))).trans h.position_eq

theorem capacity_apart (cursor : UInt64) :
    List.Disjoint (span (cursor + 8) 4) (span (cursor + 12) 4) :=
  span_apart (j := 8) (k := 12) (by omega) (by omega)

/-- The cursor moves on. -/
theorem Arguments.moved (h : Arguments l m rule position) (position' : UInt32) :
    Arguments l (writeWord m (l.cursor + 12) position') rule position' where
  table := (pointer_congr (writeWord_agree m _ fun a ha ha' =>
    l.disjoint.2.2.2 (span_prefix_subset (by omega) ha) (position_subset _ ha'))).trans h.table
  rule_eq := (pointer_congr (writeWord_agree m _ fun a ha ha' =>
    l.disjoint.2.2.2 (rule_subset _ ha) (position_subset _ ha'))).trans h.rule_eq
  buffer := (pointer_congr (writeWord_agree m _ (position_apart _))).trans h.buffer
  capacity := (word_congr (writeWord_agree m _ (capacity_apart _))).trans h.capacity
  position_eq := word_writeWord ..

/-- The descriptor names another record. -/
theorem Arguments.pointed (h : Arguments l m rule position) (rule' : UInt64) :
    Arguments l (writePointer m (l.desc + 8) rule') rule' position := by
  have htable : List.Disjoint (span l.desc 8) (span (l.desc + 8) 8) :=
    span_prefix_apart (k := 8) (by omega) (by omega)
  have hcursor : AgreeOn (span l.cursor 16) (writePointer m (l.desc + 8) rule') m :=
    writePointer_agree _ _ fun a ha ha' => l.disjoint.2.2.2 (rule_subset _ ha') ha
  exact
    { table := (pointer_congr (writePointer_agree _ _ htable)).trans h.table
      rule_eq := pointer_writePointer ..
      buffer := (pointer_congr (hcursor.mono (span_prefix_subset (by omega)))).trans h.buffer
      capacity := (word_congr (hcursor.mono (capacity_subset _))).trans h.capacity
      position_eq := (word_congr (hcursor.mono (position_subset _))).trans h.position_eq }

theorem Arguments.reads (h : Arguments l m rule position) :
    Reads m l.desc l.cursor rule (l.stream + UInt64.ofNat position.toNat) position where
  rule_eq := h.rule_eq
  position_eq := h.position_eq
  place_eq := by
    rw [h.buffer, UInt64.ofNat_uInt32ToNat]

/-- Writing a cursor changes its bytes only. -/
theorem writeCursor_agree {addresses : List UInt64} (m : Memory) {cursor : UInt64}
    (buffer : UInt64) (capacity position : UInt32)
    (h : List.Disjoint addresses (span cursor 16)) :
    AgreeOn addresses (writeCursor m cursor buffer capacity position) m := by
  refine ((writeWord_agree _ _ fun a ha ha' => ?_).trans
    (writeWord_agree _ _ fun a ha ha' => ?_)).trans (writePointer_agree _ _ fun a ha ha' => ?_)
  · exact h ha (position_subset _ ha')
  · exact h ha (capacity_subset _ ha')
  · exact h ha (span_prefix_subset (by omega) ha')

/-- Writing a descriptor changes its bytes only. -/
theorem writeDescriptor_agree {addresses : List UInt64} (m : Memory) {desc : UInt64}
    (table rule : UInt64) (h : List.Disjoint addresses (span desc 16)) :
    AgreeOn addresses (writeDescriptor m desc table rule) m := by
  refine (writePointer_agree _ _ fun a ha ha' => ?_).trans
    (writePointer_agree _ _ fun a ha ha' => ?_)
  · exact h ha (rule_subset _ ha')
  · exact h ha (span_prefix_subset (by omega) ha')

/-- The memory with the arguments in it. -/
def withArguments (l : Locals) (m : Memory) (rule : UInt64) (position : UInt32) : Memory :=
  writeCursor (writeDescriptor m l.desc 0 rule) l.cursor l.stream 64 position

theorem arguments_written (l : Locals) (m : Memory) (rule : UInt64) (position : UInt32) :
    Arguments l (withArguments l m rule position) rule position := by
  have htable : List.Disjoint (span l.desc 8) (span (l.desc + 8) 8) :=
    span_prefix_apart (k := 8) (by omega) (by omega)
  have hbuffer : List.Disjoint (span l.cursor 8) (span (l.cursor + 8) 4) :=
    span_prefix_apart (k := 8) (by omega) (by omega)
  have hdesc : AgreeOn (span l.desc 16) (withArguments l m rule position)
      (writeDescriptor m l.desc 0 rule) := writeCursor_agree _ _ _ _ l.disjoint.2.2.2
  constructor
  · rw [pointer_congr (hdesc.mono (span_prefix_subset (by omega))), writeDescriptor,
      pointer_congr (writePointer_agree _ _ htable), pointer_writePointer]
  · rw [pointer_congr (hdesc.mono (rule_subset _)), writeDescriptor, pointer_writePointer]
  · rw [withArguments, writeCursor, pointer_congr (writeWord_agree _ _ (position_apart _)),
      pointer_congr (writeWord_agree _ _ hbuffer), pointer_writePointer]
  · rw [withArguments, writeCursor, word_congr (writeWord_agree _ _ (capacity_apart _)),
      word_writeWord]
  · rw [withArguments, writeCursor, word_writeWord]

/-- Writing the arguments leaves the buffers alone. -/
theorem withArguments_agree {addresses : List UInt64} (m : Memory) (rule : UInt64)
    (position : UInt32) (hdesc : List.Disjoint addresses (span l.desc 16))
    (hcursor : List.Disjoint addresses (span l.cursor 16)) :
    AgreeOn addresses (withArguments l m rule position) m :=
  (writeCursor_agree _ _ _ _ hcursor).trans (writeDescriptor_agree _ _ _ hdesc)

end Arguments

/-! ## A call on the buffers -/

/-- The place of an offset in a guarded record. -/
def slot (off : UInt64) : Nat := (16 + off).toNat

/-- The fields lie within a guarded record. -/
def Fields.Guarded (fields : Fields) : Prop := ∀ off ∈ fields.offsets, slot off < 56

/-- The byte of a guarded record at an offset. -/
def field (record : List UInt8) (off : UInt64) : UInt8 := record.getD (slot off) 0

/-- The places a wire with the bytes `w` fills, with what. -/
def fills (fields : Fields) (w : Nat → UInt8) : List (Nat × UInt8) :=
  fields.scalars.toList.zipIdx.map (fun x => (slot x.1, w x.2))
    ++ fields.flags.toList.zipIdx.map (fun x => (slot x.1, bitOf (w 13) x.2))

/-- The record after the places are filled. -/
def fill (fields : Fields) (record : List UInt8) (w : Nat → UInt8) : List UInt8 :=
  setAll record (fills fields w)

theorem slot_address (a off : UInt64) : a + 16 + off = a + UInt64.ofNat (slot off) := by
  rw [slot, UInt64.ofNat_toNat, UInt64.add_assoc]

theorem fieldCells_eq (fields : Fields) (a : UInt64) (w : Nat → UInt8) :
    fieldCells fields (a + 16) w
      = (fills fields w).map fun c => (a + UInt64.ofNat c.1, c.2) := by
  simp only [fieldCells, fills, List.map_append, List.map_map, slot_address]
  rfl

theorem fills_congr {fields : Fields} {w w' : Nat → UInt8} (h : ∀ k < 14, w k = w' k) :
    fills fields w = fills fields w' := by
  have hscalars : ∀ x ∈ fields.scalars.toList.zipIdx, (slot x.1, w x.2) = (slot x.1, w' x.2) := by
    intro x hx
    have hlt := List.snd_lt_of_mem_zipIdx hx
    rw [Vector.length_toList] at hlt
    rw [h x.2 (by omega)]
  rw [fills, fills, List.map_congr_left hscalars, h 13 (by omega)]

theorem fills_lt {fields : Fields} (h : fields.Guarded) {w : Nat → UInt8} :
    ∀ c ∈ fills fields w, c.1 < 56 := by
  intro c hc
  rcases List.mem_append.mp hc with hc | hc
  · obtain ⟨x, hx, rfl⟩ := List.mem_map.mp hc
    exact h x.1 (List.mem_append_left _ (List.fst_mem_of_mem_zipIdx hx))
  · obtain ⟨x, hx, rfl⟩ := List.mem_map.mp hc
    exact h x.1 (List.mem_append_right _ (List.fst_mem_of_mem_zipIdx hx))

/-- A field lies within its record. -/
theorem Fields.Guarded.mem_span {fields : Fields} (h : fields.Guarded) {a off : UInt64}
    (hoff : off ∈ fields.offsets) : a + 16 + off ∈ span a 56 :=
  ByteMemory.mem_span.mpr ⟨slot off, h off hoff, slot_address a off⟩

theorem wire_congr {fields : Fields} {f g : UInt64 → UInt8}
    (h : ∀ off ∈ fields.offsets, f off = g off) : wire fields f = wire fields g := by
  have hscalars := List.map_congr_left fun off (hoff : off ∈ fields.scalars.toList) =>
    h off (List.mem_append_left _ hoff)
  have hflags : ∀ off ∈ fields.flags.toList, f off = g off := fun off hoff =>
    h off (List.mem_append_right _ hoff)
  have hbyte : flagByte fields f = flagByte fields g := by
    rw [flagByte, flagByte, hflags _ (Vector.mem_toList_iff.mpr (Vector.getElem_mem _))]
    refine List.foldl_ext _ _ _ fun flags x hx => ?_
    rw [hflags x.1 (List.fst_mem_of_mem_zipIdx (List.mem_of_mem_drop hx))]
  rw [wire, wire, hscalars, hbyte]

/-- A byte of a record in memory. -/
theorem field_readBytes {fields : Fields} (h : fields.Guarded) (m : Memory) (a : UInt64)
    {off : UInt64} (hoff : off ∈ fields.offsets) :
    field (readBytes m a 56) off = m (a + 16 + off) := by
  have hlt := h off hoff
  rw [field, List.getD_eq_getElem _ _ (by rwa [length_readBytes]), getElem_readBytes m a hlt,
    slot_address]

section Calls

variable (fields : Fields) {l : Locals} {m : Memory} {position : UInt32}

/-- The wire lies within the stream. -/
theorem wire_subset (hposition : position.toNat + 14 ≤ 64) :
    span (l.stream + UInt64.ofNat position.toNat) 14 ⊆ span l.stream 64 :=
  span_subset hposition

/-- The encoder puts the wire into the stream. -/
theorem encode_buffers (hargs : Arguments l m (l.source + 16) position)
    (hposition : position.toNat + 14 ≤ 64) (hfields : fields.Guarded) :
    ∃ m', encodeFields fields l.desc l.cursor m = (l.desc, m')
      ∧ Arguments l m' (l.source + 16) (position + 14)
      ∧ readBytes m' l.source 56 = readBytes m l.source 56
      ∧ readBytes m' l.stream 64 = splice (readBytes m l.stream 64) position.toNat
          (wire fields (field (readBytes m l.source 56))) := by
  have hsub := wire_subset (l := l) hposition
  have hcursor : List.Disjoint (span (l.cursor + 12) 4)
      (span (l.stream + UInt64.ofNat position.toNat) 14) := fun a ha ha' =>
    l.disjoint.2.1.2.2 (hsub ha') (position_subset _ ha)
  have hsent := encodeFields_eq fields hargs.reads (fun off hoff ha =>
    l.disjoint.1.1 (hfields.mem_span hoff) (hsub ha)) hcursor
  rw [← wire_congr fun off hoff => field_readBytes hfields m l.source hoff] at hsent
  generalize hbytes : wire fields (field (readBytes m l.source 56)) = bytes at hsent
  have hlen : bytes.length = 14 := by
    subst hbytes
    exact length_wire ..
  have hother : ∀ {addresses : List UInt64}, List.Disjoint addresses (span l.stream 64) →
      AgreeOn addresses (writeBytes m (l.stream + UInt64.ofNat position.toNat) bytes) m := by
    intro addresses h
    refine writeBytes_agree m fun a ha ha' => ?_
    rw [hlen] at ha'
    exact h ha (hsub ha')
  refine ⟨_, hsent, (hargs.congr (hother l.disjoint.2.1.2.1.symm)
    (hother l.disjoint.2.1.2.2.symm)).moved _, ?_, ?_⟩
  · exact readBytes_congr ((writeWord_agree _ _ fun a ha ha' =>
      l.disjoint.1.2.2.2 ha (position_subset _ ha')).trans (hother l.disjoint.1.1))
  · rw [readBytes_congr (writeWord_agree _ _ fun a ha ha' =>
      l.disjoint.2.1.2.2 ha (position_subset _ ha')),
      readBytes_writeBytes_within m l.stream (by omega) (by omega)]

/-- The decoder fills the fields of the record. -/
theorem decode_buffers (hargs : Arguments l m (l.output + 16) position)
    (hposition : position.toNat + 14 ≤ 64) (hfields : fields.Guarded) :
    ∃ m', decodeFields fields l.desc l.cursor m = (l.desc, m')
      ∧ Arguments l m' (l.output + 16) (position + 14)
      ∧ readBytes m' l.stream 64 = readBytes m l.stream 64
      ∧ readBytes m' l.output 56 = fill fields (readBytes m l.output 56)
          (fun k => (readBytes m l.stream 64).getD (position.toNat + k) 0) := by
  have hsub := wire_subset (l := l) hposition
  have hreceived := decodeFields_eq fields hargs.reads (fun off hoff ha =>
    l.disjoint.2.1.1 (hsub ha) (hfields.mem_span hoff)) (fun off hoff ha =>
    l.disjoint.2.2.1.2 (hfields.mem_span hoff) (position_subset _ ha))
  have hstream : fills fields (fun k =>
      m (l.stream + UInt64.ofNat position.toNat + UInt64.ofNat k))
      = fills fields (fun k => (readBytes m l.stream 64).getD (position.toNat + k) 0) := by
    refine fills_congr fun k hk => ?_
    rw [List.getD_eq_getElem _ _ (by rw [length_readBytes]; omega),
      getElem_readBytes m l.stream (by omega), UInt64.ofNat_add, UInt64.add_assoc]
  rw [fieldCells_eq, hstream] at hreceived
  have hlt := fills_lt hfields (w := fun k =>
    (readBytes m l.stream 64).getD (position.toNat + k) 0)
  generalize hcells : fills fields (fun k =>
    (readBytes m l.stream 64).getD (position.toNat + k) 0) = cells at hreceived hlt
  have hother : ∀ {addresses : List UInt64}, List.Disjoint addresses (span l.output 56) →
      AgreeOn addresses (storeAll m (cells.map fun c => (l.output + UInt64.ofNat c.1, c.2))) m := by
    intro addresses h
    refine storeAll_agree m fun a ha ha' => ?_
    rw [List.map_map] at ha'
    obtain ⟨c, hc, rfl⟩ := List.mem_map.mp ha'
    exact h ha (ByteMemory.mem_span.mpr ⟨c.1, hlt c hc, rfl⟩)
  refine ⟨_, hreceived, (hargs.congr (hother l.disjoint.2.2.1.1.symm)
    (hother l.disjoint.2.2.1.2.symm)).moved _, ?_, ?_⟩
  · exact readBytes_congr ((writeWord_agree _ _ fun a ha ha' =>
      l.disjoint.2.1.2.2 ha (position_subset _ ha')).trans (hother l.disjoint.2.1.1))
  · rw [readBytes_congr (writeWord_agree _ _ fun a ha ha' =>
      l.disjoint.2.2.1.2 ha (position_subset _ ha')), readBytes_storeAll m l.output hlt (by omega),
      fill, hcells]

end Calls

/-! ## The expected bytes -/

/-- The guarded record no field of which is set. -/
def guard : List UInt8 := List.replicate 56 0xA5

/-- The scalar at an offset of the source record. -/
def scalarValue (off : UInt64) (flags : UInt8) : UInt8 := off.toUInt8 * 17 + (flags &&& ~~~2)

/-- The bytes a record is expected to go out as. -/
def sent (record : List UInt8) (flags : UInt8) : List UInt8 :=
  reviewed.scalars.toList.map (field record) ++ [flags]

theorem slot_eq {off : UInt64} (h : off ∈ reviewed.offsets) : slot off = 16 + off.toNat := by
  have hlt := reviewed_offset_lt off h
  have hsixteen : (16 : UInt64).toNat = 16 := rfl
  rw [slot, UInt64.toNat_add, hsixteen, Nat.mod_eq_of_lt (by omega)]

theorem slot_inj {off off' : UInt64} (h : slot off = slot off') : off = off' :=
  UInt64.add_right_inj 16 |>.mp (UInt64.toNat_inj.mp h)

/-- A loop that sets one place a pass. -/
theorem foldl_set_eq {ι : Type} (p : ι → Nat) (v : ι → UInt8) (xs : List UInt8) (l : List ι) :
    l.foldl (fun xs x => xs.set (p x) (v x)) xs = setAll xs (l.map fun x => (p x, v x)) := by
  rw [setAll, List.foldl_map]

theorem scalar_offset {off : UInt64} (h : off ∈ reviewed.scalars.toList) :
    off ∈ reviewed.offsets := List.mem_append_left _ h

theorem flag_offset {off : UInt64} (h : off ∈ reviewed.flags.toList) :
    off ∈ reviewed.offsets := List.mem_append_right _ h

/-- The flags of a record, as bits. -/
def flagCells (flags : UInt8) : List (Nat × UInt8) :=
  reviewed.flags.toList.zipIdx.map fun x => (slot x.1, bitOf flags x.2)

theorem flagCells_eq (flags : UInt8) :
    reviewed.flags.toList.zipIdx.map (fun x => (16 + x.1.toNat, bitOf flags x.2))
      = flagCells flags :=
  List.map_congr_left fun x hx => by
    rw [slot_eq (flag_offset (List.fst_mem_of_mem_zipIdx hx))]

theorem sourceBytes_eq (flags : UInt8) : sourceBytes flags = setAll guard
    (reviewed.scalars.toList.map (fun off => (slot off, scalarValue off flags))
      ++ flagCells flags) := by
  have hscalars : reviewed.scalars.toList.map (fun off => (16 + off.toNat, scalarValue off flags))
      = reviewed.scalars.toList.map fun off => (slot off, scalarValue off flags) :=
    List.map_congr_left fun off hoff => by rw [slot_eq (scalar_offset hoff)]
  rw [setAll_append, ← hscalars, ← flagCells_eq, ← foldl_set_eq, ← foldl_set_eq]
  rfl

theorem expectedBits_eq (flags : UInt8) : expectedBits flags = setAll guard
    (reviewed.scalars.toList.map (fun off => (slot off, 0x63)) ++ flagCells flags) := by
  have hscalars : reviewed.scalars.toList.map (fun off => (16 + off.toNat, (0x63 : UInt8)))
      = reviewed.scalars.toList.map fun off => (slot off, 0x63) :=
    List.map_congr_left fun off hoff => by rw [slot_eq (scalar_offset hoff)]
  rw [setAll_append, ← hscalars, ← flagCells_eq, ← foldl_set_eq, ← foldl_set_eq]
  rfl

theorem expectedOutput_eq (record : List UInt8) : expectedOutput record = setAll guard
    (reviewed.offsets.map fun off => (slot off, field record off)) := by
  have hcells : reviewed.offsets.map (fun off =>
        (16 + off.toNat, record.getD (16 + off.toNat) 0))
      = reviewed.offsets.map fun off => (slot off, field record off) :=
    List.map_congr_left fun off hoff => by rw [field, slot_eq hoff]
  rw [← hcells, ← foldl_set_eq]
  rfl

theorem expectedStream_eq (record : List UInt8) (flags : UInt8) {pos : Nat} (h : pos + 14 ≤ 64) :
    expectedStream record pos flags = splice (List.replicate 64 0xCC) pos (sent record flags) := by
  have hcells : reviewed.scalars.toList.zipIdx.map (fun x =>
        (pos + x.2, record.getD (16 + x.1.toNat) 0))
      = (reviewed.scalars.toList.map (field record)).zipIdx.map fun y => (pos + y.2, y.1) := by
    rw [List.zipIdx_map, List.map_map]
    refine List.map_congr_left fun x hx => ?_
    rw [← slot_eq (scalar_offset (List.fst_mem_of_mem_zipIdx hx))]
    rfl
  rw [← setAll_zipIdx (by simpa [sent] using h), sent, List.zipIdx_append, List.map_append,
    setAll_append, ← hcells, ← foldl_set_eq]
  rfl

/-! ## The fields of the expected records -/

theorem slots_nodup : (reviewed.offsets.map slot).Nodup := by decide

/-- The places of scalars and flags, one list after the other. -/
theorem places_eq (v : UInt64 → UInt8) (flags : UInt8) :
    (reviewed.scalars.toList.map (fun off => (slot off, v off)) ++ flagCells flags).map Prod.fst
      = reviewed.offsets.map slot := by
  rw [List.map_append, List.map_map, flagCells, List.map_map, Fields.offsets, List.map_append]
  congr 1

theorem field_of_getElem? {record : List UInt8} {off : UInt64} {v : UInt8}
    (h : record[slot off]? = some v) : field record off = v := by
  rw [field, List.getD_eq_getElem?_getD, h, Option.getD_some]

theorem slot_lt {off : UInt64} (h : off ∈ reviewed.offsets) : slot off < guard.length := by
  rw [slot_eq h, guard, List.length_replicate]
  have := reviewed_offset_lt off h
  omega

theorem flag_mem_flagCells (flags : UInt8) {k : Nat} (h : k < 7) :
    (slot reviewed.flags[k], bitOf flags k) ∈ flagCells flags :=
  List.mem_map.mpr ⟨(reviewed.flags[k], k), List.mem_zipIdx_iff_getElem?.mpr (by simp [h]), rfl⟩

theorem scalar_mem (i : Nat) (h : i < 13) : reviewed.scalars[i] ∈ reviewed.scalars.toList :=
  Vector.mem_toList_iff.mpr (Vector.getElem_mem _)

theorem flag_mem (k : Nat) (h : k < 7) : reviewed.flags[k] ∈ reviewed.flags.toList :=
  Vector.mem_toList_iff.mpr (Vector.getElem_mem _)

/-- A record of scalars and flags, its fields. -/
theorem field_setAll (v : UInt64 → UInt8) (flags : UInt8) :
    (∀ off ∈ reviewed.scalars.toList, field (setAll guard
      (reviewed.scalars.toList.map (fun off => (slot off, v off)) ++ flagCells flags)) off = v off)
    ∧ (∀ k (h : k < 7), field (setAll guard
      (reviewed.scalars.toList.map (fun off => (slot off, v off)) ++ flagCells flags))
        reviewed.flags[k] = bitOf flags k)
    ∧ ∀ off, slot off < 56 → off ∉ reviewed.offsets → field (setAll guard
      (reviewed.scalars.toList.map (fun off => (slot off, v off)) ++ flagCells flags)) off
        = 0xA5 := by
  have hnodup : ((reviewed.scalars.toList.map (fun off => (slot off, v off))
      ++ flagCells flags).map Prod.fst).Nodup := by
    rw [places_eq]
    exact slots_nodup
  refine ⟨fun off hoff => ?_, fun k hk => ?_, fun off hlt hoff => ?_⟩
  · exact field_of_getElem? (getElem?_setAll hnodup
      (List.mem_append_left _ (List.mem_map_of_mem hoff)) (slot_lt (scalar_offset hoff)))
  · exact field_of_getElem? (getElem?_setAll hnodup
      (List.mem_append_right _ (flag_mem_flagCells flags hk))
      (slot_lt (flag_offset (flag_mem k hk))))
  · refine field_of_getElem? ?_
    rw [getElem?_setAll_of_notMem, guard, List.getElem?_replicate_of_lt hlt]
    rw [places_eq]
    intro hmem
    obtain ⟨off', hoff', heq⟩ := List.mem_map.mp hmem
    exact hoff (slot_inj heq ▸ hoff')

/-- An offset of the guarded record is a scalar's, a flag's or a guard's. -/
theorem offset_cases (off : UInt64) :
    (∃ i, ∃ h : i < 13, off = reviewed.scalars[i]) ∨ (∃ k, ∃ h : k < 7, off = reviewed.flags[k])
      ∨ off ∉ reviewed.offsets := by
  by_cases hoff : off ∈ reviewed.offsets
  · rcases List.mem_append.mp hoff with hscalar | hflag
    · obtain ⟨i, hi, rfl⟩ := Vector.getElem_of_mem (Vector.mem_toList_iff.mp hscalar)
      exact Or.inl ⟨i, hi, rfl⟩
    · obtain ⟨k, hk, rfl⟩ := Vector.getElem_of_mem (Vector.mem_toList_iff.mp hflag)
      exact Or.inr (Or.inl ⟨k, hk, rfl⟩)
  · exact Or.inr (Or.inr hoff)

theorem field_source_scalar (flags : UInt8) {i : Nat} (h : i < 13) :
    field (sourceBytes flags) reviewed.scalars[i] = scalarValue reviewed.scalars[i] flags := by
  rw [sourceBytes_eq]
  exact (field_setAll _ flags).1 _ (scalar_mem i h)

theorem field_source_flag (flags : UInt8) {k : Nat} (h : k < 7) :
    field (sourceBytes flags) reviewed.flags[k] = bitOf flags k := by
  rw [sourceBytes_eq]
  exact (field_setAll _ flags).2.1 k h

theorem field_source_guard (flags : UInt8) {off : UInt64} (hlt : slot off < 56)
    (h : off ∉ reviewed.offsets) : field (sourceBytes flags) off = 0xA5 := by
  rw [sourceBytes_eq]
  exact (field_setAll _ flags).2.2 off hlt h

/-! ## The wirings -/

/-- The flags of a source record, put together. -/
theorem flagByte_source : ∀ n < 128,
    flagByte reviewed (field (sourceBytes (UInt8.ofNat n))) = UInt8.ofNat n := by
  have hbits : ∀ n < 128, bitOf (UInt8.ofNat n) 0 ||| flagBit (bitOf (UInt8.ofNat n) 1) 1
      ||| flagBit (bitOf (UInt8.ofNat n) 2) 2 ||| flagBit (bitOf (UInt8.ofNat n) 3) 3
      ||| flagBit (bitOf (UInt8.ofNat n) 4) 4 ||| flagBit (bitOf (UInt8.ofNat n) 5) 5
      ||| flagBit (bitOf (UInt8.ofNat n) 6) 6 = UInt8.ofNat n := by decide +kernel
  intro n hn
  have hunfold (f : UInt64 → UInt8) : flagByte reviewed f = f reviewed.flags[0]
      ||| flagBit (f reviewed.flags[1]) 1 ||| flagBit (f reviewed.flags[2]) 2
      ||| flagBit (f reviewed.flags[3]) 3 ||| flagBit (f reviewed.flags[4]) 4
      ||| flagBit (f reviewed.flags[5]) 5 ||| flagBit (f reviewed.flags[6]) 6 := rfl
  simp only [hunfold, field_source_flag _ (show 0 < 7 by omega),
    field_source_flag _ (show 1 < 7 by omega), field_source_flag _ (show 2 < 7 by omega),
    field_source_flag _ (show 3 < 7 by omega), field_source_flag _ (show 4 < 7 by omega),
    field_source_flag _ (show 5 < 7 by omega), field_source_flag _ (show 6 < 7 by omega)]
  exact hbits n hn

/-- The reviewed encoder sends what is expected. -/
theorem wire_reviewed {n : Nat} (hn : n < 128) :
    wire reviewed (field (sourceBytes (UInt8.ofNat n)))
      = sent (sourceBytes (UInt8.ofNat n)) (UInt8.ofNat n) := by
  rw [wire, sent, flagByte_source n hn]

theorem scalarValue_ne : ∀ i (h : i < 13), scalarValue reviewed.scalars[i] 0 ≠ 0
    ∧ (∃ k < 7, bitOf (scalarValue reviewed.scalars[i] 0) k ≠ 0)
    ∧ ¬ (scalarValue reviewed.scalars[i] 0 = 0xA5 ∧ scalarValue reviewed.scalars[i] 1 = 0xA5)
    ∧ ∀ j (h' : j < 13), scalarValue reviewed.scalars[i] 0 = scalarValue reviewed.scalars[j] 0 →
        i = j := by decide +kernel

theorem sent_scalar (record : List UInt8) (flags : UInt8) {i : Nat} (h : i < 13) :
    (sent record flags)[i]? = some (field record reviewed.scalars[i]) := by
  rw [sent, List.getElem?_append_left (by simpa using h), List.getElem?_map,
    List.getElem?_eq_getElem (by simpa using h), Vector.getElem_toList, Option.map_some]

theorem sent_flags (record : List UInt8) (flags : UInt8) :
    (sent record flags)[13]? = some flags := by
  simp [sent]

/-- One bit up, the others down. -/
theorem bitOf_shift : ∀ k < 7, ∀ j < 7,
    bitOf (UInt8.ofNat (2 ^ k)) j = if k = j then 1 else 0 := by decide

theorem Fields.Guarded.scalar_lt {fields : Fields} (h : fields.Guarded) {i : Nat} (hi : i < 13) :
    slot fields.scalars[i] < 56 :=
  h _ (List.mem_append_left _ (Vector.mem_toList_iff.mpr (Vector.getElem_mem _)))

theorem Fields.Guarded.flag_lt {fields : Fields} (h : fields.Guarded) {k : Nat} (hk : k < 7) :
    slot fields.flags[k] < 56 :=
  h _ (List.mem_append_right _ (Vector.mem_toList_iff.mpr (Vector.getElem_mem _)))

theorem Fields.ext_getElem {fields : Fields}
    (hscalars : ∀ i (h : i < 13), fields.scalars[i] = reviewed.scalars[i])
    (hflags : ∀ k (h : k < 7), fields.flags[k] = reviewed.flags[k]) : fields = reviewed := by
  obtain ⟨scalars, flags⟩ := fields
  have hs : scalars = reviewed.scalars := Vector.ext hscalars
  have hf : flags = reviewed.flags := Vector.ext hflags
  rw [hs, hf]

/-- An encoder that sends every source record as expected is wired as
    reviewed. -/
theorem encoder_wiring {fields : Fields} (hfields : fields.Guarded)
    (h : ∀ n < 128, wire fields (field (sourceBytes (UInt8.ofNat n)))
      = sent (sourceBytes (UInt8.ofNat n)) (UInt8.ofNat n)) : fields = reviewed := by
  have hscalar : ∀ n < 128, ∀ i (hi : i < 13), field (sourceBytes (UInt8.ofNat n))
      fields.scalars[i] = scalarValue reviewed.scalars[i] (UInt8.ofNat n) := by
    intro n hn i hi
    have hget := sent_scalar (sourceBytes (UInt8.ofNat n)) (UInt8.ofNat n) hi
    rw [← h n hn, List.getElem?_eq_getElem (by rw [length_wire]; omega), wire_scalar _ _ hi,
      field_source_scalar _ hi] at hget
    exact Option.some.inj hget
  have hbits : ∀ n < 128, ∀ k (hk : k < 7), bitOf (UInt8.ofNat n) k
      = flagValue fields (field (sourceBytes (UInt8.ofNat n))) k hk := by
    intro n hn k hk
    have hget := sent_flags (sourceBytes (UInt8.ofNat n)) (UInt8.ofNat n)
    rw [← h n hn, List.getElem?_eq_getElem (by rw [length_wire]; omega), wire_flags] at hget
    rw [← bitOf_flagByte, Option.some.inj hget]
  refine Fields.ext_getElem (fun i hi => ?_) (fun k hk => ?_)
  · obtain ⟨hne, -, hguard, hinj⟩ := scalarValue_ne i hi
    rcases offset_cases fields.scalars[i] with ⟨j, hj, heq⟩ | ⟨k, hk, heq⟩ | hout
    · have hvalue := hscalar 0 (by omega) i hi
      rw [heq, field_source_scalar _ hj] at hvalue
      obtain rfl := hinj j hj hvalue.symm
      exact heq
    · have hvalue := hscalar 0 (by omega) i hi
      rw [heq, field_source_flag _ hk] at hvalue
      have hzero : ∀ k < 7, bitOf 0 k = 0 := by decide
      exact absurd (hvalue.symm.trans (hzero k hk)) hne
    · have hvalue := hscalar 0 (by omega) i hi
      have hvalue' := hscalar 1 (by omega) i hi
      rw [field_source_guard _ (hfields.scalar_lt hi) hout] at hvalue hvalue'
      exact absurd ⟨hvalue.symm, hvalue'.symm⟩ hguard
  · -- where a bit is down, so are the base flag's bit and the flag
    have hdown : ∀ n < 128, ∀ k (hk : k < 7), bitOf (UInt8.ofNat n) k = 0 →
        bitOf (field (sourceBytes (UInt8.ofNat n)) fields.flags[0]) k = 0
        ∧ (k ≠ 0 → field (sourceBytes (UInt8.ofNat n)) fields.flags[k] = 0) := by
      intro n hn k hk hzero
      rw [hbits n hn k hk, flagValue, UInt8.or_eq_zero_iff] at hzero
      refine ⟨hzero.1, fun hne => ?_⟩
      by_contra hup
      rw [if_pos ⟨hne, hup⟩] at hzero
      exact absurd hzero.2 (by decide)
    have hlow : ∀ k < 7, bitOf 0 k = 0 := by decide
    have hpow : ∀ k < 7, 2 ^ k < 128 := by decide
    rcases offset_cases fields.flags[k] with ⟨i, hi, heq⟩ | ⟨j, hj, heq⟩ | hout
    · exfalso
      obtain ⟨hne, ⟨j, hj, hbit⟩, -⟩ := scalarValue_ne i hi
      by_cases hk0 : k = 0
      · subst hk0
        have hbase := (hdown 0 (by omega) j hj (hlow j hj)).1
        rw [heq, field_source_scalar _ hi] at hbase
        exact hbit hbase
      · have hflag := (hdown 0 (by omega) k hk (hlow k hk)).2 hk0
        rw [heq, field_source_scalar _ hi] at hflag
        exact hne hflag
    · by_contra hne
      have hjk : j ≠ k := fun h => hne (by rw [heq]; subst h; rfl)
      have hup : bitOf (UInt8.ofNat (2 ^ j)) j = 1 := by rw [bitOf_shift j hj j hj, if_pos rfl]
      have hoff : bitOf (UInt8.ofNat (2 ^ j)) k = 0 := by
        rw [bitOf_shift j hj k hk, if_neg hjk]
      by_cases hk0 : k = 0
      · subst hk0
        have hbase := (hdown (2 ^ j) (hpow j hj) 0 hk hoff).1
        rw [heq, field_source_flag _ hj, hup] at hbase
        exact absurd hbase (by decide)
      · have hflag := (hdown (2 ^ j) (hpow j hj) k hk hoff).2 hk0
        rw [heq, field_source_flag _ hj, hup] at hflag
        exact absurd hflag (by decide)
    · exfalso
      by_cases hk0 : k = 0
      · subst hk0
        have hbase := (hdown 0 (by omega) 0 hk (hlow 0 hk)).1
        rw [field_source_guard _ (hfields.flag_lt hk) hout] at hbase
        exact absurd hbase (by decide)
      · have hflag := (hdown 0 (by omega) k hk (hlow k hk)).2 hk0
        rw [field_source_guard _ (hfields.flag_lt hk) hout] at hflag
        exact absurd hflag (by decide)

/-- What the decoder reads in a round trip. -/
def sentByte (flags : UInt8) (k : Nat) : UInt8 := (sent (sourceBytes flags) flags).getD k 0

/-- What the decoder reads in a bit check. -/
def bitsByte (flags : UInt8) (k : Nat) : UInt8 := if k = 13 then flags else 0x63

theorem sentByte_scalar (flags : UInt8) {i : Nat} (h : i < 13) :
    sentByte flags i = scalarValue reviewed.scalars[i] flags := by
  rw [sentByte, List.getD_eq_getElem?_getD, sent_scalar _ _ h, Option.getD_some,
    field_source_scalar _ h]

theorem sentByte_flags (flags : UInt8) : sentByte flags 13 = flags := by
  rw [sentByte, List.getD_eq_getElem?_getD, sent_flags, Option.getD_some]

theorem zipIdx_cells {l : List UInt64} {w : Nat → UInt8} {g : UInt64 → UInt8}
    (h : ∀ i (hi : i < l.length), w i = g l[i]) :
    l.zipIdx.map (fun x => (slot x.1, w x.2)) = l.map fun off => (slot off, g off) := by
  refine List.ext_getElem (by simp) fun i hi hi' => ?_
  simp only [List.getElem_map, List.getElem_zipIdx, Nat.zero_add]
  rw [h i (by simpa using hi')]

/-- The reviewed decoder fills what is expected. -/
theorem fill_reviewed (flags : UInt8) :
    fill reviewed guard (sentByte flags) = expectedOutput (sourceBytes flags) := by
  rw [expectedOutput_eq, fill, fills, Fields.offsets, List.map_append,
    zipIdx_cells (g := field (sourceBytes flags)) (by
      intro i hi
      rw [sentByte_scalar flags (by simpa using hi), Vector.getElem_toList,
        field_source_scalar _ (by simpa using hi)]),
    zipIdx_cells (w := bitOf (sentByte flags 13)) (g := field (sourceBytes flags)) (by
      intro k hk
      rw [sentByte_flags, Vector.getElem_toList, field_source_flag _ (by simpa using hk)])]

theorem fill_reviewed_bits (flags : UInt8) :
    fill reviewed guard (bitsByte flags) = expectedBits flags := by
  rw [expectedBits_eq, fill, fills, zipIdx_cells (g := fun _ => 0x63) (by
    intro i hi
    have hlt : i < 13 := by simpa using hi
    rw [bitsByte, if_neg (by omega)])]
  rfl

theorem fills_places (fields : Fields) (w : Nat → UInt8) :
    (fills fields w).map Prod.fst = fields.offsets.map slot := by
  have hfst (l : List UInt64) (g : UInt64 × Nat → UInt8) :
      (l.zipIdx.map fun x => (slot x.1, g x)).map Prod.fst = l.map slot := by
    calc (l.zipIdx.map fun x => (slot x.1, g x)).map Prod.fst
        = (l.zipIdx.map Prod.fst).map slot := by rw [List.map_map, List.map_map]; rfl
      _ = l.map slot := by rw [List.zipIdx_map_fst]
  rw [fills, List.map_append, hfst, hfst _ (fun x => bitOf (w 13) x.2), Fields.offsets,
    List.map_append]

theorem field_expectedOutput {record : List UInt8} {off : UInt64} (h : off ∈ reviewed.offsets) :
    field (expectedOutput record) off = field record off := by
  rw [expectedOutput_eq]
  refine field_of_getElem? (getElem?_setAll ?_ (List.mem_map_of_mem h) (slot_lt h))
  rw [List.map_map]
  exact slots_nodup

/-- A decoder that fills the expected places has one field for each. -/
theorem places_perm {fields : Fields} (hbits : ∀ n < 256,
    fill fields guard (bitsByte (UInt8.ofNat n)) = expectedBits (UInt8.ofNat n)) :
    (reviewed.offsets.map slot).Perm (fields.offsets.map slot) := by
  refine (List.subperm_of_subset slots_nodup fun j hj => ?_).perm_of_length_le ?_
  · obtain ⟨off, hoff, rfl⟩ := List.mem_map.mp hj
    by_contra hout
    rw [← fills_places fields (bitsByte (UInt8.ofNat 0))] at hout
    have hkept : field (expectedBits (UInt8.ofNat 0)) off = 0xA5 := by
      rw [← hbits 0 (by omega), fill]
      refine field_of_getElem? ?_
      rw [getElem?_setAll_of_notMem hout, guard]
      exact List.getElem?_replicate_of_lt (by simpa [guard] using slot_lt hoff)
    obtain ⟨hscalars, hflags, -⟩ := field_setAll (fun _ => 0x63) (UInt8.ofNat 0)
    rw [expectedBits_eq] at hkept
    rcases List.mem_append.mp hoff with hoff | hoff
    · rw [hscalars off hoff] at hkept
      exact absurd hkept (by decide)
    · obtain ⟨k, hk, rfl⟩ := Vector.getElem_of_mem (Vector.mem_toList_iff.mp hoff)
      rw [hflags k hk] at hkept
      have hlow : ∀ k < 7, bitOf (UInt8.ofNat 0) k ≠ 0xA5 := by decide
      exact hlow k hk hkept
  · simp [Fields.offsets]

/-- A decoder that fills every record as expected is wired as reviewed. -/
theorem decoder_wiring {fields : Fields}
    (hbits : ∀ n < 256,
      fill fields guard (bitsByte (UInt8.ofNat n)) = expectedBits (UInt8.ofNat n))
    (hround : fill fields guard (sentByte (UInt8.ofNat 0))
      = expectedOutput (sourceBytes (UInt8.ofNat 0))) : fields = reviewed := by
  have hperm := places_perm hbits
  have hmem : ∀ off ∈ fields.offsets, off ∈ reviewed.offsets := by
    intro off hoff
    obtain ⟨off', hoff', heq⟩ := List.mem_map.mp (hperm.mem_iff.mpr (List.mem_map_of_mem hoff))
    exact slot_inj heq ▸ hoff'
  have hfilled : ∀ w off v, off ∈ fields.offsets → (slot off, v) ∈ fills fields w →
      field (fill fields guard w) off = v := by
    intro w off v hoff hcell
    refine field_of_getElem? (getElem?_setAll ?_ hcell (slot_lt (hmem off hoff)))
    rw [fills_places]
    exact hperm.nodup_iff.mp slots_nodup
  refine Fields.ext_getElem (fun i hi => ?_) (fun k hk => ?_)
  · have hoff : fields.scalars[i] ∈ fields.offsets :=
      List.mem_append_left _ (Vector.mem_toList_iff.mpr (Vector.getElem_mem _))
    obtain ⟨hne, -, -, hinj⟩ := scalarValue_ne i hi
    have hvalue := hfilled (sentByte (UInt8.ofNat 0)) fields.scalars[i] _ hoff
      (List.mem_append_left _ (List.mem_map.mpr ⟨(fields.scalars[i], i),
        List.mem_zipIdx_iff_getElem?.mpr (by simp [hi]), rfl⟩))
    rw [hround, field_expectedOutput (hmem _ hoff), sentByte_scalar _ hi] at hvalue
    rcases offset_cases fields.scalars[i] with ⟨j, hj, heq⟩ | ⟨k, hk, heq⟩ | hout
    · rw [heq, field_source_scalar _ hj] at hvalue
      obtain rfl := hinj j hj hvalue.symm
      exact heq
    · rw [heq, field_source_flag _ hk] at hvalue
      have hlow : ∀ k < 7, bitOf (UInt8.ofNat 0) k = 0 := by decide
      exact absurd (hvalue.symm.trans (hlow k hk)) hne
    · exact absurd (hmem _ hoff) hout
  · have hoff : fields.flags[k] ∈ fields.offsets :=
      List.mem_append_right _ (Vector.mem_toList_iff.mpr (Vector.getElem_mem _))
    have hup : bitOf (UInt8.ofNat (2 ^ k)) k = 1 := by rw [bitOf_shift k hk k hk, if_pos rfl]
    have hpow : ∀ k < 7, 2 ^ k < 256 := by decide
    have hvalue := hfilled (bitsByte (UInt8.ofNat (2 ^ k))) fields.flags[k] _ hoff
      (List.mem_append_right _ (List.mem_map.mpr ⟨(fields.flags[k], k),
        List.mem_zipIdx_iff_getElem?.mpr (by simp [hk]), rfl⟩))
    rw [hbits _ (hpow k hk), bitsByte, if_pos rfl, hup, expectedBits_eq] at hvalue
    obtain ⟨hscalars, hflags, -⟩ := field_setAll (fun _ => 0x63) (UInt8.ofNat (2 ^ k))
    rcases offset_cases fields.flags[k] with ⟨j, hj, heq⟩ | ⟨j, hj, heq⟩ | hout
    · rw [heq, hscalars _ (scalar_mem j hj)] at hvalue
      exact absurd hvalue (by decide)
    · rw [heq, hflags j hj, bitOf_shift k hk j hj] at hvalue
      by_cases hkj : k = j
      · subst hkj
        exact heq
      · rw [if_neg hkj] at hvalue
        exact absurd hvalue (by decide)
    · exact absurd (hmem _ hoff) hout

/-! ## The passes -/

section Passes

variable {w w' : Fields} {l : Locals}

/-- What a round trip asks of the two wirings. -/
def RoundTrips (w w' : Fields) (flags : UInt8) : Prop :=
  wire w (field (sourceBytes flags)) = sent (sourceBytes flags) flags
    ∧ fill w' guard (sentByte flags) = expectedOutput (sourceBytes flags)

/-- What a bit check asks of the decoder's. -/
def Fills (w' : Fields) (flags : UInt8) : Prop :=
  fill w' guard (bitsByte flags) = expectedBits flags

instance (w w' : Fields) (flags : UInt8) : Decidable (RoundTrips w w' flags) :=
  inferInstanceAs (Decidable (_ ∧ _))

instance (w' : Fields) (flags : UInt8) : Decidable (Fills w' flags) :=
  inferInstanceAs (Decidable (_ = _))

theorem length_sourceBytes (flags : UInt8) : (sourceBytes flags).length = 56 := by
  rw [sourceBytes_eq, length_setAll, guard, List.length_replicate]

theorem splice_inj {α : Type} (xs : List α) {ys zs : List α} (k : Nat) (h : ys.length = zs.length) :
    splice xs k ys = splice xs k zs ↔ ys = zs := by
  constructor
  · intro heq
    rw [splice, splice, h] at heq
    exact List.append_cancel_left (List.append_cancel_right heq)
  · rintro rfl
    rfl

theorem splice_getD {xs ys : List UInt8} {k i : Nat} (h : k + ys.length ≤ xs.length)
    (hi : i < ys.length) : (splice xs k ys).getD (k + i) 0 = ys.getD i 0 := by
  rw [List.getD_eq_getElem _ _ (by rw [length_splice h]; omega), getElem_splice h,
    dif_neg (by omega), dif_pos (by omega), List.getD_eq_getElem _ _ hi]
  simp

/-- The encoder's half of a round trip. -/
theorem encoder_check (hw : w.Guarded) (flags : UInt8) (m : Memory) {pos : UInt32}
    (hpos : pos.toNat + 14 ≤ 64) :
    ∃ m', encodeFields w l.desc l.cursor (withArguments l (writeBytes (writeBytes m l.source
        (sourceBytes flags)) l.stream (List.replicate 64 0xCC)) (l.source + 16) pos) = (l.desc, m')
      ∧ Arguments l m' (l.source + 16) (pos + 14)
      ∧ readBytes m' l.source 56 = sourceBytes flags
      ∧ readBytes m' l.stream 64 = splice (List.replicate 64 0xCC) pos.toNat
          (wire w (field (sourceBytes flags))) := by
  have hstream : (List.replicate 64 (0xCC : UInt8)).length = 64 := List.length_replicate ..
  have hsource := withArguments_agree (l := l) (writeBytes (writeBytes m l.source
    (sourceBytes flags)) l.stream (List.replicate 64 0xCC)) (l.source + 16) pos
    l.disjoint.1.2.2.1 l.disjoint.1.2.2.2
  have hread := readBytes_writeBytes m l.source (sourceBytes flags)
    (by rw [length_sourceBytes]; omega)
  rw [length_sourceBytes] at hread
  have hread' := readBytes_writeBytes (writeBytes m l.source (sourceBytes flags)) l.stream
    (List.replicate 64 0xCC) (by rw [hstream]; omega)
  rw [hstream] at hread'
  have hbefore : readBytes (withArguments l (writeBytes (writeBytes m l.source
      (sourceBytes flags)) l.stream (List.replicate 64 0xCC)) (l.source + 16) pos) l.source 56
      = sourceBytes flags := by
    rw [readBytes_congr hsource, readBytes_congr (writeBytes_agree _ (by
      rw [hstream]
      exact l.disjoint.1.1)), hread]
  have hbefore' : readBytes (withArguments l (writeBytes (writeBytes m l.source
      (sourceBytes flags)) l.stream (List.replicate 64 0xCC)) (l.source + 16) pos) l.stream 64
      = List.replicate 64 0xCC := by
    rw [readBytes_congr (withArguments_agree (l := l) _ _ pos l.disjoint.2.1.2.1
      l.disjoint.2.1.2.2), hread']
  obtain ⟨m', hsent, hargs, hkept, hwire⟩ :=
    encode_buffers w (arguments_written l _ (l.source + 16) pos) hpos hw
  exact ⟨m', hsent, hargs, hkept.trans hbefore, by rw [hwire, hbefore, hbefore']⟩

/-- The decoder's half, after the encoder's. -/
theorem decoder_check (hw' : w'.Guarded) {rule : UInt64} {m : Memory} {pos pos' : UInt32}
    (hargs : Arguments l m rule pos') (hpos : pos.toNat + 14 ≤ 64) :
    ∃ m', decodeFields w' l.desc l.cursor (writeWord (writePointer (writeBytes m l.output
        (List.replicate 56 0xA5)) (l.desc + 8) (l.output + 16)) (l.cursor + 12) pos) = (l.desc, m')
      ∧ Arguments l m' (l.output + 16) (pos + 14)
      ∧ readBytes m' l.stream 64 = readBytes m l.stream 64
      ∧ readBytes m' l.output 56 = fill w' guard
          (fun k => (readBytes m l.stream 64).getD (pos.toNat + k) 0) := by
  have hguard : (List.replicate 56 (0xA5 : UInt8)).length = 56 := List.length_replicate ..
  have hother : ∀ {addresses : List UInt64}, List.Disjoint addresses (span l.output 56) →
      AgreeOn addresses (writeBytes m l.output (List.replicate 56 0xA5)) m := by
    intro addresses h
    exact writeBytes_agree m (by rwa [hguard])
  have hbefore := ((hargs.congr (hother l.disjoint.2.2.1.1.symm)
    (hother l.disjoint.2.2.1.2.symm)).pointed (l.output + 16)).moved pos
  have harguments : ∀ {addresses : List UInt64} (p : Memory),
      List.Disjoint addresses (span l.desc 16) → List.Disjoint addresses (span l.cursor 16) →
      AgreeOn addresses (writeWord (writePointer p (l.desc + 8) (l.output + 16))
        (l.cursor + 12) pos) p := fun p hdesc hcursor =>
    (writeWord_agree _ _ fun a ha ha' => hcursor ha (position_subset _ ha')).trans
      (writePointer_agree _ _ fun a ha ha' => hdesc ha (rule_subset _ ha'))
  have hstream := readBytes_congr ((harguments (writeBytes m l.output (List.replicate 56 0xA5))
    l.disjoint.2.1.2.1 l.disjoint.2.1.2.2).trans (hother l.disjoint.2.1.1))
  have houtput := readBytes_congr (harguments (writeBytes m l.output (List.replicate 56 0xA5))
    l.disjoint.2.2.1.1 l.disjoint.2.2.1.2)
  have hread := readBytes_writeBytes m l.output (List.replicate 56 0xA5)
    (by rw [hguard]; omega)
  rw [hguard] at hread
  obtain ⟨m', hreceived, hargs', hkept, hfill⟩ :=
    decode_buffers w' hbefore hpos hw'
  exact ⟨m', hreceived, hargs', hkept.trans hstream, by
    rw [hfill, houtput, hread, hstream]
    rfl⟩

/-- A round trip succeeds when both wirings do as expected. -/
theorem roundTrip_outcome (hw : w.Guarded) (hw' : w'.Guarded) (calls : Nat) (m : Memory)
    (flags : UInt8) :
    if RoundTrips w w' flags
    then ∃ m', roundTrip (encodeFields w) (decodeFields w') l (calls, m) flags = .ok (calls + 2, m')
    else ∃ e, roundTrip (encodeFields w) (decodeFields w') l (calls, m) flags = .error e := by
  have hpos : (if flags &&& 1 = 0 then (7 : UInt32) else 31).toNat + 14 ≤ 64 := by
    split <;> decide
  rw [roundTrip]
  dsimp only
  generalize (if flags &&& 1 = 0 then (7 : UInt32) else 31) = pos at hpos
  obtain ⟨m₁, hencode, hargs, hsource, hstream⟩ := encoder_check (l := l) hw flags m hpos
  rw [withArguments] at hencode
  rw [hencode]
  dsimp only
  have hencoded : (!argumentsKept l l.desc (l.source + 16) (pos + 14) m₁
      || readBytes m₁ l.source 56 != sourceBytes flags
      || readBytes m₁ l.stream 64 != expectedStream (sourceBytes flags) pos.toNat flags) = true
      ↔ ¬ wire w (field (sourceBytes flags)) = sent (sourceBytes flags) flags := by
    rw [argumentsKept_iff.mpr hargs, hsource, hstream, expectedStream_eq _ _ hpos, ← splice_inj
      (List.replicate 64 0xCC) pos.toNat (by simp [sent])]
    simp
  by_cases hsend : wire w (field (sourceBytes flags)) = sent (sourceBytes flags) flags
  · rw [if_neg (mt hencoded.mp (not_not.mpr hsend))]
    obtain ⟨m₂, hdecode, hargs', hstream', houtput⟩ :=
      decoder_check (l := l) hw' hargs hpos
    rw [hdecode]
    dsimp only
    have hfill : fill w' guard (fun k => (readBytes m₁ l.stream 64).getD (pos.toNat + k) 0)
        = fill w' guard (sentByte flags) := by
      rw [fill, fill, fills_congr fun k hk => ?_]
      rw [hstream, hsend, sentByte]
      exact splice_getD (by simpa [sent] using hpos) (by simpa [sent] using hk)
    have hdecoded : (!argumentsKept l l.desc (l.output + 16) (pos + 14) m₂
        || readBytes m₂ l.output 56 != expectedOutput (sourceBytes flags)
        || readBytes m₂ l.stream 64 != expectedStream (sourceBytes flags) pos.toNat flags) = true
        ↔ ¬ fill w' guard (sentByte flags) = expectedOutput (sourceBytes flags) := by
      rw [argumentsKept_iff.mpr hargs', houtput, hfill, hstream', hstream, hsend,
        expectedStream_eq _ _ hpos]
      simp
    by_cases hfilled : fill w' guard (sentByte flags) = expectedOutput (sourceBytes flags)
    · rw [if_neg (mt hdecoded.mp (not_not.mpr hfilled)), if_pos ⟨hsend, hfilled⟩]
      exact ⟨m₂, rfl⟩
    · rw [if_pos (hdecoded.mpr hfilled), if_neg fun h => hfilled h.2]
      exact ⟨_, rfl⟩
  · rw [if_pos (hencoded.mpr hsend), if_neg fun h => hsend h.1]
    exact ⟨_, rfl⟩

/-- A bit check succeeds when the decoder's wiring does as expected. -/
theorem bitCheck_outcome (hw' : w'.Guarded) (calls : Nat) (m : Memory) (flags : UInt8) :
    if Fills w' flags
    then ∃ m', bitCheck (decodeFields w') l (calls, m) flags = .ok (calls + 1, m')
    else ∃ e, bitCheck (decodeFields w') l (calls, m) flags = .error e := by
  have hguard : (List.replicate 56 (0xA5 : UInt8)).length = 56 := List.length_replicate ..
  have hlen : ((List.replicate 64 (0x63 : UInt8)).set 20 flags).length = 64 := by
    rw [List.length_set, List.length_replicate]
  rw [bitCheck]
  dsimp only
  have hbits : fills w' (fun k =>
      ((List.replicate 64 (0x63 : UInt8)).set 20 flags).getD ((7 : UInt32).toNat + k) 0)
      = fills w' (bitsByte flags) := fills_congr fun k hk => by
    have hseven : (7 : UInt32).toNat = 7 := rfl
    rw [hseven, List.getD_eq_getElem _ _ (by omega), List.getElem_set, List.getElem_replicate,
      bitsByte]
    simp only [show (20 = 7 + k) = (k = 13) from propext (by omega)]
  generalize (List.replicate 64 (0x63 : UInt8)).set 20 flags = stream at hlen hbits
  have hread := readBytes_writeBytes m l.stream stream (by omega)
  rw [hlen] at hread
  have hread' := readBytes_writeBytes (writeBytes m l.stream stream) l.output
    (List.replicate 56 0xA5) (by rw [hguard]; omega)
  rw [hguard] at hread'
  have hstream : readBytes (withArguments l (writeBytes (writeBytes m l.stream stream) l.output
      (List.replicate 56 0xA5)) (l.output + 16) 7) l.stream 64 = stream := by
    rw [readBytes_congr (withArguments_agree _ _ _ l.disjoint.2.1.2.1 l.disjoint.2.1.2.2),
      readBytes_congr (writeBytes_agree _ (by
        rw [hguard]
        exact l.disjoint.2.1.1)), hread]
  have houtput : readBytes (withArguments l (writeBytes (writeBytes m l.stream stream) l.output
      (List.replicate 56 0xA5)) (l.output + 16) 7) l.output 56 = List.replicate 56 0xA5 := by
    rw [readBytes_congr (withArguments_agree _ _ _ l.disjoint.2.2.1.1 l.disjoint.2.2.1.2), hread']
  obtain ⟨m', hdecode, hargs, hkept, hfill⟩ := decode_buffers w'
    (arguments_written l (writeBytes (writeBytes m l.stream stream) l.output
      (List.replicate 56 0xA5)) (l.output + 16) 7) (by decide) hw'
  rw [hstream] at hkept
  rw [houtput, hstream, fill, hbits] at hfill
  rw [withArguments] at hdecode
  rw [hdecode]
  dsimp only
  have hposition : (7 : UInt32) + 14 = 21 := by decide
  rw [hposition] at hargs
  have hchecked : (!argumentsKept l l.desc (l.output + 16) 21 m'
      || readBytes m' l.output 56 != expectedBits flags || readBytes m' l.stream 64 != stream) = true
      ↔ ¬ Fills w' flags := by
    rw [argumentsKept_iff.mpr hargs, hkept, hfill, Fills, fill, guard]
    simp
  by_cases hfills : Fills w' flags
  · rw [if_neg (mt hchecked.mp (not_not.mpr hfills)), if_pos hfills]
    exact ⟨m', rfl⟩
  · rw [if_pos (hchecked.mpr hfills), if_neg hfills]
    exact ⟨_, rfl⟩

end Passes

/-! ## The whole test -/

/-- Passes that count, each of which succeeds or ends the test. -/
theorem foldlM_passes {σ ε ι : Type} {f : Nat × σ → ι → Except ε (Nat × σ)} {p : ι → Prop}
    [DecidablePred p] {n : Nat}
    (h : ∀ c s i, if p i then ∃ s', f (c, s) i = .ok (c + n, s') else ∃ e, f (c, s) i = .error e)
    {k : Nat} (l : List ι) (hlen : l.length = k) (c : Nat) (s : σ) :
    ((∀ i ∈ l, p i) → ∃ s', l.foldlM f (c, s) = .ok (c + n * k, s'))
    ∧ ((¬ ∀ i ∈ l, p i) → ∃ e, l.foldlM f (c, s) = .error e) := by
  subst hlen
  induction l generalizing c s with
  | nil => exact ⟨fun _ => ⟨s, rfl⟩, fun h => absurd (fun _ hi => absurd hi List.not_mem_nil) h⟩
  | cons i l ih =>
      have hi := h c s i
      rw [List.foldlM_cons, List.forall_mem_cons]
      by_cases hp : p i
      · rw [if_pos hp] at hi
        obtain ⟨s', hs'⟩ := hi
        obtain ⟨hok, herror⟩ := ih (c + n) s'
        rw [hs', List.length_cons, Nat.mul_succ, Nat.add_comm (n * l.length), ← Nat.add_assoc]
        exact ⟨fun hall => hok hall.2, fun hnot => herror fun hall => hnot ⟨hp, hall⟩⟩
      · rw [if_neg hp] at hi
        obtain ⟨e, he⟩ := hi
        rw [he]
        exact ⟨fun hall => absurd hall.1 hp, fun _ => ⟨e, rfl⟩⟩

/-- **One wiring passes.**  Wherever the locals lie and whatever the memory
    holds, the self-test accepts an encoder and a decoder wired to fields of the
    guarded record, after its 512 calls, exactly when both are wired as
    reviewed. -/
theorem selfTest_ok_iff (w w' : Fields) (hw : w.Guarded) (hw' : w'.Guarded)
    (first second : Locals) (m : Memory) :
    selfTest (encodeFields w) (decodeFields w') first second m = .ok 512
      ↔ w = reviewed ∧ w' = reviewed := by
  have htrips := foldlM_passes (p := fun n => RoundTrips w w' (UInt8.ofNat n)) (n := 2)
    (f := fun s n => roundTrip (encodeFields w) (decodeFields w') first s (UInt8.ofNat n))
    (fun calls m n => roundTrip_outcome (l := first) hw hw' calls m (UInt8.ofNat n))
    (List.range 128) (List.length_range ..) 0 m
  have hfills := fun (calls : Nat) (m : Memory) => foldlM_passes (p := fun n => Fills w' (UInt8.ofNat n)) (n := 1)
    (f := fun s n => bitCheck (decodeFields w') second s (UInt8.ofNat n))
    (fun calls m n => bitCheck_outcome (l := second) hw' calls m (UInt8.ofNat n))
    (List.range 256) (List.length_range ..) calls m
  rw [selfTest]
  constructor
  · intro hok
    obtain ⟨⟨calls, m'⟩, hfirst, hok⟩ := ExceptRules.bind_eq_ok.mp hok
    obtain ⟨_, hsecond, -⟩ := ExceptRules.bind_eq_ok.mp hok
    have htrip : ∀ n ∈ List.range 128, RoundTrips w w' (UInt8.ofNat n) := by
      by_contra hnot
      obtain ⟨e, he⟩ := htrips.2 hnot
      exact absurd (he.symm.trans hfirst) (by simp)
    have hfill : ∀ n ∈ List.range 256, Fills w' (UInt8.ofNat n) := by
      by_contra hnot
      obtain ⟨e, he⟩ := (hfills calls m').2 hnot
      exact absurd (he.symm.trans hsecond) (by simp)
    exact ⟨encoder_wiring hw fun n hn => (htrip n (List.mem_range.mpr hn)).1,
      decoder_wiring (fun n hn => hfill n (List.mem_range.mpr hn))
        (htrip 0 (List.mem_range.mpr (by omega))).2⟩
  · rintro ⟨rfl, rfl⟩
    obtain ⟨m', hfirst⟩ := htrips.1 fun n hn =>
      ⟨wire_reviewed (List.mem_range.mp hn), fill_reviewed _⟩
    obtain ⟨m'', hsecond⟩ := (hfills _ m').1 fun n _ => fill_reviewed_bits _
    exact ExceptRules.bind_eq_ok.mpr ⟨_, hfirst, ExceptRules.bind_eq_ok.mpr ⟨_, hsecond, rfl⟩⟩

/-- Locals one page apart. -/
def testLocals : Locals where
  source := 0x1000
  stream := 0x2000
  output := 0x3000
  desc := 0x4000
  cursor := 0x5000
  apart := pairwise_below (b := [(0x1000, 56), (0x2000, 64), (0x3000, 56), (0x4000, 16),
    (0x5000, 16)]) (by decide)

/-- The reviewed fields but for the base and the team flag, which change
    places. -/
def swapped : Fields := { reviewed with flags := #v[13, 9, 15, 17, 21, 22, 23] }

/-- The reviewed pair passes; one that mixes up two flags on either side does
    not. -/
theorem selfTest_ok_iff_swapped :
    selfTest encode decode testLocals testLocals (fun _ => 0) = .ok 512
      ∧ selfTest (encodeFields swapped) (decodeFields swapped) testLocals testLocals (fun _ => 0)
        ≠ .ok 512 := by
  have hreviewed : reviewed.Guarded := forall_mem_of_all (by decide)
  have hswapped : swapped.Guarded := forall_mem_of_all (by decide)
  refine ⟨(selfTest_ok_iff reviewed reviewed hreviewed hreviewed _ _ _).mpr ⟨rfl, rfl⟩,
    fun hok => ?_⟩
  have heq := ((selfTest_ok_iff swapped swapped hswapped hswapped _ _ _).mp hok).1
  exact absurd (congrArg (fun fields => fields.flags[0]) heq) (by decide)

end TeamAttack.Codec
