import TeamAttack.CodecProbe
import TeamAttack.RecordedEvents

/-! # The payload formats, both ways (`application.rs`, `codec_probe.rs`)

    Thirteen fields of an event and six of a codec observation are laid out by
    hand in 105 bytes, written in one place and read in another.  An event
    comes back from its bytes, and the bytes of every well-formed buffer come
    back from its event; an observation comes back as the values `drain`
    writes. -/

namespace TeamAttack

open LittleEndian

/-! ## Copying a buffer piece by piece -/

/-- The first `n` bytes are those of `b`, the rest zero. -/
def Copied (b : Payload) (n : Nat) (p : Payload) : Prop :=
  ∀ (i : Nat) (h : i < compactBufferLen), p[i] = if i < n then b[i] else 0

theorem copied_zero (b : Payload) : Copied b 0 (Vector.replicate compactBufferLen 0) := by
  intro i h
  rw [if_neg (Nat.not_lt_zero i), Vector.getElem_replicate]

/-- The next piece of `b`, copied to its own place. -/
theorem Copied.next {b p : Payload} {n : Nat} (len : Nat) {src : List UInt8}
    (hsrc : src = slice b n len) (h : Copied b n p) :
    Copied b (n + len) (copyFromSlice p n src) := by
  subst hsrc
  intro i hi
  rw [getElem_copyFromSlice p n _ hi]
  by_cases hle : n ≤ i
  · rw [if_pos hle, getElem?_slice]
    by_cases hlt : i < n + len
    · rw [if_pos (by omega), if_pos hlt, Nat.add_sub_of_le hle, Vector.getElem?_eq_getElem hi]
      rfl
    · rw [if_neg (by omega), if_neg hlt, Option.getD_none, h i hi, if_neg (by omega)]
  · rw [if_neg hle, h i hi, if_pos (by omega), if_pos (by omega)]

/-- A buffer that is zero behind the copied part is copied whole. -/
theorem Copied.whole {b p : Payload} {n : Nat} (h : Copied b n p)
    (htail : ∀ (i : Nat) (hi : i < compactBufferLen), n ≤ i → b[i] = 0) : p = b := by
  refine Vector.ext ?_
  intro i hi
  rw [h i hi]
  by_cases hlt : i < n
  · exact if_pos hlt
  · rw [if_neg hlt, htail i hi (Nat.le_of_not_lt hlt)]

theorem length_slice (b : Payload) {start len : Nat} (h : start + len ≤ compactBufferLen) :
    (slice b start len).length = len := by
  rw [slice, List.length_take, List.length_drop, Vector.length_toList]
  omega

theorem slice_one (b : Payload) {i : Nat} (h : i < compactBufferLen) : slice b i 1 = [b[i]] := by
  refine List.ext_getElem? ?_
  intro k
  rw [getElem?_slice]
  cases k with
  | zero =>
      rw [if_pos Nat.zero_lt_one, Nat.add_zero, Vector.getElem?_eq_getElem h]
      rfl
  | succ k =>
      rw [if_neg (by omega)]
      rfl

/-- A slice is its first byte and the slice behind it. -/
theorem slice_succ (b : Payload) {i : Nat} (len : Nat) (h : i < compactBufferLen) :
    slice b i (len + 1) = b[i] :: slice b (i + 1) len := by
  rw [slice, List.drop_eq_getElem_cons (by rw [Vector.length_toList]; exact h), List.take_succ_cons,
    Vector.getElem_toList]
  rfl

/-! ## Events -/

/-- **A well-formed buffer survives its decoding.** -/
theorem encode_decode (b : Payload) (hflag : b[4] = 0 ∨ b[4] = 1)
    (htail : ∀ (i : Nat) (hi : i < compactBufferLen), 26 ≤ i → b[i] = 0) :
    (Application.Event.decode b).encode = b := by
  -- a flag of 0 or 1 comes back as it was
  have hinit : (Application.Event.decode b).initialized.toUInt8 = b[4] := by
    show (decide (b[4] ≠ 0)).toUInt8 = b[4]
    rcases hflag with h | h
    · rw [h]
      rfl
    · rw [h]
      rfl
  have hfirst : [b[0], b[1], b[2], b[3], b[4], b[5]] = slice b 0 6 := by
    rw [slice_succ b 5 (by decide), slice_succ b 4 (by decide), slice_succ b 3 (by decide),
      slice_succ b 2 (by decide), slice_succ b 1 (by decide), slice_one b (by decide)]
  -- field by field, from the last that `encode` stores to the first
  have hcopied : Copied b 26 (Application.Event.decode b).encode := by
    unfold Application.Event.encode
    rw [hinit]
    refine Copied.next 1 (slice_one b (by decide)).symm ?_
    refine Copied.next 1 (slice_one b (by decide)).symm ?_
    refine Copied.next 8 (le64_of64 (length_slice b (by decide))) ?_
    refine Copied.next 4 (le32_of32 (length_slice b (by decide))) ?_
    refine Copied.next 4 (le32_of32 (length_slice b (by decide))) ?_
    refine Copied.next 1 (slice_one b (by decide)).symm ?_
    refine Copied.next 1 (slice_one b (by decide)).symm ?_
    exact Copied.next 6 hfirst (copied_zero b)
  exact hcopied.whole htail

/-! ## Codec observations -/

/-- The numbers of an observation, read back from their bytes. -/
theorem slice_observation (o : CodecProbe.Observation) :
    slice o.encode 4 4 = le32 o.before ∧ slice o.encode 8 4 = le32 o.after
      ∧ slice o.encode 12 8 = le64 o.elapsed := by
  rw [CodecProbe.Observation.encode]
  refine ⟨?_, ?_, ?_⟩
  · iterate 2 rw [slice_copyFromSlice_of_apart _ _ (by simp) (by decide)]
    exact slice_copyFromSlice_self _ (length_le32 _) (by decide)
  · rw [slice_copyFromSlice_of_apart _ _ (by simp) (by decide)]
    exact slice_copyFromSlice_self _ (length_le32 _) (by decide)
  · exact slice_copyFromSlice_self _ (length_le64 _) (by decide)

/-- The first three bytes of an observation. -/
theorem getElem_observation (o : CodecProbe.Observation) :
    o.encode[0] = UInt8.ofNat o.direction.val ∧ o.encode[1] = o.base ∧ o.encode[2] = o.team := by
  simp [CodecProbe.Observation.encode, getElem_copyFromSlice]

/-- An advance of fourteen is one of the integers. -/
theorem advanced_iff (before after : UInt32) :
    (decide (before ≤ after) && decide (after - before = 14)) = true
      ↔ after.toNat = before.toNat + 14 := by
  have hafter := after.toNat_lt
  rw [Bool.and_eq_true, decide_eq_true_eq, decide_eq_true_eq, UInt32.le_iff_toNat_le]
  constructor
  · rintro ⟨hle, hdiff⟩
    rw [← UInt32.toNat_inj, UInt32.toNat_sub_of_le _ _ hle] at hdiff
    have h14 : (14 : UInt32).toNat = 14 := rfl
    omega
  · intro h
    have hle : before.toNat ≤ after.toNat := by omega
    refine ⟨hle, ?_⟩
    rw [← UInt32.toNat_inj, UInt32.toNat_sub_of_le _ _ hle]
    show _ = 14
    omega

/-- What `drain` reads of a stored observation. -/
structure ReadBack (o : CodecProbe.Observation) (line : CodecProbe.EventLine) : Prop where
  direction : line.encode = true ↔ o.direction = 0
  base : line.base = o.base
  team : line.team = o.team
  before : line.before = o.before
  after : line.after = o.after
  elapsed : line.elapsedMs = o.elapsed
  advanced : line.advanced14 = true ↔ o.after.toNat = o.before.toNat + 14

theorem observation_read_back (o : CodecProbe.Observation) {capture : Capture}
    (h : capture.bytes = o.encode) : ReadBack o (CodecProbe.eventLine capture) := by
  obtain ⟨hbefore, hafter, helapsed⟩ := slice_observation o
  obtain ⟨hdirection, hbase, hteam⟩ := getElem_observation o
  rw [← h] at hbefore hafter helapsed hdirection hbase hteam
  have hb : of32 (slice capture.bytes 4 4) = o.before := by rw [hbefore, of32_le32]
  have ha : of32 (slice capture.bytes 8 4) = o.after := by rw [hafter, of32_le32]
  refine ⟨?_, hbase, hteam, hb, ha, ?_, ?_⟩
  · have hflag : ∀ d : CodecProbe.Direction, decide (UInt8.ofNat d.val = 0) = true ↔ d = 0 := by
      decide
    rw [← hflag, ← hdirection]
    rfl
  · show of64 (slice capture.bytes 12 8) = o.elapsed
    rw [helapsed, of64_le64]
  · rw [← advanced_iff, ← hb, ← ha]
    rfl

/-- **Both payload formats round-trip.** -/
theorem payloads_round_trip :
    (∀ e : Application.Event, Application.Event.decode e.encode = e)
      ∧ (∀ b : Payload, b[4] = 0 ∨ b[4] = 1 →
        (∀ (i : Nat) (hi : i < compactBufferLen), 26 ≤ i → b[i] = 0) →
        (Application.Event.decode b).encode = b)
      ∧ ∀ (o : CodecProbe.Observation) (sequence : Nat),
        ReadBack o (CodecProbe.eventLine ⟨sequence, o.encode⟩) := by
  refine ⟨decode_encode, encode_decode, ?_⟩
  intro o sequence
  exact observation_read_back o rfl

/-- A buffer of 26 ones and its event. -/
theorem payloads_round_trip_ones :
    (Application.Event.decode (Vector.ofFn fun i => if i.val < 26 then 1 else 0)).encode
      = Vector.ofFn fun i => if i.val < 26 then 1 else 0 := by
  refine payloads_round_trip.2.1 _ (Or.inr rfl) ?_
  intro i hi hle
  rw [Vector.getElem_ofFn]
  exact if_neg (Nat.not_lt.mpr hle)

end TeamAttack
