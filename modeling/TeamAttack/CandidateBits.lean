import TeamAttack.Library.ExceptRules
import TeamAttack.Library.PySet
import TeamAttack.Library.RustStr

/-! # Candidate bits (`analyze_ab.py`)

    A bit is a candidate when it has one value in every Off and Return-Off
    sample and the other value in every On sample, over at least three cycles
    of one capture mask. -/

namespace TeamAttack.AnalyzeAb

open RustStr ExceptRules

/-- `tuple[int | None, ...]`: the bytes of a sample, `none` where unread. -/
abbrev Payload := List (Option Nat)

/-- One Off/On/Return-Off cycle. -/
structure Triple where
  off : Payload
  on : Payload
  returnOff : Payload
  deriving DecidableEq

def bufferLen : Nat := 0x69

/-- The exceptions of `candidate_bits`. -/
inductive PyError where
  | valueError (message : Str)
  | typeError
  | indexError
  deriving DecidableEq

structure Candidate where
  offset : Str
  mask : Str
  offBits : Str
  onBits : Str
  status : Str
  deriving DecidableEq

/-- `sample[offset]`. -/
def item (sample : Payload) (offset : Nat) : Except PyError (Option Nat) :=
  match sample[offset]? with
  | some value => .ok value
  | none => .error .indexError

/-- `value & mask`. -/
def masked (mask : Nat) : Option Nat → Except PyError Nat
  | some value => .ok (value &&& mask)
  | none => .error .typeError

/-- `if len(off) == len(on) == 1 and off != on`: what is appended. -/
def appended (offset mask : Nat) (off on : List Nat) : List Candidate :=
  match off, on with
  | [offBits], [onBits] =>
      if offBits ≠ onBits then
        [⟨hexLower offset, hexLower mask, hexLower offBits, hexLower onBits,
          "CORRELATION_ONLY".toList⟩]
      else []
  | _, _ => []

/-- The body of the loop over the bits. -/
def bitCandidates (offset : Nat) (offValues onValues : List (Option Nat)) (bit : Nat) :
    Except PyError (List Candidate) := do
  let mask := 1 <<< bit
  let off ← offValues.mapM (masked mask)
  let on ← onValues.mapM (masked mask)
  return appended offset mask (PySet.ofItems off) (PySet.ofItems on)

/-- The body of the loop over the offsets. -/
def offsetCandidates (first : Payload) (triplets : List Triple) (offset : Nat) :
    Except PyError (List Candidate) := do
  if (← item first offset).isNone then return []
  let offValues ← (triplets.flatMap fun t => [t.off, t.returnOff]).mapM (item · offset)
  let onValues ← triplets.mapM (fun t => item t.on offset)
  return (← (List.range 8).mapM (bitCandidates offset offValues onValues)).flatten

/-- `records`. -/
def records (triplets : List Triple) : List Payload :=
  triplets.flatMap fun t => [t.off, t.on, t.returnOff]

/-- `tuple(value is not None for value in record)`. -/
def captureMask (record : Payload) : List Bool := record.map Option.isSome

def candidateBits (triplets : List Triple) : Except PyError (List Candidate) := do
  if triplets.length < 3 then
    .error (.valueError "at least three independent Off/On/Off cycles are required".toList)
  if (records triplets).any (fun record => record.length ≠ bufferLen) then
    .error (.valueError "wrong payload length".toList)
  match PySet.ofItems ((records triplets).map captureMask), records triplets with
  | [mask], first :: _ =>
      if !mask.any id then
        .error (.valueError "all samples must have the same nonempty capture mask".toList)
      return (← (List.range bufferLen).mapM (offsetCandidates first triplets)).flatten
  | _, _ => .error (.valueError "all samples must have the same nonempty capture mask".toList)

/-! ## What a candidate is -/

/-- The bit of a sample, where the byte is captured. -/
def bitAt (sample : Payload) (offset bit : Nat) : Option Bool :=
  (sample[offset]?.join).map (·.testBit bit)

/-- The bit is `v` in every Off and Return-Off sample and `!v` in every On
    sample. -/
def Repeatable (triplets : List Triple) (offset bit : Nat) (v : Bool) : Prop :=
  ∀ t ∈ triplets, bitAt t.off offset bit = some v ∧ bitAt t.returnOff offset bit = some v
    ∧ bitAt t.on offset bit = some (!v)

instance (triplets : List Triple) (offset bit : Nat) (v : Bool) :
    Decidable (Repeatable triplets offset bit v) :=
  inferInstanceAs (Decidable (∀ t ∈ triplets, _))

/-- Three cycles or more, of whole samples with one nonempty capture mask. -/
structure Comparable (triplets : List Triple) (mask : List Bool) : Prop where
  cycles : 3 ≤ triplets.length
  lengths : ∀ r ∈ records triplets, r.length = bufferLen
  common : ∀ r ∈ records triplets, captureMask r = mask
  captured : true ∈ mask

/-- The entry of a candidate, with its two bits in place. -/
def candidateOf (offset bit : Nat) (v : Bool) : Candidate :=
  ⟨hexLower offset, hexLower (1 <<< bit), hexLower (v.toNat <<< bit), hexLower ((!v).toNat <<< bit),
    "CORRELATION_ONLY".toList⟩

/-- The Off value of a candidate bit. -/
def polarity? (triplets : List Triple) (offset bit : Nat) : Option Bool :=
  if Repeatable triplets offset bit false then some false
  else if Repeatable triplets offset bit true then some true
  else none

theorem Repeatable.unique {triplets : List Triple} (hne : triplets ≠ []) {offset bit : Nat}
    {v w : Bool} (hv : Repeatable triplets offset bit v) (hw : Repeatable triplets offset bit w) :
    v = w := by
  obtain ⟨t, rest, rfl⟩ := List.exists_cons_of_ne_nil hne
  have hfirst := (hv t List.mem_cons_self).1
  rw [(hw t List.mem_cons_self).1] at hfirst
  exact (Option.some.inj hfirst).symm

theorem polarity?_eq_some {triplets : List Triple} (hne : triplets ≠ []) {offset bit : Nat}
    {v : Bool} : polarity? triplets offset bit = some v ↔ Repeatable triplets offset bit v := by
  unfold polarity?
  split_ifs with hfalse htrue
  -- only one polarity is repeatable, for there is a cycle
  · rw [Option.some.injEq]
    constructor
    · rintro rfl
      exact hfalse
    · intro hv
      exact hfalse.unique hne hv
  · rw [Option.some.injEq]
    constructor
    · rintro rfl
      exact htrue
    · intro hv
      exact htrue.unique hne hv
  · constructor
    · intro h
      cases h
    · intro hv
      cases v with
      | false => exact absurd hv hfalse
      | true => exact absurd hv htrue

/-! ## One bit -/

theorem and_bit (a bit : Nat) : a &&& 1 <<< bit = (a.testBit bit).toNat <<< bit := by
  rw [Nat.shiftLeft_eq, Nat.one_mul, Nat.and_two_pow, Nat.shiftLeft_eq]

theorem shifted_bit_inj {v w : Bool} {bit : Nat} (h : v.toNat <<< bit = w.toNat <<< bit) :
    v = w := by
  rw [Nat.shiftLeft_eq, Nat.shiftLeft_eq] at h
  have hnat := Nat.eq_of_mul_eq_mul_right (Nat.two_pow_pos bit) h
  cases v with
  | false =>
      cases w with
      | false => rfl
      | true => cases hnat
  | true =>
      cases w with
      | false => cases hnat
      | true => rfl

/-- The set of a bit's values is a singleton when the samples agree. -/
theorem bit_set_singleton {values : List Nat} (hne : values ≠ []) {bit x : Nat} :
    PySet.ofItems (values.map (· &&& 1 <<< bit)) = [x] ↔
      ∃ v : Bool, x = v.toNat <<< bit ∧ ∀ a ∈ values, a.testBit bit = v := by
  rw [PySet.ofItems_eq_singleton, List.forall_mem_map]
  constructor
  · rintro ⟨_, hall⟩
    obtain ⟨a, rest, rfl⟩ := List.exists_cons_of_ne_nil hne
    have hfirst := hall a List.mem_cons_self
    rw [and_bit] at hfirst
    refine ⟨a.testBit bit, hfirst.symm, ?_⟩
    intro b hb
    have hb' := hall b hb
    rw [and_bit, ← hfirst] at hb'
    exact shifted_bit_inj hb'
  · rintro ⟨v, rfl, hall⟩
    refine ⟨fun hnil => hne (List.map_eq_nil_iff.mp hnil), ?_⟩
    intro a ha
    rw [and_bit, hall a ha]

theorem mapM_ok {ε α β : Type} {f : α → Except ε β} {g : α → β} {l : List α}
    (h : ∀ a ∈ l, f a = .ok (g a)) : l.mapM f = .ok (l.map g) := by
  rw [mapM_congr h]
  exact List.mapM_pure

theorem mapM_masked (values : List Nat) (mask : Nat) :
    (values.map some).mapM (masked mask) = .ok (values.map (· &&& mask)) := by
  rw [List.mapM_map]
  exact mapM_ok (fun a _ => rfl)

theorem appended_none {off on : List Nat} (offset mask : Nat)
    (h : (∀ x, off ≠ [x]) ∨ ∀ x, on ≠ [x]) : appended offset mask off on = [] := by
  unfold appended
  split
  · rcases h with h | h
    · exact absurd rfl (h _)
    · exact absurd rfl (h _)
  · rfl

/-- **One bit of one offset.** -/
theorem bitCandidates_eq {offValues onValues : List Nat} (hoff : offValues ≠ [])
    (hon : onValues ≠ []) (offset bit : Nat) {v : Option Bool}
    (hv : ∀ w, v = some w ↔ (∀ a ∈ offValues, a.testBit bit = w)
      ∧ ∀ a ∈ onValues, a.testBit bit = !w) :
    bitCandidates offset (offValues.map some) (onValues.map some) bit
      = .ok (v.map (candidateOf offset bit)).toList := by
  unfold bitCandidates
  dsimp only
  rw [mapM_masked, mapM_masked]
  show Except.ok (appended offset (1 <<< bit) (PySet.ofItems (offValues.map (· &&& 1 <<< bit)))
    (PySet.ofItems (onValues.map (· &&& 1 <<< bit)))) = _
  congr 1
  -- a bit is reported when both sets are singletons that differ
  by_cases huniform : (∃ w : Bool, ∀ a ∈ offValues, a.testBit bit = w)
      ∧ ∃ u : Bool, ∀ a ∈ onValues, a.testBit bit = u
  · obtain ⟨⟨w, hw⟩, u, hu⟩ := huniform
    rw [(bit_set_singleton hoff).mpr ⟨w, rfl, hw⟩, (bit_set_singleton hon).mpr ⟨u, rfl, hu⟩]
    show (if w.toNat <<< bit ≠ u.toNat <<< bit then _ else _) = _
    by_cases heq : w = u
    -- the same value on both sides: no bit
    · subst heq
      have hnone : v = none := by
        rw [Option.eq_none_iff_forall_ne_some]
        intro x hx
        obtain ⟨hx1, hx2⟩ := (hv x).mp hx
        obtain ⟨a, _, rfl⟩ := List.exists_cons_of_ne_nil hoff
        obtain ⟨b, _, rfl⟩ := List.exists_cons_of_ne_nil hon
        have ha := (hw a List.mem_cons_self).symm.trans (hx1 a List.mem_cons_self)
        have hb := (hu b List.mem_cons_self).symm.trans (hx2 b List.mem_cons_self)
        rw [ha] at hb
        cases x <;> cases hb
      rw [if_neg (not_not.mpr rfl), hnone]
      rfl
    · have hnot : u = !w := by
        cases w <;> cases u <;> first | rfl | exact absurd rfl heq
      have hsome : v = some w := (hv w).mpr ⟨hw, fun a ha => (hu a ha).trans hnot⟩
      rw [if_pos (fun h => heq (shifted_bit_inj h)), hsome, hnot]
      rfl
  · have hnone : v = none := by
      rw [Option.eq_none_iff_forall_ne_some]
      intro x hx
      obtain ⟨hx1, hx2⟩ := (hv x).mp hx
      exact huniform ⟨⟨x, hx1⟩, !x, hx2⟩
    rw [hnone, appended_none]
    · rfl
    -- a side with both values is no singleton
    · rw [not_and_or] at huniform
      rcases huniform with hno | hno
      · left
        intro x hx
        obtain ⟨w, _, hw⟩ := (bit_set_singleton hoff).mp hx
        exact hno ⟨w, hw⟩
      · right
        intro x hx
        obtain ⟨w, _, hw⟩ := (bit_set_singleton hon).mp hx
        exact hno ⟨w, hw⟩

/-! ## All bits -/

/-- A captured byte, zero elsewhere. -/
def byteAt (sample : Payload) (offset : Nat) : Nat := sample[offset]?.join.getD 0

theorem captured_byte {sample : Payload} {offset : Nat}
    (h : (captureMask sample)[offset]? = some true) :
    item sample offset = .ok (some (byteAt sample offset))
      ∧ ∀ bit, bitAt sample offset bit = some ((byteAt sample offset).testBit bit) := by
  rw [captureMask, List.getElem?_map, Option.map_eq_some_iff] at h
  obtain ⟨value, hvalue, hsome⟩ := h
  obtain ⟨byte, rfl⟩ := Option.isSome_iff_exists.mp hsome
  unfold item bitAt byteAt
  rw [hvalue]
  exact ⟨rfl, fun _ => rfl⟩

theorem unread_byte {sample : Payload} {offset : Nat}
    (h : (captureMask sample)[offset]? = some false) :
    item sample offset = .ok none ∧ ∀ bit, bitAt sample offset bit = none := by
  rw [captureMask, List.getElem?_map, Option.map_eq_some_iff] at h
  obtain ⟨value, hvalue, hnone⟩ := h
  obtain rfl : value = none := by simpa using hnone
  unfold item bitAt
  rw [hvalue]
  exact ⟨rfl, fun _ => rfl⟩

section Cycles

variable {triplets : List Triple} {mask : List Bool}

theorem Comparable.ne_nil (h : Comparable triplets mask) : triplets ≠ [] := by
  rintro rfl
  exact absurd h.cycles (by decide)

theorem mem_records {t : Triple} (h : t ∈ triplets) :
    t.off ∈ records triplets ∧ t.on ∈ records triplets ∧ t.returnOff ∈ records triplets := by
  unfold records
  simp only [List.mem_flatMap]
  exact ⟨⟨t, h, by simp⟩, ⟨t, h, by simp⟩, ⟨t, h, by simp⟩⟩

theorem Comparable.mask_length (h : Comparable triplets mask) : mask.length = bufferLen := by
  obtain ⟨t, ht⟩ := List.exists_mem_of_ne_nil triplets h.ne_nil
  have hmem := (mem_records ht).1
  rw [← h.common _ hmem, captureMask, List.length_map, h.lengths _ hmem]

/-- The candidate bits of one offset. -/
def foundAt (triplets : List Triple) (offset : Nat) : List (Nat × Nat × Bool) :=
  (List.range 8).filterMap fun bit =>
    (polarity? triplets offset bit).map fun v => (offset, bit, v)

/-- The candidate bits, by offset and bit. -/
def found (triplets : List Triple) : List (Nat × Nat × Bool) :=
  (List.range bufferLen).flatMap (foundAt triplets)

/-- The entry of a found bit. -/
def entry (p : Nat × Nat × Bool) : Candidate := candidateOf p.1 p.2.1 p.2.2

/-- `off_values`, where the offset is captured. -/
def offBytes (triplets : List Triple) (offset : Nat) : List Nat :=
  (triplets.flatMap fun t => [t.off, t.returnOff]).map (byteAt · offset)

/-- `on_values`, where the offset is captured. -/
def onBytes (triplets : List Triple) (offset : Nat) : List Nat :=
  triplets.map fun t => byteAt t.on offset

theorem offBytes_ne_nil (h : triplets ≠ []) (offset : Nat) : offBytes triplets offset ≠ [] := by
  obtain ⟨t, rest, rfl⟩ := List.exists_cons_of_ne_nil h
  exact List.cons_ne_nil _ _

theorem onBytes_ne_nil (h : triplets ≠ []) (offset : Nat) : onBytes triplets offset ≠ [] := by
  obtain ⟨t, rest, rfl⟩ := List.exists_cons_of_ne_nil h
  exact List.cons_ne_nil _ _

/-- A captured bit is repeatable by its bytes. -/
theorem repeatable_iff {offset bit : Nat} (hbit : ∀ r ∈ records triplets, ∀ bit,
    bitAt r offset bit = some ((byteAt r offset).testBit bit)) (v : Bool) :
    Repeatable triplets offset bit v ↔ (∀ a ∈ offBytes triplets offset, a.testBit bit = v)
      ∧ ∀ a ∈ onBytes triplets offset, a.testBit bit = !v := by
  unfold offBytes onBytes Repeatable
  rw [List.forall_mem_map, List.forall_mem_map]
  constructor
  · intro h
    constructor
    · intro r hr
      obtain ⟨t, ht, hr⟩ := List.mem_flatMap.mp hr
      obtain ⟨hoff, _, hreturn⟩ := mem_records ht
      obtain ⟨h1, h2, _⟩ := h t ht
      rcases List.mem_pair.mp hr with rfl | rfl
      -- an off record
      · rw [hbit _ hoff] at h1
        exact Option.some.inj h1
      · rw [hbit _ hreturn] at h2
        exact Option.some.inj h2
    · intro t ht
      have h3 := (h t ht).2.2
      rw [hbit _ (mem_records ht).2.1] at h3
      exact Option.some.inj h3
  · rintro ⟨hoffs, hons⟩ t ht
    obtain ⟨hoff, hon, hreturn⟩ := mem_records ht
    rw [hbit _ hoff, hbit _ hon, hbit _ hreturn, hons t ht,
      hoffs t.off (List.mem_flatMap.mpr ⟨t, ht, by simp⟩),
      hoffs t.returnOff (List.mem_flatMap.mpr ⟨t, ht, by simp⟩)]
    exact ⟨rfl, rfl, rfl⟩

/-- An offset that is not captured has no bits. -/
theorem foundAt_unread (hne : triplets ≠ []) {offset : Nat}
    (hmask : ∀ r ∈ records triplets, (captureMask r)[offset]? = some false) :
    foundAt triplets offset = [] := by
  unfold foundAt
  rw [List.filterMap_eq_nil_iff]
  intro bit _
  rw [Option.map_eq_none_iff, Option.eq_none_iff_forall_ne_some]
  intro v hv
  obtain ⟨t, ht⟩ := List.exists_mem_of_ne_nil triplets hne
  have hbit := ((polarity?_eq_some hne).mp hv t ht).1
  rw [(unread_byte (hmask _ (mem_records ht).1)).2 bit] at hbit
  cases hbit

/-- The bytes of a captured offset. -/
theorem items_captured {offset : Nat}
    (hmask : ∀ r ∈ records triplets, (captureMask r)[offset]? = some true) :
    (triplets.flatMap fun t => [t.off, t.returnOff]).mapM (item · offset)
        = .ok ((offBytes triplets offset).map some)
      ∧ triplets.mapM (fun t => item t.on offset)
        = .ok ((onBytes triplets offset).map some) := by
  have hitem : ∀ r ∈ records triplets, item r offset = .ok (some (byteAt r offset)) :=
    fun r hr => (captured_byte (hmask r hr)).1
  constructor
  · rw [offBytes, List.map_map]
    refine mapM_ok ?_
    intro r hr
    obtain ⟨t, ht, hr⟩ := List.mem_flatMap.mp hr
    obtain ⟨hoff, _, hreturn⟩ := mem_records ht
    rcases List.mem_pair.mp hr with rfl | rfl
    · exact hitem _ hoff
    · exact hitem _ hreturn
  · rw [onBytes, List.map_map]
    refine mapM_ok ?_
    intro t ht
    exact hitem _ (mem_records ht).2.1

/-- **One offset.** -/
theorem offsetCandidates_eq (h : Comparable triplets mask) {first : Payload}
    (hfirst : first ∈ records triplets) {offset : Nat} (hoffset : offset < bufferLen) :
    offsetCandidates first triplets offset = .ok ((foundAt triplets offset).map entry) := by
  have hne := h.ne_nil
  have hlt : offset < mask.length := by rw [h.mask_length]; exact hoffset
  have hmask : ∀ r ∈ records triplets, (captureMask r)[offset]? = some mask[offset] := by
    intro r hr
    rw [h.common r hr, List.getElem?_eq_getElem hlt]
  unfold offsetCandidates
  -- the mask is common, so the offset is captured everywhere or nowhere
  cases hcaptured : mask[offset] with
  | false =>
      rw [hcaptured] at hmask
      rw [foundAt_unread hne hmask, (unread_byte (hmask first hfirst)).1]
      rfl
  | true =>
      rw [hcaptured] at hmask
      obtain ⟨hoffs, hons⟩ := items_captured hmask
      have hbits : (List.range 8).mapM (bitCandidates offset ((offBytes triplets offset).map some)
          ((onBytes triplets offset).map some)) = .ok ((List.range 8).map fun bit =>
            ((polarity? triplets offset bit).map (candidateOf offset bit)).toList) := by
        refine mapM_ok ?_
        intro bit _
        refine bitCandidates_eq (offBytes_ne_nil hne offset) (onBytes_ne_nil hne offset) offset
          bit ?_
        intro v
        rw [polarity?_eq_some hne]
        exact repeatable_iff (fun r hr => (captured_byte (hmask r hr)).2) v
      rw [(captured_byte (hmask first hfirst)).1, hoffs, hons]
      show ((List.range 8).mapM (bitCandidates offset ((offBytes triplets offset).map some)
        ((onBytes triplets offset).map some)) >>= fun found => pure found.flatten) = _
      rw [hbits]
      show Except.ok ((List.range 8).map fun bit =>
        ((polarity? triplets offset bit).map (candidateOf offset bit)).toList).flatten = _
      rw [← List.flatMap_def, ← List.filterMap_eq_flatMap_toList, foundAt, List.map_filterMap]
      congr 2
      funext bit
      rw [Option.map_map]
      rfl

/-- What `candidate_bits` returns on comparable cycles. -/
theorem candidateBits_eq (h : Comparable triplets mask) :
    candidateBits triplets = .ok ((found triplets).map entry) := by
  have hcount : ¬ triplets.length < 3 := Nat.not_lt.mpr h.cycles
  have hlengths : ¬ (records triplets).any (fun r => decide (r.length ≠ bufferLen)) = true := by
    rw [List.any_eq_true]
    rintro ⟨r, hr, hne⟩
    rw [decide_eq_true_eq] at hne
    exact hne (h.lengths r hr)
  obtain ⟨t, ht⟩ := List.exists_mem_of_ne_nil triplets h.ne_nil
  obtain ⟨first, rest, hfirst⟩ :=
    List.exists_cons_of_ne_nil (List.ne_nil_of_mem (mem_records ht).1)
  have hmasks : PySet.ofItems ((records triplets).map captureMask) = [mask] := by
    rw [PySet.ofItems_eq_singleton, List.forall_mem_map]
    refine ⟨?_, h.common⟩
    rw [hfirst]
    exact List.cons_ne_nil _ _
  have hany : mask.any id = true := List.any_eq_true.mpr ⟨true, h.captured, rfl⟩
  have hoffsets : (List.range bufferLen).mapM (offsetCandidates first triplets)
      = .ok ((List.range bufferLen).map fun offset => (foundAt triplets offset).map entry) := by
    refine mapM_ok ?_
    intro offset hoffset
    refine offsetCandidates_eq h ?_ (List.mem_range.mp hoffset)
    rw [hfirst]
    exact List.mem_cons_self
  unfold candidateBits
  rw [if_neg hcount]
  dsimp only
  rw [if_neg hlengths, hmasks, hfirst]
  dsimp only
  rw [hany, hoffsets]
  show Except.ok ((List.range bufferLen).map fun offset =>
    (foundAt triplets offset).map entry).flatten = _
  rw [← List.flatMap_def, found, List.map_flatMap]

theorem mem_found (hne : triplets ≠ []) {offset bit : Nat} {v : Bool} :
    (offset, bit, v) ∈ found triplets ↔
      offset < bufferLen ∧ bit < 8 ∧ Repeatable triplets offset bit v := by
  unfold found foundAt
  simp only [List.mem_flatMap, List.mem_range, List.mem_filterMap, Option.map_eq_some_iff,
    Prod.mk.injEq, polarity?_eq_some hne]
  constructor
  · rintro ⟨o, ho, b, hb, w, hw, rfl, rfl, rfl⟩
    exact ⟨ho, hb, hw⟩
  · rintro ⟨ho, hb, hv⟩
    exact ⟨offset, ho, bit, hb, v, hv, rfl, rfl, rfl⟩

/-- Increasing (offset, bit) order. -/
def Before (p q : Nat × Nat × Bool) : Prop := p.1 < q.1 ∨ p.1 = q.1 ∧ p.2.1 < q.2.1

theorem found_ordered (triplets : List Triple) : (found triplets).Pairwise Before := by
  have hentry : ∀ {offset : Nat} {p : Nat × Nat × Bool}, p ∈ foundAt triplets offset →
      p.1 = offset := by
    intro offset p hp
    obtain ⟨bit, _, hp⟩ := List.mem_filterMap.mp hp
    obtain ⟨v, _, rfl⟩ := Option.map_eq_some_iff.mp hp
    rfl
  unfold found
  rw [List.pairwise_flatMap]
  constructor
  -- inside an offset the bits increase
  · intro offset _
    unfold foundAt
    rw [List.pairwise_filterMap]
    refine List.pairwise_lt_range.imp ?_
    intro bit bit' hlt p hp q hq
    obtain ⟨v, _, rfl⟩ := Option.map_eq_some_iff.mp hp
    obtain ⟨w, _, rfl⟩ := Option.map_eq_some_iff.mp hq
    exact Or.inr ⟨rfl, hlt⟩
  -- and the offsets increase
  · refine List.pairwise_lt_range.imp ?_
    intro offset offset' hlt p hp q hq
    left
    rw [hentry hp, hentry hq]
    exact hlt

/-- The found bits depend on what is repeatable only. -/
theorem found_congr {others : List Triple}
    (h : ∀ offset bit v, Repeatable others offset bit v ↔ Repeatable triplets offset bit v) :
    found others = found triplets := by
  have hpolarity : ∀ offset bit, polarity? others offset bit = polarity? triplets offset bit := by
    intro offset bit
    unfold polarity?
    simp only [h]
  unfold found foundAt
  simp only [hpolarity]

end Cycles

/-! ## Other arrangements of the cycles -/

/-- A cycle with its two Off samples exchanged. -/
def Triple.swapped (t : Triple) : Triple := ⟨t.returnOff, t.on, t.off⟩

/-- Any of the cycles exchanged. -/
def Exchanged (triplets others : List Triple) : Prop :=
  List.Forall₂ (fun t u => u = t ∨ u = t.swapped) triplets others

variable {triplets others : List Triple} {mask : List Bool}

/-- As many cycles over the same samples. -/
theorem Comparable.congr (h : Comparable triplets mask) (hcycles : 3 ≤ others.length)
    (hrecords : ∀ r ∈ records others, r ∈ records triplets) : Comparable others mask where
  cycles := hcycles
  lengths := fun r hr => h.lengths r (hrecords r hr)
  common := fun r hr => h.common r (hrecords r hr)
  captured := h.captured

theorem Comparable.perm (h : Comparable triplets mask) (hperm : others.Perm triplets) :
    Comparable others mask := by
  refine h.congr (hperm.length_eq ▸ h.cycles) ?_
  intro r hr
  obtain ⟨t, ht, hr⟩ := List.mem_flatMap.mp hr
  exact List.mem_flatMap.mpr ⟨t, hperm.mem_iff.mp ht, hr⟩

theorem repeatable_perm (hperm : others.Perm triplets) (offset bit : Nat) (v : Bool) :
    Repeatable others offset bit v ↔ Repeatable triplets offset bit v := by
  constructor
  · intro h t ht
    exact h t (hperm.mem_iff.mpr ht)
  · intro h t ht
    exact h t (hperm.mem_iff.mp ht)

theorem Exchanged.records (h : Exchanged triplets others) :
    ∀ r ∈ records others, r ∈ AnalyzeAb.records triplets := by
  induction h with
  | nil =>
      intro r hr
      exact hr
  | @cons t u ts us htu _ ih =>
      intro r hr
      rcases List.mem_append.mp hr with hr | hr
      · refine List.mem_append.mpr (Or.inl ?_)
        rcases htu with rfl | rfl
        · exact hr
        · simp only [Triple.swapped, List.mem_cons, List.not_mem_nil, or_false] at hr ⊢
          tauto
      · exact List.mem_append.mpr (Or.inr (ih r hr))

theorem Exchanged.repeatable (h : Exchanged triplets others) (offset bit : Nat) (v : Bool) :
    Repeatable others offset bit v ↔ Repeatable triplets offset bit v := by
  unfold Repeatable
  induction h with
  | nil => exact Iff.rfl
  | cons htu _ ih =>
      rw [List.forall_mem_cons, List.forall_mem_cons, ih]
      rcases htu with rfl | rfl
      · exact Iff.rfl
      · refine and_congr ?_ Iff.rfl
        unfold Triple.swapped
        tauto

/-- A further cycle of the same mask. -/
theorem Comparable.concat (h : Comparable triplets mask) {t : Triple}
    (ht : ∀ r ∈ [t.off, t.on, t.returnOff], r.length = bufferLen ∧ captureMask r = mask) :
    Comparable (triplets ++ [t]) mask := by
  have hrecords : records (triplets ++ [t])
      = records triplets ++ [t.off, t.on, t.returnOff] := List.flatMap_append
  refine ⟨?_, ?_, ?_, h.captured⟩
  · rw [List.length_append]
    exact Nat.le_add_right_of_le h.cycles
  · intro r hr
    rw [hrecords, List.mem_append] at hr
    rcases hr with hr | hr
    · exact h.lengths r hr
    · exact (ht r hr).1
  · intro r hr
    rw [hrecords, List.mem_append] at hr
    rcases hr with hr | hr
    · exact h.common r hr
    · exact (ht r hr).2

/-- A repeatable bit is one of a captured byte. -/
theorem Comparable.captured_at (h : Comparable triplets mask) {offset bit : Nat} {v : Bool}
    (hoffset : offset < bufferLen) (hv : Repeatable triplets offset bit v) :
    mask[offset]? = some true := by
  obtain ⟨t, ht⟩ := List.exists_mem_of_ne_nil triplets h.ne_nil
  have hlt : offset < mask.length := h.mask_length ▸ hoffset
  have hoff := (mem_records ht).1
  rw [List.getElem?_eq_getElem hlt, Option.some.injEq, ← Bool.not_eq_false]
  intro hfalse
  have hunread : (captureMask t.off)[offset]? = some false := by
    rw [h.common _ hoff, List.getElem?_eq_getElem hlt, hfalse]
  have hread := (unread_byte hunread).2 bit
  rw [(hv t ht).1] at hread
  cases hread

/-- **`candidate_bits` reports exactly the repeatable bits**, and so is
    unchanged by permuting or exchanging, and only loses by a further cycle. -/
theorem candidates_exact (h : Comparable triplets mask) :
    (∃ bits : List (Nat × Nat × Bool), candidateBits triplets = .ok (bits.map entry)
        ∧ bits.Pairwise Before
        ∧ ∀ offset bit v, (offset, bit, v) ∈ bits ↔ offset < bufferLen ∧ bit < 8
          ∧ mask[offset]? = some true ∧ Repeatable triplets offset bit v)
      ∧ (∀ others, others.Perm triplets → candidateBits others = candidateBits triplets)
      ∧ (∀ others, Exchanged triplets others → candidateBits others = candidateBits triplets)
      ∧ ∀ t : Triple, (∀ r ∈ [t.off, t.on, t.returnOff],
          r.length = bufferLen ∧ captureMask r = mask) →
        ∃ fewer all, candidateBits (triplets ++ [t]) = .ok fewer
          ∧ candidateBits triplets = .ok all ∧ ∀ c ∈ fewer, c ∈ all := by
  refine ⟨⟨found triplets, candidateBits_eq h, found_ordered triplets, ?_⟩, ?_, ?_, ?_⟩
  · intro offset bit v
    rw [mem_found h.ne_nil]
    constructor
    · rintro ⟨hoffset, hbit, hv⟩
      exact ⟨hoffset, hbit, h.captured_at hoffset hv, hv⟩
    · rintro ⟨hoffset, hbit, _, hv⟩
      exact ⟨hoffset, hbit, hv⟩
  · intro others hperm
    rw [candidateBits_eq h, candidateBits_eq (h.perm hperm), found_congr (repeatable_perm hperm)]
  · intro others hexchanged
    have hothers : Comparable others mask :=
      h.congr (hexchanged.length_eq ▸ h.cycles) hexchanged.records
    rw [candidateBits_eq h, candidateBits_eq hothers, found_congr hexchanged.repeatable]
  · intro t ht
    have hmore := h.concat ht
    refine ⟨_, _, candidateBits_eq hmore, candidateBits_eq h, ?_⟩
    -- a bit repeatable over more cycles is repeatable over fewer
    intro c hc
    obtain ⟨⟨offset, bit, v⟩, hp, rfl⟩ := List.mem_map.mp hc
    obtain ⟨hoffset, hbit, hv⟩ := (mem_found hmore.ne_nil).mp hp
    refine List.mem_map.mpr ⟨(offset, bit, v), (mem_found h.ne_nil).mpr ⟨hoffset, hbit, ?_⟩, rfl⟩
    intro u hu
    exact hv u (List.mem_append.mpr (Or.inl hu))

/-- A sample of which byte 4 is captured. -/
def sampleOf (value : Nat) : Payload := (List.replicate bufferLen none).set 4 (some value)

/-- Three cycles in which bit 5 of byte 4 follows the setting. -/
theorem candidates_exact_one_bit :
    ∃ bits : List (Nat × Nat × Bool),
      candidateBits (List.replicate 3 ⟨sampleOf 0, sampleOf 32, sampleOf 0⟩)
        = .ok (bits.map entry) ∧ (4, 5, false) ∈ bits := by
  have hcomparable : Comparable (List.replicate 3 ⟨sampleOf 0, sampleOf 32, sampleOf 0⟩)
      (captureMask (sampleOf 0)) :=
    ⟨by decide, by decide, by decide, by decide⟩
  obtain ⟨bits, hbits, _, hmem⟩ := (candidates_exact hcomparable).1
  exact ⟨bits, hbits, (hmem 4 5 false).mpr ⟨by decide, by decide, by decide, by decide⟩⟩

end TeamAttack.AnalyzeAb
