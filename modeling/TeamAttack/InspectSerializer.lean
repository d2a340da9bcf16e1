import TeamAttack.ConfigHex
import TeamAttack.SignatureGate

/-! # The offline inspector (`InspectSerializerCandidate.py`)

    The inspector runs over the text block of an imported program and exports
    two signatures; `validate_config` and `validate_signatures` run on the
    console.  They decide overlap, branch target and uniqueness in different
    ways, and agree on every block. -/

namespace TeamAttack.Inspect

open RustStr RustSlice CheckedWord LittleEndian ExceptRules BitFields HexText

/-! ## The inspector -/

/-- The text block in Ghidra's memory.  `findBytes` gives the least match at or
    after the cursor. -/
structure Memory where
  text : Text
  start : Nat
  findBytes : Nat → Nat → List UInt8 → Option Nat
  least : ∀ cursor raw found,
    findBytes cursor (start + text.bytes.length - 1) raw = some found ↔
      IsLeast {a | cursor ≤ a ∧ start ≤ a
        ∧ getRange text.bytes (a - start) (a - start + raw.length) = some raw} found

/-- `block.getEnd()`. -/
def Memory.stop (M : Memory) : Nat := M.start + M.text.bytes.length - 1

/-- `block.contains`. -/
def Memory.contains (M : Memory) (address : Int) : Bool :=
  M.start ≤ address && address < M.start + M.text.bytes.length

/-- `getBytes`. -/
def Memory.getBytes (M : Memory) (address : Int) (length : Int) : List UInt8 :=
  (M.text.bytes.drop (address - M.start).toNat).take length.toNat

/-- What the program's listing answers to the other questions of the script. -/
structure Listing where
  littleEndianAarch64 : Bool
  textBlock : Bool
  separateFunctions : Bool
  insideBodies : Bool

def blTarget (site : Int) (word : Nat) : Option Int :=
  if word &&& 0xfc000000 ≠ 0x94000000 then none
  else
    let immediate := word &&& 0x03ffffff
    let immediate : Int :=
      if immediate &&& 0x02000000 ≠ 0 then (immediate : Int) - 0x04000000 else immediate
    some (site + immediate * 4)

/-- The search loop of `signature`: the aligned matches, two at most. -/
def search (M : Memory) (raw : List UInt8) (cursor : Nat) (hits : List Nat) : List Nat :=
  if cursor ≤ M.stop ∧ hits.length < 2 then
    match _hfound : M.findBytes cursor M.stop raw with
    | none => hits
    | some found =>
        search M raw (found + 1)
          (if (found - M.start) % 4 = 0 then hits ++ [found - M.start] else hits)
  else hits
termination_by M.stop + 1 - cursor
decreasing_by
  have hle := ((M.least cursor raw found).mp _hfound).1.1
  omega

/-- `" ".join("%02X" % byte for byte in raw)`. -/
def hexText (raw : List UInt8) : Str :=
  [' '].intercalate (raw.map fun b => hexUpper 2 b.toNat)

def signature (M : Memory) (address length : Int) : Except Str Str := do
  let raw := M.getBytes address length
  if search M raw M.start [] ≠ [(address - M.start).toNat] then
    .error "Signature is not unique; use more bytes or another callsite".toList
  return hexText raw

/-- **`main`**, from the parsed arguments to the two exported signatures. -/
def inspect (listing : Listing) (M : Memory) (entryOffset callOffset length : Int) :
    Except Str (Str × Str) := do
  if ¬ (16 ≤ length ∧ length ≤ 64) ∨ length % 4 ≠ 0 ∨ entryOffset ≤ 0 ∨ callOffset ≤ 0
      ∨ entryOffset % 4 ≠ 0 ∨ callOffset % 4 ≠ 0 then
    .error "Invalid offsets or signature length".toList
  if |entryOffset - callOffset| < length then
    .error "Entry and caller signatures overlap".toList
  if !listing.littleEndianAarch64 then .error "Expected little-endian AARCH64".toList
  if !listing.textBlock then
    .error "Text base is not the initialized executable block start".toList
  let entry := M.start + entryOffset
  let call := M.start + callOffset
  if !M.contains entry || !M.contains (entry + (length - 1)) then
    .error "Signature lies outside this text block".toList
  if !M.contains call || !M.contains (call + (length - 1)) then
    .error "Signature lies outside this text block".toList
  if !listing.separateFunctions then
    .error "Require a defined function entry and a separate caller".toList
  if !listing.insideBodies then
    .error "Signature crosses a function boundary; shorten it or choose another caller".toList
  if blTarget callOffset (fromLe (M.getBytes call 4)) ≠ some entryOffset then
    .error "Caller does not begin with direct AArch64 BL to candidate".toList
  let prologue ← signature M entry length
  let callsite ← signature M call length
  return (prologue, callsite)

/-! ## Exported text -/

theorem filter_intercalate {sep : Char} {keep : Char → Bool} (hsep : keep sep = false)
    (parts : List Str) :
    ([sep].intercalate parts).filter keep = parts.flatMap (List.filter keep) := by
  induction parts with
  | nil => rfl
  | cons part rest ih =>
      cases rest with
      | nil => simp [List.intercalate]
      | cons next more =>
          rw [List.intercalate_cons_cons, List.filter_append, List.filter_append, ih,
            List.filter_singleton, hsep, List.flatMap_cons (x := part), cond_false,
            List.append_nil]

theorem not_separator_of_hexDigit {c : Char} (h : isHexDigit c = true) :
    (!isAsciiWhitespace c && c ≠ ':' && c ≠ '-') = true := by
  have hc := isHexDigit_iff.mp h
  have hne (d : Char) (hd : ¬ ((48 ≤ d.toNat ∧ d.toNat ≤ 57) ∨ (97 ≤ d.toNat ∧ d.toNat ≤ 102)
      ∨ (65 ≤ d.toNat ∧ d.toNat ≤ 70))) : c ≠ d := by
    rintro rfl
    exact hd hc
  have hfeed : c.toNat ≠ 0xc := by omega
  simp [isAsciiWhitespace, hfeed, hne ' ' (by decide), hne '\t' (by decide), hne '\n' (by decide),
    hne '\r' (by decide), hne ':' (by decide), hne '-' (by decide)]

/-- The exported text reads back as the bytes. -/
theorem decodeHex_hexText (raw : List UInt8) (line : Nat) :
    decodeHex (hexText raw) line = .ok raw := by
  apply decodeHex_hexUpper
  rw [hexCompact, hexText, filter_intercalate (by decide), List.flatMap_map]
  apply List.flatMap_congr
  intro b _
  rw [List.filter_eq_self]
  intro c hc
  exact not_separator_of_hexDigit (hexUpper_digits 2 b.toNat c hc)

/-! ## The search -/

/-- An aligned place from the cursor on that holds the bytes. -/
def Held (M : Memory) (raw : List UInt8) (cursor i : Nat) : Prop :=
  cursor ≤ M.start + i ∧ i % 4 = 0 ∧ getRange M.text.bytes i (i + raw.length) = some raw

theorem held_inside {M : Memory} {raw : List UInt8} {cursor i : Nat} (hraw : 0 < raw.length)
    (h : Held M raw cursor i) : M.start + i ≤ M.stop := by
  have hle := (getRange_eq_some.mp h.2.2).2.1
  unfold Memory.stop
  omega

/-- What the least match leaves behind it. -/
theorem held_step {M : Memory} {raw : List UInt8} {cursor found : Nat}
    (hfound : M.findBytes cursor M.stop raw = some found) (i : Nat) :
    Held M raw cursor i ↔
      (i = found - M.start ∧ (found - M.start) % 4 = 0) ∨ Held M raw (found + 1) i := by
  obtain ⟨⟨hcursor, hstart, hget⟩, hleast⟩ := (M.least cursor raw found).mp hfound
  constructor
  · rintro ⟨hle, haligned, hi⟩
    have hfirst : found ≤ M.start + i :=
      hleast ⟨hle, Nat.le_add_right .., by rwa [Nat.add_sub_cancel_left]⟩
    rcases Nat.eq_or_lt_of_le hfirst with heq | hlt
    · left
      have hi' : i = found - M.start := by omega
      exact ⟨hi', hi' ▸ haligned⟩
    · exact Or.inr ⟨hlt, haligned, hi⟩
  · rintro (⟨rfl, haligned⟩ | ⟨hle, haligned, hi⟩)
    · exact ⟨by omega, haligned, hget⟩
    · exact ⟨by omega, haligned, hi⟩

theorem held_none {M : Memory} {raw : List UInt8} {cursor : Nat}
    (hnone : M.findBytes cursor M.stop raw = none) (i : Nat) : ¬ Held M raw cursor i := by
  rintro ⟨hle, haligned, hi⟩
  have hsome : ∃ a, cursor ≤ a ∧ M.start ≤ a
      ∧ getRange M.text.bytes (a - M.start) (a - M.start + raw.length) = some raw :=
    ⟨M.start + i, hle, Nat.le_add_right .., by rwa [Nat.add_sub_cancel_left]⟩
  classical
  have hleast := (M.least cursor raw (Nat.find hsome)).mpr
    ⟨Nat.find_spec hsome, fun a ha => Nat.find_min' hsome ha⟩
  exact Option.some_ne_none _ (hleast.symm.trans hnone)

/-- The search ends with one hit when that is the only place that holds the
    bytes. -/
theorem search_eq_singleton {M : Memory} {raw : List UInt8} (hraw : 0 < raw.length)
    {cursor : Nat} {hits : List Nat} (o : Nat) :
    search M raw cursor hits = [o] ↔
      (hits = [o] ∧ ∀ i, ¬ Held M raw cursor i)
        ∨ (hits = [] ∧ ∀ i, Held M raw cursor i ↔ i = o) := by
  fun_induction search M raw cursor hits with
  | case1 cursor hits hmore hnone =>
      constructor
      · intro h
        exact Or.inl ⟨h, held_none hnone⟩
      · rintro (⟨h, -⟩ | ⟨-, h⟩)
        · exact h
        · exact absurd ((h o).mpr rfl) (held_none hnone o)
  | case2 cursor hits hmore found hfound ih =>
      have hstep := held_step hfound
      by_cases haligned : (found - M.start) % 4 = 0
      · -- the hit is one of the places, and the rest lie behind it
        have hhere : Held M raw cursor (found - M.start) := (hstep _).mpr (Or.inl ⟨rfl, haligned⟩)
        have hbehind : ¬ Held M raw (found + 1) (found - M.start) := by
          rintro ⟨hle, -⟩
          have hstart := ((M.least cursor raw found).mp hfound).1.2.1
          omega
        rw [dif_pos haligned] at ih
        rw [if_pos haligned, ih]
        constructor
        · rintro (⟨hone, hnone⟩ | ⟨habsurd, -⟩)
          · obtain ⟨rfl, rfl⟩ : hits = [] ∧ found - M.start = o := by
              cases hits with
              | nil => exact ⟨rfl, List.singleton_inj.mp hone⟩
              | cons hd tl => exact absurd (congrArg List.length hone) (by simp)
            refine Or.inr ⟨rfl, ?_⟩
            intro i
            rw [hstep]
            constructor
            · rintro (⟨hi, -⟩ | hi)
              · exact hi
              · exact absurd hi (hnone i)
            · rintro rfl
              exact Or.inl ⟨rfl, haligned⟩
          · cases hits <;> cases habsurd
        · rintro (⟨-, hnone⟩ | ⟨rfl, hall⟩)
          · exact absurd hhere (hnone _)
          · obtain rfl := (hall _).mp hhere
            refine Or.inl ⟨rfl, ?_⟩
            intro i hi
            obtain rfl := (hall i).mp ((hstep i).mpr (Or.inr hi))
            exact hbehind hi
      · have hsame : ∀ i, Held M raw cursor i ↔ Held M raw (found + 1) i := by
          intro i
          rw [hstep]
          constructor
          · rintro (⟨-, hi⟩ | hi)
            · exact absurd hi haligned
            · exact hi
          · exact Or.inr
        rw [dif_neg haligned] at ih
        rw [if_neg haligned, ih]
        simp only [hsame]
  | case3 cursor hits hend =>
      have hover : hits.length < 2 → ∀ i, ¬ Held M raw cursor i := by
        intro hshort i hi
        have hinside := held_inside hraw hi
        exact hend ⟨hi.1.trans hinside, hshort⟩
      constructor
      · rintro rfl
        exact Or.inl ⟨rfl, hover (by simp)⟩
      · rintro (⟨h, -⟩ | ⟨rfl, hall⟩)
        · exact h
        · exact absurd ((hall o).mpr rfl) (hover (by simp) o)

/-- **The search pins what the windows pin.** -/
theorem search_eq_pinned {M : Memory} {raw : List UInt8} (hraw : 0 < raw.length)
    {offset : UInt64} :
    search M raw M.start [] = [offset.toNat] ↔ Pinned M.text.bytes raw offset := by
  rw [search_eq_singleton hraw]
  unfold Pinned Held
  constructor
  · rintro (⟨habsurd, -⟩ | ⟨-, hall⟩)
    · cases habsurd
    · intro i
      rw [← hall i]
      exact ⟨fun h => ⟨Nat.le_add_right .., h⟩, fun h => h.2⟩
  · intro hall
    refine Or.inr ⟨rfl, ?_⟩
    intro i
    rw [← hall i]
    exact ⟨fun h => h.2, fun h => ⟨Nat.le_add_right .., h⟩⟩

/-! ## The branch -/

/-- The two decoders of a `BL` agree. -/
theorem blTarget_eq_some {site target : Int} {w : UInt32} :
    blTarget site w.toNat = some target ↔ IsBl w ∧ target = site + 4 * blImmediate w := by
  have hop : w.toNat &&& 0xfc000000 = 0x94000000 ↔ IsBl w := and_mask_eq w.toNat 26 6 0b100101
  have hlow : w.toNat &&& 0x03ffffff = field w.toNat 0 26 := shift_and_mask w.toNat 0 26
  have hlt := field_lt w.toNat 0 26
  -- the script tests bit 25 and subtracts, which is the signed field
  have hsign : field w.toNat 0 26 &&& 0x02000000 ≠ 0 ↔ ¬ 2 * field w.toNat 0 26 < 2 ^ 26 := by
    rw [show field w.toNat 0 26 &&& 0x02000000 ≠ 0 ↔ field (field w.toNat 0 26) 25 1 = 1 from
      and_bit_ne _ 25, field]
    omega
  have himm : (if field w.toNat 0 26 &&& 0x02000000 ≠ 0
      then (field w.toNat 0 26 : Int) - 0x04000000 else field w.toNat 0 26) = blImmediate w := by
    rw [blImmediate, signed]
    by_cases hneg : 2 * field w.toNat 0 26 < 2 ^ 26
    · rw [if_pos hneg, if_neg (fun h => hsign.mp h hneg)]
    · rw [if_neg hneg, if_pos (hsign.mpr hneg)]
      rfl
  unfold blTarget
  simp only [hlow, himm]
  by_cases hbl : IsBl w
  · rw [if_neg (not_not.mpr (hop.mpr hbl)), Option.some.injEq, Int.mul_comm, eq_comm]
    exact ⟨fun h => ⟨hbl, h⟩, fun h => h.2⟩
  · rw [if_pos (fun h => hbl (hop.mp h))]
    constructor
    · intro h
      cases h
    · intro h
      exact absurd h.1 hbl

/-! ## The inspector's checks -/

/-- What the inspector's range, overlap, branch and uniqueness checks say. -/
structure Accepts (M : Memory) (entry call length : Int) : Prop where
  long : 16 ≤ length
  short : length ≤ 64
  whole : length % 4 = 0
  entry_pos : 0 < entry
  call_pos : 0 < call
  entry_aligned : entry % 4 = 0
  call_aligned : call % 4 = 0
  apart : length ≤ |entry - call|
  entry_inside : entry + length ≤ M.text.bytes.length
  call_inside : call + length ≤ M.text.bytes.length
  branch : blTarget call (fromLe (M.getBytes (M.start + call) 4)) = some entry
  entry_once : search M (M.getBytes (M.start + entry) length) M.start [] = [entry.toNat]
  call_once : search M (M.getBytes (M.start + call) length) M.start [] = [call.toNat]

theorem contains_iff {M : Memory} {offset : Int} :
    M.contains (M.start + offset) = true ↔ 0 ≤ offset ∧ offset < M.text.bytes.length := by
  rw [Memory.contains, Bool.and_eq_true, decide_eq_true_eq, decide_eq_true_eq]
  omega

/-- Both ends of a signature lie in the block. -/
theorem inside_iff {M : Memory} {offset length : Int} (hoffset : 0 < offset)
    (hlength : 16 ≤ length) :
    ¬ (!M.contains (M.start + offset) || !M.contains (M.start + offset + (length - 1))) = true ↔
      offset + length ≤ M.text.bytes.length := by
  rw [Bool.or_eq_true, not_or, Bool.not_eq_true', Bool.not_eq_true', Bool.not_eq_false,
    Bool.not_eq_false, contains_iff, Int.add_assoc, contains_iff]
  omega

theorem signature_eq_ok {M : Memory} {offset length : Int} {text : Str} :
    signature M (M.start + offset) length = .ok text ↔
      search M (M.getBytes (M.start + offset) length) M.start [] = [offset.toNat]
        ∧ text = hexText (M.getBytes (M.start + offset) length) := by
  simp only [signature, check_eq_ok, pure_eq_ok, ne_eq, not_not, add_sub_cancel_left]
  exact ⟨fun h => ⟨h.1, h.2.symm⟩, fun h => ⟨h.1, h.2.symm⟩⟩

theorem inspect_eq_ok {listing : Listing} {M : Memory} {entry call length : Int}
    {prologue callsite : Str} :
    inspect listing M entry call length = .ok (prologue, callsite) ↔
      (listing.littleEndianAarch64 = true ∧ listing.textBlock = true
        ∧ listing.separateFunctions = true ∧ listing.insideBodies = true)
      ∧ Accepts M entry call length
      ∧ prologue = hexText (M.getBytes (M.start + entry) length)
      ∧ callsite = hexText (M.getBytes (M.start + call) length) := by
  simp only [inspect, check_eq_ok, bind_eq_ok, signature_eq_ok, pure_eq_ok, Prod.mk.injEq, not_or,
    not_not, ne_eq, not_le, Bool.not_eq_true', Bool.not_eq_false, not_lt]
  constructor
  · rintro ⟨⟨⟨hlong, hshort⟩, hwhole, hentry, hcall, hentry4, hcall4⟩, hapart, hle, hblock,
      hin, hin', hfunctions, hbodies, hbl, p, ⟨honce, rfl⟩, c, ⟨honce', rfl⟩, rfl, rfl⟩
    exact ⟨⟨hle, hblock, hfunctions, hbodies⟩,
      ⟨hlong, hshort, hwhole, hentry, hcall, hentry4, hcall4, hapart,
        (inside_iff hentry hlong).mp hin, (inside_iff hcall hlong).mp hin', hbl, honce, honce'⟩,
      rfl, rfl⟩
  · rintro ⟨⟨hle, hblock, hfunctions, hbodies⟩, h, rfl, rfl⟩
    exact ⟨⟨⟨h.long, h.short⟩, h.whole, h.entry_pos, h.call_pos, h.entry_aligned,
      h.call_aligned⟩, h.apart, hle, hblock, (inside_iff h.entry_pos h.long).mpr h.entry_inside,
      (inside_iff h.call_pos h.long).mpr h.call_inside, hfunctions, hbodies, h.branch, _,
      ⟨h.entry_once, rfl⟩, _, ⟨h.call_once, rfl⟩, rfl, rfl⟩

/-! ## The two ends agree -/

/-- What `getBytes` cuts from inside the block. -/
theorem getBytes_eq {M : Memory} {offset length : Int} (hoffset : 0 ≤ offset)
    (hinside : offset + length ≤ M.text.bytes.length) (hlength : 0 ≤ length) :
    getRange M.text.bytes offset.toNat (offset.toNat + length.toNat)
        = some (M.getBytes (M.start + offset) length)
      ∧ (M.getBytes (M.start + offset) length).length = length.toNat := by
  rw [Memory.getBytes, add_sub_cancel_left]
  constructor
  · rw [getRange_eq_some, Nat.add_sub_cancel_left]
    exact ⟨by omega, by omega, rfl⟩
  · rw [List.length_take, List.length_drop]
    omega

/-- The word at the caller is the head of its signature. -/
theorem getBytes_head {M : Memory} {offset length : Int} (hlength : 16 ≤ length) :
    (M.getBytes (M.start + offset) length).take 4 = M.getBytes (M.start + offset) 4 := by
  rw [Memory.getBytes, Memory.getBytes, List.take_take]
  congr 1
  omega

theorem fromLe_word {bytes : List UInt8} (h : bytes.length = 4) :
    fromLe bytes = (of32 bytes).toNat := by
  have hlt := fromLe_lt bytes
  rw [h] at hlt
  rw [of32, UInt32.toNat_ofNat_of_lt' hlt]

/-- The branch that the inspector reads is the one `validate_signatures` reads. -/
theorem branch_iff {M : Memory} {config : Config} {length : Int} (hlength : 16 ≤ length)
    (hinside : (config.callerTextOffset.toNat : Int) + length ≤ M.text.bytes.length)
    (hcallsite : config.expectedCallsite
      = M.getBytes (M.start + config.callerTextOffset.toNat) length) :
    blTarget config.callerTextOffset.toNat
        (fromLe (M.getBytes (M.start + config.callerTextOffset.toNat) 4))
      = some (config.serializerTextOffset.toNat : Int) ↔ CallsEntry config := by
  obtain ⟨-, hfour⟩ := getBytes_eq (M := M)
    (show (0 : Int) ≤ (config.callerTextOffset.toNat : Int) by omega)
    (show (config.callerTextOffset.toNat : Int) + 4 ≤ M.text.bytes.length by omega) (by omega)
  rw [fromLe_word hfour, blTarget_eq_some, ← getBytes_head hlength, ← hcallsite]
  rfl

/-- **The two sets of checks agree**, when the signatures are cut from the block. -/
theorem accepts_iff {M : Memory} {config : Config} {length : Int} (hlength : 0 ≤ length)
    (hentryInside : (config.serializerTextOffset.toNat : Int) + length ≤ M.text.bytes.length)
    (hcallInside : (config.callerTextOffset.toNat : Int) + length ≤ M.text.bytes.length)
    (hprologue : config.expectedPrologue
      = M.getBytes (M.start + config.serializerTextOffset.toNat) length)
    (hcallsite : config.expectedCallsite
      = M.getBytes (M.start + config.callerTextOffset.toNat) length) :
    Accepts M config.serializerTextOffset.toNat config.callerTextOffset.toNat length ↔
      offsetChecks config = .ok () ∧ validateSignatures config M.text.bytes = .ok () := by
  have hfits := M.text.fits
  obtain ⟨-, hprologueLen⟩ := getBytes_eq (Int.natCast_nonneg _) hentryInside hlength
  obtain ⟨-, hcallsiteLen⟩ := getBytes_eq (Int.natCast_nonneg _) hcallInside hlength
  rw [← hprologue] at hprologueLen
  rw [← hcallsite] at hcallsiteLen
  have hzero (o : UInt64) : o ≠ 0 ↔ 0 < o.toNat := by
    rw [ne_eq, ← UInt64.toNat_inj, Nat.pos_iff_ne_zero]
    rfl
  rw [offsetChecks_eq_ok]
  constructor
  · intro h
    obtain ⟨hlong, hshort, hwhole, hpos, hpos', h4, h4', hapart, -, -, hbranch, honce, honce'⟩ := h
    have hentry : SignatureShape config.serializerTextOffset config.expectedPrologue :=
      ⟨(hzero _).mpr (by omega), by omega, by omega, by omega, by omega⟩
    have hcaller : SignatureShape config.callerTextOffset config.expectedCallsite :=
      ⟨(hzero _).mpr (by omega), by omega, by omega, by omega, by omega⟩
    have hroom : SignatureRoom config := by
      refine ⟨by omega, by omega, ?_⟩
      -- the script takes the distance, `validate_config` the two ends
      rcases le_abs.mp hapart with hbehind | hbefore
      · omega
      · omega
    refine ⟨⟨hentry, hcaller, hroom⟩, ?_⟩
    rw [← hprologue, Int.toNat_natCast, search_eq_pinned (by omega)] at honce
    rw [← hcallsite, Int.toNat_natCast, search_eq_pinned (by omega)] at honce'
    rw [validateSignatures_of_shape hentry hcaller hroom]
    exact ⟨honce, honce', (branch_iff hlong hcallInside hcallsite).mp hbranch⟩
  · rintro ⟨⟨hentry, hcaller, hroom⟩, hvalid⟩
    rw [validateSignatures_of_shape hentry hcaller hroom] at hvalid
    obtain ⟨honce, honce', hcalls⟩ := hvalid
    have hlong := hentry.long
    have hshort := hentry.short
    have hwhole := hentry.whole
    have hpos := (hzero _).mp hentry.nonzero
    have hpos' := (hzero _).mp hcaller.nonzero
    have h4 := hentry.aligned
    have h4' := hcaller.aligned
    have hapart := hroom.apart
    rw [← search_eq_pinned (by omega), hprologue] at honce
    rw [← search_eq_pinned (by omega), hcallsite] at honce'
    exact
      { long := by omega
        short := by omega
        whole := by omega
        entry_pos := by omega
        call_pos := by omega
        entry_aligned := by omega
        call_aligned := by omega
        apart := by
          rw [le_abs]
          omega
        entry_inside := hentryInside
        call_inside := hcallInside
        branch := (branch_iff (by omega) hcallInside hcallsite).mpr hcalls
        entry_once := by rwa [Int.toNat_natCast]
        call_once := by rwa [Int.toNat_natCast] }

/-- **What the inspector exports, the plugin accepts, and the other way
    round.**  The exported strings decode to the bytes of the block, and a
    configuration that carries them passes the checks of `validate_config`
    and `validate_signatures`; signatures of one length that pass those are
    exported. -/
theorem exports_accepted (M : Memory) :
    (∀ (listing : Listing) (entry call length : Int) (prologue callsite : Str),
      inspect listing M entry call length = .ok (prologue, callsite) →
        ∃ entryBytes callBytes,
          getRange M.text.bytes entry.toNat (entry.toNat + length.toNat) = some entryBytes
          ∧ getRange M.text.bytes call.toNat (call.toNat + length.toNat) = some callBytes
          ∧ (∀ line, decodeHex prologue line = .ok entryBytes)
          ∧ (∀ line, decodeHex callsite line = .ok callBytes)
          ∧ ∀ config : Config, (config.serializerTextOffset.toNat : Int) = entry →
            (config.callerTextOffset.toNat : Int) = call → config.expectedPrologue = entryBytes →
            config.expectedCallsite = callBytes →
              offsetChecks config = .ok ()
              ∧ (∀ liveVersion, validateConfig config liveVersion = .ok ()
                ↔ otherGates config liveVersion = .ok ())
              ∧ validateSignatures config M.text.bytes = .ok ())
    ∧ ∀ config : Config, offsetChecks config = .ok () →
      validateSignatures config M.text.bytes = .ok () →
      config.expectedPrologue.length = config.expectedCallsite.length →
        ∃ prologue callsite, inspect ⟨true, true, true, true⟩ M config.serializerTextOffset.toNat
            config.callerTextOffset.toNat config.expectedPrologue.length
          = .ok (prologue, callsite)
          ∧ (∀ line, decodeHex prologue line = .ok config.expectedPrologue)
          ∧ ∀ line, decodeHex callsite line = .ok config.expectedCallsite := by
  constructor
  · intro listing entry call length prologue callsite h
    obtain ⟨-, haccepts, rfl, rfl⟩ := inspect_eq_ok.mp h
    have hlength : 0 ≤ length := by
      have := haccepts.long
      omega
    have hentryRange := getBytes_eq haccepts.entry_pos.le haccepts.entry_inside hlength
    have hcallRange := getBytes_eq haccepts.call_pos.le haccepts.call_inside hlength
    refine ⟨_, _, hentryRange.1, hcallRange.1, decodeHex_hexText _, decodeHex_hexText _, ?_⟩
    rintro config rfl rfl hprologue hcallsite
    obtain ⟨hoffsets, hsignatures⟩ := (accepts_iff hlength haccepts.entry_inside
      haccepts.call_inside hprologue hcallsite).mp haccepts
    refine ⟨hoffsets, ?_, hsignatures⟩
    intro liveVersion
    rw [validateConfig_eq_ok]
    exact ⟨fun hok => hok.1, fun hok => ⟨hok, hoffsets⟩⟩
  · intro config hoffsets hsignatures hlengths
    obtain ⟨hentry, hcaller, hroom⟩ := offsetChecks_eq_ok.mp hoffsets
    obtain ⟨honce, honce', -⟩ :=
      (validateSignatures_of_shape hentry hcaller hroom M.text).mp hsignatures
    have hentryInside := honce.inside
    have hcallInside := honce'.inside
    -- a pinned signature is what the block holds there
    have hcut {sig : List UInt8} {o : UInt64} (hpinned : Pinned M.text.bytes sig o) :
        sig = M.getBytes (M.start + o.toNat) sig.length := by
      have hget := ((hpinned o.toNat).mpr rfl).2
      rw [getRange_eq_some, Nat.add_sub_cancel_left] at hget
      rw [Memory.getBytes, add_sub_cancel_left]
      exact hget.2.2.symm
    have hprologue := hcut honce
    have hcallsite := hcut honce'
    rw [← hlengths] at hcallsite
    have haccepts := (accepts_iff (Int.natCast_nonneg _) (by omega) (by omega) hprologue
      hcallsite).mpr ⟨hoffsets, hsignatures⟩
    refine ⟨_, _, inspect_eq_ok.mpr ⟨⟨rfl, rfl, rfl, rfl⟩, haccepts, rfl, rfl⟩, ?_, ?_⟩
    · rw [← hprologue]
      exact decodeHex_hexText _
    · rw [← hcallsite]
      exact decodeHex_hexText _

open Classical in
/-- A memory that searches a text. -/
noncomputable def Memory.ofText (text : Text) (start : Nat) : Memory where
  text := text
  start := start
  findBytes := fun cursor _ raw =>
    if h : ∃ a, cursor ≤ a ∧ start ≤ a
      ∧ getRange text.bytes (a - start) (a - start + raw.length) = some raw
    then some (Nat.find h) else none
  least := by
    intro cursor raw found
    split
    · rename_i h
      have hleast : IsLeast _ (Nat.find h) := ⟨Nat.find_spec h, fun a ha => Nat.find_min' h ha⟩
      rw [Option.some.injEq]
      constructor
      · rintro rfl
        exact hleast
      · intro hfound
        exact hleast.unique hfound
    · rename_i h
      exact ⟨nofun, fun hfound => absurd ⟨found, hfound.1⟩ h⟩

/-- The small text is inspected, and what is exported is accepted. -/
theorem exports_accepted_small :
    ∃ prologue callsite, inspect ⟨true, true, true, true⟩ (Memory.ofText smallText 0x7100000000)
        16 32 16 = .ok (prologue, callsite)
      ∧ decodeHex prologue 1 = .ok smallConfig.expectedPrologue
      ∧ offsetChecks smallConfig = .ok () := by
  obtain ⟨hexports, haccepts⟩ := exports_accepted (Memory.ofText smallText 0x7100000000)
  obtain ⟨prologue, callsite, hok, hprologue, hcallsite⟩ :=
    haccepts smallConfig (by decide) (by decide) (by decide)
  obtain ⟨entryBytes, callBytes, -, -, hentry, hcall, hconfig⟩ := hexports _ _ _ _ _ _ hok
  refine ⟨prologue, callsite, hok, hprologue 1, (hconfig smallConfig rfl rfl ?_ ?_).1⟩
  · exact Except.ok.inj ((hprologue 1).symm.trans (hentry 1))
  · exact Except.ok.inj ((hcallsite 1).symm.trans (hcall 1))

end TeamAttack.Inspect
