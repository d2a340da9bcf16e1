import TeamAttack.Library.AlignedWindows
import TeamAttack.PcRelative

/-! # What the two signatures pin (`validation.rs`)

    `validate_signatures` accepts exactly the texts in which each signature
    stands at its offset and at no other aligned place, and whose caller begins
    with a `BL` to the entry.  The alignment and the room behind an offset come
    from `validate_config`, the end of the region from `validate_region`. -/

namespace TeamAttack

open RustStr RustSlice CheckedWord LittleEndian ExceptRules

/-! ## What `validate_config` says of the signatures -/

/-- One offset and its signature. -/
structure SignatureShape (offset : UInt64) (signature : List UInt8) : Prop where
  nonzero : offset ≠ 0
  aligned : offset.toNat % 4 = 0
  long : 16 ≤ signature.length
  short : signature.length ≤ 64
  whole : signature.length % 4 = 0

theorem checkSignatureShape_eq_ok {offset : UInt64} {signature : List UInt8} :
    checkSignatureShape offset signature = .ok () ↔ SignatureShape offset signature := by
  have hmod : offset % 4 = 0 ↔ offset.toNat % 4 = 0 := by
    rw [← UInt64.toNat_inj, UInt64.toNat_mod]
    rfl
  rw [checkSignatureShape]
  constructor
  · intro h
    split_ifs at h with hoffset hlength
    · cases h
    · cases h
    simp only [Bool.or_eq_true, Bool.and_eq_true, Bool.not_eq_true', decide_eq_true_eq, not_or,
      Bool.not_eq_false, ne_eq, not_not, hmod] at hoffset hlength
    exact ⟨hoffset.1, hoffset.2, hlength.1.1, hlength.1.2, hlength.2⟩
  · rintro ⟨hnonzero, haligned, hlong, hshort, hwhole⟩
    rw [if_neg, if_neg]
    · simp [hlong, hshort, hwhole]
    · simp [hnonzero, hmod, haligned]

/-- Neither signature runs past the last address, and they lie apart. -/
structure SignatureRoom (config : Config) : Prop where
  entry : config.serializerTextOffset.toNat + config.expectedPrologue.length < 2 ^ 64
  caller : config.callerTextOffset.toNat + config.expectedCallsite.length < 2 ^ 64
  apart : config.serializerTextOffset.toNat + config.expectedPrologue.length
      ≤ config.callerTextOffset.toNat
    ∨ config.callerTextOffset.toNat + config.expectedCallsite.length
      ≤ config.serializerTextOffset.toNat

/-- The end of a signature, where it is computed. -/
theorem checkedEnd_eq_some {offset stop : UInt64} {length : Nat} (h : length ≤ 64) :
    checkedAdd offset (UInt64.ofNat length) = some stop ↔ stop.toNat = offset.toNat + length := by
  rw [checkedAdd_eq_some, UInt64.toNat_ofNat_of_lt' (by show _ < 2 ^ 64; omega)]

/-- The checks before the offsets and signatures. -/
def otherGates (config : Config) (liveVersion : Str) : Checked Unit := do
  if !config.enabled || config.mode = .disabled then
    refuse "plugin is disabled"
  if liveVersion ≠ supportedGameVersion || config.expectedGameVersion ≠ liveVersion then
    refuse "runtime game version is not the reviewed 13.0.5 version"
  if !config.evidenceReviewed || !config.offlineTestAcknowledged then
    refuse "offline ABI/layout/caller evidence has not been acknowledged"
  if config.reviewedAbi ≠ "void_u8_ptr_v1".toList
      || config.reviewedBufferLen.toNat ≠ compactBufferLen then
    refuse "unsupported or unreviewed serializer ABI/buffer length"
  if !(1 ≤ config.maxDumps.toNat && config.maxDumps.toNat ≤ captureCapacity) then
    refuse "capture limit out of bounds"
  if config.observeRuleApplication
      && (!config.observeRuleCodec || !config.pollGlobalTeamAttack) then
    refuse "application observer requires the codec and bounded global watcher"
  if config.mode = .proposalExperiment && !config.observeRuleApplication then
    refuse "proposal experiment requires the guarded application hooks"
  if config.observeRuleCodec && !config.pollGlobalTeamAttack then
    refuse "codec batch requires the global watcher and its 20-minute limit"
  if config.captureOffsets = [] || config.captureOffsets.length > 46 then
    refuse "explicit reviewed rule-byte allowlist is required"
  checkOffsets config.captureOffsets []

/-- The offset, length and overlap checks. -/
def offsetChecks (config : Config) : Checked Unit := do
  checkSignatureShape config.serializerTextOffset config.expectedPrologue
  checkSignatureShape config.callerTextOffset config.expectedCallsite
  let targetEnd ← okOr (checkedAdd config.serializerTextOffset
    (UInt64.ofNat config.expectedPrologue.length)) "offset overflow"
  let callerEnd ← okOr (checkedAdd config.callerTextOffset
    (UInt64.ofNat config.expectedCallsite.length)) "offset overflow"
  if config.serializerTextOffset < callerEnd && config.callerTextOffset < targetEnd then
    refuse "entry and caller signatures overlap"

/-- `validate_config` is these two groups of checks. -/
theorem validateConfig_eq_ok {config : Config} {liveVersion : Str} :
    validateConfig config liveVersion = .ok () ↔
      otherGates config liveVersion = .ok () ∧ offsetChecks config = .ok () := by
  simp only [validateConfig, otherGates, offsetChecks, refuse, check_eq_ok, bind_eq_ok, and_assoc]
  constructor
  · rintro ⟨h1, h2, h3, h4, h5, h6, h7, h8, h9, ⟨⟩, hoffsets, hrest⟩
    exact ⟨h1, h2, h3, h4, h5, h6, h7, h8, h9, hoffsets, hrest⟩
  · rintro ⟨h1, h2, h3, h4, h5, h6, h7, h8, h9, hoffsets, hrest⟩
    exact ⟨h1, h2, h3, h4, h5, h6, h7, h8, h9, (), hoffsets, hrest⟩

theorem offsetChecks_eq_ok {config : Config} :
    offsetChecks config = .ok () ↔
      SignatureShape config.serializerTextOffset config.expectedPrologue
        ∧ SignatureShape config.callerTextOffset config.expectedCallsite
        ∧ SignatureRoom config := by
  simp only [offsetChecks, refuse, bind_eq_ok, last_check_eq_ok, okOr_eq_ok, Bool.and_eq_true,
    decide_eq_true_eq, and_true]
  constructor
  · rintro ⟨⟨⟩, hentryOk, ⟨⟩, hcallerOk, targetEnd, htarget, callerEnd, hend, hoverlap⟩
    have hentry := checkSignatureShape_eq_ok.mp hentryOk
    have hcaller := checkSignatureShape_eq_ok.mp hcallerOk
    refine ⟨hentry, hcaller, ?_⟩
    -- the checked ends are the sums
    rw [checkedEnd_eq_some hentry.short] at htarget
    rw [checkedEnd_eq_some hcaller.short] at hend
    have htarget_lt := targetEnd.toNat_lt
    have hend_lt := callerEnd.toNat_lt
    rw [UInt64.lt_iff_toNat_lt, UInt64.lt_iff_toNat_lt, htarget, hend] at hoverlap
    exact ⟨by omega, by omega, by omega⟩
  · rintro ⟨hentry, hcaller, hroom⟩
    have htarget := UInt64.toNat_ofNat_of_lt' hroom.entry
    have hend := UInt64.toNat_ofNat_of_lt' hroom.caller
    have hapart := hroom.apart
    refine ⟨(), checkSignatureShape_eq_ok.mpr hentry, (), checkSignatureShape_eq_ok.mpr hcaller,
      _, (checkedEnd_eq_some hentry.short).mpr htarget,
      _, (checkedEnd_eq_some hcaller.short).mpr hend, ?_⟩
    rw [UInt64.lt_iff_toNat_lt, UInt64.lt_iff_toNat_lt, htarget, hend]
    omega

theorem signatureRoom_of_ok {config : Config} {liveVersion : Str}
    (h : validateConfig config liveVersion = .ok ()) : SignatureRoom config := by
  obtain ⟨-, hoffsets⟩ := validateConfig_eq_ok.mp h
  exact (offsetChecks_eq_ok.mp hoffsets).2.2

/-! ## What `validate_signatures` says of the text -/

/-- Mapped code.  A slice holds at most `isize::MAX` bytes. -/
structure Text where
  bytes : List UInt8
  fits : bytes.length < 2 ^ 63

/-- The signature stands at the offset and at no other multiple of four. -/
def Pinned (text signature : List UInt8) (offset : UInt64) : Prop :=
  ∀ i, i % 4 = 0 ∧ getRange text i (i + signature.length) = some signature ↔ i = offset.toNat

/-- The caller begins with a `BL` to the entry. -/
def CallsEntry (config : Config) : Prop :=
  IsBl (of32 (config.expectedCallsite.take 4))
    ∧ (config.serializerTextOffset.toNat : Int) = config.callerTextOffset.toNat
      + 4 * blImmediate (of32 (config.expectedCallsite.take 4))

theorem Pinned.inside {text signature : List UInt8} {offset : UInt64}
    (h : Pinned text signature offset) : offset.toNat + signature.length ≤ text.length :=
  (getRange_eq_some.mp ((h offset.toNat).mpr rfl).2).2.1

/-- **One signature is accepted where it is pinned.** -/
theorem checkSignature_eq_ok {text signature : List UInt8} {offset : UInt64}
    (hshape : SignatureShape offset signature) (hroom : offset.toNat + signature.length < 2 ^ 64) :
    checkSignature text offset signature = .ok () ↔ Pinned text signature offset := by
  have hstop : ∀ stop : UInt64, checkedAdd offset (UInt64.ofNat signature.length) = some stop ↔
      stop.toNat = offset.toNat + signature.length :=
    fun stop => checkedEnd_eq_some hshape.short
  simp only [checkSignature, refuse, check_eq_ok, bind_eq_ok, okOr_eq_ok, last_check_eq_ok,
    and_true, not_lt, ne_eq, not_not]
  constructor
  · rintro ⟨_, stop, hadd, hget, honce⟩
    -- the offset holds the signature, and no other aligned place does
    rw [(hstop stop).mp hadd] at hget
    rw [windows_once_iff hshape.aligned hget] at honce
    intro i
    constructor
    · rintro ⟨hi, heq⟩
      exact honce i hi heq
    · rintro rfl
      exact ⟨hshape.aligned, hget⟩
  · intro hpinned
    obtain ⟨_, hget⟩ := (hpinned offset.toNat).mpr rfl
    have hend : (UInt64.ofNat (offset.toNat + signature.length)).toNat
        = offset.toNat + signature.length := UInt64.toNat_ofNat_of_lt' hroom
    refine ⟨hshape.long, _, (hstop _).mpr hend, ?_, ?_⟩
    · rw [hend]
      exact hget
    · rw [windows_once_iff hshape.aligned hget]
      intro i hi heq
      exact (hpinned i).mp ⟨hi, heq⟩

/-- The branch test, where both ends lie in the text. -/
theorem branch_accepted_iff {text : Text} {config : Config}
    (hentry : Pinned text.bytes config.expectedPrologue config.serializerTextOffset)
    (hcaller : Pinned text.bytes config.expectedCallsite config.callerTextOffset) :
    blTarget config.callerTextOffset (of32 (config.expectedCallsite.take 4))
      = some config.serializerTextOffset ↔ CallsEntry config := by
  have hfits := text.fits
  have hentryInside := hentry.inside
  have hcallerInside := hcaller.inside
  -- both ends lie in the text, so the `i64` bounds say nothing
  rw [blTarget_iff, CallsEntry]
  constructor
  · rintro ⟨hbl, _, _, heq⟩
    exact ⟨hbl, heq⟩
  · rintro ⟨hbl, heq⟩
    exact ⟨hbl, by omega, by omega, heq⟩

theorem validateSignatures_of_shape {config : Config}
    (hentry : SignatureShape config.serializerTextOffset config.expectedPrologue)
    (hcaller : SignatureShape config.callerTextOffset config.expectedCallsite)
    (hroom : SignatureRoom config) (text : Text) :
    validateSignatures config text.bytes = .ok () ↔
      Pinned text.bytes config.expectedPrologue config.serializerTextOffset
        ∧ Pinned text.bytes config.expectedCallsite config.callerTextOffset
        ∧ CallsEntry config := by
  have hlong := hcaller.long
  have hword : getRange config.expectedCallsite 0 4 = some (config.expectedCallsite.take 4) := by
    rw [getRange_eq_some]
    exact ⟨Nat.zero_le 4, by omega, rfl⟩
  simp only [validateSignatures, refuse, bind_eq_ok, okOr_eq_ok, last_check_eq_ok, and_true, hword,
    Option.some.injEq, exists_eq_left', ne_eq, not_not, checkSignature_eq_ok hentry hroom.entry,
    checkSignature_eq_ok hcaller hroom.caller]
  constructor
  · rintro ⟨_, hentryPinned, _, hcallerPinned, hbranch⟩
    exact ⟨hentryPinned, hcallerPinned,
      (branch_accepted_iff hentryPinned hcallerPinned).mp hbranch⟩
  · rintro ⟨hentryPinned, hcallerPinned, hcalls⟩
    exact ⟨(), hentryPinned, (), hcallerPinned,
      (branch_accepted_iff hentryPinned hcallerPinned).mpr hcalls⟩

theorem validateSignatures_eq_ok {config : Config} {liveVersion : Str}
    (hconfig : validateConfig config liveVersion = .ok ()) (text : Text) :
    validateSignatures config text.bytes = .ok () ↔
      Pinned text.bytes config.expectedPrologue config.serializerTextOffset
        ∧ Pinned text.bytes config.expectedCallsite config.callerTextOffset
        ∧ CallsEntry config := by
  have hvalid := validConfig_of_ok hconfig
  exact validateSignatures_of_shape (checkSignatureShape_eq_ok.mp hvalid.entry)
    (checkSignatureShape_eq_ok.mp hvalid.caller) (signatureRoom_of_ok hconfig) text

/-- A region's size. -/
theorem validateRegion_size {text rodata size : UInt64}
    (h : validateRegion text rodata = .ok size) : rodata.toNat = text.toNat + size.toNat := by
  simp only [validateRegion, refuse, bind_eq_ok, okOr_eq_ok, check_eq_ok, pure_eq_ok] at h
  obtain ⟨size', hsize, _, rfl⟩ := h
  exact checkedSub_eq_some.mp hsize

/-- **Signature validation pins the hook target.** -/
theorem signatures_pin_target (config : Config) (liveVersion : Str)
    (hconfig : validateConfig config liveVersion = .ok ()) (text : Text) :
    (validateSignatures config text.bytes = .ok () ↔
        Pinned text.bytes config.expectedPrologue config.serializerTextOffset
          ∧ Pinned text.bytes config.expectedCallsite config.callerTextOffset
          ∧ CallsEntry config)
      ∧ ∀ textAddress rodataAddress : UInt64,
        validateRegion textAddress rodataAddress = .ok (UInt64.ofNat text.bytes.length) →
        validateSignatures config text.bytes = .ok () →
        (∀ i, ¬ (config.serializerTextOffset.toNat ≤ i
            ∧ i < config.serializerTextOffset.toNat + config.expectedPrologue.length
            ∧ config.callerTextOffset.toNat ≤ i
            ∧ i < config.callerTextOffset.toNat + config.expectedCallsite.length))
          ∧ textAddress.toNat + config.serializerTextOffset.toNat + config.expectedPrologue.length
            ≤ rodataAddress.toNat
          ∧ textAddress.toNat + config.callerTextOffset.toNat + config.expectedCallsite.length
            ≤ rodataAddress.toNat := by
  refine ⟨validateSignatures_eq_ok hconfig text, ?_⟩
  intro textAddress rodataAddress hregion haccepted
  obtain ⟨hentry, hcaller, _⟩ := (validateSignatures_eq_ok hconfig text).mp haccepted
  have hroom := signatureRoom_of_ok hconfig
  have hfits := text.fits
  have hsize := validateRegion_size hregion
  rw [UInt64.toNat_ofNat_of_lt' (by show _ < 2 ^ 64; omega)] at hsize
  have hentryInside := hentry.inside
  have hcallerInside := hcaller.inside
  refine ⟨?_, by omega, by omega⟩
  rintro i ⟨hentryLow, hentryHigh, hcallerLow, hcallerHigh⟩
  -- either signature may come first
  rcases hroom.apart with hbefore | hbehind
  · omega
  · omega

/-- A caller sixteen bytes behind its entry. -/
def smallConfig : Config :=
  { Config.default with
    enabled := true
    mode := .observe
    serializerTextOffset := 16
    expectedPrologue := List.replicate 16 0xe7
    callerTextOffset := 32
    expectedCallsite := le32 0x97fffffc ++ List.replicate 12 0xe5
    reviewedAbi := "void_u8_ptr_v1".toList
    reviewedBufferLen := 0x69
    evidenceReviewed := true
    offlineTestAcknowledged := true
    captureOffsets := [0x11] }

def smallText : Text where
  bytes := List.replicate 16 0 ++ smallConfig.expectedPrologue ++ smallConfig.expectedCallsite
    ++ List.replicate 16 0
  fits := by decide

/-- The small text is accepted, and its region bounds both signatures. -/
theorem signatures_pin_target_small :
    Pinned smallText.bytes smallConfig.expectedPrologue 16
      ∧ (0x4000 : UInt64).toNat + 32 + 16 ≤ (0x4040 : UInt64).toNat := by
  obtain ⟨hiff, hregion⟩ :=
    signatures_pin_target smallConfig supportedGameVersion (by decide) smallText
  have haccepted : validateSignatures smallConfig smallText.bytes = .ok () := by decide
  exact ⟨(hiff.mp haccepted).1, (hregion 0x4000 0x4040 (by decide) haccepted).2.2⟩

end TeamAttack
