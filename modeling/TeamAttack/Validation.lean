import TeamAttack.Capture
import TeamAttack.Config
import TeamAttack.Library.CheckedWord
import TeamAttack.Library.ExceptRules
import TeamAttack.Library.LittleEndian
import TeamAttack.Library.RustSlice

/-! # Pure validation (`validation.rs`)

    The checks a configuration and the mapped game code must pass before
    anything is installed. -/

namespace TeamAttack

open RustStr RustSlice CheckedWord LittleEndian ExceptRules

/-- `Result<T, &'static str>` and `Result<T, String>`. -/
abbrev Checked (α : Type) := Except Str α

/-- `Err(message)`. -/
def refuse {α : Type} (message : String) : Checked α := .error message.toList

/-- `option.ok_or(message)?`. -/
def okOr {α : Type} (o : Option α) (message : String) : Checked α :=
  match o with
  | some a => .ok a
  | none => refuse message

/-- The loop over `capture_offsets`, with the offsets already seen. -/
def checkOffsets : List UInt8 → (seen : List UInt8) → Checked Unit
  | [], _ => .ok ()
  | offset :: rest, seen =>
      if !reviewedOffset offset then refuse "non-rule/padding/profile byte refused"
      else if offset ∈ seen then refuse "duplicate capture offset"
      else checkOffsets rest (offset :: seen)

/-- The loop body over the two `(offset, signature)` pairs. -/
def checkSignatureShape (offset : UInt64) (signature : List UInt8) : Checked Unit :=
  if offset = 0 || offset % 4 ≠ 0 then refuse "offset must be nonzero and 4-byte aligned"
  else if !(16 ≤ signature.length && signature.length ≤ 64) || signature.length % 4 ≠ 0 then
    refuse "exact signatures must be 16..64 bytes in 4-byte units"
  else .ok ()

def validateConfig (config : Config) (liveVersion : Str) : Checked Unit := do
  if !config.enabled || config.mode = .disabled then
    refuse "plugin is disabled"
  if liveVersion ≠ supportedGameVersion || config.expectedGameVersion ≠ liveVersion then
    refuse "runtime game version is not the reviewed 13.0.5 version"
  if !config.evidenceReviewed || !config.offlineTestAcknowledged then
    refuse "offline ABI/layout/caller evidence has not been acknowledged"
  if config.reviewedAbi ≠ "void_u8_ptr_v1".toList
      || config.reviewedBufferLen.toNat ≠ compactBufferLen then
    refuse "unsupported or unreviewed serializer ABI/buffer length"
  if !(1 ≤ config.maxDumps.toNat && config.maxDumps.toNat ≤ captureCapacity) then
    refuse "capture limit out of bounds"
  if config.observeRuleApplication
      && (!config.observeRuleCodec || !config.pollGlobalTeamAttack) then
    refuse "application observer requires the codec and bounded global watcher"
  if config.mode = .proposalExperiment && !config.observeRuleApplication then
    refuse "proposal experiment requires the guarded application hooks"
  if config.observeRuleCodec && !config.pollGlobalTeamAttack then
    refuse "codec batch requires the global watcher and its 20-minute limit"
  if config.captureOffsets = [] || config.captureOffsets.length > 46 then
    refuse "explicit reviewed rule-byte allowlist is required"
  checkOffsets config.captureOffsets []
  checkSignatureShape config.serializerTextOffset config.expectedPrologue
  checkSignatureShape config.callerTextOffset config.expectedCallsite
  let targetEnd ← okOr (checkedAdd config.serializerTextOffset
    (UInt64.ofNat config.expectedPrologue.length)) "offset overflow"
  let callerEnd ← okOr (checkedAdd config.callerTextOffset
    (UInt64.ofNat config.expectedCallsite.length)) "offset overflow"
  if config.serializerTextOffset < callerEnd && config.callerTextOffset < targetEnd then
    refuse "entry and caller signatures overlap"

def validateRegion (text rodata : UInt64) : Checked UInt64 := do
  let size ← okOr (checkedSub rodata text) "invalid executable region"
  if text = 0 || text % 4 ≠ 0 || !(64 ≤ size && size ≤ 128 * 1024 * 1024) then
    refuse "invalid executable region"
  return size

/-- The loop body over the two `(offset, signature)` pairs. -/
def checkSignature (text : List UInt8) (offset : UInt64) (signature : List UInt8) :
    Checked Unit := do
  if signature.length < 16 then
    refuse "signature too short"
  let stop ← okOr (checkedAdd offset (UInt64.ofNat signature.length)) "offset overflow"
  if getRange text offset.toNat stop.toNat ≠ some signature then
    refuse "live code signature mismatch or outside text"
  if (((stepBy (windows text signature.length) 4).filter (· = signature)).take 2).length
      ≠ 1 then
    refuse "signature is not unique at aligned addresses"

/-- The target of a direct `BL`, if it is one and the target is an offset. -/
def blTarget (instructionOffset : UInt64) (instruction : UInt32) : Option UInt64 :=
  if instruction &&& 0xfc000000 ≠ 0x94000000 then none
  else
    let displacement : Int := (((instruction &&& 0x03ffffff) <<< 6).toInt32 >>> 4).toInt
    let target : Int := instructionOffset.toNat + displacement
    if instructionOffset.toNat < 2 ^ 63 ∧ target < 2 ^ 63 ∧ 0 ≤ target then
      some (UInt64.ofNat target.toNat)
    else none

def validateSignatures (config : Config) (text : List UInt8) : Checked Unit := do
  checkSignature text config.serializerTextOffset config.expectedPrologue
  checkSignature text config.callerTextOffset config.expectedCallsite
  let bytes ← okOr (getRange config.expectedCallsite 0 4) "call signature missing"
  if blTarget config.callerTextOffset (of32 bytes) ≠ some config.serializerTextOffset then
    refuse "callsite does not begin with a direct BL to this serializer"

/-! ## What validation accepts -/

theorem okOr_eq_ok {α : Type} {x : Option α} {message : String} {a : α} :
    okOr x message = .ok a ↔ x = some a := by
  cases x with
  | none => exact ⟨nofun, nofun⟩
  | some b =>
      constructor
      · intro h
        rw [Except.ok.inj h]
      · intro h
        rw [Option.some.inj h]
        rfl

theorem reviewedOffset_iff {o : UInt8} :
    reviewedOffset o = true ↔ (0x04 ≤ o ∧ o ≤ 0x2c) ∨ (0x58 ≤ o ∧ o ≤ 0x5c) := by
  simp only [reviewedOffset, Bool.or_eq_true, Bool.and_eq_true, decide_eq_true_eq]

/-- A reviewed offset lies inside the buffer. -/
theorem reviewedOffset_lt {o : UInt8} (h : reviewedOffset o = true) :
    o.toNat < compactBufferLen := by
  have hle : o.toNat ≤ 0x5c := by
    rcases reviewedOffset_iff.mp h with ⟨-, h⟩ | ⟨-, h⟩
    · exact Nat.le_trans (UInt8.le_iff_toNat_le.mp h) (by decide)
    · exact UInt8.le_iff_toNat_le.mp h
  unfold compactBufferLen
  omega

/-- The loop accepts reviewed offsets, each once. -/
theorem checkOffsets_eq_ok {l seen : List UInt8} :
    checkOffsets l seen = .ok () ↔
      l.Nodup ∧ ∀ o ∈ l, reviewedOffset o = true ∧ o ∉ seen := by
  induction l generalizing seen with
  | nil => exact ⟨fun _ => ⟨List.nodup_nil, nofun⟩, fun _ => rfl⟩
  | cons o rest ih =>
      rw [checkOffsets]
      by_cases hr : reviewedOffset o = true
      · rw [if_neg (by rw [hr]; exact nofun)]
        -- a repeated offset ends the loop
        by_cases hs : o ∈ seen
        · rw [if_pos hs]
          exact ⟨nofun, fun h => absurd hs (h.2 o List.mem_cons_self).2⟩
        · rw [if_neg hs, ih]
          constructor
          · rintro ⟨hnodup, hall⟩
            refine ⟨List.nodup_cons.mpr ⟨?_, hnodup⟩, ?_⟩
            · intro ho
              exact (hall o ho).2 List.mem_cons_self
            · intro x hx
              rcases List.mem_cons.mp hx with rfl | hx
              · exact ⟨hr, hs⟩
              · obtain ⟨hx1, hx2⟩ := hall x hx
                exact ⟨hx1, fun h => hx2 (List.mem_cons_of_mem o h)⟩
          · rintro ⟨hnodup, hall⟩
            obtain ⟨ho, hnodup⟩ := List.nodup_cons.mp hnodup
            refine ⟨hnodup, ?_⟩
            intro x hx
            obtain ⟨hx1, hx2⟩ := hall x (List.mem_cons_of_mem o hx)
            refine ⟨hx1, ?_⟩
            intro h
            rcases List.mem_cons.mp h with rfl | h
            · exact ho hx
            · exact hx2 h
      · rw [if_pos (by rw [Bool.not_eq_true] at hr; rw [hr]; rfl)]
        exact ⟨nofun, fun h => absurd (h.2 o List.mem_cons_self).1 hr⟩

/-- What `validateConfig` guarantees. -/
structure ValidConfig (config : Config) (liveVersion : Str) : Prop where
  enabled : config.enabled = true
  mode : config.mode ≠ .disabled
  live : liveVersion = supportedGameVersion
  expected : config.expectedGameVersion = liveVersion
  evidence : config.evidenceReviewed = true ∧ config.offlineTestAcknowledged = true
  abi : config.reviewedAbi = "void_u8_ptr_v1".toList
  bufferLen : config.reviewedBufferLen.toNat = compactBufferLen
  maxDumps : 1 ≤ config.maxDumps.toNat ∧ config.maxDumps.toNat ≤ captureCapacity
  application : config.observeRuleApplication = true →
    config.observeRuleCodec = true ∧ config.pollGlobalTeamAttack = true
  experiment : config.mode = .proposalExperiment → config.observeRuleApplication = true
  codec : config.observeRuleCodec = true → config.pollGlobalTeamAttack = true
  offsets_ne : config.captureOffsets ≠ []
  offsets_length : config.captureOffsets.length ≤ 46
  offsets_nodup : config.captureOffsets.Nodup
  offsets_reviewed : ∀ o ∈ config.captureOffsets, reviewedOffset o = true
  entry : checkSignatureShape config.serializerTextOffset config.expectedPrologue = .ok ()
  caller : checkSignatureShape config.callerTextOffset config.expectedCallsite = .ok ()

theorem validConfig_of_ok {config : Config} {liveVersion : Str}
    (h : validateConfig config liveVersion = .ok ()) : ValidConfig config liveVersion := by
  simp only [validateConfig, refuse, check_eq_ok, bind_eq_ok, last_check_eq_ok,
    Bool.or_eq_true, Bool.and_eq_true, Bool.not_eq_true', decide_eq_true_eq, not_or, not_and,
    Bool.not_eq_false, not_not, ne_eq, Bool.and_eq_false_iff, decide_eq_false_iff_not,
    not_lt] at h
  obtain ⟨⟨henabled, hmode⟩, ⟨hlive, hexpected⟩, hevidence, ⟨habi, hlen⟩, hdumps, happ, hexp,
    hcodec, ⟨hne, hcount⟩, ⟨⟩, hoffsets, ⟨⟩, hentry, ⟨⟩, hcaller, -⟩ := h
  rw [checkOffsets_eq_ok] at hoffsets
  exact
    { enabled := henabled
      mode := hmode
      live := hlive
      expected := hexpected
      evidence := hevidence
      abi := habi
      bufferLen := hlen
      maxDumps := hdumps
      application := happ
      experiment := hexp
      codec := hcodec
      offsets_ne := hne
      offsets_length := hcount
      offsets_nodup := hoffsets.1
      offsets_reviewed := fun o ho => (hoffsets.2 o ho).1
      entry := hentry
      caller := hcaller }

/-- A signature found at its offset, and at no other, is accepted. -/
theorem checkSignature_ok {text signature : List UInt8} {offset : UInt64}
    (hlen : 16 ≤ signature.length) (hlt : offset.toNat + signature.length < 2 ^ 64)
    (haligned : offset.toNat % 4 = 0)
    (hget : getRange text offset.toNat (offset.toNat + signature.length) = some signature)
    (huniq : ∀ i, (text.drop i).take signature.length = signature → i = offset.toNat) :
    checkSignature text offset signature = .ok () := by
  have hsig : (UInt64.ofNat signature.length).toNat = signature.length := by
    rw [UInt64.toNat_ofNat']
    exact Nat.mod_eq_of_lt (by omega)
  have hstop : (offset + UInt64.ofNat signature.length).toNat
      = offset.toNat + signature.length := by
    rw [UInt64.toNat_add, hsig]
    exact Nat.mod_eq_of_lt hlt
  have hadd : checkedAdd offset (UInt64.ofNat signature.length)
      = some (offset + UInt64.ofNat signature.length) := by
    rw [checkedAdd_eq_some, hstop, hsig]
  simp only [checkSignature, refuse, check_eq_ok, bind_eq_ok, okOr_eq_ok, last_check_eq_ok,
    and_true]
  refine ⟨Nat.not_lt.mpr hlen, _, hadd, ?_, ?_⟩
  · rw [hstop]
    exact fun hne => hne hget
  · rw [filter_windows_of_unique haligned hget huniq]
    exact fun hne => hne rfl

end TeamAttack
