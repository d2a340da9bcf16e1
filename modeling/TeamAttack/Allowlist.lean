import TeamAttack.Serializer
import TeamAttack.Validation

/-! # The capture allowlist

    Only the configured offsets of a serializer buffer reach the log, and
    only reviewed offsets can be configured.  The guarantee passes through
    five places, each with its lemma here or beside its definition: the parser
    (`parse_captureOffsets`), the validator (`validConfig_of_ok`), the
    atomic mask (`storeMask_ok`), the masked read (`sampleBuffer_eq`) and
    the masked writer (`writeCapture_eq`). -/

namespace TeamAttack

open RustStr ExceptRules Serializer ByteMemory

/-! ## The parser -/

/-- Reviewed offsets, each once. -/
def Allowed (offsets : List UInt8) : Prop :=
  offsets.Nodup ∧ ∀ o ∈ offsets, reviewedOffset o = true

theorem parseCaptureOffsets_allowed {value : Str} {line : Nat} {offsets : List UInt8}
    (h : parseCaptureOffsets value line = .ok offsets) : Allowed offsets := by
  simp only [parseCaptureOffsets, syntaxError, bind_eq_ok, check_eq_ok, pure_eq_ok, not_not] at h
  obtain ⟨text, -, l, -, hnodup, hall, rfl⟩ := h
  refine ⟨hnodup, ?_⟩
  intro o ho
  by_contra hno
  refine hall (List.any_eq_true.mpr ⟨o, ho, ?_⟩)
  rw [Bool.not_eq_true'] at *
  exact Bool.not_eq_true _ ▸ hno

/-- Only the key `capture_offsets` sets the offsets. -/
theorem setKey_allowed {config config' : Config} {key value : Str} {line : Nat}
    (hc : Allowed config.captureOffsets) (h : setKey config key value line = .ok config') :
    Allowed config'.captureOffsets := by
  unfold setKey at h
  split at h
  case h_16 =>
    simp only [bind_eq_ok, pure_eq_ok] at h
    obtain ⟨offsets, hoffsets, rfl⟩ := h
    exact parseCaptureOffsets_allowed hoffsets
  case h_18 => exact nomatch h
  all_goals
    simp only [bind_eq_ok, pure_eq_ok] at h
    first
      | obtain ⟨_, _, rfl⟩ := h
        exact hc
      | obtain ⟨_, _, _, _, rfl⟩ := h
        exact hc

/-- What every key keeps, a line keeps. -/
theorem parseLine_invariant {p : Config → Prop}
    (hset : ∀ (config config' : Config) (key value : Str) (line : Nat), p config →
      setKey config key value line = .ok config' → p config')
    {state state' : Config × List Str} {rawLine : Str} {line : Nat}
    (hc : p state.1) (h : parseLine state rawLine line = .ok state') : p state'.1 := by
  simp only [parseLine, bind_eq_ok] at h
  obtain ⟨stripped, -, h⟩ := h
  by_cases hempty : trim stripped = []
  · rw [if_pos hempty] at h
    obtain rfl := pure_eq_ok.mp h
    exact hc
  · rw [if_neg hempty] at h
    cases hsplit : splitOnce? '=' (trim stripped) with
    | none =>
        rw [hsplit] at h
        cases h
    | some pair =>
        obtain ⟨rawKey, rawValue⟩ := pair
        rw [hsplit] at h
        simp only [syntaxError, check_eq_ok, bind_eq_ok, pure_eq_ok] at h
        obtain ⟨-, -, config', hkey, rfl⟩ := h
        exact hset _ _ _ _ _ hc hkey

/-- What holds of the default and is kept by every key holds of a parsed
    configuration. -/
theorem parse_invariant {p : Config → Prop} (hdefault : p Config.default)
    (hset : ∀ (config config' : Config) (key value : Str) (line : Nat), p config →
      setKey config key value line = .ok config' → p config')
    {contents : Str} {config : Config} (h : parse contents = .ok config) : p config := by
  simp only [parse, syntaxError, check_eq_ok, bind_eq_ok, pure_eq_ok] at h
  obtain ⟨-, state, hloop, -, rfl⟩ := h
  exact foldlM_invariant (p := fun state : Config × List Str => p state.1)
    (fun _ _ _ hc hline => parseLine_invariant hset hc hline) hloop hdefault

/-- **What the parser lets through.** -/
theorem parse_captureOffsets {contents : Str} {config : Config}
    (h : parse contents = .ok config) : Allowed config.captureOffsets :=
  parse_invariant (p := fun config => Allowed config.captureOffsets)
    ⟨List.nodup_nil, nofun⟩ (fun _ _ _ _ _ hc hset => setKey_allowed hc hset) h

/-! ## The masked read and the masked writer -/

/-- The observer reads its buffer through the mask only. -/
theorem compactSerializerObserver_congr {s : Statics} {m m' : Memory} {buffer buffer' : UInt64}
    (hnull : buffer = 0 ↔ buffer' = 0)
    (h : sampleBuffer s.mask m buffer = sampleBuffer s.mask m' buffer') (spurious : Bool) :
    compactSerializerObserver s m buffer spurious
      = compactSerializerObserver s m' buffer' spurious := by
  unfold compactSerializerObserver
  dsimp only
  rw [h, decide_eq_decide.mpr hnull]

/-- One cell of a dump: two upper-case digits, or two dashes. -/
def cellText (offsets : List UInt8) (capture : Capture) (i : Fin compactBufferLen) : Str :=
  if UInt8.ofNat i.val ∈ offsets then
    [' ', upperDigit ⟨(capture.bytes.get i).toNat / 16, by
        have := (capture.bytes.get i).toNat_lt; omega⟩,
      upperDigit ⟨(capture.bytes.get i).toNat % 16, by omega⟩]
  else [' ', '-', '-']

/-- The two digits are those of the byte. -/
theorem cellText_eq (offsets : List UInt8) (capture : Capture) (i : Fin compactBufferLen) :
    cellText offsets capture i
      = if UInt8.ofNat i.val ∈ offsets then ' ' :: hexUpper 2 (capture.bytes.get i).toNat
        else " --".toList := by
  rw [cellText]
  by_cases hi : UInt8.ofNat i.val ∈ offsets
  · rw [if_pos hi, if_pos hi]
    exact congrArg _
      (hexUpper_byte ⟨(capture.bytes.get i).toNat, (capture.bytes.get i).toNat_lt⟩).symm
  · rw [if_neg hi, if_neg hi]
    rfl

/-- **The masked writer.**  With the mask of `offsets` it prints the bytes at
    these offsets and no others. -/
theorem writeCapture_eq {offsets : List UInt8} {mask : Mask}
    (hmask : ∀ i : Fin compactBufferLen, mask.get i = decide (UInt8.ofNat i.val ∈ offsets))
    (capture : Capture) :
    writeCapture mask capture
      = "dump ".toList ++ decimalPadded 4 capture.sequence ++ ':'
        :: (List.finRange compactBufferLen).flatMap (cellText offsets capture) ++ ['\n'] := by
  have hcells : capture.bytes.toList.zip mask.toList
      = (List.finRange compactBufferLen).map (fun i => (capture.bytes.get i, mask.get i)) := by
    refine List.ext_getElem (by simp) ?_
    intro n h1 h2
    simp [Vector.get_eq_getElem]
  -- cell by cell: the mask prints what the offsets name
  have htext : (capture.bytes.toList.zip mask.toList).flatMap (fun x => captureCell x.1 x.2)
      = (List.finRange compactBufferLen).flatMap (cellText offsets capture) := by
    rw [hcells, List.flatMap_map]
    refine List.flatMap_congr ?_
    intro i _
    rw [hmask i, captureCell, cellText_eq]
    by_cases hi : UInt8.ofNat i.val ∈ offsets
    · rw [if_pos (decide_eq_true hi), if_pos hi]
    · rw [if_neg (by rw [decide_eq_true_eq]; exact hi), if_neg hi]
  exact congrArg
    (fun cells => "dump ".toList ++ decimalPadded 4 capture.sequence ++ ':' :: cells ++ ['\n'])
    htext

/-! ## The whole path -/

/-- What a dump may hold of a buffer: the bytes at the offsets, and zeros. -/
def allowedBytes (offsets : List UInt8) (m : Memory) (buffer : UInt64) : Payload :=
  Vector.ofFn fun i =>
    if UInt8.ofNat i.val ∈ offsets then m (buffer + UInt64.ofNat i.val) else 0

theorem allowedBytes_get (offsets : List UInt8) (m : Memory) (buffer : UInt64)
    (i : Fin compactBufferLen) : (allowedBytes offsets m buffer).get i
      = if UInt8.ofNat i.val ∈ offsets then m (buffer + UInt64.ofNat i.val) else 0 :=
  Vector.getElem_ofFn i.isLt

/-- **The masked read.**  With the mask of `offsets` it reads the bytes at
    these offsets and no others. -/
theorem sampleBuffer_eq {offsets : List UInt8} {mask : Selected}
    (hmask : ∀ i : Fin compactBufferLen,
      mask.get i = if UInt8.ofNat i.val ∈ offsets then 1 else 0)
    (m : Memory) (buffer : UInt64) :
    sampleBuffer mask m buffer = allowedBytes offsets m buffer := by
  rw [sampleBuffer, allowedBytes]
  congr 1
  funext i
  rw [hmask i]
  by_cases hi : UInt8.ofNat i.val ∈ offsets
  · rw [if_pos hi, if_pos hi, if_pos (by decide)]
  · rw [if_neg hi, if_neg hi, if_neg (by decide)]

/-- Two buffers that agree on the offsets hold the same allowed bytes. -/
theorem allowedBytes_congr {offsets : List UInt8} {m m' : Memory} {buffer buffer' : UInt64}
    (h : ∀ o ∈ offsets, m (buffer + o.toUInt64) = m' (buffer' + o.toUInt64)) :
    allowedBytes offsets m buffer = allowedBytes offsets m' buffer' := by
  rw [allowedBytes, allowedBytes]
  congr 1
  funext i
  by_cases hi : UInt8.ofNat i.val ∈ offsets
  · have hval : (UInt8.ofNat i.val).toNat = i.val :=
      UInt8.toNat_ofNat_of_lt' (Nat.lt_trans i.isLt (by decide))
    have haddr : UInt64.ofNat i.val = (UInt8.ofNat i.val).toUInt64 := by
      rw [← UInt64.ofNat_uInt8ToNat, hval]
    rw [if_pos hi, if_pos hi, haddr, h _ hi]
  · rw [if_neg hi, if_neg hi]

/-- The captures a call of the hook leaves: none more without a buffer or a
    writer, and else those of one `try_capture` of `bytes`. -/
def capturesAfter (s : Statics) (buffer : UInt64) (spurious : Bool) (bytes : Payload) :
    CaptureStore :=
  if buffer = 0 ∨ s.writerReady = false then s.captures
  else (s.captures.tryCapture s.maxDumps spurious bytes).2

/-- **What the hook captures.** -/
theorem compactSerializerObserver_eq {s : Statics} {m : Memory} {buffer : UInt64}
    (horiginal : s.original ≠ 0) (spurious : Bool) :
    compactSerializerObserver s m buffer spurious
      = some { s with
          serializerCalls := s.serializerCalls + 1
          captures := capturesAfter s buffer spurious (sampleBuffer s.mask m buffer) } := by
  rw [compactSerializerObserver, if_neg horiginal, capturesAfter]
  by_cases hquiet : buffer = 0 ∨ s.writerReady = false
  · rw [if_pos hquiet]
    dsimp only
    rw [if_pos (by simpa using hquiet)]
  · rw [if_neg hquiet]
    dsimp only
    rw [if_neg (by simpa using hquiet)]

/-- What reaches the log of the output buffers, once the two masks are set. -/
structure Confined (offsets : List UInt8) (selected : Selected) (mask : Mask) : Prop where
  sample : ∀ (m : Memory) (buffer : UInt64),
    sampleBuffer selected m buffer = allowedBytes offsets m buffer
  observer : ∀ (s : Statics) (m : Memory) (buffer : UInt64) (spurious : Bool),
    s.mask = selected → s.original ≠ 0 →
    compactSerializerObserver s m buffer spurious
      = some { s with
          serializerCalls := s.serializerCalls + 1
          captures := capturesAfter s buffer spurious (allowedBytes offsets m buffer) }
  blind : ∀ (m m' : Memory) (buffer buffer' : UInt64),
    (∀ o ∈ offsets, m (buffer + o.toUInt64) = m' (buffer' + o.toUInt64)) →
    sampleBuffer selected m buffer = sampleBuffer selected m' buffer'
    ∧ (∀ sequence, writeCapture mask ⟨sequence, sampleBuffer selected m buffer⟩
        = writeCapture mask ⟨sequence, sampleBuffer selected m' buffer'⟩)
    ∧ ∀ (s : Statics) (spurious : Bool), s.mask = selected → (buffer = 0 ↔ buffer' = 0) →
        compactSerializerObserver s m buffer spurious
          = compactSerializerObserver s m' buffer' spurious
  line : ∀ capture, writeCapture mask capture
    = "dump ".toList ++ decimalPadded 4 capture.sequence ++ ':'
      :: (List.finRange compactBufferLen).flatMap (cellText offsets capture) ++ ['\n']

/-- **Bytes outside the allowlist never reach the log.** -/
theorem allowlist_confines_log (contents : Str) (config : Config) (liveVersion : Str)
    (hparse : parse contents = .ok config) (hvalid : validateConfig config liveVersion = .ok ()) :
    config.captureOffsets.Nodup ∧ config.captureOffsets ≠ []
      ∧ config.captureOffsets.length ≤ 46
      ∧ (∀ o ∈ config.captureOffsets, ((0x04 ≤ o ∧ o ≤ 0x2c) ∨ (0x58 ≤ o ∧ o ≤ 0x5c))
          ∧ o.toNat < compactBufferLen)
      ∧ ∃ selected mask,
          storeMask config.captureOffsets (Vector.replicate compactBufferLen 0) = some selected
          ∧ maskOf config.captureOffsets = .ok mask
          ∧ Confined config.captureOffsets selected mask
          ∧ (∀ (m : Memory) (buffer : UInt64) (i : Fin compactBufferLen),
              (sampleBuffer selected m buffer).get i
                = if UInt8.ofNat i.val ∈ config.captureOffsets then
                    m (buffer + UInt64.ofNat i.val)
                  else 0)
          ∧ ∀ (m : Memory) (buffer : UInt64) (sequence : Nat),
              writeCapture mask ⟨sequence, sampleBuffer selected m buffer⟩
                = "dump ".toList ++ decimalPadded 4 sequence ++ ':'
                  :: (List.finRange compactBufferLen).flatMap (fun i =>
                    if UInt8.ofNat i.val ∈ config.captureOffsets then
                      ' ' :: hexUpper 2 (m (buffer + UInt64.ofNat i.val)).toNat
                    else " --".toList) ++ ['\n'] := by
  obtain ⟨hnodup, hreviewed⟩ := parse_captureOffsets hparse
  have hconfig := validConfig_of_ok hvalid
  have hlt : ∀ o ∈ config.captureOffsets, o.toNat < compactBufferLen :=
    fun o ho => reviewedOffset_lt (hreviewed o ho)
  obtain ⟨selected, hselected, hget⟩ :=
    storeMask_ok config.captureOffsets hlt (Vector.replicate compactBufferLen 0)
  obtain ⟨mask, hmask, hmaskget⟩ := maskOf_ok hlt
  have hselect : ∀ i : Fin compactBufferLen,
      selected.get i = if UInt8.ofNat i.val ∈ config.captureOffsets then 1 else 0 := by
    intro i
    rw [hget i]
    have hzero : (Vector.replicate compactBufferLen (0 : UInt8)).get i = 0 := by simp
    rw [hzero]
  have hsample : ∀ (m : Memory) (buffer : UInt64),
      sampleBuffer selected m buffer = allowedBytes config.captureOffsets m buffer :=
    sampleBuffer_eq hselect
  have hconfined : Confined config.captureOffsets selected mask := by
    refine ⟨hsample, ?_, ?_, writeCapture_eq hmaskget⟩
    · rintro s m buffer spurious rfl horiginal
      rw [compactSerializerObserver_eq horiginal, hsample]
    -- buffers that agree on the offsets give one sample
    · intro m m' buffer buffer' hagree
      have hsame : sampleBuffer selected m buffer = sampleBuffer selected m' buffer' := by
        rw [hsample, hsample, allowedBytes_congr hagree]
      refine ⟨hsame, fun sequence => by rw [hsame], ?_⟩
      rintro s spurious rfl hnull
      exact compactSerializerObserver_congr hnull hsame spurious
  refine ⟨hnodup, hconfig.offsets_ne, hconfig.offsets_length,
    fun o ho => ⟨reviewedOffset_iff.mp (hreviewed o ho), hlt o ho⟩,
    selected, mask, hselected, hmask, hconfined, ?_, ?_⟩
  · intro m buffer i
    rw [hsample]
    exact allowedBytes_get ..
  · intro m buffer sequence
    have hcells : ∀ i : Fin compactBufferLen,
        cellText config.captureOffsets ⟨sequence, allowedBytes config.captureOffsets m buffer⟩ i
          = if UInt8.ofNat i.val ∈ config.captureOffsets then
              ' ' :: hexUpper 2 (m (buffer + UInt64.ofNat i.val)).toNat
            else " --".toList := by
      intro i
      rw [cellText_eq]
      by_cases hi : UInt8.ofNat i.val ∈ config.captureOffsets
      · rw [if_pos hi, if_pos hi, allowedBytes_get, if_pos hi]
      · rw [if_neg hi, if_neg hi]
    rw [hsample, hconfined.line, List.flatMap_congr fun i _ => hcells i]

/-- A configuration that selects one byte. -/
def oneByteConfig : Str :=
  "enabled = true\n".toList ++ "mode = \"observe\"\n".toList
    ++ "evidence_reviewed = true\n".toList ++ "offline_test_acknowledged = true\n".toList
    ++ "reviewed_abi = \"void_u8_ptr_v1\"\n".toList ++ "reviewed_buffer_len = 0x69\n".toList
    ++ "capture_offsets = \"11\" # one byte\n".toList
    ++ "serializer_text_offset = 0x100\n".toList
    ++ "expected_prologue = \"".toList ++ List.replicate 32 '0' ++ "\"\n".toList
    ++ "caller_text_offset = 0x40\n".toList
    ++ "expected_callsite = \"".toList ++ List.replicate 32 '0' ++ "\"\n".toList

/-- An output buffer at `1000`: its byte 11 is AB, every other byte 55. -/
def oneByteBuffer : Memory := fun a => if a = 0x1011 then 0xab else 0x55

/-- Byte 11 is sampled, captured and printed, and the other bytes are not. -/
theorem allowlist_confines_log_one_byte : ∃ (config : Config) (selected : Selected) (mask : Mask),
    parse oneByteConfig = .ok config ∧ validateConfig config supportedGameVersion = .ok ()
      ∧ storeMask config.captureOffsets (Vector.replicate compactBufferLen 0) = some selected
      ∧ maskOf config.captureOffsets = .ok mask
      ∧ (∀ i : Fin compactBufferLen, (sampleBuffer selected oneByteBuffer 0x1000).get i
          = if i.val = 0x11 then 0xab else 0)
      ∧ writeCapture mask ⟨7, sampleBuffer selected oneByteBuffer 0x1000⟩
          = "dump 0007:".toList ++ (List.replicate 17 " --".toList).flatten ++ " AB".toList
            ++ (List.replicate 87 " --".toList).flatten ++ ['\n']
      ∧ ∀ s : Statics, s.mask = selected → s.original ≠ 0 → s.writerReady = true →
          compactSerializerObserver s oneByteBuffer 0x1000 false
            = some { s with
                serializerCalls := s.serializerCalls + 1
                captures := (s.captures.tryCapture s.maxDumps false
                  (sampleBuffer selected oneByteBuffer 0x1000)).2 } := by
  have haccepted : (parse oneByteConfig).toOption.any (fun config =>
      decide (validateConfig config supportedGameVersion = .ok ()
        ∧ config.captureOffsets = [0x11])) = true := by decide +kernel
  obtain ⟨config, hsome, haccepted⟩ := (Option.any_eq_true ..).mp haccepted
  obtain ⟨hvalid, hoffsets⟩ := of_decide_eq_true haccepted
  have hparse : parse oneByteConfig = .ok config := by
    cases hresult : parse oneByteConfig with
    | error e =>
        rw [hresult] at hsome
        cases hsome
    | ok config' =>
        rw [hresult] at hsome
        exact congrArg Except.ok (Option.some.inj hsome)
  obtain ⟨-, -, -, -, selected, mask, hselected, hmask, hconfined, hget, hline⟩ :=
    allowlist_confines_log _ config _ hparse hvalid
  rw [hoffsets] at hget hline
  refine ⟨config, selected, mask, hparse, hvalid, hselected, hmask, fun i => ?_, ?_, ?_⟩
  · rw [hget]
    revert i
    decide +kernel
  · rw [hline]
    decide +kernel
  · intro s hs horiginal hready
    rw [hconfined.observer s _ _ _ hs horiginal, hconfined.sample, capturesAfter,
      if_neg (by simp [hready])]

end TeamAttack
