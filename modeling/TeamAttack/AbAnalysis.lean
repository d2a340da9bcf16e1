import TeamAttack.CandidateBits
import TeamAttack.LaunchSummary

/-! # Off and On cycles over recorded logs (`analyze_ab.py`)

    `main` collects the samples its references name, each log read once and
    no sample taken twice, and asks `candidate_bits` for the bits that follow
    the setting.  Over recorded sessions the collected samples are the dumps
    the sessions wrote, so the candidates are exactly the bits of the captured
    buffers that follow the setting (`analysis_of_sessions`). -/

namespace TeamAttack.AnalyzeAb

open RustStr LogReaders ExceptRules

/-! ## `main` -/

/-- A reference: the log it resolves to, and a sequence. -/
structure Reference where
  path : LogReaders.Path
  sequence : Int

/-- `identity`. -/
def Reference.identity (ref : Reference) : Str × Int := (ref.path.text, ref.sequence)

/-- The three references of a `--triplet`. -/
structure Cycle where
  off : Reference
  on : Reference
  returnOff : Reference

/-- What ends `main`: its own `ValueError`, one of `read_log`, an `OSError`, a
    `KeyError`, or an exception of `candidate_bits`. -/
inductive AnalysisError where
  | value (message : Str)
  | read (e : ReadError)
  | os
  | key (sequence : Int)
  | candidates (e : PyError)
  deriving DecidableEq

abbrev Analysis := Except AnalysisError

/-- The locals of the loop. -/
structure Locals where
  identities : List (Str × Int)
  cache : List (Str × LogContents)
  contexts : List (List Str)
  triplets : List Triple

/-- `keys`. -/
def sessionKeys : List String :=
  ["observer_version", "game_version", "serializer_text_offset", "caller_text_offset",
    "compact_buffer_length", "reviewed_abi", "entry_signature", "caller_signature"]

def reused : Str :=
  ("each sample must be distinct; do not reuse a capture to manufacture repetitions").toList

def differentContexts : Str := "samples have different observer/version/hook contexts".toList

/-- `log_cache[path]`, read if it is not there. -/
def cachedLog (openFile : Str → Option (List UInt8)) (s : Locals) (path : LogReaders.Path) :
    Analysis (LogContents × Locals) :=
  match s.cache.lookup path.text with
  | some log => .ok (log, s)
  | none =>
      match openFile path.text with
      | none => .error .os
      | some data =>
          match readLog path data with
          | .ok log => .ok (log, { s with cache := PyDict.insert s.cache path.text log })
          | .error e => .error (.read e)

/-- The body of the loop over the references of a cycle. -/
def sample (openFile : Str → Option (List UInt8)) (s : Locals) (ref : Reference) :
    Analysis (Payload × Locals) := do
  if ref.identity ∈ s.identities then .error (.value reused)
  let (log, s) ← cachedLog openFile
    { s with identities := s.identities ++ [ref.identity] } ref.path
  match sessionKeys.mapM fun key => log.metadata.lookup key.toList with
  | none => .error (.value "A/B analysis requires complete v0.2 session headers".toList)
  | some context =>
      match log.captures.find? fun dump => (dump.1 : Int) = ref.sequence with
      | none => .error (.key ref.sequence)
      | some dump => .ok (dump.2, { s with contexts := s.contexts ++ [context] })

/-- The body of the loop over the cycles. -/
def collect (openFile : Str → Option (List UInt8)) (s : Locals) (cycle : Cycle) :
    Analysis Locals := do
  let (off, s) ← sample openFile s cycle.off
  let (on, s) ← sample openFile s cycle.on
  let (returnOff, s) ← sample openFile s cycle.returnOff
  return { s with triplets := s.triplets ++ [⟨off, on, returnOff⟩] }

/-- What `main` prints. -/
structure Report where
  cycles : Nat
  candidates : List Candidate
  conclusion : Str

def conclusion : Str :=
  ("Candidate correlations only. A disassembled rule consumer and actual network-path tracing "
    ++ "are still required.").toList

/-- `main`, on the references of its arguments. -/
def analyzeAb (openFile : Str → Option (List UInt8)) (cycles : List Cycle) : Analysis Report := do
  let s ← cycles.foldlM (collect openFile) ⟨[], [], [], []⟩
  if (PySet.ofItems s.contexts).length ≠ 1 then
    .error (.value differentContexts)
  match candidateBits s.triplets with
  | .ok candidates => return ⟨s.triplets.length, candidates, conclusion⟩
  | .error e => .error (.candidates e)

/-- The references, in the order they are collected. -/
def references (cycles : List Cycle) : List Reference :=
  cycles.flatMap fun cycle => [cycle.off, cycle.on, cycle.returnOff]

/-! ## Samples of recorded sessions -/

/-- What a session's header says of the code. -/
def codeContext (config : Config) : List Str :=
  [packageVersion, config.expectedGameVersion, hexLower config.serializerTextOffset.toNat,
    hexLower config.callerTextOffset.toNat, "0x69".toList, config.reviewedAbi,
    signatureText config.expectedPrologue, signatureText config.expectedCallsite]

theorem context_header (config : Config) :
    sessionKeys.mapM (fun key => (headerFields config).lookup key.toList)
      = some (codeContext config) := by
  obtain ⟨h1, h2, h3, h4, h5, h6, h7, h8⟩ := code_lookups config
  simp only [sessionKeys, List.mapM_cons, List.mapM_nil, h1, h2, h3, h4, h5, h6, h7, h8]
  rfl

/-- What the logs hold: the configurations and the dumps of their sessions, and
    the capture each reference names. -/
structure Archive where
  openFile : Str → Option (List UInt8)
  config : Str → Config
  captures : Str → List Capture
  capture : Reference → Capture

namespace Archive

/-- The configuration of the session a reference points into. -/
def configOf (archive : Archive) (ref : Reference) : Config := archive.config ref.path.text

/-- What `read_log` makes of the log at a path. -/
def contents (archive : Archive) (path : Str) : LogContents :=
  ⟨headerFields (archive.config path),
    Recorder.dumpsOf (archive.config path).captureOffsets (archive.captures path)⟩

/-- The bytes a reference stands for. -/
def payload (archive : Archive) (ref : Reference) : Payload :=
  shownBytes (archive.configOf ref).captureOffsets (archive.capture ref)

def triple (archive : Archive) (cycle : Cycle) : Triple :=
  ⟨archive.payload cycle.off, archive.payload cycle.on, archive.payload cycle.returnOff⟩

/-- A reference to a dump of a recorded session. -/
structure Names (archive : Archive) (ref : Reference) : Prop where
  recorded : ∃ data polls, archive.openFile ref.path.text = some data
    ∧ Recorder.Recorded (archive.configOf ref) data polls (archive.captures ref.path.text)
  captured : archive.capture ref ∈ archive.captures ref.path.text
  sequence : ((archive.capture ref).sequence : Int) = ref.sequence

/-- The references are to recorded sessions. -/
def Covers (archive : Archive) (cycles : List Cycle) : Prop :=
  ∀ ref ∈ references cycles, archive.Names ref

/-- What the locals hold after these references. -/
structure Sound (archive : Archive) (s : Locals) (seen : List Reference) : Prop where
  identities : s.identities = seen.map Reference.identity
  distinct : (seen.map Reference.identity).Nodup
  cache : ∀ path log, s.cache.lookup path = some log → log = archive.contents path
  contexts : s.contexts = seen.map fun ref => codeContext (archive.configOf ref)

variable {archive : Archive} {s : Locals} {seen : List Reference} {ref : Reference}

/-- The log of a reference is read, now or before. -/
theorem cachedLog_ok
    (hs : ∀ path log, s.cache.lookup path = some log → log = archive.contents path)
    (href : archive.Names ref) :
    ∃ cache, cachedLog archive.openFile s ref.path
        = .ok (archive.contents ref.path.text, { s with cache })
      ∧ ∀ path log, cache.lookup path = some log → log = archive.contents path := by
  rw [cachedLog]
  cases hlookup : s.cache.lookup ref.path.text with
  | some log =>
      obtain rfl := hs _ _ hlookup
      exact ⟨s.cache, rfl, hs⟩
  | none =>
      obtain ⟨data, polls, hopen, hrec⟩ := href.recorded
      have hne : archive.captures ref.path.text ≠ [] := List.ne_nil_of_mem href.captured
      have hread : readLog ref.path data = .ok (archive.contents ref.path.text) := by
        rw [hrec.readBack.log, if_neg hne]
        rfl
      simp only [hopen, hread]
      refine ⟨_, rfl, fun path log hfound => ?_⟩
      rcases PyDict.lookup_insert hlookup hfound with ⟨rfl, rfl⟩ | hold
      · rfl
      · exact hs path log hold

/-- The dump a reference names. -/
theorem find_named (href : archive.Names ref) :
    ((archive.contents ref.path.text).captures.find? fun dump => (dump.1 : Int) = ref.sequence)
      = some ((archive.capture ref).sequence, archive.payload ref) := by
  obtain ⟨data, polls, hopen, hrec⟩ := href.recorded
  rw [← href.sequence]
  exact find_dump (Recorder.dumpsOf_nodup _ hrec.readBack.distinct)
    (List.mem_map_of_mem href.captured)

/-- A reference not taken before gives its bytes. -/
theorem sample_new (hs : archive.Sound s seen) (href : archive.Names ref)
    (hnew : ref.identity ∉ seen.map Reference.identity) :
    ∃ s', sample archive.openFile s ref = .ok (archive.payload ref, s')
      ∧ archive.Sound s' (seen ++ [ref]) ∧ s'.triplets = s.triplets := by
  obtain ⟨cache, hlog, hcache⟩ := cachedLog_ok
    (s := { s with identities := s.identities ++ [ref.identity] }) hs.cache href
  refine ⟨{ s with
    identities := s.identities ++ [ref.identity]
    cache
    contexts := s.contexts ++ [codeContext (archive.configOf ref)] }, ?_, ⟨?_, ?_, hcache, ?_⟩, rfl⟩
  · rw [sample, hs.identities, if_neg hnew]
    rw [hs.identities] at hlog
    show (cachedLog _ _ _ >>= fun _ => _) = _
    rw [hlog, bind_ok]
    dsimp only
    have hcontext : sessionKeys.mapM (fun key =>
        (archive.contents ref.path.text).metadata.lookup key.toList)
        = some (codeContext (archive.configOf ref)) := context_header _
    rw [hcontext, find_named href]
  · rw [hs.identities, List.map_append, List.map_singleton]
  · rw [List.map_append, List.map_singleton]
    exact List.nodup_append.mpr ⟨hs.distinct, List.nodup_singleton _, by
      intro a ha b hb
      rw [List.mem_singleton.mp hb]
      exact fun heq => hnew (heq ▸ ha)⟩
  · rw [hs.contexts, List.map_append, List.map_singleton]

/-- A reference taken before is refused. -/
theorem sample_reused (hs : archive.Sound s seen)
    (hold : ref.identity ∈ seen.map Reference.identity) :
    sample archive.openFile s ref = .error (.value reused) := by
  rw [sample, hs.identities, if_pos hold]
  rfl

theorem not_distinct (rest : List Reference) (h : ref.identity ∈ seen.map Reference.identity) :
    ¬ ((seen ++ ref :: rest).map Reference.identity).Nodup := by
  intro hnodup
  rw [List.map_append, List.map_cons] at hnodup
  exact List.disjoint_of_nodup_append hnodup h List.mem_cons_self

/-- Distinct references, taken in so far or refused. -/
def Outcome (archive : Archive) (s : Locals) (seen : List Reference) (triplets : List Triple)
    (result : Analysis Locals) : Prop :=
  ((seen.map Reference.identity).Nodup ∧ ∃ s', result = .ok s' ∧ archive.Sound s' seen
    ∧ s'.triplets = s.triplets ++ triplets)
  ∨ (¬ (seen.map Reference.identity).Nodup ∧ result = .error (.value reused))

/-- A cycle. -/
theorem collect_outcome {cycle : Cycle} (hs : archive.Sound s seen)
    (hnames : ∀ ref ∈ [cycle.off, cycle.on, cycle.returnOff], archive.Names ref) :
    archive.Outcome s (seen ++ [cycle.off, cycle.on, cycle.returnOff]) [archive.triple cycle]
      (collect archive.openFile s cycle) := by
  simp only [List.mem_cons, List.not_mem_nil, or_false, forall_eq_or_imp, forall_eq] at hnames
  obtain ⟨hoff, hon, hreturnOff⟩ := hnames
  rw [Outcome, collect]
  by_cases hold : cycle.off.identity ∈ seen.map Reference.identity
  · rw [sample_reused hs hold]
    exact Or.inr ⟨not_distinct _ hold, rfl⟩
  obtain ⟨s₁, hfirst, hs₁, htriplets₁⟩ := sample_new hs hoff hold
  rw [hfirst, bind_ok]
  dsimp only
  by_cases hold₁ : cycle.on.identity ∈ (seen ++ [cycle.off]).map Reference.identity
  · rw [sample_reused hs₁ hold₁]
    refine Or.inr ⟨?_, rfl⟩
    have hnot := not_distinct [cycle.returnOff] hold₁
    rwa [List.append_assoc] at hnot
  obtain ⟨s₂, hsecond, hs₂, htriplets₂⟩ := sample_new hs₁ hon hold₁
  rw [hsecond, bind_ok]
  dsimp only
  rw [List.append_assoc] at hs₂
  by_cases hold₂ : cycle.returnOff.identity
      ∈ (seen ++ ([cycle.off] ++ [cycle.on])).map Reference.identity
  · rw [sample_reused hs₂ hold₂]
    refine Or.inr ⟨?_, rfl⟩
    have hnot := not_distinct [] hold₂
    rwa [List.append_assoc] at hnot
  obtain ⟨s₃, hthird, hs₃, htriplets₃⟩ := sample_new hs₂ hreturnOff hold₂
  rw [hthird, bind_ok]
  rw [List.append_assoc] at hs₃
  refine Or.inl ⟨hs₃.distinct, _, rfl, ⟨hs₃.identities, hs₃.distinct, hs₃.cache, hs₃.contexts⟩, ?_⟩
  show s₃.triplets ++ _ = _
  rw [htriplets₃, htriplets₂, htriplets₁]
  rfl

/-- **The loop over the cycles.** -/
theorem collect_all {cycles : List Cycle} (hs : archive.Sound s seen)
    (hcovers : archive.Covers cycles) :
    archive.Outcome s (seen ++ references cycles) (cycles.map archive.triple)
      (cycles.foldlM (collect archive.openFile) s) := by
  induction cycles generalizing s seen with
  | nil =>
      refine Or.inl ?_
      rw [references, List.flatMap_nil, List.append_nil]
      exact ⟨hs.distinct, s, rfl, hs, (List.append_nil _).symm⟩
  | cons cycle cycles ih =>
      have hsplit : seen ++ references (cycle :: cycles)
          = (seen ++ [cycle.off, cycle.on, cycle.returnOff]) ++ references cycles := by
        rw [List.append_assoc]
        rfl
      rw [hsplit, List.foldlM_cons]
      have hfirst : ∀ ref ∈ [cycle.off, cycle.on, cycle.returnOff], archive.Names ref :=
        fun ref href => hcovers ref (List.mem_append_left _ href)
      have hrest : archive.Covers cycles :=
        fun ref href => hcovers ref (List.mem_append_right _ href)
      rcases collect_outcome hs hfirst with ⟨-, s', hok, hs', htriplets⟩ | ⟨hnot, herror⟩
      · rw [hok, bind_ok]
        have hlater := ih hs' hrest
        rw [Outcome, htriplets, List.append_assoc s.triplets] at hlater
        exact hlater
      · rw [herror]
        refine Or.inr ⟨fun hnodup => hnot ?_, rfl⟩
        rw [List.map_append] at hnodup
        exact (List.nodup_append.mp hnodup).1

end Archive

/-! ## What the samples agree on -/

theorem codeContext_eq_iff {config config' : Config}
    (hversion : config.expectedGameVersion = config'.expectedGameVersion)
    (habi : config.reviewedAbi = config'.reviewedAbi) :
    codeContext config = codeContext config' ↔ SameCode config config' := by
  simp only [codeContext, hversion, habi, List.cons.injEq, true_and, and_true]
  constructor
  · rintro ⟨hserializer, hcaller, hprologue, hcallsite⟩
    exact sameCode_of_texts hserializer hcaller hprologue hcallsite
  · intro h
    rw [h.serializer, h.caller, h.prologue, h.callsite]
    exact ⟨rfl, rfl, rfl, rfl⟩

/-- The configurations select the same bytes. -/
def SameOffsets (config config' : Config) : Prop :=
  ∀ offset, offset ∈ config.captureOffsets ↔ offset ∈ config'.captureOffsets

/-- The mask of a configuration. -/
def offsetMask (offsets : List UInt8) : List Bool :=
  (List.finRange compactBufferLen).map fun i => decide (UInt8.ofNat i.val ∈ offsets)

theorem captureMask_shown (offsets : List UInt8) (capture : Capture) :
    captureMask (shownBytes offsets capture) = offsetMask offsets := by
  rw [captureMask, shownBytes, List.map_map]
  refine List.map_congr_left fun i _ => ?_
  by_cases hi : UInt8.ofNat i.val ∈ offsets
  · simp [hi]
  · simp [hi]

theorem offsetMask_at (offsets : List UInt8) (i : Fin compactBufferLen) :
    (offsetMask offsets)[i.val]? = some (decide (UInt8.ofNat i.val ∈ offsets)) := by
  rw [offsetMask, List.getElem?_map, List.getElem?_eq_getElem (by simp)]
  simp

theorem offsetMask_eq_iff {config config' : Config}
    (hlt : ∀ o ∈ config.captureOffsets, o.toNat < compactBufferLen)
    (hlt' : ∀ o ∈ config'.captureOffsets, o.toNat < compactBufferLen) :
    offsetMask config.captureOffsets = offsetMask config'.captureOffsets
      ↔ SameOffsets config config' := by
  constructor
  · intro h offset
    -- an offset below the buffer's length is selected by both or by none
    have hselected (hoffset : offset.toNat < compactBufferLen) :
        offset ∈ config.captureOffsets ↔ offset ∈ config'.captureOffsets := by
      have hat := offsetMask_at config.captureOffsets ⟨offset.toNat, hoffset⟩
      rw [h, offsetMask_at] at hat
      rw [UInt8.ofNat_toNat] at hat
      exact (decide_eq_decide.mp (Option.some.inj hat)).symm
    exact ⟨fun ho => (hselected (hlt offset ho)).mp ho, fun ho => (hselected (hlt' offset ho)).mpr ho⟩
  · intro h
    rw [offsetMask, offsetMask]
    exact List.map_congr_left fun i _ => decide_eq_decide.mpr (h _)

/-- A bit of a captured buffer. -/
def bufferBit (capture : Capture) (i : Fin compactBufferLen) (bit : Nat) : Bool :=
  (capture.bytes.get i).toNat.testBit bit

theorem bitAt_shown {offsets : List UInt8} (capture : Capture) (i : Fin compactBufferLen)
    (bit : Nat) (h : UInt8.ofNat i.val ∈ offsets) :
    bitAt (shownBytes offsets capture) i.val bit = some (bufferBit capture i bit) := by
  rw [bitAt, shownBytes, List.getElem?_map, List.getElem?_eq_getElem (by simp)]
  simp [h, bufferBit]

theorem records_triples (archive : Archive) (cycles : List Cycle) :
    records (cycles.map archive.triple) = (references cycles).map archive.payload := by
  rw [records, references, List.flatMap_map, List.map_flatMap]
  rfl

/-! ## The verdict -/

theorem candidateBits_few {triplets : List Triple} (h : triplets.length < 3) :
    candidateBits triplets = .error (.valueError
      "at least three independent Off/On/Off cycles are required".toList) := by
  rw [candidateBits, if_pos h]
  rfl

theorem candidateBits_masks {triplets : List Triple} (h : ¬ triplets.length < 3)
    (hlengths : ∀ r ∈ records triplets, r.length = bufferLen)
    (hmasks : ∀ mask, PySet.ofItems ((records triplets).map captureMask) ≠ [mask]) :
    candidateBits triplets = .error (.valueError
      "all samples must have the same nonempty capture mask".toList) := by
  have hwhole : ¬ ((records triplets).any fun r => decide (r.length ≠ bufferLen)) = true := by
    rw [List.any_eq_true]
    rintro ⟨r, hr, hne⟩
    exact of_decide_eq_true hne (hlengths r hr)
  rw [candidateBits, if_neg h, if_neg hwhole]
  dsimp only
  split
  case h_1 mask first rest hset hrecords => exact absurd hset (hmasks mask)
  case h_2 => rfl

/-- A bit is `v` in the Off and Return-Off buffers and `!v` in the On buffers. -/
def Follows (archive : Archive) (cycles : List Cycle) (i : Fin compactBufferLen) (bit : Nat)
    (v : Bool) : Prop :=
  ∀ cycle ∈ cycles, bufferBit (archive.capture cycle.off) i bit = v
    ∧ bufferBit (archive.capture cycle.returnOff) i bit = v
    ∧ bufferBit (archive.capture cycle.on) i bit = !v

section Verdict

variable {archive : Archive} {cycles : List Cycle}

theorem mem_references {cycle : Cycle} (h : cycle ∈ cycles) :
    cycle.off ∈ references cycles ∧ cycle.on ∈ references cycles
      ∧ cycle.returnOff ∈ references cycles := by
  simp only [references, List.mem_flatMap]
  exact ⟨⟨cycle, h, by simp⟩, ⟨cycle, h, by simp⟩, ⟨cycle, h, by simp⟩⟩

/-- What a session promises of its dumps. -/
theorem Archive.Names.readBack {ref : Reference} (h : archive.Names ref) :
    ∃ data polls, Recorder.ReadBack (archive.configOf ref) data polls
      (archive.captures ref.path.text) := by
  obtain ⟨data, polls, -, hrec⟩ := h.recorded
  exact ⟨data, polls, hrec.readBack⟩

theorem payload_length (ref : Reference) : (archive.payload ref).length = bufferLen := by
  rw [Archive.payload, shownBytes, List.length_map, List.length_finRange]
  rfl

theorem contexts_eq_iff (hcovers : archive.Covers cycles) {ref ref' : Reference}
    (href : ref ∈ references cycles) (href' : ref' ∈ references cycles) :
    codeContext (archive.configOf ref) = codeContext (archive.configOf ref')
      ↔ SameCode (archive.configOf ref) (archive.configOf ref') := by
  obtain ⟨_, _, hback⟩ := (hcovers ref href).readBack
  obtain ⟨_, _, hback'⟩ := (hcovers ref' href').readBack
  exact codeContext_eq_iff (hback.version.trans hback'.version.symm)
    (hback.abi.trans hback'.abi.symm)

theorem masks_eq_iff (hcovers : archive.Covers cycles) {ref ref' : Reference}
    (href : ref ∈ references cycles) (href' : ref' ∈ references cycles) :
    captureMask (archive.payload ref) = captureMask (archive.payload ref')
      ↔ SameOffsets (archive.configOf ref) (archive.configOf ref') := by
  obtain ⟨_, _, hback⟩ := (hcovers ref href).readBack
  obtain ⟨_, _, hback'⟩ := (hcovers ref' href').readBack
  rw [Archive.payload, Archive.payload, captureMask_shown, captureMask_shown]
  exact offsetMask_eq_iff hback.offsets_lt hback'.offsets_lt

/-- Cycles of one selection are comparable. -/
theorem comparable_of_offsets (hcovers : archive.Covers cycles) (hthree : 3 ≤ cycles.length)
    (hsame : ∀ ref ∈ references cycles, ∀ ref' ∈ references cycles,
      SameOffsets (archive.configOf ref) (archive.configOf ref'))
    {first : Reference} (hfirst : first ∈ references cycles) :
    Comparable (cycles.map archive.triple)
      (offsetMask (archive.configOf first).captureOffsets) where
  cycles := by rwa [List.length_map]
  lengths := by
    rw [records_triples, List.forall_mem_map]
    exact fun ref _ => payload_length ref
  common := by
    rw [records_triples, List.forall_mem_map]
    intro ref href
    rw [(masks_eq_iff hcovers href hfirst).mpr (hsame ref href first hfirst), Archive.payload,
      captureMask_shown]
  captured := by
    obtain ⟨_, _, hback⟩ := (hcovers first hfirst).readBack
    obtain ⟨o, ho⟩ := List.exists_mem_of_ne_nil _ hback.offsets_ne
    refine List.mem_map.mpr ⟨⟨o.toNat, hback.offsets_lt o ho⟩, List.mem_finRange _, ?_⟩
    rw [UInt8.ofNat_toNat]
    exact decide_eq_true ho

/-- The repeatable bits are those that follow the setting. -/
theorem repeatable_iff_follows {i : Fin compactBufferLen} {bit : Nat} {v : Bool}
    (hselected : ∀ ref ∈ references cycles,
      UInt8.ofNat i.val ∈ (archive.configOf ref).captureOffsets) :
    Repeatable (cycles.map archive.triple) i.val bit v ↔ Follows archive cycles i bit v := by
  have hbit : ∀ ref ∈ references cycles, bitAt (archive.payload ref) i.val bit
      = some (bufferBit (archive.capture ref) i bit) :=
    fun ref href => bitAt_shown _ i bit (hselected ref href)
  rw [Repeatable, List.forall_mem_map, Follows]
  refine forall₂_congr fun cycle hcycle => ?_
  obtain ⟨hoff, hon, hreturnOff⟩ := mem_references hcycle
  show bitAt (archive.payload cycle.off) _ _ = _ ∧ bitAt (archive.payload cycle.returnOff) _ _ = _
    ∧ bitAt (archive.payload cycle.on) _ _ = _ ↔ _
  rw [hbit _ hoff, hbit _ hon, hbit _ hreturnOff, Option.some.injEq, Option.some.injEq,
    Option.some.injEq]

/-- Sessions of different code are refused. -/
theorem analyzeAb_contexts {s : Locals}
    (hok : cycles.foldlM (collect archive.openFile) ⟨[], [], [], []⟩ = .ok s)
    (hs : archive.Sound s (references cycles)) (hcovers : archive.Covers cycles)
    {ref ref' : Reference} (href : ref ∈ references cycles) (href' : ref' ∈ references cycles)
    (hdiffer : ¬ SameCode (archive.configOf ref) (archive.configOf ref')) :
    analyzeAb archive.openFile cycles = .error (.value differentContexts) := by
  have hcontexts : (PySet.ofItems s.contexts).length ≠ 1 := by
    intro hone
    obtain ⟨context, hcontext⟩ := List.length_eq_one_iff.mp hone
    obtain ⟨-, hall⟩ := PySet.ofItems_eq_singleton.mp hcontext
    rw [hs.contexts, List.forall_mem_map] at hall
    exact hdiffer ((contexts_eq_iff hcovers href href').mp
      ((hall ref href).trans (hall ref' href').symm))
  rw [analyzeAb, hok, bind_ok, if_pos hcontexts]
  rfl

/-- Of sessions of one code the samples are analysed. -/
theorem analyzeAb_collected {s : Locals}
    (hok : cycles.foldlM (collect archive.openFile) ⟨[], [], [], []⟩ = .ok s)
    (hs : archive.Sound s (references cycles)) (hcovers : archive.Covers cycles)
    (htriplets : s.triplets = cycles.map archive.triple)
    {first : Reference} (hfirst : first ∈ references cycles)
    (hsame : ∀ ref ∈ references cycles, ∀ ref' ∈ references cycles,
      SameCode (archive.configOf ref) (archive.configOf ref')) :
    (∀ candidates, candidateBits (cycles.map archive.triple) = .ok candidates →
        analyzeAb archive.openFile cycles = .ok ⟨cycles.length, candidates, conclusion⟩)
      ∧ ∀ e, candidateBits (cycles.map archive.triple) = .error e →
        analyzeAb archive.openFile cycles = .error (.candidates e) := by
  have hcontexts : ¬ (PySet.ofItems s.contexts).length ≠ 1 := by
    have hset : PySet.ofItems s.contexts = [codeContext (archive.configOf first)] := by
      rw [PySet.ofItems_eq_singleton, hs.contexts, List.forall_mem_map]
      refine ⟨fun hnil => List.ne_nil_of_mem hfirst (List.map_eq_nil_iff.mp hnil), ?_⟩
      exact fun ref href => (contexts_eq_iff hcovers href hfirst).mpr (hsame ref href first hfirst)
    rw [hset]
    exact not_not.mpr rfl
  constructor
  · intro candidates hcandidates
    rw [analyzeAb, hok, bind_ok, if_neg hcontexts]
    simp only [htriplets, hcandidates, List.length_map]
    rfl
  · intro e herror
    rw [analyzeAb, hok, bind_ok, if_neg hcontexts]
    simp only [htriplets, herror]

/-- Cycles of different selections are refused. -/
theorem candidateBits_offsets (hcovers : archive.Covers cycles) (hthree : 3 ≤ cycles.length)
    {ref ref' : Reference} (href : ref ∈ references cycles) (href' : ref' ∈ references cycles)
    (hdiffer : ¬ SameOffsets (archive.configOf ref) (archive.configOf ref')) :
    candidateBits (cycles.map archive.triple) = .error (.valueError
      "all samples must have the same nonempty capture mask".toList) := by
  refine candidateBits_masks (by rw [List.length_map]; omega) ?_ ?_
  · rw [records_triples, List.forall_mem_map]
    exact fun ref _ => payload_length ref
  · intro mask hmask
    obtain ⟨-, hall⟩ := PySet.ofItems_eq_singleton.mp hmask
    rw [records_triples, List.forall_mem_map, List.forall_mem_map] at hall
    exact hdiffer ((masks_eq_iff hcovers href href').mp
      ((hall ref href).trans (hall ref' href').symm))

/-- What is found in cycles of one selection. -/
theorem found_follows (hcovers : archive.Covers cycles) (hthree : 3 ≤ cycles.length)
    (hsame : ∀ ref ∈ references cycles, ∀ ref' ∈ references cycles,
      SameOffsets (archive.configOf ref) (archive.configOf ref'))
    {first : Reference} (hfirst : first ∈ references cycles) (offset bit : Nat) (v : Bool) :
    (offset, bit, v) ∈ found (cycles.map archive.triple) ↔ bit < 8
      ∧ ∃ h : offset < compactBufferLen,
        (∀ ref ∈ references cycles, UInt8.ofNat offset ∈ (archive.configOf ref).captureOffsets)
        ∧ Follows archive cycles ⟨offset, h⟩ bit v := by
  have hcomparable := comparable_of_offsets hcovers hthree hsame hfirst
  rw [mem_found hcomparable.ne_nil]
  constructor
  · rintro ⟨hoffset, hbit, hrepeatable⟩
    -- a repeatable bit lies in a selected byte
    have hmask := hcomparable.captured_at hoffset hrepeatable
    rw [offsetMask_at _ ⟨offset, hoffset⟩] at hmask
    have hselected : ∀ ref ∈ references cycles,
        UInt8.ofNat offset ∈ (archive.configOf ref).captureOffsets := fun ref href =>
      (hsame ref href first hfirst _).mpr (of_decide_eq_true (Option.some.inj hmask))
    exact ⟨hbit, hoffset, hselected,
      (repeatable_iff_follows (i := ⟨offset, hoffset⟩) hselected).mp hrepeatable⟩
  · rintro ⟨hbit, hoffset, hselected, hfollows⟩
    exact ⟨hoffset, hbit,
      (repeatable_iff_follows (i := ⟨offset, hoffset⟩) hselected).mpr hfollows⟩

end Verdict

/-- **The analysis of recorded sessions.**  Over cycles of references to dumps
    of recorded sessions, `main` refuses a dump referred to twice, sessions
    whose configurations differ in the code they read, fewer than three cycles,
    and configurations that select different bytes; and else it reports exactly
    the bits of the selected bytes that have one value in every Off and
    Return-Off buffer and the other in every On buffer, in order. -/
theorem analysis_of_sessions (archive : Archive) (cycles : List Cycle)
    (hcovers : archive.Covers cycles) (hne : cycles ≠ []) :
    (¬ ((references cycles).map Reference.identity).Nodup →
        analyzeAb archive.openFile cycles = .error (.value reused))
      ∧ (((references cycles).map Reference.identity).Nodup →
        ((∃ ref ∈ references cycles, ∃ ref' ∈ references cycles,
            ¬ SameCode (archive.configOf ref) (archive.configOf ref')) →
          analyzeAb archive.openFile cycles = .error (.value differentContexts))
        ∧ ((∀ ref ∈ references cycles, ∀ ref' ∈ references cycles,
            SameCode (archive.configOf ref) (archive.configOf ref')) →
          (cycles.length < 3 → analyzeAb archive.openFile cycles
            = .error (.candidates (.valueError
              "at least three independent Off/On/Off cycles are required".toList)))
          ∧ (3 ≤ cycles.length →
            ((∃ ref ∈ references cycles, ∃ ref' ∈ references cycles,
                ¬ SameOffsets (archive.configOf ref) (archive.configOf ref')) →
              analyzeAb archive.openFile cycles = .error (.candidates (.valueError
                "all samples must have the same nonempty capture mask".toList)))
            ∧ ((∀ ref ∈ references cycles, ∀ ref' ∈ references cycles,
                SameOffsets (archive.configOf ref) (archive.configOf ref')) →
              ∃ bits : List (Nat × Nat × Bool),
                analyzeAb archive.openFile cycles
                  = .ok ⟨cycles.length, bits.map entry, conclusion⟩
                ∧ bits.Pairwise Before
                ∧ ∀ offset bit v, (offset, bit, v) ∈ bits ↔ bit < 8
                  ∧ ∃ h : offset < compactBufferLen,
                    (∀ ref ∈ references cycles,
                      UInt8.ofNat offset ∈ (archive.configOf ref).captureOffsets)
                    ∧ Follows archive cycles ⟨offset, h⟩ bit v)))) := by
  have hstart : archive.Sound ⟨[], [], [], []⟩ [] :=
    ⟨rfl, List.nodup_nil, fun _ _ h => (by cases h), rfl⟩
  have hloop := Archive.collect_all hstart hcovers
  rw [Archive.Outcome, List.nil_append] at hloop
  obtain ⟨cycle, rest, rfl⟩ := List.exists_cons_of_ne_nil hne
  have hfirst : cycle.off ∈ references (cycle :: rest) := List.mem_cons_self
  generalize cycle :: rest = cycles at hcovers hloop hfirst
  rcases hloop with ⟨hnodup, s, hok, hs, htriplets⟩ | ⟨hreused, herror⟩
  · refine ⟨fun hnot => absurd hnodup hnot, fun _ => ⟨?_, fun hsame => ?_⟩⟩
    · rintro ⟨ref, href, ref', href', hdiffer⟩
      exact analyzeAb_contexts hok hs hcovers href href' hdiffer
    have hresult := analyzeAb_collected hok hs hcovers htriplets hfirst hsame
    refine ⟨fun hfew => hresult.2 _ (candidateBits_few (by rwa [List.length_map])),
      fun hthree => ⟨?_, fun hoffsets => ?_⟩⟩
    · rintro ⟨ref, href, ref', href', hdiffer⟩
      exact hresult.2 _ (candidateBits_offsets hcovers hthree href href' hdiffer)
    · have hcomparable := comparable_of_offsets hcovers hthree hoffsets hfirst
      exact ⟨_, hresult.1 _ (candidateBits_eq hcomparable), found_ordered _,
        found_follows hcovers hthree hoffsets hfirst⟩
  · refine ⟨fun _ => ?_, fun hnodup => absurd hnodup hreused⟩
    rw [analyzeAb, herror]
    rfl

/-! ## Three sessions with three dumps -/

open Recorder

/-- The dump at a sequence. -/
def dumpAt (sequence : Int) : Capture :=
  dumpCaptures.getD sequence.toNat ⟨0, (dumpSupply 0).buffer⟩

/-- Three logs, each of a session with the same three dumps. -/
def dumpArchive (data : List UInt8) : Archive where
  openFile := fun _ => some data
  config := fun _ => watchConfig
  captures := fun _ => dumpCaptures
  capture := fun ref => dumpAt ref.sequence

/-- The dumps of a log, as a cycle. -/
def dumpCycle (name : Char) : Cycle :=
  ⟨⟨⟨[name], [name]⟩, 0⟩, ⟨⟨[name], [name]⟩, 1⟩, ⟨⟨[name], [name]⟩, 2⟩⟩

def dumpCycles : List Cycle := [dumpCycle 'a', dumpCycle 'b', dumpCycle 'c']

theorem dumpCycles_covered {data : List UInt8} {polls : List Poll}
    (hrec : Recorded watchConfig data polls dumpCaptures) :
    (dumpArchive data).Covers dumpCycles := by
  have hsequence : ∀ ref ∈ references dumpCycles, ref.sequence ∈ ([0, 1, 2] : List Int) := by
    decide
  have hdump : ∀ n ∈ ([0, 1, 2] : List Int),
      dumpAt n ∈ dumpCaptures ∧ ((dumpAt n).sequence : Int) = n := by decide
  intro ref href
  obtain ⟨hcaptured, hsame⟩ := hdump _ (hsequence ref href)
  exact ⟨⟨data, polls, rfl, hrec⟩, hcaptured, hsame⟩

/-- The lowest bit of byte 0x11 is found. -/
theorem analysis_of_sessions_three : ∃ (data : List UInt8) (bits : List (Nat × Nat × Bool)),
    analyzeAb (fun _ => some data) dumpCycles = .ok ⟨3, bits.map entry, conclusion⟩
      ∧ (0x11, 0, false) ∈ bits := by
  obtain ⟨data, polls, hrec, -⟩ := session_recorded
  obtain ⟨-, hdistinct⟩ := analysis_of_sessions (dumpArchive data) dumpCycles
    (dumpCycles_covered hrec) (List.cons_ne_nil _ _)
  obtain ⟨-, hsame⟩ := hdistinct (by decide)
  obtain ⟨-, hthree⟩ := hsame (fun _ _ _ _ => ⟨rfl, rfl, rfl, rfl⟩)
  obtain ⟨-, hoffsets⟩ := hthree (by decide)
  obtain ⟨bits, hbits, -, hmem⟩ := hoffsets (fun _ _ _ _ _ => Iff.rfl)
  have hfollows : ∀ cycle ∈ dumpCycles,
      bufferBit (dumpAt cycle.off.sequence) ⟨0x11, by decide⟩ 0 = false
      ∧ bufferBit (dumpAt cycle.returnOff.sequence) ⟨0x11, by decide⟩ 0 = false
      ∧ bufferBit (dumpAt cycle.on.sequence) ⟨0x11, by decide⟩ 0 = !false := by decide
  refine ⟨data, bits, hbits, (hmem 0x11 0 false).mpr ⟨by decide, by decide, ?_, hfollows⟩⟩
  intro ref _
  show UInt8.ofNat 0x11 ∈ ([0x11] : List UInt8)
  exact List.mem_cons_self

end TeamAttack.AnalyzeAb
