import TeamAttack.InstallSteps
import TeamAttack.MutationRuns

/-! # A failed installation

    When `install` returns an error, the callbacks it already patched in stay.
    They write nothing as long as `EXPERIMENT` is down, and it is down at every
    error but one: the writer thread could not be spawned
    (`failed_install_silent_iff`). -/

namespace TeamAttack.Install

open RustStr RustSlice ByteMemory Application Watch Hoare ApplicationProbe ExceptRules
open CheckedWord

/-! ## What later callbacks write -/

/-- The writes of a run of callbacks. -/
def writesOf (w : World) : List (GameStep × RecordingSide) → List Write
  | [] => []
  | x :: rest =>
      (observe (prepared w x) x.2.env x.1.kind x.1.ctx).writes ++ writesOf (executeStep w x) rest

/-- In no later run does a callback write. -/
def Silent (s : ApplicationProbe.Statics) : Prop :=
  ∀ m steps, writesOf ⟨s, m⟩ steps = []

/-- Without the experiment nothing is written. -/
theorem writesOf_off (steps : List (GameStep × RecordingSide)) {w : World}
    (hoff : w.statics.experiment = false) : writesOf w steps = [] := by
  induction steps generalizing w with
  | nil => rfl
  | cons x rest ih =>
      have hmut := observe_mutation (prepared w x) x.2.env x.1.kind x.1.ctx
      have hframe := observe_frame (prepared w x) x.2.env x.1.kind x.1.ctx
      have hidle : mutateIfGuarded (prepared w x).statics (prepared w x).mem x.1.kind x.1.ctx
          = .refused (prepared w x).statics (prepared w x).mem :=
        mutateIfGuarded_off (Or.inl hoff)
      rw [hidle] at hmut
      have hnone : (observe (prepared w x) x.2.env x.1.kind x.1.ctx).writes = [] := hmut.writes
      have hrest : writesOf (executeStep w x) rest = [] := ih (hframe.1.trans hoff)
      rw [writesOf, hnone, hrest, List.append_nil]

/-- With the experiment on, some callback writes. -/
theorem not_silent {s : ApplicationProbe.Statics} (hexp : s.experiment = true)
    (hsession : s.base + 0x1000000 ≠ 0) (hbuffer : s.base + 0x2000000 ≠ 0) : ¬ Silent s := by
  intro hsilent
  let step : GameStep × RecordingSide := (⟨id, 5, openCtx s.base⟩, ⟨id, 0, false⟩)
  have hnone := hsilent (relocate s.base (openScene 1)) [step]
  rw [writesOf, writesOf, List.append_nil] at hnone
  have hguards := openScene_guards hexp hsession hbuffer
  have hwrite := (observe_writes_one_guarded_byte
    (prepared ⟨s, relocate s.base (openScene 1)⟩ step) step.2.env 5
    (openCtx s.base)).2.1.mpr hguards
  rw [hnone] at hwrite
  exact List.not_mem_nil hwrite

/-! ## When a failed installation is silent -/

variable {env : Env} {config : Config}

/-- The spawn fails where the experiment was about to start. -/
structure SpawnFails (env : Env) (config : Config) : Prop where
  mode : config.mode = .proposalExperiment
  reached : ReachesSpawn env config
  spawn : ∃ e, env.spawn = .error e

/-- Past a successful spawn, `install` only aborts. -/
theorem hookSerializer_exits :
    Triple (fun _ => True) (hookSerializer env config) (fun _ _ => True)
      (fun e _ => e = .abort) := by
  refine Triple.bind (Q := fun _ _ => True) (Triple.update (fun _ _ => trivial)) ?_
  intro _
  refine Triple.optional (fun _ => Triple.exit (fun _ _ => rfl)) (fun _ _ h => h) ?_
  refine Triple.bind (Q := fun _ _ => True) (Triple.update (fun _ _ => trivial)) ?_
  intro _
  refine Triple.optional (fun _ => Triple.update (fun _ _ => trivial)) (fun _ _ h => h) ?_
  exact Triple.ite (fun _ => Triple.update (fun _ _ => trivial))
    (fun _ => Triple.value (fun _ _ => trivial))

/-- An error that leaves `EXPERIMENT` up is a failed spawn. -/
theorem spawnFails_of_up {message : Str} {b : Boot}
    (heq : outcome (install env config) Boot.start = (.error (.refused message), b))
    (hup : b.application.experiment = true) : SpawnFails env config := by
  -- the flag, and what is known, when the spawn is reached
  have hprepare : Triple (fun b => Off b ∧ Sound env config noGates b) (prepare env config)
      (fun _ b => Prepared env config b ∧ ReachesSpawn env config) ErrsOff := by
    refine (Triple.and ((stores_prepare env config).conseq (fun _ hb => hb.1) (fun _ _ hb => hb)
      (fun _ _ hb => hb)) (learns_prepare.conseq (fun _ hb => hb.2) (fun _ _ hb => hb)
      (fun _ _ hb => hb))).conseq (fun _ hb => hb) (fun _ _ hb => hb) (fun _ _ hb => hb.1)
  have hinstall : Triple (fun b => Off b ∧ Sound env config noGates b) (install env config)
      (fun _ _ => True)
      (fun e b => ∀ message, e = .refused message → b.application.experiment = true →
        SpawnFails env config) := by
    refine Triple.bind (hprepare.conseq (fun _ hb => hb) (fun _ _ hb => hb) ?_) ?_
    · intro e b hb message heq hup
      rw [hb message heq] at hup
      cases hup
    · intro addresses
      refine Triple.bind (Q := fun _ _ => True) ?_ ?_
      · rw [spawnWriter]
        cases hspawn : env.spawn with
        | ok _ => exact Triple.update (fun _ _ => trivial)
        | error e =>
            refine Triple.bind (Q := fun _ b => Prepared env config b ∧ ReachesSpawn env config)
              (Triple.update (fun _ hb => hb)) ?_
            intro _
            refine Triple.exit ?_
            rintro b ⟨⟨hstored, hoff⟩, hreached⟩ message - hup
            refine ⟨?_, hreached, e, hspawn⟩
            cases happ : config.observeRuleApplication with
            | true => exact of_decide_eq_true ((hstored happ).1.symm.trans hup)
            | false =>
                rw [hoff happ] at hup
                cases hup
      · intro _
        refine hookSerializer_exits.conseq (fun _ h => h) (fun _ _ h => h) ?_
        rintro e b rfl message heq
        cases heq
  have hstart : Off Boot.start := rfl
  exact hinstall.of_error ⟨hstart, sound_start⟩ heq message rfl hup

/-- A failed spawn leaves `EXPERIMENT` up. -/
theorem up_of_spawnFails (h : SpawnFails env config) :
    ∃ message b, outcome (install env config) Boot.start = (.error (.refused message), b)
      ∧ Stored env config b := by
  obtain ⟨version, -, hok⟩ := h.reached.gates .configuration rfl
  have happ := (validConfig_of_ok hok).experiment h.mode
  -- `prepare` ends, with the flag stored
  have hprepare : Triple (fun b => b.installAttempted = false ∧ Off b) (prepare env config)
      (fun _ => Prepared env config) (fun _ _ => False) := by
    have hreaches := (reaches_prepare h.reached).conseq
      (fun (b : Boot) (hb : b.installAttempted = false ∧ Off b) => hb.1) (fun _ _ hb => hb)
      (fun _ _ hb => hb)
    have hstores := (stores_prepare env config).conseq
      (fun (b : Boot) (hb : b.installAttempted = false ∧ Off b) => hb.2) (fun _ _ hb => hb)
      (fun _ _ hb => hb)
    exact (Triple.and hreaches hstores).conseq (fun _ hb => hb) (fun _ _ hb => hb.2)
      (fun _ _ hb => hb.1)
  have hstart : Boot.start.installAttempted = false ∧ Off Boot.start := ⟨rfl, rfl⟩
  obtain ⟨addresses, b, hend, hstored, -⟩ := hprepare.reaches hstart
  obtain ⟨e, hspawn⟩ := h.spawn
  refine ⟨"writer could not start: ".toList ++ e.message, stopRecording b, ?_, hstored happ⟩
  rw [install, outcome_bind, hend]
  show outcome (spawnWriter env addresses >>= fun _ => hookSerializer env config) b = _
  rw [outcome_bind, spawnWriter, hspawn]
  rfl

/-- The module is not mapped so high that its data would wrap around. -/
theorem module_unwrapped (h : SpawnFails env config) :
    env.textAddress + 0x1000000 ≠ 0 ∧ env.textAddress + 0x2000000 ≠ 0 := by
  obtain ⟨version, -, hok⟩ := h.reached.gates .configuration rfl
  have happ := (validConfig_of_ok hok).experiment h.mode
  have hmode := h.reached.gates .modeMapping happ
  simp only [Gate.Holds, checkModeMapping, bind_eq_ok, okOr_eq_ok, checkedAdd_eq_some] at hmode
  obtain ⟨mode, hsum, -⟩ := hmode
  have hlt := mode.toNat_lt
  have hoffset : modeOffset.toNat = 0x53050f0 := rfl
  have hne : ∀ d : UInt64, 0 < d.toNat → d.toNat ≤ 0x53050f0 → env.textAddress + d ≠ 0 := by
    intro d hpos hle hzero
    have hsum' : (env.textAddress + d).toNat = 0 := by
      rw [hzero]
      rfl
    rw [UInt64.toNat_add, Nat.mod_eq_of_lt (by omega)] at hsum'
    omega
  exact ⟨hne 0x1000000 (by decide) (by decide), hne 0x2000000 (by decide) (by decide)⟩

theorem writes_of_spawnFails (h : SpawnFails env config) :
    ∃ message b, outcome (install env config) Boot.start = (.error (.refused message), b)
      ∧ ¬ Silent b.application := by
  obtain ⟨message, b, heq, hexp, hbase⟩ := up_of_spawnFails h
  obtain ⟨hsession, hbuffer⟩ := module_unwrapped h
  refine ⟨message, b, heq, not_silent ?_ ?_ ?_⟩
  · rw [hexp, h.mode]
    rfl
  · rw [hbase]
    exact hsession
  · rw [hbase]
    exact hbuffer

/-- **A failed installation is silent, unless the spawn failed.**  After
    `install` has returned an error, no later callback writes game memory,
    exactly unless the mode is the experiment, every step ahead of the spawn
    of the writer succeeded, and the spawn failed. -/
theorem failed_install_silent_iff (env : Env) (config : Config) :
    (∀ message b, outcome (install env config) Boot.start = (.error (.refused message), b) →
        Silent b.application)
      ↔ ¬ SpawnFails env config := by
  constructor
  · intro hsilent hfails
    obtain ⟨message, b, heq, hwrites⟩ := writes_of_spawnFails hfails
    exact hwrites (hsilent message b heq)
  · intro hnot message b heq
    cases hup : b.application.experiment with
    | true => exact absurd (spawnFails_of_up heq hup) hnot
    | false => exact fun m steps => writesOf_off steps hup

/-! ## A start that writes

    A module that passes every gate, and a console that cannot spawn another
    thread. -/

/-- Consecutive cells. -/
def cellsAt (offset : UInt64) (bytes : List UInt8) : List (UInt64 × UInt8) :=
  bytes.zipIdx.map fun b => (offset + UInt64.ofNat b.2, b.1)

def sceneBase : UInt64 := 0x8000000

/-- The length of the module's code. -/
def sceneLength : Nat := 0x2000000

def scenePrologue : List UInt8 := 0xe7 :: List.replicate 15 0

/-- A `BL` from 0x1600000 to the serializer. -/
def sceneCallsite : List UInt8 := LittleEndian.le32 0x94038b14 ++ 0xe5 :: List.replicate 11 0

/-- The module, as far as it is not zero, by distance from its base. -/
def sceneCells : List (UInt64 × UInt8) :=
  cellsAt 0x16e2c50 scenePrologue
    ++ cellsAt 0x1600000 sceneCallsite
    ++ cellsAt 0x16e2c6c (LittleEndian.le32 0xd001e194)
    ++ cellsAt 0x16e2c70 (LittleEndian.le32 0x91136294)
    ++ cellsAt 0x16e2c80 (LittleEndian.le32 0xd001e128)
    ++ cellsAt 0x16e2c84 (LittleEndian.le32 0x911da108)
    ++ cellsAt 0x16e2cac (LittleEndian.le32 0x5284428a)
    ++ cellsAt 0x16e2cb8 (LittleEndian.le32 0xf86a690a)
    ++ cellsAt 0x16e2cc4 (LittleEndian.le32 0xf800c26a)
    ++ submitCallSites.flatMap (fun site => cellsAt site.1 site.2)
    ++ cellsAt 0x44f3b48 (LittleEndian.le32 0xfd1fca0c)
    ++ cellsAt 0x50831c0 (LittleEndian.le64 (sceneBase + CodecProbe.encoderOffset))
    ++ cellsAt 0x50831c8 (LittleEndian.le64 (sceneBase + CodecProbe.decoderOffset))

def sceneText : List UInt8 :=
  (List.range sceneLength).map fun k => ofCells sceneCells (UInt64.ofNat k)

/-- A range of the code that holds the bytes given. -/
theorem sceneText_range (start : Nat) (bytes : List UInt8)
    (hle : start + bytes.length ≤ sceneLength)
    (hbytes : (List.range bytes.length).map
      (fun k => ofCells sceneCells (UInt64.ofNat (start + k))) = bytes) :
    getRange sceneText start (start + bytes.length) = some bytes := by
  rw [sceneText, getRange_map_range _ (Nat.le_add_right ..) hle, Nat.add_sub_cancel_left, hbytes]

/-- A range of the code without cells. -/
theorem sceneText_zeros {start length : Nat} (hle : start + length ≤ sceneLength)
    (hfree : ∀ c ∈ sceneCells, c.1.toNat < start ∨ start + length ≤ c.1.toNat) :
    getRange sceneText start (start + length) = some (List.replicate length 0) := by
  have hrange := sceneText_range start (List.replicate length 0)
    (by simpa using hle) ?_
  · simpa using hrange
  · rw [List.length_replicate]
    refine List.ext_getElem (by simp) ?_
    intro k hk _
    have hk : k < length := by simpa using hk
    simp only [List.getElem_map, List.getElem_range, List.getElem_replicate]
    refine ofCells_eq_zero ?_
    rintro c hc heq
    have hnat : (UInt64.ofNat (start + k)).toNat = start + k := by
      rw [UInt64.toNat_ofNat']
      exact Nat.mod_eq_of_lt (by unfold sceneLength at hle; omega)
    have := hfree c hc
    rw [heq, hnat] at this
    omega

def sceneConfig : Config :=
  { Config.default with
    enabled := true
    mode := .proposalExperiment
    serializerTextOffset := 0x16e2c50
    expectedPrologue := scenePrologue
    callerTextOffset := 0x1600000
    expectedCallsite := sceneCallsite
    reviewedAbi := "void_u8_ptr_v1".toList
    reviewedBufferLen := 0x69
    evidenceReviewed := true
    offlineTestAcknowledged := true
    captureOffsets := [0x11]
    pollGlobalTeamAttack := true
    observeRuleCodec := true
    observeRuleApplication := true }

/-- The lengths of the reviewed bodies. -/
def sceneLengths : Fin 7 → Nat := ![11992, 728, 472, 412, 48, 76, 236]

/-- Read-only data from 0x2000000, data from 0x5100000. -/
def sceneQuery : Query → UInt32 × MemoryInfo
  | .receiveTable | .codecTable => (0, ⟨sceneBase + 0x2000000, 0x3100000, 3, 1⟩)
  | .mode | .modeLast | .global | .guard => (0, ⟨sceneBase + 0x5100000, 0x1000000, 4, 3⟩)

def sceneFiles : FileOutcomes where
  createDirAll := .ok ()
  createNew := fun _ => .ok ()
  writeHeader := .ok ()
  flush := .ok ()
  syncAll := .ok ()

def sceneEnv : Env where
  configFile := .notFound
  displayVersion := #v[0x31, 0x33, 0x2e, 0x30, 0x2e, 0x35, 0, 0, 0, 0, 0, 0, 0, 0, 0, 0]
  textAddress := sceneBase
  rodataAddress := sceneBase + UInt64.ofNat sceneLength
  dataAddress := sceneBase + 0x5100000
  mem := relocate sceneBase (ofCells sceneCells)
  reviewed :=
    { bodies := fun i => List.replicate (sceneLengths i) 0
      encoder := List.replicate 572 0
      decoder := List.replicate 548 0 }
  query := sceneQuery
  files := sceneFiles
  status := fun _ => .ok ()
  selfTest := .ok 512
  hookedSelfTest := .ok 512
  codecTrampoline := fun _ => sceneBase
  siteWords := fun _ => ⟨0, 0, 0x14000000, 0, 0⟩
  startTick := 0
  spawn := .error ⟨.raw 11, "os error 11".toList⟩
  serializerTrampoline := sceneBase
  readyForCodec := true
  readyForApplication := true

theorem scene_region :
    validateRegion sceneEnv.textAddress sceneEnv.rodataAddress
      = .ok (UInt64.ofNat sceneLength) := by
  decide

theorem scene_text : sceneEnv.text (UInt64.ofNat sceneLength) = sceneText := by
  have hlen : (UInt64.ofNat sceneLength).toNat = sceneLength := by decide
  have hbyte : ∀ k, sceneEnv.mem (sceneEnv.textAddress + UInt64.ofNat k)
      = ofCells sceneCells (UInt64.ofNat k) := fun k =>
    byte_relocate sceneBase (ofCells sceneCells) (UInt64.ofNat k)
  rw [Env.text, rawParts, hlen, sceneText]
  simp only [hbyte]

theorem scene_config : Gate.configuration.Holds sceneEnv sceneConfig := by
  refine ⟨supportedGameVersion, ?_, ?_⟩
  · decide
  · decide

/-- A signature with a byte found nowhere else in the module. -/
theorem scene_signature {offset : UInt64} {signature : List UInt8} {k : Nat} {b : UInt8}
    (hlen : 16 ≤ signature.length) (hle : offset.toNat + signature.length ≤ sceneLength)
    (haligned : offset.toNat % 4 = 0)
    (hbytes : (List.range signature.length).map
      (fun k => ofCells sceneCells (UInt64.ofNat (offset.toNat + k))) = signature)
    (hk : signature[k]? = some b) (hb : b ≠ 0)
    (honce : ∀ c ∈ sceneCells, c.2 = b → c.1.toNat = offset.toNat + k) :
    checkSignature sceneText offset signature = .ok () := by
  have hbound : offset.toNat + signature.length < 2 ^ 64 := by
    unfold sceneLength at hle
    omega
  refine checkSignature_ok hlen hbound haligned (sceneText_range _ _ hle hbytes) ?_
  intro i hi
  refine window_unique hk ?_ hi
  intro j hj hcell
  have hmem := mem_cells (show ofCells sceneCells (UInt64.ofNat j) ≠ 0 from hcell ▸ hb)
  have hoffset := honce _ hmem hcell
  rw [UInt64.toNat_ofNat', Nat.mod_eq_of_lt (by unfold sceneLength at hj; omega)] at hoffset
  exact hoffset

theorem scene_signatures : validateSignatures sceneConfig sceneText = .ok () := by
  have hentry : checkSignature sceneText sceneConfig.serializerTextOffset
      sceneConfig.expectedPrologue = .ok () :=
    scene_signature (k := 0) (b := 0xe7) (by decide) (by decide)
      (by decide) (by decide) (by decide) (by decide)
      (forall_mem_of_all (by decide))
  have hcaller : checkSignature sceneText sceneConfig.callerTextOffset
      sceneConfig.expectedCallsite = .ok () :=
    scene_signature (k := 4) (b := 0xe5) (by decide) (by decide)
      (by decide) (by decide) (by decide) (by decide)
      (forall_mem_of_all (by decide))
  simp only [validateSignatures, refuse, bind_eq_ok, okOr_eq_ok, last_check_eq_ok, and_true]
  refine ⟨(), hentry, (), hcaller, LittleEndian.le32 0x94038b14, ?_, ?_⟩
  · decide
  · decide

theorem scene_zeros {offset : UInt64} {length : Nat} (hle : offset.toNat + length ≤ sceneLength)
    (hfree : ∀ c ∈ sceneCells, c.1.toNat < offset.toNat ∨ offset.toNat + length ≤ c.1.toNat) :
    matchesAt sceneText offset (List.replicate length 0) = true := by
  rw [matchesAt, List.length_replicate, sceneText_zeros hle hfree]
  simp

theorem scene_bodies : Application.validate sceneEnv.reviewed.bodies sceneText = .ok () := by
  have hfits : ∀ i, (bodyOffsets i).toNat + sceneLengths i ≤ sceneLength := by decide
  have hfree : ∀ i, ∀ c ∈ sceneCells, c.1.toNat < (bodyOffsets i).toNat
      ∨ (bodyOffsets i).toNat + sceneLengths i ≤ c.1.toNat := fun i =>
    forall_mem_of_all (by revert i; decide)
  have hsites : ∀ site ∈ submitCallSites, site.1.toNat + site.2.length ≤ sceneLength
      ∧ (List.range site.2.length).map
        (fun k => ofCells sceneCells (UInt64.ofNat (site.1.toNat + k))) = site.2 := by
    decide
  rw [Application.validate, bind_eq_ok]
  refine ⟨(), forM_eq_ok.mpr ?_, forM_eq_ok.mpr ?_⟩
  · intro i _
    exact if_pos (scene_zeros (hfits i) (hfree i))
  · intro site hsite
    obtain ⟨hle, hbytes⟩ := hsites site hsite
    refine if_pos ?_
    rw [matchesAt, sceneText_range _ _ hle hbytes]
    simp

theorem scene_codec : CodecProbe.validate sceneEnv.reviewed.encoder sceneEnv.reviewed.decoder
    sceneText sceneEnv.textAddress sceneEnv.rodataAddress (sceneEnv.query .codecTable)
    sceneEnv.mem = .ok () := by
  have hencoder : matchesAt sceneText CodecProbe.encoderOffset (List.replicate 572 0) = true :=
    scene_zeros (by decide) (forall_mem_of_all (by decide))
  have hdecoder : matchesAt sceneText CodecProbe.decoderOffset (List.replicate 548 0) = true :=
    scene_zeros (by decide) (forall_mem_of_all (by decide))
  have hencode : pointer sceneEnv.mem (sceneBase + CodecProbe.tableOffset)
      = sceneBase + CodecProbe.encoderOffset := by
    rw [show sceneEnv.mem = relocate sceneBase (ofCells sceneCells) from rfl, pointer_relocate]
    decide
  have hdecode : pointer sceneEnv.mem (sceneBase + CodecProbe.tableOffset + 8)
      = sceneBase + CodecProbe.decoderOffset := by
    rw [show sceneEnv.mem = relocate sceneBase (ofCells sceneCells) from rfl, UInt64.add_assoc,
      pointer_relocate]
    decide
  simp only [CodecProbe.validate, refuse, bind_eq_ok, okOr_eq_ok, last_check_eq_ok, and_true]
  refine ⟨(), if_pos hencoder, (), if_pos hdecoder, sceneBase + CodecProbe.tableOffset, ?_, (),
    ?_, ?_⟩
  · decide
  · decide
  · rw [hencode, hdecode]
    decide

theorem scene_word (relative : Nat) (instruction : UInt32)
    (hle : 0x16e2c50 + relative + 4 ≤ sceneLength)
    (hbytes : (List.range 4).map (fun k => ofCells sceneCells
      (UInt64.ofNat (0x16e2c50 + relative + k))) = LittleEndian.le32 instruction) :
    sourceWord sceneText sceneConfig.serializerTextOffset.toNat relative = .ok instruction := by
  have hrange := sceneText_range _ (LittleEndian.le32 instruction) hle hbytes
  have hoffset : sceneConfig.serializerTextOffset.toNat = 0x16e2c50 := by decide
  have hlen : (LittleEndian.le32 instruction).length = 4 := LittleEndian.length_toLe ..
  rw [hlen] at hrange
  rw [sourceWord, hoffset, hrange]
  exact congrArg Except.ok (LittleEndian.of32_le32 instruction)

theorem scene_source : checkWatchSource sceneEnv sceneConfig sceneText = .ok () := by
  have h30 := scene_word 0x30 0xd001e128 (by decide) (by decide)
  have h34 := scene_word 0x34 0x911da108 (by decide) (by decide)
  have h5c := scene_word 0x5c 0x5284428a (by decide) (by decide)
  have h68 := scene_word 0x68 0xf86a690a (by decide) (by decide)
  have h74 := scene_word 0x74 0xf800c26a (by decide) (by decide)
  have h1c := scene_word 0x1c 0xd001e194 (by decide) (by decide)
  have h20 := scene_word 0x20 0x91136294 (by decide) (by decide)
  simp only [checkWatchSource, validateSource, refuse, check_eq_ok, h30, h34, h5c, h68, h74, h1c,
    h20]
  refine ⟨by decide, by decide, ?_⟩
  decide

theorem scene_log : Gate.captureLog.Holds sceneEnv sceneConfig := by
  have hlt : ∀ o ∈ ([0x11] : List UInt8), o.toNat < compactBufferLen :=
    forall_mem_of_all (by decide)
  obtain ⟨mask, hmask, -⟩ := maskOf_ok hlt
  refine ⟨(⟨writeHeader sceneConfig, mask⟩, 0), ?_⟩
  rw [CaptureLog.create, show (10000 : Nat) = 9999 + 1 from rfl, List.range_succ_eq_map]
  show (maskOf [0x11] >>= fun mask =>
    (.ok ((⟨writeHeader sceneConfig, mask⟩ : CaptureLog), 0) : Except IoError _)) = _
  rw [hmask]
  rfl

/-- The module passes every gate. -/
theorem scene_reaches : ReachesSpawn sceneEnv sceneConfig where
  gates := by
    intro g _
    have hregion := scene_region
    have hwatch : watchAddresses sceneEnv
        = .ok (sceneBase + globalOffset, sceneBase + guardOffset) := by decide
    cases g with
    | configuration => exact scene_config
    | region => exact ⟨_, hregion⟩
    | signatures => exact ⟨_, hregion, scene_text ▸ scene_signatures⟩
    | applicationBodies => exact ⟨_, hregion, scene_text ▸ scene_bodies⟩
    | receiveTable =>
        show checkReceiveTable sceneEnv = .ok ()
        decide
    | modeMapping =>
        show checkModeMapping sceneEnv = .ok ()
        decide
    | codecBodies => exact ⟨_, hregion, scene_text ▸ scene_codec⟩
    | watchSource => exact ⟨_, hregion, scene_text ▸ scene_source⟩
    | globalMapping => exact ⟨_, _, hwatch, by decide⟩
    | guardMapping => exact ⟨_, _, hwatch, by decide⟩
    | captureLog => exact scene_log
    | selfTest => exact ⟨512, rfl⟩
    | hookedSelfTest => exact ⟨512, rfl⟩
  statuses := fun _ _ => rfl
  trampolines := fun _ _ => show sceneBase ≠ 0 by decide
  sites := fun _ _ => show SiteWords.verified ⟨0, 0, 0x14000000, 0, 0⟩ = true by decide

/-- On this start the spawn of the writer fails, the error is shown, and a later
    callback writes. -/
theorem failed_install_writes :
    ∃ message b, outcome (install sceneEnv sceneConfig) Boot.start = (.error (.refused message), b)
      ∧ ¬ Silent b.application :=
  writes_of_spawnFails ⟨rfl, scene_reaches, _, rfl⟩

end TeamAttack.Install
