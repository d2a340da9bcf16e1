import TeamAttack.InstallFailure
import TeamAttack.SessionLog

/-! # A session, from its installation to its readers

    `prepare` leaves a log of the header and the startup lines
    (`prepare_log`); the writer thread takes it from there.  Whatever the
    callbacks then do, both readers take the file of the session and give back
    what was recorded (`recording_read_back`). -/

namespace TeamAttack.Install

open Hoare RustStr CheckedWord Application

/-! ## The startup lines -/

/-- The calls a passed self-test counted. -/
def passedCalls : Checked Nat → Nat
  | .ok calls => calls
  | .error _ => 0

/-- The codec block's lines. -/
def codecLines (env : Env) : List Status :=
  [.codecVerified, .selfTestStarted, .selfTestPassed (passedCalls env.selfTest),
    .hookedTestPassed (passedCalls env.hookedSelfTest)]

/-- The lines `install` writes ahead of the writer thread. -/
def startupLines (env : Env) (config : Config) : List Status :=
  .logReady :: ((if config.observeRuleCodec then codecLines env else [])
    ++ if config.observeRuleApplication then [.applicationInstalling, .applicationInstalled]
      else [])

/-- From a log, the program ends with these lines behind it. -/
def Appends {α : Type} (x : M α) (lines : List Status) : Prop :=
  ∀ log : CaptureLog, Triple (fun b => b.log = some log) x
    (fun _ b => b.log = some ((lines.map LogOp.status).foldl LogOp.perform log))
    (fun _ _ => True)

section Appends

variable {α β : Type} {x : M α} {k : α → M β} {xs ys : List Status} {env : Env} {config : Config}

theorem appends_bind (hx : Appends x xs) (hk : ∀ a, Appends (k a) ys) :
    Appends (x >>= k) (xs ++ ys) := by
  intro log
  refine Triple.bind (hx log) (fun a => ?_)
  rw [List.map_append, List.foldl_append]
  exact hk a _

/-- A step that writes nothing, ahead of others. -/
theorem appends_next (hx : Appends x []) (hk : ∀ a, Appends (k a) ys) : Appends (x >>= k) ys :=
  appends_bind hx hk

/-- A step that leaves the log alone. -/
theorem appends_update {f : Boot → Boot} (h : ∀ b, (f b).log = b.log) :
    Appends (modify f : M PUnit) [] := by
  intro log
  refine Triple.update (fun b hb => ?_)
  rw [h b]
  exact hb

theorem appends_pure (a : α) : Appends (pure a : M α) [] :=
  fun _ => Triple.value (fun _ hb => hb)

theorem appends_throw (e : Exit) : Appends (throw e : M α) xs :=
  fun _ => Triple.exit (fun _ _ => trivial)

theorem appends_reach (action : Action) : Appends (reach action) [] :=
  appends_update (fun _ => rfl)

theorem appends_optional {c : Prop} [Decidable c] {x : M PUnit} {k : PUnit → M β}
    (hx : Appends x xs) (hk : Appends (k ⟨⟩) ys) :
    Appends (if c then x >>= k else k ⟨⟩) ((if c then xs else []) ++ ys) := by
  by_cases hc : c
  · rw [if_pos hc, if_pos hc]
    exact appends_bind hx (fun _ => hk)
  · rw [if_neg hc, if_neg hc]
    exact hk

/-- A check that ends the program, or lets it go on. -/
theorem appends_guard {c : Prop} [Decidable c] {e : Exit} {k : PUnit → M β}
    (hk : Appends (k ⟨⟩) ys) : Appends (if c then throw e >>= k else k ⟨⟩) ys := by
  intro log
  refine Triple.ite (fun _ => ?_) (fun _ => hk log)
  exact Triple.bind (Q := fun _ _ => False) (Triple.exit (fun _ _ => trivial))
    (fun _ => ⟨fun _ h => h.elim⟩)

/-- What is written is in the log. -/
theorem status_log (line : StatusLine) (s : Status) (log : CaptureLog) :
    Triple (fun b => b.log = some log) (status env line s.message)
      (fun r b => r.isOk = true → b.log = some (log.status s.message)) (fun _ _ => True) := by
  rw [status]
  cases env.status line with
  | ok _ =>
      refine Triple.bind (Q := fun _ b => b.log = some (log.status s.message))
        (Triple.update ?_) (fun _ => Triple.value (fun _ hb _ => hb))
      intro b hb
      show b.log.map _ = _
      rw [hb]
      rfl
  | error e => exact Triple.value (fun _ _ hr => (Bool.false_ne_true hr).elim)

theorem appends_requireStatus (line : StatusLine) (s : Status) (f : Str → Str) :
    Appends (requireStatus env line s.message f) [s] := by
  intro log
  refine Triple.bind (status_log line s log) (fun r => ?_)
  cases r with
  | ok _ => exact Triple.value (fun _ hb => hb rfl)
  | error e => exact Triple.exit (fun _ _ => trivial)

theorem appends_statusOrAbort (line : StatusLine) (s : Status) :
    Appends (statusOrAbort env line s.message) [s] := by
  intro log
  refine Triple.bind (status_log line s log) (fun r => ?_)
  cases r with
  | ok _ => exact Triple.value (fun _ hb => hb rfl)
  | error e => exact Triple.exit (fun _ _ => trivial)

theorem appends_loop {γ : Type} {f : γ → M PUnit} {l : List γ}
    (hf : ∀ c ∈ l, Appends (f c) []) : Appends (l.forM f) [] :=
  fun log => Triple.loop (fun c hc => hf c hc log)

/-! ## The steps of `prepare` -/

theorem appends_hookCodec (direction : CodecProbe.Direction) :
    Appends (hookCodec env direction) [] := by
  refine appends_next (appends_reach _) (fun _ => ?_)
  exact appends_guard (appends_update (fun _ => rfl))

theorem appends_runSelfTest :
    Appends (runSelfTest env) [.selfTestPassed (passedCalls env.selfTest)] := by
  rw [runSelfTest]
  cases env.selfTest with
  | error e =>
      intro log
      refine Triple.bind (Q := fun _ _ => True) ?_ (fun _ => Triple.exit (fun _ _ => trivial))
      exact (learns_of trivial _).conseq (fun _ _ => trivial) (fun _ _ h => h) (fun _ _ h => h)
  | ok calls =>
      exact appends_next (appends_reach _)
        (fun _ => appends_requireStatus _ (.selfTestPassed calls) _)

theorem appends_runHookedSelfTest :
    Appends (runHookedSelfTest env) [.hookedTestPassed (passedCalls env.hookedSelfTest)] := by
  rw [runHookedSelfTest]
  cases env.hookedSelfTest with
  | error e =>
      intro log
      refine Triple.bind (Q := fun _ _ => True) ?_ (fun _ => Triple.exit (fun _ _ => trivial))
      exact (learns_of trivial _).conseq (fun _ _ => trivial) (fun _ _ h => h) (fun _ _ h => h)
  | ok calls =>
      exact appends_next (appends_reach _)
        (fun _ => appends_statusOrAbort _ (.hookedTestPassed calls))

theorem appends_installCodec : Appends (installCodec env) (codecLines env) := by
  refine appends_bind (appends_requireStatus .codecVerified .codecVerified id) (fun _ => ?_)
  refine appends_bind (appends_requireStatus .selfTestStarted .selfTestStarted id) (fun _ => ?_)
  refine appends_bind appends_runSelfTest (fun _ => ?_)
  refine appends_next (appends_hookCodec 0) (fun _ => ?_)
  exact appends_next (appends_hookCodec 1) (fun _ => appends_runHookedSelfTest)

theorem appends_applicationInstall (mode : Mode) : Appends (applicationInstall env mode) [] := by
  refine appends_next (appends_update (fun _ => rfl)) (fun _ => ?_)
  refine appends_next (appends_reach _) (fun _ => appends_loop (fun kind _ => ?_))
  exact appends_next (appends_reach _) (fun _ =>
    fun log => Triple.ite (fun _ => appends_throw _ log) (fun _ => appends_pure _ log))

theorem appends_installApplication :
    Appends (installApplication env config) [.applicationInstalling, .applicationInstalled] := by
  refine appends_bind (appends_requireStatus _ .applicationInstalling id) (fun _ => ?_)
  exact appends_next (appends_applicationInstall _)
    (fun _ => appends_statusOrAbort _ .applicationInstalled)

theorem appends_announceWriter : Appends (announceWriter config) [] := by
  intro log
  refine Triple.read (fun r => ?_)
  cases Serializer.storeMask config.captureOffsets r.serializer.mask with
  | none => exact Triple.exit (fun _ _ => trivial)
  | some mask => exact Triple.update (fun _ hb => hb.2)

end Appends

section Prepare

variable {env : Env} {config : Config}

theorem createLog_log :
    Triple (fun _ => True) (createLog env config)
      (fun _ b => ∃ created, CaptureLog.create env.files config = .ok created
        ∧ b.log = some (([Status.logReady].map LogOp.status).foldl LogOp.perform created.1))
      (fun _ _ => True) := by
  rw [createLog]
  cases CaptureLog.create env.files config with
  | error e => exact Triple.exit (fun _ _ => trivial)
  | ok created =>
      refine Triple.bind (Q := fun r _ => r = created)
        ((succeeds_pass rfl).conseq (fun _ h => h) (fun _ _ h => h) (fun _ _ _ => trivial)) ?_
      intro r
      refine Triple.bind (Q := fun _ b => r = created ∧ b.log = some created.1) ?_ (fun _ => ?_)
      · exact Triple.update (fun b hb => ⟨hb, by rw [hb]⟩)
      · refine Triple.assume (fun _ => ?_)
        refine (appends_requireStatus .logReady .logReady _ created.1).conseq (fun _ h => h)
          (fun _ b hb => ⟨created, rfl, hb⟩) (fun _ _ h => h)

/-- **The log ahead of the writer thread**: the header and the startup lines. -/
theorem prepare_log :
    Triple (fun _ => True) (prepare env config)
      (fun _ b => ∃ created, CaptureLog.create env.files config = .ok created
        ∧ b.log = some (((startupLines env config).map LogOp.status).foldl LogOp.perform
            created.1))
      (fun _ _ => True) := by
  refine Triple.read (fun r => ?_)
  refine Triple.bind (Q := fun _ _ => True) (Triple.update (fun _ _ => trivial)) (fun _ => ?_)
  refine Triple.ite (fun _ => ?_) (fun _ => ?_)
  · exact Triple.bind (Q := fun _ _ => False) (Triple.exit (fun _ _ => trivial))
      (fun _ => ⟨fun _ h => h.elim⟩)
  refine Triple.bind (Q := fun _ _ => True) (learns_of trivial _) (fun addresses => ?_)
  -- the log is there, and what follows only appends
  have hrest : Appends (do
      if config.observeRuleCodec then installCodec env
      if config.observeRuleApplication then installApplication env config
      announceWriter config
      return addresses)
      ((if config.observeRuleCodec then codecLines env else [])
        ++ ((if config.observeRuleApplication then
            [.applicationInstalling, .applicationInstalled] else []) ++ [])) :=
    appends_optional appends_installCodec (appends_optional appends_installApplication
      (appends_next appends_announceWriter (fun _ => appends_pure addresses)))
  refine Triple.bind createLog_log (fun _ => ⟨fun b hb => ?_⟩)
  obtain ⟨created, hcreate, hlog⟩ := hb
  refine ((hrest _).conseq (fun _ h => h) (fun _ b' hb' => ⟨created, hcreate, ?_⟩)
    (fun _ _ h => h)).ends b hlog
  rw [hb', List.append_nil, ← List.foldl_append, ← List.map_append]
  rfl

end Prepare

end TeamAttack.Install

namespace TeamAttack.Recorder

open Runs Hoare RustStr LogReaders ExceptRules Install

/-! ## The readers -/

/-- `read_log` on the file of a session that may have no dump. -/
theorem readLog_session (path : Path) {config : Config} (mask : Mask) {ops : List LogOp}
    (hfine : ∀ field ∈ headerFields config, HeaderField field) (hissued : Issued ops)
    (hsize : (bytes (fileText (headerLines config ++ ops.map (LogOp.line mask)))).length
      ≤ maxLogBytes) :
    readLog path (bytes (fileText (headerLines config ++ ops.map (LogOp.line mask))))
      = if ops.filterMap LogOp.capture? = [] then failed path "no captures".toList
        else .ok ⟨headerFields config, (ops.filterMap LogOp.capture?).map (captureItem mask)⟩ := by
  by_cases hnone : ops.filterMap LogOp.capture? = []
  · have hreads : Reads (readLogLine path) (headerLines config ++ ops.map (LogOp.line mask))
        ⟨[], []⟩ ⟨headerFields config, []⟩ := by
      have hops := readLog_ops path mask hissued (headerFields config)
      rw [hnone] at hops
      exact ((readLog_fields path hfine (headerFields_nodup config)).append
        (readLog_format path _)).append hops
    have hlines := readLines_fileText (fileLines_unbroken mask ops hfine) hreads
    rw [if_pos hnone, readLog, readText_bytes path hsize]
    show (readLines _ _ _ >>= fun _ => _) = _
    rw [hlines]
    rfl
  · rw [if_neg hnone]
    exact readLog_file path mask hfine hissued hnone hsize

/-- The status messages of a session, as its log has them. -/
def sessionStatuses {P : Type} (env : Env) (config : Config) (h : List (Event P)) : List Str :=
  (startupLines env config).map Status.message ++ (statusesOf h).map String.toList

/-- What is recorded in the log of a session: its header, each watch row, each
    dump with its sequence and the configured bytes, each change of the global
    byte, and the status messages. -/
def sessionState {P : Type} (env : Env) (config : Config) (h : List (Event P)) :
    SessionState where
  metadata := headerFields config
  rows := (watchesOf h).map sampleRow
  dumps := (linesOf .compact h).map fun capture =>
    (capture.sequence, shownTokens config.captureOffsets capture)
  transitions := ((watchesOf h).map sampleRow).foldl addTransition []
  status := sessionStatuses env config h

theorem parsed_of_load {file : ConfigFile} {config : Config}
    (hload : Config.load file = .ok (some config)) : ∃ contents, parse contents = .ok config := by
  cases file with
  | notFound => cases hload
  | openError => cases hload
  | readError => cases hload
  | contents text =>
      obtain ⟨config', hparse, heq⟩ := bind_eq_ok.mp hload
      obtain rfl := Option.some.inj (Except.ok.inj heq)
      exact ⟨text, hparse⟩

/-- What `prepare` leaves for the writer thread. -/
theorem prepared_log {env : Env} {config : Config} {contents : Str}
    {addresses : Option (UInt64 × UInt64)} {b : Boot} (hparse : parse contents = .ok config)
    (hprepare : outcome (prepare env config) Boot.start = (.ok addresses, b)) :
    ∃ version, ∃ mask : Mask, validateConfig config version = .ok ()
      ∧ (∀ i : Fin compactBufferLen,
        mask.get i = decide (UInt8.ofNat i.val ∈ config.captureOffsets))
      ∧ b.log = some (((startupLines env config).map LogOp.status).foldl LogOp.perform
        ⟨writeHeader config, mask⟩) := by
  have hlog : Ends _ _ (outcome (prepare env config) Boot.start) :=
    prepare_log.ends Boot.start trivial
  have hreaches : Ends _ _ (outcome (prepare env config) Boot.start) :=
    learns_prepare.ends Boot.start sound_start
  rw [hprepare] at hlog hreaches
  obtain ⟨⟨log, number⟩, hcreate, hlog⟩ := hlog
  obtain ⟨version, -, hvalid⟩ := hreaches.gates .configuration rfl
  obtain ⟨mask, hmask, rfl⟩ := create_log hcreate
  -- the mask the log was opened with selects the configured offsets
  have hlt : ∀ o ∈ config.captureOffsets, o.toNat < compactBufferLen :=
    fun o ho => reviewedOffset_lt ((parse_captureOffsets hparse).2 o ho)
  obtain ⟨mask', hmask', hget⟩ := maskOf_ok hlt
  obtain rfl := Except.ok.inj (hmask'.symm.trans hmask)
  exact ⟨version, mask', hvalid, hget, hlog⟩

/-- The file of a session: its header, then a line for each write. -/
structure SessionFile {P : Type} (env : Env) (config : Config) (h : List (Event P))
    (log : CaptureLog) (mask : Mask) (ops : List LogOp) : Prop where
  fine : ∀ field ∈ headerFields config, HeaderField field
  selected : ∀ i : Fin compactBufferLen, mask.get i
    = decide (UInt8.ofNat i.val ∈ config.captureOffsets)
  offsets_ne : config.captureOffsets ≠ []
  offsets_lt : ∀ o ∈ config.captureOffsets, o.toNat < compactBufferLen
  issued : Issued ops
  written : log.written = fileText (headerLines config ++ ops.map (LogOp.line mask))
  captures : ops.filterMap LogOp.capture? = linesOf .compact h
  samples : ops.filterMap LogOp.sample? = watchesOf h
  messages : ops.filterMap LogOp.message? = sessionStatuses env config h

/-- Whatever is done from where `prepare` ended, the file is that of a session. -/
theorem session_file {env : Env} {config : Config} {addresses : Option (UInt64 × UInt64)}
    {b : Boot} (hload : Config.load env.configFile = .ok (some config))
    (hprepare : outcome (prepare env config) Boot.start = (.ok addresses, b)) :
    ∃ log, b.log = some log ∧ ∀ (P : Type) [DecidableEq P] (source : P → Source)
      (h : List (Event P)) (x : Recording P),
      Run (Recording.Step source config env.startTick) (.start P log env.startTick) h x →
      x.recorder.counters (.calls .serializer) < 2 ^ 64 →
      ∃ mask ops, SessionFile env config h x.log mask ops := by
  obtain ⟨contents, hparse⟩ := parsed_of_load hload
  obtain ⟨version, mask, hvalid, hmask, hlog⟩ := prepared_log hparse hprepare
  refine ⟨_, hlog, fun P _ source h x hrun hcalls => ?_⟩
  obtain ⟨ops, hlogged⟩ := logged_run hrun
  -- the file is one list of writes, behind its header
  have hfile : x.log = (((startupLines env config).map LogOp.status ++ ops).foldl LogOp.perform
      ⟨writeHeader config, mask⟩) := by
    rw [hlogged.log, List.foldl_append]
  refine ⟨mask, (startupLines env config).map LogOp.status ++ ops,
    headerFields_fine hparse hvalid, hmask, (validConfig_of_ok hvalid).offsets_ne,
    fun o ho => reviewedOffset_lt ((parse_captureOffsets hparse).2 o ho),
    issued_after_statuses (issued_run hrun hcalls hlogged) (startupLines env config), ?_, ?_, ?_, ?_⟩
  · rw [hfile, written_lines]
  · rw [List.filterMap_append, hlogged.captures, statuses_captures, List.nil_append]
  · rw [List.filterMap_append, hlogged.samples, statuses_samples, List.nil_append]
  · rw [List.filterMap_append, hlogged.messages, statuses_messages, sessionStatuses]

section SessionFile

variable {P : Type} {env : Env} {config : Config} {h : List (Event P)} {log : CaptureLog}
  {mask : Mask} {ops : List LogOp}

/-- `read_log` on the file of a session. -/
theorem SessionFile.readLog (hfile : SessionFile env config h log mask ops) (path : Path)
    (hsize : (bytes log.written).length ≤ maxLogBytes) :
    LogReaders.readLog path (bytes log.written)
      = if linesOf .compact h = [] then failed path "no captures".toList
        else .ok
          { metadata := headerFields config
            captures := (linesOf .compact h).map fun capture =>
              (capture.sequence, shownBytes config.captureOffsets capture) } := by
  have hwritten := hfile.written
  rw [hwritten] at hsize ⊢
  rw [readLog_session path mask hfile.fine hfile.issued hsize, hfile.captures]
  refine congrArg (fun captures => if linesOf .compact h = [] then _
    else Except.ok (LogContents.mk (headerFields config) captures)) ?_
  exact List.map_congr_left fun capture _ => captureItem_eq hfile.selected capture

/-- The lines of a session, through `read_session`. -/
theorem SessionFile.readLines (hfile : SessionFile env config h log mask ops) (path : Path) :
    LogReaders.readLines (readSessionLine path) ⟨[], [], [], [], []⟩ log.written
      = .ok (sessionState env config h) := by
  rw [hfile.written, readSessionLines_file path mask hfile.fine hfile.issued, hfile.captures,
    hfile.samples, hfile.messages]
  refine congrArg (fun dumps => Except.ok (SessionState.mk _ _ dumps _ _)) ?_
  exact List.map_congr_left fun capture _ => dumpItem_eq hfile.selected capture

/-- `read_session` on the file of a session. -/
theorem SessionFile.readSession (hfile : SessionFile env config h log mask ops) (path : Path)
    (hsize : (bytes log.written).length ≤ maxLogBytes) :
    LogReaders.readSession path (bytes log.written)
      = .ok ((sessionState env config h).session path) :=
  readSession_of_lines path (hfile.readLines path) rfl hsize

end SessionFile

/-- **What is recorded is read back.**  Let `prepare` have ended for the
    configuration `main` loaded.  Then there is a log, and for whatever the
    callbacks and the writer thread do from there, in any order: if the file
    is not too long, `read_log` accepts it exactly when a dump was written,
    with the shown bytes of each, and `read_session` collects from its lines
    the header, the watch rows, the dumps and the status lines of the run, no
    more and no less, and returns their session. -/
theorem recording_read_back (env : Env) (config : Config) (addresses : Option (UInt64 × UInt64))
    (b : Boot) (hload : Config.load env.configFile = .ok (some config))
    (hprepare : outcome (prepare env config) Boot.start = (.ok addresses, b)) :
    ∃ log, b.log = some log ∧ ∀ (path : Path) (P : Type) [DecidableEq P] (source : P → Source)
      (h : List (Event P)) (x : Recording P),
      Run (Recording.Step source config env.startTick) (.start P log env.startTick) h x →
      x.recorder.counters (.calls .serializer) < 2 ^ 64 →
      (bytes x.log.written).length ≤ maxLogBytes →
      readLog path (bytes x.log.written)
          = (if linesOf .compact h = [] then failed path "no captures".toList
            else .ok
              { metadata := headerFields config
                captures := (linesOf .compact h).map fun capture =>
                  (capture.sequence, shownBytes config.captureOffsets capture) })
        ∧ readLines (readSessionLine path) ⟨[], [], [], [], []⟩ x.log.written
          = .ok (sessionState env config h)
        ∧ readSession path (bytes x.log.written)
          = .ok ((sessionState env config h).session path) := by
  obtain ⟨log, hlog, hfiles⟩ := session_file hload hprepare
  refine ⟨log, hlog, fun path P _ source h x hrun hcalls hsize => ?_⟩
  obtain ⟨mask, ops, hfile⟩ := hfiles P source h x hrun hcalls
  exact ⟨hfile.readLog path hsize, hfile.readLines path, hfile.readSession path hsize⟩

/-! ## The scene of a session with three dumps and a row -/

/-- The file `watchConfig` is read from. -/
def watchContents : Str :=
  "enabled = true\n".toList ++ "mode = \"observe\"\n".toList
    ++ "evidence_reviewed = true\n".toList ++ "offline_test_acknowledged = true\n".toList
    ++ "reviewed_abi = \"void_u8_ptr_v1\"\n".toList ++ "reviewed_buffer_len = 0x69\n".toList
    ++ "capture_offsets = \"11\"\n".toList ++ "poll_global_team_attack = true\n".toList
    ++ "serializer_text_offset = 0x16e2c50\n".toList
    ++ "expected_prologue = \"".toList ++ signatureText scenePrologue ++ "\"\n".toList
    ++ "caller_text_offset = 0x1600000\n".toList
    ++ "expected_callsite = \"".toList ++ signatureText sceneCallsite ++ "\"\n".toList

def watchConfig : Config :=
  { sceneConfig with mode := .observe, observeRuleCodec := false, observeRuleApplication := false }

def watchEnv : Env := { sceneEnv with configFile := .contents watchContents }

theorem watch_loads : Config.load watchEnv.configFile = .ok (some watchConfig) := by
  have hparse : parse watchContents = .ok watchConfig := by decide +kernel
  show (parse watchContents >>= fun config => pure (some config)) = _
  rw [hparse]
  rfl

theorem watched_lt_compact : 0x11 < compactBufferLen := by decide

/-- The bytes its dumps show. -/
def watchMask : Mask := (Vector.replicate compactBufferLen false).set 0x11 true watched_lt_compact

theorem watch_creates :
    CaptureLog.create watchEnv.files watchConfig = .ok (⟨writeHeader watchConfig, watchMask⟩, 0) := by
  rw [CaptureLog.create, show (10000 : Nat) = 9999 + 1 from rfl, List.range_succ_eq_map]
  rfl

/-- The session that only polls passes the gates it calls for. -/
theorem watch_reaches : ReachesSpawn watchEnv watchConfig where
  gates := fun g hg => by
    cases g with
    | configuration => exact ⟨supportedGameVersion, by decide, by decide⟩
    | captureLog => exact ⟨_, watch_creates⟩
    | region => exact scene_reaches.gates .region rfl
    | signatures => exact scene_reaches.gates .signatures rfl
    | watchSource => exact scene_reaches.gates .watchSource rfl
    | globalMapping => exact scene_reaches.gates .globalMapping rfl
    | guardMapping => exact scene_reaches.gates .guardMapping rfl
    | applicationBodies | receiveTable | modeMapping | codecBodies | selfTest | hookedSelfTest =>
        cases hg
  statuses := fun _ _ => rfl
  trampolines := fun h => by cases h
  sites := fun h => by cases h

def watchLog : CaptureLog := ((startupLines watchEnv watchConfig).map LogOp.status).foldl
  LogOp.perform ⟨writeHeader watchConfig, watchMask⟩

/-- The log a prepared session starts with. -/
theorem prepared_created {env : Env} {config : Config} {addresses : Option (UInt64 × UInt64)}
    {b : Boot} {created : CaptureLog × Nat}
    (hprepare : outcome (prepare env config) Boot.start = (.ok addresses, b))
    (hcreate : CaptureLog.create env.files config = .ok created) :
    b.log = some (((startupLines env config).map LogOp.status).foldl LogOp.perform created.1) := by
  have hlog : Ends _ _ (outcome (prepare env config) Boot.start) :=
    prepare_log.ends Boot.start trivial
  rw [hprepare] at hlog
  obtain ⟨created', hcreate', hlog⟩ := hlog
  obtain rfl := Except.ok.inj (hcreate'.symm.trans hcreate)
  exact hlog

theorem watch_prepares : ∃ addresses b,
    outcome (prepare watchEnv watchConfig) Boot.start = (.ok addresses, b)
      ∧ b.log = some watchLog := by
  obtain ⟨addresses, b, hprepare, -⟩ :=
    (reaches_prepare watch_reaches).reaches (s := Boot.start) rfl
  exact ⟨addresses, b, hprepare, prepared_created hprepare watch_creates⟩

/-- The settings the three dumps are taken under. -/
inductive Setting where
  | off
  | on
  | returnOff
  deriving DecidableEq

/-- A call of the serializer with this byte 0x11. -/
def dumpSupply (byte : UInt8) : Supplied where
  mode := 0
  captures := true
  spurious := false
  observation := ⟨0, 0, 0, 0, 0, 0⟩
  event := ⟨0, 0, 0, 0, false, 0, 0, 0, 0, 0, 0, 0, 0⟩
  buffer := (Vector.replicate compactBufferLen 0).set 0x11 byte watched_lt_compact

/-- `n` steps of a call; it returns with the seventh. -/
def dumpCall (p : Setting) (byte : UInt8) (n : Nat) : List (Move Setting) :=
  List.replicate n (.call p (dumpSupply byte))

/-- `n` steps of the writer, 250 milliseconds on and the global set. -/
def watchSteps (n : Nat) : List (Move Setting) :=
  List.replicate n (.write { tick := 250 * 19200, hooked := true, guard := 1, global := 1 })

/-- The calls go on inside one another while the writer wakes, and all have
    returned when it looks for captures. -/
def sessionMoves : List (Move Setting) :=
  dumpCall .off 0 4 ++ watchSteps 2 ++ dumpCall .on 1 5 ++ dumpCall .returnOff 0 7
    ++ dumpCall .off 0 3 ++ watchSteps 1 ++ dumpCall .on 1 2
    ++ watchSteps (captureCapacity + 6)

def dumpCaptures : List Capture :=
  [⟨0, (dumpSupply 0).buffer⟩, ⟨1, (dumpSupply 1).buffer⟩, ⟨2, (dumpSupply 0).buffer⟩]

/-- Three dumps and a row are written. -/
theorem session_scene : ∃ h x,
    exec (Recording.advance (fun _ : Setting => Source.serializer) watchConfig 0)
        (.start Setting watchLog 0) sessionMoves = some (h, x)
      ∧ (bytes x.log.written).length ≤ maxLogBytes
      ∧ x.recorder.counters (.calls .serializer) < 2 ^ 64
      ∧ linesOf .compact h = dumpCaptures
      ∧ watchesOf h = [(250, ⟨true, some 1, 3, 3⟩)] ∧ statusesOf h = ["hook_installed"] := by
  have hexec : (exec (Recording.advance (fun _ : Setting => Source.serializer) watchConfig 0)
      (.start Setting watchLog 0) sessionMoves).any (fun x =>
        decide ((bytes x.2.log.written).length ≤ maxLogBytes
          ∧ x.2.recorder.counters (.calls .serializer) < 2 ^ 64
          ∧ linesOf .compact x.1 = dumpCaptures
          ∧ watchesOf x.1 = [(250, ⟨true, some 1, 3, 3⟩)]
          ∧ statusesOf x.1 = ["hook_installed"])) = true := by
    decide +kernel
  obtain ⟨⟨h, x⟩, hmoves, hx⟩ := (Option.any_eq_true ..).mp hexec
  exact ⟨h, x, hmoves, of_decide_eq_true hx⟩

/-- The row, the dumps and the statuses are read back. -/
theorem recording_read_back_scene : ∃ (log : CaptureLog) (state : SessionState),
    readLines (readSessionLine ⟨[], []⟩) ⟨[], [], [], [], []⟩ log.written = .ok state
      ∧ readSession ⟨[], []⟩ (bytes log.written) = .ok (state.session ⟨[], []⟩)
      ∧ state.rows = [⟨250, true, some 1, 3, 3⟩] ∧ state.dumps.map Prod.fst = [0, 1, 2]
      ∧ state.status = ["log_ready_before_hook".toList, "hook_installed".toList]
      ∧ readLog ⟨[], []⟩ (bytes log.written) = .ok ⟨headerFields watchConfig,
        dumpCaptures.map fun capture => (capture.sequence, shownBytes [0x11] capture)⟩ := by
  obtain ⟨addresses, b, hprepare, hlog⟩ := watch_prepares
  obtain ⟨log, hlog', hread⟩ :=
    recording_read_back watchEnv watchConfig addresses b watch_loads hprepare
  obtain rfl := Option.some.inj (hlog'.symm.trans hlog)
  obtain ⟨h, x, hexec, hsize, hcalls, hlines, hwatches, hstatuses⟩ := session_scene
  obtain ⟨hcaptures, hstate, hsession⟩ :=
    hread ⟨[], []⟩ Setting _ h x (run_of_exec hexec) hcalls hsize
  refine ⟨x.log, _, hstate, hsession, ?_, ?_, ?_, ?_⟩
  · show (watchesOf h).map sampleRow = _
    rw [hwatches]
    rfl
  · show ((linesOf .compact h).map _).map Prod.fst = _
    rw [hlines]
    rfl
  · show _ ++ (statusesOf h).map String.toList = _
    rw [hstatuses]
    rfl
  · rw [hcaptures, hlines]
    exact if_neg (List.cons_ne_nil _ _)

end TeamAttack.Recorder
