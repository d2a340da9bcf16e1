import TeamAttack.CaptureLog

/-! # Opening a log in its directory (`capture_log.rs`)

    The capture directory as a map from names to contents, with the exclusive
    creation of the console: one call that either adds a name or reports why
    it did not, and never touches a name that is there.  `create` goes through
    the session names in order and stops at the first one it can add. -/

namespace TeamAttack.LogDirectory

open RustStr

/-- The capture directory: the contents of the names that exist. -/
abbrev Directory := Str → Option Str

/-- A result of `CreateFile` other than success and "exists already". -/
structure NativeFault where
  code : UInt32
  failed : code ≠ 0
  otherwise : code ≠ 0x402

/-- The answers of the file system that the directory does not decide: by
    name, the fault of an exclusive creation; the outcomes of the other calls;
    how much of the header a failing write leaves behind; and the text of a
    raw code. -/
structure Io where
  osText : UInt32 → Str
  createDirAll : Except IoError Unit
  fault : Str → Option NativeFault
  openFile : Except IoError Unit
  writeHeader : Except IoError Unit
  flush : Except IoError Unit
  syncAll : Except IoError Unit
  partialText : Str

/-- `format!("capture-{session:04}.log")`. -/
def sessionName (session : Nat) : Str :=
  "capture-".toList ++ decimalPadded 4 session ++ ".log".toList

/-- `nn::fs::CreateFile`: atomic and exclusive. -/
def createFile (io : Io) (d : Directory) (name : Str) : UInt32 × Directory :=
  match io.fault name with
  | some fault => (fault.code, d)
  | none =>
      if (d name).isSome then (0x402, d) else (0, Function.update d name (some []))

/-- `create_capture_file`. -/
def createCaptureFile (io : Io) (d : Directory) (name : Str) : Except IoError Unit × Directory :=
  let (result, d) := createFile io d name
  match checkCreateResult io.osText result with
  | .ok () => (io.openFile, d)
  | .error e => (.error e, d)

/-- What `create` does with a file it has opened: the header, its way to the
    card, and the mask. -/
def startLog (io : Io) (config : Config) (name : Str) (d : Directory) :
    Except IoError (CaptureLog × Str) × Directory :=
  match io.writeHeader with
  | .error e => (.error e, Function.update d name (some io.partialText))
  | .ok () => match io.flush with
    | .error e => (.error e, Function.update d name (some io.partialText))
    | .ok () =>
        let d := Function.update d name (some (TeamAttack.writeHeader config))
        match io.syncAll with
        | .error e => (.error e, d)
        | .ok () => match maskOf config.captureOffsets with
          | .error e => (.error e, d)
          | .ok mask => (.ok (⟨TeamAttack.writeHeader config, mask⟩, name), d)

/-- The loop of `create` over the sessions. -/
def createFrom (io : Io) (config : Config) :
    List Nat → Directory → Except IoError (CaptureLog × Str) × Directory
  | [], d =>
      (.error ⟨.alreadyExists,
        "capture directory has 10,000 sessions; archive them first".toList⟩, d)
  | session :: rest, d =>
      match createCaptureFile io d (sessionName session) with
      | (.ok (), d) => startLog io config (sessionName session) d
      | (.error e, d) =>
          if e.kind = .alreadyExists then createFrom io config rest d else (.error e, d)

/-- `CaptureLog::create` on a directory. -/
def create (io : Io) (config : Config) (d : Directory) :
    Except IoError (CaptureLog × Str) × Directory :=
  match io.createDirAll with
  | .error e => (.error e, d)
  | .ok () => createFrom io config (List.range 10000) d

/-! ## One exclusive creation -/

theorem createCaptureFile_exists {io : Io} {d : Directory} {name : Str}
    (hfault : io.fault name = none) (hexists : (d name).isSome = true) :
    createCaptureFile io d name
      = (.error ⟨.alreadyExists, "capture already exists".toList⟩, d) := by
  unfold createCaptureFile createFile
  rw [hfault]
  dsimp only
  rw [if_pos hexists]
  rfl

theorem createCaptureFile_absent {io : Io} {d : Directory} {name : Str}
    (hfault : io.fault name = none) (habsent : d name = none) :
    createCaptureFile io d name = (io.openFile, Function.update d name (some [])) := by
  unfold createCaptureFile createFile
  rw [hfault, habsent]
  rfl

/-- The error of a native fault. -/
def NativeFault.error (osText : UInt32 → Str) (fault : NativeFault) : IoError :=
  if fault.code = 0x202 then ⟨.notFound, "capture directory not found".toList⟩
  else ⟨.raw fault.code, osText fault.code⟩

theorem NativeFault.checked (osText : UInt32 → Str) (fault : NativeFault) :
    checkCreateResult osText fault.code = .error (fault.error osText) := by
  rw [checkCreateResult, if_neg fault.failed, if_neg fault.otherwise, NativeFault.error]
  split_ifs
  · rfl
  · rfl

theorem NativeFault.kind_ne (osText : UInt32 → Str) (fault : NativeFault) :
    (fault.error osText).kind ≠ .alreadyExists := by
  unfold NativeFault.error
  split_ifs
  · exact nofun
  · exact nofun

theorem createCaptureFile_fault {io : Io} {name : Str} {fault : NativeFault}
    (h : io.fault name = some fault) (d : Directory) :
    createCaptureFile io d name = (.error (fault.error io.osText), d) := by
  unfold createCaptureFile createFile
  rw [h]
  dsimp only
  rw [fault.checked io.osText]

/-! ## The search -/

/-- A name that is there and creates no fault. -/
def Taken (io : Io) (d : Directory) (session : Nat) : Prop :=
  io.fault (sessionName session) = none ∧ (d (sessionName session)).isSome = true

/-- Taken names are passed over, and nothing changes. -/
theorem createFrom_skip {io : Io} (config : Config) {d : Directory} {taken : List Nat}
    (h : ∀ session ∈ taken, Taken io d session) (rest : List Nat) :
    createFrom io config (taken ++ rest) d = createFrom io config rest d := by
  induction taken with
  | nil => rfl
  | cons session taken ih =>
      rw [List.forall_mem_cons] at h
      obtain ⟨hfault, hexists⟩ := h.1
      rw [List.cons_append, createFrom, createCaptureFile_exists hfault hexists]
      dsimp only
      rw [if_pos rfl, ih h.2]

theorem range_split {n : Nat} (h : n < 10000) :
    List.range 10000 = List.range n ++ n :: List.range' (n + 1) (10000 - n - 1) := by
  have hsplit : List.range 10000 = List.range' 0 n ++ List.range' (0 + n) (10000 - n) := by
    rw [List.range'_append_1, Nat.add_sub_of_le h.le, List.range_eq_range']
  rw [hsplit, List.range_eq_range', Nat.zero_add,
    show 10000 - n = 10000 - n - 1 + 1 by omega, List.range'_succ]
  rfl

/-- The search comes to the first session that is not taken. -/
theorem create_reaches {io : Io} (config : Config) {d : Directory} {n : Nat} (hn : n < 10000)
    (hdir : io.createDirAll = .ok ()) (htaken : ∀ m < n, Taken io d m) :
    ∃ rest, create io config d = createFrom io config (n :: rest) d := by
  refine ⟨List.range' (n + 1) (10000 - n - 1), ?_⟩
  unfold create
  rw [hdir]
  dsimp only
  rw [range_split hn, createFrom_skip]
  intro m hm
  exact htaken m (List.mem_range.mp hm)

/-- All calls that the directory does not decide succeed. -/
structure Succeeds (io : Io) : Prop where
  createDirAll : io.createDirAll = .ok ()
  fault : ∀ name, io.fault name = none
  openFile : io.openFile = .ok ()
  writeHeader : io.writeHeader = .ok ()
  flush : io.flush = .ok ()
  syncAll : io.syncAll = .ok ()

theorem startLog_ok {io : Io} (h : Succeeds io) {config : Config} {mask : Mask}
    (hmask : maskOf config.captureOffsets = .ok mask) (name : Str) (d : Directory) :
    startLog io config name d = (.ok (⟨TeamAttack.writeHeader config, mask⟩, name),
      Function.update d name (some (TeamAttack.writeHeader config))) := by
  unfold startLog
  rw [h.writeHeader]
  dsimp only
  rw [h.flush]
  dsimp only
  rw [h.syncAll]
  dsimp only
  rw [hmask]

/-- The first absent name is opened. -/
theorem create_first_absent {io : Io} (h : Succeeds io) {config : Config} {mask : Mask}
    (hmask : maskOf config.captureOffsets = .ok mask) {d : Directory} {n : Nat} (hn : n < 10000)
    (habsent : d (sessionName n) = none) (hbefore : ∀ m < n, (d (sessionName m)).isSome = true) :
    create io config d = (.ok (⟨TeamAttack.writeHeader config, mask⟩, sessionName n),
      Function.update d (sessionName n) (some (TeamAttack.writeHeader config))) := by
  obtain ⟨rest, hreach⟩ := create_reaches config hn h.createDirAll
    (fun m hm => ⟨h.fault _, hbefore m hm⟩)
  rw [hreach, createFrom, createCaptureFile_absent (h.fault _) habsent, h.openFile]
  dsimp only
  rw [startLog_ok h hmask, Function.update_idem]

/-! ## The log behind the file -/

/-- The outcomes of the calls of `create`, as a directory decides them. -/
def Io.outcomes (io : Io) (d : Directory) : FileOutcomes where
  createDirAll := io.createDirAll
  createNew := fun session => (createCaptureFile io d (sessionName session)).1
  writeHeader := io.writeHeader
  flush := io.flush
  syncAll := io.syncAll

/-- The log `create` opens in a directory is the one it opens on the outcomes
    the directory decides. -/
theorem create_outcomes {io : Io} (hopen : io.openFile = .ok ()) (config : Config) (d : Directory) :
    (create io config d).1
      = (CaptureLog.create (io.outcomes d) config).map (fun r => (r.1, sessionName r.2)) := by
  have hfrom : ∀ sessions, (createFrom io config sessions d).1
      = (CaptureLog.createFrom (io.outcomes d) config sessions).map
        (fun r => (r.1, sessionName r.2)) := by
    intro sessions
    induction sessions with
    | nil => rfl
    | cons session rest ih =>
        have hnew : (io.outcomes d).createNew session
            = (createCaptureFile io d (sessionName session)).1 := rfl
        rw [createFrom, CaptureLog.createFrom, hnew]
        cases hfault : io.fault (sessionName session) with
        | some fault =>
            rw [createCaptureFile_fault hfault]
            dsimp only
            rw [if_neg (fault.kind_ne io.osText), if_neg (fault.kind_ne io.osText)]
            rfl
        | none =>
            cases hname : d (sessionName session) with
            | some text =>
                rw [createCaptureFile_exists hfault (by rw [hname]; rfl)]
                dsimp only
                rw [if_pos rfl, if_pos rfl, ih]
            | none =>
                rw [createCaptureFile_absent hfault hname, hopen]
                dsimp only
                unfold startLog Io.outcomes
                cases io.writeHeader with
                | error e => rfl
                | ok _ => cases io.flush with
                  | error e => rfl
                  | ok _ => cases io.syncAll with
                    | error e => rfl
                    | ok _ => cases hmask : maskOf config.captureOffsets with
                      | error e => rfl
                      | ok mask => rfl
  unfold create CaptureLog.create
  -- the list of sessions is not to be unfolded
  generalize List.range 10000 = sessions
  rw [show (io.outcomes d).createDirAll = io.createDirAll from rfl]
  cases io.createDirAll with
  | error e => rfl
  | ok _ => exact hfrom sessions

/-! ## Nothing that is there is touched -/

/-- What `before` holds is there unchanged. -/
def Spares (before after : Directory) : Prop :=
  ∀ name, (before name).isSome = true → after name = before name

theorem Spares.added {before d : Directory} (h : Spares before d) {name : Str}
    (habsent : before name = none) (text : Str) :
    Spares before (Function.update d name (some text)) := by
  intro other hother
  have hne : other ≠ name := by
    rintro rfl
    rw [habsent] at hother
    cases hother
  rw [Function.update_of_ne hne]
  exact h other hother

theorem createCaptureFile_spares (io : Io) {before d : Directory} (h : Spares before d)
    (name : Str) : Spares before (createCaptureFile io d name).2
      ∧ ((createCaptureFile io d name).1 = .ok () → before name = none) := by
  cases hfault : io.fault name with
  | some fault =>
      rw [createCaptureFile_fault hfault]
      exact ⟨h, nofun⟩
  | none =>
      cases hname : d name with
      | some text =>
          rw [createCaptureFile_exists hfault (by rw [hname]; rfl)]
          exact ⟨h, nofun⟩
      | none =>
          have habsent : before name = none := by
            rw [← Option.not_isSome_iff_eq_none]
            intro hsome
            rw [h name hsome] at hname
            rw [hname] at hsome
            cases hsome
          rw [createCaptureFile_absent hfault hname]
          exact ⟨h.added habsent [], fun _ => habsent⟩

theorem startLog_spares {io : Io} {config : Config} {before d : Directory} (h : Spares before d)
    {name : Str} (habsent : before name = none) : Spares before (startLog io config name d).2 := by
  unfold startLog
  split
  · exact h.added habsent _
  · split
    · exact h.added habsent _
    · dsimp only
      split
      · exact h.added habsent _
      · split
        · exact h.added habsent _
        · exact h.added habsent _

theorem createFrom_spares {io : Io} {config : Config} {before : Directory} (sessions : List Nat) :
    ∀ d, Spares before d → Spares before (createFrom io config sessions d).2 := by
  induction sessions with
  | nil =>
      intro d h
      exact h
  | cons session rest ih =>
      intro d h
      obtain ⟨hspares, hfresh⟩ := createCaptureFile_spares io h (sessionName session)
      rw [createFrom]
      generalize createCaptureFile io d (sessionName session) = created at hspares hfresh
      obtain ⟨result, d'⟩ := created
      cases result with
      | ok _ => exact startLog_spares hspares (hfresh rfl)
      | error e =>
          dsimp only
          split_ifs
          · exact ih d' hspares
          · exact hspares

/-- **Opening a log never touches an earlier session.** -/
theorem opening_spares_sessions (config : Config)
    (hoffsets : ∀ o ∈ config.captureOffsets, o.toNat < 0x69) (d : Directory) :
    (∀ io, Succeeds io → ∀ n < 10000, d (sessionName n) = none →
        (∀ m < n, (d (sessionName m)).isSome = true) →
        ∃ mask : Mask, create io config d = (.ok (⟨writeHeader config, mask⟩, sessionName n),
            Function.update d (sessionName n) (some (writeHeader config)))
          ∧ ∀ i : Fin compactBufferLen,
            mask.get i = decide (UInt8.ofNat i.val ∈ config.captureOffsets))
      ∧ (∀ io, Succeeds io → (∀ m < 10000, (d (sessionName m)).isSome = true) →
        create io config d = (.error ⟨.alreadyExists,
          "capture directory has 10,000 sessions; archive them first".toList⟩, d))
      ∧ (∀ (io : Io) (n : Nat) (fault : NativeFault), io.createDirAll = .ok () → n < 10000 →
        (∀ m < n, Taken io d m) → io.fault (sessionName n) = some fault →
        ∃ e, checkCreateResult io.osText fault.code = .error e ∧ e.kind ≠ .alreadyExists
          ∧ create io config d = (.error e, d))
      ∧ ∀ io : Io, Spares d (create io config d).2 := by
  obtain ⟨mask, hmask, hget⟩ := maskOf_ok hoffsets
  refine ⟨?_, ?_, ?_, ?_⟩
  · intro io hio n hn habsent hbefore
    exact ⟨mask, create_first_absent hio hmask hn habsent hbefore, hget⟩
  · intro io hio hall
    -- every name is taken, so the loop runs out
    have htaken : ∀ m ∈ List.range 10000, Taken io d m :=
      fun m hm => ⟨hio.fault _, hall m (List.mem_range.mp hm)⟩
    have hskip := createFrom_skip config htaken []
    rw [List.append_nil] at hskip
    unfold create
    rw [hio.createDirAll]
    dsimp only
    rw [hskip]
    rfl
  · intro io n fault hdir hn htaken hfault
    -- the loop reaches name `n` with the directory untouched
    obtain ⟨rest, hreach⟩ := create_reaches config hn hdir htaken
    refine ⟨fault.error io.osText, fault.checked io.osText, fault.kind_ne io.osText, ?_⟩
    rw [hreach, createFrom, createCaptureFile_fault hfault]
    dsimp only
    rw [if_neg (fault.kind_ne io.osText)]
  · intro io
    have hself : Spares d d := fun _ _ => rfl
    unfold create
    split
    · exact hself
    · exact createFrom_spares _ d hself

/-- A directory that holds the first session only. -/
def oneSession : Directory := Function.update (fun _ => none) (sessionName 0) (some ['x'])

/-- A file system on which everything else succeeds. -/
def plainIo : Io where
  osText := fun _ => []
  createDirAll := .ok ()
  fault := fun _ => none
  openFile := .ok ()
  writeHeader := .ok ()
  flush := .ok ()
  syncAll := .ok ()
  partialText := []

/-- The second session is opened beside the first. -/
theorem opening_spares_first_session :
    (create plainIo Config.default oneSession).2 (sessionName 1) = some (writeHeader Config.default)
      ∧ (create plainIo Config.default oneSession).2 (sessionName 0) = some ['x'] := by
  have hplain : Succeeds plainIo := ⟨rfl, fun _ => rfl, rfl, rfl, rfl, rfl⟩
  obtain ⟨hfirst, _, _, hspares⟩ := opening_spares_sessions Config.default
    (fun o ho => absurd ho List.not_mem_nil) oneSession
  have hzero : oneSession (sessionName 0) = some ['x'] := Function.update_self ..
  have hbefore : ∀ m < 1, (oneSession (sessionName m)).isSome = true := by
    intro m hm
    obtain rfl : m = 0 := by omega
    rw [hzero]
    rfl
  have hne : sessionName 1 ≠ sessionName 0 := by
    rw [show sessionName 1 = "capture-0001.log".toList from rfl,
      show sessionName 0 = "capture-0000.log".toList from rfl]
    decide
  have habsent : oneSession (sessionName 1) = none := Function.update_of_ne hne _ _
  obtain ⟨mask, hcreate, _⟩ := hfirst plainIo hplain 1 (by decide) habsent hbefore
  constructor
  · rw [hcreate]
    exact Function.update_self (sessionName 1) _ oneSession
  · rw [hspares plainIo (sessionName 0) (by rw [hzero]; rfl), hzero]

end TeamAttack.LogDirectory
