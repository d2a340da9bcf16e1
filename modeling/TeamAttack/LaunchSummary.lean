import TeamAttack.CompareDumps
import TeamAttack.SessionPolls
import TeamAttack.Library.PySet

/-! # Three launches side by side (`summarize_offline_batch.py`)

    `summarize` reads three launch logs and refuses them unless their headers
    agree on the context of the observation.  Of three recorded sessions the
    headers agree exactly when the configurations do on where the code lies,
    on its signatures and on polling; and then the summary tells the polls of
    each launch under its label (`summary_of_launches`). -/

namespace TeamAttack.LogReaders

open RustStr ExceptRules

/-- `CONTEXT`. -/
def contextKeys : List String :=
  ["observer_version", "game_version", "serializer_text_offset", "caller_text_offset",
    "entry_signature", "caller_signature", "poll_global_team_attack", "global_text_offset",
    "global_init_guard_text_offset"]

/-- `tuple(metadata.get(k) for k in keys)`. -/
def valuesAt (keys : List String) (metadata : List Field) : List (Option Str) :=
  keys.map fun key => metadata.lookup key.toList

/-- A launch log: its path, what the path resolves to, and its bytes. -/
structure LaunchFile where
  path : Path
  resolved : Str
  data : List UInt8

/-- What `summarize` returns: the sessions under the conditions their operator
    reported. -/
structure Summary where
  sessions : List (Str × Session)
  interpretation : Str

def interpretation : Str :=
  ("Conditions are operator-reported. Global snapshots do not identify menu/match phases, "
    ++ "effective battle rules, or Quickplay acceptance. Zero serializer dumps is distinct from "
    ++ "zero global observations.").toList

/-- The labels of the launches, in order. -/
def conditions : List Str := ["OFF".toList, "ON".toList, "RETURN_OFF".toList]

/-- `summarize`. -/
def summarize (paths : List LaunchFile) : Read Summary := do
  if paths.length ≠ 3 || (PySet.ofItems (paths.map LaunchFile.resolved)).length ≠ 3 then
    refused "require three distinct launch logs in Off, On, Return-Off order".toList
  let sessions ← paths.mapM fun p => readSession p.path p.data
  let contexts := sessions.map fun s => valuesAt contextKeys s.metadata
  if contexts.tail.any (fun context => some context ≠ contexts.head?) then
    refused "observer/code/global contexts differ; these launches are not comparable".toList
  return ⟨conditions.zip sessions, interpretation⟩

end TeamAttack.LogReaders

namespace TeamAttack

open RustStr LogReaders Recorder

/-! ## Headers that agree -/

theorem hexLower_injective {a b : Nat} (h : hexLower a = hexLower b) : a = b := by
  have hdigits : Nat.toDigits 16 a = Nat.toDigits 16 b := (List.cons.inj (List.cons.inj h).2).2
  rw [← (HexText.upperDigits a).2, hdigits, (HexText.upperDigits b).2]

theorem signatureText_injective {a b : List UInt8} (h : signatureText a = signatureText b) :
    a = b := by
  have hdecoded := signature_decoded a 0
  rw [h, signature_decoded b 0] at hdecoded
  exact (Except.ok.inj hdecoded).symm

theorem showBool_injective {a b : Bool} (h : showBool a = showBool b) : a = b := by
  revert a b
  decide

theorem header_lookup_none {config : Config} {key : String}
    (h : key ∉ (headerKeys config).map Prod.fst) :
    (headerFields config).lookup key.toList = none := by
  rw [List.lookup_eq_none_iff]
  intro field hfield
  obtain ⟨entry, hentry, rfl⟩ := List.mem_map.mp hfield
  rw [bne_iff_ne]
  intro heq
  rw [String.toList_injective heq] at h
  exact h (List.mem_map_of_mem hentry)

/-- The configurations agree on the code the observer reads. -/
structure SameCode (config config' : Config) : Prop where
  serializer : config.serializerTextOffset = config'.serializerTextOffset
  caller : config.callerTextOffset = config'.callerTextOffset
  prologue : config.expectedPrologue = config'.expectedPrologue
  callsite : config.expectedCallsite = config'.expectedCallsite

/-- What the header says of the code and of its signatures. -/
theorem code_lookups (config : Config) :
    (headerFields config).lookup "observer_version".toList = some packageVersion
      ∧ (headerFields config).lookup "game_version".toList = some config.expectedGameVersion
      ∧ (headerFields config).lookup "serializer_text_offset".toList
        = some (hexLower config.serializerTextOffset.toNat)
      ∧ (headerFields config).lookup "caller_text_offset".toList
        = some (hexLower config.callerTextOffset.toNat)
      ∧ (headerFields config).lookup "compact_buffer_length".toList = some "0x69".toList
      ∧ (headerFields config).lookup "reviewed_abi".toList = some config.reviewedAbi
      ∧ (headerFields config).lookup "entry_signature".toList
        = some (signatureText config.expectedPrologue)
      ∧ (headerFields config).lookup "caller_signature".toList
        = some (signatureText config.expectedCallsite) := by
  -- all but the first field stand behind the fields of the watcher
  refine ⟨header_lookup (List.mem_append_left _ (List.mem_append_left _ (.head _))),
    header_lookup (List.mem_append_right _ (.tail _ (.head _))),
    header_lookup (List.mem_append_right _ (.tail _ (.tail _ (.head _)))),
    header_lookup (List.mem_append_right _ (.tail _ (.tail _ (.tail _ (.head _))))),
    header_lookup (List.mem_append_right _ (.tail _ (.tail _ (.tail _ (.tail _ (.head _)))))),
    header_lookup (List.mem_append_right _ (.tail _ (.tail _ (.tail _ (.tail _ (.tail _
      (.head _))))))),
    header_lookup (List.mem_append_right _ (.tail _ (.tail _ (.tail _ (.tail _ (.tail _ (.tail _
      (.head _)))))))),
    header_lookup (List.mem_append_right _ (.tail _ (.tail _ (.tail _ (.tail _ (.tail _ (.tail _
      (.tail _ (.head _)))))))))⟩

theorem watch_lookups (config : Config) :
    (headerFields config).lookup "poll_global_team_attack".toList
        = some (showBool config.pollGlobalTeamAttack)
      ∧ (headerFields config).lookup "global_text_offset".toList
        = (if config.pollGlobalTeamAttack then some "0x530a981".toList else none)
      ∧ (headerFields config).lookup "global_init_guard_text_offset".toList
        = (if config.pollGlobalTeamAttack then some "0x53144d8".toList else none) := by
  refine ⟨header_lookup (List.mem_append_left _ (List.mem_append_left _
    (.tail _ (.tail _ (.tail _ (.head _)))))), ?_⟩
  cases hpoll : config.pollGlobalTeamAttack with
  | true =>
      have hmem : ∀ entry ∈ [("global_text_offset", "0x530a981".toList),
          ("global_init_guard_text_offset", "0x53144d8".toList)],
          entry ∈ headerKeys config := by
        intro entry hentry
        rw [headerKeys, if_pos hpoll]
        exact List.mem_append_left _ (List.mem_append_right _ (List.mem_append_left _ hentry))
      exact ⟨header_lookup (hmem _ (.head _)), header_lookup (hmem _ (.tail _ (.head _)))⟩
  | false =>
      have hkeys : ∀ key ∈ ["global_text_offset", "global_init_guard_text_offset"],
          key ∉ (headerKeys config).map Prod.fst := by
        rw [headerKeys, hpoll]
        simp only [Bool.false_eq_true, if_false, List.map_append, List.map_cons, List.map_nil]
        decide
      exact ⟨header_lookup_none (hkeys _ (.head _)),
        header_lookup_none (hkeys _ (.tail _ (.head _)))⟩

/-- The configurations agree on what a summary compares. -/
structure SameContext (config config' : Config) : Prop extends SameCode config config' where
  polling : config.pollGlobalTeamAttack = config'.pollGlobalTeamAttack

theorem sameCode_of_texts {config config' : Config}
    (hserializer : hexLower config.serializerTextOffset.toNat
      = hexLower config'.serializerTextOffset.toNat)
    (hcaller : hexLower config.callerTextOffset.toNat = hexLower config'.callerTextOffset.toNat)
    (hprologue : signatureText config.expectedPrologue = signatureText config'.expectedPrologue)
    (hcallsite : signatureText config.expectedCallsite = signatureText config'.expectedCallsite) :
    SameCode config config' where
  serializer := UInt64.toNat_inj.mp (hexLower_injective hserializer)
  caller := UInt64.toNat_inj.mp (hexLower_injective hcaller)
  prologue := signatureText_injective hprologue
  callsite := signatureText_injective hcallsite

/-- **Headers agree where the configurations do.** -/
theorem context_eq_iff {config config' : Config}
    (hversion : config.expectedGameVersion = config'.expectedGameVersion) :
    valuesAt contextKeys (headerFields config) = valuesAt contextKeys (headerFields config')
      ↔ SameContext config config' := by
  obtain ⟨h1, h2, h3, h4, -, -, h5, h6⟩ := code_lookups config
  obtain ⟨h1', h2', h3', h4', -, -, h5', h6'⟩ := code_lookups config'
  obtain ⟨h7, h8, h9⟩ := watch_lookups config
  obtain ⟨h7', h8', h9'⟩ := watch_lookups config'
  simp only [valuesAt, contextKeys, List.map_cons, List.map_nil, h1, h2, h3, h4, h5, h6, h7, h8,
    h9, h1', h2', h3', h4', h5', h6', h7', h8', h9', hversion, List.cons.injEq, true_and,
    Option.some.injEq, and_true]
  constructor
  · rintro ⟨hserializer, hcaller, hprologue, hcallsite, hpolling, -, -⟩
    exact ⟨sameCode_of_texts hserializer hcaller hprologue hcallsite,
      showBool_injective hpolling⟩
  · intro h
    rw [h.serializer, h.caller, h.prologue, h.callsite, h.polling]
    exact ⟨rfl, rfl, rfl, rfl, rfl, rfl, rfl⟩

end TeamAttack

namespace TeamAttack.Recorder

open Runs Hoare RustStr LogReaders ExceptRules Install

/-- A session of a configuration: the file it left, what it polled, and the
    dumps it wrote. -/
inductive Recorded (config : Config) : List UInt8 → List Poll → List Capture → Prop where
  | intro (env : Env) (addresses : Option (UInt64 × UInt64)) (b : Boot) (log : CaptureLog)
      (P : Type) [DecidableEq P] (source : P → Source) (moves : List (Move P))
      (h : List (Event P)) (x : Recording P) :
      Config.load env.configFile = .ok (some config) →
      outcome (prepare env config) Boot.start = (.ok addresses, b) → b.log = some log →
      exec (Recording.advance source config env.startTick) (.start P log env.startTick) moves
        = some (h, x) →
      x.recorder.counters (.calls .serializer) < 2 ^ 64 →
      (bytes x.log.written).length ≤ maxLogBytes →
      Recorded config (bytes x.log.written)
        ((Recording.start P log env.startTick).polls source config env.startTick moves)
        (linesOf .compact h)

section Recorded

variable {config : Config} {data : List UInt8} {polls : List Poll} {captures : List Capture}

/-- What both readers make of a recorded session. -/
structure ReadBack (config : Config) (data : List UInt8) (polls : List Poll)
    (captures : List Capture) : Prop where
  version : config.expectedGameVersion = supportedGameVersion
  abi : config.reviewedAbi = "void_u8_ptr_v1".toList
  offsets_ne : config.captureOffsets ≠ []
  offsets_lt : ∀ o ∈ config.captureOffsets, o.toNat < compactBufferLen
  distinct : (captures.map Capture.sequence).Nodup
  log : ∀ path, readLog path data
    = if captures = [] then failed path "no captures".toList
      else .ok ⟨headerFields config, dumpsOf config.captureOffsets captures⟩
  session : ∀ path, ∃ session, readSession path data = .ok session
    ∧ session.metadata = headerFields config ∧ Tells session polls
    ∧ session.serializerDumps = captures.length

theorem Recorded.readBack (hrec : Recorded config data polls captures) :
    ReadBack config data polls captures := by
  obtain ⟨env, addresses, b, log, P, source, moves, h, x, hload, hprepare, hlog, hexec, hcalls,
    hsize⟩ := hrec
  obtain ⟨contents, hparse⟩ := parsed_of_load hload
  obtain ⟨version, -, hvalid, -, -⟩ := prepared_log hparse hprepare
  have hvalid := validConfig_of_ok hvalid
  obtain ⟨log', hlog', hfiles⟩ := session_file hload hprepare
  obtain rfl := Option.some.inj (hlog.symm.trans hlog')
  obtain ⟨mask, ops, hfile⟩ := hfiles P source h x (run_of_exec hexec) hcalls
  refine ⟨hvalid.expected.trans hvalid.live, hvalid.abi, hfile.offsets_ne, hfile.offsets_lt,
    lines_nodup (recorder_run (run_of_exec hexec)) .compact, fun path => hfile.readLog path hsize,
    fun path => ⟨_, hfile.readSession path hsize, rfl, ?_, List.length_map _⟩⟩
  rw [sessionState, watches_logged hexec]
  exact tells_polls path ..

end Recorded

/-- Three files are distinct launches when no two are the same. -/
theorem launches_refused (file : Fin 3 → LaunchFile) :
    (decide ((List.ofFn file).length ≠ 3)
        || decide ((PySet.ofItems ((List.ofFn file).map LaunchFile.resolved)).length ≠ 3)) = true
      ↔ ¬ Function.Injective fun i => (file i).resolved := by
  have hlength : ((List.ofFn file).map LaunchFile.resolved).length = 3 := by
    rw [List.length_map, List.length_ofFn]
  have hnodup : ((List.ofFn file).map LaunchFile.resolved).Nodup
      ↔ Function.Injective fun i => (file i).resolved := by
    rw [List.map_ofFn, List.nodup_ofFn]
    rfl
  have hset : (PySet.ofItems ((List.ofFn file).map LaunchFile.resolved)).length
      = ((List.ofFn file).map LaunchFile.resolved).length
      ↔ ((List.ofFn file).map LaunchFile.resolved).Nodup := PySet.length_ofItems
  rw [hlength] at hset
  rw [← hnodup, ← hset, decide_eq_false (not_not.mpr (List.length_ofFn ..)), Bool.false_or,
    decide_eq_true_iff]

/-- **Three launches are summarised where their configurations agree.**  The
    summary of the files of three recorded sessions asks for three different
    files; it is refused if the configurations differ in where the code lies,
    in its signatures or in polling; and if they do not, it tells under each
    label all polls and the number of dumps of that launch. -/
theorem summary_of_launches (file : Fin 3 → LaunchFile) (config : Fin 3 → Config)
    (polls : Fin 3 → List Poll) (captures : Fin 3 → List Capture)
    (hrec : ∀ i, Recorded (config i) (file i).data (polls i) (captures i)) :
    (¬ Function.Injective (fun i => (file i).resolved) →
        summarize (List.ofFn file)
          = refused "require three distinct launch logs in Off, On, Return-Off order".toList)
      ∧ (Function.Injective (fun i => (file i).resolved) →
        (∃ i, ¬ SameContext (config 0) (config i)) →
        summarize (List.ofFn file) = refused
          "observer/code/global contexts differ; these launches are not comparable".toList)
      ∧ (Function.Injective (fun i => (file i).resolved) →
        (∀ i, SameContext (config 0) (config i)) →
        ∃ session : Fin 3 → Session,
          summarize (List.ofFn file)
            = .ok ⟨[("OFF".toList, session 0), ("ON".toList, session 1),
              ("RETURN_OFF".toList, session 2)], interpretation⟩
          ∧ ∀ i, Tells (session i) (polls i) ∧ (session i).metadata = headerFields (config i)
            ∧ (session i).serializerDumps = (captures i).length) := by
  have hback := fun i => (hrec i).readBack
  have hversion : ∀ i, (config 0).expectedGameVersion = (config i).expectedGameVersion :=
    fun i => (hback 0).version.trans (hback i).version.symm
  choose session hsession hmetadata htells hdumps using fun i => (hback i).session (file i).path
  have hsessions : (List.ofFn file).mapM (fun p => readSession p.path p.data)
      = .ok [session 0, session 1, session 2] := by
    have hfiles : List.ofFn file = [file 0, file 1, file 2] := rfl
    rw [hfiles, List.mapM_cons, hsession, List.mapM_cons, hsession, List.mapM_cons, hsession]
    rfl
  have hcontexts : ∀ i, valuesAt contextKeys (session 0).metadata
      = valuesAt contextKeys (session i).metadata ↔ SameContext (config 0) (config i) := by
    intro i
    rw [hmetadata, hmetadata]
    exact context_eq_iff (hversion i)
  have hcheck : ((([session 0, session 1, session 2].map fun s =>
        valuesAt contextKeys s.metadata).tail).any fun context => decide (some context
          ≠ ([session 0, session 1, session 2].map fun s =>
            valuesAt contextKeys s.metadata).head?)) = true
      ↔ ∃ i, ¬ SameContext (config 0) (config i) := by
    simp only [List.map_cons, List.map_nil, List.tail_cons, List.head?_cons, List.any_cons,
      List.any_nil, Bool.or_false, Bool.or_eq_true, decide_eq_true_eq, ne_eq, Option.some.injEq,
      ← hcontexts, Fin.exists_fin_succ, not_true_eq_false, false_or]
    rw [eq_comm, eq_comm (a := valuesAt contextKeys (session 2).metadata)]
    simp
  refine ⟨fun hnot => ?_, fun hinjective hdiffer => ?_, fun hinjective hagree =>
    ⟨session, ?_, fun i => ⟨htells i, hmetadata i, hdumps i⟩⟩⟩
  · rw [summarize, if_pos ((launches_refused file).mpr hnot)]
    rfl
  · rw [summarize, if_neg (fun h => (launches_refused file).mp h hinjective)]
    show (List.mapM _ _ >>= fun _ => _) = _
    rw [hsessions, bind_ok]
    dsimp only
    rw [if_pos (hcheck.mpr hdiffer)]
    rfl
  · rw [summarize, if_neg (fun h => (launches_refused file).mp h hinjective)]
    show (List.mapM _ _ >>= fun _ => _) = _
    rw [hsessions, bind_ok]
    dsimp only
    rw [if_neg (fun h => (hcheck.mp h).elim fun i hi => hi (hagree i))]
    rfl

/-- The session of the scene was recorded. -/
theorem session_recorded : ∃ data polls, Recorded watchConfig data polls dumpCaptures
    ∧ changes polls = [⟨250, 1⟩] := by
  obtain ⟨addresses, b, hprepare, hlog⟩ := watch_prepares
  obtain ⟨h, x, hexec, hsize, hcalls, hlines, hwatches, -⟩ := session_scene
  rw [← hlines]
  refine ⟨_, _, .intro watchEnv addresses b watchLog Setting _ _ h x watch_loads hprepare hlog
    hexec hcalls hsize, ?_⟩
  have hrows := watches_logged hexec
  rw [hwatches] at hrows
  rw [← transitions_rows]
  exact congrArg (fun rows => (List.map sampleRow rows).foldl addTransition []) hrows.symm

/-- Three launches of one configuration. -/
theorem summary_of_launches_three : ∃ (file : Fin 3 → LaunchFile) (session : Fin 3 → Session),
    summarize (List.ofFn file) = .ok ⟨[("OFF".toList, session 0), ("ON".toList, session 1),
        ("RETURN_OFF".toList, session 2)], interpretation⟩
      ∧ ∀ i, (session i).globalTransitions = [⟨250, 1⟩] := by
  obtain ⟨data, polls, hrec, hchanges⟩ := session_recorded
  have hagree : SameContext watchConfig watchConfig := ⟨⟨rfl, rfl, rfl, rfl⟩, rfl⟩
  have hinjective : Function.Injective fun i : Fin 3 => [Char.ofNat i.val] := by decide
  obtain ⟨session, hsummary, htells⟩ :=
    (summary_of_launches (fun i => ⟨⟨[], []⟩, [Char.ofNat i.val], data⟩) (fun _ => watchConfig)
      (fun _ => polls) (fun _ => dumpCaptures) (fun _ => hrec)).2.2 hinjective (fun _ => hagree)
  exact ⟨_, session, hsummary, fun i => (htells i).1.transitions.trans hchanges⟩

end TeamAttack.Recorder
