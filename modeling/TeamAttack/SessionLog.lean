import TeamAttack.LogRoundTrip
import TeamAttack.RecorderWrites

/-! # The log of a recording

    The recorder together with the log its writer fills: every event of the
    writer is written by the function of `CaptureLog` the loop calls for it.
    The writes of any run are writes a session can make (`issued_run`), so
    what the readers do with a log holds of every log a recording leaves. -/

namespace TeamAttack.Recorder

open Runs CaptureSchedule LogReaders

section Writing

variable {P : Type}

/-- A count of a row. -/
def countOf (counts : Counts) (c : Counter) : Nat := (counts.lookup c).getD 0

/-- What `codec_probe::counts` returned. -/
def codecCounts (counts : Counts) : Nat × Nat × Nat :=
  (countOf counts (.calls (.codec 0)), countOf counts (.calls (.codec 1)),
    countOf counts (.dropped .codec))

/-- What `application_probe::counts` returned. -/
def applicationCounts (counts : Counts) : (ApplicationProbe.Kind → Nat) × Nat :=
  (fun kind => countOf counts (.calls (.application kind)),
    countOf counts (.dropped .application))

/-- The event in the log: what the writer loop writes for it, in an iteration
    at `elapsedMs`. -/
def Event.write (elapsedMs : UInt64) (log : CaptureLog) : Event P → CaptureLog
  | .line .codec capture => log.event (CodecProbe.eventLine capture).text
  | .line (.bank b) capture => log.event (ApplicationProbe.eventLine b capture).text
  | .line .compact capture => (log.dumpWritten capture.sequence elapsedMs.toNat).append capture
  | .row .codec elapsedMs counts => log.event (codecCountsText elapsedMs (codecCounts counts))
  | .row .application elapsedMs counts =>
      log.event (applicationCountsText elapsedMs (applicationCounts counts))
  | .watch elapsedMs observation => log.watch elapsedMs observation
  | .status message => log.status message.toList
  | .called _ => log
  | .dropped _ => log
  | .store .. => log
  | .visit .. => log
  | .flush => log

/-- The recorder, what it has written, and the system tick it last read. -/
structure Recording (P : Type) where
  recorder : State P
  log : CaptureLog
  tick : UInt64

/-- The writer about to enter its loop. -/
def Recording.start (P : Type) (log : CaptureLog) (startTick : UInt64) : Recording P :=
  ⟨State.start P, log, startTick⟩

/-- The tick a step reads. -/
def State.tickRead? (t : State P) : Move P → Option UInt64
  | .call .. => none
  | .write reading => if t.writer.phase = .sleep then some reading.tick else none

/-- One step of the recording.  The system tick does not go back. -/
def Recording.advance [DecidableEq P] (source : P → Source) (config : Config)
    (startTick : UInt64) (x : Recording P) (move : Move P) :
    Option (List (Event P) × Recording P) :=
  let tick := (x.recorder.tickRead? move).getD x.tick
  if x.tick ≤ tick then
    (Recorder.advance source config startTick x.recorder move).map fun (es, recorder) =>
      let log := es.foldl (Event.write x.recorder.writer.elapsedMs) x.log
      (es, { recorder, log, tick })
  else none

/-- The steps of the recording. -/
def Recording.Step [DecidableEq P] (source : P → Source) (config : Config) (startTick : UInt64) :
    Recording P → List (Event P) → Recording P → Prop :=
  Moves (Recording.advance source config startTick)

/-! ## The writes -/

/-- The writes of an event. -/
def Event.ops (elapsedMs : UInt64) : Event P → List LogOp
  | .line .codec capture => [.codecEvent (CodecProbe.eventLine capture)]
  | .line (.bank b) capture => [.applicationEvent (ApplicationProbe.eventLine b capture)]
  | .line .compact capture => [.dumpWritten capture.sequence elapsedMs.toNat, .append capture]
  | .row .codec elapsedMs counts => [.codecCounts elapsedMs (codecCounts counts)]
  | .row .application elapsedMs counts =>
      [.applicationCounts elapsedMs (applicationCounts counts)]
  | .watch elapsedMs observation => [.watch elapsedMs observation]
  | .status message =>
      (writerStatuses.find? fun s => s.message = message.toList).toList.map .status
  | .called _ => []
  | .dropped _ => []
  | .store .. => []
  | .visit .. => []
  | .flush => []

/-- The writer writes no other status lines. -/
def Event.Stated : Event P → Prop
  | .status message => ∃ s ∈ writerStatuses, s.message = message.toList
  | _ => True

theorem statusOp {message : String} (h : ∃ s ∈ writerStatuses, s.message = message.toList) :
    ∃ s : Status, (Event.status message : Event P).ops 0 = [.status s]
      ∧ s.message = message.toList := by
  cases hfind : writerStatuses.find? fun s => s.message = message.toList with
  | none =>
      obtain ⟨s, hs, heq⟩ := h
      exact absurd (decide_eq_true heq) (List.find?_eq_none.mp hfind s hs)
  | some s =>
      have hfound := List.find?_some hfind
      refine ⟨s, ?_, of_decide_eq_true hfound⟩
      show (writerStatuses.find? _).toList.map LogOp.status = _
      rw [hfind]
      rfl

/-- **The log of an event is its writes.** -/
theorem write_eq_perform (elapsedMs : UInt64) (log : CaptureLog) {e : Event P} (h : e.Stated) :
    e.write elapsedMs log = (e.ops elapsedMs).foldl LogOp.perform log := by
  cases e with
  | line s capture => cases s <;> rfl
  | row probe => cases probe <;> rfl
  | status message =>
      obtain ⟨s, hops, hmessage⟩ := statusOp (P := P) h
      have hsame : (Event.status message : Event P).ops elapsedMs = [.status s] := hops
      rw [hsame]
      show log.status message.toList = log.status s.message
      rw [hmessage]
  | watch | called | dropped | store | visit | flush => rfl

end Writing

section Runs

variable {P : Type} [DecidableEq P] {source : P → Source} {config : Config}
  {startTick : UInt64} {log : CaptureLog} {x y : Recording P} {h es : List (Event P)}

/-- A step of the recording: the recorder's, written to the log. -/
theorem recording_step (hs : Recording.Step source config startTick x es y) :
    Step source config startTick x.recorder es y.recorder
      ∧ y.log = es.foldl (Event.write x.recorder.writer.elapsedMs) x.log ∧ x.tick ≤ y.tick
      ∧ (y.recorder.writer.elapsedMs = x.recorder.writer.elapsedMs
        ∨ y.recorder.writer.elapsedMs = (y.tick - startTick) / 19200) := by
  obtain ⟨move, hmove⟩ := hs
  simp only [Recording.advance] at hmove
  split_ifs at hmove with htick
  obtain ⟨⟨fs, t⟩, hadvance, hpair⟩ := Option.map_eq_some_iff.mp hmove
  obtain ⟨rfl, rfl⟩ := Prod.mk.inj hpair
  refine ⟨⟨move, hadvance⟩, rfl, htick, ?_⟩
  rcases (noted_of_step ⟨move, hadvance⟩).clock with hsleep | hclock
  · cases move with
    | call p supplied =>
        left
        have hwriter : t.writer = x.recorder.writer := by
          cases called_of_callStep hadvance <;> rfl
        show t.writer.elapsedMs = _
        rw [hwriter]
    | write reading =>
        -- the writer wakes up and reads the clock
        right
        simp only [Recorder.advance, writeStep, hsleep] at hadvance
        obtain ⟨-, rfl⟩ := Prod.mk.inj (Option.some.inj hadvance)
        simp only [State.tickRead?, hsleep, if_true, Option.getD_some]
  · exact Or.inl hclock

theorem recorder_run
    (hrun : Run (Recording.Step source config startTick) (.start P log startTick) h x) :
    Run (Step source config startTick) (State.start P) h x.recorder := by
  refine hrun.history (I := fun h x => Run (Step source config startTick) (State.start P) h
    x.recorder) (.refl _) (fun h x es y ih hs => ?_)
  exact ih.tail (recording_step hs).1

/-- The clock of the writer is that of a tick read since the start. -/
structure Recording.Clocked (startTick : UInt64) (x : Recording P) : Prop where
  started : startTick ≤ x.tick
  elapsed : x.recorder.writer.elapsedMs ≤ (x.tick - startTick) / 19200

/-- Milliseconds since the start do not go back where the ticks do not. -/
theorem elapsed_mono {s a b : UInt64} (hs : s ≤ a) (h : a ≤ b) :
    (a - s) / 19200 ≤ (b - s) / 19200 := by
  have hsb := UInt64.le_trans hs h
  rw [UInt64.le_iff_toNat_le, UInt64.toNat_div, UInt64.toNat_div,
    UInt64.toNat_sub_of_le _ _ hs, UInt64.toNat_sub_of_le _ _ hsb]
  exact Nat.div_le_div_right (Nat.sub_le_sub_right (UInt64.le_iff_toNat_le.mp h) _)

omit [DecidableEq P] in
theorem Recording.Clocked.forward (hx : x.Clocked startTick) (htick : x.tick ≤ y.tick)
    (hclock : y.recorder.writer.elapsedMs = x.recorder.writer.elapsedMs
      ∨ y.recorder.writer.elapsedMs = (y.tick - startTick) / 19200) :
    y.Clocked startTick ∧ x.recorder.writer.elapsedMs ≤ y.recorder.writer.elapsedMs := by
  have hnow := UInt64.le_trans hx.elapsed (elapsed_mono hx.started htick)
  refine ⟨⟨UInt64.le_trans hx.started htick, ?_⟩, ?_⟩
  · rcases hclock with hclock | hclock
    · rw [hclock]
      exact hnow
    · rw [hclock]
      exact UInt64.le_refl _
  · rcases hclock with hclock | hclock
    · rw [hclock]
      exact UInt64.le_refl _
    · rw [hclock]
      exact hnow

/-! ## The samples of a run -/

/-- A clock and counters that do not go back. -/
def SampleLe (a b : UInt64 × Watch.Observation) : Prop :=
  a.1 ≤ b.1 ∧ a.2.serializerCalls ≤ b.2.serializerCalls ∧ a.2.storedDumps ≤ b.2.storedDumps

/-- The watch rows so far, and where they stand to the present. -/
structure Sampled (h : List (Event P)) (t : State P) : Prop where
  rows : (watchesOf h).Pairwise SampleLe
  clock : ∀ sample ∈ watchesOf h, sample.1 ≤ t.writer.elapsedMs
  calls : ∀ sample ∈ watchesOf h, sample.2.serializerCalls ≤ t.counters (.calls .serializer)
  dumps : ∀ sample ∈ watchesOf h, sample.2.storedDumps ≤ t.writer.storedDumps
  value : ∀ sample ∈ watchesOf h, sample.2.value.isSome = sample.2.initialized

omit [DecidableEq P] in
theorem mem_watchesOf {sample : UInt64 × Watch.Observation} :
    sample ∈ watchesOf h ↔ .watch sample.1 sample.2 ∈ h := by
  rw [watchesOf, List.mem_filterMap]
  constructor
  · rintro ⟨e, he, heq⟩
    cases e with
    | watch elapsedMs observation =>
        obtain rfl := Option.some.inj heq
        exact he
    | called | dropped | store | visit | line | row | status | flush => cases heq
  · intro he
    exact ⟨_, he, rfl⟩

omit [DecidableEq P] in
theorem watchesOf_length_le : (watchesOf es).length ≤ es.length := List.length_filterMap_le ..

/-- **The watch rows of a recording do not go back.** -/
theorem sampled_run
    (hrun : Run (Recording.Step source config startTick) (.start P log startTick) h x) :
    x.Clocked startTick ∧ Sampled h x.recorder := by
  refine hrun.history (I := fun h x => x.Clocked startTick ∧ Sampled h x.recorder) ?_ ?_
  · refine ⟨⟨UInt64.le_refl _, ?_⟩, List.Pairwise.nil, ?_, ?_, ?_, ?_⟩
    · show (0 : UInt64) ≤ _
      exact UInt64.le_iff_toNat_le.mpr (Nat.zero_le _)
    all_goals
      intro sample hsample
      cases hsample
  rintro h x es y ⟨hclocked, hs⟩ hstep
  obtain ⟨hrecorder, -, htick, hclock⟩ := recording_step hstep
  obtain ⟨hclocked', hlater⟩ := hclocked.forward htick hclock
  have hnoted := noted_of_step hrecorder
  have hcalls := counters_mono hrecorder (.calls .serializer)
  have hdumps : x.recorder.writer.storedDumps ≤ y.recorder.writer.storedDumps := by
    rw [hnoted.dumps]
    exact Nat.le_add_right ..
  -- a row written now says how things stand
  have hnow : ∀ sample ∈ watchesOf es, sample.1 = x.recorder.writer.elapsedMs
      ∧ sample.2.storedDumps = x.recorder.writer.storedDumps
      ∧ sample.2.serializerCalls = x.recorder.counters (.calls .serializer)
      ∧ sample.2.value.isSome = sample.2.initialized :=
    fun sample hsample => hnoted.watch _ _ (mem_watchesOf.mp hsample)
  have hone : (watchesOf es).length ≤ 1 :=
    Nat.le_trans watchesOf_length_le (one_event _ _ _ hrecorder)
  refine ⟨hclocked', ?_, ?_, ?_, ?_, ?_⟩
  · rw [watchesOf_append]
    refine List.pairwise_append.mpr ⟨hs.rows, ?_, ?_⟩
    · match hes : watchesOf es, hone with
      | [], _ => exact List.Pairwise.nil
      | [sample], _ => exact List.pairwise_singleton _ _
    · intro a ha b hb
      obtain ⟨htime, hstored, hcount, -⟩ := hnow b hb
      refine ⟨htime ▸ hs.clock a ha, hcount ▸ hs.calls a ha, hstored ▸ hs.dumps a ha⟩
  · intro sample hsample
    rw [watchesOf_append] at hsample
    rcases List.mem_append.mp hsample with hold | hnew
    · exact UInt64.le_trans (hs.clock sample hold) hlater
    · rw [(hnow sample hnew).1]
      exact hlater
  · intro sample hsample
    rw [watchesOf_append] at hsample
    rcases List.mem_append.mp hsample with hold | hnew
    · exact Nat.le_trans (hs.calls sample hold) hcalls
    · rw [(hnow sample hnew).2.2.1]
      exact hcalls
  · intro sample hsample
    rw [watchesOf_append] at hsample
    rcases List.mem_append.mp hsample with hold | hnew
    · exact Nat.le_trans (hs.dumps sample hold) hdumps
    · rw [(hnow sample hnew).2.1]
      exact hdumps
  · intro sample hsample
    rw [watchesOf_append] at hsample
    rcases List.mem_append.mp hsample with hold | hnew
    · exact hs.value sample hold
    · exact (hnow sample hnew).2.2.2

/-! ## The writes of a run -/

/-- The log, as writes that say what the history says. -/
structure Logged (log : CaptureLog) (h : List (Event P)) (written : CaptureLog)
    (ops : List LogOp) : Prop where
  log : written = ops.foldl LogOp.perform log
  captures : ops.filterMap LogOp.capture? = linesOf .compact h
  samples : ops.filterMap LogOp.sample? = watchesOf h
  messages : ops.filterMap LogOp.message? = (statusesOf h).map String.toList

omit [DecidableEq P] in
/-- The writes of one event say what the event says. -/
theorem logged_event (elapsedMs : UInt64) (log : CaptureLog) {e : Event P} (he : e.Stated) :
    Logged log [e] (e.write elapsedMs log) (e.ops elapsedMs) := by
  refine ⟨write_eq_perform elapsedMs log he, ?_, ?_, ?_⟩
  · cases e with
    | line s capture => cases s <;> rfl
    | row probe => cases probe <;> rfl
    | status message =>
        obtain ⟨s, hops, -⟩ := statusOp (P := P) he
        exact congrArg (List.filterMap LogOp.capture?) hops
    | watch | called | dropped | store | visit | flush => rfl
  · cases e with
    | line s capture => cases s <;> rfl
    | row probe => cases probe <;> rfl
    | status message =>
        obtain ⟨s, hops, -⟩ := statusOp (P := P) he
        exact congrArg (List.filterMap LogOp.sample?) hops
    | watch | called | dropped | store | visit | flush => rfl
  · cases e with
    | line s capture => cases s <;> rfl
    | row probe => cases probe <;> rfl
    | status message =>
        obtain ⟨s, hops, hmessage⟩ := statusOp (P := P) he
        have hone := congrArg (List.filterMap LogOp.message?) hops
        refine hone.trans ?_
        show [s.message] = [message.toList]
        rw [hmessage]
    | watch | called | dropped | store | visit | flush => rfl

omit [DecidableEq P] in
theorem Logged.append {k : List (Event P)} {log written written' : CaptureLog}
    {ops ops' : List LogOp} (hl : Logged log h written ops) (hl' : Logged written k written' ops') :
    Logged log (h ++ k) written' (ops ++ ops') where
  log := by rw [List.foldl_append, ← hl.log, hl'.log]
  captures := by rw [List.filterMap_append, linesOf_append, hl.captures, hl'.captures]
  samples := by rw [List.filterMap_append, watchesOf_append, hl.samples, hl'.samples]
  messages := by
    rw [List.filterMap_append, statusesOf_append, List.map_append, hl.messages, hl'.messages]

/-- What a step writes is a write more, if anything. -/
theorem logged_step {ops : List LogOp} (hops : Logged log h x.log ops)
    (hstep : Recording.Step source config startTick x es y) :
    ∃ ops, Logged log (h ++ es) y.log ops := by
  obtain ⟨hrecorder, hlog, -, -⟩ := recording_step hstep
  have hone := one_event _ _ _ hrecorder
  have hstatus := (noted_of_step hrecorder).status
  rw [hlog]
  cases es with
  | nil =>
      rw [List.append_nil]
      exact ⟨ops, hops⟩
  | cons e rest =>
      obtain rfl : rest = [] := List.eq_nil_of_length_eq_zero (by simpa using hone)
      have he : e.Stated := by
        cases e with
        | status message => exact hstatus message (List.mem_singleton_self _)
        | called | dropped | store | visit | line | row | watch | flush => trivial
      exact ⟨_, hops.append (logged_event x.recorder.writer.elapsedMs x.log he)⟩

/-- **The log of a recording is a list of writes.** -/
theorem logged_run
    (hrun : Run (Recording.Step source config startTick) (.start P log startTick) h x) :
    ∃ ops, Logged log h x.log ops := by
  refine hrun.history (I := fun h (x : Recording P) => ∃ ops, Logged log h x.log ops)
    ⟨[], rfl, rfl, rfl, rfl⟩ (fun h x es y ih hstep => ?_)
  obtain ⟨ops, hops⟩ := ih
  exact logged_step hops hstep

/-- **A recording only makes writes the readers take.** -/
theorem issued_run
    (hrun : Run (Recording.Step source config startTick) (.start P log startTick) h x)
    (hcalls : x.recorder.counters (.calls .serializer) < 2 ^ 64) {ops : List LogOp}
    (hlogged : Logged log h x.log ops) : Issued ops := by
  have hrecorder := recorder_run hrun
  obtain ⟨-, hsampled⟩ := sampled_run hrun
  have hcapacity : captureCapacity < 2 ^ 64 := by norm_num [captureCapacity]
  have hfew : (linesOf .compact h).length ≤ captureCapacity :=
    Nat.le_trans (lines_length_le hrecorder .compact) (Nat.min_le_right ..)
  refine ⟨fun op hop => ?_, ?_, ?_⟩
  · cases op with
    | watch elapsedMs observation =>
        have hmem : (elapsedMs, observation) ∈ watchesOf h := by
          rw [← hlogged.samples]
          exact List.mem_filterMap.mpr ⟨_, hop, rfl⟩
        -- the counts of a row are at most what they are now
        have hstored := hsampled.dumps _ hmem
        rw [storedDumps_run hrecorder] at hstored
        exact ⟨hsampled.value _ hmem, Nat.lt_of_le_of_lt (hsampled.calls _ hmem) hcalls,
          Nat.lt_of_le_of_lt (Nat.le_trans hstored hfew) hcapacity⟩
    | append capture =>
        have hmem : capture ∈ linesOf .compact h := by
          rw [← hlogged.captures]
          exact List.mem_filterMap.mpr ⟨_, hop, rfl⟩
        obtain ⟨p, i, v, rfl, -⟩ := line_published hrecorder hmem
        exact Nat.lt_trans i.isLt hcapacity
    | status | codecEvent | applicationEvent | codecCounts | applicationCounts | dumpWritten =>
        trivial
  · rw [hlogged.captures]
    exact lines_nodup hrecorder .compact
  · rw [hlogged.samples]
    exact hsampled.rows

end Runs

/-! ## The startup lines -/

theorem statuses_captures (statuses : List Status) :
    (statuses.map LogOp.status).filterMap LogOp.capture? = [] :=
  List.filterMap_eq_nil_iff.mpr fun op hop => by
    obtain ⟨s, -, rfl⟩ := List.mem_map.mp hop
    rfl

theorem statuses_samples (statuses : List Status) :
    (statuses.map LogOp.status).filterMap LogOp.sample? = [] :=
  List.filterMap_eq_nil_iff.mpr fun op hop => by
    obtain ⟨s, -, rfl⟩ := List.mem_map.mp hop
    rfl

theorem statuses_messages (statuses : List Status) :
    (statuses.map LogOp.status).filterMap LogOp.message? = statuses.map Status.message := by
  rw [List.filterMap_map, ← List.filterMap_eq_map]
  rfl

/-- Status lines ahead of writes change nothing for the readers. -/
theorem issued_after_statuses {ops : List LogOp} (h : Issued ops) (statuses : List Status) :
    Issued (statuses.map LogOp.status ++ ops) := by
  refine ⟨fun op hop => ?_, ?_, ?_⟩
  · rcases List.mem_append.mp hop with hop | hop
    · obtain ⟨s, -, rfl⟩ := List.mem_map.mp hop
      trivial
    · exact h.fits op hop
  · rw [List.filterMap_append, statuses_captures, List.nil_append]
    exact h.distinct
  · rw [List.filterMap_append, statuses_samples, List.nil_append]
    exact h.forward

end TeamAttack.Recorder
