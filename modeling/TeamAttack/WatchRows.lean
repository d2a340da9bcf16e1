import TeamAttack.LogRoundTrip

/-! # The rows of the watcher

    Of its polls the watcher logs the first, every change and a heartbeat.
    What a poll saw is what the last logged poll before it saw
    (`latest_logged`), and the changes that `read_session` finds in the rows
    are those of all polls (`transitions_logged`). -/

namespace TeamAttack

open RustStr LogReaders Watch

/-- A poll: its time and what it saw. -/
abbrev Poll := UInt64 × Watch.Observation

/-- What `should_log` answers to one poll after another. -/
def decisions : WatchSchedule → List Poll → List Bool
  | _, [] => []
  | schedule, poll :: rest =>
      (schedule.shouldLog poll.1 poll.2).1
        :: decisions (schedule.shouldLog poll.1 poll.2).2 rest

/-- The polls that are logged. -/
def loggedPolls (schedule : WatchSchedule) (polls : List Poll) : List Poll :=
  (polls.zip (decisions schedule polls)).filterMap fun x => if x.2 then some x.1 else none

/-- `should_log` answers yes and starts anew, or no to what it has logged
    before, within the heartbeat. -/
theorem shouldLog_cases (schedule : WatchSchedule) (poll : Poll) :
    schedule.shouldLog poll.1 poll.2 = (true, ⟨some poll.2, poll.1⟩)
      ∨ (schedule.shouldLog poll.1 poll.2 = (false, schedule) ∧ schedule.last = some poll.2
        ∧ poll.1.toNat < schedule.lastMs.toNat + 5000) := by
  rw [WatchSchedule.shouldLog]
  by_cases hchange : schedule.last = some poll.2
  · by_cases hheartbeat : saturatingSub poll.1 schedule.lastMs ≥ heartbeatMs
    · left
      rw [if_pos (by rw [Bool.or_eq_true]; exact Or.inr (decide_eq_true hheartbeat))]
    · right
      refine ⟨?_, hchange, ?_⟩
      · rw [hchange, decide_eq_false (not_not.mpr rfl), decide_eq_false hheartbeat]
        rfl
      -- the elapsed time saturates, and a clock that went back is within the heartbeat
      · rw [ge_iff_le, UInt64.le_iff_toNat_le, not_le, saturatingSub] at hheartbeat
        have hms : heartbeatMs.toNat = 5000 := rfl
        split_ifs at hheartbeat with hle
        · rw [UInt64.toNat_sub_of_le _ _ hle] at hheartbeat
          omega
        · rw [UInt64.le_iff_toNat_le, not_le] at hle
          omega
  · left
    rw [if_pos (by rw [Bool.or_eq_true]; exact Or.inl (decide_eq_true hchange))]

/-! ## The latest row -/

/-- Poll `j` is the last logged one up to poll `i`, and saw the same less
    than the heartbeat before. -/
structure LatestLogged (polls : List Poll) (answers : List Bool) (i : Nat) (poll : Poll)
    (j : Nat) (row : Poll) : Prop where
  le : j ≤ i
  polled : polls[j]? = some row
  logged : answers[j]? = some true
  latest : ∀ k, j < k → k ≤ i → answers[k]? = some false
  same : row.2 = poll.2
  recent : poll.1.toNat < row.1.toNat + 5000

theorem LatestLogged.later {polls : List Poll} {answers : List Bool} {i j : Nat}
    {poll row first : Poll} {answer : Bool} (h : LatestLogged polls answers i poll j row) :
    LatestLogged (first :: polls) (answer :: answers) (i + 1) poll (j + 1) row where
  le := Nat.succ_le_succ h.le
  polled := h.polled
  logged := h.logged
  latest := by
    intro k hjk hki
    cases k with
    | zero => exact absurd hjk (Nat.not_lt_zero _)
    | succ k => exact h.latest k (Nat.lt_of_succ_lt_succ hjk) (Nat.le_of_succ_le_succ hki)
  same := h.same
  recent := h.recent

/-- From any schedule on: a poll has a latest row, or nothing was logged up to
    it and the schedule's own row is its latest. -/
theorem latest_logged_from (polls : List Poll) : ∀ (schedule : WatchSchedule) (i : Nat)
    (poll : Poll), polls[i]? = some poll →
      (∃ j row, LatestLogged polls (decisions schedule polls) i poll j row)
        ∨ ((∀ k, k ≤ i → (decisions schedule polls)[k]? = some false)
          ∧ schedule.last = some poll.2 ∧ poll.1.toNat < schedule.lastMs.toNat + 5000) := by
  induction polls with
  | nil =>
      intro schedule i poll h
      cases h
  | cons first rest ih =>
      intro schedule i poll h
      rw [decisions]
      cases i with
      | zero =>
          obtain rfl := Option.some.inj h
          -- a logged poll is its own latest row
          rcases shouldLog_cases schedule first with hlog | ⟨hquiet, hlast, hrecent⟩
          · rw [hlog]
            refine Or.inl ⟨0, first, Nat.le_refl 0, rfl, rfl, ?_, rfl, by omega⟩
            intro k hpos hle
            omega
          · rw [hquiet]
            refine Or.inr ⟨?_, hlast, hrecent⟩
            intro k hk
            obtain rfl := Nat.le_zero.mp hk
            rfl
      | succ i =>
          rcases shouldLog_cases schedule first with hlog | ⟨hquiet, hlast, hrecent⟩
          · rw [hlog]
            rcases ih ⟨some first.2, first.1⟩ i poll h with ⟨j, row, hrow⟩ | ⟨hnone, hsame, hnear⟩
            · exact Or.inl ⟨j + 1, row, hrow.later⟩
            -- nothing was logged since, so the row is the first poll
            · refine Or.inl ⟨0, first, Nat.zero_le _, rfl, rfl, ?_, Option.some.inj hsame, hnear⟩
              intro k hpos hle
              obtain ⟨k, rfl⟩ := Nat.exists_eq_succ_of_ne_zero (Nat.ne_of_gt hpos)
              exact hnone k (Nat.le_of_succ_le_succ hle)
          · rw [hquiet]
            rcases ih schedule i poll h with ⟨j, row, hrow⟩ | ⟨hnone, hsame, hnear⟩
            · exact Or.inl ⟨j + 1, row, hrow.later⟩
            · refine Or.inr ⟨?_, hsame, hnear⟩
              intro k hk
              cases k with
              | zero => rfl
              | succ k => exact hnone k (Nat.le_of_succ_le_succ hk)

/-- **A poll saw what its latest row says.** -/
theorem latest_logged {polls : List Poll} {i : Nat} {poll : Poll} (h : polls[i]? = some poll) :
    ∃ j row, LatestLogged polls (decisions .default polls) i poll j row := by
  rcases latest_logged_from polls .default i poll h with hrow | ⟨-, hnone, -⟩
  · exact hrow
  · cases hnone

/-! ## The changes -/

/-- The samples of initialized polls, as a reader knows them. -/
def initializedSamples (polls : List Poll) : List Transition :=
  polls.filterMap fun poll => poll.2.value.map fun value => ⟨poll.1.toNat, value.toNat⟩

/-- The samples whose value is not that of the sample before. -/
def changesFrom (previous : Option Nat) : List Transition → List Transition
  | [] => []
  | sample :: rest =>
      if previous = some sample.value then changesFrom (some sample.value) rest
      else sample :: changesFrom (some sample.value) rest

/-- The changes among the initialized polls: time and value of each. -/
def changes (polls : List Poll) : List Transition := changesFrom none (initializedSamples polls)

theorem addTransition_none {transitions : List Transition} {poll : Poll}
    (h : poll.2.value = none) : addTransition transitions (sampleRow poll) = transitions := by
  rw [addTransition, sampleRow, h]
  rfl

theorem addTransition_some {transitions : List Transition} {poll : Poll} {value : UInt8}
    (h : poll.2.value = some value) :
    addTransition transitions (sampleRow poll)
      = if transitions.getLast?.map Transition.value = some value.toNat then transitions
        else transitions ++ [⟨poll.1.toNat, value.toNat⟩] := by
  rw [addTransition, sampleRow, h]
  rfl

/-- The transitions that rows add are the changes. -/
theorem foldl_addTransition (polls : List Poll) : ∀ transitions : List Transition,
    (polls.map sampleRow).foldl addTransition transitions
      = transitions ++ changesFrom (transitions.getLast?.map Transition.value)
          (initializedSamples polls) := by
  induction polls with
  | nil =>
      intro transitions
      exact (List.append_nil _).symm
  | cons poll rest ih =>
      intro transitions
      rw [List.map_cons, List.foldl_cons, ih]
      cases hvalue : poll.2.value with
      | none =>
          have hsamples : initializedSamples (poll :: rest) = initializedSamples rest := by
            rw [initializedSamples, List.filterMap_cons_none (by rw [hvalue]; rfl)]
            rfl
          rw [addTransition_none hvalue, hsamples]
      | some value =>
          have hsamples : initializedSamples (poll :: rest)
              = ⟨poll.1.toNat, value.toNat⟩ :: initializedSamples rest := by
            rw [initializedSamples, List.filterMap_cons_some (by rw [hvalue]; rfl)]
            rfl
          rw [hsamples, addTransition_some hvalue, changesFrom]
          -- the reader compares with its last transition, `changesFrom` with the same value
          by_cases hsame : transitions.getLast?.map Transition.value = some value.toNat
          · rw [if_pos hsame, if_pos hsame, hsame]
          · rw [if_neg hsame, if_neg hsame, List.getLast?_concat, List.append_assoc]
            rfl

/-- The reader has what a poll saw: its row adds nothing. -/
def Absorbed (transitions : List Transition) (observation : Watch.Observation) : Prop :=
  ∀ value ∈ observation.value,
    transitions.getLast?.map Transition.value = some value.toNat

theorem addTransition_absorbed {transitions : List Transition} {poll : Poll}
    (h : Absorbed transitions poll.2) :
    addTransition transitions (sampleRow poll) = transitions := by
  cases hvalue : poll.2.value with
  | none => exact addTransition_none hvalue
  | some value => rw [addTransition_some hvalue, if_pos (h value hvalue)]

theorem absorbed_addTransition (transitions : List Transition) (poll : Poll) :
    Absorbed (addTransition transitions (sampleRow poll)) poll.2 := by
  intro value hvalue
  rw [addTransition_some hvalue]
  by_cases hsame : transitions.getLast?.map Transition.value = some value.toNat
  · rw [if_pos hsame, hsame]
  · rw [if_neg hsame, List.getLast?_concat]
    rfl

/-- **The rows have the transitions of the polls.** -/
theorem transitions_logged (polls : List Poll) : ∀ (schedule : WatchSchedule)
    (transitions : List Transition), (∀ observation ∈ schedule.last,
      Absorbed transitions observation) →
    ((loggedPolls schedule polls).map sampleRow).foldl addTransition transitions
      = (polls.map sampleRow).foldl addTransition transitions := by
  induction polls with
  | nil => exact fun schedule transitions _ => rfl
  | cons poll rest ih =>
      intro schedule transitions habsorbed
      rw [loggedPolls, decisions, List.zip_cons_cons]
      rcases shouldLog_cases schedule poll with hlog | ⟨hquiet, hlast, -⟩
      · rw [hlog, List.filterMap_cons_some (by rfl), List.map_cons, List.foldl_cons, List.map_cons,
          List.foldl_cons]
        refine ih _ _ ?_
        intro observation hobservation
        obtain rfl := Option.some.inj hobservation
        exact absorbed_addTransition transitions poll
      · rw [hquiet, List.filterMap_cons_none (by rfl), List.map_cons, List.foldl_cons,
          addTransition_absorbed (habsorbed poll.2 hlast)]
        exact ih schedule transitions habsorbed

theorem loggedPolls_sublist (polls : List Poll) : ∀ schedule : WatchSchedule,
    (loggedPolls schedule polls).Sublist polls := by
  induction polls with
  | nil => exact fun schedule => List.Sublist.refl _
  | cons poll rest ih =>
      intro schedule
      rw [loggedPolls, decisions, List.zip_cons_cons]
      rcases shouldLog_cases schedule poll with hlog | ⟨hquiet, -, -⟩
      · rw [hlog, List.filterMap_cons_some (by rfl)]
        exact (ih _).cons_cons poll
      · rw [hquiet, List.filterMap_cons_none (by rfl)]
        exact (ih schedule).cons poll

/-! ## The summary of a session -/

/-- Polls as the writer makes them: a byte exactly when the global is
    initialized, and a clock and counters that do not go back. -/
structure Polled (polls : List Poll) : Prop where
  fits : ∀ poll ∈ polls, poll.2.value.isSome = poll.2.initialized
    ∧ poll.2.serializerCalls < 2 ^ 64 ∧ poll.2.storedDumps < 2 ^ 64
  forward : polls.Pairwise fun a b =>
    a.1 ≤ b.1 ∧ a.2.serializerCalls ≤ b.2.serializerCalls ∧ a.2.storedDumps ≤ b.2.storedDumps

/-- Writes whose rows are the logged polls can be made by a session. -/
theorem issued_of_polled {polls : List Poll} {ops : List LogOp} (h : Polled polls)
    (hrows : ops.filterMap LogOp.sample? = loggedPolls .default polls)
    (hcaptures : ∀ capture ∈ ops.filterMap LogOp.capture?, capture.sequence < 2 ^ 64)
    (hdistinct : ((ops.filterMap LogOp.capture?).map Capture.sequence).Nodup) : Issued ops where
  fits := by
    intro op hop
    cases op with
    | watch elapsedMs observation =>
        have hsample : (elapsedMs, observation) ∈ ops.filterMap LogOp.sample? :=
          List.mem_filterMap.mpr ⟨_, hop, rfl⟩
        rw [hrows] at hsample
        exact h.fits _ ((loggedPolls_sublist polls .default).subset hsample)
    | append capture => exact hcaptures capture (List.mem_filterMap.mpr ⟨_, hop, rfl⟩)
    | status s => trivial
    | codecEvent line => trivial
    | applicationEvent line => trivial
    | codecCounts elapsedMs counts => trivial
    | applicationCounts elapsedMs counts => trivial
    | dumpWritten sequence elapsedMs => trivial
  distinct := hdistinct
  forward := by
    rw [hrows]
    exact h.forward.sublist (loggedPolls_sublist polls .default)

/-- **Nothing is lost in the rows.**  The first poll is logged, every poll saw
    what the latest logged one saw, less than the heartbeat before; and the
    summary of a session whose rows are the logged polls has the transitions
    of all polls. -/
theorem rows_keep_changes (polls : List Poll) :
    (∀ first ∈ polls[0]?, (decisions .default polls)[0]? = some true)
      ∧ (∀ i poll, polls[i]? = some poll →
          ∃ j row, LatestLogged polls (decisions .default polls) i poll j row)
      ∧ ∀ (contents : Str) (config : Config) (liveVersion : Str) (files : FileOutcomes)
          (log : CaptureLog) (number : Nat) (ops : List LogOp) (path : LogReaders.Path),
          parse contents = .ok config → validateConfig config liveVersion = .ok () →
          CaptureLog.create files config = .ok (log, number) → Polled polls →
          ops.filterMap LogOp.sample? = loggedPolls .default polls →
          (∀ capture ∈ ops.filterMap LogOp.capture?, capture.sequence < 2 ^ 64) →
          ((ops.filterMap LogOp.capture?).map Capture.sequence).Nodup →
          (bytes (ops.foldl LogOp.perform log).written).length ≤ maxLogBytes →
          ∃ session,
            readSession path (bytes (ops.foldl LogOp.perform log).written) = .ok session
            ∧ session.globalTransitions = changes polls := by
  refine ⟨?_, fun i poll h => latest_logged h, ?_⟩
  · intro first hfirst
    obtain ⟨j, row, hrow⟩ := latest_logged hfirst
    obtain rfl := Nat.le_zero.mp hrow.le
    exact hrow.logged
  · intro contents config liveVersion files log number ops path hparse hvalid hcreate hpolled
      hrows hcaptures hdistinct hsize
    obtain ⟨mask, -, rfl⟩ := create_log hcreate
    have hissued := issued_of_polled hpolled hrows hcaptures hdistinct
    rw [written_lines] at hsize ⊢
    refine ⟨_, readSession_of_lines path (readSessionLines_file path mask
      (headerFields_fine hparse hvalid) hissued) rfl hsize, ?_⟩
    -- the reader folds the logged rows, and the others add nothing
    show ((ops.filterMap LogOp.sample?).map sampleRow).foldl addTransition [] = changes polls
    have hnone : ∀ observation ∈ WatchSchedule.default.last, Absorbed [] observation := by
      intro observation hobservation
      cases hobservation
    rw [hrows, transitions_logged polls .default [] hnone, foldl_addTransition]
    rfl

/-- A global that is initialized late and then changes. -/
def changingPolls : List Poll :=
  [(0, ⟨false, none, 0, 0⟩), (250, ⟨true, some 0, 0, 0⟩), (500, ⟨true, some 0, 0, 0⟩),
    (750, ⟨true, some 1, 0, 0⟩)]

theorem rows_keep_changes_late_global : ∃ config log number,
    parse oneByteConfig = .ok config
      ∧ CaptureLog.create emptyDirectory config = .ok (log, number)
      ∧ ∃ session, readSession ⟨[], []⟩ (bytes ((([0, 1, 3].filterMap
          (changingPolls[·]?)).map fun poll => LogOp.watch poll.1 poll.2).foldl
            LogOp.perform log).written) = .ok session
        ∧ session.globalTransitions = [⟨250, 0⟩, ⟨750, 1⟩] := by
  have hsession : oneByteSession (([0, 1, 3].filterMap (changingPolls[·]?)).map
      fun poll => LogOp.watch poll.1 poll.2) = .ok () := by decide +kernel
  obtain ⟨config, log, number, hparse, hvalid, hcreate, hsize⟩ := oneByteSession_ok hsession
  have hpolled : Polled changingPolls := by
    constructor
    · decide
    · decide
  exact ⟨config, log, number, hparse, hcreate,
    (rows_keep_changes changingPolls).2.2 _ config _ _ log number _ ⟨[], []⟩ hparse hvalid hcreate
      hpolled (by decide) (by decide) (by decide) hsize⟩

end TeamAttack
