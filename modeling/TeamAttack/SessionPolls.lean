import TeamAttack.RecorderProgress
import TeamAttack.SessionReadBack
import TeamAttack.WatchRows

/-! # What a session polled, and what its summary tells

    The watcher polls the global in every pass of the writer loop but logs
    few of its polls.  The watch rows of any run are the logged ones of the
    polls that were made (`watches_logged`), so what `read_session` says of a
    recorded file it says of every poll (`session_tells_polls`). -/

namespace TeamAttack

open RustStr LogReaders Watch

/-! ## The logged polls -/

/-- A poll is logged or not, and then the next. -/
theorem loggedPolls_cons (schedule : WatchSchedule) (poll : Poll) (rest : List Poll) :
    loggedPolls schedule (poll :: rest)
      = (if (schedule.shouldLog poll.1 poll.2).1 then [poll] else [])
        ++ loggedPolls (schedule.shouldLog poll.1 poll.2).2 rest := by
  rw [loggedPolls, decisions, List.zip_cons_cons]
  cases hlog : (schedule.shouldLog poll.1 poll.2).1 with
  | true =>
      rw [List.filterMap_cons_some (by rfl)]
      rfl
  | false =>
      rw [List.filterMap_cons_none (by rfl)]
      rfl

theorem loggedPolls_append (xs ys : List Poll) : ∀ schedule : WatchSchedule,
    loggedPolls schedule (xs ++ ys)
      = loggedPolls schedule xs
        ++ loggedPolls (xs.foldl (fun s poll => (s.shouldLog poll.1 poll.2).2) schedule) ys := by
  induction xs with
  | nil => exact fun schedule => rfl
  | cons poll rest ih =>
      intro schedule
      rw [List.cons_append, loggedPolls_cons, loggedPolls_cons, ih, List.append_assoc]
      rfl

/-- The polls whose row is still to come have seen what the last row says,
    within the heartbeat. -/
def Covers (row poll : Poll) : Prop := row.2 = poll.2 ∧ poll.1.toNat < row.1.toNat + 5000

theorem covers_self (poll : Poll) : Covers poll poll := ⟨rfl, by omega⟩

/-- The row of the next poll is the poll itself or the row before. -/
theorem logged_next (row poll : Poll) (rest : List Poll) :
    (loggedPolls ⟨some row.2, row.1⟩ (poll :: rest) = poll :: loggedPolls ⟨some poll.2, poll.1⟩ rest)
      ∨ (loggedPolls ⟨some row.2, row.1⟩ (poll :: rest) = loggedPolls ⟨some row.2, row.1⟩ rest
        ∧ Covers row poll) := by
  rw [loggedPolls_cons]
  rcases shouldLog_cases ⟨some row.2, row.1⟩ poll with hlog | ⟨hquiet, hlast, hrecent⟩
  · rw [hlog]
    exact Or.inl rfl
  · rw [hquiet]
    exact Or.inr ⟨rfl, Option.some.inj hlast, hrecent⟩

/-- The first poll is logged. -/
theorem logged_first (poll : Poll) (rest : List Poll) :
    loggedPolls .default (poll :: rest) = poll :: loggedPolls ⟨some poll.2, poll.1⟩ rest := by
  rw [loggedPolls_cons]
  rcases shouldLog_cases .default poll with hlog | ⟨-, hlast, -⟩
  · rw [hlog]
    rfl
  · cases hlast

/-- **The last row stands for the last poll.** -/
theorem last_logged (polls : List Poll) : ∀ row poll : Poll, Covers row poll →
    Covers ((row :: loggedPolls ⟨some row.2, row.1⟩ polls).getLast (List.cons_ne_nil _ _))
      ((poll :: polls).getLast (List.cons_ne_nil _ _)) := by
  induction polls with
  | nil => exact fun row poll h => h
  | cons next rest ih =>
      intro row poll h
      rw [List.getLast_cons_cons]
      rcases logged_next row next rest with hlog | ⟨hquiet, hcovers⟩
      · simp only [hlog, List.getLast_cons_cons]
        exact ih next next (covers_self next)
      · simp only [hquiet]
        exact ih row next hcovers

theorem last_row {polls : List Poll} {last : Poll} (h : last ∈ polls.getLast?) :
    ∃ row ∈ (loggedPolls .default polls).getLast?, Covers row last := by
  cases polls with
  | nil => cases h
  | cons first rest =>
      rw [List.getLast?_eq_some_getLast (List.cons_ne_nil _ _)] at h
      obtain rfl := Option.some.inj h
      rw [logged_first, List.getLast?_eq_some_getLast (List.cons_ne_nil _ _)]
      exact ⟨_, rfl, last_logged rest first first (covers_self first)⟩

/-- **Rows are less than the heartbeat and a poll apart.** -/
theorem logged_gaps (gap : Nat) (polls : List Poll) : ∀ row poll : Poll, Covers row poll →
    (poll :: polls).IsChain (fun a b => b.1.toNat ≤ a.1.toNat + gap) →
    (row :: loggedPolls ⟨some row.2, row.1⟩ polls).IsChain
      (fun a b => b.1.toNat < a.1.toNat + 5000 + gap) := by
  induction polls with
  | nil => exact fun row poll _ _ => List.IsChain.singleton row
  | cons next rest ih =>
      intro row poll h hchain
      obtain ⟨hnext, hrest⟩ := List.isChain_cons_cons.mp hchain
      rcases logged_next row next rest with hlog | ⟨hquiet, hcovers⟩
      · rw [hlog]
        refine List.isChain_cons_cons.mpr ⟨?_, ih next next (covers_self next) hrest⟩
        have hrecent := h.2
        omega
      · rw [hquiet]
        exact ih row next hcovers hrest

/-- Every poll saw what some row says. -/
theorem logged_seen (polls : List Poll) : ∀ row : Poll, ∀ poll ∈ polls,
    ∃ seen ∈ row :: loggedPolls ⟨some row.2, row.1⟩ polls, seen.2 = poll.2 := by
  induction polls with
  | nil =>
      intro row poll h
      cases h
  | cons next rest ih =>
      intro row poll h
      rcases logged_next row next rest with hlog | ⟨hquiet, hcovers⟩
      · rw [hlog]
        rcases List.mem_cons.mp h with rfl | h
        · exact ⟨poll, by simp, rfl⟩
        · obtain ⟨seen, hseen, heq⟩ := ih next poll h
          exact ⟨seen, List.mem_cons_of_mem _ hseen, heq⟩
      · rw [hquiet]
        rcases List.mem_cons.mp h with rfl | h
        · exact ⟨row, List.mem_cons_self, hcovers.1⟩
        · exact ih row poll h

/-! ## The summary of the rows -/

/-- The values of the initialized polls. -/
def polledValues (polls : List Poll) : List Nat :=
  polls.filterMap fun poll => poll.2.value.map UInt8.toNat

/-- What a summary tells of the polls of its session. -/
structure Tells (session : Session) (polls : List Poll) : Prop where
  transitions : session.globalTransitions = changes polls
  sorted : session.initializedGlobalValues.Pairwise (· < ·)
  values : ∀ n, n ∈ session.initializedGlobalValues ↔ n ∈ polledValues polls
  boolean : session.containsNonBooleanValue = true ↔ ∃ n ∈ polledValues polls, 1 < n
  calls : session.serializerCalls = polls.getLast?.map fun poll => poll.2.serializerCalls
  clock : ∀ last ∈ polls.getLast?, ∃ elapsedMs ∈ session.lastElapsedMs,
    last.1.toNat < elapsedMs + 5000
  gaps : ∀ gap, polls.IsChain (fun a b => b.1.toNat ≤ a.1.toNat + gap) →
    ∀ largest ∈ session.largestWatchGapMs, largest < 5000 + gap

theorem mem_polledValues {polls : List Poll} {n : Nat} :
    n ∈ polledValues polls ↔ ∃ poll ∈ polls, poll.2.value.map UInt8.toNat = some n :=
  List.mem_filterMap

/-- The rows have the values of the polls. -/
theorem polledValues_logged (polls : List Poll) (n : Nat) :
    n ∈ polledValues (loggedPolls .default polls) ↔ n ∈ polledValues polls := by
  rw [mem_polledValues, mem_polledValues]
  constructor
  · rintro ⟨row, hrow, hvalue⟩
    exact ⟨row, (loggedPolls_sublist polls .default).subset hrow, hvalue⟩
  · rintro ⟨poll, hpoll, hvalue⟩
    cases polls with
    | nil => cases hpoll
    | cons first rest =>
        rw [logged_first]
        rcases List.mem_cons.mp hpoll with rfl | hpoll
        · exact ⟨poll, List.mem_cons_self, hvalue⟩
        · obtain ⟨seen, hseen, heq⟩ := logged_seen rest first poll hpoll
          exact ⟨seen, hseen, by rw [heq]; exact hvalue⟩

theorem filterMap_sampleRow (rows : List Poll) :
    (rows.map sampleRow).filterMap Row.value = polledValues rows := by
  rw [List.filterMap_map]
  rfl

/-- The largest of the differences. -/
theorem gaps_max {gap : Nat} {rows : List Row}
    (h : rows.IsChain fun a b => b.elapsedMs < a.elapsedMs + 5000 + gap) :
    ∀ largest ∈ (List.zipWith (fun a b : Row => b.elapsedMs - a.elapsedMs) rows rows.tail).max?,
      largest < 5000 + gap := by
  intro largest hlargest
  have hmem := List.max?_mem hlargest
  obtain ⟨i, hi, heq⟩ := List.mem_iff_getElem.mp hmem
  have hstep := List.isChain_iff_getElem.mp h
  rw [List.length_zipWith, List.length_tail] at hi
  have hgap := hstep i (by omega)
  rw [List.getElem_zipWith, List.getElem_tail] at heq
  omega

/-- The logged rows have the changes of all polls. -/
theorem transitions_rows (polls : List Poll) :
    ((loggedPolls .default polls).map sampleRow).foldl addTransition [] = changes polls := by
  have hnone : ∀ observation ∈ WatchSchedule.default.last, Absorbed [] observation := by
    intro observation hobservation
    cases hobservation
  rw [transitions_logged polls .default [] hnone, foldl_addTransition]
  rfl

/-- **The summary of the logged rows tells what all polls saw.** -/
theorem tells_polls (path : Path) (metadata : List Field) (dumps : List (Nat × List Str))
    (statuses : List Str) (polls : List Poll) :
    Tells (SessionState.session ⟨metadata, (loggedPolls .default polls).map sampleRow, dumps,
      ((loggedPolls .default polls).map sampleRow).foldl addTransition [], statuses⟩ path)
      polls := by
  have hvalues : ∀ n, n ∈ ((((loggedPolls .default polls).map sampleRow).filterMap
      Row.value).dedup.mergeSort) ↔ n ∈ polledValues polls := by
    intro n
    rw [List.mem_mergeSort, List.mem_dedup, filterMap_sampleRow, polledValues_logged]
  refine ⟨transitions_rows polls, ?_, hvalues, ?_, ?_, ?_, ?_⟩
  · have hnodup : ((((loggedPolls .default polls).map sampleRow).filterMap
        Row.value).dedup.mergeSort).Nodup :=
      (List.mergeSort_perm _ _).nodup_iff.mpr (List.nodup_dedup _)
    have hsorted := List.pairwise_mergeSort' (· ≤ ·)
      (((loggedPolls .default polls).map sampleRow).filterMap Row.value).dedup
    exact (hsorted.and hnodup).imp fun h => Nat.lt_of_le_of_ne h.1 h.2
  · show ((((loggedPolls .default polls).map sampleRow).filterMap
      Row.value).dedup.mergeSort.any fun value => !(value = 0 || value = 1)) = true ↔ _
    rw [List.any_eq_true]
    refine exists_congr fun n => and_congr (hvalues n) ?_
    simp only [Bool.not_eq_true', Bool.or_eq_false_iff, decide_eq_false_iff_not]
    omega
  · show ((loggedPolls .default polls).map sampleRow).getLast?.map Row.calls = _
    rw [List.getLast?_map, Option.map_map]
    cases hlast : polls.getLast? with
    | none =>
        obtain rfl := List.getLast?_eq_none_iff.mp hlast
        rfl
    | some last =>
        obtain ⟨row, hrow, hcovers⟩ := last_row hlast
        rw [Option.mem_def.mp hrow]
        exact congrArg (fun observation => some observation.serializerCalls) hcovers.1
  · intro last hlast
    obtain ⟨row, hrow, hcovers⟩ := last_row hlast
    refine ⟨row.1.toNat, ?_, hcovers.2⟩
    show ((loggedPolls .default polls).map sampleRow).getLast?.map Row.elapsedMs = _
    rw [List.getLast?_map, Option.mem_def.mp hrow]
    rfl
  · intro gap hchain
    refine gaps_max ?_
    cases polls with
    | nil => exact List.IsChain.nil
    | cons first rest =>
        rw [logged_first]
        exact (List.isChain_map sampleRow).mpr
          (logged_gaps gap rest first first (covers_self first) hchain)

end TeamAttack

namespace TeamAttack.Recorder

open Runs Hoare RustStr LogReaders Watch Install CaptureSchedule

/-! ## The polls of a run -/

section Polls

variable {P : Type} [DecidableEq P]

/-- What the watcher sees. -/
def State.observe (t : State P) (reading : Reading) : Watch.Observation where
  initialized := reading.guard &&& 1 ≠ 0
  value := if reading.guard &&& 1 ≠ 0 then some reading.global else none
  serializerCalls := t.counters (.calls .serializer)
  storedDumps := t.writer.storedDumps

/-- The poll a step makes. -/
def State.poll? (t : State P) : Move P → Option Poll
  | .call .. => none
  | .write reading =>
      match t.writer.phase with
      | .work (.watch :: _) => some (t.writer.elapsedMs, t.observe reading)
      | _ => none

/-- The polls of a run. -/
def Recording.polls (source : P → Source) (config : Config) (startTick : UInt64) :
    Recording P → List (Move P) → List Poll
  | _, [] => []
  | x, move :: moves =>
      (x.recorder.poll? move).toList
        ++ match x.advance source config startTick move with
          | none => []
          | some (_, y) => y.polls source config startTick moves

variable {source : P → Source} {config : Config} {startTick : UInt64} {t t' : State P}
  {h es : List (Event P)}

/-- What a step does to the rows and to the schedule. -/
def Watched (t t' : State P) (es : List (Event P)) (polls : List Poll) : Prop :=
  watchesOf es = loggedPolls t.writer.schedule polls
    ∧ t'.writer.schedule
      = polls.foldl (fun s poll => (s.shouldLog poll.1 poll.2).2) t.writer.schedule

omit [DecidableEq P] in
theorem watched_watchTask {reading : Reading} {rest : List Task}
    (h : watchTask t reading rest = (es, t')) :
    Watched t t' es [(t.writer.elapsedMs, t.observe reading)] := by
  rw [Watched, loggedPolls_cons]
  simp only [watchTask] at h
  have hsame : t.observe reading
      = { initialized := reading.guard &&& 1 ≠ 0
          value := if reading.guard &&& 1 ≠ 0 then some reading.global else none
          serializerCalls := t.counters (.calls .serializer)
          storedDumps := t.writer.storedDumps } := rfl
  rw [hsame]
  split at h
  case h_1 schedule hlog =>
    obtain ⟨rfl, rfl⟩ := Prod.mk.inj h
    simp only [List.foldl_cons, List.foldl_nil, hlog]
    exact ⟨rfl, trivial⟩
  case h_2 schedule hlog =>
    obtain ⟨rfl, rfl⟩ := Prod.mk.inj h
    simp only [List.foldl_cons, List.foldl_nil, hlog]
    exact ⟨rfl, trivial⟩

theorem watched_call {p : P} {supplied : Supplied}
    (h : callStep source config t p supplied = some (es, t')) : Watched t t' es [] := by
  cases called_of_callStep h with
  | begin | enter | skip | captured | lost | passed => exact ⟨rfl, rfl⟩
  | produce s supplied' spurious fs schedule =>
      refine ⟨?_, rfl⟩
      exact List.filterMap_eq_nil_iff.mpr fun e he => by
        obtain ⟨f, -, rfl⟩ := List.mem_map.mp he
        rfl

omit [DecidableEq P] in
/-- A step that writes no watch row and leaves the schedule. -/
theorem watched_none {w : Writer} {stores : StoreId → Schedule P Visit}
    (hes : ∀ e ∈ es, ∀ elapsedMs observation, e ≠ .watch elapsedMs observation)
    (hw : w.schedule = t.writer.schedule) :
    Watched t { t with stores, writer := w } es [] := by
  refine ⟨?_, hw⟩
  exact List.filterMap_eq_nil_iff.mpr fun e he => by
    have hno := hes e he
    cases e with
    | watch elapsedMs observation => exact absurd rfl (hno elapsedMs observation)
    | called | dropped | store | visit | line | row | status | flush => rfl

omit [DecidableEq P] in
theorem watched_taskStep {reading : Reading} {task : Task} {rest : List Task}
    (hphase : t.writer.phase = .work (task :: rest))
    (h : taskStep t reading rest task = some (es, t')) :
    Watched t t' es (t.poll? (.write reading)).toList := by
  simp only [State.poll?, hphase]
  cases task with
  | watch => exact watched_watchTask (Option.some.inj h)
  | take s i =>
      obtain ⟨⟨fs, schedule⟩, -, hpair⟩ := Option.map_eq_some_iff.mp h
      obtain ⟨rfl, rfl⟩ := Prod.mk.inj hpair
      exact watched_none (by simp) rfl
  | load c =>
      obtain ⟨rfl, rfl⟩ := Prod.mk.inj (Option.some.inj h)
      exact watched_none (by simp) rfl
  | report probe =>
      simp only [taskStep, reportTask] at h
      split_ifs at h
      all_goals
        obtain ⟨rfl, rfl⟩ := Prod.mk.inj (Option.some.inj h)
        exact watched_none (by simp) rfl
  | flush =>
      obtain ⟨rfl, rfl⟩ := Prod.mk.inj (Option.some.inj h)
      refine watched_none ?_ rfl
      intro e he
      split_ifs at he
      · rw [List.mem_singleton.mp he]
        simp
      · cases he

omit [DecidableEq P] in
theorem watched_write {reading : Reading}
    (h : writeStep config startTick t reading = some (es, t')) :
    Watched t t' es (t.poll? (.write reading)).toList := by
  unfold writeStep at h
  cases hphase : t.writer.phase with
  | work agenda =>
      cases agenda with
      | nil =>
          simp only [hphase] at h
          obtain ⟨rfl, rfl⟩ := Prod.mk.inj (Option.some.inj h)
          simp only [State.poll?, hphase]
          exact watched_none (by simp) rfl
      | cons task rest =>
          simp only [hphase] at h
          exact watched_taskStep hphase h
  | sleep =>
      simp only [hphase] at h
      simp only [State.poll?, hphase]
      obtain ⟨rfl, rfl⟩ := Prod.mk.inj (Option.some.inj h)
      exact watched_none (by simp) rfl
  | hookStatus | limit =>
      simp only [hphase] at h
      simp only [State.poll?, hphase]
      split_ifs at h
      all_goals
        obtain ⟨rfl, rfl⟩ := Prod.mk.inj (Option.some.inj h)
        exact watched_none (by simp) rfl
  | read s c rest =>
      simp only [hphase, readStep] at h
      simp only [State.poll?, hphase]
      cases hconsume : consume Prod.snd (t.stores s) c with
      | none =>
          rw [hconsume] at h
          cases h
      | some x =>
          obtain ⟨fs, schedule⟩ := x
          simp only [hconsume] at h
          split at h
          · obtain ⟨rfl, rfl⟩ := Prod.mk.inj (Option.some.inj h)
            exact watched_none (by simp) rfl
          · cases h
  | returned =>
      simp only [hphase] at h
      cases h

theorem watched_step {move : Move P}
    (h : Recorder.advance source config startTick t move = some (es, t')) :
    Watched t t' es (t.poll? move).toList := by
  cases move with
  | call p supplied => exact watched_call h
  | write reading => exact watched_write h

variable {x y : Recording P} {moves : List (Move P)}

theorem recorder_advance {move : Move P}
    (h : x.advance source config startTick move = some (es, y)) :
    Recorder.advance source config startTick x.recorder move = some (es, y.recorder) := by
  simp only [Recording.advance] at h
  split_ifs at h
  obtain ⟨⟨fs, t⟩, hadvance, hpair⟩ := Option.map_eq_some_iff.mp h
  obtain ⟨rfl, rfl⟩ := Prod.mk.inj hpair
  exact hadvance

/-- A run begins with a move. -/
theorem exec_cons {move : Move P}
    (h : exec (Recording.advance source config startTick) x (move :: moves) = some (es, y)) :
    ∃ fs z gs, x.advance source config startTick move = some (fs, z)
      ∧ exec (Recording.advance source config startTick) z moves = some (gs, y)
      ∧ es = fs ++ gs
      ∧ x.polls source config startTick (move :: moves)
        = (x.recorder.poll? move).toList ++ z.polls source config startTick moves := by
  rw [exec] at h
  cases hadvance : x.advance source config startTick move with
  | none =>
      rw [hadvance] at h
      cases h
  | some first =>
      obtain ⟨fs, z⟩ := first
      rw [hadvance] at h
      obtain ⟨⟨gs, z'⟩, hrest, hpair⟩ := Option.map_eq_some_iff.mp h
      obtain ⟨rfl, rfl⟩ := Prod.mk.inj hpair
      refine ⟨fs, z, gs, rfl, hrest, rfl, ?_⟩
      rw [Recording.polls, hadvance]

/-- **The watch rows are the logged ones of the polls.** -/
theorem watches_logged
    (h : exec (Recording.advance source config startTick) x moves = some (es, y)) :
    watchesOf es
      = loggedPolls x.recorder.writer.schedule (x.polls source config startTick moves) := by
  induction moves generalizing x es with
  | nil =>
      obtain ⟨rfl, -⟩ := Prod.mk.inj (Option.some.inj h)
      rfl
  | cons move moves ih =>
      obtain ⟨fs, z, gs, hfirst, hrest, rfl, hpolls⟩ := exec_cons h
      obtain ⟨hrows, hschedule⟩ := watched_step (recorder_advance hfirst)
      rw [hpolls, watchesOf_append, hrows, ih hrest, hschedule, loggedPolls_append]

omit [DecidableEq P] in
theorem watch_task (h : Task.watch ∈ tasks config) : config.pollGlobalTeamAttack = true := by
  by_contra hoff
  rw [Bool.not_eq_true] at hoff
  simp [tasks, hoff, Probe.tasks, Probe.drain] at h

/-- A session that does not poll makes no poll. -/
theorem polls_off (hoff : config.pollGlobalTeamAttack = false)
    (hrun : Run (Step source config startTick) (State.start P) h x.recorder)
    (hexec : exec (Recording.advance source config startTick) x moves = some (es, y)) :
    x.polls source config startTick moves = [] := by
  induction moves generalizing x h es with
  | nil => rfl
  | cons move moves ih =>
      obtain ⟨fs, z, gs, hfirst, hrest, rfl, hpolls⟩ := exec_cons hexec
      have hadvance := recorder_advance hfirst
      rw [hpolls, ih (hrun.tail ⟨move, hadvance⟩) hrest, List.append_nil]
      cases move with
      | call p supplied => rfl
      | write reading =>
          -- no task of the loop body is a watch
          have hagenda := agenda_suffix hrun
          simp only [State.poll?]
          split
          case h_2 => rfl
          case h_1 rest hphase =>
            rw [hphase] at hagenda
            have hon := watch_task (hagenda.subset List.mem_cons_self)
            rw [hoff] at hon
            cases hon

end Polls

/-- A reader finds the fields of the header. -/
theorem header_lookup {config : Config} {key : String} {value : Str}
    (h : (key, value) ∈ headerKeys config) :
    (headerFields config).lookup key.toList = some value :=
  PyDict.lookup_eq_some (headerFields_nodup config) (List.mem_map_of_mem h)

/-- The header says whether the session polls. -/
theorem watchEnabled_header (config : Config) :
    decide ((headerFields config).lookup "poll_global_team_attack".toList = some "true".toList)
      = config.pollGlobalTeamAttack := by
  have hmem : ("poll_global_team_attack", showBool config.pollGlobalTeamAttack)
      ∈ headerKeys config :=
    List.mem_append_left _ (List.mem_append_left _ (.tail _ (.tail _ (.tail _ (.head _)))))
  rw [header_lookup hmem]
  cases config.pollGlobalTeamAttack with
  | true => decide
  | false => decide

/-- **What the summary tells, it tells of every poll.**  Let `prepare` have
    ended for the configuration `main` loaded, and let the callbacks and the
    writer thread do anything from there.  If the file is not too long, its
    summary has the changes, the values and the last calls of all the polls
    the session made, logged or not, and rows that are less than the heartbeat
    and a poll apart; it counts the rows and the dumps that were written; and a
    session polls only if its summary says so, and has no row if not. -/
theorem session_tells_polls (env : Env) (config : Config)
    (addresses : Option (UInt64 × UInt64)) (b : Boot)
    (hload : Config.load env.configFile = .ok (some config))
    (hprepare : outcome (prepare env config) Boot.start = (.ok addresses, b)) :
    ∃ log, b.log = some log ∧ ∀ (path : Path) (P : Type) [DecidableEq P] (source : P → Source)
      (moves : List (Move P)) (h : List (Event P)) (x : Recording P),
      exec (Recording.advance source config env.startTick) (.start P log env.startTick) moves
        = some (h, x) →
      x.recorder.counters (.calls .serializer) < 2 ^ 64 →
      (bytes x.log.written).length ≤ maxLogBytes →
      ∃ session, readSession path (bytes x.log.written) = .ok session
        ∧ Tells session ((Recording.start P log env.startTick).polls source config env.startTick
          moves)
        ∧ session.watchRows = (watchesOf h).length
        ∧ session.serializerDumps = (linesOf .compact h).length
        ∧ session.watchEnabled = config.pollGlobalTeamAttack
        ∧ (session.watchEnabled = false →
          (Recording.start P log env.startTick).polls source config env.startTick moves = []
          ∧ session.watchRows = 0) := by
  obtain ⟨log, hlog, hfiles⟩ := session_file hload hprepare
  refine ⟨log, hlog, fun path P _ source moves h x hexec hcalls hsize => ?_⟩
  obtain ⟨mask, ops, hfile⟩ := hfiles P source h x (run_of_exec hexec) hcalls
  have hwatches := watches_logged hexec
  have henabled := watchEnabled_header config
  have hrows : ((watchesOf h).map sampleRow).length = (watchesOf h).length := List.length_map _
  refine ⟨_, hfile.readSession path hsize, ?_, hrows, List.length_map _, henabled, fun hoff => ?_⟩
  · rw [sessionState, hwatches]
    exact tells_polls path ..
  · have hnone := polls_off (henabled.symm.trans hoff) (.refl _) hexec
    rw [hnone] at hwatches
    exact ⟨hnone, hrows.trans (congrArg List.length hwatches)⟩

/-- The global was set when it was first seen, and three dumps were written. -/
theorem session_tells_polls_once : ∃ (session : Session) (x : Recording Setting),
    readSession ⟨[], []⟩ (bytes x.log.written) = .ok session
      ∧ session.globalTransitions = [⟨250, 1⟩] ∧ session.watchRows = 1
      ∧ session.serializerDumps = 3 ∧ session.watchEnabled = true := by
  obtain ⟨addresses, b, hprepare, hlog⟩ := watch_prepares
  obtain ⟨log, hlog', htells⟩ :=
    session_tells_polls watchEnv watchConfig addresses b watch_loads hprepare
  obtain rfl := Option.some.inj (hlog'.symm.trans hlog)
  obtain ⟨h, x, hexec, hsize, hcalls, hlines, hwatches, -⟩ := session_scene
  obtain ⟨session, hsession, hpolls, hrows, hdumps, henabled, -⟩ :=
    htells ⟨[], []⟩ Setting _ _ h x hexec hcalls hsize
  rw [hwatches] at hrows
  rw [hlines] at hdumps
  refine ⟨session, x, hsession, ?_, hrows, hdumps, henabled⟩
  rw [hpolls.transitions, ← transitions_rows]
  have hlogged := watches_logged hexec
  rw [hwatches] at hlogged
  exact congrArg (fun rows => (List.map sampleRow rows).foldl addTransition []) hlogged.symm

end TeamAttack.Recorder
