import TeamAttack.EventText
import TeamAttack.RecorderLines

/-! # The clock, the watch rows and the dumps of the writer

    `step_cases` leaves out the writer's clock, its count of dumps and its
    watch rows.  `noted_of_step` says what a step does to these, and from it
    every watch row tells how many dumps stand above it, and the serializer
    calls so far (`watched_run`). -/

namespace TeamAttack.Recorder

open Runs CaptureSchedule OnceBoard

section Notes

variable {P : Type}

/-- The watch rows, in order. -/
def watchesOf (h : List (Event P)) : List (UInt64 × Watch.Observation) :=
  h.filterMap fun e =>
    match e with
    | .watch elapsedMs observation => some (elapsedMs, observation)
    | _ => none

/-- The status lines, in order. -/
def statusesOf (h : List (Event P)) : List String :=
  h.filterMap fun e =>
    match e with
    | .status message => some message
    | _ => none

@[simp] theorem watchesOf_append (h k : List (Event P)) :
    watchesOf (h ++ k) = watchesOf h ++ watchesOf k := List.filterMap_append

@[simp] theorem statusesOf_append (h k : List (Event P)) :
    statusesOf (h ++ k) = statusesOf h ++ statusesOf k := List.filterMap_append

/-- The status lines of the writer loop. -/
def writerStatuses : List Status := [.hookInstalled, .watchLimitReached]

/-- What a step says of the dumps, the watch rows and the status lines. -/
structure Noted (t : State P) (es : List (Event P)) (t' : State P) : Prop where
  dumps : t'.writer.storedDumps = t.writer.storedDumps + (linesOf .compact es).length
  clock : t.writer.phase = .sleep ∨ t'.writer.elapsedMs = t.writer.elapsedMs
  watch : ∀ elapsedMs observation, .watch elapsedMs observation ∈ es →
    elapsedMs = t.writer.elapsedMs ∧ observation.storedDumps = t.writer.storedDumps
      ∧ observation.serializerCalls = t.counters (.calls .serializer)
      ∧ observation.value.isSome = observation.initialized
  status : ∀ message, .status message ∈ es →
    ∃ s ∈ writerStatuses, s.message = message.toList
  row : ∀ probe elapsedMs counts, .row probe elapsedMs counts ∈ es →
    elapsedMs = t.writer.elapsedMs

/-- A step without events that leaves the count of dumps alone. -/
theorem Noted.silent {t t' : State P} (hdumps : t'.writer.storedDumps = t.writer.storedDumps)
    (hclock : t.writer.phase = .sleep ∨ t'.writer.elapsedMs = t.writer.elapsedMs) :
    Noted t [] t' where
  dumps := hdumps
  clock := hclock
  watch := fun _ _ h => nomatch h
  status := fun _ h => nomatch h
  row := fun _ _ _ h => nomatch h

/-- A step of a callback. -/
theorem Noted.of_stores {t t' : State P} {es : List (Event P)} (hwriter : t'.writer = t.writer)
    (hes : ∀ e ∈ es, e.caller?.isSome ∨ ∃ s f, e = .store s f) : Noted t es t' where
  dumps := by
    have hlines : linesOf .compact es = [] := by
      refine List.filterMap_eq_nil_iff.mpr fun e he => ?_
      rcases hes e he with hcaller | ⟨s, f, rfl⟩
      · cases e with
        | line => cases hcaller
        | called | dropped | store | visit | row | watch | status | flush => rfl
      · rfl
    rw [hwriter, hlines]
    rfl
  clock := Or.inr (by rw [hwriter])
  watch := fun elapsedMs observation h => by
    rcases hes _ h with hcaller | ⟨s, f, heq⟩
    · cases hcaller
    · cases heq
  status := fun message h => by
    rcases hes _ h with hcaller | ⟨s, f, heq⟩
    · cases hcaller
    · cases heq
  row := fun probe elapsedMs counts h => by
    rcases hes _ h with hcaller | ⟨s, f, heq⟩
    · cases hcaller
    · cases heq

end Notes

section Steps

variable {P : Type} [DecidableEq P] {source : P → Source} {config : Config}
  {startTick : UInt64} {t t' : State P} {h es : List (Event P)}

theorem noted_of_called {p : P} (hp : Called source config t p es t') : Noted t es t' := by
  cases hp with
  | begin | lost =>
      refine .of_stores rfl fun e he => Or.inl ?_
      rw [List.mem_singleton.mp he]
      rfl
  | enter | skip | captured | passed => exact .of_stores rfl fun e he => nomatch he
  | produce s supplied spurious fs schedule hcalling hproduce =>
      refine .of_stores rfl fun e he => Or.inr ?_
      obtain ⟨f, -, rfl⟩ := List.mem_map.mp he
      exact ⟨s, f, rfl⟩

omit [DecidableEq P] in
theorem noted_of_watchTask {reading : Reading} {rest : List Task}
    (heq : watchTask t reading rest = (es, t')) : Noted t es t' := by
  simp only [watchTask] at heq
  split at heq
  · obtain ⟨rfl, rfl⟩ := Prod.mk.inj heq
    refine ⟨rfl, Or.inr rfl, fun elapsedMs observation hmem => ?_,
      fun message hmem => ?_, fun probe elapsedMs counts hmem => ?_⟩
    · cases List.mem_singleton.mp hmem
      refine ⟨rfl, rfl, rfl, ?_⟩
      -- the value is there exactly when the guard is set
      by_cases hguard : reading.guard &&& 1 = 0 <;> simp [hguard]
    · cases List.mem_singleton.mp hmem
    · cases List.mem_singleton.mp hmem
  · obtain ⟨rfl, rfl⟩ := Prod.mk.inj heq
    exact .silent rfl (Or.inr rfl)

omit [DecidableEq P] in
theorem noted_of_taskStep {reading : Reading} {rest : List Task} {task : Task}
    (heq : taskStep t reading rest task = some (es, t')) : Noted t es t' := by
  cases task with
  | take s i =>
      obtain ⟨⟨fs, schedule⟩, hconsume, hpair⟩ := Option.map_eq_some_iff.mp heq
      obtain ⟨rfl, rfl⟩ := Prod.mk.inj hpair
      refine ⟨rfl, Or.inr rfl, fun _ _ hmem => ?_, fun _ hmem => ?_, fun _ _ _ hmem => ?_⟩
        <;> cases List.mem_singleton.mp hmem
  | load c =>
      obtain ⟨rfl, rfl⟩ := Prod.mk.inj (Option.some.inj heq)
      exact .silent rfl (Or.inr rfl)
  | report probe =>
      simp only [taskStep, reportTask] at heq
      split_ifs at heq
      · obtain ⟨rfl, rfl⟩ := Prod.mk.inj (Option.some.inj heq)
        refine ⟨rfl, Or.inr rfl, fun _ _ hmem => ?_, fun _ hmem => ?_, fun _ _ _ hmem => ?_⟩
        · cases List.mem_singleton.mp hmem
        · cases List.mem_singleton.mp hmem
        · cases List.mem_singleton.mp hmem
          rfl
      · obtain ⟨rfl, rfl⟩ := Prod.mk.inj (Option.some.inj heq)
        exact .silent rfl (Or.inr rfl)
  | watch => exact noted_of_watchTask (Option.some.inj heq)
  | flush =>
      simp only [taskStep] at heq
      split_ifs at heq
      · obtain ⟨rfl, rfl⟩ := Prod.mk.inj (Option.some.inj heq)
        refine ⟨rfl, Or.inr rfl, fun _ _ hmem => ?_, fun _ hmem => ?_, fun _ _ _ hmem => ?_⟩
          <;> cases List.mem_singleton.mp hmem
      · obtain ⟨rfl, rfl⟩ := Prod.mk.inj (Option.some.inj heq)
        exact .silent rfl (Or.inr rfl)

omit [DecidableEq P] in
theorem noted_of_readStep {s : StoreId} {c : Visit} {rest : List Task}
    (heq : readStep t s c rest = some (es, t')) : Noted t es t' := by
  unfold readStep at heq
  cases hconsume : consume Prod.snd (t.stores s) c with
  | none =>
      simp only [hconsume] at heq
      exact nomatch heq
  | some x =>
      simp only [hconsume] at heq
      split at heq
      case h_2 => exact nomatch heq
      case h_1 capture hreturned =>
        obtain ⟨rfl, rfl⟩ := Prod.mk.inj (Option.some.inj heq)
        refine ⟨?_, Or.inr rfl, fun _ _ hmem => ?_, fun _ hmem => ?_, fun _ _ _ hmem => ?_⟩
        · rw [linesOf_line]
          split_ifs <;> rfl
        · cases List.mem_singleton.mp hmem
        · cases List.mem_singleton.mp hmem
        · cases List.mem_singleton.mp hmem

omit [DecidableEq P] in
/-- A status line of the writer loop. -/
theorem Noted.of_status {message : String} {t' : State P} (s : Status) (hs : s ∈ writerStatuses)
    (hmessage : s.message = message.toList)
    (hdumps : t'.writer.storedDumps = t.writer.storedDumps)
    (hclock : t'.writer.elapsedMs = t.writer.elapsedMs) : Noted t [.status message] t' where
  dumps := hdumps
  clock := Or.inr hclock
  watch := fun _ _ hmem => by cases List.mem_singleton.mp hmem
  status := fun message' hmem => by
    cases List.mem_singleton.mp hmem
    exact ⟨s, hs, hmessage⟩
  row := fun _ _ _ hmem => by cases List.mem_singleton.mp hmem

omit [DecidableEq P] in
theorem noted_of_writeStep {reading : Reading}
    (heq : writeStep config startTick t reading = some (es, t')) : Noted t es t' := by
  unfold writeStep at heq
  cases hphase : t.writer.phase with
  | sleep =>
      simp only [hphase] at heq
      obtain ⟨rfl, rfl⟩ := Prod.mk.inj (Option.some.inj heq)
      exact .silent rfl (Or.inl hphase)
  | hookStatus =>
      simp only [hphase] at heq
      split_ifs at heq
      · obtain ⟨rfl, rfl⟩ := Prod.mk.inj (Option.some.inj heq)
        exact .of_status .hookInstalled (by decide) rfl rfl rfl
      · obtain ⟨rfl, rfl⟩ := Prod.mk.inj (Option.some.inj heq)
        exact .silent rfl (Or.inr rfl)
  | limit =>
      simp only [hphase] at heq
      split_ifs at heq
      · obtain ⟨rfl, rfl⟩ := Prod.mk.inj (Option.some.inj heq)
        exact .of_status .watchLimitReached (by decide) rfl rfl rfl
      · obtain ⟨rfl, rfl⟩ := Prod.mk.inj (Option.some.inj heq)
        exact .silent rfl (Or.inr rfl)
  | work agenda =>
      cases agenda with
      | nil =>
          simp only [hphase] at heq
          obtain ⟨rfl, rfl⟩ := Prod.mk.inj (Option.some.inj heq)
          exact .silent rfl (Or.inr rfl)
      | cons task rest =>
          simp only [hphase] at heq
          exact noted_of_taskStep heq
  | read s c rest =>
      simp only [hphase] at heq
      exact noted_of_readStep heq
  | returned =>
      simp only [hphase] at heq
      exact nomatch heq

/-- **What every step says of the clock, the dumps and the watch rows.** -/
theorem noted_of_step (hs : Step source config startTick t es t') : Noted t es t' := by
  obtain ⟨mv, hmv⟩ := hs
  cases mv with
  | call p supplied => exact noted_of_called (called_of_callStep hmv)
  | write reading => exact noted_of_writeStep hmv

end Steps

/-! ## Rows -/

section Rows

variable {P : Type} [DecidableEq P] {source : P → Source} {config : Config}
  {startTick : UInt64} {t t' : State P} {h es : List (Event P)}

/-- The writer's count of dumps is the number of dumps written. -/
theorem storedDumps_run (hrun : Run (Step source config startTick) (State.start P) h t) :
    t.writer.storedDumps = (linesOf .compact h).length := by
  refine hrun.history (I := fun h t => t.writer.storedDumps = (linesOf .compact h).length) rfl
    (fun h t es t' ih hs => ?_)
  rw [(noted_of_step hs).dumps, ih, linesOf_append, List.length_append]

/-- No entry of a row is below that of an earlier one. -/
def RowLe (a b : Counts) : Prop := ∀ x ∈ a, ∀ y ∈ b, y.1 = x.1 → x.2 ≤ y.2

/-- The rows so far stay below the counters, and below what has been loaded
    for the next row. -/
structure Growing (h : List (Event P)) (t : State P) : Prop where
  counted : ∀ probe, ∀ row ∈ rowsOf probe h, ∀ x ∈ row, x.2 ≤ t.counters x.1
  loaded : ∀ x ∈ t.writer.loaded, x.2 ≤ t.counters x.1
  older : ∀ probe, ∀ row ∈ rowsOf probe h, RowLe row t.writer.loaded
  rows : ∀ probe, (rowsOf probe h).Pairwise RowLe

omit [DecidableEq P] in
/-- A step that writes no row and loads nothing. -/
theorem Growing.quiet (hg : Growing h t)
    (hcounters : ∀ c, t.counters c ≤ t'.counters c)
    (hloaded : t'.writer.loaded ⊆ t.writer.loaded)
    (hrows : ∀ e ∈ es, ∀ probe elapsedMs counts, e ≠ Event.row probe elapsedMs counts) :
    Growing (h ++ es) t' where
  counted := fun probe row hrow x hx => by
    rw [rowsOf_none hrows] at hrow
    exact Nat.le_trans (hg.counted probe row hrow x hx) (hcounters x.1)
  loaded := fun x hx => Nat.le_trans (hg.loaded x (hloaded hx)) (hcounters x.1)
  older := fun probe row hrow x hx y hy => by
    rw [rowsOf_none hrows] at hrow
    exact hg.older probe row hrow x hx y (hloaded hy)
  rows := fun probe => by
    rw [rowsOf_none hrows]
    exact hg.rows probe

/-- No step lowers a counter. -/
theorem counters_mono (hs : Step source config startTick t es t') (c : Counter) :
    t.counters c ≤ t'.counters c := by
  have hbump : ∀ d : Counter, t.counters c ≤ (t.bump d).counters c := by
    intro d
    show _ ≤ Function.update t.counters d (t.counters d + 1) c
    by_cases hc : c = d
    · subst hc
      rw [Function.update_self]
      exact Nat.le_succ _
    · rw [Function.update_of_ne hc]
  rcases step_cases hs with ⟨p, hp⟩ | hw
  · cases hp with
    | begin => exact hbump _
    | lost => exact hbump _
    | enter | skip | captured | passed | produce => exact Nat.le_refl _
  · rw [hw.frame.2.1]

/-- **The rows of a probe only grow.** -/
theorem growing_run (hrun : Run (Step source config startTick) (State.start P) h t) :
    Growing h t := by
  refine hrun.history (I := Growing)
    ⟨fun _ _ hrow => (nomatch hrow), fun _ hx => (nomatch hx), fun _ _ hrow => (nomatch hrow),
      fun _ => List.Pairwise.nil⟩ (fun h t es t' ih hs => ?_)
  have hmono := counters_mono hs
  rcases step_cases hs with ⟨p, hp⟩ | hw
  · have hwriter : t'.writer = t.writer := by cases hp <;> rfl
    refine ih.quiet hmono (by rw [hwriter]; exact fun _ h => h) fun e he probe ms counts heq => ?_
    subst heq
    cases hp with
    | begin | lost => cases List.mem_singleton.mp he
    | enter | skip | captured | passed => cases he
    | produce s supplied spurious fs schedule hcalling hproduce =>
        obtain ⟨f, -, heq⟩ := List.mem_map.mp he
        cases heq
  · cases hw with
    | take | line =>
        refine ih.quiet hmono (fun _ h => h) fun e he probe ms counts heq => ?_
        rw [List.mem_singleton.mp he] at heq
        cases heq
    | load c rest hphase =>
        -- what is loaded now is at least what any row says
        rw [List.append_nil]
        refine ⟨ih.counted, fun x hx => ?_, fun probe row hrow x hx y hy hxy => ?_, ih.rows⟩
        · rcases List.mem_append.mp hx with hx | hx
          · exact ih.loaded x hx
          · rw [List.mem_singleton.mp hx]
        · rcases List.mem_append.mp hy with hy | hy
          · exact ih.older probe row hrow x hx y hy hxy
          · rw [List.mem_singleton.mp hy] at hxy ⊢
            obtain rfl : c = x.1 := hxy
            exact ih.counted probe row hrow x hx
    | row probe rest hphase =>
        have hrows : ∀ probe', rowsOf probe' (h ++ [.row probe t.writer.elapsedMs t.writer.loaded])
            = rowsOf probe' h ++ if probe = probe' then [t.writer.loaded] else [] := by
          intro probe'
          rw [rowsOf_append]
          by_cases hprobe : probe = probe' <;> simp [rowsOf, hprobe]
        refine ⟨fun probe' row hrow x hx => ?_, fun x hx => (nomatch hx),
          fun probe' row hrow x hx y hy => (nomatch hy), fun probe' => ?_⟩
        · rw [hrows] at hrow
          rcases List.mem_append.mp hrow with hrow | hrow
          · exact ih.counted probe' row hrow x hx
          · split_ifs at hrow
            · obtain rfl := List.mem_singleton.mp hrow
              exact ih.loaded x hx
            · cases hrow
        · rw [hrows]
          split_ifs
          · refine List.pairwise_append.mpr ⟨ih.rows probe', List.pairwise_singleton _ _, ?_⟩
            intro row hrow row' hrow'
            obtain rfl := List.mem_singleton.mp hrow'
            exact ih.older probe' row hrow
          · rw [List.append_nil]
            exact ih.rows probe'
    | same =>
        exact ih.quiet hmono (fun _ h => nomatch h) (fun _ he => nomatch he)
    | onward es w honward hsilent hlength hvisits hloaded =>
        refine ih.quiet hmono (by rw [hloaded]; exact fun _ h => h) fun e he probe ms counts heq => ?_
        subst heq
        exact hsilent _ he

/-! ## The rows and the lines above them -/

/-- Every moment of a run ends a run. -/
theorem run_of_prefix (hrun : Run (Step source config startTick) (State.start P) h t)
    {pre post : List (Event P)} (heq : h = pre ++ post) :
    ∃ u, Run (Step source config startTick) (State.start P) pre u := by
  cases post with
  | nil =>
      rw [List.append_nil] at heq
      exact ⟨t, heq ▸ hrun⟩
  | cons e post =>
      obtain ⟨u, u', hpre, -, -⟩ := hrun.split_event one_event heq
      exact ⟨u, hpre⟩

/-- What was loaded after the last look at a probe's stores covers every line
    written since the start. -/
theorem Since.covers (hrun : Run (Step source config startTick) (State.start P) h t)
    {src : Source} {probe : Probe} (hsrc : src.probe? = some probe) {n : Nat}
    (hsince : Since source (.calls src) n h) : eventLines src h ≤ n := by
  obtain ⟨pre, post, heq, hn, hpost⟩ := hsince
  obtain ⟨u, hpre⟩ := run_of_prefix hrun heq
  -- nothing of the source is taken behind that moment
  have hnone : sourceTakes src post = 0 := by
    refine List.countP_eq_zero.mpr fun x hx hsource => ?_
    obtain ⟨e, he, htake⟩ := List.mem_flatMap.mp hx
    cases e with
    | visit s c es =>
        obtain ⟨capture, -, rfl⟩ := List.mem_map.mp htake
        have hstore := lineSource?_probe (of_decide_eq_true hsource)
        exact hpost _ he probe (hstore.trans hsrc) hsrc
    | called | dropped | store | line | row | watch | status | flush => cases htake
  have hsplit : sourceTakes src h = sourceTakes src pre + sourceTakes src post := by
    rw [heq, sourceTakes, List.flatMap_append, List.countP_append]
    rfl
  have hlines := eventLines_le_takes hrun src
  have hcalls := sourceTakes_le_calls hpre src
  omega

omit [DecidableEq P] in
theorem Since.le_tally {c : Counter} {n : Nat} (hsince : Since source c n h) :
    n ≤ tally source c h := by
  obtain ⟨pre, post, heq, hn, -⟩ := hsince
  rw [heq, tally_append, hn]
  exact Nat.le_add_right ..

/-- The step that writes a counts row. -/
theorem row_step {probe : Probe} {elapsedMs : UInt64} {counts : Counts}
    (hs : Step source config startTick t [.row probe elapsedMs counts] t') :
    counts = t.writer.loaded ∧ t'.writer.last probe = some counts := by
  rcases step_cases hs with ⟨p, hp⟩ | hw
  · generalize hes : [Event.row probe elapsedMs counts] = es at hp
    cases hp with
    | begin | lost => cases hes
    | enter | skip | captured | passed => cases hes
    | produce s supplied spurious fs schedule hcalling hproduce =>
        cases fs with
        | nil => cases hes
        | cons f rest => cases hes
  · generalize hes : [Event.row probe elapsedMs counts] = es at hw
    cases hw with
    | take | line | load | same => cases hes
    | row probe' rest hphase =>
        cases hes
        exact ⟨rfl, Function.update_self ..⟩
    | onward _ w honward hsilent =>
        subst hes
        exact (hsilent _ (List.mem_singleton_self _)).elim

/-- **Every row agrees with the log above it.**  A watch row tells how many
    dumps stand above it and how often the serializer was called; a counts row
    tells no more calls than were made and no fewer than there are event lines
    above it; and the rows of a probe only grow. -/
theorem rows_coherent {P : Type} [DecidableEq P] (source : P → Source) (config : Config)
    (startTick : UInt64) (h : List (Event P)) (t : State P)
    (hrun : Run (Step source config startTick) (State.start P) h t) :
    (∀ pre elapsedMs observation post, h = pre ++ .watch elapsedMs observation :: post →
        observation.storedDumps = (linesOf .compact pre).length
        ∧ observation.serializerCalls = tally source (.calls .serializer) pre
        ∧ observation.storedDumps ≤ observation.serializerCalls
        ∧ observation.storedDumps ≤ config.maxDumps.toNat)
    ∧ (∀ pre probe elapsedMs counts post, h = pre ++ .row probe elapsedMs counts :: post →
        counts.map Prod.fst = probe.counters
        ∧ (∀ x ∈ counts, x.2 ≤ tally source x.1 pre)
        ∧ ∀ src n, (.calls src, n) ∈ counts → eventLines src pre ≤ n)
    ∧ ∀ probe, (rowsOf probe h).Pairwise RowLe := by
  refine ⟨fun pre elapsedMs observation post heq => ?_,
    fun pre probe elapsedMs counts post heq => ?_, (growing_run hrun).rows⟩
  · obtain ⟨u, u', hpre, hs, -⟩ := hrun.split_event one_event heq
    obtain ⟨-, hdumps, hcalls, -⟩ :=
      (noted_of_step hs).watch elapsedMs observation (List.mem_singleton_self _)
    rw [storedDumps_run hpre] at hdumps
    rw [counters_run hpre] at hcalls
    -- each dump is a call of the serializer
    have hle : (linesOf .compact pre).length ≤ tally source (.calls .serializer) pre := by
      rw [dumps_eventLines]
      exact Nat.le_trans (eventLines_le_takes hpre _) (sourceTakes_le_calls hpre _)
    refine ⟨hdumps, hcalls, ?_, ?_⟩
    · rw [hdumps, hcalls]
      exact hle
    · rw [hdumps]
      exact Nat.le_trans (lines_length_le hpre .compact) (Nat.min_le_left ..)
  · obtain ⟨u, u', hpre, hs, -⟩ := hrun.split_event one_event heq
    obtain ⟨rfl, hlast⟩ := row_step hs
    have hloaded := (reporting_run hpre).loaded
    have hcomplete := (reporting_run (hpre.tail hs)).complete probe _ hlast
    refine ⟨hcomplete, fun x hx => (hloaded x hx).le_tally, fun src n hmem => ?_⟩
    have hprobe : (Counter.calls src).probe? = some probe :=
      mem_counters (hcomplete ▸ List.mem_map_of_mem hmem)
    exact (hloaded _ hmem).covers hpre hprobe

end Rows

/-- One call, its counts row and a watch row. -/
theorem rows_coherent_early : ∃ h t,
    Run (Step (fun _ => .codec 0) polling 0) (State.start Unit) h t
      ∧ (∃ pre observation post, h = pre ++ .watch 0 observation :: post
        ∧ observation.serializerCalls = tally (fun _ : Unit => .codec 0) (.calls .serializer) pre)
      ∧ ∃ pre counts post, h = pre ++ .row .codec 0 counts :: post
        ∧ ∀ n, (.calls (.codec 0), n) ∈ counts → eventLines (.codec 0) pre ≤ n := by
  obtain ⟨h, t, hrun, hwatch, counts, hrow⟩ := run_of_moves earlyCall
    (fun h _ => (.watch 0 ⟨true, some 0, 0, 0⟩ ∈ h)
      ∧ ∃ counts ∈ rowsOf .codec h, .row .codec 0 counts ∈ h) (by decide +kernel)
  obtain ⟨hwatches, hrows, -⟩ := rows_coherent _ _ _ h t hrun
  obtain ⟨pre, post, heq⟩ := List.append_of_mem hwatch
  obtain ⟨pre', post', heq'⟩ := List.append_of_mem hrow.2
  exact ⟨h, t, hrun, ⟨pre, _, post, heq, (hwatches pre _ _ post heq).2.1⟩,
    pre', counts, post', heq', (hrows pre' _ _ _ post' heq').2.2 _⟩

end TeamAttack.Recorder
