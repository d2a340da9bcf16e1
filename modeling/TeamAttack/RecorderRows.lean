import TeamAttack.RecorderCalls

/-! # The counts rows and the limit

    What a row tells is dated back to a moment since which the writer has not
    looked at the probe's stores (`reporting_run`).  So, when every
    publication was looked at before the limit check, the last row agrees with
    the event lines; and exactly then nothing published is lost
    (`nothing_lost_iff`). -/

namespace TeamAttack.Recorder

open Runs CaptureSchedule OnceBoard

/-! ## The order of the loop body -/

/-- Counters are loaded between the last look at the stores and the report,
    all of the probe's and no others; `loaded` are those loaded so far. -/
def Tidy (loaded : List Counter) : List Task → Prop
  | [] => loaded = []
  | .take .. :: rest => loaded = [] ∧ Tidy [] rest
  | .load c :: rest => Tidy (loaded ++ [c]) rest
  | .report probe :: rest => loaded = probe.counters ∧ Tidy [] rest
  | .watch :: rest => Tidy loaded rest
  | .flush :: rest => Tidy loaded rest

/-- Every look at a store of the probe is followed by its report. -/
def Closes (probe : Probe) : List Task → Prop
  | [] => True
  | .take s _ :: rest => (s.probe? = some probe → .report probe ∈ rest) ∧ Closes probe rest
  | .load _ :: rest => Closes probe rest
  | .report _ :: rest => Closes probe rest
  | .watch :: rest => Closes probe rest
  | .flush :: rest => Closes probe rest

/-- The looks of a drain. -/
def Task.isTake : Task → Prop
  | .take .. => True
  | .load _ => False
  | .report _ => False
  | .watch => False
  | .flush => False

/-- A drain looks at the stores of its probe, and does nothing else. -/
theorem drain_takes {probe : Probe} {task : Task} (h : task ∈ probe.drain) :
    task.isTake ∧ ∀ s i, task = .take s i → s.probe? = some probe := by
  cases probe with
  | codec | application =>
      obtain ⟨slot, -, rfl⟩ := List.mem_map.mp h
      refine ⟨trivial, fun s i hs => ?_⟩
      cases hs
      rfl

theorem tidy_takes {xs rest : List Task} (hxs : ∀ task ∈ xs, task.isTake) (hrest : Tidy [] rest) :
    Tidy [] (xs ++ rest) := by
  induction xs with
  | nil => exact hrest
  | cons task xs ih =>
      have htail := ih fun x hx => hxs x (List.mem_cons_of_mem _ hx)
      cases task with
      | take s i => exact ⟨rfl, htail⟩
      | load | report | watch | flush => exact (hxs _ (List.mem_cons_self ..)).elim

theorem tidy_loads {loaded cs : List Counter} {rest : List Task}
    (hrest : Tidy (loaded ++ cs) rest) : Tidy loaded (cs.map .load ++ rest) := by
  induction cs generalizing loaded with
  | nil => rwa [List.append_nil] at hrest
  | cons c cs ih =>
      show Tidy (loaded ++ [c]) (cs.map .load ++ rest)
      exact ih (by rwa [List.append_assoc])

theorem tidy_probe (probe : Probe) {rest : List Task} (hrest : Tidy [] rest) :
    Tidy [] (probe.tasks ++ rest) := by
  have hreport : Tidy [] (probe.counters.map Task.load ++ ([.report probe] ++ rest)) :=
    tidy_loads ⟨rfl, hrest⟩
  rw [Probe.tasks, List.append_assoc, List.append_assoc]
  exact tidy_takes (fun task htask => (drain_takes htask).1) hreport

/-- **The loop body loads each probe's counters after its last look and before
    its report.** -/
theorem tidy_tasks (config : Config) : Tidy [] (tasks config) := by
  have hwatch : Tidy [] ((if config.pollGlobalTeamAttack then [.watch] else []) ++ [.flush]) := by
    split_ifs
    · exact rfl
    · exact rfl
  have hcompact : Tidy [] ((List.range captureCapacity).map (.take .compact)
      ++ ((if config.pollGlobalTeamAttack then [.watch] else []) ++ [.flush])) :=
    tidy_takes (fun task htask => by obtain ⟨i, -, rfl⟩ := List.mem_map.mp htask; trivial) hwatch
  have hoptional : ∀ (b : Bool) (probe : Probe) (rest : List Task), Tidy [] rest →
      Tidy [] ((if b then probe.tasks else []) ++ rest) := by
    intro b probe rest hrest
    cases b with
    | true => exact tidy_probe probe hrest
    | false => exact hrest
  simp only [tasks, List.append_assoc]
  exact hoptional _ _ _ (hoptional _ _ _ hcompact)

theorem closes_append {probe : Probe} {xs rest : List Task}
    (hxs : ∀ s i, .take s i ∈ xs → s.probe? = some probe → .report probe ∈ rest)
    (hrest : Closes probe rest) : Closes probe (xs ++ rest) := by
  induction xs with
  | nil => exact hrest
  | cons task xs ih =>
      have htail := ih fun s i hs => hxs s i (List.mem_cons_of_mem _ hs)
      cases task with
      | take s i =>
          exact ⟨fun hs => List.mem_append_right _ (hxs s i (List.mem_cons_self ..) hs), htail⟩
      | load | report | watch | flush => exact htail

theorem closes_probe (probe probe' : Probe) {rest : List Task} (hrest : Closes probe rest) :
    Closes probe (probe'.tasks ++ rest) := by
  have hreport : Closes probe ([.report probe'] ++ rest) := hrest
  rw [Probe.tasks, List.append_assoc]
  refine closes_append (fun s i hs hprobe => ?_) hreport
  rcases List.mem_append.mp hs with hdrain | hload
  · obtain rfl := Option.some.inj (hprobe.symm.trans ((drain_takes hdrain).2 s i rfl))
    exact List.mem_cons_self ..
  · obtain ⟨c, -, hc⟩ := List.mem_map.mp hload
    exact nomatch hc

/-- **The loop body reports each probe after its last look at its stores.** -/
theorem closes_tasks (config : Config) (probe : Probe) : Closes probe (tasks config) := by
  have hwatch : Closes probe
      ((if config.pollGlobalTeamAttack then [.watch] else []) ++ [.flush]) := by
    split_ifs
    · exact trivial
    · exact trivial
  have hcompact : Closes probe ((List.range captureCapacity).map (.take .compact)
      ++ ((if config.pollGlobalTeamAttack then [.watch] else []) ++ [.flush])) := by
    refine closes_append (fun s i hs hprobe => ?_) hwatch
    obtain ⟨j, -, hj⟩ := List.mem_map.mp hs
    cases hj
    exact nomatch hprobe
  have hoptional : ∀ (b : Bool) (probe' : Probe) (rest : List Task), Closes probe rest →
      Closes probe ((if b then probe'.tasks else []) ++ rest) := by
    intro b probe' rest hrest
    cases b with
    | true => exact closes_probe probe probe' hrest
    | false => exact hrest
  simp only [tasks, List.append_assoc]
  exact hoptional _ _ _ (hoptional _ _ _ hcompact)

/-! ## What a row tells -/

section Rows

variable {P : Type} {source : P → Source} {config : Config}
  {startTick : UInt64} {t t' : State P} {h es : List (Event P)}

/-- The probe whose stores an event of the writer looks at. -/
def Event.looksAt? : Event P → Option Probe
  | .visit s _ _ => s.probe?
  | .called _ => none
  | .dropped _ => none
  | .store .. => none
  | .line .. => none
  | .row .. => none
  | .watch .. => none
  | .status _ => none
  | .flush => none

/-- The rows of a probe, in order. -/
def rowsOf (probe : Probe) (h : List (Event P)) : List Counts :=
  h.filterMap fun e =>
    match e with
    | .row probe' _ counts => if probe' = probe then some counts else none
    | _ => none

/-- The counter stood at `n` at some moment since which the writer has not
    looked at the stores of its probe. -/
def Since (source : P → Source) (c : Counter) (n : Nat) (h : List (Event P)) : Prop :=
  ∃ pre post, h = pre ++ post ∧ n = tally source c pre
    ∧ ∀ e ∈ post, ∀ probe, e.looksAt? = some probe → c.probe? ≠ some probe

theorem Since.append {c : Counter} {n : Nat} (hsince : Since source c n h)
    (hes : ∀ e ∈ es, ∀ probe, e.looksAt? = some probe → c.probe? ≠ some probe) :
    Since source c n (h ++ es) := by
  obtain ⟨pre, post, heq, hn, hpost⟩ := hsince
  refine ⟨pre, post ++ es, by rw [heq, List.append_assoc], hn, fun e he => ?_⟩
  rcases List.mem_append.mp he with hold | hnew
  · exact hpost e hold
  · exact hes e hnew

theorem Since.unseen {c : Counter} {n : Nat} (hsince : Since source c n h)
    (hes : ∀ e ∈ es, e.looksAt? = none) : Since source c n (h ++ es) :=
  hsince.append fun e he _ hlook => nomatch (hes e he).symm.trans hlook

theorem mem_counters {probe : Probe} {c : Counter} (h : c ∈ probe.counters) :
    c.probe? = some probe := by
  cases probe with
  | codec =>
      simp only [Probe.counters, List.mem_cons, List.not_mem_nil, or_false] at h
      rcases h with rfl | rfl | rfl <;> rfl
  | application =>
      simp only [Probe.counters, List.mem_append, List.mem_map, List.mem_singleton] at h
      rcases h with ⟨kind, -, rfl⟩ | rfl <;> rfl

/-- What the loaded counts and the last rows tell, at every moment. -/
structure Reporting (source : P → Source) (h : List (Event P)) (t : State P) : Prop where
  tidy : Tidy (t.writer.loaded.map Prod.fst) t.writer.phase.agenda
  closes : ∀ probe, Closes probe t.writer.phase.agenda
  loaded : ∀ x ∈ t.writer.loaded, Since source x.1 x.2 h
  last : ∀ probe counts, .report probe ∉ t.writer.phase.agenda →
    t.writer.last probe = some counts → ∀ x ∈ counts, Since source x.1 x.2 h
  complete : ∀ probe counts, t.writer.last probe = some counts →
    counts.map Prod.fst = probe.counters
  rows : ∀ probe, (rowsOf probe h).getLast? = t.writer.last probe

theorem rowsOf_append (probe : Probe) (h k : List (Event P)) :
    rowsOf probe (h ++ k) = rowsOf probe h ++ rowsOf probe k := List.filterMap_append

/-- Events that are no rows leave the last row as it is. -/
theorem rowsOf_none {probe : Probe}
    (hes : ∀ e ∈ es, ∀ probe elapsedMs counts, e ≠ Event.row probe elapsedMs counts) :
    rowsOf probe (h ++ es) = rowsOf probe h := by
  have hnone : rowsOf probe es = [] := List.filterMap_eq_nil_iff.mpr fun e he => by
    have hno := hes e he
    cases e with
    | row probe' elapsedMs counts => exact absurd rfl (hno probe' elapsedMs counts)
    | called | dropped | store | visit | line | watch | status | flush => rfl
  rw [rowsOf_append, hnone, List.append_nil]

/-- A step that looks at no store, loads nothing and reports nothing. -/
theorem Reporting.quiet (hr : Reporting source h t)
    (htidy : Tidy (t.writer.loaded.map Prod.fst) t'.writer.phase.agenda)
    (hcloses : ∀ probe, Closes probe t'.writer.phase.agenda)
    (hreport : ∀ probe, .report probe ∉ t'.writer.phase.agenda →
      .report probe ∉ t.writer.phase.agenda)
    (hloaded : t'.writer.loaded = t.writer.loaded) (hlast : t'.writer.last = t.writer.last)
    (hlooks : ∀ e ∈ es, e.looksAt? = none)
    (hrows : ∀ e ∈ es, ∀ probe elapsedMs counts, e ≠ Event.row probe elapsedMs counts) :
    Reporting source (h ++ es) t' where
  tidy := hloaded ▸ htidy
  closes := hcloses
  loaded := fun x hx => (hr.loaded x (hloaded ▸ hx)).unseen hlooks
  last := fun probe counts hno hcounts x hx =>
    (hr.last probe counts (hreport probe hno) (hlast ▸ hcounts) x hx).unseen hlooks
  complete := fun probe counts hcounts => hr.complete probe counts (hlast ▸ hcounts)
  rows := fun probe => by rw [rowsOf_none hrows, hr.rows, hlast]

theorem Reporting.called [DecidableEq P] {p : P} (hr : Reporting source h t)
    (hp : Called source config t p es t') : Reporting source (h ++ es) t' := by
  have hwriter : t'.writer = t.writer := by cases hp <;> rfl
  have hevents : ∀ e ∈ es, e.looksAt? = none
      ∧ ∀ probe elapsedMs counts, e ≠ Event.row probe elapsedMs counts := by
    intro e he
    cases hp with
    | begin | lost => rw [List.mem_singleton.mp he]; exact ⟨rfl, fun _ _ _ => nofun⟩
    | enter | skip | captured | passed => exact nomatch he
    | produce s supplied spurious fs schedule hcalling hproduce =>
        obtain ⟨f, -, rfl⟩ := List.mem_map.mp he
        exact ⟨rfl, fun _ _ _ => nofun⟩
  refine hr.quiet ?_ ?_ ?_ ?_ ?_ (fun e he => (hevents e he).1) (fun e he => (hevents e he).2)
  · rw [hwriter]
    exact hr.tidy
  · rw [hwriter]
    exact hr.closes
  · rw [hwriter]
    exact fun _ h => h
  · rw [hwriter]
  · rw [hwriter]

/-- How the invariant follows the agenda where nothing is looked at. -/
theorem Onward.agenda {k k' : Phase} (ho : Onward config k k') {loaded : List Counter}
    (htidy : Tidy loaded k.agenda) (hcloses : ∀ probe, Closes probe k.agenda) :
    Tidy loaded k'.agenda ∧ (∀ probe, Closes probe k'.agenda)
      ∧ ∀ probe, .report probe ∉ k'.agenda → .report probe ∉ k.agenda := by
  -- between iterations nothing is left to do
  have hbetween : ∀ k : Phase, k.Between → k.agenda = [] := by
    intro k hk
    cases k with
    | work rest => exact hk
    | read => exact hk.elim
    | sleep | hookStatus | limit | returned => rfl
  cases ho with
  | between _ _ hk hk' =>
      rw [hbetween k hk] at htidy
      rw [hbetween k hk, hbetween k' hk']
      exact ⟨htidy, fun _ => trivial, fun _ h => h⟩
  | enter _ hk =>
      rw [hbetween k hk] at htidy
      obtain rfl : loaded = [] := htidy
      rw [hbetween k hk]
      exact ⟨tidy_tasks config, closes_tasks config, fun _ _ => List.not_mem_nil⟩
  | task task rest htask =>
      rcases htask with rfl | rfl
      · exact ⟨htidy, hcloses, fun _ => List.not_mem_cons_of_ne_of_not_mem nofun⟩
      · exact ⟨htidy, hcloses, fun _ => List.not_mem_cons_of_ne_of_not_mem nofun⟩

theorem Reporting.wrote (hr : Reporting source h t)
    (hcounters : ∀ c, t.counters c = tally source c h) (hw : Wrote config t es t') :
    Reporting source (h ++ es) t' := by
  have htidy := hr.tidy
  have hcloses := hr.closes
  cases hw with
  | take s i rest fs schedule hphase hconsume =>
      rw [hphase] at htidy hcloses
      obtain ⟨hnone, htidy⟩ : t.writer.loaded.map Prod.fst = [] ∧ Tidy [] rest := htidy
      have hloaded := List.map_eq_nil_iff.mp hnone
      have hagenda : (if fs = [] then Phase.work rest
          else .read s (t.writer.visits, i) rest).agenda = rest := by split_ifs <;> rfl
      refine ⟨?_, fun probe => ?_, ?_, fun probe counts hno hcounts x hx => ?_, hr.complete,
        fun probe => ?_⟩
      · show Tidy (t.writer.loaded.map Prod.fst) (Phase.agenda _)
        rw [hnone, hagenda]
        exact htidy
      · show Closes probe (Phase.agenda _)
        rw [hagenda]
        exact (hcloses probe).2
      · show ∀ x ∈ t.writer.loaded, _
        rw [hloaded]
        exact fun x hx => nomatch hx
      · have hno' : Task.report probe ∉ rest := hagenda ▸ hno
        refine (hr.last probe counts ?_ hcounts x hx).append fun e he probe' hlook => ?_
        · rw [hphase]
          exact List.not_mem_cons_of_ne_of_not_mem nofun hno'
        · -- the look is at another probe, for this one's report is past
          rw [List.mem_singleton.mp he] at hlook
          have hx' : x.1.probe? = some probe :=
            mem_counters (hr.complete probe counts hcounts ▸ List.mem_map_of_mem hx)
          rw [hx']
          intro heq
          obtain rfl := Option.some.inj heq
          exact hno' ((hcloses probe).1 hlook)
      · rw [rowsOf_none fun e he => by rw [List.mem_singleton.mp he]; exact fun _ _ _ => nofun]
        exact hr.rows probe
  | line s c rest i capture storedDumps hphase hreading hvalue =>
      rw [hphase] at htidy hcloses
      refine hr.quiet htidy hcloses (fun probe hno => ?_) rfl rfl
        (fun e he => by rw [List.mem_singleton.mp he]; rfl)
        (fun e he => by rw [List.mem_singleton.mp he]; exact fun _ _ _ => nofun)
      rw [hphase]
      exact hno
  | load c rest hphase =>
      rw [hphase] at htidy hcloses
      rw [List.append_nil]
      refine ⟨?_, hcloses, fun x hx => ?_, fun probe counts hno hcounts => ?_, hr.complete,
        hr.rows⟩
      · show Tidy ((t.writer.loaded ++ [(c, t.counters c)]).map Prod.fst) rest
        rw [List.map_append]
        exact htidy
      · rcases List.mem_append.mp hx with hold | hnew
        · exact hr.loaded x hold
        · rw [List.mem_singleton.mp hnew]
          exact ⟨h, [], (List.append_nil h).symm, hcounters c, fun e he => nomatch he⟩
      · refine hr.last probe counts ?_ hcounts
        rw [hphase]
        exact List.not_mem_cons_of_ne_of_not_mem nofun hno
  | row probe rest hphase =>
      rw [hphase] at htidy hcloses
      obtain ⟨hcomplete, htidy⟩ : t.writer.loaded.map Prod.fst = probe.counters ∧ Tidy [] rest :=
        htidy
      have hunseen : ∀ (c : Counter) (n : Nat), Since source c n h →
          Since source c n (h ++ [.row probe t.writer.elapsedMs t.writer.loaded]) :=
        fun c n hsince => hsince.unseen fun e he => by rw [List.mem_singleton.mp he]; rfl
      have hself : Function.update t.writer.last probe (some t.writer.loaded) probe
          = some t.writer.loaded := Function.update_self ..
      refine ⟨htidy, hcloses, fun x hx => (nomatch hx), fun probe' counts hno hcounts x hx => ?_,
        fun probe' counts hcounts => ?_, fun probe' => ?_⟩
      · by_cases hprobe : probe' = probe
        · subst hprobe
          obtain rfl : t.writer.loaded = counts := Option.some.inj (hself.symm.trans hcounts)
          exact hunseen _ _ (hr.loaded x hx)
        · have hcounts' : t.writer.last probe' = some counts :=
            (Function.update_of_ne hprobe ..).symm.trans hcounts
          refine hunseen _ _ (hr.last probe' counts ?_ hcounts' x hx)
          rw [hphase]
          exact List.not_mem_cons_of_ne_of_not_mem (fun heq => hprobe (Task.report.inj heq)) hno
      · by_cases hprobe : probe' = probe
        · subst hprobe
          obtain rfl : t.writer.loaded = counts := Option.some.inj (hself.symm.trans hcounts)
          exact hcomplete
        · exact hr.complete probe' counts ((Function.update_of_ne hprobe ..).symm.trans hcounts)
      · show _ = Function.update t.writer.last probe _ probe'
        by_cases hprobe : probe' = probe
        · subst hprobe
          have hrow : rowsOf probe' [(.row probe' t.writer.elapsedMs t.writer.loaded : Event P)]
              = [t.writer.loaded] := List.filterMap_cons_some (if_pos rfl)
          rw [Function.update_self, rowsOf_append, hrow, List.getLast?_append]
          rfl
        · have hrow : rowsOf probe' [(.row probe t.writer.elapsedMs t.writer.loaded : Event P)]
              = [] := List.filterMap_cons_none (if_neg (Ne.symm hprobe))
          rw [Function.update_of_ne hprobe, rowsOf_append, hrow, List.append_nil]
          exact hr.rows probe'
  | same probe rest hphase hsame =>
      rw [hphase] at htidy hcloses
      obtain ⟨hcomplete, htidy⟩ : t.writer.loaded.map Prod.fst = probe.counters ∧ Tidy [] rest :=
        htidy
      rw [List.append_nil]
      refine ⟨htidy, hcloses, fun x hx => (nomatch hx), fun probe' counts hno hcounts x hx => ?_,
        hr.complete, hr.rows⟩
      by_cases hprobe : probe' = probe
      · -- the counts just loaded are those of the last row
        subst hprobe
        obtain rfl := Option.some.inj (hsame.symm.trans hcounts)
        exact hr.loaded x hx
      · refine hr.last probe' counts ?_ hcounts x hx
        rw [hphase]
        exact List.not_mem_cons_of_ne_of_not_mem (fun heq => hprobe (Task.report.inj heq)) hno
  | onward _ w honward hsilent hlength hvisits hloaded hlast =>
      obtain ⟨htidy, hcloses, hreport⟩ := honward.agenda htidy hcloses
      refine hr.quiet htidy hcloses hreport hloaded hlast (fun e he => ?_) (fun e he => ?_)
      · have := hsilent e he
        cases e with
        | watch | status | flush => rfl
        | called | dropped | store | visit | line | row => exact this.elim
      · rintro probe elapsedMs counts rfl
        exact hsilent _ he

/-- **The counts in the last row of a probe were loaded after the last look at
    its stores.** -/
theorem reporting_run [DecidableEq P]
    (hrun : Run (Step source config startTick) (State.start P) h t) :
    Reporting source h t := by
  suffices h : Reporting source h t ∧ ∀ c, t.counters c = tally source c h from h.1
  refine ⟨?_, counters_run hrun⟩
  refine (hrun.history (I := fun h t => Reporting source h t
    ∧ Run (Step source config startTick) (State.start P) h t)
    ⟨⟨rfl, fun _ => trivial, fun x hx => (nomatch hx), fun _ _ _ h => (nomatch h),
      fun _ _ h => (nomatch h), fun _ => rfl⟩, .refl _⟩
    (fun h t es t' ih hs => ⟨?_, ih.2.tail hs⟩)).1
  rcases step_cases hs with ⟨p, hp⟩ | hw
  · exact ih.1.called hp
  · exact ih.1.wrote (counters_run ih.2) hw

end Rows

end TeamAttack.Recorder
