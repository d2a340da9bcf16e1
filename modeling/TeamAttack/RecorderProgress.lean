import TeamAttack.RecorderFaults
import TeamAttack.RecorderLimit

/-! # The writer comes back

    Whatever the callbacks do between its steps, the writer goes through an
    iteration in a bounded number of its own steps: every task takes one, a
    `take` that finds something two.  Once the clock it reads has passed the
    limit of a polling session, it therefore returns, and before that only
    where the log refuses a write (`writer_returns`). -/

namespace TeamAttack.Recorder

open Runs CaptureSchedule

/-- The steps a task takes at most. -/
def Task.cost : Task → Nat
  | .take .. => 2
  | .load _ => 1
  | .report _ => 1
  | .watch => 1
  | .flush => 1

/-- The steps a list of tasks takes at most. -/
def agendaCost (rest : List Task) : Nat := (rest.map Task.cost).sum

section Measure

variable {P : Type}

/-- The steps the writer takes at most before it returns, when every tick it
    reads from now on lies past the limit. -/
def State.remaining (config : Config) (t : State P) : Nat :=
  match t.writer.phase with
  | .returned => 0
  | .limit => if t.expired config then 1 else agendaCost (tasks config) + 5
  | .hookStatus => if t.expired config then 2 else agendaCost (tasks config) + 6
  | .sleep => 3
  | .work rest => agendaCost rest + 4
  | .read _ _ rest => agendaCost rest + 5

/-- The tick of a reading lies past the limit. -/
def Reading.Late (startTick : UInt64) (reading : Reading) : Prop :=
  Watch.watchLimitMs ≤ (reading.tick - startTick) / 19200

/-- Is this a step of the writer? -/
def TryMove.weight : TryMove P → Nat
  | .call .. => 0
  | .write .. => 1

@[simp] theorem agendaCost_append (xs ys : List Task) :
    agendaCost (xs ++ ys) = agendaCost xs + agendaCost ys := by
  rw [agendaCost, List.map_append, List.sum_append]
  rfl

theorem agendaCost_cons (task : Task) (rest : List Task) :
    agendaCost (task :: rest) = task.cost + agendaCost rest := by
  rw [agendaCost, List.map_cons, List.sum_cons]
  rfl

theorem agendaCost_nil : agendaCost [] = 0 := rfl

/-- The part of an agenda still to do. -/
theorem agendaCost_suffix {rest agenda : List Task} (h : rest <:+ agenda) :
    agendaCost rest ≤ agendaCost agenda := by
  obtain ⟨done, rfl⟩ := h
  rw [agendaCost_append]
  exact Nat.le_add_left ..

end Measure

section Steps

variable {P : Type} {config : Config} {startTick : UInt64} {t t' : State P}
  {es : List (Event P)} {reading : Reading}

/-- After a task the writer goes on, or reads what it took. -/
theorem phase_taskStep {task : Task} {rest : List Task}
    (h : taskStep t reading rest task = some (es, t')) :
    t'.writer.phase = .work rest
      ∨ task.cost = 2 ∧ ∃ s c, t'.writer.phase = .read s c rest := by
  cases task with
  | take s i =>
      obtain ⟨⟨fs, schedule⟩, hconsume, hpair⟩ := Option.map_eq_some_iff.mp h
      obtain ⟨-, rfl⟩ := Prod.mk.inj hpair
      by_cases hfs : fs = []
      · exact Or.inl (if_pos hfs)
      · exact Or.inr ⟨rfl, s, _, if_neg hfs⟩
  | load c =>
      obtain ⟨-, rfl⟩ := Prod.mk.inj (Option.some.inj h)
      exact Or.inl rfl
  | report probe =>
      simp only [taskStep, reportTask] at h
      split_ifs at h
      · obtain ⟨-, rfl⟩ := Prod.mk.inj (Option.some.inj h)
        exact Or.inl rfl
      · obtain ⟨-, rfl⟩ := Prod.mk.inj (Option.some.inj h)
        exact Or.inl rfl
  | watch =>
      simp only [taskStep, watchTask] at h
      split at h
      · obtain ⟨-, rfl⟩ := Prod.mk.inj (Option.some.inj h)
        exact Or.inl rfl
      · obtain ⟨-, rfl⟩ := Prod.mk.inj (Option.some.inj h)
        exact Or.inl rfl
  | flush =>
      obtain ⟨-, rfl⟩ := Prod.mk.inj (Option.some.inj h)
      exact Or.inl rfl

theorem Task.cost_pos (task : Task) : 1 ≤ task.cost := by
  cases task <;> simp [Task.cost]

/-- A task lowers the measure. -/
theorem remaining_task {task : Task} {rest : List Task}
    (hphase : t.writer.phase = .work (task :: rest))
    (h : taskStep t reading rest task = some (es, t')) :
    t'.remaining config + 1 ≤ t.remaining config := by
  have hbefore : t.remaining config = task.cost + agendaCost rest + 4 := by
    rw [State.remaining, hphase]
    exact congrArg (· + 4) (agendaCost_cons task rest)
  rcases phase_taskStep h with hwork | ⟨hcost, s, c, hread⟩
  · have hpos := task.cost_pos
    rw [hbefore, State.remaining, hwork]
    dsimp only
    omega
  · rw [hbefore, hcost, State.remaining, hread]
    dsimp only
    omega

/-- Reading what it took, the writer goes on with its agenda. -/
theorem phase_readStep {s : StoreId} {c : Visit} {rest : List Task}
    (h : readStep t s c rest = some (es, t')) : t'.writer.phase = .work rest := by
  unfold readStep at h
  cases hconsume : consume Prod.snd (t.stores s) c with
  | none =>
      simp only [hconsume] at h
      cases h
  | some x =>
      simp only [hconsume] at h
      split at h
      case h_2 => cases h
      case h_1 capture hreturned =>
        obtain ⟨-, rfl⟩ := Prod.mk.inj (Option.some.inj h)
        rfl

/-- **Past the limit, every step of the writer lowers the measure.** -/
theorem remaining_write (hpoll : config.pollGlobalTeamAttack = true)
    (hlate : reading.Late startTick)
    (h : writeStep config startTick t reading = some (es, t')) :
    t'.remaining config + 1 ≤ t.remaining config := by
  unfold writeStep at h
  cases hphase : t.writer.phase with
  | sleep =>
      simp only [hphase] at h
      obtain ⟨-, rfl⟩ := Prod.mk.inj (Option.some.inj h)
      have hexpired : State.expired config ({ t with writer := { t.writer with
          phase := .hookStatus, elapsedMs := (reading.tick - startTick) / 19200 } } : State P) :=
        ⟨hpoll, hlate⟩
      simp only [State.remaining, hphase, if_pos hexpired]
      omega
  | hookStatus =>
      simp only [hphase] at h
      -- recording the installation leaves the clock alone
      have hgo : t'.writer.phase = .limit ∧ (t'.expired config ↔ t.expired config) := by
        split_ifs at h
        · obtain ⟨-, rfl⟩ := Prod.mk.inj (Option.some.inj h)
          exact ⟨rfl, Iff.rfl⟩
        · obtain ⟨-, rfl⟩ := Prod.mk.inj (Option.some.inj h)
          exact ⟨rfl, Iff.rfl⟩
      simp only [State.remaining, hphase, hgo.1, hgo.2]
      split_ifs <;> omega
  | limit =>
      simp only [hphase] at h
      split_ifs at h with hexpired
      · obtain ⟨-, rfl⟩ := Prod.mk.inj (Option.some.inj h)
        simp only [State.remaining, State.go, hphase, if_pos hexpired]
        omega
      · obtain ⟨-, rfl⟩ := Prod.mk.inj (Option.some.inj h)
        simp only [State.remaining, hphase, if_neg hexpired]
        omega
  | work agenda =>
      cases agenda with
      | nil =>
          simp only [hphase] at h
          obtain ⟨-, rfl⟩ := Prod.mk.inj (Option.some.inj h)
          simp only [State.remaining, State.go, hphase, agendaCost_nil]
          omega
      | cons task rest =>
          simp only [hphase] at h
          exact remaining_task hphase h
  | read s c rest =>
      simp only [hphase] at h
      simp only [State.remaining, hphase, phase_readStep h]
      omega
  | returned =>
      simp only [hphase] at h
      cases h

/-- The writer returns where its clock is at the limit. -/
theorem expired_of_writeStep (h : writeStep config startTick t reading = some (es, t'))
    (hreturned : t'.writer.phase = .returned) : t'.expired config := by
  unfold writeStep at h
  cases hphase : t.writer.phase with
  | sleep =>
      simp only [hphase] at h
      obtain ⟨-, rfl⟩ := Prod.mk.inj (Option.some.inj h)
      cases hreturned
  | hookStatus =>
      simp only [hphase] at h
      split_ifs at h
      · obtain ⟨-, rfl⟩ := Prod.mk.inj (Option.some.inj h)
        cases hreturned
      · obtain ⟨-, rfl⟩ := Prod.mk.inj (Option.some.inj h)
        cases hreturned
  | limit =>
      simp only [hphase] at h
      split_ifs at h with hexpired
      · obtain ⟨-, rfl⟩ := Prod.mk.inj (Option.some.inj h)
        exact hexpired
      · obtain ⟨-, rfl⟩ := Prod.mk.inj (Option.some.inj h)
        cases hreturned
  | work agenda =>
      cases agenda with
      | nil =>
          simp only [hphase] at h
          obtain ⟨-, rfl⟩ := Prod.mk.inj (Option.some.inj h)
          cases hreturned
      | cons task rest =>
          simp only [hphase] at h
          rcases phase_taskStep h with hwork | ⟨-, s, c, hread⟩
          · cases hwork.symm.trans hreturned
          · cases hread.symm.trans hreturned
  | read s c rest =>
      simp only [hphase] at h
      cases (phase_readStep h).symm.trans hreturned
  | returned =>
      simp only [hphase] at h
      cases h

variable [DecidableEq P] {source : P → Source}

/-- A callback leaves the writer where it is. -/
theorem remaining_call {p : P} {supplied : Supplied}
    (h : callStep source config t p supplied = some (es, t')) :
    t'.remaining config = t.remaining config := by
  have hwriter : t'.writer = t.writer := by
    cases called_of_callStep h <;> rfl
  simp only [State.remaining, State.expired, hwriter]

/-! ## The bound -/

omit [DecidableEq P] in
theorem Onward.agenda_suffix {k k' : Phase} (h : Onward config k k')
    (hk : k.agenda <:+ tasks config) : k'.agenda <:+ tasks config := by
  cases h with
  | between _ _ _ hbetween =>
      cases k' with
      | work rest =>
          rw [show rest = [] from hbetween]
          exact List.nil_suffix
      | read => exact hbetween.elim
      | sleep | hookStatus | limit | returned => exact List.nil_suffix
  | enter => exact List.suffix_refl _
  | task task rest htask => exact (List.suffix_cons task rest).trans hk

/-- What is ahead in an iteration is the end of the loop body. -/
theorem agenda_suffix {h : List (Event P)}
    (hrun : Run (Step source config startTick) (State.start P) h t) :
    t.writer.phase.agenda <:+ tasks config := by
  refine hrun.invariant (I := fun t => t.writer.phase.agenda <:+ tasks config)
    List.nil_suffix (fun t es t' ih hs => ?_)
  have hnext : ∀ (task : Task) (rest : List Task), t.writer.phase = .work (task :: rest) →
      rest <:+ tasks config := by
    intro task rest hphase
    rw [hphase] at ih
    exact (List.suffix_cons task rest).trans ih
  rcases step_cases hs with ⟨p, hp⟩ | hw
  · have hwriter : t'.writer = t.writer := by cases hp <;> rfl
    rw [hwriter]
    exact ih
  · cases hw with
    | take s i rest fs schedule hphase hconsume =>
        have hrest := hnext _ _ hphase
        by_cases hfs : fs = []
        · simp only [hfs, if_true]
          exact hrest
        · simp only [hfs, if_false]
          exact hrest
    | line s c rest i capture storedDumps hphase =>
        rw [hphase] at ih
        exact ih
    | load c rest hphase => exact hnext _ _ hphase
    | row probe rest hphase => exact hnext _ _ hphase
    | same probe rest hphase => exact hnext _ _ hphase
    | onward es w honward => exact honward.agenda_suffix ih

/-- The steps of a codec and of an application drain, with counts and row. -/
theorem probe_cost : ∀ probe : Probe, agendaCost probe.tasks
    = match probe with
      | .codec => 516
      | .application => 2058
  | .codec => by decide +kernel
  | .application => by decide +kernel

/-- The most steps the writer takes until it returns, once its clock is past
    the limit. -/
def stepBound (config : Config) : Nat :=
  (if config.observeRuleCodec then 516 else 0)
    + (if config.observeRuleApplication then 2058 else 0) + 520

theorem tasks_cost (hpoll : config.pollGlobalTeamAttack = true) :
    agendaCost (tasks config) + 6 = stepBound config := by
  have hcompact : agendaCost ((List.range captureCapacity).map (.take .compact)) = 512 := by
    decide +kernel
  have hif : ∀ (b : Bool) (xs : List Task),
      agendaCost (if b then xs else []) = if b then agendaCost xs else 0 := by
    intro b xs
    cases b <;> rfl
  simp only [tasks, agendaCost_append, hif, probe_cost, hcompact, hpoll, if_true, stepBound]
  show _ + 1 + 1 + 6 = _
  omega

theorem remaining_le {h : List (Event P)} (hpoll : config.pollGlobalTeamAttack = true)
    (hrun : Run (Step source config startTick) (State.start P) h t) :
    t.remaining config ≤ stepBound config := by
  have hagenda := agendaCost_suffix (agenda_suffix hrun)
  rw [← tasks_cost hpoll]
  unfold State.remaining
  cases hphase : t.writer.phase with
  | work rest | read _ _ rest =>
      rw [hphase] at hagenda
      have hrest : agendaCost rest ≤ agendaCost (tasks config) := hagenda
      dsimp only
      omega
  | limit | hookStatus =>
      dsimp only
      split_ifs <;> omega
  | sleep | returned =>
      dsimp only
      omega

/-- **Past the limit, every step on a log that may refuse lowers the measure**
    by what it weighs. -/
theorem remaining_attempt {es : List (Attempt P)} {mv : TryMove P}
    (hpoll : config.pollGlobalTeamAttack = true)
    (hlate : ∀ reading accepts, .write reading accepts = mv → reading.Late startTick)
    (h : attempt source config startTick t mv = some (es, t')) :
    t'.remaining config + mv.weight ≤ t.remaining config := by
  cases mv with
  | call p supplied =>
      obtain ⟨⟨fs, v⟩, hcall, hpair⟩ := Option.map_eq_some_iff.mp h
      obtain ⟨-, rfl⟩ := Prod.mk.inj hpair
      exact Nat.le_of_eq (remaining_call hcall)
  | write reading accepts =>
      rcases writeOrReturn_cases h with ⟨fs, hwrite, -⟩ | ⟨fs, v, hwrite, -, -, rfl⟩
      · exact remaining_write hpoll (hlate _ _ rfl) hwrite
      -- a writer that gives up has nothing ahead
      · have hlower := remaining_write hpoll (hlate _ _ rfl) hwrite
        have hzero : (v.go .returned).remaining config = 0 := rfl
        rw [hzero]
        show 0 + 1 ≤ _
        omega

theorem remaining_reached {h : List (Attempt P)} (hpoll : config.pollGlobalTeamAttack = true)
    (hrun : Run (TryStep source config startTick) (State.start P) h t) :
    t.remaining config ≤ stepBound config := by
  obtain ⟨u, hplain, -, hsame⟩ := done_run hrun
  by_cases hphase : t.writer.phase = .returned
  · rw [State.remaining, hphase]
    exact Nat.zero_le _
  · rw [hsame hphase]
    exact remaining_le hpoll hplain

/-- The writer returns at its time limit and at the first write that fails. -/
theorem returned_cases {h : List (Attempt P)}
    (hrun : Run (TryStep source config startTick) (State.start P) h t) :
    (t.writer.phase = .returned → t.expired config ∨ ∃ e, .failed e ∈ h)
      ∧ ∀ e, .failed e ∈ h → t.writer.phase = .returned := by
  refine hrun.history (I := fun h t => (t.writer.phase = .returned → t.expired config
      ∨ ∃ e, .failed e ∈ h) ∧ ∀ e, .failed e ∈ h → t.writer.phase = .returned)
    ⟨fun hstart => (nomatch hstart), fun e he => (nomatch he)⟩ (fun h t es t' ih hs => ?_)
  obtain ⟨hends, hfails⟩ := ih
  have hnone : ∀ (fs : List (Event P)) (e : Event P),
      .failed e ∈ h ++ fs.map Attempt.done → .failed e ∈ h := by
    intro fs e he
    rcases List.mem_append.mp he with hold | hnew
    · exact hold
    · obtain ⟨e', -, heq⟩ := List.mem_map.mp hnew
      cases heq
  obtain ⟨mv, hmv⟩ := hs
  cases mv with
  | call p supplied =>
      obtain ⟨⟨fs, v⟩, hcall, hpair⟩ := Option.map_eq_some_iff.mp hmv
      obtain ⟨rfl, rfl⟩ := Prod.mk.inj hpair
      have hwriter := callStep_writer hcall
      rw [State.expired, hwriter]
      refine ⟨fun hreturned => ?_, fun e he => hfails e (hnone fs e he)⟩
      exact (hends hreturned).imp_right fun ⟨e, he⟩ => ⟨e, List.mem_append_left _ he⟩
  | write reading accepts =>
      rcases writeOrReturn_cases hmv with ⟨fs, hwrite, rfl⟩ | ⟨fs, v, hwrite, hfs, rfl, rfl⟩
      · refine ⟨fun hreturned => Or.inl (expired_of_writeStep hwrite hreturned), fun e he => ?_⟩
        exact absurd (hfails e (hnone fs e he)) (phase_ne_returned hwrite)
      · obtain ⟨e, he, -⟩ := List.any_eq_true.mp hfs
        exact ⟨fun _ => Or.inr ⟨e, List.mem_append_right h (List.mem_map_of_mem he)⟩,
          fun _ _ => rfl⟩

end Steps

/-- **The writer returns.**  From any state a run reaches, whatever the
    callbacks do and whichever writes the log refuses: in a polling session the
    writer takes at most `stepBound` more steps once every tick it reads lies
    past the limit; until it has returned, none of its steps is ever held up;
    it returns at the limit or at the first refused write, and at no other
    place; and the log is that of a run in which every write succeeded. -/
theorem writer_returns {P : Type} [DecidableEq P] (source : P → Source) (config : Config)
    (startTick : UInt64) (h : List (Attempt P)) (t : State P)
    (hrun : Run (TryStep source config startTick) (State.start P) h t) :
    (∀ moves k u, config.pollGlobalTeamAttack = true →
        exec (attempt source config startTick) t moves = some (k, u) →
        (∀ reading accepts, .write reading accepts ∈ moves → reading.Late startTick) →
        (moves.map TryMove.weight).sum ≤ stepBound config
        ∧ ((moves.map TryMove.weight).sum = stepBound config → u.writer.phase = .returned))
    ∧ (t.writer.phase ≠ .returned → ∀ reading accepts,
        (attempt source config startTick t (.write reading accepts)).isSome)
    ∧ (t.writer.phase = .returned → t.expired config ∨ ∃ e, .failed e ∈ h)
    ∧ (∀ e, .failed e ∈ h → t.writer.phase = .returned)
    ∧ ∃ u, Run (Step source config startTick) (State.start P) (h.filterMap Attempt.done?) u
        ∧ Beside t u := by
  obtain ⟨v, hplain, hbeside, hsame⟩ := done_run hrun
  obtain ⟨hends, hfails⟩ := returned_cases hrun
  refine ⟨fun moves k u hpoll hexec hlate => ?_, fun hphase reading accepts => ?_, hends, hfails,
    v, hplain, hbeside⟩
  · have hmeasure := exec_measure (State.remaining config) TryMove.weight
      (fun mv hmv s es s' hstep => remaining_attempt hpoll
        (fun reading accepts heq => hlate reading accepts (heq ▸ hmv)) hstep) hexec
    have hbound := remaining_reached hpoll hrun
    refine ⟨by omega, fun hall => ?_⟩
    -- nothing is left of the measure
    have hzero : u.remaining config = 0 := by omega
    unfold State.remaining at hzero
    cases hphase : u.writer.phase with
    | returned => rfl
    | limit | hookStatus =>
        rw [hphase] at hzero
        dsimp only at hzero
        split_ifs at hzero
    | sleep | work | read =>
        rw [hphase] at hzero
        dsimp only at hzero
        omega
  · obtain rfl := hsame hphase
    have hstep := writer_steps hplain hphase reading
    show ((writeStep config startTick t reading).map _).isSome
    rw [Option.isSome_map]
    exact hstep

/-- A move on a log that accepts or refuses. -/
def Move.tried {P : Type} (accepts : Bool) : Move P → TryMove P
  | .call p supplied => .call p supplied
  | .write reading => .write reading accepts

/-- The call has claimed its slot when the writer looks for captures. -/
def callBegun : List (TryMove Unit) :=
  (writes 3 0 ++ encoderCall.take 4 ++ writes 2 0).map (Move.tried true)

/-- Past the limit, the call returns between the steps of the writer. -/
def lateWrites : List (TryMove Unit) :=
  (writes 100 limitTick ++ encoderCall.drop 4 ++ writes 420 limitTick).map (Move.tried true)

/-- The call returns between the steps of the writer, whose row is refused. -/
def refusedRow : List (TryMove Unit) :=
  callBegun ++ (encoderCall.drop 4 ++ writes 257 0).map (Move.tried true)
    ++ (writes 1 0).map (Move.tried false)

/-- The writer returns at its limit, and at the row that was refused. -/
theorem writer_returns_interleaved :
    (∃ h t k u, Run (TryStep (fun _ : Unit => .codec 0) polling 0) (State.start Unit) h t
        ∧ t.calling () = .capturing .codec
        ∧ exec (attempt (fun _ => .codec 0) polling 0) t lateWrites = some (k, u)
        ∧ u.calling () = .done ∧ u.writer.phase = .returned
        ∧ (lateWrites.map TryMove.weight).sum ≤ stepBound polling)
      ∧ ∃ h t, Run (TryStep (fun _ : Unit => .codec 0) polling 0) (State.start Unit) h t
        ∧ t.calling () = .done ∧ t.writer.phase = .returned ∧ ¬ t.expired polling
        ∧ ∃ e, .failed e ∈ h := by
  constructor
  · have hexec : (exec (attempt (fun _ : Unit => .codec 0) polling 0) (State.start Unit)
        callBegun).any (fun x => decide (x.2.calling () = .capturing .codec)
          && (exec (attempt (fun _ => .codec 0) polling 0) x.2 lateWrites).any fun y =>
            decide (y.2.calling () = .done ∧ y.2.writer.phase = .returned)) = true := by
      decide +kernel
    obtain ⟨⟨h, t⟩, hbegun, hx⟩ := (Option.any_eq_true ..).mp hexec
    obtain ⟨hcapturing, hlater⟩ := Bool.and_eq_true_iff.mp hx
    obtain ⟨⟨k, u⟩, hmoves, hy⟩ := (Option.any_eq_true ..).mp hlater
    obtain ⟨hdone, hreturned⟩ := of_decide_eq_true hy
    have hrun := run_of_exec hbegun
    have hlate : lateWrites.all (fun mv => match mv with
        | .call .. => true
        | .write reading _ => decide (Watch.watchLimitMs ≤ (reading.tick - 0) / 19200)) = true := by
      decide +kernel
    have hbound := (writer_returns _ polling 0 h t hrun).1 lateWrites k u rfl hmoves
      fun reading accepts hmem => (show Watch.watchLimitMs ≤ (reading.tick - 0) / 19200 from
        of_decide_eq_true (List.all_eq_true.mp hlate _ hmem))
    exact ⟨h, t, k, u, hrun, of_decide_eq_true hcapturing, hmoves, hdone, hreturned, hbound.1⟩
  · have hexec : (exec (attempt (fun _ : Unit => .codec 0) polling 0) (State.start Unit)
        refusedRow).any (fun x => decide (x.2.calling () = .done
          ∧ x.2.writer.phase = .returned ∧ ¬ x.2.expired polling)) = true := by
      decide +kernel
    obtain ⟨⟨h, t⟩, hmoves, hx⟩ := (Option.any_eq_true ..).mp hexec
    obtain ⟨hdone, hreturned, hinside⟩ := of_decide_eq_true hx
    have hrun := run_of_exec hmoves
    have hends := (writer_returns _ polling 0 h t hrun).2.2.1 hreturned
    exact ⟨h, t, hrun, hdone, hreturned, hinside, hends.resolve_left hinside⟩

end TeamAttack.Recorder
