import TeamAttack.ApplicationProbe
import TeamAttack.CodecProbe
import TeamAttack.CaptureOnce

/-! # The recorder (`probe.rs`, the writer loop)

    One thread writes the log while any number of callbacks publish into the
    codec store, the sixteen application banks and the compact store.  This
    file models both sides at their atomic steps, every log write succeeding
    (`writeOrReturn` lets the log refuse): an iteration of the writer sleeps,
    reads the clock, may record the installation, tests the limit, and then
    goes through the tasks of the loop body.  A callback appears here once its
    probe was found recording. -/

namespace TeamAttack.Recorder

open Runs CaptureSchedule ApplicationProbe
open CodecProbe (Direction)
open Application (siteCount)

/-- The stores: `EVENTS` of the two probes and `CAPTURES`. -/
inductive StoreId where
  | codec
  | bank (b : Fin (siteCount * 2))
  | compact
  deriving DecidableEq

/-- Where a callback comes from. -/
inductive Source where
  | codec (direction : Direction)
  | application (kind : Kind)
  | serializer
  deriving DecidableEq

/-- The probes with a counts row. -/
inductive Probe where
  | codec
  | application
  deriving DecidableEq

/-- `CALLS` and `DROPPED` of the two probes, and `SERIALIZER_CALLS`. -/
inductive Counter where
  | calls (source : Source)
  | dropped (probe : Probe)
  deriving DecidableEq

def Source.probe? : Source → Option Probe
  | .codec _ => some .codec
  | .application _ => some .application
  | .serializer => none

def StoreId.probe? : StoreId → Option Probe
  | .codec => some .codec
  | .bank _ => some .application
  | .compact => none

/-- The counter an unsuccessful `try_capture` of a source bumps. -/
def Source.dropCounter? (source : Source) : Option Counter := source.probe?.map .dropped

/-- The probe whose row reports a counter. -/
def Counter.probe? : Counter → Option Probe
  | .calls source => source.probe?
  | .dropped probe => some probe

/-- What `counts` of a probe loads, in order. -/
def Probe.counters : Probe → List Counter
  | .codec => [.calls (.codec 0), .calls (.codec 1), .dropped .codec]
  | .application =>
      (List.finRange siteCount).map (fun kind => .calls (.application kind))
        ++ [.dropped .application]

/-- The bound a callback passes to `try_capture` of a store. -/
def limit (config : Config) : StoreId → Nat
  | .codec => captureCapacity
  | .bank _ => Application.bankLimit
  | .compact => config.maxDumps.toNat

/-- Are the hooks of this source installed? -/
def Source.hooked (config : Config) : Source → Bool
  | .codec _ => config.observeRuleCodec
  | .application _ => config.observeRuleApplication
  | .serializer => true

/-- What the game and the runtime supply to one step of a callback:
    `captures` says that the serializer's buffer is not null and the writer
    ready. -/
structure Supplied where
  mode : UInt32
  captures : Bool
  spurious : Bool
  observation : CodecProbe.Observation
  event : Application.Event
  buffer : Payload

/-- The store a callback captures into, if it captures. -/
def Source.target (supplied : Supplied) : Source → Option StoreId
  | .codec _ => some .codec
  | .application kind => some (.bank (ApplicationProbe.bank kind supplied.mode))
  | .serializer => if supplied.captures then some .compact else none

/-- What the sample closure of a source returns: the first byte of a codec
    event is its direction, that of an application event its kind. -/
def Source.sample (supplied : Supplied) : Source → Payload
  | .codec direction => { supplied.observation with direction }.encode
  | .application kind => { supplied.event with kind := UInt8.ofNat kind.val }.encode
  | .serializer => supplied.buffer

/-- The source the line of a capture names. -/
def lineSource? (s : StoreId) (capture : Capture) : Option Source :=
  match s with
  | .codec => some (.codec (if (CodecProbe.eventLine capture).encode then 0 else 1))
  | .bank b =>
      let kind := (ApplicationProbe.eventLine b capture).event.kind.toNat
      if h : kind < siteCount then some (.application ⟨kind, h⟩) else none
  | .compact => some .serializer

/-! ## Both sides -/

/-- Where a callback stands: not begun, past its `fetch_add`, inside
    `try_capture`, or returned. -/
inductive Calling where
  | idle
  | counted
  | capturing (s : StoreId)
  | done
  deriving DecidableEq

/-- A call of `take`, named by how many came before it, and its index. -/
abbrev Visit := Nat × Nat

/-- One step of the loop body after the limit check. -/
inductive Task where
  | take (s : StoreId) (i : Nat)
  | load (c : Counter)
  | report (probe : Probe)
  | watch
  | flush
  deriving DecidableEq

/-- The calls of `take` in `drain` of a probe. -/
def Probe.drain : Probe → List Task
  | .codec => (List.range captureCapacity).map (.take .codec)
  | .application => drainOrder.map fun slot => .take (.bank slot.1) slot.2

/-- `drain`, `counts` and the row of a probe. -/
def Probe.tasks (probe : Probe) : List Task :=
  probe.drain ++ probe.counters.map .load ++ [.report probe]

/-- The loop body after the limit check. -/
def tasks (config : Config) : List Task :=
  (if config.observeRuleCodec then Probe.codec.tasks else [])
  ++ (if config.observeRuleApplication then Probe.application.tasks else [])
  ++ (List.range captureCapacity).map (.take .compact)
  ++ (if config.pollGlobalTeamAttack then [.watch] else [])
  ++ [.flush]

/-- Where the writer stands.  `read` is inside a successful `take`. -/
inductive Phase where
  | sleep
  | hookStatus
  | limit
  | work (rest : List Task)
  | read (s : StoreId) (c : Visit) (rest : List Task)
  | returned
  deriving DecidableEq

/-- The counts of a row, in the order they were loaded. -/
abbrev Counts := List (Counter × Nat)

/-- The writer thread's locals, and how many calls of `take` it has made. -/
structure Writer where
  phase : Phase
  visits : Nat
  elapsedMs : UInt64
  installationRecorded : Bool
  schedule : Watch.WatchSchedule
  storedDumps : Nat
  last : Probe → Option Counts
  lastMs : Probe → UInt64
  loaded : Counts
  dirty : Bool

/-- The stores and counters, the callbacks, and the writer. -/
structure State (P : Type) where
  stores : StoreId → Schedule P Visit
  calling : P → Calling
  counters : Counter → Nat
  writer : Writer

/-- What happens: `store` and `visit` on the stores, `line` the lines of a
    capture, `row` a counts row. -/
inductive Event (P : Type) where
  | called (p : P)
  | dropped (p : P)
  | store (s : StoreId) (e : CaptureSchedule.Event P Visit)
  | visit (s : StoreId) (c : Visit) (es : List (CaptureSchedule.Event P Visit))
  | line (s : StoreId) (capture : Capture)
  | row (probe : Probe) (elapsedMs : UInt64) (counts : Counts)
  | watch (elapsedMs : UInt64) (observation : Watch.Observation)
  | status (message : String)
  | flush
  deriving DecidableEq

/-- What the writer reads outside the recorder: the system tick, whether
    `ORIGINAL` is set, and the game's guard and global bytes. -/
structure Reading where
  tick : UInt64
  hooked : Bool
  guard : UInt8
  global : UInt8

/-- The writer about to enter its loop. -/
def Writer.start : Writer where
  phase := .sleep
  visits := 0
  elapsedMs := 0
  installationRecorded := false
  schedule := .default
  storedDumps := 0
  last := fun _ => none
  lastMs := fun _ => 0
  loaded := []
  dirty := false

/-- New stores, no callback begun. -/
def State.start (P : Type) : State P where
  stores := fun _ => Schedule.start P Visit
  calling := fun _ => .idle
  counters := fun _ => 0
  writer := .start

section Steps

variable {P : Type} [DecidableEq P]

def State.atCall (t : State P) (p : P) (calling : Calling) : State P :=
  { t with calling := Function.update t.calling p calling }

def State.atStore (t : State P) (s : StoreId) (schedule : Schedule P Visit) : State P :=
  { t with stores := Function.update t.stores s schedule }

/-- `fetch_add(1)` of a counter. -/
def State.bump (t : State P) (c : Counter) : State P :=
  { t with counters := Function.update t.counters c (t.counters c + 1) }

/-- The writer's next phase. -/
def State.go (t : State P) (phase : Phase) : State P :=
  { t with writer := { t.writer with phase } }

/-- The next step of a callback. -/
def callStep (source : P → Source) (config : Config) (t : State P) (p : P)
    (supplied : Supplied) : Option (List (Event P) × State P) :=
  match t.calling p with
  | .idle =>
      if (source p).hooked config then
        some ([.called p], (t.bump (.calls (source p))).atCall p .counted)
      else none
  | .counted =>
      match (source p).target supplied with
      | some s => some ([], t.atCall p (.capturing s))
      | none => some ([], t.atCall p .done)
  | .capturing s =>
      match ((t.stores s).producing p).returned? with
      | some true => some ([], t.atCall p .done)
      -- `try_capture` refused: the slots are used up, or the exchange failed
      | some false =>
          match (source p).dropCounter? with
          | some c => some ([.dropped p], (t.bump c).atCall p .done)
          | none => some ([], t.atCall p .done)
      | none =>
          (produce (fun _ => limit config s) (t.stores s) p supplied.spurious
            ((source p).sample supplied)).map fun (es, schedule) =>
              (es.map (.store s), t.atStore s schedule)
  | .done => none

/-- The exchange of `take`; the writer goes on to read what it took. -/
def takeTask (t : State P) (s : StoreId) (i : Nat) (rest : List Task) :
    Option (List (Event P) × State P) :=
  let c : Visit := (t.writer.visits, i)
  (consume Prod.snd (t.stores s) c).map fun (es, schedule) =>
    let phase := if es = [] then .work rest else .read s c rest
    let writer := { t.writer with visits := t.writer.visits + 1, phase }
    ([.visit s c es], { t.atStore s schedule with writer })

/-- A counts row, when the counts changed or the heartbeat is due. -/
def reportTask (t : State P) (probe : Probe) (rest : List Task) : List (Event P) × State P :=
  let w := t.writer
  if w.last probe ≠ some w.loaded
      ∨ Watch.saturatingSub w.elapsedMs (w.lastMs probe) ≥ Watch.heartbeatMs then
    ([.row probe w.elapsedMs w.loaded],
      { t with writer := { w with
          phase := .work rest
          last := Function.update w.last probe (some w.loaded)
          lastMs := Function.update w.lastMs probe w.elapsedMs
          loaded := []
          dirty := true } })
  else ([], { t with writer := { w with phase := .work rest, loaded := [] } })

/-- The watch row. -/
def watchTask (t : State P) (reading : Reading) (rest : List Task) : List (Event P) × State P :=
  let w := t.writer
  let initialized := reading.guard &&& 1 ≠ 0
  let observation : Watch.Observation :=
    { initialized
      value := if initialized then some reading.global else none
      serializerCalls := t.counters (.calls .serializer)
      storedDumps := w.storedDumps }
  match w.schedule.shouldLog w.elapsedMs observation with
  | (true, schedule) =>
      ([.watch w.elapsedMs observation],
        { t with writer := { w with phase := .work rest, schedule, dirty := true } })
  | (false, schedule) => ([], { t with writer := { w with phase := .work rest, schedule } })

/-- One task of the loop body. -/
def taskStep (t : State P) (reading : Reading) (rest : List Task) :
    Task → Option (List (Event P) × State P)
  | .take s i => takeTask t s i rest
  | .load c =>
      some ([], { t with writer := { t.writer with
        phase := .work rest, loaded := t.writer.loaded ++ [(c, t.counters c)] } })
  | .report probe => some (reportTask t probe rest)
  | .watch => some (watchTask t reading rest)
  | .flush => some (if t.writer.dirty then [.flush] else [], t.go (.work rest))

/-- The value read, the line written. -/
def readStep (t : State P) (s : StoreId) (c : Visit) (rest : List Task) :
    Option (List (Event P) × State P) :=
  match consume Prod.snd (t.stores s) c with
  | none => none
  | some (_, schedule) =>
      match schedule.taking c with
      | .returned (some capture) =>
          let storedDumps := t.writer.storedDumps + if s = .compact then 1 else 0
          let writer := { t.writer with phase := .work rest, dirty := true, storedDumps }
          some ([.line s capture], { t.atStore s schedule with writer })
      | _ => none

/-- Has the writer's clock reached the limit of a polling session? -/
def State.expired (config : Config) (t : State P) : Prop :=
  config.pollGlobalTeamAttack = true ∧ Watch.watchLimitMs ≤ t.writer.elapsedMs

instance (config : Config) (t : State P) : Decidable (t.expired config) := instDecidableAnd

/-- The next step of the writer. -/
def writeStep (config : Config) (startTick : UInt64) (t : State P) (reading : Reading) :
    Option (List (Event P) × State P) :=
  match t.writer.phase with
  | .sleep =>
      -- 19200 ticks are a millisecond
      let elapsedMs := (reading.tick - startTick) / 19200
      some ([], { t with writer := { t.writer with phase := .hookStatus, elapsedMs } })
  | .hookStatus =>
      if t.writer.installationRecorded = false ∧ reading.hooked then
        some ([.status "hook_installed"],
          { t with writer := { t.writer with phase := .limit, installationRecorded := true } })
      else some ([], t.go .limit)
  | .limit =>
      -- the writer returns; the callbacks run on
      if t.expired config then
        some ([.status "watch_limit_reached_20_minutes_observation_stopped_mutation_active"],
          t.go .returned)
      else some ([], { t with writer := { t.writer with
        phase := .work (tasks config), dirty := false } })
  | .work [] => some ([], t.go .sleep)
  | .work (task :: rest) => taskStep t reading rest task
  | .read s c rest => readStep t s c rest
  | .returned => none

/-- Who moves. -/
inductive Move (P : Type) where
  | call (p : P) (supplied : Supplied)
  | write (reading : Reading)

/-- One atomic step. -/
def advance (source : P → Source) (config : Config) (startTick : UInt64) (t : State P) :
    Move P → Option (List (Event P) × State P)
  | .call p supplied => callStep source config t p supplied
  | .write reading => writeStep config startTick t reading

/-- One step of the recorder. -/
def Step (source : P → Source) (config : Config) (startTick : UInt64) :
    State P → List (Event P) → State P → Prop :=
  Moves (advance source config startTick)

/-- The writer is about to return because its time is up. -/
def State.AtLimit (config : Config) (t : State P) : Prop :=
  t.writer.phase = .limit ∧ t.expired config

instance (config : Config) (t : State P) : Decidable (t.AtLimit config) := instDecidableAnd

end Steps

/-! ## Everything one step can do -/

/-- The tasks still ahead in this iteration. -/
def Phase.agenda : Phase → List Task
  | .work rest => rest
  | .read _ _ rest => rest
  | .sleep => []
  | .hookStatus => []
  | .limit => []
  | .returned => []

/-- The events that concern neither callbacks, stores, lines nor rows. -/
def Event.Silent {P : Type} : Event P → Prop
  | .watch .. => True
  | .status _ => True
  | .flush => True
  | .called _ => False
  | .dropped _ => False
  | .store .. => False
  | .visit .. => False
  | .line .. => False
  | .row .. => False

/-- No task is ahead, and none has been begun. -/
def Phase.Between : Phase → Prop
  | .work rest => rest = []
  | .read .. => False
  | .sleep => True
  | .hookStatus => True
  | .limit => True
  | .returned => True

/-- How the agenda changes where no store and no counter is looked at. -/
inductive Onward (config : Config) : Phase → Phase → Prop where
  | between (k k' : Phase) : k.Between → k'.Between → Onward config k k'
  | enter (k : Phase) : k.Between → Onward config k (.work (tasks config))
  | task (task : Task) (rest : List Task) : task = .watch ∨ task = .flush →
      Onward config (.work (task :: rest)) (.work rest)

section Inversion

variable {P : Type} [DecidableEq P]

/-- The step a callback takes. -/
inductive Called (source : P → Source) (config : Config) (t : State P) (p : P) :
    List (Event P) → State P → Prop where
  | begin : t.calling p = .idle →
      Called source config t p [.called p] ((t.bump (.calls (source p))).atCall p .counted)
  | enter (s : StoreId) (supplied : Supplied) : t.calling p = .counted →
      (source p).target supplied = some s →
      Called source config t p [] (t.atCall p (.capturing s))
  | skip : t.calling p = .counted → (source p).probe? = none →
      Called source config t p [] (t.atCall p .done)
  | produce (s : StoreId) (supplied : Supplied) (spurious : Bool)
      (es : List (CaptureSchedule.Event P Visit)) (schedule : Schedule P Visit) :
      t.calling p = .capturing s →
      CaptureSchedule.produce (fun _ => limit config s) (t.stores s) p spurious
        ((source p).sample supplied) = some (es, schedule) →
      Called source config t p (es.map (.store s)) (t.atStore s schedule)
  | captured (s : StoreId) : t.calling p = .capturing s →
      ((t.stores s).producing p).returned? = some true →
      Called source config t p [] (t.atCall p .done)
  | lost (s : StoreId) (probe : Probe) : t.calling p = .capturing s →
      ((t.stores s).producing p).returned? = some false → (source p).probe? = some probe →
      Called source config t p [.dropped p] ((t.bump (.dropped probe)).atCall p .done)
  | passed (s : StoreId) : t.calling p = .capturing s →
      ((t.stores s).producing p).returned? = some false → (source p).probe? = none →
      Called source config t p [] (t.atCall p .done)

/-- The step the writer takes. -/
inductive Wrote (config : Config) (t : State P) : List (Event P) → State P → Prop where
  | take (s : StoreId) (i : Nat) (rest : List Task)
      (es : List (CaptureSchedule.Event P Visit)) (schedule : Schedule P Visit) :
      t.writer.phase = .work (.take s i :: rest) →
      consume Prod.snd (t.stores s) (t.writer.visits, i) = some (es, schedule) →
      Wrote config t [.visit s (t.writer.visits, i) es]
        { t.atStore s schedule with writer := { t.writer with
            visits := t.writer.visits + 1
            phase := if es = [] then .work rest else .read s (t.writer.visits, i) rest } }
  | line (s : StoreId) (c : Visit) (rest : List Task) (i : Index) (capture : Capture)
      (storedDumps : Nat) :
      t.writer.phase = .read s c rest → (t.stores s).taking c = .read i →
      ((t.stores s).store.slots i).value = some capture →
      Wrote config t [.line s capture]
        { t.atStore s ((t.stores s).atConsumer c (.returned (some capture))) with
          writer := { t.writer with phase := .work rest, dirty := true, storedDumps } }
  | load (c : Counter) (rest : List Task) : t.writer.phase = .work (.load c :: rest) →
      Wrote config t [] { t with writer := { t.writer with
        phase := .work rest, loaded := t.writer.loaded ++ [(c, t.counters c)] } }
  | row (probe : Probe) (rest : List Task) : t.writer.phase = .work (.report probe :: rest) →
      Wrote config t [.row probe t.writer.elapsedMs t.writer.loaded]
        { t with writer := { t.writer with
            phase := .work rest
            last := Function.update t.writer.last probe (some t.writer.loaded)
            lastMs := Function.update t.writer.lastMs probe t.writer.elapsedMs
            loaded := []
            dirty := true } }
  | same (probe : Probe) (rest : List Task) : t.writer.phase = .work (.report probe :: rest) →
      t.writer.last probe = some t.writer.loaded →
      Wrote config t [] { t with writer := { t.writer with phase := .work rest, loaded := [] } }
  | onward (es : List (Event P)) (w : Writer) : Onward config t.writer.phase w.phase →
      (∀ e ∈ es, e.Silent) → es.length ≤ 1 → w.visits = t.writer.visits →
      w.loaded = t.writer.loaded → w.last = t.writer.last →
      Wrote config t es { t with writer := w }

variable {source : P → Source} {config : Config} {startTick : UInt64} {t t' : State P}
  {es : List (Event P)}

theorem Source.target_none {source : Source} {supplied : Supplied}
    (h : source.target supplied = none) : source.probe? = none := by
  cases source with
  | codec direction => exact nomatch h
  | application kind => exact nomatch h
  | serializer => rfl

theorem called_of_callStep {p : P} {supplied : Supplied}
    (h : callStep source config t p supplied = some (es, t')) :
    Called source config t p es t' := by
  unfold callStep at h
  cases hcalling : t.calling p with
  | idle =>
      simp only [hcalling] at h
      split_ifs at h
      obtain ⟨rfl, rfl⟩ := Prod.mk.inj (Option.some.inj h)
      exact .begin hcalling
  | counted =>
      simp only [hcalling] at h
      cases htarget : (source p).target supplied with
      | some s =>
          simp only [htarget] at h
          obtain ⟨rfl, rfl⟩ := Prod.mk.inj (Option.some.inj h)
          exact .enter s supplied hcalling htarget
      | none =>
          simp only [htarget] at h
          obtain ⟨rfl, rfl⟩ := Prod.mk.inj (Option.some.inj h)
          exact .skip hcalling (Source.target_none htarget)
  | capturing s =>
      simp only [hcalling] at h
      cases hreturned : ((t.stores s).producing p).returned? with
      | none =>
          simp only [hreturned] at h
          obtain ⟨⟨es, schedule⟩, hproduce, hpair⟩ := Option.map_eq_some_iff.mp h
          obtain ⟨rfl, rfl⟩ := Prod.mk.inj hpair
          exact .produce s supplied supplied.spurious es schedule hcalling hproduce
      | some ok =>
          cases ok with
          | true =>
              simp only [hreturned] at h
              obtain ⟨rfl, rfl⟩ := Prod.mk.inj (Option.some.inj h)
              exact .captured s hcalling hreturned
          | false =>
              simp only [hreturned, Source.dropCounter?] at h
              cases hprobe : (source p).probe? with
              | none =>
                  simp only [hprobe, Option.map_none] at h
                  obtain ⟨rfl, rfl⟩ := Prod.mk.inj (Option.some.inj h)
                  exact .passed s hcalling hreturned hprobe
              | some probe =>
                  simp only [hprobe, Option.map_some] at h
                  obtain ⟨rfl, rfl⟩ := Prod.mk.inj (Option.some.inj h)
                  exact .lost s probe hcalling hreturned hprobe
  | done =>
      simp only [hcalling] at h
      exact nomatch h

omit [DecidableEq P] in
theorem wrote_of_taskStep {reading : Reading} {rest : List Task} {task : Task}
    (hphase : t.writer.phase = .work (task :: rest))
    (h : taskStep t reading rest task = some (es, t')) : Wrote config t es t' := by
  cases task with
  | take s i =>
      obtain ⟨⟨es, schedule⟩, hconsume, hpair⟩ := Option.map_eq_some_iff.mp h
      obtain ⟨rfl, rfl⟩ := Prod.mk.inj hpair
      exact .take s i rest es schedule hphase hconsume
  | load c =>
      obtain ⟨rfl, rfl⟩ := Prod.mk.inj (Option.some.inj h)
      exact .load c rest hphase
  | report probe =>
      simp only [taskStep, reportTask] at h
      -- a row is written when the counts changed or after the heartbeat
      split_ifs at h with hdue
      · obtain ⟨rfl, rfl⟩ := Prod.mk.inj (Option.some.inj h)
        exact .row probe rest hphase
      · obtain ⟨rfl, rfl⟩ := Prod.mk.inj (Option.some.inj h)
        exact .same probe rest hphase (not_not.mp (not_or.mp hdue).1)
  | watch =>
      have honward : ∀ (w : Writer), w.phase = .work rest →
          Onward config t.writer.phase w.phase := fun w hw => by
        rw [hphase, hw]
        exact .task .watch rest (Or.inl rfl)
      simp only [taskStep, watchTask] at h
      split at h
      · obtain ⟨rfl, rfl⟩ := Prod.mk.inj (Option.some.inj h)
        exact .onward _ _ (honward _ rfl)
          (fun e he => by rw [List.mem_singleton.mp he]; trivial) (Nat.le_refl _) rfl rfl rfl
      · obtain ⟨rfl, rfl⟩ := Prod.mk.inj (Option.some.inj h)
        exact .onward _ _ (honward _ rfl) (fun e he => nomatch he) (Nat.zero_le _) rfl rfl rfl
  | flush =>
      have honward : Onward config t.writer.phase (.work rest) := by
        rw [hphase]
        exact .task .flush rest (Or.inr rfl)
      simp only [taskStep] at h
      split_ifs at h
      · obtain ⟨rfl, rfl⟩ := Prod.mk.inj (Option.some.inj h)
        exact .onward _ _ honward (fun e he => by rw [List.mem_singleton.mp he]; trivial)
          (Nat.le_refl _) rfl rfl rfl
      · obtain ⟨rfl, rfl⟩ := Prod.mk.inj (Option.some.inj h)
        exact .onward _ _ honward (fun e he => nomatch he) (Nat.zero_le _) rfl rfl rfl

omit [DecidableEq P] in
theorem wrote_of_readStep {s : StoreId} {c : Visit} {rest : List Task}
    (hphase : t.writer.phase = .read s c rest)
    (h : readStep t s c rest = some (es, t')) : Wrote config t es t' := by
  unfold readStep at h
  cases hconsume : consume Prod.snd (t.stores s) c with
  | none =>
      simp only [hconsume] at h
      exact nomatch h
  | some x =>
      obtain ⟨fs, schedule⟩ := x
      simp only [hconsume] at h
      split at h
      case h_2 => exact nomatch h
      case h_1 capture hreturned =>
        obtain ⟨rfl, rfl⟩ := Prod.mk.inj (Option.some.inj h)
        cases consumed_of_consume hconsume with
        -- only the read of a slot can return a capture
        | miss hpc =>
            rw [Schedule.atConsumer_self] at hreturned
            exact nomatch hreturned
        | take i hpc hindex hready =>
            have hnow : ((t.stores s).atConsumer c (.read i)).taking c = .read i :=
              Schedule.atConsumer_self ..
            exact nomatch hnow.symm.trans hreturned
        | read i hpc =>
            rw [Schedule.atConsumer_self] at hreturned
            have hvalue := Taking.returned.inj hreturned
            rw [hvalue]
            exact .line s c rest i capture _ hphase hpc hvalue

omit [DecidableEq P] in
theorem wrote_of_writeStep {reading : Reading}
    (h : writeStep config startTick t reading = some (es, t')) : Wrote config t es t' := by
  unfold writeStep at h
  cases hphase : t.writer.phase with
  | sleep =>
      simp only [hphase] at h
      obtain ⟨rfl, rfl⟩ := Prod.mk.inj (Option.some.inj h)
      exact .onward _ _ (.between _ _ (by rw [hphase]; trivial) trivial) (fun e he => nomatch he)
        (Nat.zero_le _) rfl rfl rfl
  | hookStatus =>
      simp only [hphase] at h
      split_ifs at h
      · obtain ⟨rfl, rfl⟩ := Prod.mk.inj (Option.some.inj h)
        exact .onward _ _ (.between _ _ (by rw [hphase]; trivial) trivial)
          (fun e he => by rw [List.mem_singleton.mp he]; trivial) (Nat.le_refl _) rfl rfl rfl
      · obtain ⟨rfl, rfl⟩ := Prod.mk.inj (Option.some.inj h)
        exact .onward _ _ (.between _ _ (by rw [hphase]; trivial) trivial) (fun e he => nomatch he)
          (Nat.zero_le _) rfl rfl rfl
  | limit =>
      simp only [hphase] at h
      split_ifs at h
      · obtain ⟨rfl, rfl⟩ := Prod.mk.inj (Option.some.inj h)
        exact .onward _ _ (.between _ _ (by rw [hphase]; trivial) trivial)
          (fun e he => by rw [List.mem_singleton.mp he]; trivial) (Nat.le_refl _) rfl rfl rfl
      · obtain ⟨rfl, rfl⟩ := Prod.mk.inj (Option.some.inj h)
        exact .onward _ _ (.enter _ (by rw [hphase]; trivial)) (fun e he => nomatch he)
          (Nat.zero_le _) rfl rfl rfl
  | work agenda =>
      cases agenda with
      | nil =>
          simp only [hphase] at h
          obtain ⟨rfl, rfl⟩ := Prod.mk.inj (Option.some.inj h)
          exact .onward _ _ (.between _ _ (by rw [hphase]; exact rfl) trivial)
            (fun e he => nomatch he) (Nat.zero_le _) rfl rfl rfl
      | cons task rest =>
          simp only [hphase] at h
          exact wrote_of_taskStep hphase h
  | read s c rest =>
      simp only [hphase] at h
      exact wrote_of_readStep hphase h
  | returned =>
      simp only [hphase] at h
      exact nomatch h

/-- **Everything one step of the recorder can do.** -/
theorem step_cases (h : Step source config startTick t es t') :
    (∃ p, Called source config t p es t') ∨ Wrote config t es t' := by
  obtain ⟨mv, hmv⟩ := h
  cases mv with
  | call p supplied => exact Or.inl ⟨p, called_of_callStep hmv⟩
  | write reading => exact Or.inr (wrote_of_writeStep hmv)

end Inversion

end TeamAttack.Recorder
