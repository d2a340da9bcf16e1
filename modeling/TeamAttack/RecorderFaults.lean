import TeamAttack.Recorder

/-! # Log writes that fail

    The writer returns at the first write the log refuses, and the callbacks
    run on.  What is in the log by then is what a recorder writes whose every
    write succeeds (`done_run`). -/

namespace TeamAttack.Recorder

open Runs CaptureSchedule

section Model

variable {P : Type}

/-- Is this event a write to the log? -/
def Event.isWrite : Event P → Bool
  | .line .. => true
  | .row .. => true
  | .watch .. => true
  | .status _ => true
  | .flush => true
  | .called _ => false
  | .dropped _ => false
  | .store .. => false
  | .visit .. => false

/-- An event, or a write the log refused. -/
inductive Attempt (P : Type) where
  | done (e : Event P)
  | failed (e : Event P)
  deriving DecidableEq

def Attempt.done? : Attempt P → Option (Event P)
  | .done e => some e
  | .failed _ => none

/-- The next step of the writer, which returns when the log refuses. -/
def writeOrReturn (config : Config) (startTick : UInt64) (t : State P) (reading : Reading)
    (accepts : Bool) : Option (List (Attempt P) × State P) :=
  (writeStep config startTick t reading).map fun (es, t') =>
    if accepts = false ∧ es.any Event.isWrite then (es.map .failed, t'.go .returned)
    else (es.map .done, t')

/-- Who moves, and whether the log accepts what is written. -/
inductive TryMove (P : Type) where
  | call (p : P) (supplied : Supplied)
  | write (reading : Reading) (accepts : Bool)

/-- One atomic step. -/
def attempt [DecidableEq P] (source : P → Source) (config : Config) (startTick : UInt64)
    (t : State P) : TryMove P → Option (List (Attempt P) × State P)
  | .call p supplied =>
      (callStep source config t p supplied).map fun (es, t') => (es.map .done, t')
  | .write reading accepts => writeOrReturn config startTick t reading accepts

/-- One step of the recorder, on a log that may refuse. -/
def TryStep [DecidableEq P] (source : P → Source) (config : Config) (startTick : UInt64) :
    State P → List (Attempt P) → State P → Prop :=
  Moves (attempt source config startTick)

end Model

section Inversion

variable {P : Type} {config : Config} {startTick : UInt64} {t t' u : State P}

theorem done?_done (es : List (Event P)) : (es.map Attempt.done).filterMap Attempt.done? = es := by
  rw [List.filterMap_map]
  exact List.filterMap_some

theorem done?_failed (es : List (Event P)) :
    (es.map Attempt.failed).filterMap Attempt.done? = [] := by
  rw [List.filterMap_map]
  exact List.filterMap_eq_nil_iff.mpr fun _ _ => rfl

/-- A step of the writer is one of a log that accepts, or its last. -/
theorem writeOrReturn_cases {reading : Reading} {accepts : Bool} {es : List (Attempt P)}
    (h : writeOrReturn config startTick t reading accepts = some (es, t')) :
    (∃ fs, writeStep config startTick t reading = some (fs, t') ∧ es = fs.map .done)
      ∨ ∃ fs u, writeStep config startTick t reading = some (fs, u)
        ∧ fs.any Event.isWrite = true ∧ es = fs.map .failed ∧ t' = u.go .returned := by
  obtain ⟨⟨fs, u⟩, hwrite, hpair⟩ := Option.map_eq_some_iff.mp h
  dsimp only at hpair
  split_ifs at hpair with hrefused
  · obtain ⟨rfl, rfl⟩ := Prod.mk.inj hpair
    exact Or.inr ⟨fs, u, hwrite, hrefused.2, rfl, rfl⟩
  · obtain ⟨rfl, rfl⟩ := Prod.mk.inj hpair
    exact Or.inl ⟨fs, hwrite, rfl⟩

end Inversion

/-! ## The callbacks beside another writer -/

/-- Two states that a callback cannot tell apart. -/
structure Beside {P : Type} (t u : State P) : Prop where
  calling : t.calling = u.calling
  counters : t.counters = u.counters
  store : ∀ s, (t.stores s).store = (u.stores s).store
  producing : ∀ s, (t.stores s).producing = (u.stores s).producing

/-- The state with another writer, and its calls of `take`. -/
def State.withWriter {P : Type} (t : State P) (writer : Writer)
    (taking : StoreId → Visit → Taking) : State P :=
  { t with writer, stores := fun s => { t.stores s with taking := taking s } }

section Simulation

variable {P : Type} {config : Config} {startTick : UInt64} {t t' u : State P}

theorem Beside.refl (t : State P) : Beside t t := ⟨rfl, rfl, fun _ => rfl, fun _ => rfl⟩

theorem Beside.eq (h : Beside t u) :
    t = u.withWriter t.writer fun s => (t.stores s).taking := by
  obtain ⟨stores, calling, counters, writer⟩ := t
  obtain ⟨rfl, rfl, hstore, hproducing⟩ := h
  have hstores : stores = fun s => { u.stores s with taking := (stores s).taking } := by
    funext s
    have hone : (stores s).store = (u.stores s).store := hstore s
    have htwo : (stores s).producing = (u.stores s).producing := hproducing s
    show (⟨(stores s).store, (stores s).producing, (stores s).taking⟩ : Schedule P Visit)
      = ⟨(u.stores s).store, (u.stores s).producing, (stores s).taking⟩
    rw [hone, htwo]
  rw [State.withWriter, ← hstores]

/-- A write changes the writer and its calls of `take` only. -/
theorem Wrote.beside {es : List (Event P)} (h : Wrote config t es t')
    (hes : es.any Event.isWrite = true) : Beside t' t := by
  cases h with
  | take | load | same => cases hes
  | row | onward => exact ⟨rfl, rfl, fun _ => rfl, fun _ => rfl⟩
  | line s c rest i capture storedDumps =>
      have hstores : ∀ s', ∃ taking, Function.update t.stores s
          ((t.stores s).atConsumer c (.returned (some capture))) s'
            = { t.stores s' with taking } := by
        intro s'
        by_cases hs : s' = s
        · subst hs
          exact ⟨_, Function.update_self ..⟩
        · exact ⟨(t.stores s').taking, Function.update_of_ne hs ..⟩
      refine ⟨rfl, rfl, fun s' => ?_, fun s' => ?_⟩
      · obtain ⟨taking, hs'⟩ := hstores s'
        exact (congrArg Schedule.store hs').trans (rfl : _ = (t.stores s').store)
      · obtain ⟨taking, hs'⟩ := hstores s'
        exact (congrArg Schedule.producing hs').trans (rfl : _ = (t.stores s').producing)

theorem atStore_withWriter (writer : Writer) (taking : StoreId → Visit → Taking) (s : StoreId)
    (schedule : Schedule P Visit) :
    (t.withWriter writer taking).atStore s { schedule with taking := taking s }
      = (t.atStore s schedule).withWriter writer taking := by
  unfold State.atStore State.withWriter
  congr 1
  funext s'
  show Function.update (fun r => ({ t.stores r with taking := taking r } : Schedule P Visit)) s
      { schedule with taking := taking s } s'
    = { Function.update t.stores s schedule s' with taking := taking s' }
  by_cases hs : s' = s
  · subst hs
    rw [Function.update_self, Function.update_self]
  · rw [Function.update_of_ne hs, Function.update_of_ne hs]

variable [DecidableEq P] {source : P → Source} {p : P} {supplied : Supplied}

/-- `try_capture` does not look at the calls of `take`. -/
theorem produce_taking {C : Type} (limit : P → Nat) (u : Schedule P C) (taking : C → Taking)
    (p : P) (spurious : Bool) (sample : Payload) :
    produce limit { u with taking } p spurious sample
      = (produce limit u p spurious sample).map fun x => (x.1, { x.2 with taking }) := by
  unfold produce
  cases u.producing p with
  | load | exchange =>
      dsimp only
      split_ifs <;> rfl
  | fill | publish | captured | dropped => rfl

/-- A callback does not look at the writer. -/
theorem callStep_withWriter (writer : Writer) (taking : StoreId → Visit → Taking) :
    callStep source config (t.withWriter writer taking) p supplied
      = (callStep source config t p supplied).map fun x => (x.1, x.2.withWriter writer taking) := by
  have hcalling : (t.withWriter writer taking).calling = t.calling := rfl
  have hproducing : ∀ s, ((t.withWriter writer taking).stores s).producing
      = (t.stores s).producing := fun _ => rfl
  unfold callStep
  rw [hcalling]
  cases t.calling p with
  | idle =>
      dsimp only
      split_ifs <;> rfl
  | counted =>
      dsimp only
      cases (source p).target supplied <;> rfl
  | capturing s =>
      dsimp only
      rw [hproducing]
      cases ((t.stores s).producing p).returned? with
      | some ok =>
          cases ok with
          | true => rfl
          | false =>
              dsimp only
              cases (source p).dropCounter? <;> rfl
      | none =>
          dsimp only
          have hproduce := produce_taking (fun _ => limit config s) (t.stores s) (taking s) p
            supplied.spurious ((source p).sample supplied)
          rw [show (t.withWriter writer taking).stores s = { t.stores s with taking := taking s }
            from rfl, hproduce, Option.map_map, Option.map_map]
          refine congrArg (Option.map · _) (funext fun x => ?_)
          exact congrArg (Prod.mk _) (atStore_withWriter writer taking s x.2)
  | done => rfl

theorem Beside.call (h : Beside t u) {es : List (Event P)}
    (hcall : callStep source config t p supplied = some (es, t')) :
    ∃ u', callStep source config u p supplied = some (es, u') ∧ Beside t' u' := by
  rw [h.eq, callStep_withWriter] at hcall
  obtain ⟨⟨fs, u'⟩, hu, hpair⟩ := Option.map_eq_some_iff.mp hcall
  obtain ⟨rfl, rfl⟩ := Prod.mk.inj hpair
  exact ⟨u', hu, rfl, rfl, fun _ => rfl, fun _ => rfl⟩

omit [DecidableEq P] in
/-- A writer that has returned takes no step. -/
theorem phase_ne_returned {reading : Reading} {es : List (Event P)}
    (h : writeStep config startTick t reading = some (es, t')) : t.writer.phase ≠ .returned := by
  intro hphase
  rw [writeStep, hphase] at h
  cases h

theorem callStep_writer {es : List (Event P)}
    (h : callStep source config t p supplied = some (es, t')) : t'.writer = t.writer := by
  cases called_of_callStep h <;> rfl

/-- **Until it fails, the log is that of a recorder that never fails**, and the
    callbacks go on as beside it. -/
theorem done_run {h : List (Attempt P)}
    (hrun : Run (TryStep source config startTick) (State.start P) h t) :
    ∃ u, Run (Step source config startTick) (State.start P) (h.filterMap Attempt.done?) u
      ∧ Beside t u ∧ (t.writer.phase ≠ .returned → t = u) := by
  refine hrun.simulate (R := fun t u => Beside t u ∧ (t.writer.phase ≠ .returned → t = u)) rfl
    (fun h k => List.filterMap_append) (fun t es t' u hR hs => ?_) ⟨.refl _, fun _ => rfl⟩
  obtain ⟨hbeside, hsame⟩ := hR
  obtain ⟨mv, hmv⟩ := hs
  cases mv with
  | call p supplied =>
      obtain ⟨⟨fs, v⟩, hcall, hpair⟩ := Option.map_eq_some_iff.mp hmv
      obtain ⟨rfl, rfl⟩ := Prod.mk.inj hpair
      obtain ⟨u', hu, hbeside'⟩ := hbeside.call hcall
      refine ⟨u', ?_, hbeside', fun hphase => ?_⟩
      · rw [done?_done]
        exact .single ⟨.call p supplied, hu⟩
      · rw [callStep_writer hcall] at hphase
        rw [hsame hphase] at hcall
        exact (Prod.mk.inj (Option.some.inj (hcall.symm.trans hu))).2
  | write reading accepts =>
      rcases writeOrReturn_cases hmv with ⟨fs, hwrite, rfl⟩ | ⟨fs, v, hwrite, hfs, rfl, rfl⟩
      · obtain rfl := hsame (phase_ne_returned hwrite)
        rw [done?_done]
        exact ⟨t', .single ⟨.write reading, hwrite⟩, .refl t', fun _ => rfl⟩
      -- the other recorder stays where it is
      · obtain rfl := hsame (phase_ne_returned hwrite)
        have hv := (wrote_of_writeStep hwrite).beside hfs
        rw [done?_failed]
        exact ⟨t, .refl t, ⟨hv.calling, hv.counters, hv.store, hv.producing⟩,
          fun hphase => absurd rfl hphase⟩

end Simulation

end TeamAttack.Recorder
