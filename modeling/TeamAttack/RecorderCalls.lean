import TeamAttack.RecorderSlots

/-! # What the callbacks do

    Each callback is followed event by event (`life_run`): it is called,
    captures into a store of its source, and has then published or been
    dropped.  What it publishes names its source (`publish_tagged`), and the
    counters hold how often they were bumped (`counters_run`). -/

namespace TeamAttack.Recorder

open Runs CaptureSchedule OnceBoard
open Application (siteCount)

/-! ## The life of a callback -/

section Lives

variable {P : Type}

/-- The callback an event belongs to; its claim and its sample are left out. -/
def Event.caller? : Event P → Option P
  | .called p => some p
  | .dropped p => some p
  | .store _ (.publish p _ _) => some p
  | .store _ (.claim ..) => none
  | .store _ (.sample ..) => none
  | .store _ (.take ..) => none
  | .visit .. => none
  | .line .. => none
  | .row .. => none
  | .watch .. => none
  | .status _ => none
  | .flush => none

/-- What a callback did, in order. -/
def callOf [DecidableEq P] (p : P) (h : List (Event P)) : List (Event P) :=
  h.filter fun e => e.caller? = some p

/-- What a callback has done to stand where it does. -/
inductive Lived (source : P → Source) (t : State P) (p : P) : List (Event P) → Prop where
  | idle : t.calling p = .idle → (∀ s, (t.stores s).producing p = .load) → Lived source t p []
  | counted : t.calling p = .counted → (∀ s, (t.stores s).producing p = .load) →
      Lived source t p [.called p]
  | capturing (s : StoreId) : t.calling p = .capturing s →
      (∀ i v, (t.stores s).producing p ≠ .captured i v) → Lived source t p [.called p]
  | captured (s : StoreId) (i : Index) (v : Payload) :
      t.calling p = .capturing s ∨ t.calling p = .done →
      (t.stores s).producing p = .captured i v →
      Lived source t p [.called p, .store s (.publish p i v)]
  | dropped : t.calling p = .done → Lived source t p [.called p, .dropped p]
  | skipped : t.calling p = .done → (source p).probe? = none → Lived source t p [.called p]

variable [DecidableEq P] {source : P → Source} {config : Config} {startTick : UInt64}
  {t t' : State P} {h es : List (Event P)}

theorem callOf_append (p : P) (h k : List (Event P)) :
    callOf p (h ++ k) = callOf p h ++ callOf p k := List.filter_append ..

theorem mem_callOf {p : P} {e : Event P} : e ∈ callOf p h ↔ e ∈ h ∧ e.caller? = some p := by
  rw [callOf, List.mem_filter, decide_eq_true_eq]

/-- An event of its own extends what a callback did. -/
theorem callOf_self {p : P} {e : Event P} (he : e.caller? = some p) :
    callOf p (h ++ [e]) = callOf p h ++ [e] := by
  rw [callOf_append, callOf, callOf, List.filter_singleton, decide_eq_true he]
  rfl

/-- The events of others do not. -/
theorem callOf_other {p : P} (hes : ∀ e ∈ es, e.caller? ≠ some p) :
    callOf p (h ++ es) = callOf p h := by
  have hnone : callOf p es = [] := List.filter_eq_nil_iff.mpr fun e he => by
    rw [decide_eq_true_eq]
    exact hes e he
  rw [callOf_append, hnone, List.append_nil]

omit [DecidableEq P] in
/-- Where a callback stands is its own business. -/
theorem Lived.congr {p : P} {l : List (Event P)} (hl : Lived source t p l)
    (hcalling : t'.calling p = t.calling p)
    (hproducing : ∀ s, (t'.stores s).producing p = (t.stores s).producing p) :
    Lived source t' p l := by
  cases hl with
  | idle hpc hload => exact .idle (hcalling ▸ hpc) fun s => (hproducing s).trans (hload s)
  | counted hpc hload => exact .counted (hcalling ▸ hpc) fun s => (hproducing s).trans (hload s)
  | capturing s hpc hno =>
      exact .capturing s (hcalling ▸ hpc) fun i v => (hproducing s).symm ▸ hno i v
  | captured s i v hpc hcaptured =>
      exact .captured s i v (hcalling ▸ hpc) ((hproducing s).trans hcaptured)
  | dropped hpc => exact .dropped (hcalling ▸ hpc)
  | skipped hpc hprobe => exact .skipped (hcalling ▸ hpc) hprobe

omit [DecidableEq P] in
/-- The writer leaves the callbacks and their counters alone. -/
theorem Wrote.frame (hw : Wrote config t es t') : t'.calling = t.calling
    ∧ t'.counters = t.counters ∧ (∀ s, (t'.stores s).producing = (t.stores s).producing)
    ∧ ∀ e ∈ es, e.caller? = none := by
  cases hw with
  | take s i rest fs schedule hphase hconsume =>
      refine ⟨rfl, rfl, fun s' => ?_, fun e he => by rw [List.mem_singleton.mp he]; rfl⟩
      show ((t.atStore s schedule).stores s').producing = _
      -- the writer moves calls of `take` only
      by_cases heq : s' = s
      · subst heq
        rw [atStore_stores_self]
        cases consumed_of_consume hconsume <;> rfl
      · rw [atStore_stores_of_ne t schedule heq]
  | line s c rest i capture storedDumps hphase hreading hvalue =>
      refine ⟨rfl, rfl, fun s' => ?_, fun e he => by rw [List.mem_singleton.mp he]; rfl⟩
      show ((t.atStore s _).stores s').producing = _
      by_cases heq : s' = s
      · subst heq
        rw [atStore_stores_self]
        rfl
      · rw [atStore_stores_of_ne t _ heq]
  | load | same => exact ⟨rfl, rfl, fun _ => rfl, fun e he => nomatch he⟩
  | row => exact ⟨rfl, rfl, fun _ => rfl, fun e he => by rw [List.mem_singleton.mp he]; rfl⟩
  | onward _ w honward hsilent =>
      refine ⟨rfl, rfl, fun _ => rfl, fun e he => ?_⟩
      have := hsilent e he
      cases e with
      | watch | status | flush => rfl
      | called | dropped | store | visit | line | row => exact this.elim

/-- A callback's step is no other callback's. -/
theorem Called.frame {p q : P} (hp : Called source config t p es t') (hq : q ≠ p) :
    t'.calling q = t.calling q ∧ (∀ s, (t'.stores s).producing q = (t.stores s).producing q)
    ∧ ∀ e ∈ es, e.caller? ≠ some q := by
  have hother : ∀ e : Event P, e.caller? = some p → e.caller? ≠ some q := fun e he heq =>
    hq (Option.some.inj (heq.symm.trans he))
  cases hp with
  | begin | lost =>
      refine ⟨Function.update_of_ne hq .., fun _ => rfl, fun e he => ?_⟩
      rw [List.mem_singleton.mp he]
      exact hother _ rfl
  | enter | skip | captured | passed =>
      exact ⟨Function.update_of_ne hq .., fun _ => rfl, fun e he => nomatch he⟩
  | produce s supplied spurious fs schedule hcalling hproduce =>
      refine ⟨rfl, fun s' => ?_, fun e he => ?_⟩
      -- in its own store it moves its own call
      · by_cases heq : s' = s
        · subst heq
          rw [atStore_stores_self]
          cases produced_of_produce hproduce <;> exact Schedule.atProducer_of_ne _ _ hq
        · rw [atStore_stores_of_ne t schedule heq]
      · obtain ⟨f, hf, rfl⟩ := List.mem_map.mp he
        cases produced_of_produce hproduce with
        | load | drop => exact nomatch hf
        | claim | fill =>
            rw [List.mem_singleton.mp hf]
            exact nofun
        | publish =>
            rw [List.mem_singleton.mp hf]
            exact hother _ rfl

omit [DecidableEq P] in
/-- A callback inside `try_capture` has been called, and has published exactly
    when the call has succeeded. -/
theorem Lived.of_capturing {p : P} {s : StoreId} {l : List (Event P)}
    (hl : Lived source t p l) (hpc : t.calling p = .capturing s) :
    (l = [.called p] ∧ ∀ i v, (t.stores s).producing p ≠ .captured i v)
      ∨ ∃ i v, l = [.called p, .store s (.publish p i v)]
        ∧ (t.stores s).producing p = .captured i v := by
  -- of the lives only two are inside a capture
  cases hl with
  | idle h | counted h | dropped h | skipped h => exact nomatch hpc.symm.trans h
  | capturing s' h hno =>
      obtain rfl := Calling.capturing.inj (hpc.symm.trans h)
      exact Or.inl ⟨rfl, hno⟩
  | captured s' i v h hcaptured =>
      rcases h with h | h
      · obtain rfl := Calling.capturing.inj (hpc.symm.trans h)
        exact Or.inr ⟨i, v, rfl, hcaptured⟩
      · exact nomatch hpc.symm.trans h

/-- A callback's step extends its life. -/
theorem Lived.step {p : P} (hl : Lived source t p (callOf p h))
    (hp : Called source config t p es t') : Lived source t' p (callOf p (h ++ es)) := by
  have hnow : ∀ (u : State P) (calling : Calling), (u.atCall p calling).calling p = calling :=
    fun u calling => Function.update_self ..
  cases hp with
  | begin hpc =>
      rw [callOf_self rfl]
      generalize callOf p h = l at hl
      cases hl with
      | idle h hload => exact .counted (hnow _ _) hload
      | counted h | capturing s h | dropped h | skipped h => exact nomatch hpc.symm.trans h
      | captured s i v h => rcases h with h | h <;> exact nomatch hpc.symm.trans h
  | enter s supplied hpc htarget =>
      rw [List.append_nil]
      generalize callOf p h = l at hl
      cases hl with
      | counted h hload =>
          exact .capturing s (hnow _ _) fun i v hcaptured =>
            nomatch (hload s).symm.trans hcaptured
      | idle h | capturing s h | dropped h | skipped h => exact nomatch hpc.symm.trans h
      | captured s i v h => rcases h with h | h <;> exact nomatch hpc.symm.trans h
  | skip hpc hprobe =>
      rw [List.append_nil]
      generalize callOf p h = l at hl
      cases hl with
      | counted h hload => exact .skipped (hnow _ _) hprobe
      | idle h | capturing s h | dropped h | skipped h => exact nomatch hpc.symm.trans h
      | captured s i v h => rcases h with h | h <;> exact nomatch hpc.symm.trans h
  | produce s supplied spurious fs schedule hpc hproduce =>
      have hpc' : (t.atStore s schedule).calling p = .capturing s := hpc
      have hproduced := produced_of_produce hproduce
      rcases hl.of_capturing hpc with ⟨hcall, -⟩ | ⟨i, v, -, hcaptured⟩
      · cases hproduced with
        | load i hlocal hnext hlt =>
            rw [List.map_nil, List.append_nil, hcall]
            refine .capturing s hpc' fun i v => ?_
            rw [atStore_stores_self, Schedule.atProducer_self]
            exact nofun
        | drop hlocal =>
            rw [List.map_nil, List.append_nil, hcall]
            refine .capturing s hpc' fun i v => ?_
            rw [atStore_stores_self, Schedule.atProducer_self]
            exact nofun
        | claim i hlocal hnext =>
            rw [callOf_other (by simp [Event.caller?]), hcall]
            refine .capturing s hpc' fun j v hcaptured => ?_
            rw [atStore_stores_self] at hcaptured
            exact nomatch ((t.stores s).atProducer_self p (.fill i)).symm.trans hcaptured
        | fill i sample hlocal =>
            rw [callOf_other (by simp [Event.caller?]), hcall]
            refine .capturing s hpc' fun j v hcaptured => ?_
            rw [atStore_stores_self] at hcaptured
            exact nomatch ((t.stores s).atProducer_self p (.publish i _)).symm.trans hcaptured
        | publish i v hlocal =>
            rw [List.map_singleton, callOf_self rfl, hcall]
            refine .captured s i v (Or.inl hpc') ?_
            rw [atStore_stores_self]
            exact (t.stores s).atProducer_self p (.captured i v)
      · -- a call that has returned does not step
        exfalso
        cases hproduced with
        | load _ hlocal | claim _ hlocal | fill _ _ hlocal | publish _ _ hlocal =>
            exact nomatch hlocal.symm.trans hcaptured
        | drop hlocal =>
            rcases hlocal with hlocal | ⟨j, hlocal⟩ <;> exact nomatch hlocal.symm.trans hcaptured
  | captured s hpc hreturned =>
      rw [List.append_nil]
      rcases hl.of_capturing hpc with ⟨-, hno⟩ | ⟨i, v, hcall, hcaptured⟩
      · exfalso
        cases hlocal : (t.stores s).producing p with
        | captured i v => exact hno i v hlocal
        | load | exchange | fill | publish | dropped =>
            rw [hlocal] at hreturned
            exact nomatch hreturned
      · rw [hcall]
        exact .captured s i v (Or.inr (hnow _ _)) hcaptured
  | lost s probe hpc hreturned hprobe =>
      rcases hl.of_capturing hpc with ⟨hcall, -⟩ | ⟨i, v, -, hcaptured⟩
      · rw [callOf_self rfl, hcall]
        exact .dropped (hnow _ _)
      · rw [hcaptured] at hreturned
        exact nomatch hreturned
  | passed s hpc hreturned hprobe =>
      rw [List.append_nil]
      rcases hl.of_capturing hpc with ⟨hcall, -⟩ | ⟨i, v, -, hcaptured⟩
      · rw [hcall]
        exact .skipped (hnow _ _) hprobe
      · rw [hcaptured] at hreturned
        exact nomatch hreturned

/-- **Every callback has lived the life its place tells.** -/
theorem life_run (hrun : Run (Step source config startTick) (State.start P) h t) (p : P) :
    Lived source t p (callOf p h) := by
  refine hrun.history (I := fun h t => ∀ p, Lived source t p (callOf p h))
    (fun _ => .idle rfl fun _ => rfl) (fun h t es t' ih hs p => ?_) p
  rcases step_cases hs with ⟨q, hq⟩ | hw
  · by_cases hp : p = q
    · subst hp
      exact (ih p).step hq
    · obtain ⟨hcalling, hproducing, hes⟩ := hq.frame hp
      rw [callOf_other hes]
      exact (ih p).congr hcalling hproducing
  · obtain ⟨hcalling, -, hproducing, hes⟩ := hw.frame
    rw [callOf_other fun e he heq => nomatch (hes e he).symm.trans heq]
    exact (ih p).congr (congrFun hcalling p) fun s => congrFun (hproducing s) p

/-! ## What a line says about its callback -/

theorem copyFromSlice_later (b : Payload) {start : Nat} (src : List UInt8) (h : start ≠ 0) :
    (copyFromSlice b start src)[0] = b[0] := by
  rw [copyFromSlice, Vector.getElem_ofFn, if_neg (by simpa using h)]
  rfl

theorem observation_encode_direction (o : CodecProbe.Observation) :
    o.encode[0] = UInt8.ofNat o.direction.val := by
  rw [CodecProbe.Observation.encode, copyFromSlice_later _ _ (by decide),
    copyFromSlice_later _ _ (by decide), copyFromSlice_later _ _ (by decide), copyFromSlice,
    Vector.getElem_ofFn]
  rfl

theorem event_encode_kind (e : Application.Event) : e.encode[0] = e.kind := by
  rw [Application.Event.encode]
  iterate 7 rw [copyFromSlice_later _ _ (by decide)]
  rw [copyFromSlice, Vector.getElem_ofFn]
  rfl

/-- **The line of a capture names the callback's source.** -/
theorem lineSource?_sample {source : Source} {now then' : Supplied} {s : StoreId}
    (htarget : source.target now = some s) (sequence : Nat) :
    lineSource? s ⟨sequence, source.sample then'⟩ = some source := by
  cases source with
  | codec direction =>
      obtain rfl := Option.some.inj htarget
      -- the first byte of an observation is its direction
      have hbyte : (Source.sample then' (.codec direction)).get 0 = UInt8.ofNat direction.val :=
        observation_encode_direction _
      have hflag : ∀ d : CodecProbe.Direction,
          (if decide (UInt8.ofNat d.val = 0) then (0 : Fin 2) else 1) = d := by decide
      simp only [lineSource?, CodecProbe.eventLine, hbyte, hflag]
  | application kind =>
      obtain rfl := Option.some.inj htarget
      -- the first byte of an event is its kind
      have hbyte : (Source.sample then' (.application kind))[0] = UInt8.ofNat kind.val :=
        event_encode_kind _
      have hnat : (UInt8.ofNat kind.val).toNat = kind.val := by
        rw [UInt8.toNat_ofNat']
        exact Nat.mod_eq_of_lt (Nat.lt_trans kind.isLt (by decide))
      simp only [lineSource?, ApplicationProbe.eventLine, Application.Event.decode, hbyte, hnat,
        kind.isLt, dite_true]
  | serializer =>
      rw [Source.target] at htarget
      split_ifs at htarget
      obtain rfl := Option.some.inj htarget
      rfl

/-- A line names a source of the store's probe. -/
theorem lineSource?_probe {s : StoreId} {capture : Capture} {source : Source}
    (h : lineSource? s capture = some source) : s.probe? = source.probe? := by
  cases s with
  | codec =>
      obtain rfl := Option.some.inj h
      rfl
  | bank b =>
      simp only [lineSource?] at h
      split_ifs at h
      obtain rfl := Option.some.inj h
      rfl
  | compact =>
      obtain rfl := Option.some.inj h
      rfl

/-- What a call publishes is what its closure sampled. -/
theorem produce_payload {limit : P → Nat} {u u' : Schedule P Visit} {p : P} {spurious : Bool}
    {sample : Payload} {fs : List (CaptureSchedule.Event P Visit)}
    (h : produce limit u p spurious sample = some (fs, u')) {i : Index} {v : Payload}
    (hpc : u'.producing p = .publish i v ∨ u'.producing p = .captured i v) :
    v = sample ∨ u.producing p = .publish i v := by
  have hnow : ∀ pc, (u.atProducer p pc).producing p = pc := u.atProducer_self p
  cases produced_of_produce h with
  | load j hlocal | drop hlocal =>
      rcases hpc with hpc | hpc <;> exact nomatch (hnow _).symm.trans hpc
  | claim j hlocal => rcases hpc with hpc | hpc <;> exact nomatch (hnow (.fill j)).symm.trans hpc
  | fill j w hlocal =>
      -- the closure runs here, and its sample is what will be published
      rw [produce, hlocal] at h
      obtain ⟨hevents, -⟩ := Prod.mk.inj (Option.some.inj h)
      rcases hpc with hpc | hpc
      · cases (hnow (.publish j w)).symm.trans hpc
        cases hevents
        exact Or.inl rfl
      · exact nomatch (hnow (.publish j w)).symm.trans hpc
  | publish j w hlocal =>
      rcases hpc with hpc | hpc
      · exact nomatch (hnow (.captured j w)).symm.trans hpc
      · cases (hnow (.captured j w)).symm.trans hpc
        exact Or.inr hlocal

/-- A callback captures into a store of its source, and what it is about to
    publish, or has published, names its source. -/
structure Tagged (source : P → Source) (t : State P) : Prop where
  target : ∀ p s, t.calling p = .capturing s → ∃ now, (source p).target now = some s
  payload : ∀ p s i v, (t.stores s).producing p = .publish i v
    ∨ (t.stores s).producing p = .captured i v → lineSource? s ⟨i, v⟩ = some (source p)

theorem Tagged.called {p : P} (ht : Tagged source t) (hp : Called source config t p es t') :
    Tagged source t' := by
  -- away from its `try_capture`, a step only moves `p` on
  have hmoved : ∀ (u : State P) (calling : Calling), u.calling = t.calling →
      u.stores = t.stores →
      (∀ s, calling = .capturing s → ∃ now, (source p).target now = some s) →
      Tagged source (u.atCall p calling) := by
    intro u calling hcalling hstores htarget
    refine ⟨fun q s hq => ?_, fun q s i v hq => ht.payload q s i v (hstores ▸ hq)⟩
    by_cases heq : q = p
    · subst heq
      exact htarget s ((Function.update_self ..).symm.trans hq)
    · exact ht.target q s (hcalling ▸ (Function.update_of_ne heq ..).symm.trans hq)
  cases hp with
  | begin => exact hmoved _ _ rfl rfl (fun s h => nomatch h)
  | enter s supplied hpc htarget =>
      refine hmoved _ _ rfl rfl (fun s' h => ⟨supplied, ?_⟩)
      rw [← Calling.capturing.inj h]
      exact htarget
  | skip | captured | lost | passed => exact hmoved _ _ rfl rfl (fun s h => nomatch h)
  | produce s supplied spurious fs schedule hpc hproduce =>
      refine ⟨ht.target, fun q s' i v hq => ?_⟩
      by_cases hs : s' = s
      · subst hs
        rw [atStore_stores_self] at hq
        by_cases heq : q = p
        · subst heq
          obtain ⟨now, htarget⟩ := ht.target q s' hpc
          rcases produce_payload hproduce hq with rfl | hbefore
          · exact lineSource?_sample htarget i
          · exact ht.payload q s' i v (Or.inl hbefore)
        · have hsame : schedule.producing q = (t.stores s').producing q := by
            cases produced_of_produce hproduce <;> exact Schedule.atProducer_of_ne _ _ heq
          exact ht.payload q s' i v (hsame ▸ hq)
      · rw [atStore_stores_of_ne t schedule hs] at hq
        exact ht.payload q s' i v hq

theorem tagged_run (hrun : Run (Step source config startTick) (State.start P) h t) :
    Tagged source t := by
  refine hrun.invariant (I := Tagged source) ⟨fun p s hpc => (nomatch hpc), fun p s i v hpc => ?_⟩
    (fun t es t' ih hs => ?_)
  · rcases hpc with hpc | hpc <;> exact nomatch hpc
  rcases step_cases hs with ⟨p, hp⟩ | hw
  · exact ih.called hp
  · obtain ⟨hcalling, -, hproducing, -⟩ := hw.frame
    refine ⟨fun p s hpc => ih.target p s (hcalling ▸ hpc), fun p s i v hpc => ?_⟩
    rw [hproducing s] at hpc
    exact ih.payload p s i v hpc

/-- **A published capture names the source of its callback.** -/
theorem publish_tagged (hrun : Run (Step source config startTick) (State.start P) h t)
    {s : StoreId} {p : P} {i : Index} {v : Payload} (hpublish : .store s (.publish p i v) ∈ h) :
    lineSource? s ⟨i, v⟩ = some (source p) := by
  obtain ⟨b, hR, hexp⟩ := board_run hrun s
  refine (tagged_run hrun).payload p s i v (Or.inr ?_)
  have hslot := hR.cells i
  rcases hexp.mem_publish.mp (publish_mem_acts.mpr (store_mem_project hpublish)) with
    hcell | ⟨c, hcell⟩
  · rw [hcell] at hslot
    exact hslot.2
  · rw [hcell] at hslot
    exact hslot.2.1

/-! ## The counters -/

/-- The counter an event bumps. -/
def Event.bumps (source : P → Source) : Event P → Option Counter
  | .called p => some (.calls (source p))
  | .dropped p => (source p).dropCounter?
  | .store .. => none
  | .visit .. => none
  | .line .. => none
  | .row .. => none
  | .watch .. => none
  | .status _ => none
  | .flush => none

/-- How often a counter has been bumped. -/
def tally (source : P → Source) (c : Counter) (h : List (Event P)) : Nat :=
  h.countP fun e => e.bumps source = some c

omit [DecidableEq P] in
@[simp] theorem tally_append (c : Counter) (h k : List (Event P)) :
    tally source c (h ++ k) = tally source c h + tally source c k := List.countP_append ..

omit [DecidableEq P] in
theorem tally_eq_zero {c : Counter} (hes : ∀ e ∈ es, e.bumps source ≠ some c) :
    tally source c es = 0 :=
  List.countP_eq_zero.mpr fun e he => by
    rw [decide_eq_true_eq]
    exact hes e he

/-- **A counter holds how often it was bumped.** -/
theorem counters_run (hrun : Run (Step source config startTick) (State.start P) h t)
    (c : Counter) : t.counters c = tally source c h := by
  refine hrun.history (I := fun h t => ∀ c, t.counters c = tally source c h) (fun _ => rfl)
    (fun h t es t' ih hs c => ?_) c
  -- a step that bumps one counter
  have hbump : ∀ (d : Counter) (e : Event P), e.bumps source = some d →
      (t.bump d).counters c = tally source c (h ++ [e]) := by
    intro d e he
    show Function.update t.counters d (t.counters d + 1) c = _
    rw [tally_append, tally, tally, List.countP_singleton, he]
    by_cases hc : c = d
    · subst hc
      rw [Function.update_self, ih c, tally, decide_eq_true rfl, if_pos rfl]
    · rw [Function.update_of_ne hc, ih c, tally,
        decide_eq_false fun heq => hc (Option.some.inj heq).symm]
      rfl
  rw [tally_append]
  rcases step_cases hs with ⟨p, hp⟩ | hw
  · cases hp with
    | begin hpc => exact (hbump _ (.called p) rfl).trans (tally_append ..)
    | lost s probe hpc hreturned hprobe =>
        refine (hbump _ (.dropped p) ?_).trans (tally_append ..)
        rw [Event.bumps, Source.dropCounter?, hprobe]
        rfl
    | enter | skip | captured | passed => exact ih c
    | produce s supplied spurious fs schedule hpc hproduce =>
        have hnone : tally source c (fs.map (.store s)) = 0 := tally_eq_zero fun e he => by
          obtain ⟨f, -, rfl⟩ := List.mem_map.mp he
          intro hbumps
          cases hbumps
        rw [hnone]
        exact ih c
  · have hnone : tally source c es = 0 := tally_eq_zero fun e he => by
      have := hw.frame.2.2.2 e he
      cases e with
      | called | dropped => cases this
      | store | visit | line | row | watch | status | flush =>
          intro hbumps
          cases hbumps
    rw [hnone, hw.frame.2.1]
    exact ih c

end Lives

end TeamAttack.Recorder
