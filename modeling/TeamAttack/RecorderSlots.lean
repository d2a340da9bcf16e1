import TeamAttack.Recorder

/-! # What becomes of a captured event

    Seen from one store, a run of the recorder is a schedule of its calls
    (`store_run`), so the laws of the store hold.  Above them: each capture
    taken is written in the same breath (`lines_run`), and a capture is taken
    exactly when the writer looks at its slot after it was published. -/

namespace TeamAttack.Recorder

open Runs CaptureSchedule OnceBoard

section Projection

variable {P : Type}

/-- The events of one store. -/
def Event.inStore (s : StoreId) : Event P → List (CaptureSchedule.Event P Visit)
  | .store s' e => if s' = s then [e] else []
  | .visit s' _ es => if s' = s then es else []
  | .called _ => []
  | .dropped _ => []
  | .line .. => []
  | .row .. => []
  | .watch .. => []
  | .status _ => []
  | .flush => []

/-- The history, seen from one store. -/
def project (s : StoreId) (h : List (Event P)) : List (CaptureSchedule.Event P Visit) :=
  h.flatMap (Event.inStore s)

@[simp] theorem project_append (s : StoreId) (h k : List (Event P)) :
    project s (h ++ k) = project s h ++ project s k := List.flatMap_append ..

theorem project_cons (s : StoreId) (e : Event P) (h : List (Event P)) :
    project s (e :: h) = e.inStore s ++ project s h := List.flatMap_cons ..

theorem project_map_store (s s' : StoreId) (es : List (CaptureSchedule.Event P Visit)) :
    project s (es.map (.store s')) = if s' = s then es else [] := by
  induction es with
  | nil => simp [project]
  | cons e rest ih =>
      rw [List.map_cons, project_cons, ih, Event.inStore]
      split_ifs <;> rfl

theorem project_visit (s s' : StoreId) (c : Visit) (es : List (CaptureSchedule.Event P Visit)) :
    project s [.visit s' c es] = if s' = s then es else [] := by
  rw [project, List.flatMap_singleton, Event.inStore]

theorem project_silent {s : StoreId} {es : List (Event P)} (hes : ∀ e ∈ es, e.Silent) :
    project s es = [] := by
  refine List.flatMap_eq_nil_iff.mpr fun e he => ?_
  have hsilent := hes e he
  cases e with
  | watch | status | flush => rfl
  | called | dropped | store | visit | line | row => exact hsilent.elim

theorem store_mem_project {s : StoreId} {e : CaptureSchedule.Event P Visit} {h : List (Event P)}
    (he : .store s e ∈ h) : e ∈ project s h :=
  List.mem_flatMap.mpr ⟨_, he, by rw [Event.inStore, if_pos rfl]; exact List.mem_singleton_self e⟩

variable [DecidableEq P] {source : P → Source} {config : Config} {startTick : UInt64}
  {t t' : State P} {h es : List (Event P)}

/-- The schedule of one store of the recorder. -/
abbrev StoreStep (P : Type) [DecidableEq P] (config : Config) (s : StoreId) :=
  ScheduleStep (P := P) (fun _ => limit config s) (Prod.snd : Visit → Nat)

omit [DecidableEq P] in
theorem atStore_stores_self (t : State P) (s : StoreId) (schedule : Schedule P Visit) :
    (t.atStore s schedule).stores s = schedule := Function.update_self ..

omit [DecidableEq P] in
theorem atStore_stores_of_ne (t : State P) {s s' : StoreId} (schedule : Schedule P Visit)
    (h : s' ≠ s) : (t.atStore s schedule).stores s' = t.stores s' := Function.update_of_ne h ..

/-- A step on one store is a step of that schedule and of no other. -/
theorem store_step (hs : Step source config startTick t es t') (s : StoreId) :
    (t'.stores s = t.stores s ∧ project s es = [])
      ∨ StoreStep P config s (t.stores s) (project s es) (t'.stores s) := by
  -- what a step on the store `s'` means for the store `s`
  have hon : ∀ (s' : StoreId) (fs : List (CaptureSchedule.Event P Visit))
      (schedule : Schedule P Visit), StoreStep P config s' (t.stores s') fs schedule →
      project s es = (if s' = s then fs else []) →
      t'.stores = Function.update t.stores s' schedule →
      (t'.stores s = t.stores s ∧ project s es = [])
        ∨ StoreStep P config s (t.stores s) (project s es) (t'.stores s) := by
    intro s' fs schedule hstep hes hstores
    rw [hes, hstores]
    by_cases heq : s' = s
    · subst heq
      rw [if_pos rfl, Function.update_self]
      exact Or.inr hstep
    · rw [if_neg heq, Function.update_of_ne (Ne.symm heq)]
      exact Or.inl ⟨rfl, rfl⟩
  rcases step_cases hs with ⟨p, hp⟩ | hw
  · cases hp with
    | begin | enter | skip | captured | lost | passed => exact Or.inl ⟨rfl, rfl⟩
    | produce s' supplied spurious fs schedule hcalling hproduce =>
        exact hon s' fs schedule ⟨.produce p spurious _, hproduce⟩ (project_map_store s s' fs) rfl
  · cases hw with
    | take s' i rest fs schedule hphase hconsume =>
        exact hon s' fs schedule ⟨.consume _, hconsume⟩ (project_visit ..) rfl
    | line s' c rest i capture storedDumps hphase hreading hvalue =>
        refine hon s' [] _ ⟨.consume c, ?_⟩ (by split_ifs <;> rfl) rfl
        simp only [CaptureSchedule.advance, consume, hreading, hvalue]
    | load | row | same => exact Or.inl ⟨rfl, rfl⟩
    | onward _ w honward hsilent => exact Or.inl ⟨rfl, project_silent hsilent⟩

/-- **Seen from one store, a run of the recorder is a schedule.** -/
theorem store_run (hrun : Run (Step source config startTick) (State.start P) h t) (s : StoreId) :
    Run (StoreStep P config s) (Schedule.start P Visit) (project s h) (t.stores s) := by
  refine hrun.history (I := fun h t =>
    Run (StoreStep P config s) (Schedule.start P Visit) (project s h) (t.stores s))
    (.refl _) (fun h t es t' ih hs => ?_)
  rw [project_append]
  rcases store_step hs s with ⟨hsame, hes⟩ | hstep
  · rw [hsame, hes, List.append_nil]
    exact ih
  · exact ih.tail hstep

/-- The board a store of the recorder refines. -/
theorem board_run (hrun : Run (Step source config startTick) (State.start P) h t) (s : StoreId) :
    ∃ b : Board captureCapacity P Visit Payload,
      Refines Prod.snd (t.stores s) b ∧ Explains ((project s h).filterMap Event.act?) b := by
  obtain ⟨b, hb, hR⟩ := refines_run (store_run hrun s)
  exact ⟨b, hR, explains_run hb⟩

end Projection

section Trails

variable {P : Type} [DecidableEq P] {source : P → Source} {config : Config}
  {startTick : UInt64} {t t' : State P} {h es : List (Event P)}

/-- A step emits at most one event. -/
theorem one_event (t : State P) (es : List (Event P)) (t' : State P)
    (hs : Step source config startTick t es t') : es.length ≤ 1 := by
  rcases step_cases hs with ⟨p, hp⟩ | hw
  · cases hp with
    | begin | lost => exact Nat.le_refl _
    | enter | skip | captured | passed => exact Nat.zero_le _
    | produce s supplied spurious fs schedule hcalling hproduce =>
        rw [List.length_map]
        cases produced_of_produce hproduce with
        | load | drop => exact Nat.zero_le _
        | claim | fill | publish => exact Nat.le_refl _
  · cases hw with
    | take | line | row => exact Nat.le_refl _
    | load | same => exact Nat.zero_le _
    | onward _ _ _ _ hlength => exact hlength

/-- Callbacks do not take, and a look at a slot does nothing else. -/
def Event.Placed : Event P → Prop
  | .store _ e => e.producer? ≠ none
  | .visit _ c es => ∀ e ∈ es, ∃ i v, e = .take c i v
  | .called _ => True
  | .dropped _ => True
  | .line .. => True
  | .row .. => True
  | .watch .. => True
  | .status _ => True
  | .flush => True

theorem placed_run (hrun : Run (Step source config startTick) (State.start P) h t) :
    ∀ e ∈ h, e.Placed := by
  refine hrun.history (I := fun h _ => ∀ e ∈ h, e.Placed) (fun e he => nomatch he)
    (fun h t es t' ih hs e he => ?_)
  rcases List.mem_append.mp he with hold | hnew
  · exact ih e hold
  rcases step_cases hs with ⟨p, hp⟩ | hw
  · cases hp with
    | begin | lost => rw [List.mem_singleton.mp hnew]; trivial
    | enter | skip | captured | passed => exact nomatch hnew
    | produce s supplied spurious fs schedule hcalling hproduce =>
        obtain ⟨f, hf, rfl⟩ := List.mem_map.mp hnew
        cases produced_of_produce hproduce with
        | load | drop => exact nomatch hf
        | claim | fill | publish => rw [List.mem_singleton.mp hf]; exact nofun
  · cases hw with
    | take s i rest fs schedule hphase hconsume =>
        rw [List.mem_singleton.mp hnew]
        intro f hf
        cases consumed_of_consume hconsume with
        | miss | read => exact nomatch hf
        | take j => exact ⟨j, _, List.mem_singleton.mp hf⟩
    | line | row => rw [List.mem_singleton.mp hnew]; trivial
    | load | same => exact nomatch hnew
    | onward _ w honward hsilent =>
        have := hsilent e hnew
        cases e with
        | watch | status | flush => trivial
        | called | dropped | store | visit | line | row => exact this.elim

/-- What the history says of a store is what its callbacks did, and what the
    writer's looks took. -/
theorem mem_project (hrun : Run (Step source config startTick) (State.start P) h t)
    {s : StoreId} {e : CaptureSchedule.Event P Visit} (he : e ∈ project s h) :
    .store s e ∈ h ∨ ∃ c es i v, .visit s c es ∈ h ∧ e ∈ es ∧ e = .take c i v := by
  obtain ⟨f, hf, hin⟩ := List.mem_flatMap.mp he
  have hplaced := placed_run hrun f hf
  cases f with
  | store s' e' =>
      rw [Event.inStore] at hin
      split_ifs at hin with hs
      · rw [List.mem_singleton.mp hin, ← hs]
        exact Or.inl hf
      · exact nomatch hin
  | visit s' c es =>
      rw [Event.inStore] at hin
      split_ifs at hin with hs
      -- a look at a slot can only take
      · obtain ⟨i, v, rfl⟩ := hplaced e hin
        exact Or.inr ⟨c, es, i, v, hs ▸ hf, hin, rfl⟩
      · exact nomatch hin
  | called | dropped | line | row | watch | status | flush => exact nomatch hin

theorem publish_mem_project (hrun : Run (Step source config startTick) (State.start P) h t)
    {s : StoreId} {p : P} {i : Index} {v : Payload} :
    .publish p i v ∈ project s h ↔ .store s (.publish p i v) ∈ h := by
  constructor
  · intro he
    rcases mem_project hrun he with hstore | ⟨c, es, j, w, -, -, heq⟩
    · exact hstore
    · exact nomatch heq
  · exact store_mem_project

/-- The calls of `take` still to come are new. -/
theorem fresh_run (hrun : Run (Step source config startTick) (State.start P) h t) (s : StoreId)
    {n : Nat} (hn : t.writer.visits ≤ n) (i : Nat) : (t.stores s).taking (n, i) = .exchange := by
  refine hrun.invariant (I := fun t => ∀ s n i, t.writer.visits ≤ n →
    (t.stores s).taking (n, i) = .exchange) (fun _ _ _ _ => rfl) (fun t es t' ih hs => ?_) s n i hn
  intro s n i hn
  rcases step_cases hs with ⟨p, hp⟩ | hw
  · cases hp with
    | begin | enter | skip | captured | lost | passed => exact ih s n i hn
    | produce s' supplied spurious fs schedule hcalling hproduce =>
        -- a callback never moves a call of `take`
        by_cases heq : s = s'
        · subst heq
          rw [atStore_stores_self]
          have htaking : schedule.taking = (t.stores s).taking := by
            cases produced_of_produce hproduce <;> rfl
          rw [htaking]
          exact ih s n i hn
        · rw [atStore_stores_of_ne t schedule heq]
          exact ih s n i hn
  · cases hw with
    | take s' j rest fs schedule hphase hconsume =>
        -- the look uses the present number and goes on to the next
        have hlater : t.writer.visits + 1 ≤ n := hn
        show ((t.atStore s' schedule).stores s).taking (n, i) = .exchange
        by_cases heq : s = s'
        · subst heq
          rw [atStore_stores_self]
          have hne : ((n, i) : Visit) ≠ (t.writer.visits, j) := fun h => by
            have := congrArg Prod.fst h
            simp only at this
            omega
          have htaking : schedule.taking (n, i) = (t.stores s).taking (n, i) := by
            cases consumed_of_consume hconsume <;> exact (t.stores s).atConsumer_of_ne _ hne
          rw [htaking]
          exact ih s n i (by omega)
        · rw [atStore_stores_of_ne t schedule heq]
          exact ih s n i (by omega)
    | line s' c rest j capture storedDumps hphase hreading hvalue =>
        show ((t.atStore s' _).stores s).taking (n, i) = .exchange
        by_cases heq : s = s'
        · subst heq
          rw [atStore_stores_self]
          have hne : ((n, i) : Visit) ≠ c := by
            rintro rfl
            exact nomatch hreading.symm.trans (ih s n i hn)
          rw [Schedule.atConsumer_of_ne _ _ hne]
          exact ih s n i hn
        · rw [atStore_stores_of_ne t _ heq]
          exact ih s n i hn
    | load | row | same => exact ih s n i hn
    | onward _ w honward hsilent hlength hvisits => exact ih s n i (hvisits ▸ hn)

/-! ## Looking at a published slot takes it -/

theorem take_mem_visit (hrun : Run (Step source config startTick) (State.start P) h t)
    {s : StoreId} {c : Visit} {i : Index} {v : Payload} (htake : .take c i v ∈ project s h) :
    ∃ d es, .visit s d es ∈ h ∧ .take c i v ∈ es := by
  rcases mem_project hrun htake with hstore | ⟨d, es, -, -, hvisit, hmem, -⟩
  · exact absurd rfl (placed_run hrun _ hstore)
  · exact ⟨d, es, hvisit, hmem⟩

/-- The step of the writer that looks at a slot. -/
theorem visit_step {s : StoreId} {c : Visit} {fs : List (CaptureSchedule.Event P Visit)}
    (hs : Step source config startTick t [.visit s c fs] t') :
    c.1 = t.writer.visits ∧ ∃ schedule, consume Prod.snd (t.stores s) c = some (fs, schedule) := by
  rcases step_cases hs with ⟨p, hp⟩ | hw
  · generalize hes : [Event.visit s c fs] = es at hp
    cases hp with
    | begin | lost => exact nomatch hes
    | enter | skip | captured | passed => exact nomatch hes
    | produce s' supplied spurious gs schedule hcalling hproduce =>
        cases gs with
        | nil => exact nomatch hes
        | cons g rest => exact nomatch hes
  · generalize hes : [Event.visit s c fs] = es at hw
    cases hw with
    | take s' i rest gs schedule hphase hconsume =>
        cases hes
        exact ⟨rfl, schedule, hconsume⟩
    | line | row | load | same => exact nomatch hes
    | onward _ w honward hsilent =>
        subst hes
        exact (hsilent _ (List.mem_singleton_self _)).elim

/-- **A capture published before the writer looks at its slot is taken**, then
    or earlier. -/
theorem taken_of_visited (hrun : Run (Step source config startTick) (State.start P) h t)
    {s : StoreId} {p : P} {i : Index} {v : Payload} {pre post : List (Event P)} {c : Visit}
    {fs : List (CaptureSchedule.Event P Visit)} (heq : h = pre ++ .visit s c fs :: post)
    (hc : c.2 = i) (hpublish : .store s (.publish p i v) ∈ pre) :
    ∃ d, .take d i v ∈ project s h := by
  obtain ⟨u, u', hpre, hvisit, -⟩ := hrun.split_event one_event heq
  obtain ⟨b, hR, hexp⟩ := board_run hpre s
  obtain ⟨hfirst, schedule, hconsume⟩ := visit_step hvisit
  have hexchange : (u.stores s).taking c = .exchange := by
    obtain ⟨n, j⟩ := c
    exact fresh_run hpre s (Nat.le_of_eq hfirst.symm) j
  have hin : ∀ e, e ∈ project s pre ∨ e ∈ fs → e ∈ project s h := by
    intro e he
    have hvisited : project s h = project s pre ++ (fs ++ project s post) := by
      rw [heq, project_append, project_cons, Event.inStore, if_pos rfl]
    rw [hvisited]
    rcases he with he | he
    · exact List.mem_append_left _ he
    · exact List.mem_append_right _ (List.mem_append_left _ he)
  rcases hexp.mem_publish.mp (publish_mem_acts.mpr (store_mem_project hpublish)) with
    hfull | ⟨d, htaken⟩
  · have hslot := hR.cells i
    rw [hfull] at hslot
    cases consumed_of_consume hconsume with
    | miss =>
        -- the slot is ready, and the exchange of the writer cannot fail
        rw [consume, hexchange] at hconsume
        simp only [hc, Fin.isLt, dite_true, hslot.1, if_true] at hconsume
        exact nomatch hconsume
    | take j hpc hindex hready =>
        obtain rfl : j = i := Fin.ext (hindex.symm.trans hc)
        rw [hslot.1] at hin
        exact ⟨c, hin _ (Or.inr (List.mem_singleton_self _))⟩
    | read j hpc => exact nomatch hexchange.symm.trans hpc
  · exact ⟨d, hin _ (Or.inl (take_mem_acts.mp (hexp.mem_take.mpr ⟨p, htaken⟩)))⟩

/-- **A capture is taken by a look after it was published.** -/
theorem visited_of_taken (hrun : Run (Step source config startTick) (State.start P) h t)
    {s : StoreId} {p : P} {i : Index} {c : Visit} {v w : Payload}
    (hpublish : .store s (.publish p i v) ∈ h) (htake : .take c i w ∈ project s h) :
    ∃ pre, ∃ d : Visit, ∃ fs post, h = pre ++ .visit s d fs :: post ∧ d.2 = i
      ∧ .store s (.publish p i v) ∈ pre := by
  obtain ⟨d, fs, hvisit, hmem⟩ := take_mem_visit hrun htake
  obtain ⟨pre, post, heq⟩ := List.append_of_mem hvisit
  obtain ⟨u, u', hpre, hstep, -⟩ := hrun.split_event one_event heq
  obtain ⟨b, hR, hexp⟩ := board_run hpre s
  obtain ⟨b', -, hexp'⟩ := board_run hrun s
  obtain ⟨-, schedule, hconsume⟩ := visit_step hstep
  cases consumed_of_consume hconsume with
  | miss | read => exact nomatch hmem
  | take j hpc hindex hready =>
      cases List.mem_singleton.mp hmem
      refine ⟨pre, c, _, post, heq, hindex, ?_⟩
      -- the slot was ready, so its publication lies before, and it has only one
      have hslot := hR.cells i
      cases hcell : b.cell i with
      | free =>
          rw [hcell] at hslot
          rw [show (u.stores s).store.slots i = Slot.new from hslot] at hready
          exact nomatch hready
      | held q =>
          rw [hcell] at hslot
          exact nomatch hslot.1.symm.trans hready
      | taken q x e =>
          rw [hcell] at hslot
          rw [hslot.1] at hready
          exact nomatch hready
      | full q x =>
          have hearlier : .publish q i x ∈ project s pre :=
            publish_mem_acts.mp (hexp.mem_publish.mpr (Or.inl hcell))
          have hq : .store s (.publish q i x) ∈ pre := (publish_mem_project hpre).mp hearlier
          have hqh : Event.store s (.publish q i x) ∈ h := by
            rw [heq]
            exact List.mem_append_left _ hq
          obtain ⟨rfl, rfl⟩ := hexp'.publish_unique
            (publish_mem_acts.mpr (store_mem_project hpublish))
            (publish_mem_acts.mpr (store_mem_project hqh))
          exact hq

/-! ## What is taken is written -/

/-- The captures written for a store, in order. -/
def linesOf (s : StoreId) (h : List (Event P)) : List Capture :=
  h.filterMap fun e =>
    match e with
    | .line s' capture => if s' = s then some capture else none
    | _ => none

/-- The captures taken from a store, in order. -/
def takesOf (s : StoreId) (h : List (Event P)) : List Capture :=
  (project s h).filterMap CaptureSchedule.Event.taken?

omit [DecidableEq P] in
@[simp] theorem linesOf_append (s : StoreId) (h k : List (Event P)) :
    linesOf s (h ++ k) = linesOf s h ++ linesOf s k := List.filterMap_append

omit [DecidableEq P] in
theorem linesOf_line (s s' : StoreId) (capture : Capture) :
    linesOf s [(.line s' capture : Event P)] = if s' = s then [capture] else [] := by
  by_cases hs : s' = s
  · rw [if_pos hs]
    exact List.filterMap_cons_some (if_pos hs)
  · rw [if_neg hs]
    exact List.filterMap_cons_none (if_neg hs)

omit [DecidableEq P] in
@[simp] theorem takesOf_append (s : StoreId) (h k : List (Event P)) :
    takesOf s (h ++ k) = takesOf s h ++ takesOf s k := by
  rw [takesOf, project_append, List.filterMap_append, ← takesOf, ← takesOf]

/-- Is the writer inside a `take` of this store? -/
def Phase.Reading (s : StoreId) : Phase → Prop
  | .read s' _ _ => s' = s
  | .sleep => False
  | .hookStatus => False
  | .limit => False
  | .work _ => False
  | .returned => False

/-- What was taken from a store has been written, but for what the writer is
    just reading. -/
structure Written (s : StoreId) (h : List (Event P)) (t : State P) : Prop where
  idle : ¬ t.writer.phase.Reading s → takesOf s h = linesOf s h
  reading : ∀ c rest, t.writer.phase = .read s c rest → ∃ i v,
    (t.stores s).taking c = .read i ∧ .take c i v ∈ project s h
      ∧ takesOf s h = linesOf s h ++ [⟨i, v⟩]

omit [DecidableEq P] in
/-- A step that neither takes nor writes, and leaves the writer where it is. -/
theorem Written.keep {s : StoreId} (hw : Written s h t)
    (hphase : t'.writer.phase = t.writer.phase)
    (htaking : (t'.stores s).taking = (t.stores s).taking)
    (htakes : takesOf s es = []) (hlines : linesOf s es = []) : Written s (h ++ es) t' := by
  refine ⟨fun hno => ?_, fun c rest hread => ?_⟩
  · rw [takesOf_append, linesOf_append, htakes, hlines, List.append_nil, List.append_nil]
    exact hw.idle (hphase ▸ hno)
  · obtain ⟨i, v, htaking', hmem, heq⟩ := hw.reading c rest (hphase ▸ hread)
    refine ⟨i, v, htaking ▸ htaking', ?_, ?_⟩
    · rw [project_append]
      exact List.mem_append_left _ hmem
    · rw [takesOf_append, linesOf_append, htakes, hlines, List.append_nil, List.append_nil]
      exact heq

theorem Onward.not_reading {k k' : Phase} (h : Onward config k k') (s : StoreId) :
    ¬ k.Reading s ∧ ¬ k'.Reading s := by
  have hbetween : ∀ k : Phase, k.Between → ¬ k.Reading s := by
    intro k hk hreading
    cases k with
    | read s' c rest => exact hk
    | sleep | hookStatus | limit | work | returned => exact hreading
  cases h with
  | between _ _ hk hk' => exact ⟨hbetween k hk, hbetween k' hk'⟩
  | enter _ hk => exact ⟨hbetween k hk, fun h => h⟩
  | task task rest htask => exact ⟨fun h => h, fun h => h⟩

omit [DecidableEq P] in
/-- Where the writer is not inside a `take`, nothing is left to write. -/
theorem Written.settled {s : StoreId} (htakes : takesOf s h = linesOf s h)
    (hno : ¬ t.writer.phase.Reading s) : Written s h t where
  idle := fun _ => htakes
  reading := fun c rest hread => absurd (by rw [hread]; exact rfl) hno

omit [DecidableEq P] in
theorem takesOf_silent {s : StoreId} (hes : ∀ e ∈ es, e.Silent) : takesOf s es = [] := by
  rw [takesOf, project_silent hes, List.filterMap_nil]

omit [DecidableEq P] in
theorem linesOf_silent {s : StoreId} (hes : ∀ e ∈ es, e.Silent) : linesOf s es = [] := by
  refine List.filterMap_eq_nil_iff.mpr fun e he => ?_
  have hsilent := hes e he
  cases e with
  | line => exact hsilent.elim
  | called | dropped | store | visit | row | watch | status | flush => rfl

theorem Written.called {s : StoreId} {p : P} (hw : Written s h t)
    (hp : Called source config t p es t') : Written s (h ++ es) t' := by
  cases hp with
  | begin | enter | skip | captured | lost | passed => exact hw.keep rfl rfl rfl rfl
  | produce s' supplied spurious fs schedule hcalling hproduce =>
      refine hw.keep rfl ?_ ?_ ?_
      · by_cases heq : s = s'
        · subst heq
          rw [atStore_stores_self]
          cases produced_of_produce hproduce <;> rfl
        · rw [atStore_stores_of_ne t schedule heq]
      · rw [takesOf, project_map_store]
        split_ifs
        · cases produced_of_produce hproduce <;> rfl
        · rfl
      · refine List.filterMap_eq_nil_iff.mpr fun e he => ?_
        obtain ⟨f, -, rfl⟩ := List.mem_map.mp he
        rfl

theorem Written.wrote {s : StoreId} (hrun : Run (Step source config startTick) (State.start P) h t)
    (hw : Written s h t) (hwrote : Wrote config t es t') : Written s (h ++ es) t' := by
  cases hwrote with
  | take s' j rest fs schedule hphase hconsume =>
      have hsettled : takesOf s h = linesOf s h :=
        hw.idle (by rw [hphase]; exact fun h => h)
      have htakes : takesOf s [(.visit s' (t.writer.visits, j) fs : Event P)]
          = if s' = s then fs.filterMap CaptureSchedule.Event.taken? else [] := by
        rw [takesOf, project_visit]
        split_ifs <;> rfl
      have hlines : linesOf s [(.visit s' (t.writer.visits, j) fs : Event P)] = [] := rfl
      cases consumed_of_consume hconsume with
      | miss | read =>
          refine .settled ?_ (fun h => h)
          rw [takesOf_append, linesOf_append, htakes, hlines, hsettled]
          split_ifs <;> rfl
      | take i hpc hindex hready =>
          by_cases hs : s' = s
          · subst hs
            refine ⟨fun hno => absurd rfl hno, fun c rest' hread => ?_⟩
            cases hread
            refine ⟨i, slotBytes ((t.stores s').store.slots i), ?_, ?_, ?_⟩
            · exact (congrArg (fun schedule => Schedule.taking schedule _)
                (atStore_stores_self t s' _)).trans (Schedule.atConsumer_self ..)
            · rw [project_append, project_visit, if_pos rfl]
              exact List.mem_append_right _ (List.mem_singleton_self _)
            · rw [takesOf_append, linesOf_append, htakes, hlines, hsettled, if_pos rfl,
                List.append_nil]
              rfl
          · refine .settled ?_ hs
            rw [takesOf_append, linesOf_append, htakes, hlines, hsettled, if_neg hs]
  | line s' c rest j capture storedDumps hphase hreading hvalue =>
      refine .settled ?_ (fun h => h)
      rw [takesOf_append, linesOf_append]
      have htakes : takesOf s [(.line s' capture : Event P)] = [] := rfl
      by_cases hs : s' = s
      · subst hs
        obtain ⟨i, v, htaking, hmem, heq⟩ := hw.reading c rest hphase
        obtain rfl := Taking.read.inj (hreading.symm.trans htaking)
        -- the slot still holds what was taken out of it
        obtain ⟨b, hR, hexp⟩ := board_run hrun s'
        obtain ⟨q, hcell⟩ := hexp.mem_take.mp (take_mem_acts.mpr hmem)
        have hslot := hR.cells j
        rw [hcell] at hslot
        rw [hslot.1] at hvalue
        obtain rfl := Option.some.inj hvalue
        rw [htakes, List.append_nil, heq, linesOf_line, if_pos rfl]
      · rw [htakes, linesOf_line, if_neg hs, hw.idle (by rw [hphase]; exact hs)]
  | load c rest hphase | same probe rest hphase =>
      refine .settled ?_ (fun h => h)
      rw [List.append_nil]
      exact hw.idle (by rw [hphase]; exact fun h => h)
  | row probe rest hphase =>
      refine .settled ?_ (fun h => h)
      rw [takesOf_append, linesOf_append, hw.idle (by rw [hphase]; exact fun h => h)]
      rfl
  | onward _ w honward hsilent =>
      obtain ⟨hbefore, hafter⟩ := honward.not_reading s
      refine .settled ?_ hafter
      rw [takesOf_append, linesOf_append, hw.idle hbefore, takesOf_silent hsilent,
        linesOf_silent hsilent]

/-- **What is taken from a store is written, once and in order.** -/
theorem written_run (hrun : Run (Step source config startTick) (State.start P) h t)
    (s : StoreId) : Written s h t := by
  suffices h : Written s h t ∧ Run (Step source config startTick) (State.start P) h t from h.1
  refine hrun.history (I := fun h t =>
    Written s h t ∧ Run (Step source config startTick) (State.start P) h t)
    ⟨.settled rfl (fun h => h), .refl _⟩ (fun h t es t' ih hs => ⟨?_, ih.2.tail hs⟩)
  rcases step_cases hs with ⟨p, hp⟩ | hw
  · exact ih.1.called hp
  · exact ih.1.wrote ih.2 hw

omit [DecidableEq P] in
/-- A `take` that has not begun can begin. -/
theorem consume_isSome {u : Schedule P Visit} {c : Visit} (hc : u.taking c = .exchange) :
    (consume Prod.snd u c).isSome := by
  rw [consume, hc]
  simp only
  split_ifs <;> rfl

/-- **The writer is never stuck**: until it returns it can always take its next
    step, whatever the callbacks have done. -/
theorem writer_steps (hrun : Run (Step source config startTick) (State.start P) h t)
    (hphase : t.writer.phase ≠ .returned) (reading : Reading) :
    (writeStep config startTick t reading).isSome := by
  rw [writeStep]
  cases hp : t.writer.phase with
  | sleep => rfl
  | hookStatus => simp only; split_ifs <;> rfl
  | limit => simp only; split_ifs <;> rfl
  | work agenda =>
      cases agenda with
      | nil => rfl
      | cons task rest =>
          cases task with
          | take s i =>
              show (takeTask t s i rest).isSome
              rw [takeTask, Option.isSome_map]
              exact consume_isSome (fresh_run hrun s (Nat.le_refl _) i)
          | load | report | watch | flush => rfl
  | read s c rest =>
      -- inside `read` the slot it took still holds the capture
      obtain ⟨i, v, htaking, hmem, -⟩ := (written_run hrun s).reading c rest hp
      obtain ⟨b, hR, hexp⟩ := board_run hrun s
      obtain ⟨q, hcell⟩ := hexp.mem_take.mp (take_mem_acts.mpr hmem)
      have hslot := hR.cells i
      rw [hcell] at hslot
      have hconsume : consume Prod.snd (t.stores s) c
          = some ([], (t.stores s).atConsumer c (.returned (some ⟨i, v⟩))) := by
        rw [consume, htaking]
        simp only [hslot.1]
      show (readStep t s c rest).isSome
      rw [readStep, hconsume]
      simp only [Schedule.atConsumer_self]
      rfl
  | returned => exact absurd hp hphase

/-! ## A capture is written exactly when it was looked at -/

/-- The lines written for a slot. -/
def linesFor (s : StoreId) (i : Index) (h : List (Event P)) : List Capture :=
  (linesOf s h).filter fun capture => capture.sequence = i.val

/-- Every published capture has been written exactly once. -/
def EveryCaptureLogged (h : List (Event P)) : Prop :=
  ∀ s p (i : Index) v, .store s (.publish p i v) ∈ h → linesFor s i h = [⟨i, v⟩]

/-- The writer looked at every slot after its capture was published. -/
def EveryPublicationVisited (h : List (Event P)) : Prop :=
  ∀ s p (i : Index) v, .store s (.publish p i v) ∈ h →
    ∃ pre, ∃ c : Visit, ∃ fs post, h = pre ++ .visit s c fs :: post ∧ c.2 = i
      ∧ .store s (.publish p i v) ∈ pre

omit [DecidableEq P] in
/-- What was taken from a slot, in order. -/
theorem takes_at {b : Board captureCapacity P Visit Payload} {s : StoreId}
    (hexp : Explains ((project s h).filterMap Event.act?) b) (i : Index) :
    (takesOf s h).filter (fun capture => capture.sequence = i.val)
      = (((b.cell i).life i).filterMap Act.taken?).map toCapture := by
  rw [takesOf, ← taken_acts, List.filter_map, ← hexp.taken_at i]
  refine congrArg (List.map toCapture) (List.filter_congr fun x _ => ?_)
  exact decide_eq_decide.mpr Fin.ext_iff.symm

/-- **At the limit check, a capture published has been written exactly once if
    and only if the writer looked at its slot since.** -/
theorem logged_iff_visited (hrun : Run (Step source config startTick) (State.start P) h t)
    (hphase : t.writer.phase = .limit) : EveryCaptureLogged h ↔ EveryPublicationVisited h := by
  have hwritten : ∀ s, takesOf s h = linesOf s h := fun s =>
    (written_run hrun s).idle (by rw [hphase]; exact fun h => h)
  constructor
  · intro hlogged s p i v hpublish
    have hlines := hlogged s p i v hpublish
    have hmem : (⟨i, v⟩ : Capture) ∈ takesOf s h := by
      rw [hwritten s]
      exact (List.mem_filter.mp (hlines ▸ List.mem_singleton_self _)).1
    -- a line was taken, so its slot was looked at
    obtain ⟨e, he, htaken⟩ := List.mem_filterMap.mp hmem
    cases e with
    | claim | sample | publish => exact nomatch htaken
    | take c j w =>
        have hcapture := Option.some.inj htaken
        obtain rfl : j = i := Fin.ext (congrArg Capture.sequence hcapture)
        exact visited_of_taken hrun hpublish he
  · intro hvisited s p i v hpublish
    obtain ⟨pre, c, fs, post, heq, hc, hbefore⟩ := hvisited s p i v hpublish
    obtain ⟨d, htake⟩ := taken_of_visited hrun heq hc hbefore
    obtain ⟨b, -, hexp⟩ := board_run hrun s
    obtain ⟨q, hcell⟩ := hexp.mem_take.mp (take_mem_acts.mpr htake)
    rw [linesFor, ← hwritten s, takes_at hexp i, hcell]
    rfl

end Trails

end TeamAttack.Recorder
