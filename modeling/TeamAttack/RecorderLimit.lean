import TeamAttack.RecorderRows

/-! # The end of a recording at its time limit

    The limit check stands before the drains of its iteration, and the writer
    returns from it without another.  A capture published after the writer's
    last look at its slot is therefore never written; when there is none, every
    capture is written exactly once and the last rows are right
    (`nothing_lost_iff`). -/

namespace TeamAttack.Recorder

open Runs CaptureSchedule OnceBoard

section Counting

variable {P : Type} {source : P → Source} {config : Config} {startTick : UInt64}
  {t : State P} {h : List (Event P)}

/-- The capture a line is about, with its store. -/
def Event.line? : Event P → Option (StoreId × Capture)
  | .line s capture => some (s, capture)
  | _ => none

/-- The capture an event publishes, with its store. -/
def Event.published? : Event P → Option (StoreId × Capture)
  | .store s (.publish _ i v) => some (s, ⟨i, v⟩)
  | _ => none

/-- The event lines that name a source. -/
def eventLines (source : Source) (h : List (Event P)) : Nat :=
  (h.filterMap Event.line?).countP fun x => lineSource? x.1 x.2 = some source

/-- The row that counting the lines gives, when nothing is dropped. -/
def lineCounts (probe : Probe) (h : List (Event P)) : Counts :=
  probe.counters.map fun c =>
    (c, match c with
      | .calls source => eventLines source h
      | .dropped _ => 0)

/-- Nothing of the probe was dropped, and none of its callbacks is in progress. -/
structure State.Settled (source : P → Source) (probe : Probe) (t : State P) : Prop where
  kept : t.counters (.dropped probe) = 0
  still : ∀ p, (source p).probe? = some probe → t.calling p = .idle ∨ t.calling p = .done

/-- The last row of each settled probe is what counting the lines gives. -/
def CountsMatch (source : P → Source) (h : List (Event P)) (t : State P) : Prop :=
  ∀ probe, t.Settled source probe → ∀ counts, (rowsOf probe h).getLast? = some counts →
    counts = lineCounts probe h

/-! ## Lines are publications -/

/-- The part of a pair in one store. -/
def inStore? (s : StoreId) (x : StoreId × Capture) : Option Capture :=
  if x.1 = s then some x.2 else none

theorem inStore?_eq_some {o : Option (StoreId × Capture)} {s : StoreId} {capture : Capture} :
    o.bind (inStore? s) = some capture ↔ o = some (s, capture) := by
  cases o with
  | none => simp
  | some x =>
      obtain ⟨s', capture'⟩ := x
      by_cases hs : s' = s <;> simp [inStore?, hs]

/-- Counting pairs is counting within each store. -/
theorem count_inStore (f : Event P → Option (StoreId × Capture)) (s : StoreId)
    (capture : Capture) (h : List (Event P)) :
    (h.filterMap f).count (s, capture)
      = (h.filterMap fun e => (f e).bind (inStore? s)).count capture := by
  rw [List.count_filterMap, List.count_filterMap]
  refine List.countP_congr fun e _ => ?_
  rw [beq_iff_eq, beq_iff_eq, inStore?_eq_some]

theorem linesOf_eq (s : StoreId) (h : List (Event P)) :
    linesOf s h = h.filterMap fun e => e.line?.bind (inStore? s) := by
  refine List.filterMap_congr fun e _ => ?_
  cases e <;> rfl

theorem published_project {s : StoreId} (hplaced : ∀ e ∈ h, e.Placed) :
    (project s h).filterMap CaptureSchedule.Event.published?
      = h.filterMap fun e => e.published?.bind (inStore? s) := by
  induction h with
  | nil => rfl
  | cons e rest ih =>
      have hrest := ih fun e he => hplaced e (List.mem_cons_of_mem _ he)
      have hhead : (e.inStore s).filterMap CaptureSchedule.Event.published?
          = (e.published?.bind (inStore? s)).toList := by
        have hplace := hplaced e (List.mem_cons_self ..)
        cases e with
        | store s' e' =>
            by_cases hs : s' = s
            · cases e' <;> simp [Event.inStore, Event.published?, inStore?, hs,
                CaptureSchedule.Event.published?]
            · cases e' <;> simp [Event.inStore, Event.published?, inStore?, hs]
        -- a look at a slot publishes nothing
        | visit s' c es =>
            refine List.filterMap_eq_nil_iff.mpr fun e' he' => ?_
            rw [Event.inStore] at he'
            split_ifs at he'
            · obtain ⟨i, v, rfl⟩ := hplace e' he'
              rfl
            · cases he'
        | called | dropped | line | row | watch | status | flush => rfl
      rw [project_cons, List.filterMap_append, hhead, hrest, List.filterMap_cons]
      cases e.published?.bind (inStore? s) <;> rfl

variable [DecidableEq P]

/-- What is published and looked at has been taken. -/
theorem takes_perm_published
    (hrun : Run (Step source config startTick) (State.start P) h t)
    (hvisited : EveryPublicationVisited h) (s : StoreId) :
    (takesOf s h).Perm ((project s h).filterMap CaptureSchedule.Event.published?) := by
  obtain ⟨b, hboard, hR⟩ := refines_run (store_run hrun s)
  have hexp := explains_run hboard
  have hnone : b.select Cell.offered? = [] := by
    refine List.filterMap_eq_nil_iff.mpr fun i _ => ?_
    cases hcell : b.cell i with
    | free | held | taken => rfl
    | full p v =>
        have hpublish : .store s (.publish p i v) ∈ h :=
          (publish_mem_project hrun).mp
            (publish_mem_acts.mp (hexp.mem_publish.mpr (Or.inl hcell)))
        obtain ⟨pre, c, fs, post, heq, hc, hbefore⟩ := hvisited s p i v hpublish
        obtain ⟨d, htake⟩ := taken_of_visited hrun heq hc hbefore
        obtain ⟨q, htaken⟩ := hexp.mem_take.mp (take_mem_acts.mpr htake)
        exact nomatch hcell.symm.trans htaken
  have hdelivery := (delivery_run hboard).map toCapture
  rwa [hnone, List.append_nil, taken_acts, published_acts] at hdelivery

/-- **Where every publication was looked at, the lines are the publications.** -/
theorem lines_perm_published
    (hrun : Run (Step source config startTick) (State.start P) h t)
    (hphase : t.writer.phase = .limit) (hvisited : EveryPublicationVisited h) :
    (h.filterMap Event.line?).Perm (h.filterMap Event.published?) := by
  refine List.perm_iff_count.mpr fun x => ?_
  obtain ⟨s, capture⟩ := x
  have hwritten : takesOf s h = linesOf s h :=
    (written_run hrun s).idle (by rw [hphase]; exact fun h => h)
  rw [count_inStore, count_inStore, ← linesOf_eq, ← published_project (placed_run hrun),
    ← hwritten]
  exact (takes_perm_published hrun hvisited s).count_eq capture

/-! ## Publications are calls -/

/-- The callback of the source an event begins. -/
def Event.calledBy (source : P → Source) (src : Source) : Event P → Option P
  | .called p => if source p = src then some p else none
  | _ => none

/-- The callback of the source that an event publishes for. -/
def Event.publishedBy (source : P → Source) (src : Source) : Event P → Option P
  | .store _ (.publish p _ _) => if source p = src then some p else none
  | _ => none

/-- A callback that appears once in its own events appears once. -/
theorem nodup_of_callOf {f : Event P → Option P} (hf : ∀ e p, f e = some p → e.caller? = some p)
    (hone : ∀ p, ((callOf p h).filterMap f).length ≤ 1) : (h.filterMap f).Nodup := by
  refine List.nodup_iff_count_le_one.mpr fun p => ?_
  have hown : (h.filterMap f).count p = ((callOf p h).filterMap f).count p := by
    rw [List.count_filterMap, List.count_filterMap, callOf, List.countP_filter]
    refine List.countP_congr fun e _ => ?_
    simp only [beq_iff_eq, Bool.and_eq_true, decide_eq_true_eq]
    exact ⟨fun he => ⟨he, hf e p he⟩, fun he => he.1⟩
  rw [hown]
  exact List.count_le_length.trans (hone p)

omit [DecidableEq P] in
theorem length_le_one {f : Event P → Option P} {p : P} {l : List (Event P)}
    (hl : Lived source t p l) (hcalled : f (.called p) = none ∨ ∀ s i v,
      f (.store s (.publish p i v)) = none) (hdropped : f (.dropped p) = none) :
    (l.filterMap f).length ≤ 1 := by
  have hle : ∀ a b : Event P, f a = none ∨ f b = none → ([a, b].filterMap f).length ≤ 1 := by
    intro a b hab
    rcases hab with hab | hab
    · rw [List.filterMap_cons_none hab]
      exact List.length_filterMap_le ..
    · cases ha : f a with
      | none => rw [List.filterMap_cons_none ha]; exact List.length_filterMap_le ..
      | some x =>
          rw [List.filterMap_cons_some ha, List.filterMap_cons_none hab]
          exact Nat.le_refl _
  cases hl with
  | idle => exact Nat.zero_le _
  | counted | capturing | skipped => exact List.length_filterMap_le ..
  | captured s i v => exact hle _ _ (hcalled.imp id fun h => h s i v)
  | dropped => exact hle _ _ (Or.inr hdropped)

/-- In a list of two, the second does not come before the first. -/
theorem not_swapped {α : Type} {a b : α} {xs ys : List α} (heq : xs ++ ys = [a, b])
    (hb : b ∈ xs) (ha : a ∈ ys) (hne : b ≠ a) : False := by
  cases xs with
  | nil => exact nomatch hb
  | cons x xs =>
      obtain ⟨rfl, htail⟩ := List.cons.inj heq
      cases xs with
      | nil => exact hne (List.mem_singleton.mp hb)
      | cons y xs =>
          obtain ⟨-, hnil⟩ := List.cons.inj htail
          rw [(List.append_eq_nil_iff.mp hnil).2] at ha
          exact nomatch ha

omit [DecidableEq P] in
theorem mem_calledBy {src : Source} {p : P} :
    p ∈ h.filterMap (Event.calledBy source src) ↔ .called p ∈ h ∧ source p = src := by
  rw [List.mem_filterMap]
  constructor
  · rintro ⟨e, he, hcalled⟩
    cases e with
    | called q =>
        rw [Event.calledBy] at hcalled
        split_ifs at hcalled with hsource
        obtain rfl := Option.some.inj hcalled
        exact ⟨he, hsource⟩
    | dropped | store | visit | line | row | watch | status | flush => exact nomatch hcalled
  · rintro ⟨he, hsource⟩
    exact ⟨_, he, if_pos hsource⟩

omit [DecidableEq P] in
theorem mem_publishedBy {src : Source} {p : P} :
    p ∈ h.filterMap (Event.publishedBy source src)
      ↔ (∃ s i v, .store s (.publish p i v) ∈ h) ∧ source p = src := by
  rw [List.mem_filterMap]
  constructor
  · rintro ⟨e, he, hpublished⟩
    cases e with
    | store s e' =>
        cases e' with
        | publish q i v =>
            rw [Event.publishedBy] at hpublished
            split_ifs at hpublished with hsource
            obtain rfl := Option.some.inj hpublished
            exact ⟨⟨s, i, v, he⟩, hsource⟩
        | claim | sample | take => exact nomatch hpublished
    | called | dropped | visit | line | row | watch | status | flush => exact nomatch hpublished
  · rintro ⟨⟨s, i, v, he⟩, hsource⟩
    exact ⟨_, he, if_pos hsource⟩

/-- A call of a settled probe has published. -/
theorem published_of_called (hrun : Run (Step source config startTick) (State.start P) h t)
    {probe : Probe} (hsettled : t.Settled source probe) {p : P}
    (hprobe : (source p).probe? = some probe) (hcalled : .called p ∈ h) :
    ∃ s i v, callOf p h = [.called p, .store s (.publish p i v)] := by
  have hmem : .called p ∈ callOf p h := mem_callOf.mpr ⟨hcalled, rfl⟩
  have hstill := hsettled.still p hprobe
  -- the counter of drops stayed at zero
  have hdropped : .dropped p ∉ callOf p h := by
    intro hdrop
    have hzero : tally source (.dropped probe) h = 0 :=
      (counters_run hrun _).symm.trans hsettled.kept
    refine absurd ?_ (List.countP_eq_zero.mp hzero _ (mem_callOf.mp hdrop).1)
    rw [decide_eq_true_eq, Event.bumps, Source.dropCounter?, hprobe]
    rfl
  have hl := life_run hrun p
  generalize callOf p h = l at hl hmem hdropped
  cases hl with
  | captured s i v => exact ⟨s, i, v, rfl⟩
  | idle => cases hmem
  | counted hpc | capturing s hpc =>
      rcases hstill with h | h
      · cases hpc.symm.trans h
      · cases hpc.symm.trans h
  | dropped => exact absurd (List.mem_cons_of_mem _ (List.mem_singleton_self _)) hdropped
  | skipped hpc hnone => cases hprobe.symm.trans hnone

omit [DecidableEq P] in
/-- What a callback published, it had been called for. -/
theorem Lived.called_of_publish {p : P} {l : List (Event P)} (hl : Lived source t p l)
    {s : StoreId} {i : Index} {v : Payload} (hmem : .store s (.publish p i v) ∈ l) :
    .called p ∈ l := by
  cases hl with
  | idle => exact nomatch hmem
  | counted | capturing | captured | dropped | skipped => exact List.mem_cons_self ..

/-- The calls of a settled probe are its publications. -/
theorem calls_perm_published (hrun : Run (Step source config startTick) (State.start P) h t)
    {probe : Probe} (hsettled : t.Settled source probe) {src : Source}
    (hsrc : src.probe? = some probe) :
    (h.filterMap (Event.calledBy source src)).Perm
      (h.filterMap (Event.publishedBy source src)) := by
  have hcaller : ∀ e p, Event.calledBy source src e = some p → e.caller? = some p := by
    intro e p he
    cases e with
    | called q =>
        rw [Event.calledBy] at he
        split_ifs at he
        exact he
    | dropped | store | visit | line | row | watch | status | flush => exact nomatch he
  have hpublisher : ∀ e p, Event.publishedBy source src e = some p → e.caller? = some p := by
    intro e p he
    cases e with
    | store s e' =>
        cases e' with
        | publish q i v =>
            rw [Event.publishedBy] at he
            split_ifs at he
            exact he
        | claim | sample | take => exact nomatch he
    | called | dropped | visit | line | row | watch | status | flush => exact nomatch he
  -- a callback calls once and publishes at most once
  have hcalls := nodup_of_callOf hcaller fun p =>
    length_le_one (life_run hrun p) (Or.inr fun _ _ _ => rfl) rfl
  have hpublications := nodup_of_callOf hpublisher fun p =>
    length_le_one (life_run hrun p) (Or.inl rfl) rfl
  refine (List.perm_ext_iff_of_nodup hcalls hpublications).mpr fun p => ?_
  rw [mem_calledBy, mem_publishedBy]
  constructor
  · rintro ⟨hcalled, hsource⟩
    obtain ⟨s, i, v, heq⟩ := published_of_called hrun hsettled (hsource ▸ hsrc) hcalled
    have hmem : .store s (.publish p i v) ∈ callOf p h := by
      rw [heq]
      exact List.mem_cons_of_mem _ (List.mem_singleton_self _)
    exact ⟨⟨s, i, v, (mem_callOf.mp hmem).1⟩, hsource⟩
  · rintro ⟨⟨s, i, v, hmem⟩, hsource⟩
    have hown := (life_run hrun p).called_of_publish (mem_callOf.mpr ⟨hmem, rfl⟩)
    exact ⟨(mem_callOf.mp hown).1, hsource⟩

omit [DecidableEq P] in
theorem tally_calls (src : Source) (h : List (Event P)) :
    tally source (.calls src) h = (h.filterMap (Event.calledBy source src)).length := by
  rw [List.length_filterMap_eq_countP, tally]
  refine List.countP_congr fun e _ => ?_
  cases e with
  | called p =>
      by_cases hsource : source p = src <;> simp [Event.bumps, Event.calledBy, hsource]
  | dropped p =>
      cases hprobe : (source p).probe? <;>
        simp [Event.bumps, Event.calledBy, Source.dropCounter?, hprobe]
  | store | visit | line | row | watch | status | flush =>
      simp [Event.bumps, Event.calledBy]

/-- Where every publication was looked at, the lines naming a source are the
    publications of its callbacks. -/
theorem eventLines_eq (hrun : Run (Step source config startTick) (State.start P) h t)
    (hphase : t.writer.phase = .limit) (hvisited : EveryPublicationVisited h) (src : Source) :
    eventLines src h = (h.filterMap (Event.publishedBy source src)).length := by
  rw [eventLines, (lines_perm_published hrun hphase hvisited).countP_eq,
    List.countP_filterMap, List.length_filterMap_eq_countP]
  refine List.countP_congr fun e he => ?_
  cases e with
  | store s e' =>
      cases e' with
      | publish p i v =>
          have htag := publish_tagged hrun he
          by_cases hsource : source p = src <;>
            simp [Event.published?, Event.publishedBy, htag, hsource]
      | claim | sample | take => simp [Event.published?, Event.publishedBy]
  | called | dropped | visit | line | row | watch | status | flush =>
      simp [Event.published?, Event.publishedBy]

/-! ## The last row -/

/-- Where every publication was looked at, no call of a settled probe is newer
    than the moment its row tells. -/
theorem Since.current (hrun : Run (Step source config startTick) (State.start P) h t)
    (hvisited : EveryPublicationVisited h) {probe : Probe} (hsettled : t.Settled source probe)
    {src : Source} (hsrc : src.probe? = some probe) {n : Nat}
    (hsince : Since source (.calls src) n h) : n = tally source (.calls src) h := by
  obtain ⟨pre, post, heq, hn, hpost⟩ := hsince
  suffices hzero : tally source (.calls src) post = 0 by
    rw [heq, tally_append, hzero, hn, Nat.add_zero]
  refine tally_eq_zero fun e he hbumps => ?_
  cases e with
  | dropped p =>
      rw [Event.bumps, Source.dropCounter?] at hbumps
      cases hprobe : (source p).probe? with
      | none => rw [hprobe] at hbumps; cases hbumps
      | some probe' => rw [hprobe] at hbumps; cases hbumps
  | store | visit | line | row | watch | status | flush => cases hbumps
  | called p =>
      obtain rfl : source p = src := Counter.calls.inj (Option.some.inj hbumps)
      have hcalled : .called p ∈ h := by
        rw [heq]
        exact List.mem_append_right _ he
      obtain ⟨s, i, v, hlife⟩ := published_of_called hrun hsettled hsrc hcalled
      have hpublish : .store s (.publish p i v) ∈ h :=
        (mem_callOf (p := p)).mp (hlife ▸ List.mem_cons_of_mem _ (List.mem_singleton_self _)) |>.1
      have hstore : s.probe? = some probe :=
        (lineSource?_probe (publish_tagged hrun hpublish)).trans hsrc
      -- the look at its slot lies before that moment, so the publication does
      obtain ⟨pre', c, fs, post', heq', -, hbefore⟩ := hvisited s p i v hpublish
      have hpre : .store s (.publish p i v) ∈ pre := by
        rcases List.append_eq_append_iff.mp (heq.symm.trans heq') with
          ⟨a, -, hpost'⟩ | ⟨a, hpre', -⟩
        · have hvisit : .visit s c fs ∈ post := by
            rw [hpost']
            exact List.mem_append_right _ (List.mem_cons_self ..)
          exact absurd hsrc (hpost _ hvisit probe hstore)
        · rw [hpre']
          exact List.mem_append_left _ hbefore
      -- but a call comes before its publication
      rw [heq, callOf_append] at hlife
      have hfirst : .store s (.publish p i v) ∈ callOf p pre := mem_callOf.mpr ⟨hpre, rfl⟩
      have hlater : .called p ∈ callOf p post := mem_callOf.mpr ⟨he, rfl⟩
      refine not_swapped hlife hfirst hlater ?_
      intro hsame
      cases hsame

/-- **Where every publication was looked at, the last rows are what counting
    the lines gives.** -/
theorem counts_match (hrun : Run (Step source config startTick) (State.start P) h t)
    (hphase : t.writer.phase = .limit) (hvisited : EveryPublicationVisited h) :
    CountsMatch source h t := by
  intro probe hsettled counts hrow
  have hreporting := reporting_run hrun
  rw [hreporting.rows] at hrow
  have hcomplete := hreporting.complete probe counts hrow
  have hsince := hreporting.last probe counts (by rw [hphase]; exact List.not_mem_nil) hrow
  have hentry : ∀ x ∈ counts, x = (x.1, match x.1 with
      | .calls source => eventLines source h
      | .dropped _ => 0) := by
    intro x hx
    have hprobe : x.1.probe? = some probe :=
      mem_counters (hcomplete ▸ List.mem_map_of_mem hx)
    obtain ⟨c, n⟩ := x
    have hcount := hsince _ hx
    cases c with
    | calls src =>
        have hnow := hcount.current hrun hvisited hsettled hprobe
        rw [tally_calls, (calls_perm_published hrun hsettled hprobe).length_eq,
          ← eventLines_eq hrun hphase hvisited] at hnow
        exact congrArg (Prod.mk _) hnow
    | dropped probe' =>
        obtain rfl := Option.some.inj hprobe
        obtain ⟨pre, post, heq, hn, -⟩ := hcount
        have hzero : tally source (.dropped probe') h = 0 :=
          (counters_run hrun _).symm.trans hsettled.kept
        rw [heq, tally_append] at hzero
        have hn' : n = 0 := hn.trans (Nat.add_eq_zero_iff.mp hzero).1
        exact congrArg (Prod.mk _) hn'
  rw [lineCounts, ← hcomplete, List.map_map]
  exact (List.map_congr_left hentry).symm.trans (List.map_id' counts) |>.symm

/-- **The recording loses nothing at its limit exactly when the writer looked
    at the slot of every publication before the limit check.** -/
theorem nothing_lost_iff {P : Type} [DecidableEq P] (source : P → Source) (config : Config)
    (startTick : UInt64) (h : List (Event P)) (t : State P)
    (hrun : Run (Step source config startTick) (State.start P) h t)
    (hlimit : t.AtLimit config) :
    EveryCaptureLogged h ∧ CountsMatch source h t ↔ EveryPublicationVisited h := by
  constructor
  · rintro ⟨hlogged, -⟩
    exact (logged_iff_visited hrun hlimit.1).mp hlogged
  · intro hvisited
    exact ⟨(logged_iff_visited hrun hlimit.1).mpr hvisited,
      counts_match hrun hlimit.1 hvisited⟩

end Counting

/-! ## One call, before and after the writer's look at its slot -/

/-- A polling session that records the codec. -/
def polling : Config :=
  { Config.default with pollGlobalTeamAttack := true, observeRuleCodec := true }

/-- What the codec gives a call to record. -/
def codecSupply : Supplied where
  mode := 0
  captures := true
  spurious := false
  observation := { direction := 0, base := 1, team := 1, before := 0, after := 14, elapsed := 100 }
  event := Application.Event.decode (Vector.replicate _ 0)
  buffer := Vector.replicate _ 0

/-- `n` steps of a call; it returns with the seventh. -/
def codecCall {P : Type} (p : P) (n : Nat) : List (Move P) :=
  List.replicate n (.call p codecSupply)

/-- One encoder call, from its `fetch_add` to its return. -/
def encoderCall : List (Move Unit) := codecCall () 7

/-- The writer takes `n` steps at the tick. -/
def writes {P : Type} (n : Nat) (tick : UInt64) : List (Move P) :=
  List.replicate n (.write { tick, hooked := true, guard := 1, global := 0 })

/-- The tick of the limit. -/
def limitTick : UInt64 := Watch.watchLimitMs * 19200

/-- The slot the call claims. -/
def firstSlot : Index := ⟨0, by decide⟩

/-- A run of the one call, with what was found on its history and state. -/
theorem run_of_moves (moves : List (Move Unit)) (p : List (Event Unit) → State Unit → Prop)
    [∀ h t, Decidable (p h t)]
    (hexec : (exec (advance (fun _ => .codec 0) polling 0) (State.start Unit) moves).any
      (fun x => decide (p x.1 x.2)) = true) :
    ∃ h t, Run (Step (fun _ => .codec 0) polling 0) (State.start Unit) h t ∧ p h t :=
  run_of_exec_any hexec

/-- The call comes before the drain of an iteration, the limit in the next. -/
def earlyCall : List (Move Unit) :=
  writes 3 0 ++ encoderCall ++ writes 520 0 ++ writes 2 limitTick

theorem nothing_lost_early : ∃ h t,
    Run (Step (fun _ => .codec 0) polling 0) (State.start Unit) h t ∧ t.AtLimit polling
      ∧ linesFor .codec firstSlot h ≠ []
      ∧ (EveryCaptureLogged h ∧ CountsMatch (fun _ => .codec 0) h t
        ↔ EveryPublicationVisited h) := by
  obtain ⟨h, t, hrun, hlimit, hlines⟩ := run_of_moves earlyCall
    (fun h t => t.AtLimit polling ∧ linesFor .codec firstSlot h ≠ []) (by decide +kernel)
  exact ⟨h, t, hrun, hlimit, hlines, nothing_lost_iff _ _ _ h t hrun hlimit⟩

/-- The call comes after the drain has looked at its slot, and before the
    counters are loaded. -/
def lateCall : List (Move Unit) :=
  writes 4 0 ++ encoderCall ++ writes 518 0 ++ writes 2 limitTick

/-- The capture is published, counted in the last row, and never written. -/
theorem late_capture_lost : ∃ h t,
    Run (Step (fun _ => .codec 0) polling 0) (State.start Unit) h t ∧ t.AtLimit polling
      ∧ ¬ EveryCaptureLogged h ∧ ¬ CountsMatch (fun _ => .codec 0) h t := by
  obtain ⟨h, t, hrun, hlimit, ⟨e, he, hpublished⟩, hlines, hkept, hdone, counts, hrow, hcounts⟩ :=
    run_of_moves lateCall (fun h t => t.AtLimit polling
      ∧ (∃ e ∈ h, e.published?.map (fun x => (x.1, x.2.sequence)) = some (.codec, 0))
      ∧ linesFor .codec firstSlot h = [] ∧ t.counters (.dropped .codec) = 0
      ∧ t.calling () = .done ∧ ∃ counts, (rowsOf .codec h).getLast? = some counts
        ∧ counts ≠ lineCounts .codec h) (by decide +kernel)
  refine ⟨h, t, hrun, hlimit, fun hlogged => ?_, fun hmatch => ?_⟩
  · cases e with
    | store s e' =>
        cases e' with
        | publish p i v =>
            obtain ⟨rfl, hi⟩ := Prod.mk.inj (Option.some.inj hpublished)
            obtain rfl : i = firstSlot := Fin.ext hi
            exact nomatch hlines.symm.trans (hlogged .codec p firstSlot v he)
        | claim | sample | take => exact nomatch hpublished
    | called | dropped | visit | line | row | watch | status | flush => exact nomatch hpublished
  · exact hcounts (hmatch .codec ⟨hkept, fun _ _ => Or.inr hdone⟩ counts hrow)

end TeamAttack.Recorder
