import TeamAttack.RecorderLimit

/-! # The lines of a recording

    The lines of a store have distinct sequences below its limit, and each
    was published by a callback.  No line stems from two callbacks and no
    callback is written twice (`lines_traced`), so no source has more lines
    than calls. -/

namespace TeamAttack.Recorder

open Runs CaptureSchedule OnceBoard

/-! ## The lines of a store -/

section Lines

variable {P : Type} [DecidableEq P] {source : P → Source} {config : Config}
  {startTick : UInt64} {t t' : State P} {h es : List (Event P)}

/-- What is written for a store was taken from it before. -/
theorem lines_sublist (hrun : Run (Step source config startTick) (State.start P) h t)
    (s : StoreId) : (linesOf s h).Sublist (takesOf s h) := by
  have hwritten := written_run hrun s
  by_cases hreading : t.writer.phase.Reading s
  · cases hphase : t.writer.phase with
    | read s' c rest =>
        rw [hphase] at hreading
        obtain rfl : s' = s := hreading
        obtain ⟨i, v, -, -, heq⟩ := hwritten.reading c rest hphase
        rw [heq]
        exact List.sublist_append_left ..
    | sleep | hookStatus | limit | work | returned =>
        rw [hphase] at hreading
        exact hreading.elim
  · rw [hwritten.idle hreading]

/-- What is taken from a store was published into it. -/
theorem take_published (hrun : Run (Step source config startTick) (State.start P) h t)
    {s : StoreId} {capture : Capture} (hmem : capture ∈ takesOf s h) :
    ∃ p, ∃ i : Index, ∃ v, capture = ⟨i, v⟩ ∧ .store s (.publish p i v) ∈ h := by
  obtain ⟨e, he, htaken⟩ := List.mem_filterMap.mp hmem
  cases e with
  | claim | sample | publish => cases htaken
  | take c i v =>
      obtain rfl := Option.some.inj htaken
      obtain ⟨b, -, hexp⟩ := board_run hrun s
      obtain ⟨p, hcell⟩ := hexp.mem_take.mp (take_mem_acts.mpr he)
      have hpublish : .publish p i v ∈ project s h :=
        publish_mem_acts.mp (hexp.mem_publish.mpr (Or.inr ⟨c, hcell⟩))
      exact ⟨p, i, v, rfl, (publish_mem_project hrun).mp hpublish⟩

/-- **No store gives out a sequence twice.** -/
theorem takes_nodup (hrun : Run (Step source config startTick) (State.start P) h t)
    (s : StoreId) : ((takesOf s h).map Capture.sequence).Nodup := by
  refine List.nodup_iff_count_le_one.mpr fun n => ?_
  have hfilter : ((takesOf s h).map Capture.sequence).count n
      = ((takesOf s h).filter fun capture => capture.sequence = n).length := by
    rw [List.count, List.countP_map, List.countP_eq_length_filter]
    refine congrArg List.length (List.filter_congr fun capture _ => ?_)
    exact Bool.beq_eq_decide_eq _ _
  rw [hfilter]
  by_cases hn : n < captureCapacity
  · obtain ⟨b, -, hexp⟩ := board_run hrun s
    -- one slot is taken at most once
    rw [takes_at hexp ⟨n, hn⟩, List.length_map]
    cases b.cell ⟨n, hn⟩ with
    | free | held | full => exact Nat.zero_le _
    | taken => exact Nat.le_refl _
  · have hnone : ((takesOf s h).filter fun capture => capture.sequence = n) = [] := by
      refine List.filter_eq_nil_iff.mpr fun capture hmem hsequence => ?_
      obtain ⟨p, i, v, rfl, -⟩ := take_published hrun hmem
      exact hn (of_decide_eq_true hsequence ▸ i.isLt)
    rw [hnone]
    exact Nat.zero_le _

/-- **The sequences of a store's lines are distinct.** -/
theorem lines_nodup (hrun : Run (Step source config startTick) (State.start P) h t)
    (s : StoreId) : ((linesOf s h).map Capture.sequence).Nodup :=
  ((lines_sublist hrun s).map _).nodup (takes_nodup hrun s)

/-- A published slot lies below the limit of its store. -/
theorem publish_lt_limit (hrun : Run (Step source config startTick) (State.start P) h t)
    {s : StoreId} {p : P} {i : Index} {v : Payload} (hpublish : .store s (.publish p i v) ∈ h) :
    i.val < limit config s := by
  have hstore := store_run hrun s
  obtain ⟨hclaim, -⟩ := published_sampled hstore (store_mem_project hpublish)
  exact target_lt_limit hstore (target_of_claim hstore hclaim)

/-- What is written for a store was published into it. -/
theorem line_published (hrun : Run (Step source config startTick) (State.start P) h t)
    {s : StoreId} {capture : Capture} (hmem : capture ∈ linesOf s h) :
    ∃ p, ∃ i : Index, ∃ v, capture = ⟨i, v⟩ ∧ .store s (.publish p i v) ∈ h :=
  take_published hrun ((lines_sublist hrun s).subset hmem)

/-- There are at most as many lines of a store as there are sequences. -/
theorem lines_length_le (hrun : Run (Step source config startTick) (State.start P) h t)
    (s : StoreId) : (linesOf s h).length ≤ min (limit config s) captureCapacity := by
  have hsubset : (linesOf s h).map Capture.sequence
      ⊆ List.range (min (limit config s) captureCapacity) := by
    intro n hn
    obtain ⟨capture, hmem, rfl⟩ := List.mem_map.mp hn
    obtain ⟨p, i, v, rfl, hpublish⟩ := line_published hrun hmem
    exact List.mem_range.mpr (Nat.lt_min.mpr ⟨publish_lt_limit hrun hpublish, i.isLt⟩)
  have hle := ((lines_nodup hrun s).subperm hsubset).length_le
  rwa [List.length_map, List.length_range] at hle

/-! ## Lines and calls -/

/-- The captures an event takes, with their store. -/
def Event.takes : Event P → List (StoreId × Capture)
  | .visit s _ es => (es.filterMap CaptureSchedule.Event.taken?).map (Prod.mk s)
  | _ => []

/-- The captures taken that name a source. -/
def sourceTakes (source : Source) (h : List (Event P)) : Nat :=
  (h.flatMap Event.takes).countP fun x => lineSource? x.1 x.2 = some source

omit [DecidableEq P] in
/-- Counting what was taken is counting within each store. -/
theorem count_takes {s : StoreId} {capture : Capture} (hplaced : ∀ e ∈ h, e.Placed) :
    (h.flatMap Event.takes).count (s, capture) = (takesOf s h).count capture := by
  induction h with
  | nil => rfl
  | cons e rest ih =>
      have hrest := ih fun e he => hplaced e (List.mem_cons_of_mem _ he)
      have hhead : e.takes.count (s, capture)
          = ((e.inStore s).filterMap CaptureSchedule.Event.taken?).count capture := by
        cases e with
        | visit s' c es =>
            rw [Event.takes, Event.inStore]
            by_cases hs : s' = s
            · subst hs
              rw [if_pos rfl]
              exact List.count_map_of_injective _ _ (Prod.mk_right_injective s') capture
            · rw [if_neg hs]
              refine List.count_eq_zero.mpr fun hmem => ?_
              obtain ⟨x, -, heq⟩ := List.mem_map.mp hmem
              exact hs (congrArg Prod.fst heq)
        | store s' e' =>
            -- a callback takes nothing
            have hplace := hplaced _ List.mem_cons_self
            rw [Event.inStore]
            split_ifs
            · cases e' with
              | claim | sample | publish => rfl
              | take => exact absurd rfl hplace
            · rfl
        | called | dropped | line | row | watch | status | flush => rfl
      have hcons : takesOf s (e :: rest)
          = (e.inStore s).filterMap CaptureSchedule.Event.taken? ++ takesOf s rest := by
        rw [takesOf, project_cons, List.filterMap_append]
        rfl
      rw [List.flatMap_cons, List.count_append, hrest, hhead, hcons, List.count_append]

/-- What is written was taken. -/
theorem lines_subperm (hrun : Run (Step source config startTick) (State.start P) h t) :
    (h.filterMap Event.line?).Subperm (h.flatMap Event.takes) := by
  refine List.subperm_ext_iff.mpr fun x _ => ?_
  obtain ⟨s, capture⟩ := x
  rw [count_inStore, ← linesOf_eq, count_takes (placed_run hrun)]
  exact (lines_sublist hrun s).count_le capture

/-- What is taken was published. -/
theorem takes_subperm (hrun : Run (Step source config startTick) (State.start P) h t) :
    (h.flatMap Event.takes).Subperm (h.filterMap Event.published?) := by
  refine List.subperm_ext_iff.mpr fun x _ => ?_
  obtain ⟨s, capture⟩ := x
  rw [count_inStore, count_takes (placed_run hrun), ← published_project (placed_run hrun)]
  obtain ⟨b, hboard, -⟩ := refines_run (store_run hrun s)
  have hdelivery := (delivery_run hboard).map toCapture
  rw [List.map_append, taken_acts, published_acts] at hdelivery
  have hcount := hdelivery.count_eq capture
  rw [List.count_append] at hcount
  exact Nat.le.intro hcount

/-- The publications of a source's callbacks are at most its calls. -/
theorem published_le_calls (hrun : Run (Step source config startTick) (State.start P) h t)
    (src : Source) :
    (h.filterMap (Event.publishedBy source src)).length ≤ tally source (.calls src) h := by
  have hpublisher : ∀ e p, Event.publishedBy source src e = some p → e.caller? = some p := by
    intro e p he
    cases e with
    | store s e' =>
        cases e' with
        | publish q i v =>
            rw [Event.publishedBy] at he
            split_ifs at he
            exact he
        | claim | sample | take => cases he
    | called | dropped | visit | line | row | watch | status | flush => cases he
  have hnodup := nodup_of_callOf hpublisher fun p =>
    length_le_one (life_run hrun p) (Or.inl rfl) rfl
  have hsubset : h.filterMap (Event.publishedBy source src)
      ⊆ h.filterMap (Event.calledBy source src) := by
    intro p hp
    obtain ⟨⟨s, i, v, hpublish⟩, hsource⟩ := mem_publishedBy.mp hp
    have hown := (life_run hrun p).called_of_publish (mem_callOf.mpr ⟨hpublish, rfl⟩)
    exact mem_calledBy.mpr ⟨(mem_callOf.mp hown).1, hsource⟩
  rw [tally_calls]
  exact (hnodup.subperm hsubset).length_le

/-- What was taken of a source's captures is at most its calls. -/
theorem sourceTakes_le_calls (hrun : Run (Step source config startTick) (State.start P) h t)
    (src : Source) : sourceTakes src h ≤ tally source (.calls src) h := by
  refine Nat.le_trans ((takes_subperm hrun).countP_le _) ?_
  refine Nat.le_trans (Nat.le_of_eq ?_) (published_le_calls hrun src)
  rw [List.countP_filterMap, List.length_filterMap_eq_countP]
  refine List.countP_congr fun e he => ?_
  cases e with
  | store s e' =>
      cases e' with
      | publish p i v =>
          -- a capture names the source of its callback
          have htag := publish_tagged hrun he
          by_cases hsource : source p = src <;>
            simp [Event.published?, Event.publishedBy, htag, hsource]
      | claim | sample | take => simp [Event.published?, Event.publishedBy]
  | called | dropped | visit | line | row | watch | status | flush =>
      simp [Event.published?, Event.publishedBy]

/-- **No source has more event lines than calls.** -/
theorem eventLines_le_takes (hrun : Run (Step source config startTick) (State.start P) h t)
    (src : Source) : eventLines src h ≤ sourceTakes src h :=
  (lines_subperm hrun).countP_le _

omit [DecidableEq P] in
/-- Every dump names the serializer, and nothing else does. -/
theorem dumps_eventLines (h : List (Event P)) :
    (linesOf .compact h).length = eventLines .serializer h := by
  -- the lines of the two probes name their callbacks
  have hne : ∀ s capture, s.probe? ≠ none → lineSource? s capture ≠ some .serializer :=
    fun s capture hs heq => hs (lineSource?_probe heq)
  rw [linesOf_eq, List.length_filterMap_eq_countP, eventLines, List.countP_filterMap]
  refine List.countP_congr fun e _ => ?_
  cases e with
  | line s capture =>
      cases s with
      | codec =>
          have hcodec := hne .codec capture (Option.some_ne_none _)
          simp [Event.line?, inStore?, hcodec]
      | bank b =>
          have hbank := hne (.bank b) capture (Option.some_ne_none _)
          simp [Event.line?, inStore?, hbank]
      | compact => simp [Event.line?, inStore?, lineSource?]
  | called | dropped | store | visit | row | watch | status | flush => simp [Event.line?]

/-! ## Where a line comes from -/

omit [DecidableEq P] in
/-- Counting sequences with their store is counting within the store. -/
theorem count_sequences (s : StoreId) (n : Nat) (xs : List (StoreId × Capture)) :
    (xs.map fun x => (x.1, x.2.sequence)).count (s, n)
      = ((xs.filterMap (inStore? s)).map Capture.sequence).count n := by
  induction xs with
  | nil => rfl
  | cons x xs ih =>
      obtain ⟨s', capture⟩ := x
      rw [List.map_cons, List.count_cons, ih]
      by_cases hs : s' = s
      · subst hs
        have hin : inStore? s' (s', capture) = some capture := if_pos rfl
        rw [List.filterMap_cons_some hin, List.map_cons, List.count_cons]
        simp
      · have hout : inStore? s (s', capture) = none := if_neg hs
        rw [List.filterMap_cons_none hout]
        simp [hs]

/-- The callback has published the capture of a line. -/
def WrittenFor (h : List (Event P)) (p : P) (s : StoreId) (capture : Capture) : Prop :=
  ∃ i : Index, capture.sequence = i ∧ .store s (.publish p i capture.bytes) ∈ h

/-- A callback publishes once. -/
theorem publish_once (hrun : Run (Step source config startTick) (State.start P) h t) {p : P}
    {s s' : StoreId} {capture capture' : Capture} (hx : WrittenFor h p s capture)
    (hy : WrittenFor h p s' capture') : s = s' ∧ capture = capture' := by
  obtain ⟨sequence, payload⟩ := capture
  obtain ⟨sequence', payload'⟩ := capture'
  obtain ⟨i, rfl, hi⟩ := hx
  obtain ⟨j, rfl, hj⟩ := hy
  have hfirst : .store s (.publish p i payload) ∈ callOf p h := mem_callOf.mpr ⟨hi, rfl⟩
  have hsecond : .store s' (.publish p j payload') ∈ callOf p h := mem_callOf.mpr ⟨hj, rfl⟩
  have hl := life_run hrun p
  generalize callOf p h = l at hl hfirst hsecond
  cases hl with
  | idle => cases hfirst
  | counted | capturing | skipped => cases List.mem_singleton.mp hfirst
  | captured r k v =>
      -- the one publication of its life is both
      have honly : ∀ q m w, (.store q (.publish p m w) : Event P)
          ∈ [.called p, .store r (.publish p k v)] → q = r ∧ m = k ∧ w = v := by
        intro q m w hmem
        rcases List.mem_cons.mp hmem with hcalled | hstore
        · cases hcalled
        · cases List.mem_singleton.mp hstore
          exact ⟨rfl, rfl, rfl⟩
      obtain ⟨rfl, rfl, rfl⟩ := honly _ _ _ hfirst
      obtain ⟨rfl, rfl, rfl⟩ := honly _ _ _ hsecond
      exact ⟨rfl, rfl⟩
  | dropped =>
      rcases List.mem_cons.mp hfirst with hcalled | hdropped
      · cases hcalled
      · cases List.mem_singleton.mp hdropped

/-- **Every line is one callback's.**  No store writes a sequence twice, or at
    or above its limit; each line was published by a callback that had been
    called before, and names its source; and no callback is written twice. -/
theorem lines_traced {P : Type} [DecidableEq P] (source : P → Source) (config : Config)
    (startTick : UInt64) (h : List (Event P)) (t : State P)
    (hrun : Run (Step source config startTick) (State.start P) h t) :
    ((h.filterMap Event.line?).map fun x => (x.1, x.2.sequence)).Nodup
    ∧ (∀ pre s capture post, h = pre ++ .line s capture :: post →
        capture.sequence < min (limit config s) captureCapacity
        ∧ ∃ p, .called p ∈ pre ∧ WrittenFor pre p s capture
          ∧ lineSource? s capture = some (source p))
    ∧ ∀ p s s' capture capture', WrittenFor h p s capture → WrittenFor h p s' capture' →
        s = s' ∧ capture = capture' := by
  refine ⟨?_, fun pre s capture post heq => ?_, fun p s s' capture capture' => publish_once hrun⟩
  · refine List.nodup_iff_count_le_one.mpr fun x => ?_
    obtain ⟨s, n⟩ := x
    rw [count_sequences, List.filterMap_filterMap, ← linesOf_eq]
    exact List.nodup_iff_count_le_one.mp (lines_nodup hrun s) n
  · obtain ⟨u, u', hpre, hstep, -⟩ := hrun.split_event one_event heq
    have hnow := hpre.tail hstep
    have hmem : capture ∈ linesOf s (pre ++ [.line s capture]) := by
      rw [linesOf_append, linesOf_line, if_pos rfl]
      exact List.mem_append_right _ (List.mem_singleton_self _)
    obtain ⟨p, i, v, rfl, hpublish⟩ := line_published hnow hmem
    -- the publication is not the line, so it lies before
    have hbefore : .store s (.publish p i v) ∈ pre := by
      rcases List.mem_append.mp hpublish with hold | hline
      · exact hold
      · cases List.mem_singleton.mp hline
    have hcalled := (life_run hpre p).called_of_publish (mem_callOf.mpr ⟨hbefore, rfl⟩)
    exact ⟨Nat.lt_min.mpr ⟨publish_lt_limit hpre hbefore, i.isLt⟩, p, (mem_callOf.mp hcalled).1,
      ⟨i, rfl, hbefore⟩, publish_tagged hpre hbefore⟩

end Lines

/-- An encoder's and a decoder's call. -/
def bothDirections (p : Fin 2) : Source := .codec p

/-- Both calls go on inside one another, and the writer goes past the encoder's
    slot before it is published. -/
def nestedCalls : List (Move (Fin 2)) :=
  writes 2 0 ++ codecCall 0 4 ++ codecCall 1 5 ++ writes 2 0 ++ codecCall 1 2 ++ writes 2 0
    ++ codecCall 0 3 ++ writes 600 0

/-- The decoder's line comes first and the encoder's in the next iteration. -/
theorem lines_traced_nested : ∃ h t,
    Run (Step bothDirections polling 0) (State.start (Fin 2)) h t
      ∧ (h.filterMap Event.line?).map (fun x => (x.1, x.2.sequence)) = [(.codec, 1), (.codec, 0)]
      ∧ ∀ pre s capture post, h = pre ++ .line s capture :: post →
        ∃ p, .called p ∈ pre ∧ WrittenFor pre p s capture
          ∧ lineSource? s capture = some (.codec p) := by
  have hexec : (exec (advance bothDirections polling 0) (State.start (Fin 2)) nestedCalls).any
      (fun x => decide ((x.1.filterMap Event.line?).map (fun x => (x.1, x.2.sequence))
        = [(.codec, 1), (.codec, 0)])) = true := by
    decide +kernel
  obtain ⟨h, t, hrun, hlines⟩ := run_of_exec_any (p := fun h (_ : State (Fin 2)) =>
    (h.filterMap Event.line?).map (fun x => (x.1, x.2.sequence)) = [(.codec, 1), (.codec, 0)])
    hexec
  obtain ⟨-, htraced, -⟩ := lines_traced _ _ _ h t hrun
  exact ⟨h, t, hrun, hlines, fun pre s capture post heq => (htraced pre s capture post heq).2⟩

end TeamAttack.Recorder
