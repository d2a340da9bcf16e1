import TeamAttack.ProbeSlots

/-! # What the drains took

    A slot a drain has taken is being read, or its line is in the log, or the
    drain failed to write it; a slot nobody took is written by the next drain.
    So the event of a callback that recorded is lost with a failed write only
    (`retrievable`). -/

namespace TeamAttack.ProbeSchedule

open Runs CaptureSchedule ApplicationProbe
open Application (siteCount bankLimit)
open OnceBoard (Board Cell)

variable {P D : Type} {call : P → Call} {t t' : State P D} {es h : List (Effect P D)}

/-- The line an effect writes. -/
def Effect.line? : Effect P D → Option EventLine
  | .line _ l => some l
  | .called _ => none
  | .reserved .. => none
  | .sampled .. => none
  | .dropped _ => none

/-- The event lines of a run, in the order they were written. -/
def linesOf (h : List (Effect P D)) : List EventLine := h.filterMap Effect.line?

theorem mem_linesOf {l : EventLine} : l ∈ linesOf h ↔ ∃ d, .line d l ∈ h := by
  rw [linesOf, List.mem_filterMap]
  constructor
  · rintro ⟨x, hx, hl⟩
    cases x with
    | line d l' =>
        cases hl
        exact ⟨d, hx⟩
    | called | reserved | sampled | dropped => cases hl
  · rintro ⟨d, hd⟩
    exact ⟨_, hd, rfl⟩

/-- The history and the drains agree. -/
structure Drains (h : List (Effect P D)) (t : State P D) : Prop where
  reading : ∀ b d i j, (t.banks b).taking (d, i) = .read j →
    ∃ rest, t.draining d = .reading b i rest
  delivered : ∀ b d i capture, (t.banks b).taking (d, i) = .returned (some capture) →
    .line d (eventLine b capture) ∈ h ∨ t.draining d = .returned none
  line : ∀ d l, .line d l ∈ h → ∃ b i capture,
    (t.banks b).taking (d, i) = .returned (some capture) ∧ l = eventLine b capture

theorem Drains.start : Drains [] (State.start P D) where
  reading := fun _ _ _ _ h => by cases h
  delivered := fun _ _ _ _ h => by cases h
  line := fun _ _ h => by cases h

/-- A step that moves no drain. -/
theorem Drains.same (hdrains : Drains h t) (hdraining : t'.draining = t.draining)
    (htaking : ∀ b, (t'.banks b).taking = (t.banks b).taking)
    (hes : ∀ d l, .line d l ∉ es) : Drains (h ++ es) t' where
  reading := fun b d i j hj => by
    rw [htaking] at hj
    rw [hdraining]
    exact hdrains.reading b d i j hj
  delivered := fun b d i capture hc => by
    rw [htaking] at hc
    rw [hdraining]
    exact (hdrains.delivered b d i capture hc).imp_left (List.mem_append_left es)
  line := fun d l hl => by
    obtain ⟨b, i, capture, hc, heq⟩ :=
      hdrains.line d l ((List.mem_append.mp hl).resolve_right (hes d l))
    exact ⟨b, i, capture, by rw [htaking]; exact hc, heq⟩

section Steps

variable [DecidableEq P] [DecidableEq D]

omit [DecidableEq D] in
/-- A step of a callback moves no drain. -/
theorem Called.drains {p : P} (hp : Called call t p es t') :
    t'.draining = t.draining ∧ (∀ b, (t'.banks b).taking = (t.banks b).taking)
      ∧ ∀ d l, .line d l ∉ es := by
  cases hp with
  | pass | enter | choose | record =>
      exact ⟨rfl, fun b => rfl, fun d l hl => by cases hl⟩
  | count | lose =>
      exact ⟨rfl, fun b => rfl, fun d l hl => by cases List.mem_singleton.mp hl⟩
  | produce b mode action spurious e fs schedule hcalling hb hkind hmode hproduce =>
      refine ⟨rfl, fun c => ?_, fun d l hl => ?_⟩
      · by_cases hc : c = b
        · subst hc
          rw [atBank_self]
          cases produced_of_produce hproduce <;> rfl
        · rw [atBank_of_ne t schedule hc]
      · obtain ⟨x, -, hx⟩ := List.mem_filterMap.mp hl
        cases x <;> cases hx

omit [DecidableEq P] in
/-- A step of a drain, seen from the calls of `take`: where `d` is at (b, i)
    and goes to `k`, and everything else stays. -/
theorem Drains.moved (hdrains : Drains h t) {d : D} {b : Bank} {i : Nat} {k : Taking}
    {draining : Draining} {schedule : Schedule P (D × Nat)}
    (htaking : schedule.taking = Function.update (t.banks b).taking (d, i) k)
    (hearlier : ∀ c, (t.banks b).taking (d, i) ≠ .returned (some c))
    (hfailed : t.draining d ≠ .returned none)
    (hreading : ∀ c i' j, (c, i') ≠ (b, i) → (t.banks c).taking (d, i') ≠ .read j)
    (hread : ∀ j, k = .read j → ∃ rest, draining = .reading b i rest)
    (hdelivered : ∀ c, k = .returned (some c) →
      .line d (eventLine b c) ∈ es ∨ draining = .returned none)
    (hline : ∀ d' l, .line d' l ∈ es → d' = d ∧ ∃ c, k = .returned (some c)
      ∧ l = eventLine b c) :
    Drains (h ++ es) ((t.atBank b schedule).atDrain d draining) := by
  -- at (b, i) the call is where `k` says, elsewhere where it was
  have hhere : (((t.atBank b schedule).atDrain d draining).banks b).taking (d, i) = k := by
    show ((t.atBank b schedule).banks b).taking (d, i) = k
    rw [atBank_self, htaking, Function.update_self]
  have hthere : ∀ c d' i', ¬(c = b ∧ d' = d ∧ i' = i) →
      (((t.atBank b schedule).atDrain d draining).banks c).taking (d', i')
        = (t.banks c).taking (d', i') := by
    intro c d' i' hne
    show ((t.atBank b schedule).banks c).taking (d', i') = _
    by_cases hc : c = b
    · subst hc
      rw [atBank_self, htaking, Function.update_of_ne]
      intro heq
      obtain ⟨rfl, rfl⟩ := Prod.mk.inj heq
      exact hne ⟨rfl, rfl, rfl⟩
    · rw [atBank_of_ne t schedule hc]
  have hself : ((t.atBank b schedule).atDrain d draining).draining d = draining :=
    Function.update_self ..
  have hother : ∀ d', d' ≠ d →
      ((t.atBank b schedule).atDrain d draining).draining d' = t.draining d' :=
    fun d' hd => Function.update_of_ne hd ..
  refine ⟨fun c d' i' j hj => ?_, fun c d' i' capture hcap => ?_, fun d' l hl => ?_⟩
  -- a call inside its `read`
  · by_cases hat : c = b ∧ d' = d ∧ i' = i
    · obtain ⟨rfl, rfl, rfl⟩ := hat
      rw [hself]
      exact hread j (hhere.symm.trans hj)
    · rw [hthere c d' i' hat] at hj
      by_cases hd : d' = d
      · subst hd
        refine absurd hj (hreading c i' j fun heq => hat ?_)
        exact ⟨congrArg Prod.fst heq, rfl, congrArg Prod.snd heq⟩
      · rw [hother d' hd]
        exact hdrains.reading c d' i' j hj
  · by_cases hat : c = b ∧ d' = d ∧ i' = i
    · obtain ⟨rfl, rfl, rfl⟩ := hat
      rw [hself]
      exact (hdelivered capture (hhere.symm.trans hcap)).imp_left (List.mem_append_right h)
    · rw [hthere c d' i' hat] at hcap
      rcases hdrains.delivered c d' i' capture hcap with hlog | hfail
      · exact Or.inl (List.mem_append_left es hlog)
      · have hd : d' ≠ d := by
          rintro rfl
          exact hfailed hfail
        rw [hother d' hd]
        exact Or.inr hfail
  · rcases List.mem_append.mp hl with hold | hnew
    · obtain ⟨c, i', capture, hcap, heq⟩ := hdrains.line d' l hold
      refine ⟨c, i', capture, ?_, heq⟩
      rw [hthere c d' i']
      · exact hcap
      · rintro ⟨rfl, rfl, rfl⟩
        exact hearlier capture hcap
    · obtain ⟨rfl, capture, hk, heq⟩ := hline d' l hnew
      exact ⟨b, i, capture, hhere.trans hk, heq⟩

omit [DecidableEq P] in
theorem Drains.drained (hdrains : Drains h t) {d : D} (hd : Drained t d es t') :
    Drains (h ++ es) t' := by
  -- `d` is inside `take` only where it says it reads
  have hnowhere : ∀ rest dirty, t.draining d = .visiting rest dirty →
      ∀ c i j, (t.banks c).taking (d, i) ≠ .read j := by
    intro rest dirty hvisiting c i j hj
    obtain ⟨rest', hreading⟩ := hdrains.reading c d i j hj
    cases hvisiting.symm.trans hreading
  have honly : ∀ b i rest, t.draining d = .reading b i rest →
      ∀ c i' j, (c, i') ≠ (b, i) → (t.banks c).taking (d, i') ≠ .read j := by
    intro b i rest hreading c i' j hne hj
    obtain ⟨rest', hreading'⟩ := hdrains.reading c d i' j hj
    cases hreading.symm.trans hreading'
    exact hne rfl
  cases hd with
  | finish dirty hdraining =>
      refine ⟨fun c d' i j hj => ?_, fun c d' i capture hcap => ?_, fun d' l hl => ?_⟩
      · have hne : d' ≠ d := by
          rintro rfl
          exact hnowhere _ _ hdraining c i j hj
        obtain ⟨rest, hrest⟩ := hdrains.reading c d' i j hj
        exact ⟨rest, (Function.update_of_ne hne ..).trans hrest⟩
      · rcases hdrains.delivered c d' i capture hcap with hlog | hfail
        · exact Or.inl (List.mem_append_left [] hlog)
        · have hne : d' ≠ d := by
            rintro rfl
            cases hdraining.symm.trans hfail
          exact Or.inr ((Function.update_of_ne hne ..).trans hfail)
      · rw [List.append_nil] at hl
        exact hdrains.line d' l hl
  | visit b i rest dirty fs schedule hdraining hconsume =>
      have hfailed : t.draining d ≠ .returned none := by
        rw [hdraining]
        intro hfail
        cases hfail
      have hnoline : ∀ d' l (k : Taking), .line d' l ∈ ([] : List (Effect P D)) →
          d' = d ∧ ∃ c, k = .returned (some c) ∧ l = eventLine b c :=
        fun d' l k hl => by cases hl
      cases consumed_of_consume hconsume with
      | miss hpc =>
          refine hdrains.moved rfl (fun c hc => ?_) hfailed
            (fun c i' j _ => hnowhere _ _ hdraining c i' j) (fun j hj => ?_) (fun c hc => ?_)
            (fun d' l hl => hnoline d' l _ hl)
          · cases hpc.symm.trans hc
          · cases hj
          · cases hc
      | take j hpc hindex hready =>
          refine hdrains.moved rfl (fun c hc => ?_) hfailed
            (fun c i' j _ => hnowhere _ _ hdraining c i' j) (fun j' hj => ?_) (fun c hc => ?_)
            (fun d' l hl => hnoline d' l _ hl)
          · cases hpc.symm.trans hc
          · exact ⟨rest, rfl⟩
          · cases hc
      | read j hpc => exact absurd hpc (hnowhere _ _ hdraining b i j)
  | line b i rest j capture hdraining htaking hvalue =>
      refine hdrains.moved rfl (fun c hc => ?_) (fun hfail => ?_) (honly b i rest hdraining)
        (fun j' hj => ?_) (fun c hc => ?_) (fun d' l hl => ?_)
      · cases htaking.symm.trans hc
      · cases hdraining.symm.trans hfail
      · cases hj
      · cases hc
        exact Or.inl (List.mem_singleton_self _)
      · cases List.mem_singleton.mp hl
        exact ⟨rfl, capture, rfl, rfl⟩
  | fail b i rest j capture hdraining htaking hvalue =>
      refine hdrains.moved rfl (fun c hc => ?_) (fun hfail => ?_) (honly b i rest hdraining)
        (fun j' hj => ?_) (fun c hc => Or.inr rfl) (fun d' l hl => ?_)
      · cases htaking.symm.trans hc
      · cases hdraining.symm.trans hfail
      · cases hj
      · cases hl

theorem drains_run (hrun : Run (Step call) (State.start P D) h t) : Drains h t := by
  refine hrun.history (I := Drains) .start (fun h t es t' ih hs => ?_)
  rcases step_cases hs with ⟨p, hp⟩ | ⟨d, hd⟩ | ⟨rfl, active, startTick, rfl⟩
  · obtain ⟨hdraining, htaking, hes⟩ := hp.drains
    exact ih.same hdraining htaking hes
  · exact ih.drained hd
  · exact ih.same rfl (fun b => rfl) (fun d l hl => by cases hl)

end Steps

/-! ## The next drain -/

/-- What a drain wrote stays written. -/
theorem drainLoop_written {order : List (Bank × Nat)} {written : List EventLine} {r : Recording}
    {l : EventLine} (h : l ∈ written) :
    l ∈ (drainLoop (fun _ => true) order written r).1 := by
  induction order generalizing written r with
  | nil => exact h
  | cons slot order ih =>
      rw [drainLoop]
      cases htake : (r.events slot.1).take slot.2 with
      | mk capture? store =>
          cases capture? with
          | none => exact ih h
          | some capture =>
              dsimp only
              rw [if_pos rfl]
              exact ih (List.mem_append_left _ h)

/-- A drain that has a ready slot ahead writes its line: the slots it visits
    before are others. -/
theorem drainLoop_ready {order : List (Bank × Nat)} {w : List EventLine} {r : Recording}
    {b : Bank} {i : Index} {capture : Capture} (horder : (b, i.val) ∈ order)
    (hslot : (r.events b).slots i = ⟨.ready, some capture⟩) :
    eventLine b capture ∈ (drainLoop (fun _ => true) order w r).1 := by
  induction order generalizing w r with
  | nil => cases horder
  | cons slot order ih =>
      obtain ⟨c, j⟩ := slot
      rw [drainLoop]
      by_cases hhere : (c, j) = (b, i.val)
      · obtain ⟨rfl, rfl⟩ := Prod.mk.inj hhere
        have htake : ((r.events c).take i.val).1 = some capture := by
          rw [CaptureStore.take, dif_pos i.isLt, if_pos (congrArg Slot.state hslot)]
          exact congrArg Slot.value hslot
        cases hx : (r.events c).take i.val with
        | mk capture? store =>
            rw [hx] at htake
            obtain rfl : capture? = some capture := htake
            dsimp only
            rw [if_pos rfl]
            exact drainLoop_written (List.mem_append_right _ (List.mem_singleton_self _))
      · have hlater : (b, i.val) ∈ order := by
          rcases List.mem_cons.mp horder with heq | hlater
          · exact absurd heq.symm hhere
          · exact hlater
        -- another slot is taken first, if any
        have hkept : ∀ store, ((r.events c).take j).2 = store →
            (Function.update r.events c store b).slots i = ⟨.ready, some capture⟩ := by
          rintro store rfl
          by_cases hc : b = c
          · subst hc
            rw [Function.update_self, CaptureStore.take]
            dsimp only
            split_ifs with hlt hready
            · have hne : i ≠ ⟨j, hlt⟩ := fun heq => hhere (by rw [heq])
              exact ((r.events b).put_slots_of_ne _ hne).trans hslot
            · exact hslot
            · exact hslot
          · rw [Function.update_of_ne hc]
            exact hslot
        cases hx : (r.events c).take j with
        | mk capture? store =>
            rw [hx] at hkept
            cases capture? with
            | none => exact ih hlater hslot
            | some other =>
                dsimp only
                rw [if_pos rfl]
                exact ih hlater (hkept store rfl)

theorem mem_drainOrder {b : Bank} {i : Nat} (h : i < bankLimit) : (b, i) ∈ drainOrder :=
  List.mem_flatMap.mpr
    ⟨b, List.mem_finRange b, List.mem_map.mpr ⟨i, List.mem_range.mpr h, rfl⟩⟩

section Retrieval

variable [DecidableEq P] [DecidableEq D]

/-- The line of an event in a slot. -/
def slotLine (b : Bank) (i : Index) (e : Application.Event) : EventLine :=
  ⟨b.val * bankLimit + i.val, e⟩

/-- The event of a callback gets to the log: a drain has written its line, or
    is about to, or the next drain does. -/
def Retrievable (h : List (Effect P D)) (t : State P D) (p : P) (e : Application.Event) : Prop :=
  ∃ (b : Bank) (i : Index), .reserved p b i ∈ h
    ∧ ((∃ d, .line d (slotLine b i e) ∈ h)
      ∨ (∃ d t', drainStep t d true = some ([.line d (slotLine b i e)], t'))
      ∨ slotLine b i e ∈ (ApplicationProbe.drain (fun _ => true) t.recording).1)

/-- A drain has taken the event of a callback and failed, and its line was
    never written. -/
def Unwritten (h : List (Effect P D)) (t : State P D) (p : P) (e : Application.Event) : Prop :=
  ∃ (b : Bank) (i : Index) (d : D), .reserved p b i ∈ h
    ∧ (t.banks b).taking (d, i.val) = .returned (some ⟨i, e.encode⟩)
    ∧ t.draining d = .returned none ∧ ∀ d', .line d' (slotLine b i e) ∉ h

omit [DecidableEq P] [DecidableEq D] in
theorem captured_of_answer {u : Schedule P (D × Nat)} {p : P}
    (h : (u.producing p).returned? = some true) : ∃ i v, u.producing p = .captured i v := by
  cases hpc : u.producing p with
  | captured i v => exact ⟨i, v, rfl⟩
  | load | exchange | fill | publish | dropped =>
      rw [hpc] at h
      cases h

omit [DecidableEq P] in
/-- The line a drain that is reading writes next. -/
theorem drainStep_reading {d : D} {b : Bank} {i j : Index} {rest : List (Bank × Nat)}
    {capture : Capture} (hdraining : t.draining d = .reading b i.val rest)
    (htaking : (t.banks b).taking (d, i.val) = .read j)
    (hvalue : ((t.banks b).store.slots j).value = some capture) :
    ∃ t', drainStep t d true = some ([.line d (eventLine b capture)], t') := by
  have hconsume : consume Prod.snd (t.banks b) (d, i.val)
      = some ([], (t.banks b).atConsumer (d, i.val) (.returned (some capture))) := by
    rw [consume, htaking, ← hvalue]
  rw [drainStep, hdraining]
  dsimp only
  rw [hconsume]
  dsimp only
  rw [Schedule.atConsumer_self]
  exact ⟨_, if_pos rfl⟩

/-- **What a callback recorded is retrievable**, unless a write failed. -/
theorem retrievable (hrun : Run (Step call) (State.start P D) h t) {p : P} {mode : UInt32}
    (hrecorded : t.calling p = .recorded mode) :
    ∃ e, .sampled p e ∈ h ∧ (Retrievable h t p e ∨ Unwritten h t p e) := by
  have hanswer := (placed_run hrun).answer p mode (by rw [hrecorded]; rfl) true
    (by rw [hrecorded]; rfl)
  generalize bank (call p).kind mode = b at hanswer
  obtain ⟨i, v, hcaptured⟩ := captured_of_answer hanswer
  have hnoted := noted_run hrun
  obtain ⟨e, rfl, hsampled, -, -⟩ := hnoted.bytes p b v (by rw [hcaptured]; rfl)
  have hreserved : .reserved p b i ∈ h := (hnoted.reserved p b i).mpr (by rw [hcaptured]; rfl)
  have hline : eventLine b ⟨i, e.encode⟩ = slotLine b i e := by
    rw [eventLine, decode_encode]
    rfl
  obtain ⟨hb, hbank⟩ := bank_run hrun b
  obtain ⟨board, -, hR⟩ := refines_run hbank
  have hlimit : i.val < bankLimit := target_lt_limit hbank (by rw [hcaptured]; rfl)
  have hproducer := hR.producers p
  rw [hcaptured] at hproducer
  have hslot := hR.cells i
  refine ⟨e, hsampled, ?_⟩
  -- still in the store, or with the drain that took it
  rcases hproducer with hfull | ⟨⟨d, j⟩, htaken⟩
  · rw [hfull] at hslot
    have hnext := drainLoop_ready (w := []) (r := t.recording) (mem_drainOrder hlimit) hslot.1
    rw [hline] at hnext
    exact Or.inl ⟨b, i, hreserved, Or.inr (Or.inr hnext)⟩
  · rw [htaken] at hslot
    obtain ⟨hvalue, -, hindex, htaking⟩ := hslot
    obtain rfl : j = i.val := hindex
    -- that drain is still reading, or has delivered or failed
    rcases htaking with hread | hreturned
    · obtain ⟨rest, hreading⟩ := (drains_run hrun).reading b d i.val i hread
      obtain ⟨t', hnext⟩ := drainStep_reading hreading hread (congrArg Slot.value hvalue)
      rw [hline] at hnext
      exact Or.inl ⟨b, i, hreserved, Or.inr (Or.inl ⟨d, t', hnext⟩)⟩
    · by_cases hwritten : ∃ d', .line d' (slotLine b i e) ∈ h
      · exact Or.inl ⟨b, i, hreserved, Or.inl hwritten⟩
      · have hnever : ∀ d', .line d' (slotLine b i e) ∉ h := not_exists.mp hwritten
        rcases (drains_run hrun).delivered b d i.val _ hreturned with hlog | hfailed
        · rw [hline] at hlog
          exact absurd hlog (hnever d)
        · exact Or.inr ⟨b, i, d, hreserved, hreturned, hfailed, hnever⟩

end Retrieval

end TeamAttack.ProbeSchedule
