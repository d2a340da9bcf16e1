import TeamAttack.CaptureSchedule

/-! # The store captures exactly once

    The laws of a store under every schedule (`capture_exactly_once`), read
    off the board it refines: consecutive claims, one publication and at most
    one take of each, the payload unchanged, and nothing lost between
    publication and take. -/

namespace TeamAttack.CaptureSchedule

open Runs OnceBoard

section Trails

variable {P C : Type}

/-- The call of `try_capture` an event belongs to. -/
def Event.producer? : Event P C → Option P
  | .claim p _ => some p
  | .sample p _ => some p
  | .publish p _ _ => some p
  | .take .. => none

/-- The index an event claims. -/
def Event.claimed? : Event P C → Option Index
  | .claim _ i => some i
  | .sample .. => none
  | .publish .. => none
  | .take .. => none

/-- The capture an event publishes. -/
def Event.published? : Event P C → Option Capture
  | .publish _ i v => some ⟨i, v⟩
  | .claim .. => none
  | .sample .. => none
  | .take .. => none

/-- The capture an event takes. -/
def Event.taken? : Event P C → Option Capture
  | .take _ i v => some ⟨i, v⟩
  | .claim .. => none
  | .sample .. => none
  | .publish .. => none

/-- The captures a store still offers. -/
def CaptureStore.ready (store : CaptureStore) : List Capture :=
  (List.finRange captureCapacity).filterMap fun i =>
    if (store.slots i).state = .ready then (store.slots i).value else none

/-- What one call of `try_capture` did, in order. -/
def callEvents [DecidableEq P] (h : List (Event P C)) (p : P) : List (Event P C) :=
  h.filter (fun e => e.producer? = some p)

/-- What a call has done to stand where it does. -/
def Producing.life (p : P) : Producing → List (Event P C)
  | .load => []
  | .exchange _ => []
  | .fill i => [.claim p i]
  | .publish i v => [.claim p i, .sample p v]
  | .captured i v => [.claim p i, .sample p v, .publish p i v]
  | .dropped => []

variable [DecidableEq P] {limit : P → Nat} {index : C → Nat} {t t' : Schedule P C}
  {h es : List (Event P C)}

/-- A step of another call is no event of this one. -/
theorem callEvents_other {q : P} (hes : ∀ e ∈ es, e.producer? ≠ some q) :
    callEvents (h ++ es) q = callEvents h q := by
  have hnone : es.filter (fun e => e.producer? = some q) = [] :=
    List.filter_eq_nil_iff.mpr fun e he => by
      rw [decide_eq_true_eq]
      exact hes e he
  rw [callEvents, List.filter_append, hnone, List.append_nil, callEvents]

theorem callEvents_self {p : P} {e : Event P C} (he : e.producer? = some p) :
    callEvents (h ++ [e]) p = callEvents h p ++ [e] := by
  rw [callEvents, List.filter_append, List.filter_singleton, decide_eq_true he]
  rfl

/-- A step of `try_capture` extends its call's events as it moves the call. -/
theorem callEvents_produced {p : P} (ih : ∀ q, callEvents h q = (t.producing q).life q)
    (hs : Produced limit t p es t') (q : P) :
    callEvents (h ++ es) q = (t'.producing q).life q := by
  by_cases hq : q = p
  · subst hq
    cases hs with
    | load i hpc hnext hlt =>
        rw [List.append_nil, ih q, hpc, t.atProducer_self]
        rfl
    | drop hpc =>
        rw [List.append_nil, ih q, t.atProducer_self]
        rcases hpc with hpc | ⟨i, hpc⟩ <;> rw [hpc] <;> rfl
    | claim i hpc hnext =>
        rw [callEvents_self rfl, ih q, hpc]
        exact congrArg (Producing.life q) (t.atProducer_self q (.fill i)).symm
    | fill i sample hpc =>
        rw [callEvents_self rfl, ih q, hpc]
        exact congrArg (Producing.life q) (t.atProducer_self q (.publish i sample)).symm
    | publish i bytes hpc =>
        rw [callEvents_self rfl, ih q, hpc]
        exact congrArg (Producing.life q) (t.atProducer_self q (.captured i bytes)).symm
  -- the calls of the others see nothing of the step
  · have hproducing : t'.producing q = t.producing q := by
      cases hs <;> exact t.atProducer_of_ne _ hq
    rw [hproducing, ← ih q]
    refine callEvents_other fun e he heq => hq ?_
    cases hs with
    | load | drop => exact nomatch he
    | claim | fill | publish =>
        rw [List.mem_singleton.mp he] at heq
        exact (Option.some.inj heq).symm

/-- **A call's events are its life so far.** -/
theorem callEvents_run [DecidableEq C]
    (hrun : Run (ScheduleStep limit index) (Schedule.start P C) h t) (p : P) :
    callEvents h p = (t.producing p).life p := by
  refine hrun.history (I := fun h t => ∀ p, callEvents h p = (t.producing p).life p)
    (fun _ => rfl) (fun h t es t' ih hs => ?_) p
  rcases step_cases hs with ⟨p, hp⟩ | ⟨c, hc⟩
  · exact callEvents_produced ih hp
  · intro q
    have hproducing : t'.producing q = t.producing q := by cases hc <;> rfl
    rw [hproducing, ← ih q]
    refine callEvents_other fun e he heq => ?_
    cases hc with
    | miss | read => exact nomatch he
    | take => rw [List.mem_singleton.mp he] at heq; exact nomatch heq

/-- The index a call of `try_capture` has read from `next` and goes for. -/
def Producing.target? : Producing → Option Index
  | .load => none
  | .exchange i => some i
  | .fill i => some i
  | .publish i _ => some i
  | .captured i _ => some i
  | .dropped => none

/-- A call keeps its target, or has just read one below its limit. -/
theorem Produced.target {p : P} {i : Index} (hs : Produced limit t p es t')
    (hi : (t'.producing p).target? = some i) :
    (t.producing p).target? = some i ∨ (i : Nat) < limit p := by
  cases hs with
  -- the only step that chooses a target checks it
  | load j hpc hnext hlt =>
      rw [t.atProducer_self] at hi
      cases hi
      exact Or.inr hlt
  | drop hpc =>
      rw [t.atProducer_self] at hi
      exact nomatch hi
  | claim j hpc hnext =>
      have hnow : (t.atProducer p (.fill j)).producing p = .fill j := t.atProducer_self ..
      rw [hpc, ← hi]
      exact Or.inl (congrArg Producing.target? hnow).symm
  | fill j sample hpc =>
      have hnow : (t.atProducer p (.publish j sample)).producing p = .publish j sample :=
        t.atProducer_self ..
      rw [hpc, ← hi]
      exact Or.inl (congrArg Producing.target? hnow).symm
  | publish j bytes hpc =>
      have hnow : (t.atProducer p (.captured j bytes)).producing p = .captured j bytes :=
        t.atProducer_self ..
      rw [hpc, ← hi]
      exact Or.inl (congrArg Producing.target? hnow).symm

/-- A call goes for an index below its limit. -/
theorem target_lt_limit [DecidableEq C]
    (hrun : Run (ScheduleStep limit index) (Schedule.start P C) h t) {p : P} {i : Index}
    (hi : (t.producing p).target? = some i) : (i : Nat) < limit p := by
  refine hrun.invariant (I := fun t => ∀ (p : P) (i : Index),
    (t.producing p).target? = some i → (i : Nat) < limit p)
    (fun p i hi => nomatch hi) (fun t es t' ih hs q j hj => ?_) p i hi
  rcases step_cases hs with ⟨p, hp⟩ | ⟨c, hc⟩
  · by_cases hq : q = p
    · subst hq
      rcases hp.target hj with hold | hlt
      · exact ih q j hold
      · exact hlt
    · have hproducing : t'.producing q = t.producing q := by
        cases hp <;> exact t.atProducer_of_ne _ hq
      exact ih q j (hproducing ▸ hj)
  · have hproducing : t'.producing q = t.producing q := by cases hc <;> rfl
    exact ih q j (hproducing ▸ hj)

end Trails

/-! ## The history, seen on the board -/

section Translation

variable {P C : Type} {index : C → Nat} {t : Schedule P C} {h : List (Event P C)}
  {b : Board captureCapacity P C Payload}

/-- A published or taken value of the board, as a capture. -/
def toCapture (x : Index × Payload) : Capture := ⟨x.1, x.2⟩

theorem claim_mem_acts {p : P} {i : Index} :
    .claim p i ∈ h.filterMap Event.act? ↔ .claim p i ∈ h := by
  rw [List.mem_filterMap]
  constructor
  · rintro ⟨e, he, hact⟩
    cases e <;> cases hact
    exact he
  · exact fun he => ⟨_, he, rfl⟩

theorem publish_mem_acts {p : P} {i : Index} {v : Payload} :
    .publish p i v ∈ h.filterMap Event.act? ↔ .publish p i v ∈ h := by
  rw [List.mem_filterMap]
  constructor
  · rintro ⟨e, he, hact⟩
    cases e <;> cases hact
    exact he
  · exact fun he => ⟨_, he, rfl⟩

theorem take_mem_acts {c : C} {i : Index} {v : Payload} :
    .take c i v ∈ h.filterMap Event.act? ↔ .take c i v ∈ h := by
  rw [List.mem_filterMap]
  constructor
  · rintro ⟨e, he, hact⟩
    cases e <;> cases hact
    exact he
  · exact fun he => ⟨_, he, rfl⟩

theorem claimed_acts (h : List (Event P C)) :
    (h.filterMap Event.act?).filterMap Act.claimed? = h.filterMap Event.claimed? := by
  rw [List.filterMap_filterMap]
  refine List.filterMap_congr fun e _ => ?_
  cases e <;> rfl

theorem published_acts (h : List (Event P C)) :
    ((h.filterMap Event.act?).filterMap Act.published?).map toCapture
      = h.filterMap Event.published? := by
  rw [List.filterMap_filterMap, List.map_filterMap]
  refine List.filterMap_congr fun e _ => ?_
  cases e <;> rfl

theorem taken_acts (h : List (Event P C)) :
    ((h.filterMap Event.act?).filterMap Act.taken?).map toCapture
      = h.filterMap Event.taken? := by
  rw [List.filterMap_filterMap, List.map_filterMap]
  refine List.filterMap_congr fun e _ => ?_
  cases e <;> rfl

/-- The ready slots of the store are the cells the board offers. -/
theorem Refines.ready_eq (hR : Refines index t b) :
    CaptureStore.ready t.store = (b.select Cell.offered?).map toCapture := by
  rw [CaptureStore.ready, Board.select, List.map_filterMap]
  refine List.filterMap_congr fun i _ => ?_
  have hmatch := hR.cells i
  cases hcell : b.cell i with
  | free =>
      rw [hcell] at hmatch
      rw [show t.store.slots i = Slot.new from hmatch]
      rfl
  | held p =>
      rw [hcell] at hmatch
      rw [hmatch.1]
      rfl
  | full p v =>
      rw [hcell] at hmatch
      rw [hmatch.1]
      rfl
  | taken p v c =>
      rw [hcell] at hmatch
      rw [hmatch.1]
      rfl

end Translation

section Laws

variable {P C : Type} [DecidableEq P] [DecidableEq C] {limit : P → Nat} {index : C → Nat}
  {t : Schedule P C} {h : List (Event P C)}

theorem step_emits_one (t : Schedule P C) (es : List (Event P C)) (t' : Schedule P C)
    (hs : ScheduleStep limit index t es t') : es.length ≤ 1 := by
  rcases step_cases hs with ⟨p, hp⟩ | ⟨c, hc⟩
  · cases hp <;> simp
  · cases hc <;> simp

/-- What a call has published, it has sampled before. -/
theorem sample_of_publish (hrun : Run (ScheduleStep limit index) (Schedule.start P C) h t)
    {p : P} {i : Index} {v : Payload} (hpub : .publish p i v ∈ h) :
    callEvents h p = [.claim p i, .sample p v, .publish p i v] := by
  have hlife := callEvents_run hrun p
  have hmem : .publish p i v ∈ callEvents h p :=
    List.mem_filter.mpr ⟨hpub, decide_eq_true rfl⟩
  rw [hlife] at hmem ⊢
  cases hpc : t.producing p with
  | load | exchange | fill | publish | dropped => rw [hpc] at hmem; simp [Producing.life] at hmem
  | captured j w =>
      rw [hpc] at hmem
      simp only [Producing.life, List.mem_cons, reduceCtorEq, Event.publish.injEq, true_and,
        List.not_mem_nil, or_false, false_or] at hmem
      obtain ⟨rfl, rfl⟩ := hmem
      rfl

/-- What a call has published, it has claimed and sampled. -/
theorem published_sampled (hrun : Run (ScheduleStep limit index) (Schedule.start P C) h t)
    {p : P} {i : Index} {v : Payload} (hpub : .publish p i v ∈ h) :
    .claim p i ∈ h ∧ .sample p v ∈ h := by
  have hsub : ∀ e ∈ callEvents h p, e ∈ h := fun e he => (List.mem_filter.mp he).1
  rw [sample_of_publish hrun hpub] at hsub
  exact ⟨hsub _ (by simp), hsub _ (by simp)⟩

/-- The slots are claimed in order, each once. -/
theorem claims_in_order (hrun : Run (ScheduleStep limit index) (Schedule.start P C) h t) :
    (h.filterMap Event.claimed?).map Fin.val = List.range t.store.next := by
  obtain ⟨b, hboard, hR⟩ := refines_run hrun
  rw [← claimed_acts, (explains_run hboard).claims, hR.next]

theorem next_increases {mv : Move P C} {es : List (Event P C)} {t' : Schedule P C}
    (hmv : advance limit index t mv = some (es, t')) : t.store.next ≤ t'.store.next := by
  rcases step_cases ⟨mv, hmv⟩ with ⟨p, hp⟩ | ⟨c, hc⟩
  · cases hp with
    | claim i hpc hnext => exact Nat.le_of_lt (hnext ▸ Nat.lt_succ_self _)
    | load | drop | fill | publish => exact Nat.le_refl _
  · cases hc <;> exact Nat.le_refl _

/-- A step that shows no event leaves the store. -/
theorem store_of_silent {mv : Move P C} {t' : Schedule P C}
    (hmv : advance limit index t mv = some ([], t')) : t'.store = t.store := by
  rcases step_cases ⟨mv, hmv⟩ with ⟨p, hp⟩ | ⟨c, hc⟩
  · cases hp <;> rfl
  · cases hc <;> rfl

/-- The call that claimed a slot still knows it. -/
theorem target_of_claim (hrun : Run (ScheduleStep limit index) (Schedule.start P C) h t)
    {p : P} {i : Index} (hclaim : .claim p i ∈ h) : (t.producing p).target? = some i := by
  have hmem : Event.claim p i ∈ callEvents h p :=
    List.mem_filter.mpr ⟨hclaim, decide_eq_true rfl⟩
  rw [callEvents_run hrun p] at hmem
  cases hpc : t.producing p with
  | load | exchange | dropped =>
      rw [hpc] at hmem
      exact nomatch hmem
  | fill | publish | captured =>
      rw [hpc] at hmem
      simp [Producing.life] at hmem
      rw [hmem]
      rfl

/-- `next` stays within the limits of the calls and the capacity. -/
theorem next_bounded (hrun : Run (ScheduleStep limit index) (Schedule.start P C) h t) {n : Nat}
    (hn : ∀ p, limit p ≤ n) : t.store.next ≤ min n captureCapacity := by
  rcases Nat.eq_zero_or_pos t.store.next with h0 | hpos
  · rw [h0]
    exact Nat.zero_le _
  -- the last claim was made below its limit
  have hlast : t.store.next - 1 ∈ (h.filterMap Event.claimed?).map Fin.val := by
    rw [claims_in_order hrun, List.mem_range]
    omega
  obtain ⟨i, hi, hval⟩ := List.mem_map.mp hlast
  obtain ⟨e, he, hclaimed⟩ := List.mem_filterMap.mp hi
  cases e with
  | sample | publish | take => exact nomatch hclaimed
  | claim p j =>
      obtain rfl := Option.some.inj hclaimed
      have hlt := target_lt_limit hrun (target_of_claim hrun he)
      have hlimit := hn p
      have hcapacity := j.isLt
      omega

/-- A slot is taken after it was published, as it was published, and once. -/
theorem take_once (hrun : Run (ScheduleStep limit index) (Schedule.start P C) h t)
    {pre post : List (Event P C)} {c : C} {i : Index} {v : Payload}
    (heq : h = pre ++ .take c i v :: post) : index c = i
      ∧ (∃ p, .claim p i ∈ pre ∧ .sample p v ∈ pre ∧ .publish p i v ∈ pre)
      ∧ ∀ d w, .take d i w ∉ pre ∧ .take d i w ∉ post := by
  obtain ⟨b, hboard, hR⟩ := refines_run hrun
  have hexp := explains_run hboard
  obtain ⟨u, u', hpre, -, -⟩ := hrun.split_event step_emits_one heq
  have hacts : h.filterMap Event.act?
      = pre.filterMap Event.act? ++ .take c i v :: post.filterMap Event.act? := by
    rw [heq, List.filterMap_append, List.filterMap_cons]
    rfl
  obtain ⟨⟨p, hp⟩, hpost⟩ := hexp.trail_before_take hacts
  -- the trail of the slot before its `take` has the publication
  have hpub : .publish p i v ∈ pre := by
    have hact : Act.publish p i v ∈ trail (pre.filterMap Event.act?) i := by
      rw [hp]
      simp
    exact publish_mem_acts.mp (mem_trail.mp hact).1
  obtain ⟨hclaim, hsample⟩ := published_sampled hpre hpub
  refine ⟨?_, ⟨p, hclaim, hsample, hpub⟩, fun d w => ⟨?_, ?_⟩⟩
  · have hmem : .take c i v ∈ h := by
      rw [heq]
      simp
    obtain ⟨q, hq⟩ := hexp.mem_take.mp (take_mem_acts.mpr hmem)
    have hmatch := hR.cells i
    rw [hq] at hmatch
    exact hmatch.2.2.1
  · intro hd
    have hact : Act.take d i w ∈ trail (pre.filterMap Event.act?) i :=
      mem_trail.mpr ⟨take_mem_acts.mpr hd, rfl⟩
    rw [hp] at hact
    simp at hact
  · intro hd
    have hact : Act.take d i w ∈ trail (post.filterMap Event.act?) i :=
      mem_trail.mpr ⟨take_mem_acts.mpr hd, rfl⟩
    -- and after it the trail is empty
    rw [hpost] at hact
    exact nomatch hact

/-- What `take` returned was published into the slot it was asked for. -/
theorem returned_some (hrun : Run (ScheduleStep limit index) (Schedule.start P C) h t) {c : C}
    {capture : Capture} (hpc : t.taking c = .returned (some capture)) : ∃ p, ∃ i : Index, ∃ v,
      capture = ⟨i, v⟩ ∧ index c = i ∧ .take c i v ∈ h ∧ .claim p i ∈ h ∧ .sample p v ∈ h := by
  obtain ⟨b, hboard, hR⟩ := refines_run hrun
  have hexp := explains_run hboard
  have hreturned := hR.consumers c
  rw [hpc] at hreturned
  obtain ⟨i, p, v, hcap, hcell⟩ := hreturned
  have hmatch := hR.cells i
  rw [hcell] at hmatch
  have hpub : .publish p i v ∈ h :=
    publish_mem_acts.mp (hexp.mem_publish.mpr (Or.inr ⟨c, hcell⟩))
  obtain ⟨hclaim, hsample⟩ := published_sampled hrun hpub
  exact ⟨p, i, v, hcap, hmatch.2.2.1, take_mem_acts.mp (hexp.mem_take.mpr ⟨p, hcell⟩),
    hclaim, hsample⟩

theorem returned_none (hrun : Run (ScheduleStep limit index) (Schedule.start P C) h t) {c : C}
    (hpc : t.taking c = .returned none) (i : Index) (v : Payload) : .take c i v ∉ h := by
  obtain ⟨b, hboard, hR⟩ := refines_run hrun
  intro htake
  obtain ⟨p, hcell⟩ := (explains_run hboard).mem_take.mp (take_mem_acts.mpr htake)
  have hmatch := hR.cells i
  rw [hcell] at hmatch
  obtain ⟨-, -, -, hread | hret⟩ := hmatch
  · exact nomatch hpc.symm.trans hread
  · exact nomatch hpc.symm.trans hret

/-- When no call is in progress, every claimed slot is published, and what was
    published has been taken or is ready. -/
theorem settled_perm (hrun : Run (ScheduleStep limit index) (Schedule.start P C) h t)
    (hdone : ∀ p, t.producing p = .load ∨ (t.producing p).returned? ≠ none) :
    (h.filterMap Event.taken? ++ CaptureStore.ready t.store).Perm (h.filterMap Event.published?)
    ∧ ((h.filterMap Event.published?).map Capture.sequence).Perm (List.range t.store.next) := by
  obtain ⟨b, hboard, hR⟩ := refines_run hrun
  have hexp := explains_run hboard
  have hdelivery := (delivery_run hboard).map toCapture
  rw [List.map_append, taken_acts, published_acts, ← hR.ready_eq] at hdelivery
  refine ⟨hdelivery, ?_⟩
  -- no cell is held, as its holder would be in progress
  have hnone : b.select Cell.held? = [] := by
    refine List.filterMap_eq_nil_iff.mpr fun i _ => ?_
    cases hcell : b.cell i with
    | free | full | taken => rfl
    | held p =>
        have hmatch := hR.cells i
        rw [hcell] at hmatch
        rcases hdone p with hpc | hpc
        · obtain ⟨-, hfill | ⟨v, hv, -⟩⟩ := hmatch
          · exact nomatch hpc.symm.trans hfill
          · exact nomatch hpc.symm.trans hv
        · obtain ⟨-, hfill | ⟨v, hv, -⟩⟩ := hmatch
          · rw [hfill] at hpc
            exact absurd rfl hpc
          · rw [hv] at hpc
            exact absurd rfl hpc
  have hprogress := progress_run hboard
  rw [hnone, List.append_nil] at hprogress
  have hvals := hprogress.map Fin.val
  rw [hexp.claims, ← hR.next] at hvals
  have hsequence : (h.filterMap Event.published?).map Capture.sequence
      = (((h.filterMap Event.act?).filterMap Act.published?).map Prod.fst).map Fin.val := by
    rw [← published_acts, List.map_map, List.map_map]
    rfl
  rw [hsequence]
  exact hvals

/-- The laws of a store after the history `h`. -/
structure ExactlyOnce (limit : P → Nat) (index : C → Nat) (h : List (Event P C))
    (t : Schedule P C) : Prop where
  claims : (h.filterMap Event.claimed?).map Fin.val = List.range t.store.next
  claim_unique : ∀ p q i, .claim p i ∈ h → .claim q i ∈ h → p = q
  increasing : ∀ mv es t', advance limit index t mv = some (es, t') →
    t.store.next ≤ t'.store.next
  bounded : ∀ n, (∀ p, limit p ≤ n) → t.store.next ≤ min n captureCapacity
  takes : ∀ pre c (i : Index) v post, h = pre ++ .take c i v :: post → index c = i
    ∧ (∃ p, .claim p i ∈ pre ∧ .sample p v ∈ pre ∧ .publish p i v ∈ pre)
    ∧ ∀ d w, .take d i w ∉ pre ∧ .take d i w ∉ post
  taken : ∀ c capture, t.taking c = .returned (some capture) → ∃ p, ∃ i : Index, ∃ v,
    capture = ⟨i, v⟩ ∧ index c = i ∧ .take c i v ∈ h ∧ .claim p i ∈ h ∧ .sample p v ∈ h
  missed : ∀ c, t.taking c = .returned none → ∀ i v, .take c i v ∉ h
  captured : ∀ p, (t.producing p).returned? = some true ↔
    ∃ i v, callEvents h p = [.claim p i, .sample p v, .publish p i v]
  dropped : ∀ p, (t.producing p).returned? = some false → callEvents h p = []
  silent : ∀ mv t', advance limit index t mv = some ([], t') → t'.store = t.store
  settled : (∀ p, t.producing p = .load ∨ (t.producing p).returned? ≠ none) →
    (h.filterMap Event.taken? ++ CaptureStore.ready t.store).Perm (h.filterMap Event.published?)
    ∧ ((h.filterMap Event.published?).map Capture.sequence).Perm (List.range t.store.next)

/-- **A store captures exactly once under every schedule.** -/
theorem capture_exactly_once {P C : Type} [DecidableEq P] [DecidableEq C] (limit : P → Nat)
    (index : C → Nat) (h : List (Event P C)) (t : Schedule P C)
    (hrun : Run (ScheduleStep limit index) (Schedule.start P C) h t) :
    ExactlyOnce limit index h t where
  claims := claims_in_order hrun
  claim_unique := by
    intro p q i hp hq
    obtain ⟨b, hboard, -⟩ := refines_run hrun
    exact (explains_run hboard).claim_unique (claim_mem_acts.mpr hp) (claim_mem_acts.mpr hq)
  increasing := fun _ _ _ hmv => next_increases hmv
  bounded := fun _ hn => next_bounded hrun hn
  takes := fun _ _ _ _ _ heq => take_once hrun heq
  taken := fun _ _ hpc => returned_some hrun hpc
  missed := fun _ hpc => returned_none hrun hpc
  captured := by
    intro p
    rw [callEvents_run hrun p]
    cases t.producing p <;> simp [Producing.returned?, Producing.life]
  dropped := by
    intro p hp
    rw [callEvents_run hrun p]
    cases hpc : t.producing p with
    | dropped => rfl
    | load | exchange | fill | publish | captured =>
        rw [hpc] at hp
        exact nomatch hp
  silent := fun _ _ hmv => store_of_silent hmv
  settled := settled_perm hrun

/-- Two calls load the same index and one of them claims it; a third captures
    its payload while the first is still filling, and the consumers of both
    slots look before the first has published. -/
def threeCalls : List (Move (Fin 3) (Fin 2)) :=
  let call (p : Fin 3) (byte : UInt8) := .produce p false (Vector.replicate _ byte)
  [call 0 0, call 1 0, call 0 0, call 1 0, call 2 0, call 2 0, call 0 9, call 2 7, call 2 0,
    .consume 0, .consume 1, call 0 0, .consume 1]

theorem capture_exactly_once_three_calls :
    ∃ h t, Run (ScheduleStep (fun _ => 64) Fin.val) (Schedule.start (Fin 3) (Fin 2)) h t
      ∧ (h.filterMap Event.claimed?).map Fin.val = [0, 1]
      ∧ (∀ p, (t.producing p).returned? = some (p != 1)) ∧ t.taking 0 = .returned none
      ∧ (h.filterMap Event.taken?).map Capture.bytes = [Vector.replicate _ 7]
      ∧ ExactlyOnce (fun _ => 64) Fin.val h t := by
  have hexec : (exec (advance (fun _ => 64) Fin.val) (Schedule.start (Fin 3) (Fin 2))
      threeCalls).any (fun x => decide ((x.1.filterMap Event.claimed?).map Fin.val = [0, 1]
        ∧ (∀ p, (x.2.producing p).returned? = some (p != 1)) ∧ x.2.taking 0 = .returned none
        ∧ (x.1.filterMap Event.taken?).map Capture.bytes = [Vector.replicate _ 7])) = true := by
    decide +kernel
  obtain ⟨⟨h, t⟩, heq, hx⟩ := (Option.any_eq_true ..).mp hexec
  obtain ⟨hclaims, hreturned, hmissed, htaken⟩ := of_decide_eq_true hx
  have hrun := run_of_exec heq
  exact ⟨h, t, hrun, hclaims, hreturned, hmissed, htaken, capture_exactly_once _ _ h t hrun⟩

end Laws

end TeamAttack.CaptureSchedule
