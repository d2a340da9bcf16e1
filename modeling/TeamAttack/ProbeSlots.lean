import TeamAttack.ProbeSchedule
import TeamAttack.RecordedEvents

/-! # Where a callback keeps its event

    Each bank is a store under a schedule of its own (`bank_run`), so the laws
    of the store hold of it.  A callback works in one bank only, the one its
    kind and the mode it read select, and the slot it fills there holds the
    event its closure built. -/

namespace TeamAttack.ProbeSchedule

open Runs CaptureSchedule ApplicationProbe
open Application (siteCount bankLimit)

variable {P D : Type} {call : P → Call} {t t' : State P D} {es h : List (Effect P D)}

@[simp] theorem atBank_self (t : State P D) (b : Bank) (schedule : Schedule P (D × Nat)) :
    (t.atBank b schedule).banks b = schedule := Function.update_self ..

theorem atBank_of_ne (t : State P D) {b c : Bank} (schedule : Schedule P (D × Nat))
    (h : c ≠ b) : (t.atBank b schedule).banks c = t.banks c := Function.update_of_ne h ..

@[simp] theorem atCall_self [DecidableEq P] (t : State P D) (p : P) (calling : Calling) :
    (t.atCall p calling).calling p = calling := Function.update_self ..

theorem atCall_of_ne [DecidableEq P] (t : State P D) {p q : P} (calling : Calling) (h : q ≠ p) :
    (t.atCall p calling).calling q = t.calling q := Function.update_of_ne h ..

/-- A step of `try_capture` moves its own call only. -/
theorem produced_other [DecidableEq P] {limit : P → Nat} {u u' : Schedule P (D × Nat)} {p q : P}
    {fs : List (CaptureSchedule.Event P (D × Nat))} (hs : Produced limit u p fs u')
    (hq : q ≠ p) : u'.producing q = u.producing q := by
  cases hs <;> exact u.atProducer_of_ne _ hq

/-- A step of `take` moves no call of `try_capture` and reserves nothing. -/
theorem consumed_frame [DecidableEq D] {index : D × Nat → Nat} {u u' : Schedule P (D × Nat)}
    {c : D × Nat} {fs : List (CaptureSchedule.Event P (D × Nat))} (hs : Consumed index u c fs u') :
    u'.producing = u.producing ∧ u'.store.next = u.store.next := by
  cases hs <;> exact ⟨rfl, rfl⟩

/-- A step of a callback leaves the other callbacks alone. -/
theorem Called.frame [DecidableEq P] {p q : P} (hp : Called call t p es t') (hq : q ≠ p) :
    t'.calling q = t.calling q ∧ ∀ b, (t'.banks b).producing q = (t.banks b).producing q := by
  cases hp with
  | pass | enter | count | choose | record | lose => exact ⟨atCall_of_ne _ _ hq, fun b => rfl⟩
  | produce b mode action spurious e fs schedule hcalling hb hkind hmode hproduce =>
      refine ⟨rfl, fun c => ?_⟩
      by_cases hc : c = b
      · subst hc
        rw [atBank_self]
        exact produced_other (produced_of_produce hproduce) hq
      · rw [atBank_of_ne t schedule hc]

/-- A drain leaves the callbacks and their counts alone. -/
theorem Drained.frame [DecidableEq D] {d : D} (hd : Drained t d es t') :
    t'.calling = t.calling ∧ t'.calls = t.calls ∧ t'.dropped = t.dropped
      ∧ ∀ b, (t'.banks b).producing = (t.banks b).producing
        ∧ (t'.banks b).store.next = (t.banks b).store.next := by
  have hother : ∀ (b : Bank) (schedule : Schedule P (D × Nat)),
      schedule.producing = (t.banks b).producing ∧ schedule.store.next = (t.banks b).store.next →
      ∀ c, ((t.atBank b schedule).banks c).producing = (t.banks c).producing
        ∧ ((t.atBank b schedule).banks c).store.next = (t.banks c).store.next := by
    intro b schedule hsame c
    by_cases hc : c = b
    · subst hc
      rw [atBank_self]
      exact hsame
    · rw [atBank_of_ne t schedule hc]
      exact ⟨rfl, rfl⟩
  cases hd with
  | finish => exact ⟨rfl, rfl, rfl, fun b => ⟨rfl, rfl⟩⟩
  | visit b i rest dirty fs schedule hdraining hconsume =>
      exact ⟨rfl, rfl, rfl, hother b schedule (consumed_frame (consumed_of_consume hconsume))⟩
  | line b i rest j capture | fail b i rest j capture =>
      exact ⟨rfl, rfl, rfl, hother b _ ⟨rfl, rfl⟩⟩

/-! ## Each bank is a store under a schedule -/

section Banks

variable [DecidableEq P] [DecidableEq D]

theorem bank_step (hs : Step call t es t') (b : Bank) :
    t'.banks b = t.banks b
      ∨ ∃ fs, ScheduleStep (fun _ => bankLimit) Prod.snd (t.banks b) fs (t'.banks b) := by
  rcases step_cases hs with ⟨p, hp⟩ | ⟨d, hd⟩ | ⟨-, active, startTick, rfl⟩
  · cases hp with
    | pass | enter | count | choose | record | lose => exact Or.inl rfl
    | produce c mode action spurious e fs schedule hcalling hc hkind hmode hproduce =>
        by_cases hb : b = c
        · subst hb
          rw [atBank_self]
          exact Or.inr ⟨fs, .produce p spurious e.encode, hproduce⟩
        · exact Or.inl (atBank_of_ne t schedule hb)
  · cases hd with
    | finish => exact Or.inl rfl
    | visit c i rest dirty fs schedule hdraining hconsume =>
        by_cases hb : b = c
        · subst hb
          refine Or.inr ⟨fs, .consume (d, i), ?_⟩
          show consume Prod.snd (t.banks b) (d, i) = some (fs, (t.atBank b schedule).banks b)
          rw [atBank_self]
          exact hconsume
        · exact Or.inl (atBank_of_ne t schedule hb)
    | line c i rest j capture hdraining htaking hvalue
    | fail c i rest j capture hdraining htaking hvalue =>
        by_cases hb : b = c
        · subst hb
          refine Or.inr ⟨[], .consume (d, i), ?_⟩
          show consume Prod.snd (t.banks b) (d, i) = some ([], (t.atBank b _).banks b)
          rw [atBank_self, consume, htaking, ← hvalue]
        · exact Or.inl (atBank_of_ne t _ hb)
  · exact Or.inl rfl

/-- **The steps on one bank are a run of its store.** -/
theorem bank_run (hrun : Run (Step call) (State.start P D) h t) (b : Bank) :
    ∃ hb, Run (ScheduleStep (fun _ => bankLimit) Prod.snd) (Schedule.start P (D × Nat)) hb
      (t.banks b) := by
  refine hrun.invariant (I := fun t => ∃ hb, Run (ScheduleStep (fun _ => bankLimit) Prod.snd)
    (Schedule.start P (D × Nat)) hb (t.banks b)) ⟨[], .refl _⟩ (fun t es t' ih hs => ?_)
  obtain ⟨hb, hrunb⟩ := ih
  rcases bank_step hs b with hsame | ⟨fs, hstep⟩
  · rw [hsame]
    exact ⟨hb, hrunb⟩
  · exact ⟨hb ++ fs, hrunb.tail hstep⟩

end Banks

/-! ## The bank of a callback -/

/-- The mode a callback read, once it has chosen its bank. -/
def Calling.mode? : Calling → Option UInt32
  | .capturing mode _ => some mode
  | .recorded mode => some mode
  | .lost mode => some mode
  | .idle => none
  | .passed => none
  | .entered _ => none
  | .counted _ => none

/-- What `try_capture` answered a callback. -/
def Calling.answer? : Calling → Option Bool
  | .recorded _ => some true
  | .lost _ => some false
  | .capturing .. => none
  | .idle => none
  | .passed => none
  | .entered _ => none
  | .counted _ => none

/-- A callback works in the bank of its mode only, and has left it with the
    answer `try_capture` gave. -/
structure Placed (call : P → Call) (t : State P D) : Prop where
  home : ∀ p b, (t.banks b).producing p ≠ .load →
    ∃ mode, (t.calling p).mode? = some mode ∧ b = bank (call p).kind mode
  answer : ∀ p mode, (t.calling p).mode? = some mode → ∀ ok, (t.calling p).answer? = some ok →
    ((t.banks (bank (call p).kind mode)).producing p).returned? = some ok

theorem Placed.start : Placed call (State.start P D) where
  home := fun _ _ h => absurd rfl h
  answer := fun _ _ h => by cases h

section Places

variable [DecidableEq P]

/-- A step of a callback outside `try_capture`. -/
theorem Placed.moved (hplaced : Placed call t) {p : P} {calling : Calling} {u : State P D}
    (hcalling : u.calling = t.calling) (hbanks : u.banks = t.banks)
    (hmode : ∀ mode, (t.calling p).mode? = some mode → calling.mode? = some mode)
    (hanswer : ∀ mode, calling.mode? = some mode → ∀ ok, calling.answer? = some ok →
      ((t.banks (bank (call p).kind mode)).producing p).returned? = some ok) :
    Placed call (u.atCall p calling) := by
  constructor
  · intro q b hq
    have hq' : (t.banks b).producing q ≠ .load := hbanks ▸ hq
    obtain ⟨mode, hcall, hb⟩ := hplaced.home q b hq'
    by_cases heq : q = p
    · subst heq
      rw [atCall_self]
      exact ⟨mode, hmode mode hcall, hb⟩
    · rw [atCall_of_ne _ _ heq, hcalling]
      exact ⟨mode, hcall, hb⟩
  · intro q mode hq ok hok
    show ((u.banks _).producing q).returned? = some ok
    rw [hbanks]
    by_cases heq : q = p
    · subst heq
      rw [atCall_self] at hq hok
      exact hanswer mode hq ok hok
    · rw [atCall_of_ne _ _ heq, hcalling] at hq hok
      exact hplaced.answer q mode hq ok hok

theorem Placed.called (hplaced : Placed call t) {p : P} (hp : Called call t p es t') :
    Placed call t' := by
  have hcalled := hp
  cases hp with
  | pass hcalling | enter mutate hcalling | choose mode action hcalling =>
      refine hplaced.moved rfl rfl (fun mode h => ?_) (fun mode h ok hok => ?_)
      · rw [hcalling] at h
        cases h
      · cases hok
  | count mutate action hcalling =>
      refine hplaced.moved (u := t.count (call p).kind) rfl rfl (fun mode h => ?_)
        (fun mode h ok hok => ?_)
      · rw [hcalling] at h
        cases h
      · cases hok
  | record mode action hcalling hreturned =>
      refine hplaced.moved rfl rfl (fun mode' h => ?_) (fun mode' h ok hok => ?_)
      · rw [hcalling] at h
        exact h
      · cases h
        cases hok
        exact hreturned
  | lose mode action hcalling hreturned =>
      refine hplaced.moved (u := t.drop) rfl rfl (fun mode' h => ?_) (fun mode' h ok hok => ?_)
      · rw [hcalling] at h
        exact h
      · cases h
        cases hok
        exact hreturned
  | produce b mode action spurious e fs schedule hcalling hb hkind hmode hproduce =>
      have hproduced := produced_of_produce hproduce
      constructor
      -- another callback keeps its place
      · intro q c hq
        by_cases heq : q = p
        · subst heq
          by_cases hc : c = b
          · subst hc
            exact ⟨mode, congrArg Calling.mode? hcalling, hb⟩
          · rw [atBank_of_ne t schedule hc] at hq
            exact hplaced.home q c hq
        · have hframe := hcalled.frame heq
          rw [hframe.2 c] at hq
          exact hplaced.home q c hq
      · intro q mode' hq ok hok
        have hne : q ≠ p := by
          rintro rfl
          have hnone : (t.calling q).answer? = some ok := hok
          rw [hcalling] at hnone
          cases hnone
        have hframe := hcalled.frame hne
        rw [hframe.2]
        exact hplaced.answer q mode' hq ok hok

theorem placed_run [DecidableEq D] (hrun : Run (Step call) (State.start P D) h t) :
    Placed call t := by
  refine hrun.invariant (I := Placed call) .start (fun t es t' ih hs => ?_)
  rcases step_cases hs with ⟨p, hp⟩ | ⟨d, hd⟩ | ⟨-, active, startTick, rfl⟩
  · exact ih.called hp
  · obtain ⟨hcalling, -, -, hbanks⟩ := hd.frame
    refine ⟨fun p b hp => ?_, fun p mode hmode ok hok => ?_⟩
    · rw [(hbanks b).1] at hp
      rw [hcalling]
      exact ih.home p b hp
    · rw [hcalling] at hmode hok
      rw [(hbanks _).1]
      exact ih.answer p mode hmode ok hok
  · exact ⟨ih.home, ih.answer⟩

end Places

/-! ## What a callback put in its slot -/

/-- The bytes a call of `try_capture` wrote. -/
def sampled? : Producing → Option Payload
  | .publish _ v => some v
  | .captured _ v => some v
  | .load => none
  | .exchange _ => none
  | .fill _ => none
  | .dropped => none

/-- What a step of `try_capture` does to its own call: nothing to show, a slot
    reserved, or an event written. -/
theorem produce_own [DecidableEq P] {limit : P → Nat} {u u' : Schedule P (D × Nat)} {p : P}
    {spurious : Bool} {e : Application.Event} {fs : List (CaptureSchedule.Event P (D × Nat))}
    (b : Bank) (h : produce limit u p spurious e.encode = some (fs, u')) :
    (fs.filterMap (shown b e) = [] ∧ u'.store.next = u.store.next
      ∧ (u'.producing p).cell? = (u.producing p).cell?
      ∧ sampled? (u'.producing p) = sampled? (u.producing p))
    ∨ (∃ i, fs.filterMap (shown b e) = [.reserved p b i] ∧ u'.store.next = u.store.next + 1
      ∧ (u.producing p).cell? = none ∧ (u'.producing p).cell? = some i
      ∧ sampled? (u'.producing p) = sampled? (u.producing p))
    ∨ (fs.filterMap (shown b e) = [.sampled p e] ∧ u'.store.next = u.store.next
      ∧ (u'.producing p).cell? = (u.producing p).cell?
      ∧ sampled? (u.producing p) = none ∧ sampled? (u'.producing p) = some e.encode) := by
  have hnow : ∀ pc, (u.atProducer p pc).producing p = pc := u.atProducer_self p
  generalize e.encode = bytes at h ⊢
  cases produced_of_produce h with
  | load i hpc hnext hlt =>
      rw [hnow, hpc]
      exact Or.inl ⟨rfl, rfl, rfl, rfl⟩
  | drop hpc =>
      rw [hnow]
      rcases hpc with hpc | ⟨i, hpc⟩
      · rw [hpc]
        exact Or.inl ⟨rfl, rfl, rfl, rfl⟩
      · rw [hpc]
        exact Or.inl ⟨rfl, rfl, rfl, rfl⟩
  | claim i hpc hnext =>
      refine Or.inr (Or.inl ⟨i, rfl, ?_, ?_, ?_, ?_⟩)
      · exact congrArg (· + 1) hnext.symm
      · rw [hpc]
        rfl
      · exact congrArg Producing.cell? (hnow (.fill i))
      · rw [hpc]
        exact (congrArg sampled? (hnow (.fill i))).trans rfl
  | fill i sample hpc =>
      -- the bytes written are those of the step's own sample
      rw [produce, hpc] at h
      cases h
      refine Or.inr (Or.inr ⟨rfl, rfl, ?_, ?_, ?_⟩)
      · rw [hpc]
        exact (congrArg Producing.cell? (hnow (.publish i bytes))).trans rfl
      · rw [hpc]
        rfl
      · exact congrArg sampled? (hnow (.publish i bytes))
  | publish i sample hpc =>
      refine Or.inl ⟨rfl, rfl, ?_, ?_⟩
      · rw [hpc]
        exact (congrArg Producing.cell? (hnow (.captured i sample))).trans rfl
      · rw [hpc]
        exact (congrArg sampled? (hnow (.captured i sample))).trans rfl

/-- The history and the slots agree: a callback reserved the slot it is at,
    and the bytes there are those of the event its closure built. -/
structure Noted (call : P → Call) (h : List (Effect P D)) (t : State P D) : Prop where
  reserved : ∀ p b i, .reserved p b i ∈ h ↔ ((t.banks b).producing p).cell? = some i
  sampled : ∀ p e, .sampled p e ∈ h → ∃ b, sampled? ((t.banks b).producing p) = some e.encode
  bytes : ∀ p b v, sampled? ((t.banks b).producing p) = some v →
    ∃ e : Application.Event, v = e.encode ∧ .sampled p e ∈ h
      ∧ e.kind = UInt8.ofNat (call p).kind.val ∧ b = bank (call p).kind e.mode

theorem Noted.start : Noted call [] (State.start P D) where
  reserved := fun _ _ _ => ⟨fun h => (nomatch h), fun h => (nomatch h)⟩
  sampled := fun _ _ h => (nomatch h)
  bytes := fun _ _ _ h => (nomatch h)

/-- The effects that concern no slot. -/
def Effect.Plain : Effect P D → Prop
  | .called _ => True
  | .dropped _ => True
  | .line .. => True
  | .reserved .. => False
  | .sampled .. => False

theorem Noted.same (hnoted : Noted call h t)
    (hcell : ∀ b p, ((t'.banks b).producing p).cell? = ((t.banks b).producing p).cell?)
    (hsampled : ∀ b p, sampled? ((t'.banks b).producing p) = sampled? ((t.banks b).producing p))
    (hes : ∀ x ∈ es, x.Plain) : Noted call (h ++ es) t' where
  reserved := fun p b i => by
    rw [hcell, ← hnoted.reserved p b i, List.mem_append]
    exact ⟨fun hx => hx.resolve_right fun hx => hes _ hx, Or.inl⟩
  sampled := fun p e he => by
    obtain ⟨b, hb⟩ := hnoted.sampled p e
      ((List.mem_append.mp he).resolve_right fun hx => hes _ hx)
    exact ⟨b, by rw [hsampled]; exact hb⟩
  bytes := fun p b v hv => by
    rw [hsampled] at hv
    obtain ⟨e, hve, he, hrest⟩ := hnoted.bytes p b v hv
    exact ⟨e, hve, List.mem_append_left es he, hrest⟩

/-- A step inside `try_capture` shows the slot it takes and what it writes. -/
theorem Noted.produced [DecidableEq P] (hnoted : Noted call h t) {p : P} {b : Bank}
    {spurious : Bool} {e : Application.Event} {fs : List (CaptureSchedule.Event P (D × Nat))}
    {schedule : Schedule P (D × Nat)} (hkind : e.kind = UInt8.ofNat (call p).kind.val)
    (hb : b = bank (call p).kind e.mode)
    (hproduce : produce (fun _ => bankLimit) (t.banks b) p spurious e.encode
      = some (fs, schedule)) :
    Noted call (h ++ fs.filterMap (shown b e)) (t.atBank b schedule) := by
  have hsame : ∀ c q, ¬(c = b ∧ q = p) →
      ((t.atBank b schedule).banks c).producing q = (t.banks c).producing q := by
    intro c q hne
    by_cases hc : c = b
    · subst hc
      rw [atBank_self]
      exact produced_other (produced_of_produce hproduce) fun hq => hne ⟨rfl, hq⟩
    · rw [atBank_of_ne t schedule hc]
  -- what is the same of `p` at its bank is the same everywhere
  have hall : ∀ {α : Type} (f : Producing → α),
      f (schedule.producing p) = f ((t.banks b).producing p) →
      ∀ c q, f (((t.atBank b schedule).banks c).producing q) = f ((t.banks c).producing q) := by
    intro α f hf c q
    by_cases hcq : c = b ∧ q = p
    · obtain ⟨rfl, rfl⟩ := hcq
      rw [atBank_self]
      exact hf
    · rw [hsame c q hcq]
  rcases produce_own b hproduce with ⟨hshown, -, hcell, hsampled⟩
    | ⟨i, hshown, -, hbefore, hafter, hsampled⟩ | ⟨hshown, -, hcell, hbefore, hafter⟩
  · rw [hshown]
    exact hnoted.same (hall _ hcell) (hall _ hsampled) (fun x hx => (nomatch hx))
  · rw [hshown]
    refine ⟨fun q c j => ?_, fun q f hf => ?_, fun q c v hv => ?_⟩
    · rw [List.mem_append, List.mem_singleton, hnoted.reserved q c j]
      by_cases hcq : c = b ∧ q = p
      · obtain ⟨rfl, rfl⟩ := hcq
        rw [atBank_self, hbefore, hafter]
        constructor
        · rintro (h | h)
          · cases h
          · cases h
            rfl
        · rintro h
          cases h
          exact Or.inr rfl
      · rw [hsame c q hcq]
        refine ⟨fun h => h.resolve_right fun h => ?_, Or.inl⟩
        cases h
        exact hcq ⟨rfl, rfl⟩
    · have hf' := (List.mem_append.mp hf).resolve_right fun h => by
        cases List.mem_singleton.mp h
      obtain ⟨c, hc⟩ := hnoted.sampled q f hf'
      exact ⟨c, by rw [hall sampled? hsampled]; exact hc⟩
    · rw [hall sampled? hsampled] at hv
      obtain ⟨f, hvf, hf, hrest⟩ := hnoted.bytes q c v hv
      exact ⟨f, hvf, List.mem_append_left _ hf, hrest⟩
  · rw [hshown]
    refine ⟨fun q c j => ?_, fun q f hf => ?_, fun q c v hv => ?_⟩
    · rw [hall Producing.cell? hcell, ← hnoted.reserved q c j, List.mem_append]
      refine ⟨fun h => h.resolve_right fun h => ?_, Or.inl⟩
      cases List.mem_singleton.mp h
    · rcases List.mem_append.mp hf with hold | hnew
      · obtain ⟨c, hc⟩ := hnoted.sampled q f hold
        refine ⟨c, ?_⟩
        rw [hsame c q]
        · exact hc
        · rintro ⟨rfl, rfl⟩
          rw [hbefore] at hc
          cases hc
      · cases List.mem_singleton.mp hnew
        exact ⟨b, by rw [atBank_self]; exact hafter⟩
    · by_cases hcq : c = b ∧ q = p
      · obtain ⟨rfl, rfl⟩ := hcq
        rw [atBank_self, hafter] at hv
        obtain rfl := Option.some.inj hv
        exact ⟨e, rfl, List.mem_append_right _ (List.mem_singleton_self _), hkind, hb⟩
      · rw [hsame c q hcq] at hv
        obtain ⟨f, hvf, hf, hrest⟩ := hnoted.bytes q c v hv
        exact ⟨f, hvf, List.mem_append_left _ hf, hrest⟩

section NotedRun

variable [DecidableEq P] [DecidableEq D]

theorem noted_run (hrun : Run (Step call) (State.start P D) h t) : Noted call h t := by
  refine hrun.history (I := Noted call) .start (fun h t es t' ih hs => ?_)
  have hplain : ∀ {x : Effect P D}, x.Plain → ∀ y ∈ [x], y.Plain := by
    rintro x hx y hy
    rw [List.mem_singleton.mp hy]
    exact hx
  rcases step_cases hs with ⟨p, hp⟩ | ⟨d, hd⟩ | ⟨rfl, active, startTick, rfl⟩
  · cases hp with
    | pass | enter | choose | record =>
        exact ih.same (fun b p => rfl) (fun b p => rfl) (fun x hx => (nomatch hx))
    | count | lose => exact ih.same (fun b p => rfl) (fun b p => rfl) (hplain trivial)
    | produce b mode action spurious e fs schedule hcalling hb hkind hmode hproduce =>
        exact ih.produced hkind (hmode ▸ hb) hproduce
  · obtain ⟨-, -, -, hbanks⟩ := hd.frame
    refine ih.same (fun b p => by rw [(hbanks b).1]) (fun b p => by rw [(hbanks b).1]) ?_
    cases hd with
    | finish | visit | fail => exact fun x hx => (nomatch hx)
    | line => exact hplain trivial
  · exact ih.same (fun b p => rfl) (fun b p => rfl) (fun x hx => (nomatch hx))

/-- A callback's closure builds at most one event, and it is in its bank. -/
theorem sampled_unique (hrun : Run (Step call) (State.start P D) h t) {p : P}
    {e e' : Application.Event} (he : .sampled p e ∈ h) (he' : .sampled p e' ∈ h) : e = e' := by
  obtain ⟨b, hb⟩ := (noted_run hrun).sampled p e he
  obtain ⟨b', hb'⟩ := (noted_run hrun).sampled p e' he'
  have hload : ∀ {b : Bank} {v : Payload}, sampled? ((t.banks b).producing p) = some v →
      (t.banks b).producing p ≠ .load := by
    intro b v hv hload
    rw [hload] at hv
    cases hv
  obtain ⟨mode, hmode, hbank⟩ := (placed_run hrun).home p b (hload hb)
  obtain ⟨mode', hmode', hbank'⟩ := (placed_run hrun).home p b' (hload hb')
  obtain rfl : mode = mode' := Option.some.inj (hmode.symm.trans hmode')
  rw [hbank, ← hbank', hb'] at hb
  rw [← decode_encode e, ← decode_encode e', Option.some.inj hb]

end NotedRun

end TeamAttack.ProbeSchedule
