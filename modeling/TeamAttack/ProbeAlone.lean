import TeamAttack.ProbeSlots

/-! # A callback that runs alone

    `observe`, as one step of the world, is a run of the steps of its
    callback: it leaves the same counters and stores and records the same
    event (`observe_run`). -/

namespace TeamAttack.ProbeSchedule

open Runs CaptureSchedule ApplicationProbe
open Application (siteCount bankLimit)
open ByteMemory (word)

variable {P D : Type} [DecidableEq P] [DecidableEq D] {call : P → Call} {t : State P D}

/-- A step inside `try_capture`, with the rest of the state as it was. -/
theorem capturing_step {p : P} {mode : UInt32} {action : UInt8} {supplied : Supplied}
    {u u' : Schedule P (D × Nat)} {fs : List (CaptureSchedule.Event P (D × Nat))}
    (hcalling : t.calling p = .capturing mode action)
    (hreturned : (u.producing p).returned? = none)
    (hproduce : produce (fun _ => bankLimit) u p supplied.spurious
      ((call p).sample t.startTick mode action supplied).encode = some (fs, u')) :
    Step call (t.atBank (bank (call p).kind mode) u)
      (fs.filterMap (shown (bank (call p).kind mode)
        ((call p).sample t.startTick mode action supplied)))
      (t.atBank (bank (call p).kind mode) u') := by
  refine ⟨.call p supplied, ?_⟩
  have hcalling' : (t.atBank (bank (call p).kind mode) u).calling p = .capturing mode action :=
    hcalling
  rw [advance, callStep]
  simp only [hcalling', atBank_self, hreturned]
  have hstart : (t.atBank (bank (call p).kind mode) u).startTick = t.startTick := rfl
  rw [hstart, hproduce]
  show some (_, (t.atBank (bank (call p).kind mode) u).atBank _ u') = _
  rw [State.atBank, State.atBank, Function.update_idem]
  rfl

/-- What an uninterrupted `try_capture` leaves: its store, its answer, and the
    event sampled when the answer is true. -/
structure CapturedAlone (before : CaptureStore) (spurious : Bool) (e : Application.Event) (p : P)
    (es : List (Effect P D)) (u : Schedule P (D × Nat)) : Prop where
  store : u.store = (before.tryCapture bankLimit spurious e.encode).2
  answer : (u.producing p).returned? = some (before.tryCapture bankLimit spurious e.encode).1
  sampled : ∀ q f, .sampled q f ∈ es ↔
    (before.tryCapture bankLimit spurious e.encode).1 = true ∧ q = p ∧ f = e

/-- The steps of a callback in a bank, one after another. -/
def StepsAlone (call : P → Call) (t : State P D) (p : P) (b : Bank) (spurious : Bool)
    (e : Application.Event) : Prop :=
  ∀ (u u' : Schedule P (D × Nat)) (fs : List (CaptureSchedule.Event P (D × Nat))),
    (u.producing p).returned? = none →
    produce (fun _ => bankLimit) u p spurious e.encode = some (fs, u') →
    Step call (t.atBank b u) (fs.filterMap (shown b e)) (t.atBank b u')

section Outcomes

variable {p : P} {b : Bank} {spurious : Bool} {e : Application.Event}

omit [DecidableEq P] [DecidableEq D] in
theorem atBank_here : t.atBank b (t.banks b) = t := by
  rw [State.atBank, Function.update_eq_self]

omit [DecidableEq P] [DecidableEq D] in
/-- The answer is false, and nothing happened. -/
theorem CapturedAlone.refused {before : CaptureStore} {u : Schedule P (D × Nat)}
    (htry : before.tryCapture bankLimit spurious e.encode = (false, before))
    (hstore : u.store = before) (hanswer : u.producing p = .dropped) :
    CapturedAlone before spurious e p ([] : List (Effect P D)) u := by
  refine ⟨?_, ?_, ?_⟩
  · rw [htry]
    exact hstore
  · rw [htry, hanswer]
    rfl
  · intro q f
    rw [htry]
    exact ⟨fun h => absurd h List.not_mem_nil, fun h => absurd h.1 Bool.false_ne_true⟩

/-- A bank without room: the load of `next` ends the call. -/
theorem tryCapture_full (hstep : StepsAlone call t p b spurious e)
    (hload : (t.banks b).producing p = .load)
    (hfull : ¬ (t.banks b).store.next < min bankLimit captureCapacity) :
    ∃ es u, Run (Step call) t es (t.atBank b u)
      ∧ CapturedAlone (t.banks b).store spurious e p es u := by
  have hdrop := hstep (t.banks b) ((t.banks b).atProducer p .dropped) []
    (by rw [hload]; rfl) (by rw [produce, hload]; exact dif_neg hfull)
  rw [atBank_here] at hdrop
  refine ⟨_, _, Run.single hdrop, CapturedAlone.refused ?_ rfl (Schedule.atProducer_self ..)⟩
  rw [CaptureStore.tryCapture, dif_neg hfull]

/-- The load, for a bank with room. -/
theorem load_alone (hstep : StepsAlone call t p b spurious e)
    (hload : (t.banks b).producing p = .load)
    (hroom : (t.banks b).store.next < min bankLimit captureCapacity) :
    Step call t [] (t.atBank b ((t.banks b).atProducer p
      (.exchange ⟨(t.banks b).store.next, lt_of_lt_of_le hroom (Nat.min_le_right ..)⟩))) := by
  have hload' := hstep (t.banks b) ((t.banks b).atProducer p
      (.exchange ⟨(t.banks b).store.next, lt_of_lt_of_le hroom (Nat.min_le_right ..)⟩)) []
    (by rw [hload]; rfl) (by rw [produce, hload]; exact dif_pos hroom)
  rw [atBank_here] at hload'
  exact hload'

/-- The exchange that fails although nobody interfered. -/
theorem tryCapture_spurious (hstep : StepsAlone call t p b spurious e)
    (hload : (t.banks b).producing p = .load)
    (hroom : (t.banks b).store.next < min bankLimit captureCapacity) (hspurious : spurious = true) :
    ∃ es u, Run (Step call) t es (t.atBank b u)
      ∧ CapturedAlone (t.banks b).store spurious e p es u := by
  let i : Index := ⟨(t.banks b).store.next, lt_of_lt_of_le hroom (Nat.min_le_right ..)⟩
  let u1 := (t.banks b).atProducer p (.exchange i)
  have h1 : u1.producing p = .exchange i := Schedule.atProducer_self ..
  have hdrop := hstep u1 (u1.atProducer p .dropped) []
    (by rw [h1]; rfl) (by
      rw [produce, h1]
      exact if_neg fun h => by rw [hspurious] at h; cases h.2)
  refine ⟨_, _, (Run.single (load_alone hstep hload hroom)).tail hdrop,
    CapturedAlone.refused ?_ rfl (Schedule.atProducer_self ..)⟩
  rw [CaptureStore.tryCapture, dif_pos hroom, if_pos hspurious]

/-- Load, exchange, fill and publication. -/
theorem tryCapture_kept (hstep : StepsAlone call t p b spurious e)
    (hload : (t.banks b).producing p = .load)
    (hroom : (t.banks b).store.next < min bankLimit captureCapacity)
    (hspurious : ¬ spurious = true) :
    ∃ es u, Run (Step call) t es (t.atBank b u)
      ∧ CapturedAlone (t.banks b).store spurious e p es u := by
  have hload' := load_alone hstep hload hroom
  rw [StepsAlone] at hstep
  generalize he : e.encode = bytes at hstep
  have hclear : spurious = false := Bool.eq_false_iff.mpr hspurious
  let i : Index := ⟨(t.banks b).store.next, lt_of_lt_of_le hroom (Nat.min_le_right ..)⟩
  let u1 := (t.banks b).atProducer p (.exchange i)
  let u2 : Schedule P (D × Nat) :=
    { u1.atProducer p (.fill i) with store := { u1.store with next := i + 1 } }
  let u3 : Schedule P (D × Nat) := { u2.atProducer p (.publish i bytes) with
    store := u2.store.put i { u2.store.slots i with value := some ⟨i, bytes⟩ } }
  let u4 : Schedule P (D × Nat) := { u3.atProducer p (.captured i bytes) with
    store := u3.store.put i { u3.store.slots i with state := .ready } }
  have h1 : u1.producing p = .exchange i := Schedule.atProducer_self ..
  have h2 : u2.producing p = .fill i := u1.atProducer_self ..
  have h3 : u3.producing p = .publish i bytes := u2.atProducer_self ..
  have h4 : u4.producing p = .captured i bytes := u3.atProducer_self ..
  have hclaim := hstep u1 u2 [.claim p i]
    (by rw [h1]; rfl) (by
      rw [produce, h1]
      exact if_pos ⟨rfl, hclear⟩)
  have hfill := hstep u2 u3 [.sample p bytes]
    (by rw [h2]; rfl) (by rw [produce, h2])
  have hpublish := hstep u3 u4 [.publish p i bytes]
    (by rw [h3]; rfl) (by rw [produce, h3])
  have htry : (t.banks b).store.tryCapture bankLimit spurious e.encode = (true, u4.store) := by
    rw [CaptureStore.tryCapture, dif_pos hroom, if_neg hspurious, he]
    refine congrArg (Prod.mk true) ?_
    -- the two writes to the slot are one
    have hslots : Function.update (t.banks b).store.slots i ⟨.ready, some ⟨i, bytes⟩⟩
        = u4.store.slots := by
      show _ = Function.update (Function.update (t.banks b).store.slots i _) i
        { u3.store.slots i with state := .ready }
      rw [Function.update_idem]
      refine congrArg (Function.update _ i) ?_
      have hslot : u3.store.slots i = { u2.store.slots i with value := some ⟨i, bytes⟩ } :=
        u2.store.put_slots_self ..
      rw [hslot]
    exact congrArg (CaptureStore.mk ((t.banks b).store.next + 1)) hslots
  refine ⟨_, u4, (((Run.single hload').tail hclaim).tail hfill).tail hpublish, ?_, ?_, ?_⟩
  · rw [htry]
  · rw [htry, h4]
    rfl
  · intro q f
    rw [htry]
    show Effect.sampled q f ∈ [Effect.reserved p b i, .sampled p e] ↔ _
    simp

end Outcomes

/-- `try_capture`, uninterrupted, takes one to four steps. -/
theorem tryCapture_run {p : P} {mode : UInt32} {action : UInt8} {supplied : Supplied}
    {e : Application.Event} (hcalling : t.calling p = .capturing mode action)
    (hload : (t.banks (bank (call p).kind mode)).producing p = .load)
    (he : (call p).sample t.startTick mode action supplied = e) :
    ∃ es u, Run (Step call) t es (t.atBank (bank (call p).kind mode) u)
      ∧ CapturedAlone (t.banks (bank (call p).kind mode)).store supplied.spurious e p es u := by
  have hstep : StepsAlone call t p (bank (call p).kind mode) supplied.spurious e := by
    intro u u' fs hreturned hproduce
    subst he
    exact capturing_step hcalling hreturned hproduce
  by_cases hroom : (t.banks (bank (call p).kind mode)).store.next
      < min bankLimit captureCapacity
  · by_cases hspurious : supplied.spurious = true
    · exact tryCapture_spurious hstep hload hroom hspurious
    · exact tryCapture_kept hstep hload hroom hspurious
  · exact tryCapture_full hstep hload hroom

theorem store_of_refused {before : CaptureStore} {limit : Nat} {spurious : Bool}
    {sample : Payload} (h : (before.tryCapture limit spurious sample).1 = false) :
    (before.tryCapture limit spurious sample).2 = before := by
  rw [CaptureStore.tryCapture] at h ⊢
  split_ifs at h ⊢ with hlt hspurious
  · rfl
  · rfl

/-- What `try_capture` and the count of its failure leave of the recording. -/
def afterCapture (r : Recording) (b : Bank) (captured : Bool × CaptureStore) : Recording :=
  if captured.1 then { r with events := Function.update r.events b captured.2 }
  else { r with dropped := r.dropped + 1 }

/-- The capture and what follows it, uninterrupted. -/
theorem finish_run {p : P} {mode : UInt32} {action : UInt8} {supplied : Supplied}
    {e : Application.Event} {b : Bank} (hcalling : t.calling p = .capturing mode action)
    (hb : bank (call p).kind mode = b) (hload : (t.banks b).producing p = .load)
    (he : (call p).sample t.startTick mode action supplied = e) :
    ∃ es t', Run (Step call) t es t'
      ∧ t'.recording = afterCapture t.recording b
          ((t.recording.events b).tryCapture bankLimit supplied.spurious e.encode)
      ∧ ∀ q f, .sampled q f ∈ es ↔
        ((t.recording.events b).tryCapture bankLimit supplied.spurious e.encode).1 = true
          ∧ q = p ∧ f = e := by
  subst hb
  obtain ⟨es, u, hrun, halone⟩ := tryCapture_run hcalling hload he
  have hhere : (t.banks (bank (call p).kind mode)).store
      = t.recording.events (bank (call p).kind mode) := rfl
  rw [hhere] at halone
  have hcalling' : (t.atBank (bank (call p).kind mode) u).calling p = .capturing mode action :=
    hcalling
  have hreturn : ∀ fs t', callStep call (t.atBank (bank (call p).kind mode) u) p supplied
      = some (fs, t') → Step call (t.atBank (bank (call p).kind mode) u) fs t' :=
    fun _ _ h => ⟨.call p supplied, h⟩
  -- outside its bank a capture changes nothing
  have hevents : (t.atBank (bank (call p).kind mode) u).recording
      = { t.recording with
          events := Function.update t.recording.events (bank (call p).kind mode) u.store } := by
    refine congrArg (Recording.mk t.active t.startTick t.calls t.dropped) (funext fun c => ?_)
    by_cases hc : c = bank (call p).kind mode
    · subst hc
      rw [Function.update_self, atBank_self]
    · rw [Function.update_of_ne hc, atBank_of_ne t u hc]
      rfl
  -- the answer decides between the return and the count of a drop
  cases hok : ((t.recording.events (bank (call p).kind mode)).tryCapture bankLimit
      supplied.spurious e.encode).1 with
  | true =>
      have hstep := hreturn []
        ((t.atBank (bank (call p).kind mode) u).atCall p (.recorded mode)) (by
          rw [callStep]
          simp only [hcalling', atBank_self, halone.answer, hok])
      refine ⟨_, _, hrun.tail hstep, ?_, fun q f => ?_⟩
      · rw [afterCapture, if_pos hok, ← halone.store]
        exact hevents
      · rw [List.append_nil, halone.sampled q f, hok]
  | false =>
      have hstep := hreturn [.dropped p]
        ((t.atBank (bank (call p).kind mode) u).drop.atCall p (.lost mode)) (by
          rw [callStep]
          simp only [hcalling', atBank_self, halone.answer, hok])
      refine ⟨_, _, hrun.tail hstep, ?_, fun q f => ?_⟩
      · have hsame : u.store = t.recording.events (bank (call p).kind mode) := by
          rw [halone.store]
          exact store_of_refused hok
        rw [hsame, Function.update_eq_self] at hevents
        rw [afterCapture, hok, if_neg Bool.false_ne_true]
        exact congrArg (fun r : Recording => { r with dropped := r.dropped + 1 }) hevents
      · rw [List.mem_append, halone.sampled q f, hok]
        refine ⟨fun h => h.resolve_right fun h => ?_, Or.inl⟩
        cases List.mem_singleton.mp h

/-- `record` in these terms. -/
theorem record_eq (s : Statics) (m : ByteMemory.Memory) (env : CallEnv) (kind : Kind)
    (ctx : InlineCtx) (action : UInt8) :
    let mode := word m (s.base + Application.modeOffset)
    let e := sampleEvent s m env kind ctx action mode
    let captured := (s.recording.events (bank kind mode)).tryCapture bankLimit env.spurious e.encode
    record s m env kind ctx action = (if captured.1 = true then some e else none,
      afterCapture { s.recording with
        calls := Function.update s.recording.calls kind (s.recording.calls kind + 1) }
        (bank kind mode) captured) := by
  intro mode e captured
  obtain ⟨ok, store, hcaptured⟩ : ∃ ok store, captured = (ok, store) := ⟨_, _, rfl⟩
  have hcall : (s.recording.events (bank kind mode)).tryCapture bankLimit env.spurious e.encode
      = (ok, store) := hcaptured
  rw [hcaptured, afterCapture, record]
  dsimp only
  rw [hcall]
  cases ok with
  | true => rfl
  | false => rfl

/-- What the steps of a callback are supplied with while it runs alone in
    `w`, its mutation done. -/
def aloneSupply (w : World) (env : CallEnv) (call : Call) (mutated : Mutated) : Supplied where
  experiment := w.statics.experiment
  action := mutated.action
  mode := word mutated.mem (w.statics.base + Application.modeOffset)
  event := sampleEvent { w.statics with armedSession := mutated.armedSession } mutated.mem env
    call.kind call.ctx mutated.action (word mutated.mem (w.statics.base + Application.modeOffset))
  tick := env.tick
  spurious := env.spurious

/-- An `observe` that passes records nothing and leaves the recording. -/
theorem observe_passes {w : World} {env : CallEnv} {kind : Kind} {ctx : InlineCtx}
    (hpass : (!w.statics.recording.active || (decide (kind = 5) && !isProposal ctx)) = true) :
    (observe w env kind ctx).recorded = none
      ∧ (observe w env kind ctx).world.statics.recording = w.statics.recording := by
  unfold observe
  dsimp only [Application.hookPolicy]
  split_ifs with h1 h2 h3 h4
  all_goals first
    | exact ⟨rfl, rfl⟩
    | (exfalso; simp_all)

/-- An `observe` that does not pass: the mutation, then `record`. -/
theorem observe_records {w : World} {env : CallEnv} {kind : Kind} {ctx : InlineCtx}
    {mutated : Mutated} (hactive : w.statics.recording.active = true)
    (hproposal : ¬ (decide (kind = 5) && !isProposal ctx) = true)
    (hmutated : (if (w.statics.experiment && (decide (kind = 0) || decide (kind = 5))) = true
      then mutateIfGuarded w.statics w.mem kind ctx
      else (⟨0xff, [], w.statics.armedSession, w.mem⟩ : Mutated)) = mutated) :
    observe w env kind ctx = ⟨mutated.action, mutated.writes,
      (record { w.statics with armedSession := mutated.armedSession } mutated.mem env kind ctx
        mutated.action).1,
      ⟨{ w.statics with
          armedSession := mutated.armedSession
          recording := (record { w.statics with armedSession := mutated.armedSession }
            mutated.mem env kind ctx mutated.action).2 },
        mutated.mem⟩⟩ := by
  unfold observe
  dsimp only [Application.hookPolicy]
  rw [hactive, if_neg (by simp), if_neg hproposal, hmutated, if_neg (by simp)]

/-- **`observe` is a run of its steps**: a callback alone leaves the statics
    of the recording as `observe` does, and samples what `observe` records. -/
theorem observe_run {w : World} {env : CallEnv} {p : P}
    (hrecording : t.recording = w.statics.recording) (hidle : t.calling p = .idle)
    (hload : ∀ b, (t.banks b).producing p = .load) :
    ∃ es t', Run (Step call) t es t'
      ∧ t'.recording = (observe w env (call p).kind (call p).ctx).world.statics.recording
      ∧ ∀ q e, .sampled q e ∈ es ↔
        q = p ∧ (observe w env (call p).kind (call p).ctx).recorded = some e := by
  have hactive : t.active = w.statics.recording.active := congrArg Recording.active hrecording
  generalize hkind : (call p).kind = kind
  generalize hctx : (call p).ctx = ctx
  by_cases hpass : (!t.active || (decide (kind = 5) && !isProposal ctx)) = true
  · -- nothing is recorded, and `observe` leaves the recording alone
    have hstep : Step call t [] (t.atCall p .passed) := by
      refine ⟨.call p (aloneSupply w env (call p) ⟨0xff, [], 0, w.mem⟩), ?_⟩
      rw [advance, callStep, hkind, hctx]
      simp only [hidle]
      exact if_pos hpass
    rw [hactive] at hpass
    have hobserve : (observe w env kind ctx).recorded = none
        ∧ (observe w env kind ctx).world.statics.recording = w.statics.recording :=
      observe_passes hpass
    refine ⟨[], _, .single hstep, ?_, fun q e => ?_⟩
    · rw [hobserve.2]
      exact hrecording
    · rw [hobserve.1]
      exact ⟨fun h => (nomatch h), fun h => (nomatch h.2)⟩
  · have hrec : t.active = true := by
      rw [Bool.or_eq_true, not_or] at hpass
      simpa using hpass.1
    have hskip : ¬(decide (kind = 5) && !isProposal ctx) = true := by
      rw [Bool.or_eq_true, not_or] at hpass
      exact hpass.2
    generalize hmutated : (if (w.statics.experiment && (decide (kind = 0) || decide (kind = 5)))
      = true then mutateIfGuarded w.statics w.mem kind ctx
      else (⟨0xff, [], w.statics.armedSession, w.mem⟩ : Mutated)) = mutated
    let s : Statics := { w.statics with armedSession := mutated.armedSession }
    have hobserve : observe w env kind ctx = ⟨mutated.action, mutated.writes,
        (record s mutated.mem env kind ctx mutated.action).1,
        ⟨{ s with recording := (record s mutated.mem env kind ctx mutated.action).2 },
          mutated.mem⟩⟩ :=
      observe_records (hactive ▸ hrec) hskip hmutated
    let supplied := aloneSupply w env (call p) mutated
    have haction : (if (w.statics.experiment && (decide (kind = 0) || decide (kind = 5))) = true
        then supplied.action else 0xff) = mutated.action := by
      show (if _ then mutated.action else 0xff) = mutated.action
      rw [← hmutated]
      split_ifs
      · rfl
      · rfl
    let mode := supplied.mode
    let e := sampleEvent s mutated.mem env kind ctx mutated.action mode
    have henter : Step call t [] (t.atCall p (.entered w.statics.experiment)) := by
      refine ⟨.call p supplied, ?_⟩
      rw [advance, callStep, hkind, hctx]
      simp only [hidle]
      exact if_neg hpass
    let t1 := t.atCall p (.entered w.statics.experiment)
    let t2 := (t1.count kind).atCall p (.counted mutated.action)
    let t3 := t2.atCall p (.capturing mode mutated.action)
    have hcount : Step call t1 [.called p] t2 := by
      refine ⟨.call p supplied, ?_⟩
      rw [advance, callStep, hkind]
      simp only [t1, atCall_self]
      rw [haction]
    have hchoose : Step call t2 [] t3 := by
      refine ⟨.call p supplied, ?_⟩
      rw [advance, callStep]
      simp only [t2, atCall_self]
      rfl
    have he : (call p).sample t3.startTick mode mutated.action supplied = e := by
      have hstart : t.startTick = w.statics.recording.start := congrArg Recording.start hrecording
      subst hkind hctx
      show { e with elapsedTicks := env.tick - t.startTick } = e
      rw [hstart]
      rfl
    obtain ⟨es, t', hrun, hrecorded, hsampled⟩ :=
      finish_run (t := t3) (atCall_self ..) rfl (hload _) he
    have hcounted : t3.recording = { s.recording with
        calls := Function.update s.recording.calls kind (s.recording.calls kind + 1) } :=
      congrArg (fun r : Recording =>
        { r with calls := Function.update r.calls kind (r.calls kind + 1) }) hrecording
    have hrecord := record_eq s mutated.mem env kind ctx mutated.action
    rw [hkind, hcounted] at hrecorded hsampled
    refine ⟨_, t', (((Run.single henter).tail hcount).tail hchoose).append hrun, ?_, fun q f => ?_⟩
    · rw [hobserve, hrecorded]
      exact (congrArg Prod.snd hrecord).symm
    · have hearlier : ∀ x, x ∈ ([] ++ [Effect.called p] ++ [] : List (Effect P D)) →
          x ≠ .sampled q f := by
        rintro x hx rfl
        cases List.mem_singleton.mp hx
      rw [hobserve, List.mem_append]
      show _ ↔ q = p ∧ (record s mutated.mem env kind ctx mutated.action).1 = some f
      rw [hrecord]
      constructor
      · rintro (h | h)
        · exact absurd rfl (hearlier _ h)
        · obtain ⟨hok, rfl, rfl⟩ := (hsampled q f).mp h
          exact ⟨rfl, if_pos hok⟩
      · rintro ⟨rfl, h⟩
        refine Or.inr ((hsampled q f).mpr ?_)
        split_ifs at h with hok
        exact ⟨hok, rfl, (Option.some.inj h).symm⟩

end TeamAttack.ProbeSchedule
