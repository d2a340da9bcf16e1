import TeamAttack.Footprint
import TeamAttack.RecordedEvents

/-! # Recorded mutation actions

    An event is sampled after the write, by other code than the guards.  As
    long as the written byte is none of the bytes the guards read, the event
    shows exactly what the guards had accepted, and its action says what the
    callback did to game memory (`recorded_actions_truthful`). -/

namespace TeamAttack.ApplicationProbe

open ByteMemory Application Watch Runs

/-- The addresses the guards of a write read, apart from the written byte. -/
def guardFootprint (base : UInt64) (kind : Kind) (ctx : InlineCtx) : List UInt64 :=
  span (base + modeOffset) 4
    ++ span (recordSession kind ctx + sessionRequest) 4
    ++ [recordSession kind ctx + sessionPrepared, base + guardOffset, base + globalOffset]
    ++ identityFootprint (recordSession kind ctx)
    ++ if kind = 5 then [ctx.x 2 + 0xc8] else []

/-- The byte a callback of this kind may write. -/
def writtenByte? (kind : Kind) (ctx : InlineCtx) : Option UInt64 :=
  if kind = 5 then some (ctx.x 2 + 0x11)
  else if kind = 0 then some (ctx.x 24 + localTeam)
  else none

/-- The written byte is none of those the guards read. -/
def Apart (base : UInt64) (kind : Kind) (ctx : InlineCtx) : Prop :=
  ∀ a ∈ writtenByte? kind ctx, a ∉ guardFootprint base kind ctx

/-- A zero byte has become 1, and no other byte has changed. -/
def Flipped (m m' : Memory) (a : UInt64) : Prop := m a = 0 ∧ m' = writeByte m a 1

/-- What an event of either write shows. -/
structure ShowsMutation (e : Event) : Prop where
  team : e.team = 1
  mode : e.mode = coopMode
  request : e.request = 2
  prepared : e.prepared = 0
  initialized : e.initialized = true
  global : e.global = 0
  localSlot : e.localSlot < 16

/-- The action of an event says what its callback did. -/
inductive Truthful (m m' : Memory) (ctx : InlineCtx) (e : Event) : Prop where
  | proposal : e.mutationAction = 0 → ShowsMutation e → e.kind = 5 →
      e.participant = e.localSlot → e.submitOrigin < submitOriginCount →
      Flipped m m' (ctx.x 2 + 0x11) → Truthful m m' ctx e
  | localMirror : e.mutationAction = 1 → ShowsMutation e → e.kind = 0 →
      e.selectedOwner = e.localSlot → Flipped m m' (ctx.x 24 + localTeam) → Truthful m m' ctx e
  | none : e.mutationAction = 0xff → m' = m → Truthful m m' ctx e

/-! ## The guards after the write -/

/-- A write apart from the guards leaves them as they were. -/
theorem sessionGuards_write {s : Statics} {m : Memory} {kind : Kind} {ctx : InlineCtx}
    {k : Fin 16} {a : UInt64} (v : UInt8) (ha : a ∉ guardFootprint s.base kind ctx)
    (hg : SessionGuards s m (recordSession kind ctx) k) :
    SessionGuards s (writeByte m a v) (recordSession kind ctx) k := by
  simp only [guardFootprint, List.mem_append, List.mem_cons, List.not_mem_nil, or_false,
    not_or] at ha
  obtain ⟨⟨⟨⟨hmode, hrequest⟩, hprepared, hguard, hglobal⟩, hidentity⟩, -⟩ := ha
  refine ⟨hg.experiment, hg.session_ne, ?_, ?_, ?_, ?_, ?_, ?_⟩
  · rw [word_writeByte m v hmode]
    exact hg.mode
  · rw [word_writeByte m v hrequest]
    exact hg.request
  · rw [byte_writeByte_of_ne m v (Ne.symm hprepared)]
    exact hg.prepared
  · rw [byte_writeByte_of_ne m v (Ne.symm hguard)]
    exact hg.initialized
  · rw [byte_writeByte_of_ne m v (Ne.symm hglobal)]
    exact hg.global
  · exact (localOwner_writeByte v hidentity).mpr hg.owner

theorem teamSource_submit (m : Memory) (ctx : InlineCtx) : teamSource m 5 ctx
    = (if byte m (ctx.x 2 + 0xc8) < 16 then byte m (ctx.x 2 + 0xc8) else 0xff,
        byte m (ctx.x 2 + 0x11)) := rfl

theorem teamSource_local (m : Memory) (ctx : InlineCtx) :
    teamSource m 0 ctx = (0xff, byte m (ctx.x 24 + localTeam)) := rfl

/-- An event sampled where the session's guards hold. -/
theorem showsMutation_sample {s : Statics} {m : Memory} {env : CallEnv} {kind : Kind}
    {ctx : InlineCtx} {k : Fin 16} (hg : SessionGuards s m (recordSession kind ctx) k)
    (hteam : (teamSource m kind ctx).2 = 1) (action : UInt8) :
    ShowsMutation (sampleEvent s m env kind ctx action (word m (s.base + modeOffset))) := by
  have hinit : byte m (s.base + guardOffset) &&& 1 ≠ 0 := bit_ne_zero.mpr hg.initialized
  refine ⟨hteam, hg.mode, hg.request, hg.prepared, decide_eq_true hinit, ?_, ?_⟩
  · rw [sampleEvent_global, if_pos hinit]
    exact hg.global
  · rw [sampleEvent_localSlot, localSlot_eq_of_owner hg.owner]
    exact ofNat_fin_lt k

/-! ## One callback -/

/-- **What a recorded action means.** -/
theorem recorded_truthful {w : World} {env : CallEnv} {kind : Kind} {ctx : InlineCtx}
    {e : Event} (hapart : Apart w.statics.base kind ctx)
    (hrec : (observe w env kind ctx).recorded = some e) :
    Truthful w.mem (observe w env kind ctx).world.mem ctx e := by
  have hsample := observe_recorded hrec
  obtain ⟨haction, -, hmem, -⟩ := observe_mutation w env kind ctx
  rcases mutateIfGuarded_cases w.statics w.mem kind ctx with
    ⟨hp, heq⟩ | ⟨hl, heq⟩ | ⟨-, -, heq⟩
  · -- the proposal was written
    obtain ⟨k, hk, hslot⟩ := hp.session
    obtain rfl := hp.kind
    have ha : ctx.x 2 + 0x11 ∉ guardFootprint w.statics.base 5 ctx :=
      hapart _ (Option.mem_def.mpr (if_pos rfl))
    have hafter := sessionGuards_write 1 ha hk
    have hmem8 : ctx.x 2 + 0xc8 ∈ guardFootprint w.statics.base 5 ctx := by
      refine List.mem_append_right _ ?_
      rw [if_pos rfl]
      exact List.mem_singleton_self _
    have hc8 : ctx.x 2 + 0xc8 ≠ ctx.x 2 + 0x11 := ne_of_mem_of_not_mem hmem8 ha
    have hparticipant : byte (writeByte w.mem (ctx.x 2 + 0x11) 1) (ctx.x 2 + 0xc8)
        = UInt8.ofNat k.val := by
      rw [byte_writeByte_of_ne w.mem 1 hc8]
      exact hslot
    have hteam : (teamSource (writeByte w.mem (ctx.x 2 + 0x11) 1) 5 ctx).2 = 1 :=
      (congrArg Prod.snd (teamSource_submit _ ctx)).trans (byte_writeByte_self _ _ 1)
    rw [heq, Mutated.proposal] at haction hmem
    dsimp only at haction hmem
    rw [hmem, haction] at hsample
    rw [hmem, hsample]
    refine .proposal rfl (showsMutation_sample hafter hteam 0) rfl ?_ ?_ ⟨hp.team, rfl⟩
    · rw [sampleEvent_participant, sampleEvent_localSlot, localSlot_eq_of_owner hafter.owner,
        teamSource_submit, hparticipant, if_pos (ofNat_fin_lt k)]
    · rw [sampleEvent_submitOrigin, if_pos rfl]
      exact (submitOrigin_lt_iff _).mpr hp.caller
  · -- the local source was mirrored
    obtain ⟨k, hk⟩ := hl.session
    obtain rfl := hl.kind
    have ha : ctx.x 24 + localTeam ∉ guardFootprint w.statics.base 0 ctx :=
      hapart _ (Option.mem_def.mpr ((if_neg (by decide)).trans (if_pos rfl)))
    have hafter := sessionGuards_write 1 ha hk
    have hteam : (teamSource (writeByte w.mem (ctx.x 24 + localTeam) 1) 0 ctx).2 = 1 := by
      rw [teamSource_local]
      generalize ctx.x 24 + localTeam = a
      exact byte_writeByte_self w.mem a 1
    rw [heq, Mutated.mirror] at haction hmem
    dsimp only at haction hmem
    rw [hmem, haction] at hsample
    rw [hmem, hsample]
    refine .localMirror rfl (showsMutation_sample hafter hteam 1) rfl ?_ ⟨hl.team, rfl⟩
    rw [sampleEvent_selectedOwner, sampleEvent_localSlot, if_pos rfl]
  · rw [heq] at haction hmem
    rw [hsample]
    exact .none haction hmem

/-! ## Every callback of a run -/

/-- A callback, with the world it found. -/
structure Callback where
  world : World
  env : CallEnv
  kind : Kind
  ctx : InlineCtx

/-- What a callback did and left. -/
def Callback.observed (c : Callback) : Observed := observe c.world c.env c.kind c.ctx

/-- The callback a move makes, if it makes one. -/
def World.callback? (w : World) : Move → Option Callback
  | .callback env kind ctx => some ⟨w, env, kind, ctx⟩
  | .game _ => none
  | .start _ => none
  | .stopRecording => none
  | .drain _ => none

/-- One step of a run, with its callback. -/
def CallbackStep (w : World) (es : List Callback) (w' : World) : Prop :=
  ∃ mv, (w.move mv).1 = w' ∧ es = (w.callback? mv).toList

/-- A callback whose write, if it may make one, is apart from the guards. -/
def Callback.Apart (c : Callback) : Prop := ApplicationProbe.Apart c.world.statics.base c.kind c.ctx

/-- **Recorded mutation actions are truthful**, for every callback of every
    run. -/
theorem recorded_actions_truthful {start w : World} {h : List Callback}
    (hrun : Run CallbackStep start h w) :
    ∀ c ∈ h, c.Apart → ∀ e, c.observed.recorded = some e →
      Truthful c.world.mem c.observed.world.mem c.ctx e := by
  refine hrun.history (I := fun h _ => ∀ c ∈ h, c.Apart → ∀ e, c.observed.recorded = some e →
    Truthful c.world.mem c.observed.world.mem c.ctx e) (fun c hc => nomatch hc) ?_
  intro h w es w' ih hs c hc hapart e he
  rcases List.mem_append.mp hc with hc | hc
  · exact ih c hc hapart e he
  · exact recorded_truthful hapart he

/-- The proposal of `openScene`, recorded. -/
def recordedProposal : Callback := ⟨recordingWorld, ⟨0, false⟩, 5, openCtx 0⟩

/-- The local copy of its session, in the world the proposal leaves. -/
def recordedMirror : Callback :=
  ⟨(recordingWorld.move openProposal).1, ⟨0, false⟩, 0, ⟨fun i => if i = 24 then 0x1000000 else 0⟩⟩

theorem recordedProposal_apart : recordedProposal.Apart := by
  intro a ha
  obtain rfl := Option.some.inj ha
  decide

theorem recordedMirror_apart : recordedMirror.Apart := by
  intro a ha
  obtain rfl := Option.some.inj ha
  decide

theorem recorded_actions_truthful_open :
    ∃ h w, Run CallbackStep recordingWorld h w ∧ h = [recordedProposal, recordedMirror]
      ∧ ∀ c ∈ h, ∃ e, c.observed.recorded = some e
        ∧ Truthful c.world.mem c.observed.world.mem c.ctx e := by
  have hfirst : Run CallbackStep recordingWorld [recordedProposal]
      (recordingWorld.move openProposal).1 := .single ⟨openProposal, rfl, rfl⟩
  have hrun := hfirst.append (.single ⟨openMirror, rfl, rfl⟩)
  refine ⟨_, _, hrun, rfl, ?_⟩
  intro c hc
  have hapart : c.Apart := by
    rcases List.mem_cons.mp hc with rfl | hc
    · exact recordedProposal_apart
    · obtain rfl := List.mem_singleton.mp hc
      exact recordedMirror_apart
  have hsome : c.observed.recorded.isSome = true := by
    rcases List.mem_cons.mp hc with rfl | hc
    · decide
    · obtain rfl := List.mem_singleton.mp hc
      decide
  obtain ⟨e, he⟩ := Option.isSome_iff_exists.mp hsome
  exact ⟨e, he, recorded_actions_truthful hrun c hc hapart e he⟩

end TeamAttack.ApplicationProbe
