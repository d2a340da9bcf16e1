import TeamAttack.MutationGuards

/-! # The footprint of a callback

    Which bytes of game memory a callback's outcome depends on.  Apart from
    the identity words, of which only the first matching slot counts, they are
    the mode, request, prepared and guard bytes, the global byte once
    initialised, and one team or slot source by kind (`teamFootprint`).  Two
    memories that agree there give the same outcome
    (`observe_leaks_only_footprint`). -/

namespace TeamAttack.ApplicationProbe

open ByteMemory Application Watch

/-- The addresses of a callback's team and slot source. -/
def teamFootprint (kind : Kind) (ctx : InlineCtx) : List UInt64 :=
  if kind = 0 then [recordSession kind ctx + localTeam]
  else if kind = 1 then
    if (participantSlot (recordSession kind ctx) (ctx.x 1)).isSome then [ctx.x 1 + 0xf11]
    else []
  else if kind = 5 then [ctx.x 2 + 0xc8, ctx.x 2 + 0x11]
  else if kind = 6 then [ctx.x 8 + 0x11]
  else if kind = 7 then
    if (receivedSlot (ctx.x 19) (ctx.x 9)).isSome then [ctx.x 9 + 0x1699] else []
  else [recordSession kind ctx + selectedTeam]

/-- The addresses of a session's identity word and of its sixteen entries. -/
def identityFootprint (session : UInt64) : List UInt64 :=
  span (session + 0x9ff8) 8
    ++ (List.finRange 16).flatMap
      (fun j => span (session + 0xa018 + UInt64.ofNat j.val * 0x78) 8)

/-- Two memories that a callback at a reviewed site cannot tell apart. -/
structure SameFootprint (base : UInt64) (kind : Kind) (ctx : InlineCtx) (m m' : Memory) :
    Prop where
  mode : AgreeOn (span (base + modeOffset) 4) m m'
  request : AgreeOn (span (recordSession kind ctx + sessionRequest) 4) m m'
  prepared : byte m (recordSession kind ctx + sessionPrepared)
    = byte m' (recordSession kind ctx + sessionPrepared)
  guard : byte m (base + guardOffset) = byte m' (base + guardOffset)
  global : byte m (base + guardOffset) &&& 1 = 1 →
    byte m (base + globalOffset) = byte m' (base + globalOffset)
  team : AgreeOn (teamFootprint kind ctx) m m'
  owner : ∀ k, LocalOwner m (recordSession kind ctx) k
    ↔ LocalOwner m' (recordSession kind ctx) k

variable {base : UInt64} {kind : Kind} {ctx : InlineCtx} {m m' : Memory}

theorem SameFootprint.symm (h : SameFootprint base kind ctx m m') :
    SameFootprint base kind ctx m' m where
  mode := h.mode.symm
  request := h.request.symm
  prepared := h.prepared.symm
  guard := h.guard.symm
  global := fun hbit => (h.global (h.guard ▸ hbit)).symm
  team := h.team.symm
  owner := fun k => (h.owner k).symm

/-- Identity entries survive a write outside them. -/
theorem localOwner_writeByte {session a : UInt64} {k : Fin 16} (v : UInt8)
    (h : a ∉ identityFootprint session) :
    LocalOwner (writeByte m a v) session k ↔ LocalOwner m session k := by
  rw [identityFootprint, List.mem_append, not_or] at h
  have hentry : ∀ j : Fin 16,
      pointer (writeByte m a v) (session + 0xa018 + UInt64.ofNat j.val * 0x78)
        = pointer m (session + 0xa018 + UInt64.ofNat j.val * 0x78) := fun j =>
    pointer_writeByte m v fun hmem =>
      h.2 (List.mem_flatMap.mpr ⟨j, List.mem_finRange j, hmem⟩)
  rw [LocalOwner, LocalOwner, pointer_writeByte m v h.1]
  exact iff_of_eq (congrArg (fun e => FirstMatch _ e k) (funext hentry))

/-- The same write outside the identity words keeps two memories
    indistinguishable, where the global byte already counts. -/
theorem SameFootprint.write (h : SameFootprint base kind ctx m m') {a : UInt64}
    (v : UInt8) (hid : a ∉ identityFootprint (recordSession kind ctx))
    (hinit : byte m (base + guardOffset) &&& 1 = 1) :
    SameFootprint base kind ctx (writeByte m a v) (writeByte m' a v) where
  mode := h.mode.writeByte a v
  request := h.request.writeByte a v
  prepared := byte_writeByte_agree a v h.prepared
  guard := byte_writeByte_agree a v h.guard
  global := fun _ => byte_writeByte_agree a v (h.global hinit)
  team := h.team.writeByte a v
  owner := fun k => by
    rw [localOwner_writeByte v hid, localOwner_writeByte v hid]
    exact h.owner k

/-! ## The mutation -/

theorem SameFootprint.sessionGuards {s : Statics} {k : Fin 16}
    (h : SameFootprint s.base kind ctx m m')
    (hg : SessionGuards s m (recordSession kind ctx) k) :
    SessionGuards s m' (recordSession kind ctx) k where
  experiment := hg.experiment
  session_ne := hg.session_ne
  mode := (word_congr h.mode).symm.trans hg.mode
  request := (word_congr h.request).symm.trans hg.request
  prepared := h.prepared.symm.trans hg.prepared
  initialized := h.guard ▸ hg.initialized
  global := (h.global hg.initialized).symm.trans hg.global
  owner := (h.owner k).mp hg.owner

theorem SameFootprint.proposalGuards {s : Statics} (h : SameFootprint s.base kind ctx m m')
    (hg : ProposalGuards s m kind ctx) : ProposalGuards s m' kind ctx := by
  obtain ⟨hkind, ⟨k, hk, hslot⟩, hcommand, hlength, hbuffer, hteam, hcaller⟩ := hg
  subst hkind
  have hc8 : m (ctx.x 2 + 0xc8) = m' (ctx.x 2 + 0xc8) := h.team _ List.mem_cons_self
  have h11 : m (ctx.x 2 + 0x11) = m' (ctx.x 2 + 0x11) :=
    h.team _ (List.mem_cons_of_mem _ List.mem_cons_self)
  exact ⟨rfl, ⟨k, h.sessionGuards hk, hc8.symm.trans hslot⟩, hcommand, hlength, hbuffer,
    h11.symm.trans hteam, hcaller⟩

theorem SameFootprint.localGuards {s : Statics} (h : SameFootprint s.base kind ctx m m')
    (hg : LocalGuards s m kind ctx) : LocalGuards s m' kind ctx := by
  obtain ⟨hkind, ⟨k, hk⟩, harmed, hteam⟩ := hg
  subst hkind
  have hsource : m (ctx.x 24 + localTeam) = m' (ctx.x 24 + localTeam) :=
    h.team _ List.mem_cons_self
  exact ⟨rfl, ⟨k, h.sessionGuards hk⟩, harmed, hsource.symm.trans hteam⟩

/-- Two mutations with the same visible outcome, in memories that stay
    indistinguishable. -/
structure SameMutated (base : UInt64) (kind : Kind) (ctx : InlineCtx) (mu mu' : Mutated) :
    Prop where
  action : mu.action = mu'.action
  writes : mu.writes = mu'.writes
  armed : mu.armedSession = mu'.armedSession
  mem : SameFootprint base kind ctx mu.mem mu'.mem

/-- The mutation path reads the footprint only. -/
theorem SameFootprint.mutated {s : Statics} (h : SameFootprint s.base kind ctx m m')
    (hid : ∀ a ∈ teamFootprint kind ctx, a ∉ identityFootprint (recordSession kind ctx)) :
    SameMutated s.base kind ctx (mutateIfGuarded s m kind ctx)
      (mutateIfGuarded s m' kind ctx) := by
  -- each outcome on `m` is the same outcome on the other memory
  rcases mutateIfGuarded_cases s m kind ctx with ⟨hp, heq⟩ | ⟨hl, heq⟩ | ⟨hp, hl, heq⟩
  · rcases mutateIfGuarded_cases s m' kind ctx with ⟨-, heq'⟩ | ⟨hl', -⟩ | ⟨hp', -, -⟩
    · obtain ⟨k, hk, -⟩ := hp.session
      have hteam : ctx.x 2 + 0x11 ∈ teamFootprint kind ctx := by
        rw [hp.kind]
        exact List.mem_cons_of_mem _ List.mem_cons_self
      have hmem := h.write 1 (hid _ hteam) hk.initialized
      simp only [heq, heq', Mutated.proposal]
      exact ⟨rfl, rfl, rfl, hmem⟩
    · exact absurd (hp.kind.symm.trans hl'.kind) (by decide)
    · exact absurd (h.proposalGuards hp) hp'
  · rcases mutateIfGuarded_cases s m' kind ctx with ⟨hp', -⟩ | ⟨-, heq'⟩ | ⟨-, hl', -⟩
    · exact absurd (hl.kind.symm.trans hp'.kind) (by decide)
    · obtain ⟨k, hk⟩ := hl.session
      have hteam : ctx.x 24 + localTeam ∈ teamFootprint kind ctx := by
        rw [hl.kind]
        exact List.mem_cons_self
      have hmem := h.write 1 (hid _ hteam) hk.initialized
      rw [heq, heq']
      refine ⟨rfl, rfl, rfl, ?_⟩
      simp only [Mutated.mirror]
      exact hmem
    · exact absurd (h.localGuards hl) hl'
  · rcases mutateIfGuarded_cases s m' kind ctx with ⟨hp', -⟩ | ⟨hl', -⟩ | ⟨-, -, heq'⟩
    · exact absurd (h.symm.proposalGuards hp') hp
    · exact absurd (h.symm.localGuards hl') hl
    · rw [heq, heq']
      exact ⟨rfl, rfl, rfl, h⟩

/-! ## The recorded event -/

theorem SameFootprint.teamSource_eq (h : SameFootprint base kind ctx m m') :
    teamSource m kind ctx = teamSource m' kind ctx := by
  have hteam := h.team
  unfold teamFootprint at hteam
  unfold teamSource
  dsimp only
  -- hook by hook, in the order of `team_source`
  by_cases h0 : kind = 0
  · rw [if_pos h0] at hteam ⊢
    rw [if_pos h0]
    exact congrArg (Prod.mk 0xff) (hteam _ List.mem_cons_self)
  rw [if_neg h0] at hteam ⊢
  rw [if_neg h0]
  by_cases h1 : kind = 1
  · rw [if_pos h1] at hteam ⊢
    rw [if_pos h1]
    cases hs : participantSlot (recordSession kind ctx) (ctx.x 1) with
    | none => rfl
    | some slot =>
        rw [hs] at hteam
        exact congrArg (Prod.mk slot) (hteam _ List.mem_cons_self)
  rw [if_neg h1] at hteam ⊢
  rw [if_neg h1]
  by_cases h5 : kind = 5
  · rw [if_pos h5] at hteam ⊢
    rw [if_pos h5]
    have hc8 : byte m (ctx.x 2 + 0xc8) = byte m' (ctx.x 2 + 0xc8) :=
      hteam _ List.mem_cons_self
    have h11 : byte m (ctx.x 2 + 0x11) = byte m' (ctx.x 2 + 0x11) :=
      hteam _ (List.mem_cons_of_mem _ List.mem_cons_self)
    rw [hc8, h11]
  rw [if_neg h5] at hteam ⊢
  rw [if_neg h5]
  by_cases h6 : kind = 6
  · rw [if_pos h6] at hteam ⊢
    rw [if_pos h6]
    exact congrArg (Prod.mk _) (hteam _ List.mem_cons_self)
  rw [if_neg h6] at hteam ⊢
  rw [if_neg h6]
  by_cases h7 : kind = 7
  · rw [if_pos h7] at hteam ⊢
    rw [if_pos h7]
    cases hs : receivedSlot (ctx.x 19) (ctx.x 9) with
    | none => rfl
    | some slot =>
        rw [hs] at hteam
        exact congrArg (Prod.mk slot) (hteam _ List.mem_cons_self)
  rw [if_neg h7] at hteam ⊢
  rw [if_neg h7]
  exact congrArg (Prod.mk 0xff) (hteam _ List.mem_cons_self)

theorem localSlot_congr {session : UInt64}
    (h : ∀ k, LocalOwner m session k ↔ LocalOwner m' session k) :
    localSlot m session = localSlot m' session := by
  rcases localSlot_cases m session with ⟨k, hk⟩ | ⟨hnone, hff⟩
  · rw [localSlot_eq_of_owner hk, localSlot_eq_of_owner ((h k).mp hk)]
  · rcases localSlot_cases m' session with ⟨k, hk⟩ | ⟨-, hff'⟩
    · exact absurd ((h k).mpr hk) (hnone k)
    · rw [hff, hff']

/-- The sample closure reads the footprint only. -/
theorem SameFootprint.sampleEvent_eq {s : Statics} (h : SameFootprint s.base kind ctx m m')
    (env : CallEnv) (action : UInt8) (mode : UInt32) :
    sampleEvent s m env kind ctx action mode
      = sampleEvent s m' env kind ctx action mode := by
  unfold sampleEvent
  dsimp only
  rw [h.teamSource_eq, localSlot_congr h.owner, h.prepared, h.guard, word_congr h.request]
  by_cases hinit : byte m' (s.base + guardOffset) &&& 1 = 1
  · rw [h.global (h.guard ▸ hinit)]
  · have hbit : ¬ (byte m' (s.base + guardOffset) &&& 1 ≠ 0) := fun hne =>
      hinit (bit_ne_zero.mp hne)
    simp only [hbit, decide_false, Bool.false_eq_true, if_false]

theorem SameFootprint.record_eq {s : Statics} (h : SameFootprint s.base kind ctx m m')
    (env : CallEnv) (action : UInt8) :
    record s m env kind ctx action = record s m' env kind ctx action := by
  unfold record
  dsimp only
  rw [word_congr h.mode, h.sampleEvent_eq]

/-! ## The whole callback -/

/-- Two callbacks with the same visible outcome: mutation, recorded event,
    counters, banks and armed session. -/
structure SameOutcome (o o' : Observed) : Prop where
  action : o.action = o'.action
  writes : o.writes = o'.writes
  recorded : o.recorded = o'.recorded
  statics : o.world.statics = o'.world.statics

/-- Two memories a callback cannot tell apart give the same outcome. -/
theorem SameFootprint.observed {s : Statics} (h : SameFootprint s.base kind ctx m m')
    (hid : ∀ a ∈ teamFootprint kind ctx, a ∉ identityFootprint (recordSession kind ctx))
    (env : CallEnv) :
    SameOutcome (observe ⟨s, m⟩ env kind ctx)
      (observe ⟨s, m'⟩ env kind ctx) := by
  -- the two hooks that may mutate
  have hmu : SameMutated s.base kind ctx
      (if (s.experiment && (decide (kind = 0) || decide (kind = 5))) = true
        then mutateIfGuarded s m kind ctx
        else ⟨0xff, [], s.armedSession, m⟩)
      (if (s.experiment && (decide (kind = 0) || decide (kind = 5))) = true
        then mutateIfGuarded s m' kind ctx
        else ⟨0xff, [], s.armedSession, m'⟩) := by
    split_ifs
    · exact h.mutated hid
    · exact ⟨rfl, rfl, rfl, h⟩
  unfold observe
  dsimp only [hookPolicy]
  generalize (if (s.experiment && (decide (kind = 0) || decide (kind = 5))) = true
    then mutateIfGuarded s m kind ctx
    else ⟨0xff, [], s.armedSession, m⟩) = mu at hmu ⊢
  generalize (if (s.experiment && (decide (kind = 0) || decide (kind = 5))) = true
    then mutateIfGuarded s m' kind ctx
    else ⟨0xff, [], s.armedSession, m'⟩) = mu' at hmu ⊢
  obtain ⟨action, writes, armed, mem⟩ := mu
  obtain ⟨action', writes', armed', mem'⟩ := mu'
  obtain ⟨ha, hw, harmed, hmem⟩ := hmu
  dsimp only at ha hw harmed hmem
  subst ha hw harmed
  have hrec : record { s with armedSession := armed } mem env kind ctx action
      = record { s with armedSession := armed } mem' env kind ctx action :=
    SameFootprint.record_eq (s := { s with armedSession := armed }) hmem env action
  dsimp only
  rw [hrec]
  split_ifs <;> exact ⟨rfl, rfl, rfl, rfl⟩

/-- The callbacks that return before looking at game memory. -/
def Inert (s : Statics) (kind : Kind) (ctx : InlineCtx) : Prop :=
  (s.recording.active = false ∧ s.experiment = false)
    ∨ (s.recording.active = false ∧ kind ≠ 0 ∧ kind ≠ 5)
    ∨ (kind = 5 ∧ isProposal ctx = false)

/-- An inert callback does nothing. -/
theorem observe_inert {s : Statics} (h : Inert s kind ctx) (env : CallEnv) (m : Memory) :
    observe ⟨s, m⟩ env kind ctx = ⟨0xff, [], none, ⟨s, m⟩⟩ := by
  unfold observe
  dsimp only [hookPolicy]
  rcases h with ⟨ha, he⟩ | ⟨ha, h0, h5⟩ | ⟨rfl, hp⟩
  · simp only [ha, he, Bool.not_false, Bool.true_or, Bool.and_true, if_true]
  · simp only [ha, h0, h5, decide_false, Bool.or_self, Bool.not_false, Bool.or_true,
      Bool.and_true, if_true]
  · simp only [hp, decide_true, Bool.not_false, Bool.and_true, if_true, ite_self]

/-- **Events leak nothing outside the reviewed footprint.**  Two memories that
    agree on the footprint, and give the session the same first matching slot,
    give one callback the same recorded event, counters and mutation; and an
    inert callback's outcome does not depend on memory at all. -/
theorem observe_leaks_only_footprint (s : Statics) (env : CallEnv) (kind : Kind)
    (ctx : InlineCtx) (m m' : Memory)
    (h : (SameFootprint s.base kind ctx m m'
        ∧ ∀ a ∈ teamFootprint kind ctx, a ∉ identityFootprint (recordSession kind ctx))
      ∨ Inert s kind ctx) :
    SameOutcome (observe ⟨s, m⟩ env kind ctx) (observe ⟨s, m'⟩ env kind ctx) := by
  rcases h with ⟨hsame, hid⟩ | hinert
  · exact hsame.observed hid env
  · rw [observe_inert hinert, observe_inert hinert]
    exact ⟨rfl, rfl, rfl, rfl⟩

/-- The statics with the experiment armed and the observer recording. -/
def armedRecording : Statics :=
  { Statics.boot with experiment := true, recording := start Statics.boot.recording 0 }

/-- The proposal of `openScene` is written and recorded alike for two
    different identities. -/
theorem observe_leaks_only_footprint_identities :
    ((observe ⟨armedRecording, openScene 1⟩ ⟨0, false⟩ 5 (openCtx 0)).recorded).isSome = true
      ∧ SameOutcome (observe ⟨armedRecording, openScene 1⟩ ⟨0, false⟩ 5 (openCtx 0))
        (observe ⟨armedRecording, openScene 9⟩ ⟨0, false⟩ 5 (openCtx 0)) := by
  refine ⟨by decide +kernel, observe_leaks_only_footprint _ _ _ _ _ _
    (Or.inl ⟨⟨?_, ?_, ?_, ?_, ?_, ?_, ?_⟩, ?_⟩)⟩
  · decide
  · decide
  · decide
  · decide
  · decide
  · decide
  · unfold LocalOwner FirstMatch
    decide
  · exact forall_mem_of_all (by decide)

end TeamAttack.ApplicationProbe
