import TeamAttack.ApplicationProbe

/-! # What one callback can write

    `SessionGuards`, `ProposalGuards` and `LocalGuards` state the reviewed
    conditions of the two writes in their own terms.  `mutateIfGuarded_cases`
    says, once, everything the mutation path can do; `observe_mutation` says
    that a whole callback does exactly that to game memory and to the armed
    session, whatever the recording side is doing.  -/

namespace TeamAttack.ApplicationProbe

open ByteMemory Application Watch

/-- Slot `k` is the first entry of the session's identity table that holds the
    session's nonzero identity. -/
def LocalOwner (m : Memory) (session : UInt64) (k : Fin 16) : Prop :=
  FirstMatch (pointer m (session + 0x9ff8))
    (fun j => pointer m (session + 0xa018 + UInt64.ofNat j.val * 0x78)) k

/-- The conditions shared by both writes. -/
structure SessionGuards (s : Statics) (m : Memory) (session : UInt64) (k : Fin 16) :
    Prop where
  experiment : s.experiment = true
  session_ne : session ≠ 0
  mode : word m (s.base + modeOffset) = coopMode
  request : word m (session + sessionRequest) = 2
  prepared : byte m (session + sessionPrepared) = 0
  initialized : byte m (s.base + guardOffset) &&& 1 = 1
  global : byte m (s.base + globalOffset) = 0
  owner : LocalOwner m session k

/-- The conditions of the proposal write to `[x2 + 0x11]`. -/
structure ProposalGuards (s : Statics) (m : Memory) (kind : Kind) (ctx : InlineCtx) :
    Prop where
  kind : kind = 5
  session : ∃ k, SessionGuards s m (ctx.x 0) k ∧ byte m (ctx.x 2 + 0xc8) = UInt8.ofNat k.val
  command : (ctx.x 1).toUInt16 = 0xb4
  length : (ctx.x 3).toUInt32 = 0xd0
  buffer : ctx.x 2 ≠ 0
  team : byte m (ctx.x 2 + 0x11) = 0
  caller : ctx.x 30 - s.base = 0x1687fec ∨ ctx.x 30 - s.base = 0x1690884
    ∨ ctx.x 30 - s.base = 0x16f52d8 ∨ ctx.x 30 - s.base = 0x16fa0e8

/-- The conditions of the mirror write to `[x24 + LOCAL_TEAM]`. -/
structure LocalGuards (s : Statics) (m : Memory) (kind : Kind) (ctx : InlineCtx) :
    Prop where
  kind : kind = 0
  session : ∃ k, SessionGuards s m (ctx.x 24) k
  armed : s.armedSession = ctx.x 24
  team : byte m (ctx.x 24 + localTeam) = 0

/-! ## The guards as the code evaluates them -/

theorem identityEntries_eq (m : Memory) (session : UInt64) :
    identityEntries m session
      = fun j => pointer m (session + 0xa018 + UInt64.ofNat j.val * 0x78) := by
  funext j
  have haddr : session + 0xa010 + 8 = session + 0xa018 := by grind
  rw [identityEntries, haddr]

theorem owner_iff {m : Memory} {session : UInt64} {k : Fin 16} :
    LocalOwner m session k ↔
      identitySlot (pointer m (session + 0x9ff8)) (identityEntries m session) = some k := by
  rw [identitySlot_eq_some, identityEntries_eq, LocalOwner]

theorem localSlot_eq_of_owner {m : Memory} {session : UInt64} {k : Fin 16}
    (h : LocalOwner m session k) : localSlot m session = UInt8.ofNat k.val := by
  simp only [localSlot, owner_iff.mp h, Option.map_some, Option.getD_some]

/-- A local slot is the owner's, or FF when nobody owns the session. -/
theorem localSlot_cases (m : Memory) (session : UInt64) :
    (∃ k, LocalOwner m session k) ∨
      ((∀ k, ¬ LocalOwner m session k) ∧ localSlot m session = 0xff) := by
  cases h : identitySlot (pointer m (session + 0x9ff8)) (identityEntries m session) with
  | some k => exact Or.inl ⟨k, owner_iff.mpr h⟩
  | none =>
      refine Or.inr ⟨fun k hk => ?_, ?_⟩
      · have hsome := owner_iff.mp hk
        rw [h] at hsome
        exact nomatch hsome
      · simp only [localSlot, h, Option.map_none, Option.getD_none]

theorem ofNat_fin_lt (k : Fin 16) : UInt8.ofNat k.val < 16 := by
  rw [UInt8.lt_iff_toNat_lt, UInt8.toNat_ofNat']
  have := k.isLt
  show k.val % 256 < 16
  omega

theorem bit_zero (b : UInt8) : b &&& 1 = 0 ∨ b &&& 1 = 1 := by
  have h : (b &&& 1).toNat = b.toNat % 2 := by
    rw [UInt8.toNat_and]
    exact Nat.and_one_is_mod _
  rcases Nat.mod_two_eq_zero_or_one b.toNat with h0 | h1
  · exact Or.inl (UInt8.toNat_inj.mp (h.trans h0))
  · exact Or.inr (UInt8.toNat_inj.mp (h.trans h1))

theorem bit_ne_zero {b : UInt8} : b &&& 1 ≠ 0 ↔ b &&& 1 = 1 := by
  constructor
  · intro h
    exact (bit_zero b).resolve_left h
  · intro h h0
    rw [h] at h0
    exact absurd h0 (by decide)

theorem isProposal_iff (ctx : InlineCtx) :
    isProposal ctx = true ↔
      (ctx.x 1).toUInt16 = 0xb4 ∧ (ctx.x 3).toUInt32 = 0xd0 ∧ ctx.x 2 ≠ 0 := by
  simp only [isProposal, Bool.not_eq_true', Bool.or_eq_false_iff, decide_eq_false_iff_not,
    ne_eq, not_not, and_assoc]

theorem sessionRefused_eq_false {base session : UInt64} {m : Memory} :
    sessionRefused base session m = false ↔
      session ≠ 0 ∧ word m (session + sessionRequest) = 2
        ∧ byte m (session + sessionPrepared) = 0
        ∧ byte m (base + guardOffset) &&& 1 = 1 ∧ byte m (base + globalOffset) = 0 := by
  simp only [sessionRefused, Bool.or_eq_false_iff, decide_eq_false_iff_not, ne_eq, not_not,
    and_assoc]
  rw [← bit_ne_zero]

/-- The guards before the kind is looked at, as `SessionGuards`. -/
theorem sessionGuards_iff {s : Statics} {m : Memory} {session : UInt64} {k : Fin 16}
    (howner : LocalOwner m session k) :
    SessionGuards s m session k ↔
      s.experiment = true ∧ word m (s.base + modeOffset) = coopMode
        ∧ sessionRefused s.base session m = false := by
  rw [sessionRefused_eq_false]
  constructor
  · intro h
    exact ⟨h.experiment, h.mode, h.session_ne, h.request, h.prepared, h.initialized, h.global⟩
  · rintro ⟨hexp, hmode, hne, hreq, hprep, hinit, hglob⟩
    exact ⟨hexp, hne, hmode, hreq, hprep, hinit, hglob, howner⟩

/-- The outcome of a callback that passes no guard. -/
def Mutated.refused (s : Statics) (m : Memory) : Mutated := ⟨0xff, [], s.armedSession, m⟩

/-- The outcome of a proposal write. -/
def Mutated.proposal (m : Memory) (ctx : InlineCtx) : Mutated :=
  ⟨0, [⟨.proposal, ctx.x 2 + 0x11, 1⟩], ctx.x 0, writeByte m (ctx.x 2 + 0x11) 1⟩

/-- The outcome of a mirror write. -/
def Mutated.mirror (s : Statics) (m : Memory) (ctx : InlineCtx) : Mutated :=
  ⟨1, [⟨.localMirror, ctx.x 24 + localTeam, 1⟩], s.armedSession,
    writeByte m (ctx.x 24 + localTeam) 1⟩

theorem mutateProposal_eq {s : Statics} {m : Memory} {ctx : InlineCtx} {k : Fin 16}
    (h : SessionGuards s m (ctx.x 0) k) :
    (ProposalGuards s m 5 ctx
        ∧ mutateProposal s m ctx (ctx.x 0) (UInt8.ofNat k.val) = .proposal m ctx)
      ∨ (¬ ProposalGuards s m 5 ctx
        ∧ mutateProposal s m ctx (ctx.x 0) (UInt8.ofNat k.val) = .refused s m) := by
  -- the guards that the shared ones leave to the proposal
  have hguard : ProposalGuards s m 5 ctx ↔ isProposal ctx = true
      ∧ byte m (ctx.x 2 + 0xc8) = UInt8.ofNat k.val ∧ byte m (ctx.x 2 + 0x11) = 0
      ∧ submitOrigin (ctx.x 30 - s.base) < submitOriginCount := by
    rw [isProposal_iff, submitOrigin_lt_iff]
    constructor
    · intro hp
      obtain ⟨k', hk', hslot⟩ := hp.session
      have hsame : UInt8.ofNat k'.val = UInt8.ofNat k.val := by
        rw [← localSlot_eq_of_owner hk'.owner, ← localSlot_eq_of_owner h.owner]
      exact ⟨⟨hp.command, hp.length, hp.buffer⟩, hslot.trans hsame, hp.team, hp.caller⟩
    · rintro ⟨⟨hc, hl, hb⟩, hslot, hteam, hcaller⟩
      exact ⟨rfl, ⟨k, h, hslot⟩, hc, hl, hb, hteam, hcaller⟩
  -- of the code's guard only the last three comparisons are still open
  have hcode : proposalGuard (word m (s.base + modeOffset))
        (word m (ctx.x 0 + sessionRequest)) (byte m (ctx.x 0 + sessionPrepared))
        (byte m (s.base + guardOffset) &&& 1 ≠ 0) (byte m (s.base + globalOffset))
        (UInt8.ofNat k.val) (byte m (ctx.x 2 + 0xc8)) (byte m (ctx.x 2 + 0x11))
        (submitOrigin (ctx.x 30 - s.base)) = true
      ↔ byte m (ctx.x 2 + 0xc8) = UInt8.ofNat k.val ∧ byte m (ctx.x 2 + 0x11) = 0
        ∧ submitOrigin (ctx.x 30 - s.base) < submitOriginCount := by
    rw [proposalGuard_iff]
    constructor
    · rintro ⟨-, -, -, -, -, -, hrest⟩
      exact hrest
    · intro hrest
      exact ⟨h.mode, h.request, h.prepared, decide_eq_true (bit_ne_zero.mpr h.initialized),
        h.global, ofNat_fin_lt k, hrest⟩
  unfold mutateProposal
  by_cases hp : ProposalGuards s m 5 ctx
  · obtain ⟨hprop, hrest⟩ := hguard.mp hp
    refine Or.inl ⟨hp, ?_⟩
    simp only [hprop, hcode.mpr hrest, Bool.not_true, Bool.or_self, Bool.false_eq_true,
      if_false, byte_writeByte_self, if_true]
    rfl
  · refine Or.inr ⟨hp, ?_⟩
    have hor : (!isProposal ctx || !proposalGuard (word m (s.base + modeOffset))
        (word m (ctx.x 0 + sessionRequest)) (byte m (ctx.x 0 + sessionPrepared))
        (byte m (s.base + guardOffset) &&& 1 ≠ 0) (byte m (s.base + globalOffset))
        (UInt8.ofNat k.val) (byte m (ctx.x 2 + 0xc8)) (byte m (ctx.x 2 + 0x11))
        (submitOrigin (ctx.x 30 - s.base))) = true := by
      rw [Bool.or_eq_true, Bool.not_eq_true', Bool.not_eq_true', ← Bool.not_eq_true,
        ← Bool.not_eq_true, ← not_and_or, hcode]
      exact fun hall => hp (hguard.mpr hall)
    rw [if_pos hor]
    rfl

theorem mutateLocal_eq {s : Statics} {m : Memory} {ctx : InlineCtx} {k : Fin 16}
    (h : SessionGuards s m (ctx.x 24) k) :
    (LocalGuards s m 0 ctx ∧ mutateLocal s m (ctx.x 24) = .mirror s m ctx)
      ∨ (¬ LocalGuards s m 0 ctx ∧ mutateLocal s m (ctx.x 24) = .refused s m) := by
  unfold mutateLocal
  -- the two tests that only the mirror has
  by_cases hg : s.armedSession = ctx.x 24 ∧ byte m (ctx.x 24 + localTeam) = 0
  · refine Or.inl ⟨⟨rfl, ⟨k, h⟩, hg.1, hg.2⟩, ?_⟩
    simp only [hg.1, hg.2, decide_true, Bool.and_self, if_true, byte_writeByte_self]
    simp only [Mutated.mirror, hg.1]
  · refine Or.inr ⟨fun hl => hg ⟨hl.armed, hl.team⟩, ?_⟩
    have hand : ¬ (decide (s.armedSession = ctx.x 24)
        && decide (byte m (ctx.x 24 + localTeam) = 0)) = true := by
      rw [Bool.and_eq_true, decide_eq_true_eq, decide_eq_true_eq]
      exact hg
    rw [if_neg hand]
    rfl

/-- Without a session that passes the shared guards, neither write is guarded. -/
theorem unguarded {s : Statics} {m : Memory} {kind : Kind} {ctx : InlineCtx}
    (hnone : ∀ session, guardedSession kind ctx = some session →
      ∀ k, ¬ SessionGuards s m session k) :
    ¬ ProposalGuards s m kind ctx ∧ ¬ LocalGuards s m kind ctx := by
  constructor
  · intro hp
    obtain ⟨k, hk, -⟩ := hp.session
    exact hnone (ctx.x 0) (by rw [hp.kind]; rfl) k hk
  · intro hl
    obtain ⟨k, hk⟩ := hl.session
    exact hnone (ctx.x 24) (by rw [hl.kind]; rfl) k hk

/-- Behind the shared guards the kind decides which write is tried. -/
theorem mutateSession_cases {s : Statics} {m : Memory} {kind : Kind} {ctx : InlineCtx}
    {session : UInt64} {k : Fin 16} (hsess : guardedSession kind ctx = some session)
    (hg : SessionGuards s m session k) {result : Mutated}
    (hresult : result = if kind = 5 then mutateProposal s m ctx session (UInt8.ofNat k.val)
      else mutateLocal s m session) :
    (ProposalGuards s m kind ctx ∧ result = .proposal m ctx)
      ∨ (LocalGuards s m kind ctx ∧ result = .mirror s m ctx)
      ∨ (¬ ProposalGuards s m kind ctx ∧ ¬ LocalGuards s m kind ctx
          ∧ result = .refused s m) := by
  by_cases h5 : kind = 5
  · subst h5
    obtain rfl : ctx.x 0 = session := Option.some.inj hsess
    rw [hresult, if_pos rfl]
    rcases mutateProposal_eq hg with ⟨hp, heq⟩ | ⟨hp, heq⟩
    · exact Or.inl ⟨hp, heq⟩
    · exact Or.inr (Or.inr ⟨hp, fun hl => absurd hl.kind (by decide), heq⟩)
  · -- only the kinds 0 and 5 have a session
    have h0 : kind = 0 := by
      by_contra h0
      simp [guardedSession, h0, h5] at hsess
    subst h0
    obtain rfl : ctx.x 24 = session := Option.some.inj hsess
    rw [hresult, if_neg h5]
    rcases mutateLocal_eq hg with ⟨hl, heq⟩ | ⟨hl, heq⟩
    · exact Or.inr (Or.inl ⟨hl, heq⟩)
    · exact Or.inr (Or.inr ⟨fun hp => absurd hp.kind (by decide), hl, heq⟩)

/-- **Everything the mutation path can do.** -/
theorem mutateIfGuarded_cases (s : Statics) (m : Memory) (kind : Kind) (ctx : InlineCtx) :
    (ProposalGuards s m kind ctx ∧ mutateIfGuarded s m kind ctx = .proposal m ctx)
      ∨ (LocalGuards s m kind ctx ∧ mutateIfGuarded s m kind ctx = .mirror s m ctx)
      ∨ (¬ ProposalGuards s m kind ctx ∧ ¬ LocalGuards s m kind ctx
          ∧ mutateIfGuarded s m kind ctx = .refused s m) := by
  have hrefuse (hnone : ∀ session, guardedSession kind ctx = some session →
      ∀ k, ¬ SessionGuards s m session k) {result : Mutated} (hresult : result = .refused s m) :
      (ProposalGuards s m kind ctx ∧ result = .proposal m ctx)
        ∨ (LocalGuards s m kind ctx ∧ result = .mirror s m ctx)
        ∨ (¬ ProposalGuards s m kind ctx ∧ ¬ LocalGuards s m kind ctx
            ∧ result = .refused s m) :=
    Or.inr (Or.inr ⟨(unguarded hnone).1, (unguarded hnone).2, hresult⟩)
  unfold mutateIfGuarded
  by_cases hexp : s.experiment = true
  case neg =>
    rw [if_pos (by rw [Bool.not_eq_true] at hexp; rw [hexp]; rfl)]
    exact hrefuse (fun _ _ k hk => hexp hk.experiment) rfl
  rw [if_neg (by rw [hexp]; exact Bool.false_ne_true)]
  by_cases hmode : word m (s.base + modeOffset) = coopMode
  case neg =>
    rw [if_pos hmode]
    exact hrefuse (fun _ _ k hk => hmode hk.mode) rfl
  rw [if_neg (not_not.mpr hmode)]
  cases hsess : guardedSession kind ctx with
  | none => exact hrefuse (fun _ h => nomatch hsess ▸ h) rfl
  | some session =>
      dsimp only
      by_cases href : sessionRefused s.base session m = true
      · rw [if_pos href]
        refine hrefuse ?_ rfl
        intro session' heq k' hk'
        obtain rfl : session = session' := Option.some.inj (hsess ▸ heq)
        have hpassed := ((sessionGuards_iff hk'.owner).mp hk').2.2
        exact nomatch href.symm.trans hpassed
      rw [if_neg href]
      -- `localSlot` finds an owner, or answers 0xff
      rcases localSlot_cases m session with ⟨k, howner⟩ | ⟨hno, hff⟩
      · have hlt : ¬ (16 ≤ UInt8.ofNat k.val) := UInt8.not_le.mpr (ofNat_fin_lt k)
        have hg : SessionGuards s m session k :=
          (sessionGuards_iff howner).mpr ⟨hexp, hmode, Bool.not_eq_true _ ▸ href⟩
        rw [localSlot_eq_of_owner howner, if_neg hlt]
        exact mutateSession_cases hsess hg rfl
      · rw [hff, if_pos (by decide)]
        refine hrefuse ?_ rfl
        intro session' heq k' hk'
        obtain rfl : session = session' := Option.some.inj (hsess ▸ heq)
        exact hno k' hk'.owner

/-- A callback that does not look like a proposal mutates nothing. -/
theorem mutateIfGuarded_not_proposal {s : Statics} {m : Memory} {ctx : InlineCtx}
    (h : isProposal ctx = false) : mutateIfGuarded s m 5 ctx = .refused s m := by
  rcases mutateIfGuarded_cases s m 5 ctx with ⟨hp, -⟩ | ⟨hl, -⟩ | ⟨-, -, heq⟩
  · have := (isProposal_iff ctx).mpr ⟨hp.command, hp.length, hp.buffer⟩
    rw [h] at this
    exact nomatch this
  · exact absurd hl.kind (by decide)
  · exact heq

/-- Without the experiment, or at a read-only site, nothing is mutated. -/
theorem mutateIfGuarded_off {s : Statics} {m : Memory} {kind : Kind} {ctx : InlineCtx}
    (h : s.experiment = false ∨ (kind ≠ 0 ∧ kind ≠ 5)) :
    mutateIfGuarded s m kind ctx = .refused s m := by
  rcases mutateIfGuarded_cases s m kind ctx with ⟨hp, -⟩ | ⟨hl, -⟩ | ⟨-, -, heq⟩
  · rcases h with hexp | ⟨-, h5⟩
    · obtain ⟨k, hk, -⟩ := hp.session
      exact absurd hk.experiment (by rw [hexp]; exact Bool.false_ne_true)
    · exact absurd hp.kind h5
  · rcases h with hexp | ⟨h0, -⟩
    · obtain ⟨k, hk⟩ := hl.session
      exact absurd hk.experiment (by rw [hexp]; exact Bool.false_ne_true)
    · exact absurd hl.kind h0
  · exact heq

/-- The mutation side of an observed callback. -/
structure Observed.Mutates (o : Observed) (mu : Mutated) : Prop where
  action : o.action = mu.action
  writes : o.writes = mu.writes
  mem : o.world.mem = mu.mem
  armed : o.world.statics.armedSession = mu.armedSession

/-- **A callback mutates exactly as `mutateIfGuarded` does**, whether or not
    it records. -/
theorem observe_mutation (w : World) (env : CallEnv) (kind : Kind) (ctx : InlineCtx) :
    (observe w env kind ctx).Mutates (mutateIfGuarded w.statics w.mem kind ctx) := by
  unfold observe
  dsimp only [hookPolicy]
  by_cases hkind : kind = 0 ∨ kind = 5
  case neg =>
    obtain ⟨h0, h5⟩ := not_or.mp hkind
    rw [mutateIfGuarded_off (Or.inr ⟨h0, h5⟩)]
    simp only [h0, h5, decide_false, Bool.or_self, Bool.and_false, Bool.not_false,
      Bool.or_true, Bool.and_true, Bool.false_and, Bool.false_eq_true, if_false]
    split_ifs <;> exact ⟨rfl, rfl, rfl, rfl⟩
  have hor : (decide (kind = 0) || decide (kind = 5)) = true := by
    rw [Bool.or_eq_true, decide_eq_true_eq, decide_eq_true_eq]
    exact hkind
  simp only [hor, Bool.not_true, Bool.or_false, Bool.and_true]
  by_cases hexp : w.statics.experiment = true
  case neg =>
    rw [Bool.not_eq_true] at hexp
    rw [mutateIfGuarded_off (Or.inl hexp)]
    simp only [hexp, Bool.not_false, Bool.and_true, Bool.false_eq_true, if_false]
    split_ifs <;> exact ⟨rfl, rfl, rfl, rfl⟩
  simp only [hexp, Bool.not_true, Bool.and_false, Bool.false_eq_true, if_false, if_true]
  by_cases hskip : (decide (kind = 5) && !isProposal ctx) = true
  · rw [if_pos hskip]
    rw [Bool.and_eq_true, decide_eq_true_eq, Bool.not_eq_true'] at hskip
    obtain ⟨rfl, hprop⟩ := hskip
    rw [mutateIfGuarded_not_proposal hprop]
    exact ⟨rfl, rfl, rfl, rfl⟩
  · rw [if_neg hskip]
    split_ifs <;> exact ⟨rfl, rfl, rfl, rfl⟩

/-- A callback keeps the experiment flag and the module base. -/
theorem observe_frame (w : World) (env : CallEnv) (kind : Kind) (ctx : InlineCtx) :
    (observe w env kind ctx).world.statics.experiment = w.statics.experiment
      ∧ (observe w env kind ctx).world.statics.base = w.statics.base := by
  unfold observe
  dsimp only [hookPolicy]
  split_ifs <;> exact ⟨rfl, rfl⟩

/-! ## The guards can all pass -/

/-- A game state in which the proposal write fires, by distance from the
    module base: a session at 0x1000000 whose identity is entry 3 of its
    table, and a proposal at 0x2000000. -/
def openScene (identity : UInt8) : Memory := fun offset =>
  if offset = modeOffset then 0x02
  else if offset = modeOffset + 1 ∨ offset = modeOffset + 2 then 0x01
  else if offset = modeOffset + 3 then 0x07
  else if offset = guardOffset then 1
  else if offset = 0x1000000 + sessionRequest then 2
  else if offset = 0x1000000 + 0x9ff8 ∨ offset = 0x1000000 + 0xa018 + 3 * 0x78 then identity
  else if offset = 0x2000000 + 0xc8 then 3
  else 0

/-- The submission of that proposal. -/
def openCtx (base : UInt64) : InlineCtx where
  x := fun i =>
    if i = 0 then base + 0x1000000
    else if i = 1 then 0xb4
    else if i = 2 then base + 0x2000000
    else if i = 3 then 0xd0
    else if i = 30 then base + 0x1687fec
    else 0

theorem openScene_owner (base : UInt64) :
    LocalOwner (relocate base (openScene 1)) (base + 0x1000000) 3 := by
  have hentry : ∀ j : Fin 16, pointer (relocate base (openScene 1))
        (base + 0x1000000 + 0xa018 + UInt64.ofNat j.val * 0x78)
      = pointer (openScene 1) (0x1000000 + 0xa018 + UInt64.ofNat j.val * 0x78) := by
    intro j
    rw [UInt64.add_assoc, UInt64.add_assoc, pointer_relocate, UInt64.add_assoc]
  rw [LocalOwner, FirstMatch, UInt64.add_assoc base, pointer_relocate]
  simp only [hentry]
  decide

/-- With the experiment on, the proposal write fires somewhere. -/
theorem openScene_guards {s : Statics} (hexp : s.experiment = true)
    (hne : s.base + 0x1000000 ≠ 0) (hbuffer : s.base + 0x2000000 ≠ 0) :
    ProposalGuards s (relocate s.base (openScene 1)) 5 (openCtx s.base) where
  kind := rfl
  session := by
    refine ⟨3, ⟨hexp, hne, ?_, ?_, ?_, ?_, ?_, openScene_owner s.base⟩, ?_⟩
    · rw [word_relocate]
      decide
    · rw [show (openCtx s.base).x 0 = s.base + 0x1000000 from rfl, UInt64.add_assoc,
        word_relocate]
      decide
    · rw [show (openCtx s.base).x 0 = s.base + 0x1000000 from rfl, UInt64.add_assoc,
        byte_relocate]
      decide
    · rw [byte_relocate]
      decide
    · rw [byte_relocate]
      decide
    · rw [show (openCtx s.base).x 2 = s.base + 0x2000000 from rfl, UInt64.add_assoc,
        byte_relocate]
      decide
  command := show (0xb4 : UInt64).toUInt16 = 0xb4 by decide
  length := show (0xd0 : UInt64).toUInt32 = 0xd0 by decide
  buffer := hbuffer
  team := by
    rw [show (openCtx s.base).x 2 = s.base + 0x2000000 from rfl, UInt64.add_assoc,
      byte_relocate]
    decide
  caller := by
    rw [show (openCtx s.base).x 30 = s.base + 0x1687fec from rfl]
    exact Or.inl (by grind)

/-! ## The effect of one callback on game memory -/

/-- **One callback, one guarded byte.**  A callback executes at most one
    write, of 1 over a 0 byte, and changes nothing else; the write is the
    proposal's exactly under `ProposalGuards` and the mirror's exactly under
    `LocalGuards`. -/
theorem observe_writes_one_guarded_byte (w : World) (env : CallEnv) (kind : Kind)
    (ctx : InlineCtx) :
    ((observe w env kind ctx).world.mem = w.mem
      ∨ ∃ a, w.mem a = 0 ∧ (observe w env kind ctx).world.mem = writeByte w.mem a 1)
    ∧ (⟨.proposal, ctx.x 2 + 0x11, 1⟩ ∈ (observe w env kind ctx).writes
        ↔ ProposalGuards w.statics w.mem kind ctx)
    ∧ (⟨.localMirror, ctx.x 24 + localTeam, 1⟩ ∈ (observe w env kind ctx).writes
        ↔ LocalGuards w.statics w.mem kind ctx)
    ∧ (∀ x ∈ (observe w env kind ctx).writes,
        x = ⟨.proposal, ctx.x 2 + 0x11, 1⟩ ∨ x = ⟨.localMirror, ctx.x 24 + localTeam, 1⟩)
    ∧ (observe w env kind ctx).writes.length ≤ 1
    ∧ (observe w env kind ctx).world.mem = (observe w env kind ctx).writes.foldl
        (fun m x => writeByte m x.address x.value) w.mem := by
  obtain ⟨-, hwrites, hmem, -⟩ := observe_mutation w env kind ctx
  rw [hwrites, hmem]
  rcases mutateIfGuarded_cases w.statics w.mem kind ctx with
    ⟨hp, heq⟩ | ⟨hl, heq⟩ | ⟨hp, hl, heq⟩
  -- the two writes ask for different kinds
  · have hl : ¬ LocalGuards w.statics w.mem kind ctx := fun hl =>
      absurd (hp.kind.symm.trans hl.kind) (by decide)
    simp only [heq, Mutated.proposal]
    refine ⟨Or.inr ⟨ctx.x 2 + 0x11, hp.team, rfl⟩, ?_, ?_, ?_, Nat.le_refl 1,
      by rw [List.foldl_cons, List.foldl_nil]⟩
    · exact ⟨fun _ => hp, fun _ => List.mem_cons_self⟩
    · exact ⟨fun h => by simp at h, fun h => absurd h hl⟩
    · exact fun x hx => Or.inl (List.mem_singleton.mp hx)
  · have hp : ¬ ProposalGuards w.statics w.mem kind ctx := fun hp =>
      absurd (hp.kind.symm.trans hl.kind) (by decide)
    simp only [heq, Mutated.mirror]
    refine ⟨Or.inr ⟨ctx.x 24 + localTeam, hl.team, rfl⟩, ?_, ?_, ?_, Nat.le_refl 1,
      by rw [List.foldl_cons, List.foldl_nil]⟩
    · exact ⟨fun h => by simp at h, fun h => absurd h hp⟩
    · exact ⟨fun _ => hl, fun _ => List.mem_cons_self⟩
    · exact fun x hx => Or.inr (List.mem_singleton.mp hx)
  · rw [heq]
    refine ⟨Or.inl rfl, ?_, ?_, ?_, Nat.zero_le 1, rfl⟩
    · exact ⟨nofun, fun h => absurd h hp⟩
    · exact ⟨nofun, fun h => absurd h hl⟩
    · exact nofun

end TeamAttack.ApplicationProbe
