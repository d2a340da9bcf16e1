import TeamAttack.InstallGates

/-! # The steps ahead of the writer's spawn

    What a run of `prepare` that ends has shown (`learns_prepare`), what it
    stores for the callbacks (`stores_prepare`), and that it ends when each of
    its fallible steps succeeds (`reaches_prepare`). -/

namespace TeamAttack.Install

open RustStr RustSlice ByteMemory Application Watch Hoare ApplicationProbe ExceptRules
open CheckedWord

/-- Does this configuration write the status line, when nothing fails? -/
def StatusLine.calledFor (config : Config) : StatusLine → Bool
  | .logReady => true
  | .codecVerified | .selfTestStarted | .selfTestPassed | .hookedTestPassed =>
      config.observeRuleCodec
  | .applicationInstalling | .applicationInstalled => config.observeRuleApplication
  | .selfTestFailed | .hookedTestFailed => false

/-- Every fallible step ahead of the spawn of the writer succeeds. -/
structure ReachesSpawn (env : Env) (config : Config) : Prop where
  gates : ∀ g : Gate, g.calledFor config = true → g.Holds env config
  statuses : ∀ line : StatusLine, line.calledFor config = true → env.status line = .ok ()
  trampolines : config.observeRuleCodec = true → ∀ d, env.codecTrampoline d ≠ 0
  sites : config.observeRuleApplication = true → ∀ k, (env.siteWords k).verified = true

variable {env : Env} {config : Config}

/-! ## What a prepared installation has shown -/

theorem learns_status (line : StatusLine) (message : Str) (f : Str → Str) :
    Learns (requireStatus env line message f) (env.status line = .ok ()) := by
  rw [requireStatus, status]
  cases env.status line with
  | ok _ => exact learns_of rfl _
  | error e =>
      refine Triple.bind (Q := fun r _ => r = .error e) (Triple.value (fun _ _ => rfl)) ?_
      rintro r
      constructor
      rintro s rfl
      trivial

theorem learns_statusOrAbort (line : StatusLine) (message : Str) :
    Learns (statusOrAbort env line message) (env.status line = .ok ()) := by
  rw [statusOrAbort, status]
  cases env.status line with
  | ok _ => exact learns_of rfl _
  | error e =>
      refine Triple.bind (Q := fun r _ => r = .error e) (Triple.value (fun _ _ => rfl)) ?_
      rintro r
      constructor
      rintro s rfl
      trivial

theorem learns_hookCodec (direction : CodecProbe.Direction) :
    Learns (hookCodec env direction) (env.codecTrampoline direction ≠ 0) :=
  learns_later (fun _ => learns_optional (fun _ => learns_throw _) (fun h => h))

theorem learns_hookSite (kind : Kind) :
    Learns (hookSite env kind) ((env.siteWords kind).verified = true) := by
  refine learns_later (fun _ => Triple.ite (fun _ => learns_throw _) ?_)
  intro h
  refine learns_of ?_ _
  simpa using h

theorem learns_installCodec :
    Learns (installCodec env)
      ((∀ line ∈ [StatusLine.codecVerified, .selfTestStarted, .selfTestPassed,
          .hookedTestPassed], env.status line = .ok ())
        ∧ ∀ d, env.codecTrampoline d ≠ 0) := by
  have hselfTest : Learns (runSelfTest env) (env.status .selfTestPassed = .ok ()) := by
    rw [runSelfTest]
    cases env.selfTest with
    | error e => exact learns_later (fun _ => learns_throw _)
    | ok calls => exact learns_later (fun _ => learns_status _ _ _)
  have hhooked : Learns (runHookedSelfTest env) (env.status .hookedTestPassed = .ok ()) := by
    rw [runHookedSelfTest]
    cases env.hookedSelfTest with
    | error e => exact learns_later (fun _ => learns_throw _)
    | ok calls => exact learns_later (fun _ => learns_statusOrAbort _ _)
  -- one fact a step, in the order of the steps
  have h1 : Learns (installCodec env) (env.status .codecVerified = .ok ()) :=
    learns_first (learns_status _ _ _)
  have h2 : Learns (installCodec env) (env.status .selfTestStarted = .ok ()) :=
    learns_later (fun _ => learns_first (learns_status _ _ _))
  have h3 : Learns (installCodec env) (env.status .selfTestPassed = .ok ()) :=
    learns_later (fun _ => learns_later (fun _ => learns_first hselfTest))
  have h4 : Learns (installCodec env) (env.codecTrampoline 0 ≠ 0) :=
    learns_later (fun _ => learns_later (fun _ => learns_later (fun _ =>
      learns_first (learns_hookCodec 0))))
  have h5 : Learns (installCodec env) (env.codecTrampoline 1 ≠ 0) :=
    learns_later (fun _ => learns_later (fun _ => learns_later (fun _ =>
      learns_later (fun _ => learns_first (learns_hookCodec 1)))))
  have h6 : Learns (installCodec env) (env.status .hookedTestPassed = .ok ()) :=
    learns_later (fun _ => learns_later (fun _ => learns_later (fun _ =>
      learns_later (fun _ => learns_later (fun _ => hhooked)))))
  refine (h1.and (h2.and (h3.and (h6.and (h4.and h5))))).mono ?_
  rintro ⟨h1, h2, h3, h6, h4, h5⟩
  refine ⟨?_, ?_⟩
  · simp only [List.mem_cons, List.not_mem_nil, or_false]
    rintro line (rfl | rfl | rfl | rfl)
    · exact h1
    · exact h2
    · exact h3
    · exact h6
  · intro d
    fin_cases d
    · exact h4
    · exact h5

theorem learns_installApplication :
    Learns (installApplication env config)
      ((∀ line ∈ [StatusLine.applicationInstalling, .applicationInstalled],
          env.status line = .ok ())
        ∧ ∀ k, (env.siteWords k).verified = true) := by
  have h1 : Learns (installApplication env config)
      (env.status .applicationInstalling = .ok ()) := learns_first (learns_status _ _ _)
  have h2 : Learns (installApplication env config)
      (∀ k ∈ List.finRange siteCount, (env.siteWords k).verified = true) :=
    learns_later (fun _ => learns_first (learns_later (fun _ => learns_later (fun _ =>
      learns_loop (fun k _ => learns_hookSite k)))))
  have h3 : Learns (installApplication env config)
      (env.status .applicationInstalled = .ok ()) :=
    learns_later (fun _ => learns_later (fun _ => learns_statusOrAbort _ _))
  refine (h1.and (h2.and h3)).mono ?_
  rintro ⟨h1, h2, h3⟩
  refine ⟨?_, fun k => h2 k (List.mem_finRange k)⟩
  simp only [List.mem_cons, List.not_mem_nil, or_false]
  rintro line (rfl | rfl)
  · exact h1
  · exact h3

/-- A prepared installation has got everything right. -/
theorem learns_prepare :
    Triple (Sound env config noGates) (prepare env config)
      (fun _ _ => ReachesSpawn env config) (fun _ _ => True) := by
  -- three facts, each read off the step it comes from
  have hlog : Learns (prepare env config) (env.status .logReady = .ok ()) := by
    refine learns_later (fun r => learns_later (fun _ => ?_))
    refine learns_past (learns_later (fun _ => learns_first ?_))
    exact learns_later (fun _ => learns_later (fun _ => learns_status _ _ _))
  have hcodec : Learns (prepare env config) (config.observeRuleCodec = true →
      (∀ line ∈ [StatusLine.codecVerified, .selfTestStarted, .selfTestPassed,
          .hookedTestPassed], env.status line = .ok ())
        ∧ ∀ d, env.codecTrampoline d ≠ 0) := by
    refine learns_later (fun r => learns_later (fun _ => ?_))
    refine learns_past (learns_later (fun _ => learns_later (fun _ => ?_)))
    exact learns_optional (fun _ => learns_installCodec.mono (fun h _ => h))
      (fun hoff hon => absurd hon hoff)
  have happ : Learns (prepare env config) (config.observeRuleApplication = true →
      (∀ line ∈ [StatusLine.applicationInstalling, .applicationInstalled],
          env.status line = .ok ())
        ∧ ∀ k, (env.siteWords k).verified = true) := by
    refine learns_later (fun r => learns_later (fun _ => ?_))
    refine learns_past (learns_later (fun _ => learns_later (fun _ => learns_past ?_)))
    exact learns_optional (fun _ => learns_installApplication.mono (fun h _ => h))
      (fun hoff hon => absurd hon hoff)
  refine (Triple.and keeps_prepare ((hlog.and (hcodec.and happ)).triple _)).conseq
    (fun _ hb => hb) ?_ (fun _ _ _ => trivial)
  rintro _ b ⟨⟨-, hsound⟩, hlog, hcodec, happ⟩
  refine ⟨fun g hg => (hsound.gates g hg).2, ?_, ?_, ?_⟩
  · intro line hcalled
    cases line with
    | logReady => exact hlog
    | codecVerified => exact (hcodec hcalled).1 _ (by simp)
    | selfTestStarted => exact (hcodec hcalled).1 _ (by simp)
    | selfTestPassed => exact (hcodec hcalled).1 _ (by simp)
    | hookedTestPassed => exact (hcodec hcalled).1 _ (by simp)
    | applicationInstalling => exact (happ hcalled).1 _ (by simp)
    | applicationInstalled => exact (happ hcalled).1 _ (by simp)
    | selfTestFailed => exact nomatch hcalled
    | hookedTestFailed => exact nomatch hcalled
  · intro hon
    exact (hcodec hon).2
  · intro hon
    exact (happ hon).2

/-! ## What the steps do to the experiment flag -/

/-- `EXPERIMENT` is down. -/
def Off (b : Boot) : Prop := b.application.experiment = false

/-- The program leaves `EXPERIMENT` down. -/
abbrev StaysOff {α : Type} (x : M α) : Prop := Triple Off x (fun _ => Off) (fun _ => Off)

section StaysOff

variable {α β : Type} {x : M α} {k : α → M β}

theorem staysOff_bind (hx : StaysOff x) (hk : ∀ a, StaysOff (k a)) : StaysOff (x >>= k) :=
  Triple.bind hx hk

theorem staysOff_tryOk (x : Checked α) : StaysOff (tryOk x) := by
  cases x with
  | ok a => exact Triple.value (fun _ hb => hb)
  | error e => exact Triple.exit (fun _ hb => hb)

theorem staysOff_reach (action : Action) : StaysOff (reach action) :=
  Triple.update (fun _ hb => hb)

theorem staysOff_pass (gate : Gate) (x : Checked α) : StaysOff (pass gate x) :=
  staysOff_bind (staysOff_tryOk x) (fun _ => staysOff_bind (staysOff_reach _)
    (fun _ => Triple.value (fun _ hb => hb)))

theorem staysOff_status (line : StatusLine) (message : Str) :
    StaysOff (status env line message) := by
  rw [status]
  cases env.status line with
  | ok _ =>
      refine staysOff_bind (Triple.update ?_) ?_
      · exact fun _ hb => hb
      · exact fun _ => Triple.value (fun _ hb => hb)
  | error e => exact Triple.value (fun _ hb => hb)

theorem staysOff_requireStatus (line : StatusLine) (message : Str) (f : Str → Str) :
    StaysOff (requireStatus env line message f) :=
  staysOff_bind (staysOff_status line message) (fun _ => staysOff_tryOk _)

theorem staysOff_optional {c : Prop} [Decidable c] {x : M PUnit} {k : PUnit → M β}
    (hx : StaysOff x) (hk : StaysOff (k ⟨⟩)) : StaysOff (if c then x >>= k else k ⟨⟩) :=
  Triple.optional (fun _ => hx) (fun _ _ hb => hb) hk

theorem staysOff_validateAll : StaysOff (validateAll env config) := by
  refine staysOff_bind (staysOff_tryOk _) (fun _ => staysOff_bind (staysOff_pass _ _) ?_)
  intro _
  refine staysOff_bind (staysOff_pass _ _) (fun _ => staysOff_bind (staysOff_pass _ _) ?_)
  intro _
  refine staysOff_optional ?_ (staysOff_optional (staysOff_pass _ _) (Triple.ite ?_ ?_))
  · exact staysOff_bind (staysOff_pass _ _) (fun _ =>
      staysOff_bind (staysOff_pass _ _) (fun _ => staysOff_pass _ _))
  · intro _
    refine staysOff_bind ?_ (fun _ => Triple.value (fun _ hb => hb))
    refine staysOff_bind (staysOff_pass _ _) (fun _ => staysOff_bind (staysOff_tryOk _) ?_)
    intro _
    exact staysOff_bind (staysOff_pass _ _) (fun _ => staysOff_bind (staysOff_pass _ _)
      (fun _ => Triple.value (fun _ hb => hb)))
  · intro _
    exact Triple.value (fun _ hb => hb)

theorem staysOff_createLog : StaysOff (createLog env config) := by
  refine staysOff_bind (staysOff_pass _ _) (fun _ => staysOff_bind (Triple.update ?_) ?_)
  · exact fun _ hb => hb
  · exact fun _ => staysOff_requireStatus _ _ _

theorem staysOff_hookCodec (direction : CodecProbe.Direction) :
    StaysOff (hookCodec env direction) := by
  refine staysOff_bind (staysOff_reach _) (fun _ => staysOff_optional ?_ (Triple.update ?_))
  · exact Triple.exit (fun _ hb => hb)
  · exact fun _ hb => hb

theorem staysOff_installCodec : StaysOff (installCodec env) := by
  refine staysOff_bind (staysOff_requireStatus _ _ _) (fun _ =>
    staysOff_bind (staysOff_requireStatus _ _ _) (fun _ => staysOff_bind ?_ (fun _ =>
      staysOff_bind (staysOff_hookCodec 0) (fun _ => staysOff_bind (staysOff_hookCodec 1)
        (fun _ => ?_)))))
  · rw [runSelfTest]
    cases env.selfTest with
    | error e => exact staysOff_bind (staysOff_status _ _) (fun _ => Triple.exit (fun _ hb => hb))
    | ok calls => exact staysOff_bind (staysOff_reach _) (fun _ => staysOff_requireStatus _ _ _)
  · rw [runHookedSelfTest]
    cases env.hookedSelfTest with
    | error e => exact staysOff_bind (staysOff_status _ _) (fun _ => Triple.exit (fun _ hb => hb))
    | ok calls =>
        refine staysOff_bind (staysOff_reach _) (fun _ => staysOff_bind (staysOff_status _ _) ?_)
        rintro (_ | _)
        · exact Triple.exit (fun _ hb => hb)
        · exact Triple.value (fun _ hb => hb)

end StaysOff

/-- `EXPERIMENT` and `BASE` as the application block leaves them. -/
def Stored (env : Env) (config : Config) (b : Boot) : Prop :=
  b.application.experiment = decide (config.mode = .proposalExperiment)
    ∧ b.application.base = env.textAddress

/-- An error, rather than an abort, finds `EXPERIMENT` down. -/
def ErrsOff (e : Exit) (b : Boot) : Prop := ∀ message, e = .refused message → Off b

/-- Once the application block has stored the flag, it can only abort. -/
theorem stores_installApplication :
    Triple Off (installApplication env config) (fun _ => Stored env config) ErrsOff := by
  refine Triple.bind (Q := fun _ => Off) ((staysOff_requireStatus _ _ _).conseq
    (fun _ hb => hb) (fun _ _ hb => hb) (fun _ _ hb _ _ => hb)) ?_
  intro _
  refine Triple.bind (Q := fun _ => Stored env config) ?_ ?_
  · refine Triple.bind (Q := fun _ => Stored env config)
      (Triple.update (fun _ _ => ⟨rfl, rfl⟩)) ?_
    intro _
    refine Triple.bind (Q := fun _ => Stored env config) (Triple.update (fun _ hb => hb)) ?_
    intro _
    -- a hook site that fails aborts
    refine Triple.loop ?_
    intro kind _
    refine Triple.bind (Q := fun _ => Stored env config) (Triple.update (fun _ hb => hb)) ?_
    intro _
    refine Triple.ite (fun _ => Triple.exit ?_) (fun _ => Triple.value (fun _ hb => hb))
    intro _ _ message heq
    exact nomatch heq
  · intro _
    rw [statusOrAbort, status]
    cases env.status .applicationInstalled with
    | ok _ =>
        refine Triple.bind (Q := fun r b => r = .ok () ∧ Stored env config b) ?_ ?_
        · refine Triple.bind (Q := fun _ => Stored env config) (Triple.update (fun _ hb => hb)) ?_
          intro _
          exact Triple.value (fun _ hb => ⟨rfl, hb⟩)
        · intro r
          refine Triple.assume ?_
          rintro rfl
          exact Triple.value (fun _ hb => hb)
    | error e =>
        refine Triple.bind (Q := fun r _ => r = .error e) (Triple.value (fun _ _ => rfl)) ?_
        rintro r
        constructor
        rintro s rfl message heq
        exact nomatch heq

/-- The flag past the application block, whether or not it was skipped. -/
def Prepared (env : Env) (config : Config) (b : Boot) : Prop :=
  (config.observeRuleApplication = true → Stored env config b)
    ∧ (config.observeRuleApplication = false → Off b)

/-- What `prepare` leaves of the flag, whether it ends or errs. -/
theorem stores_prepare (env : Env) (config : Config) :
    Triple Off (prepare env config) (fun _ => Prepared env config) ErrsOff := by
  refine Triple.read ?_
  intro r
  refine Triple.bind (Q := fun _ => Off) (Triple.update (fun _ hb => hb.2)) ?_
  intro _
  have herrs : ∀ e b, Off b → ErrsOff e b := fun _ _ hb _ _ => hb
  refine Triple.optional (fun _ => Triple.exit (fun b hb => herrs _ b hb)) (fun _ _ hb => hb) ?_
  refine Triple.bind (staysOff_validateAll.conseq (fun _ hb => hb) (fun _ _ hb => hb) herrs) ?_
  intro addresses
  refine Triple.bind (staysOff_createLog.conseq (fun _ hb => hb) (fun _ _ hb => hb) herrs) ?_
  intro _
  refine Triple.optional
    (fun _ => staysOff_installCodec.conseq (fun _ hb => hb) (fun _ _ hb => hb) herrs)
    (fun _ _ hb => hb) ?_
  -- from here on the flag may be up
  have hblock : config.observeRuleApplication = true →
      Triple Off (installApplication env config) (fun _ => Prepared env config) ErrsOff := by
    intro hon
    refine stores_installApplication.conseq (fun _ hb => hb) ?_ (fun _ _ hb => hb)
    intro _ b hb
    exact ⟨fun _ => hb, fun hoff => nomatch hoff.symm.trans hon⟩
  have hskip : ¬ config.observeRuleApplication = true → ∀ b, Off b → Prepared env config b :=
    fun hoff _ hb => ⟨fun hon => absurd hon hoff, fun _ => hb⟩
  refine Triple.optional hblock hskip ?_
  refine Triple.bind (Q := fun _ => Prepared env config) ?_ (fun _ => Triple.value (fun _ hb => hb))
  refine Triple.read ?_
  intro r
  cases Serializer.storeMask config.captureOffsets r.serializer.mask with
  | none =>
      refine Triple.exit ?_
      intro _ _ message heq
      exact nomatch heq
  | some mask => exact Triple.update (fun _ hb => hb.2)

/-! ## When nothing fails -/

section Success

variable {α : Type} {a : α}

theorem succeeds_tryOk {x : Checked α} (h : x = .ok a) : Succeeds (tryOk x) a := by
  rw [h]
  exact Hoare.succeeds_pure a

theorem succeeds_reach (action : Action) : Succeeds (reach action) ⟨⟩ :=
  succeeds_modify _

theorem succeeds_pass {g : Gate} {x : Checked α} (h : x = .ok a) : Succeeds (pass g x) a :=
  succeeds_bind (succeeds_tryOk h) (succeeds_bind (succeeds_reach _) (Hoare.succeeds_pure a))

theorem succeeds_status {line : StatusLine} (h : env.status line = .ok ()) (message : Str) :
    Succeeds (status env line message) (.ok ()) := by
  rw [status, h]
  exact succeeds_bind (succeeds_modify _) (Hoare.succeeds_pure _)

theorem succeeds_requireStatus {line : StatusLine} (h : env.status line = .ok ())
    (message : Str) (f : Str → Str) : Succeeds (requireStatus env line message f) () :=
  succeeds_bind (succeeds_status h message) (Hoare.succeeds_pure ())

theorem succeeds_statusOrAbort {line : StatusLine} (h : env.status line = .ok ())
    (message : Str) : Succeeds (statusOrAbort env line message) () :=
  succeeds_bind (succeeds_status h message) (Hoare.succeeds_pure ())

end Success

theorem succeeds_validateAll (h : ReachesSpawn env config) :
    ∃ addresses, Succeeds (validateAll env config) addresses := by
  obtain ⟨version, hversion, hconfig⟩ := h.gates .configuration rfl
  obtain ⟨n, hn⟩ := h.gates .region rfl
  -- every gate saw the same text
  have hsame : ∀ {p : UInt64 → Prop},
      (∃ k, validateRegion env.textAddress env.rodataAddress = .ok k ∧ p k) → p n := by
    rintro p ⟨k, hk, hp⟩
    obtain rfl : n = k := Except.ok.inj (hn.symm.trans hk)
    exact hp
  have hsignatures := hsame (h.gates .signatures rfl)
  have happ : config.observeRuleApplication = true →
      Succeeds (validateApplication env (env.text n)) () := by
    intro hon
    have hbodies := hsame (h.gates .applicationBodies hon)
    exact succeeds_bind (succeeds_pass hbodies) (succeeds_bind
      (succeeds_pass (h.gates .receiveTable hon)) (succeeds_pass (h.gates .modeMapping hon)))
  have hcodec : config.observeRuleCodec = true →
      Succeeds (pass .codecBodies (CodecProbe.validate env.reviewed.encoder env.reviewed.decoder
        (env.text n) env.textAddress env.rodataAddress (env.query .codecTable) env.mem)) () := by
    intro hon
    exact succeeds_pass (hsame (h.gates .codecBodies hon))
  by_cases hwatch : config.pollGlobalTeamAttack = true
  · obtain ⟨global, guard, haddr, hglobal⟩ := h.gates .globalMapping hwatch
    obtain ⟨global', guard', haddr', hguard⟩ := h.gates .guardMapping hwatch
    obtain ⟨rfl, rfl⟩ := Prod.mk.inj (Except.ok.inj (haddr.symm.trans haddr'))
    have hsource := hsame (h.gates .watchSource hwatch)
    refine ⟨some (global, guard), ?_⟩
    refine succeeds_bind (succeeds_tryOk hversion) (succeeds_bind (succeeds_pass hconfig) ?_)
    refine succeeds_bind (succeeds_pass hn) (succeeds_bind (succeeds_pass hsignatures) ?_)
    refine succeeds_optional happ (succeeds_optional hcodec ?_)
    rw [if_pos hwatch]
    refine succeeds_bind (a := (global, guard)) ?_ (Hoare.succeeds_pure _)
    exact succeeds_bind (succeeds_pass hsource) (succeeds_bind (succeeds_tryOk haddr)
      (succeeds_bind (succeeds_pass hglobal) (succeeds_bind (succeeds_pass hguard)
        (Hoare.succeeds_pure _))))
  · refine ⟨none, ?_⟩
    refine succeeds_bind (succeeds_tryOk hversion) (succeeds_bind (succeeds_pass hconfig) ?_)
    refine succeeds_bind (succeeds_pass hn) (succeeds_bind (succeeds_pass hsignatures) ?_)
    refine succeeds_optional happ (succeeds_optional hcodec ?_)
    rw [if_neg hwatch]
    exact Hoare.succeeds_pure _

theorem succeeds_createLog (h : ReachesSpawn env config) :
    Succeeds (createLog env config) () := by
  obtain ⟨created, hcreated⟩ := h.gates .captureLog rfl
  have hlog : ∀ f, mapErr (CaptureLog.create env.files config) f = .ok created := by
    intro f
    rw [hcreated]
    rfl
  exact succeeds_bind (succeeds_pass (hlog _)) (succeeds_bind (succeeds_modify _)
    (succeeds_requireStatus (h.statuses .logReady rfl) _ _))

theorem succeeds_hookCodec {direction : CodecProbe.Direction}
    (h : env.codecTrampoline direction ≠ 0) : Succeeds (hookCodec env direction) () :=
  succeeds_bind (succeeds_reach _)
    (succeeds_optional (fun hzero => absurd hzero h) (succeeds_modify _))

theorem succeeds_installCodec (h : ReachesSpawn env config)
    (hon : config.observeRuleCodec = true) : Succeeds (installCodec env) () := by
  obtain ⟨calls, hcalls⟩ := h.gates .selfTest hon
  obtain ⟨calls', hcalls'⟩ := h.gates .hookedSelfTest hon
  have htest : Succeeds (runSelfTest env) () := by
    rw [runSelfTest, hcalls]
    exact succeeds_bind (succeeds_reach _)
      (succeeds_requireStatus (h.statuses .selfTestPassed hon) _ _)
  have hhooked : Succeeds (runHookedSelfTest env) () := by
    rw [runHookedSelfTest, hcalls']
    exact succeeds_bind (succeeds_reach _)
      (succeeds_statusOrAbort (h.statuses .hookedTestPassed hon) _)
  exact succeeds_bind (succeeds_requireStatus (h.statuses .codecVerified hon) _ _)
    (succeeds_bind (succeeds_requireStatus (h.statuses .selfTestStarted hon) _ _)
      (succeeds_bind htest (succeeds_bind (succeeds_hookCodec (h.trampolines hon 0))
        (succeeds_bind (succeeds_hookCodec (h.trampolines hon 1)) hhooked))))

theorem succeeds_installApplication (h : ReachesSpawn env config)
    (hon : config.observeRuleApplication = true) : Succeeds (installApplication env config) () := by
  have hsites : Succeeds ((List.finRange siteCount).forM (hookSite env)) () := by
    refine succeeds_loop ?_
    intro kind _
    refine succeeds_bind (succeeds_reach _) ?_
    rw [h.sites hon kind]
    exact Hoare.succeeds_pure _
  exact succeeds_bind (succeeds_requireStatus (h.statuses .applicationInstalling hon) _ _)
    (succeeds_bind (succeeds_bind (succeeds_modify _) (succeeds_bind (succeeds_reach _) hsites))
      (succeeds_statusOrAbort (h.statuses .applicationInstalled hon) _))

/-- The mask takes every offset that validation let through. -/
theorem succeeds_announceWriter (h : ReachesSpawn env config) :
    Succeeds (announceWriter config) () := by
  obtain ⟨version, -, hok⟩ := h.gates .configuration rfl
  have hreviewed := (validConfig_of_ok hok).offsets_reviewed
  refine succeeds_read ?_
  intro r
  obtain ⟨mask, hmask, -⟩ := Serializer.storeMask_ok config.captureOffsets
    (fun o ho => reviewedOffset_lt (hreviewed o ho)) r.serializer.mask
  rw [hmask]
  exact succeeds_modify _

/-- Where nothing fails, the spawn is reached. -/
theorem reaches_prepare (h : ReachesSpawn env config) :
    Triple (fun b => b.installAttempted = false) (prepare env config) (fun _ _ => True)
      (fun _ _ => False) := by
  obtain ⟨addresses, hvalidate⟩ := succeeds_validateAll h
  refine Triple.read ?_
  intro r
  refine Triple.conseq (Triple.assume (P := fun _ => True) ?_) (fun s hs => ⟨hs.1 ▸ hs.2, trivial⟩)
    (fun _ _ h => h) (fun _ _ h => h)
  intro hfirst
  refine Triple.bind (Q := fun _ _ => True) (Triple.update (fun _ _ => trivial)) ?_
  intro _
  refine Triple.optional (fun hagain => nomatch hfirst.symm.trans hagain) (fun _ _ h => h) ?_
  refine Triple.conseq (Q := fun a _ => a = addresses) ?_ (fun _ h => h) (fun _ _ _ => trivial)
    (fun _ _ h => h)
  show Succeeds _ addresses
  exact succeeds_bind hvalidate (succeeds_bind (succeeds_createLog h)
    (succeeds_optional (succeeds_installCodec h) (succeeds_optional (succeeds_installApplication h)
      (succeeds_bind (succeeds_announceWriter h) (Hoare.succeeds_pure addresses)))))

end TeamAttack.Install
