import TeamAttack.Install

/-! # Mutation is armed behind every gate

    `Armed` lists what the review asks for before `EXPERIMENT` may be raised,
    `Reviewed` what it asks for before game code may be patched.  `Sound` is
    the invariant of a run: its history keeps both rules, and the gates of a
    given set have been passed and hold.  One triple a block of `install`
    carries it to the end (`armed_behind_every_gate`). -/

namespace TeamAttack.Install

open RustStr ByteMemory Application Watch Hoare

/-- The game code, `length` bytes of it. -/
def Env.text (env : Env) (length : UInt64) : List UInt8 :=
  rawParts env.mem env.textAddress length.toNat

/-- What a passed gate has established. -/
def Gate.Holds (env : Env) (config : Config) : Gate → Prop
  | .configuration => ∃ version,
      liveVersion env.displayVersion = .ok version ∧ validateConfig config version = .ok ()
  | .region => ∃ n, validateRegion env.textAddress env.rodataAddress = .ok n
  | .signatures => ∃ n, validateRegion env.textAddress env.rodataAddress = .ok n
      ∧ validateSignatures config (env.text n) = .ok ()
  | .applicationBodies => ∃ n, validateRegion env.textAddress env.rodataAddress = .ok n
      ∧ Application.validate env.reviewed.bodies (env.text n) = .ok ()
  | .receiveTable => checkReceiveTable env = .ok ()
  | .modeMapping => checkModeMapping env = .ok ()
  | .codecBodies => ∃ n, validateRegion env.textAddress env.rodataAddress = .ok n
      ∧ CodecProbe.validate env.reviewed.encoder env.reviewed.decoder (env.text n)
        env.textAddress env.rodataAddress (env.query .codecTable) env.mem = .ok ()
  | .watchSource => ∃ n, validateRegion env.textAddress env.rodataAddress = .ok n
      ∧ checkWatchSource env config (env.text n) = .ok ()
  | .globalMapping => ∃ global guard, watchAddresses env = .ok (global, guard)
      ∧ validateGlobalMapping (env.query .global) global env.dataAddress = .ok ()
  | .guardMapping => ∃ global guard, watchAddresses env = .ok (global, guard)
      ∧ validateGlobalMapping (env.query .guard) guard env.dataAddress = .ok ()
  | .captureLog => ∃ created, CaptureLog.create env.files config = .ok created
  | .selfTest => ∃ calls, env.selfTest = .ok calls
  | .hookedSelfTest => ∃ calls, env.hookedSelfTest = .ok calls

/-- Does this configuration call for the gate? -/
def Gate.calledFor (config : Config) : Gate → Bool
  | .configuration | .region | .signatures | .captureLog => true
  | .applicationBodies | .receiveTable | .modeMapping => config.observeRuleApplication
  | .codecBodies | .selfTest | .hookedSelfTest => config.observeRuleCodec
  | .watchSource | .globalMapping | .guardMapping => config.pollGlobalTeamAttack

/-- The gate was passed in the history `h`. -/
def Passed (h : List Moment) (g : Gate) : Prop := ∃ m ∈ h, m.action = .passed g

/-- Every option is on and every gate lies behind. -/
structure Armed (env : Env) (config : Config) (h : List Moment) : Prop where
  enabled : config.enabled = true
  mode : config.mode = .proposalExperiment
  codec : config.observeRuleCodec = true
  application : config.observeRuleApplication = true
  watch : config.pollGlobalTeamAttack = true
  gates : ∀ g : Gate, Passed h g ∧ g.Holds env config

/-- Every validation the configuration calls for lies behind; only the
    self-test of the hooked code needs the hooks. -/
def Reviewed (env : Env) (config : Config) (h : List Moment) : Prop :=
  ∀ g : Gate, g.calledFor config = true → g ≠ .hookedSelfTest → Passed h g ∧ g.Holds env config

/-- What each milestone requires of the history before it. -/
def Allowed (env : Env) (config : Config) (h : List Moment) (m : Moment) : Prop :=
  (m.experiment = true → Armed env config h)
    ∧ (∀ p, m.action = .patched p → Reviewed env config h)

/-- The history keeps the rules throughout. -/
def Orderly (env : Env) (config : Config) (h : List Moment) : Prop :=
  ∀ before m after, h = before ++ m :: after → Allowed env config before m

variable {env : Env} {config : Config} {h : List Moment} {S S' : Gate → Prop} {b : Boot}

theorem Passed.append {g : Gate} (hp : Passed h g) (k : List Moment) : Passed (h ++ k) g := by
  obtain ⟨m, hm, ha⟩ := hp
  exact ⟨m, List.mem_append_left k hm, ha⟩

theorem Armed.append (ha : Armed env config h) (k : List Moment) :
    Armed env config (h ++ k) where
  enabled := ha.enabled
  mode := ha.mode
  codec := ha.codec
  application := ha.application
  watch := ha.watch
  gates := fun g => ⟨(ha.gates g).1.append k, (ha.gates g).2⟩

/-- One more milestone. -/
theorem Orderly.append (ho : Orderly env config h) {m : Moment} (hm : Allowed env config h m) :
    Orderly env config (h ++ [m]) := by
  intro before x after heq
  rcases List.eq_nil_or_concat after with rfl | ⟨after', y, rfl⟩
  · obtain ⟨rfl, hx⟩ := List.append_inj' heq rfl
    obtain rfl : m = x := by simpa using hx
    exact hm
  · have hsplit : h ++ [m] = (before ++ x :: after') ++ [y] := by simpa using heq
    obtain ⟨rfl, -⟩ := List.append_inj' hsplit rfl
    exact ho before x after' rfl

/-- The invariant: the history is orderly, the gates of `S` were passed and
    hold, and a raised `EXPERIMENT` is armed. -/
structure Sound (env : Env) (config : Config) (S : Gate → Prop) (b : Boot) : Prop where
  orderly : Orderly env config b.history
  gates : ∀ g, S g → Passed b.history g ∧ g.Holds env config
  armed : b.application.experiment = true → Armed env config b.history

theorem Sound.mono (hb : Sound env config S b) (hS : ∀ g, S' g → S g) :
    Sound env config S' b where
  orderly := hb.orderly
  gates := fun g hg => hb.gates g (hS g hg)
  armed := hb.armed

/-- Only the history and `EXPERIMENT` matter. -/
theorem Sound.congr (hb : Sound env config S b) {b' : Boot} (hh : b'.history = b.history)
    (he : b'.application.experiment = b.application.experiment) : Sound env config S b' where
  orderly := hh ▸ hb.orderly
  gates := fun g hg => hh ▸ hb.gates g hg
  armed := fun hx => hh ▸ hb.armed (he ▸ hx)

/-- No gate in particular. -/
def noGates : Gate → Prop := fun _ => False

/-- However `install` is left, the invariant holds. -/
def Left (env : Env) (config : Config) : Exit → Boot → Prop :=
  fun _ b => Sound env config noGates b

/-- The triples below keep the invariant, from the gates `S` to the gates `S'`
    and a fact about the result. -/
abbrev Keeps {α : Type} (env : Env) (config : Config) (S : Gate → Prop) (x : M α)
    (S' : Gate → Prop) (fact : α → Prop) : Prop :=
  Triple (Sound env config S) x (fun a b => fact a ∧ Sound env config S' b) (Left env config)

theorem Sound.left (hb : Sound env config S b) (e : Exit) : Left env config e b :=
  hb.mono (fun _ => False.elim)

/-! ## The small steps -/

theorem keeps_tryOk {α : Type} (x : Checked α) :
    Keeps env config S (tryOk x) S (fun a => x = .ok a) := by
  cases x with
  | ok a => exact Triple.value (fun _ hb => ⟨rfl, hb⟩)
  | error e => exact Triple.exit (fun _ hb => hb.left _)

/-- A gate that holds joins the set. -/
theorem keeps_reach_passed {g : Gate} (hg : g.Holds env config) :
    Keeps env config S (reach (.passed g)) (fun x => S x ∨ x = g) (fun _ => True) := by
  refine Triple.update ?_
  intro b hb
  refine ⟨trivial, ?_, ?_, ?_⟩
  · refine hb.orderly.append ⟨hb.armed, ?_⟩
    intro p hp
    exact nomatch hp
  · rintro x (hx | rfl)
    · exact ⟨(hb.gates x hx).1.append _, (hb.gates x hx).2⟩
    · exact ⟨⟨_, List.mem_append_right _ (List.mem_singleton.mpr rfl), rfl⟩, hg⟩
  · intro hx
    exact (hb.armed hx).append _

/-- `?` at a gate. -/
theorem keeps_pass {α : Type} {g : Gate} {x : Checked α}
    (hg : ∀ a, x = .ok a → g.Holds env config) :
    Keeps env config S (pass g x) (fun y => S y ∨ y = g) (fun a => x = .ok a) := by
  refine Triple.bind (keeps_tryOk x) ?_
  intro a
  refine Triple.assume ?_
  intro ha
  refine Triple.bind (keeps_reach_passed (hg a ha)) ?_
  intro _
  exact Triple.value (fun _ hb => ⟨ha, hb.2⟩)

/-- A step that touches neither the history nor `EXPERIMENT`. -/
theorem keeps_modify {f : Boot → Boot} (hh : ∀ b, (f b).history = b.history)
    (he : ∀ b, (f b).application.experiment = b.application.experiment) :
    Keeps env config S (modify f) S (fun _ => True) :=
  Triple.update (fun b hb => ⟨trivial, hb.congr (hh b) (he b)⟩)

/-- A patch behind the gates it needs. -/
theorem keeps_patch {p : Patch}
    (hS : ∀ g : Gate, g.calledFor config = true → g ≠ .hookedSelfTest → S g) :
    Keeps env config S (reach (.patched p)) S (fun _ => True) := by
  refine Triple.update ?_
  intro b hb
  refine ⟨trivial, ?_, ?_, ?_⟩
  · refine hb.orderly.append ⟨hb.armed, ?_⟩
    intro _ _ g hcalled hne
    exact hb.gates g (hS g hcalled hne)
  · intro g hg
    exact ⟨(hb.gates g hg).1.append _, (hb.gates g hg).2⟩
  · intro hx
    exact (hb.armed hx).append _

theorem keeps_status (line : StatusLine) (message : Str) :
    Keeps env config S (status env line message) S (fun _ => True) := by
  rw [status]
  cases env.status line with
  | ok _ =>
      refine Triple.bind (keeps_modify (fun _ => rfl) (fun _ => rfl)) ?_
      intro _
      exact Triple.value (fun _ hb => ⟨trivial, hb.2⟩)
  | error e => exact Triple.value (fun _ hb => ⟨trivial, hb⟩)

theorem keeps_requireStatus (line : StatusLine) (message : Str) (f : Str → Str) :
    Keeps env config S (requireStatus env line message f) S (fun _ => True) := by
  refine Triple.bind (keeps_status line message) ?_
  intro r
  refine Triple.assume ?_
  intro _
  exact (keeps_tryOk (mapErr r f)).conseq (fun _ hb => hb) (fun _ _ hb => ⟨trivial, hb.2⟩)
    (fun _ _ hb => hb)

theorem keeps_statusOrAbort (line : StatusLine) (message : Str) :
    Keeps env config S (statusOrAbort env line message) S (fun _ => True) := by
  refine Triple.bind (keeps_status line message) ?_
  intro r
  refine Triple.assume ?_
  intro _
  cases r with
  | ok _ => exact Triple.value (fun _ hb => ⟨trivial, hb⟩)
  | error e => exact Triple.exit (fun _ hb => hb.left _)

/-! ## Sequences of steps -/

section Sequences

variable {α β : Type} {k : α → M β} {R : β → Boot → Prop}

theorem keeps_bind {x : M α} {fact : α → Prop} (hx : Keeps env config S x S' fact)
    (hk : ∀ a, fact a → Triple (Sound env config S') (k a) R (Left env config)) :
    Triple (Sound env config S) (x >>= k) R (Left env config) := by
  refine Triple.bind hx ?_
  intro a
  exact Triple.assume (hk a)

theorem keeps_pass_bind {g : Gate} {x : Checked α} (hg : ∀ a, x = .ok a → g.Holds env config)
    (hk : ∀ a, x = .ok a →
      Triple (Sound env config (fun y => S y ∨ y = g)) (k a) R (Left env config)) :
    Triple (Sound env config S) (pass g x >>= k) R (Left env config) :=
  keeps_bind (keeps_pass hg) hk

/-- A block behind an option: `T` lies behind whether or not it is on. -/
theorem keeps_optional {c : Prop} [Decidable c] {x : M PUnit} {k : PUnit → M β}
    {T : Gate → Prop} {fact : PUnit → Prop} (hx : c → Keeps env config S x S' fact)
    (hon : c → ∀ g, T g → S' g) (hoff : ¬ c → ∀ g, T g → S g)
    (hk : Triple (Sound env config T) (k ⟨⟩) R (Left env config)) :
    Triple (Sound env config S) (if c then x >>= k else k ⟨⟩) R (Left env config) := by
  refine Triple.optional ?_ (fun hc b hb => hb.mono (hoff hc)) hk
  intro hc
  exact (hx hc).conseq (fun _ hb => hb) (fun _ _ hb => hb.2.mono (hon hc)) (fun _ _ hb => hb)

end Sequences

/-! ## The blocks of `install` -/

theorem keeps_validateApplication {n : UInt64}
    (hn : validateRegion env.textAddress env.rodataAddress = .ok n) :
    Keeps env config S (validateApplication env (env.text n))
      (fun g => ((S g ∨ g = .applicationBodies) ∨ g = .receiveTable) ∨ g = .modeMapping)
      (fun _ => True) := by
  have hbodies : ∀ a, Application.validate env.reviewed.bodies (env.text n) = .ok a →
      Gate.applicationBodies.Holds env config := fun _ hx => ⟨n, hn, hx⟩
  have htable : ∀ a, checkReceiveTable env = .ok a → Gate.receiveTable.Holds env config :=
    fun _ hx => hx
  have hmode : ∀ a, checkModeMapping env = .ok a → Gate.modeMapping.Holds env config :=
    fun _ hx => hx
  refine keeps_pass_bind hbodies ?_
  intro _ _
  refine keeps_pass_bind htable ?_
  intro _ _
  exact (keeps_pass hmode).conseq (fun _ hb => hb) (fun _ _ hb => ⟨trivial, hb.2⟩)
    (fun _ _ hb => hb)

theorem keeps_validateWatch {n : UInt64}
    (hn : validateRegion env.textAddress env.rodataAddress = .ok n) :
    Keeps env config S (validateWatch env config (env.text n))
      (fun g => ((S g ∨ g = .watchSource) ∨ g = .globalMapping) ∨ g = .guardMapping)
      (fun _ => True) := by
  have hsource : ∀ a, checkWatchSource env config (env.text n) = .ok a →
      Gate.watchSource.Holds env config := fun _ hx => ⟨n, hn, hx⟩
  refine keeps_pass_bind hsource ?_
  intro _ _
  refine keeps_bind (keeps_tryOk (watchAddresses env)) ?_
  rintro ⟨global, guard⟩ haddr
  have hglobal : ∀ a, validateGlobalMapping (env.query .global) global env.dataAddress = .ok a →
      Gate.globalMapping.Holds env config := fun _ hx => ⟨global, guard, haddr, hx⟩
  have hguard : ∀ a, validateGlobalMapping (env.query .guard) guard env.dataAddress = .ok a →
      Gate.guardMapping.Holds env config := fun _ hx => ⟨global, guard, haddr, hx⟩
  refine keeps_pass_bind hglobal ?_
  intro _ _
  refine keeps_pass_bind hguard ?_
  intro _ _
  exact Triple.value (fun _ hb => ⟨trivial, hb⟩)

/-- The gates that are behind once everything was validated. -/
def validated (config : Config) (g : Gate) : Prop :=
  g.calledFor config = true ∧ g ≠ .captureLog ∧ g ≠ .selfTest ∧ g ≠ .hookedSelfTest

theorem keeps_validateAll :
    Keeps env config noGates (validateAll env config) (validated config) (fun _ => True) := by
  refine keeps_bind (keeps_tryOk (liveVersion env.displayVersion)) ?_
  intro version hversion
  have hconfig : ∀ a, validateConfig config version = .ok a →
      Gate.configuration.Holds env config := fun _ hx => ⟨version, hversion, hx⟩
  have hregion : ∀ a, validateRegion env.textAddress env.rodataAddress = .ok a →
      Gate.region.Holds env config := fun a hx => ⟨a, hx⟩
  refine keeps_pass_bind hconfig ?_
  intro _ _
  refine keeps_pass_bind hregion ?_
  intro n hn
  have hsignatures : ∀ a, validateSignatures config (env.text n) = .ok a →
      Gate.signatures.Holds env config := fun _ hx => ⟨n, hn, hx⟩
  have hcodec : ∀ a, CodecProbe.validate env.reviewed.encoder env.reviewed.decoder (env.text n)
      env.textAddress env.rodataAddress (env.query .codecTable) env.mem = .ok a →
      Gate.codecBodies.Holds env config := fun _ hx => ⟨n, hn, hx⟩
  refine keeps_pass_bind hsignatures ?_
  intro _ _
  -- each optional block adds its gates where its option is on
  refine keeps_optional (T := fun g => ((g = .configuration ∨ g = .region) ∨ g = .signatures)
    ∨ config.observeRuleApplication = true
      ∧ ((g = .applicationBodies ∨ g = .receiveTable) ∨ g = .modeMapping))
    (fun _ => keeps_validateApplication hn) (by grind) (by grind) ?_
  refine keeps_optional (T := fun g => (((g = .configuration ∨ g = .region) ∨ g = .signatures)
    ∨ config.observeRuleApplication = true
      ∧ ((g = .applicationBodies ∨ g = .receiveTable) ∨ g = .modeMapping))
    ∨ config.observeRuleCodec = true ∧ g = .codecBodies)
    (fun _ => keeps_pass hcodec) (by grind) (by grind) ?_
  refine Triple.ite ?_ ?_
  · intro hpoll
    refine keeps_bind (keeps_validateWatch hn) ?_
    intro addresses _
    refine Triple.value (fun b hb => ⟨trivial, hb.mono ?_⟩)
    rintro g ⟨hcalled, hlog, htest, hhooked⟩
    cases g <;> simp_all [Gate.calledFor]
  · intro hpoll
    refine Triple.value (fun b hb => ⟨trivial, hb.mono ?_⟩)
    rintro g ⟨hcalled, hlog, htest, hhooked⟩
    cases g <;> simp_all [Gate.calledFor]

theorem keeps_createLog :
    Keeps env config S (createLog env config) (fun g => S g ∨ g = .captureLog)
      (fun _ => True) := by
  have hlog : ∀ a, mapErr (CaptureLog.create env.files config)
      (fun e => "Create/flush capture log at ".toList ++ logDir ++ ": ".toList ++ e) = .ok a →
      Gate.captureLog.Holds env config := by
    intro created hx
    cases hc : CaptureLog.create env.files config with
    | ok c => exact ⟨c, hc⟩
    | error e => rw [hc] at hx; exact nomatch hx
  refine keeps_pass_bind hlog ?_
  intro created _
  refine keeps_bind (keeps_modify (fun _ => rfl) (fun _ => rfl)) ?_
  intro _ _
  exact keeps_requireStatus _ _ _

/-- Hooking an entry of the codec. -/
theorem keeps_hookCodec (direction : CodecProbe.Direction)
    (hS : ∀ g : Gate, g.calledFor config = true → g ≠ .hookedSelfTest → S g) :
    Keeps env config S (hookCodec env direction) S (fun _ => True) := by
  refine keeps_bind (keeps_patch hS) ?_
  intro _ _
  refine Triple.optional (fun _ => Triple.exit (fun _ hb => hb.left _)) (fun _ _ hb => hb) ?_
  exact keeps_modify (fun _ => rfl) (fun _ => rfl)

theorem keeps_runSelfTest :
    Keeps env config S (runSelfTest env) (fun g => S g ∨ g = .selfTest) (fun _ => True) := by
  rw [runSelfTest]
  cases h : env.selfTest with
  | error error =>
      refine keeps_bind (keeps_status _ _) ?_
      intro _ _
      exact Triple.exit (fun _ hb => hb.left _)
  | ok calls =>
      refine keeps_bind (keeps_reach_passed ⟨calls, h⟩) ?_
      intro _ _
      exact keeps_requireStatus _ _ _

theorem keeps_runHookedSelfTest :
    Keeps env config S (runHookedSelfTest env) (fun g => S g ∨ g = .hookedSelfTest)
      (fun _ => True) := by
  rw [runHookedSelfTest]
  cases h : env.hookedSelfTest with
  | error error =>
      refine keeps_bind (keeps_status _ _) ?_
      intro _ _
      exact Triple.exit (fun _ hb => hb.left _)
  | ok calls =>
      refine keeps_bind (keeps_reach_passed ⟨calls, h⟩) ?_
      intro _ _
      exact keeps_statusOrAbort _ _

theorem keeps_installCodec
    (hS : ∀ g : Gate, g.calledFor config = true → g ≠ .selfTest → g ≠ .hookedSelfTest → S g) :
    Keeps env config S (installCodec env)
      (fun g => (S g ∨ g = .selfTest) ∨ g = .hookedSelfTest) (fun _ => True) := by
  have hpatch : ∀ g : Gate, g.calledFor config = true → g ≠ .hookedSelfTest →
      S g ∨ g = .selfTest := by
    intro g hcalled hne
    by_cases htest : g = .selfTest
    · exact Or.inr htest
    · exact Or.inl (hS g hcalled htest hne)
  refine keeps_bind (keeps_requireStatus _ _ _) ?_
  intro _ _
  refine keeps_bind (keeps_requireStatus _ _ _) ?_
  intro _ _
  refine keeps_bind keeps_runSelfTest ?_
  intro _ _
  refine keeps_bind (keeps_hookCodec 0 hpatch) ?_
  intro _ _
  refine keeps_bind (keeps_hookCodec 1 hpatch) ?_
  intro _ _
  exact keeps_runHookedSelfTest

/-- Once every gate is behind, the experiment mode is armed. -/
theorem armed_of_gates (hb : Sound env config S b)
    (hS : ∀ g : Gate, g.calledFor config = true → S g)
    (hmode : config.mode = .proposalExperiment) : Armed env config b.history := by
  obtain ⟨-, version, -, hok⟩ := hb.gates .configuration (hS _ rfl)
  have hvalid := validConfig_of_ok hok
  have happ := hvalid.experiment hmode
  obtain ⟨hcodec, hwatch⟩ := hvalid.application happ
  refine ⟨hvalid.enabled, hmode, hcodec, happ, hwatch, ?_⟩
  intro g
  -- the mode forces all three options on, so it calls for every gate
  have hcalled : g.calledFor config = true := by
    cases g <;> simp only [Gate.calledFor, hcodec, happ, hwatch]
  exact hb.gates g (hS g hcalled)

theorem keeps_applicationInstall
    (hS : ∀ g : Gate, g.calledFor config = true → S g) :
    Keeps env config S (applicationInstall env config.mode) S (fun _ => True) := by
  -- between the store and its milestone, `EXPERIMENT` may be up
  have hstore : Triple (Sound env config S)
      (modify fun b => { b with application := { b.application with
        base := env.textAddress, experiment := config.mode = .proposalExperiment } } : M Unit)
      (fun _ => Sound env config S) (Left env config) := by
    refine Triple.update (fun b hb => ⟨hb.orderly, hb.gates, ?_⟩)
    intro hx
    show Armed env config b.history
    exact armed_of_gates hb hS (of_decide_eq_true hx)
  have hreach : Triple (Sound env config S) (reach .storedExperiment)
      (fun _ => Sound env config S) (Left env config) := by
    refine Triple.update (fun b hb => ⟨hb.orderly.append ⟨hb.armed, nofun⟩, ?_, ?_⟩)
    · intro g hg
      exact ⟨(hb.gates g hg).1.append _, (hb.gates g hg).2⟩
    · intro hx
      exact (hb.armed hx).append _
  refine Triple.bind hstore ?_
  intro _
  refine Triple.bind hreach ?_
  intro _
  refine Triple.conseq (Triple.loop ?_) (fun _ hb => hb) (fun _ _ hb => ⟨trivial, hb⟩)
    (fun _ _ hb => hb)
  intro kind _
  refine keeps_bind (keeps_patch (fun g hcalled _ => hS g hcalled)) ?_
  intro _ _
  refine Triple.ite ?_ ?_
  · intro _
    exact Triple.exit (fun _ hb => hb.left _)
  · intro _
    exact Triple.value (fun _ hb => hb)

theorem keeps_installApplication
    (hS : ∀ g : Gate, g.calledFor config = true → S g) :
    Keeps env config S (installApplication env config) S (fun _ => True) := by
  refine keeps_bind (keeps_requireStatus _ _ _) ?_
  intro _ _
  refine keeps_bind (keeps_applicationInstall hS) ?_
  intro _ _
  exact keeps_statusOrAbort _ _

theorem keeps_announceWriter :
    Keeps env config S (announceWriter config) S (fun _ => True) := by
  refine Triple.read ?_
  intro r
  cases Serializer.storeMask config.captureOffsets r.serializer.mask with
  | none => exact Triple.exit (fun _ hb => hb.2.left _)
  | some mask => exact Triple.update (fun _ hb => ⟨trivial, hb.2.congr rfl rfl⟩)

theorem keeps_spawnWriter (addresses : Option (UInt64 × UInt64)) :
    Keeps env config S (spawnWriter env addresses) S (fun _ => True) := by
  rw [spawnWriter]
  cases env.spawn with
  | ok _ => exact keeps_modify (fun _ => rfl) (fun _ => rfl)
  | error e =>
      refine keeps_bind (keeps_modify (fun _ => rfl) (fun _ => rfl)) ?_
      intro _ _
      exact Triple.exit (fun _ hb => hb.left _)

theorem keeps_hookSerializer (hS : ∀ g : Gate, g.calledFor config = true → S g) :
    Keeps env config S (hookSerializer env config) S (fun _ => True) := by
  refine keeps_bind (keeps_patch (fun g hcalled _ => hS g hcalled)) ?_
  intro _ _
  refine Triple.optional (fun _ => Triple.exit (fun _ hb => hb.left _)) (fun _ _ hb => hb) ?_
  refine keeps_bind (keeps_modify (fun _ => rfl) (fun _ => rfl)) ?_
  intro _ _
  refine keeps_optional (fun _ => keeps_modify (fun _ => rfl) (fun _ => rfl))
    (fun _ _ hg => hg) (fun _ _ hg => hg) ?_
  refine Triple.ite ?_ ?_
  · intro _
    exact keeps_modify (fun _ => rfl) (fun _ => rfl)
  · intro _
    exact Triple.value (fun _ hb => ⟨trivial, hb⟩)

/-- By the spawn, every gate the configuration calls for is behind. -/
theorem keeps_prepare :
    Keeps env config noGates (prepare env config) (fun g => g.calledFor config = true)
      (fun _ => True) := by
  refine Triple.read ?_
  intro r
  refine Triple.bind (Q := fun _ => Sound env config noGates) ?_ ?_
  · exact Triple.update (fun _ hb => hb.2.congr rfl rfl)
  intro _
  refine Triple.optional (fun _ => Triple.exit (fun _ hb => hb.left _)) (fun _ _ hb => hb) ?_
  refine keeps_bind keeps_validateAll ?_
  intro addresses _
  refine keeps_bind keeps_createLog ?_
  intro _ _
  -- the two self-tests and the log are the gates of the codec block
  refine keeps_optional (T := fun g => g.calledFor config = true)
    (fun _ => keeps_installCodec ?_) ?_ ?_ ?_
  · intro g hcalled htest hhooked
    by_cases hlog : g = .captureLog
    · exact Or.inr hlog
    · exact Or.inl ⟨hcalled, hlog, htest, hhooked⟩
  · intro _ g hcalled
    by_cases hlog : g = .captureLog
    · exact Or.inl (Or.inl (Or.inr hlog))
    · by_cases htest : g = .selfTest
      · exact Or.inl (Or.inr htest)
      · by_cases hhooked : g = .hookedSelfTest
        · exact Or.inr hhooked
        · exact Or.inl (Or.inl (Or.inl ⟨hcalled, hlog, htest, hhooked⟩))
  · intro hcodec g hcalled
    cases g <;> simp_all [Gate.calledFor, validated]
  refine keeps_optional (fun _ => keeps_installApplication (fun _ hg => hg))
    (fun _ _ hg => hg) (fun _ _ hg => hg) ?_
  refine keeps_bind keeps_announceWriter ?_
  intro _ _
  exact Triple.value (fun _ hb => ⟨trivial, hb⟩)

/-- `install` keeps the invariant, whatever it does. -/
theorem keeps_install :
    Keeps env config noGates (install env config) (fun g => g.calledFor config = true)
      (fun _ => True) := by
  refine keeps_bind keeps_prepare ?_
  intro addresses _
  refine keeps_bind (keeps_spawnWriter addresses) ?_
  intro _ _
  exact keeps_hookSerializer (fun _ hg => hg)

/-! ## The whole run -/

theorem sound_start : Sound env config noGates Boot.start where
  orderly := by
    intro before m after heq
    exact absurd heq (by simp [Boot.start])
  gates := fun _ => False.elim
  armed := nofun

/-- What keeps `Sound` ends sound. -/
theorem sound_outcome {m : M Unit}
    (hm : Triple (Sound env config noGates) m (fun _ => Sound env config noGates)
      (fun _ => Sound env config noGates)) :
    Sound env config noGates (outcome m Boot.start).2 := by
  have hend := hm.ends Boot.start sound_start
  generalize outcome m Boot.start = r at hend ⊢
  obtain ⟨e | a, t⟩ := r
  · exact hend
  · exact hend

/-- `main` installs nothing, or the configuration it read. -/
theorem main_cases (env : Env) :
    ((outcome (main env) Boot.start).2.history = []
        ∧ (outcome (main env) Boot.start).2.application.experiment = false)
      ∨ ∃ config, Config.load env.configFile = .ok (some config)
        ∧ Sound env config noGates (outcome (main env) Boot.start).2 := by
  rw [main]
  rcases Config.load env.configFile with ⟨_ | e⟩ | ⟨_ | config⟩
  · exact Or.inl ⟨rfl, rfl⟩
  · exact Or.inl ⟨rfl, rfl⟩
  · exact Or.inl ⟨rfl, rfl⟩
  · refine Or.inr ⟨config, rfl, ?_⟩
    refine sound_outcome ?_
    refine Triple.ite (fun _ => Triple.value (fun _ hb => hb)) ?_
    intro _
    refine Triple.recover (keeps_install.conseq (fun _ hb => hb)
      (fun _ _ hb => hb.2.mono (fun _ => False.elim)) (fun _ _ hb => hb)) ?_
    intro e
    cases e with
    | refused error => exact Triple.update (fun _ hb => hb.congr rfl rfl)
    | abort => exact Triple.exit (fun _ hb => hb)
    | panic => exact Triple.exit (fun _ hb => hb)

/-- **Mutation is armed behind every gate.**  In a run of `main`, `EXPERIMENT`
    is up only where the configuration enables the experiment with all three
    options and every gate has been passed and holds; and no game code is
    patched before every validation its configuration calls for, and the
    creation of the log, lie behind. -/
theorem armed_behind_every_gate (env : Env) :
    (∀ before m after, (outcome (main env) Boot.start).2.history = before ++ m :: after →
      ∃ config, Config.load env.configFile = .ok (some config) ∧ Allowed env config before m)
    ∧ ((outcome (main env) Boot.start).2.application.experiment = true →
      ∃ config, Config.load env.configFile = .ok (some config)
        ∧ Armed env config (outcome (main env) Boot.start).2.history) := by
  rcases main_cases env with ⟨hnil, hoff⟩ | ⟨config, hload, hsound⟩
  · rw [hnil, hoff]
    refine ⟨?_, nofun⟩
    intro before m after heq
    exact absurd heq (by simp)
  · refine ⟨?_, ?_⟩
    · intro before m after heq
      exact ⟨config, hload, hsound.orderly before m after heq⟩
    · intro hup
      exact ⟨config, hload, hsound.armed hup⟩

end TeamAttack.Install
