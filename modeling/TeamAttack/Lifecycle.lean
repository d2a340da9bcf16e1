import TeamAttack.Library.Runs

/-! # Starting and stopping the recording (`probe.rs`)

    The installing thread and the writer thread meet in three flags:
    `WRITER_READY` and the two `ACTIVE` flags of the probes.  The installing
    thread tests `WRITER_READY` and then, in a separate step, raises an
    `ACTIVE` flag; the writer, on its way out, lowers all three.  When the
    writer's store falls between a test and the store it guards, recording
    goes on without a writer (`recording_without_writer`), and only then
    (`stopped_iff_uncrossed`). -/

namespace TeamAttack.Lifecycle

open Runs

/-- The configuration the two threads were started with. -/
structure Options where
  observeCodec : Bool
  observeApplication : Bool
  pollGlobal : Bool

/-- Where the installing thread stands, from its store of `WRITER_READY` on.
    `failReady`, `failCodec` and `failApplication` undo the start when the
    writer could not be spawned.  An abort ends the run. -/
inductive Installing where
  | storeReady
  | spawn
  | failReady
  | failCodec
  | failApplication
  | hookSerializer
  | storeOriginal
  | testCodec
  | tickCodec
  | activateCodec
  | testApplication
  | tickApplication
  | activateApplication
  | returned (ok : Bool)
  deriving DecidableEq

/-- Why the writer stops. -/
inductive WriterExit where
  | hookStatus
  | watchLimit
  | codecDrain
  | codecCounts
  | applicationDrain
  | applicationCounts
  | compactDump
  | watchRow
  | flush
  deriving DecidableEq

/-- Where the writer thread stands.  `running` knows whether the installation
    has been recorded. -/
inductive Writing where
  | absent
  | running (recorded : Bool)
  | stopReady
  | stopCodec
  | stopApplication
  | returned
  deriving DecidableEq

/-- The three flags, `ORIGINAL`, and the two threads. -/
structure Threads where
  ready : Bool
  codecActive : Bool
  applicationActive : Bool
  original : Bool
  installer : Installing
  writer : Writing
  deriving DecidableEq

/-- All statics as at process start, `install` about to store `WRITER_READY`. -/
def Threads.start : Threads where
  ready := false
  codecActive := false
  applicationActive := false
  original := false
  installer := .storeReady
  writer := .absent

/-- Can the writer stop for this reason? -/
def WriterExit.possible (o : Options) (s : Threads) (recorded : Bool) : WriterExit → Bool
  | .hookStatus => !recorded && s.original
  | .watchLimit => o.pollGlobal
  | .codecDrain => o.observeCodec
  | .codecCounts => o.observeCodec
  | .applicationDrain => o.observeApplication
  | .applicationCounts => o.observeApplication
  | .compactDump => true
  | .watchRow => o.pollGlobal
  | .flush => true

/-- The next step of the installing thread. -/
def installStep (o : Options) (s : Threads) (spawned : Bool) : Option Threads :=
  match s.installer with
  | .storeReady => some { s with ready := true, installer := .spawn }
  | .spawn =>
      if spawned then some { s with writer := .running false, installer := .hookSerializer }
      else some { s with installer := .failReady }
  | .failReady => some { s with ready := false, installer := .failCodec }
  | .failCodec => some { s with codecActive := false, installer := .failApplication }
  | .failApplication =>
      some { s with applicationActive := false, installer := .returned false }
  | .hookSerializer => some { s with installer := .storeOriginal }
  | .storeOriginal => some { s with original := true, installer := .testCodec }
  | .testCodec =>
      if o.observeCodec && s.ready then some { s with installer := .tickCodec }
      else some { s with installer := .testApplication }
  | .tickCodec => some { s with installer := .activateCodec }
  | .activateCodec => some { s with codecActive := true, installer := .testApplication }
  | .testApplication =>
      if o.observeApplication && s.ready then some { s with installer := .tickApplication }
      else some { s with installer := .returned true }
  | .tickApplication => some { s with installer := .activateApplication }
  | .activateApplication =>
      some { s with applicationActive := true, installer := .returned true }
  | .returned _ => none

/-- The next step of the writer thread: one iteration, which may record the
    installation, or a step of its way out. -/
def writeStep (o : Options) (s : Threads) (stop : Option WriterExit) : Option Threads :=
  match s.writer with
  | .absent => none
  | .running recorded =>
      match stop with
      | none => some { s with writer := .running (recorded || s.original) }
      | some reason =>
          if reason.possible o s recorded then some { s with writer := .stopReady } else none
  | .stopReady => some { s with ready := false, writer := .stopCodec }
  | .stopCodec => some { s with codecActive := false, writer := .stopApplication }
  | .stopApplication => some { s with applicationActive := false, writer := .returned }
  | .returned => none

/-- Who moves. -/
inductive Move where
  | install (spawned : Bool)
  | write (stop : Option WriterExit)
  deriving DecidableEq

/-- One atomic step.  It emits the state it is taken in. -/
def advance (o : Options) (s : Threads) : Move → Option (List (Threads × Move) × Threads)
  | .install spawned => (installStep o s spawned).map fun t => ([(s, .install spawned)], t)
  | .write stop => (writeStep o s stop).map fun t => ([(s, .write stop)], t)

/-- How far the installing thread has got with one of its two test-then-store
    pairs. -/
inductive Phase where
  | before
  | window
  | after
  deriving DecidableEq

/-- The codec pair: `window` is between the test and the store. -/
def Installing.codecPhase : Installing → Phase
  | .storeReady | .spawn | .hookSerializer | .storeOriginal | .testCodec => .before
  | .failReady | .failCodec | .failApplication => .before
  | .tickCodec | .activateCodec => .window
  | .testApplication | .tickApplication | .activateApplication | .returned _ => .after

/-- The application pair. -/
def Installing.applicationPhase : Installing → Phase
  | .storeReady | .spawn | .hookSerializer | .storeOriginal | .testCodec => .before
  | .failReady | .failCodec | .failApplication => .before
  | .tickCodec | .activateCodec | .testApplication => .before
  | .tickApplication | .activateApplication => .window
  | .returned _ => .after

/-- The writer lowers the codec flag between its test and its store. -/
def CrossesCodec (e : Threads × Move) : Prop :=
  e.1.writer = .stopCodec ∧ e.1.installer.codecPhase = .window ∧ ∃ stop, e.2 = .write stop

/-- The writer lowers the application flag between its test and its store. -/
def CrossesApplication (e : Threads × Move) : Prop :=
  e.1.writer = .stopApplication ∧ e.1.installer.applicationPhase = .window
    ∧ ∃ stop, e.2 = .write stop

/-- Has the writer lowered the codec flag? -/
def Writing.clearedCodec : Writing → Bool
  | .absent | .running _ | .stopReady | .stopCodec => false
  | .stopApplication | .returned => true

def Writing.clearedApplication : Writing → Bool
  | .absent | .running _ | .stopReady | .stopCodec | .stopApplication => false
  | .returned => true

/-! ## One flag -/

/-- What is known of one flag, its test-then-store pair and its clearing:
    `crossed` says that the clearing fell into the window. -/
structure Tracked (ready flag cleared : Bool) (phase : Phase) (crossed : Prop) : Prop where
  uncleared : cleared = false → ¬ crossed
  ready_off : cleared = true → ready = false
  at_before : cleared = true → phase = .before → flag = false ∧ ¬ crossed
  at_window : cleared = true → phase = .window → crossed
  at_after : cleared = true → phase = .after → (flag = true ↔ crossed)

variable {ready ready' flag cleared : Bool} {phase : Phase} {crossed : Prop}

/-- `WRITER_READY` falls, or rises before anything was cleared. -/
theorem Tracked.store_ready (h : Tracked ready flag cleared phase crossed)
    (hready : ready' = false ∨ cleared = false) :
    Tracked ready' flag cleared phase crossed where
  uncleared := h.uncleared
  ready_off := fun hc => hready.elim id (fun hn => nomatch hn.symm.trans hc)
  at_before := h.at_before
  at_window := h.at_window
  at_after := h.at_after

/-- Before the clearing, the flag and the phase are free. -/
theorem Tracked.free (h : Tracked ready flag false phase crossed) (flag' : Bool)
    (phase' : Phase) : Tracked ready flag' false phase' crossed where
  uncleared := h.uncleared
  ready_off := h.ready_off
  at_before := nofun
  at_window := nofun
  at_after := nofun

/-- The test finds `WRITER_READY`. -/
theorem Tracked.pass (h : Tracked ready flag cleared .before crossed) (hready : ready = true) :
    Tracked ready flag cleared .window crossed := by
  cases hc : cleared with
  | false => subst hc; exact h.free flag .window
  | true => exact nomatch hready.symm.trans (h.ready_off hc)

/-- The pair is skipped. -/
theorem Tracked.skip (h : Tracked ready flag cleared .before crossed) :
    Tracked ready flag cleared .after crossed where
  uncleared := h.uncleared
  ready_off := h.ready_off
  at_before := nofun
  at_window := nofun
  at_after := fun hc _ => by
    obtain ⟨hflag, hcross⟩ := h.at_before hc rfl
    rw [hflag]
    exact ⟨nofun, fun hx => absurd hx hcross⟩

/-- The store behind the test. -/
theorem Tracked.activate (h : Tracked ready flag cleared .window crossed) :
    Tracked ready true cleared .after crossed where
  uncleared := h.uncleared
  ready_off := h.ready_off
  at_before := nofun
  at_window := nofun
  at_after := fun hc _ => ⟨fun _ => h.at_window hc rfl, fun _ => rfl⟩

/-- The clearing: it crosses exactly when it falls into the window. -/
theorem Tracked.clear {crossed' : Prop} (h : Tracked ready flag false phase crossed)
    (hready : ready = false) (hcross : crossed' ↔ crossed ∨ phase = .window) :
    Tracked ready false true phase crossed' := by
  have hnot := h.uncleared rfl
  refine ⟨nofun, fun _ => hready, fun _ hp => ⟨rfl, ?_⟩, fun _ hp => ?_, fun _ hp => ?_⟩
  · rw [hcross, hp]
    exact fun hx => hx.elim hnot nofun
  · exact hcross.mpr (Or.inr hp)
  · rw [hcross, hp]
    exact ⟨nofun, fun hx => hx.elim (fun hx => absurd hx hnot) nofun⟩

/-! ## The two threads -/

/-- Is the installing thread past a successful spawn? -/
def Installing.spawned : Installing → Bool
  | .storeReady | .spawn | .failReady | .failCodec | .failApplication => false
  | .hookSerializer | .storeOriginal | .testCodec | .tickCodec | .activateCodec => true
  | .testApplication | .tickApplication | .activateApplication => true
  | .returned ok => ok

/-- Has the writer lowered `WRITER_READY`? -/
def Writing.clearedReady : Writing → Bool
  | .absent | .running _ | .stopReady => false
  | .stopCodec | .stopApplication | .returned => true

/-- The invariant of both threads over the history `h`. -/
structure Inv (h : List (Threads × Move)) (s : Threads) : Prop where
  spawned : s.writer ≠ .absent → s.installer.spawned = true
  cleared : s.writer.clearedReady = true → s.ready = false
  codec : Tracked s.ready s.codecActive s.writer.clearedCodec s.installer.codecPhase
    (∃ e ∈ h, CrossesCodec e)
  application : Tracked s.ready s.applicationActive s.writer.clearedApplication
    s.installer.applicationPhase (∃ e ∈ h, CrossesApplication e)

/-- Nothing has been cleared, and nothing has crossed. -/
theorem Tracked.initial (hno : ¬ crossed) : Tracked ready flag false phase crossed where
  uncleared := fun _ => hno
  ready_off := nofun
  at_before := nofun
  at_window := nofun
  at_after := nofun

theorem inv_start : Inv [] .start where
  spawned := fun h => absurd rfl h
  cleared := nofun
  codec := Tracked.initial (fun ⟨_, he, _⟩ => nomatch he)
  application := Tracked.initial (fun ⟨_, he, _⟩ => nomatch he)

/-- One more step crosses, or the history crossed already. -/
theorem exists_append {ε : Type} {p : ε → Prop} {h : List ε} {e : ε} :
    (∃ x ∈ h ++ [e], p x) ↔ (∃ x ∈ h, p x) ∨ p e := by
  constructor
  · rintro ⟨x, hx, hp⟩
    rcases List.mem_append.mp hx with hx | hx
    · exact Or.inl ⟨x, hx, hp⟩
    · exact Or.inr (List.mem_singleton.mp hx ▸ hp)
  · rintro (⟨x, hx, hp⟩ | hp)
    · exact ⟨x, List.mem_append_left _ hx, hp⟩
    · exact ⟨e, List.mem_append_right _ List.mem_cons_self, hp⟩

/-- A step that does not cross leaves what the history says. -/
theorem Tracked.append {ready flag cleared : Bool} {phase : Phase}
    {p : Threads × Move → Prop} {h : List (Threads × Move)} {e : Threads × Move}
    (ht : Tracked ready flag cleared phase (∃ x ∈ h, p x)) (he : ¬ p e) :
    Tracked ready flag cleared phase (∃ x ∈ h ++ [e], p x) := by
  have hiff : (∃ x ∈ h ++ [e], p x) ↔ ∃ x ∈ h, p x :=
    exists_append.trans (or_iff_left he)
  rw [hiff]
  exact ht

variable {o : Options} {s s' : Threads} {h : List (Threads × Move)}

/-- The installing thread keeps the invariant. -/
theorem Inv.install (hi : Inv h s) {spawned : Bool} (hs : installStep o s spawned = some s') :
    Inv (h ++ [(s, .install spawned)]) s' := by
  obtain ⟨hspawned, hcleared, hcodec, happ⟩ := hi
  have hcodec := hcodec.append (e := (s, .install spawned)) (fun hx => nomatch hx.2.2)
  have happ := happ.append (e := (s, .install spawned)) (fun hx => nomatch hx.2.2)
  -- until the spawn the writer does not exist, so nothing has been cleared
  have habsent : s.installer.spawned = false → s.writer = .absent := by
    intro hno
    by_contra hne
    exact nomatch hno.symm.trans (hspawned hne)
  cases hpc : s.installer with
  | storeReady =>
      rw [installStep, hpc] at hs
      obtain rfl := Option.some.inj hs
      have hw := habsent (by rw [hpc]; rfl)
      rw [hpc, hw] at hcodec happ
      refine ⟨fun hne => absurd hw hne, ?_, ?_, ?_⟩
      · rw [hw]
        exact nofun
      · rw [hw]
        exact hcodec.store_ready (Or.inr rfl)
      · rw [hw]
        exact happ.store_ready (Or.inr rfl)
  | spawn =>
      have hw := habsent (by rw [hpc]; rfl)
      rw [hpc, hw] at hcodec happ
      rw [installStep, hpc] at hs
      cases spawned with
      | true =>
          obtain rfl := Option.some.inj hs
          exact ⟨fun _ => rfl, nofun, hcodec, happ⟩
      | false =>
          obtain rfl := Option.some.inj hs
          refine ⟨fun hne => absurd hw hne, ?_, ?_, ?_⟩
          · rw [hw]
            exact nofun
          · rw [hw]
            exact hcodec
          · rw [hw]
            exact happ
  | failReady =>
      rw [installStep, hpc] at hs
      obtain rfl := Option.some.inj hs
      have hw := habsent (by rw [hpc]; rfl)
      rw [hpc] at hcodec happ
      exact ⟨fun hne => absurd hw hne, fun _ => rfl, hcodec.store_ready (Or.inl rfl),
        happ.store_ready (Or.inl rfl)⟩
  | failCodec =>
      rw [installStep, hpc] at hs
      obtain rfl := Option.some.inj hs
      have hw := habsent (by rw [hpc]; rfl)
      rw [hpc, hw] at hcodec happ
      refine ⟨fun hne => absurd hw hne, hcleared, ?_, ?_⟩
      · rw [hw]
        exact hcodec.free false .before
      · rw [hw]
        exact happ
  | failApplication =>
      rw [installStep, hpc] at hs
      obtain rfl := Option.some.inj hs
      have hw := habsent (by rw [hpc]; rfl)
      rw [hw] at hcodec happ
      refine ⟨fun hne => absurd hw hne, hcleared, ?_, ?_⟩
      · rw [hw]
        exact hcodec.free s.codecActive .after
      · rw [hw]
        exact happ.free false .after
  | hookSerializer =>
      rw [installStep, hpc] at hs
      obtain rfl := Option.some.inj hs
      rw [hpc] at hcodec happ
      exact ⟨fun _ => rfl, hcleared, hcodec, happ⟩
  | storeOriginal =>
      rw [installStep, hpc] at hs
      obtain rfl := Option.some.inj hs
      rw [hpc] at hcodec happ
      exact ⟨fun _ => rfl, hcleared, hcodec, happ⟩
  | testCodec =>
      rw [hpc] at hcodec happ
      rw [installStep, hpc] at hs
      by_cases htest : (o.observeCodec && s.ready) = true
      · rw [if_pos htest] at hs
        obtain rfl := Option.some.inj hs
        exact ⟨fun _ => rfl, hcleared, hcodec.pass (Bool.and_eq_true_iff.mp htest).2, happ⟩
      · rw [if_neg htest] at hs
        obtain rfl := Option.some.inj hs
        exact ⟨fun _ => rfl, hcleared, hcodec.skip, happ⟩
  | tickCodec =>
      rw [installStep, hpc] at hs
      obtain rfl := Option.some.inj hs
      rw [hpc] at hcodec happ
      exact ⟨fun _ => rfl, hcleared, hcodec, happ⟩
  | activateCodec =>
      rw [installStep, hpc] at hs
      obtain rfl := Option.some.inj hs
      rw [hpc] at hcodec happ
      exact ⟨fun _ => rfl, hcleared, hcodec.activate, happ⟩
  | testApplication =>
      rw [hpc] at hcodec happ
      rw [installStep, hpc] at hs
      by_cases htest : (o.observeApplication && s.ready) = true
      · rw [if_pos htest] at hs
        obtain rfl := Option.some.inj hs
        exact ⟨fun _ => rfl, hcleared, hcodec, happ.pass (Bool.and_eq_true_iff.mp htest).2⟩
      · rw [if_neg htest] at hs
        obtain rfl := Option.some.inj hs
        exact ⟨fun _ => rfl, hcleared, hcodec, happ.skip⟩
  | tickApplication =>
      rw [installStep, hpc] at hs
      obtain rfl := Option.some.inj hs
      rw [hpc] at hcodec happ
      exact ⟨fun _ => rfl, hcleared, hcodec, happ⟩
  | activateApplication =>
      rw [installStep, hpc] at hs
      obtain rfl := Option.some.inj hs
      rw [hpc] at hcodec happ
      exact ⟨fun _ => rfl, hcleared, hcodec, happ.activate⟩
  | returned ok =>
      rw [installStep, hpc] at hs
      exact nomatch hs

/-- The writer thread keeps the invariant. -/
theorem Inv.write (hi : Inv h s) {stop : Option WriterExit}
    (hs : writeStep o s stop = some s') : Inv (h ++ [(s, .write stop)]) s' := by
  obtain ⟨hspawned, hcleared, hcodec, happ⟩ := hi
  -- only the two stores to the flags can cross a window
  have hkeepCodec : s.writer ≠ .stopCodec → ¬ CrossesCodec (s, .write stop) :=
    fun hne hx => hne hx.1
  have hkeepApp : s.writer ≠ .stopApplication → ¬ CrossesApplication (s, .write stop) :=
    fun hne hx => hne hx.1
  cases hpc : s.writer with
  | absent =>
      rw [writeStep, hpc] at hs
      exact nomatch hs
  | running recorded =>
      have hspawned := hspawned (by rw [hpc]; exact nofun)
      have hcodec := hcodec.append (hkeepCodec (by rw [hpc]; exact nofun))
      have happ := happ.append (hkeepApp (by rw [hpc]; exact nofun))
      rw [hpc] at hcodec happ
      rw [writeStep, hpc] at hs
      cases stop with
      | none =>
          obtain rfl := Option.some.inj hs
          exact ⟨fun _ => hspawned, nofun, hcodec, happ⟩
      | some reason =>
          dsimp only at hs
          split_ifs at hs
          obtain rfl := Option.some.inj hs
          exact ⟨fun _ => hspawned, nofun, hcodec, happ⟩
  | stopReady =>
      have hspawned := hspawned (by rw [hpc]; exact nofun)
      have hcodec := hcodec.append (hkeepCodec (by rw [hpc]; exact nofun))
      have happ := happ.append (hkeepApp (by rw [hpc]; exact nofun))
      rw [hpc] at hcodec happ
      rw [writeStep, hpc] at hs
      obtain rfl := Option.some.inj hs
      exact ⟨fun _ => hspawned, fun _ => rfl, hcodec.store_ready (Or.inl rfl),
        happ.store_ready (Or.inl rfl)⟩
  | stopCodec =>
      have hspawned := hspawned (by rw [hpc]; exact nofun)
      have hready := hcleared (by rw [hpc]; rfl)
      have happ := happ.append (hkeepApp (by rw [hpc]; exact nofun))
      rw [hpc] at hcodec happ
      rw [writeStep, hpc] at hs
      obtain rfl := Option.some.inj hs
      refine ⟨fun _ => hspawned, fun _ => hready, hcodec.clear hready ?_, happ⟩
      -- this store crosses when the installing thread is in the window
      rw [exists_append]
      exact or_congr_right ⟨fun hx => hx.2.1, fun hx => ⟨hpc, hx, stop, rfl⟩⟩
  | stopApplication =>
      have hspawned := hspawned (by rw [hpc]; exact nofun)
      have hready := hcleared (by rw [hpc]; rfl)
      have hcodec := hcodec.append (hkeepCodec (by rw [hpc]; exact nofun))
      rw [hpc] at hcodec happ
      rw [writeStep, hpc] at hs
      obtain rfl := Option.some.inj hs
      refine ⟨fun _ => hspawned, fun _ => hready, hcodec, happ.clear hready ?_⟩
      rw [exists_append]
      exact or_congr_right ⟨fun hx => hx.2.1, fun hx => ⟨hpc, hx, stop, rfl⟩⟩
  | returned =>
      rw [writeStep, hpc] at hs
      exact nomatch hs

theorem inv_step {es : List (Threads × Move)} (hi : Inv h s) (hs : Moves (advance o) s es s') :
    Inv (h ++ es) s' := by
  obtain ⟨mv, hmv⟩ := hs
  cases mv with
  | install spawned =>
      obtain ⟨t, ht, hpair⟩ := Option.map_eq_some_iff.mp hmv
      obtain ⟨rfl, rfl⟩ := Prod.mk.inj hpair
      exact hi.install ht
  | write stop =>
      obtain ⟨t, ht, hpair⟩ := Option.map_eq_some_iff.mp hmv
      obtain ⟨rfl, rfl⟩ := Prod.mk.inj hpair
      exact hi.write ht

theorem inv_run (hrun : Run (Moves (advance o)) .start h s) : Inv h s :=
  hrun.history inv_start (fun _ _ _ _ => inv_step)

/-! ## Recording with and without a writer -/

/-- **Recording stops with its writer exactly when no clearing falls into a
    window.**  Once writer and installation have returned, all three flags are
    down if and only if the writer never lowered an `ACTIVE` flag between the
    installing thread's test of `WRITER_READY` and the store it guards. -/
theorem stopped_iff_uncrossed (o : Options) (h : List (Threads × Move)) (s : Threads)
    (hrun : Run (Moves (advance o)) .start h s) (hwriter : s.writer = .returned)
    (hinstall : ∃ ok, s.installer = .returned ok) :
    (s.ready = false ∧ s.codecActive = false ∧ s.applicationActive = false)
      ↔ ∀ e ∈ h, ¬ CrossesCodec e ∧ ¬ CrossesApplication e := by
  obtain ⟨-, hcleared, hcodec, happ⟩ := inv_run hrun
  obtain ⟨ok, hok⟩ := hinstall
  rw [hwriter] at hcleared hcodec happ
  rw [hok] at hcodec happ
  -- both threads are past the windows
  have hcodec := hcodec.at_after rfl rfl
  have happ := happ.at_after rfl rfl
  constructor
  · rintro ⟨-, hc, ha⟩ e he
    constructor
    · intro hx
      exact nomatch hc.symm.trans (hcodec.mpr ⟨e, he, hx⟩)
    · intro hx
      exact nomatch ha.symm.trans (happ.mpr ⟨e, he, hx⟩)
  · intro hno
    refine ⟨hcleared rfl, ?_, ?_⟩
    · rw [← Bool.not_eq_true, hcodec]
      rintro ⟨e, he, hx⟩
      exact (hno e he).1 hx
    · rw [← Bool.not_eq_true, happ]
      rintro ⟨e, he, hx⟩
      exact (hno e he).2 hx

/-- Both probes are started, and the writer stops at its time limit. -/
def orderly : List Move :=
  List.replicate 10 (.install true) ++ List.replicate 3 (.write none)
    ++ [.write (some .watchLimit)] ++ List.replicate 3 (.write none)

theorem stopped_iff_uncrossed_orderly : ∃ h s,
    exec (advance ⟨true, true, true⟩) .start orderly = some (h, s)
      ∧ ((s.ready = false ∧ s.codecActive = false ∧ s.applicationActive = false)
        ↔ ∀ e ∈ h, ¬ CrossesCodec e ∧ ¬ CrossesApplication e) := by
  obtain ⟨⟨h, s⟩, heq⟩ := Option.isSome_iff_exists.mp
    (show (exec (advance ⟨true, true, true⟩) .start orderly).isSome = true by decide)
  have hend : ((exec (advance ⟨true, true, true⟩) .start orderly).map fun x =>
      (x.2.writer, x.2.installer)) = some (.returned, .returned true) := by decide
  rw [heq] at hend
  obtain ⟨hwriter, hinstaller⟩ := Prod.mk.inj (Option.some.inj hend)
  exact ⟨h, s, heq, stopped_iff_uncrossed _ h s (run_of_exec heq) hwriter ⟨true, hinstaller⟩⟩

/-- The writer fails its first status line right after the installing thread
    has tested `WRITER_READY`. -/
def failingWriter : List Move :=
  List.replicate 5 (.install true) ++ [.write (some .hookStatus)]
    ++ List.replicate 3 (.write none) ++ List.replicate 3 (.install true)

/-- **Recording without a writer.** -/
theorem recording_without_writer : ∃ h s,
    Run (Moves (advance ⟨true, true, true⟩)) .start h s ∧ s.writer = .returned
      ∧ s.installer = .returned true ∧ s.codecActive = true := by
  obtain ⟨⟨h, s⟩, heq⟩ := Option.isSome_iff_exists.mp
    (show (exec (advance ⟨true, true, true⟩) .start failingWriter).isSome = true
      by decide)
  have hend : ((exec (advance ⟨true, true, true⟩) .start failingWriter).map fun x =>
      (x.2.writer, x.2.installer, x.2.codecActive)) = some (.returned, .returned true, true) := by
    decide
  rw [heq] at hend
  obtain ⟨hwriter, hrest⟩ := Prod.mk.inj (Option.some.inj hend)
  obtain ⟨hinstaller, hcodec⟩ := Prod.mk.inj hrest
  exact ⟨h, s, run_of_exec heq, hwriter, hinstaller, hcodec⟩

end TeamAttack.Lifecycle
