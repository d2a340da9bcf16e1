import TeamAttack.Library.Runs
import TeamAttack.MutationGuards

/-! # Mutation over whole runs

    Two laws of the mutation path over runs of any length.  Recording has no
    influence on it (`mutation_independent_of_recording`): the recording
    statics are an argument the mutation side never reads.  And the local
    mirror fires only behind a proposal mutation of the same session
    (`mirror_follows_proposal`): the armed session is always the session of
    the last proposal mutation. -/

namespace TeamAttack.ApplicationProbe

open ByteMemory Application Watch Runs

/-! ## Recording does not influence mutation -/

/-- The game's part of one step: an arbitrary update of memory, then a
    callback. -/
structure GameStep where
  update : Memory → Memory
  kind : Kind
  ctx : InlineCtx

/-- The recording side's part of one step: whatever starts, stops and drains
    did to the recording statics before the callback, and what the runtime
    supplies to it. -/
structure RecordingSide where
  change : Recording → Recording
  env : CallEnv

/-- The world a step's callback finds. -/
def prepared (w : World) (step : GameStep × RecordingSide) : World :=
  ⟨{ w.statics with recording := step.2.change w.statics.recording }, step.1.update w.mem⟩

/-- One step of an execution. -/
def executeStep (w : World) (step : GameStep × RecordingSide) : World :=
  (observe (prepared w step) step.2.env step.1.kind step.1.ctx).world

/-- The world after a list of steps. -/
def execute (w : World) (steps : List (GameStep × RecordingSide)) : World :=
  steps.foldl executeStep w

/-- Two worlds agree on everything but the recording statics. -/
structure SameMutationSide (w w' : World) : Prop where
  mem : w.mem = w'.mem
  armed : w.statics.armedSession = w'.statics.armedSession
  experiment : w.statics.experiment = w'.statics.experiment
  base : w.statics.base = w'.statics.base

/-- The mutation path does not read the recording statics. -/
theorem mutateIfGuarded_congr {s s' : Statics} (m : Memory) (kind : Kind) (ctx : InlineCtx)
    (harmed : s.armedSession = s'.armedSession) (hexp : s.experiment = s'.experiment)
    (hbase : s.base = s'.base) : mutateIfGuarded s m kind ctx = mutateIfGuarded s' m kind ctx := by
  obtain ⟨_, _, _, _⟩ := s
  obtain ⟨_, _, _, _⟩ := s'
  subst harmed hexp hbase
  rfl

/-- One step, taken from worlds that agree on the mutation side. -/
theorem executeStep_same {w w' : World} (h : SameMutationSide w w') (g : GameStep)
    (r r' : RecordingSide) : SameMutationSide (executeStep w (g, r)) (executeStep w' (g, r')) := by
  have hmut := observe_mutation (prepared w (g, r)) r.env g.kind g.ctx
  have hmut' := observe_mutation (prepared w' (g, r')) r'.env g.kind g.ctx
  have hframe := observe_frame (prepared w (g, r)) r.env g.kind g.ctx
  have hframe' := observe_frame (prepared w' (g, r')) r'.env g.kind g.ctx
  have hmem : (prepared w (g, r)).mem = (prepared w' (g, r')).mem := congrArg g.update h.mem
  have hsame : mutateIfGuarded (prepared w (g, r)).statics (prepared w (g, r)).mem g.kind g.ctx
      = mutateIfGuarded (prepared w' (g, r')).statics (prepared w' (g, r')).mem g.kind g.ctx := by
    rw [hmem]
    exact mutateIfGuarded_congr _ _ _ h.armed h.experiment h.base
  exact ⟨hmut.mem.trans ((congrArg Mutated.mem hsame).trans hmut'.mem.symm),
    hmut.armed.trans ((congrArg Mutated.armedSession hsame).trans hmut'.armed.symm),
    hframe.1.trans (h.experiment.trans hframe'.1.symm),
    hframe.2.trans (h.base.trans hframe'.2.symm)⟩

/-- Executions of one game run agree on the mutation side throughout. -/
theorem execute_same (steps steps' : List (GameStep × RecordingSide)) {w w' : World}
    (hgame : steps.map Prod.fst = steps'.map Prod.fst) (h : SameMutationSide w w') :
    SameMutationSide (execute w steps) (execute w' steps') := by
  induction steps generalizing steps' w w' with
  | nil =>
      obtain rfl : steps' = [] := by simpa using hgame.symm
      exact h
  | cons x rest ih =>
      match steps', hgame with
      | y :: rest', hgame =>
          obtain ⟨hhead, htail⟩ := List.cons.inj hgame
          refine ih rest' htail ?_
          obtain ⟨g, r⟩ := x
          obtain ⟨g', r'⟩ := y
          obtain rfl : g = g' := hhead
          exact executeStep_same h g r r'

/-- Without the experiment, an execution is the game's own updates. -/
theorem execute_off (steps : List (GameStep × RecordingSide)) {w : World}
    (hoff : w.statics.experiment = false) :
    (execute w steps).mem = steps.foldl (fun m x => x.1.update m) w.mem
      ∧ (execute w steps).statics.armedSession = w.statics.armedSession := by
  induction steps generalizing w with
  | nil => exact ⟨rfl, rfl⟩
  | cons x rest ih =>
      have hmut := observe_mutation (prepared w x) x.2.env x.1.kind x.1.ctx
      have hframe := observe_frame (prepared w x) x.2.env x.1.kind x.1.ctx
      have hidle : mutateIfGuarded (prepared w x).statics (prepared w x).mem x.1.kind x.1.ctx
          = .refused (prepared w x).statics (prepared w x).mem :=
        mutateIfGuarded_off (Or.inl hoff)
      rw [hidle] at hmut
      have hstep : (executeStep w x).mem = x.1.update w.mem := hmut.mem
      have hkeep : (executeStep w x).statics.armedSession = w.statics.armedSession := hmut.armed
      obtain ⟨hmem, harmed⟩ := ih (w := executeStep w x) (hframe.1.trans hoff)
      refine ⟨?_, harmed.trans hkeep⟩
      rw [List.foldl_cons, ← hstep]
      exact hmem

/-- The game run `run` executed with the recording side `sides`. -/
def withRecording (run : List GameStep) (sides : Nat → RecordingSide) :
    List (GameStep × RecordingSide) :=
  run.zipIdx.map (fun x => (x.1, sides x.2))

theorem withRecording_game (run : List GameStep) (sides : Nat → RecordingSide) :
    (withRecording run sides).map Prod.fst = run := by
  rw [withRecording, List.map_map]
  exact List.zipIdx_map_fst 0 run

/-- **Mutation does not depend on recording.**  Two executions of one game run
    whose recording sides differ arbitrarily have, after every step, the same
    memory and the same armed session; and with the experiment off an
    execution writes neither. -/
theorem mutation_independent_of_recording (experiment : Bool) (base armed : UInt64)
    (mem : Memory) (run : List GameStep) (r r' : Recording)
    (sides sides' : Nat → RecordingSide) (n : Nat) :
    let e := execute ⟨⟨experiment, base, armed, r⟩, mem⟩ ((withRecording run sides).take n)
    let e' := execute ⟨⟨experiment, base, armed, r'⟩, mem⟩ ((withRecording run sides').take n)
    e.mem = e'.mem ∧ e.statics.armedSession = e'.statics.armedSession
      ∧ (experiment = false →
          e.mem = (run.take n).foldl (fun m g => g.update m) mem
            ∧ e.statics.armedSession = armed) := by
  intro e e'
  have hgame : ((withRecording run sides).take n).map Prod.fst
      = ((withRecording run sides').take n).map Prod.fst := by
    rw [List.map_take, List.map_take, withRecording_game, withRecording_game]
  have hsame : SameMutationSide e e' := execute_same _ _ hgame ⟨rfl, rfl, rfl, rfl⟩
  refine ⟨hsame.mem, hsame.armed, fun hoff => ?_⟩
  obtain ⟨hmem, harmed⟩ := execute_off
    (w := ⟨⟨experiment, base, armed, r⟩, mem⟩) ((withRecording run sides).take n) hoff
  refine ⟨hmem.trans ?_, harmed⟩
  have hupd : run.take n = ((withRecording run sides).take n).map Prod.fst := by
    rw [List.map_take, withRecording_game]
  rw [hupd, List.foldl_map]

/-! ## The mirror follows a proposal mutation of the same session -/

/-- What a finished callback reports: its site, its session and its mutation
    action. -/
structure Returned where
  kind : Kind
  session : UInt64
  action : UInt8
  deriving DecidableEq

/-- One step of a run: a callback, a change the game makes to memory, or an
    operation of the recording side. -/
inductive Move where
  | callback (env : CallEnv) (kind : Kind) (ctx : InlineCtx)
  | game (update : Memory → Memory)
  | start (tick : UInt64)
  | stopRecording
  | drain (writable : Nat → Bool)

/-- The session a callback of this kind works on: x0 for a submission, x24
    for the local copy. -/
def sessionOf (kind : Kind) (ctx : InlineCtx) : UInt64 :=
  if kind = 5 then ctx.x 0 else ctx.x 24

/-- The world with its recording statics replaced. -/
def World.withRecording (w : World) (r : Recording) : World :=
  { w with statics := { w.statics with recording := r } }

/-- The effect of a move, and what it reports. -/
def World.move (w : World) : Move → World × List Returned
  | .callback env kind ctx =>
      let o := observe w env kind ctx
      (o.world, [⟨kind, sessionOf kind ctx, o.action⟩])
  | .game update => ({ w with mem := update w.mem }, [])
  | .start tick => (w.withRecording (ApplicationProbe.start w.statics.recording tick), [])
  | .stopRecording => (w.withRecording (ApplicationProbe.stopRecording w.statics.recording), [])
  | .drain writable =>
      (w.withRecording (ApplicationProbe.drain writable w.statics.recording).2.2, [])

/-- A step of a run reports what the moved callback returned. -/
def RunStep (w : World) (es : List Returned) (w' : World) : Prop :=
  ∃ mv, w.move mv = (w', es)

/-- The session of the last callback that returned mutation action 0, or 0. -/
def lastProposal (h : List Returned) : UInt64 :=
  h.foldl (fun armed e => if e.action = 0 then e.session else armed) 0

theorem lastProposal_append (h : List Returned) (e : Returned) :
    lastProposal (h ++ [e]) = if e.action = 0 then e.session else lastProposal h := by
  simp only [lastProposal, List.foldl_append, List.foldl_cons, List.foldl_nil]

/-- A nonzero last proposal session comes from an action-0 callback after
    which no other callback returned action 0. -/
theorem lastProposal_split {h : List Returned} (hne : lastProposal h ≠ 0) :
    ∃ pre a post, h = pre ++ a :: post ∧ a.action = 0 ∧ a.session = lastProposal h
      ∧ ∀ b ∈ post, b.action ≠ 0 := by
  induction h using List.reverseRecOn with
  | nil => exact absurd rfl hne
  | append_singleton h e ih =>
      rw [lastProposal_append] at hne ⊢
      by_cases h0 : e.action = 0
      · rw [if_pos h0]
        exact ⟨h, e, [], rfl, h0, rfl, fun b hb => nomatch hb⟩
      · rw [if_neg h0] at hne ⊢
        obtain ⟨pre, a, post, heq, ha, hs, hpost⟩ := ih hne
        refine ⟨pre, a, post ++ [e], by rw [heq]; simp, ha, hs, fun b hb => ?_⟩
        rcases List.mem_append.mp hb with hb | hb
        · exact hpost b hb
        · rw [List.mem_singleton.mp hb]
          exact h0

/-- What a callback's mutation action says about its guards and about the
    armed session. -/
theorem callback_action (w : World) (env : CallEnv) (kind : Kind) (ctx : InlineCtx) :
    ((observe w env kind ctx).action = 0 ∧ ProposalGuards w.statics w.mem kind ctx
        ∧ (observe w env kind ctx).world.statics.armedSession = ctx.x 0)
      ∨ ((observe w env kind ctx).action = 1 ∧ LocalGuards w.statics w.mem kind ctx
        ∧ (observe w env kind ctx).world.statics.armedSession = w.statics.armedSession)
      ∨ ((observe w env kind ctx).action = 0xff
        ∧ (observe w env kind ctx).world.statics.armedSession = w.statics.armedSession) := by
  obtain ⟨haction, -, -, harmed⟩ := observe_mutation w env kind ctx
  rw [haction, harmed]
  rcases mutateIfGuarded_cases w.statics w.mem kind ctx with
    ⟨hp, heq⟩ | ⟨hl, heq⟩ | ⟨-, -, heq⟩
  · rw [heq]
    exact Or.inl ⟨rfl, hp, rfl⟩
  · rw [heq]
    exact Or.inr (Or.inl ⟨rfl, hl, rfl⟩)
  · rw [heq]
    exact Or.inr (Or.inr ⟨rfl, rfl⟩)

/-- One move keeps the armed session at the last proposal's. -/
theorem armed_step {h : List Returned} {w w' : World} {es : List Returned}
    (harmed : w.statics.armedSession = lastProposal h) (hs : RunStep w es w') :
    w'.statics.armedSession = lastProposal (h ++ es) := by
  obtain ⟨mv, hmv⟩ := hs
  cases mv with
  | callback env kind ctx =>
      obtain ⟨rfl, rfl⟩ := Prod.mk.inj hmv
      rw [lastProposal_append]
      -- a proposal arms its own session, any other callback keeps the armed one
      rcases callback_action w env kind ctx with ⟨ha, hp, h1⟩ | ⟨ha, -, h1⟩ | ⟨ha, h1⟩
      · rw [h1, ha, if_pos rfl, sessionOf, if_pos hp.kind]
      · rw [h1, ha, if_neg (show (1 : UInt8) ≠ 0 by decide), harmed]
      · rw [h1, ha, if_neg (show (0xff : UInt8) ≠ 0 by decide), harmed]
  | game update =>
      obtain ⟨rfl, rfl⟩ := Prod.mk.inj hmv
      rw [List.append_nil]
      exact harmed
  | start tick =>
      obtain ⟨rfl, rfl⟩ := Prod.mk.inj hmv
      rw [List.append_nil]
      exact harmed
  | stopRecording =>
      obtain ⟨rfl, rfl⟩ := Prod.mk.inj hmv
      rw [List.append_nil]
      exact harmed
  | drain writable =>
      obtain ⟨rfl, rfl⟩ := Prod.mk.inj hmv
      rw [List.append_nil]
      exact harmed

theorem armed_run {w w' : World} {h : List Returned}
    (h0 : w.statics.armedSession = 0) (hrun : Run RunStep w h w') :
    w'.statics.armedSession = lastProposal h :=
  hrun.history (I := fun h w => w.statics.armedSession = lastProposal h) h0
    (fun _ _ _ _ => armed_step)

/-- Only proposal callbacks return action 0. -/
theorem action_zero_kind {w : World} {h : List Returned} (s : World)
    (hrun : Run RunStep s h w) : ∀ e ∈ h, e.action = 0 → e.kind = 5 := by
  refine hrun.history (I := fun h _ => ∀ e ∈ h, e.action = 0 → e.kind = 5)
    (fun e he => nomatch he) ?_
  intro h w es w' ih ⟨mv, hmv⟩ e he h0
  rcases List.mem_append.mp he with he | he
  · exact ih e he h0
  cases mv with
  | callback env kind ctx =>
      obtain rfl := (Prod.mk.inj hmv).2
      obtain rfl := List.mem_singleton.mp he
      rcases callback_action w env kind ctx with ⟨-, hp, -⟩ | ⟨ha, -⟩ | ⟨ha, -⟩
      · exact hp.kind
      · exact absurd (ha.symm.trans h0) (by decide)
      · exact absurd (ha.symm.trans h0) (by decide)
  | game update | start tick | stopRecording | drain writable =>
      rw [← (Prod.mk.inj hmv).2] at he
      exact nomatch he

theorem runStep_emits_one (w : World) (es : List Returned) (w' : World)
    (hs : RunStep w es w') : es.length ≤ 1 := by
  obtain ⟨mv, hmv⟩ := hs
  cases mv <;> obtain ⟨rfl, rfl⟩ := Prod.mk.inj hmv <;> simp

/-- **The mirror fires only behind a proposal mutation of its session.**  From
    startup, over any run: the armed session is that of the last action-0
    callback (0 before the first); every action-1 callback is a mirror write of
    a session whose action-0 callback precedes it, with no other action-0
    callback in between; and only kind-5 callbacks ever change the armed
    session. -/
theorem mirror_follows_proposal (experiment : Bool) (base : UInt64) (r : Recording)
    (mem : Memory) :
    ∀ h w, Run RunStep ⟨⟨experiment, base, 0, r⟩, mem⟩ h w →
      w.statics.armedSession = lastProposal h
      ∧ (∀ pre e post, h = pre ++ e :: post → e.action = 1 →
          e.kind = 0 ∧ ∃ before a between, pre = before ++ a :: between
            ∧ a.kind = 5 ∧ a.action = 0 ∧ a.session = e.session
            ∧ ∀ b ∈ between, b.action ≠ 0)
      ∧ (∀ mv, (∀ env ctx, mv ≠ .callback env 5 ctx) →
          (w.move mv).1.statics.armedSession = w.statics.armedSession) := by
  intro h w hrun
  refine ⟨armed_run rfl hrun, ?_, ?_⟩
  · intro pre e post heq hact
    obtain ⟨t, t', hpre, ⟨mv, hmv⟩, -⟩ := hrun.split_event runStep_emits_one heq
    have harmed := armed_run rfl hpre
    cases mv with
    | callback env kind ctx =>
        obtain ⟨-, he⟩ := Prod.mk.inj hmv
        obtain rfl := List.singleton_inj.mp he
        rcases callback_action t env kind ctx with ⟨ha, -⟩ | ⟨-, hl, -⟩ | ⟨ha, -⟩
        · exact absurd (ha.symm.trans hact) (by decide)
        · obtain ⟨k, hk⟩ := hl.session
          -- the mirror's session is the armed one, and that the last proposal's
          have hsess : sessionOf kind ctx = lastProposal pre := by
            rw [sessionOf, hl.kind, if_neg (by decide), ← hl.armed, harmed]
          have hne : lastProposal pre ≠ 0 := by
            rw [← harmed, hl.armed]
            exact hk.session_ne
          obtain ⟨before, a, between, hsplit, ha, hs, hbetween⟩ := lastProposal_split hne
          have hkind : a.kind = 5 := action_zero_kind _ hpre a
            (by rw [hsplit]; exact List.mem_append_right before List.mem_cons_self) ha
          exact ⟨hl.kind, before, a, between, hsplit, hkind, ha, hs.trans hsess.symm, hbetween⟩
        · exact absurd (ha.symm.trans hact) (by decide)
    -- nothing but a callback returns an action
    | game update => exact absurd (Prod.mk.inj hmv).2 (by simp)
    | start tick => exact absurd (Prod.mk.inj hmv).2 (by simp)
    | stopRecording => exact absurd (Prod.mk.inj hmv).2 (by simp)
    | drain writable => exact absurd (Prod.mk.inj hmv).2 (by simp)
  · intro mv hmv
    cases mv with
    | callback env kind ctx =>
        rcases callback_action w env kind ctx with ⟨-, hp, -⟩ | ⟨-, -, h1⟩ | ⟨-, h1⟩
        · exact absurd (by rw [hp.kind]) (hmv env ctx)
        · exact h1
        · exact h1
    | game update => rfl
    | start tick => rfl
    | stopRecording => rfl
    | drain writable => rfl

/-- `openScene` at base 0, before any callback. -/
def openWorld : World := ⟨⟨true, 0, 0, Statics.boot.recording⟩, openScene 1⟩

/-- The proposal of `openScene`, and then the local copy of its session. -/
def openProposal : Move := .callback ⟨0, false⟩ 5 (openCtx 0)

def openMirror : Move := .callback ⟨0, false⟩ 0 ⟨fun i => if i = 24 then 0x1000000 else 0⟩

theorem mirror_follows_proposal_open :
    ∃ h w, h = [⟨5, 0x1000000, 0⟩, ⟨0, 0x1000000, 1⟩] ∧ Run RunStep openWorld h w
      ∧ w.statics.armedSession = lastProposal h := by
  have hfirst : Run RunStep openWorld (openWorld.move openProposal).2
      (openWorld.move openProposal).1 := .single ⟨openProposal, rfl⟩
  have hrun := hfirst.append (.single ⟨openMirror, rfl⟩)
  exact ⟨_, _, by decide, hrun, (mirror_follows_proposal true 0 _ _ _ _ hrun).1⟩

end TeamAttack.ApplicationProbe
