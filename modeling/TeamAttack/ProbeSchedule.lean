import TeamAttack.ApplicationProbe
import TeamAttack.CaptureOnce

/-! # The application callbacks under every schedule

    Any number of threads run `observe` while `drain` empties the banks and
    `start` and `stop_recording` switch recording on and off.  Every access to
    a static is a step of its own: the flags, `CALLS`, the load and the
    exchange of `next`, the slot, `DROPPED`.  What the loads of game memory
    return is supplied to the step that uses it, since other threads write
    there; so is what `mutate_if_guarded` returns. -/

namespace TeamAttack.ProbeSchedule

open Runs CaptureSchedule ApplicationProbe
open Application (siteCount bankLimit)

/-- `EVENTS`, by bank. -/
abbrev Bank := Fin (siteCount * 2)

/-- A callback: the hook it comes from and the registers it receives. -/
structure Call where
  kind : Kind
  ctx : InlineCtx

/-- Where a callback stands: not begun, past the flags, past its `fetch_add`,
    inside `try_capture` of the bank of its mode, or returned.  `passed` is a
    callback that does not record. -/
inductive Calling where
  | idle
  | passed
  | entered (mutate : Bool)
  | counted (action : UInt8)
  | capturing (mode : UInt32) (action : UInt8)
  | recorded (mode : UInt32)
  | lost (mode : UInt32)
  deriving DecidableEq

/-- Where a call of `drain` stands: before the next `take`, inside a
    successful one, or returned, `none` after a failed write. -/
inductive Draining where
  | visiting (rest : List (Bank × Nat)) (dirty : Bool)
  | reading (b : Bank) (i : Nat) (rest : List (Bank × Nat))
  | returned (dirty? : Option Bool)
  deriving DecidableEq

/-- The statics of the recording, and the calls working on them: `P` names
    the callbacks and `D` the drains.  A drain takes each slot of a bank once,
    by its index. -/
structure State (P D : Type) where
  active : Bool
  startTick : UInt64
  calls : Kind → Nat
  dropped : Nat
  banks : Bank → Schedule P (D × Nat)
  calling : P → Calling
  draining : D → Draining

/-- What happens: a callback is counted, reserves a slot, samples its event,
    is dropped; a drain writes a line. -/
inductive Effect (P D : Type) where
  | called (p : P)
  | reserved (p : P) (b : Bank) (i : Index)
  | sampled (p : P) (e : Application.Event)
  | dropped (p : P)
  | line (d : D) (line : EventLine)
  deriving DecidableEq

/-- What the game and the runtime supply to one step of a callback: `EXPERIMENT`,
    the result of the mutation, the mode, the values the sample closure reads,
    the system tick, and whether the weak exchange fails spuriously. -/
structure Supplied where
  experiment : Bool
  action : UInt8
  mode : UInt32
  event : Application.Event
  tick : UInt64
  spurious : Bool

/-- The event the sample closure builds. -/
def Call.sample (call : Call) (startTick : UInt64) (mode : UInt32) (action : UInt8)
    (supplied : Supplied) : Application.Event :=
  { supplied.event with
    kind := UInt8.ofNat call.kind.val
    mutationAction := action
    mode
    elapsedTicks := supplied.tick - startTick }

/-- What a step of `try_capture` shows, when its closure would build `e`. -/
def shown {P D : Type} (b : Bank) (e : Application.Event) :
    CaptureSchedule.Event P (D × Nat) → Option (Effect P D)
  | .claim p i => some (.reserved p b i)
  | .sample p _ => some (.sampled p e)
  | .publish .. => none
  | .take .. => none

/-- The statics at process start, no callback and no drain begun. -/
def State.start (P D : Type) : State P D where
  active := false
  startTick := 0
  calls := fun _ => 0
  dropped := 0
  banks := fun _ => Schedule.start P (D × Nat)
  calling := fun _ => .idle
  draining := fun _ => .visiting drainOrder false

/-- The statics as `counts` and `drain` find them. -/
def State.recording {P D : Type} (t : State P D) : Recording where
  active := t.active
  start := t.startTick
  calls := t.calls
  dropped := t.dropped
  events := fun b => (t.banks b).store

section Steps

variable {P D : Type} [DecidableEq P] [DecidableEq D]

/-- The state with one callback moved on. -/
def State.atCall (t : State P D) (p : P) (calling : Calling) : State P D :=
  { t with calling := Function.update t.calling p calling }

/-- The state with one drain moved on. -/
def State.atDrain (t : State P D) (d : D) (draining : Draining) : State P D :=
  { t with draining := Function.update t.draining d draining }

/-- The state with one bank replaced. -/
def State.atBank (t : State P D) (b : Bank) (schedule : Schedule P (D × Nat)) : State P D :=
  { t with banks := Function.update t.banks b schedule }

/-- `CALLS[kind].fetch_add(1)`. -/
def State.count (t : State P D) (kind : Kind) : State P D :=
  { t with calls := Function.update t.calls kind (t.calls kind + 1) }

/-- `DROPPED.fetch_add(1)`. -/
def State.drop (t : State P D) : State P D := { t with dropped := t.dropped + 1 }

/-- The next step of a callback. -/
def callStep (call : P → Call) (t : State P D) (p : P) (supplied : Supplied) :
    Option (List (Effect P D) × State P D) :=
  let kind := (call p).kind
  match t.calling p with
  | .idle =>
      let policy := Application.hookPolicy supplied.experiment t.active
      if !policy.record || (kind = 5 && !isProposal (call p).ctx) then
        some ([], t.atCall p .passed)
      else some ([], t.atCall p (.entered policy.mutate))
  | .entered mutate =>
      let action := if mutate && (kind = 0 || kind = 5) then supplied.action else 0xff
      some ([.called p], (t.count kind).atCall p (.counted action))
  | .counted action => some ([], t.atCall p (.capturing supplied.mode action))
  | .capturing mode action =>
      let b := bank kind mode
      match ((t.banks b).producing p).returned? with
      | some true => some ([], t.atCall p (.recorded mode))
      | some false => some ([.dropped p], t.drop.atCall p (.lost mode))
      | none =>
          let e := (call p).sample t.startTick mode action supplied
          (produce (fun _ => bankLimit) (t.banks b) p supplied.spurious e.encode).map
            fun (es, schedule) => (es.filterMap (shown b e), t.atBank b schedule)
  | .passed => none
  | .recorded _ => none
  | .lost _ => none

/-- The next step of a drain; `writable` answers for its next write. -/
def drainStep (t : State P D) (d : D) (writable : Bool) :
    Option (List (Effect P D) × State P D) :=
  match t.draining d with
  | .visiting [] dirty => some ([], t.atDrain d (.returned (some dirty)))
  | .visiting ((b, i) :: rest) dirty =>
      (consume Prod.snd (t.banks b) (d, i)).map fun (es, schedule) =>
        let draining := if es = [] then .visiting rest dirty else .reading b i rest
        ([], (t.atBank b schedule).atDrain d draining)
  | .reading b i rest =>
      match consume Prod.snd (t.banks b) (d, i) with
      | none => none
      | some (_, schedule) =>
          match schedule.taking (d, i) with
          | .returned (some capture) =>
              if writable then
                some ([.line d (eventLine b capture)],
                  (t.atBank b schedule).atDrain d (.visiting rest true))
              else some ([], (t.atBank b schedule).atDrain d (.returned none))
          | _ => none
  | .returned _ => none

/-- Who moves.  `start` is two stores, of which `activate` is the second. -/
inductive Move (P D : Type) where
  | call (p : P) (supplied : Supplied)
  | drain (d : D) (writable : Bool)
  | setStart (tick : UInt64)
  | activate
  | stopRecording

/-- One atomic step. -/
def advance (call : P → Call) (t : State P D) :
    Move P D → Option (List (Effect P D) × State P D)
  | .call p supplied => callStep call t p supplied
  | .drain d writable => drainStep t d writable
  | .setStart tick => some ([], { t with startTick := tick })
  | .activate => some ([], { t with active := true })
  | .stopRecording => some ([], { t with active := false })

/-- One step of the callbacks and drains. -/
def Step (call : P → Call) : State P D → List (Effect P D) → State P D → Prop :=
  Moves (advance call)

end Steps

/-! ## Everything one step can do -/

section Inversion

variable {P D : Type} [DecidableEq P] [DecidableEq D]

/-- The step a callback takes. -/
inductive Called (call : P → Call) (t : State P D) (p : P) :
    List (Effect P D) → State P D → Prop where
  | pass : t.calling p = .idle → Called call t p [] (t.atCall p .passed)
  | enter (mutate : Bool) : t.calling p = .idle →
      Called call t p [] (t.atCall p (.entered mutate))
  | count (mutate : Bool) (action : UInt8) : t.calling p = .entered mutate →
      Called call t p [.called p] ((t.count (call p).kind).atCall p (.counted action))
  | choose (mode : UInt32) (action : UInt8) : t.calling p = .counted action →
      Called call t p [] (t.atCall p (.capturing mode action))
  | produce (b : Bank) (mode : UInt32) (action : UInt8) (spurious : Bool)
      (e : Application.Event) (es : List (CaptureSchedule.Event P (D × Nat)))
      (schedule : Schedule P (D × Nat)) :
      t.calling p = .capturing mode action → b = bank (call p).kind mode →
      e.kind = UInt8.ofNat (call p).kind.val → e.mode = mode →
      CaptureSchedule.produce (fun _ => bankLimit) (t.banks b) p spurious e.encode
        = some (es, schedule) →
      Called call t p (es.filterMap (shown b e)) (t.atBank b schedule)
  | record (mode : UInt32) (action : UInt8) : t.calling p = .capturing mode action →
      ((t.banks (bank (call p).kind mode)).producing p).returned? = some true →
      Called call t p [] (t.atCall p (.recorded mode))
  | lose (mode : UInt32) (action : UInt8) : t.calling p = .capturing mode action →
      ((t.banks (bank (call p).kind mode)).producing p).returned? = some false →
      Called call t p [.dropped p] (t.drop.atCall p (.lost mode))

/-- The step a drain takes. -/
inductive Drained (t : State P D) (d : D) : List (Effect P D) → State P D → Prop where
  | finish (dirty : Bool) : t.draining d = .visiting [] dirty →
      Drained t d [] (t.atDrain d (.returned (some dirty)))
  | visit (b : Bank) (i : Nat) (rest : List (Bank × Nat)) (dirty : Bool)
      (es : List (CaptureSchedule.Event P (D × Nat))) (schedule : Schedule P (D × Nat)) :
      t.draining d = .visiting ((b, i) :: rest) dirty →
      consume Prod.snd (t.banks b) (d, i) = some (es, schedule) →
      Drained t d [] ((t.atBank b schedule).atDrain d
        (if es = [] then .visiting rest dirty else .reading b i rest))
  | line (b : Bank) (i : Nat) (rest : List (Bank × Nat)) (j : Index) (capture : Capture) :
      t.draining d = .reading b i rest → (t.banks b).taking (d, i) = .read j →
      ((t.banks b).store.slots j).value = some capture →
      Drained t d [.line d (eventLine b capture)]
        ((t.atBank b ((t.banks b).atConsumer (d, i) (.returned (some capture)))).atDrain d
          (.visiting rest true))
  | fail (b : Bank) (i : Nat) (rest : List (Bank × Nat)) (j : Index) (capture : Capture) :
      t.draining d = .reading b i rest → (t.banks b).taking (d, i) = .read j →
      ((t.banks b).store.slots j).value = some capture →
      Drained t d []
        ((t.atBank b ((t.banks b).atConsumer (d, i) (.returned (some capture)))).atDrain d
          (.returned none))

variable {call : P → Call} {t t' : State P D} {es : List (Effect P D)}

omit [DecidableEq D] in
theorem called_of_callStep {p : P} {supplied : Supplied}
    (h : callStep call t p supplied = some (es, t')) : Called call t p es t' := by
  unfold callStep at h
  cases hcalling : t.calling p with
  | idle =>
      simp only [hcalling] at h
      split_ifs at h with hpass
      · obtain ⟨rfl, rfl⟩ := Prod.mk.inj (Option.some.inj h)
        exact .pass hcalling
      · obtain ⟨rfl, rfl⟩ := Prod.mk.inj (Option.some.inj h)
        exact .enter _ hcalling
  | entered mutate =>
      simp only [hcalling] at h
      obtain ⟨rfl, rfl⟩ := Prod.mk.inj (Option.some.inj h)
      exact .count mutate _ hcalling
  | counted action =>
      simp only [hcalling] at h
      obtain ⟨rfl, rfl⟩ := Prod.mk.inj (Option.some.inj h)
      exact .choose _ action hcalling
  | capturing mode action =>
      simp only [hcalling] at h
      -- `try_capture` has not returned, has stored, or has found the bank full
      cases hreturned : ((t.banks (bank (call p).kind mode)).producing p).returned? with
      | none =>
          simp only [hreturned] at h
          obtain ⟨⟨es, schedule⟩, hproduce, hpair⟩ := Option.map_eq_some_iff.mp h
          obtain ⟨rfl, rfl⟩ := Prod.mk.inj hpair
          exact .produce _ mode action _ _ es schedule hcalling rfl rfl rfl hproduce
      | some ok =>
          cases ok with
          | true =>
              simp only [hreturned] at h
              obtain ⟨rfl, rfl⟩ := Prod.mk.inj (Option.some.inj h)
              exact .record mode action hcalling hreturned
          | false =>
              simp only [hreturned] at h
              obtain ⟨rfl, rfl⟩ := Prod.mk.inj (Option.some.inj h)
              exact .lose mode action hcalling hreturned
  | passed =>
      simp only [hcalling] at h
      cases h
  | recorded mode =>
      simp only [hcalling] at h
      cases h
  | lost mode =>
      simp only [hcalling] at h
      cases h

omit [DecidableEq P] in
theorem drained_of_drainStep {d : D} {writable : Bool}
    (h : drainStep t d writable = some (es, t')) : Drained t d es t' := by
  unfold drainStep at h
  cases hdraining : t.draining d with
  | visiting rest dirty =>
      cases rest with
      | nil =>
          simp only [hdraining] at h
          obtain ⟨rfl, rfl⟩ := Prod.mk.inj (Option.some.inj h)
          exact .finish dirty hdraining
      | cons slot rest =>
          simp only [hdraining] at h
          obtain ⟨⟨fs, schedule⟩, hconsume, hpair⟩ := Option.map_eq_some_iff.mp h
          obtain ⟨rfl, rfl⟩ := Prod.mk.inj hpair
          exact .visit slot.1 slot.2 rest dirty fs schedule hdraining hconsume
  | reading b i rest =>
      simp only [hdraining] at h
      cases hconsume : consume Prod.snd (t.banks b) (d, i) with
      | none =>
          simp only [hconsume] at h
          cases h
      | some x =>
          obtain ⟨fs, schedule⟩ := x
          simp only [hconsume] at h
          split at h
          case h_2 => cases h
          case h_1 capture hreturned =>
            -- only the read of a value returns one
            cases consumed_of_consume hconsume with
            | miss hpc =>
                rw [Schedule.atConsumer_self] at hreturned
                cases hreturned
            | take j hpc hindex hready =>
                have hnow : ((t.banks b).atConsumer (d, i) (.read j)).taking (d, i) = .read j :=
                  Schedule.atConsumer_self ..
                cases hnow.symm.trans hreturned
            | read j hpc =>
                rw [Schedule.atConsumer_self] at hreturned
                have hvalue := Taking.returned.inj hreturned
                rw [hvalue] at h
                split_ifs at h with hwritable
                · obtain ⟨rfl, rfl⟩ := Prod.mk.inj (Option.some.inj h)
                  exact .line b i rest j capture hdraining hpc hvalue
                · obtain ⟨rfl, rfl⟩ := Prod.mk.inj (Option.some.inj h)
                  exact .fail b i rest j capture hdraining hpc hvalue
  | returned dirty? =>
      simp only [hdraining] at h
      cases h

/-- **Everything one step can do.** -/
theorem step_cases (h : Step call t es t') :
    (∃ p, Called call t p es t') ∨ (∃ d, Drained t d es t')
      ∨ es = [] ∧ ∃ active startTick, t' = { t with active, startTick } := by
  obtain ⟨mv, hmv⟩ := h
  cases mv with
  | call p supplied => exact Or.inl ⟨p, called_of_callStep hmv⟩
  | drain d writable => exact Or.inr (Or.inl ⟨d, drained_of_drainStep hmv⟩)
  | setStart tick =>
      obtain ⟨rfl, rfl⟩ := Prod.mk.inj (Option.some.inj hmv)
      exact Or.inr (Or.inr ⟨rfl, _, _, rfl⟩)
  | activate =>
      obtain ⟨rfl, rfl⟩ := Prod.mk.inj (Option.some.inj hmv)
      exact Or.inr (Or.inr ⟨rfl, _, _, rfl⟩)
  | stopRecording =>
      obtain ⟨rfl, rfl⟩ := Prod.mk.inj (Option.some.inj hmv)
      exact Or.inr (Or.inr ⟨rfl, _, _, rfl⟩)

end Inversion

end TeamAttack.ProbeSchedule
