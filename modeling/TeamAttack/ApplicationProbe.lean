import TeamAttack.Application
import TeamAttack.Library.ByteMemory
import TeamAttack.Watch

/-! # The application callbacks (`application_probe.rs`)

    Eight inline hooks call `observe`.  Two of them may change one byte of
    game memory each, behind `mutateIfGuarded`; all of them record an event
    while recording is active.

    Address sums wrap, as they do in the release build: what is proved below
    needs no assumption that they do not overflow.  The statics fall into the
    mutation side and the recording side, `Recording`. -/

namespace TeamAttack.ApplicationProbe

open ByteMemory Application Watch

/-- The callback's `kind`, 0 to 7. -/
abbrev Kind := Fin siteCount

instance neZero_registers : NeZero 31 := ⟨by decide⟩

/-- The register file an inline hook receives. -/
structure InlineCtx where
  x : Fin 31 → UInt64

/-- The statics of diagnostic recording. -/
structure Recording where
  active : Bool
  start : UInt64
  calls : Kind → Nat
  dropped : Nat
  events : Fin (siteCount * 2) → CaptureStore

/-- The statics of the module. -/
structure Statics where
  experiment : Bool
  base : UInt64
  armedSession : UInt64
  recording : Recording

/-- The statics at process start. -/
def Statics.boot : Statics where
  experiment := false
  base := 0
  armedSession := 0
  recording :=
    { active := false, start := 0, calls := fun _ => 0, dropped := 0,
      events := fun _ => CaptureStore.new }

/-- What a callback can change: the statics and game memory. -/
structure World where
  statics : Statics
  mem : Memory

/-- The two `write_byte` statements of `mutate_if_guarded`. -/
inductive WriteSite where
  | proposal
  | localMirror
  deriving DecidableEq

/-- One executed `write_byte`. -/
structure Write where
  site : WriteSite
  address : UInt64
  value : UInt8
  deriving DecidableEq

/-- Return value and effects of `mutate_if_guarded`. -/
structure Mutated where
  action : UInt8
  writes : List Write
  armedSession : UInt64
  mem : Memory

/-- The sixteen identity words of `local_slot`, 0x78 bytes apart. -/
def identityEntries (m : Memory) (session : UInt64) (slot : Fin 16) : UInt64 :=
  let manager := session + 0xa010
  pointer m (manager + 8 + UInt64.ofNat slot.val * 0x78)

/-- `local_slot`: FF when no entry matches. -/
def localSlot (m : Memory) (session : UInt64) : UInt8 :=
  let identity := pointer m (session + 0x9ff8)
  ((identitySlot identity (identityEntries m session)).map
    (fun slot => UInt8.ofNat slot.val)).getD 0xff

/-- Non-null B4 of length D0, the only submission looked at. -/
def isProposal (ctx : InlineCtx) : Bool :=
  !((ctx.x 1).toUInt16 ≠ 0xb4 || (ctx.x 3).toUInt32 ≠ 0xd0 || ctx.x 2 = 0)

/-- The session register of the two write-capable hooks. -/
def guardedSession (kind : Kind) (ctx : InlineCtx) : Option UInt64 :=
  if kind = 0 then some (ctx.x 24)
  else if kind = 5 then some (ctx.x 0)
  else none

/-- The session and global guards shared by both writes. -/
def sessionRefused (base session : UInt64) (m : Memory) : Bool :=
  session = 0
    || word m (session + sessionRequest) ≠ 2
    || byte m (session + sessionPrepared) ≠ 0
    || byte m (base + guardOffset) &&& 1 = 0
    || byte m (base + globalOffset) ≠ 0

/-- The `kind == 5` block: write the proposal and arm its session. -/
def mutateProposal (s : Statics) (m : Memory) (ctx : InlineCtx) (session : UInt64)
    (slot : UInt8) : Mutated :=
  let proposal := ctx.x 2
  if !isProposal ctx
      || !proposalGuard (word m (s.base + modeOffset)) (word m (session + sessionRequest))
        (byte m (session + sessionPrepared)) (byte m (s.base + guardOffset) &&& 1 ≠ 0)
        (byte m (s.base + globalOffset)) slot (byte m (proposal + 0xc8))
        (byte m (proposal + 0x11)) (submitOrigin (ctx.x 30 - s.base)) then
    ⟨0xff, [], s.armedSession, m⟩
  else
    let m' := writeByte m (proposal + 0x11) 1
    let writes : List Write := [⟨.proposal, proposal + 0x11, 1⟩]
    if byte m' (proposal + 0x11) = 1 then ⟨0, writes, session, m'⟩
    else ⟨0xff, writes, s.armedSession, m'⟩

/-- The `else if` block: mirror an armed session's local source. -/
def mutateLocal (s : Statics) (m : Memory) (session : UInt64) : Mutated :=
  let address := session + localTeam
  if s.armedSession = session && byte m address = 0 then
    let m' := writeByte m address 1
    let writes : List Write := [⟨.localMirror, address, 1⟩]
    if byte m' address = 1 then ⟨1, writes, s.armedSession, m'⟩
    else ⟨0xff, writes, s.armedSession, m'⟩
  else ⟨0xff, [], s.armedSession, m⟩

/-- `mutate_if_guarded`. -/
def mutateIfGuarded (s : Statics) (m : Memory) (kind : Kind) (ctx : InlineCtx) : Mutated :=
  if !s.experiment then ⟨0xff, [], s.armedSession, m⟩
  else if word m (s.base + modeOffset) ≠ coopMode then ⟨0xff, [], s.armedSession, m⟩
  else match guardedSession kind ctx with
    | none => ⟨0xff, [], s.armedSession, m⟩
    | some session =>
        if sessionRefused s.base session m then ⟨0xff, [], s.armedSession, m⟩
        else
          let slot := localSlot m session
          if slot ≥ 16 then ⟨0xff, [], s.armedSession, m⟩
          else if kind = 5 then mutateProposal s m ctx session slot
          else mutateLocal s m session

/-- `start`. -/
def start (r : Recording) (tick : UInt64) : Recording :=
  { r with start := tick, active := true }

/-- `stop_recording`. -/
def stopRecording (r : Recording) : Recording := { r with active := false }

/-- What the runtime supplies to one callback: the system tick, and whether
    the weak compare-exchange fails spuriously. -/
structure CallEnv where
  tick : UInt64
  spurious : Bool

/-- The session a recorded callback reads. -/
def recordSession (kind : Kind) (ctx : InlineCtx) : UInt64 :=
  if kind = 5 then ctx.x 0
  else if kind ≥ 6 then ctx.x 19 - 0xa010
  else ctx.x 24

/-- `participant` and `team`, by kind. -/
def teamSource (m : Memory) (kind : Kind) (ctx : InlineCtx) : UInt8 × UInt8 :=
  let session := recordSession kind ctx
  if kind = 0 then (0xff, byte m (session + localTeam))
  else if kind = 1 then
    let source := ctx.x 1
    match participantSlot session source with
    | some slot => (slot, byte m (source + 0xf11))
    | none => (0xff, 0xff)
  else if kind = 5 then
    let buffer := ctx.x 2
    let slot := byte m (buffer + 0xc8)
    (if slot < 16 then slot else 0xff, byte m (buffer + 0x11))
  else if kind = 6 then
    let slot := ctx.x 9
    (if slot < 16 then slot.toUInt8 else 0xff, byte m (ctx.x 8 + 0x11))
  else if kind = 7 then
    let record := ctx.x 9
    match receivedSlot (ctx.x 19) record with
    | some slot => (slot, byte m (record + 0x1699))
    | none => (0xff, 0xff)
  else (0xff, byte m (session + selectedTeam))

/-- The sample closure of `observe`. -/
def sampleEvent (s : Statics) (m : Memory) (env : CallEnv) (kind : Kind) (ctx : InlineCtx)
    (mutationAction : UInt8) (mode : UInt32) : Event :=
  let session := recordSession kind ctx
  let (participant, team) := teamSource m kind ctx
  let slot := localSlot m session
  let initialized : Bool := byte m (s.base + guardOffset) &&& 1 ≠ 0
  { kind := UInt8.ofNat kind.val
    prepared := byte m (session + sessionPrepared)
    team
    global := if initialized then byte m (s.base + globalOffset) else 0xff
    initialized
    participant
    localSlot := slot
    selectedOwner := if kind = 0 then slot else if kind = 1 then participant else 0xff
    submitOrigin := if kind = 5 then submitOrigin (ctx.x 30 - s.base) else 0xff
    mutationAction
    mode
    request := word m (session + sessionRequest)
    elapsedTicks := env.tick - s.recording.start }

/-- The bank of a kind: the upper eight are for the co-op mode. -/
def bank (kind : Kind) (mode : UInt32) : Fin (siteCount * 2) :=
  if mode = coopMode then ⟨kind.val + siteCount, by unfold siteCount; omega⟩
  else ⟨kind.val, by unfold siteCount; omega⟩

/-- A callback's `mutation_action`, the writes it executed, the event it
    recorded, and the world it leaves. -/
structure Observed where
  action : UInt8
  writes : List Write
  recorded : Option Event
  world : World

/-- The recording half of `observe`, after the mutation. -/
def record (s : Statics) (m : Memory) (env : CallEnv) (kind : Kind) (ctx : InlineCtx)
    (mutationAction : UInt8) : Option Event × Recording :=
  let r := s.recording
  let calls := Function.update r.calls kind (r.calls kind + 1)
  let mode := word m (s.base + modeOffset)
  let event := sampleEvent s m env kind ctx mutationAction mode
  match (r.events (bank kind mode)).tryCapture bankLimit env.spurious event.encode with
  | (true, store) =>
      (some event, { r with calls, events := Function.update r.events (bank kind mode) store })
  | (false, _) => (none, { r with calls, dropped := r.dropped + 1 })

/-- `observe`. -/
def observe (w : World) (env : CallEnv) (kind : Kind) (ctx : InlineCtx) : Observed :=
  let policy := hookPolicy w.statics.experiment w.statics.recording.active
  if !policy.record && (!policy.mutate || !(kind = 0 || kind = 5)) then ⟨0xff, [], none, w⟩
  else if kind = 5 && !isProposal ctx then ⟨0xff, [], none, w⟩
  else
    let mutated : Mutated :=
      if policy.mutate && (kind = 0 || kind = 5) then mutateIfGuarded w.statics w.mem kind ctx
      else ⟨0xff, [], w.statics.armedSession, w.mem⟩
    let statics := { w.statics with armedSession := mutated.armedSession }
    if !policy.record then ⟨mutated.action, mutated.writes, none, ⟨statics, mutated.mem⟩⟩
    else
      let (recorded, recording) := record statics mutated.mem env kind ctx mutated.action
      ⟨mutated.action, mutated.writes, recorded,
        ⟨{ statics with recording }, mutated.mem⟩⟩

/-- `counts`. -/
def counts (r : Recording) : (Kind → Nat) × Nat := (r.calls, r.dropped)

/-- The event line `drain` writes for a capture: its sequence and its event. -/
structure EventLine where
  sequence : Nat
  event : Event
  deriving DecidableEq

def eventLine (bank : Fin (siteCount * 2)) (capture : Capture) : EventLine where
  sequence := bank.val * bankLimit + capture.sequence
  event := Event.decode capture.bytes

/-- The slots `drain` visits, in order. -/
def drainOrder : List (Fin (siteCount * 2) × Nat) :=
  (List.finRange (siteCount * 2)).flatMap fun bank =>
    (List.range bankLimit).map fun i => (bank, i)

/-- The loops of `drain`, with the lines written so far: the lines, whether
    every write succeeded, and the statics.  A failed write loses its capture.
    `writable` answers for the writes of this drain in turn. -/
def drainLoop (writable : Nat → Bool) :
    List (Fin (siteCount * 2) × Nat) → List EventLine → Recording →
      List EventLine × Bool × Recording
  | [], written, r => (written, true, r)
  | (bank, i) :: rest, written, r =>
      match (r.events bank).take i with
      | (none, _) => drainLoop writable rest written r
      | (some capture, store) =>
          let r' := { r with events := Function.update r.events bank store }
          if writable written.length then
            drainLoop writable rest (written ++ [eventLine bank capture]) r'
          else (written, false, r')

/-- `drain`. -/
def drain (writable : Nat → Bool) (r : Recording) : List EventLine × Bool × Recording :=
  drainLoop writable drainOrder [] r

end TeamAttack.ApplicationProbe
