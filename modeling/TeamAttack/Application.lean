import TeamAttack.Capture
import TeamAttack.Library.CheckedWord
import TeamAttack.Library.LittleEndian
import TeamAttack.Validation

/-! # Reviewed rule-application events (`application.rs`)

    The constants of the reviewed game build, the pure guards of the mutation,
    and the event a recorded callback stores.  An event never carries an
    identity or a pointer. -/

namespace TeamAttack.Application

open RustStr CheckedWord LittleEndian RustSlice

def bankLimit : Nat := 64
def coopMode : UInt32 := 0x07010102
def modeOffset : UInt64 := 0x53050f0
def sessionRequest : UInt64 := 0x269c0
def sessionPrepared : UInt64 := 0x26a62
def localTeam : UInt64 := 0x21fa9
def selectedTeam : UInt64 := 0x24649
abbrev siteCount : Nat := 8

instance neZero_siteCount : NeZero siteCount := ⟨by decide⟩

/-- The hooked instructions, `kind` 0 to 7. -/
def sites : Fin siteCount → UInt64 :=
  ![0x169bf4c, 0x169ec00, 0x169c3a8, 0x169c92c, 0x169c93c, 0x1685ccc, 0x16f056c,
    0x16f0598]

/-- `SUBMIT_ORIGINS.len()`. -/
def submitOriginCount : UInt8 := 4

structure HookPolicy where
  mutate : Bool
  record : Bool
  deriving DecidableEq

/-- Mutation and recording have independent lifetimes. -/
def hookPolicy (experimentEnabled recordingActive : Bool) : HookPolicy where
  mutate := experimentEnabled
  record := recordingActive

/-- The caller of the B4 submission hook, classified by return offset. -/
def submitOrigin (returnOffset : UInt64) : UInt8 :=
  if returnOffset = 0x1687fec then 0
  else if returnOffset = 0x1690884 then 1
  else if returnOffset = 0x16f52d8 then 2
  else if returnOffset = 0x16fa0e8 then 3
  else 0xff

/-- The first of the sixteen entries that equals `identity`. -/
def identitySlot (identity : UInt64) (entries : Fin 16 → UInt64) : Option (Fin 16) :=
  if identity = 0 then none
  else (List.finRange 16).find? (fun slot => entries slot = identity)

def proposalGuard (mode request : UInt32) (prepared : UInt8) (initialized : Bool)
    (globalTeam localSlot proposalSlot proposalTeam origin : UInt8) : Bool :=
  mode = coopMode
    && request = 2
    && prepared = 0
    && initialized
    && globalTeam = 0
    && localSlot < 16
    && proposalSlot = localSlot
    && proposalTeam = 0
    && origin < submitOriginCount

/-- The slot at a byte distance into a table of 0x1350-byte records. -/
def recordSlot (delta : UInt64) : Option UInt8 :=
  if delta % 0x1350 ≠ 0 ∨ delta / 0x1350 ≥ 16 then none
  else some (delta / 0x1350).toUInt8

def participantSlot (session source : UInt64) : Option UInt8 := do
  let first ← checkedAdd session 0xa798
  let delta ← checkedSub source first
  recordSlot delta

def receivedSlot (manager record : UInt64) : Option UInt8 := do
  let delta ← checkedSub record manager
  recordSlot delta

/-! ## The reviewed code -/

/-- The offsets of `BODIES`.  Their bytes are build inputs. -/
def bodyOffsets : Fin 7 → UInt64 :=
  ![0x169bef0, 0x16eb720, 0x16e3ec0, 0x16ea390, 0x1685cb0, 0x16f03b0, 0x16f0550]

/-- `SUBMIT_CALL_SITES`. -/
def submitCallSites : List (UInt64 × List UInt8) :=
  [(0x1687fe8, [0x32, 0xf7, 0xff, 0x97]), (0x1690880, [0x0c, 0xd5, 0xff, 0x97]),
    (0x16f52d4, [0x77, 0x42, 0xfe, 0x97]), (0x16fa0e4, [0xf3, 0x2e, 0xfe, 0x97])]

/-- `text.get(offset..offset + expected.len()) == Some(expected)`. -/
def matchesAt (text : List UInt8) (offset : UInt64) (expected : List UInt8) : Bool :=
  getRange text offset.toNat (offset.toNat + expected.length) = some expected

/-- One of the comparisons of `validate`, with its message up to the offset. -/
def requireBody (text : List UInt8) (message : String) (body : UInt64 × List UInt8) :
    Checked Unit :=
  if matchesAt text body.1 body.2 then .ok ()
  else .error (message.toList ++ hexLower body.1.toNat)

/-- `validate`, for the reviewed bytes `bodies`. -/
def validate (bodies : Fin 7 → List UInt8) (text : List UInt8) : Checked Unit := do
  (List.finRange 7).forM fun i =>
    requireBody text "rule application body mismatch at main+" (bodyOffsets i, bodies i)
  submitCallSites.forM (requireBody text "B4 submit caller mismatch at main+")

/-- The B4 entry of the receive table must lead to the reviewed copy branch. -/
def validateReceiveTable (rodata : List UInt8) (rodataOffset : UInt64) : Checked Unit := do
  let a ← okOr (checkedSub 0x44f3b48 rodataOffset) "receive table precedes rodata"
  let expected := le32 ((0x16f0550 : Int32) - 0x44f3b44).toUInt32
  if getRange rodata a.toNat (a.toNat + 4) ≠ some expected then
    refuse "B4 receive dispatch table mismatch"

/-! ## Recorded events -/

/-- What one recorded callback observed.  FF means not applicable. -/
structure Event where
  kind : UInt8
  prepared : UInt8
  team : UInt8
  global : UInt8
  initialized : Bool
  participant : UInt8
  localSlot : UInt8
  selectedOwner : UInt8
  submitOrigin : UInt8
  mutationAction : UInt8
  mode : UInt32
  request : UInt32
  elapsedTicks : UInt64
  deriving DecidableEq

/-- `Event::encode`: 26 bytes, the rest zero. -/
def Event.encode (e : Event) : Payload :=
  let b : Payload := Vector.replicate compactBufferLen 0
  let b := copyFromSlice b 0
    [e.kind, e.prepared, e.team, e.global, e.initialized.toUInt8, e.participant]
  let b := copyFromSlice b 6 [e.localSlot]
  let b := copyFromSlice b 7 [e.selectedOwner]
  let b := copyFromSlice b 8 (le32 e.mode)
  let b := copyFromSlice b 12 (le32 e.request)
  let b := copyFromSlice b 16 (le64 e.elapsedTicks)
  let b := copyFromSlice b 24 [e.submitOrigin]
  copyFromSlice b 25 [e.mutationAction]

/-- `Event::decode`. -/
def Event.decode (b : Payload) : Event where
  kind := b[0]
  prepared := b[1]
  team := b[2]
  global := b[3]
  initialized := b[4] ≠ 0
  participant := b[5]
  localSlot := b[6]
  selectedOwner := b[7]
  mode := of32 (slice b 8 4)
  request := of32 (slice b 12 4)
  elapsedTicks := of64 (slice b 16 8)
  submitOrigin := b[24]
  mutationAction := b[25]

/-! ## What the guards accept -/

theorem submitOrigin_lt_iff (returnOffset : UInt64) :
    submitOrigin returnOffset < submitOriginCount ↔
      returnOffset = 0x1687fec ∨ returnOffset = 0x1690884
        ∨ returnOffset = 0x16f52d8 ∨ returnOffset = 0x16fa0e8 := by
  unfold submitOrigin
  split_ifs with h0 h1 h2 h3
  · simp [h0, submitOriginCount]
  · simp [h1, submitOriginCount]
  · simp [h2, submitOriginCount]
  · simp [h3, submitOriginCount]
  · simp [h0, h1, h2, h3, submitOriginCount]

/-- `slot` is the first of the sixteen entries equal to a nonzero identity. -/
def FirstMatch (identity : UInt64) (entries : Fin 16 → UInt64) (slot : Fin 16) : Prop :=
  identity ≠ 0 ∧ entries slot = identity ∧ ∀ j < slot, entries j ≠ identity

theorem identitySlot_eq_some {identity : UInt64} {entries : Fin 16 → UInt64}
    {slot : Fin 16} :
    identitySlot identity entries = some slot ↔ FirstMatch identity entries slot := by
  unfold identitySlot FirstMatch
  by_cases h0 : identity = 0
  · simp [h0]
  · rw [if_neg h0, List.find?_eq_some_iff_getElem]
    simp only [ne_eq, h0, not_false_eq_true, true_and, decide_eq_true_eq]
    constructor
    · rintro ⟨heq, i, hi, hslot, hfirst⟩
      refine ⟨heq, fun j hj => ?_⟩
      have hval : slot.val = i := by rw [← hslot]; simp
      have := hfirst j.val (by omega)
      simpa using this
    · rintro ⟨heq, hfirst⟩
      refine ⟨heq, slot.val, by simp, by simp, fun j hj => ?_⟩
      simpa using hfirst ⟨j, by omega⟩ hj

theorem proposalGuard_iff {mode request : UInt32} {prepared : UInt8} {initialized : Bool}
    {globalTeam localSlot proposalSlot proposalTeam origin : UInt8} :
    proposalGuard mode request prepared initialized globalTeam localSlot proposalSlot
        proposalTeam origin = true ↔
      mode = coopMode ∧ request = 2 ∧ prepared = 0 ∧ initialized = true ∧ globalTeam = 0
        ∧ localSlot < 16 ∧ proposalSlot = localSlot ∧ proposalTeam = 0
        ∧ origin < submitOriginCount := by
  simp only [proposalGuard, Bool.and_eq_true, decide_eq_true_eq, and_assoc]

end TeamAttack.Application
