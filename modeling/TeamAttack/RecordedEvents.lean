import TeamAttack.MutationRuns

/-! # What a recorded event can hold

    The event of a callback is sampled from the memory the mutation left
    behind.  Whatever the registers and the memory hold, its slots, its origin
    and its action come from a few values. -/

namespace TeamAttack

open Application LittleEndian

/-! ## The bytes of an event -/

theorem getElem_copyFromSlice (b : Payload) (start : Nat) (src : List UInt8) {i : Nat}
    (h : i < compactBufferLen) : (copyFromSlice b start src)[i]
      = if start ≤ i then (src[i - start]?).getD b[i] else b[i] := by
  rw [copyFromSlice, Vector.getElem_ofFn]
  rfl

theorem getElem?_slice (b : Payload) (start len k : Nat) :
    (slice b start len)[k]? = if k < len then b[start + k]? else none := by
  rw [slice, List.getElem?_take]
  split_ifs with hk
  · rw [List.getElem?_drop, Vector.getElem?_toList]
  · rfl

theorem slice_copyFromSlice (b : Payload) {start : Nat} (src : List UInt8)
    (h : start + src.length ≤ compactBufferLen) :
    slice (copyFromSlice b start src) start src.length = src := by
  refine List.ext_getElem? fun k => ?_
  rw [getElem?_slice]
  split_ifs with hk
  · rw [Vector.getElem?_eq_getElem (by omega), getElem_copyFromSlice b start src (by omega),
      if_pos (by omega), Nat.add_sub_cancel_left, List.getElem?_eq_getElem hk]
    rfl
  · rw [List.getElem?_eq_none (Nat.le_of_not_lt hk)]

theorem slice_copyFromSlice_of_apart (b : Payload) {start len start' : Nat} (src : List UInt8)
    (h : start + len ≤ start' ∨ start' + src.length ≤ start)
    (hlen : start + len ≤ compactBufferLen) :
    slice (copyFromSlice b start' src) start len = slice b start len := by
  refine List.ext_getElem? fun k => ?_
  rw [getElem?_slice, getElem?_slice]
  split_ifs with hk
  · rw [Vector.getElem?_eq_getElem (by omega), Vector.getElem?_eq_getElem (by omega),
      getElem_copyFromSlice b start' src (by omega)]
    split_ifs with hat
    · rw [List.getElem?_eq_none (by omega)]
      rfl
    · rfl
  · rfl

theorem slice_copyFromSlice_self (b : Payload) {start len : Nat} {src : List UInt8}
    (hlen : src.length = len) (h : start + len ≤ compactBufferLen) :
    slice (copyFromSlice b start src) start len = src := by
  subst hlen
  exact slice_copyFromSlice b src h

/-- The three numbers of an event, read back from their bytes. -/
theorem slice_encode (e : Event) :
    slice e.encode 8 4 = le32 e.mode ∧ slice e.encode 12 4 = le32 e.request
      ∧ slice e.encode 16 8 = le64 e.elapsedTicks := by
  rw [Event.encode]
  refine ⟨?_, ?_, ?_⟩
  · iterate 4 rw [slice_copyFromSlice_of_apart _ _ (by simp) (by decide)]
    exact slice_copyFromSlice_self _ (length_le32 _) (by decide)
  · iterate 3 rw [slice_copyFromSlice_of_apart _ _ (by simp) (by decide)]
    exact slice_copyFromSlice_self _ (length_le32 _) (by decide)
  · iterate 2 rw [slice_copyFromSlice_of_apart _ _ (by simp) (by decide)]
    exact slice_copyFromSlice_self _ (length_le64 _) (by decide)

/-- **Every event survives its encoding.** -/
theorem decode_encode (e : Event) : Event.decode e.encode = e := by
  obtain ⟨hmode, hrequest, hticks⟩ := slice_encode e
  have hflag : (decide (e.encode[4] ≠ 0)) = e.initialized := by
    have hbyte : e.encode[4] = e.initialized.toUInt8 := by
      simp [Event.encode, getElem_copyFromSlice]
    rw [hbyte]
    cases e.initialized <;> rfl
  rw [Event.decode, hmode, hrequest, hticks, of32_le32, of32_le32, of64_le64, hflag]
  simp [Event.encode, getElem_copyFromSlice]

end TeamAttack

namespace TeamAttack.ApplicationProbe

open ByteMemory Application Watch CheckedWord

/-- **The event of a callback**: sampled after the mutation, with its action
    and the mode that chose its bank. -/
theorem observe_recorded {w : World} {env : CallEnv} {kind : Kind} {ctx : InlineCtx} {e : Event}
    (h : (observe w env kind ctx).recorded = some e) :
    e = sampleEvent w.statics (observe w env kind ctx).world.mem env kind ctx
      (observe w env kind ctx).action
      (word (observe w env kind ctx).world.mem (w.statics.base + modeOffset)) := by
  unfold observe at h ⊢
  dsimp only [hookPolicy] at h ⊢
  -- the three early returns record nothing
  by_cases hidle : (!w.statics.recording.active
      && (!w.statics.experiment || !(decide (kind = 0) || decide (kind = 5)))) = true
  · rw [if_pos hidle] at h
    cases h
  rw [if_neg hidle] at h ⊢
  by_cases hskip : (decide (kind = 5) && !isProposal ctx) = true
  · rw [if_pos hskip] at h
    cases h
  rw [if_neg hskip] at h ⊢
  by_cases hrec : (!w.statics.recording.active) = true
  · rw [if_pos hrec] at h
    cases h
  rw [if_neg hrec] at h ⊢
  -- the event is sampled from the memory the mutation leaves
  generalize (if (w.statics.experiment && (decide (kind = 0) || decide (kind = 5))) = true
    then mutateIfGuarded w.statics w.mem kind ctx
    else (⟨0xff, [], w.statics.armedSession, w.mem⟩ : Mutated)) = mutated at h ⊢
  dsimp only at h ⊢
  rw [record] at h
  dsimp only at h
  split at h
  · exact (Option.some.inj h).symm
  · cases h

section Sample

variable (s : Statics) (m : Memory) (env : CallEnv) (kind : Kind) (ctx : InlineCtx)
  (action : UInt8) (mode : UInt32)

@[simp] theorem sampleEvent_team : (sampleEvent s m env kind ctx action mode).team
    = (teamSource m kind ctx).2 := rfl

@[simp] theorem sampleEvent_participant : (sampleEvent s m env kind ctx action mode).participant
    = (teamSource m kind ctx).1 := rfl

@[simp] theorem sampleEvent_localSlot : (sampleEvent s m env kind ctx action mode).localSlot
    = localSlot m (recordSession kind ctx) := rfl

@[simp] theorem sampleEvent_selectedOwner :
    (sampleEvent s m env kind ctx action mode).selectedOwner
      = if kind = 0 then localSlot m (recordSession kind ctx)
        else if kind = 1 then (teamSource m kind ctx).1 else 0xff := rfl

@[simp] theorem sampleEvent_submitOrigin :
    (sampleEvent s m env kind ctx action mode).submitOrigin
      = if kind = 5 then submitOrigin (ctx.x 30 - s.base) else 0xff := rfl

@[simp] theorem sampleEvent_global : (sampleEvent s m env kind ctx action mode).global
    = if byte m (s.base + guardOffset) &&& 1 ≠ 0 then byte m (s.base + globalOffset)
      else 0xff := by
  show (if decide (byte m (s.base + guardOffset) &&& 1 ≠ 0) = true
    then byte m (s.base + globalOffset) else 0xff) = _
  simp only [decide_eq_true_eq]

end Sample

/-! ## The values of the fields -/

/-- A slot number, or FF. -/
def IsSlot (b : UInt8) : Prop := b < 16 ∨ b = 0xff

theorem toUInt8_lt {x : UInt64} (h : x < 16) : x.toUInt8 < 16 := by
  have hlt := UInt64.lt_iff_toNat_lt.mp h
  have h16 : (16 : UInt64).toNat = 16 := rfl
  have h16' : (16 : UInt8).toNat = 16 := rfl
  rw [UInt8.lt_iff_toNat_lt, UInt64.toNat_toUInt8]
  omega

theorem recordSlot_slot {delta : UInt64} {slot : UInt8} (h : recordSlot delta = some slot) :
    slot < 16 := by
  rw [recordSlot] at h
  split_ifs at h with hdelta
  obtain rfl := Option.some.inj h
  exact toUInt8_lt (UInt64.not_le.mp (not_or.mp hdelta).2)

theorem localSlot_slot (m : Memory) (session : UInt64) : IsSlot (localSlot m session) := by
  rcases localSlot_cases m session with ⟨k, hk⟩ | ⟨-, hff⟩
  · rw [localSlot_eq_of_owner hk]
    exact Or.inl (ofNat_fin_lt k)
  · exact Or.inr hff

/-- The participant slot, by each of the five ways it is computed. -/
theorem teamSource_slot (m : Memory) (kind : Kind) (ctx : InlineCtx) :
    IsSlot (teamSource m kind ctx).1 := by
  have hnone : IsSlot 0xff := Or.inr rfl
  rw [teamSource]
  dsimp only
  -- hook by hook, as `team_source` tests them
  split_ifs with h0 h1 h5 hslot5 h6 hslot6 h7
  · exact hnone
  · cases hp : participantSlot (recordSession kind ctx) (ctx.x 1) with
    | none => exact hnone
    | some slot =>
        rw [participantSlot] at hp
        obtain ⟨first, -, hp⟩ := Option.bind_eq_some_iff.mp hp
        obtain ⟨delta, -, hp⟩ := Option.bind_eq_some_iff.mp hp
        exact Or.inl (recordSlot_slot hp)
  · exact Or.inl hslot5
  · exact hnone
  · exact Or.inl (toUInt8_lt hslot6)
  · exact hnone
  · cases hr : receivedSlot (ctx.x 19) (ctx.x 9) with
    | none => exact hnone
    | some slot =>
        rw [receivedSlot] at hr
        obtain ⟨delta, -, hr⟩ := Option.bind_eq_some_iff.mp hr
        exact Or.inl (recordSlot_slot hr)
  · exact hnone

/-- What holds of every recorded event. -/
structure Bounded (kind : Kind) (e : Event) : Prop where
  kind : e.kind = UInt8.ofNat kind.val
  participant : IsSlot e.participant
  localSlot : IsSlot e.localSlot
  selectedOwner : IsSlot e.selectedOwner
  submitOrigin : e.submitOrigin < submitOriginCount ∨ e.submitOrigin = 0xff
  mutationAction : e.mutationAction = 0 ∨ e.mutationAction = 1 ∨ e.mutationAction = 0xff

theorem Bounded.kind_lt {kind : Kind} {e : Event} (h : Bounded kind e) : e.kind.toNat < 8 := by
  rw [h.kind, UInt8.toNat_ofNat']
  exact Nat.lt_of_le_of_lt (Nat.mod_le _ _) kind.isLt

theorem submitOrigin_cases (returnOffset : UInt64) :
    submitOrigin returnOffset < submitOriginCount ∨ submitOrigin returnOffset = 0xff := by
  rw [submitOrigin]
  split_ifs
  · exact Or.inl (by decide)
  · exact Or.inl (by decide)
  · exact Or.inl (by decide)
  · exact Or.inl (by decide)
  · exact Or.inr rfl

theorem recorded_bounded {w : World} {env : CallEnv} {kind : Kind} {ctx : InlineCtx} {e : Event}
    (h : (observe w env kind ctx).recorded = some e) : Bounded kind e := by
  have hsample := observe_recorded h
  have haction : (observe w env kind ctx).action = 0 ∨ (observe w env kind ctx).action = 1
      ∨ (observe w env kind ctx).action = 0xff := by
    rcases callback_action w env kind ctx with ⟨ha, -, -⟩ | ⟨ha, -, -⟩ | ⟨ha, -⟩
    · exact Or.inl ha
    · exact Or.inr (Or.inl ha)
    · exact Or.inr (Or.inr ha)
  generalize (observe w env kind ctx).world.mem = m at hsample
  generalize (observe w env kind ctx).action = action at hsample haction
  have hparticipant := teamSource_slot m kind ctx
  have hlocal := localSlot_slot m (recordSession kind ctx)
  rw [hsample]
  refine ⟨rfl, hparticipant, hlocal, ?_, ?_, haction⟩
  · rw [sampleEvent_selectedOwner]
    split_ifs
    · exact hlocal
    · exact hparticipant
    · exact Or.inr rfl
  · rw [sampleEvent_submitOrigin]
    split_ifs
    · exact submitOrigin_cases _
    · exact Or.inr rfl

/-- `openWorld` while it records. -/
def recordingWorld : World :=
  ⟨⟨true, 0, 0, start Statics.boot.recording 0⟩, openScene 1⟩

end TeamAttack.ApplicationProbe
