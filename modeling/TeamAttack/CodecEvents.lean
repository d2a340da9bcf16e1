import TeamAttack.CodecRoundTrip
import TeamAttack.PayloadRoundTrip

/-! # What the codec lines say of the wire

    A hooked call records the base and team flags of the record after the
    original and the position on either side of it.  Around the reviewed
    routines an encoder's line tells what went out and a decoder's what came
    in, so of one message the two lines agree (`lines_agree`). -/

namespace TeamAttack.Codec

open ByteMemory LittleEndian CodecProbe

/-- The original a hook calls. -/
def routine (direction : Direction) : CodecFn := if direction = 0 then encode else decode

/-- A hooked call of the reviewed codec on arguments that share no byte. -/
structure HookedCall where
  statics : Statics
  direction : Direction
  memory : Memory
  tick : UInt64
  desc : UInt64
  cursor : UInt64
  rule : UInt64
  place : UInt64
  position : UInt32
  reads : Reads memory desc cursor rule place position
  apart : [span rule 24, span place 14, span desc 16, span cursor 16].Pairwise List.Disjoint

namespace HookedCall

/-- What the original leaves behind. -/
def after (c : HookedCall) : Memory := (routine c.direction c.desc c.cursor c.memory).2

/-- The call as the hook sees it. -/
def env (c : HookedCall) : CallEnv where
  before := c.memory
  after := c.after
  stillActive := true
  tick := c.tick
  spurious := false

/-- The line that is written for the call. -/
def line (c : HookedCall) (sequence : Nat) : EventLine :=
  eventLine ⟨sequence, (sampleCall c.statics c.env c.direction c.desc c.cursor).encode⟩

/-- No two of the arguments share a byte. -/
theorem disjoint (c : HookedCall) :
    (List.Disjoint (span c.rule 24) (span c.place 14)
      ∧ List.Disjoint (span c.rule 24) (span c.desc 16)
      ∧ List.Disjoint (span c.rule 24) (span c.cursor 16))
    ∧ (List.Disjoint (span c.place 14) (span c.desc 16)
      ∧ List.Disjoint (span c.place 14) (span c.cursor 16))
    ∧ List.Disjoint (span c.desc 16) (span c.cursor 16) := by
  simpa using c.apart

theorem after_encode (c : HookedCall) (h : c.direction = 0) : c.after
    = writeWord (writeBytes c.memory c.place (wire reviewed fun off => c.memory (c.rule + off)))
        (c.cursor + 12) (c.position + 14) := by
  rw [after, routine, if_pos h, encode, encodeFields_eq reviewed c.reads
    (fun off hoff ha => c.disjoint.1.1 (mem_record hoff) ha)
    (fun a ha ha' => c.disjoint.2.1.2 ha' (position_subset _ ha))]

theorem after_decode (c : HookedCall) (h : c.direction = 1) : c.after
    = writeWord (storeAll c.memory (fieldCells reviewed c.rule fun k =>
        c.memory (c.place + UInt64.ofNat k))) (c.cursor + 12) (c.position + 14) := by
  have hdir : ¬ c.direction = 0 := by
    rw [h]
    decide
  rw [after, routine, if_neg hdir, decode, decodeFields_eq reviewed c.reads
    (fun off hoff ha => c.disjoint.1.1 (mem_record hoff) ha)
    (fun off hoff ha => c.disjoint.1.2.2 (mem_record hoff) (position_subset _ ha))]

theorem direction_cases (c : HookedCall) : c.direction = 0 ∨ c.direction = 1 := by
  have hcases : ∀ d : Direction, d = 0 ∨ d = 1 := by decide
  exact hcases c.direction

/-- The fields a decoder fills lie in the record. -/
theorem fields_disjoint (c : HookedCall) (w : Nat → UInt8) {addresses : List UInt64}
    (h : List.Disjoint addresses (span c.rule 24)) :
    List.Disjoint addresses ((fieldCells reviewed c.rule w).map Prod.fst) := by
  intro a ha ha'
  rw [fieldCells_addresses] at ha'
  obtain ⟨off, hoff, rfl⟩ := List.mem_map.mp ha'
  exact h ha (mem_record hoff)

/-- The original moves the cursor on and leaves the descriptor alone. -/
theorem after_arguments (c : HookedCall) : pointer c.after (c.desc + 8) = c.rule
    ∧ word c.after (c.cursor + 12) = c.position + 14 := by
  have hdesc : List.Disjoint (span (c.desc + 8) 8) (span (c.cursor + 12) 4) := fun a ha ha' =>
    c.disjoint.2.2 (rule_subset _ ha) (position_subset _ ha')
  rcases c.direction_cases with hdir | hdir
  · rw [c.after_encode hdir]
    refine ⟨?_, word_writeWord ..⟩
    rw [pointer_congr (writeWord_agree _ _ hdesc), pointer_congr (writeBytes_agree _ fun a ha ha' =>
      c.disjoint.2.1.1 (by rwa [length_wire] at ha') (rule_subset _ ha)), c.reads.rule_eq]
  · rw [c.after_decode hdir]
    refine ⟨?_, word_writeWord ..⟩
    rw [pointer_congr (writeWord_agree _ _ hdesc), pointer_congr (storeAll_agree _
      (c.fields_disjoint _ fun a ha ha' => c.disjoint.1.2.1 ha' (rule_subset _ ha))),
      c.reads.rule_eq]

/-- An encoder leaves the record as it was. -/
theorem encoded_record (c : HookedCall) (h : c.direction = 0) {off : UInt64}
    (hoff : off ∈ reviewed.offsets) : c.after (c.rule + off) = c.memory (c.rule + off) := by
  rw [c.after_encode h]
  exact ((writeWord_agree (l := span c.rule 24) _ _ fun a ha ha' =>
    c.disjoint.1.2.2 ha (position_subset _ ha')).trans (writeBytes_agree _ fun a ha ha' =>
      c.disjoint.1.1 ha (by rwa [length_wire] at ha'))) _ (mem_record hoff)

/-- What an encoder puts behind the scalars. -/
theorem encoded_flags (c : HookedCall) (h : c.direction = 0) :
    c.after (c.place + UInt64.ofNat 13) = flagByte reviewed fun off => c.memory (c.rule + off) := by
  rw [c.after_encode h, writeWord_agree (l := span c.place 14) _ _ (fun a ha ha' =>
    c.disjoint.2.1.2 ha (position_subset _ ha')) _ (mem_span.mpr ⟨13, by omega, rfl⟩),
    writeBytes_apply _ _ (by rw [length_wire]; omega) (by rw [length_wire]; omega), wire_flags]

/-- A decoder fills each flag from its bit. -/
theorem decoded_flag (c : HookedCall) (h : c.direction = 1) {k : Nat} (hk : k < 7) :
    c.after (c.rule + reviewed.flags[k]) = bitOf (c.memory (c.place + UInt64.ofNat 13)) k := by
  have hmem : reviewed.flags[k] ∈ reviewed.offsets :=
    List.mem_append_right _ (Vector.mem_toList_iff.mpr (Vector.getElem_mem _))
  rw [c.after_decode h, writeWord_agree (l := span c.rule 24) _ _ (fun a ha ha' =>
    c.disjoint.1.2.2 ha (position_subset _ ha')) _ (mem_record hmem)]
  refine storeAll_of_mem _ ?_ (flag_mem_fieldCells reviewed c.rule _ hk)
  rw [fieldCells_addresses]
  exact fieldAddresses_nodup c.rule

/-! ## The line -/

/-- The line reads back what was sampled. -/
theorem line_sampled (c : HookedCall) (sequence : Nat) :
    ReadBack (sampleCall c.statics c.env c.direction c.desc c.cursor) (c.line sequence) :=
  observation_read_back _ rfl

/-- The flags of a line are those of the record after the call. -/
theorem line_flags (c : HookedCall) (sequence : Nat) :
    (c.line sequence).base = c.after (c.rule + 9)
    ∧ (c.line sequence).team = c.after (c.rule + 13) := by
  have hback := c.line_sampled sequence
  have hvalues : ruleValues c.after c.desc = (c.after (c.rule + 9), c.after (c.rule + 13)) := by
    simp only [ruleValues, c.after_arguments.1, byte]
  exact ⟨hback.base.trans (congrArg Prod.fst hvalues), hback.team.trans (congrArg Prod.snd hvalues)⟩

/-- The position of a line, before and after. -/
theorem line_position (c : HookedCall) (sequence : Nat) :
    (c.line sequence).before = c.position ∧ (c.line sequence).after = c.position + 14
    ∧ ((c.line sequence).advanced14 = true ↔ c.position.toNat + 14 < 2 ^ 32) := by
  have hback := c.line_sampled sequence
  have hbefore : (c.line sequence).before = c.position := hback.before.trans c.reads.position_eq
  have hafter : (c.line sequence).after = c.position + 14 := hback.after.trans c.after_arguments.2
  refine ⟨hbefore, hafter, hback.advanced.trans ?_⟩
  rw [← hback.before, ← hback.after, hbefore, hafter, UInt32.toNat_add]
  have hlt := c.position.toNat_lt
  have hfourteen : (14 : UInt32).toNat = 14 := rfl
  omega

end HookedCall

/-- **The lines of one message agree.**  Let a hooked encoder put fourteen bytes
    on the wire and a hooked decoder find them.  The sender's line shows the
    flags of its record; the receiver's shows the base flag's lowest bit, and
    Team Attack on exactly when the sender's shows it set or the base flag
    carries its bit; and each says it advanced unless its position wrapped. -/
theorem lines_agree (sender receiver : HookedCall) (hsender : sender.direction = 0)
    (hreceiver : receiver.direction = 1)
    (hwire : ∀ k < 14, receiver.memory (receiver.place + UInt64.ofNat k)
      = sender.after (sender.place + UInt64.ofNat k)) (sequence sequence' : Nat) :
    (sender.line sequence).encode = true ∧ (receiver.line sequence').encode = false
    ∧ (sender.line sequence).base = sender.memory (sender.rule + 9)
    ∧ (sender.line sequence).team = sender.memory (sender.rule + 13)
    ∧ (receiver.line sequence').base = bitOf (sender.line sequence).base 0
    ∧ (receiver.line sequence').team
        = (if (sender.line sequence).team ≠ 0 ∨ bitOf (sender.line sequence).base 1 ≠ 0
          then 1 else 0)
    ∧ ((sender.line sequence).advanced14 = true ↔ sender.position.toNat + 14 < 2 ^ 32)
    ∧ ((receiver.line sequence').advanced14 = true ↔ receiver.position.toNat + 14 < 2 ^ 32) := by
  obtain ⟨hbase, hteam⟩ := sender.line_flags sequence
  obtain ⟨hbase', hteam'⟩ := receiver.line_flags sequence'
  have hflags : receiver.memory (receiver.place + UInt64.ofNat 13)
      = flagByte reviewed fun off => sender.memory (sender.rule + off) := by
    rw [hwire 13 (by omega), sender.encoded_flags hsender]
  have hsent : sender.after (sender.rule + 9) = sender.memory (sender.rule + 9) :=
    sender.encoded_record hsender (by decide)
  have hsent' : sender.after (sender.rule + 13) = sender.memory (sender.rule + 13) :=
    sender.encoded_record hsender (by decide)
  have hgot : receiver.after (receiver.rule + 9)
      = flagValue reviewed (fun off => sender.memory (sender.rule + off)) 0 (by omega) := by
    rw [← bitOf_flagByte, ← hflags]
    exact receiver.decoded_flag hreceiver (k := 0) (by omega)
  have hgot' : receiver.after (receiver.rule + 13)
      = flagValue reviewed (fun off => sender.memory (sender.rule + off)) 1 (by omega) := by
    rw [← bitOf_flagByte, ← hflags]
    exact receiver.decoded_flag hreceiver (k := 1) (by omega)
  rw [hbase, hteam, hbase', hteam', hsent, hsent', hgot, hgot']
  refine ⟨(sender.line_sampled sequence).direction.mpr hsender, ?_, rfl, rfl, ?_, ?_,
    (sender.line_position sequence).2.2, (receiver.line_position sequence').2.2⟩
  · refine Bool.eq_false_iff.mpr fun h => ?_
    have hdir := (receiver.line_sampled sequence').direction.mp h
    exact absurd (hdir.symm.trans hreceiver) (by decide)
  · rw [flagValue, if_neg (fun h => h.1 rfl), UInt8.or_zero]
    rfl
  · rw [flagValue]
    have hbit := bit_cases (bitOf_le (sender.memory (sender.rule + reviewed.flags[0])) 1)
    by_cases hup : sender.memory (sender.rule + 13) ≠ 0
    · rw [if_pos ⟨by decide, hup⟩, if_pos (Or.inl hup)]
      rcases hbit with hzero | hone
      · rw [hzero, UInt8.zero_or]
      · rw [hone, UInt8.or_self]
    · rw [if_neg (fun h => hup h.2), UInt8.or_zero]
      rcases hbit with hzero | hone
      · rw [hzero, if_neg (fun h => h.elim hup (fun hbase => hbase hzero))]
      · have hbase : bitOf (sender.memory (sender.rule + 9)) 1 ≠ 0 := by
          rw [show sender.memory (sender.rule + 9)
            = sender.memory (sender.rule + reviewed.flags[0]) from rfl, hone]
          decide
        rw [hone, if_pos (Or.inr hbase)]

/-- The encoder at the armed record. -/
def armedSender : HookedCall where
  statics := start Statics.boot 0
  direction := 0
  memory := armedRecord
  tick := 0
  desc := 0x4000
  cursor := 0x5000
  rule := 0x1000
  place := 0x3000
  position := 0
  reads := reads_armedRecord
  apart := pairwise_below (b := [(0x1000, 24), (0x3000, 14), (0x4000, 16), (0x5000, 16)])
    (by decide)

/-- A decoder with that record's wire in its stream. -/
def armedReceiver : HookedCall where
  statics := start Statics.boot 0
  direction := 1
  memory := ofCells [(0x300d, 3), (0x4009, 0x10), (0x5001, 0x30)]
  tick := 0
  desc := 0x4000
  cursor := 0x5000
  rule := 0x1000
  place := 0x3000
  position := 0
  reads := ⟨by decide +kernel, by decide +kernel, by decide +kernel⟩
  apart := pairwise_below (b := [(0x1000, 24), (0x3000, 14), (0x4000, 16), (0x5000, 16)])
    (by decide)

/-- Both lines show Team Attack on. -/
theorem lines_agree_armed : (armedSender.line 0).team = 1 ∧ (armedReceiver.line 0).team = 1 := by
  obtain ⟨-, -, -, hsent, -, hreceived, -⟩ :=
    lines_agree armedSender armedReceiver rfl rfl (by decide +kernel) 0 0
  have hteam : (armedSender.line 0).team = 1 := hsent.trans (by decide +kernel)
  refine ⟨hteam, ?_⟩
  rw [hreceived, if_pos (Or.inl ?_)]
  rw [hteam]
  decide

end TeamAttack.Codec
