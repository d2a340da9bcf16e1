import TeamAttack.ApplicationProbe

/-! # One record layout behind two pointer decoders (`application.rs`)

    The participant-copy callback finds its slot from the session, the
    team-stored callback from the manager inside it, and each reads the team
    byte at a displacement of its own.  Both decoders take exactly the sixteen
    record addresses, and the two displacements meet on one byte of a
    record. -/

namespace TeamAttack.Application

open ByteMemory CheckedWord ApplicationProbe

/-- The byte distances of the sixteen records. -/
theorem recordSlot_eq_some {delta : UInt64} {k : UInt8} :
    recordSlot delta = some k ↔ k.toNat < 16 ∧ delta.toNat = k.toNat * 0x1350 := by
  have hdelta := delta.toNat_lt
  have hmod : delta % 0x1350 = 0 ↔ delta.toNat % 0x1350 = 0 := by
    rw [← UInt64.toNat_inj, UInt64.toNat_mod]
    rfl
  have hdiv : (delta / 0x1350).toNat = delta.toNat / 0x1350 := by
    rw [UInt64.toNat_div]
    rfl
  have hge : delta / 0x1350 ≥ 16 ↔ 16 ≤ delta.toNat / 0x1350 := by
    rw [← hdiv]
    exact UInt64.le_iff_toNat_le
  -- sixteen records: the quotient fits its byte
  have hbyte : (delta / 0x1350).toUInt8.toNat = delta.toNat / 0x1350 % 256 := by
    rw [UInt64.toNat_toUInt8, hdiv]
  have hcond : delta % 0x1350 ≠ 0 ∨ delta / 0x1350 ≥ 16 ↔
      delta.toNat % 0x1350 ≠ 0 ∨ 16 ≤ delta.toNat / 0x1350 := by
    rw [ne_eq, hmod, hge]
  unfold recordSlot
  by_cases hout : delta % 0x1350 ≠ 0 ∨ delta / 0x1350 ≥ 16
  · rw [if_pos hout]
    rw [hcond] at hout
    constructor
    · intro h
      cases h
    · rintro ⟨hk, hplace⟩
      omega
  · rw [if_neg hout, Option.some.injEq, ← UInt8.toNat_inj, hbyte]
    rw [hcond] at hout
    constructor
    · intro h
      omega
    · rintro ⟨hk, hplace⟩
      omega

theorem participantSlot_eq_some {session source : UInt64} {k : UInt8} :
    participantSlot session source = some k ↔
      k.toNat < 16 ∧ source.toNat = session.toNat + 0xa798 + k.toNat * 0x1350 := by
  have hsource := source.toNat_lt
  unfold participantSlot
  constructor
  · intro h
    obtain ⟨first, hfirst, h⟩ := Option.bind_eq_some_iff.mp h
    obtain ⟨delta, hdelta, h⟩ := Option.bind_eq_some_iff.mp h
    obtain ⟨hk, hplace⟩ := recordSlot_eq_some.mp h
    have hsum : first.toNat = session.toNat + 0xa798 := checkedAdd_eq_some.mp hfirst
    have hdiff := checkedSub_eq_some.mp hdelta
    exact ⟨hk, by omega⟩
  · rintro ⟨hk, hplace⟩
    -- with the slot inside the address space nothing is refused
    have hfirst : checkedAdd session 0xa798 = some (session + 0xa798) := by
      refine checkedAdd_eq_some.mpr ?_
      rw [UInt64.toNat_add]
      exact Nat.mod_eq_of_lt (show session.toNat + 0xa798 < 2 ^ 64 by omega)
    have hsum : (session + 0xa798).toNat = session.toNat + 0xa798 := checkedAdd_eq_some.mp hfirst
    have hdelta : checkedSub source (session + 0xa798)
        = some (UInt64.ofNat (k.toNat * 0x1350)) := by
      refine checkedSub_eq_some.mpr ?_
      rw [UInt64.toNat_ofNat_of_lt' (by show _ < 2 ^ 64; omega), hsum, hplace]
    rw [hfirst, Option.bind_eq_bind, Option.bind_some, hdelta, Option.bind_some, recordSlot_eq_some,
      UInt64.toNat_ofNat_of_lt' (by show _ < 2 ^ 64; omega)]
    exact ⟨hk, rfl⟩

theorem receivedSlot_eq_some {manager record : UInt64} {k : UInt8} :
    receivedSlot manager record = some k ↔
      k.toNat < 16 ∧ record.toNat = manager.toNat + k.toNat * 0x1350 := by
  unfold receivedSlot
  constructor
  · intro h
    obtain ⟨delta, hdelta, h⟩ := Option.bind_eq_some_iff.mp h
    obtain ⟨hk, hplace⟩ := recordSlot_eq_some.mp h
    have hdiff := checkedSub_eq_some.mp hdelta
    exact ⟨hk, by omega⟩
  · rintro ⟨hk, hplace⟩
    have hdelta : checkedSub record manager = some (UInt64.ofNat (k.toNat * 0x1350)) := by
      refine checkedSub_eq_some.mpr ?_
      rw [UInt64.toNat_ofNat_of_lt' (by show _ < 2 ^ 64; omega), hplace]
    rw [hdelta, Option.bind_eq_bind, Option.bind_some, recordSlot_eq_some,
      UInt64.toNat_ofNat_of_lt' (by show _ < 2 ^ 64; omega)]
    exact ⟨hk, rfl⟩

/-- Two addresses at least one record apart. -/
def RecordApart (a b : UInt64) : Prop :=
  a.toNat + 0x1350 ≤ b.toNat ∨ b.toNat + 0x1350 ≤ a.toNat

/-- The team byte of slot `k`, from its participant pointer. -/
theorem copied_team_place {session source : UInt64} {j : UInt8}
    (hslot : participantSlot session source = some j) (hread : source.toNat + 0xf11 < 2 ^ 64) :
    (source + 0xf11).toNat = session.toNat + 0xb6a9 + j.toNat * 0x1350 := by
  obtain ⟨_, hplace⟩ := participantSlot_eq_some.mp hslot
  rw [UInt64.toNat_add, show (0xf11 : UInt64).toNat = 0xf11 from rfl, Nat.mod_eq_of_lt hread]
  omega

/-- The same byte, from its record pointer. -/
theorem stored_team_place {session record : UInt64} {k : UInt8}
    (hsession : session.toNat + 0xa010 < 2 ^ 64)
    (hslot : receivedSlot (session + 0xa010) record = some k)
    (hread : record.toNat + 0x1699 < 2 ^ 64) :
    (record + 0x1699).toNat = session.toNat + 0xb6a9 + k.toNat * 0x1350 := by
  obtain ⟨_, hplace⟩ := receivedSlot_eq_some.mp hslot
  rw [UInt64.toNat_add, show (0xa010 : UInt64).toNat = 0xa010 from rfl,
    Nat.mod_eq_of_lt hsession] at hplace
  rw [UInt64.toNat_add, show (0x1699 : UInt64).toNat = 0x1699 from rfl, Nat.mod_eq_of_lt hread]
  omega

/-- What the two callbacks take from their pointers. -/
theorem teamSource_copied (m : Memory) {ctx : InlineCtx} {j : UInt8}
    (h : participantSlot (ctx.x 24) (ctx.x 1) = some j) :
    teamSource m 1 ctx = (j, byte m (ctx.x 1 + 0xf11)) := by
  have hsession : recordSession 1 ctx = ctx.x 24 := rfl
  rw [teamSource]
  dsimp only
  rw [if_neg (by decide), if_pos rfl, hsession, h]

theorem teamSource_stored (m : Memory) {ctx : InlineCtx} {k : UInt8}
    (h : receivedSlot (ctx.x 19) (ctx.x 9) = some k) :
    teamSource m 7 ctx = (k, byte m (ctx.x 9 + 0x1699)) := by
  rw [teamSource]
  dsimp only
  rw [if_neg (by decide), if_neg (by decide), if_neg (by decide), if_neg (by decide), if_pos rfl,
    h]

/-- **Both decoders are exact, and both callbacks name the team byte of a slot
    by one address.** -/
theorem decoders_agree :
    (∀ (session source : UInt64) (k : UInt8), participantSlot session source = some k ↔
        k < 16 ∧ source.toNat = session.toNat + 0xa798 + k.toNat * 0x1350)
      ∧ (∀ (manager record : UInt64) (k : UInt8), receivedSlot manager record = some k ↔
        k < 16 ∧ record.toNat = manager.toNat + k.toNat * 0x1350)
      ∧ ∀ (m : Memory) (copy stored : InlineCtx) (session source record : UInt64) (j k : UInt8),
        copy.x 24 = session → copy.x 1 = source →
        stored.x 19 = session + 0xa010 → stored.x 9 = record →
        session.toNat + 0xa010 < 2 ^ 64 →
        source.toNat + 0xf11 < 2 ^ 64 → record.toNat + 0x1699 < 2 ^ 64 →
        participantSlot session source = some j →
        receivedSlot (session + 0xa010) record = some k →
        teamSource m 1 copy = (j, byte m (source + 0xf11))
          ∧ teamSource m 7 stored = (k, byte m (record + 0x1699))
          ∧ (j = k → source + 0xf11 = record + 0x1699)
          ∧ (j ≠ k → RecordApart (source + 0xf11) (record + 0x1699)) := by
  refine ⟨?_, ?_, ?_⟩
  · intro session source k
    exact participantSlot_eq_some
  · intro manager record k
    exact receivedSlot_eq_some
  · rintro m copy stored session source record j k rfl rfl hmanager rfl hsession hsource hrecord
      hcopied hstored
    have hcopy := copied_team_place hcopied hsource
    have hstore := stored_team_place hsession hstored hrecord
    refine ⟨teamSource_copied m hcopied, teamSource_stored m (hmanager ▸ hstored), ?_, ?_⟩
    · rintro rfl
      rw [← UInt64.toNat_inj, hcopy, hstore]
    -- two slots are at least one record apart
    · intro hne
      have hslots : j.toNat ≠ k.toNat := fun heq => hne (UInt8.toNat_inj.mp heq)
      unfold RecordApart
      rw [hcopy, hstore]
      omega

/-- Slot 2 of a session at 0x1000, from both pointers. -/
theorem decoders_agree_slot_two :
    ∃ copy stored : InlineCtx, teamSource (fun _ => 1) 1 copy = (2, 1)
      ∧ teamSource (fun _ => 1) 7 stored = (2, 1)
      ∧ copy.x 1 + 0xf11 = stored.x 9 + 0x1699 := by
  let copy : InlineCtx := ⟨fun i => if i = 24 then 0x1000 else if i = 1 then 0xde38 else 0⟩
  let stored : InlineCtx := ⟨fun i => if i = 19 then 0xb010 else if i = 9 then 0xd6b0 else 0⟩
  obtain ⟨hcopy, hstored, hsame, _⟩ := decoders_agree.2.2 (fun _ => 1) copy stored 0x1000 0xde38
    0xd6b0 2 2 rfl rfl rfl rfl (by decide) (by decide) (by decide) (by decide) (by decide)
  exact ⟨copy, stored, hcopy, hstored, hsame rfl⟩

end TeamAttack.Application
