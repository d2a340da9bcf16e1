import TeamAttack.ScanChunks
import TeamAttack.RuleBindings

/-! # Scanning instructions in chunks (`ExportUiRuleBindings.py`)

    `main` runs `address_uses`, and `hash_chain` at the matches of
    `hash_seed_pattern`, on one chunk after another.  Either looks at no more
    than seventeen instructions from a position on, well within the lookahead,
    so the chunks give what the whole block gives. -/

namespace TeamAttack.RuleBindings

open LittleEndian ExceptRules ChunkWindows

/-! ## `hash_seed_pattern` and the loop over its matches -/

/-- An alternative of the pattern: the bytes it takes first, and the three
    behind them. -/
structure SeedPattern where
  first : List UInt8
  rest : List UInt8

/-- The alternative for a word: its low five bits may be any of 31 registers. -/
def seedPattern (word : Nat) : SeedPattern :=
  let raw := toLe 4 word
  ⟨(List.range 31).map (fun r => raw.headD 0 ||| UInt8.ofNat r), raw.drop 1⟩

/-- **`hash_seed_pattern`**, as its alternatives. -/
def hashSeedPattern (targets : List Int) : List SeedPattern :=
  targets.flatMap fun (value : Int) => [0, 16, 32].flatMap fun (shift : Nat) =>
    let imm := (value >>> shift % 0x10000).toNat
    if imm = 0 then []
    else [32, 64].filterMap fun width =>
      if shift ≥ width then none
      else some (seedPattern
        ((if width = 64 then 0xd2800000 else 0x52800000) ||| (shift / 16) <<< 21 ||| imm <<< 5))

/-- The alternative at the head of a text. -/
def SeedPattern.matchesHead (p : SeedPattern) : List UInt8 → Bool
  | [] => false
  | b :: bytes => p.first.contains b && p.rest.isPrefixOf bytes

/-- The pattern at `pos`; without alternatives it is empty and matches. -/
def seedsMatch (patterns : List SeedPattern) (raw : List UInt8) (pos : Nat) : Bool :=
  patterns.isEmpty || patterns.any (fun p => p.matchesHead (raw.drop pos))

/-- `seeds.finditer(raw)`: a lookahead matches at every position it can. -/
def seedMatches (patterns : List SeedPattern) (raw : List UInt8) : List Nat :=
  (List.range (raw.length + 1)).filter (seedsMatch patterns raw)

/-- A constant found by `main`: where it starts, its value and its end. -/
structure HashHit where
  start : Int
  value : Nat
  stop : Int
  deriving DecidableEq

/-- The body of the loop of `main`, at a match of the pattern. -/
def hashHitsAt (raw : List UInt8) (origin : Int) (size : Nat) (targets : List Int)
    (canCross : Int → Nat → Bool) (pos : Nat) : Except PyError (List HashHit) :=
  if pos ≥ size ∨ (origin + pos) % 4 ≠ 0 ∨ pos + 4 > raw.length then .ok []
  else do
    let found ← hashChain raw pos origin targets canCross
    return (found.map fun hit => ⟨origin + pos, hit.1, hit.2⟩).toList

/-- The loop of `main` over the matches in a chunk. -/
def hashHits (raw : List UInt8) (origin : Int) (size : Nat) (targets : List Int)
    (canCross : Int → Nat → Bool) : Except PyError (List HashHit) := do
  let hits ← (seedMatches (hashSeedPattern targets) raw).mapM
    (hashHitsAt raw origin size targets canCross)
  return hits.flatten

/-! ## What depends on a window -/

section Windows

variable {raw raw' : List UInt8} {pos pos' : Nat} {origin origin' : Int} {targets : List Int}
  {canCross : Int → Nat → Bool}

/-- The same code at two places: as far as `w` bytes reach, and at one address. -/
structure SameCode (raw raw' : List UInt8) (pos pos' : Nat) (origin origin' : Int) (w : Nat) :
    Prop where
  window : window raw pos w = window raw' pos' w
  address : origin + pos = origin' + pos'

theorem SameCode.word {w k : Nat} (h : SameCode raw raw' pos pos' origin origin' w)
    (hk : k + 4 ≤ w) : wordAt raw (pos + k) = wordAt raw' (pos' + k) :=
  congrArg fromLe (window_part h.window hk)

theorem SameCode.room {w k : Nat} (h : SameCode raw raw' pos pos' origin origin' w)
    (hk : k + 4 ≤ w) : pos + k + 4 ≤ raw.length ↔ pos' + k + 4 ≤ raw'.length := by
  rw [Nat.add_assoc, Nat.add_assoc]
  exact window_room h.window (Nat.succ_pos _) hk

theorem SameCode.site {w : Nat} (h : SameCode raw raw' pos pos' origin origin' w) (k : Nat) :
    origin + (pos + k : Nat) = origin' + (pos' + k : Nat) := by
  have haddress := h.address
  omega

theorem addUses_window {w register : Nat} {value : Int}
    (h : SameCode raw raw' pos pos' origin origin' w) {k n : Nat} (hw : (n + k) * 4 ≤ w) :
    addUses raw origin targets canCross pos register value k n
      = addUses raw' origin' targets canCross pos' register value k n := by
  induction k generalizing n with
  | zero => rfl
  | succ k ih =>
      have hroom : pos + n * 4 + 4 > raw.length ↔ pos' + n * 4 + 4 > raw'.length := by
        have hiff := h.room (k := n * 4) (by omega)
        omega
      have hword : wordAt raw (pos + n * 4) = wordAt raw' (pos' + n * 4) := h.word (by omega)
      have hsite := h.site (n * 4)
      have hmore := ih (n := n + 1) (by omega)
      rw [addUses, addUses]
      simp only [hroom, hword, hsite, hmore, h.address]

theorem chainLoop_window {w register : Nat} (h : SameCode raw raw' pos pos' origin origin' w)
    {passes index value : Nat} (hw : 4 * (index + passes) ≤ w) :
    chainLoop raw pos origin targets canCross register passes index value
      = chainLoop raw' pos' origin' targets canCross register passes index value := by
  induction passes generalizing index value with
  | zero => rfl
  | succ passes ih =>
      have hroom : pos + 4 * index + 4 > raw.length ↔ pos' + 4 * index + 4 > raw'.length := by
        have hiff := h.room (k := 4 * index) (by omega)
        omega
      have hword : wordAt raw (pos + 4 * index) = wordAt raw' (pos' + 4 * index) :=
        h.word (by omega)
      have hsite := h.site (4 * index)
      have hmore : ∀ v, chainLoop raw pos origin targets canCross register passes (index + 1) v
          = chainLoop raw' pos' origin' targets canCross register passes (index + 1) v :=
        fun v => ih (by omega)
      rw [chainLoop, chainLoop]
      simp only [hroom, hword, hsite, hmore]

theorem unpackFrom_window {w : Nat} (h : SameCode raw raw' pos pos' origin origin' w)
    (hw : 4 ≤ w) : unpackFrom raw pos = unpackFrom raw' pos' := by
  have hroom : pos + 4 ≤ raw.length ↔ pos' + 4 ≤ raw'.length := h.room (k := 0) (by omega)
  have hword : wordAt raw pos = wordAt raw' pos' := h.word (k := 0) (by omega)
  unfold unpackFrom
  simp only [hroom, hword]

/-- `hash_chain` looks at sixteen words. -/
theorem hashChain_window (h : SameCode raw raw' pos pos' origin origin' 64) :
    hashChain raw pos origin targets canCross = hashChain raw' pos' origin' targets canCross := by
  unfold hashChain
  rw [unpackFrom_window h (by decide)]
  have hloop : ∀ register value, chainLoop raw pos origin targets canCross register 16 0 value
      = chainLoop raw' pos' origin' targets canCross register 16 0 value :=
    fun register value => chainLoop_window h (by decide)
  simp only [hloop]

end Windows

/-! ## Position by position -/

section Positions

variable (raw : List UInt8) (origin : Int) (targets : List Int) (canCross : Int → Nat → Bool)

/-- `address_uses` at the instruction at `pos`. -/
def usesFrom (pos : Nat) : List Use :=
  match addressSeed (wordAt raw pos) (origin + pos) with
  | none => []
  | some (register, value, page) =>
      if !page then
        if targets.contains value then [⟨origin + pos, origin + pos, value, .adr⟩] else []
      else if !(targets.map clearOffset).contains value then []
      else addUses raw origin targets canCross pos register value 16 1

/-- The uses that start at a position, if the pattern finds it. -/
def usesStarting (pos : Nat) : List Use :=
  if pos + 4 ≤ raw.length ∧ addressPattern (raw.getD (pos + 3) 0) = true
      ∧ (origin + pos) % 4 = 0 then
    usesFrom raw origin targets canCross pos
  else []

/-- The constants that start at a position, if the pattern finds it. -/
def hashesStarting (pos : Nat) : List HashHit :=
  if pos + 4 ≤ raw.length ∧ seedsMatch (hashSeedPattern targets) raw pos = true
      ∧ (origin + pos) % 4 = 0 then
    match hashChain raw pos origin targets canCross with
    | .ok found => (found.map fun hit => ⟨origin + pos, hit.1, hit.2⟩).toList
    | .error _ => []
  else []

variable {raw origin targets canCross}

theorem usesAt_eq (size found : Nat) (hfound : found < raw.length) :
    usesAt raw origin size targets canCross found
      = .ok (if found < 3 ∨ found - 3 ≥ size ∨ (origin + (found - 3 : Nat)) % 4 ≠ 0 then []
        else usesFrom raw origin targets canCross (found - 3)) := by
  have hsize : ((found - 3 : Nat) : Int) ≥ size ↔ found - 3 ≥ size := Nat.cast_le
  by_cases hskip : found < 3 ∨ found - 3 ≥ size ∨ (origin + (found - 3 : Nat)) % 4 ≠ 0
  · rw [if_pos hskip, usesAt, if_pos (by rw [hsize]; exact hskip)]
  · rw [if_neg hskip, usesAt, if_neg (by rw [hsize]; exact hskip)]
    rw [not_or] at hskip
    -- the word is inside the region, so `unpack_from` cannot raise
    have hword : unpackFrom raw (found - 3) = .ok (wordAt raw (found - 3)) := if_pos (by omega)
    dsimp only
    rw [hword, bind_ok, usesFrom]
    cases addressSeed (wordAt raw (found - 3)) (origin + (found - 3 : Nat)) with
    | none => rfl
    | some seed =>
        obtain ⟨register, value, page⟩ := seed
        cases page with
        | false => rfl
        | true =>
            dsimp only
            rw [Bool.not_true, if_neg Bool.false_ne_true, if_neg Bool.false_ne_true]
            split
            · rfl
            · rfl

/-- The loop that nothing interrupts. -/
theorem usesLoop_eq {length : Int} {f : Nat → List Use} {l : List Nat}
    (h : ∀ found ∈ l, usesAt raw origin length targets canCross found = .ok (f found))
    (index : Nat) :
    usesLoop raw origin length targets canCross (fun _ => .ok ()) index l
      = (l.flatMap f, none) := by
  induction l generalizing index with
  | nil => rfl
  | cons found rest ih =>
      rw [List.forall_mem_cons] at h
      have hbody : (do
          if index % 8192 = 0 then (.ok () : Except PyError Unit)
          usesAt raw origin length targets canCross found) = .ok (f found) := by
        rw [h.1]
        split
        · rfl
        · rfl
      rw [usesLoop, hbody, ih h.2]
      rfl

/-- **`address_uses` position by position.** -/
theorem addressUses_eq (size : Nat) :
    addressUses raw origin size targets canCross (fun _ => .ok ())
      = ((List.range size).flatMap (usesStarting raw origin targets canCross), none) := by
  unfold addressUses
  rw [usesLoop_eq fun found hmem =>
    usesAt_eq size found (List.mem_range.mp (List.mem_of_mem_filter hmem)), flatMap_filter]
  congr 1
  generalize hscan : (fun found => if addressPattern (raw.getD found 0) = true then
    (if found < 3 ∨ found - 3 ≥ size ∨ (origin + (found - 3 : Nat)) % 4 ≠ 0 then []
      else usesFrom raw origin targets canCross (found - 3)) else []) = scan
  have hstart : ∀ found < 3, scan found = [] := by
    intro found hfound
    rw [← hscan]
    dsimp only
    rw [if_pos (Or.inl hfound), ite_self]
  -- behind the first three bytes the scan is over positions
  have hlater : ∀ pos, scan (3 + pos) = if pos < size then
      (if addressPattern (raw.getD (pos + 3) 0) = true ∧ (origin + pos) % 4 = 0 then
        usesFrom raw origin targets canCross pos else []) else [] := by
    intro pos
    rw [← hscan]
    dsimp only
    rw [Nat.add_comm 3 pos, Nat.add_sub_cancel]
    by_cases hmatch : addressPattern (raw.getD (pos + 3) 0) = true
    · by_cases hsize : pos < size
      · by_cases haligned : (origin + pos) % 4 = 0
        · rw [if_pos hmatch, if_pos hsize, if_neg (by omega), if_pos ⟨hmatch, haligned⟩]
        · rw [if_pos hmatch, if_pos hsize, if_pos (Or.inr (Or.inr haligned)),
            if_neg fun h => haligned h.2]
      · rw [if_pos hmatch, if_neg hsize, if_pos (by omega)]
    · have hinner : ¬ (addressPattern (raw.getD (pos + 3) 0) = true ∧ (origin + pos) % 4 = 0) :=
        fun h => hmatch h.1
      rw [if_neg hmatch, if_neg hinner, ite_self]
  have hpositions : (List.range raw.length).flatMap scan
      = (List.range (raw.length - 3)).flatMap (fun pos => scan (3 + pos)) := by
    rcases Nat.lt_or_ge raw.length 3 with hshort | hlong
    · rw [Nat.sub_eq_zero_of_le hshort.le, List.range_zero, List.flatMap_nil,
        List.flatMap_eq_nil_iff]
      intro found hfound
      exact hstart found (by have := List.mem_range.mp hfound; omega)
    · obtain ⟨n, hn⟩ := Nat.exists_eq_add_of_le hlong
      have hhead : (List.range 3).flatMap scan = [] := by
        rw [List.flatMap_eq_nil_iff]
        intro found hfound
        exact hstart found (List.mem_range.mp hfound)
      rw [hn, List.range_add, List.flatMap_append, hhead, List.nil_append, List.flatMap_map,
        Nat.add_sub_cancel_left]
  rw [hpositions]
  simp only [hlater]
  rw [flatMap_range_swap]
  refine List.flatMap_congr ?_
  intro pos _
  unfold usesStarting
  by_cases hroom : pos + 4 ≤ raw.length
  · rw [if_pos (by omega)]
    simp only [hroom, true_and]
  · rw [if_neg (by omega), if_neg fun h => hroom h.1]

/-- The loop of `main` reads a word wherever it calls `hash_chain`. -/
theorem hashChain_ok {pos : Nat} (hroom : pos + 4 ≤ raw.length) :
    ∃ found, hashChain raw pos origin targets canCross = .ok found := by
  have hword : unpackFrom raw pos = .ok (wordAt raw pos) := if_pos hroom
  unfold hashChain
  rw [hword, bind_ok]
  cases moveWide (wordAt raw pos) with
  | none => exact ⟨_, rfl⟩
  | some move =>
      dsimp only
      split
      · exact ⟨_, rfl⟩
      · exact ⟨_, rfl⟩

theorem hashHitsAt_eq {size pos : Nat}
    (hmatch : seedsMatch (hashSeedPattern targets) raw pos = true) :
    hashHitsAt raw origin size targets canCross pos
      = .ok (if pos < size then hashesStarting raw origin targets canCross pos else []) := by
  unfold hashHitsAt hashesStarting
  by_cases hsize : pos < size
  · by_cases hroom : pos + 4 ≤ raw.length
    · by_cases haligned : (origin + pos) % 4 = 0
      · obtain ⟨found, hfound⟩ : ∃ found, hashChain raw pos origin targets canCross = .ok found :=
          hashChain_ok hroom
        rw [if_neg (by omega), if_pos hsize, if_pos ⟨hroom, hmatch, haligned⟩, hfound]
        rfl
      · rw [if_pos (Or.inr (Or.inl haligned)), if_pos hsize, if_neg fun h => haligned h.2.2]
    · rw [if_pos (by omega), if_pos hsize, if_neg fun h => hroom h.1]
  · rw [if_pos (by omega), if_neg hsize]

/-- **The loop over the seeds, position by position.** -/
theorem hashHits_eq (size : Nat) :
    hashHits raw origin size targets canCross
      = .ok ((List.range size).flatMap (hashesStarting raw origin targets canCross)) := by
  have hbody : ∀ pos ∈ seedMatches (hashSeedPattern targets) raw,
      hashHitsAt raw origin size targets canCross pos
        = .ok (if pos < size then hashesStarting raw origin targets canCross pos else []) :=
    fun pos hpos => hashHitsAt_eq (List.mem_filter.mp hpos).2
  rw [hashHits, mapM_of_ok hbody, bind_ok]
  refine congrArg Except.ok ?_
  rw [← List.flatMap_def, seedMatches, flatMap_filter]
  -- nothing starts where the seed pattern does not match
  have htest : ∀ pos, (if seedsMatch (hashSeedPattern targets) raw pos = true then
      (if pos < size then hashesStarting raw origin targets canCross pos else []) else [])
      = if pos < size then hashesStarting raw origin targets canCross pos else [] := by
    intro pos
    by_cases hmatch : seedsMatch (hashSeedPattern targets) raw pos = true
    · rw [if_pos hmatch]
    · have hnone : hashesStarting raw origin targets canCross pos = [] :=
        if_neg fun h => hmatch h.2.1
      rw [if_neg hmatch, hnone, ite_self]
  simp only [htest]
  rw [flatMap_range_swap]
  refine List.flatMap_congr ?_
  intro pos _
  by_cases hinside : pos < raw.length + 1
  · rw [if_pos hinside]
  · rw [if_neg hinside]
    exact (if_neg fun h => by omega).symm

end Positions

/-! ## A chunk and the block -/

section Chunks

variable {raw raw' : List UInt8} {pos pos' : Nat} {origin origin' : Int} {targets : List Int}
  {canCross : Int → Nat → Bool}

theorem usesFrom_window (h : SameCode raw raw' pos pos' origin origin' 68) :
    usesFrom raw origin targets canCross pos = usesFrom raw' origin' targets canCross pos' := by
  have hword : wordAt raw pos = wordAt raw' pos' := h.word (k := 0) (by decide)
  have hadds : ∀ register value, addUses raw origin targets canCross pos register value 16 1
      = addUses raw' origin' targets canCross pos' register value 16 1 :=
    fun register value => addUses_window h (by decide)
  unfold usesFrom
  simp only [hword, h.address, hadds]

theorem usesStarting_window (h : SameCode raw raw' pos pos' origin origin' 68) :
    usesStarting raw origin targets canCross pos
      = usesStarting raw' origin' targets canCross pos' := by
  have hroom : pos + 4 ≤ raw.length ↔ pos' + 4 ≤ raw'.length := h.room (k := 0) (by decide)
  have hbyte : raw.getD (pos + 3) 0 = raw'.getD (pos' + 3) 0 := by
    rw [getD_window, getD_window, window_part h.window (by decide)]
  unfold usesStarting
  simp only [hroom, hbyte, h.address, usesFrom_window h]

/-- An alternative takes four bytes. -/
theorem matchesHead_take {p : SeedPattern} (hp : p.rest.length ≤ 3) (bytes : List UInt8) :
    p.matchesHead (bytes.take 4) = p.matchesHead bytes := by
  cases bytes with
  | nil => rfl
  | cons b bytes =>
      have hpre : p.rest.isPrefixOf (bytes.take 3) = p.rest.isPrefixOf bytes := by
        rw [Bool.eq_iff_iff, List.isPrefixOf_iff_prefix, List.isPrefixOf_iff_prefix,
          List.prefix_take_iff, and_iff_left hp]
      show (p.first.contains b && p.rest.isPrefixOf (bytes.take 3)) = _
      rw [hpre]
      rfl

theorem hashSeedPattern_rest {p : SeedPattern} (h : p ∈ hashSeedPattern targets) :
    p.rest.length ≤ 3 := by
  obtain ⟨value, -, h⟩ := List.mem_flatMap.mp h
  obtain ⟨shift, -, h⟩ := List.mem_flatMap.mp h
  dsimp only at h
  split at h
  · cases h
  · obtain ⟨width, -, h⟩ := List.mem_filterMap.mp h
    split at h
    · cases h
    · obtain rfl := Option.some.inj h
      rw [seedPattern, List.length_drop, length_toLe]

theorem seedsMatch_window (h : SameCode raw raw' pos pos' origin origin' 64) :
    seedsMatch (hashSeedPattern targets) raw pos
      = seedsMatch (hashSeedPattern targets) raw' pos' := by
  have hbytes : (raw.drop pos).take 4 = (raw'.drop pos').take 4 :=
    window_part (k := 0) h.window (by decide)
  have hhead : ∀ p ∈ hashSeedPattern targets,
      p.matchesHead (raw.drop pos) = p.matchesHead (raw'.drop pos') := by
    intro p hp
    have hrest := hashSeedPattern_rest hp
    rw [← matchesHead_take hrest, hbytes, matchesHead_take hrest]
  unfold seedsMatch
  congr 1
  rw [Bool.eq_iff_iff, List.any_eq_true, List.any_eq_true]
  refine exists_congr ?_
  intro p
  rw [and_congr_right_iff]
  intro hp
  rw [hhead p hp]

theorem hashesStarting_window (h : SameCode raw raw' pos pos' origin origin' 64) :
    hashesStarting raw origin targets canCross pos
      = hashesStarting raw' origin' targets canCross pos' := by
  have hroom : pos + 4 ≤ raw.length ↔ pos' + 4 ≤ raw'.length := h.room (k := 0) (by decide)
  unfold hashesStarting
  simp only [hroom, seedsMatch_window h, h.address, hashChain_window h]

/-- A chunk shows the code at its own positions, at the same addresses. -/
theorem sameCode_chunk {block : List UInt8} {sizes : List Nat} {c : Chunk UInt8} {w : Nat}
    (origin : Int) (hc : c ∈ cut overlap block 0 sizes) (hpos : pos < c.size) (hw : w ≤ overlap) :
    SameCode c.raw block pos (c.start + pos) (origin + c.start) origin w := by
  obtain ⟨hchunk, -, -⟩ := mem_cut hc
  refine ⟨?_, ?_⟩
  · rw [hchunk]
    exact chunkAt_window hpos (by omega)
  · rw [Nat.cast_add, Int.add_assoc]

/-! ## Nothing twice -/

theorem addUses_start {register : Nat} {value : Int} {k n : Nat} :
    ∀ use ∈ addUses raw origin targets canCross pos register value k n,
      use.start = origin + pos ∧ origin + (pos + n * 4 : Nat) ≤ use.site := by
  induction k generalizing n with
  | zero =>
      intro use huse
      cases huse
  | succ k ih =>
      intro use huse
      rw [addUses] at huse
      dsimp only at huse
      split at huse
      · cases huse
      rcases List.mem_append.mp huse with hfound | hmore
      · split at hfound
        · split at hfound
          · rw [List.mem_singleton.mp hfound]
            exact ⟨rfl, le_rfl⟩
          · cases hfound
        · cases hfound
      · split at hmore
        · obtain ⟨hstart, hsite⟩ := ih use hmore
          exact ⟨hstart, by omega⟩
        · cases hmore

theorem addUses_nodup {register : Nat} {value : Int} {k n : Nat} :
    (addUses raw origin targets canCross pos register value k n).Nodup := by
  induction k generalizing n with
  | zero => exact List.nodup_nil
  | succ k ih =>
      rw [addUses]
      dsimp only
      split
      · exact List.nodup_nil
      refine List.Nodup.append ?_ ?_ ?_
      · split
        · split
          · exact List.nodup_singleton _
          · exact List.nodup_nil
        · exact List.nodup_nil
      · split
        · exact ih
        · exact List.nodup_nil
      -- later uses have later sites
      · intro use hfound hmore
        have hhere : use.site = origin + (pos + n * 4 : Nat) := by
          split at hfound
          · split at hfound
            · rw [List.mem_singleton.mp hfound]
            · cases hfound
          · cases hfound
        split at hmore
        · have hlater := (addUses_start use hmore).2
          omega
        · cases hmore

theorem usesStarting_start {use : Use} (h : use ∈ usesStarting raw origin targets canCross pos) :
    use.start = origin + pos := by
  unfold usesStarting at h
  split at h
  · unfold usesFrom at h
    split at h
    · cases h
    · split at h
      · split at h
        · rw [List.mem_singleton.mp h]
        · cases h
      · split at h
        · cases h
        · exact (addUses_start use h).1
  · cases h

theorem usesStarting_nodup : (usesStarting raw origin targets canCross pos).Nodup := by
  unfold usesStarting usesFrom
  split
  · split
    · exact List.nodup_nil
    · split
      · split
        · exact List.nodup_singleton _
        · exact List.nodup_nil
      · split
        · exact List.nodup_nil
        · exact addUses_nodup
  · exact List.nodup_nil

theorem hashesStarting_start {hit : HashHit}
    (h : hit ∈ hashesStarting raw origin targets canCross pos) : hit.start = origin + pos := by
  unfold hashesStarting at h
  split at h
  · split at h
    · obtain ⟨found, -, rfl⟩ := Option.map_eq_some_iff.mp (Option.mem_toList.mp h)
      rfl
    · cases h
  · cases h

theorem hashesStarting_nodup : (hashesStarting raw origin targets canCross pos).Nodup := by
  unfold hashesStarting
  split
  · split
    · rename_i found _
      cases found with
      | none => exact List.nodup_nil
      | some hit => exact List.nodup_singleton _
    · exact List.nodup_nil
  · exact List.nodup_nil

end Chunks

/-! ## The chunks and the block -/

section Cutting

variable {block : List UInt8} {origin : Int} {targets : List Int} {canCross : Int → Nat → Bool}
  {sizes : List Nat}

theorem range_block (hsizes : sizes.sum = block.length) :
    List.range' 0 sizes.sum = List.range block.length := by
  rw [hsizes, List.range_eq_range']

variable (origin targets canCross)

theorem addressUses_cut (hsizes : sizes.sum = block.length) :
    (cut overlap block 0 sizes).flatMap (fun c =>
        (addressUses c.raw (origin + c.start) c.size targets canCross (fun _ => .ok ())).1)
      = (addressUses block origin block.length targets canCross (fun _ => .ok ())).1 := by
  simp only [addressUses_eq]
  rw [← range_block hsizes]
  refine flatMap_cut ?_
  intro c hc pos hpos
  exact usesStarting_window (sameCode_chunk origin hc hpos (by decide))

theorem hashHits_cut (hsizes : sizes.sum = block.length) :
    ∃ parts, (cut overlap block 0 sizes).mapM (fun c =>
        hashHits c.raw (origin + c.start) c.size targets canCross) = .ok parts
      ∧ hashHits block origin block.length targets canCross = .ok parts.flatten := by
  refine ⟨_, mapM_of_ok fun c _ => hashHits_eq c.size, ?_⟩
  rw [hashHits_eq, ← range_block hsizes, ← List.flatMap_def]
  refine congrArg Except.ok ?_
  symm
  refine flatMap_cut ?_
  intro c hc pos hpos
  exact hashesStarting_window (sameCode_chunk origin hc hpos (by decide))

/-- A block that `chunks` reads to its end is scanned as a whole. -/
theorem blockChunks_scan {late : Nat → Bool} {count passes : Nat} {counts : Nat × Nat}
    (h : (blockChunks late block 0 count passes).2 = some counts) :
    (blockChunks late block 0 count passes).1.flatMap (fun c =>
        (addressUses c.raw (origin + c.start) c.size targets canCross (fun _ => .ok ())).1)
      = (addressUses block origin block.length targets canCross (fun _ => .ok ())).1
    ∧ ∃ parts, (blockChunks late block 0 count passes).1.mapM (fun c =>
        hashHits c.raw (origin + c.start) c.size targets canCross) = .ok parts
      ∧ hashHits block origin block.length targets canCross = .ok parts.flatten := by
  obtain ⟨sizes, hcut, hsizes⟩ := blockChunks_cut (Nat.zero_le _) h
  rw [Nat.zero_add] at hsizes
  rw [hcut]
  exact ⟨addressUses_cut origin targets canCross hsizes,
    hashHits_cut origin targets canCross hsizes⟩

end Cutting

/-- **Chunked instruction scanning is whole-block scanning.**  However an
    executable block is cut into chunks read with the lookahead, what
    `address_uses` yields chunk after chunk is what it yields on the block, and
    so are the constants that `hash_chain` finds at the matches of
    `hash_seed_pattern`: the same results in the same order, none twice.  At
    any single position, aligned or not, the pattern and `hash_chain` see in
    the chunk what they see in the block. -/
theorem chunked_scan_exact (block : List UInt8) (origin : Int) (targets : List Int)
    (canCross : Int → Nat → Bool) (sizes : List Nat) (hsizes : sizes.sum = block.length) :
    (∀ c ∈ cut overlap block 0 sizes,
        (addressUses c.raw (origin + c.start) c.size targets canCross (fun _ => .ok ())).2 = none)
      ∧ (cut overlap block 0 sizes).flatMap (fun c =>
          (addressUses c.raw (origin + c.start) c.size targets canCross (fun _ => .ok ())).1)
        = (addressUses block origin block.length targets canCross (fun _ => .ok ())).1
      ∧ (addressUses block origin block.length targets canCross (fun _ => .ok ())).1.Nodup
      ∧ (∃ hits, hashHits block origin block.length targets canCross = .ok hits ∧ hits.Nodup
        ∧ ∃ parts, (cut overlap block 0 sizes).mapM (fun c =>
            hashHits c.raw (origin + c.start) c.size targets canCross) = .ok parts
          ∧ parts.flatten = hits)
      ∧ ∀ c ∈ cut overlap block 0 sizes, ∀ pos < c.size,
        seedsMatch (hashSeedPattern targets) c.raw pos
            = seedsMatch (hashSeedPattern targets) block (c.start + pos)
          ∧ hashChain c.raw pos (origin + c.start) targets canCross
            = hashChain block (c.start + pos) origin targets canCross := by
  refine ⟨?_, addressUses_cut origin targets canCross hsizes, ?_, ?_, ?_⟩
  · intro c _
    rw [addressUses_eq]
  · rw [addressUses_eq]
    exact nodup_positions (fun pos => usesStarting_nodup)
      (fun pos use huse => usesStarting_start huse) block.length
  · obtain ⟨parts, hparts, hwhole⟩ := hashHits_cut origin targets canCross hsizes
    refine ⟨_, hwhole, ?_, parts, hparts, rfl⟩
    rw [hashHits_eq] at hwhole
    rw [← Except.ok.inj hwhole]
    exact nodup_positions (fun pos => hashesStarting_nodup)
      (fun pos hit hhit => hashesStarting_start hhit) block.length
  · intro c hc pos hpos
    have hcode := sameCode_chunk origin hc hpos (show 64 ≤ overlap by decide)
    exact ⟨seedsMatch_window hcode, hashChain_window hcode⟩

/-- `MOVZ` in one chunk, `NOP`, `MOVK` and the address in the next. -/
theorem chunked_scan_exact_code :
    ∃ parts, (cut overlap tracedCode 0 [4, 16]).mapM (fun c =>
        hashHits c.raw (0x7100000000 + c.start) c.size [0x56781234] (fun _ _ => true)) = .ok parts
      ∧ parts.flatten = [⟨0x7100000000, 0x56781234, 0x7100000008⟩] := by
  obtain ⟨-, -, -, ⟨hits, hwhole, -, parts, hparts, hflat⟩, -⟩ :=
    chunked_scan_exact tracedCode 0x7100000000 [0x56781234] (fun _ _ => true) [4, 16] rfl
  have hfound : hashHits tracedCode 0x7100000000 tracedCode.length [0x56781234] (fun _ _ => true)
      = .ok [⟨0x7100000000, 0x56781234, 0x7100000008⟩] := by
    rfl
  refine ⟨parts, hparts, hflat.trans ?_⟩
  exact Except.ok.inj (hwhole.symm.trans hfound)

end TeamAttack.RuleBindings
