import TeamAttack.Library.ChunkWindows

/-! # Reading the program in chunks (`ExportUiRuleBindings.py`)

    `chunks` reads the memory blocks a mebibyte at a time, each chunk with up
    to 128 bytes of lookahead into the same block.  A block that is read to
    its end is cut into the chunks it yields. -/

namespace TeamAttack.RuleBindings

open ChunkWindows

/-- `CHUNK`. -/
def chunkBytes : Nat := 1024 * 1024

/-- `OVERLAP`. -/
def overlap : Nat := 128

/-- `MAX_BYTES`. -/
def maxBytes : Nat := 192 * 1024 * 1024

/-- A memory block. -/
structure Block where
  start : Int
  bytes : List UInt8
  executable : Bool

theorem chunkBytes_pos : 0 < chunkBytes := Nat.succ_pos _

/-- The `while` loop of `chunks` in a block: what it yields, and the counts at
    the end of the block, or nothing behind a scan cap.  `late n` tells whether
    `SCAN_SECONDS` have passed at the `n`th pass. -/
def blockChunks (late : Nat → Bool) (bytes : List UInt8) (cursor count passes : Nat) :
    List (Chunk UInt8) × Option (Nat × Nat) :=
  if hinside : cursor < bytes.length then
    if hcap : late passes = true ∨ count ≥ maxBytes then ([], none)
    else
      let size := min (min chunkBytes (bytes.length - cursor)) (maxBytes - count)
      let more := blockChunks late bytes (cursor + size) (count + size) (passes + 1)
      (chunkAt overlap bytes cursor size :: more.1, more.2)
  else ([], some (count, passes))
termination_by bytes.length - cursor
decreasing_by
  have hpos := chunkBytes_pos
  rw [not_or] at hcap
  omega

/-- **`chunks`**: the chunks with their blocks, and `scan_state['complete']`. -/
def chunks (late : Nat → Bool) : List Block → Nat → Nat → List (Block × Chunk UInt8) × Bool
  | [], _, _ => ([], true)
  | block :: rest, count, passes =>
      let here := blockChunks late block.bytes 0 count passes
      match here.2 with
      | none => (here.1.map (block, ·), false)
      | some (count, passes) =>
          let more := chunks late rest count passes
          (here.1.map (block, ·) ++ more.1, more.2)

/-- **A block read to its end is cut into its chunks.** -/
theorem blockChunks_cut {late : Nat → Bool} {bytes : List UInt8} {cursor count passes : Nat}
    {counts : Nat × Nat} (hcursor : cursor ≤ bytes.length)
    (h : (blockChunks late bytes cursor count passes).2 = some counts) :
    ∃ sizes, (blockChunks late bytes cursor count passes).1 = cut overlap bytes cursor sizes
      ∧ cursor + sizes.sum = bytes.length := by
  fun_induction blockChunks late bytes cursor count passes with
  | case1 cursor count passes hinside hcap => cases h
  | case2 cursor count passes hinside hcap size more ih =>
      obtain ⟨sizes, hmore, hsum⟩ := ih (by omega) h
      refine ⟨size :: sizes, congrArg (chunkAt overlap bytes cursor size :: ·) hmore, ?_⟩
      rw [List.sum_cons, ← hsum, Nat.add_assoc]
  | case3 cursor count passes hinside =>
      refine ⟨[], rfl, ?_⟩
      show cursor + 0 = _
      omega

/-- A block a little longer than a chunk is read in two. -/
theorem blockChunks_two {bytes : List UInt8} {k : Nat} (hlength : bytes.length = chunkBytes + k)
    (hpos : 0 < k) (hk : k ≤ chunkBytes) :
    (blockChunks (fun _ => false) bytes 0 0 0).1 = cut overlap bytes 0 [chunkBytes, k] := by
  have hchunk := chunkBytes_pos
  have hroom : chunkBytes + chunkBytes < maxBytes := by
    decide
  have hfirst : min (min chunkBytes (bytes.length - 0)) (maxBytes - 0) = chunkBytes := by
    omega
  have hsecond : min (min chunkBytes (bytes.length - (0 + chunkBytes)))
      (maxBytes - (0 + chunkBytes)) = k := by
    omega
  have hopen : ∀ count, count < maxBytes → ¬ (false = true ∨ count ≥ maxBytes) := by
    intro count hcount
    rw [not_or]
    exact ⟨Bool.false_ne_true, Nat.not_le.mpr hcount⟩
  -- two passes, then the end of the block
  rw [blockChunks, dif_pos (by omega), dif_neg (hopen 0 (by omega))]
  dsimp only
  rw [hfirst, blockChunks, dif_pos (by omega), dif_neg (hopen _ (by omega))]
  dsimp only
  rw [hsecond, blockChunks, dif_neg (by omega)]
  rfl

end TeamAttack.RuleBindings
