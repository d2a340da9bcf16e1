import TeamAttack.AnchorScan

/-! # Names across chunk boundaries (`ExportUiRuleBindings.py`)

    Labels and hashes are found wherever they stand: the lookahead covers a
    needle of 128 bytes.  The string around a label is found only when it
    starts inside the chunk that holds the label, behind the first byte of the
    chunk, so the chunks give the anchors of the block exactly when every such
    string has an occurrence of its label in a chunk that begins before it. -/

namespace TeamAttack.RuleBindings

open RustStr LittleEndian ChunkWindows

/-! ## `add_hit` over a run -/

/-- What is true of the hits, call after call. -/
structure Hits.Counted (s : Hits) : Prop where
  nodup : s.seen.Nodup
  counts : ∀ label kind, s.counts label kind
    = (s.seen.filter (fun a => decide (a.label = label ∧ a.kind = kind))).length
  rows : ∀ a ∈ s.rows, a ∈ s.seen
  recorded : s.capped = [] → ∀ a ∈ s.seen, a ∈ s.rows
  capped : s.capped = [] ↔ ∀ label kind, s.counts label kind ≤ maxHitsPerLabel

theorem counted_empty : Hits.empty.Counted := by
  refine ⟨List.nodup_nil, fun _ _ => rfl, ?_, ?_, ?_⟩
  · intro a ha
    exact ha
  · intro _ a ha
    exact ha
  · constructor
    · intro _ label kind
      exact Nat.zero_le _
    · intro _
      rfl

theorem addHit_seen {s : Hits} {a b : Anchor} :
    b ∈ (addHit s a).seen ↔ b ∈ s.seen ∨ b = a := by
  unfold addHit
  split
  · rename_i hseen
    rw [List.contains_iff_mem] at hseen
    constructor
    · intro h
      exact Or.inl h
    · rintro (h | rfl)
      · exact h
      · exact hseen
  · dsimp only
    split
    · rw [List.mem_cons, or_comm]
    · rw [List.mem_cons, or_comm]

/-- A call of `add_hit` keeps the counts. -/
theorem addHit_counted {s : Hits} (h : s.Counted) (a : Anchor) : (addHit s a).Counted := by
  obtain ⟨hnodup, hcounts, hrows, hrecorded, hcapped⟩ := h
  unfold addHit
  by_cases hseen : s.seen.contains a = true
  · rw [if_pos hseen]
    exact ⟨hnodup, hcounts, hrows, hrecorded, hcapped⟩
  rw [if_neg hseen]
  rw [List.contains_iff_mem] at hseen
  dsimp only
  have hnodup' : (a :: s.seen).Nodup := List.nodup_cons.mpr ⟨hseen, hnodup⟩
  -- the new key adds one to its own count
  have hcounts' : ∀ label kind, (if label = a.label ∧ kind = a.kind
      then s.counts a.label a.kind + 1 else s.counts label kind)
      = ((a :: s.seen).filter (fun b => decide (b.label = label ∧ b.kind = kind))).length := by
    intro label kind
    by_cases hkey : label = a.label ∧ kind = a.kind
    · obtain ⟨rfl, rfl⟩ := hkey
      rw [if_pos ⟨rfl, rfl⟩, List.filter_cons, if_pos (decide_eq_true ⟨rfl, rfl⟩),
        List.length_cons, hcounts]
    · have hother : ¬ decide (a.label = label ∧ a.kind = kind) = true := by
        rw [decide_eq_true_eq]
        exact fun h => hkey ⟨h.1.symm, h.2.symm⟩
      rw [if_neg hkey, List.filter_cons, if_neg hother, hcounts]
  split
  -- past the cap: the key is seen and counted, the row is not recorded
  · rename_i hfull
    refine ⟨hnodup', hcounts', ?_, ?_, ?_⟩
    · intro b hb
      exact List.mem_cons_of_mem a (hrows b hb)
    · intro hnil
      cases hnil
    · constructor
      · intro hnil
        cases hnil
      · intro hall
        have hle : (if a.label = a.label ∧ a.kind = a.kind then s.counts a.label a.kind + 1
            else s.counts a.label a.kind) ≤ maxHitsPerLabel := hall a.label a.kind
        rw [if_pos ⟨rfl, rfl⟩] at hle
        omega
  · rename_i hroom
    have hcapped' : s.capped = [] ↔ ∀ label kind, (if label = a.label ∧ kind = a.kind
        then s.counts a.label a.kind + 1 else s.counts label kind) ≤ maxHitsPerLabel := by
      rw [hcapped]
      constructor
      · intro hall label kind
        split
        · exact Nat.le_of_not_lt hroom
        · exact hall label kind
      · intro hall label kind
        have hle := hall label kind
        split at hle
        · rename_i hkey
          rw [hkey.1, hkey.2]
          omega
        · exact hle
    refine ⟨hnodup', hcounts', ?_, ?_, hcapped'⟩
    · intro b hb
      rcases List.mem_append.mp hb with hold | hnew
      · exact List.mem_cons_of_mem a (hrows b hold)
      · rw [List.mem_singleton.mp hnew]
        exact List.mem_cons_self
    · intro hnil b hb
      rcases List.mem_cons.mp hb with rfl | hold
      · exact List.mem_append_right _ List.mem_cons_self
      · exact List.mem_append_left _ (hrecorded hnil b hold)

/-- **A run of `add_hit`** sees its calls and keeps the counts. -/
theorem addHits_run {calls : List Anchor} {s : Hits} (h : s.Counted) :
    (calls.foldl addHit s).Counted
      ∧ ∀ b, b ∈ (calls.foldl addHit s).seen ↔ b ∈ s.seen ∨ b ∈ calls := by
  induction calls generalizing s with
  | nil =>
      refine ⟨h, ?_⟩
      intro b
      rw [or_iff_left List.not_mem_nil]
      rfl
  | cons a calls ih =>
      obtain ⟨hcounted, hseen⟩ := ih (addHit_counted h a)
      refine ⟨hcounted, ?_⟩
      intro b
      rw [List.foldl_cons, hseen, addHit_seen, List.mem_cons, or_assoc]

/-- The hits of a scan. -/
theorem scan_counted (calls : List Anchor) : (calls.foldl addHit Hits.empty).Counted :=
  (addHits_run counted_empty).1

theorem mem_seen {calls : List Anchor} {a : Anchor} :
    a ∈ (calls.foldl addHit Hits.empty).seen ↔ a ∈ calls :=
  ((addHits_run counted_empty).2 a).trans (or_iff_right List.not_mem_nil)

/-- Where no cap is reached the rows are the calls. -/
theorem mem_rows {calls : List Anchor} (hcap : (calls.foldl addHit Hits.empty).capped = [])
    {a : Anchor} : a ∈ (calls.foldl addHit Hits.empty).rows ↔ a ∈ calls := by
  constructor
  · intro h
    exact mem_seen.mp ((scan_counted calls).rows a h)
  · intro h
    exact (scan_counted calls).recorded hcap a (mem_seen.mpr h)

/-- Fewer calls reach no cap that more do not. -/
theorem uncapped_of_subset {calls calls' : List Anchor} (hsub : ∀ a ∈ calls, a ∈ calls')
    (hcap : (calls'.foldl addHit Hits.empty).capped = []) :
    (calls.foldl addHit Hits.empty).capped = [] := by
  have hcounted := scan_counted calls
  have hcounted' := scan_counted calls'
  rw [hcounted.capped]
  intro label kind
  have hle := hcounted'.capped.mp hcap label kind
  rw [hcounted'.counts] at hle
  rw [hcounted.counts]
  refine (List.Subperm.length_le (List.subperm_of_subset (hcounted.nodup.filter _) ?_)).trans hle
  intro a ha
  obtain ⟨hmem, hkey⟩ := List.mem_filter.mp ha
  exact List.mem_filter.mpr ⟨mem_seen.mpr (hsub a (mem_seen.mp hmem)), hkey⟩

/-! ## A chunk and the block -/

/-- A label stands at `pos` in a string that starts at `start`. -/
structure ContainerAt (block needle : List UInt8) (start pos : Nat) : Prop where
  inside : pos < block.length
  occurs : OccursAt needle block pos
  prefixed : Prefixed block start pos

section Chunks

variable {block : List UInt8} {sizes : List Nat} {c : Chunk UInt8} {pos : Nat}

/-- A chunk shows what follows its positions. -/
theorem chunk_window (hc : c ∈ cut overlap block 0 sizes) (hpos : pos < c.size) {w : Nat}
    (hw : w ≤ overlap) : window c.raw pos w = window block (c.start + pos) w := by
  rw [(mem_cut hc).1]
  exact chunkAt_window hpos (by omega)

theorem getD_chunk (hc : c ∈ cut overlap block 0 sizes) (hpos : pos < c.size) :
    c.raw.getD pos 0 = block.getD (c.start + pos) 0 := by
  rw [getD_window, getD_window, chunk_window hc hpos (by decide)]

/-- Needles up to the lookahead are found in the chunk that owns their first byte. -/
theorem occursAt_chunk (hc : c ∈ cut overlap block 0 sizes) (hpos : pos < c.size)
    (hsizes : sizes.sum = block.length) {needle : List UInt8} (hneedle : needle.length ≤ overlap) :
    OccursAt needle c.raw pos ↔ OccursAt needle block (c.start + pos) := by
  have hwindow := chunk_window hc hpos le_rfl
  obtain ⟨-, -, hend⟩ := mem_cut hc
  have hfirst := chunk_window hc hpos (show 1 ≤ overlap by decide)
  have hroom : pos + 1 ≤ c.raw.length ↔ c.start + pos + 1 ≤ block.length :=
    window_room hfirst Nat.one_pos le_rfl
  -- a needle of at most `overlap` bytes looks at the window only
  have hpre : ∀ bytes : List UInt8, needle <+: bytes ↔ needle <+: bytes.take overlap := by
    intro bytes
    rw [List.prefix_take_iff, and_iff_left hneedle]
  unfold OccursAt
  rw [hpre, show (c.raw.drop pos).take overlap = (block.drop (c.start + pos)).take overlap
    from hwindow, ← hpre]
  constructor
  · rintro ⟨-, h⟩
    exact ⟨by omega, h⟩
  · rintro ⟨-, h⟩
    exact ⟨by omega, h⟩

/-- The walk back in a chunk finds the string when it starts behind the first
    byte of the chunk. -/
theorem prefixed_chunk (hc : c ∈ cut overlap block 0 sizes) (hpos : pos < c.size) {start : Nat} :
    Prefixed c.raw start pos ↔ 0 < start ∧ Prefixed block (c.start + start) (c.start + pos) := by
  constructor
  · rintro ⟨hstart, hbefore, hnear, hnul, hprint⟩
    refine ⟨hstart, by omega, by omega, by omega, ?_, ?_⟩
    · rw [Nat.add_sub_assoc hstart, ← getD_chunk hc (by omega), hnul]
    · intro i hi hlt
      obtain ⟨j, rfl⟩ := Nat.exists_eq_add_of_le (show c.start ≤ i by omega)
      rw [← getD_chunk hc (by omega)]
      exact hprint j (by omega) (by omega)
  · rintro ⟨hstart, -, hbefore, hnear, hnul, hprint⟩
    refine ⟨hstart, by omega, by omega, ?_, ?_⟩
    · rw [Nat.add_sub_assoc hstart] at hnul
      rw [getD_chunk hc (by omega), hnul]
    · intro i hi hlt
      rw [getD_chunk hc (by omega)]
      exact hprint _ (by omega) (by omega)

end Chunks

/-! ## The anchors of the chunks -/

theorem mem_anchorsAt {raw : List UInt8} {origin : Int} {label : Label} {kind : AnchorKind}
    {pos : Nat} {a : Anchor} :
    a ∈ anchorsAt raw origin label kind pos
      ↔ a = ⟨label.text, kind, origin + pos⟩
        ∨ kind = .ascii ∧ ∃ start, Prefixed raw start pos
          ∧ a = ⟨label.text, .asciiContainer, origin + start⟩ := by
  rw [anchorsAt, List.mem_cons]
  refine or_congr_right ?_
  constructor
  · intro h
    split at h
    · rename_i hkind
      obtain ⟨start, hstart, rfl⟩ := Option.map_eq_some_iff.mp (Option.mem_toList.mp h)
      exact ⟨hkind, start, container?_eq_some.mp hstart, rfl⟩
    · cases h
  · rintro ⟨hkind, start, hprefixed, rfl⟩
    rw [if_pos hkind]
    exact Option.mem_toList.mpr
      (Option.map_eq_some_iff.mpr ⟨start, container?_eq_some.mpr hprefixed, rfl⟩)

theorem mem_chunkAnchors {labels : List Label} {origin : Int} {c : Chunk UInt8} {a : Anchor} :
    a ∈ chunkAnchors labels origin c ↔ ∃ pattern ∈ patterns labels, ∃ pos < c.size,
      OccursAt pattern.2.2 c.raw pos
        ∧ a ∈ anchorsAt c.raw (origin + c.start) pattern.1 pattern.2.1 pos := by
  rw [chunkAnchors, List.mem_flatMap]
  refine exists_congr ?_
  intro pattern
  refine and_congr_right ?_
  intro _
  rw [List.mem_flatMap]
  constructor
  · rintro ⟨pos, hpos, ha⟩
    obtain ⟨-, hsize, hoccurs⟩ := (mem_occurrences (Nat.le_add_left _ _)).mp hpos
    exact ⟨pos, hsize, hoccurs, ha⟩
  · rintro ⟨pos, hsize, hoccurs, ha⟩
    exact ⟨pos, (mem_occurrences (Nat.le_add_left _ _)).mpr ⟨Nat.zero_le _, hsize, hoccurs⟩, ha⟩

/-- A label or a hash of the block. -/
def LiteralAnchor (labels : List Label) (origin : Int) (block : List UInt8) (a : Anchor) : Prop :=
  ∃ pattern ∈ patterns labels, ∃ pos < block.length,
    OccursAt pattern.2.2 block pos ∧ a = ⟨pattern.1.text, pattern.2.1, origin + pos⟩

/-- The chunk with the label at `pos` begins before the string at `start`. -/
def ReadWhole (block : List UInt8) (sizes : List Nat) (start pos : Nat) : Prop :=
  ∃ c ∈ cut overlap block 0 sizes, c.start < start ∧ c.start ≤ pos ∧ pos < c.start + c.size

/-- A string around a label, read whole. -/
def ContainerAnchor (labels : List Label) (origin : Int) (block : List UInt8) (sizes : List Nat)
    (a : Anchor) : Prop :=
  ∃ label ∈ labels, ∃ start pos, ContainerAt block label.raw start pos
    ∧ ReadWhole block sizes start pos ∧ a = ⟨label.text, .asciiContainer, origin + start⟩

theorem mem_patterns {labels : List Label} {pattern : Label × AnchorKind × List UInt8} :
    pattern ∈ patterns labels ↔ ∃ label ∈ labels, pattern = (label, .ascii, label.raw)
      ∨ pattern = (label, .u64Hash40, toLe 8 (hash40 label)) := by
  rw [patterns, List.mem_append, List.mem_map, List.mem_map]
  constructor
  · rintro (⟨label, hmem, rfl⟩ | ⟨label, hmem, rfl⟩)
    · exact ⟨label, hmem, Or.inl rfl⟩
    · exact ⟨label, hmem, Or.inr rfl⟩
  · rintro ⟨label, hmem, rfl | rfl⟩
    · exact Or.inl ⟨label, hmem, rfl⟩
    · exact Or.inr ⟨label, hmem, rfl⟩

theorem pattern_length {labels : List Label} (hlabels : ∀ label ∈ labels, label.raw.length ≤ 128)
    {pattern : Label × AnchorKind × List UInt8} (h : pattern ∈ patterns labels) :
    pattern.2.2.length ≤ overlap := by
  obtain ⟨label, hmem, rfl | rfl⟩ := mem_patterns.mp h
  · exact hlabels label hmem
  · show (toLe 8 (hash40 label)).length ≤ overlap
    rw [length_toLe]
    decide

/-- **What the chunks give**: the labels and hashes of the block, and the
    strings around labels that are read whole. -/
theorem mem_chunkAnchors_cut {labels : List Label} {origin : Int} {block : List UInt8}
    {sizes : List Nat} (hsizes : sizes.sum = block.length)
    (hlabels : ∀ label ∈ labels, label.raw.length ≤ 128) {a : Anchor} :
    a ∈ (cut overlap block 0 sizes).flatMap (chunkAnchors labels origin)
      ↔ LiteralAnchor labels origin block a ∨ ContainerAnchor labels origin block sizes a := by
  rw [List.mem_flatMap]
  constructor
  · rintro ⟨c, hc, ha⟩
    obtain ⟨pattern, hpattern, pos, hpos, hoccurs, ha⟩ := mem_chunkAnchors.mp ha
    obtain ⟨-, -, hend⟩ := mem_cut hc
    have hinside : c.start + pos < block.length := by omega
    rw [occursAt_chunk hc hpos hsizes (pattern_length hlabels hpattern)] at hoccurs
    rcases mem_anchorsAt.mp ha with rfl | ⟨hkind, start, hprefixed, rfl⟩
    · refine Or.inl ⟨pattern, hpattern, c.start + pos, hinside, hoccurs, ?_⟩
      rw [Nat.cast_add, Int.add_assoc]
    · obtain ⟨label, hmem, rfl | rfl⟩ := mem_patterns.mp hpattern
      · obtain ⟨hstart, hwhole⟩ := (prefixed_chunk hc hpos).mp hprefixed
        refine Or.inr ⟨label, hmem, c.start + start, c.start + pos, ⟨hinside, hoccurs, hwhole⟩,
          ⟨c, hc, by omega, by omega, by omega⟩, ?_⟩
        rw [Nat.cast_add, Int.add_assoc]
      · cases hkind
  -- the chunk that owns the position of the label finds it
  · rintro (⟨pattern, hpattern, p, hp, hoccurs, rfl⟩
      | ⟨label, hmem, b, p, ⟨hinside, hoccurs, hprefixed⟩, ⟨c, hc, hfront, hlow, hhigh⟩, rfl⟩)
    · obtain ⟨c, hc, hlow, hhigh⟩ : ∃ c ∈ cut overlap block 0 sizes,
          c.start ≤ p ∧ p < c.start + c.size := cut_owner (Nat.zero_le p) (by omega)
      obtain ⟨pos, rfl⟩ := Nat.exists_eq_add_of_le hlow
      have hpos : pos < c.size := by omega
      rw [← occursAt_chunk hc hpos hsizes (pattern_length hlabels hpattern)] at hoccurs
      refine ⟨c, hc, mem_chunkAnchors.mpr ⟨pattern, hpattern, pos, hpos, hoccurs,
        mem_anchorsAt.mpr (Or.inl ?_)⟩⟩
      rw [Nat.cast_add, Int.add_assoc]
    -- the walk back from the label stays in the chunk
    · obtain ⟨pos, rfl⟩ := Nat.exists_eq_add_of_le hlow
      obtain ⟨start, rfl⟩ := Nat.exists_eq_add_of_le hfront.le
      have hpos : pos < c.size := by omega
      have hpattern : (label, AnchorKind.ascii, label.raw) ∈ patterns labels :=
        mem_patterns.mpr ⟨label, hmem, Or.inl rfl⟩
      rw [← occursAt_chunk hc hpos hsizes (hlabels label hmem)] at hoccurs
      have hchunk := (prefixed_chunk hc hpos).mpr ⟨by omega, hprefixed⟩
      refine ⟨c, hc, mem_chunkAnchors.mpr ⟨_, hpattern, pos, hpos, hoccurs,
        mem_anchorsAt.mpr (Or.inr ⟨rfl, start, hchunk, ?_⟩)⟩⟩
      rw [Nat.cast_add, Int.add_assoc]

/-! ## The chunks against the block -/

/-- The scan of a block as a single chunk. -/
def wholeScan (labels : List Label) (origin : Int) (block : List UInt8) : Hits :=
  literalScan labels origin (cut overlap block 0 [block.length])

/-- The scan of a block in chunks. -/
def chunkedScan (labels : List Label) (origin : Int) (block : List UInt8) (sizes : List Nat) :
    Hits :=
  literalScan labels origin (cut overlap block 0 sizes)

/-- The chunks give the anchors of the block. -/
def SameAnchors (labels : List Label) (origin : Int) (block : List UInt8) (sizes : List Nat) :
    Prop :=
  ∀ a, a ∈ (chunkedScan labels origin block sizes).rows ↔ a ∈ (wholeScan labels origin block).rows

/-- Every string around a label has an occurrence of the label in a chunk that
    begins before the string does. -/
def StringsWhole (labels : List Label) (block : List UInt8) (sizes : List Nat) : Prop :=
  ∀ label ∈ labels, ∀ start pos, ContainerAt block label.raw start pos →
    ∃ pos', ContainerAt block label.raw start pos' ∧ ReadWhole block sizes start pos'

section Comparison

variable {labels : List Label} {origin : Int} {block : List UInt8} {sizes : List Nat}

/-- A single chunk reads every string whole. -/
theorem readWhole_single {start pos : Nat} (h : 0 < start) (hpos : pos < block.length) :
    ReadWhole block [block.length] start pos := by
  refine ⟨_, List.mem_cons_self, h, Nat.zero_le _, ?_⟩
  show pos < 0 + block.length
  omega

theorem mem_wholeScan (hlabels : ∀ label ∈ labels, label.raw.length ≤ 128)
    (hcap : (wholeScan labels origin block).capped = []) {a : Anchor} :
    a ∈ (wholeScan labels origin block).rows ↔ LiteralAnchor labels origin block a
      ∨ ContainerAnchor labels origin block [block.length] a := by
  rw [wholeScan, literalScan, mem_rows hcap]
  exact mem_chunkAnchors_cut List.sum_singleton hlabels

/-- No chunk gives an anchor that the block does not have. -/
theorem chunkAnchors_subset (hsizes : sizes.sum = block.length)
    (hlabels : ∀ label ∈ labels, label.raw.length ≤ 128) :
    ∀ a ∈ (cut overlap block 0 sizes).flatMap (chunkAnchors labels origin),
      a ∈ (cut overlap block 0 [block.length]).flatMap (chunkAnchors labels origin) := by
  intro a ha
  rw [mem_chunkAnchors_cut List.sum_singleton hlabels]
  rcases (mem_chunkAnchors_cut hsizes hlabels).mp ha with hliteral
    | ⟨label, hmem, start, pos, hcontainer, -, rfl⟩
  · exact Or.inl hliteral
  · exact Or.inr ⟨label, hmem, start, pos, hcontainer,
      readWhole_single hcontainer.prefixed.start_pos hcontainer.inside, rfl⟩

theorem mem_chunkedScan (hsizes : sizes.sum = block.length)
    (hlabels : ∀ label ∈ labels, label.raw.length ≤ 128)
    (hcap : (wholeScan labels origin block).capped = []) {a : Anchor} :
    a ∈ (chunkedScan labels origin block sizes).rows ↔ LiteralAnchor labels origin block a
      ∨ ContainerAnchor labels origin block sizes a := by
  have huncapped := uncapped_of_subset (chunkAnchors_subset hsizes hlabels) hcap
  rw [chunkedScan, literalScan, mem_rows huncapped]
  exact mem_chunkAnchors_cut hsizes hlabels

/-- A container anchor is no label and no hash. -/
theorem not_literal {a : Anchor} (hkind : a.kind = .asciiContainer) :
    ¬ LiteralAnchor labels origin block a := by
  rintro ⟨pattern, hpattern, pos, -, -, rfl⟩
  obtain ⟨label, -, rfl | rfl⟩ := mem_patterns.mp hpattern
  · cases hkind
  · cases hkind

theorem stringsWhole_of_same (hsizes : sizes.sum = block.length)
    (hlabels : ∀ label ∈ labels, label.raw.length ≤ 128)
    (hcap : (wholeScan labels origin block).capped = [])
    (hsame : SameAnchors labels origin block sizes) : StringsWhole labels block sizes := by
  intro label hmem start pos hcontainer
  have hwhole := readWhole_single hcontainer.prefixed.start_pos hcontainer.inside
  have hanchor := (hsame ⟨label.text, .asciiContainer, origin + start⟩).mpr
    ((mem_wholeScan hlabels hcap).mpr
      (Or.inr ⟨label, hmem, start, pos, hcontainer, hwhole, rfl⟩))
  rcases (mem_chunkedScan hsizes hlabels hcap).mp hanchor with hliteral
    | ⟨label', -, start', pos', hcontainer', hread, heq⟩
  · exact absurd hliteral (not_literal rfl)
  · obtain ⟨htext, -, haddress⟩ := Anchor.mk.inj heq
    obtain rfl : start = start' := by omega
    have hraw : label.raw = label'.raw := by
      rw [Label.raw, Label.raw, htext]
    rw [hraw]
    exact ⟨pos', hcontainer', hread⟩

theorem same_of_stringsWhole (hsizes : sizes.sum = block.length)
    (hlabels : ∀ label ∈ labels, label.raw.length ≤ 128)
    (hcap : (wholeScan labels origin block).capped = [])
    (hstrings : StringsWhole labels block sizes) : SameAnchors labels origin block sizes := by
  intro a
  rw [mem_chunkedScan hsizes hlabels hcap, mem_wholeScan hlabels hcap]
  refine or_congr_right ?_
  constructor
  · rintro ⟨label, hmem, start, pos, hcontainer, -, rfl⟩
    exact ⟨label, hmem, start, pos, hcontainer,
      readWhole_single hcontainer.prefixed.start_pos hcontainer.inside, rfl⟩
  · rintro ⟨label, hmem, start, pos, hcontainer, -, rfl⟩
    -- another occurrence of the label may show the string
    obtain ⟨pos', hcontainer', hread⟩ := hstrings label hmem start pos hcontainer
    exact ⟨label, hmem, start, pos', hcontainer', hread, rfl⟩

end Comparison

/-- **Chunked anchor scanning is whole-block scanning exactly when no string
    is cut in front of its label.**  While no hit cap is reached, the chunks
    give the anchors of the block if and only if every string around a label
    has an occurrence of the label in a chunk that begins before the string. -/
theorem same_anchors_iff (labels : List Label) (origin : Int) (block : List UInt8)
    (sizes : List Nat) (hsizes : sizes.sum = block.length)
    (hlabels : ∀ label ∈ labels, label.raw.length ≤ 128)
    (hcap : (wholeScan labels origin block).capped = []) :
    SameAnchors labels origin block sizes ↔ StringsWhole labels block sizes :=
  ⟨stringsWhole_of_same hsizes hlabels hcap, same_of_stringsWhole hsizes hlabels hcap⟩

/-! ## A string across the first boundary -/

def teamAttack : Label := ⟨"team_attack".toList, by decide⟩

set_option maxRecDepth 4000 in
theorem teamAttack_packed :
    toLe 8 (hash40 teamAttack) = 0xe2 :: [0x6a, 0xdb, 0x31, 0x0b, 0, 0, 0] := by
  decide

/-- `n` zero bytes, then the string `x` and the label, then a NUL. -/
def paddedBlock (n : Nat) : List UInt8 := List.replicate n 0 ++ (0x78 :: teamAttack.raw ++ [0])

theorem length_paddedBlock (n : Nat) : (paddedBlock n).length = n + 13 := by
  rw [paddedBlock, List.length_append, List.length_replicate]
  rfl

theorem paddedBlock_zero {n i : Nat} (hi : i < n) : (paddedBlock n).getD i 0 = 0 := by
  rw [paddedBlock, List.getD_append _ _ _ _ (by rw [List.length_replicate]; exact hi),
    List.getD_replicate _ hi]

theorem paddedBlock_drop (n k : Nat) :
    (paddedBlock n).drop (n + k) = (0x78 :: teamAttack.raw ++ [0]).drop k := by
  have hlength : (List.replicate n (0 : UInt8)).length = n := List.length_replicate
  rw [paddedBlock, ← List.drop_drop, List.drop_left' hlength]

theorem paddedBlock_container {n : Nat} (hn : 0 < n) :
    ContainerAt (paddedBlock n) teamAttack.raw n (n + 1) := by
  refine ⟨?_, ⟨?_, ?_⟩, hn, Nat.lt_succ_self n, by omega, paddedBlock_zero (by omega), ?_⟩
  · rw [length_paddedBlock]
    omega
  · rw [length_paddedBlock]
    omega
  · rw [paddedBlock_drop]
    exact List.prefix_append _ _
  · intro i hi hlt
    obtain rfl : i = n := by omega
    have hbyte : (paddedBlock i).getD (i + 0) 0 = 0x78 := by
      rw [List.getD_eq_getElem?_getD, ← List.head?_drop, paddedBlock_drop]
      rfl
    rw [Nat.add_zero] at hbyte
    rw [hbyte]
    rfl

/-- A needle that starts with no NUL is found behind the zeros only. -/
theorem paddedBlock_occurs {n pos : Nat} {b : UInt8} {needle : List UInt8} (hb : b ≠ 0)
    (h : OccursAt (b :: needle) (paddedBlock n) pos) : n ≤ pos := by
  by_contra hlt
  obtain ⟨rest, hrest⟩ := h.2
  have hhead : (paddedBlock n)[pos]? = some b := by
    rw [← List.head?_drop, ← hrest]
    rfl
  have hzero := paddedBlock_zero (Nat.lt_of_not_le hlt)
  rw [List.getD_eq_getElem?_getD, hhead] at hzero
  exact hb hzero

theorem paddedBlock_anchors {n : Nat} {origin : Int} {a : Anchor}
    (h : LiteralAnchor [teamAttack] origin (paddedBlock n) a
      ∨ ContainerAnchor [teamAttack] origin (paddedBlock n) [(paddedBlock n).length] a) :
    ∃ i < 13, a.address = origin + (n + i : Nat) := by
  have hwithin : ∀ pos, n ≤ pos → pos < (paddedBlock n).length →
      ∃ i < 13, origin + (pos : Int) = origin + (n + i : Nat) := by
    intro pos hlow hhigh
    rw [length_paddedBlock] at hhigh
    exact ⟨pos - n, by omega, by omega⟩
  rcases h with ⟨pattern, hpattern, pos, hpos, hoccurs, rfl⟩
    | ⟨label, -, start, pos, hcontainer, -, rfl⟩
  · obtain ⟨label, hmem, hneedle⟩ := mem_patterns.mp hpattern
    obtain rfl := List.mem_singleton.mp hmem
    refine hwithin pos ?_ hpos
    rcases hneedle with rfl | rfl
    · exact paddedBlock_occurs (b := 0x74) (by decide) hoccurs
    · dsimp only at hoccurs
      rw [teamAttack_packed] at hoccurs
      exact paddedBlock_occurs (by decide) hoccurs
  · refine hwithin start ?_ (hcontainer.prefixed.before.trans hcontainer.inside)
    by_contra hlt
    have hprint := hcontainer.prefixed.printables start le_rfl hcontainer.prefixed.before
    rw [paddedBlock_zero (Nat.lt_of_not_le hlt)] at hprint
    cases hprint

/-- Too few bytes stand behind the zeros for a hit cap. -/
theorem paddedBlock_uncapped (n : Nat) (origin : Int) :
    (wholeScan [teamAttack] origin (paddedBlock n)).capped = [] := by
  have hlabels : ∀ label ∈ [teamAttack], label.raw.length ≤ 128 := by
    decide
  have hcounted := scan_counted
    ((cut overlap (paddedBlock n) 0 [(paddedBlock n).length]).flatMap
      (chunkAnchors [teamAttack] origin))
  refine hcounted.capped.mpr ?_
  intro label kind
  rw [hcounted.counts]
  -- thirteen places are left, and a key stands at each once
  let places := (List.range 13).map fun i => (⟨label, kind, origin + (n + i : Nat)⟩ : Anchor)
  have hplaces : places.length ≤ maxHitsPerLabel := by
    rw [List.length_map, List.length_range]
    decide
  refine (List.Subperm.length_le (List.subperm_of_subset (hcounted.nodup.filter _) ?_)).trans
    hplaces
  intro a ha
  obtain ⟨hmem, hkey⟩ := List.mem_filter.mp ha
  obtain ⟨hlabel, hkind⟩ := of_decide_eq_true hkey
  obtain ⟨i, hi, haddress⟩ := paddedBlock_anchors
    ((mem_chunkAnchors_cut List.sum_singleton hlabels).mp (mem_seen.mp hmem))
  refine List.mem_map.mpr ⟨i, List.mem_range.mpr hi, ?_⟩
  rw [← hlabel, ← hkind, ← haddress]

/-- A boundary between the string and its label hides the string. -/
theorem paddedBlock_cut {n : Nat} (hn : 0 < n) :
    ¬ StringsWhole [teamAttack] (paddedBlock n) [n + 1, 12] := by
  intro hstrings
  obtain ⟨pos, hcontainer, c, hc, hfront, -, hhigh⟩ :=
    hstrings teamAttack List.mem_cons_self n (n + 1) (paddedBlock_container hn)
  have hbefore := hcontainer.prefixed.before
  -- the first chunk ends before the label, the second begins behind the start
  rcases List.mem_cons.mp hc with rfl | hc
  · change pos < 0 + (n + 1) at hhigh
    omega
  · rw [List.mem_singleton.mp hc] at hfront
    change 0 + (n + 1) < n at hfront
    omega

/-- A boundary in front of the label. -/
theorem same_anchors_iff_padded :
    ¬ SameAnchors [teamAttack] 0x7100000000 (paddedBlock 1) [2, 12] := by
  intro hsame
  have hlabels : ∀ label ∈ [teamAttack], label.raw.length ≤ 128 := by
    decide
  exact paddedBlock_cut Nat.one_pos ((same_anchors_iff [teamAttack] 0x7100000000 (paddedBlock 1)
    [2, 12] rfl hlabels (paddedBlock_uncapped 1 0x7100000000)).mp hsame)

/-- **The chunks of `chunks` miss a string.**  The block is read in two chunks,
    the first a mebibyte long, and the string `xteam_attack` begins with the
    last byte of the first: the whole block gives it, the chunks do not. -/
theorem chunks_miss_string :
    (blockChunks (fun _ => false) (paddedBlock (chunkBytes - 1)) 0 0 0).1
        = cut overlap (paddedBlock (chunkBytes - 1)) 0 [chunkBytes, 12]
      ∧ [chunkBytes, 12].sum = (paddedBlock (chunkBytes - 1)).length
      ∧ (∀ label ∈ [teamAttack], label.raw.length ≤ 128)
      ∧ (wholeScan [teamAttack] 0x7100000000 (paddedBlock (chunkBytes - 1))).capped = []
      ∧ (chunkedScan [teamAttack] 0x7100000000 (paddedBlock (chunkBytes - 1))
        [chunkBytes, 12]).capped = []
      ∧ ¬ SameAnchors [teamAttack] 0x7100000000 (paddedBlock (chunkBytes - 1))
        [chunkBytes, 12] := by
  have hpos : 0 < chunkBytes - 1 := by
    decide
  have hsucc : chunkBytes - 1 + 1 = chunkBytes := Nat.sub_add_cancel chunkBytes_pos
  have hlength : (paddedBlock (chunkBytes - 1)).length = chunkBytes + 12 := by
    rw [length_paddedBlock]
    omega
  have hsum : [chunkBytes, 12].sum = (paddedBlock (chunkBytes - 1)).length := by
    rw [hlength]
    rfl
  have hlabels : ∀ label ∈ [teamAttack], label.raw.length ≤ 128 := by
    decide
  have hcap := paddedBlock_uncapped (chunkBytes - 1) 0x7100000000
  refine ⟨?_, hsum, hlabels, hcap, uncapped_of_subset (chunkAnchors_subset hsum hlabels) hcap, ?_⟩
  · exact blockChunks_two hlength (by decide) (by decide)
  · intro hsame
    have hcut := paddedBlock_cut hpos
    rw [hsucc] at hcut
    exact hcut (stringsWhole_of_same hsum hlabels hcap hsame)

end TeamAttack.RuleBindings
