import TeamAttack.Library.LittleEndian
import TeamAttack.Library.RustStr
import TeamAttack.ScanChunks

/-! # Scanning for names (`ExportUiRuleBindings.py`)

    `main` looks in every chunk for the labels in plain ASCII and for their
    64-bit hashes.  From a label in ASCII it walks back over printable bytes
    to the start of the string that holds it.  The walk ends at the start of
    the chunk, since the chunk is read with bytes behind it and none in front. -/

namespace TeamAttack.RuleBindings

open RustStr LittleEndian ChunkWindows

/-! ## Labels and their needles -/

/-- A label that `encode('ascii')` takes. -/
structure Label where
  text : Str
  ascii : text.all isAscii = true

/-- `label.encode('ascii')`. -/
def Label.raw (label : Label) : List UInt8 := label.text.map fun c => UInt8.ofNat c.toNat

/-- A byte of `zlib.crc32`, bit after bit. -/
def crcByte (crc : UInt32) (b : UInt8) : UInt32 :=
  (List.range 8).foldl
    (fun crc _ => if crc &&& 1 = 1 then crc >>> 1 ^^^ 0xedb88320 else crc >>> 1)
    (crc ^^^ b.toUInt32)

/-- `zlib.crc32`. -/
def crc32 (bytes : List UInt8) : UInt32 := bytes.foldl crcByte 0xffffffff ^^^ 0xffffffff

/-- `hash40`. -/
def hash40 (label : Label) : Nat := label.raw.length <<< 32 ||| (crc32 label.raw).toNat

inductive AnchorKind where
  | ascii
  | u64Hash40
  | asciiContainer
  deriving DecidableEq

/-- The key of an anchor in `hit_seen`. -/
structure Anchor where
  label : Str
  kind : AnchorKind
  address : Int
  deriving DecidableEq

/-- The `patterns`: a label, the kind of its anchors and the bytes to find. -/
def patterns (labels : List Label) : List (Label × AnchorKind × List UInt8) :=
  labels.map (fun label => (label, .ascii, label.raw))
    ++ labels.map (fun label => (label, .u64Hash40, toLe 8 (hash40 label)))

/-! ## The search in a chunk -/

/-- `raw.find(needle, start)`. -/
def find? (needle raw : List UInt8) (start : Nat) : Option Nat :=
  (List.range' start (raw.length + 1 - start)).find? (fun i => needle.isPrefixOf (raw.drop i))

/-- The positions of the `while` loop, with `n` passes left: the occurrences
    from `start` on, up to the first that is not below `size`. -/
def occurrences (needle raw : List UInt8) (size : Nat) : Nat → Nat → List Nat
  | 0, _ => []
  | n + 1, start =>
      match find? needle raw start with
      | none => []
      | some pos =>
          if pos < size then pos :: occurrences needle raw size n (pos + 1) else []

/-- `32 <= b < 127`. -/
def printable (b : UInt8) : Bool := 32 ≤ b && b < 127

/-- The walk back from a label: `begin` at the end of the loop. -/
def walkBack (raw : List UInt8) (low : Nat) : Nat → Nat
  | 0 => 0
  | b + 1 => if b + 1 > low ∧ printable (raw.getD b 0) = true then walkBack raw low b else b + 1

/-- The start of the string around a label at `pos`, if it is an anchor. -/
def container? (raw : List UInt8) (pos : Nat) : Option Nat :=
  let start := walkBack raw (pos - 128) pos
  if start < pos ∧ start > 0 ∧ raw.getD (start - 1) 0 = 0 then some start else none

/-- The calls of `add_hit` at an occurrence. -/
def anchorsAt (raw : List UInt8) (origin : Int) (label : Label) (kind : AnchorKind) (pos : Nat) :
    List Anchor :=
  ⟨label.text, kind, origin + pos⟩
    :: if kind = .ascii then
        ((container? raw pos).map fun (start : Nat) =>
          (⟨label.text, .asciiContainer, origin + start⟩ : Anchor)).toList
      else []

/-- The calls of `add_hit` in a chunk. -/
def chunkAnchors (labels : List Label) (origin : Int) (c : Chunk UInt8) : List Anchor :=
  (patterns labels).flatMap fun pattern =>
    (occurrences pattern.2.2 c.raw c.size (c.raw.length + 1) 0).flatMap
      (anchorsAt c.raw (origin + c.start) pattern.1 pattern.2.1)

/-! ## `add_hit` -/

/-- `MAX_HITS_PER_LABEL`. -/
def maxHitsPerLabel : Nat := 20

/-- What `add_hit` keeps: the keys seen, the hits counted for each label and
    kind, the rows recorded, and where the cap was reached. -/
structure Hits where
  seen : List Anchor
  counts : Str → AnchorKind → Nat
  rows : List Anchor
  capped : List (Str × AnchorKind)

def Hits.empty : Hits := ⟨[], fun _ _ => 0, [], []⟩

/-- **`add_hit`**, up to what it writes. -/
def addHit (s : Hits) (a : Anchor) : Hits :=
  if s.seen.contains a then s
  else
    let count := s.counts a.label a.kind + 1
    let counts := fun label kind =>
      if label = a.label ∧ kind = a.kind then count else s.counts label kind
    if count > maxHitsPerLabel then
      { s with seen := a :: s.seen, counts, capped := (a.label, a.kind) :: s.capped }
    else { s with seen := a :: s.seen, counts, rows := s.rows ++ [a] }

/-- The scan for literal anchors over the chunks of a block. -/
def literalScan (labels : List Label) (origin : Int) (cs : List (Chunk UInt8)) : Hits :=
  (cs.flatMap (chunkAnchors labels origin)).foldl addHit Hits.empty

/-! ## What the search finds -/

/-- The needle stands at a position. -/
def OccursAt (needle raw : List UInt8) (pos : Nat) : Prop :=
  pos ≤ raw.length ∧ needle <+: raw.drop pos

theorem find?_eq_some {needle raw : List UInt8} {start pos : Nat} :
    find? needle raw start = some pos ↔ start ≤ pos ∧ OccursAt needle raw pos
      ∧ ∀ i, start ≤ i → i < pos → ¬ needle <+: raw.drop i := by
  rw [find?, List.find?_range'_eq_some]
  simp only [List.isPrefixOf_iff_prefix, List.mem_range'_1, Bool.not_eq_true', OccursAt,
    ← Bool.not_eq_true]
  constructor
  · rintro ⟨hpre, ⟨hlow, hhigh⟩, hfirst⟩
    exact ⟨hlow, ⟨by omega, hpre⟩, hfirst⟩
  · rintro ⟨hlow, ⟨hinside, hpre⟩, hfirst⟩
    exact ⟨hpre, ⟨hlow, by omega⟩, hfirst⟩

theorem find?_eq_none {needle raw : List UInt8} {start : Nat}
    (h : find? needle raw start = none) {pos : Nat} (hstart : start ≤ pos) :
    ¬ OccursAt needle raw pos := by
  rw [find?, List.find?_range'_eq_none] at h
  rintro ⟨hinside, hpre⟩
  have hnot := h pos hstart (by omega)
  rw [List.isPrefixOf_iff_prefix.mpr hpre] at hnot
  cases hnot

/-- **The loop finds every occurrence below the bound.**  A pass moves past
    the occurrence it found, so as many passes as positions are enough. -/
theorem mem_occurrences {needle raw : List UInt8} {size n start pos : Nat}
    (hn : raw.length + 1 ≤ start + n) :
    pos ∈ occurrences needle raw size n start
      ↔ start ≤ pos ∧ pos < size ∧ OccursAt needle raw pos := by
  induction n generalizing start with
  | zero =>
      constructor
      · intro h
        cases h
      · rintro ⟨hlow, -, hinside, -⟩
        omega
  | succ n ih =>
      rw [occurrences]
      cases hfind : find? needle raw start with
      | none =>
          constructor
          · intro h
            cases h
          · rintro ⟨hlow, -, hoccurs⟩
            exact absurd hoccurs (find?_eq_none hfind hlow)
      | some first =>
          obtain ⟨hlow, hoccurs, hfirst⟩ := find?_eq_some.mp hfind
          -- `find` returns the least occurrence, so none is skipped
          have hskip : ∀ p, start ≤ p → OccursAt needle raw p → first ≤ p := by
            intro p hp hocc
            by_contra hlt
            exact hfirst p hp (Nat.lt_of_not_le hlt) hocc.2
          dsimp only
          by_cases hsize : first < size
          · rw [if_pos hsize, List.mem_cons, ih (by omega)]
            constructor
            · rintro (rfl | ⟨hp, hlt, hocc⟩)
              · exact ⟨hlow, hsize, hoccurs⟩
              · exact ⟨by omega, hlt, hocc⟩
            · rintro ⟨hp, hlt, hocc⟩
              have hle := hskip pos hp hocc
              by_cases heq : pos = first
              · exact Or.inl heq
              · exact Or.inr ⟨by omega, hlt, hocc⟩
          · rw [if_neg hsize]
            constructor
            · intro h
              cases h
            · rintro ⟨hp, hlt, hocc⟩
              have hle := hskip pos hp hocc
              omega

/-! ## The walk back -/

/-- A string starts at `start`, behind a NUL, and runs to `pos` over printable
    bytes, at most 128 of them. -/
structure Prefixed (raw : List UInt8) (start pos : Nat) : Prop where
  start_pos : 0 < start
  before : start < pos
  near : pos ≤ start + 128
  nul : raw.getD (start - 1) 0 = 0
  printables : ∀ i, start ≤ i → i < pos → printable (raw.getD i 0) = true

/-- Where the walk from `pos` stops. -/
theorem walkBack_stops (raw : List UInt8) (low pos : Nat) :
    walkBack raw low pos ≤ pos ∧ (low ≤ pos → low ≤ walkBack raw low pos)
      ∧ ∀ i, walkBack raw low pos ≤ i → i < pos → printable (raw.getD i 0) = true := by
  induction pos with
  | zero => exact ⟨le_rfl, fun h => h, fun i _ hi => absurd hi (Nat.not_lt_zero i)⟩
  | succ b ih =>
      rw [walkBack]
      by_cases hstep : b + 1 > low ∧ printable (raw.getD b 0) = true
      · rw [if_pos hstep]
        obtain ⟨hle, hlow, hprint⟩ := ih
        refine ⟨Nat.le_succ_of_le hle, fun _ => hlow (Nat.le_of_lt_succ hstep.1), ?_⟩
        intro i hi hlt
        by_cases hlast : i = b
        · rw [hlast]
          exact hstep.2
        · exact hprint i hi (by omega)
      · rw [if_neg hstep]
        exact ⟨le_rfl, fun h => h, fun i hi hlt => by omega⟩

/-- It stops at the limit or behind a byte that is not printable. -/
theorem walkBack_eq {raw : List UInt8} {low start pos : Nat} (hlow : low ≤ start)
    (hle : start ≤ pos) (hprint : ∀ i, start ≤ i → i < pos → printable (raw.getD i 0) = true)
    (hstart : 0 < start) (hstop : printable (raw.getD (start - 1) 0) = false) :
    walkBack raw low pos = start := by
  induction pos with
  | zero => omega
  | succ b ih =>
      rw [walkBack]
      -- the walk is at the start, or one printable byte before it
      by_cases hlast : start = b + 1
      · have hbyte : printable (raw.getD b 0) = false := by
          rw [← hstop, hlast, Nat.add_sub_cancel]
        rw [if_neg, hlast]
        rw [hbyte]
        exact fun h => Bool.false_ne_true h.2
      · have hb : start ≤ b := by omega
        rw [if_pos ⟨by omega, hprint b hb (Nat.lt_succ_self b)⟩]
        exact ih hb fun i hi hlt => hprint i hi (Nat.lt_succ_of_lt hlt)

/-- **The container of a label** is the string that starts behind a NUL. -/
theorem container?_eq_some {raw : List UInt8} {start pos : Nat} :
    container? raw pos = some start ↔ Prefixed raw start pos := by
  unfold container?
  obtain ⟨_, hlow, hprint⟩ := walkBack_stops raw (pos - 128) pos
  constructor
  · intro h
    dsimp only at h
    split at h
    · rename_i hfound
      obtain rfl := Option.some.inj h
      obtain ⟨hbefore, hpos, hnul⟩ := hfound
      have hnear := hlow (Nat.sub_le _ _)
      exact ⟨hpos, hbefore, by omega, hnul, hprint⟩
    · cases h
  · rintro ⟨hpos, hbefore, hnear, hnul, hprintables⟩
    have hstop : printable (raw.getD (start - 1) 0) = false := by
      rw [hnul]
      rfl
    have hwalk : walkBack raw (pos - 128) pos = start :=
      walkBack_eq (by omega) hbefore.le hprintables hpos hstop
    dsimp only
    rw [hwalk]
    exact if_pos ⟨hbefore, hpos, hnul⟩

end TeamAttack.RuleBindings
