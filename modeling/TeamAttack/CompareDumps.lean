import TeamAttack.SessionReadBack

/-! # Two dumps side by side (`compare_dumps.py`)

    `main` reads a log, chooses two sequences and lists the bytes in which
    their dumps differ.  On the log of a session it chooses the two latest of
    the dumps written and lists the configured offsets at which the buffers
    differ (`comparison_of_session`). -/

namespace TeamAttack.LogReaders

open RustStr ExceptRules

/-- A dump: its sequence and the bytes that were read. -/
abbrev Dump := Nat × List (Option Nat)

/-- `(i, a, b, a ^ b)`. -/
structure Difference where
  offset : Nat
  before : Nat
  after : Nat
  xor : Nat
  deriving DecidableEq

/-- `raise ValueError(message)`. -/
def refused {α : Type} (message : Str) : Read α := .error (.value message)

/-- `sequence in captures`. -/
def captured (captures : List Dump) (sequence : Int) : Bool :=
  captures.any fun dump => (dump.1 : Int) = sequence

/-- `captures[sequence]`, of a sequence that is there. -/
def payloadOf (captures : List Dump) (sequence : Int) : List (Option Nat) :=
  ((captures.find? fun dump => (dump.1 : Int) = sequence).map Prod.snd).getD []

/-- `available[-2], available[-1]`, where there are as many. -/
def latestTwo (available : List Int) : Read (Int × Int) :=
  match available.reverse with
  | last :: previous :: _ => .ok (previous, last)
  | _ => refused "log must contain at least two captures".toList

/-- `choose_sequences`. -/
def chooseSequences (captures : List Dump) (requested : List Int) : Read (Int × Int) :=
  if requested ≠ [] then
    match requested with
    | [first, second] =>
        if first = second then refused "provide two distinct sequence numbers".toList
        else if requested.any (fun sequence => !captured captures sequence) then
          refused "requested sequence not found".toList
        else .ok (first, second)
    | _ => refused "provide two distinct sequence numbers".toList
  else latestTwo (captures.map fun dump => (dump.1 : Int)).mergeSort

/-- The comprehension of `differences`, at one place. -/
def differenceAt (i : Nat) : Option Nat → Option Nat → Option Difference
  | some a, some b => if a ≠ b then some ⟨i, a, b, a ^^^ b⟩ else none
  | _, _ => none

/-- `differences`. -/
def differences (left right : List (Option Nat)) : Read (List Difference) := do
  if left.length ≠ compactBufferLen || right.length ≠ compactBufferLen then
    refused "wrong payload length".toList
  if left.map Option.isSome ≠ right.map Option.isSome then
    refused "capture masks differ; collect comparable samples".toList
  if left.all Option.isNone then refused "no observed bytes".toList
  return (left.zip right).zipIdx.filterMap fun x => differenceAt x.2 x.1.1 x.1.2

/-- What `main` prints. -/
structure Comparison where
  left : Int
  right : Int
  changes : List Difference
  deriving DecidableEq

/-- `main`, on the bytes of a log. -/
def compareDumps (path : Path) (data : List UInt8) (requested : List Int) : Read Comparison := do
  let captures := (← readLog path data).captures
  let (left, right) ← chooseSequences captures requested
  return ⟨left, right, ← differences (payloadOf captures left) (payloadOf captures right)⟩

/-! ## The choice -/

section Choice

variable {captures : List Dump}

/-- Different sequences, the greatest last. -/
theorem chooseSequences_latest (hnodup : (captures.map Prod.fst).Nodup)
    (h : 2 ≤ captures.length) : ∃ left ∈ captures, ∃ right ∈ captures, left.1 < right.1
      ∧ (∀ dump ∈ captures, dump.1 ≤ left.1 ∨ dump.1 = right.1)
      ∧ chooseSequences captures [] = .ok ((left.1 : Int), (right.1 : Int)) := by
  have hperm := List.mergeSort_perm (captures.map fun dump => (dump.1 : Int)) (· ≤ ·)
  have hsorted : ((captures.map fun dump => (dump.1 : Int)).mergeSort).Pairwise (· ≤ ·) :=
    List.pairwise_mergeSort' (· ≤ ·) _
  have hdistinct : ((captures.map fun dump => (dump.1 : Int)).mergeSort).Nodup := by
    refine hperm.nodup_iff.mpr ?_
    have hmap : captures.map (fun dump => (dump.1 : Int)) = (captures.map Prod.fst).map Nat.cast := by
      rw [List.map_map]
      rfl
    rw [hmap]
    exact hnodup.map Nat.cast_injective
  have hchoose : chooseSequences captures []
      = latestTwo (captures.map fun dump => (dump.1 : Int)).mergeSort := rfl
  rw [hchoose]
  generalize (captures.map fun dump => (dump.1 : Int)).mergeSort = sorted at hperm hsorted hdistinct
  obtain ⟨last, previous, rest, hreverse⟩ :
      ∃ last previous rest, sorted.reverse = last :: previous :: rest := by
    have hlength : 2 ≤ sorted.reverse.length := by
      rw [List.length_reverse, hperm.length_eq, List.length_map]
      exact h
    cases hs : sorted.reverse with
    | nil => rw [hs] at hlength; simp at hlength
    | cons last rest =>
        cases rest with
        | nil => rw [hs] at hlength; simp at hlength
        | cons previous rest => exact ⟨last, previous, rest, rfl⟩
  have hsplit : sorted = rest.reverse ++ [previous, last] := by
    rw [← List.reverse_reverse sorted, hreverse]
    simp
  have hmem : ∀ n ∈ sorted, ∃ dump ∈ captures, (dump.1 : Int) = n := fun n hn =>
    List.mem_map.mp (hperm.mem_iff.mp hn)
  obtain ⟨left, hleft, hl⟩ := hmem previous (by rw [hsplit]; simp)
  obtain ⟨right, hright, hr⟩ := hmem last (by rw [hsplit]; simp)
  have hin : ∀ dump ∈ captures, (dump.1 : Int) ∈ rest.reverse ++ [previous, last] := by
    intro dump hdump
    rw [← hsplit]
    exact hperm.mem_iff.mpr (List.mem_map.mpr ⟨dump, hdump, rfl⟩)
  rw [hsplit, List.pairwise_append] at hsorted
  rw [hsplit, List.nodup_append] at hdistinct
  obtain ⟨-, hpair, hbelow⟩ := hsorted
  have hle : previous ≤ last := by simpa using hpair
  have hne : previous ≠ last := by simpa using hdistinct.2.1
  refine ⟨left, hleft, right, hright, by omega, fun dump hdump => ?_, ?_⟩
  · rcases List.mem_append.mp (hin dump hdump) with hrest | htop
    · have := hbelow _ hrest previous (by simp)
      omega
    · rcases List.mem_cons.mp htop with hprevious | hlast
      · omega
      · have := List.mem_singleton.mp hlast
        omega
  · rw [latestTwo, hreverse, hl, hr]

end Choice

/-! ## The differences -/

/-- The dump at a sequence that is there. -/
theorem find_dump {captures : List Dump} (hnodup : (captures.map Prod.fst).Nodup) {dump : Dump}
    (h : dump ∈ captures) :
    captures.find? (fun other => decide ((other.1 : Int) = (dump.1 : Int))) = some dump := by
  cases hf : captures.find? (fun other => decide ((other.1 : Int) = (dump.1 : Int))) with
  | none => simpa using List.find?_eq_none.mp hf dump h
  | some other =>
      have heq : other.1 = dump.1 := by
        simpa using List.find?_some hf
      rw [List.inj_on_of_nodup_map hnodup (List.mem_of_find?_eq_some hf) h heq]

theorem payloadOf_mem {captures : List Dump} (hnodup : (captures.map Prod.fst).Nodup) {dump : Dump}
    (h : dump ∈ captures) : payloadOf captures dump.1 = dump.2 := by
  rw [payloadOf, find_dump hnodup h]
  rfl

theorem captured_mem {captures : List Dump} {dump : Dump} (h : dump ∈ captures) :
    captured captures dump.1 = true :=
  List.any_eq_true.mpr ⟨dump, h, decide_eq_true rfl⟩

theorem chooseSequences_one (dump : Dump) : chooseSequences [dump] []
    = refused "log must contain at least two captures".toList := by
  show latestTwo [(dump.1 : Int)].mergeSort = _
  rw [List.mergeSort_singleton]
  rfl

theorem chooseSequences_two {captures : List Dump} (first second : Dump) (hfirst : first ∈ captures)
    (hsecond : second ∈ captures) (hne : first.1 ≠ second.1) :
    chooseSequences captures [(first.1 : Int), (second.1 : Int)]
      = .ok ((first.1 : Int), (second.1 : Int)) := by
  have hne' : ¬ (first.1 : Int) = (second.1 : Int) := by omega
  have hfound : ¬ ([(first.1 : Int), (second.1 : Int)].any
      fun sequence => !captured captures sequence) = true := by
    simp [captured_mem hfirst, captured_mem hsecond]
  have hasked : [(first.1 : Int), (second.1 : Int)] ≠ [] := List.cons_ne_nil _ _
  rw [chooseSequences, if_pos hasked, if_neg hne', if_neg hfound]

/-- The configured offsets at which two buffers differ, with their bytes. -/
def changedBytes (offsets : List UInt8) (first second : Capture) : List Difference :=
  (List.finRange compactBufferLen).filterMap fun i =>
    if UInt8.ofNat i.val ∈ offsets ∧ first.bytes.get i ≠ second.bytes.get i then
      some ⟨i.val, (first.bytes.get i).toNat, (second.bytes.get i).toNat,
        (first.bytes.get i).toNat ^^^ (second.bytes.get i).toNat⟩
    else none

theorem finRange_zipIdx (n : Nat) :
    (List.finRange n).zipIdx = (List.finRange n).map fun i => (i, i.val) := by
  refine List.ext_getElem (by simp) fun i hi hi' => ?_
  simp

/-- The shown bytes of two buffers differ where the buffers do. -/
theorem differences_shown {offsets : List UInt8} (hne : offsets ≠ [])
    (hlt : ∀ o ∈ offsets, o.toNat < compactBufferLen) (first second : Capture) :
    differences (shownBytes offsets first) (shownBytes offsets second)
      = .ok (changedBytes offsets first second) := by
  have hlength (capture : Capture) : (shownBytes offsets capture).length = compactBufferLen := by
    rw [shownBytes, List.length_map, List.length_finRange]
  have hmask (capture : Capture) : (shownBytes offsets capture).map Option.isSome
      = (List.finRange compactBufferLen).map fun i => decide (UInt8.ofNat i.val ∈ offsets) := by
    rw [shownBytes, List.map_map]
    refine List.map_congr_left fun i _ => ?_
    by_cases hi : UInt8.ofNat i.val ∈ offsets
    · simp [hi]
    · simp [hi]
  have hobserved : ¬ (shownBytes offsets first).all Option.isNone = true := by
    obtain ⟨o, ho⟩ := List.exists_mem_of_ne_nil offsets hne
    intro hall
    have hnone := List.all_eq_true.mp hall _
      (List.mem_map_of_mem (List.mem_finRange (⟨o.toNat, hlt o ho⟩ : Fin compactBufferLen)))
    rw [UInt8.ofNat_toNat, if_pos ho] at hnone
    cases hnone
  have hcheck : ¬ ((decide ((shownBytes offsets first).length ≠ compactBufferLen)
      || decide ((shownBytes offsets second).length ≠ compactBufferLen)) = true) := by
    simp [hlength]
  rw [differences, if_neg hcheck, if_neg (by rw [hmask, hmask]; exact not_not.mpr rfl),
    if_neg hobserved]
  refine congrArg Except.ok ?_
  rw [shownBytes, shownBytes, List.zip_map', List.zipIdx_map, finRange_zipIdx, List.map_map,
    List.filterMap_map, changedBytes]
  refine List.filterMap_congr fun i _ => ?_
  show differenceAt i.val (if UInt8.ofNat i.val ∈ offsets then some _ else none)
    (if UInt8.ofNat i.val ∈ offsets then some _ else none) = _
  by_cases hi : UInt8.ofNat i.val ∈ offsets
  · rw [if_pos hi, if_pos hi, differenceAt]
    by_cases hsame : first.bytes.get i = second.bytes.get i
    · rw [if_neg (fun h => h (congrArg UInt8.toNat hsame)), if_neg (fun h => h.2 hsame)]
    · rw [if_pos (fun h => hsame (UInt8.toNat_inj.mp h)), if_pos ⟨hi, hsame⟩]
  · rw [if_neg hi, if_neg hi, if_neg (fun h => hi h.1)]
    rfl

end TeamAttack.LogReaders

namespace TeamAttack.Recorder

open Runs Hoare RustStr LogReaders ExceptRules Install

/-- The dumps of a log, as `read_log` holds them. -/
def dumpsOf (offsets : List UInt8) (captures : List Capture) : List Dump :=
  captures.map fun capture => (capture.sequence, shownBytes offsets capture)

theorem dumpsOf_nodup (offsets : List UInt8) {captures : List Capture}
    (h : (captures.map Capture.sequence).Nodup) :
    ((dumpsOf offsets captures).map Prod.fst).Nodup := by
  have hmap : (dumpsOf offsets captures).map Prod.fst = captures.map Capture.sequence := by
    rw [dumpsOf, List.map_map]
    rfl
  rwa [hmap]

/-- Two dumps of a log, compared. -/
theorem compare_chosen {path : Path} {data : List UInt8} {metadata : List Field}
    {offsets : List UInt8} {captures : List Capture} {requested : List Int}
    (hread : readLog path data = .ok ⟨metadata, dumpsOf offsets captures⟩)
    (hnodup : (captures.map Capture.sequence).Nodup) (hne : offsets ≠ [])
    (hlt : ∀ o ∈ offsets, o.toNat < compactBufferLen) {first second : Capture}
    (hfirst : first ∈ captures) (hsecond : second ∈ captures)
    (hchoice : chooseSequences (dumpsOf offsets captures) requested
      = .ok ((first.sequence : Int), (second.sequence : Int))) :
    compareDumps path data requested
      = .ok ⟨first.sequence, second.sequence, changedBytes offsets first second⟩ := by
  have hpayload : ∀ capture ∈ captures,
      payloadOf (dumpsOf offsets captures) capture.sequence = shownBytes offsets capture :=
    fun capture hmem => payloadOf_mem (dumpsOf_nodup offsets hnodup)
      (List.mem_map_of_mem (f := fun capture => (capture.sequence, shownBytes offsets capture)) hmem)
  rw [compareDumps, hread]
  show (chooseSequences (dumpsOf offsets captures) requested >>= fun chosen => _) = _
  rw [hchoice, bind_ok, hpayload first hfirst, hpayload second hsecond,
    differences_shown hne hlt]
  rfl

/-- **A session's dumps compared.**  Whatever the callbacks and the writer
    thread did after `prepare`: of a log without a dump nothing is compared, of
    one with a single dump nothing by default; of two dumps asked for, and by
    default of the two latest, exactly the configured offsets at which the
    captured buffers differ are listed, with their bytes. -/
theorem comparison_of_session (env : Env) (config : Config)
    (addresses : Option (UInt64 × UInt64)) (b : Boot)
    (hload : Config.load env.configFile = .ok (some config))
    (hprepare : outcome (prepare env config) Boot.start = (.ok addresses, b)) :
    ∃ log, b.log = some log ∧ ∀ (path : Path) (P : Type) [DecidableEq P] (source : P → Source)
      (h : List (Event P)) (x : Recording P),
      Run (Recording.Step source config env.startTick) (.start P log env.startTick) h x →
      x.recorder.counters (.calls .serializer) < 2 ^ 64 →
      (bytes x.log.written).length ≤ maxLogBytes →
      (linesOf .compact h = [] → ∀ requested,
        compareDumps path (bytes x.log.written) requested = failed path "no captures".toList)
      ∧ ((linesOf .compact h).length = 1 → compareDumps path (bytes x.log.written) []
        = refused "log must contain at least two captures".toList)
      ∧ (∀ first ∈ linesOf .compact h, ∀ second ∈ linesOf .compact h,
        first.sequence ≠ second.sequence →
        compareDumps path (bytes x.log.written) [(first.sequence : Int), (second.sequence : Int)]
          = .ok ⟨first.sequence, second.sequence,
            changedBytes config.captureOffsets first second⟩)
      ∧ (2 ≤ (linesOf .compact h).length → ∃ first ∈ linesOf .compact h,
        ∃ second ∈ linesOf .compact h, first.sequence < second.sequence
        ∧ (∀ other ∈ linesOf .compact h,
          other.sequence ≤ first.sequence ∨ other.sequence = second.sequence)
        ∧ compareDumps path (bytes x.log.written) []
          = .ok ⟨first.sequence, second.sequence,
            changedBytes config.captureOffsets first second⟩) := by
  obtain ⟨log, hlog, hfiles⟩ := session_file hload hprepare
  refine ⟨log, hlog, fun path P _ source h x hrun hcalls hsize => ?_⟩
  obtain ⟨mask, ops, hfile⟩ := hfiles P source h x hrun hcalls
  have hread := hfile.readLog path hsize
  have hnodup := lines_nodup (recorder_run hrun) .compact
  refine ⟨fun hnone requested => ?_, fun hone => ?_, fun first hfirst second hsecond hne => ?_,
    fun htwo => ?_⟩
  · rw [if_pos hnone] at hread
    rw [compareDumps, hread]
    rfl
  · have hne : linesOf .compact h ≠ [] := List.ne_nil_of_length_pos (by omega)
    rw [if_neg hne] at hread
    obtain ⟨capture, honly⟩ := List.length_eq_one_iff.mp hone
    rw [compareDumps, hread, honly, bind_ok]
    exact congrArg (· >>= _) (chooseSequences_one _)
  · rw [if_neg (List.ne_nil_of_mem hfirst)] at hread
    exact compare_chosen hread hnodup hfile.offsets_ne hfile.offsets_lt hfirst hsecond
      (chooseSequences_two (first.sequence, shownBytes config.captureOffsets first)
        (second.sequence, shownBytes config.captureOffsets second)
        (List.mem_map_of_mem hfirst) (List.mem_map_of_mem hsecond) hne)
  · rw [if_neg (List.ne_nil_of_length_pos (by omega))] at hread
    obtain ⟨left, hleft, right, hright, hlt, hlatest, hchoice⟩ :=
      chooseSequences_latest (dumpsOf_nodup config.captureOffsets hnodup)
        (by rwa [dumpsOf, List.length_map])
    obtain ⟨first, hfirst, rfl⟩ := List.mem_map.mp hleft
    obtain ⟨second, hsecond, rfl⟩ := List.mem_map.mp hright
    exact ⟨first, hfirst, second, hsecond, hlt,
      fun other hother => hlatest _ (List.mem_map_of_mem hother),
      compare_chosen hread hnodup hfile.offsets_ne hfile.offsets_lt hfirst hsecond hchoice⟩

/-- The two latest of three dumps differ in their one configured byte. -/
theorem comparison_of_session_scene : ∃ x : Recording Setting,
    compareDumps ⟨[], []⟩ (bytes x.log.written) [] = .ok ⟨1, 2, [⟨0x11, 1, 0, 1⟩]⟩
      ∧ compareDumps ⟨[], []⟩ (bytes x.log.written) [0, 2] = .ok ⟨0, 2, []⟩ := by
  obtain ⟨addresses, b, hprepare, hlog⟩ := watch_prepares
  obtain ⟨log, hlog', hcompare⟩ :=
    comparison_of_session watchEnv watchConfig addresses b watch_loads hprepare
  obtain rfl := Option.some.inj (hlog'.symm.trans hlog)
  obtain ⟨h, x, hexec, hsize, hcalls, hlines, -⟩ := session_scene
  obtain ⟨-, -, hchosen, hlatest⟩ :=
    hcompare ⟨[], []⟩ Setting _ h x (run_of_exec hexec) hcalls hsize
  rw [hlines] at hchosen hlatest
  refine ⟨x, ?_, ?_⟩
  · obtain ⟨first, hfirst, second, hsecond, hlt, hothers, hcompared⟩ := hlatest (by decide)
    have hpair : ∀ first ∈ dumpCaptures, ∀ second ∈ dumpCaptures,
        first.sequence < second.sequence →
        (∀ other ∈ dumpCaptures, other.sequence ≤ first.sequence
          ∨ other.sequence = second.sequence) →
        first = ⟨1, (dumpSupply 1).buffer⟩ ∧ second = ⟨2, (dumpSupply 0).buffer⟩ := by
      decide +kernel
    obtain ⟨rfl, rfl⟩ := hpair first hfirst second hsecond hlt hothers
    rw [hcompared]
    decide +kernel
  · have hzero : (⟨0, (dumpSupply 0).buffer⟩ : Capture) ∈ dumpCaptures := by decide
    have htwo : (⟨2, (dumpSupply 0).buffer⟩ : Capture) ∈ dumpCaptures := by decide
    exact (hchosen _ hzero _ htwo (by decide)).trans (by decide +kernel)

end TeamAttack.Recorder
