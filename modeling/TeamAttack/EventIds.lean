import TeamAttack.OwnerReview
import TeamAttack.ProbeAccounts

/-! # The identifiers of the event lines

    The sequence a drain prints names the bank and the slot it took the event
    from.  Every slot is taken once, so no identifier is printed twice, and
    the checks `tools/review_rule_messages_025.py` makes of the identifiers
    hold for every log (`lines_identified`). -/

namespace TeamAttack

open RustStr HexText PyStr PyDict

/-! ## The reviewer -/

namespace RuleReview

/-- `kinds`. -/
def kinds : List Str :=
  ["local_copy".toList, "participant_copy".toList, "selection_ready".toList,
    "apply_before".toList, "apply_after".toList, "rule_submit".toList,
    "rule_receive_before".toList, "rule_receive_team_stored".toList]

/-- `dict(item.split(":", 1) for item in rest.split())`. -/
def rowOf? (rest : Str) : Option (List Field) := do
  let items ← (split rest).mapM (splitOnce? ':')
  return ofItems items

/-- `rows(name)`, over the lines of a log. -/
def rows? (name : Str) (lines : List Str) : Option (List (List Field)) :=
  (lines.filterMap (literal? ("# ".toList ++ name ++ ": ".toList))).mapM rowOf?

/-- `int(e[key])`, of a value in decimal digits. -/
def intAt? (e : List Field) (key : Str) : Option Nat := (e.lookup key).bind int?

/-- `sorted(rows, key=lambda e: int(e["elapsed_ticks"]))`. -/
def byTicks? (rows : List (List Field)) : Option (List (List Field)) := do
  let keyed ← rows.mapM fun e => (intAt? e "elapsed_ticks".toList).map fun ticks => (ticks, e)
  return (keyed.mergeSort fun a b => a.1 ≤ b.1).map Prod.snd

/-- `application_sequence_unique`. -/
def applicationSequenceUnique? (app : List (List Field)) : Option Bool := do
  let sequences ← app.mapM (List.lookup "sequence".toList)
  return sequences.dedup.length = app.length

/-- `tick_ms_consistent`. -/
def tickMsConsistent? (app : List (List Field)) : Option Bool := do
  let checks ← app.mapM fun e => do
    let ticks ← intAt? e "elapsed_ticks".toList
    let ms ← intAt? e "elapsed_ms".toList
    return decide (ticks / 19200 = ms)
  return checks.all id

/-- `bank_ids_consistent`. -/
def bankIdsConsistent? (app : List (List Field)) : Option Bool := do
  let checks ← app.mapM fun e => do
    let sequence ← intAt? e "sequence".toList
    let name ← e.lookup "kind".toList
    let kind ← kinds.idxOf? name
    let mode ← e.lookup "mode".toList
    return decide (sequence / 64 = kind + if mode = "07010102".toList then 8 else 0)
  return checks.all id

/-- The three checks of the identifiers pass. -/
def Passes (app : List (List Field)) : Prop :=
  applicationSequenceUnique? app = some true ∧ tickMsConsistent? app = some true
    ∧ bankIdsConsistent? app = some true

theorem mapM_some {α β : Type} {f : α → Option β} {g : α → β} {l : List α}
    (h : ∀ x ∈ l, f x = some (g x)) : l.mapM f = some (l.map g) := by
  induction l with
  | nil => rfl
  | cons x l ih =>
      rw [List.forall_mem_cons] at h
      rw [List.mapM_cons, h.1, ih h.2]
      rfl

theorem mapM_filterMap {α β γ : Type} {f : α → Option β} {g : β → Option γ} {k : α → γ}
    {l : List α} (h : ∀ x ∈ l, (f x).bind g = some (k x)) :
    (l.filterMap f).mapM g = some (l.map k) := by
  induction l with
  | nil => rfl
  | cons x l ih =>
      rw [List.forall_mem_cons] at h
      obtain ⟨y, hy, hg⟩ := Option.bind_eq_some_iff.mp h.1
      rw [List.filterMap_cons_some hy, List.mapM_cons, hg, ih h.2]
      rfl

/-- A check of every row passes when each row passes it. -/
theorem all_mapM {app : List (List Field)} {f : List Field → Option Bool}
    (h : ∀ e ∈ app, f e = some true) :
    (do let checks ← app.mapM f; return checks.all id : Option Bool) = some true := by
  rw [mapM_some (g := fun _ => true) h]
  refine congrArg some (List.all_eq_true.mpr fun b hb => ?_)
  obtain ⟨e, -, rfl⟩ := List.mem_map.mp hb
  rfl

end RuleReview

/-! ## The lines of a run -/

namespace ProbeSchedule

open Runs CaptureSchedule ApplicationProbe RuleReview
open Application (siteCount bankLimit coopMode)

variable {P D : Type} {call : P → Call} {t t' : State P D} {es h : List (Effect P D)}

/-- A bank and a slot below the limit are read off their identifier. -/
theorem sequence_inj {b b' : Bank} {i i' : Index} (hi : i.val < bankLimit)
    (hi' : i'.val < bankLimit)
    (h : b.val * bankLimit + i.val = b'.val * bankLimit + i'.val) : b = b' ∧ i = i' := by
  have hlimit : bankLimit = 64 := rfl
  rw [hlimit] at h hi hi'
  exact ⟨Fin.ext (by omega), Fin.ext (by omega)⟩

section Sources

variable [DecidableEq P] [DecidableEq D]

/-- Where a capture in a consumer's hands comes from: the one callback that
    filled the slot. -/
theorem capture_source (hrun : Run (Step call) (State.start P D) h t) {b : Bank} {d : D}
    {i : Index} {p : P} {v : Payload} {board : OnceBoard.Board captureCapacity P (D × Nat) Payload}
    (hR : Refines Prod.snd (t.banks b) board) {k : Nat} (hcell : board.cell i = .taken p v (d, k)) :
    k = i.val ∧ i.val < bankLimit ∧ (t.banks b).store.slots i = ⟨.consumed, some ⟨i, v⟩⟩
      ∧ .reserved p b i ∈ h
      ∧ ∃ e : Application.Event, v = e.encode ∧ .sampled p e ∈ h
        ∧ e.kind = UInt8.ofNat (call p).kind.val ∧ b = bank (call p).kind e.mode := by
  have hmatch := hR.cells i
  rw [hcell] at hmatch
  obtain ⟨hslot, hcaptured, hindex, -⟩ := hmatch
  obtain ⟨hb, hbank⟩ := bank_run hrun b
  have hnoted := noted_run hrun
  exact ⟨hindex, target_lt_limit hbank (by rw [hcaptured]; rfl), hslot,
    (hnoted.reserved p b i).mpr (by rw [hcaptured]; rfl),
    hnoted.bytes p b v (by rw [hcaptured]; rfl)⟩

/-- **Every line prints the event one callback recorded**, under the
    identifier of its slot. -/
theorem line_source (hrun : Run (Step call) (State.start P D) h t) {l : EventLine}
    (hl : l ∈ linesOf h) : ∃ p b, ∃ i : Index, i.val < bankLimit
      ∧ l.sequence = b.val * bankLimit + i.val ∧ .reserved p b i ∈ h ∧ .sampled p l.event ∈ h
      ∧ l.event.kind = UInt8.ofNat (call p).kind.val ∧ b = bank (call p).kind l.event.mode := by
  obtain ⟨d, hd⟩ := mem_linesOf.mp hl
  obtain ⟨b, k, capture, htaking, rfl⟩ := (drains_run hrun).line d l hd
  obtain ⟨hb, hbank⟩ := bank_run hrun b
  obtain ⟨board, -, hR⟩ := refines_run hbank
  have hconsumer := hR.consumers (d, k)
  rw [htaking] at hconsumer
  obtain ⟨i, p, v, rfl, hcell⟩ := hconsumer
  obtain ⟨-, hlimit, -, hreserved, e, rfl, hsampled, hkind, hbank'⟩ :=
    capture_source hrun hR hcell
  have hevent : (eventLine b ⟨i, e.encode⟩).event = e := decode_encode e
  rw [hevent]
  exact ⟨p, b, i, hlimit, rfl, hreserved, hsampled, hkind, hbank'⟩

/-- A slot is reserved by one callback. -/
theorem reserved_unique (hrun : Run (Step call) (State.start P D) h t) {p q : P} {b : Bank}
    {i : Index} (hp : .reserved p b i ∈ h) (hq : .reserved q b i ∈ h) : p = q := by
  obtain ⟨hb, hbank⟩ := bank_run hrun b
  obtain ⟨board, -, hR⟩ := refines_run hbank
  have howner := (hR.producers p).owner (((noted_run hrun).reserved p b i).mp hp)
  have howner' := (hR.producers q).owner (((noted_run hrun).reserved q b i).mp hq)
  exact Option.some.inj (howner.symm.trans howner')

/-- A reserved slot lies below the limit of its bank. -/
theorem reserved_lt_limit (hrun : Run (Step call) (State.start P D) h t) {p : P} {b : Bank}
    {i : Index} (hreserved : .reserved p b i ∈ h) : i.val < bankLimit := by
  obtain ⟨hb, hbank⟩ := bank_run hrun b
  have hcell := ((noted_run hrun).reserved p b i).mp hreserved
  refine target_lt_limit hbank (p := p) ?_
  cases hpc : (t.banks b).producing p with
  | fill | publish | captured =>
      rw [hpc] at hcell
      exact hcell
  | load | exchange | dropped =>
      rw [hpc] at hcell
      cases hcell

/-- The line a drain is about to write has a new identifier. -/
theorem fresh_line (hrun : Run (Step call) (State.start P D) h t) {d : D} {b : Bank} {k : Nat}
    {j : Index} {capture : Capture} (htaking : (t.banks b).taking (d, k) = .read j)
    (hvalue : ((t.banks b).store.slots j).value = some capture) {l : EventLine}
    (hl : l ∈ linesOf h) : l.sequence ≠ (eventLine b capture).sequence := by
  obtain ⟨hb, hbank⟩ := bank_run hrun b
  obtain ⟨board, -, hR⟩ := refines_run hbank
  have hconsumer := hR.consumers (d, k)
  rw [htaking] at hconsumer
  obtain ⟨p, v, hcell⟩ := hconsumer
  obtain ⟨-, hlimit, hslot, -⟩ := capture_source hrun hR hcell
  obtain rfl : (⟨j, v⟩ : Capture) = capture := by
    rw [hslot] at hvalue
    exact Option.some.inj hvalue
  -- the slot of an earlier line is in the hands of a drain that has read it
  obtain ⟨d', hd'⟩ := mem_linesOf.mp hl
  obtain ⟨b', k', capture', htaking', rfl⟩ := (drains_run hrun).line d' l hd'
  obtain ⟨hb', hbank'⟩ := bank_run hrun b'
  obtain ⟨board', -, hR'⟩ := refines_run hbank'
  have hconsumer' := hR'.consumers (d', k')
  rw [htaking'] at hconsumer'
  obtain ⟨i, q, w, rfl, hcell'⟩ := hconsumer'
  obtain ⟨-, hlimit', -⟩ := capture_source hrun hR' hcell'
  intro hsequence
  obtain ⟨rfl, rfl⟩ := sequence_inj hlimit' hlimit hsequence
  have hmatch := hR.cells i
  have hread := hR'.consumers (d, k)
  rw [htaking] at hread
  obtain ⟨p', v', hcell''⟩ := hread
  rw [hcell'] at hcell''
  cases hcell''
  cases htaking.symm.trans htaking'

/-- **No identifier is printed twice.** -/
theorem sequences_nodup (hrun : Run (Step call) (State.start P D) h t) :
    ((linesOf h).map EventLine.sequence).Nodup := by
  have hboth := hrun.history (I := fun h t => Run (Step call) (State.start P D) h t
    ∧ ((linesOf h).map EventLine.sequence).Nodup) ⟨.refl _, List.nodup_nil⟩
    (fun h t es t' ⟨hrun, ih⟩ hs => ⟨hrun.tail hs, ?_⟩)
  · exact hboth.2
  -- a step that prints nothing keeps the lines
  have hquiet : linesOf es = [] → ((linesOf (h ++ es)).map EventLine.sequence).Nodup := by
    intro hes
    rw [linesOf, List.filterMap_append]
    show ((linesOf h ++ linesOf es).map EventLine.sequence).Nodup
    rw [hes, List.append_nil]
    exact ih
  rcases step_cases hs with ⟨p, hp⟩ | ⟨d, hd⟩ | ⟨rfl, active, startTick, rfl⟩
  · refine hquiet (List.eq_nil_iff_forall_not_mem.mpr fun l hl => ?_)
    obtain ⟨d, hd⟩ := mem_linesOf.mp hl
    exact hp.drains.2.2 d l hd
  · cases hd with
    | finish | visit | fail => exact hquiet rfl
    | line b i rest j capture hdraining htaking hvalue =>
        have hsplit : linesOf (h ++ [.line d (eventLine b capture)])
            = linesOf h ++ [eventLine b capture] := List.filterMap_append
        rw [hsplit, List.map_append]
        refine List.nodup_append.mpr ⟨ih, List.nodup_singleton _, fun s hs s' hs' => ?_⟩
        obtain ⟨l, hl, rfl⟩ := List.mem_map.mp hs
        rw [List.mem_singleton.mp hs']
        exact fresh_line hrun htaking hvalue hl
  · exact hquiet rfl

end Sources

/-! ## What the reviewer computes -/

/-- The fields of a line, as the reviewer reads them back. -/
def lineFields (l : EventLine) : List Field := l.event.fields l.sequence

theorem intAt?_fields (l : EventLine) (i : Nat) {key : Str} {n : Nat} (hn : n < 2 ^ 64)
    (h : (lineFields l)[i]? = some (key, decimal n)) : intAt? (lineFields l) key = some n := by
  have hlookup : (lineFields l).lookup key = some (decimal n) :=
    OwnerReview.fields_lookup l.event l.sequence i h
  rw [intAt?, hlookup]
  exact int?_decimal_word hn

/-- The mode field is the co-op mode's digits exactly for that mode. -/
theorem mode_text (mode : UInt32) :
    hexUpper 8 mode.toNat = "07010102".toList ↔ mode = coopMode := by
  constructor
  · intro htext
    have hnumber := congrArg hexNumber htext
    rw [hexNumber_hexUpper] at hnumber
    exact UInt32.toNat_inj.mp (hnumber.trans (by decide))
  · rintro rfl
    decide

/-- What a printed line says of itself. -/
structure Consistent (l : EventLine) : Prop where
  range : l.sequence < 1024
  kind : l.event.kind.toNat < 8
  bank : l.sequence / 64
    = l.event.kind.toNat + if hexUpper 8 l.event.mode.toNat = "07010102".toList then 8 else 0

theorem bankCheck {l : EventLine} (hl : Consistent l) :
    (do let sequence ← intAt? (lineFields l) "sequence".toList
        let name ← (lineFields l).lookup "kind".toList
        let kind ← RuleReview.kinds.idxOf? name
        let mode ← (lineFields l).lookup "mode".toList
        return decide (sequence / 64 = kind + if mode = "07010102".toList then 8 else 0)
      : Option Bool) = some true := by
  have hsequence : intAt? (lineFields l) "sequence".toList = some l.sequence :=
    intAt?_fields l 0 (Nat.lt_trans hl.range (by decide)) rfl
  have hname : (lineFields l).lookup "kind".toList
      = some ((Application.names[l.event.kind.toNat]?).getD "invalid".toList) :=
    OwnerReview.fields_lookup l.event l.sequence 3 rfl
  have hmode : (lineFields l).lookup "mode".toList = some (hexUpper 8 l.event.mode.toNat) :=
    OwnerReview.fields_lookup l.event l.sequence 4 rfl
  have hkind : RuleReview.kinds.idxOf?
      ((Application.names[l.event.kind.toNat]?).getD "invalid".toList)
        = some l.event.kind.toNat := by
    have hall : ∀ n : Fin 8, RuleReview.kinds.idxOf?
        ((Application.names[n.val]?).getD "invalid".toList) = some n.val := by decide
    exact hall ⟨_, hl.kind⟩
  simp only [hsequence, hname, hkind, hmode, Option.bind_eq_bind, Option.bind_some]
  exact congrArg some (decide_eq_true hl.bank)

theorem tickCheck (l : EventLine) :
    (do let ticks ← intAt? (lineFields l) "elapsed_ticks".toList
        let ms ← intAt? (lineFields l) "elapsed_ms".toList
        return decide (ticks / 19200 = ms) : Option Bool) = some true := by
  have hticks : intAt? (lineFields l) "elapsed_ticks".toList = some l.event.elapsedTicks.toNat :=
    intAt?_fields l 2 (UInt64.toNat_lt _) rfl
  have hms : intAt? (lineFields l) "elapsed_ms".toList
      = some (l.event.elapsedTicks / 19200).toNat := intAt?_fields l 1 (UInt64.toNat_lt _) rfl
  simp only [hticks, hms, Option.bind_eq_bind, Option.bind_some]
  refine congrArg some (decide_eq_true ?_)
  rw [UInt64.toNat_div]
  rfl

/-- **The reviewer's checks hold of rows in any order.** -/
theorem passes_of_perm {ls : List EventLine} (hunique : (ls.map EventLine.sequence).Nodup)
    (hls : ∀ l ∈ ls, Consistent l) {app : List (List Field)}
    (hperm : app.Perm (ls.map lineFields)) : Passes app := by
  have hrow : ∀ e ∈ app, ∃ l ∈ ls, e = lineFields l := by
    intro e he
    obtain ⟨l, hl, rfl⟩ := List.mem_map.mp (hperm.mem_iff.mp he)
    exact ⟨l, hl, rfl⟩
  refine ⟨?_, ?_, ?_⟩
  -- the identifiers are counted as texts, and `decimal` is injective
  · have hlookup : ∀ e ∈ app, e.lookup "sequence".toList
        = some ((e.lookup "sequence".toList).getD []) := by
      intro e he
      obtain ⟨l, -, rfl⟩ := hrow e he
      have := OwnerReview.fields_lookup l.event l.sequence 0 rfl
      exact this.trans (congrArg (fun o : Option Str => some (o.getD [])) this).symm
    rw [applicationSequenceUnique?, mapM_some hlookup]
    refine congrArg some (decide_eq_true ?_)
    have hsequences : (app.map fun e : List Field => (e.lookup "sequence".toList).getD []).Perm
        (ls.map fun l => decimal l.sequence) := by
      refine (hperm.map _).trans (List.Perm.of_eq ?_)
      rw [List.map_map]
      refine List.map_congr_left fun l _ => ?_
      exact congrArg (fun o : Option Str => o.getD [])
        (OwnerReview.fields_lookup l.event l.sequence 0 rfl)
    have hnodup : (ls.map fun l => decimal l.sequence).Nodup := by
      have := hunique.map (f := decimal) fun a b hab => by
        rw [← OwnerReview.number_decimal a, hab, OwnerReview.number_decimal]
      rwa [List.map_map] at this
    rw [(hsequences.nodup_iff.mpr hnodup).dedup, List.length_map]
  · refine all_mapM fun e he => ?_
    obtain ⟨l, -, rfl⟩ := hrow e he
    exact tickCheck l
  · refine all_mapM fun e he => ?_
    obtain ⟨l, hl, rfl⟩ := hrow e he
    exact bankCheck (hls l hl)

/-- The rows of the lines, sorted by their ticks. -/
def sortedRows (ls : List EventLine) : List (List Field) :=
  ((ls.map fun l => (l.event.elapsedTicks.toNat, lineFields l)).mergeSort
    fun a b => a.1 ≤ b.1).map Prod.snd

theorem sorted_perm (ls : List EventLine) : (sortedRows ls).Perm (ls.map lineFields) := by
  refine ((List.mergeSort_perm _ _).map Prod.snd).trans (List.Perm.of_eq ?_)
  rw [List.map_map]
  rfl

theorem byTicks?_lines (ls : List EventLine) :
    byTicks? (ls.map lineFields) = some (sortedRows ls) := by
  have hkeyed : (ls.map lineFields).mapM (fun e =>
      (intAt? e "elapsed_ticks".toList).map fun ticks => (ticks, e))
      = some (ls.map fun l => (l.event.elapsedTicks.toNat, lineFields l)) := by
    rw [List.mapM_map]
    refine mapM_some fun l _ => ?_
    show (intAt? (lineFields l) "elapsed_ticks".toList).map _ = _
    rw [intAt?_fields l 2 (UInt64.toNat_lt _) rfl]
    rfl
  rw [byTicks?, hkeyed]
  rfl

/-- The reviewer reads the event lines of a log back. -/
theorem rows?_lines {ls : List EventLine} {lines : List Str}
    (hlines : lines.filter (startsWith · OwnerReview.eventPrefix)
      = ls.map fun l => "# ".toList ++ l.text) :
    rows? "application_event".toList lines = some (ls.map lineFields) := by
  have hline : ∀ l : EventLine, (literal? OwnerReview.eventPrefix ("# ".toList ++ l.text)).bind
      rowOf? = some (lineFields l) := fun l => OwnerReview.eventOf?_line l.event l.sequence
  have hfound : lines.filterMap (literal? OwnerReview.eventPrefix)
      = (ls.map fun l => "# ".toList ++ l.text).filterMap (literal? OwnerReview.eventPrefix) := by
    rw [← hlines, List.filterMap_filter]
    refine List.filterMap_congr fun line _ => ?_
    rw [startsWith]
    cases literal? OwnerReview.eventPrefix line <;> rfl
  show (lines.filterMap (literal? OwnerReview.eventPrefix)).mapM rowOf? = _
  rw [hfound, List.filterMap_map]
  exact mapM_filterMap fun l _ => hline l

/-! ## Every log -/

/-- What holds of the event lines of a run, and of every log they are in. -/
structure Identified (call : P → Call) (h : List (Effect P D)) : Prop where
  unique : ((linesOf h).map EventLine.sequence).Nodup
  consistent : ∀ l ∈ linesOf h, Consistent l
  elapsed : ∀ l ∈ linesOf h, (lineFields l).lookup "elapsed_ticks".toList
      = some (decimal l.event.elapsedTicks.toNat)
    ∧ (lineFields l).lookup "elapsed_ms".toList
      = some (decimal (l.event.elapsedTicks.toNat / 19200))
  recorded : ∀ l ∈ linesOf h, ∃! p, .sampled p l.event ∈ h ∧ ∃ b : Bank, ∃ i : Index,
    .reserved p b i ∈ h ∧ l.sequence = b.val * bankLimit + i.val
      ∧ l.event.kind = UInt8.ofNat (call p).kind.val
  sampledOnce : ∀ p e e', .sampled p e ∈ h → .sampled p e' ∈ h → e = e'
  review : ∀ lines : List Str, lines.filter (startsWith · OwnerReview.eventPrefix)
      = (linesOf h).map (fun l => "# ".toList ++ l.text) →
    ∃ rows app, rows? "application_event".toList lines = some rows
      ∧ rows = (linesOf h).map lineFields ∧ byTicks? rows = some app
      ∧ app.length = (linesOf h).length ∧ Passes app

/-- The identifier of a line names the bank of its event. -/
theorem line_consistent [DecidableEq P] [DecidableEq D] {call : P → Call} {t : State P D}
    {h : List (Effect P D)} (hrun : Run (Step call) (State.start P D) h t) {l : EventLine}
    (hl : l ∈ linesOf h) : Consistent l := by
  obtain ⟨p, b, i, hlimit, hsequence, -, -, hkind, hbank⟩ := line_source hrun hl
  have hlt : i.val < 64 := hlimit
  have hkindval : l.event.kind.toNat = (call p).kind.val := by
    have hsmall : (call p).kind.val < 8 := (call p).kind.isLt
    rw [hkind, UInt8.toNat_ofNat', Nat.mod_eq_of_lt (by omega)]
  have hbankval := congrArg Fin.val hbank
  rw [bank_val] at hbankval
  have hsequence' : l.sequence = b.val * 64 + i.val := hsequence
  refine ⟨?_, ?_, ?_⟩
  · have hb : b.val < 16 := b.isLt
    omega
  · rw [hkindval]
    exact (call p).kind.isLt
  · rw [hkindval, if_congr (mode_text l.event.mode) rfl rfl, ← hbankval]
    omega

/-- **The identifiers of the event lines are unique and name their bank.** -/
theorem lines_identified {P D : Type} [DecidableEq P] [DecidableEq D] (call : P → Call)
    (h : List (Effect P D)) (t : State P D) (hrun : Run (Step call) (State.start P D) h t) :
    Identified call h := by
  have hunique := sequences_nodup hrun
  have hconsistent : ∀ l ∈ linesOf h, Consistent l := fun l hl => line_consistent hrun hl
  refine ⟨hunique, hconsistent, fun l hl => ⟨?_, ?_⟩, fun l hl => ?_,
    fun p e e' => sampled_unique hrun, fun lines hlines => ?_⟩
  · exact OwnerReview.fields_lookup l.event l.sequence 2 rfl
  · have hms : (lineFields l).lookup "elapsed_ms".toList
        = some (decimal (l.event.elapsedTicks / 19200).toNat) :=
      OwnerReview.fields_lookup l.event l.sequence 1 rfl
    rw [hms, UInt64.toNat_div]
    rfl
  · obtain ⟨p, b, i, hlimit, hsequence, hreserved, hsampled, hkind, -⟩ := line_source hrun hl
    refine ⟨p, ⟨hsampled, b, i, hreserved, hsequence, hkind⟩, ?_⟩
    rintro q ⟨-, b', i', hreserved', hsequence', -⟩
    -- the same identifier is the same slot, and a slot has one callback
    obtain ⟨rfl, rfl⟩ := sequence_inj (reserved_lt_limit hrun hreserved') hlimit
      (hsequence'.symm.trans hsequence)
    exact reserved_unique hrun hreserved' hreserved
  · refine ⟨_, _, rows?_lines hlines, rfl, byTicks?_lines _, ?_, ?_⟩
    · rw [(sorted_perm _).length_eq, List.length_map]
    · exact passes_of_perm hunique hconsistent (sorted_perm _)

/-- Both callbacks run to their end, and a drain takes their events. -/
def twoLines : List (Move Bool Unit) := twoCallbacks ++ List.replicate 4 (.drain () true)

theorem lines_identified_two_lines : ∃ h t,
    Run (Step localCall) (State.start Bool Unit) h t ∧ (linesOf h).length = 2
      ∧ Identified localCall h := by
  have hexec : (exec (advance localCall) (State.start Bool Unit) twoLines).any
      (fun x => decide ((linesOf x.1).length = 2)) = true := by decide +kernel
  obtain ⟨h, t, hrun, hlines⟩ := run_of_exec_any
    (p := fun h (_ : State Bool Unit) => (linesOf h).length = 2) hexec
  exact ⟨h, t, hrun, hlines, lines_identified localCall h t hrun⟩

end ProbeSchedule

end TeamAttack
