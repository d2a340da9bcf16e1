import TeamAttack.Library.PyDict
import TeamAttack.LineText
import TeamAttack.RecordedEvents

/-! # The owner reviewer (`tools/review_rule_owner_026.py`)

    The reviewer splits an event line into words and each word at its first
    colon.  Of every event a callback can record it accepts the line, and the
    values it reads determine the event. -/

namespace TeamAttack.OwnerReview

open RustStr HexText PyStr PyDict Application ApplicationProbe

/-! ## The reviewer -/

/-- `KINDS`. -/
def kinds : List Str :=
  ["local_copy".toList, "participant_copy".toList, "selection_ready".toList,
    "apply_before".toList, "apply_after".toList, "rule_submit".toList,
    "rule_receive_before".toList, "rule_receive_team_stored".toList]

/-- `ORIGINS`. -/
def origins : List Str :=
  ["state_update".toList, "local_record".toList, "per_slot".toList, "initial_local".toList,
    "unknown".toList]

/-- The prefix of an event line. -/
def eventPrefix : Str := "# application_event: ".toList

/-- `required`. -/
def required : List Str :=
  ["kind".toList, "participant_slot".toList, "local_slot".toList, "selected_owner_slot".toList,
    "submit_origin".toList, "elapsed_ticks".toList]

/-- The fields matched against `valid_slot`. -/
def slotKeys : List Str :=
  ["participant_slot".toList, "local_slot".toList, "selected_owner_slot".toList]

/-- `dict(item.split(":", 1) for item in line[len(prefix):].split())` of a line
    with the prefix.  An item without a colon is a `ValueError`. -/
def eventOf? (line : Str) : Option (List Field) := do
  let rest ← literal? eventPrefix line
  let items ← (split rest).mapM (splitOnce? ':')
  return ofItems items

/-- `(?:0[0-9A-F]|FF)\Z`, matched in full. -/
def validSlot : Str → Bool
  | ['0', c] => ('0' ≤ c && c ≤ '9') || ('A' ≤ c && c ≤ 'F')
  | ['F', 'F'] => true
  | _ => false

/-- The checks `review` makes of an event. -/
structure Accepted (d : List Field) : Prop where
  required : ∀ key ∈ required, ∃ value, d.lookup key = some value
  origin : ∃ value ∈ origins, d.lookup "submit_origin".toList = some value
  slots : ∀ key ∈ slotKeys, ∃ value, d.lookup key = some value ∧ validSlot value = true

/-! ## Reading the values back -/

/-- A number in decimal digits. -/
def number (s : Str) : Nat := Nat.ofDigitChars 10 s 0

/-- The position of a name, or FF. -/
def position (names : List Str) (s : Str) : UInt8 :=
  if names.contains s then UInt8.ofNat (names.idxOf s) else 0xff

/-- The event and its sequence number, from the values of its line. -/
def recover (d : List Field) : Option (Event × Nat) := do
  let sequence ← d.lookup "sequence".toList
  let ticks ← d.lookup "elapsed_ticks".toList
  let kind ← d.lookup "kind".toList
  let mode ← d.lookup "mode".toList
  let request ← d.lookup "request".toList
  let prepared ← d.lookup "prepared".toList
  let team ← d.lookup "rule_team".toList
  let global ← d.lookup "global_team".toList
  let initialized ← d.lookup "global_initialized".toList
  let participant ← d.lookup "participant_slot".toList
  let localSlot ← d.lookup "local_slot".toList
  let selectedOwner ← d.lookup "selected_owner_slot".toList
  let origin ← d.lookup "submit_origin".toList
  let action ← d.lookup "mutation_action".toList
  return ({
    kind := position names kind
    prepared := UInt8.ofNat (number prepared)
    team := UInt8.ofNat (hexNumber team)
    global := UInt8.ofNat (hexNumber global)
    initialized := number initialized = 1
    participant := UInt8.ofNat (hexNumber participant)
    localSlot := UInt8.ofNat (hexNumber localSlot)
    selectedOwner := UInt8.ofNat (hexNumber selectedOwner)
    submitOrigin := position submitOrigins origin
    mutationAction := position mutationActions action
    mode := UInt32.ofNat (hexNumber mode)
    request := UInt32.ofNat (number request)
    elapsedTicks := UInt64.ofNat (number ticks) }, number sequence)

/-! ## The line as a dictionary -/

/-- The keys of an event line. -/
def eventKeys : List Str :=
  ["sequence".toList, "elapsed_ms".toList, "elapsed_ticks".toList, "kind".toList, "mode".toList,
    "request".toList, "prepared".toList, "rule_team".toList, "global_team".toList,
    "global_initialized".toList, "participant_slot".toList, "local_slot".toList,
    "selected_owner_slot".toList, "submit_origin".toList, "mutation_action".toList]

theorem fields_keys (e : Event) (sequence : Nat) :
    (e.fields sequence).map Prod.fst = eventKeys := rfl

theorem fields_nodup (e : Event) (sequence : Nat) :
    ((e.fields sequence).map Prod.fst).Nodup := by
  rw [fields_keys]
  decide

/-- Each word of a line of fields splits into its field. -/
theorem mapM_fields {fields : List Field} (h : ∀ f ∈ fields, PlainField f) :
    (fields.map fun f => f.1 ++ ':' :: f.2).mapM (splitOnce? ':') = some fields := by
  induction fields with
  | nil => rfl
  | cons f fields ih =>
      rw [List.forall_mem_cons] at h
      rw [List.map_cons, List.mapM_cons, splitOnce?_key h.1.key, ih h.2]
      rfl

/-- **The reviewer reads the fields of every event line.** -/
theorem eventOf?_line (e : Event) (sequence : Nat) :
    eventOf? ("# ".toList ++ e.line sequence) = some (e.fields sequence) := by
  have hline : "# ".toList ++ e.line sequence
      = eventPrefix ++ (fieldsText (e.fields sequence)).tail := rfl
  have hsplit : split (fieldsText (e.fields sequence)).tail
      = split (fieldsText (e.fields sequence)) := (split_cons_space (by decide) _).symm
  rw [hline, eventOf?, literal?_append]
  show ((split _).mapM (splitOnce? ':')).bind (fun items => some (ofItems items)) = _
  rw [hsplit, split_fieldsText (e.fields_plain sequence), mapM_fields (e.fields_plain sequence)]
  exact congrArg some (ofItems_of_nodup (fields_nodup e sequence))

theorem fields_lookup (e : Event) (sequence : Nat) (i : Nat) {f : Field}
    (h : (e.fields sequence)[i]? = some f) : (e.fields sequence).lookup f.1 = some f.2 :=
  lookup_eq_some (fields_nodup e sequence) (List.mem_of_getElem? h)

/-! ## What the values say -/

theorem number_decimal (n : Nat) : number (decimal n) = n := Nat.ofDigitChars_ten_toDigits

theorem flag_showFlag (b : Bool) : decide (number (showFlag b) = 1) = b := by
  rw [showFlag, number_decimal]
  cases b with
  | false => rfl
  | true => rfl

/-- A name is at its own position, and what has no name at FF. -/
theorem position_getD {names : List Str} {other : Str} (hnodup : names.Nodup)
    (hother : other ∉ names) {b : UInt8} (hb : b.toNat < names.length ∨ b = 0xff) :
    position names ((names[b.toNat]?).getD other) = b := by
  by_cases hlt : b.toNat < names.length
  · rw [List.getElem?_eq_getElem hlt, Option.getD_some, position,
      if_pos (List.contains_iff_mem.mpr (List.getElem_mem hlt)),
      List.Nodup.idxOf_getElem hnodup, UInt8.ofNat_toNat]
  · have hff := hb.resolve_left hlt
    rw [List.getElem?_eq_none (Nat.le_of_not_lt hlt), Option.getD_none, position,
      if_neg fun h => hother (List.contains_iff_mem.mp h), hff]

theorem name_mem {names : List Str} {other : Str} (i : Nat) :
    (names[i]?).getD other ∈ names ++ [other] := by
  cases hi : names[i]? with
  | none => exact List.mem_append_right _ (List.mem_singleton_self _)
  | some s => exact List.mem_append_left _ (List.mem_of_getElem? hi)

theorem validSlot_hexUpper {b : UInt8} (h : IsSlot b) : validSlot (hexUpper 2 b.toNat) = true := by
  have hall : ∀ n : Fin 256, n.val < 16 ∨ n.val = 255 → validSlot (hexUpper 2 n.val) = true := by
    decide +kernel
  refine hall ⟨b.toNat, b.toNat_lt⟩ ?_
  rcases h with hlt | rfl
  · exact Or.inl (UInt8.lt_iff_toNat_lt.mp hlt)
  · exact Or.inr rfl

theorem bounded_origin {kind : Kind} {e : Event} (h : Bounded kind e) :
    e.submitOrigin.toNat < submitOrigins.length ∨ e.submitOrigin = 0xff :=
  h.submitOrigin.imp_left UInt8.lt_iff_toNat_lt.mp

theorem bounded_action {kind : Kind} {e : Event} (h : Bounded kind e) :
    e.mutationAction.toNat < mutationActions.length ∨ e.mutationAction = 0xff := by
  rcases h.mutationAction with h0 | h1 | hff
  · rw [h0]
    exact Or.inl (by decide)
  · rw [h1]
    exact Or.inl (by decide)
  · exact Or.inr hff

/-- **The values of a recorded event's line determine the event.** -/
theorem recover_fields {kind : Kind} {e : Event} (h : Bounded kind e) (sequence : Nat) :
    recover (e.fields sequence) = some (e, sequence) := by
  -- a bounded code is the position of its name
  have hkind : position names ((names[e.kind.toNat]?).getD "invalid".toList) = e.kind :=
    position_getD (by decide) (by decide) (Or.inl h.kind_lt)
  have horigin : position submitOrigins
      ((submitOrigins[e.submitOrigin.toNat]?).getD "unknown".toList) = e.submitOrigin :=
    position_getD (by decide) (by decide) (bounded_origin h)
  have haction : position mutationActions
      ((mutationActions[e.mutationAction.toNat]?).getD "none".toList) = e.mutationAction :=
    position_getD (by decide) (by decide) (bounded_action h)
  -- the other fields are read back from their numerals
  have h0 := fields_lookup e sequence 0 rfl
  have h2 := fields_lookup e sequence 2 rfl
  have h3 := fields_lookup e sequence 3 rfl
  have h4 := fields_lookup e sequence 4 rfl
  have h5 := fields_lookup e sequence 5 rfl
  have h6 := fields_lookup e sequence 6 rfl
  have h7 := fields_lookup e sequence 7 rfl
  have h8 := fields_lookup e sequence 8 rfl
  have h9 := fields_lookup e sequence 9 rfl
  have h10 := fields_lookup e sequence 10 rfl
  have h11 := fields_lookup e sequence 11 rfl
  have h12 := fields_lookup e sequence 12 rfl
  have h13 := fields_lookup e sequence 13 rfl
  have h14 := fields_lookup e sequence 14 rfl
  dsimp only at h0 h2 h3 h4 h5 h6 h7 h8 h9 h10 h11 h12 h13 h14
  simp only [recover, h0, h2, h3, h4, h5, h6, h7, h8, h9, h10, h11, h12, h13, h14,
    Option.bind_eq_bind, Option.bind_some, hkind, horigin, haction, number_decimal,
    flag_showFlag, hexNumber_hexUpper, UInt8.ofNat_toNat, UInt32.ofNat_toNat,
    UInt64.ofNat_toNat]
  rfl

/-- The reviewer's checks pass. -/
theorem fields_accepted {kind : Kind} {e : Event} (h : Bounded kind e) (sequence : Nat) :
    Accepted (e.fields sequence) where
  required := by
    simp only [OwnerReview.required, List.forall_mem_cons]
    exact ⟨⟨_, fields_lookup e sequence 3 rfl⟩, ⟨_, fields_lookup e sequence 10 rfl⟩,
      ⟨_, fields_lookup e sequence 11 rfl⟩, ⟨_, fields_lookup e sequence 12 rfl⟩,
      ⟨_, fields_lookup e sequence 13 rfl⟩, ⟨_, fields_lookup e sequence 2 rfl⟩,
      fun _ hkey => nomatch hkey⟩
  origin := ⟨_, name_mem e.submitOrigin.toNat, fields_lookup e sequence 13 rfl⟩
  slots := by
    simp only [slotKeys, List.forall_mem_cons]
    exact ⟨⟨_, fields_lookup e sequence 10 rfl, validSlot_hexUpper h.participant⟩,
      ⟨_, fields_lookup e sequence 11 rfl, validSlot_hexUpper h.localSlot⟩,
      ⟨_, fields_lookup e sequence 12 rfl, validSlot_hexUpper h.selectedOwner⟩,
      fun _ hkey => nomatch hkey⟩

/-! ## Every printed line -/

/-- **Every event line the observer can print is accepted and recovered.** -/
theorem event_line_recovered {w : World} {env : CallEnv} {kind : Kind} {ctx : InlineCtx}
    {e : Event} (hrec : (observe w env kind ctx).recorded = some e) (sequence : Nat) :
    ∃ d, eventOf? ("# ".toList ++ e.line sequence) = some d
      ∧ d.length = 15 ∧ (d.map Prod.fst).Nodup ∧ Accepted d
      ∧ (∃ name ∈ kinds, d.lookup "kind".toList = some name)
      ∧ recover d = some (e, sequence)
      ∧ ∀ (w' : World) (env' : CallEnv) (kind' : Kind) (ctx' : InlineCtx) (e' : Event)
          (sequence' : Nat), (observe w' env' kind' ctx').recorded = some e' →
          e.line sequence = e'.line sequence' → e = e' ∧ sequence = sequence' := by
  have hbounded := recorded_bounded hrec
  refine ⟨e.fields sequence, eventOf?_line e sequence, rfl, fields_nodup e sequence,
    fields_accepted hbounded sequence, ?_, recover_fields hbounded sequence, ?_⟩
  · refine ⟨_, ?_, fields_lookup e sequence 3 rfl⟩
    rw [List.getElem?_eq_getElem (show e.kind.toNat < names.length from hbounded.kind_lt)]
    exact List.getElem_mem _
  · intro w' env' kind' ctx' e' sequence' hrec' hline
    -- equal lines have equal fields, and those determine the event
    have hfields : e.fields sequence = e'.fields sequence' := by
      have := eventOf?_line e sequence
      rw [hline, eventOf?_line] at this
      exact (Option.some.inj this).symm
    have hsame := recover_fields hbounded sequence
    rw [hfields, recover_fields (recorded_bounded hrec')] at hsame
    exact Prod.mk.inj (Option.some.inj hsame).symm

theorem event_line_recovered_open :
    ∃ e, (observe recordingWorld ⟨19200, false⟩ 5 (openCtx 0)).recorded = some e
      ∧ ∃ d, eventOf? ("# ".toList ++ e.line 7) = some d ∧ d.length = 15 := by
  have hsome : ((observe recordingWorld ⟨19200, false⟩ 5 (openCtx 0)).recorded).isSome = true := by
    decide
  obtain ⟨e, he⟩ := Option.isSome_iff_exists.mp hsome
  obtain ⟨d, hd, hlength, -⟩ := event_line_recovered he 7
  exact ⟨e, he, d, hd, hlength⟩

end TeamAttack.OwnerReview
