import TeamAttack.CodecProbe
import TeamAttack.Library.RustConst

/-! # The reviewed excerpts (`materialize_reviewed.py`)

    The tool cuts the reviewed code out of a dumped text segment, as binary
    files and as a Rust module; the plugin is built from both and compares
    them with the mapped text.  What is compared at run time is what was cut
    at build time. -/

namespace TeamAttack.MaterializeReviewed

open RustStr HexText RustConst RustSlice ExceptRules Application CodecProbe

/-! ## The tool -/

/-- An entry of the manifest. -/
structure Item where
  name : Str
  offset : Nat
  length : Nat
  sha256 : Str

structure Manifest where
  files : List Item
  codecModule : List Item

/-- `manifest.json`, up to the digests of the reviewed build. -/
def manifest (digest : Str → Str) : Manifest where
  files := [
    ("application.bin".toList, 0x169bef0, 11992),
    ("restore.bin".toList, 0x16eb720, 728),
    ("participant_copy.bin".toList, 0x16e3ec0, 472),
    ("chooser.bin".toList, 0x16ea390, 412),
    ("submit_entry.bin".toList, 0x1685cb0, 48),
    ("receive_entry.bin".toList, 0x16f03b0, 76),
    ("receive_b4.bin".toList, 0x16f0550, 236)].map fun x => ⟨x.1, x.2.1, x.2.2, digest x.1⟩
  codecModule := [
    ("ENCODER".toList, 0x16a4920, 572),
    ("DECODER".toList, 0x16a4b60, 548)].map fun x => ⟨x.1, x.2.1, x.2.2, digest x.1⟩

/-- `parser.error`, and a name that is not ASCII. -/
inductive Refusal where
  | present (destination : Str)
  | tooShort (label : Str)
  | digestMismatch (label : Str)
  | notAscii
  deriving DecidableEq

/-- `text[offset:offset + length]`. -/
def slice (text : List UInt8) (item : Item) : List UInt8 := (text.drop item.offset).take item.length

/-- `checked_slice`; `sha256` is the hex digest of `hashlib`. -/
def checkedSlice (sha256 : List UInt8 → Str) (text : List UInt8) (item : Item) :
    Except Refusal (List UInt8) := do
  if (slice text item).length ≠ item.length then .error (.tooShort item.name)
  if sha256 (slice text item) ≠ item.sha256 then .error (.digestMismatch item.name)
  return slice text item

/-- `0x{byte:02x}`. -/
def literal (b : UInt8) : Str :=
  ['0', 'x', Nat.digitChar (b.toNat / 16), Nat.digitChar (b.toNat % 16)]

def row (bytes : List UInt8) : Str :=
  "    ".toList ++ ([',', ' '].intercalate (bytes.map literal) ++ [',', '\n'])

/-- The rows of sixteen. -/
def rows (data : List UInt8) : Str :=
  (List.range ((data.length + 15) / 16)).flatMap fun k => row ((data.drop (16 * k)).take 16)

def constOpen : Str := "pub const ".toList

def constType : Str := ": &[u8] = &[\n".toList

def constClose : Str := "];\n".toList

/-- The text of one constant. -/
def rustConst (entry : Str × List UInt8) : Str :=
  constOpen ++ (entry.1 ++ (constType ++ (rows entry.2 ++ constClose)))

def sourceLine : Str :=
  "// Generated locally from a legally dumped SSBU 13.0.5 main; do not redistribute.\n".toList

def purposeLine : Str :=
  "// Runtime must match every byte before either native leaf may be called.\n".toList

def rustModule (entries : List (Str × List UInt8)) : Str :=
  sourceLine ++ (purposeLine ++ entries.flatMap rustConst)

/-- `.encode("ascii")`. -/
def encodeAscii (s : Str) : Except Refusal (List UInt8) :=
  if s.all isAscii then .ok (s.map fun c => UInt8.ofNat c.toNat) else .error .notAscii

/-- The files below the root. -/
abbrev FileSystem := Str → Option (List UInt8)

def reviewedPath (name : Str) : Str := "src/reviewed/".toList ++ name

def codecPath : Str := "src/codec_bytes.rs".toList

def planFile (sha256 : List UInt8 → Str) (fs : FileSystem) (text : List UInt8) (item : Item) :
    Except Refusal (Str × List UInt8) := do
  if (fs (reviewedPath item.name)).isSome then .error (.present (reviewedPath item.name))
  let excerpt ← checkedSlice sha256 text item
  return (reviewedPath item.name, excerpt)

def planConst (sha256 : List UInt8 → Str) (text : List UInt8) (item : Item) :
    Except Refusal (Str × List UInt8) := do
  let excerpt ← checkedSlice sha256 text item
  return (item.name, excerpt)

/-- `pending`. -/
def plan (sha256 : List UInt8 → Str) (M : Manifest) (fs : FileSystem) (text : List UInt8) :
    Except Refusal (List (Str × List UInt8)) := do
  let files ← M.files.mapM (planFile sha256 fs text)
  if (fs codecPath).isSome then .error (.present codecPath)
  let entries ← M.codecModule.mapM (planConst sha256 text)
  let source ← encodeAscii (rustModule entries)
  return files ++ [(codecPath, source)]

/-- `destination.write_bytes(excerpt)`. -/
def write (fs : FileSystem) (file : Str × List UInt8) : FileSystem :=
  Function.update fs file.1 (some file.2)

/-- **`main`**: nothing is written before everything is checked. -/
def materialize (sha256 : List UInt8 → Str) (M : Manifest) (fs : FileSystem)
    (text : List UInt8) : FileSystem × Except Refusal Unit :=
  match plan sha256 M fs text with
  | .error e => (fs, .error e)
  | .ok pending => (pending.foldl write fs, .ok ())

/-! ## The generated module reads back -/

theorem literal_eq (b : UInt8) : readLiteral (literal b) = some b := by
  obtain ⟨-, -, hhi⟩ := digitChar_upper ⟨b.toNat / 16, by have := b.toNat_lt; omega⟩
  obtain ⟨-, -, hlo⟩ := digitChar_upper ⟨b.toNat % 16, by omega⟩
  have hvalue : ∀ d : Fin 16, hexValue (Nat.digitChar d.val) = d.val := by decide
  have hhiValue := hvalue ⟨b.toNat / 16, by have := b.toNat_lt; omega⟩
  have hloValue := hvalue ⟨b.toNat % 16, by omega⟩
  simp only at hhi hlo hhiValue hloValue
  show (fromStrRadix? 8 16 [Nat.digitChar (b.toNat / 16), Nat.digitChar (b.toNat % 16)]).map
    UInt8.ofNat = some b
  rw [fromStrRadix?_pair, hhi, hlo, hhiValue, hloValue, Nat.div_add_mod]
  exact congrArg some UInt8.ofNat_toNat

theorem literal_word (b : UInt8) : literal b ≠ [] ∧ ∀ c ∈ literal b, isWordChar c = true := by
  have hdigit : ∀ d : Fin 16, isWordChar (Nat.digitChar d.val) = true := by decide
  have hhi := hdigit ⟨b.toNat / 16, by have := b.toNat_lt; omega⟩
  have hlo := hdigit ⟨b.toNat % 16, by omega⟩
  refine ⟨List.cons_ne_nil _ _, ?_⟩
  intro c hc
  simp only [literal, List.mem_cons, List.not_mem_nil, or_false] at hc
  rcases hc with rfl | rfl | rfl | rfl
  · rfl
  · rfl
  · exact hhi
  · exact hlo

theorem lex_literals {bytes : List UInt8} (hne : bytes ≠ []) (rest : Str) :
    lex (.code []) (row bytes ++ rest)
      = elementTokens (bytes.map literal) ++ lex (.code []) rest := by
  have hrow : lex (.code []) (row bytes ++ rest)
      = lex (.code []) ([',', ' '].intercalate (bytes.map literal) ++ (',' :: '\n' :: rest)) := by
    rw [row, List.append_assoc, List.append_assoc]
    rfl
  rw [hrow, lex_row]
  · simpa using hne
  · intro w hw
    obtain ⟨b, -, rfl⟩ := List.mem_map.mp hw
    exact literal_word b

/-- The rows hold the bytes in order, also in a last row that is short. -/
theorem lex_rows {data : List UInt8} {n : Nat} (hn : 16 * n < data.length + 16) (rest : Str) :
    lex (.code []) ((List.range n).flatMap (fun k => row ((data.drop (16 * k)).take 16)) ++ rest)
      = elementTokens ((data.take (16 * n)).map literal) ++ lex (.code []) rest := by
  -- row after row, from the first
  induction n generalizing rest with
  | zero => rfl
  | succ n ih =>
      have hne : (data.drop (16 * n)).take 16 ≠ [] := by
        rw [← List.length_pos_iff, List.length_take, List.length_drop]
        omega
      rw [List.range_succ, List.flatMap_append, List.append_assoc, ih (by omega),
        List.flatMap_singleton, lex_literals hne, Nat.mul_succ, List.take_add, List.map_append]
      simp only [elementTokens, List.flatMap_append, List.append_assoc]

theorem lex_constOpen (rest : Str) : lex (.code []) (constOpen ++ rest)
    = .word "pub".toList :: .word "const".toList :: lex (.code []) rest := rfl

theorem lex_constType (word rest : Str) : lex (.code word) (constType ++ rest)
    = flush word ++ ([.punct ':', .punct '&', .punct '[', .word "u8".toList, .punct ']',
      .punct '=', .punct '&', .punct '['] ++ lex (.code []) rest) := rfl

theorem lex_constClose (rest : Str) : lex (.code []) (constClose ++ rest)
    = .punct ']' :: .punct ';' :: lex (.code []) rest := rfl

theorem lex_sourceLine (rest : Str) :
    lex (.code []) (sourceLine ++ rest) = lex (.code []) rest := rfl

theorem lex_purposeLine (rest : Str) :
    lex (.code []) (purposeLine ++ rest) = lex (.code []) rest := rfl

theorem lex_const {entry : Str × List UInt8}
    (hname : entry.1 ≠ [] ∧ ∀ c ∈ entry.1, isWordChar c = true) (rest : Str) :
    lex (.code []) (rustConst entry ++ rest)
      = itemTokens entry.1 (entry.2.map literal) ++ lex (.code []) rest := by
  have hrows := lex_rows
    (show 16 * ((entry.2.length + 15) / 16) < entry.2.length + 16 by omega)
    (constClose ++ rest)
  rw [List.take_of_length_le (by omega), ← rows, lex_constClose] at hrows
  rw [rustConst, List.append_assoc, List.append_assoc, List.append_assoc, List.append_assoc,
    lex_constOpen, lex_word hname.2, List.nil_append, lex_constType, flush_word hname.1, hrows,
    itemTokens, List.append_assoc, List.append_assoc]
  rfl

theorem lex_module {entries : List (Str × List UInt8)}
    (hnames : ∀ e ∈ entries, e.1 ≠ [] ∧ ∀ c ∈ e.1, isWordChar c = true) :
    lex (.code []) (rustModule entries)
      = entries.flatMap fun e => itemTokens e.1 (e.2.map literal) := by
  rw [rustModule, lex_sourceLine, lex_purposeLine]
  induction entries with
  | nil => rfl
  | cons e rest ih =>
      rw [List.flatMap_cons, List.flatMap_cons, lex_const (hnames e List.mem_cons_self),
        ih fun e' he' => hnames e' (List.mem_cons_of_mem e he')]

/-- **The generated module denotes its entries.** -/
theorem readModule_rustModule {entries : List (Str × List UInt8)}
    (hnames : ∀ e ∈ entries, e.1 ≠ [] ∧ ∀ c ∈ e.1, isWordChar c = true) :
    readModule (rustModule entries) = some entries := by
  have htokens : (entries.map fun e => (e.1, e.2.map literal, e.2)).flatMap
      (fun item => itemTokens item.1 item.2.1)
      = entries.flatMap fun e => itemTokens e.1 (e.2.map literal) := by
    rw [List.flatMap_map]
  have hliterals : ∀ item ∈ entries.map fun e => (e.1, e.2.map literal, e.2),
      item.2.1.map readLiteral = item.2.2.map some := by
    intro item hitem
    obtain ⟨e, -, rfl⟩ := List.mem_map.mp hitem
    rw [List.map_map]
    exact List.map_congr_left fun b _ => literal_eq b
  -- every item has a token, so the tokens are fuel enough
  have hfuel : (entries.map fun e => (e.1, e.2.map literal, e.2)).length
      ≤ (entries.flatMap fun e => itemTokens e.1 (e.2.map literal)).length := by
    rw [List.length_map, List.length_flatMap]
    calc entries.length = (entries.map fun _ => 1).sum := by simp
      _ ≤ _ := List.sum_le_sum fun e _ => Nat.succ_pos _
  have hread := readItems_tokens hliterals hfuel
  rw [htokens, List.map_map] at hread
  rw [readModule, lex_module hnames, hread]
  exact congrArg some (List.map_id entries)

/-! ## All or nothing -/

/-- The slice check of one entry. -/
def SliceOk (sha256 : List UInt8 → Str) (text : List UInt8) (item : Item) : Prop :=
  (slice text item).length = item.length ∧ sha256 (slice text item) = item.sha256

theorem checkedSlice_eq_ok {sha256 : List UInt8 → Str} {text : List UInt8} {item : Item}
    {excerpt : List UInt8} :
    checkedSlice sha256 text item = .ok excerpt ↔
      SliceOk sha256 text item ∧ excerpt = slice text item := by
  simp only [checkedSlice, check_eq_ok, pure_eq_ok, ne_eq, not_not]
  constructor
  · rintro ⟨hlength, hdigest, rfl⟩
    exact ⟨⟨hlength, hdigest⟩, rfl⟩
  · rintro ⟨⟨hlength, hdigest⟩, rfl⟩
    exact ⟨hlength, hdigest, rfl⟩

theorem planFile_eq_ok {sha256 : List UInt8 → Str} {fs : FileSystem} {text : List UInt8}
    {item : Item} {file : Str × List UInt8} :
    planFile sha256 fs text item = .ok file ↔
      fs (reviewedPath item.name) = none ∧ SliceOk sha256 text item
        ∧ file = (reviewedPath item.name, slice text item) := by
  simp only [planFile, check_eq_ok, bind_eq_ok, checkedSlice_eq_ok, pure_eq_ok,
    Option.not_isSome_iff_eq_none]
  constructor
  · rintro ⟨hfree, excerpt, ⟨hok, rfl⟩, rfl⟩
    exact ⟨hfree, hok, rfl⟩
  · rintro ⟨hfree, hok, rfl⟩
    exact ⟨hfree, _, ⟨hok, rfl⟩, rfl⟩

theorem planConst_eq_ok {sha256 : List UInt8 → Str} {text : List UInt8} {item : Item}
    {entry : Str × List UInt8} :
    planConst sha256 text item = .ok entry ↔
      SliceOk sha256 text item ∧ entry = (item.name, slice text item) := by
  simp only [planConst, bind_eq_ok, checkedSlice_eq_ok, pure_eq_ok]
  constructor
  · rintro ⟨excerpt, ⟨hok, rfl⟩, rfl⟩
    exact ⟨hok, rfl⟩
  · rintro ⟨hok, rfl⟩
    exact ⟨_, ⟨hok, rfl⟩, rfl⟩

/-- No destination exists, and every slice check passes. -/
structure Ready (sha256 : List UInt8 → Str) (M : Manifest) (fs : FileSystem)
    (text : List UInt8) : Prop where
  free : ∀ item ∈ M.files, fs (reviewedPath item.name) = none
  codecFree : fs codecPath = none
  files : ∀ item ∈ M.files, SliceOk sha256 text item
  codec : ∀ item ∈ M.codecModule, SliceOk sha256 text item

/-- The files that are written. -/
def excerpts (M : Manifest) (text : List UInt8) : List (Str × List UInt8) :=
  M.files.map fun item => (reviewedPath item.name, slice text item)

/-- The entries of the codec module. -/
def codecEntries (M : Manifest) (text : List UInt8) : List (Str × List UInt8) :=
  M.codecModule.map fun item => (item.name, slice text item)

theorem plan_eq_ok {sha256 : List UInt8 → Str} {M : Manifest} {fs : FileSystem}
    {text : List UInt8} {pending : List (Str × List UInt8)} :
    plan sha256 M fs text = .ok pending ↔ Ready sha256 M fs text
      ∧ ∃ source, encodeAscii (rustModule (codecEntries M text)) = .ok source
        ∧ pending = excerpts M text ++ [(codecPath, source)] := by
  have hfiles (hready : Ready sha256 M fs text) :
      M.files.mapM (planFile sha256 fs text) = .ok (excerpts M text) := by
    apply mapM_of_ok
    intro item hitem
    exact planFile_eq_ok.mpr ⟨hready.free item hitem, hready.files item hitem, rfl⟩
  have hentries (hready : Ready sha256 M fs text) :
      M.codecModule.mapM (planConst sha256 text) = .ok (codecEntries M text) := by
    apply mapM_of_ok
    intro item hitem
    exact planConst_eq_ok.mpr ⟨hready.codec item hitem, rfl⟩
  simp only [plan, bind_eq_ok, check_eq_ok, pure_eq_ok, Option.not_isSome_iff_eq_none]
  constructor
  · rintro ⟨files, hplanned, hcodecFree, entries, hconsts, source, hsource, rfl⟩
    -- what each part of the plan has checked
    have hready : Ready sha256 M fs text := by
      refine ⟨?_, hcodecFree, ?_, ?_⟩
      · intro item hitem
        obtain ⟨file, hfile⟩ := of_mapM_ok hplanned item hitem
        exact (planFile_eq_ok.mp hfile).1
      · intro item hitem
        obtain ⟨file, hfile⟩ := of_mapM_ok hplanned item hitem
        exact (planFile_eq_ok.mp hfile).2.1
      · intro item hitem
        obtain ⟨entry, hentry⟩ := of_mapM_ok hconsts item hitem
        exact (planConst_eq_ok.mp hentry).1
    obtain rfl := Except.ok.inj ((hfiles hready).symm.trans hplanned)
    obtain rfl := Except.ok.inj ((hentries hready).symm.trans hconsts)
    exact ⟨hready, source, hsource, rfl⟩
  · rintro ⟨hready, source, hsource, rfl⟩
    exact ⟨_, hfiles hready, hready.codecFree, _, hentries hready, source, hsource, rfl⟩

/-- A run that is not ready writes nothing. -/
theorem materialize_refuses {sha256 : List UInt8 → Str} {M : Manifest} {fs : FileSystem}
    {text : List UInt8} (h : ¬ Ready sha256 M fs text) :
    ∃ e, materialize sha256 M fs text = (fs, .error e) := by
  unfold materialize
  cases hplan : plan sha256 M fs text with
  | error e => exact ⟨e, rfl⟩
  | ok pending => exact absurd (plan_eq_ok.mp hplan).1 h

/-! ## What is written -/

theorem encodeAscii_decoded {s : Str} {source : List UInt8} (h : encodeAscii s = .ok source) :
    source.map (fun b => Char.ofNat b.toNat) = s := by
  unfold encodeAscii at h
  split at h
  · rename_i hascii
    obtain rfl := Except.ok.inj h
    rw [List.map_map]
    refine (List.map_congr_left ?_).trans (List.map_id s)
    intro c hc
    have hlt : c.toNat < 128 := of_decide_eq_true (List.all_eq_true.mp hascii c hc)
    show Char.ofNat (UInt8.ofNat c.toNat).toNat = c
    rw [UInt8.toNat_ofNat_of_lt' (by show _ < 256; omega), Char.ofNat_toNat]
  · cases h

theorem ascii_intercalate {sep : Str} (hsep : sep.all isAscii = true) {parts : List Str}
    (hparts : ∀ p ∈ parts, p.all isAscii = true) : (sep.intercalate parts).all isAscii = true := by
  induction parts with
  | nil => rfl
  | cons p rest ih =>
      have hp := hparts p List.mem_cons_self
      have hrest := ih fun q hq => hparts q (List.mem_cons_of_mem p hq)
      cases rest with
      | nil =>
          rw [List.intercalate_singleton]
          exact hp
      | cons q more =>
          rw [List.intercalate_cons_cons, List.all_append, List.all_append, hp, hsep, hrest]
          rfl

theorem ascii_literal (b : UInt8) : (literal b).all isAscii = true := by
  have hdigit : ∀ d : Fin 16, isAscii (Nat.digitChar d.val) = true := by decide
  have hhi := hdigit ⟨b.toNat / 16, by have := b.toNat_lt; omega⟩
  have hlo := hdigit ⟨b.toNat % 16, by omega⟩
  simp only at hhi hlo
  simp only [literal, List.all_cons, List.all_nil, hhi, hlo]
  rfl

theorem ascii_row (bytes : List UInt8) : (row bytes).all isAscii = true := by
  rw [row, List.all_append, List.all_append, ascii_intercalate (by decide)]
  · rfl
  · intro p hp
    obtain ⟨b, -, rfl⟩ := List.mem_map.mp hp
    exact ascii_literal b

theorem ascii_flatMap {α : Type} {f : α → Str} {l : List α}
    (h : ∀ a ∈ l, (f a).all isAscii = true) : (l.flatMap f).all isAscii = true := by
  rw [List.all_flatMap, List.all_eq_true]
  exact h

theorem ascii_rustConst {entry : Str × List UInt8} (hname : entry.1.all isAscii = true) :
    (rustConst entry).all isAscii = true := by
  rw [rustConst, List.all_append, List.all_append, List.all_append, List.all_append, hname, rows,
    ascii_flatMap fun k _ => ascii_row _]
  decide

/-- The generated module is ASCII when its names are. -/
theorem encodeAscii_rustModule {entries : List (Str × List UInt8)}
    (hnames : ∀ e ∈ entries, e.1.all isAscii = true) :
    ∃ source, encodeAscii (rustModule entries) = .ok source := by
  have hsource : sourceLine.all isAscii = true := by decide
  have hpurpose : purposeLine.all isAscii = true := by decide
  refine ⟨_, if_pos ?_⟩
  rw [rustModule, List.all_append, List.all_append, hsource, hpurpose,
    ascii_flatMap fun e he => ascii_rustConst (hnames e he)]
  rfl

/-- Writes behind each other, each to its own place. -/
theorem foldl_write {files : List (Str × List UInt8)} (hnodup : (files.map Prod.fst).Nodup)
    (fs : FileSystem) :
    (∀ file ∈ files, files.foldl write fs file.1 = some file.2)
      ∧ ∀ path, path ∉ files.map Prod.fst → files.foldl write fs path = fs path := by
  induction files generalizing fs with
  | nil => exact ⟨fun _ hfile => (List.not_mem_nil hfile).elim, fun _ _ => rfl⟩
  | cons file rest ih =>
      rw [List.map_cons, List.nodup_cons] at hnodup
      obtain ⟨hwritten, hkept⟩ := ih hnodup.2 (write fs file)
      constructor
      · rw [List.forall_mem_cons]
        refine ⟨?_, hwritten⟩
        rw [List.foldl_cons, hkept _ hnodup.1]
        exact Function.update_self ..
      · intro path hpath
        rw [List.map_cons, List.mem_cons, not_or] at hpath
        rw [List.foldl_cons, hkept _ hpath.2]
        exact Function.update_of_ne hpath.1 ..

/-! ## The plugin built from the excerpts -/

/-- The bytes of an included file. -/
def included (fs : FileSystem) (path : Str) : List UInt8 := (fs path).getD []

/-- The file of each of `BODIES`. -/
def bodyFile : Fin 7 → Str :=
  ![ "application.bin".toList, "restore.bin".toList, "participant_copy.bin".toList,
    "chooser.bin".toList, "submit_entry.bin".toList, "receive_entry.bin".toList,
    "receive_b4.bin".toList]

def builtBodies (fs : FileSystem) (i : Fin 7) : List UInt8 :=
  included fs (reviewedPath (bodyFile i))

/-- A constant of `codec_bytes`. -/
def builtConst (fs : FileSystem) (name : Str) : List UInt8 :=
  ((readModule ((included fs codecPath).map fun b => Char.ofNat b.toNat)).bind
    (List.lookup name)).getD []

/-- The body comparison of `codec_probe::validate`. -/
def compareCodec (encoder decoder text : List UInt8) : Checked Unit := do
  requireCodecBody text (encoderOffset, encoder)
  requireCodecBody text (decoderOffset, decoder)

theorem validate_of_compare {encoder decoder text : List UInt8} {e : Str}
    (h : compareCodec encoder decoder text = .error e) (base rodata : UInt64)
    (answer : UInt32 × Watch.MemoryInfo) (m : ByteMemory.Memory) :
    CodecProbe.validate encoder decoder text base rodata answer m = .error e := by
  unfold compareCodec at h
  unfold CodecProbe.validate
  cases hencoder : requireCodecBody text (encoderOffset, encoder) with
  | error e' =>
      rw [hencoder] at h
      exact h
  | ok _ =>
      rw [hencoder] at h
      have hdecoder : requireCodecBody text (decoderOffset, decoder) = .error e := h
      rw [hdecoder]
      rfl

/-! ## What a comparison looks at -/

/-- A position of a range. -/
def Within (offset length p : Nat) : Prop := offset ≤ p ∧ p < offset + length

/-- A comparison with bytes that are there looks at each of them. -/
theorem matchesAt_iff {text expected : List UInt8} {offset : UInt64} (hne : 0 < expected.length) :
    matchesAt text offset expected = true ↔
      ∀ k < expected.length, text[offset.toNat + k]? = expected[k]? := by
  rw [matchesAt, decide_eq_true_eq, getRange_eq_some, Nat.add_sub_cancel_left]
  constructor
  · rintro ⟨-, -, heq⟩ k hk
    have hget := congrArg (·[k]?) heq
    simp only [List.getElem?_take_of_lt hk, List.getElem?_drop] at hget
    exact hget
  · intro h
    -- the last byte of the pattern is there, so the range is
    have hlast := h (expected.length - 1) (by omega)
    rw [List.getElem?_eq_getElem (l := expected) (by omega)] at hlast
    obtain ⟨hlt, -⟩ := List.getElem?_eq_some_iff.mp hlast
    refine ⟨Nat.le_add_right .., by omega, ?_⟩
    apply List.ext_getElem?
    intro k
    by_cases hk : k < expected.length
    · rw [List.getElem?_take_of_lt hk, List.getElem?_drop, h k hk]
    · have hshort : (List.take expected.length (text.drop offset.toNat)).length ≤ k := by
        rw [List.length_take]
        omega
      rw [List.getElem?_eq_none hshort, List.getElem?_eq_none (Nat.le_of_not_lt hk)]

theorem matchesAt_congr {text text' expected : List UInt8} {offset : UInt64}
    (hne : 0 < expected.length)
    (h : ∀ p, Within offset.toNat expected.length p → text[p]? = text'[p]?) :
    matchesAt text offset expected = matchesAt text' offset expected := by
  rw [Bool.eq_iff_iff, matchesAt_iff hne, matchesAt_iff hne]
  refine forall₂_congr ?_
  intro k hk
  rw [h _ ⟨Nat.le_add_right .., Nat.add_lt_add_left hk _⟩]

/-- A comparison with a slice looks for the text it was cut from. -/
theorem matchesAt_slice {text cut : List UInt8} {item : Item} {offset : UInt64}
    (hoffset : offset.toNat = item.offset) (hpos : 0 < item.length)
    (hlength : (slice cut item).length = item.length) :
    matchesAt text offset (slice cut item) = true ↔
      ∀ p, Within item.offset item.length p → text[p]? = cut[p]? := by
  rw [matchesAt_iff (by omega), hlength, hoffset]
  have hcut : ∀ k < item.length, (slice cut item)[k]? = cut[item.offset + k]? := by
    intro k hk
    rw [slice, List.getElem?_take_of_lt hk, List.getElem?_drop]
  constructor
  · rintro h p ⟨hlow, hhigh⟩
    obtain ⟨k, rfl⟩ := Nat.exists_eq_add_of_le hlow
    rw [h k (by omega), hcut k (by omega)]
  · intro h k hk
    rw [hcut k hk]
    exact h _ ⟨Nat.le_add_right .., Nat.add_lt_add_left hk _⟩

theorem requireBody_eq_ok {text : List UInt8} {message : String} {body : UInt64 × List UInt8} :
    requireBody text message body = .ok () ↔ matchesAt text body.1 body.2 = true :=
  require_eq_ok

theorem requireCodecBody_eq_ok {text : List UInt8} {body : UInt64 × List UInt8} :
    requireCodecBody text body = .ok () ↔ matchesAt text body.1 body.2 = true :=
  require_eq_ok

theorem validate_eq_ok {bodies : Fin 7 → List UInt8} {text : List UInt8} :
    Application.validate bodies text = .ok () ↔
      (∀ i, matchesAt text (bodyOffsets i) (bodies i) = true)
        ∧ ∀ site ∈ submitCallSites, matchesAt text site.1 site.2 = true := by
  unfold Application.validate
  rw [bind_eq_ok]
  constructor
  · rintro ⟨⟨⟩, hbodies, hsites⟩
    refine ⟨?_, ?_⟩
    · intro i
      exact requireBody_eq_ok.mp (forM_eq_ok.mp hbodies i (List.mem_finRange i))
    · intro site hsite
      exact requireBody_eq_ok.mp (forM_eq_ok.mp hsites site hsite)
  · rintro ⟨hbodies, hsites⟩
    refine ⟨(), forM_eq_ok.mpr ?_, forM_eq_ok.mpr ?_⟩
    · intro i _
      exact requireBody_eq_ok.mpr (hbodies i)
    · intro site hsite
      exact requireBody_eq_ok.mpr (hsites site hsite)

theorem compareCodec_eq_ok {encoder decoder text : List UInt8} :
    compareCodec encoder decoder text = .ok () ↔
      matchesAt text encoderOffset encoder = true
        ∧ matchesAt text decoderOffset decoder = true := by
  unfold compareCodec
  rw [bind_eq_ok]
  constructor
  · rintro ⟨⟨⟩, hencoder, hdecoder⟩
    exact ⟨requireCodecBody_eq_ok.mp hencoder, requireCodecBody_eq_ok.mp hdecoder⟩
  · rintro ⟨hencoder, hdecoder⟩
    exact ⟨(), requireCodecBody_eq_ok.mpr hencoder, requireCodecBody_eq_ok.mpr hdecoder⟩

/-! ## The manifest is the plugin's -/

def bodyLength : Fin 7 → Nat := ![11992, 728, 472, 412, 48, 76, 236]

/-- The entry of one of `BODIES`. -/
def bodyItem (digest : Str → Str) (i : Fin 7) : Item where
  name := bodyFile i
  offset := (bodyOffsets i).toNat
  length := bodyLength i
  sha256 := digest (bodyFile i)

def encoderItem (digest : Str → Str) : Item where
  name := "ENCODER".toList
  offset := encoderOffset.toNat
  length := 572
  sha256 := digest "ENCODER".toList

def decoderItem (digest : Str → Str) : Item where
  name := "DECODER".toList
  offset := decoderOffset.toNat
  length := 548
  sha256 := digest "DECODER".toList

theorem manifest_files (digest : Str → Str) :
    (manifest digest).files = (List.finRange 7).map (bodyItem digest) := rfl

theorem manifest_codec (digest : Str → Str) :
    (manifest digest).codecModule = [encoderItem digest, decoderItem digest] := rfl

theorem bodyLength_pos (i : Fin 7) : 0 < bodyLength i := by
  revert i
  decide

theorem site_length {site : UInt64 × List UInt8} (h : site ∈ submitCallSites) :
    0 < site.2.length := by
  revert site
  decide

/-- The destinations are eight files. -/
theorem destinations_nodup :
    ((List.finRange 7).map (fun i => reviewedPath (bodyFile i)) ++ [codecPath]).Nodup := by
  decide

/-- **A ready run writes the excerpts.** -/
theorem materialize_ready {sha256 : List UInt8 → Str} {digest : Str → Str} {fs : FileSystem}
    {text : List UInt8} (h : Ready sha256 (manifest digest) fs text) :
    ∃ fs' source, materialize sha256 (manifest digest) fs text = (fs', .ok ())
      ∧ (∀ item ∈ (manifest digest).files, fs' (reviewedPath item.name) = some (slice text item))
      ∧ fs' codecPath = some source
      ∧ readModule (source.map fun b => Char.ofNat b.toNat)
        = some (codecEntries (manifest digest) text) := by
  have hword : ∀ name ∈ ["ENCODER".toList, "DECODER".toList],
      name.all isAscii = true ∧ name ≠ [] ∧ ∀ c ∈ name, isWordChar c = true := by
    intro name hname
    rcases List.mem_pair.mp hname with rfl | rfl
    · exact ⟨rfl, List.cons_ne_nil _ _, List.all_eq_true.mp rfl⟩
    · exact ⟨rfl, List.cons_ne_nil _ _, List.all_eq_true.mp rfl⟩
  have hnames : ∀ e ∈ codecEntries (manifest digest) text,
      e.1.all isAscii = true ∧ e.1 ≠ [] ∧ ∀ c ∈ e.1, isWordChar c = true := by
    intro e he
    apply hword
    rw [show ["ENCODER".toList, "DECODER".toList]
      = (codecEntries (manifest digest) text).map Prod.fst from rfl]
    exact List.mem_map_of_mem he
  obtain ⟨source, hsource⟩ := encodeAscii_rustModule fun e he => (hnames e he).1
  have hplan := plan_eq_ok.mpr ⟨h, source, hsource, rfl⟩
  -- the destinations are distinct, so no file is overwritten
  have hpaths : (excerpts (manifest digest) text ++ [(codecPath, source)]).map Prod.fst
      = (List.finRange 7).map (fun i => reviewedPath (bodyFile i)) ++ [codecPath] := rfl
  obtain ⟨hwritten, -⟩ := foldl_write (hpaths ▸ destinations_nodup) fs
  refine ⟨(excerpts (manifest digest) text ++ [(codecPath, source)]).foldl write fs, source,
    ?_, ?_, ?_, ?_⟩
  · rw [materialize, hplan]
  · intro item hitem
    exact hwritten (reviewedPath item.name, slice text item)
      (List.mem_append_left _ (List.mem_map_of_mem hitem))
  · exact hwritten (codecPath, source) (List.mem_append_right _ List.mem_cons_self)
  · rw [encodeAscii_decoded hsource]
    exact readModule_rustModule fun e he => (hnames e he).2

/-- `application::validate` of the plugin built from the files. -/
def gateApplication (fs : FileSystem) (text : List UInt8) : Checked Unit :=
  Application.validate (builtBodies fs) text

/-- The body comparison of `codec_probe::validate` of that plugin. -/
def gateCodec (fs : FileSystem) (text : List UInt8) : Checked Unit :=
  compareCodec (builtConst fs "ENCODER".toList) (builtConst fs "DECODER".toList) text

/-- A position of one of the ranges. -/
def InRanges (items : List Item) (p : Nat) : Prop :=
  ∃ item ∈ items, Within item.offset item.length p

def InCallSites (p : Nat) : Prop :=
  ∃ site ∈ submitCallSites, Within site.1.toNat site.2.length p

/-- The gates of a plugin built from excerpts of `text`. -/
structure GatesAgree (M : Manifest) (fs : FileSystem) (text : List UInt8) : Prop where
  application : gateApplication fs text = .ok () ↔
    ∀ site ∈ submitCallSites, matchesAt text site.1 site.2 = true
  codec : gateCodec fs text = .ok ()
  application_refuses : ∀ (t : List UInt8) (p : Nat), InRanges M.files p → t[p]? ≠ text[p]? →
    ∃ e, gateApplication fs t = .error e
  codec_refuses : ∀ (t : List UInt8) (p : Nat), InRanges M.codecModule p → t[p]? ≠ text[p]? →
    ∃ e, gateCodec fs t = .error e ∧ ∀ base rodata answer m,
      CodecProbe.validate (builtConst fs "ENCODER".toList) (builtConst fs "DECODER".toList) t
        base rodata answer m = .error e
  application_frame : ∀ t t' : List UInt8,
    (∀ p, InRanges M.files p ∨ InCallSites p → t[p]? = t'[p]?) →
      gateApplication fs t = gateApplication fs t'
  codec_frame : ∀ t t' : List UInt8, (∀ p, InRanges M.codecModule p → t[p]? = t'[p]?) →
    gateCodec fs t = gateCodec fs t'

theorem gateApplication_eq_ok {digest : Str → Str} {fs : FileSystem} {text : List UInt8}
    (hbodies : ∀ i, builtBodies fs i = slice text (bodyItem digest i))
    (hlength : ∀ i, (slice text (bodyItem digest i)).length = bodyLength i) (t : List UInt8) :
    gateApplication fs t = .ok () ↔
      (∀ p, InRanges (manifest digest).files p → t[p]? = text[p]?)
        ∧ ∀ site ∈ submitCallSites, matchesAt t site.1 site.2 = true := by
  have hbody : ∀ i, matchesAt t (bodyOffsets i) (builtBodies fs i) = true ↔
      ∀ p, Within (bodyOffsets i).toNat (bodyLength i) p → t[p]? = text[p]? := by
    intro i
    rw [hbodies]
    exact matchesAt_slice rfl (bodyLength_pos i) (hlength i)
  rw [gateApplication, validate_eq_ok, manifest_files]
  simp only [hbody]
  refine and_congr_left' ?_
  constructor
  · rintro h p ⟨item, hitem, hp⟩
    obtain ⟨i, -, rfl⟩ := List.mem_map.mp hitem
    exact h i p hp
  · intro h i p hp
    exact h p ⟨bodyItem digest i, List.mem_map_of_mem (List.mem_finRange i), hp⟩

theorem gateCodec_eq_ok {digest : Str → Str} {fs : FileSystem} {text : List UInt8}
    (hencoder : builtConst fs "ENCODER".toList = slice text (encoderItem digest))
    (hdecoder : builtConst fs "DECODER".toList = slice text (decoderItem digest))
    (hlength : (slice text (encoderItem digest)).length = 572)
    (hlength' : (slice text (decoderItem digest)).length = 548) (t : List UInt8) :
    gateCodec fs t = .ok () ↔ ∀ p, InRanges (manifest digest).codecModule p → t[p]? = text[p]? := by
  have hencoderPos : 0 < (encoderItem digest).length := Nat.succ_pos 571
  have hdecoderPos : 0 < (decoderItem digest).length := Nat.succ_pos 547
  rw [gateCodec, compareCodec_eq_ok, hencoder, hdecoder, matchesAt_slice rfl hencoderPos hlength,
    matchesAt_slice rfl hdecoderPos hlength', manifest_codec]
  constructor
  · rintro ⟨he, hd⟩ p ⟨item, hitem, hp⟩
    rcases List.mem_pair.mp hitem with rfl | rfl
    · exact he p hp
    · exact hd p hp
  · intro h
    constructor
    · intro p hp
      exact h p ⟨_, List.mem_cons_self, hp⟩
    · intro p hp
      exact h p ⟨_, List.mem_cons_of_mem _ List.mem_cons_self, hp⟩

theorem requireBody_congr {t t' : List UInt8} {body : UInt64 × List UInt8}
    (h : matchesAt t body.1 body.2 = matchesAt t' body.1 body.2) (message : String) :
    requireBody t message body = requireBody t' message body := by
  unfold requireBody
  rw [h]

theorem requireCodecBody_congr {t t' : List UInt8} {body : UInt64 × List UInt8}
    (h : matchesAt t body.1 body.2 = matchesAt t' body.1 body.2) :
    requireCodecBody t body = requireCodecBody t' body := by
  unfold requireCodecBody
  rw [h]

/-- The gates look at nothing else. -/
theorem gateApplication_frame {digest : Str → Str} {fs : FileSystem}
    (hlength : ∀ i, (builtBodies fs i).length = bodyLength i) {t t' : List UInt8}
    (h : ∀ p, InRanges (manifest digest).files p ∨ InCallSites p → t[p]? = t'[p]?) :
    gateApplication fs t = gateApplication fs t' := by
  -- a comparison reads the positions of its range
  have hbodies : ((List.finRange 7).forM fun i =>
      requireBody t "rule application body mismatch at main+" (bodyOffsets i, builtBodies fs i))
      = (List.finRange 7).forM fun i =>
        requireBody t' "rule application body mismatch at main+"
          (bodyOffsets i, builtBodies fs i) := by
    apply forM_congr
    intro i _
    have hpos := bodyLength_pos i
    apply requireBody_congr
    apply matchesAt_congr
    · rw [hlength]
      exact hpos
    · intro p hp
      rw [hlength] at hp
      refine h p (Or.inl ⟨bodyItem digest i, ?_, hp⟩)
      exact manifest_files digest ▸ List.mem_map_of_mem (List.mem_finRange i)
  have hsites : submitCallSites.forM (requireBody t "B4 submit caller mismatch at main+")
      = submitCallSites.forM (requireBody t' "B4 submit caller mismatch at main+") := by
    apply forM_congr
    intro site hsite
    apply requireBody_congr
    apply matchesAt_congr (site_length hsite)
    intro p hp
    exact h p (Or.inr ⟨site, hsite, hp⟩)
  unfold gateApplication Application.validate
  rw [hbodies, hsites]

theorem gateCodec_frame {digest : Str → Str} {fs : FileSystem}
    (hencoder : (builtConst fs "ENCODER".toList).length = 572)
    (hdecoder : (builtConst fs "DECODER".toList).length = 548) {t t' : List UInt8}
    (h : ∀ p, InRanges (manifest digest).codecModule p → t[p]? = t'[p]?) :
    gateCodec fs t = gateCodec fs t' := by
  -- the codec gate reads the two bodies and nothing else
  rw [manifest_codec] at h
  have hfirst : requireCodecBody t (encoderOffset, builtConst fs "ENCODER".toList)
      = requireCodecBody t' (encoderOffset, builtConst fs "ENCODER".toList) := by
    apply requireCodecBody_congr
    apply matchesAt_congr
    · rw [hencoder]
      exact Nat.succ_pos 571
    · intro p hp
      rw [hencoder] at hp
      exact h p ⟨encoderItem digest, List.mem_cons_self, hp⟩
  have hsecond : requireCodecBody t (decoderOffset, builtConst fs "DECODER".toList)
      = requireCodecBody t' (decoderOffset, builtConst fs "DECODER".toList) := by
    apply requireCodecBody_congr
    apply matchesAt_congr
    · rw [hdecoder]
      exact Nat.succ_pos 547
    · intro p hp
      rw [hdecoder] at hp
      exact h p ⟨decoderItem digest, List.mem_cons_of_mem _ List.mem_cons_self, hp⟩
  unfold gateCodec compareCodec
  rw [hfirst, hsecond]

/-- A check with one good outcome refuses all others. -/
theorem refuses_of_ne {x : Checked Unit} (h : x ≠ .ok ()) : ∃ e, x = .error e := by
  cases x with
  | error e => exact ⟨e, rfl⟩
  | ok _ => exact absurd rfl h

/-- The gates of a plugin whose bodies are slices of `text`. -/
theorem gatesAgree_of_slices {digest : Str → Str} {fs : FileSystem} {text : List UInt8}
    (hbodies : ∀ i, builtBodies fs i = slice text (bodyItem digest i))
    (hlengths : ∀ i, (slice text (bodyItem digest i)).length = bodyLength i)
    (hencoder : builtConst fs "ENCODER".toList = slice text (encoderItem digest))
    (hdecoder : builtConst fs "DECODER".toList = slice text (decoderItem digest))
    (hencoderLength : (slice text (encoderItem digest)).length = 572)
    (hdecoderLength : (slice text (decoderItem digest)).length = 548) :
    GatesAgree (manifest digest) fs text := by
  have happlication := gateApplication_eq_ok hbodies hlengths
  have hcodec := gateCodec_eq_ok hencoder hdecoder hencoderLength hdecoderLength
  refine ⟨?_, ?_, ?_, ?_, ?_, ?_⟩
  · rw [happlication]
    exact ⟨fun hok => hok.2, fun hsites => ⟨fun _ _ => rfl, hsites⟩⟩
  · rw [hcodec]
    exact fun _ _ => rfl
  · intro t p hp hne
    apply refuses_of_ne
    intro hok
    exact hne (((happlication t).mp hok).1 p hp)
  · intro t p hp hne
    obtain ⟨e, he⟩ := refuses_of_ne fun hok => hne ((hcodec t).mp hok p hp)
    exact ⟨e, he, validate_of_compare he⟩
  · intro t t' hsame
    exact gateApplication_frame (fun i => by rw [hbodies, hlengths]) hsame
  · intro t t' hsame
    exact gateCodec_frame (by rw [hencoder]; exact hencoderLength)
      (by rw [hdecoder]; exact hdecoderLength) hsame

/-- **Build-time excerpts and run-time gates agree.**  A ready run writes what
    a plugin built from the files compares with, byte for byte and nothing
    else; a run that is not ready writes no file. -/
theorem excerpts_agree (sha256 : List UInt8 → Str) (digest : Str → Str) (fs : FileSystem)
    (text : List UInt8) :
    (Ready sha256 (manifest digest) fs text → ∃ fs' source,
      materialize sha256 (manifest digest) fs text = (fs', .ok ())
        ∧ (∀ item ∈ (manifest digest).files,
          fs' (reviewedPath item.name) = some (slice text item))
        ∧ fs' codecPath = some source
        ∧ readModule (source.map fun b => Char.ofNat b.toNat)
          = some (codecEntries (manifest digest) text)
        ∧ GatesAgree (manifest digest) fs' text)
      ∧ (¬ Ready sha256 (manifest digest) fs text →
        ∃ e, materialize sha256 (manifest digest) fs text = (fs, .error e)) := by
  refine ⟨?_, materialize_refuses⟩
  intro h
  obtain ⟨fs', source, hrun, hfiles, hsource, hmodule⟩ := materialize_ready h
  have hitem : ∀ i, bodyItem digest i ∈ (manifest digest).files := by
    intro i
    rw [manifest_files]
    exact List.mem_map_of_mem (List.mem_finRange i)
  -- `include_bytes!` reads what was written
  have hbodies : ∀ i, builtBodies fs' i = slice text (bodyItem digest i) := by
    intro i
    show (fs' (reviewedPath (bodyItem digest i).name)).getD [] = _
    rw [hfiles _ (hitem i)]
    rfl
  have hlengths : ∀ i, (slice text (bodyItem digest i)).length = bodyLength i :=
    fun i => (h.files _ (hitem i)).1
  have hconst : ∀ name, builtConst fs' name
      = (List.lookup name (codecEntries (manifest digest) text)).getD [] := by
    intro name
    rw [builtConst, included, hsource, Option.getD_some, hmodule]
    rfl
  have hencoder : builtConst fs' "ENCODER".toList = slice text (encoderItem digest) := hconst _
  have hdecoder : builtConst fs' "DECODER".toList = slice text (decoderItem digest) := hconst _
  have hencoderLength := (h.codec (encoderItem digest) List.mem_cons_self).1
  have hdecoderLength :=
    (h.codec (decoderItem digest) (List.mem_cons_of_mem _ List.mem_cons_self)).1
  exact ⟨fs', source, hrun, hfiles, hsource, hmodule,
    gatesAgree_of_slices hbodies hlengths hencoder hdecoder hencoderLength hdecoderLength⟩

/-- The digests of runs of zeros, by length. -/
def zeroDigests : List (Nat × Str) :=
  [(11992, "69eba292338e5a0decaf4908107bb91652ad5379f85917ed6dab94ad5e96295e".toList),
    (728, "e6ff459ebc86a128b3e37b46d41efd52eedbe5c955acf3d20dfbf99a33fb2557".toList),
    (472, "22fec3bc784546d70e79696b405d950aff355b6f429f266ceacffe0cc2e5ba02".toList),
    (412, "9ebc694d4895efc802ea27714a71986f293edf4b63e9918c27d65871b06f43a9".toList),
    (48, "17b0761f87b081d5cf10757ccc89f12be355c70e2e29df288b65b30710dcbcd1".toList),
    (76, "f2c0d5456a983ecd12e314fcfa19879179fc8424343baeb1325457472ae85601".toList),
    (236, "207917dc40abfe615add0b459890d82014421c5255629382e2063e11391e5290".toList),
    (572, "0fcf40c74177936605ea861fa5eac3ab108c9ecaa13c579cf3f6846389b113a1".toList),
    (548, "73f10e16a57e80fcd212b6629685e2e19a1d19bf13d34dda6c866b528b098684".toList)]

def zeroDigest (n : Nat) : Str := (zeroDigests.lookup n).getD []

/-- The length that the manifest gives a name. -/
def lengthOf (name : Str) : Nat :=
  (((manifest fun _ => []).files ++ (manifest fun _ => []).codecModule).find?
    (·.name = name)).elim 0 Item.length

/-- The digests of a text of zeros, by name. -/
def zeroNames (name : Str) : Str := zeroDigest (lengthOf name)

/-- A text of zeros up to the last range. -/
def zeroText : List UInt8 := List.replicate 24053308 0

theorem slice_zeroText {item : Item} (h : item.offset + item.length ≤ 24053308) :
    slice zeroText item = List.replicate item.length 0 := by
  rw [slice, zeroText, List.drop_replicate, List.take_replicate, Nat.min_eq_left (by omega)]

theorem zeroText_ready :
    Ready (fun bytes => zeroDigest bytes.length) (manifest zeroNames) (fun _ => none) zeroText := by
  have hslice {item : Item} (hend : item.offset + item.length ≤ 24053308)
      (hdigest : zeroDigest item.length = item.sha256) :
      SliceOk (fun bytes => zeroDigest bytes.length) zeroText item := by
    unfold SliceOk
    rw [slice_zeroText hend]
    refine ⟨List.length_replicate, ?_⟩
    show zeroDigest (List.replicate item.length (0 : UInt8)).length = item.sha256
    rw [List.length_replicate]
    exact hdigest
  refine ⟨fun _ _ => rfl, rfl, ?_, ?_⟩
  · have hbody : ∀ i, (bodyOffsets i).toNat + bodyLength i ≤ 24053308
        ∧ bodyLength i = lengthOf (bodyFile i) := by decide
    intro item hitem
    rw [manifest_files] at hitem
    obtain ⟨i, -, rfl⟩ := List.mem_map.mp hitem
    exact hslice (hbody i).1 (congrArg zeroDigest (hbody i).2)
  · intro item hitem
    rw [manifest_codec] at hitem
    rcases List.mem_pair.mp hitem with rfl | rfl
    · exact hslice (by decide)
        (congrArg zeroDigest (show 572 = lengthOf "ENCODER".toList by decide))
    · exact hslice (by decide)
        (congrArg zeroDigest (show 548 = lengthOf "DECODER".toList by decide))

/-- Zeros are cut, and the plugin built from them refuses a change. -/
theorem excerpts_agree_zeros :
    ∃ fs' source, materialize (fun bytes => zeroDigest bytes.length) (manifest zeroNames)
        (fun _ => none) zeroText = (fs', .ok ())
      ∧ fs' codecPath = some source ∧ gateCodec fs' zeroText = .ok ()
      ∧ ∃ e, gateCodec fs' [] = .error e := by
  obtain ⟨hready, -⟩ := excerpts_agree (fun bytes => zeroDigest bytes.length) zeroNames
    (fun _ => none) zeroText
  obtain ⟨fs', source, hrun, -, hsource, -, hgates⟩ := hready zeroText_ready
  have hthere : ([] : List UInt8)[(encoderItem zeroNames).offset]?
      ≠ zeroText[(encoderItem zeroNames).offset]? := by
    rw [zeroText, List.getElem?_replicate, if_pos (by decide)]
    exact nofun
  obtain ⟨e, he, -⟩ := hgates.codec_refuses [] (encoderItem zeroNames).offset
    ⟨encoderItem zeroNames, List.mem_cons_self, Nat.le_refl _, Nat.lt_add_of_pos_right
      (Nat.succ_pos 571)⟩ hthere
  exact ⟨fs', source, hrun, hsource, hgates.codec, e, he⟩

end TeamAttack.MaterializeReviewed
