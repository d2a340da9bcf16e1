import TeamAttack.Library.RustLines
import TeamAttack.ConfigKeys

/-! # The lines of the configuration (`config.rs`)

    A line is blank, or it carries a key and a value: white space may stand
    around both, and either kind may end in a comment.  `parse` accepts a line
    exactly when it is of one of these kinds, and reads the key and the value
    that were written. -/

namespace TeamAttack

open RustStr ExceptRules

/-- A comment, or nothing. -/
def Comment (s : Str) : Prop := s = [] ∨ ∃ c, s = '#' :: c

/-- A line with nothing but white space and a comment. -/
def Blank (line : Str) : Prop :=
  ∃ gap comment, Gap gap ∧ Comment comment ∧ line = gap ++ comment

/-- A line `key = value # comment`, with the white space between its parts. -/
structure Entry where
  lead : Str
  key : Str
  beforeEq : Str
  afterEq : Str
  value : Str
  trail : Str
  comment : Str
  lead_gap : Gap lead
  beforeEq_gap : Gap beforeEq
  afterEq_gap : Gap afterEq
  trail_gap : Gap trail
  key_trimmed : Trimmed key
  key_nonempty : key ≠ []
  key_plain : '=' ∉ key ∧ '"' ∉ key ∧ '#' ∉ key
  value_trimmed : Trimmed value
  value_nonempty : value ≠ []
  value_legible : Legible value
  is_comment : Comment comment

/-- The part in front of the comment. -/
def Entry.code (e : Entry) : Str :=
  e.lead ++ (e.key ++ (e.beforeEq ++ '=' :: (e.afterEq ++ (e.value ++ e.trail))))

def Entry.text (e : Entry) : Str := e.code ++ e.comment

/-- The line gives the key this value. -/
def Carries (line key value : Str) : Prop :=
  ∃ e : Entry, e.text = line ∧ e.key = key ∧ e.value = value

/-! ## Where the comment starts -/

/-- A character the search for the comment passes, inside quotes or outside. -/
def Quiet (inQuotes : Bool) (c : Char) : Prop :=
  c ≠ '"' ∧ (inQuotes = true → c ≠ '\\') ∧ (inQuotes = false → c ≠ '#')

/-- A byte it passes. -/
def QuietByte (inQuotes : Bool) (b : UInt8) : Prop :=
  b ≠ 0x22 ∧ (inQuotes = true → b ≠ 0x5c) ∧ (inQuotes = false → b ≠ 0x23)

theorem byte_ne {c d : Char} (hd : isAscii d = true) (h : c ≠ d) :
    ∀ b ∈ String.utf8EncodeChar c, b ≠ UInt8.ofNat d.toNat := by
  intro b hb heq
  have hdlt : d.toNat < 128 := of_decide_eq_true hd
  have hdbyte : b.toNat = d.toNat := by
    rw [heq, UInt8.toNat_ofNat_of_lt' (by show d.toNat < 256; omega)]
  by_cases hascii : isAscii c = true
  · have hclt : c.toNat < 128 := of_decide_eq_true hascii
    rw [utf8EncodeChar_ascii hascii, List.mem_singleton] at hb
    rw [hb, UInt8.toNat_ofNat_of_lt' (by show c.toNat < 256; omega)] at hdbyte
    exact h (Char.toNat_inj.mp hdbyte)
  · rw [Bool.not_eq_true] at hascii
    have hhigh := utf8EncodeChar_high hascii b hb
    omega

theorem quietByte_of_quiet {inQuotes : Bool} {c : Char} (h : Quiet inQuotes c) :
    ∀ b ∈ String.utf8EncodeChar c, QuietByte inQuotes b := by
  intro b hb
  obtain ⟨hquote, hescape, hhash⟩ := h
  exact ⟨byte_ne (d := '"') rfl hquote b hb, fun hq => byte_ne (d := '\\') rfl (hescape hq) b hb,
    fun hq => byte_ne (d := '#') rfl (hhash hq) b hb⟩

theorem commentIndex?_quiet {inQuotes : Bool} {text : List UInt8}
    (h : ∀ b ∈ text, QuietByte inQuotes b) (index : Nat) (rest : List UInt8) :
    commentIndex? (text ++ rest) index inQuotes false
      = commentIndex? rest (index + text.length) inQuotes false := by
  induction text generalizing index with
  | nil => rfl
  | cons b text ih =>
      rw [List.forall_mem_cons] at h
      obtain ⟨⟨hquote, hescape, hhash⟩, htext⟩ := h
      have hnotEscape : ¬ (b = 0x5c && inQuotes) = true := by
        rw [Bool.and_eq_true, decide_eq_true_eq]
        exact fun hb => hescape hb.2 hb.1
      have hnotHash : ¬ (b = 0x23 && !inQuotes) = true := by
        rw [Bool.and_eq_true, decide_eq_true_eq, Bool.not_eq_true']
        exact fun hb => hhash hb.2 hb.1
      rw [List.cons_append, commentIndex?, if_neg Bool.false_ne_true, if_neg hnotEscape,
        if_neg hquote, if_neg hnotHash, ih htext, List.length_cons, Nat.add_right_comm,
        Nat.add_assoc]

/-- A text the search passes and leaves outside quotes. -/
def PassedText (s : Str) : Prop :=
  ∀ index rest, commentIndex? (bytes s ++ rest) index false false
    = commentIndex? rest (index + (bytes s).length) false false

theorem passed_append {s t : Str} (hs : PassedText s) (ht : PassedText t) :
    PassedText (s ++ t) := by
  intro index rest
  have hbytes : bytes (s ++ t) = bytes s ++ bytes t := List.flatMap_append
  rw [hbytes, List.append_assoc, hs, ht, List.length_append, Nat.add_assoc]

theorem bytes_quiet {inQuotes : Bool} {s : Str} (h : ∀ c ∈ s, Quiet inQuotes c) :
    ∀ b ∈ bytes s, QuietByte inQuotes b := by
  intro b hb
  obtain ⟨c, hc, hbc⟩ := List.mem_flatMap.mp hb
  exact quietByte_of_quiet (h c hc) b hbc

theorem passed_quiet {s : Str} (h : '"' ∉ s ∧ '#' ∉ s) : PassedText s := by
  intro index rest
  refine commentIndex?_quiet (bytes_quiet ?_) index rest
  intro c hc
  refine ⟨?_, nofun, fun _ => ?_⟩
  · rintro rfl
    exact h.1 hc
  · rintro rfl
    exact h.2 hc

/-- Between quotes even a `#` is passed. -/
theorem passed_quoted {inner : Str} (hquote : '"' ∉ inner) (hescape : '\\' ∉ inner) :
    PassedText ('"' :: (inner ++ ['"'])) := by
  intro index rest
  have hbytes : bytes ('"' :: (inner ++ ['"'])) = 0x22 :: (bytes inner ++ [0x22]) := by
    show bytes (['"'] ++ (inner ++ ['"'])) = _
    rw [bytes, List.flatMap_append, List.flatMap_append]
    rfl
  have hinner : ∀ b ∈ bytes inner, QuietByte true b := by
    refine bytes_quiet ?_
    intro c hc
    refine ⟨?_, fun _ => ?_, nofun⟩
    · rintro rfl
      exact hquote hc
    · rintro rfl
      exact hescape hc
  have hlength : index + (0x22 :: (bytes inner ++ [0x22])).length
      = index + 1 + (bytes inner).length + 1 := by
    rw [List.length_cons, List.length_append, List.length_singleton]
    omega
  rw [hbytes, hlength]
  show commentIndex? (bytes inner ++ [0x22] ++ rest) (index + 1) true false = _
  rw [List.append_assoc, commentIndex?_quiet hinner]
  rfl

theorem passed_legible {value : Str} (h : Legible value) : PassedText value := by
  rcases h with hplain | ⟨inner, rfl, hquote, hescape⟩
  · exact passed_quiet hplain
  · exact passed_quoted hquote hescape

theorem gap_plain {gap : Str} (h : Gap gap) : '"' ∉ gap ∧ '#' ∉ gap :=
  ⟨fun hc => Bool.false_ne_true (h '"' hc), fun hc => Bool.false_ne_true (h '#' hc)⟩

theorem passed_gap {gap : Str} (h : Gap gap) : PassedText gap := passed_quiet (gap_plain h)

/-- **The comment behind a passed text is cut off.** -/
theorem stripComment_passed {code comment : Str} (hcode : PassedText code)
    (hcomment : Comment comment) :
    stripComment (code ++ comment) = .ok code := by
  have hbytes : bytes (code ++ comment) = bytes code ++ bytes comment := List.flatMap_append
  rw [stripComment, hbytes, hcode, Nat.zero_add, length_bytes]
  rcases hcomment with rfl | ⟨c, rfl⟩
  · rw [List.append_nil]
    rfl
  · show sliced (sliceTo? (code ++ '#' :: c) (byteLen code)) = _
    rw [sliceTo?_append]
    rfl

/-- What is cut off is a comment. -/
theorem stripComment_parts {line code : Str} (h : stripComment line = .ok code) :
    ∃ comment, Comment comment ∧ line = code ++ comment := by
  unfold stripComment at h
  split at h
  · rename_i index hindex
    obtain ⟨_, hbyte⟩ := commentIndex?_hash hindex
    rw [Nat.sub_zero] at hbyte
    obtain ⟨⟨front, back⟩, hsplit⟩ := splitAtByte?_at_ascii (b := 0x23) hbyte (by decide)
    rw [sliceTo?, hsplit] at h
    obtain rfl : front = code := Except.ok.inj h
    obtain ⟨rfl, rfl⟩ := splitAtByte?_parts hsplit
    have hbytes : bytes (front ++ back) = bytes front ++ bytes back := List.flatMap_append
    rw [hbytes, ← length_bytes, List.getElem?_append_right le_rfl, Nat.sub_self] at hbyte
    refine ⟨back, ?_, rfl⟩
    -- the byte at the cut is a `#`, so the rest begins with that character
    cases back with
    | nil => cases hbyte
    | cons c back =>
        refine Or.inr ⟨back, ?_⟩
        by_contra hne
        have hc : c ≠ '#' := fun heq => hne (by rw [heq])
        have hfirst : (String.utf8EncodeChar c)[0]? = some 0x23 := by
          have hpos : 0 < (String.utf8EncodeChar c).length := by
            rw [String.length_utf8EncodeChar]
            exact c.utf8Size_pos
          rw [← hbyte]
          exact (List.getElem?_append_left hpos).symm
        exact byte_ne (d := '#') rfl hc 0x23 (List.mem_of_getElem? hfirst) rfl
  · cases h
    exact ⟨[], Or.inl rfl, (List.append_nil _).symm⟩

/-! ## Reading a line -/

namespace Entry

variable (e : Entry)

theorem strip : stripComment e.text = .ok e.code := by
  refine stripComment_passed ?_ e.is_comment
  have hkey : PassedText e.key := passed_quiet e.key_plain.2
  have heq : PassedText ['='] := passed_quiet (by decide)
  have hcode : e.code = e.lead ++ (e.key ++ (e.beforeEq ++ (['='] ++ (e.afterEq
      ++ (e.value ++ e.trail))))) := rfl
  rw [hcode]
  exact passed_append (passed_gap e.lead_gap) (passed_append hkey (passed_append
    (passed_gap e.beforeEq_gap) (passed_append heq (passed_append (passed_gap e.afterEq_gap)
      (passed_append (passed_legible e.value_legible) (passed_gap e.trail_gap))))))

theorem trim_code :
    trim e.code = e.key ++ e.beforeEq ++ '=' :: (e.afterEq ++ e.value) := by
  have hcode : e.code = e.lead ++ (e.key ++ (e.beforeEq ++ '=' :: e.afterEq ++ e.value)
      ++ e.trail) := by
    simp only [code, List.append_assoc, List.cons_append]
  have htrimmed := trimmed_between (e.beforeEq ++ '=' :: e.afterEq) e.key_trimmed e.key_nonempty
    e.value_trimmed e.value_nonempty
  rw [hcode, trim_gaps e.lead_gap e.trail_gap htrimmed]
  simp only [List.append_assoc, List.cons_append]

theorem split :
    splitOnce? '=' (trim e.code) = some (e.key ++ e.beforeEq, e.afterEq ++ e.value) := by
  rw [trim_code]
  refine splitOnce?_append ?_ _
  rw [List.mem_append, not_or]
  exact ⟨e.key_plain.1, fun h => Bool.false_ne_true (e.beforeEq_gap '=' h)⟩

theorem trim_key : trim (e.key ++ e.beforeEq) = e.key :=
  trim_gaps gap_nil e.beforeEq_gap e.key_trimmed

theorem trim_value : trim (e.afterEq ++ e.value) = e.value := by
  have hgaps := trim_gaps e.afterEq_gap gap_nil e.value_trimmed
  rw [List.append_nil] at hgaps
  exact hgaps

theorem code_nonblank : trim e.code ≠ [] := by
  rw [trim_code]
  intro h
  rw [List.append_eq_nil_iff] at h
  exact List.cons_ne_nil _ _ h.2

end Entry

theorem blank_strip {line : Str} (h : Blank line) :
    ∃ code, stripComment line = .ok code ∧ trim code = [] := by
  obtain ⟨gap, comment, hgap, hcomment, rfl⟩ := h
  exact ⟨gap, stripComment_passed (passed_gap hgap) hcomment, trim_eq_nil.mpr hgap⟩

/-- No line is of both kinds. -/
theorem not_blank_of_carries {line key value : Str} (h : Carries line key value) :
    ¬ Blank line := by
  obtain ⟨e, rfl, -, -⟩ := h
  intro hblank
  obtain ⟨code, hstrip, hcode⟩ := blank_strip hblank
  rw [e.strip] at hstrip
  obtain rfl := Except.ok.inj hstrip
  exact e.code_nonblank hcode

/-- A line carries one key and one value. -/
theorem carries_unique {line key value key' value' : Str} (h : Carries line key value)
    (h' : Carries line key' value') : key = key' ∧ value = value' := by
  obtain ⟨e, rfl, rfl, rfl⟩ := h
  obtain ⟨e', htext, rfl, rfl⟩ := h'
  have hcode : e'.code = e.code := by
    have hstrip := e'.strip
    rw [htext, e.strip] at hstrip
    exact (Except.ok.inj hstrip).symm
  have hsplit := e'.split
  rw [hcode, e.split, Option.some.injEq, Prod.mk.injEq] at hsplit
  constructor
  · rw [← e.trim_key, hsplit.1, e'.trim_key]
  · rw [← e.trim_value, hsplit.2, e'.trim_value]

/-! ## One iteration of the loop -/

theorem name_plain (k : Key) : '=' ∉ k.name ∧ '"' ∉ k.name ∧ '#' ∉ k.name := by
  cases k <;> decide

/-- A blank line changes nothing. -/
theorem parseLine_blank {line : Str} (h : Blank line) (state : Config × List Str) (n : Nat) :
    parseLine state line n = .ok state := by
  obtain ⟨code, hstrip, hcode⟩ := blank_strip h
  obtain ⟨config, seen⟩ := state
  rw [parseLine, hstrip]
  exact if_pos hcode

/-- A line with a known key stores its value, unless the key was seen. -/
theorem parseLine_carries {line value : Str} {k : Key} (h : Carries line k.name value)
    {config : Config} {seen : List Str} {n : Nat} {state' : Config × List Str} :
    parseLine (config, seen) line n = .ok state'
      ↔ k.name ∉ seen ∧ ∃ v, k.decode value = some v
        ∧ state' = (k.set config v, k.name :: seen) := by
  obtain ⟨e, rfl, hkey, rfl⟩ := h
  have hvalue : ¬ (k.name = [] || e.value = []) = true := by
    rw [← hkey, Bool.or_eq_true, decide_eq_true_eq, decide_eq_true_eq, not_or]
    exact ⟨e.key_nonempty, e.value_nonempty⟩
  -- what is left of the line behind the tests
  have hline : parseLine (config, seen) e.text n = (do
      if k.name ∈ seen then
        syntaxError n ("duplicate key '".toList ++ k.name ++ ['\''])
      return (← setKey config k.name e.value n, k.name :: seen)) := by
    rw [parseLine, e.strip]
    refine (if_neg e.code_nonblank).trans ?_
    rw [e.split]
    dsimp only
    rw [e.trim_key, e.trim_value, hkey]
    exact if_neg hvalue
  rw [hline, setKey_name]
  constructor
  · intro hok
    obtain ⟨hfresh, hok⟩ := syntaxCheck_ok.mp hok
    obtain ⟨config', hset, hstate⟩ := bind_eq_ok.mp hok
    obtain ⟨v, hv, hconfig⟩ := bind_eq_ok.mp hset
    obtain rfl := Except.ok.inj hconfig
    obtain rfl := Except.ok.inj hstate
    exact ⟨hfresh, v, parseValue_ok.mp hv, rfl⟩
  · rintro ⟨hfresh, v, hv, rfl⟩
    refine syntaxCheck_ok.mpr ⟨hfresh, bind_eq_ok.mpr ⟨k.set config v, ?_, rfl⟩⟩
    exact bind_eq_ok.mpr ⟨v, parseValue_ok.mpr hv, rfl⟩

/-- **Every line that is accepted is of one of the two kinds.** -/
theorem parseLine_ok {state state' : Config × List Str} {line : Str} {n : Nat}
    (h : parseLine state line n = .ok state') :
    Blank line ∨ ∃ (k : Key) (value : Str), Carries line k.name value := by
  obtain ⟨config, seen⟩ := state
  obtain ⟨code, hstrip, hrest⟩ := bind_eq_ok.mp h
  obtain ⟨comment, hcomment, rfl⟩ := stripComment_parts hstrip
  obtain ⟨lead, trail, hlead, htrail, hcode⟩ := trim_parts code
  by_cases hblank : trim code = []
  · exact Or.inl ⟨code, comment, trim_eq_nil.mp hblank, hcomment, rfl⟩
  · refine Or.inr ?_
    dsimp only at hrest
    rw [if_neg hblank] at hrest
    split at hrest
    · cases hrest
    · rename_i rawKey rawValue hsplit
      obtain ⟨heq, hparts⟩ := splitOnce?_parts hsplit
      obtain ⟨hpresent, hrest⟩ := syntaxCheck_ok.mp hrest
      obtain ⟨-, hrest⟩ := syntaxCheck_ok.mp hrest
      obtain ⟨config', hset, -⟩ := bind_eq_ok.mp hrest
      simp only [Bool.or_eq_true, decide_eq_true_eq, not_or] at hpresent
      obtain ⟨hkey, hvalue⟩ := hpresent
      -- a key that `setKey` takes is one of the known names
      obtain ⟨k, hk⟩ : ∃ k : Key, trim rawKey = k.name := by
        by_contra hunknown
        rw [setKey_unknown (fun k hk => hunknown ⟨k, hk⟩)] at hset
        cases hset
      rw [hk, setKey_name] at hset
      obtain ⟨v, hv, -⟩ := bind_eq_ok.mp hset
      obtain ⟨keyLead, keyTrail, hkeyLead, hkeyTrail, hrawKey⟩ := trim_parts rawKey
      obtain ⟨valueLead, valueTrail, hvalueLead, hvalueTrail, hrawValue⟩ := trim_parts rawValue
      -- the gaps around the line and around its two halves
      refine ⟨k, trim rawValue, ⟨lead ++ keyLead, trim rawKey, keyTrail, valueLead, trim rawValue,
        valueTrail ++ trail, comment, gap_append.mpr ⟨hlead, hkeyLead⟩, hkeyTrail, hvalueLead,
        gap_append.mpr ⟨hvalueTrail, htrail⟩, trimmed_trim rawKey, hkey, ?_,
        trimmed_trim rawValue, hvalue, decode_legible (parseValue_ok.mp hv), hcomment⟩, ?_, hk, rfl⟩
      · rw [hk]
        exact name_plain k
      · show (lead ++ keyLead ++ (trim rawKey ++ (keyTrail ++ '=' :: (valueLead
          ++ (trim rawValue ++ (valueTrail ++ trail)))))) ++ comment = code ++ comment
        rw [hcode, hparts]
        conv_rhs => rw [hrawKey, hrawValue]
        simp only [List.append_assoc, List.cons_append]

end TeamAttack
