import TeamAttack.Library.CharBoundary

/-! # Trimming and line breaks

    `str::trim` drops white space at both ends and nothing else, so a text is
    a gap, its trimmed core and another gap.  `str::lines` cuts at line feeds:
    a break in a text splits its lines, and the carriage return before it only
    shows at the end of the line it closes. -/

namespace RustStr

/-- White space throughout. -/
def Gap (s : Str) : Prop := ∀ c ∈ s, isWhitespace c = true

/-- A text `trim` leaves alone. -/
def Trimmed (s : Str) : Prop :=
  (∀ c, s.head? = some c → isWhitespace c = false)
    ∧ ∀ c, s.getLast? = some c → isWhitespace c = false

theorem gap_nil : Gap [] := fun _ h => (List.not_mem_nil h).elim

theorem gap_append {s t : Str} : Gap (s ++ t) ↔ Gap s ∧ Gap t := List.forall_mem_append

/-! ## Trimming -/

/-- What stands before and behind the core. -/
theorem trim_parts (s : Str) :
    ∃ lead trail, Gap lead ∧ Gap trail ∧ s = lead ++ (trim s ++ trail) := by
  refine ⟨s.takeWhile isWhitespace, (s.dropWhile isWhitespace).rtakeWhile isWhitespace, ?_, ?_, ?_⟩
  · intro c hc
    exact List.mem_takeWhile_imp hc
  · intro c hc
    exact List.mem_rtakeWhile_imp hc
  · rw [trim, List.rdropWhile_append_rtakeWhile, List.takeWhile_append_dropWhile]

theorem trim_eq_nil {s : Str} : trim s = [] ↔ Gap s := by
  constructor
  · intro h
    obtain ⟨lead, trail, hlead, htrail, hs⟩ := trim_parts s
    rw [h, List.nil_append] at hs
    rw [hs, gap_append]
    exact ⟨hlead, htrail⟩
  · intro h
    rw [trim, List.rdropWhile_eq_nil_iff]
    intro c hc
    exact h c ((List.dropWhile_suffix _).subset hc)

theorem trimmed_trim (s : Str) : Trimmed (trim s) := by
  constructor
  · intro c hc
    -- what is cut at the end leaves the first character
    have hprefix : trim s <+: s.dropWhile isWhitespace := List.rdropWhile_prefix isWhitespace _
    obtain ⟨rest, hrest⟩ := hprefix
    have hhead : (s.dropWhile isWhitespace).head? = some c := by
      rw [← hrest, List.head?_append, hc]
      rfl
    have hne : s.dropWhile isWhitespace ≠ [] := by
      intro hnil
      rw [hnil] at hhead
      cases hhead
    have hnot := List.head_dropWhile_not isWhitespace hne
    rw [List.head?_eq_some_head hne] at hhead
    rw [← Option.some.inj hhead]
    exact hnot
  · intro c hc
    have hne : trim s ≠ [] := by
      intro hnil
      rw [hnil] at hc
      cases hc
    have hnot := List.rdropWhile_last_not isWhitespace (s.dropWhile isWhitespace) hne
    rw [List.getLast?_eq_some_getLast hne] at hc
    rw [← Option.some.inj hc, ← Bool.not_eq_true]
    exact hnot

/-- **The gaps around a core are what `trim` drops.** -/
theorem trim_gaps {lead core trail : Str} (hlead : Gap lead) (htrail : Gap trail)
    (hcore : Trimmed core) : trim (lead ++ (core ++ trail)) = core := by
  obtain ⟨hhead, hlast⟩ := hcore
  rcases List.eq_nil_or_concat' core with rfl | ⟨init, last, rfl⟩
  · rw [List.nil_append, trim_eq_nil, gap_append]
    exact ⟨hlead, htrail⟩
  · have hfirst : (init ++ [last] ++ trail).dropWhile isWhitespace = init ++ [last] ++ trail := by
      obtain ⟨c, rest, hcons⟩ := List.exists_cons_of_ne_nil (List.concat_ne_nil last init)
      rw [hcons] at hhead ⊢
      rw [List.cons_append, List.dropWhile_cons_of_neg]
      rw [hhead c rfl]
      exact Bool.false_ne_true
    have hend : ¬ isWhitespace last = true := by
      rw [hlast last (List.getLast?_concat ..)]
      exact Bool.false_ne_true
    -- by induction from the end, where `trim` drops last
    have hgap : ∀ gap : Str, Gap gap →
        (init ++ [last] ++ gap).rdropWhile isWhitespace = init ++ [last] := by
      intro gap
      induction gap using List.reverseRecOn with
      | nil =>
          intro _
          rw [List.append_nil, List.rdropWhile_concat_neg _ _ _ hend]
      | append_singleton gap c ih =>
          intro h
          obtain ⟨hgap, hc⟩ := gap_append.mp h
          rw [← List.append_assoc,
            List.rdropWhile_concat_pos _ _ _ (hc c List.mem_cons_self), ih hgap]
    rw [trim, List.dropWhile_append_of_pos hlead, hfirst, hgap trail htrail]

/-- A text from one trimmed part to another is trimmed. -/
theorem trimmed_between {s t : Str} (middle : Str) (hs : Trimmed s) (hsne : s ≠ [])
    (ht : Trimmed t) (htne : t ≠ []) : Trimmed (s ++ (middle ++ t)) := by
  constructor
  · intro c hc
    rw [List.head?_append_of_ne_nil _ hsne] at hc
    exact hs.1 c hc
  · intro c hc
    rw [← List.append_assoc, List.getLast?_append_of_ne_nil _ htne] at hc
    exact ht.2 c hc

/-! ## Splitting back -/

/-- The parts of a text that was split. -/
theorem splitOnce?_parts {d : Char} {s key value : Str} (h : splitOnce? d s = some (key, value)) :
    d ∉ key ∧ s = key ++ d :: value := by
  induction s generalizing key with
  | nil => cases h
  | cons c s ih =>
      rw [splitOnce?] at h
      by_cases hc : c = d
      · rw [if_pos hc] at h
        cases h
        rw [hc]
        exact ⟨List.not_mem_nil, rfl⟩
      · rw [if_neg hc, Option.map_eq_some_iff] at h
        obtain ⟨⟨front, back⟩, hsplit, hparts⟩ := h
        cases hparts
        obtain ⟨hfront, hs⟩ := ih hsplit
        refine ⟨?_, congrArg (c :: ·) hs⟩
        rw [List.mem_cons, not_or]
        exact ⟨fun heq => hc heq.symm, hfront⟩

/-! ## Line breaks -/

/-- A line without the carriage returns at its end. -/
def withoutCr (l : Str) : Str := l.rdropWhile (· = '\r')

theorem withoutCr_concat (l : Str) : withoutCr (l ++ ['\r']) = withoutCr l :=
  List.rdropWhile_concat_pos _ l '\r' rfl

theorem stripCr_concat (l : Str) : stripCr (l ++ ['\r']) = l := by
  rw [stripCr, if_pos (List.getLast?_concat ..), List.dropLast_concat]

theorem withoutCr_stripCr (l : Str) : withoutCr (stripCr l) = withoutCr l := by
  unfold stripCr
  split
  · rename_i hlast
    obtain ⟨init, rfl⟩ := List.getLast?_eq_some_iff.mp hlast
    rw [List.dropLast_concat, withoutCr_concat]
  · rfl

/-- A break closes the line it stands in.  By induction on the text before
    it, the line begun in `current` growing. -/
theorem linesFrom_break (a : Str) : ∀ current, ∃ before last, ∀ cr rest,
    cr = [] ∨ cr = ['\r'] →
      linesFrom current (a ++ (cr ++ '\n' :: rest))
        = before ++ stripCr (last ++ cr) :: lines rest := by
  induction a with
  | nil =>
      intro current
      refine ⟨[], current, ?_⟩
      rintro cr rest (rfl | rfl)
      · rw [List.append_nil]
        rfl
      · rfl
  | cons c a ih =>
      intro current
      -- a line feed on the way closes a line of its own
      by_cases hc : c = '\n'
      · obtain ⟨before, last, hbreak⟩ := ih []
        refine ⟨stripCr current :: before, last, ?_⟩
        intro cr rest hcr
        rw [List.cons_append, linesFrom, if_pos hc, hbreak cr rest hcr]
        rfl
      · obtain ⟨before, last, hbreak⟩ := ih (current ++ [c])
        refine ⟨before, last, ?_⟩
        intro cr rest hcr
        rw [List.cons_append, linesFrom, if_neg hc, hbreak cr rest hcr]

/-- **A line feed and a carriage return with one break a text alike.** -/
theorem lines_newline (a b : Str) :
    (lines (a ++ '\n' :: b)).map withoutCr = (lines (a ++ '\r' :: '\n' :: b)).map withoutCr := by
  obtain ⟨before, last, hbreak⟩ := linesFrom_break a []
  have hlf : lines (a ++ '\n' :: b) = before ++ stripCr (last ++ []) :: lines b :=
    hbreak [] b (Or.inl rfl)
  have hcrlf : lines (a ++ '\r' :: '\n' :: b) = before ++ stripCr (last ++ ['\r']) :: lines b :=
    hbreak ['\r'] b (Or.inr rfl)
  rw [hlf, hcrlf, List.append_nil, stripCr_concat, List.map_append, List.map_append,
    List.map_cons, List.map_cons, withoutCr_stripCr]

end RustStr
