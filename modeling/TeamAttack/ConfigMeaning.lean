import TeamAttack.ConfigGrammar

/-! # What a configuration means (`config.rs`)

    A text means the entries on its lines, each key with its value.  `parse`
    accepts it when no key comes twice and every value decodes; the
    configuration then holds the decoded values and the defaults of the other
    keys.  Neither depends on the order of the lines, on blank lines, on line
    ends, on white space or on comments. -/

namespace TeamAttack

open RustStr ExceptRules

/-- The entries of a line: one, or none where it is blank. -/
def Means (line : Str) (entries : List (Key × Str)) : Prop :=
  Blank line ∧ entries = []
    ∨ ∃ (k : Key) (value : Str), Carries line k.name value ∧ entries = [(k, value)]

/-- The entries of several lines. -/
def ReadsAs : List Str → List (Key × Str) → Prop
  | [], entries => entries = []
  | line :: rest, entries =>
      ∃ here later, Means line here ∧ ReadsAs rest later ∧ entries = here ++ later

/-- The configuration the entries make of another one, none of their keys
    having been seen. -/
structure Settles (config : Config) (seen : List Str) (entries : List (Key × Str))
    (result : Config) : Prop where
  nodup : (entries.map Prod.fst).Nodup
  fresh : ∀ e ∈ entries, e.1.name ∉ seen
  stored : ∀ e ∈ entries, e.1.decode e.2 = some (e.1.get result)
  kept : ∀ k : Key, k ∉ entries.map Prod.fst → k.get result = k.get config

/-! ## The run over the lines -/

theorem settles_nil {config result : Config} {seen : List Str} :
    Settles config seen [] result ↔ result = config := by
  constructor
  · intro h
    exact Key.config_ext (fun k => h.kept k List.not_mem_nil)
  · rintro rfl
    exact ⟨List.nodup_nil, fun _ he => (List.not_mem_nil he).elim,
      fun _ he => (List.not_mem_nil he).elim, fun _ _ => rfl⟩

/-- An entry stores its value; the others then work on what it leaves. -/
theorem settles_cons {config result : Config} {seen : List Str} {k : Key} {value : Str}
    {entries : List (Key × Str)} :
    Settles config seen ((k, value) :: entries) result
      ↔ k.name ∉ seen ∧ ∃ v, k.decode value = some v
        ∧ Settles (k.set config v) (k.name :: seen) entries result := by
  constructor
  · rintro ⟨hnodup, hfresh, hstored, hkept⟩
    rw [List.map_cons, List.nodup_cons] at hnodup
    rw [List.forall_mem_cons] at hfresh hstored
    refine ⟨hfresh.1, k.get result, hstored.1, hnodup.2, ?_, hstored.2, ?_⟩
    · intro e he
      rw [List.mem_cons, not_or]
      refine ⟨?_, hfresh.2 e he⟩
      intro hname
      refine hnodup.1 (List.mem_map.mpr ⟨e, he, Key.name_injective hname⟩)
    · intro l hl
      by_cases hlk : l = k
      · rw [hlk, Key.get_set]
      · rw [Key.get_set_of_ne hlk]
        refine hkept l ?_
        rw [List.map_cons, List.mem_cons, not_or]
        exact ⟨hlk, hl⟩
  · rintro ⟨hseen, v, hv, hnodup, hfresh, hstored, hkept⟩
    -- the keys of the other entries are unseen once `k` is seen
    have hk : k ∉ entries.map Prod.fst := by
      intro hmem
      obtain ⟨e, he, heq⟩ := List.mem_map.mp hmem
      have hname := hfresh e he
      rw [heq] at hname
      exact hname List.mem_cons_self
    have hvalue : k.get result = v := by
      rw [hkept k hk, Key.get_set]
    refine ⟨?_, ?_, ?_, ?_⟩
    · rw [List.map_cons, List.nodup_cons]
      exact ⟨hk, hnodup⟩
    · rw [List.forall_mem_cons]
      exact ⟨hseen, fun e he hmem => hfresh e he (List.mem_cons_of_mem _ hmem)⟩
    · rw [List.forall_mem_cons]
      refine ⟨?_, hstored⟩
      rw [hvalue]
      exact hv
    · intro l hl
      rw [List.map_cons, List.mem_cons, not_or] at hl
      rw [hkept l hl.2, Key.get_set_of_ne hl.1]

/-- Entries in another order settle alike. -/
theorem Settles.perm {config result : Config} {seen : List Str} {es es' : List (Key × Str)}
    (h : Settles config seen es result) (hperm : es.Perm es') :
    Settles config seen es' result := by
  have hkeys := hperm.map Prod.fst
  refine ⟨hkeys.nodup_iff.mp h.nodup, ?_, ?_, ?_⟩
  · intro e he
    exact h.fresh e (hperm.mem_iff.mpr he)
  · intro e he
    exact h.stored e (hperm.mem_iff.mpr he)
  · intro k hk
    exact h.kept k (fun hmem => hk (hkeys.mem_iff.mp hmem))

/-- The loop of `parse`, from any line number. -/
theorem parseLines_ok (ls : List Str) : ∀ (n : Nat) (config : Config) (seen : List Str)
    (result : Config),
    (∃ seen', (ls.zipIdx n).foldlM (fun state l => parseLine state l.1 (l.2 + 1)) (config, seen)
        = .ok (result, seen'))
      ↔ ∃ entries, ReadsAs ls entries ∧ Settles config seen entries result := by
  induction ls with
  | nil =>
      intro n config seen result
      constructor
      · rintro ⟨seen', h⟩
        cases h
        exact ⟨[], rfl, settles_nil.mpr rfl⟩
      · rintro ⟨entries, rfl, h⟩
        rw [settles_nil.mp h]
        exact ⟨seen, rfl⟩
  | cons line rest ih =>
      intro n config seen result
      constructor
      · rintro ⟨seen', h⟩
        rw [List.zipIdx_cons, List.foldlM_cons] at h
        obtain ⟨state', hline, hrest⟩ := bind_eq_ok.mp h
        -- an accepted line is blank or carries an entry
        rcases parseLine_ok hline with hblank | ⟨k, value, hcarries⟩
        · rw [parseLine_blank hblank] at hline
          obtain rfl := Except.ok.inj hline
          obtain ⟨entries, hreads, hsettles⟩ := (ih _ _ _ _).mp ⟨seen', hrest⟩
          exact ⟨entries, ⟨[], entries, Or.inl ⟨hblank, rfl⟩, hreads, rfl⟩, hsettles⟩
        · obtain ⟨hfresh, v, hv, rfl⟩ := (parseLine_carries hcarries).mp hline
          obtain ⟨entries, hreads, hsettles⟩ := (ih _ _ _ _).mp ⟨seen', hrest⟩
          exact ⟨(k, value) :: entries,
            ⟨[(k, value)], entries, Or.inr ⟨k, value, hcarries, rfl⟩, hreads, rfl⟩,
            settles_cons.mpr ⟨hfresh, v, hv, hsettles⟩⟩
      · rintro ⟨_, ⟨here, later, hmeans, hreads, rfl⟩, hsettles⟩
        rw [List.zipIdx_cons, List.foldlM_cons]
        rcases hmeans with ⟨hblank, rfl⟩ | ⟨k, value, hcarries, rfl⟩
        · obtain ⟨seen', hrest⟩ := (ih (n + 1) _ _ _).mpr ⟨later, hreads, hsettles⟩
          exact ⟨seen', bind_eq_ok.mpr ⟨_, parseLine_blank hblank _ _, hrest⟩⟩
        · obtain ⟨hfresh, v, hv, hsettles⟩ := settles_cons.mp hsettles
          obtain ⟨seen', hrest⟩ := (ih (n + 1) _ _ _).mpr ⟨later, hreads, hsettles⟩
          have hline : parseLine (config, seen) line (n + 1)
              = .ok (k.set config v, k.name :: seen) :=
            (parseLine_carries hcarries).mpr ⟨hfresh, v, hv, rfl⟩
          exact ⟨seen', bind_eq_ok.mpr ⟨_, hline, hrest⟩⟩

/-- **What `parse` accepts, and what it makes of it.** -/
theorem parse_ok {t : Str} {config : Config} :
    parse t = .ok config
      ↔ byteLen t ≤ maxConfigBytes ∧ (1 ≤ config.maxDumps && config.maxDumps ≤ 256) = true
        ∧ ∃ entries, ReadsAs (lines t) entries ∧ Settles Config.default [] entries config := by
  rw [← parseLines_ok (lines t) 0, parse]
  constructor
  · intro h
    obtain ⟨hsize, h⟩ := syntaxCheck_ok.mp h
    obtain ⟨⟨result, seen⟩, hrun, h⟩ := bind_eq_ok.mp h
    obtain ⟨hrange, h⟩ := syntaxCheck_ok.mp h
    obtain rfl := Except.ok.inj h
    rw [Bool.not_eq_true', Bool.not_eq_false] at hrange
    exact ⟨Nat.le_of_not_gt hsize, hrange, seen, hrun⟩
  · rintro ⟨hsize, hrange, seen, hrun⟩
    refine syntaxCheck_ok.mpr ⟨Nat.not_lt.mpr hsize, bind_eq_ok.mpr ⟨_, hrun, ?_⟩⟩
    refine syntaxCheck_ok.mpr ⟨?_, rfl⟩
    rw [Bool.not_eq_true', Bool.not_eq_false]
    exact hrange

/-! ## Rearranging lines -/

theorem reads_append {before after : List Str} {entries : List (Key × Str)} :
    ReadsAs (before ++ after) entries
      ↔ ∃ es es', ReadsAs before es ∧ ReadsAs after es' ∧ entries = es ++ es' := by
  induction before generalizing entries with
  | nil =>
      constructor
      · intro h
        exact ⟨[], entries, rfl, h, rfl⟩
      · rintro ⟨es, es', rfl, h, rfl⟩
        exact h
  | cons line before ih =>
      constructor
      · rintro ⟨here, later, hmeans, hlater, rfl⟩
        obtain ⟨es, es', hbefore, hafter, rfl⟩ := ih.mp hlater
        exact ⟨here ++ es, es', ⟨here, es, hmeans, hbefore, rfl⟩, hafter,
          (List.append_assoc ..).symm⟩
      · rintro ⟨_, es', ⟨here, es, hmeans, hbefore, rfl⟩, hafter, rfl⟩
        exact ⟨here, es ++ es', hmeans, ih.mpr ⟨es, es', hbefore, hafter, rfl⟩,
          List.append_assoc ..⟩

/-- Lines in another order mean their entries in another order. -/
theorem reads_perm {ls ls' : List Str} (hperm : ls.Perm ls') :
    ∀ entries, ReadsAs ls entries → ∃ entries', entries.Perm entries' ∧ ReadsAs ls' entries' := by
  induction hperm with
  | nil =>
      intro entries h
      exact ⟨entries, List.Perm.refl _, h⟩
  | cons line _ ih =>
      rintro _ ⟨here, later, hmeans, hlater, rfl⟩
      obtain ⟨later', hperm, hlater'⟩ := ih later hlater
      exact ⟨here ++ later', hperm.append_left here, here, later', hmeans, hlater', rfl⟩
  | swap line line' rest =>
      rintro _ ⟨here', _, hmeans', ⟨here, later, hmeans, hlater, rfl⟩, rfl⟩
      refine ⟨here ++ (here' ++ later), ?_, here, _, hmeans, ⟨here', later, hmeans', hlater, rfl⟩,
        rfl⟩
      rw [← List.append_assoc, ← List.append_assoc]
      exact List.perm_append_comm.append_right later
  | trans _ _ ih ih' =>
      intro entries h
      obtain ⟨es, hperm, hes⟩ := ih entries h
      obtain ⟨es', hperm', hes'⟩ := ih' es hes
      exact ⟨es', hperm.trans hperm', hes'⟩

/-- Lines replaced by others of the same meaning. -/
theorem reads_map {f : Str → Str}
    (hf : ∀ line entries, Means line entries ↔ Means (f line) entries)
    {ls : List Str} {entries : List (Key × Str)} :
    ReadsAs ls entries ↔ ReadsAs (ls.map f) entries := by
  induction ls generalizing entries with
  | nil => exact Iff.rfl
  | cons line rest ih =>
      constructor
      · rintro ⟨here, later, hmeans, hlater, rfl⟩
        exact ⟨here, later, (hf line here).mp hmeans, ih.mp hlater, rfl⟩
      · rintro ⟨here, later, hmeans, hlater, rfl⟩
        exact ⟨here, later, (hf line here).mpr hmeans, ih.mpr hlater, rfl⟩

/-! ## The end of a line -/

theorem comment_append {s : Str} (h : Comment s) (hne : s ≠ []) (tail : Str) :
    Comment (s ++ tail) := by
  rcases h with rfl | ⟨c, rfl⟩
  · exact absurd rfl hne
  · exact Or.inr ⟨c ++ tail, rfl⟩

/-- White space and a comment behind a line add nothing. -/
theorem blank_append {line gap comment : Str} (h : Blank line) (hgap : Gap gap)
    (hcomment : Comment comment) : Blank (line ++ (gap ++ comment)) := by
  obtain ⟨lead, old, hlead, hold, rfl⟩ := h
  by_cases hnil : old = []
  · refine ⟨lead ++ gap, comment, gap_append.mpr ⟨hlead, hgap⟩, hcomment, ?_⟩
    rw [hnil, List.append_nil, List.append_assoc]
  · exact ⟨lead, old ++ (gap ++ comment), hlead, comment_append hold hnil _,
      List.append_assoc ..⟩

theorem carries_append {line key value gap comment : Str} (h : Carries line key value)
    (hgap : Gap gap) (hcomment : Comment comment) :
    Carries (line ++ (gap ++ comment)) key value := by
  obtain ⟨e, rfl, rfl, rfl⟩ := h
  by_cases hnil : e.comment = []
  · refine ⟨{ e with
      trail := e.trail ++ gap
      comment := comment
      trail_gap := gap_append.mpr ⟨e.trail_gap, hgap⟩
      is_comment := hcomment }, ?_, rfl, rfl⟩
    simp only [Entry.text, Entry.code, hnil, List.append_nil, List.append_assoc, List.cons_append]
  · refine ⟨{ e with
      comment := e.comment ++ (gap ++ comment)
      is_comment := comment_append e.is_comment hnil _ }, ?_, rfl, rfl⟩
    simp only [Entry.text, Entry.code, List.append_assoc, List.cons_append]

theorem means_append {line gap comment : Str} {entries : List (Key × Str)}
    (h : Means line entries) (hgap : Gap gap) (hcomment : Comment comment) :
    Means (line ++ (gap ++ comment)) entries := by
  rcases h with ⟨hblank, rfl⟩ | ⟨k, value, hcarries, rfl⟩
  · exact Or.inl ⟨blank_append hblank hgap hcomment, rfl⟩
  · exact Or.inr ⟨k, value, carries_append hcarries hgap hcomment, rfl⟩

theorem gap_cr : Gap ['\r'] := by
  intro c hc
  rw [List.mem_singleton.mp hc]
  rfl

/-- A text that ends in a carriage return ends in it within its last part. -/
theorem comment_init {init : Str} (h : Comment (init ++ ['\r'])) : Comment init := by
  rcases h with h | ⟨c, h⟩
  · exact absurd h (List.concat_ne_nil _ _)
  · cases init with
    | nil => exact Or.inl rfl
    | cons d init =>
        obtain ⟨rfl, -⟩ := List.cons.inj h
        exact Or.inr ⟨init, rfl⟩

theorem blank_of_cr {line : Str} (h : Blank (line ++ ['\r'])) : Blank line := by
  obtain ⟨gap, comment, hgap, hcomment, hline⟩ := h
  rcases List.eq_nil_or_concat' comment with rfl | ⟨init, last, rfl⟩
  · rw [List.append_nil] at hline
    rw [← hline, gap_append] at hgap
    exact ⟨line, [], hgap.1, Or.inl rfl, (List.append_nil line).symm⟩
  · rw [← List.append_assoc] at hline
    obtain ⟨rfl, hlast⟩ := List.append_inj' hline rfl
    rw [← hlast] at hcomment
    exact ⟨gap, init, hgap, comment_init hcomment, rfl⟩

theorem carries_of_cr {line key value : Str} (h : Carries (line ++ ['\r']) key value) :
    Carries line key value := by
  obtain ⟨e, hline, rfl, rfl⟩ := h
  rcases List.eq_nil_or_concat' e.comment with hnil | ⟨init, last, hcomment⟩
  · have hcode : e.lead ++ (e.key ++ (e.beforeEq ++ '=' :: (e.afterEq ++ (e.value ++ e.trail))))
        = line ++ ['\r'] := by
      rw [← hline, Entry.text, hnil, List.append_nil]
      rfl
    rcases List.eq_nil_or_concat' e.trail with htrail | ⟨init, last, htrail⟩
    · -- then the value would end in white space
      obtain ⟨front, last, hvalue⟩ := (List.eq_nil_or_concat' e.value).resolve_left e.value_nonempty
      have hends : (e.lead ++ e.key ++ e.beforeEq ++ '=' :: e.afterEq ++ front) ++ [last]
          = line ++ ['\r'] := by
        rw [← hcode, htrail, hvalue]
        simp only [List.append_nil, List.append_assoc, List.cons_append]
      obtain ⟨-, hlast⟩ := List.append_inj' hends rfl
      have hwhite := e.value_trimmed.2 last (by rw [hvalue, List.getLast?_concat])
      rw [List.singleton_inj.mp hlast] at hwhite
      exact absurd hwhite (by decide)
    · have hends : (e.lead ++ e.key ++ e.beforeEq ++ '=' :: e.afterEq ++ e.value ++ init) ++ [last]
          = line ++ ['\r'] := by
        rw [← hcode, htrail]
        simp only [List.append_assoc, List.cons_append]
      obtain ⟨hinit, -⟩ := List.append_inj' hends rfl
      have hgap := e.trail_gap
      rw [htrail, gap_append] at hgap
      refine ⟨{ e with trail := init, trail_gap := hgap.1 }, ?_, rfl, rfl⟩
      rw [← hinit]
      simp only [Entry.text, Entry.code, hnil, List.append_nil, List.append_assoc, List.cons_append]
  · have hends : (e.code ++ init) ++ [last] = line ++ ['\r'] := by
      rw [← hline, Entry.text, hcomment, List.append_assoc]
    obtain ⟨hinit, hlast⟩ := List.append_inj' hends rfl
    have hcut := e.is_comment
    rw [hcomment, hlast] at hcut
    exact ⟨{ e with comment := init, is_comment := comment_init hcut }, hinit, rfl, rfl⟩

/-- **Carriage returns at the end of a line mean nothing.** -/
theorem means_withoutCr (line : Str) (entries : List (Key × Str)) :
    Means line entries ↔ Means (withoutCr line) entries := by
  induction line using List.reverseRecOn with
  | nil => exact Iff.rfl
  | append_singleton line c ih =>
      by_cases hc : c = '\r'
      · rw [hc, withoutCr_concat, ← ih]
        constructor
        · rintro (⟨hblank, rfl⟩ | ⟨k, value, hcarries, rfl⟩)
          · exact Or.inl ⟨blank_of_cr hblank, rfl⟩
          · exact Or.inr ⟨k, value, carries_of_cr hcarries, rfl⟩
        · intro h
          exact means_append h gap_cr (Or.inl rfl)
      · rw [withoutCr, List.rdropWhile_concat_neg]
        rw [decide_eq_true_eq]
        exact hc

/-! ## Edits -/

/-- One rearrangement of a text. -/
inductive Edit : Str → Str → Prop
  /-- The lines in another order; carriage returns at their ends do not count. -/
  | permute {t t' : Str} (h : ((lines t).map withoutCr).Perm ((lines t').map withoutCr)) :
      Edit t t'
  /-- A blank line or a line with only a comment comes in. -/
  | insertBlank {t t' line : Str} {before after : List Str} (hblank : Blank line)
      (h : lines t = before ++ after) (h' : lines t' = before ++ line :: after) : Edit t t'
  /-- Such a line goes. -/
  | deleteBlank {t t' line : Str} {before after : List Str} (hblank : Blank line)
      (h : lines t = before ++ line :: after) (h' : lines t' = before ++ after) : Edit t t'
  /-- A line feed becomes a carriage return with a line feed. -/
  | crlf (a b : Str) : Edit (a ++ '\n' :: b) (a ++ '\r' :: '\n' :: b)
  /-- The other way round. -/
  | lf (a b : Str) : Edit (a ++ '\r' :: '\n' :: b) (a ++ '\n' :: b)
  /-- Other white space stands around the key and the value of a line. -/
  | spaces {t t' : Str} {e e' : Entry} {before after : List Str} (hkey : e'.key = e.key)
      (hvalue : e'.value = e.value) (hcomment : e'.comment = e.comment)
      (h : lines t = before ++ e.text :: after) (h' : lines t' = before ++ e'.text :: after) :
      Edit t t'
  /-- A comment is written behind a line. -/
  | comment {t t' line : Str} {before after : List Str} (c : Str)
      (h : lines t = before ++ line :: after)
      (h' : lines t' = before ++ (line ++ (" # ".toList ++ c)) :: after) : Edit t t'

/-- A line replaced by one of the same meaning. -/
theorem reads_replace {before after : List Str} {line line' : Str} {entries : List (Key × Str)}
    (hline : ∀ es, Means line es → Means line' es) (h : ReadsAs (before ++ line :: after) entries) :
    ReadsAs (before ++ line' :: after) entries := by
  obtain ⟨es, _, hbefore, ⟨here, later, hmeans, hafter, rfl⟩, rfl⟩ := reads_append.mp h
  exact reads_append.mpr ⟨es, _, hbefore, ⟨here, later, hline here hmeans, hafter, rfl⟩, rfl⟩

/-- Lines alike up to order and carriage returns. -/
theorem reads_permute {ls ls' : List Str}
    (hperm : (ls.map withoutCr).Perm (ls'.map withoutCr)) {entries : List (Key × Str)}
    (h : ReadsAs ls entries) : ∃ entries', entries.Perm entries' ∧ ReadsAs ls' entries' := by
  rw [reads_map means_withoutCr] at h
  obtain ⟨entries', hentries, hreads⟩ := reads_perm hperm entries h
  rw [← reads_map means_withoutCr] at hreads
  exact ⟨entries', hentries, hreads⟩

/-- **An edit keeps the entries**, though not their order. -/
theorem Edit.reads {t t' : Str} (hedit : Edit t t') {entries : List (Key × Str)}
    (h : ReadsAs (lines t) entries) :
    ∃ entries', entries.Perm entries' ∧ ReadsAs (lines t') entries' := by
  cases hedit with
  | permute hperm => exact reads_permute hperm h
  | insertBlank hblank ht ht' =>
      rw [ht] at h
      obtain ⟨es, es', hbefore, hafter, rfl⟩ := reads_append.mp h
      rw [ht']
      exact ⟨_, List.Perm.refl _, reads_append.mpr ⟨es, es', hbefore,
        ⟨[], es', Or.inl ⟨hblank, rfl⟩, hafter, rfl⟩, rfl⟩⟩
  | deleteBlank hblank ht ht' =>
      rw [ht] at h
      obtain ⟨es, _, hbefore, ⟨here, later, hmeans, hafter, rfl⟩, rfl⟩ := reads_append.mp h
      -- a blank line carries no entry
      obtain rfl : here = [] := by
        rcases hmeans with ⟨_, rfl⟩ | ⟨k, value, hcarries, _⟩
        · rfl
        · exact absurd hblank (not_blank_of_carries hcarries)
      rw [ht']
      exact ⟨_, List.Perm.refl _, reads_append.mpr ⟨es, later, hbefore, hafter, rfl⟩⟩
  | crlf a b =>
      refine reads_permute ?_ h
      rw [lines_newline]
  | lf a b =>
      refine reads_permute ?_ h
      rw [lines_newline]
  | @spaces _ _ e e' before after hkey hvalue hcomment ht ht' =>
      rw [ht] at h
      rw [ht']
      refine ⟨entries, List.Perm.refl _, reads_replace ?_ h⟩
      rintro es (⟨hblank, rfl⟩ | ⟨k, value, hcarries, rfl⟩)
      · exact absurd hblank (not_blank_of_carries ⟨e, rfl, rfl, rfl⟩)
      · obtain ⟨hname, htext⟩ := carries_unique ⟨e, rfl, rfl, rfl⟩ hcarries
        exact Or.inr ⟨k, value, ⟨e', rfl, hkey.trans hname, hvalue.trans htext⟩, rfl⟩
  | comment c ht ht' =>
      rw [ht] at h
      rw [ht']
      refine ⟨entries, List.Perm.refl _, reads_replace ?_ h⟩
      intro es hmeans
      have hgap : Gap [' '] := by
        intro d hd
        rw [List.mem_singleton.mp hd]
        rfl
      have hcomment : Comment ('#' :: ' ' :: c) := Or.inr ⟨_, rfl⟩
      -- the blank before the `#` is the gap, the rest the comment
      have happend := means_append hmeans hgap hcomment
      exact happend

theorem reads_of_edits {t t' : Str} (hedits : Relation.ReflTransGen Edit t t')
    {entries : List (Key × Str)} (h : ReadsAs (lines t) entries) :
    ∃ entries', entries.Perm entries' ∧ ReadsAs (lines t') entries' := by
  induction hedits with
  | refl => exact ⟨entries, List.Perm.refl _, h⟩
  | tail _ hedit ih =>
      obtain ⟨es, hperm, hes⟩ := ih
      obtain ⟨es', hperm', hes'⟩ := hedit.reads hes
      exact ⟨es', hperm.trans hperm', hes'⟩

/-- Edits within the size limit are accepted, with the same result. -/
theorem parse_edits {t t' : Str} {config : Config} (h : parse t = .ok config)
    (hedits : Relation.ReflTransGen Edit t t') (hsize : byteLen t' ≤ maxConfigBytes) :
    parse t' = .ok config := by
  obtain ⟨-, hrange, entries, hreads, hsettles⟩ := parse_ok.mp h
  obtain ⟨entries', hperm, hreads'⟩ := reads_of_edits hedits hreads
  exact parse_ok.mpr ⟨hsize, hrange, entries', hreads', hsettles.perm hperm⟩

/-! ## Where the fields come from -/

/-- No line of the text has the key. -/
def Absent (t : Str) (k : Key) : Prop :=
  ∀ line ∈ lines t, ∀ value, ¬ Carries line k.name value

/-- A single line of the text has the key, and decodes to the field. -/
def FromLine (t : Str) (k : Key) (config : Config) : Prop :=
  ∃ before line after value, lines t = before ++ line :: after ∧ Carries line k.name value
    ∧ k.decode value = some (k.get config)
    ∧ ∀ other ∈ before ++ after, ∀ value', ¬ Carries other k.name value'

/-- The entries are those the lines carry. -/
theorem reads_mem {ls : List Str} {entries : List (Key × Str)} (h : ReadsAs ls entries) {k : Key}
    {value : Str} : (k, value) ∈ entries ↔ ∃ line ∈ ls, Carries line k.name value := by
  induction ls generalizing entries with
  | nil =>
      obtain rfl : entries = [] := h
      constructor
      · intro hmem
        exact absurd hmem List.not_mem_nil
      · rintro ⟨line, hline, _⟩
        exact absurd hline List.not_mem_nil
  | cons line rest ih =>
      obtain ⟨here, later, hmeans, hlater, rfl⟩ := h
      have hhere : (k, value) ∈ here ↔ Carries line k.name value := by
        rcases hmeans with ⟨hblank, rfl⟩ | ⟨l, text, hcarries, rfl⟩
        · constructor
          · intro hmem
            exact absurd hmem List.not_mem_nil
          · intro hcarries
            exact absurd hblank (not_blank_of_carries hcarries)
        · rw [List.mem_singleton]
          constructor
          · intro heq
            obtain ⟨rfl, rfl⟩ := Prod.mk.inj heq
            exact hcarries
          · intro hother
            -- a line carries one entry
            obtain ⟨hname, rfl⟩ := carries_unique hother hcarries
            rw [Key.name_injective hname]
      rw [List.mem_append, hhere, ih hlater, List.exists_mem_cons_iff]

theorem mem_keys {entries : List (Key × Str)} {k : Key} :
    k ∈ entries.map Prod.fst ↔ ∃ value, (k, value) ∈ entries := by
  rw [List.mem_map]
  constructor
  · rintro ⟨⟨_, value⟩, hmem, rfl⟩
    exact ⟨value, hmem⟩
  · rintro ⟨value, hmem⟩
    exact ⟨_, hmem, rfl⟩

/-- **Every field is the decoded value of the single line with its key**, or
    the default where there is none. -/
theorem parse_fields {t : Str} {config : Config} (h : parse t = .ok config) (k : Key) :
    FromLine t k config ∨ Absent t k ∧ k.get config = k.get Config.default := by
  obtain ⟨-, -, entries, hreads, hsettles⟩ := parse_ok.mp h
  by_cases hk : k ∈ entries.map Prod.fst
  · obtain ⟨value, hmem⟩ := mem_keys.mp hk
    obtain ⟨line, hline, hcarries⟩ := (reads_mem hreads).mp hmem
    obtain ⟨before, after, hlines⟩ := List.append_of_mem hline
    refine Or.inl ⟨before, line, after, value, hlines, hcarries, hsettles.stored _ hmem, ?_⟩
    rw [hlines] at hreads
    obtain ⟨es, _, hbefore, ⟨here, later, hmeans, hafter, rfl⟩, rfl⟩ := reads_append.mp hreads
    obtain rfl : here = [(k, value)] := by
      rcases hmeans with ⟨hblank, _⟩ | ⟨l, text, hother, rfl⟩
      · exact absurd hblank (not_blank_of_carries hcarries)
      · obtain ⟨hname, rfl⟩ := carries_unique hcarries hother
        rw [Key.name_injective hname]
    -- the key of the line is in no other line
    have hnodup := hsettles.nodup
    rw [List.map_append, List.map_append, List.map_singleton, List.singleton_append,
      List.nodup_middle, List.nodup_cons, List.mem_append, not_or] at hnodup
    obtain ⟨⟨hfront, hback⟩, -⟩ := hnodup
    intro other hother value' hcarries'
    rcases List.mem_append.mp hother with hin | hin
    · exact hfront (mem_keys.mpr ⟨value', (reads_mem hbefore).mpr ⟨other, hin, hcarries'⟩⟩)
    · exact hback (mem_keys.mpr ⟨value', (reads_mem hafter).mpr ⟨other, hin, hcarries'⟩⟩)
  · refine Or.inr ⟨?_, hsettles.kept k hk⟩
    intro line hline value hcarries
    exact hk (mem_keys.mpr ⟨value, (reads_mem hreads).mpr ⟨line, hline, hcarries⟩⟩)

/-- A field without a line keeps its default. -/
theorem parse_absent {t : Str} {config : Config} (h : parse t = .ok config) {k : Key}
    (habsent : Absent t k) : k.get config = k.get Config.default := by
  rcases parse_fields h k with ⟨before, line, after, value, hlines, hcarries, _⟩ | ⟨_, hdefault⟩
  · refine absurd hcarries (habsent line ?_ value)
    rw [hlines]
    exact List.mem_append_cons_self
  · exact hdefault

/-- **A configuration means the same however its lines are arranged.**  Edits
    within the size limit are accepted with an equal result; a field is the
    decoded value of the single line with its key, and a key without a line
    leaves the default. -/
theorem arrangement_irrelevant :
    (∀ t t' config, parse t = .ok config → Relation.ReflTransGen Edit t t' →
        byteLen t' ≤ maxConfigBytes → parse t' = .ok config)
      ∧ (∀ t config, parse t = .ok config → ∀ k : Key,
        FromLine t k config ∨ Absent t k ∧ k.get config = k.get Config.default)
      ∧ (∀ t config, parse t = .ok config → Absent t .enabled → config.enabled = false)
      ∧ ∀ t config, parse t = .ok config → Absent t .mode → config.mode = .disabled := by
  refine ⟨?_, ?_, ?_, ?_⟩
  · intro t t' config h hedits hsize
    exact parse_edits h hedits hsize
  · intro t config h k
    exact parse_fields h k
  · intro t config h habsent
    exact parse_absent h habsent
  · intro t config h habsent
    exact parse_absent h habsent

/-- A comment that looks like a string, and another line end. -/
theorem arrangement_irrelevant_comment :
    parse "max_dumps = 12 # \"\r\nenabled = true".toList
      = .ok { Config.default with maxDumps := 12, enabled := true } := by
  have hparse : parse "max_dumps = 12\nenabled = true".toList
      = .ok { Config.default with maxDumps := 12, enabled := true } := by
    decide
  have hcomment : Edit "max_dumps = 12\nenabled = true".toList
      "max_dumps = 12 # \"\nenabled = true".toList := by
    have hbefore : lines "max_dumps = 12\nenabled = true".toList
        = [] ++ "max_dumps = 12".toList :: ["enabled = true".toList] := by
      decide
    have hafter : lines "max_dumps = 12 # \"\nenabled = true".toList
        = [] ++ ("max_dumps = 12".toList ++ (" # ".toList ++ ['"']))
          :: ["enabled = true".toList] := by
      decide
    exact Edit.comment ['"'] hbefore hafter
  have hcrlf : Edit "max_dumps = 12 # \"\nenabled = true".toList
      "max_dumps = 12 # \"\r\nenabled = true".toList :=
    Edit.crlf "max_dumps = 12 # \"".toList "enabled = true".toList
  -- first the comment, then the line end
  exact arrangement_irrelevant.1 _ _ _ hparse (.tail (.single hcomment) hcrlf) (by decide)

end TeamAttack
