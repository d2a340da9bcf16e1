import Mathlib

/-! # Patterns in a timeline

    A reviewer of a list of events looks for segments that end at a marked
    event, for openers each answered by the very next event, and for the last
    event of a kind.  `segments_iff` says when a list is a row of segments of a
    given shape, `paired_iff` that counting answers is enough to see that
    every answer has its opener, and `latest` that the last of a sorted list
    is a latest one. -/

namespace Timelines

variable {α β : Type}

/-! ## Segments -/

section Segments

variable {p : α → Bool}

/-- One event: the segments closed so far, and the one that is open. -/
def segmentStep (p : α → Bool) (s : List (List α) × List α) (x : α) : List (List α) × List α :=
  if p x then (s.1 ++ [s.2 ++ [x]], []) else (s.1, s.2 ++ [x])

def segments (p : α → Bool) (xs : List α) : List (List α) × List α :=
  xs.foldl (segmentStep p) ([], [])

/-- A segment: its last event is marked, and no other. -/
def Closed (p : α → Bool) (g : List α) : Prop :=
  ∃ init x, g = init ++ [x] ∧ p x = true ∧ ∀ y ∈ init, p y = false

theorem segments_concat (xs : List α) (x : α) :
    segments p (xs ++ [x]) = segmentStep p (segments p xs) x := by
  rw [segments, List.foldl_append]
  rfl

/-- Nothing is lost, and every segment is one. -/
theorem segments_sound (xs : List α) : (segments p xs).1.flatten ++ (segments p xs).2 = xs
    ∧ (∀ g ∈ (segments p xs).1, Closed p g) ∧ ∀ y ∈ (segments p xs).2, p y = false := by
  induction xs using List.reverseRecOn with
  | nil => simp [segments]
  | append_singleton xs x ih =>
      obtain ⟨hjoin, hclosed, hopen⟩ := ih
      rw [segments_concat, segmentStep]
      cases hp : p x with
      | true =>
          rw [if_pos rfl]
          refine ⟨?_, ?_, by simp⟩
          · rw [List.flatten_append, List.flatten_singleton, List.append_nil, ← List.append_assoc,
              hjoin]
          · intro g hg
            rcases List.mem_append.mp hg with h | h
            · exact hclosed g h
            · exact ⟨_, x, List.mem_singleton.mp h, hp, hopen⟩
      | false =>
          rw [if_neg Bool.false_ne_true]
          refine ⟨?_, hclosed, ?_⟩
          · rw [← List.append_assoc, hjoin]
          · simpa [or_imp, forall_and] using ⟨hopen, hp⟩

/-- Segments one after another are found. -/
theorem segments_flatten {gs : List (List α)} (h : ∀ g ∈ gs, Closed p g) :
    segments p gs.flatten = (gs, []) := by
  -- the loop only adds to what is open until the marked event
  have hopen : ∀ (init : List α) (s : List (List α) × List α), (∀ y ∈ init, p y = false) →
      init.foldl (segmentStep p) s = (s.1, s.2 ++ init) := by
    intro init
    induction init with
    | nil => simp
    | cons y init ih =>
        intro s hy
        rw [List.forall_mem_cons] at hy
        rw [List.foldl_cons, segmentStep, hy.1, if_neg Bool.false_ne_true, ih _ hy.2,
          List.append_assoc]
        rfl
  induction gs using List.reverseRecOn with
  | nil => rfl
  | append_singleton gs g ih =>
      obtain ⟨init, x, rfl, hx, hinit⟩ := h g (by simp)
      have hbefore := ih fun g hg => h g (List.mem_append_left _ hg)
      rw [List.flatten_append, List.flatten_singleton, segments, List.foldl_append, ← segments,
        hbefore, List.foldl_append, hopen init _ hinit]
      simp [segmentStep, hx]

/-- **A row of segments of a shape**, as the loop sees it. -/
theorem segments_iff {Q : List α → Prop} (hQ : ∀ g, Q g → Closed p g) (xs : List α) :
    (segments p xs).2 = [] ∧ (∀ g ∈ (segments p xs).1, Q g)
      ↔ ∃ gs : List (List α), xs = gs.flatten ∧ ∀ g ∈ gs, Q g := by
  constructor
  · rintro ⟨hend, hall⟩
    have hjoin := (segments_sound (p := p) xs).1
    rw [hend, List.append_nil] at hjoin
    exact ⟨_, hjoin.symm, hall⟩
  · rintro ⟨gs, rfl, hall⟩
    rw [segments_flatten fun g hg => hQ g (hall g hg)]
    exact ⟨rfl, hall⟩

end Segments

/-! ## Openers and answers -/

section Pairs

variable (opens closes : α → Bool) (answers : α → α → Bool)

/-- The answer to an opener, if the next event is one. -/
def answer (x : α) (rest : List α) : Option α := rest.head?.filter (answers x)

/-- Every opener with its answer. -/
def pairs : List α → List (α × Option α)
  | [] => []
  | x :: rest => if opens x then (x, answer answers x rest) :: pairs rest else pairs rest

/-- Openers and their answers side by side, between other events. -/
inductive Paired : List α → Prop
  | nil : Paired []
  | other {x : α} {rest : List α} (hopens : opens x = false) (hcloses : closes x = false)
      (hrest : Paired rest) : Paired (x :: rest)
  | pair {x y : α} {rest : List α} (hopens : opens x = true) (hanswers : answers x y = true)
      (hrest : Paired rest) : Paired (x :: y :: rest)

variable {opens closes answers}

theorem answer_eq_some {x y : α} {rest : List α} :
    answer answers x rest = some y ↔ answers x y = true ∧ ∃ rest', rest = y :: rest' := by
  cases rest with
  | nil => simp [answer]
  | cons z rest =>
      rw [answer, List.head?_cons, Option.filter_eq_some_iff, Option.some.injEq]
      constructor
      · rintro ⟨rfl, hz⟩
        exact ⟨hz, rest, rfl⟩
      · rintro ⟨hy, _, hcons⟩
        obtain ⟨rfl, -⟩ := List.cons.inj hcons
        exact ⟨rfl, hy⟩

theorem pairs_open {x : α} (h : opens x = true) (rest : List α) :
    pairs opens answers (x :: rest)
      = (x, answer answers x rest) :: pairs opens answers rest := by
  rw [pairs, if_pos h]

theorem pairs_other {x : α} (h : opens x = false) (rest : List α) :
    pairs opens answers (x :: rest) = pairs opens answers rest := by
  rw [pairs, if_neg (by rw [h]; exact Bool.false_ne_true)]

/-- The pairs are the openers with an answer right behind them. -/
theorem mem_pairs {x y : α} {xs : List α} : (x, some y) ∈ pairs opens answers xs
    ↔ opens x = true ∧ answers x y = true ∧ [x, y] <:+: xs := by
  induction xs with
  | nil => simp [pairs]
  | cons z rest ih =>
      have hadjacent : [x, y] <:+: z :: rest
          ↔ (x = z ∧ ∃ rest', rest = y :: rest') ∨ [x, y] <:+: rest := by
        rw [List.infix_cons_iff, List.cons_prefix_cons]
        refine or_congr (and_congr_right fun _ => ?_) Iff.rfl
        constructor
        · rintro ⟨rest', rfl⟩
          exact ⟨rest', rfl⟩
        · rintro ⟨rest', rfl⟩
          exact ⟨rest', rfl⟩
      rw [hadjacent]
      cases hz : opens z with
      | true =>
          rw [pairs_open hz, List.mem_cons, ih, Prod.mk.injEq, eq_comm (a := some y),
            answer_eq_some]
          constructor
          · rintro (⟨rfl, hanswers, hrest⟩ | ⟨hx, hanswers, hrest⟩)
            · exact ⟨hz, hanswers, Or.inl ⟨rfl, hrest⟩⟩
            · exact ⟨hx, hanswers, Or.inr hrest⟩
          · rintro ⟨hx, hanswers, ⟨rfl, hrest⟩ | hrest⟩
            · exact Or.inl ⟨rfl, hanswers, hrest⟩
            · exact Or.inr ⟨hx, hanswers, hrest⟩
      | false =>
          rw [pairs_other hz, ih]
          constructor
          · rintro ⟨hx, hanswers, hrest⟩
            exact ⟨hx, hanswers, Or.inr hrest⟩
          · rintro ⟨hx, hanswers, ⟨rfl, -⟩ | hrest⟩
            · exact absurd hx (by rw [hz]; exact Bool.false_ne_true)
            · exact ⟨hx, hanswers, hrest⟩

/-- The answers that were found. -/
def answered (opens : α → Bool) (answers : α → α → Bool) (xs : List α) : List α :=
  (pairs opens answers xs).filterMap Prod.snd

theorem answered_open {x : α} (h : opens x = true) (rest : List α) :
    answered opens answers (x :: rest)
      = (answer answers x rest).toList ++ answered opens answers rest := by
  rw [answered, pairs_open h]
  cases answer answers x rest <;> rfl

theorem answered_other {x : α} (h : opens x = false) (rest : List α) :
    answered opens answers (x :: rest) = answered opens answers rest := by
  rw [answered, pairs_other h]
  rfl

/-- An answer closes, and what closes opens nothing. -/
structure Matching (opens closes : α → Bool) (answers : α → α → Bool) : Prop where
  closing : ∀ x y, answers x y = true → closes y = true
  apart : ∀ x, closes x = true → opens x = false

theorem answered_pair (hm : Matching opens closes answers) {x y : α} (hx : opens x = true)
    (hy : answers x y = true) (rest : List α) :
    answered opens answers (x :: y :: rest) = y :: answered opens answers rest := by
  have hanswer : answer answers x (y :: rest) = some y := answer_eq_some.mpr ⟨hy, rest, rfl⟩
  have hother := hm.apart y (hm.closing x y hy)
  rw [answered_open hx, hanswer, answered_other hother]
  rfl

/-- The answers are among the closing events, in their order. -/
theorem answered_sublist (hm : Matching opens closes answers) (xs : List α) :
    (answered opens answers xs).Sublist (xs.filter closes) := by
  induction xs using List.twoStepInduction with
  | nil => exact List.Sublist.slnil
  | singleton x =>
      cases hx : opens x with
      | true => simp [answered, pairs, hx, answer]
      | false => simp [answered, pairs, hx]
  | cons_cons x y rest ih ihy =>
      cases hx : opens x with
      | false =>
          rw [answered_other hx]
          exact (ihy y).trans ((List.sublist_cons_self x (y :: rest)).filter closes)
      | true =>
          cases hy : answers x y with
          | true =>
              -- the answer is the closing event behind the opener
              rw [answered_pair hm hx hy]
              have hclose := hm.closing x y hy
              refine List.Sublist.trans ?_ ((List.sublist_cons_self x (y :: rest)).filter closes)
              rw [List.filter_cons_of_pos hclose]
              exact ih.cons_cons y
          | false =>
              have hnone : answer answers x (y :: rest) = none := by
                rw [answer, List.head?_cons, Option.filter_some, hy, if_neg Bool.false_ne_true]
              rw [answered_open hx, hnone, Option.toList_none, List.nil_append]
              exact (ihy y).trans ((List.sublist_cons_self x (y :: rest)).filter closes)

/-- **Counting the answers is enough.**  When every opener has an answer and
    there are as many answers as closing events, every closing event stands
    right behind its opener. -/
theorem paired_iff (hm : Matching opens closes answers) (xs : List α) :
    (∀ q ∈ pairs opens answers xs, q.2.isSome = true)
        ∧ (answered opens answers xs).length = (xs.filter closes).length
      ↔ Paired opens closes answers xs := by
  constructor
  · induction xs using List.twoStepInduction with
    | nil => exact fun _ => .nil
    | singleton x =>
        rintro ⟨hall, hcount⟩
        cases hx : opens x with
        | true => simp [pairs, hx, answer] at hall
        | false =>
            cases hclose : closes x with
            | true => simp [answered, pairs, hx, hclose] at hcount
            | false => exact .other hx hclose .nil
    | cons_cons x y rest ih ihy =>
        rintro ⟨hall, hcount⟩
        cases hx : opens x with
        | true =>
            rw [pairs_open hx, List.forall_mem_cons] at hall
            obtain ⟨z, hz⟩ := Option.isSome_iff_exists.mp hall.1
            have hfound : answer answers x (y :: rest) = some z := hz
            obtain ⟨hanswers, _, hcons⟩ := answer_eq_some.mp hfound
            obtain ⟨rfl, -⟩ := List.cons.inj hcons
            have hclose := hm.closing x y hanswers
            have hnot : closes x = false := by
              cases h : closes x with
              | false => rfl
              | true => exact absurd hx (by rw [hm.apart x h]; exact Bool.false_ne_true)
            rw [answered_pair hm hx hanswers, List.filter_cons_of_neg (by simp [hnot]),
              List.filter_cons_of_pos hclose, List.length_cons, List.length_cons] at hcount
            rw [pairs_other (hm.apart y hclose)] at hall
            exact .pair hx hanswers (ih ⟨hall.2, by omega⟩)
        | false =>
            rw [answered_other hx] at hcount
            rw [pairs_other hx] at hall
            cases hclose : closes x with
            | true =>
                -- one closing event more than there can be answers
                have hle := (answered_sublist hm (y :: rest)).length_le
                rw [List.filter_cons_of_pos hclose, List.length_cons] at hcount
                omega
            | false =>
                rw [List.filter_cons_of_neg (by simp [hclose])] at hcount
                exact .other hx hclose (ihy y ⟨hall, hcount⟩)
  · intro h
    induction h with
    | nil => exact ⟨by simp [pairs], rfl⟩
    | other hx hclose hrest ih =>
        rw [answered_other hx, pairs_other hx, List.filter_cons_of_neg (by simp [hclose])]
        exact ih
    | @pair x y rest hx hanswers hrest ih =>
        have hclose := hm.closing x y hanswers
        have hnot : closes x = false := by
          cases h : closes x with
          | false => rfl
          | true => exact absurd hx (by rw [hm.apart x h]; exact Bool.false_ne_true)
        rw [answered_pair hm hx hanswers, pairs_open hx, pairs_other (hm.apart y hclose),
          answer_eq_some.mpr ⟨hanswers, rest, rfl⟩, List.filter_cons_of_neg (by simp [hnot]),
          List.filter_cons_of_pos hclose, List.forall_mem_cons, List.length_cons, List.length_cons]
        exact ⟨⟨rfl, ih.1⟩, congrArg Nat.succ ih.2⟩

end Pairs

/-! ## The last one -/

/-- The last of the chosen elements of a sorted list. -/
theorem latest {R : α → α → Prop} {chosen : α → Bool} {xs : List α} {x : α}
    (hsorted : xs.Pairwise R) (h : (xs.filter chosen).getLast? = some x) :
    x ∈ xs ∧ chosen x = true ∧ ∀ y ∈ xs, chosen y = true → R y x ∨ y = x := by
  obtain ⟨before, hsplit⟩ := List.getLast?_eq_some_iff.mp h
  have hmem : x ∈ xs.filter chosen := by
    rw [hsplit]
    exact List.mem_concat_self
  rw [List.mem_filter] at hmem
  refine ⟨hmem.1, hmem.2, ?_⟩
  intro y hy hchosen
  have hymem : y ∈ before ++ [x] := hsplit ▸ List.mem_filter.mpr ⟨hy, hchosen⟩
  have hpair : (before ++ [x]).Pairwise R := hsplit ▸ hsorted.filter chosen
  rcases List.mem_append.mp hymem with hbefore | hlast
  · exact Or.inl ((List.pairwise_append.mp hpair).2.2 y hbefore x (List.mem_singleton_self x))
  · exact Or.inr (List.mem_singleton.mp hlast)

end Timelines
