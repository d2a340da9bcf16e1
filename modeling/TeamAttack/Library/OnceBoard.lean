import TeamAttack.Library.Runs
import Mathlib

/-! # Boards of single-use cells

    The abstract purpose of a bounded store whose slots are never reused:
    producers claim the cells of a board one after another, each publishes a
    value into the cell it claimed, and consumers take published values out.

    Everything such a store promises is one equation, `Explains.lives`: the events
    of a run that concern cell `i`, in the order they happened, are exactly
    the life of that cell so far.  Claims are consecutive, a value is
    published once and by the claimer, it is taken at most once, only after
    publication, and unchanged. -/

namespace OnceBoard

open Runs

/-- The life of a cell: unclaimed, claimed by `p`, holding what `p`
    published, or emptied by the consumer `c`. -/
inductive Cell (ι κ α : Type*) where
  | free
  | held (p : ι)
  | full (p : ι) (v : α)
  | taken (p : ι) (v : α) (c : κ)

/-- The producer a cell belongs to. -/
def Cell.owner? {ι κ α : Type*} : Cell ι κ α → Option ι
  | .free => none
  | .held p => some p
  | .full p _ => some p
  | .taken p _ _ => some p

/-- The consumer that emptied a cell. -/
def Cell.taker? {ι κ α : Type*} : Cell ι κ α → Option κ
  | .free => none
  | .held _ => none
  | .full .. => none
  | .taken _ _ c => some c

/-- What producers and consumers do to a board of `n` cells. -/
inductive Act (n : Nat) (ι κ α : Type*) where
  | claim (p : ι) (i : Fin n)
  | publish (p : ι) (i : Fin n) (v : α)
  | take (c : κ) (i : Fin n) (v : α)
  deriving DecidableEq

/-- A board: the next cell to hand out, and the cells. -/
structure Board (n : Nat) (ι κ α : Type*) where
  next : Nat
  cell : Fin n → Cell ι κ α

variable {n : Nat} {ι κ α : Type*}

/-- The board nobody has used. -/
def Board.empty (n : Nat) (ι κ α : Type*) : Board n ι κ α where
  next := 0
  cell := fun _ => .free

/-- The board with cell `i` replaced. -/
def Board.put (b : Board n ι κ α) (i : Fin n) (x : Cell ι κ α) : Board n ι κ α :=
  { b with cell := Function.update b.cell i x }

@[simp] theorem Board.put_next (b : Board n ι κ α) (i : Fin n) (x : Cell ι κ α) :
    (b.put i x).next = b.next := rfl

@[simp] theorem Board.put_cell_self (b : Board n ι κ α) (i : Fin n) (x : Cell ι κ α) :
    (b.put i x).cell i = x := Function.update_self ..

theorem Board.put_cell_of_ne (b : Board n ι κ α) {i j : Fin n} (x : Cell ι κ α)
    (h : j ≠ i) : (b.put i x).cell j = b.cell j := Function.update_of_ne h ..

/-- One move on a board, with the event it emits. -/
inductive Step : Board n ι κ α → List (Act n ι κ α) → Board n ι κ α → Prop where
  | claim (b : Board n ι κ α) (p : ι) (i : Fin n) :
      b.next = i → b.cell i = .free →
      Step b [.claim p i] { b.put i (.held p) with next := i + 1 }
  | publish (b : Board n ι κ α) (p : ι) (i : Fin n) (v : α) :
      b.cell i = .held p → Step b [.publish p i v] (b.put i (.full p v))
  | take (b : Board n ι κ α) (p : ι) (i : Fin n) (v : α) (c : κ) :
      b.cell i = .full p v → Step b [.take c i v] (b.put i (.taken p v c))

/-- The cell an event is about. -/
def Act.index : Act n ι κ α → Fin n
  | .claim _ i => i
  | .publish _ i _ => i
  | .take _ i _ => i

/-- The index a claim hands out. -/
def Act.claimed? : Act n ι κ α → Option (Fin n)
  | .claim _ i => some i
  | .publish .. => none
  | .take .. => none

/-- The events of a history that concern cell `i`. -/
def trail (h : List (Act n ι κ α)) (i : Fin n) : List (Act n ι κ α) :=
  h.filter (fun a => a.index = i)

/-- The events that brought a cell to its present state. -/
def Cell.life (i : Fin n) : Cell ι κ α → List (Act n ι κ α)
  | .free => []
  | .held p => [.claim p i]
  | .full p v => [.claim p i, .publish p i v]
  | .taken p v c => [.claim p i, .publish p i v, .take c i v]

@[simp] theorem trail_nil (i : Fin n) : trail ([] : List (Act n ι κ α)) i = [] := rfl

@[simp] theorem trail_append (h k : List (Act n ι κ α)) (i : Fin n) :
    trail (h ++ k) i = trail h i ++ trail k i := List.filter_append ..

theorem trail_cons (a : Act n ι κ α) (h : List (Act n ι κ α)) (i : Fin n) :
    trail (a :: h) i = if a.index = i then a :: trail h i else trail h i := by
  simp only [trail, List.filter_cons, decide_eq_true_eq]

theorem mem_trail {h : List (Act n ι κ α)} {i : Fin n} {a : Act n ι κ α} :
    a ∈ trail h i ↔ a ∈ h ∧ a.index = i := by
  simp only [trail, List.mem_filter, decide_eq_true_eq]

/-! ## What a run of a board leaves behind -/

/-- The history explains the board: each cell's trail is its life, the claims
    were consecutive, and exactly the cells below `next` have been claimed. -/
structure Explains (h : List (Act n ι κ α)) (b : Board n ι κ α) : Prop where
  lives : ∀ i, trail h i = (b.cell i).life i
  claims : (h.filterMap Act.claimed?).map Fin.val = List.range b.next
  free : ∀ i : Fin n, b.cell i = .free ↔ b.next ≤ i

theorem explains_empty : Explains [] (Board.empty n ι κ α) where
  lives := fun _ => rfl
  claims := rfl
  free := fun i => ⟨fun _ => Nat.zero_le i, fun _ => rfl⟩

/-- Extending one cell's life by one event explains the updated cell. -/
theorem trail_put {h : List (Act n ι κ α)} {b : Board n ι κ α}
    (hexp : Explains h b) {i : Fin n} {a : Act n ι κ α} {x : Cell ι κ α}
    (ha : a.index = i) (hlife : x.life i = (b.cell i).life i ++ [a]) (j : Fin n) :
    trail (h ++ [a]) j = ((b.put i x).cell j).life j := by
  rw [trail_append, hexp.lives j, trail_cons, ha]
  by_cases hij : i = j
  · subst hij
    rw [if_pos rfl, Board.put_cell_self, hlife, trail_nil]
  · rw [if_neg hij, Board.put_cell_of_ne b x (Ne.symm hij), trail_nil, List.append_nil]

/-- Only claiming changes which cells are free. -/
theorem free_put {b : Board n ι κ α} {i : Fin n} {x : Cell ι κ α}
    (hfree : ∀ j : Fin n, b.cell j = .free ↔ b.next ≤ j)
    (hi : b.cell i ≠ .free) (hx : x ≠ .free) (j : Fin n) :
    (b.put i x).cell j = .free ↔ b.next ≤ j := by
  by_cases hij : j = i
  · subst hij
    rw [Board.put_cell_self]
    exact ⟨fun h => absurd h hx, fun h => absurd ((hfree j).mpr h) hi⟩
  · rw [Board.put_cell_of_ne b x hij]
    exact hfree j

/-- A step keeps the free cells those from `next` on. -/
theorem Step.free {b b' : Board n ι κ α} {es : List (Act n ι κ α)}
    (hfree : ∀ j : Fin n, b.cell j = .free ↔ b.next ≤ j) (hs : Step b es b') :
    ∀ j : Fin n, b'.cell j = .free ↔ b'.next ≤ j := by
  cases hs with
  | claim p i hnext hcell =>
      intro j
      show (b.put i (.held p)).cell j = .free ↔ i + 1 ≤ (j : Nat)
      by_cases hij : j = i
      · subst hij
        rw [Board.put_cell_self]
        exact ⟨nofun, fun hle => absurd hle (by omega)⟩
      · rw [Board.put_cell_of_ne b _ hij, hfree j, hnext]
        have : (j : Nat) ≠ i := fun h => hij (Fin.ext h)
        omega
  | publish p i v hcell => exact free_put hfree (by rw [hcell]; exact nofun) nofun
  | take p i v c hcell => exact free_put hfree (by rw [hcell]; exact nofun) nofun

theorem explains_step {h : List (Act n ι κ α)} {b b' : Board n ι κ α}
    {es : List (Act n ι κ α)} (hexp : Explains h b) (hs : Step b es b') :
    Explains (h ++ es) b' := by
  have hfree := hs.free hexp.free
  cases hs with
  | claim p i hnext hcell =>
      refine ⟨fun j => trail_put (i := i) hexp rfl (by rw [hcell]; rfl) j, ?_, hfree⟩
      show _ = List.range (i + 1)
      rw [List.filterMap_append, List.map_append, hexp.claims, hnext, List.range_succ]
      rfl
  | publish p i v hcell =>
      refine ⟨fun j => trail_put (i := i) hexp rfl (by rw [hcell]; rfl) j, ?_, hfree⟩
      rw [List.filterMap_append, Board.put_next, ← hexp.claims]
      exact congrArg (List.map Fin.val) (List.append_nil _)
  | take p i v c hcell =>
      refine ⟨fun j => trail_put (i := i) hexp rfl (by rw [hcell]; rfl) j, ?_, hfree⟩
      rw [List.filterMap_append, Board.put_next, ← hexp.claims]
      exact congrArg (List.map Fin.val) (List.append_nil _)

/-- **A run of a board explains the board it ends in.** -/
theorem explains_run {h : List (Act n ι κ α)} {b : Board n ι κ α}
    (hrun : Run Step (Board.empty n ι κ α) h b) : Explains h b :=
  hrun.history explains_empty (fun _ _ _ _ => explains_step)

/-! ## Conservation

    Counted with their values, what was taken and what still lies on the board
    is what was published; and what was published and what is still held is
    what was claimed. -/

/-- The value an event takes out, with its cell. -/
def Act.taken? : Act n ι κ α → Option (Fin n × α)
  | .take _ i v => some (i, v)
  | .claim .. => none
  | .publish .. => none

/-- The value an event publishes, with its cell. -/
def Act.published? : Act n ι κ α → Option (Fin n × α)
  | .publish _ i v => some (i, v)
  | .claim .. => none
  | .take .. => none

/-- The value a cell offers. -/
def Cell.offered? (i : Fin n) : Cell ι κ α → Option (Fin n × α)
  | .full _ v => some (i, v)
  | .free => none
  | .held _ => none
  | .taken .. => none

/-- A cell claimed and not yet published. -/
def Cell.held? (i : Fin n) : Cell ι κ α → Option (Fin n)
  | .held _ => some i
  | .free => none
  | .full .. => none
  | .taken .. => none

/-- What `f` reads off the cells, in order. -/
def Board.select {β : Type*} (b : Board n ι κ α) (f : Fin n → Cell ι κ α → Option β) :
    List β :=
  (List.finRange n).filterMap (fun i => f i (b.cell i))

/-- Replacing a cell replaces its contribution to a selection. -/
theorem Board.select_put {β : Type*} (b : Board n ι κ α) (i : Fin n)
    (f : Fin n → Cell ι κ α → Option β) :
    ∃ rest, (b.select f).Perm ((f i (b.cell i)).toList ++ rest)
      ∧ ∀ x, ((b.put i x).select f).Perm ((f i x).toList ++ rest) := by
  have hsplit : ∀ g : Fin n → Option β, ((List.finRange n).filterMap g).Perm
      ((g i).toList ++ ((List.finRange n).erase i).filterMap g) := by
    intro g
    have hperm := (List.perm_cons_erase (List.mem_finRange i)).filterMap g
    rw [List.filterMap_cons] at hperm
    cases hg : g i with
    | none => rw [hg] at hperm; exact hperm
    | some y => rw [hg] at hperm; exact hperm
  refine ⟨((List.finRange n).erase i).filterMap (fun j => f j (b.cell j)), hsplit _,
    fun x => ?_⟩
  have hput := hsplit (fun j => f j ((b.put i x).cell j))
  have hrest : ((List.finRange n).erase i).filterMap (fun j => f j ((b.put i x).cell j))
      = ((List.finRange n).erase i).filterMap (fun j => f j (b.cell j)) := by
    refine List.filterMap_congr fun j hj => ?_
    have hne : j ≠ i := ((List.nodup_finRange n).mem_erase_iff.mp hj).1
    rw [Board.put_cell_of_ne b x hne]
  rwa [hrest, Board.put_cell_self] at hput

section Select

variable {β : Type*} {f : Fin n → Cell ι κ α → Option β}

theorem Board.select_empty (hfree : ∀ i, f i .free = none) :
    (Board.empty n ι κ α).select f = [] :=
  List.filterMap_eq_nil_iff.mpr fun i _ => hfree i

/-- A cell that contributes the same as before leaves the selection alone. -/
theorem Board.select_put_same {b : Board n ι κ α} {i : Fin n} {x : Cell ι κ α}
    (h : f i x = f i (b.cell i)) : (b.put i x).select f = b.select f := by
  refine List.filterMap_congr fun j _ => ?_
  by_cases hij : j = i
  · rw [hij, Board.put_cell_self, h]
  · rw [Board.put_cell_of_ne b x hij]

/-- A cell that begins to contribute. -/
theorem Board.select_put_gain {b : Board n ι κ α} {i : Fin n} {x : Cell ι κ α} {y : β}
    (hold : f i (b.cell i) = none) (hnew : f i x = some y) :
    ((b.put i x).select f).Perm (y :: b.select f) := by
  obtain ⟨rest, hbefore, hafter⟩ := b.select_put i f
  have hput := hafter x
  rw [hold] at hbefore
  rw [hnew] at hput
  exact hput.trans (List.Perm.cons y hbefore.symm)

/-- A cell that contributes no more. -/
theorem Board.select_put_loss {b : Board n ι κ α} {i : Fin n} {x : Cell ι κ α} {y : β}
    (hold : f i (b.cell i) = some y) (hnew : f i x = none) :
    (b.select f).Perm (y :: (b.put i x).select f) := by
  obtain ⟨rest, hbefore, hafter⟩ := b.select_put i f
  have hput := hafter x
  rw [hold] at hbefore
  rw [hnew] at hput
  exact hbefore.trans (List.Perm.cons y hput.symm)

end Select

/-- **Nothing published is lost or duplicated.** -/
theorem delivery_run {h : List (Act n ι κ α)} {b : Board n ι κ α}
    (hrun : Run Step (Board.empty n ι κ α) h b) :
    (h.filterMap Act.taken? ++ b.select Cell.offered?).Perm (h.filterMap Act.published?) := by
  refine hrun.history (I := fun h b =>
    (h.filterMap Act.taken? ++ b.select Cell.offered?).Perm (h.filterMap Act.published?))
    ?_ ?_
  · rw [Board.select_empty fun _ => rfl]
    exact List.Perm.refl _
  intro h b es b' ih hs
  rw [List.filterMap_append, List.filterMap_append]
  cases hs with
  | claim p i hnext hcell =>
      have hsame : (b.put i (.held p)).select Cell.offered? = b.select Cell.offered? :=
        Board.select_put_same (by rw [hcell]; rfl)
      show ((h.filterMap Act.taken? ++ []) ++ (b.put i (.held p)).select Cell.offered?).Perm
        (h.filterMap Act.published? ++ [])
      rw [hsame, List.append_nil, List.append_nil]
      exact ih
  | publish p i v hcell =>
      -- the value goes from the publications to the cells on offer
      have hnew : ((b.put i (.full p v)).select Cell.offered?).Perm
          ((i, v) :: b.select Cell.offered?) :=
        Board.select_put_gain (by rw [hcell]; rfl) rfl
      show ((h.filterMap Act.taken? ++ []) ++ (b.put i (.full p v)).select Cell.offered?).Perm
        (h.filterMap Act.published? ++ [(i, v)])
      rw [List.append_nil]
      exact ((hnew.append_left _).trans List.perm_middle).trans
        ((ih.cons (i, v)).trans (List.perm_append_singleton _ _).symm)
  | take p i v c hcell =>
      -- and from there to what was taken
      have hnew : (b.select Cell.offered?).Perm
          ((i, v) :: (b.put i (.taken p v c)).select Cell.offered?) :=
        Board.select_put_loss (by rw [hcell]; rfl) rfl
      show ((h.filterMap Act.taken? ++ [(i, v)])
        ++ (b.put i (.taken p v c)).select Cell.offered?).Perm
        (h.filterMap Act.published? ++ [])
      rw [List.append_nil, List.append_assoc, List.singleton_append]
      exact (hnew.symm.append_left _).trans ih

/-- **Every claim is published, or still held.** -/
theorem progress_run {h : List (Act n ι κ α)} {b : Board n ι κ α}
    (hrun : Run Step (Board.empty n ι κ α) h b) :
    ((h.filterMap Act.published?).map Prod.fst ++ b.select Cell.held?).Perm
      (h.filterMap Act.claimed?) := by
  refine hrun.history (I := fun h b =>
    ((h.filterMap Act.published?).map Prod.fst ++ b.select Cell.held?).Perm
      (h.filterMap Act.claimed?)) ?_ ?_
  · rw [Board.select_empty fun _ => rfl]
    exact List.Perm.refl _
  intro h b es b' ih hs
  rw [List.filterMap_append, List.filterMap_append, List.map_append]
  cases hs with
  | claim p i hnext hcell =>
      have hnew : ((b.put i (.held p)).select Cell.held?).Perm (i :: b.select Cell.held?) :=
        Board.select_put_gain (by rw [hcell]; rfl) rfl
      show (((h.filterMap Act.published?).map Prod.fst ++ [])
        ++ (b.put i (.held p)).select Cell.held?).Perm (h.filterMap Act.claimed? ++ [i])
      rw [List.append_nil]
      exact ((hnew.append_left _).trans List.perm_middle).trans
        ((ih.cons i).trans (List.perm_append_singleton _ _).symm)
  | publish p i v hcell =>
      have hnew : (b.select Cell.held?).Perm (i :: (b.put i (.full p v)).select Cell.held?) :=
        Board.select_put_loss (by rw [hcell]; rfl) rfl
      show (((h.filterMap Act.published?).map Prod.fst ++ [i])
        ++ (b.put i (.full p v)).select Cell.held?).Perm (h.filterMap Act.claimed? ++ [])
      rw [List.append_nil, List.append_assoc, List.singleton_append]
      exact (hnew.symm.append_left _).trans ih
  | take p i v c hcell =>
      -- a full cell was not held any more
      have hsame : (b.put i (.taken p v c)).select Cell.held? = b.select Cell.held? :=
        Board.select_put_same (by rw [hcell]; rfl)
      show (((h.filterMap Act.published?).map Prod.fst ++ [])
        ++ (b.put i (.taken p v c)).select Cell.held?).Perm (h.filterMap Act.claimed? ++ [])
      rw [hsame, List.append_nil, List.append_nil]
      exact ih

/-! ## Reading exactly-once off the trail -/

variable {h : List (Act n ι κ α)} {b : Board n ι κ α}

theorem Explains.mem_claim (hexp : Explains h b) {p : ι} {i : Fin n} :
    .claim p i ∈ h ↔ b.cell i = .held p ∨ (∃ v, b.cell i = .full p v)
      ∨ ∃ v c, b.cell i = .taken p v c := by
  have hm : Act.claim p i ∈ h ↔ Act.claim p i ∈ (b.cell i).life i := by
    rw [← hexp.lives i, mem_trail]
    exact ⟨fun hm => ⟨hm, rfl⟩, fun hm => hm.1⟩
  rw [hm]
  cases b.cell i <;> simp [Cell.life, eq_comm]

theorem Explains.mem_publish (hexp : Explains h b) {p : ι} {i : Fin n} {v : α} :
    .publish p i v ∈ h ↔ b.cell i = .full p v ∨ ∃ c, b.cell i = .taken p v c := by
  have hm : Act.publish p i v ∈ h ↔ Act.publish p i v ∈ (b.cell i).life i := by
    rw [← hexp.lives i, mem_trail]
    exact ⟨fun hm => ⟨hm, rfl⟩, fun hm => hm.1⟩
  rw [hm]
  cases b.cell i <;> simp [Cell.life, eq_comm]

theorem Explains.mem_take (hexp : Explains h b) {c : κ} {i : Fin n} {v : α} :
    .take c i v ∈ h ↔ ∃ p, b.cell i = .taken p v c := by
  have hm : Act.take c i v ∈ h ↔ Act.take c i v ∈ (b.cell i).life i := by
    rw [← hexp.lives i, mem_trail]
    exact ⟨fun hm => ⟨hm, rfl⟩, fun hm => hm.1⟩
  rw [hm]
  cases b.cell i <;> simp [Cell.life, eq_comm]
  exact and_comm

/-- What was taken out of a cell, in order. -/
theorem Explains.taken_at (hexp : Explains h b) (i : Fin n) :
    (h.filterMap Act.taken?).filter (fun x => x.1 = i)
      = ((b.cell i).life i).filterMap Act.taken? := by
  rw [← hexp.lives i, trail, List.filterMap_filter, List.filter_filterMap]
  refine List.filterMap_congr fun a _ => ?_
  cases a with
  | claim p j => by_cases hj : j = i <;> simp [Act.index, Act.taken?, hj]
  | publish p j v => by_cases hj : j = i <;> simp [Act.index, Act.taken?, hj]
  | take c j v => by_cases hj : j = i <;> simp [Act.index, Act.taken?, hj]

/-- Each cell has one claimer. -/
theorem Explains.claim_unique (hexp : Explains h b) {p q : ι} {i : Fin n}
    (hp : .claim p i ∈ h) (hq : .claim q i ∈ h) : p = q := by
  rw [hexp.mem_claim] at hp hq
  cases hc : b.cell i with
  | free => rw [hc] at hp; simp at hp
  | held r => rw [hc] at hp hq; simp at hp hq; rw [← hp, ← hq]
  | full r v => rw [hc] at hp hq; simp at hp hq; rw [← hp, ← hq]
  | taken r v c => rw [hc] at hp hq; simp at hp hq; rw [← hp, ← hq]

/-- Each cell is published at most once, by its claimer. -/
theorem Explains.publish_unique (hexp : Explains h b) {p q : ι} {i : Fin n} {v w : α}
    (hp : .publish p i v ∈ h) (hq : .publish q i w ∈ h) : p = q ∧ v = w := by
  rw [hexp.mem_publish] at hp hq
  cases hc : b.cell i with
  | free => rw [hc] at hp; simp at hp
  | held r => rw [hc] at hp; simp at hp
  | full r u => rw [hc] at hp hq; simp at hp hq; grind
  | taken r u c => rw [hc] at hp hq; simp at hp hq; grind

/-- **Exactly-once delivery.**  When a value is taken out of cell `i`, the
    events of that cell before it are one claim and one publication of that
    very value, and none of the events after it concern the cell. -/
theorem Explains.trail_before_take (hexp : Explains h b) {pre post : List (Act n ι κ α)}
    {c : κ} {i : Fin n} {v : α} (heq : h = pre ++ .take c i v :: post) :
    (∃ p, trail pre i = [.claim p i, .publish p i v])
      ∧ trail post i = [] := by
  have htr := hexp.lives i
  rw [heq, trail_append, trail_cons, if_pos (show (Act.take c i v).index = i from rfl)] at htr
  have hmem : Act.take c i v ∈ h := by rw [heq]; simp
  obtain ⟨p, hp⟩ := hexp.mem_take.mp hmem
  rw [hp] at htr
  have hlife : (Cell.taken p v c : Cell ι κ α).life i
      = [.claim p i, .publish p i v] ++ .take c i v :: [] := rfl
  rw [hlife, List.append_eq_append_iff] at htr
  rcases htr with ⟨a, h1, h2⟩ | ⟨a, h1, h2⟩
  · match a, h2 with
    | [], h2 =>
        rw [List.append_nil] at h1
        rw [List.nil_append] at h2
        exact ⟨⟨p, h1.symm⟩, (List.cons.inj h2).2⟩
    | y :: ys, h2 =>
        -- a second event of the cell between publication and take is impossible
        obtain ⟨rfl, -⟩ := List.cons.inj h2
        have : Act.take c i v ∈ [Act.claim p i, Act.publish p i v] := by
          rw [h1]; simp
        simp at this
  · match a, h2 with
    | [], h2 =>
        rw [List.append_nil] at h1
        rw [List.nil_append] at h2
        exact ⟨⟨p, h1⟩, (List.cons.inj h2).2.symm⟩
    | y :: ys, h2 =>
        have := congrArg List.length h2
        simp at this

end OnceBoard
