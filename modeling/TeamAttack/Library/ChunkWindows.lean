import Mathlib

/-! # Scanning a list in chunks with lookahead

    A list is cut into chunks, and each chunk is read together with the next
    `ahead` elements, fewer only at the end of the list.  A scan whose result
    at a position depends on a window of at most `ahead + 1` elements from
    there then finds, chunk after chunk, what it finds in the whole list, in
    the same order. -/

namespace ChunkWindows

variable {α β : Type}

/-- A chunk: where it starts, how many positions it owns, what was read. -/
structure Chunk (α : Type) where
  start : Nat
  size : Nat
  raw : List α

/-- The chunk of `size` positions from `start`. -/
def chunkAt (ahead : Nat) (xs : List α) (start size : Nat) : Chunk α :=
  ⟨start, size, (xs.drop start).take (min (size + ahead) (xs.length - start))⟩

/-- The chunks of the given sizes, one after another. -/
def cut (ahead : Nat) (xs : List α) : Nat → List Nat → List (Chunk α)
  | _, [] => []
  | start, size :: sizes => chunkAt ahead xs start size :: cut ahead xs (start + size) sizes

/-- The `w` elements from `pos`, fewer at the end. -/
def window (xs : List α) (pos w : Nat) : List α := (xs.drop pos).take w

theorem length_window (xs : List α) (pos w : Nat) :
    (window xs pos w).length = min w (xs.length - pos) := by
  rw [window, List.length_take, List.length_drop]

theorem getD_window (xs : List α) (pos : Nat) (d : α) :
    xs.getD pos d = (window xs pos 1).headD d := by
  rw [window, List.headD_eq_head?_getD, List.head?_take, if_neg (by decide), List.head?_drop,
    List.getD_eq_getElem?_getD]

/-- A window within a window. -/
theorem window_window {xs : List α} {pos w k v : Nat} (h : k + v ≤ w) :
    window (window xs pos w) k v = window xs (pos + k) v := by
  rw [window, window, window, List.drop_take, List.take_take, List.drop_drop,
    Nat.min_eq_left (by omega)]

/-- Equal windows, and so equal parts of them. -/
theorem window_part {xs ys : List α} {pos pos' w k v : Nat}
    (h : window xs pos w = window ys pos' w) (hk : k + v ≤ w) :
    window xs (pos + k) v = window ys (pos' + k) v := by
  rw [← window_window hk, h, window_window hk]

/-- Where windows are equal, the same number of elements is left, as far as
    they reach. -/
theorem window_room {xs ys : List α} {pos pos' w k : Nat}
    (h : window xs pos w = window ys pos' w) (hpos : 0 < k) (hk : k ≤ w) :
    pos + k ≤ xs.length ↔ pos' + k ≤ ys.length := by
  have hlength := congrArg List.length h
  rw [length_window, length_window] at hlength
  omega

/-- **What a chunk shows of the list**: every window of a position it owns. -/
theorem chunkAt_window {ahead start size pos w : Nat} {xs : List α} (hpos : pos < size)
    (hw : w ≤ ahead + 1) :
    window (chunkAt ahead xs start size).raw pos w = window xs (start + pos) w := by
  show window ((xs.drop start).take (min (size + ahead) (xs.length - start))) pos w = _
  have hall : (xs.drop start).take (min (size + ahead) (xs.length - start))
      = window xs start (size + ahead) := by
    rw [window, ← List.length_drop, ← List.take_eq_take_min]
  rw [hall, window_window (by omega)]

theorem mem_cut {ahead : Nat} {xs : List α} {sizes : List Nat} {start : Nat} {c : Chunk α}
    (h : c ∈ cut ahead xs start sizes) :
    c = chunkAt ahead xs c.start c.size ∧ start ≤ c.start
      ∧ c.start + c.size ≤ start + sizes.sum := by
  induction sizes generalizing start with
  | nil => cases h
  | cons size sizes ih =>
      rw [List.sum_cons]
      rcases List.mem_cons.mp h with rfl | hmem
      · refine ⟨rfl, le_rfl, ?_⟩
        show start + size ≤ start + (size + sizes.sum)
        omega
      · obtain ⟨hc, hlow, hhigh⟩ := ih hmem
        exact ⟨hc, by omega, by omega⟩

/-- Every position of the list is owned by a chunk. -/
theorem cut_owner {ahead : Nat} {xs : List α} {sizes : List Nat} {start pos : Nat}
    (hlow : start ≤ pos) (hhigh : pos < start + sizes.sum) :
    ∃ c ∈ cut ahead xs start sizes, c.start ≤ pos ∧ pos < c.start + c.size := by
  induction sizes generalizing start with
  | nil =>
      rw [List.sum_nil] at hhigh
      omega
  | cons size sizes ih =>
      rw [List.sum_cons] at hhigh
      by_cases hfirst : pos < start + size
      · exact ⟨_, List.mem_cons_self, hlow, hfirst⟩
      · have hnext : start + size ≤ pos := Nat.le_of_not_lt hfirst
        obtain ⟨c, hc, howner⟩ := ih hnext (by omega)
        exact ⟨c, List.mem_cons_of_mem _ hc, howner⟩

/-- **A scan of the chunks is a scan of the list**, when it agrees with it at
    every position of every chunk. -/
theorem flatMap_cut {ahead : Nat} {xs : List α} {scan : Chunk α → Nat → List β}
    {whole : Nat → List β} {sizes : List Nat} {start : Nat}
    (h : ∀ c ∈ cut ahead xs start sizes, ∀ pos < c.size, scan c pos = whole (c.start + pos)) :
    (cut ahead xs start sizes).flatMap (fun c => (List.range c.size).flatMap (scan c))
      = (List.range' start sizes.sum).flatMap whole := by
  induction sizes generalizing start with
  | nil => rfl
  | cons size sizes ih =>
      -- the positions of the first chunk come first
      have hfirst : (List.range size).flatMap (scan (chunkAt ahead xs start size))
          = (List.range' start size).flatMap whole := by
        rw [List.range'_eq_map_range, List.flatMap_map]
        refine List.flatMap_congr ?_
        intro pos hpos
        exact h _ List.mem_cons_self pos (List.mem_range.mp hpos)
      have hrest := ih fun c hc => h c (List.mem_cons_of_mem _ hc)
      show (List.range size).flatMap (scan (chunkAt ahead xs start size))
        ++ (cut ahead xs (start + size) sizes).flatMap _ = _
      rw [hfirst, hrest, List.sum_cons, ← List.flatMap_append, ← List.range'_append_1]

/-! ## Positions kept by a test -/

theorem flatMap_filter {γ : Type} (p : γ → Bool) (f : γ → List β) (l : List γ) :
    (l.filter p).flatMap f = l.flatMap (fun x => if p x then f x else []) := by
  induction l with
  | nil => rfl
  | cons x l ih =>
      rw [List.flatMap_cons, ← ih]
      cases hx : p x with
      | true =>
          rw [List.filter_cons_of_pos hx, List.flatMap_cons]
          rfl
      | false =>
          rw [List.filter_cons_of_neg (by rw [hx]; exact Bool.false_ne_true)]
          rfl

/-- Two bounds on a position, one by the range and one by a test. -/
theorem flatMap_range_swap (f : Nat → List β) (a b : Nat) :
    (List.range a).flatMap (fun i => if i < b then f i else [])
      = (List.range b).flatMap (fun i => if i < a then f i else []) := by
  have hle : ∀ a b : Nat, a ≤ b → (List.range a).flatMap (fun i => if i < b then f i else [])
      = (List.range b).flatMap (fun i => if i < a then f i else []) := by
    intro a b hab
    obtain ⟨k, rfl⟩ := Nat.exists_eq_add_of_le hab
    -- nothing is kept beyond the smaller bound
    have hbeyond : ((List.range k).map (a + ·)).flatMap (fun i => if i < a then f i else [])
        = [] := by
      rw [List.flatMap_eq_nil_iff]
      intro i hi
      obtain ⟨j, -, rfl⟩ := List.mem_map.mp hi
      exact if_neg (by omega)
    rw [List.range_add, List.flatMap_append, hbeyond, List.append_nil]
    refine List.flatMap_congr ?_
    intro i hi
    have hlt := List.mem_range.mp hi
    rw [if_pos (by omega), if_pos hlt]
  rcases Nat.le_total a b with hab | hba
  · exact hle a b hab
  · exact (hle b a hba).symm

/-- Results that tell their position are found once. -/
theorem nodup_positions {f : Nat → List β} {key : β → Int} {origin : Int}
    (hnodup : ∀ pos, (f pos).Nodup) (hkey : ∀ pos, ∀ x ∈ f pos, key x = origin + pos) (n : Nat) :
    ((List.range n).flatMap f).Nodup := by
  refine List.nodup_flatMap.mpr ⟨fun pos _ => hnodup pos, ?_⟩
  refine List.nodup_range.imp ?_
  intro pos pos' hne x hx hx'
  have hsame := (hkey pos x hx).symm.trans (hkey pos' x hx')
  omega

end ChunkWindows
