import Mathlib

/-! # Reading a successful computation backwards

    Rules for code in `Except`: what must have happened for a computation to
    return `ok`.  `bind_eq_ok` takes a sequence apart, `check_eq_ok` a guard
    that refuses, and `foldlM_invariant` carries a property through a loop
    that may refuse. -/

namespace ExceptRules

variable {ε α β : Type}

theorem bind_eq_ok {x : Except ε α} {f : α → Except ε β} {b : β} :
    x >>= f = .ok b ↔ ∃ a, x = .ok a ∧ f a = .ok b := by
  cases x with
  | error e => exact ⟨nofun, fun ⟨a, ha, _⟩ => nomatch ha⟩
  | ok a =>
      constructor
      · intro h
        exact ⟨a, rfl, h⟩
      · rintro ⟨a', ha, hf⟩
        cases ha
        exact hf

theorem bind_ok (a : α) (f : α → Except ε β) : (.ok a >>= f) = f a := rfl

theorem pure_eq_ok {a b : α} : (pure a : Except ε α) = .ok b ↔ a = b := by
  constructor
  · intro h
    exact Except.ok.inj h
  · intro h
    rw [h]
    rfl

/-- A check that refuses, followed by the rest of the code. -/
theorem check_eq_ok {c : Prop} [Decidable c] {e : ε} {k : PUnit → Except ε β} {b : β} :
    (if c then (Except.error e : Except ε PUnit) >>= k else k ⟨⟩) = .ok b
      ↔ ¬ c ∧ k ⟨⟩ = .ok b := by
  by_cases hc : c
  · rw [if_pos hc]
    exact ⟨nofun, fun h => absurd hc h.1⟩
  · rw [if_neg hc]
    exact ⟨fun h => ⟨hc, h⟩, fun h => h.2⟩

/-- A check that refuses, at the end of the code. -/
theorem last_check_eq_ok {c : Prop} [Decidable c] {e : ε} {a b : α} :
    (if c then Except.error e else pure a) = .ok b ↔ ¬ c ∧ a = b := by
  by_cases hc : c
  · rw [if_pos hc]
    exact ⟨nofun, fun h => absurd hc h.1⟩
  · rw [if_neg hc, pure_eq_ok]
    exact ⟨fun h => ⟨hc, h⟩, fun h => h.2⟩

/-- A check that lets through. -/
theorem require_eq_ok {c : Prop} [Decidable c] {e : ε} {a : α} :
    (if c then Except.ok a else Except.error e) = .ok a ↔ c := by
  by_cases hc : c
  · rw [if_pos hc]
    exact iff_of_true rfl hc
  · rw [if_neg hc]
    exact ⟨nofun, fun h => absurd h hc⟩

/-- A loop of checks passes when each check does. -/
theorem forM_eq_ok {f : α → Except ε Unit} {l : List α} :
    l.forM f = .ok () ↔ ∀ a ∈ l, f a = .ok () := by
  induction l with
  | nil => exact ⟨fun _ _ ha => (List.not_mem_nil ha).elim, fun _ => rfl⟩
  | cons a rest ih =>
      rw [List.forM_eq_forM] at ih ⊢
      rw [List.forM_cons, bind_eq_ok, List.forall_mem_cons, ← ih]
      constructor
      · rintro ⟨⟨⟩, ha, hrest⟩
        exact ⟨ha, hrest⟩
      · rintro ⟨ha, hrest⟩
        exact ⟨(), ha, hrest⟩

theorem forM_congr {f g : α → Except ε Unit} {l : List α} (h : ∀ a ∈ l, f a = g a) :
    l.forM f = l.forM g := by
  induction l with
  | nil => rfl
  | cons a rest ih =>
      rw [List.forM_eq_forM] at ih ⊢
      rw [List.forM_cons, List.forM_cons, h a List.mem_cons_self,
        ih fun b hb => h b (List.mem_cons_of_mem a hb)]

theorem mapM_congr {f g : α → Except ε β} {l : List α} (h : ∀ a ∈ l, f a = g a) :
    l.mapM f = l.mapM g := by
  induction l with
  | nil => rfl
  | cons a rest ih =>
      rw [List.mapM_cons, List.mapM_cons, h a List.mem_cons_self,
        ih fun b hb => h b (List.mem_cons_of_mem a hb)]

/-- A loop none of whose iterations refuses. -/
theorem mapM_of_ok {f : α → Except ε β} {g : α → β} {l : List α}
    (h : ∀ a ∈ l, f a = .ok (g a)) : l.mapM f = .ok (l.map g) := by
  induction l with
  | nil => rfl
  | cons a rest ih =>
      rw [List.mapM_cons, h a List.mem_cons_self, ih fun b hb => h b (List.mem_cons_of_mem a hb)]
      rfl

theorem of_mapM_ok {f : α → Except ε β} {l : List α} {r : List β} (h : l.mapM f = .ok r) :
    ∀ a ∈ l, ∃ b, f a = .ok b := by
  induction l generalizing r with
  | nil =>
      intro a ha
      cases ha
  | cons a rest ih =>
      rw [List.mapM_cons, bind_eq_ok] at h
      obtain ⟨b, hb, hmore⟩ := h
      rw [bind_eq_ok] at hmore
      obtain ⟨bs, hbs, -⟩ := hmore
      rw [List.forall_mem_cons]
      exact ⟨⟨b, hb⟩, ih hbs⟩

/-- A loop that may refuse keeps what each iteration keeps. -/
theorem foldlM_invariant {p : β → Prop} {f : β → α → Except ε β}
    (hf : ∀ b a b', p b → f b a = .ok b' → p b') {l : List α} {b b' : β}
    (h : l.foldlM f b = .ok b') (hb : p b) : p b' := by
  induction l generalizing b with
  | nil =>
      obtain rfl := Except.ok.inj h
      exact hb
  | cons a l ih =>
      rw [List.foldlM_cons, bind_eq_ok] at h
      obtain ⟨c, hc, hrest⟩ := h
      exact ih hrest (hf b a c hb hc)

end ExceptRules
