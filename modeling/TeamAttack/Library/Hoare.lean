import Mathlib

/-! # Hoare triples for programs that change a state and may stop early

    A program over a state `σ` ends with a value or with an early exit, and
    in both cases with a state.  `Triple P x Q E` says what holds in either
    case; with `E` false it says that the program reaches its end. -/

namespace Hoare

variable {ε σ α β : Type}

/-- Programs with a state and early exits. -/
abbrev Program (ε σ : Type) := ExceptT ε (StateM σ)

/-- How a program ends, started in `s`. -/
def outcome (x : Program ε σ α) (s : σ) : Except ε α × σ := x.run.run s

/-- `Q` of a value and the state it leaves, `E` of an exit and its state. -/
def Ends (Q : α → σ → Prop) (E : ε → σ → Prop) : Except ε α × σ → Prop
  | (.ok a, t) => Q a t
  | (.error e, t) => E e t

/-- From `P`, the program ends with `Q` or exits with `E`. -/
structure Triple (P : σ → Prop) (x : Program ε σ α) (Q : α → σ → Prop)
    (E : ε → σ → Prop) : Prop where
  ends : ∀ s, P s → Ends Q E (outcome x s)

@[simp] theorem outcome_pure (a : α) (s : σ) :
    outcome (pure a : Program ε σ α) s = (.ok a, s) := rfl

@[simp] theorem outcome_throw (e : ε) (s : σ) :
    outcome (throw e : Program ε σ α) s = (.error e, s) := rfl

@[simp] theorem outcome_get (s : σ) : outcome (get : Program ε σ σ) s = (.ok s, s) := rfl

@[simp] theorem outcome_modify (f : σ → σ) (s : σ) :
    outcome (modify f : Program ε σ PUnit) s = (.ok ⟨⟩, f s) := rfl

theorem outcome_bind (x : Program ε σ α) (f : α → Program ε σ β) (s : σ) :
    outcome (x >>= f) s = match outcome x s with
      | (.ok a, t) => outcome (f a) t
      | (.error e, t) => (.error e, t) := by
  show outcome (ExceptT.bind x f) s = _
  simp only [outcome, ExceptT.bind, ExceptT.run, ExceptT.mk, StateT.run_bind]
  show (match StateT.run x s with
    | (r, t) => StateT.run (ExceptT.bindCont f r) t) = _
  rcases StateT.run x s with ⟨e | a, t⟩ <;> rfl

theorem outcome_tryCatch (x : Program ε σ α) (f : ε → Program ε σ α) (s : σ) :
    outcome (tryCatch x f) s = match outcome x s with
      | (.ok a, t) => (.ok a, t)
      | (.error e, t) => outcome (f e) t := by
  show outcome (ExceptT.tryCatch x f) s = _
  simp only [outcome, ExceptT.tryCatch, ExceptT.run, ExceptT.mk, StateT.run_bind]
  rcases StateT.run x s with ⟨e | a, t⟩
  · rfl
  · rfl

/-- Whenever the program reaches its end, `F` is known. -/
def Learns (x : Program ε σ α) (F : Prop) : Prop :=
  Triple (fun _ => True) x (fun _ _ => F) (fun _ _ => True)

/-- From any state, the program ends with the value `a`. -/
def Succeeds (x : Program ε σ α) (a : α) : Prop :=
  Triple (fun _ => True) x (fun r _ => r = a) (fun _ _ => False)

section Rules

variable {P P' : σ → Prop} {Q Q' : α → σ → Prop} {R : β → σ → Prop} {E E' : ε → σ → Prop}

theorem Triple.value {a : α} (h : ∀ s, P s → Q a s) :
    Triple P (pure a : Program ε σ α) Q E :=
  ⟨h⟩

theorem Triple.exit {e : ε} (h : ∀ s, P s → E e s) :
    Triple P (throw e : Program ε σ α) Q E :=
  ⟨h⟩

theorem Triple.update {f : σ → σ} {Q : PUnit → σ → Prop} (h : ∀ s, P s → Q ⟨⟩ (f s)) :
    Triple P (modify f : Program ε σ PUnit) Q E :=
  ⟨h⟩

/-- **Sequencing.** -/
theorem Triple.bind {x : Program ε σ α} {f : α → Program ε σ β}
    (hx : Triple P x Q E) (hf : ∀ a, Triple (Q a) (f a) R E) : Triple P (x >>= f) R E := by
  constructor
  intro s hs
  have hend := hx.ends s hs
  rw [outcome_bind]
  generalize outcome x s = r at hend ⊢
  obtain ⟨e | a, t⟩ := r
  · exact hend
  · exact (hf a).ends t hend

/-- Reading the state. -/
theorem Triple.read {f : σ → Program ε σ α}
    (hf : ∀ r, Triple (fun s => s = r ∧ P s) (f r) Q E) :
    Triple P ((get : Program ε σ σ) >>= f) Q E := by
  constructor
  intro s hs
  rw [outcome_bind, outcome_get]
  exact (hf s).ends s ⟨rfl, hs⟩

/-- Recovering from an exit. -/
theorem Triple.recover {x : Program ε σ α} {f : ε → Program ε σ α}
    (hx : Triple P x Q E) (hf : ∀ e, Triple (E e) (f e) Q E') :
    Triple P (tryCatch x f) Q E' := by
  constructor
  intro s hs
  have hend := hx.ends s hs
  rw [outcome_tryCatch]
  generalize outcome x s = r at hend ⊢
  obtain ⟨e | a, t⟩ := r
  · exact (hf e).ends t hend
  · exact hend

/-- **Consequence.** -/
theorem Triple.conseq {x : Program ε σ α} (hx : Triple P x Q E)
    (hP : ∀ s, P' s → P s) (hQ : ∀ a s, Q a s → Q' a s) (hE : ∀ e s, E e s → E' e s) :
    Triple P' x Q' E' := by
  constructor
  intro s hs
  have hend := hx.ends s (hP s hs)
  generalize outcome x s = r at hend ⊢
  obtain ⟨e | a, t⟩ := r
  · exact hE e t hend
  · exact hQ a t hend

/-- Two triples of one program. -/
theorem Triple.and {x : Program ε σ α} (hx : Triple P x Q E) (hx' : Triple P x Q' E') :
    Triple P x (fun a s => Q a s ∧ Q' a s) (fun e s => E e s ∧ E' e s) := by
  constructor
  intro s hs
  have hend := hx.ends s hs
  have hend' := hx'.ends s hs
  generalize outcome x s = r at hend hend' ⊢
  obtain ⟨e | a, t⟩ := r
  · exact ⟨hend, hend'⟩
  · exact ⟨hend, hend'⟩

/-- A choice. -/
theorem Triple.ite {c : Prop} [Decidable c] {x y : Program ε σ α}
    (hx : c → Triple P x Q E) (hy : ¬ c → Triple P y Q E) :
    Triple P (if c then x else y) Q E := by
  by_cases hc : c
  · rw [if_pos hc]
    exact hx hc
  · rw [if_neg hc]
    exact hy hc

/-- An optional step, and the rest of the program. -/
theorem Triple.optional {c : Prop} [Decidable c] {x : Program ε σ PUnit}
    {k : PUnit → Program ε σ β} (hx : c → Triple P x (fun _ => P') E)
    (hskip : ¬ c → ∀ s, P s → P' s) (hk : Triple P' (k ⟨⟩) R E) :
    Triple P (if c then x >>= k else k ⟨⟩) R E := by
  refine Triple.ite ?_ ?_
  · intro hc
    exact Triple.bind (hx hc) (fun _ => hk)
  · intro hc
    exact hk.conseq (hskip hc) (fun _ _ h => h) (fun _ _ h => h)

/-- A loop over a list keeps what each of its steps keeps. -/
theorem Triple.loop {γ : Type} {f : γ → Program ε σ PUnit} {l : List γ}
    (hf : ∀ c ∈ l, Triple P (f c) (fun _ => P) E) : Triple P (l.forM f) (fun _ => P) E := by
  induction l with
  | nil => exact Triple.value (fun _ h => h)
  | cons c rest ih =>
      rw [List.forM_eq_forM, List.forM_cons]
      refine Triple.bind (hf c List.mem_cons_self) ?_
      intro _
      exact ih (fun c' hc' => hf c' (List.mem_cons_of_mem c hc'))

/-- A fact about the inputs in the precondition is a hypothesis. -/
theorem Triple.assume {c : Prop} {x : Program ε σ α} (h : c → Triple P x Q E) :
    Triple (fun s => c ∧ P s) x Q E := by
  constructor
  intro s hs
  exact (h hs.1).ends s hs.2

theorem Triple.of_error {x : Program ε σ α} (h : Triple P x Q E) {s t : σ} {e : ε} (hs : P s)
    (heq : outcome x s = (.error e, t)) : E e t := by
  have hend := h.ends s hs
  rwa [heq] at hend

/-- A program that cannot exit early reaches its end. -/
theorem Triple.reaches {x : Program ε σ α} (h : Triple P x Q (fun _ _ => False)) {s : σ}
    (hs : P s) : ∃ a t, outcome x s = (.ok a, t) ∧ Q a t := by
  have hend := h.ends s hs
  generalize outcome x s = r at hend ⊢
  obtain ⟨e | a, t⟩ := r
  · exact False.elim hend
  · exact ⟨a, t, rfl, hend⟩

end Rules

section Facts

variable {F : Prop} {x : Program ε σ α} {k : α → Program ε σ β}

/-- What is known anyway. -/
theorem learns_of (h : F) (x : Program ε σ α) : Learns x F := by
  constructor
  intro s _
  generalize outcome x s = r
  obtain ⟨e | a, t⟩ := r
  · trivial
  · exact h

/-- What an exit would contradict. -/
theorem learns_throw (e : ε) : Learns (throw e : Program ε σ α) F :=
  Triple.exit (fun _ _ => trivial)

theorem learns_first (hx : Learns x F) : Learns (x >>= k) F := by
  refine Triple.bind hx ?_
  intro a
  constructor
  intro s hF
  exact (learns_of hF (k a)).ends s trivial

theorem learns_later (hk : ∀ a, Learns (k a) F) : Learns (x >>= k) F :=
  Triple.bind (learns_of trivial x) hk

theorem learns_optional {c : Prop} [Decidable c] {x : Program ε σ PUnit}
    {k : PUnit → Program ε σ β} (hx : c → Learns x F) (hskip : ¬ c → F) :
    Learns (if c then x >>= k else k ⟨⟩) F := by
  refine Triple.ite ?_ ?_
  · intro hc
    exact learns_first (hx hc)
  · intro hc
    exact learns_of (hskip hc) _

theorem learns_past {c : Prop} [Decidable c] {x : Program ε σ PUnit}
    {k : PUnit → Program ε σ β} (hk : Learns (k ⟨⟩) F) :
    Learns (if c then x >>= k else k ⟨⟩) F :=
  Triple.ite (fun _ => learns_later (fun _ => hk)) (fun _ => hk)

theorem Learns.and {G : Prop} (hF : Learns x F) (hG : Learns x G) : Learns x (F ∧ G) :=
  (Triple.and hF hG).conseq (fun _ h => h) (fun _ _ h => h) (fun _ _ _ => trivial)

theorem Learns.triple (hF : Learns x F) (P : σ → Prop) :
    Triple P x (fun _ _ => F) (fun _ _ => True) :=
  Triple.conseq hF (fun _ _ => trivial) (fun _ _ h => h) (fun _ _ h => h)

theorem Learns.mono {G : Prop} (hF : Learns x F) (h : F → G) : Learns x G :=
  Triple.conseq hF (fun _ h => h) (fun _ _ hF => h hF) (fun _ _ h => h)

/-- A loop that ends has ended each of its steps. -/
theorem learns_loop {γ : Type} {f : γ → Program ε σ PUnit} {p : γ → Prop} {l : List γ}
    (hf : ∀ c ∈ l, Learns (f c) (p c)) : Learns (l.forM f) (∀ c ∈ l, p c) := by
  induction l with
  | nil => exact learns_of (fun c hc => nomatch hc) _
  | cons d rest ih =>
      rw [List.forM_eq_forM, List.forM_cons]
      have hhead := hf d List.mem_cons_self
      have hrest := ih (fun d' hd' => hf d' (List.mem_cons_of_mem d hd'))
      refine (Learns.and (learns_first hhead) (learns_later (fun _ => hrest))).mono ?_
      rintro ⟨hd, hall⟩ c hc
      rcases List.mem_cons.mp hc with rfl | hc
      · exact hd
      · exact hall c hc

end Facts

section Success

variable {x : Program ε σ α} {k : α → Program ε σ β} {a : α} {b : β}

theorem succeeds_pure (a : α) : Succeeds (pure a : Program ε σ α) a :=
  Triple.value (fun _ _ => rfl)

theorem succeeds_modify (f : σ → σ) : Succeeds (modify f : Program ε σ PUnit) ⟨⟩ :=
  Triple.update (fun _ _ => rfl)

theorem succeeds_bind (hx : Succeeds x a) (hk : Succeeds (k a) b) : Succeeds (x >>= k) b := by
  refine Triple.bind hx ?_
  intro r
  constructor
  rintro s rfl
  exact hk.ends s trivial

theorem succeeds_read {f : σ → Program ε σ α} (hf : ∀ r, Succeeds (f r) a) :
    Succeeds ((get : Program ε σ σ) >>= f) a :=
  Triple.read (fun r => Triple.conseq (hf r) (fun _ _ => trivial) (fun _ _ h => h)
    (fun _ _ h => h))

theorem succeeds_optional {c : Prop} [Decidable c] {x : Program ε σ PUnit}
    {k : PUnit → Program ε σ β} (hx : c → Succeeds x ⟨⟩) (hk : Succeeds (k ⟨⟩) b) :
    Succeeds (if c then x >>= k else k ⟨⟩) b :=
  Triple.ite (fun hc => succeeds_bind (hx hc) hk) (fun _ => hk)

theorem succeeds_loop {γ : Type} {f : γ → Program ε σ PUnit} {l : List γ}
    (hf : ∀ c ∈ l, Succeeds (f c) ⟨⟩) : Succeeds (l.forM f) ⟨⟩ := by
  induction l with
  | nil => exact succeeds_pure _
  | cons c rest ih =>
      rw [List.forM_eq_forM, List.forM_cons]
      exact succeeds_bind (hf c List.mem_cons_self)
        (ih (fun c' hc' => hf c' (List.mem_cons_of_mem c hc')))

end Success

end Hoare
