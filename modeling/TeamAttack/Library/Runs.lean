import Mathlib

/-! # Labelled transition systems and the histories of their runs

    A step relation `σ → List ε → σ → Prop` performs a step and emits the
    events that step makes visible.  A run glues steps together and
    concatenates what they emit, so a statement about a run of any length is
    an invariant relating the *history* so far to the current state.  The
    rules below are the ones every development over such systems needs:
    invariants, histories, splitting a run at an event, and transporting a
    run along a simulation. -/

namespace Runs

variable {σ τ ε δ : Type*}

/-- `Run step s h t`: some number of steps leads from `s` to `t`, and the
    events they emit, in order, are `h`. -/
inductive Run (step : σ → List ε → σ → Prop) : σ → List ε → σ → Prop where
  | refl (s : σ) : Run step s [] s
  | tail {s t u : σ} {h es : List ε} :
      Run step s h t → step t es u → Run step s (h ++ es) u

variable {step : σ → List ε → σ → Prop} {step' : τ → List δ → τ → Prop}

/-- A single step is a run. -/
theorem Run.single {s t : σ} {es : List ε} (h : step s es t) : Run step s es t := by
  have := Run.tail (Run.refl s) h
  rwa [List.nil_append] at this

/-- Runs compose. -/
theorem Run.append {s t u : σ} {h k : List ε}
    (h₁ : Run step s h t) (h₂ : Run step t k u) : Run step s (h ++ k) u := by
  induction h₂ with
  | refl => rwa [List.append_nil]
  | tail _ hs ih =>
      rw [← List.append_assoc]
      exact ih.tail hs

/-- **The history rule.**  A relation between history and state that holds at
    the start and survives every step holds at the end of every run. -/
theorem Run.history {I : List ε → σ → Prop} {s t : σ} {h : List ε}
    (hrun : Run step s h t) (h0 : I [] s)
    (hstep : ∀ h t es u, I h t → step t es u → I (h ++ es) u) : I h t := by
  induction hrun with
  | refl => exact h0
  | tail _ hs ih => exact hstep _ _ _ _ ih hs

/-- **The invariant rule**, the history rule for a predicate on states. -/
theorem Run.invariant {I : σ → Prop} {s t : σ} {h : List ε}
    (hrun : Run step s h t) (h0 : I s)
    (hstep : ∀ t es u, I t → step t es u → I u) : I t :=
  hrun.history (I := fun _ t => I t) h0 (fun _ t es u => hstep t es u)

/-- **The simulation rule.**  If every step from related states is matched by
    a run emitting the translated events, so is every run. -/
theorem Run.simulate {R : σ → τ → Prop} {f : List ε → List δ}
    (hnil : f [] = []) (happ : ∀ h k, f (h ++ k) = f h ++ f k)
    (hsim : ∀ s es t s', R s s' → step s es t →
      ∃ t', Run step' s' (f es) t' ∧ R t t')
    {s t : σ} {s' : τ} {h : List ε} (hrun : Run step s h t) (hR : R s s') :
    ∃ t', Run step' s' (f h) t' ∧ R t t' := by
  induction hrun with
  | refl => exact ⟨s', hnil ▸ Run.refl s', hR⟩
  | tail _ hs ih =>
      obtain ⟨t', hrun', hR'⟩ := ih
      obtain ⟨u', hmore, hRu⟩ := hsim _ _ _ _ hR' hs
      exact ⟨u', happ _ _ ▸ hrun'.append hmore, hRu⟩

/-- Where each step emits at most one event, a run whose history ends in `e`
    passes through the step that emits it. -/
theorem Run.split_event (hone : ∀ s es t, step s es t → es.length ≤ 1)
    {s u : σ} {h : List ε} (hrun : Run step s h u) :
    ∀ {pre : List ε} {e : ε} {post : List ε}, h = pre ++ e :: post →
      ∃ t t', Run step s pre t ∧ step t [e] t' ∧ Run step t' post u := by
  induction hrun with
  | refl => intro pre e post heq; simp at heq
  | @tail t v h es hrun hs ih =>
      intro pre e post heq
      have hlen := hone _ _ _ hs
      match es, hlen with
      | [], _ =>
          rw [List.append_nil] at heq
          obtain ⟨a, b, h1, h2, h3⟩ := ih heq
          have := h3.tail hs
          rw [List.append_nil] at this
          exact ⟨a, b, h1, h2, this⟩
      | [x], _ =>
          -- `e` is the last event, or one of an earlier step
          rcases List.eq_nil_or_concat post with hnil | ⟨post', y, hcat⟩
          · subst hnil
            obtain ⟨h1, h2⟩ := List.append_inj' heq rfl
            obtain rfl : x = e := by simpa using h2
            exact ⟨t, v, h1 ▸ hrun, hs, Run.refl _⟩
          · subst hcat
            have hsplit : h ++ [x] = (pre ++ e :: post') ++ [y] := by simpa using heq
            obtain ⟨h1, h2⟩ := List.append_inj' hsplit rfl
            obtain rfl : x = y := by simpa using h2
            obtain ⟨a, b, k1, k2, k3⟩ := ih h1
            exact ⟨a, b, k1, k2, by simpa using k3.tail hs⟩

/-! ## Executable systems -/

/-- Performs a list of moves, with the events they emit. -/
def exec {μ : Type*} (f : σ → μ → Option (List ε × σ)) (s : σ) :
    List μ → Option (List ε × σ)
  | [] => some ([], s)
  | m :: ms =>
      match f s m with
      | none => none
      | some (es, t) => (exec f t ms).map fun x => (es ++ x.1, x.2)

/-- The steps of an executable system. -/
def Moves {μ : Type*} (f : σ → μ → Option (List ε × σ)) (s : σ) (es : List ε) (t : σ) :
    Prop :=
  ∃ m, f s m = some (es, t)

/-- What can be executed is a run. -/
theorem run_of_exec {μ : Type*} {f : σ → μ → Option (List ε × σ)} {s t : σ} {ms : List μ}
    {h : List ε} (heq : exec f s ms = some (h, t)) : Run (Moves f) s h t := by
  induction ms generalizing s h with
  | nil =>
      obtain ⟨rfl, rfl⟩ := Prod.mk.inj (Option.some.inj heq)
      exact .refl s
  | cons m ms ih =>
      rw [exec] at heq
      cases hm : f s m with
      | none =>
          rw [hm] at heq
          exact nomatch heq
      | some x =>
          obtain ⟨es, u⟩ := x
          rw [hm] at heq
          obtain ⟨⟨k, v⟩, hrest, hpair⟩ := Option.map_eq_some_iff.mp heq
          obtain ⟨rfl, rfl⟩ := Prod.mk.inj hpair
          exact (Run.single ⟨m, hm⟩).append (ih hrest)

/-- A run found by execution, with what was checked of its history and its
    last state. -/
theorem run_of_exec_any {μ : Type*} {f : σ → μ → Option (List ε × σ)} {s : σ} {ms : List μ}
    {p : List ε → σ → Prop} [∀ h t, Decidable (p h t)]
    (hexec : (exec f s ms).any (fun x => decide (p x.1 x.2)) = true) :
    ∃ h t, Run (Moves f) s h t ∧ p h t := by
  obtain ⟨⟨h, t⟩, heq, hp⟩ := (Option.any_eq_true ..).mp hexec
  exact ⟨h, t, run_of_exec heq, of_decide_eq_true hp⟩

/-- **The measure rule.**  Where each move lowers a measure by its weight, an
    execution weighs no more than the measure has lost. -/
theorem exec_measure {μ : Type*} {f : σ → μ → Option (List ε × σ)} (measure : σ → Nat)
    (weight : μ → Nat) {ms : List μ}
    (hstep : ∀ m ∈ ms, ∀ s es t, f s m = some (es, t) → measure t + weight m ≤ measure s)
    {s t : σ} {h : List ε} (heq : exec f s ms = some (h, t)) :
    measure t + (ms.map weight).sum ≤ measure s := by
  induction ms generalizing s h with
  | nil =>
      obtain ⟨-, rfl⟩ := Prod.mk.inj (Option.some.inj heq)
      exact Nat.le_refl _
  | cons m ms ih =>
      rw [exec] at heq
      cases hm : f s m with
      | none =>
          rw [hm] at heq
          cases heq
      | some x =>
          obtain ⟨es, u⟩ := x
          rw [hm] at heq
          obtain ⟨⟨k, v⟩, hrest, hpair⟩ := Option.map_eq_some_iff.mp heq
          obtain ⟨-, rfl⟩ := Prod.mk.inj hpair
          have hfirst := hstep m List.mem_cons_self s es u hm
          have hlater := ih (fun m' hm' => hstep m' (List.mem_cons_of_mem m hm')) hrest
          rw [List.map_cons, List.sum_cons]
          omega

end Runs
