import TeamAttack.ProbeDrains

/-! # Every callback is accounted for

    A counter is the number of callbacks past its `fetch_add`.  When no
    callback is in progress, each counted one holds a slot of its bank or was
    dropped (`callbacks_accounted`). -/

namespace TeamAttack.ProbeSchedule

open Runs CaptureSchedule ApplicationProbe
open Application (siteCount bankLimit coopMode)

/-! ## Counting by sets -/

section Census

variable {α : Type}

/-- A counter goes up with its set. -/
theorem encard_grow {S S' : Set α} {a : α} {n : Nat} (hn : S.encard = n) (ha : a ∉ S)
    (hS : ∀ x, x ∈ S' ↔ x = a ∨ x ∈ S) : S'.encard = (n + 1 : Nat) := by
  have heq : S' = insert a S := Set.ext hS
  rw [heq, Set.encard_insert_of_notMem ha, hn]
  rfl

/-- A set is counted class by class. -/
theorem encard_classes {n : Nat} (S : Set α) (f : α → Fin n) :
    S.encard = ∑ k, {x | x ∈ S ∧ f x = k}.encard := by
  have hunion : S = ⋃ k, {x | x ∈ S ∧ f x = k} := by
    ext x
    rw [Set.mem_iUnion]
    exact ⟨fun hx => ⟨f x, hx, rfl⟩, fun ⟨_, hx, _⟩ => hx⟩
  have hdisjoint : Pairwise (Function.onFun Disjoint fun k => {x | x ∈ S ∧ f x = k}) := by
    intro j k hjk
    refine Set.disjoint_left.mpr fun x hj hk => hjk ?_
    exact hj.2.symm.trans hk.2
  calc S.encard = (⋃ k, {x | x ∈ S ∧ f x = k}).encard := congrArg Set.encard hunion
    _ = ∑ᶠ k, {x | x ∈ S ∧ f x = k}.encard := Set.encard_iUnion_of_finite hdisjoint
    _ = ∑ k, {x | x ∈ S ∧ f x = k}.encard := finsum_eq_sum_of_fintype _

end Census

/-! ## The counters -/

/-- Past `CALLS[kind].fetch_add`. -/
def Calling.Counted : Calling → Prop
  | .counted _ => True
  | .capturing .. => True
  | .recorded _ => True
  | .lost _ => True
  | .idle => False
  | .passed => False
  | .entered _ => False

/-- Past `DROPPED.fetch_add`. -/
def Calling.Lost : Calling → Prop
  | .lost _ => True
  | .idle => False
  | .passed => False
  | .entered _ => False
  | .counted _ => False
  | .capturing .. => False
  | .recorded _ => False

/-- Not begun, or returned. -/
def Calling.AtRest : Calling → Prop
  | .idle => True
  | .passed => True
  | .recorded _ => True
  | .lost _ => True
  | .entered _ => False
  | .counted _ => False
  | .capturing .. => False

instance decidableAtRest (c : Calling) : Decidable c.AtRest := by
  cases c <;> first | exact .isTrue trivial | exact .isFalse id

variable {P D : Type} {call : P → Call} {t t' : State P D} {es h : List (Effect P D)}

/-- The callbacks of a hook past their `fetch_add`. -/
def counted (call : P → Call) (t : State P D) (k : Kind) : Set P :=
  {p | (t.calling p).Counted ∧ (call p).kind = k}

/-- The callbacks that hold a slot of a bank. -/
def holders (t : State P D) (b : Bank) : Set P :=
  {p | ((t.banks b).producing p).cell? ≠ none}

/-- The callbacks that were dropped. -/
def losers (t : State P D) : Set P := {p | (t.calling p).Lost}

/-- **Every counter is the number of its callbacks.** -/
structure Tallied (call : P → Call) (h : List (Effect P D)) (t : State P D) : Prop where
  called : ∀ p, .called p ∈ h ↔ (t.calling p).Counted
  calls : ∀ k, (counted call t k).encard = t.calls k
  reserved : ∀ b, (holders t b).encard = (t.banks b).store.next
  dropped : (losers t).encard = t.dropped

theorem Tallied.start : Tallied call [] (State.start P D) where
  called := fun _ => ⟨fun hp => (nomatch hp), fun hp => hp.elim⟩
  calls := fun k => by
    have hnone : counted call (State.start P D) k = ∅ :=
      Set.eq_empty_iff_forall_notMem.mpr fun p hp => hp.1
    rw [hnone, Set.encard_empty]
    rfl
  reserved := fun b => by
    have hnone : holders (State.start P D) b = ∅ :=
      Set.eq_empty_iff_forall_notMem.mpr fun p hp => hp rfl
    rw [hnone, Set.encard_empty]
    rfl
  dropped := by
    have hnone : losers (State.start P D) = ∅ :=
      Set.eq_empty_iff_forall_notMem.mpr fun p hp => hp
    rw [hnone, Set.encard_empty]
    rfl

section Steps

variable [DecidableEq P]

/-- What a step says of one callback it says of the set, where `p` moves from
    `old` to a place that is the same to the counter. -/
theorem moved_iff (f : Calling → Prop) {p : P} {calling : Calling} {u : State P D}
    (hu : u.calling = t.calling) (hsame : f calling ↔ f (t.calling p)) (q : P) :
    f ((u.atCall p calling).calling q) ↔ f (t.calling q) := by
  by_cases hq : q = p
  · subst hq
    rw [atCall_self]
    exact hsame
  · rw [atCall_of_ne _ _ hq, hu]

/-- The same, where `p` is new to the counter. -/
theorem grown_iff (f : Calling → Prop) {p : P} {calling : Calling} {u : State P D}
    (hu : u.calling = t.calling) (hnew : f calling) (q : P) :
    f ((u.atCall p calling).calling q) ↔ q = p ∨ f (t.calling q) := by
  by_cases hq : q = p
  · subst hq
    rw [atCall_self]
    exact ⟨fun _ => Or.inl rfl, fun _ => hnew⟩
  · rw [atCall_of_ne _ _ hq, hu]
    exact ⟨Or.inr, fun h => h.resolve_left hq⟩

/-- A step of a callback that no counter notices. -/
theorem Tallied.moved (htallied : Tallied call h t) {p : P} {calling : Calling}
    (hcounted : calling.Counted ↔ (t.calling p).Counted)
    (hlost : calling.Lost ↔ (t.calling p).Lost) :
    Tallied call (h ++ []) (t.atCall p calling) where
  called := fun q => by
    rw [List.append_nil, htallied.called q]
    exact (moved_iff Calling.Counted rfl hcounted q).symm
  calls := fun k => by
    have hsame : counted call (t.atCall p calling) k = counted call t k :=
      Set.ext fun q => and_congr_left' (moved_iff Calling.Counted rfl hcounted q)
    rw [hsame]
    exact htallied.calls k
  reserved := htallied.reserved
  dropped := by
    have hsame : losers (t.atCall p calling) = losers t :=
      Set.ext fun q => moved_iff Calling.Lost rfl hlost q
    rw [hsame]
    exact htallied.dropped

/-- `CALLS` counts the callback that increments it. -/
theorem Tallied.counts (htallied : Tallied call h t) {p : P} {mutate : Bool} {action : UInt8}
    (hcalling : t.calling p = .entered mutate) :
    Tallied call (h ++ [.called p]) ((t.count (call p).kind).atCall p (.counted action)) := by
  have hnew : p ∉ counted call t (call p).kind := by
    rintro ⟨hcounted, -⟩
    rw [hcalling] at hcounted
    exact hcounted
  have hgrown : ∀ q, (((t.count (call p).kind).atCall p (.counted action)).calling q).Counted
      ↔ q = p ∨ (t.calling q).Counted := grown_iff Calling.Counted rfl trivial
  refine ⟨fun q => ?_, fun k => ?_, htallied.reserved, ?_⟩
  · rw [hgrown, List.mem_append, List.mem_singleton, htallied.called q, or_comm]
    exact or_congr_left (by rw [Effect.called.injEq])
  -- one class grows, the others stay
  · by_cases hk : k = (call p).kind
    · subst hk
      show _ = ((Function.update t.calls (call p).kind (t.calls (call p).kind + 1)
        (call p).kind : Nat) : ℕ∞)
      rw [Function.update_self]
      refine encard_grow (htallied.calls _) hnew fun q => ?_
      show _ ∧ _ ↔ q = p ∨ _ ∧ _
      rw [hgrown]
      constructor
      · rintro ⟨rfl | hq, hkind⟩
        · exact Or.inl rfl
        · exact Or.inr ⟨hq, hkind⟩
      · rintro (rfl | ⟨hq, hkind⟩)
        · exact ⟨Or.inl rfl, rfl⟩
        · exact ⟨Or.inr hq, hkind⟩
    · show _ = ((Function.update t.calls (call p).kind (t.calls (call p).kind + 1) k : Nat)
        : ℕ∞)
      rw [Function.update_of_ne hk, ← htallied.calls k]
      refine congrArg Set.encard (Set.ext fun q => ?_)
      show _ ∧ _ ↔ _ ∧ _
      rw [hgrown]
      constructor
      · rintro ⟨rfl | hq, hkind⟩
        · exact absurd hkind.symm hk
        · exact ⟨hq, hkind⟩
      · rintro ⟨hq, hkind⟩
        exact ⟨Or.inr hq, hkind⟩
  · have hsame : losers ((t.count (call p).kind).atCall p (.counted action)) = losers t :=
      Set.ext fun q => moved_iff (t := t) Calling.Lost rfl (by rw [hcalling]; exact Iff.rfl) q
    rw [hsame]
    exact htallied.dropped

/-- `DROPPED` counts the callback whose capture failed. -/
theorem Tallied.drops (htallied : Tallied call h t) {p : P} {mode : UInt32} {action : UInt8}
    (hcalling : t.calling p = .capturing mode action) :
    Tallied call (h ++ [.dropped p]) (t.drop.atCall p (.lost mode)) := by
  have hsame : ∀ q, ((t.drop.atCall p (.lost mode)).calling q).Counted
      ↔ (t.calling q).Counted :=
    moved_iff Calling.Counted rfl (by rw [hcalling]; exact Iff.rfl)
  refine ⟨fun q => ?_, fun k => ?_, htallied.reserved, ?_⟩
  · rw [hsame, ← htallied.called q, List.mem_append]
    refine ⟨fun hq => hq.resolve_right fun hnow => ?_, Or.inl⟩
    cases List.mem_singleton.mp hnow
  · have hsets : counted call (t.drop.atCall p (.lost mode)) k = counted call t k :=
      Set.ext fun q => and_congr_left' (hsame q)
    rw [hsets]
    exact htallied.calls k
  · refine encard_grow htallied.dropped (a := p) ?_
      (grown_iff (u := t.drop) Calling.Lost rfl trivial)
    intro hlost
    have hbefore : (t.calling p).Lost := hlost
    rw [hcalling] at hbefore
    exact hbefore

/-- A bank counts the callbacks that hold one of its slots. -/
theorem holders_produced {p : P} {b : Bank} {schedule : Schedule P (D × Nat)}
    {fs : List (CaptureSchedule.Event P (D × Nat))} {spurious : Bool} {e : Application.Event}
    (hreserved : (holders t b).encard = (t.banks b).store.next)
    (hproduce : produce (fun _ => bankLimit) (t.banks b) p spurious e.encode
      = some (fs, schedule)) :
    (holders (t.atBank b schedule) b).encard = ((t.atBank b schedule).banks b).store.next := by
  have hother : ∀ q, q ≠ p → schedule.producing q = (t.banks b).producing q :=
    fun q hq => produced_other (produced_of_produce hproduce) hq
  have hholders : holders (t.atBank b schedule) b
      = {q | (schedule.producing q).cell? ≠ none} := by
    rw [holders, atBank_self]
  rw [hholders, atBank_self]
  -- the other callbacks hold what they held
  have hquiet : (schedule.producing p).cell? = ((t.banks b).producing p).cell? →
      {q | (schedule.producing q).cell? ≠ none} = holders t b := by
    intro hcell
    refine Set.ext fun q => ?_
    show (schedule.producing q).cell? ≠ none ↔ ((t.banks b).producing q).cell? ≠ none
    by_cases hq : q = p
    · subst hq
      rw [hcell]
    · rw [hother q hq]
  rcases produce_own b hproduce with ⟨-, hnext, hcell, -⟩
    | ⟨i, -, hnext, hbefore, hafter, -⟩ | ⟨-, hnext, hcell, -⟩
  · rw [hquiet hcell, hnext]
    exact hreserved
  · rw [hnext]
    refine encard_grow hreserved (a := p) (fun hp => hp hbefore) fun q => ?_
    show (schedule.producing q).cell? ≠ none ↔ q = p ∨ ((t.banks b).producing q).cell? ≠ none
    by_cases hq : q = p
    · subst hq
      rw [hafter]
      exact ⟨fun _ => Or.inl rfl, fun _ h => by cases h⟩
    · rw [hother q hq]
      exact ⟨Or.inr, fun h => h.resolve_left hq⟩
  · rw [hquiet hcell, hnext]
    exact hreserved

theorem Tallied.called_step (htallied : Tallied call h t) {p : P}
    (hp : Called call t p es t') : Tallied call (h ++ es) t' := by
  cases hp with
  | pass hcalling | enter mutate hcalling | choose mode action hcalling
  | record mode action hcalling =>
      refine htallied.moved ?_ ?_
      · rw [hcalling]
        exact Iff.rfl
      · rw [hcalling]
        exact Iff.rfl
  | count mutate action hcalling => exact htallied.counts hcalling
  | lose mode action hcalling hreturned => exact htallied.drops hcalling
  | produce b mode action spurious e fs schedule hcalling hb hkind hmode hproduce =>
      refine ⟨fun q => ?_, htallied.calls, fun c => ?_, htallied.dropped⟩
      · show _ ↔ (t.calling q).Counted
        rw [← htallied.called q, List.mem_append]
        refine ⟨fun hq => hq.resolve_right fun hnow => ?_, Or.inl⟩
        obtain ⟨x, -, hx⟩ := List.mem_filterMap.mp hnow
        cases x <;> cases hx
      · by_cases hc : c = b
        · subst hc
          exact holders_produced (htallied.reserved c) hproduce
        · have hsame : (t.atBank b schedule).banks c = t.banks c := atBank_of_ne t schedule hc
          rw [holders, hsame]
          exact htallied.reserved c

theorem tallied_run [DecidableEq D] (hrun : Run (Step call) (State.start P D) h t) :
    Tallied call h t := by
  refine hrun.history (I := Tallied call) .start (fun h t es t' ih hs => ?_)
  rcases step_cases hs with ⟨p, hp⟩ | ⟨d, hd⟩ | ⟨rfl, active, startTick, rfl⟩
  · exact ih.called_step hp
  · obtain ⟨hcalling, hcalls, hdropped, hbanks⟩ := hd.frame
    refine ⟨fun p => ?_, fun k => ?_, fun b => ?_, ?_⟩
    · rw [hcalling, ← ih.called p, List.mem_append]
      refine ⟨fun hp => hp.resolve_right fun hnow => ?_, Or.inl⟩
      cases hd with
      | finish | visit | fail => cases hnow
      | line => cases List.mem_singleton.mp hnow
    · rw [counted, hcalling, hcalls]
      exact ih.calls k
    · rw [holders, (hbanks b).1, (hbanks b).2]
      exact ih.reserved b
    · rw [losers, hcalling, hdropped]
      exact ih.dropped
  · refine ⟨fun p => ?_, ih.calls, ih.reserved, ih.dropped⟩
    rw [List.append_nil]
    exact ih.called p

end Steps

/-! ## With no callback in progress -/

theorem bank_val (kind : Kind) (mode : UInt32) :
    (bank kind mode).val = kind.val + if mode = coopMode then 8 else 0 := by
  rw [bank]
  split_ifs with hmode
  · rfl
  · rfl

theorem bank_kind {kind kind' : Kind} {mode mode' : UInt32}
    (h : bank kind mode = bank kind' mode') :
    kind = kind' ∧ (mode = coopMode ↔ mode' = coopMode) := by
  have hval := congrArg Fin.val h
  rw [bank_val, bank_val] at hval
  have hlt : kind.val < 8 := kind.isLt
  have hlt' : kind'.val < 8 := kind'.isLt
  split_ifs at hval with hmode hmode' hmode'
  · exact ⟨Fin.ext (by omega), iff_of_true hmode hmode'⟩
  · omega
  · omega
  · exact ⟨Fin.ext (by omega), iff_of_false hmode hmode'⟩

/-- The mode selects one of two banks. -/
theorem bank_cases (kind : Kind) (mode : UInt32) :
    bank kind mode = bank kind 0 ∨ bank kind mode = bank kind coopMode := by
  by_cases hmode : mode = coopMode
  · rw [hmode]
    exact Or.inr rfl
  · refine Or.inl (Fin.ext ?_)
    rw [bank_val, bank_val, if_neg hmode, if_neg (by decide)]

/-- The sixteen banks are two for each kind. -/
theorem sum_banks (f : Bank → Nat) :
    ∑ b, f b = ∑ k : Kind, (f (bank k 0) + f (bank k coopMode)) := by
  have hlow : ∀ k : Fin 8, bank k 0 = Fin.castAdd 8 k := fun k => Fin.ext (bank_val k 0)
  have hhigh : ∀ k : Fin 8, bank k coopMode = Fin.natAdd 8 k := fun k => by
    refine Fin.ext ?_
    rw [bank_val, if_pos rfl, Fin.val_natAdd, Nat.add_comm]
  rw [Finset.sum_add_distrib]
  show ∑ b : Fin (8 + 8), f b = _
  rw [Fin.sum_univ_add]
  refine congrArg₂ (· + ·) (Finset.sum_congr rfl fun k _ => ?_) (Finset.sum_congr rfl fun k _ => ?_)
  · rw [hlow]
  · rw [hhigh]

/-- No callback is between its flags and its return. -/
def State.Quiet (t : State P D) : Prop := ∀ p, (t.calling p).AtRest

/-- `EVENTS[b].reserved()`. -/
def State.reserved (t : State P D) (b : Bank) : Nat := (t.banks b).store.reserved

/-- The first slot beyond the limit of a bank. -/
def firstOver : Index := ⟨64, by decide⟩

/-- What the counters say when no callback is in progress: `bank k 0` and
    `bank k coopMode` are the banks k and k + 8. -/
structure Accounted [DecidableEq D] (call : P → Call) (h : List (Effect P D)) (t : State P D) : Prop where
  tallied : Tallied call h t
  total : ∑ k, t.calls k = ∑ b, t.reserved b + t.dropped
  kind : ∀ k, t.reserved (bank k 0) + t.reserved (bank k coopMode) ≤ t.calls k
  limit : ∀ b, t.reserved b ≤ 64
  nothingDropped : t.dropped = 0 →
    (∀ k, t.reserved (bank k 0) + t.reserved (bank k coopMode) = t.calls k)
      ∧ ∀ p, .called p ∈ h → ∃ mode, t.calling p = .recorded mode
  recorded : ∀ p mode, t.calling p = .recorded mode →
    ∃ e, .sampled p e ∈ h ∧ (Retrievable h t p e ∨ Unwritten h t p e)

section Quiet

variable [DecidableEq P] [DecidableEq D]

/-- The holders of a slot of a bank are counted callbacks of its kind. -/
theorem holders_home (hrun : Run (Step call) (State.start P D) h t) {p : P} {k : Kind}
    {mode : UInt32} (hp : p ∈ holders t (bank k mode)) :
    p ∈ counted call t k ∧ (t.calling p).mode? ≠ none := by
  have hload : (t.banks (bank k mode)).producing p ≠ .load := fun hload => hp (by rw [hload]; rfl)
  obtain ⟨mode', hmode, hbank⟩ := (placed_run hrun).home p _ hload
  refine ⟨⟨?_, (bank_kind hbank).1.symm⟩, fun hnone => by cases hmode.symm.trans hnone⟩
  cases hcalling : t.calling p with
  | capturing | recorded | lost => trivial
  | idle | passed | entered | counted =>
      rw [hcalling] at hmode
      cases hmode

/-- A callback holds a slot of one bank at most. -/
theorem holders_disjoint (hrun : Run (Step call) (State.start P D) h t) {b b' : Bank}
    (hne : b ≠ b') : Disjoint (holders t b) (holders t b') := by
  refine Set.disjoint_left.mpr fun p hp hp' => hne ?_
  have hload : ∀ {b}, p ∈ holders t b → (t.banks b).producing p ≠ .load :=
    fun hp hload => hp (by rw [hload]; rfl)
  obtain ⟨mode, hmode, hbank⟩ := (placed_run hrun).home p b (hload hp)
  obtain ⟨mode', hmode', hbank'⟩ := (placed_run hrun).home p b' (hload hp')
  obtain rfl : mode = mode' := Option.some.inj (hmode.symm.trans hmode')
  exact hbank.trans hbank'.symm

/-- A dropped callback holds no slot. -/
theorem loser_holds_nothing (hrun : Run (Step call) (State.start P D) h t) {p : P}
    (hlost : p ∈ losers t) (b : Bank) : p ∉ holders t b := by
  intro hp
  have hload : (t.banks b).producing p ≠ .load := fun hload => hp (by rw [hload]; rfl)
  obtain ⟨mode, hmode, rfl⟩ := (placed_run hrun).home p b hload
  have hanswer : (t.calling p).answer? = some false := by
    have hlost' : (t.calling p).Lost := hlost
    cases hcalling : t.calling p with
    | lost => rfl
    | idle | passed | entered | counted | capturing | recorded =>
        rw [hcalling] at hlost'
        exact hlost'.elim
  have hreturned := (placed_run hrun).answer p mode hmode false hanswer
  refine hp ?_
  cases hpc : (t.banks (bank (call p).kind mode)).producing p with
  | dropped => rfl
  | load | exchange | fill | publish | captured =>
      rw [hpc] at hreturned
      cases hreturned

/-- **A counted callback at rest holds a slot or was dropped.** -/
theorem counted_quiet (hrun : Run (Step call) (State.start P D) h t) (hquiet : t.Quiet)
    (k : Kind) : counted call t k = holders t (bank k 0) ∪ holders t (bank k coopMode)
      ∪ {p | p ∈ losers t ∧ (call p).kind = k} := by
  ext p
  constructor
  · rintro ⟨hcounted, rfl⟩
    have hrest := hquiet p
    cases hcalling : t.calling p with
    | idle | passed =>
        rw [hcalling] at hcounted
        exact hcounted.elim
    | entered | counted | capturing =>
        rw [hcalling] at hrest
        exact hrest.elim
    | lost mode => exact Or.inr ⟨by show (t.calling p).Lost; rw [hcalling]; trivial, rfl⟩
    | recorded mode =>
        have hanswer := (placed_run hrun).answer p mode (by rw [hcalling]; rfl) true
          (by rw [hcalling]; rfl)
        obtain ⟨i, v, hcaptured⟩ := captured_of_answer hanswer
        have hholds : p ∈ holders t (bank (call p).kind mode) := by
          show ((t.banks (bank (call p).kind mode)).producing p).cell? ≠ none
          rw [hcaptured]
          intro hnone
          cases hnone
        -- the mode it read decides between the two banks of its kind
        rcases bank_cases (call p).kind mode with hbank | hbank
        · exact Or.inl (Or.inl (hbank ▸ hholds))
        · exact Or.inl (Or.inr (hbank ▸ hholds))
  · rintro ((hp | hp) | ⟨hlost, hkind⟩)
    · exact (holders_home hrun hp).1
    · exact (holders_home hrun hp).1
    · refine ⟨?_, hkind⟩
      have hlost' : (t.calling p).Lost := hlost
      cases hcalling : t.calling p with
      | lost => trivial
      | idle | passed | entered | counted | capturing | recorded =>
          rw [hcalling] at hlost'
          exact hlost'.elim

/-- The account of one kind. -/
theorem calls_quiet (hrun : Run (Step call) (State.start P D) h t) (hquiet : t.Quiet)
    (k : Kind) : (t.calls k : ℕ∞) = (t.reserved (bank k 0) + t.reserved (bank k coopMode) : Nat)
      + {p | p ∈ losers t ∧ (call p).kind = k}.encard := by
  have htallied := tallied_run hrun
  have hbanks : bank k 0 ≠ bank k coopMode := fun h => by
    have := (bank_kind h).2
    revert this
    decide
  have hlosers : Disjoint (holders t (bank k 0) ∪ holders t (bank k coopMode))
      {p | p ∈ losers t ∧ (call p).kind = k} := by
    refine Set.disjoint_left.mpr fun p hp hlost => ?_
    rcases hp with hp | hp
    · exact loser_holds_nothing hrun hlost.1 _ hp
    · exact loser_holds_nothing hrun hlost.1 _ hp
  rw [← htallied.calls k, counted_quiet hrun hquiet k, Set.encard_union_eq hlosers,
    Set.encard_union_eq (holders_disjoint hrun hbanks), htallied.reserved, htallied.reserved]
  rfl

/-- No bank is claimed past its limit: whoever holds the cell after it would
    have gone for it. -/
theorem reserved_le (hrun : Run (Step call) (State.start P D) h t) (b : Bank) :
    t.reserved b ≤ 64 := by
  obtain ⟨hb, hbank⟩ := bank_run hrun b
  obtain ⟨board, -, hR⟩ := refines_run hbank
  by_contra hover
  have hlt : 64 < board.next := hR.next ▸ Nat.lt_of_not_le hover
  have hmatch := hR.cells firstOver
  cases hcell : board.cell firstOver with
  | free => exact absurd ((hR.free firstOver).mp hcell) (Nat.not_le.mpr hlt)
  | held p | full p v | taken p v c =>
      rw [hcell] at hmatch
      have howner := hmatch.owner rfl
      have htarget : ((t.banks b).producing p).target? = some firstOver := by
        cases hpc : (t.banks b).producing p with
        | fill | publish | captured =>
            rw [hpc] at howner
            exact howner
        | load | exchange | dropped =>
            rw [hpc] at howner
            cases howner
      exact absurd (target_lt_limit hbank htarget) (Nat.lt_irrefl 64)

/-- **Every recorded callback is accounted for**, whatever the schedule.  With
    nothing dropped every counted callback has recorded its event, and that is
    retrievable, unless a drain took it and failed to write it. -/
theorem callbacks_accounted {P D : Type} [DecidableEq P] [DecidableEq D] (call : P → Call)
    (h : List (Effect P D)) (t : State P D) (hrun : Run (Step call) (State.start P D) h t)
    (hquiet : t.Quiet) : Accounted call h t := by
  have htallied := tallied_run hrun
  have hkinds := calls_quiet hrun hquiet
  have htotal : ∑ k, t.calls k = ∑ b, t.reserved b + t.dropped := by
    have hsum : ((∑ k, t.calls k : Nat) : ℕ∞) = (∑ b, t.reserved b + t.dropped : Nat) := by
      calc ((∑ k, t.calls k : Nat) : ℕ∞) = ∑ k, (t.calls k : ℕ∞) := Nat.cast_sum ..
        _ = ∑ k, (((t.reserved (bank k 0) + t.reserved (bank k coopMode) : Nat) : ℕ∞)
              + {p | p ∈ losers t ∧ (call p).kind = k}.encard) :=
            Finset.sum_congr rfl fun k _ => hkinds k
        _ = (∑ k, (t.reserved (bank k 0) + t.reserved (bank k coopMode)) : Nat)
              + (losers t).encard := by
            rw [Finset.sum_add_distrib, ← encard_classes (losers t) fun p => (call p).kind,
              Nat.cast_sum]
        _ = (∑ b, t.reserved b + t.dropped : Nat) := by
            rw [← sum_banks, htallied.dropped, Nat.cast_add]
    exact_mod_cast hsum
  have hlosers : t.dropped = 0 → losers t = ∅ := by
    intro hdropped
    have hcount := htallied.dropped
    rw [hdropped] at hcount
    exact Set.encard_eq_zero.mp hcount
  refine ⟨htallied, htotal, fun k => ?_, fun b => ?_,
    fun hdropped => ⟨fun k => ?_, fun p hp => ?_⟩, fun p mode => retrievable hrun⟩
  · have hle : ((t.reserved (bank k 0) + t.reserved (bank k coopMode) : Nat) : ℕ∞)
        ≤ t.calls k := by
      rw [hkinds k]
      exact le_self_add
    exact_mod_cast hle
  · exact reserved_le hrun b
  · -- with nothing dropped, no callback lost its event
    have hnone : {p | p ∈ losers t ∧ (call p).kind = k} = ∅ := by
      refine Set.eq_empty_iff_forall_notMem.mpr fun p hp => ?_
      rw [hlosers hdropped] at hp
      exact hp.1
    have hcalls := hkinds k
    rw [hnone, Set.encard_empty, add_zero] at hcalls
    exact_mod_cast hcalls.symm
  · have hcounted := (htallied.called p).mp hp
    have hrest := hquiet p
    cases hcalling : t.calling p with
    | recorded mode => exact ⟨mode, rfl⟩
    | idle | passed =>
        rw [hcalling] at hcounted
        exact hcounted.elim
    | entered | counted | capturing =>
        rw [hcalling] at hrest
        exact hrest.elim
    | lost mode =>
        have hlost : p ∈ losers t := by
          show (t.calling p).Lost
          rw [hcalling]
          trivial
        rw [hlosers hdropped] at hlost
        exact hlost.elim

/-- Local callbacks, with every register zero. -/
def localCall : Bool → Call := fun _ => ⟨0, ⟨fun _ => 0⟩⟩

/-- What one step of a callback is supplied with. -/
def plainSupply : Supplied where
  experiment := false
  action := 0xff
  mode := 0
  event := Application.Event.decode (Vector.replicate _ 0)
  tick := 19200
  spurious := false

/-- The next step of a callback. -/
def step (p : Bool) : Move (Bool) Unit := .call p plainSupply

/-- Recording starts; the second callback begins while the first is filling its
    slot, and both run to their end. -/
def twoCallbacks : List (Move Bool Unit) :=
  .activate :: [step false, step true, step false, step false, step false, step false, step true,
    step true, step false, step true, step true, step false, step true, step false, step true,
    step true]

/-- One event is in the log, the other waits for the next drain. -/
theorem callbacks_accounted_two_calls : ∃ h t,
    Run (Step localCall) (State.start (Bool) Unit) h t
      ∧ (∀ p, t.calling p = .recorded 0) ∧ t.calls 0 = 2 ∧ t.dropped = 0
      ∧ (linesOf h).length = 1 ∧ Accounted localCall h t
      ∧ ∀ p, ∃ e, .sampled p e ∈ h ∧ Retrievable h t p e := by
  have hexec : (exec (advance localCall) (State.start (Bool) Unit)
      (twoCallbacks ++ List.replicate 2 (.drain () true))).any (fun x =>
        decide ((∀ p, x.2.calling p = .recorded 0) ∧ x.2.calls 0 = 2 ∧ x.2.dropped = 0
          ∧ (linesOf x.1).length = 1 ∧ x.2.draining () ≠ .returned none)) = true := by
    decide +kernel
  obtain ⟨h, t, hrun, hrecorded, hcalls, hdropped, hlines, hdraining⟩ := run_of_exec_any
    (p := fun h (t : State (Bool) Unit) => (∀ p, t.calling p = .recorded 0) ∧ t.calls 0 = 2
      ∧ t.dropped = 0 ∧ (linesOf h).length = 1 ∧ t.draining () ≠ .returned none) hexec
  have haccounted := callbacks_accounted localCall h t hrun fun p => by
    rw [hrecorded]
    trivial
  refine ⟨h, t, hrun, hrecorded, hcalls, hdropped, hlines, haccounted, fun p => ?_⟩
  obtain ⟨e, hsampled, hretrievable | ⟨b, i, d, -, -, hfailed, -⟩⟩ :=
    haccounted.recorded p 0 (hrecorded p)
  · exact ⟨e, hsampled, hretrievable⟩
  · exact absurd hfailed hdraining

/-- A callback alone, and a drain that fails to write its event. -/
def lostMoves : List (Move (Bool) Unit) :=
  .activate :: List.replicate 8 (step false) ++ List.replicate 2 (.drain () false)

/-- A failed write loses an event: nothing was dropped, no callback is in
    progress, and the event of the first is not retrievable. -/
theorem failed_write_loses_event : ∃ h t,
    Run (Step localCall) (State.start (Bool) Unit) h t ∧ t.Quiet ∧ t.dropped = 0
      ∧ .called false ∈ h ∧ t.calling false = .recorded 0 ∧ ∀ e, ¬ Retrievable h t false e := by
  have hexec : (exec (advance localCall) (State.start (Bool) Unit) lostMoves).any (fun x =>
      decide ((∀ p, (x.2.calling p).AtRest) ∧ x.2.dropped = 0 ∧ .called false ∈ x.1
        ∧ x.2.calling false = .recorded 0 ∧ linesOf x.1 = [] ∧ x.2.draining () = .returned none
        ∧ (ApplicationProbe.drain (fun _ => true) x.2.recording).1 = [])) = true := by
    decide +kernel
  obtain ⟨⟨h, t⟩, hlost, hx⟩ := (Option.any_eq_true ..).mp hexec
  obtain ⟨hquiet, hdropped, hcalled, hrecorded, hlines, hfailed, hnext⟩ := of_decide_eq_true hx
  refine ⟨h, t, run_of_exec hlost, hquiet, hdropped, hcalled, hrecorded, ?_⟩
  rintro e ⟨b, i, -, ⟨d, hd⟩ | ⟨d, t', hd⟩ | hd⟩
  · have hmem := mem_linesOf.mpr ⟨d, hd⟩
    rw [hlines] at hmem
    cases hmem
  · rw [drainStep, hfailed] at hd
    cases hd
  · rw [hnext] at hd
    cases hd

end Quiet

end TeamAttack.ProbeSchedule
