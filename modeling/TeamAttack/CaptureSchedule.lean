import TeamAttack.Capture
import TeamAttack.Library.OnceBoard

/-! # The store under every schedule

    `try_capture` and `take` split at their atomic steps, interleaved in any
    order by any number of calls.  A store in use refines a board of
    single-use cells (`refines_run`), whose laws then hold of every schedule:
    each index is claimed once, its payload is published once, unchanged, and
    taken at most once. -/

namespace TeamAttack.CaptureSchedule

open Runs OnceBoard

/-- The cells of a store. -/
abbrev Index := Fin captureCapacity

/-- Where a call of `try_capture` stands: about to load `next`, to exchange
    it, to sample and write its slot, or to publish it; or returned, true
    (`captured`) or false (`dropped`).  What was sampled is kept for the
    record. -/
inductive Producing where
  | load
  | exchange (i : Index)
  | fill (i : Index)
  | publish (i : Index) (sampled : Payload)
  | captured (i : Index) (sampled : Payload)
  | dropped

/-- The result of a call of `try_capture`, once it has returned. -/
def Producing.returned? : Producing → Option Bool
  | .captured .. => some true
  | .dropped => some false
  | .load => none
  | .exchange _ => none
  | .fill _ => none
  | .publish .. => none

/-- Where a call of `take` stands. -/
inductive Taking where
  | exchange
  | read (i : Index)
  | returned (capture : Option Capture)
  deriving DecidableEq

/-- A store, and the calls working on it: `P` names the calls of
    `try_capture` and `C` those of `take`. -/
structure Schedule (P C : Type) where
  store : CaptureStore
  producing : P → Producing
  taking : C → Taking

/-- What the schedule does to the store.  A `take` event is the successful
    exchange of a consumer, with the bytes then in the slot. -/
inductive Event (P C : Type) where
  | claim (p : P) (i : Index)
  | sample (p : P) (bytes : Payload)
  | publish (p : P) (i : Index) (bytes : Payload)
  | take (c : C) (i : Index) (bytes : Payload)
  deriving DecidableEq

/-- The bytes in a slot, zero while it is uninitialised. -/
def slotBytes (slot : Slot) : Payload :=
  (slot.value.map Capture.bytes).getD (Vector.replicate compactBufferLen 0)

section Steps

variable {P C : Type}

/-- The schedule with one call of `try_capture` moved on. -/
def Schedule.atProducer [DecidableEq P] (t : Schedule P C) (p : P) (pc : Producing) :
    Schedule P C :=
  { t with producing := Function.update t.producing p pc }

/-- The schedule with one call of `take` moved on. -/
def Schedule.atConsumer [DecidableEq C] (t : Schedule P C) (c : C) (pc : Taking) : Schedule P C :=
  { t with taking := Function.update t.taking c pc }

@[simp] theorem Schedule.atProducer_self [DecidableEq P] (t : Schedule P C) (p : P)
    (pc : Producing) : (t.atProducer p pc).producing p = pc := Function.update_self ..

theorem Schedule.atProducer_of_ne [DecidableEq P] (t : Schedule P C) {p q : P}
    (pc : Producing) (h : q ≠ p) : (t.atProducer p pc).producing q = t.producing q :=
  Function.update_of_ne h ..

@[simp] theorem Schedule.atConsumer_self [DecidableEq C] (t : Schedule P C) (c : C)
    (pc : Taking) : (t.atConsumer c pc).taking c = pc := Function.update_self ..

theorem Schedule.atConsumer_of_ne [DecidableEq C] (t : Schedule P C) {c d : C}
    (pc : Taking) (h : d ≠ c) : (t.atConsumer c pc).taking d = t.taking d :=
  Function.update_of_ne h ..

/-- The next step of `try_capture`. -/
def produce [DecidableEq P] (limit : P → Nat) (t : Schedule P C) (p : P) (spurious : Bool)
    (sample : Payload) : Option (List (Event P C) × Schedule P C) :=
  match t.producing p with
  | .load =>
      if h : t.store.next < min (limit p) captureCapacity then
        some ([], t.atProducer p (.exchange ⟨t.store.next, by omega⟩))
      else some ([], t.atProducer p .dropped)
  | .exchange i =>
      if t.store.next = i ∧ spurious = false then
        some ([.claim p i],
          { t.atProducer p (.fill i) with store := { t.store with next := i + 1 } })
      else some ([], t.atProducer p .dropped)
  | .fill i =>
      some ([.sample p sample],
        { t.atProducer p (.publish i sample) with
          store := t.store.put i { t.store.slots i with value := some ⟨i, sample⟩ } })
  | .publish i bytes =>
      some ([.publish p i bytes],
        { t.atProducer p (.captured i bytes) with
          store := t.store.put i { t.store.slots i with state := .ready } })
  | .captured .. => none
  | .dropped => none

/-- The next step of `take`. -/
def consume [DecidableEq C] (index : C → Nat) (t : Schedule P C) (c : C) :
    Option (List (Event P C) × Schedule P C) :=
  match t.taking c with
  | .exchange =>
      if h : index c < captureCapacity then
        let i : Index := ⟨index c, h⟩
        if (t.store.slots i).state = .ready then
          some ([.take c i (slotBytes (t.store.slots i))],
            { t.atConsumer c (.read i) with
              store := t.store.put i { t.store.slots i with state := .consumed } })
        else some ([], t.atConsumer c (.returned none))
      else some ([], t.atConsumer c (.returned none))
  | .read i => some ([], t.atConsumer c (.returned (t.store.slots i).value))
  | .returned _ => none

/-- Who moves, and what the runtime and the game supply to the move. -/
inductive Move (P C : Type) where
  | produce (p : P) (spurious : Bool) (sample : Payload)
  | consume (c : C)

/-- One move of a schedule, unless its call has returned. -/
def advance [DecidableEq P] [DecidableEq C] (limit : P → Nat) (index : C → Nat)
    (t : Schedule P C) :
    Move P C → Option (List (Event P C) × Schedule P C)
  | .produce p spurious sample => produce limit t p spurious sample
  | .consume c => consume index t c

/-- One step of a schedule. -/
def ScheduleStep [DecidableEq P] [DecidableEq C] (limit : P → Nat) (index : C → Nat)
    : Schedule P C → List (Event P C) → Schedule P C → Prop :=
  Moves (advance limit index)

end Steps

/-- A new store on which no call has begun. -/
def Schedule.start (P C : Type) : Schedule P C where
  store := CaptureStore.new
  producing := fun _ => .load
  taking := fun _ => .exchange

/-- The step of `try_capture` a call takes: where it stood, what it did to
    the store, and where it stands. -/
inductive Produced {P C : Type} [DecidableEq P] (limit : P → Nat) (t : Schedule P C) (p : P) :
    List (Event P C) → Schedule P C → Prop where
  | load (i : Index) : t.producing p = .load → t.store.next = i → (i : Nat) < limit p →
      Produced limit t p [] (t.atProducer p (.exchange i))
  | drop : t.producing p = .load ∨ (∃ i, t.producing p = .exchange i) →
      Produced limit t p [] (t.atProducer p .dropped)
  | claim (i : Index) : t.producing p = .exchange i → t.store.next = i →
      Produced limit t p [.claim p i]
        { t.atProducer p (.fill i) with store := { t.store with next := i + 1 } }
  | fill (i : Index) (sample : Payload) : t.producing p = .fill i →
      Produced limit t p [.sample p sample]
        { t.atProducer p (.publish i sample) with
          store := t.store.put i { t.store.slots i with value := some ⟨i, sample⟩ } }
  | publish (i : Index) (bytes : Payload) : t.producing p = .publish i bytes →
      Produced limit t p [.publish p i bytes]
        { t.atProducer p (.captured i bytes) with
          store := t.store.put i { t.store.slots i with state := .ready } }

/-- The step of `take` a call takes. -/
inductive Consumed {P C : Type} [DecidableEq C] (index : C → Nat) (t : Schedule P C) (c : C) :
    List (Event P C) → Schedule P C → Prop where
  | miss : t.taking c = .exchange →
      Consumed index t c [] (t.atConsumer c (.returned none))
  | take (i : Index) : t.taking c = .exchange → index c = i →
      (t.store.slots i).state = .ready →
      Consumed index t c [.take c i (slotBytes (t.store.slots i))]
        { t.atConsumer c (.read i) with
          store := t.store.put i { t.store.slots i with state := .consumed } }
  | read (i : Index) : t.taking c = .read i →
      Consumed index t c [] (t.atConsumer c (.returned (t.store.slots i).value))

section Inversion

variable {P C : Type} {limit : P → Nat} {index : C → Nat} {t t' : Schedule P C}
  {es : List (Event P C)}

theorem produced_of_produce [DecidableEq P] {p : P} {spurious : Bool} {sample : Payload}
    (h : produce limit t p spurious sample = some (es, t')) : Produced limit t p es t' := by
  unfold produce at h
  cases hpc : t.producing p with
  | load =>
      simp only [hpc] at h
      -- a full store drops
      split_ifs at h with hlt
      · obtain ⟨rfl, rfl⟩ := Prod.mk.inj (Option.some.inj h)
        have hlimit : t.store.next < limit p := by omega
        exact .load ⟨t.store.next, by omega⟩ hpc rfl hlimit
      · obtain ⟨rfl, rfl⟩ := Prod.mk.inj (Option.some.inj h)
        exact .drop (Or.inl hpc)
  | exchange i =>
      simp only [hpc] at h
      -- the weak exchange may fail on an equal value
      split_ifs at h with hcas
      · obtain ⟨rfl, rfl⟩ := Prod.mk.inj (Option.some.inj h)
        exact .claim i hpc hcas.1
      · obtain ⟨rfl, rfl⟩ := Prod.mk.inj (Option.some.inj h)
        exact .drop (Or.inr ⟨i, hpc⟩)
  | fill i =>
      simp only [hpc] at h
      obtain ⟨rfl, rfl⟩ := Prod.mk.inj (Option.some.inj h)
      exact .fill i sample hpc
  | publish i bytes =>
      simp only [hpc] at h
      obtain ⟨rfl, rfl⟩ := Prod.mk.inj (Option.some.inj h)
      exact .publish i bytes hpc
  | captured i bytes =>
      simp only [hpc] at h
      exact nomatch h
  | dropped =>
      simp only [hpc] at h
      exact nomatch h

theorem consumed_of_consume [DecidableEq C] {c : C}
    (h : consume index t c = some (es, t')) : Consumed index t c es t' := by
  unfold consume at h
  cases hpc : t.taking c with
  | exchange =>
      simp only [hpc] at h
      split_ifs at h with hlt hready
      · obtain ⟨rfl, rfl⟩ := Prod.mk.inj (Option.some.inj h)
        exact .take ⟨index c, hlt⟩ hpc rfl hready
      · obtain ⟨rfl, rfl⟩ := Prod.mk.inj (Option.some.inj h)
        exact .miss hpc
      · obtain ⟨rfl, rfl⟩ := Prod.mk.inj (Option.some.inj h)
        exact .miss hpc
  | read i =>
      simp only [hpc] at h
      obtain ⟨rfl, rfl⟩ := Prod.mk.inj (Option.some.inj h)
      exact .read i hpc
  | returned capture =>
      simp only [hpc] at h
      exact nomatch h

/-- **Everything one step of a schedule can do.** -/
theorem step_cases [DecidableEq P] [DecidableEq C] (h : ScheduleStep limit index t es t') :
    (∃ p, Produced limit t p es t') ∨ ∃ c, Consumed index t c es t' := by
  obtain ⟨mv, hmv⟩ := h
  cases mv with
  | produce p spurious sample => exact Or.inl ⟨p, produced_of_produce hmv⟩
  | consume c => exact Or.inr ⟨c, consumed_of_consume hmv⟩

end Inversion

/-! ## A store in use refines a board -/

/-- The cell a call of `try_capture` owns. -/
def Producing.cell? : Producing → Option Index
  | .load => none
  | .exchange _ => none
  | .fill i => some i
  | .publish i _ => some i
  | .captured i _ => some i
  | .dropped => none

section Refinement

variable {P C : Type} {limit : P → Nat} {index : C → Nat} {t : Schedule P C}
  {b : Board captureCapacity P C Payload}

/-- What a cell of the board says about its slot and its calls. -/
def CellMatches (index : C → Nat) (t : Schedule P C) (i : Index) : Cell P C Payload → Prop
  | .free => t.store.slots i = Slot.new
  | .held p => (t.store.slots i).state = .unpublished
      ∧ (t.producing p = .fill i
        ∨ ∃ v, t.producing p = .publish i v ∧ (t.store.slots i).value = some ⟨i, v⟩)
  | .full p v => t.store.slots i = ⟨.ready, some ⟨i, v⟩⟩ ∧ t.producing p = .captured i v
  | .taken p v c => t.store.slots i = ⟨.consumed, some ⟨i, v⟩⟩ ∧ t.producing p = .captured i v
      ∧ index c = i ∧ (t.taking c = .read i ∨ t.taking c = .returned (some ⟨i, v⟩))

/-- What a call of `try_capture` says about the board. -/
def ProducerMatches (b : Board captureCapacity P C Payload) (p : P) : Producing → Prop
  | .load => True
  | .exchange _ => True
  | .fill i => b.cell i = .held p
  | .publish i _ => b.cell i = .held p
  | .captured i v => b.cell i = .full p v ∨ ∃ c, b.cell i = .taken p v c
  | .dropped => True

/-- What a call of `take` says about the board. -/
def ConsumerMatches (b : Board captureCapacity P C Payload) (c : C) : Taking → Prop
  | .exchange => True
  | .read i => ∃ p v, b.cell i = .taken p v c
  | .returned none => True
  | .returned (some capture) =>
      ∃ (i : Index) (p : P) (v : Payload), capture = ⟨i, v⟩ ∧ b.cell i = .taken p v c

/-- A schedule refines a board. -/
structure Refines (index : C → Nat) (t : Schedule P C)
    (b : Board captureCapacity P C Payload) : Prop where
  next : t.store.next = b.next
  free : ∀ i : Index, b.cell i = .free ↔ b.next ≤ i
  cells : ∀ i, CellMatches index t i (b.cell i)
  producers : ∀ p, ProducerMatches b p (t.producing p)
  consumers : ∀ c, ConsumerMatches b c (t.taking c)

theorem refines_start : Refines index (Schedule.start P C) (.empty _ P C Payload) where
  next := rfl
  free := fun i => ⟨fun _ => Nat.zero_le i, fun _ => rfl⟩
  cells := fun _ => rfl
  producers := fun _ => trivial
  consumers := fun _ => trivial

/-- A call that owns a cell is at that cell. -/
theorem CellMatches.owner {i : Index} {x : Cell P C Payload} {p : P}
    (h : CellMatches index t i x) (hp : x.owner? = some p) :
    (t.producing p).cell? = some i := by
  cases x with
  | free => exact nomatch hp
  | held q =>
      obtain rfl := Option.some.inj hp
      rcases h.2 with hpc | ⟨v, hpc, -⟩
      · rw [hpc]; rfl
      · rw [hpc]; rfl
  | full q v =>
      obtain rfl := Option.some.inj hp
      rw [h.2]; rfl
  | taken q v c =>
      obtain rfl := Option.some.inj hp
      rw [h.2.1]; rfl

/-- A cell's match depends on its slot, its owner and its taker. -/
theorem CellMatches.congr {t' : Schedule P C} {i : Index} {x : Cell P C Payload}
    (h : CellMatches index t i x) (hslot : t'.store.slots i = t.store.slots i)
    (howner : ∀ p, x.owner? = some p → t'.producing p = t.producing p)
    (htaker : ∀ c, x.taker? = some c → t'.taking c = t.taking c) :
    CellMatches index t' i x := by
  cases x with
  | free => exact hslot.trans h
  | held p =>
      show (t'.store.slots i).state = _ ∧ (t'.producing p = _ ∨ ∃ v, t'.producing p = _
        ∧ (t'.store.slots i).value = _)
      rw [hslot, howner p rfl]
      exact h
  | full p v =>
      show t'.store.slots i = _ ∧ t'.producing p = _
      rw [hslot, howner p rfl]
      exact h
  | taken p v c =>
      show t'.store.slots i = _ ∧ t'.producing p = _ ∧ index c = i
        ∧ (t'.taking c = _ ∨ t'.taking c = _)
      rw [hslot, howner p rfl, htaker c rfl]
      exact h

theorem ProducerMatches.owner {i : Index} {p : P} {pc : Producing}
    (h : ProducerMatches b p pc) (hi : pc.cell? = some i) : (b.cell i).owner? = some p := by
  cases pc with
  | load => exact nomatch hi
  | exchange j => exact nomatch hi
  | fill j =>
      obtain rfl := Option.some.inj hi
      rw [show b.cell j = .held p from h]; rfl
  | publish j v =>
      obtain rfl := Option.some.inj hi
      rw [show b.cell j = .held p from h]; rfl
  | captured j v =>
      obtain rfl := Option.some.inj hi
      rcases h with h | ⟨c, h⟩
      · rw [h]; rfl
      · rw [h]; rfl
  | dropped => exact nomatch hi

/-- A call elsewhere on the board does not notice a changed cell. -/
theorem ProducerMatches.put {i : Index} {p : P} {pc : Producing} {x : Cell P C Payload}
    (h : ProducerMatches b p pc) (hi : pc.cell? ≠ some i) : ProducerMatches (b.put i x) p pc := by
  cases pc with
  | load => trivial
  | exchange j => trivial
  | fill j =>
      have hj : j ≠ i := fun hj => hi (congrArg some hj)
      exact (Board.put_cell_of_ne b x hj).trans h
  | publish j v =>
      have hj : j ≠ i := fun hj => hi (congrArg some hj)
      exact (Board.put_cell_of_ne b x hj).trans h
  | captured j v =>
      have hj : j ≠ i := fun hj => hi (congrArg some hj)
      show (b.put i x).cell j = _ ∨ ∃ c, (b.put i x).cell j = _
      rw [Board.put_cell_of_ne b x hj]
      exact h
  | dropped => trivial

theorem ConsumerMatches.put {i : Index} {c : C} {k : Taking} {x : Cell P C Payload}
    (h : ConsumerMatches b c k) (hi : (b.cell i).taker? = none) :
    ConsumerMatches (b.put i x) c k := by
  have hne : ∀ (j : Index) (p : P) (v : Payload), b.cell j = .taken p v c → j ≠ i := by
    rintro j p v hj rfl
    rw [hj] at hi
    exact nomatch hi
  cases k with
  | exchange => trivial
  | read j =>
      obtain ⟨p, v, hj⟩ := h
      exact ⟨p, v, (Board.put_cell_of_ne b x (hne j p v hj)).trans hj⟩
  | returned capture =>
      cases capture with
      | none => trivial
      | some capture =>
          obtain ⟨j, p, v, hcap, hj⟩ := h
          exact ⟨j, p, v, hcap, (Board.put_cell_of_ne b x (hne j p v hj)).trans hj⟩

/-- A taken cell's consumer has got past its exchange. -/
theorem CellMatches.taker {i : Index} {x : Cell P C Payload} {c : C}
    (h : CellMatches index t i x) (hc : x.taker? = some c) :
    t.taking c ≠ .exchange ∧ ∀ j, t.taking c = .read j → j = i := by
  cases x with
  | free => exact nomatch hc
  | held p => exact nomatch hc
  | full p v => exact nomatch hc
  | taken p v d =>
      obtain rfl := Option.some.inj hc
      obtain ⟨-, -, -, hread | hret⟩ := h
      · exact ⟨by rw [hread]; exact nofun, fun j hj => by rw [hread] at hj; cases hj; rfl⟩
      · exact ⟨by rw [hret]; exact nofun, fun j hj => by rw [hret] at hj; exact nomatch hj⟩

end Refinement

section Simulation

variable {P C : Type} {limit : P → Nat} {index : C → Nat}
  {t t' : Schedule P C} {b b' : Board captureCapacity P C Payload} {es : List (Event P C)}

/-- A producer's step on the cell it owns, or is about to own. -/
theorem Refines.owning_step [DecidableEq P] (h : Refines index t b) {p : P} {i : Index}
    {x : Cell P C Payload} {k : Producing}
    (hown : ∀ q, (b.cell i).owner? = some q → q = p)
    (hpc : ∀ j, (t.producing p).cell? = some j → j = i)
    (htaker : (b.cell i).taker? = none)
    (hslots : ∀ j, j ≠ i → t'.store.slots j = t.store.slots j)
    (hproducing : t'.producing = Function.update t.producing p k)
    (htaking : t'.taking = t.taking) (hb : b'.cell = (b.put i x).cell)
    (hnext : t'.store.next = b'.next) (hfree : ∀ j : Index, b'.cell j = .free ↔ b'.next ≤ j)
    (hcell : CellMatches index t' i x) (hp : ProducerMatches (b.put i x) p k) :
    Refines index t' b' := by
  obtain ⟨next', cell'⟩ := b'
  obtain rfl : cell' = (b.put i x).cell := hb
  refine ⟨hnext, hfree, fun j => ?_, fun q => ?_, fun c => ?_⟩
  · show CellMatches index t' j ((b.put i x).cell j)
    by_cases hj : j = i
    · subst hj
      rw [Board.put_cell_self]
      exact hcell
    · rw [Board.put_cell_of_ne b x hj]
      refine (h.cells j).congr (hslots j hj) (fun q hq => ?_) (fun c _ => by rw [htaking])
      -- only `p` knows the cell
      have hne : q ≠ p := by
        rintro rfl
        exact hj (hpc j ((h.cells j).owner hq))
      rw [hproducing, Function.update_of_ne hne]
  · have hgoal : ProducerMatches (b.put i x) q (t'.producing q) := by
      rw [hproducing]
      by_cases hq : q = p
      · subst hq
        rw [Function.update_self]
        exact hp
      · rw [Function.update_of_ne hq]
        exact (h.producers q).put fun hcell => hq (hown q ((h.producers q).owner hcell))
    exact hgoal
  · have hgoal : ConsumerMatches (b.put i x) c (t'.taking c) := by
      rw [htaking]
      exact (h.consumers c).put htaker
    exact hgoal

/-- A producer's step that leaves the store alone. -/
theorem Refines.idle_step [DecidableEq P] (h : Refines index t b) {p : P} {pc : Producing}
    (hpc : (t.producing p).cell? = none) (hp : ProducerMatches b p pc) :
    Refines index (t.atProducer p pc) b where
  next := h.next
  free := h.free
  cells := fun j => (h.cells j).congr rfl (fun q hq => by
    have hne : q ≠ p := by
      rintro rfl
      have := (h.cells j).owner hq
      rw [hpc] at this
      exact nomatch this
    exact t.atProducer_of_ne pc hne) (fun _ _ => rfl)
  producers := fun q => by
    by_cases hq : q = p
    · subst hq
      rw [Schedule.atProducer_self]
      exact hp
    · rw [t.atProducer_of_ne pc hq]
      exact h.producers q
  consumers := h.consumers

/-- A consumer's step that leaves the store alone. -/
theorem Refines.idle_take [DecidableEq C] (h : Refines index t b) {c : C} {k : Taking}
    (hcells : ∀ j p v, b.cell j = .taken p v c →
      CellMatches index (t.atConsumer c k) j (.taken p v c))
    (hk : ConsumerMatches b c k) : Refines index (t.atConsumer c k) b where
  next := h.next
  free := h.free
  cells := fun j => by
    by_cases hc : (b.cell j).taker? = some c
    -- the cell that `c` took is the only one that looks at `c`
    · cases hcell : b.cell j with
      | free => rw [hcell] at hc; exact nomatch hc
      | held p => rw [hcell] at hc; exact nomatch hc
      | full p v => rw [hcell] at hc; exact nomatch hc
      | taken p v d =>
          rw [hcell] at hc
          obtain rfl := Option.some.inj hc
          exact hcells j p v hcell
    · refine (h.cells j).congr rfl (fun _ _ => rfl) (fun d hd => ?_)
      exact t.atConsumer_of_ne k fun heq => hc (heq ▸ hd)
  producers := h.producers
  consumers := fun d => by
    by_cases hd : d = c
    · subst hd
      rw [Schedule.atConsumer_self]
      exact hk
    · rw [t.atConsumer_of_ne k hd]
      exact h.consumers d

/-- The board's move an event stands for; sampling is none. -/
def Event.act? {P C : Type} : Event P C → Option (Act captureCapacity P C Payload)
  | .claim p i => some (.claim p i)
  | .sample .. => none
  | .publish p i v => some (.publish p i v)
  | .take c i v => some (.take c i v)

/-- Every step of `try_capture` is matched on the board. -/
theorem Refines.produced [DecidableEq P] (h : Refines index t b) {p : P}
    (hs : Produced limit t p es t') :
    ∃ b', Run Step b (es.filterMap Event.act?) b' ∧ Refines index t' b' := by
  cases hs with
  | load i hpc hnext hlt =>
      exact ⟨b, .refl b, h.idle_step (by rw [hpc]; rfl) trivial⟩
  | drop hpc =>
      refine ⟨b, .refl b, h.idle_step ?_ trivial⟩
      rcases hpc with hpc | ⟨i, hpc⟩ <;> rw [hpc] <;> rfl
  | claim i hpc hnext =>
      have hbnext : b.next = i := h.next ▸ hnext
      have hfree : b.cell i = .free := (h.free i).mpr (Nat.le_of_eq hbnext)
      have hstep := Step.claim b p i hbnext hfree
      -- a claim: the board moves too
      refine ⟨_, .single hstep, h.owning_step (x := .held p) (k := .fill i) (p := p) ?_ ?_ ?_
        (fun _ _ => rfl) rfl rfl rfl rfl (hstep.free h.free) ?_ (Board.put_cell_self ..)⟩
      · rw [hfree]
        exact nofun
      · rw [hpc]
        exact nofun
      · rw [hfree]
        rfl
      · have hslot : t.store.slots i = Slot.new := by
          have := h.cells i
          rwa [hfree] at this
        exact ⟨congrArg Slot.state hslot, Or.inl (Function.update_self ..)⟩
  | fill i sample hpc =>
      have hcell : b.cell i = .held p := by
        have := h.producers p
        rwa [hpc] at this
      -- filling the slot is no move of the board
      have hsame : (b.put i (.held p)).cell = b.cell := by
        rw [Board.put, ← hcell]
        exact Function.update_eq_self i b.cell
      refine ⟨b, .refl b, h.owning_step (x := .held p) (k := .publish i sample) (p := p) ?_ ?_
        ?_ ?_ rfl rfl hsame.symm h.next h.free ?_ (Board.put_cell_self ..)⟩
      · rw [hcell]
        exact fun q hq => (Option.some.inj hq).symm
      · rw [hpc]
        exact fun j hj => (Option.some.inj hj).symm
      · rw [hcell]
        rfl
      · exact fun j hj => t.store.put_slots_of_ne _ hj
      · have hmatch := h.cells i
        rw [hcell] at hmatch
        refine ⟨?_, Or.inr ⟨sample, Function.update_self .., ?_⟩⟩
        · show ((t.store.put i _).slots i).state = _
          rw [CaptureStore.put_slots_self]
          exact hmatch.1
        · show ((t.store.put i _).slots i).value = _
          rw [CaptureStore.put_slots_self]
  | publish i bytes hpc =>
      have hcell : b.cell i = .held p := by
        have := h.producers p
        rwa [hpc] at this
      have hstep := Step.publish b p i bytes hcell
      refine ⟨_, .single hstep, h.owning_step (x := .full p bytes) (k := .captured i bytes)
        (p := p) ?_ ?_ ?_ ?_ rfl rfl rfl h.next (hstep.free h.free) ?_
        (Or.inl (Board.put_cell_self ..))⟩
      · rw [hcell]
        exact fun q hq => (Option.some.inj hq).symm
      · rw [hpc]
        exact fun j hj => (Option.some.inj hj).symm
      · rw [hcell]
        rfl
      · exact fun j hj => t.store.put_slots_of_ne _ hj
      · have hmatch := h.cells i
        rw [hcell] at hmatch
        -- the slot holds what its call has filled in
        obtain ⟨-, hfill | ⟨v, hv, hvalue⟩⟩ := hmatch
        · rw [hpc] at hfill
          exact nomatch hfill
        · rw [hpc] at hv
          cases hv
          refine ⟨?_, Function.update_self ..⟩
          show (t.store.put i _).slots i = _
          rw [CaptureStore.put_slots_self]
          exact congrArg (Slot.mk .ready) hvalue

/-- Every step of `take` is matched on the board. -/
theorem Refines.consumed [DecidableEq C] (h : Refines index t b) {c : C}
    (hs : Consumed index t c es t') :
    ∃ b', Run Step b (es.filterMap Event.act?) b' ∧ Refines index t' b' := by
  cases hs with
  | miss hpc =>
      refine ⟨b, .refl b, h.idle_take (fun j p v hcell => ?_) trivial⟩
      have hmatch := h.cells j
      rw [hcell] at hmatch
      exact absurd hpc (hmatch.taker rfl).1
  | take i hpc hindex hready =>
      have hmatch := h.cells i
      cases hcell : b.cell i with
      | free =>
          rw [hcell] at hmatch
          rw [show t.store.slots i = Slot.new from hmatch] at hready
          exact nomatch hready
      | held p =>
          rw [hcell] at hmatch
          rw [hmatch.1] at hready
          exact nomatch hready
      | taken p v d =>
          rw [hcell] at hmatch
          rw [hmatch.1] at hready
          exact nomatch hready
      -- only a full cell is ready
      | full p v =>
          rw [hcell] at hmatch
          obtain ⟨hslot, hcaptured⟩ := hmatch
          have hbytes : slotBytes (t.store.slots i) = v := by
            rw [hslot]
            rfl
          have hstep := Step.take b p i v c hcell
          refine ⟨b.put i (.taken p v c), ?_, ?_⟩
          · rw [hbytes]
            exact .single hstep
          refine ⟨h.next, hstep.free h.free, fun j => ?_, fun q => ?_, fun d => ?_⟩
          · by_cases hj : j = i
            · subst hj
              rw [Board.put_cell_self]
              refine ⟨?_, hcaptured, hindex, Or.inl (Function.update_self ..)⟩
              show (t.store.put j _).slots j = _
              rw [CaptureStore.put_slots_self, hslot]
            · rw [Board.put_cell_of_ne b _ hj]
              refine (h.cells j).congr (t.store.put_slots_of_ne _ hj) (fun _ _ => rfl)
                (fun d hd => ?_)
              have hne : d ≠ c := by
                rintro rfl
                exact ((h.cells j).taker hd).1 hpc
              exact t.atConsumer_of_ne _ hne
          -- the producer of the cell is done with it
          · by_cases hq : (t.producing q).cell? = some i
            · have howner := (h.producers q).owner hq
              rw [hcell] at howner
              obtain rfl := Option.some.inj howner
              show ProducerMatches _ p (t.producing p)
              rw [hcaptured]
              exact Or.inr ⟨c, Board.put_cell_self ..⟩
            · exact (h.producers q).put hq
          · show ConsumerMatches _ d ((t.atConsumer c (.read i)).taking d)
            by_cases hd : d = c
            · subst hd
              rw [Schedule.atConsumer_self]
              exact ⟨p, v, Board.put_cell_self ..⟩
            · rw [t.atConsumer_of_ne _ hd]
              exact (h.consumers d).put (by rw [hcell]; rfl)
  | read i hpc =>
      have hread := h.consumers c
      rw [hpc] at hread
      obtain ⟨p, v, hcell⟩ := hread
      have hmatch := h.cells i
      rw [hcell] at hmatch
      obtain ⟨hslot, hcaptured, hindex, -⟩ := hmatch
      refine ⟨b, .refl b, h.idle_take (fun j q w hj => ?_) ?_⟩
      · have hmatchj := h.cells j
        rw [hj] at hmatchj
        -- a consumer reads one cell
        obtain rfl : i = j := (hmatchj.taker rfl).2 i hpc
        rw [hcell] at hj
        cases hj
        refine ⟨hslot, hcaptured, hindex, Or.inr ?_⟩
        show Function.update t.taking c _ c = _
        rw [Function.update_self, hslot]
      · rw [hslot]
        exact ⟨i, p, v, rfl, hcell⟩

/-- Every step of a schedule is matched on the board. -/
theorem refines_step [DecidableEq P] [DecidableEq C] (h : Refines index t b)
    (hs : ScheduleStep limit index t es t') :
    ∃ b', Run Step b (es.filterMap Event.act?) b' ∧ Refines index t' b' := by
  rcases step_cases hs with ⟨p, hp⟩ | ⟨c, hc⟩
  · exact h.produced hp
  · exact h.consumed hc

/-- **A store in use refines a board of single-use cells.** -/
theorem refines_run [DecidableEq P] [DecidableEq C] {h : List (Event P C)}
    (hrun : Run (ScheduleStep limit index) (Schedule.start P C) h t) :
    ∃ b, Run Step (.empty captureCapacity P C Payload) (h.filterMap Event.act?) b
      ∧ Refines index t b :=
  hrun.simulate (R := Refines index) (f := List.filterMap Event.act?) rfl
    (fun _ _ => List.filterMap_append)
    (fun _ _ _ _ hR hs => refines_step hR hs) refines_start

end Simulation

end TeamAttack.CaptureSchedule
