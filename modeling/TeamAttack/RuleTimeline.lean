import TeamAttack.EventIds
import TeamAttack.Library.PySet
import TeamAttack.Library.Timelines

/-! # The timeline of the rule events (`tools/review_rule_messages_025.py`)

    Behind its version gate, and beside the checks of the counts, the reviewer
    cuts the events into applications of the rules, pairs each received
    message with the event of its team being stored, and looks for the last
    pair ahead of each application (`timeline?`).  Of the event lines of any
    run these checks say exactly which order the events have
    (`timeline_reviewed`). -/

namespace TeamAttack

open RustStr HexText PyStr PyDict

namespace RuleReview

/-! ## The reviewer -/

/-- One event of the loop that makes `groups`; a state is `groups` and
    `pending`. -/
def groupStep? (s : List (List (List Field)) × List (List Field)) (event : List Field) :
    Option (List (List (List Field)) × List (List Field)) := do
  let kind ← event.lookup "kind".toList
  if ¬ (kinds.take 5).contains kind then return s
  else
    let pending := s.2 ++ [event]
    if kind = "apply_after".toList then return (s.1 ++ [pending], [])
    else return (s.1, pending)

def groups? (app : List (List Field)) :
    Option (List (List (List Field)) × List (List Field)) :=
  app.foldlM groupStep? ([], [])

/-- What `complete_application_groups` asks of a group. -/
def completeGroup? (g : List (List Field)) : Option Bool := do
  if g.length ≠ 4 then return false
  else
    let first ← g.head?.bind (List.lookup "kind".toList)
    if ¬ (kinds.take 2).contains first then return false
    else
      let rest ← (g.drop 1).mapM (List.lookup "kind".toList)
      if rest ≠ (kinds.drop 2).take 3 then return false
      else
        let prepared ← g.mapM (List.lookup "prepared".toList)
        if prepared ≠ ["0".toList, "0".toList, "1".toList, "1".toList] then return false
        else
          let routes ← g.mapM fun e => do
            return (← e.lookup "mode".toList, ← e.lookup "request".toList)
          return (PySet.ofItems routes).length = 1

/-- `checks['complete_application_groups']`, of `groups` and `pending`. -/
def completeGroups? (s : List (List (List Field)) × List (List Field)) : Option Bool :=
  if s.2 = [] then s.1.allM completeGroup? else some false

/-- `all(a[k] == b[k] for k in keys)`. -/
def agree? (keys : List Str) (a b : List Field) : Option Bool :=
  keys.allM fun k => do return decide ((← a.lookup k) = (← b.lookup k))

/-- `compatible`. -/
def compatible? (e : List Field) (nxt : Option (List Field)) : Option Bool :=
  match nxt with
  | none => some false
  | some [] => some false
  | some nxt => do
      let kind ← nxt.lookup "kind".toList
      if kind ≠ "rule_receive_team_stored".toList then return false
      else agree? ["participant_slot".toList, "rule_team".toList, "mode".toList,
        "request".toList, "prepared".toList] e nxt

/-- An entry of `receive_pairs`. -/
structure ReceivePair where
  before : List Field
  stored : Option (List Field)
  compatible : Bool
  deltaTicks : Option Int

/-- The entry of a received event, and what it adds to `matched_stored`. -/
def receivePair? (e : List Field) (nxt : Option (List Field)) :
    Option (ReceivePair × List Str) := do
  let compatible ← compatible? e nxt
  match nxt.filter fun _ => compatible with
  | none => return (⟨e, none, compatible, none⟩, [])
  | some stored =>
      let sequence ← stored.lookup "sequence".toList
      let stop ← intAt? stored "elapsed_ticks".toList
      let start ← intAt? e "elapsed_ticks".toList
      return (⟨e, some stored, compatible, some ((stop : Int) - start)⟩, [sequence])

/-- The loop over `enumerate(app)`: `receive_pairs` and `matched_stored`. -/
def receivePairs? : List (List Field) → Option (List ReceivePair × List Str)
  | [] => some ([], [])
  | e :: rest => do
      let kind ← e.lookup "kind".toList
      if kind ≠ "rule_receive_before".toList then receivePairs? rest
      else
        let (pair, found) ← receivePair? e rest.head?
        let (pairs, matched) ← receivePairs? rest
        return (pair :: pairs, found ++ matched)

/-- The condition of `candidates`. -/
def candidate? (first : List Field) (p : ReceivePair) : Option Bool :=
  match p.stored with
  | none => some false
  | some stored => do
      let stop ← intAt? stored "elapsed_ticks".toList
      let start ← intAt? first "elapsed_ticks".toList
      if stop < start then
        agree? ["mode".toList, "request".toList, "participant_slot".toList,
          "rule_team".toList] stored first
      else return false

/-- An entry of `associations`. -/
structure Association where
  applicationStart : List Field
  preceding : Option ReceivePair
  deltaTicks : Option Int

def association? (pairs : List ReceivePair) (g : List (List Field)) : Option Association := do
  let first ← g.head?
  let judged ← pairs.mapM fun p => (candidate? first p).map fun chosen => (p, chosen)
  match ((judged.filter Prod.snd).map Prod.fst).getLast? with
  | none => return ⟨first, none, none⟩
  | some p =>
      let stored ← p.stored
      let start ← intAt? first "elapsed_ticks".toList
      let stop ← intAt? stored "elapsed_ticks".toList
      return ⟨first, some p, some ((start : Int) - stop)⟩

/-- What the review says of the order of the events. -/
structure Timeline where
  groups : List (List (List Field))
  pairs : List ReceivePair
  associations : List Association
  completeApplicationGroups : Bool
  receiveStoreCompatiblePairs : Bool
  allStoredHavePrecedingReceive : Bool

/-- `groups`, `receive_pairs`, `associations` and the three checks of them. -/
def timeline? (app : List (List Field)) : Option Timeline := do
  let actual ← app.mapM (List.lookup "kind".toList)
  let (groups, pending) ← groups? app
  let complete ← completeGroups? (groups, pending)
  let (pairs, matched) ← receivePairs? app
  let associations ← groups.mapM (association? pairs)
  return {
    groups, pairs, associations
    completeApplicationGroups := complete
    receiveStoreCompatiblePairs := pairs.all ReceivePair.compatible
    allStoredHavePrecedingReceive :=
      (PySet.ofItems matched).length = actual.count "rule_receive_team_stored".toList }

/-! ## The events themselves -/

open ApplicationProbe ProbeSchedule Timelines

/-- The four events of one application of the rules: a copy, the selection and
    the two ends of the application. -/
def ApplicationGroup (g : List EventLine) : Prop :=
  ∃ a b c d : EventLine, g = [a, b, c, d]
    ∧ a.event.kind.toNat < 2 ∧ b.event.kind = 2 ∧ c.event.kind = 3 ∧ d.event.kind = 4
    ∧ a.event.prepared = 0 ∧ b.event.prepared = 0 ∧ c.event.prepared = 1 ∧ d.event.prepared = 1
    ∧ ∀ e ∈ [b, c, d], e.event.mode = a.event.mode ∧ e.event.request = a.event.request

/-- An event of an application. -/
def ofApplication (l : EventLine) : Bool := decide (l.event.kind.toNat < 5)

/-- The event that ends an application. -/
def endsApplication (l : EventLine) : Bool := decide (l.event.kind = 4)

def isReceive (l : EventLine) : Bool := decide (l.event.kind = 6)

def isStored (l : EventLine) : Bool := decide (l.event.kind = 7)

/-- A stored event of the message received just before. -/
def stores (l l' : EventLine) : Bool :=
  decide (l'.event.kind = 7 ∧ l.event.participant = l'.event.participant
    ∧ l.event.team = l'.event.team ∧ l.event.mode = l'.event.mode
    ∧ l.event.request = l'.event.request ∧ l.event.prepared = l'.event.prepared)

/-! ## Texts of the fields -/

theorem decimal_inj {m n : Nat} : decimal m = decimal n ↔ m = n := by
  constructor
  · intro h
    rw [← OwnerReview.number_decimal m, h, OwnerReview.number_decimal]
  · rintro rfl
    rfl

theorem hexUpper_inj {width m n : Nat} : hexUpper width m = hexUpper width n ↔ m = n := by
  constructor
  · intro h
    rw [← hexNumber_hexUpper width m, h, hexNumber_hexUpper]
  · rintro rfl
    rfl

/-- The name of an event's kind. -/
def kindName (l : EventLine) : Str :=
  (Application.names[l.event.kind.toNat]?).getD "invalid".toList

theorem kindName_iff {l : EventLine} (h : l.event.kind.toNat < 8) (j : Fin 8) :
    kindName l = kinds[j] ↔ l.event.kind.toNat = j.val := by
  have hall : ∀ i j : Fin 8, (Application.names[i.val]?).getD "invalid".toList = kinds[j]
      ↔ i.val = j.val := by
    decide
  exact hall ⟨_, h⟩ j

theorem contains_kindName {l : EventLine} (h : l.event.kind.toNat < 8) (n : Fin 9) :
    (kinds.take n.val).contains (kindName l) ↔ l.event.kind.toNat < n.val := by
  have hall : ∀ (i : Fin 8) (n : Fin 9),
      (kinds.take n.val).contains ((Application.names[i.val]?).getD "invalid".toList)
        ↔ i.val < n.val := by
    decide
  exact hall ⟨_, h⟩ n

theorem lookup_line (l : EventLine) (i : Nat) {key value : Str}
    (h : (lineFields l)[i]? = some (key, value)) : (lineFields l).lookup key = some value :=
  OwnerReview.fields_lookup l.event l.sequence i h

theorem lookup_kind (l : EventLine) : (lineFields l).lookup "kind".toList = some (kindName l) :=
  lookup_line l 3 rfl

theorem intAt?_ticks (l : EventLine) :
    intAt? (lineFields l) "elapsed_ticks".toList = some l.event.elapsedTicks.toNat :=
  intAt?_fields l 2 (UInt64.toNat_lt _) rfl

theorem allM_some {α : Type} {f : α → Option Bool} {g : α → Bool} {l : List α}
    (h : ∀ x ∈ l, f x = some (g x)) : l.allM f = some (l.all g) := by
  induction l with
  | nil => rfl
  | cons x l ih =>
      rw [List.forall_mem_cons] at h
      rw [List.allM, h.1, List.all_cons]
      cases g x with
      | true => exact ih h.2
      | false => rfl

/-- Two lines agree on the keys that show the same values. -/
theorem agree?_lines (l l' : EventLine) {keys : List Str} {value : Str → EventLine → Str}
    (hvalue : ∀ k ∈ keys, ∀ l, (lineFields l).lookup k = some (value k l)) :
    agree? keys (lineFields l) (lineFields l')
      = some (keys.all fun k => decide (value k l = value k l')) := by
  refine allM_some fun k hk => ?_
  simp only [hvalue k hk, Option.bind_eq_bind, Option.bind_some]
  rfl

/-! ## Groups -/

/-- The loop's state, as it holds the lines. -/
def groupState (s : List (List EventLine) × List EventLine) :
    List (List (List Field)) × List (List Field) :=
  (s.1.map (List.map lineFields), s.2.map lineFields)

theorem groupStep?_line {l : EventLine} (h : l.event.kind.toNat < 8)
    (s : List (List EventLine) × List EventLine) :
    groupStep? (groupState s) (lineFields l)
      = some (groupState (if ofApplication l then segmentStep endsApplication s l else s)) := by
  have htake : ¬ (kinds.take 5).contains (kindName l) ↔ ¬ l.event.kind.toNat < 5 :=
    not_congr (contains_kindName h 5)
  have hend : kindName l = "apply_after".toList ↔ l.event.kind = 4 := by
    rw [← UInt8.toNat_inj]
    exact kindName_iff h 4
  simp only [groupStep?, lookup_kind, Option.bind_eq_bind, Option.bind_some, htake, hend,
    ofApplication, segmentStep, endsApplication, decide_eq_true_eq]
  by_cases happ : l.event.kind.toNat < 5
  · rw [if_neg (not_not.mpr happ), if_pos happ]
    by_cases hafter : l.event.kind = 4
    · rw [if_pos hafter, if_pos hafter]
      simp [groupState]
    · rw [if_neg hafter, if_neg hafter]
      simp [groupState]
  · rw [if_pos happ, if_neg happ]
    rfl

/-- **The groups are the segments of the application events.** -/
theorem groups?_lines {ls : List EventLine} (h : ∀ l ∈ ls, l.event.kind.toNat < 8) :
    groups? (ls.map lineFields)
      = some (groupState (segments endsApplication (ls.filter ofApplication))) := by
  have hfold : ∀ s, (ls.map lineFields).foldlM groupStep? (groupState s)
      = some (groupState ((ls.filter ofApplication).foldl (segmentStep endsApplication) s)) := by
    induction ls with
    | nil => exact fun s => rfl
    | cons l ls ih =>
        intro s
        rw [List.forall_mem_cons] at h
        rw [List.map_cons, List.foldlM_cons, groupStep?_line h.1 s]
        show (ls.map lineFields).foldlM groupStep? _ = _
        rw [ih h.2]
        cases happ : ofApplication l with
        | true => rw [if_pos rfl, List.filter_cons_of_pos happ, List.foldl_cons]
        | false =>
            rw [if_neg Bool.false_ne_true, List.filter_cons_of_neg (by rw [happ]; decide)]
  exact hfold ([], [])

theorem lines_mapM {β : Type} {f : List Field → Option β} {g : EventLine → β}
    (ls : List EventLine) (h : ∀ l ∈ ls, f (lineFields l) = some (g l)) :
    (ls.map lineFields).mapM f = some (ls.map g) := by
  rw [List.mapM_map]
  exact mapM_some h

/-- What the reviewer reads of a group of four. -/
structure FourLines (a b c d : EventLine) : Prop where
  first : (kinds.take 2).contains (kindName a)
  rest : [kindName b, kindName c, kindName d] = (kinds.drop 2).take 3
  prepared : [decimal a.event.prepared.toNat, decimal b.event.prepared.toNat,
    decimal c.event.prepared.toNat, decimal d.event.prepared.toNat]
      = ["0".toList, "0".toList, "1".toList, "1".toList]
  routes : (PySet.ofItems ([a, b, c, d].map fun l =>
    (hexUpper 8 l.event.mode.toNat, decimal l.event.request.toNat))).length = 1

theorem completeGroup?_four (a b c d : EventLine) :
    ∃ complete, completeGroup? ([a, b, c, d].map lineFields) = some complete
      ∧ (complete = true ↔ FourLines a b c d) := by
  have hfirst : (([a, b, c, d].map lineFields).head?.bind (List.lookup "kind".toList))
      = some (kindName a) := lookup_kind a
  have hrest : ((([a, b, c, d].map lineFields).drop 1).mapM (List.lookup "kind".toList))
      = some [kindName b, kindName c, kindName d] :=
    lines_mapM [b, c, d] fun l _ => lookup_kind l
  have hprepared : ([a, b, c, d].map lineFields).mapM (List.lookup "prepared".toList)
      = some [decimal a.event.prepared.toNat, decimal b.event.prepared.toNat,
        decimal c.event.prepared.toNat, decimal d.event.prepared.toNat] :=
    lines_mapM [a, b, c, d] fun l _ => lookup_line l 6 rfl
  have hroutes : (([a, b, c, d].map lineFields).mapM fun e => do
        return (← e.lookup "mode".toList, ← e.lookup "request".toList) : Option (List (Str × Str)))
      = some ([a, b, c, d].map fun l =>
        (hexUpper 8 l.event.mode.toNat, decimal l.event.request.toNat)) := by
    refine lines_mapM _ fun l _ => ?_
    have hmode : (lineFields l).lookup "mode".toList = some (hexUpper 8 l.event.mode.toNat) :=
      lookup_line l 4 rfl
    have hrequest : (lineFields l).lookup "request".toList
        = some (decimal l.event.request.toNat) := lookup_line l 5 rfl
    simp only [hmode, hrequest, Option.bind_eq_bind, Option.bind_some]
    rfl
  have hlen : ¬ ([a, b, c, d].map lineFields).length ≠ 4 := by simp
  rw [completeGroup?, if_neg hlen, hfirst, hrest, hprepared, hroutes]
  simp only [Option.bind_eq_bind, Option.bind_some]
  have hfalse : ∀ hne : ¬ FourLines a b c d, ∃ complete, some false = some complete
      ∧ (complete = true ↔ FourLines a b c d) :=
    fun hne => ⟨false, rfl, iff_of_false Bool.false_ne_true hne⟩
  by_cases h1 : (kinds.take 2).contains (kindName a)
  · rw [if_neg (not_not.mpr h1)]
    by_cases h2 : [kindName b, kindName c, kindName d] = (kinds.drop 2).take 3
    · rw [if_neg (not_not.mpr h2)]
      by_cases h3 : [decimal a.event.prepared.toNat, decimal b.event.prepared.toNat,
          decimal c.event.prepared.toNat, decimal d.event.prepared.toNat]
            = ["0".toList, "0".toList, "1".toList, "1".toList]
      · rw [if_neg (not_not.mpr h3)]
        refine ⟨_, rfl, fun h => ⟨h1, h2, h3, of_decide_eq_true h⟩, fun h => ?_⟩
        exact decide_eq_true h.routes
      · rw [if_pos h3]
        exact hfalse fun h => h3 h.prepared
    · rw [if_pos h2]
      exact hfalse fun h => h2 h.rest
  · rw [if_pos h1]
    exact hfalse fun h => h1 h.first

/-- The texts show what the events are. -/
theorem fourLines_iff {a b c d : EventLine} (ha : a.event.kind.toNat < 8)
    (hb : b.event.kind.toNat < 8) (hc : c.event.kind.toNat < 8) (hd : d.event.kind.toNat < 8) :
    FourLines a b c d ↔ ApplicationGroup [a, b, c, d] := by
  have hfirst : (kinds.take 2).contains (kindName a) ↔ a.event.kind.toNat < 2 :=
    contains_kindName ha 2
  have hkind : ∀ {l : EventLine} (j : Fin 8) (k : UInt8), l.event.kind.toNat < 8 →
      k.toNat = j.val → (kindName l = kinds[j] ↔ l.event.kind = k) := by
    intro l j k hl hk
    rw [kindName_iff hl j, ← UInt8.toNat_inj, hk]
  have hrest : [kindName b, kindName c, kindName d] = (kinds.drop 2).take 3
      ↔ b.event.kind = 2 ∧ c.event.kind = 3 ∧ d.event.kind = 4 := by
    rw [← hkind 2 2 hb rfl, ← hkind 3 3 hc rfl, ← hkind 4 4 hd rfl]
    show _ = [kinds[(2 : Fin 8)], kinds[(3 : Fin 8)], kinds[(4 : Fin 8)]] ↔ _
    simp only [List.cons.injEq, and_true]
  have hdigit : ∀ (x y : UInt8), decimal x.toNat = decimal y.toNat ↔ x = y := by
    intro x y
    rw [decimal_inj, UInt8.toNat_inj]
  have hprepared : [decimal a.event.prepared.toNat, decimal b.event.prepared.toNat,
        decimal c.event.prepared.toNat, decimal d.event.prepared.toNat]
      = ["0".toList, "0".toList, "1".toList, "1".toList]
      ↔ a.event.prepared = 0 ∧ b.event.prepared = 0 ∧ c.event.prepared = 1
        ∧ d.event.prepared = 1 := by
    rw [← hdigit _ 0, ← hdigit _ 0, ← hdigit _ 1, ← hdigit _ 1]
    show _ = [decimal (0 : UInt8).toNat, decimal (0 : UInt8).toNat, decimal (1 : UInt8).toNat,
      decimal (1 : UInt8).toNat] ↔ _
    simp only [List.cons.injEq, and_true]
  have hroutes : (PySet.ofItems ([a, b, c, d].map fun l =>
        (hexUpper 8 l.event.mode.toNat, decimal l.event.request.toNat))).length = 1
      ↔ ∀ e ∈ [b, c, d], e.event.mode = a.event.mode ∧ e.event.request = a.event.request := by
    rw [List.map_cons, PySet.length_ofItems_cons, List.forall_mem_map]
    refine forall₂_congr fun e _ => ?_
    rw [Prod.mk.injEq, hexUpper_inj, decimal_inj, UInt32.toNat_inj, UInt32.toNat_inj]
  constructor
  · rintro ⟨h1, h2, h3, h4⟩
    obtain ⟨hb2, hc3, hd4⟩ := hrest.mp h2
    obtain ⟨ha0, hb0, hc1, hd1⟩ := hprepared.mp h3
    exact ⟨a, b, c, d, rfl, hfirst.mp h1, hb2, hc3, hd4, ha0, hb0, hc1, hd1, hroutes.mp h4⟩
  · rintro ⟨_, _, _, _, hlist, h1, hb2, hc3, hd4, ha0, hb0, hc1, hd1, h4⟩
    simp only [List.cons.injEq, and_true] at hlist
    obtain ⟨rfl, rfl, rfl, rfl⟩ := hlist
    exact ⟨hfirst.mpr h1, hrest.mpr ⟨hb2, hc3, hd4⟩, hprepared.mpr ⟨ha0, hb0, hc1, hd1⟩,
      hroutes.mpr h4⟩

/-- **A group passes exactly when it is one application.** -/
theorem completeGroup?_lines {g : List EventLine} (h : ∀ l ∈ g, l.event.kind.toNat < 8) :
    ∃ complete, completeGroup? (g.map lineFields) = some complete
      ∧ (complete = true ↔ ApplicationGroup g) := by
  by_cases hlen : g.length = 4
  · obtain ⟨a, b, c, d, rfl⟩ : ∃ a b c d, g = [a, b, c, d] := by
      rcases g with _ | ⟨a, _ | ⟨b, _ | ⟨c, _ | ⟨d, _ | ⟨e, g⟩⟩⟩⟩⟩
      all_goals simp at hlen
      exact ⟨a, b, c, d, rfl⟩
    simp only [List.forall_mem_cons] at h
    obtain ⟨complete, hcomplete, hiff⟩ := completeGroup?_four a b c d
    exact ⟨complete, hcomplete, hiff.trans (fourLines_iff h.1 h.2.1 h.2.2.1 h.2.2.2.1)⟩
  · refine ⟨false, ?_, iff_of_false Bool.false_ne_true ?_⟩
    · rw [completeGroup?, if_pos (by rwa [List.length_map])]
      rfl
    · rintro ⟨a, b, c, d, rfl, -⟩
      exact hlen rfl

/-- An application ends with its last event, and not before. -/
theorem ApplicationGroup.closed {g : List EventLine} (h : ApplicationGroup g) :
    Closed endsApplication g := by
  obtain ⟨a, b, c, d, rfl, ha, hb, hc, hd, -⟩ := h
  have hne : a.event.kind ≠ 4 := by
    intro heq
    rw [heq] at ha
    exact absurd ha (by decide)
  refine ⟨[a, b, c], d, rfl, decide_eq_true hd, ?_⟩
  simp only [List.forall_mem_cons, endsApplication, decide_eq_false_iff_not, hb, hc]
  exact ⟨hne, by decide, by decide, by simp⟩

/-- `complete_application_groups`. -/
theorem complete_lines {ls : List EventLine} (h : ∀ l ∈ ls, l.event.kind.toNat < 8)
    {s : List (List EventLine) × List EventLine} (hs : s.1.flatten ⊆ ls) :
    ∃ complete, completeGroups? (groupState s) = some complete
      ∧ (complete = true ↔ s.2 = [] ∧ ∀ g ∈ s.1, ApplicationGroup g) := by
  have hnil : (groupState s).2 = [] ↔ s.2 = [] := List.map_eq_nil_iff
  unfold completeGroups?
  by_cases hpending : s.2 = []
  · rw [if_pos (hnil.mpr hpending)]
    have hgroups : ∀ gs ⊆ s.1, ∃ complete, (gs.map (List.map lineFields)).allM completeGroup?
        = some complete ∧ (complete = true ↔ ∀ g ∈ gs, ApplicationGroup g) := by
      intro gs
      induction gs with
      | nil => exact fun _ => ⟨true, rfl, by simp⟩
      | cons g gs ih =>
          intro hsub
          rw [List.cons_subset] at hsub
          obtain ⟨rest, hrest, hrestiff⟩ := ih hsub.2
          obtain ⟨first, hfirst, hfirstiff⟩ := completeGroup?_lines (g := g) fun l hl =>
            h l (hs (List.mem_flatten.mpr ⟨g, hsub.1, hl⟩))
          rw [List.forall_mem_cons, ← hfirstiff, ← hrestiff, List.map_cons, List.allM, hfirst]
          cases first with
          | true => exact ⟨rest, hrest, by simp⟩
          | false => exact ⟨false, rfl, by simp⟩
    obtain ⟨complete, hcomplete, hiff⟩ := hgroups s.1 (List.Subset.refl _)
    exact ⟨complete, hcomplete, hiff.trans (and_iff_right hpending).symm⟩
  · rw [if_neg fun h => hpending (hnil.mp h)]
    exact ⟨false, rfl, iff_of_false Bool.false_ne_true fun h => hpending h.1⟩

/-! ## Pairs -/

/-- A pair as the reviewer holds it. -/
def pairRow (q : EventLine × Option EventLine) : ReceivePair where
  before := lineFields q.1
  stored := q.2.map lineFields
  compatible := q.2.isSome
  deltaTicks := q.2.map fun s => (s.event.elapsedTicks.toNat : Int) - q.1.event.elapsedTicks.toNat

/-- The texts of the fields that are compared. -/
def sharedText (key : Str) (l : EventLine) : Str := ((lineFields l).lookup key).getD []

theorem sharedText_eq {l : EventLine} (i : Nat) {key value : Str}
    (h : (lineFields l)[i]? = some (key, value)) : sharedText key l = value := by
  rw [sharedText, lookup_line l i h]
  rfl

theorem lookup_sharedText {key : Str} (h : key ∈ OwnerReview.eventKeys) (l : EventLine) :
    (lineFields l).lookup key = some (sharedText key l) := by
  rw [← OwnerReview.fields_keys l.event l.sequence, List.mem_map] at h
  obtain ⟨f, hf, rfl⟩ := h
  have hlookup : (lineFields l).lookup f.1 = some f.2 :=
    lookup_eq_some (OwnerReview.fields_nodup l.event l.sequence) hf
  rw [sharedText, hlookup]
  rfl

/-- Equal texts are equal values. -/
theorem sharedText_iff (l l' : EventLine) :
    (sharedText "participant_slot".toList l = sharedText "participant_slot".toList l'
        ↔ l.event.participant = l'.event.participant)
      ∧ (sharedText "rule_team".toList l = sharedText "rule_team".toList l'
        ↔ l.event.team = l'.event.team)
      ∧ (sharedText "mode".toList l = sharedText "mode".toList l'
        ↔ l.event.mode = l'.event.mode)
      ∧ (sharedText "request".toList l = sharedText "request".toList l'
        ↔ l.event.request = l'.event.request)
      ∧ (sharedText "prepared".toList l = sharedText "prepared".toList l'
        ↔ l.event.prepared = l'.event.prepared) := by
  refine ⟨?_, ?_, ?_, ?_, ?_⟩
  · rw [sharedText_eq 10 rfl, sharedText_eq 10 rfl, hexUpper_inj, UInt8.toNat_inj]
  · rw [sharedText_eq 7 rfl, sharedText_eq 7 rfl, hexUpper_inj, UInt8.toNat_inj]
  · rw [sharedText_eq 4 rfl, sharedText_eq 4 rfl, hexUpper_inj, UInt32.toNat_inj]
  · rw [sharedText_eq 5 rfl, sharedText_eq 5 rfl, decimal_inj, UInt32.toNat_inj]
  · rw [sharedText_eq 6 rfl, sharedText_eq 6 rfl, decimal_inj, UInt8.toNat_inj]

theorem compatible?_line {l l' : EventLine} (h : l'.event.kind.toNat < 8) :
    compatible? (lineFields l) (some (lineFields l')) = some (stores l l') := by
  have hkind : kindName l' = "rule_receive_team_stored".toList ↔ l'.event.kind = 7 := by
    rw [← UInt8.toNat_inj]
    exact kindName_iff h 7
  have hsub : ["participant_slot".toList, "rule_team".toList, "mode".toList, "request".toList,
      "prepared".toList] ⊆ OwnerReview.eventKeys := by decide
  have hagree := agree?_lines l l' fun k hk l => lookup_sharedText (hsub hk) l
  obtain ⟨hslot, hteam, hmode, hrequest, hprepared⟩ := sharedText_iff l l'
  have hcode : compatible? (lineFields l) (some (lineFields l'))
      = if kindName l' ≠ "rule_receive_team_stored".toList then some false
        else agree? ["participant_slot".toList, "rule_team".toList, "mode".toList,
          "request".toList, "prepared".toList] (lineFields l) (lineFields l') := by
    have hlookup := lookup_kind l'
    cases hl : lineFields l' with
    | nil => cases hl
    | cons f fs =>
        rw [hl] at hlookup
        simp only [compatible?, hlookup, Option.bind_eq_bind, Option.bind_some]
        rfl
  rw [hcode, hagree, stores]
  by_cases h7 : l'.event.kind = 7
  · rw [if_neg (not_not.mpr (hkind.mpr h7))]
    simp only [List.all_cons, List.all_nil, Bool.and_true, h7, true_and, hslot, hteam, hmode,
      hrequest, hprepared, Bool.decide_and]
  · rw [if_pos fun h => h7 (hkind.mp h)]
    simp [h7]

theorem receivePair?_line {l : EventLine} {ls : List EventLine}
    (h : ∀ l ∈ ls, l.event.kind.toNat < 8) :
    receivePair? (lineFields l) (ls.map lineFields).head?
      = some (pairRow (l, answer stores l ls),
        (answer stores l ls).toList.map fun s => decimal s.sequence) := by
  cases ls with
  | nil => rfl
  | cons s ls =>
      have hsequence : (lineFields s).lookup "sequence".toList = some (decimal s.sequence) :=
        lookup_line s 0 rfl
      rw [List.forall_mem_cons] at h
      rw [List.map_cons, List.head?_cons, receivePair?, compatible?_line h.1, answer,
        List.head?_cons]
      cases hstores : stores l s with
      | false => simp [hstores, pairRow]
      | true =>
        simp only [Option.bind_eq_bind, Option.bind_some, Option.filter_some, hstores, if_true,
          hsequence, intAt?_ticks]
        rfl

/-- **The pairs are the receives with the events that store them.** -/
theorem receivePairs?_lines {ls : List EventLine} (h : ∀ l ∈ ls, l.event.kind.toNat < 8) :
    receivePairs? (ls.map lineFields)
      = some ((pairs isReceive stores ls).map pairRow,
        (answered isReceive stores ls).map fun s => decimal s.sequence) := by
  induction ls with
  | nil => rfl
  | cons l ls ih =>
      rw [List.forall_mem_cons] at h
      have hkind : kindName l = "rule_receive_before".toList ↔ l.event.kind = 6 := by
        rw [← UInt8.toNat_inj]
        exact kindName_iff h.1 6
      rw [List.map_cons, receivePairs?, lookup_kind]
      simp only [Option.bind_eq_bind, Option.bind_some]
      by_cases h6 : l.event.kind = 6
      · have hopen : isReceive l = true := decide_eq_true h6
        rw [if_neg (not_not.mpr (hkind.mpr h6)), ih h.2, pairs_open hopen, answered_open hopen,
          receivePair?_line h.2]
        simp only [Option.bind_some, List.map_cons, List.map_append]
        rfl
      · have hother : isReceive l = false := decide_eq_false h6
        rw [if_pos fun h => h6 (hkind.mp h), ih h.2, pairs_other hother, answered_other hother]

/-! ## Associations -/

/-- A stored event ahead of an application, of the same rule. -/
def precedes (s f : EventLine) : Bool :=
  decide (s.event.elapsedTicks < f.event.elapsedTicks ∧ s.event.mode = f.event.mode
    ∧ s.event.request = f.event.request ∧ s.event.participant = f.event.participant
    ∧ s.event.team = f.event.team)

theorem candidate?_line (f : EventLine) (q : EventLine × Option EventLine) :
    candidate? (lineFields f) (pairRow q) = some (q.2.any fun s => precedes s f) := by
  obtain ⟨r, stored⟩ := q
  cases stored with
  | none => rfl
  | some s =>
      have hsub : ["mode".toList, "request".toList, "participant_slot".toList, "rule_team".toList]
          ⊆ OwnerReview.eventKeys := by decide
      have hagree := agree?_lines s f fun k hk l => lookup_sharedText (hsub hk) l
      obtain ⟨hslot, hteam, hmode, hrequest, -⟩ := sharedText_iff s f
      have hcode : candidate? (lineFields f) (pairRow (r, some s))
          = if s.event.elapsedTicks.toNat < f.event.elapsedTicks.toNat then
              agree? ["mode".toList, "request".toList, "participant_slot".toList,
                "rule_team".toList] (lineFields s) (lineFields f)
            else some false := by
        show ((intAt? (lineFields s) "elapsed_ticks".toList).bind fun stop =>
          (intAt? (lineFields f) "elapsed_ticks".toList).bind fun start => _) = _
        rw [intAt?_ticks, intAt?_ticks]
        rfl
      rw [hcode, hagree, Option.any_some, precedes]
      by_cases hlt : s.event.elapsedTicks < f.event.elapsedTicks
      · rw [if_pos (UInt64.lt_iff_toNat_lt.mp hlt)]
        simp only [List.all_cons, List.all_nil, Bool.and_true, hlt, true_and, hslot, hteam, hmode,
          hrequest, Bool.decide_and]
      · rw [if_neg fun h => hlt (UInt64.lt_iff_toNat_lt.mpr h)]
        simp [hlt]

/-- An entry of the associations, from the event and the pair it is about. -/
def associationRow (f : EventLine) (o : Option (EventLine × Option EventLine)) : Association where
  applicationStart := lineFields f
  preceding := o.map pairRow
  deltaTicks := (o.bind Prod.snd).map fun s =>
    (f.event.elapsedTicks.toNat : Int) - s.event.elapsedTicks.toNat

/-- The pair an application is associated with. -/
def precedingPair (ls : List EventLine) (f : EventLine) : Option (EventLine × Option EventLine) :=
  ((pairs isReceive stores ls).filter fun q => q.2.any fun s => precedes s f).getLast?

theorem association?_lines (ls : List EventLine) (f : EventLine) (g : List EventLine) :
    association? ((pairs isReceive stores ls).map pairRow) ((f :: g).map lineFields)
      = some (associationRow f (precedingPair ls f)) := by
  have hjudged : ((pairs isReceive stores ls).map pairRow).mapM (fun p =>
        (candidate? (lineFields f) p).map fun chosen => (p, chosen))
      = some ((pairs isReceive stores ls).map fun q =>
        (pairRow q, q.2.any fun s => precedes s f)) := by
    rw [List.mapM_map]
    refine mapM_some fun q _ => ?_
    show (candidate? (lineFields f) (pairRow q)).map _ = _
    rw [candidate?_line]
    rfl
  have hchosen : ((((pairs isReceive stores ls).map fun q =>
        (pairRow q, q.2.any fun s => precedes s f)).filter Prod.snd).map Prod.fst).getLast?
      = (precedingPair ls f).map pairRow := by
    rw [List.filter_map, List.map_map, precedingPair, ← List.getLast?_map]
    rfl
  rw [List.map_cons, association?, List.head?_cons]
  simp only [Option.bind_eq_bind, Option.bind_some, hjudged, hchosen]
  cases hlast : precedingPair ls f with
  | none => rfl
  | some q =>
      -- a chosen pair has its stored event
      have hmem := List.mem_of_getLast? hlast
      obtain ⟨-, hany⟩ := List.mem_filter.mp hmem
      obtain ⟨r, stored⟩ := q
      cases stored with
      | none => cases hany
      | some s =>
          show ((intAt? (lineFields f) "elapsed_ticks".toList).bind fun start =>
            (intAt? (lineFields s) "elapsed_ticks".toList).bind fun stop => _) = _
          rw [intAt?_ticks, intAt?_ticks]
          rfl

/-! ## The review -/

/-- A received message, and right behind it the event of its team stored. -/
def StoredBehind (ls : List EventLine) (r s : EventLine) : Prop :=
  isReceive r = true ∧ stores r s = true ∧ [r, s] <:+: ls

/-- What a review says of events in the order of their ticks. -/
structure Reviewed (ls : List EventLine) (review : Timeline) : Prop where
  groups : review.completeApplicationGroups = true
    ↔ ∃ gs : List (List EventLine), ls.filter ofApplication = gs.flatten
      ∧ ∀ g ∈ gs, ApplicationGroup g
  found : ∀ gs : List (List EventLine), ls.filter ofApplication = gs.flatten →
    (∀ g ∈ gs, ApplicationGroup g) → review.groups = gs.map (List.map lineFields)
  paired : review.receiveStoreCompatiblePairs = true ∧ review.allStoredHavePrecedingReceive = true
    ↔ Paired isReceive isStored stores ls
  starts : review.associations.map Association.applicationStart
    = review.groups.filterMap List.head?
  preceding : ∀ a ∈ review.associations, ∃ f ∈ ls, a.applicationStart = lineFields f
    ∧ (∀ p, a.preceding = some p → ∃ r s, StoredBehind ls r s ∧ precedes s f = true
      ∧ p.before = lineFields r ∧ p.stored = some (lineFields s)
      ∧ ∀ r' s', StoredBehind ls r' s' → precedes s' f = true →
        s'.event.elapsedTicks ≤ s.event.elapsedTicks)
    ∧ (a.preceding = none → ∀ r s, StoredBehind ls r s → precedes s f = false)

theorem matching : Matching isReceive isStored stores where
  closing := by
    intro x y h
    exact decide_eq_true (of_decide_eq_true h).1
  apart := by
    intro x h
    have hkind : x.event.kind = 7 := of_decide_eq_true h
    rw [isReceive, hkind]
    rfl

/-- The stored events of the pairs are in the order of their ticks. -/
theorem pairs_sorted {ls : List EventLine}
    (hsorted : (ls.map fun l => l.event.elapsedTicks.toNat).Pairwise (· ≤ ·)) :
    (pairs isReceive stores ls).Pairwise fun q q' => ∀ s, q.2 = some s → ∀ s', q'.2 = some s' →
      s.event.elapsedTicks.toNat ≤ s'.event.elapsedTicks.toNat := by
  refine List.pairwise_filterMap.mp ?_
  have hsub : (answered isReceive stores ls).Sublist ls :=
    (answered_sublist matching ls).trans List.filter_sublist
  exact (List.pairwise_map.mp hsorted).sublist hsub

/-- The last pair ahead of an application is a latest one. -/
theorem precedingPair_latest {ls : List EventLine}
    (hsorted : (ls.map fun l => l.event.elapsedTicks.toNat).Pairwise (· ≤ ·)) (f : EventLine) :
    (∀ q, precedingPair ls f = some q → ∃ r s, q = (r, some s) ∧ StoredBehind ls r s
      ∧ precedes s f = true ∧ ∀ r' s', StoredBehind ls r' s' → precedes s' f = true →
        s'.event.elapsedTicks ≤ s.event.elapsedTicks)
    ∧ (precedingPair ls f = none → ∀ r s, StoredBehind ls r s → precedes s f = false) := by
  constructor
  · rintro ⟨r, stored⟩ hq
    obtain ⟨hmem, hchosen, hlatest⟩ := latest (pairs_sorted hsorted) hq
    cases stored with
    | none => cases hchosen
    | some s =>
        refine ⟨r, s, rfl, mem_pairs.mp hmem, hchosen, ?_⟩
        intro r' s' hbehind hprecedes
        rcases hlatest (r', some s') (mem_pairs.mpr hbehind) hprecedes with hle | heq
        · exact UInt64.le_iff_toNat_le.mpr (hle s' rfl s rfl)
        · obtain ⟨-, hs⟩ := Prod.mk.inj heq
          obtain rfl := Option.some.inj hs
          exact UInt64.le_refl _
  · intro hnone r s hbehind
    rw [precedingPair, List.getLast?_eq_none_iff, List.filter_eq_nil_iff] at hnone
    exact Bool.eq_false_iff.mpr (hnone (r, some s) (mem_pairs.mpr hbehind))

/-- Each group starts with an event of the run. -/
theorem associations_lines (ls : List EventLine) {gs : List (List EventLine)}
    (hgs : ∀ g ∈ gs, Closed endsApplication g) :
    (gs.map (List.map lineFields)).mapM (association? ((pairs isReceive stores ls).map pairRow))
      = some ((gs.filterMap List.head?).map fun f => associationRow f (precedingPair ls f)) := by
  induction gs with
  | nil => rfl
  | cons g gs ih =>
      rw [List.forall_mem_cons] at hgs
      obtain ⟨f, rest, rfl⟩ : ∃ f rest, g = f :: rest := by
        obtain ⟨init, x, rfl, -⟩ := hgs.1
        exact List.exists_cons_of_ne_nil (by simp)
      rw [List.map_cons, List.mapM_cons, association?_lines, ih hgs.2]
      rfl

/-- The sequences of the matched events are told apart. -/
theorem matched_count {ls : List EventLine} (hunique : (ls.map EventLine.sequence).Nodup) :
    (PySet.ofItems ((answered isReceive stores ls).map fun s => decimal s.sequence)).length
      = (answered isReceive stores ls).length := by
  have hsub : (answered isReceive stores ls).Sublist ls :=
    (answered_sublist matching ls).trans List.filter_sublist
  have hnodup : ((answered isReceive stores ls).map fun s => decimal s.sequence).Nodup := by
    have hdecimal := (hunique.sublist (hsub.map _)).map fun _ _ h => decimal_inj.mp h
    rwa [List.map_map] at hdecimal
  rw [PySet.length_ofItems.mpr hnodup, List.length_map]

theorem stored_count {ls : List EventLine} (hkind : ∀ l ∈ ls, l.event.kind.toNat < 8) :
    (ls.map kindName).count "rule_receive_team_stored".toList = (ls.filter isStored).length := by
  rw [List.count, List.countP_map, ← List.countP_eq_length_filter]
  refine List.countP_congr fun l hl => ?_
  have hname : kindName l = "rule_receive_team_stored".toList ↔ l.event.kind = 7 := by
    rw [← UInt8.toNat_inj]
    exact kindName_iff (hkind l hl) 7
  rw [Function.comp_apply, beq_iff_eq, hname, isStored, decide_eq_true_eq]

/-- The review, from the events. -/
def reviewOf (ls : List EventLine) (complete : Bool) : Timeline :=
  let groups := (segments endsApplication (ls.filter ofApplication)).1
  { groups := groups.map (List.map lineFields)
    pairs := (pairs isReceive stores ls).map pairRow
    associations := (groups.filterMap List.head?).map fun f =>
      associationRow f (precedingPair ls f)
    completeApplicationGroups := complete
    receiveStoreCompatiblePairs :=
      ((pairs isReceive stores ls).map pairRow).all ReceivePair.compatible
    allStoredHavePrecedingReceive :=
      (PySet.ofItems ((answered isReceive stores ls).map fun s => decimal s.sequence)).length
        = (ls.map kindName).count "rule_receive_team_stored".toList }

theorem timeline?_lines {ls : List EventLine} (hkind : ∀ l ∈ ls, l.event.kind.toNat < 8) :
    ∃ complete, timeline? (ls.map lineFields) = some (reviewOf ls complete)
      ∧ (complete = true ↔ ∃ gs : List (List EventLine), ls.filter ofApplication = gs.flatten
        ∧ ∀ g ∈ gs, ApplicationGroup g) := by
  have hsound := segments_sound (p := endsApplication) (ls.filter ofApplication)
  have hactual : (ls.map lineFields).mapM (List.lookup "kind".toList)
      = some (ls.map kindName) := lines_mapM ls fun l _ => lookup_kind l
  have hsub : (segments endsApplication (ls.filter ofApplication)).1.flatten ⊆ ls := by
    intro l hl
    have hmem : l ∈ ls.filter ofApplication := by
      rw [← hsound.1]
      exact List.mem_append_left _ hl
    exact (List.mem_filter.mp hmem).1
  obtain ⟨complete, hcomplete, hiff⟩ := complete_lines hkind hsub
  have hassociations := associations_lines ls hsound.2.1
  refine ⟨complete, ?_, hiff.trans (segments_iff (fun g hg => hg.closed) _)⟩
  rw [timeline?, hactual, groups?_lines hkind, receivePairs?_lines hkind]
  simp only [Option.bind_eq_bind, Option.bind_some, hcomplete]
  show (((segments endsApplication (ls.filter ofApplication)).1.map (List.map lineFields)).mapM
    (association? ((pairs isReceive stores ls).map pairRow))).bind _ = _
  rw [hassociations]
  rfl

/-- **The review of events in the order of their ticks.** -/
theorem timeline_lines {ls : List EventLine} (hkind : ∀ l ∈ ls, l.event.kind.toNat < 8)
    (hunique : (ls.map EventLine.sequence).Nodup)
    (hsorted : (ls.map fun l => l.event.elapsedTicks.toNat).Pairwise (· ≤ ·)) :
    ∃ review, timeline? (ls.map lineFields) = some review ∧ Reviewed ls review := by
  obtain ⟨complete, htimeline, hcomplete⟩ := timeline?_lines hkind
  have hsound := segments_sound (p := endsApplication) (ls.filter ofApplication)
  refine ⟨_, htimeline, hcomplete, ?_, ?_, ?_, ?_⟩
  · intro gs hgs hall
    show (segments endsApplication (ls.filter ofApplication)).1.map _ = _
    rw [hgs, segments_flatten fun g hg => (hall g hg).closed]
  -- the two checks of the pairs, as the events have them
  · rw [← paired_iff matching]
    refine and_congr ?_ ?_
    · show ((pairs isReceive stores ls).map pairRow).all ReceivePair.compatible = true ↔ _
      rw [List.all_eq_true, List.forall_mem_map]
      rfl
    · show decide _ = true ↔ _
      rw [decide_eq_true_eq, matched_count hunique, stored_count hkind]
  · show ((_ : List EventLine).map _).map _ = ((_ : List (List EventLine)).map _).filterMap _
    rw [List.map_map, List.filterMap_map, List.map_filterMap]
    refine List.filterMap_congr fun g _ => ?_
    cases g <;> rfl
  · intro a ha
    obtain ⟨f, hf, rfl⟩ := List.mem_map.mp ha
    obtain ⟨g, hg, hhead⟩ := List.mem_filterMap.mp hf
    have hmem : f ∈ ls.filter ofApplication := by
      rw [← hsound.1]
      exact List.mem_append_left _ (List.mem_flatten.mpr ⟨g, hg, List.mem_of_mem_head? hhead⟩)
    obtain ⟨hsome, hnone⟩ := precedingPair_latest hsorted f
    refine ⟨f, (List.mem_filter.mp hmem).1, rfl, ?_, ?_⟩
    · intro p hp
      obtain ⟨q, hq, rfl⟩ := Option.map_eq_some_iff.mp hp
      obtain ⟨r, s, rfl, hbehind, hprecedes, hlatest⟩ := hsome q hq
      exact ⟨r, s, hbehind, hprecedes, rfl, rfl, hlatest⟩
    · intro hp
      exact hnone (Option.map_eq_none_iff.mp hp)

/-! ## Every log -/

/-- The event lines in the order of their ticks. -/
def sortedLines (ls : List EventLine) : List EventLine :=
  ls.mergeSort fun a b => a.event.elapsedTicks.toNat ≤ b.event.elapsedTicks.toNat

/-- Sorting the rows is sorting the lines. -/
theorem sortedRows_eq (ls : List EventLine) : sortedRows ls = (sortedLines ls).map lineFields := by
  have hsort : (sortedLines ls).map (fun l => (l.event.elapsedTicks.toNat, lineFields l))
      = (ls.map fun l => (l.event.elapsedTicks.toNat, lineFields l)).mergeSort
        fun a b => a.1 ≤ b.1 := List.map_mergeSort fun _ _ _ _ => rfl
  rw [sortedRows, ← hsort, List.map_map]
  rfl

theorem sortedLines_sorted (ls : List EventLine) :
    ((sortedLines ls).map fun l => l.event.elapsedTicks.toNat).Pairwise (· ≤ ·) := by
  refine List.pairwise_map.mpr ?_
  refine (List.pairwise_mergeSort (fun a b c => ?_) (fun a b => ?_) ls).imp ?_
  · simp only [decide_eq_true_eq]
    exact Nat.le_trans
  · simp only [Bool.or_eq_true, decide_eq_true_eq]
    exact Nat.le_total _ _
  · intro a b h
    exact of_decide_eq_true h

/-- **The review of every log of a run.**  Whatever the callbacks and the
    drains did, and wherever the event lines stand among the lines of the log:
    the reviewer's checks of the order say exactly whether the recorded events,
    by their ticks, are whole applications and received messages that were
    stored at once, and what it reports is what those events are. -/
theorem timeline_reviewed {P D : Type} [DecidableEq P] [DecidableEq D] (call : P → Call)
    (h : List (Effect P D)) (t : State P D)
    (hrun : Runs.Run (Step call) (State.start P D) h t) (lines : List Str)
    (hlines : lines.filter (startsWith · OwnerReview.eventPrefix)
      = (linesOf h).map fun l => "# ".toList ++ l.text) :
    ∃ ls rows app review, ls.Perm (linesOf h)
      ∧ (ls.map fun l => l.event.elapsedTicks.toNat).Pairwise (· ≤ ·)
      ∧ rows? "application_event".toList lines = some rows ∧ rows = (linesOf h).map lineFields
      ∧ byTicks? rows = some app ∧ app = ls.map lineFields
      ∧ timeline? app = some review ∧ Reviewed ls review := by
  have hperm : (sortedLines (linesOf h)).Perm (linesOf h) := List.mergeSort_perm _ _
  have hkind : ∀ l ∈ sortedLines (linesOf h), l.event.kind.toNat < 8 := by
    intro l hl
    obtain ⟨p, -, -, -, -, -, -, hkind, -⟩ := line_source hrun (hperm.mem_iff.mp hl)
    have hlt := (call p).kind.isLt
    rw [hkind, UInt8.toNat_ofNat_of_lt' (Nat.lt_trans hlt (by decide))]
    exact hlt
  have hunique : ((sortedLines (linesOf h)).map EventLine.sequence).Nodup :=
    (hperm.map EventLine.sequence).nodup_iff.mpr (sequences_nodup hrun)
  obtain ⟨review, htimeline, hreviewed⟩ :=
    timeline_lines hkind hunique (sortedLines_sorted (linesOf h))
  exact ⟨_, _, _, review, hperm, sortedLines_sorted _, rows?_lines hlines, rfl,
    byTicks?_lines _, sortedRows_eq _, (congrArg timeline? (sortedRows_eq _)).trans htimeline,
    hreviewed⟩

/-- The log of two interleaved callbacks. -/
theorem timeline_reviewed_two_lines : ∃ h t,
    Runs.Run (Step localCall) (State.start Bool Unit) h t ∧ (linesOf h).length = 2
      ∧ ∃ ls rows app review, ls.Perm (linesOf h)
        ∧ (ls.map fun l => l.event.elapsedTicks.toNat).Pairwise (· ≤ ·)
        ∧ rows? "application_event".toList ((linesOf h).map fun l => "# ".toList ++ l.text)
          = some rows ∧ rows = (linesOf h).map lineFields
        ∧ byTicks? rows = some app ∧ app = ls.map lineFields
        ∧ timeline? app = some review ∧ Reviewed ls review := by
  have hexec : (Runs.exec (advance localCall) (State.start Bool Unit) twoLines).any
      (fun x => decide ((linesOf x.1).length = 2)) = true := by decide +kernel
  obtain ⟨h, t, hrun, hlines⟩ := Runs.run_of_exec_any
    (p := fun h (_ : State Bool Unit) => (linesOf h).length = 2) hexec
  refine ⟨h, t, hrun, hlines, timeline_reviewed localCall h t hrun _ ?_⟩
  refine List.filter_eq_self.mpr fun line hline => ?_
  obtain ⟨l, -, rfl⟩ := List.mem_map.mp hline
  have htext : "# ".toList ++ l.text
      = OwnerReview.eventPrefix ++ (fieldsText (l.event.fields l.sequence)).tail := rfl
  rw [htext, startsWith, literal?_append]
  rfl

end RuleReview

end TeamAttack
