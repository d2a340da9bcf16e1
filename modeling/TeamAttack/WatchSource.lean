import TeamAttack.InstallFailure
import TeamAttack.Library.A64Memory
import TeamAttack.PcRelative

/-! # What the reviewed source computes (`watch.rs`)

    `validate_source` compares seven words of the serializer and lets the
    others be.  A machine that executes the serializer's words from `0x1c` to
    `0x74` then has the guard's address in `x20`, and has copied the watched
    global to the one captured place of the output, as long as the words that
    nobody compared fall through and spare the registers in use. -/

namespace TeamAttack.WatchSource

open RustSlice LittleEndian CheckedWord ExceptRules BitFields ByteMemory A64 Watch Install

/-- The words `validate_source` compares, counted from `0x1c`. -/
def reviewed : List Nat := [0, 1, 5, 6, 16, 19, 22]

/-- The registers in use ahead of a word. -/
def InUse (r : Fin 31) (k : Nat) : Prop :=
  (r = 20 ∧ 2 ≤ k) ∨ (r = 8 ∧ 7 ≤ k ∧ k < 19) ∨ (r = 10 ∧ 17 ≤ k)

/-- The words from `0x1c` to `0x74` executed in order, in a module at
    `origin`. -/
structure Executed (other : Nat → Machine → Machine → Prop) (text : List UInt8)
    (base origin : UInt64) (states : Nat → Machine) : Prop where
  starts : (states 0).pc = (origin + (base + 0x1c)).toBitVec
  steps : ∀ k < 23, ∃ w, sourceWord text base.toNat (0x1c + 4 * k) = .ok w
    ∧ Step (accessStep other) w.toNat (states k) (states (k + 1))
  quiet : ∀ k < 23, k ∉ reviewed → (states (k + 1)).pc = (states k).pc + 4
    ∧ ∀ r, InUse r k → (states (k + 1)).x r = (states k).x r

variable {other : Nat → Machine → Machine → Prop} {config : Config} {text : List UInt8}
  {base origin : UInt64} {states : Nat → Machine}

theorem Executed.step (h : Executed other text base origin states) {k : Nat} (hk : k < 23)
    {w : UInt32} (hw : sourceWord text base.toNat (0x1c + 4 * k) = .ok w) :
    Step (accessStep other) w.toNat (states k) (states (k + 1)) := by
  obtain ⟨w', hw', hstep⟩ := h.steps k hk
  obtain rfl := Except.ok.inj (hw'.symm.trans hw)
  exact hstep

/-! ## The words -/

/-- What `validate_source` found. -/
structure Accepted (config : Config) (text : List UInt8) : Prop where
  serializer : config.serializerTextOffset = 0x16e2c50
  captures : config.captureOffsets = [0x11]
  guardPage : ∃ w, sourceWord text 0x16e2c50 0x1c = .ok w
    ∧ adrpPage (0x16e2c50 + 0x1c) w 20 = some 0x5314000
  guardLow : sourceWord text 0x16e2c50 0x20 = .ok 0x91136294
  globalPage : ∃ w, sourceWord text 0x16e2c50 0x30 = .ok w
    ∧ adrpPage (0x16e2c50 + 0x30) w 8 = some 0x5308000
  globalLow : sourceWord text 0x16e2c50 0x34 = .ok 0x911da108
  index : sourceWord text 0x16e2c50 0x5c = .ok 0x5284428a
  load : sourceWord text 0x16e2c50 0x68 = .ok 0xf86a690a
  store : sourceWord text 0x16e2c50 0x74 = .ok 0xf800c26a

theorem requireSource_ok {ok : Bool} {u : Unit} : requireSource ok = .ok u ↔ ok = true :=
  require_eq_ok

theorem validateSource_ok (h : validateSource config text = .ok ()) : Accepted config text := by
  simp only [validateSource, refuse, check_eq_ok, bind_eq_ok, requireSource_ok,
    decide_eq_true_eq] at h
  obtain ⟨hprofile, w30, h30, -, hpage, w34, h34, -, rfl, w5c, h5c, -, rfl, w68, h68, -, rfl,
    w74, h74, -, rfl, w1c, h1c, -, hguard, w20, h20, rfl⟩ := h
  rw [Bool.or_eq_true, decide_eq_true_eq, decide_eq_true_eq, not_or, not_not, not_not] at hprofile
  obtain ⟨hoffset, hcaptures⟩ := hprofile
  rw [hoffset] at h30 h34 h5c h68 h74 h1c h20 hpage hguard
  exact ⟨hoffset, hcaptures, ⟨w1c, h1c, hguard⟩, h20, ⟨w30, h30, hpage⟩, h34, h5c, h68, h74⟩

/-- A sum of addresses as an integer. -/
theorem toBitVec_add (a b : UInt64) :
    (a + b).toBitVec = BitVec.ofInt 64 (a.toNat + b.toNat : Nat) := by
  rw [BitVec.ofInt_natCast, BitVec.ofNat_add]
  apply BitVec.eq_of_toNat_eq
  simp

/-- An accepted `ADRP` loads its page of the module. -/
theorem adrp_step (rd : Fin 31) {offset p : UInt64} {w r : UInt32} {s s' : Machine}
    (horigin : origin.toNat % 4096 = 0) (hoffset : offset.toNat < 2 ^ 62)
    (hr : r.toNat = rd.val) (haccept : adrpPage offset w r = some p)
    (hpc : s.pc = (origin + offset).toBitVec) (hstep : Step (accessStep other) w.toNat s s') :
    s' = (s.write rd.castSucc (origin + p).toBitVec).next := by
  have hreg : r.toNat < 32 := by
    have := rd.isLt
    omega
  obtain ⟨⟨hwide, hclass, hfield⟩, htarget⟩ := (adrpPage_eq_some hoffset hreg).mp haccept
  have hdecode := decode_adrp hclass (decide_eq_true hwide)
  have hrd : register w.toNat 0 = rd.castSucc := Fin.ext (hfield.trans hr)
  have hpage : page s.pc + BitVec.ofInt 64 (addressImmediate w.toNat * 4096)
      = (origin + p).toBitVec := by
    rw [hpc, toBitVec_add, toBitVec_add, page_ofInt, ← BitVec.ofInt_add]
    congr 1
    have himm : addressImmediate w.toNat = adrpImmediate w := rfl
    omega
  rw [(step_of_decode hdecode).mp hstep, hrd, Instr.exec, hpage]

/-! ## The run -/

/-- What the compared words do. -/
structure Effects (origin : UInt64) (states : Nat → Machine) : Prop where
  guardPage : states 1 = ((states 0).write 20 (origin + 0x5314000).toBitVec).next
  guardLow : states 2 = (Instr.addImmediate true 20 20 0x4d8).exec (states 1)
  globalPage : states 6 = ((states 5).write 8 (origin + 0x5308000).toBitVec).next
  globalLow : states 7 = (Instr.addImmediate true 8 8 0x768).exec (states 6)
  index : states 17 = (Instr.movz false 10 0x2214 0).exec (states 16)
  load : states 20 = (Access.ldrRegister 10 8 10 0).exec (states 19)
  store : states 23 = (Access.stur 10 19 0xc).exec (states 22)

theorem Executed.effects (h : Executed other text 0x16e2c50 origin states)
    (horigin : origin.toNat % 4096 = 0) (haccept : Accepted config text) :
    Effects origin states := by
  obtain ⟨w1c, h1c, hguard⟩ := haccept.guardPage
  obtain ⟨w30, h30, hglobal⟩ := haccept.globalPage
  have hfirst : states 1 = ((states 0).write 20 (origin + 0x5314000).toBitVec).next :=
    adrp_step 20 horigin (by decide) rfl hguard h.starts (h.step (by decide) h1c)
  have hsecond : states 2 = (Instr.addImmediate true 20 20 0x4d8).exec (states 1) :=
    (step_of_decode (by decide)).mp (h.step (by decide) haccept.guardLow)
  -- the words on the way to the second `ADRP` fall through
  have hpc : (states 5).pc = (origin + (0x16e2c50 + 0x30)).toBitVec := by
    have hnext : ∀ k < 5, (states (k + 1)).pc = (states k).pc + 4 := by
      intro k hk
      by_cases hmem : k ∈ reviewed
      · have hsmall : k = 0 ∨ k = 1 := by
          simp only [reviewed, List.mem_cons, List.not_mem_nil, or_false] at hmem
          omega
        rcases hsmall with rfl | rfl
        · rw [hfirst]
          rfl
        · rw [hsecond, pc_exec]
      · exact (h.quiet k (by omega) hmem).1
    rw [pc_along hnext, h.starts]
    show (origin + (0x16e2c50 + 0x1c) + 20).toBitVec = _
    rw [UInt64.add_assoc]
    rfl
  refine ⟨hfirst, hsecond, ?_, ?_, ?_, ?_, ?_⟩
  · exact adrp_step 8 horigin (by decide) rfl hglobal hpc (h.step (by decide) h30)
  · exact (step_of_decode (by decide)).mp (h.step (by decide) haccept.globalLow)
  · exact (step_of_decode (by decide)).mp (h.step (by decide) haccept.index)
  · exact (step_of_access (by decide) (by decide)).mp (h.step (by decide) haccept.load)
  · exact (step_of_access (by decide) (by decide)).mp (h.step (by decide) haccept.store)

/-- The register that a compared word writes, and no other. -/
def written : Nat → Fin 31
  | 0 | 1 => 20
  | 5 | 6 => 8
  | _ => 10

theorem Effects.spares (he : Effects origin states) {k : Nat} (hk : k ∈ reviewed) {r : Fin 31}
    (hr : r ≠ written k) : (states (k + 1)).x r = (states k).x r := by
  have hne : ∀ r' : Fin 31, r ≠ r' → r.val ≠ r'.castSucc.val := fun r' h heq => h (Fin.ext heq)
  simp only [reviewed, List.mem_cons, List.not_mem_nil, or_false] at hk
  rcases hk with rfl | rfl | rfl | rfl | rfl | rfl | rfl
  · rw [he.guardPage, x_next]
    exact x_write_other (hne 20 hr)
  · rw [he.guardLow, Instr.exec, x_next]
    exact x_writeStack_other (hne 20 hr)
  · rw [he.globalPage, x_next]
    exact x_write_other (hne 8 hr)
  · rw [he.globalLow, Instr.exec, x_next]
    exact x_writeStack_other (hne 8 hr)
  · rw [he.index, Instr.exec, x_next]
    exact x_write_other (hne 10 hr)
  · rw [he.load, Access.exec, x_next]
    exact x_write_other (hne 10 hr)
  · rw [he.store]
    rfl

/-- Of the compared words only the store writes memory. -/
theorem Effects.memory (he : Effects origin states) {k : Nat} (hk : k ∈ reviewed)
    (hstore : k ≠ 22) : (states (k + 1)).rest = (states k).rest := by
  simp only [reviewed, List.mem_cons, List.not_mem_nil, or_false] at hk
  rcases hk with rfl | rfl | rfl | rfl | rfl | rfl | rfl
  · rw [he.guardPage]
    rfl
  · rw [he.guardLow]
    rfl
  · rw [he.globalPage]
    rfl
  · rw [he.globalLow]
    rfl
  · rw [he.index]
    rfl
  · rw [he.load]
    rfl
  · exact absurd rfl hstore

/-- A register in use keeps its value until a compared word writes it. -/
theorem Executed.kept (h : Executed other text base origin states) (he : Effects origin states)
    {r : Fin 31} {a b : Nat} (hab : a ≤ b) (hb : b ≤ 23)
    (huse : ∀ k, a ≤ k → k < b → InUse r k)
    (hwritten : ∀ k ∈ reviewed, a ≤ k → k < b → r ≠ written k) :
    (states b).x r = (states a).x r := by
  refine kept_along hab fun k hk hkb => ?_
  by_cases hmem : k ∈ reviewed
  · exact he.spares hmem (hwritten k hmem hk hkb)
  · exact (h.quiet k (by omega) hmem).2 r (huse k hk hkb)

theorem Executed.guard (h : Executed other text base origin states)
    (he : Effects origin states) : (states 23).x 20 = (origin + guardOffset).toBitVec := by
  have hkept : (states 23).x 20 = (states 2).x 20 := by
    refine h.kept he (by decide) (by decide) (fun k hk _ => Or.inl ⟨rfl, hk⟩) ?_
    decide
  have hlow : (states 2).x 20 = (states 1).x 20 + 0x4d8 := by
    rw [he.guardLow, Instr.exec, x_next]
    exact x_writeStack_self (states 1) 20 _
  have hhigh : (states 1).x 20 = (origin + 0x5314000).toBitVec := by
    rw [he.guardPage, x_next]
    exact x_write_self (states 0) 20 _
  rw [hkept, hlow, hhigh]
  show (origin + 0x5314000 + 0x4d8).toBitVec = _
  rw [UInt64.add_assoc]
  rfl

/-- The address of the load. -/
theorem Executed.address (h : Executed other text base origin states)
    (he : Effects origin states) :
    (states 19).x 8 + (states 19).x 10 = (origin + 0x530a97c).toBitVec := by
  have hkept : (states 19).x 8 = (states 7).x 8 := by
    refine h.kept he (by decide) (by decide) (fun k hk hkb => Or.inr (Or.inl ⟨rfl, hk, hkb⟩)) ?_
    decide
  have hindex : (states 19).x 10 = (states 17).x 10 := by
    refine h.kept he (by decide) (by decide) (fun k hk _ => Or.inr (Or.inr ⟨rfl, hk⟩)) ?_
    decide
  have hlow : (states 7).x 8 = (states 6).x 8 + 0x768 := by
    rw [he.globalLow, Instr.exec, x_next]
    exact x_writeStack_self (states 6) 8 _
  have hhigh : (states 6).x 8 = (origin + 0x5308000).toBitVec := by
    rw [he.globalPage, x_next]
    exact x_write_self (states 5) 8 _
  have hmove : (states 17).x 10 = 0x2214 := by
    rw [he.index, Instr.exec, x_next]
    exact x_write_self (states 16) 10 _
  rw [hkept, hindex, hlow, hhigh, hmove]
  show (origin + 0x5308000 + 0x768 + 0x2214).toBitVec = _
  rw [UInt64.add_assoc, UInt64.add_assoc]
  rfl

/-- The doubleword on its way from the global to the output. -/
theorem Executed.copied (h : Executed other text base origin states)
    (he : Effects origin states) :
    (states 23).rest = writePointer (states 22).rest ⟨(states 22).x 19 + 0xc⟩
      (pointer (states 19).rest (origin + 0x530a97c)) := by
  have hkept : (states 22).x 10 = (states 20).x 10 := by
    refine h.kept he (by decide) (by decide)
      (fun k hk _ => Or.inr (Or.inr ⟨rfl, by omega⟩)) ?_
    decide
  have hload : (states 20).x 10
      = (pointer (states 19).rest ⟨(states 19).x 8 + (states 19).x 10⟩).toBitVec := by
    have hshift : (states 19).x 10 <<< 0 = (states 19).x 10 := BitVec.shiftLeft_zero _
    rw [he.load, Access.exec, x_next, ← hshift]
    exact x_write_self (states 19) 10 _
  rw [h.address he] at hload
  rw [he.store]
  show writePointer (states 22).rest ⟨(states 22).x 19 + 0xc⟩ ⟨(states 22).x 10⟩ = _
  rw [hkept, hload]

theorem checkedAdd_val {a b c : UInt64} (h : checkedAdd a b = some c) : c = a + b := by
  have hval := checkedAdd_eq_some.mp h
  have hlt := c.toNat_lt
  rw [← UInt64.toNat_inj, UInt64.toNat_add, hval, Nat.mod_eq_of_lt (by omega)]

/-- **The watched address is the captured byte's source.**  Under every text
    the watcher accepts, the executed words leave the address of the polled
    guard in `x20` and copy the polled global to the captured place of the
    output.  Of the compared words only the store writes memory, and it writes
    the doubleword around that place. -/
theorem source_reads_watched {env : Env} {global guard : UInt64}
    (haccept : checkWatchSource env config text = .ok ())
    (haddresses : watchAddresses env = .ok (global, guard))
    (hrun : Executed other text config.serializerTextOffset env.textAddress states) :
    (states 23).x 20 = guard.toBitVec
      ∧ ∃ output : UInt64, output.toBitVec = (states 22).x 19
        ∧ config.captureOffsets = [0x11]
        ∧ (∀ o ∈ config.captureOffsets,
          (states 23).rest (output + o.toUInt64) = (states 19).rest global)
        ∧ (∀ a ∉ span (output + 0xc) 8, (states 23).rest a = (states 22).rest a)
        ∧ ∀ k ∈ reviewed, k ≠ 22 → (states (k + 1)).rest = (states k).rest := by
  simp only [checkWatchSource, refuse, check_eq_ok, not_not] at haccept
  obtain ⟨hpage, hsource⟩ := haccept
  simp only [watchAddresses, bind_eq_ok, okOr_eq_ok, pure_eq_ok, Prod.mk.injEq] at haddresses
  obtain ⟨global, hglobal, guard, hguard, rfl, rfl⟩ := haddresses
  have haccepted := validateSource_ok hsource
  rw [haccepted.serializer] at hrun
  have hdivides : env.textAddress.toNat % 4096 = 0 := congrArg UInt64.toNat hpage
  have he := hrun.effects hdivides haccepted
  have hplace : global = env.textAddress + 0x530a97c + 5 := by
    rw [checkedAdd_val hglobal, UInt64.add_assoc]
    rfl
  refine ⟨?_, ⟨(states 22).x 19⟩, rfl, haccepted.captures, ?_, ?_, fun k => he.memory⟩
  · rw [hrun.guard he, checkedAdd_val hguard]
  · -- the captured place is five bytes into the doubleword
    intro o ho
    rw [haccepted.captures, List.mem_singleton] at ho
    have hcopy := writePointer_pointer (states 19).rest (states 22).rest
      (env.textAddress + 0x530a97c) ⟨(states 22).x 19 + 0xc⟩ (k := 5) (by decide)
    have hbyte : (⟨(states 22).x 19⟩ + o.toUInt64 : UInt64)
        = ⟨(states 22).x 19 + 0xc⟩ + UInt64.ofNat 5 := by
      rw [ho]
      show _ = ⟨(states 22).x 19⟩ + 0xc + UInt64.ofNat 5
      rw [UInt64.add_assoc]
      rfl
    rw [hrun.copied he, hbyte, hcopy, hplace]
    rfl
  · intro a ha
    rw [hrun.copied he]
    exact writePointer_agree (l := [a]) (states 22).rest _
      (List.singleton_disjoint.mpr ha) a (List.mem_singleton_self a)

/-! ## The scene's serializer -/

/-- The words of the scene, counted from `0x1c`. -/
def sceneCode (k : Nat) : UInt32 :=
  of32 ((List.range 4).map fun i => ofCells sceneCells (UInt64.ofNat (0x16e2c6c + 4 * k + i)))

/-- The scene executed, the words that are not compared doing nothing. -/
def sceneRun (s : Machine) : Nat → Machine
  | 0 => s
  | k + 1 => execWord (sceneCode k).toNat (sceneRun s k)

theorem scene_code {k : Nat} (hk : k < 23) :
    sourceWord sceneText sceneConfig.serializerTextOffset.toNat (0x1c + 4 * k)
      = .ok (sceneCode k) := by
  refine scene_word _ _ (by unfold sceneLength; omega) ?_
  rw [sceneCode, le32_of32 (by simp)]
  refine List.map_congr_left fun i _ => ?_
  rw [show 0x16e2c50 + (0x1c + 4 * k) + i = 0x16e2c6c + 4 * k + i by omega]

theorem scene_quiet : ∀ k < 23, k ∉ reviewed → sceneCode k = 0 := by
  decide

theorem scene_executed (s : Machine) (hs : s.pc = (sceneBase + (0x16e2c50 + 0x1c)).toBitVec) :
    Executed (fun _ s s' => s' = s.next) sceneText sceneConfig.serializerTextOffset
      sceneEnv.textAddress (sceneRun s) where
  starts := hs
  steps := fun k hk => ⟨sceneCode k, scene_code hk, step_execWord _ _⟩
  quiet := by
    intro k hk hquiet
    have hnext : sceneRun s (k + 1) = (sceneRun s k).next := by
      rw [sceneRun, scene_quiet k hk hquiet]
      rfl
    rw [hnext]
    exact ⟨rfl, fun r _ => rfl⟩

/-- A machine on its way into the code, with an output behind the module. -/
def sceneStart : Machine where
  x := fun r => if r = 19 then 0xf000000 else 0
  sp := 0
  pc := (sceneBase + (0x16e2c50 + 0x1c)).toBitVec
  rest := ofCells [(sceneBase + globalOffset, 1)]

/-- The scene's code on that machine. -/
theorem source_reads_watched_scene :
    (sceneRun sceneStart 23).x 20 = (sceneBase + guardOffset).toBitVec
      ∧ ∃ output : UInt64, output.toBitVec = (sceneRun sceneStart 22).x 19
        ∧ sceneConfig.captureOffsets = [0x11]
        ∧ (∀ o ∈ sceneConfig.captureOffsets, (sceneRun sceneStart 23).rest (output + o.toUInt64)
          = (sceneRun sceneStart 19).rest (sceneBase + globalOffset))
        ∧ (∀ a ∉ span (output + 0xc) 8,
          (sceneRun sceneStart 23).rest a = (sceneRun sceneStart 22).rest a)
        ∧ ∀ k ∈ reviewed, k ≠ 22 →
          (sceneRun sceneStart (k + 1)).rest = (sceneRun sceneStart k).rest :=
  source_reads_watched scene_source (by decide) (scene_executed sceneStart rfl)

end TeamAttack.WatchSource
