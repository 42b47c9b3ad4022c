import RTLKIM.Proofs.Pic

/-!
# The kernel hands each line to its owner

The interrupt manager on the controllers does what `IrqSpec` says. One lemma for the table, the calls
one by one, and what comes of an interrupt; then a step, and with it a run.
-/

namespace RTLKIM

variable {η : Type*}

/-! ## The table -/

/-- The table holds the owners, and a line is enabled when it has one. -/
structure TableRefine (handlers : Fin 256 → CustomHandler η) (owner : ℕ → Option η) : Prop where
  handler : ∀ i, (handlers i).handler = owner i
  enabled : ∀ i, (handlers i).enabled = if (handlers i).handler.isSome then 1 else 0
  beyond : ∀ i, 256 ≤ i → owner i = none

theorem TableRefine.update {handlers : Fin 256 → CustomHandler η} {owner : ℕ → Option η}
    (h : TableRefine handlers owner) (i : Fin 256) (x : Option η) :
    TableRefine (Function.update handlers i ⟨if x.isSome then 1 else 0, x⟩)
      (Function.update owner i x) := by
  refine ⟨fun j => ?_, fun j => ?_, fun j hj => ?_⟩
  · by_cases hij : j = i
    · rw [hij, Function.update_self, Function.update_self]
    · rw [Function.update_of_ne hij, Function.update_of_ne fun h => hij (Fin.ext h)]
      exact h.handler j
  · by_cases hij : j = i
    · rw [hij, Function.update_self]
    · rw [Function.update_of_ne hij]
      exact h.enabled j
  · rw [Function.update_of_ne (by have := i.2; omega)]
    exact h.beyond j hj

/-- The interrupt manager and its hardware, for the lines and their owners. -/
structure IntRefine (s : Interrupts η Pics) (a : IrqSpec η) : Prop where
  table : TableRefine s.handlers a.owner
  driver : s.driver = picDriver
  pics : PicsRefine s.hw a.enabled a.raised a.serving
  spurious : s.spuriousInterrupt = a.spurious

/-- A call returns what it should, and leaves what it should. -/
def IntAgree (r : Interrupts η Pics × IntErr) (b : IrqSpec η × IntErr) : Prop :=
  r.2 = b.2 ∧ IntRefine r.1 b.1

namespace IntRefine

variable {s : Interrupts η Pics} {a : IrqSpec η}

theorem registerHandler (h : IntRefine s a) (x : Option η) (i : Fin 256) :
    IntAgree (s.registerHandler i x) (a.register i x) := by
  cases x with
  | none => exact ⟨rfl, h⟩
  | some f =>
    unfold Interrupts.registerHandler IrqSpec.register
    dsimp only
    rw [h.table.handler i]
    by_cases hsome : (a.owner i).isSome = true
    · rw [if_pos hsome, if_pos hsome]
      exact ⟨rfl, h⟩
    · rw [if_neg hsome, if_neg hsome]
      exact ⟨rfl, { h with table := h.table.update i (some f) }⟩

theorem removeHandler (h : IntRefine s a) (i : Fin 256) :
    IntAgree (s.removeHandler i) (a.remove i) := by
  unfold Interrupts.removeHandler IrqSpec.remove
  rw [h.table.handler i]
  by_cases hnone : (a.owner i).isNone = true
  · rw [if_pos hnone, if_pos hnone]
    exact ⟨rfl, h⟩
  · rw [if_neg hnone, if_neg hnone]
    exact ⟨rfl, { h with table := h.table.update i none }⟩

/-- What the table selects is the owner. -/
theorem selectHandler (h : IntRefine s a) (panic : η) (intId : UInt32) :
    s.selectHandler panic intId = (a.owner intId.toNat).getD panic := by
  unfold Interrupts.selectHandler
  by_cases hlt : intId.toNat < 256
  · rw [dif_pos hlt, h.table.enabled, h.table.handler]
    cases a.owner intId.toNat <;> rfl
  · rw [dif_neg hlt, h.table.beyond _ (Nat.le_of_not_lt hlt)]
    rfl

end IntRefine

/-! ## The lines of the calls -/

theorem interruptLine_iff {line : UInt32} :
    ¬(line < minInterruptLine ∨ maxInterruptLine < line) ↔ 0x20 ≤ line.toNat ∧ line.toNat < 256 := by
  rw [not_or, UInt32.not_lt, UInt32.not_lt, UInt32.le_iff_toNat_le, UInt32.le_iff_toNat_le]
  exact and_congr Iff.rfl Nat.lt_succ_iff.symm

theorem toInt32_nonneg {x : UInt32} (h : x.toNat < 0x80000000) : ¬x.toInt32 < 0 := by
  have hint : x.toInt32.toInt = x.toNat :=
    BitVec.toInt_eq_toNat_of_lt (x := x.toBitVec) (by change 2 * x.toNat < 0x100000000; omega)
  rw [Int32.lt_iff_toInt_lt, hint]
  exact Int.not_lt.2 (Int.natCast_nonneg _)

theorem exceptionLine_iff {line : UInt32} :
    ¬(line.toInt32 < 0 ∨ maxExceptionLine < line) ↔ line.toNat < 0x20 := by
  rw [not_or, UInt32.not_lt, UInt32.le_iff_toNat_le]
  exact ⟨fun h => Nat.lt_succ_of_le h.2,
    fun h => ⟨toInt32_nonneg (Nat.lt_trans h (by decide)), Nat.le_of_lt_succ h⟩⟩

/-- The interrupt line of a line of the controllers. -/
theorem picGetIrqIntLine_eq {n : UInt32} (h : n.toNat < 16) : ¬Pics.picGetIrqIntLine n < 0
    ∧ (Pics.picGetIrqIntLine n).toUInt32.toNat = 0x30 + n.toNat := by
  unfold Pics.picGetIrqIntLine
  have hadd : (n + intPicIrqOffset).toNat = 0x30 + n.toNat := by
    rw [UInt32.toNat_add, Nat.add_comm]
    exact Nat.mod_eq_of_lt (show 0x30 + n.toNat < 2 ^ 32 by omega)
  rw [if_neg (Pics.line_lt.2 h), UInt32.toUInt32_toInt32, hadd]
  exact ⟨toInt32_nonneg (by omega), rfl⟩

theorem lt_of_not_line {n : UInt32} (h : ¬n.toNat < 16) : picMaxIrqLine < n :=
  not_not.1 fun hlt => h (Pics.line_lt.1 hlt)

theorem picGetIrqIntLine_iff {n : UInt32} : ¬Pics.picGetIrqIntLine n < 0 ↔ n.toNat < 16 := by
  refine ⟨fun hpos => not_not.1 fun hn => hpos ?_, fun hn => (picGetIrqIntLine_eq hn).1⟩
  unfold Pics.picGetIrqIntLine
  rw [if_pos (lt_of_not_line hn)]
  decide

/-! ## The calls -/

namespace IntRefine

variable {s : Interrupts η Pics} {a : IrqSpec η}

/-- A call that looks at its line first, where the two checks are the same. -/
theorem checkLine (h : IntRefine s a) {bad good : Prop} [Decidable bad] [Decidable good]
    (hline : ¬bad ↔ good) (err : IntErr) {call : ¬bad → Interrupts η Pics × IntErr}
    {b : IrqSpec η × IntErr} (hcall : ∀ hgood : ¬bad, IntAgree (call hgood) b) :
    IntAgree (if hbad : bad then (s, err) else call hbad) (if good then b else (a, err)) := by
  by_cases hbad : bad
  · rw [dif_pos hbad, if_neg fun hgood => hline.2 hgood hbad]
    exact ⟨rfl, h⟩
  · rw [dif_neg hbad, if_pos (hline.1 hbad)]
    exact hcall hbad

variable {act : Fin 256 → Interrupts η Pics × IntErr} {b : ℕ → IrqSpec η × IntErr}

theorem interruptLine (h : IntRefine s a) (hact : ∀ i : Fin 256, IntAgree (act i) (b i))
    (line : UInt32) :
    IntAgree (if hline : line < minInterruptLine ∨ maxInterruptLine < line then
        (s, .unauthorizedInterruptLine)
      else act ⟨line.toNat, Interrupts.interruptLine_lt hline⟩)
      (if 0x20 ≤ line.toNat ∧ line.toNat < 256 then b line.toNat
      else (a, .unauthorizedInterruptLine)) :=
  h.checkLine interruptLine_iff _ fun _ => hact _

theorem exceptionLine (h : IntRefine s a) (hact : ∀ i : Fin 256, IntAgree (act i) (b i))
    (line : UInt32) :
    IntAgree (if hline : line.toInt32 < 0 ∨ maxExceptionLine < line then
        (s, .unauthorizedInterruptLine)
      else act ⟨line.toNat, Interrupts.exceptionLine_lt hline⟩)
      (if line.toNat < 0x20 then b line.toNat else (a, .unauthorizedInterruptLine)) :=
  h.checkLine exceptionLine_iff _ fun _ => hact _

/-- The line of an IRQ is one of the interrupts', so the check of these lets it through. -/
theorem irqLine (h : IntRefine s a) (hact : ∀ i : Fin 256, IntAgree (act i) (b i)) (n : UInt32) :
    IntAgree (if s.driver.getIrqIntLine n < 0 then (s, .noSuchIrqLine)
      else if hline : (s.driver.getIrqIntLine n).toUInt32 < minInterruptLine
          ∨ maxInterruptLine < (s.driver.getIrqIntLine n).toUInt32 then (s, .unauthorizedInterruptLine)
        else act ⟨_, Interrupts.interruptLine_lt hline⟩)
      (if n.toNat < 16 then b (0x30 + n.toNat) else (a, .noSuchIrqLine)) := by
  have hdriver : s.driver.getIrqIntLine n = Pics.picGetIrqIntLine n := by
    rw [h.driver]
    rfl
  refine h.checkLine (by rw [hdriver, picGetIrqIntLine_iff]) _ fun hpos => ?_
  have hn : n.toNat < 16 := picGetIrqIntLine_iff.1 (hdriver ▸ hpos)
  have hint := h.interruptLine hact (s.driver.getIrqIntLine n).toUInt32
  have hline : (s.driver.getIrqIntLine n).toUInt32.toNat = 0x30 + n.toNat :=
    hdriver ▸ (picGetIrqIntLine_eq hn).2
  rw [if_pos (by omega)] at hint
  rw [← hline]
  exact hint

theorem setIrqMask (h : IntRefine s a) {n : UInt32} (h2 : n ≠ 2) (on : UInt32) :
    IntAgree (s.kernelInterruptSetIrqMask n on) (a.run (.setIrqMask n on)) := by
  unfold Interrupts.kernelInterruptSetIrqMask
  rw [IrqSpec.run, h.driver]
  change (Pics.picSetIrqMask n on s.hw).2 = _ ∧ _
  by_cases hn : n.toNat < 16
  · obtain ⟨herr, hpics⟩ := h.pics.setIrqMask hn (fun h => h2 (UInt32.toNat_inj.1 h)) on
    rw [if_pos hn]
    exact ⟨herr, { h with driver := rfl, pics := hpics }⟩
  · have hmask : Pics.picSetIrqMask n on s.hw = (s.hw, .noSuchIrqLine) := if_pos (lt_of_not_line hn)
    rw [hmask, if_neg hn]
    refine ⟨rfl, { h with driver := rfl, pics := ?_ }⟩
    change PicsRefine (Pics.picSetIrqMask n on s.hw).1 _ _ _
    rw [hmask]
    exact h.pics

theorem setIrqEoi (h : IntRefine s a) {n : UInt32} (hn : a.serving = some n.toNat) :
    IntAgree (s.kernelInterruptSetIrqEoi n) (a.run (.setIrqEoi n)) := by
  have hpics := h.pics
  rw [hn] at hpics
  obtain ⟨herr, hdone⟩ := hpics.setIrqEoi
  unfold Interrupts.kernelInterruptSetIrqEoi
  rw [IrqSpec.run, h.driver, if_pos (hpics.line _ rfl).1]
  exact ⟨herr, { h with driver := rfl, pics := hdone }⟩

theorem run (h : IntRefine s a) {d : ℕ} {b : Bool} {l : List (IrqOut η)} {c : IntCall η}
    (hok : (IrqSystem.mk s a.serving d b l).ok (.call c)) : IntAgree (c.run s) (a.run c) := by
  cases c with
  | registerInt line x => exact h.interruptLine (b := (a.register · x)) (h.registerHandler x) line
  | removeInt line => exact h.interruptLine h.removeHandler line
  | registerException line x => exact h.exceptionLine (b := (a.register · x)) (h.registerHandler x) line
  | removeException line => exact h.exceptionLine h.removeHandler line
  | registerIrq n x => exact h.irqLine (b := (a.register · x)) (h.registerHandler x) n
  | removeIrq n => exact h.irqLine h.removeHandler n
  | setIrqMask n on => exact h.setIrqMask hok on
  | setIrqEoi n => exact h.setIrqEoi hok

/-- An interrupt that is looked at and is not spurious comes to the owner of its line. -/
theorem call (h : IntRefine s a) (panic : η) {eflags line : UInt32}
    (hgo : ¬(eflags &&& cpuEflagsIf = 0 ∧ line ≠ panicIntLine ∧ line ≠ schedulerSwIntLine
      ∧ minInterruptLine ≤ line)) {p : Pics} (hline : Pics.picHandleSpuriousIrq line s.hw = (p, .regular))
    (hp : PicsRefine p a.enabled a.raised a.serving) :
    ∃ s', s.kernelInterruptHandler panic eflags line
        = (s', .call (if line.toNat = 0x2A then panic else (a.owner line.toNat).getD panic))
      ∧ IntRefine s' a := by
  unfold Interrupts.kernelInterruptHandler
  rw [if_neg hgo]
  by_cases hpanic : line = panicIntLine
  · have hnat : line.toNat = 0x2A := congrArg UInt32.toNat hpanic
    rw [if_pos hpanic, if_pos hnat]
    exact ⟨s, rfl, h⟩
  · have hnat : line.toNat ≠ 0x2A := fun hn => hpanic (UInt32.toNat_inj.1 hn)
    have hdriver : s.driver.handleSpurious line s.hw = (p, .regular) := by
      rw [h.driver]
      exact hline
    rw [if_neg hpanic, hdriver, if_neg hnat]
    dsimp only
    rw [if_neg (by decide)]
    exact ⟨{ s with hw := p }, congrArg (fun f => (_, Dispatch.call f)) (h.selectHandler panic line),
      { h with pics := hp }⟩

/-- A spurious one is counted. -/
theorem countSpurious (h : s.driver = picDriver) (panic : η) {eflags line : UInt32}
    (hgo : eflags &&& cpuEflagsIf ≠ 0) (hpanic : line ≠ panicIntLine) {p : Pics}
    (hline : Pics.picHandleSpuriousIrq line s.hw = (p, .spurious)) :
    s.kernelInterruptHandler panic eflags line
      = ({ s with hw := p, spuriousInterrupt := s.spuriousInterrupt + 1 }, .spurious) := by
  have hdriver : s.driver.handleSpurious line s.hw = (p, .spurious) := by
    rw [h]
    exact hline
  unfold Interrupts.kernelInterruptHandler
  rw [if_neg fun hb => hgo hb.1, if_neg hpanic, hdriver]
  rfl

end IntRefine

/-! ## A step and a run -/

/-- The system and what it is for agree on everything that is seen. -/
structure IrqRefine (s : IrqSystem η) (a : IrqSpec η) : Prop where
  int : IntRefine s.int a
  serving : s.serving = a.serving
  depth : s.depth = a.depth
  halted : s.halted = a.halted
  log : s.log = a.log
  idle : a.depth = 0 → a.serving = none

namespace IrqRefine

variable [DecidableEq η] {s : IrqSystem η} {a : IrqSpec η}

/-- A handler is entered, for a line of the controllers or for another interrupt. -/
theorem enter {panic : η} (irq : Option ℕ) {eflags line : UInt32} {s' : Interrupts η Pics}
    (hserving : s.serving = a.serving) (hdepth : s.depth = a.depth) (hlog : s.log = a.log)
    (hcall : s.int.kernelInterruptHandler panic eflags line
      = (s', .call (if line.toNat = 0x2A then panic else (a.owner line.toNat).getD panic)))
    (hint : IntRefine s' { a with serving := irq <|> a.serving }) :
    IrqRefine (s.enter panic irq eflags line) (a.handOver panic irq line.toNat) := by
  unfold IrqSystem.enter
  rw [hcall]
  refine ⟨⟨hint.table, hint.driver, hint.pics, hint.spurious⟩, ?_, ?_, rfl, ?_, fun h0 => nomatch h0⟩
  · exact congrArg (irq <|> ·) hserving
  · exact congrArg (· + 1) hdepth
  · exact congrArg (_ :: ·) hlog

theorem vector_toNat : ∀ n < 16, (0x30 + BitVec.ofNat 8 n).toNat = 0x30 + n := by decide

/-- A line taken into service is handed to its owner. -/
theorem serve (h : IrqRefine s a) (panic : η) {eflags : UInt32} (hif : eflags &&& cpuEflagsIf ≠ 0)
    {raised : ℕ → Bool} {n : ℕ} {p : Pics}
    (hp : PicsRefine p a.enabled (Function.update raised n false) (some n)) :
    IrqRefine (IrqSystem.enter panic { s with int := { s.int with hw := p } }
        (some ((0x30 + BitVec.ofNat 8 n).toNat - 0x30)) eflags
        (UInt32.ofNat (0x30 + BitVec.ofNat 8 n).toNat))
      (IrqSpec.serve panic { a with raised := raised } n) := by
  obtain ⟨hn, -⟩ := hp.line n rfl
  have hline : (UInt32.ofNat (0x30 + n)).toNat = 0x30 + n :=
    UInt32.toNat_ofNat_of_lt (show 0x30 + n < 2 ^ 32 by omega)
  have hsub : (UInt32.ofNat (0x30 + n) - intPicIrqOffset).toNat = n := by
    rw [UInt32.toNat_sub_of_le _ _ (UInt32.le_iff_toNat_le.2 (by
      rw [hline]
      exact Nat.le_add_right _ _)), hline]
    exact Nat.add_sub_cancel_left _ _
  obtain ⟨p', hregular, hp'⟩ := hp.handleSpurious_served hsub
  have hint : IntRefine { s.int with hw := p }
      { a with raised := Function.update raised n false, serving := some n } := { h.int with pics := hp }
  obtain ⟨s', hcall, hint'⟩ := hint.call panic (fun hb : eflags &&& cpuEflagsIf = 0 ∧ _ => hif hb.1) hregular hp'
  rw [vector_toNat n hn, Nat.add_sub_cancel_left]
  have hentered := enter (s := { s with int := { s.int with hw := p } })
    (a := { a with raised := Function.update raised n false }) (some n) h.serving h.depth h.log
    hcall hint'
  rw [hline] at hentered
  exact hentered

/-- A spurious interrupt is counted, and nothing is served. -/
theorem spurious (h : IrqRefine s a) (panic : η) {eflags : UInt32} (hif : eflags &&& cpuEflagsIf ≠ 0)
    (hidle : a.serving = none) {raised : ℕ → Bool} {p p' : Pics} {line : UInt32} (irq : Option ℕ)
    (hpanic : line ≠ panicIntLine) (hline : Pics.picHandleSpuriousIrq line p = (p', .spurious))
    (hp : PicsRefine p' a.enabled raised none) :
    IrqRefine (IrqSystem.enter panic { s with int := { s.int with hw := p } } irq eflags line)
      (IrqSpec.countSpurious { a with raised := raised } line.toNat) := by
  have hcount := IntRefine.countSpurious (s := { s.int with hw := p }) h.int.driver panic hif hpanic hline
  unfold IrqSystem.enter
  rw [hcount]
  have hp' := hp
  rw [← hidle] at hp'
  refine ⟨⟨h.int.table, h.int.driver, hp', congrArg (· + 1) h.int.spurious⟩, h.serving, h.depth, h.halted,
    congrArg (_ :: ·) h.log, h.idle⟩

/-- The processor takes an interrupt. -/
theorem accept (h : IrqRefine s a) (panic : η) {eflags : UInt32} (hif : eflags &&& cpuEflagsIf ≠ 0)
    (hidle : a.depth = 0) (gone : BitVec 8) :
    IrqRefine (IrqSystem.enter panic { s with int := { s.int with hw := (s.int.hw.acknowledge gone).1 } }
        (some ((s.int.hw.acknowledge gone).2.toNat - 0x30)) eflags
        (UInt32.ofNat (s.int.hw.acknowledge gone).2.toNat))
      (a.accept panic gone) := by
  have hpics := h.int.pics
  have hserving := h.idle hidle
  rw [hserving] at hpics
  unfold IrqSpec.accept
  cases hfind : IrqSpec.picPriority.find? fun n => a.raised n && a.enabled n with
  | none =>
    rw [hpics.acknowledge_none gone hfind]
    obtain ⟨p', hspurious, hp'⟩ := hpics.handleSpurious_master
    exact h.spurious panic hif hserving _ (show (0x37 : UInt32) ≠ 0x2A by decide) hspurious hp'
  | some n =>
    dsimp only
    rcases Nat.lt_or_ge n 8 with hlt | hge
    · obtain ⟨p', hack, hp'⟩ := hpics.acknowledge_master gone hfind hlt
      rw [if_pos hlt, hack]
      exact h.serve panic hif hp'
    · rw [if_neg (Nat.not_lt.2 hge)]
      rcases hpics.acknowledge_slave gone hfind hge _ rfl with
        ⟨k, hk, p', hack, hp'⟩ | ⟨hnone, p', m, hack, hm, hp'⟩
      · rw [hk, hack]
        exact h.serve panic hif hp'
      · rw [hnone, hack]
        obtain ⟨p'', hspurious, hp''⟩ := PicsRefine.handleSpurious_slave hm hp'
        exact h.spurious panic hif hserving _ (show (0x3F : UInt32) ≠ 0x2A by decide) hspurious hp''

omit [DecidableEq η] in
/-- What is not acknowledged after a call, and what no call changes. -/
theorem run_frame {c : IntCall η} (hok : ∀ n, c = .setIrqEoi n → a.serving = some n.toNat ∧ n.toNat < 16) :
    (a.run c).1.serving = c.serving a.serving ∧ (a.run c).1.depth = a.depth
      ∧ (a.run c).1.halted = a.halted := by
  have hreg (line : ℕ) (x : Option η) : (a.register line x).1.serving = a.serving
      ∧ (a.register line x).1.depth = a.depth ∧ (a.register line x).1.halted = a.halted := by
    cases x with
    | none => exact ⟨rfl, rfl, rfl⟩
    | some f =>
      rw [IrqSpec.register]
      split_ifs <;> exact ⟨rfl, rfl, rfl⟩
  have hrem (line : ℕ) : (a.remove line).1.serving = a.serving
      ∧ (a.remove line).1.depth = a.depth ∧ (a.remove line).1.halted = a.halted := by
    unfold IrqSpec.remove
    split_ifs <;> exact ⟨rfl, rfl, rfl⟩
  cases c with
  | registerInt line x | registerException line x | registerIrq line x =>
    rw [IrqSpec.run]
    split_ifs
    exacts [hreg _ x, ⟨rfl, rfl, rfl⟩]
  | removeInt line | removeException line | removeIrq line =>
    rw [IrqSpec.run]
    split_ifs
    exacts [hrem _, ⟨rfl, rfl, rfl⟩]
  | setIrqMask n on =>
    rw [IrqSpec.run]
    split_ifs <;> exact ⟨rfl, rfl, rfl⟩
  | setIrqEoi n =>
    obtain ⟨hserving, hn⟩ := hok n rfl
    rw [IrqSpec.run, if_pos hn, IntCall.serving, if_pos hserving]
    exact ⟨rfl, rfl, rfl⟩

/-- What a step does is what it is for. -/
theorem step (h : IrqRefine s a) {panic : η} {e : IrqEv η} (hok : s.ok e) {s' : IrqSystem η}
    (hstep : s.step panic e = some s') : ∃ a', a.step panic e = some a' ∧ IrqRefine s' a' := by
  cases e with
  | call c =>
    rw [IrqSystem.step, h.halted] at hstep
    rw [IrqSpec.step]
    by_cases hhalted : a.halted = true
    · rw [if_pos hhalted] at hstep
      cases hstep
    · rw [if_neg hhalted] at hstep ⊢
      cases hstep
      have hok' : (IrqSystem.mk s.int a.serving s.depth s.halted s.log).ok (.call c) := by
        rw [← h.serving]
        exact hok
      obtain ⟨herr, hint⟩ := h.int.run hok'
      obtain ⟨hserving, hdepth, hhalt⟩ := run_frame (a := a) (c := c) fun n hc => by
        subst hc
        exact ⟨hok', (h.int.pics.line _ hok').1⟩
      refine ⟨_, rfl, ⟨⟨hint.table, hint.driver, hint.pics, hint.spurious⟩, ?_, ?_, hhalt.symm, ?_, ?_⟩⟩
      · rw [h.serving]
        exact hserving.symm
      · rw [h.depth]
        exact hdepth.symm
      · rw [h.log, herr]
      · intro h0
        change (a.run c).1.serving = none
        rw [hserving, h.idle (hdepth ▸ h0)]
        cases c <;> rfl
  | raise n =>
    cases hstep
    exact ⟨_, rfl, { h with int := { h.int with pics := h.int.pics.raise hok.1 hok.2 } }⟩
  | drop n =>
    cases hstep
    exact ⟨_, rfl, { h with int := { h.int with pics := h.int.pics.drop hok.1 } }⟩
  | accept eflags gone =>
    rw [IrqSystem.step] at hstep
    rw [IrqSpec.step]
    by_cases hgo : a.halted = true ∨ a.depth ≠ 0 ∨ eflags &&& cpuEflagsIf = 0
    · rw [if_pos (by rwa [h.halted, h.depth])] at hstep
      cases hstep
    · rw [if_neg (by rwa [h.halted, h.depth])] at hstep
      rw [if_neg hgo]
      cases hstep
      obtain ⟨-, hrest⟩ := not_or.1 hgo
      obtain ⟨hdepth, hif⟩ := not_or.1 hrest
      exact ⟨_, rfl, h.accept panic hif (not_not.1 hdepth) gone⟩
  | interrupt eflags line =>
    rw [IrqSystem.step, h.halted] at hstep
    rw [IrqSpec.step]
    by_cases hhalted : a.halted = true
    · rw [if_pos hhalted] at hstep
      cases hstep
    · rw [if_neg hhalted] at hstep ⊢
      cases hstep
      by_cases hgo : eflags &&& cpuEflagsIf = 0 ∧ line ≠ panicIntLine ∧ line ≠ schedulerSwIntLine
          ∧ minInterruptLine ≤ line
      · have hblocked : s.int.kernelInterruptHandler panic eflags line = (s.int, .blocked) := if_pos hgo
        rw [if_pos hgo, IrqSystem.enter, hblocked]
        exact ⟨_, rfl, ⟨⟨h.int.table, h.int.driver, h.int.pics, h.int.spurious⟩, h.serving, h.depth, h.halted,
          congrArg (_ :: ·) h.log, h.idle⟩⟩
      · obtain ⟨s', hcall, hint⟩ := h.int.call panic hgo (PicsRefine.handleSpurious_other hok _) h.int.pics
        rw [if_neg hgo]
        exact ⟨_, rfl, enter none h.serving h.depth h.log hcall hint⟩
  | iret =>
    rw [IrqSystem.step, h.halted, h.depth] at hstep
    rw [IrqSpec.step]
    by_cases hgo : a.halted = true ∨ a.depth = 0
    · rw [if_pos hgo] at hstep
      cases hstep
    · rw [if_neg hgo] at hstep ⊢
      cases hstep
      obtain ⟨-, hdepth⟩ := not_or.1 hgo
      refine ⟨_, rfl, ⟨⟨h.int.table, h.int.driver, h.int.pics, h.int.spurious⟩, h.serving, rfl, rfl, h.log,
        fun h0 => ?_⟩⟩
      have hone : s.depth = 1 := by
        change a.depth - 1 = 0 at h0
        rw [h.depth]
        omega
      exact h.serving.symm.trans (hok hone)

end IrqRefine

/-! ## The start -/

/-- `pic_init` leaves every line disabled and nothing served. -/
theorem picInit_refine (p : Pics) : PicsRefine p.picInit (fun _ => false) (fun _ => false) none := by
  rw [Pics.picInit_eq]
  have hzero (i : ℕ) : (0 : BitVec 8).getLsbD i = false := BitVec.getLsbD_zero
  exact {
    masterReady := rfl
    slaveReady := rfl
    masterBase := rfl
    slaveBase := rfl
    masterMask := fun i hi _ => getLsbD_ones i hi
    slaveMask := fun i hi => getLsbD_ones i hi
    cascade := rfl
    masterRaised := fun i _ _ => hzero i
    slaveRaised := fun i _ => hzero i
    quiet := rfl
    masterServes := rfl
    slaveServes := rfl
    line := fun _ h => nomatch h }

theorem boot_refine [DecidableEq η] (panic divByZeroHandler : η) (p : Pics) :
    IrqRefine (IrqSystem.boot panic divByZeroHandler p) (IrqSpec.boot panic divByZeroHandler) := by
  have hempty : TableRefine (fun _ => ⟨0, none⟩) (fun _ => (none : Option η)) :=
    ⟨fun _ => rfl, fun _ => rfl, fun _ _ => rfl⟩
  have htable := (hempty.update 0x2A (some panic)).update 0 (some divByZeroHandler)
  exact ⟨⟨htable, rfl, picInit_refine p, rfl⟩, rfl, rfl, rfl, rfl, fun _ => rfl⟩

/-- Every run of the kernel on its controllers is a run of what they are for: each interrupt that is
taken goes to the owner of the first line that is raised and enabled, and the results, the owners and the
lines are the same. -/
theorem irqSystem_refines [DecidableEq η] {panic divByZeroHandler : η} {p : Pics} {es : List (IrqEv η)}
    {s : IrqSystem η} (h : runEvents (guarded (IrqSystem.step panic) IrqSystem.ok)
      (IrqSystem.boot panic divByZeroHandler p) es = some s) :
    ∃ a, runEvents (IrqSpec.step panic) (IrqSpec.boot panic divByZeroHandler) es = some a ∧ IrqRefine s a :=
  runEvents_simulates (fun _ _ _ _ hR hok hstep => hR.step hok hstep) (boot_refine panic divByZeroHandler p) h

/-- A line of the slave is registered, enabled and raised; then its line 15 is taken back too late. -/
def irqRun : List (IrqEv ℕ) :=
  [.call (.registerIrq 8 (some 7)), .call (.setIrqMask 8 1), .call (.setIrqMask 15 1), .raise 8,
    .accept 0x202 0, .call (.setIrqEoi 8), .iret, .raise 15, .accept 0x202 0x80, .raise 8, .accept 0x202 0]

theorem irqSystem_refines_slave : ∃ s, runEvents (guarded (IrqSystem.step 0) IrqSystem.ok)
      (IrqSystem.boot 0 1 ⟨⟨1, 2, 3, 4, 0, true⟩, ⟨5, 6, 7, 8, 3, false⟩⟩) irqRun = some s
    ∧ s.log = [.dispatch 0x38 (.call 7), .dispatch 0x3F .spurious, .ret .noErr, .dispatch 0x38 (.call 7),
        .ret .noErr, .ret .noErr, .ret .noErr]
    ∧ ∃ a, runEvents (IrqSpec.step 0) (IrqSpec.boot 0 1) irqRun = some a ∧ IrqRefine s a := by
  have hlog : (runEvents (guarded (IrqSystem.step 0) IrqSystem.ok)
      (IrqSystem.boot 0 1 ⟨⟨1, 2, 3, 4, 0, true⟩, ⟨5, 6, 7, 8, 3, false⟩⟩) irqRun).map IrqSystem.log
      = some [.dispatch 0x38 (.call 7), .dispatch 0x3F .spurious, .ret .noErr, .dispatch 0x38 (.call 7),
        .ret .noErr, .ret .noErr, .ret .noErr] := by decide
  obtain ⟨s, hs, hl⟩ := Option.map_eq_some_iff.1 hlog
  exact ⟨s, hs, hl, irqSystem_refines hs⟩

end RTLKIM
