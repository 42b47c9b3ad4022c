import RTLKIM.IrqSystem

/-!
# What the controllers do for the lines

`PicsRefine` relates the two chips to the lines that are enabled and raised and the line that is served:
each line has its bit, the line of the cascade is masked when all the slave's lines are, and the
registers of what is served hold the bits of that one line.
-/

namespace RTLKIM

open IrqSpec

/-! ## Bytes -/

theorem getLsbD_bit {n i : ℕ} (hi : i < 8) : (bit n).getLsbD i = decide (n = i) := by
  unfold bit
  rw [BitVec.getLsbD_shiftLeft, BitVec.getLsbD_one]
  simp only [hi, decide_true, Bool.true_and, Nat.zero_lt_succ]
  rcases Nat.lt_trichotomy i n with h | h | h
  · simp [h, show n ≠ i by omega]
  · simp [h]
  · simp [show ¬i < n by omega, show n ≠ i by omega, show i - n ≠ 0 by omega]

theorem byte_ext {x y : BitVec 8} (h : ∀ i < 8, x.getLsbD i = y.getLsbD i) : x = y :=
  BitVec.eq_of_getLsbD_eq h

theorem getLsbD_not_bit {n i : ℕ} (hi : i < 8) : (~~~bit n).getLsbD i = decide (n ≠ i) := by
  rw [BitVec.getLsbD_not, getLsbD_bit hi]
  simp [hi]

theorem getLsbD_or_bit {x : BitVec 8} {n i : ℕ} (hi : i < 8) :
    (x ||| bit n).getLsbD i = (x.getLsbD i || decide (n = i)) := by
  rw [BitVec.getLsbD_or, getLsbD_bit hi]

theorem getLsbD_and_not_bit {x : BitVec 8} {n i : ℕ} (hi : i < 8) :
    (x &&& ~~~bit n).getLsbD i = (x.getLsbD i && decide (n ≠ i)) := by
  rw [BitVec.getLsbD_and, getLsbD_not_bit hi]

theorem getLsbD_ones : ∀ i < 8, (0xFF : BitVec 8).getLsbD i = true := by decide

theorem eq_ones_iff {x : BitVec 8} : x = 0xFF ↔ ∀ i < 8, x.getLsbD i = true :=
  ⟨fun h i hi => h ▸ getLsbD_ones i hi, fun h => byte_ext fun i hi => (h i hi).trans (getLsbD_ones i hi).symm⟩

namespace Chip

/-! ## A chip -/

theorem lowest_zero : lowest 0 = none := by decide

theorem lowest_bit {n : ℕ} (h : n < 8) : lowest (bit n) = some n := by
  revert n
  decide

theorem request_idle {c : Chip} (h : c.isr = 0) (up : BitVec 8) :
    c.request up = lowest (up &&& ~~~c.imr) := by
  unfold request
  rw [h]
  cases lowest (up &&& ~~~c.imr) <;> simp

/-- A chip with all its lines masked requests nothing. -/
theorem request_unmasked {c : Chip} {up : BitVec 8} {k : ℕ} (h : c.isr = 0)
    (hreq : c.request up = some k) : c.imr ≠ 0xFF := fun hall => by
  rw [request_idle h, hall] at hreq
  have hbit := List.find?_some hreq
  rw [BitVec.getLsbD_and] at hbit
  have hk := List.mem_range.1 (List.mem_of_find?_eq_some hreq)
  rw [BitVec.getLsbD_not, getLsbD_ones k hk] at hbit
  simp at hbit

theorem eoi_zero {c : Chip} (h : c.isr = 0) : c.writeComm picEoi = c := by
  unfold writeComm
  rw [h, lowest_zero]
  rfl

theorem eoi_bit {c : Chip} {n : ℕ} (hn : n < 8) (h : c.isr = bit n) :
    c.writeComm picEoi = { c with isr := 0 } := by
  unfold writeComm
  rw [h, lowest_bit hn]
  exact congrArg (fun x => { c with isr := x }) (BitVec.and_not_self (bit n))

theorem writeComm_readIsr (c : Chip) : c.writeComm picReadIsr = { c with readIsr := true } := rfl

theorem writeData_mask {c : Chip} (h : c.icw = 0) (v : BitVec 8) :
    c.writeData v = { c with imr := v } := by
  unfold writeData
  rw [h]
  rfl

theorem writeData_writeData {c : Chip} (h : c.icw = 0) (v w : BitVec 8) :
    (c.writeData v).writeData w = { c with imr := w } := by
  rw [writeData_mask h]
  exact writeData_mask (c := { c with imr := v }) h w

end Chip

/-! ## The masks -/

namespace Pics

variable {p : Pics} {n : UInt32}

theorem getLsbD_newMask {mask : BitVec 8} {n i : ℕ} {on : UInt32} (hi : i < 8) :
    (newMask mask n on).getLsbD i = if n = i then decide (on = 0) else mask.getLsbD i := by
  unfold newMask
  by_cases h0 : on = 0
  · rw [if_pos h0, getLsbD_or_bit hi]
    by_cases heq : n = i <;> simp [heq, h0]
  · rw [if_neg h0, getLsbD_and_not_bit hi]
    by_cases heq : n = i <;> simp [heq, h0]

theorem line_lt : ¬picMaxIrqLine < n ↔ n.toNat < 16 := by
  rw [UInt32.not_lt, UInt32.le_iff_toNat_le]
  exact Nat.lt_succ_iff.symm

theorem seven_lt : 7 < n ↔ 8 ≤ n.toNat := UInt32.lt_iff_toNat_lt

theorem lt_eight : n < 8 ↔ n.toNat < 8 := UInt32.lt_iff_toNat_lt

theorem picSetIrqMask_master (hready : p.master.icw = 0) (h : n.toNat < 8) (on : UInt32) :
    picSetIrqMask n on p
      = ({ p with master := { p.master with imr := newMask p.master.imr n.toNat on } }, .noErr) := by
  unfold picSetIrqMask
  rw [if_neg (line_lt.2 (by omega)), if_pos (lt_eight.2 h), Chip.writeData_mask hready]
  rfl

/-- A line of the slave: the master's line 2 is masked when all the slave's lines are. -/
theorem picSetIrqMask_slave (hmaster : p.master.icw = 0) (hslave : p.slave.icw = 0) (h8 : 8 ≤ n.toNat)
    (h : n.toNat < 16) (on : UInt32) : ∃ m, picSetIrqMask n on p
        = ({ master := { p.master with imr := m },
             slave := { p.slave with imr := newMask p.slave.imr (n.toNat - 8) on } }, .noErr)
      ∧ ∀ i < 8, m.getLsbD i = if i = 2 then decide (newMask p.slave.imr (n.toNat - 8) on = 0xFF)
        else p.master.imr.getLsbD i := by
  have hsub : (n - 8).toNat = n.toNat - 8 := UInt32.toNat_sub_of_le _ _ (UInt32.le_iff_toNat_le.2 h8)
  unfold picSetIrqMask
  rw [if_neg (line_lt.2 h), if_neg (fun hlt => absurd (lt_eight.1 hlt) (Nat.not_lt.2 h8))]
  dsimp only
  rw [hsub, Chip.writeData_mask hslave]
  by_cases hall : newMask p.slave.imr (n.toNat - 8) on = 0xFF
  · refine ⟨p.master.imr &&& ~~~bit 2 ||| bit 2, ?_, fun i hi => ?_⟩
    · rw [if_pos (show newMask p.slave.readData (n.toNat - 8) on = 0xFF from hall),
        Chip.writeData_writeData hmaster, Chip.writeData_mask hmaster]
      rfl
    · rw [getLsbD_or_bit hi, getLsbD_and_not_bit hi, decide_eq_true hall]
      by_cases h2 : i = 2
      · simp [h2]
      · simp [h2, Ne.symm h2]
  · refine ⟨p.master.imr &&& ~~~bit 2, ?_, fun i hi => ?_⟩
    · rw [if_neg (show newMask p.slave.readData (n.toNat - 8) on ≠ 0xFF from hall),
        Chip.writeData_mask hmaster]
      rfl
    · rw [getLsbD_and_not_bit hi, decide_eq_false hall]
      by_cases h2 : i = 2
      · simp [h2]
      · simp [h2, Ne.symm h2]

theorem picInitChip_eq (c : Chip) (base cascade : BitVec 8) : picInitChip c base cascade
    = { imr := 0, irr := 0, isr := 0, base := base &&& 0xF8, icw := 0, readIsr := false } := rfl

/-- `pic_init`, whatever the chips held. -/
theorem picInit_eq (p : Pics) : p.picInit
    = ⟨⟨0xFF, 0, 0, 0x30, 0, false⟩, ⟨0xFF, 0, 0, 0x38, 0, false⟩⟩ := by
  unfold picInit
  rw [picInitChip_eq, picInitChip_eq]
  dsimp only
  rw [Chip.eoi_zero rfl, Chip.eoi_zero rfl, Chip.writeData_mask rfl, Chip.writeData_mask rfl]
  rfl

/-- What calls of `pic_set_irq_mask` leave in the masks. -/
structure Masked (calls : List (UInt32 × UInt32)) (p : Pics) : Prop where
  masterReady : p.master.icw = 0
  slaveReady : p.slave.icw = 0
  master : ∀ i < 8, i ≠ 2 → p.master.imr.getLsbD i = !lastMask calls i
  slave : ∀ i < 8, p.slave.imr.getLsbD i = !lastMask calls (8 + i)
  cascade : p.master.imr.getLsbD 2 = match lastCascade calls with
    | none => true
    | some c => if c.1.toNat = 2 then decide (c.2 = 0) else decide (p.slave.imr = 0xFF)

section Last

variable {calls : List (UInt32 × UInt32)} {c : UInt32 × UInt32} {n : ℕ}

theorem lastMask_self (h : c.1.toNat = n) : lastMask (c :: calls) n = decide (c.2 ≠ 0) := by
  rw [lastMask, List.find?_cons, decide_eq_true h]
  rfl

theorem lastMask_other (h : c.1.toNat ≠ n) : lastMask (c :: calls) n = lastMask calls n := by
  rw [lastMask, List.find?_cons, decide_eq_false h]
  rfl

theorem lastCascade_self (h : c.1.toNat = 2 ∨ 8 ≤ c.1.toNat ∧ c.1.toNat < 16) :
    lastCascade (c :: calls) = some c := by
  rw [lastCascade, List.find?_cons, decide_eq_true h]

theorem lastCascade_other (h : ¬(c.1.toNat = 2 ∨ 8 ≤ c.1.toNat ∧ c.1.toNat < 16)) :
    lastCascade (c :: calls) = lastCascade calls := by
  rw [lastCascade, List.find?_cons, decide_eq_false h]
  rfl

/-- A call for a line of the slave changes the line of the cascade. -/
theorem lastCascade_isSome (h8 : 8 ≤ n) (hn : n < 16) (h : lastMask calls n = true) :
    ∃ c, lastCascade calls = some c := by
  obtain ⟨c, hfind, -⟩ := (Option.any_eq_true _ _).1 h
  have hc : c.1.toNat = n := by simpa using List.find?_some hfind
  exact Option.isSome_iff_exists.1 (List.find?_isSome.2 ⟨c, List.mem_of_find?_eq_some hfind,
    decide_eq_true (.inr (by omega))⟩)

end Last

theorem masked_afterMasks (p : Pics) : ∀ calls, Masked calls (p.afterMasks calls)
  | [] => by
    rw [afterMasks, picInit_eq]
    exact ⟨rfl, rfl, fun i hi _ => getLsbD_ones i hi, fun i hi => getLsbD_ones i hi, rfl⟩
  | c :: calls => by
    have ih := masked_afterMasks p calls
    rw [afterMasks]
    generalize p.afterMasks calls = q at ih
    rcases Nat.lt_or_ge c.1.toNat 8 with hlt | hge
    · rw [picSetIrqMask_master ih.masterReady hlt]
      refine ⟨ih.masterReady, ih.slaveReady, fun i hi hi2 => ?_, fun i hi => ?_, ?_⟩
      · rw [getLsbD_newMask hi]
        by_cases heq : c.1.toNat = i
        · rw [if_pos heq, lastMask_self heq]
          simp
        · rw [if_neg heq, lastMask_other heq, ih.master i hi hi2]
      · rw [lastMask_other (by omega), ih.slave i hi]
      · rw [getLsbD_newMask (by decide)]
        by_cases h2 : c.1.toNat = 2
        · rw [if_pos h2, lastCascade_self (.inl h2)]
          exact (if_pos h2).symm
        · rw [if_neg h2, lastCascade_other (by omega)]
          exact ih.cascade
    · rcases Nat.lt_or_ge c.1.toNat 16 with hlt | hge16
      · obtain ⟨m, heq, hm⟩ := picSetIrqMask_slave ih.masterReady ih.slaveReady hge hlt c.2
        rw [heq]
        refine ⟨ih.masterReady, ih.slaveReady, fun i hi hi2 => ?_, fun i hi => ?_, ?_⟩
        · rw [hm i hi, if_neg hi2, lastMask_other (by omega), ih.master i hi hi2]
        · rw [getLsbD_newMask hi]
          by_cases heq : c.1.toNat = 8 + i
          · rw [if_pos (by omega), lastMask_self heq]
            simp
          · rw [if_neg (by omega), lastMask_other heq, ih.slave i hi]
        · rw [lastCascade_self (.inr ⟨hge, hlt⟩)]
          exact ((hm 2 (by decide)).trans (if_pos rfl)).trans (if_neg (by omega)).symm
      · have herr : picSetIrqMask c.1 c.2 q = (q, .noSuchIrqLine) :=
          if_pos (not_not.1 fun h => absurd (line_lt.1 h) (Nat.not_lt.2 hge16))
        rw [herr]
        refine ⟨ih.masterReady, ih.slaveReady, fun i hi hi2 => ?_, fun i hi => ?_, ?_⟩
        · rw [lastMask_other (by omega), ih.master i hi hi2]
        · rw [lastMask_other (by omega), ih.slave i hi]
        · rw [lastCascade_other (by omega)]
          exact ih.cascade

/-- After any calls of `pic_set_irq_mask`, whatever lines they name: a line of the master gets through when
the last call for it enabled it. One of the slave does when besides the cascade was not disabled by its
own number after the last call for a line of the slave. -/
theorem passes_afterMasks (p : Pics) (calls : List (UInt32 × UInt32)) {n : ℕ} (hn : n < 16) (h2 : n ≠ 2) :
    (p.afterMasks calls).passes n
      = (lastMask calls n && (n < 8 || (lastCascade calls).all fun c => c.1.toNat ≠ 2 || c.2 ≠ 0)) := by
  have h := masked_afterMasks p calls
  unfold passes
  rcases Nat.lt_or_ge n 8 with hlt | hge
  · rw [if_pos hlt, h.master n hlt h2]
    simp [hlt]
  · have hslave := h.slave (n - 8) (by omega)
    rw [show 8 + (n - 8) = n by omega] at hslave
    rw [if_neg (Nat.not_lt.2 hge), hslave, h.cascade, decide_eq_false (Nat.not_lt.2 hge), Bool.false_or,
      Bool.not_not]
    cases hlast : lastMask calls n with
    | false => rfl
    | true =>
      have hone : (p.afterMasks calls).slave.imr ≠ 0xFF := fun hall => by
        rw [eq_ones_iff.1 hall (n - 8) (by omega), hlast] at hslave
        cases hslave
      obtain ⟨c, hc⟩ := lastCascade_isSome hge hn hlast
      rw [hc, decide_eq_false hone]
      by_cases hc2 : c.1.toNat = 2 <;> by_cases h0 : c.2 = 0 <;> simp [hc2, h0]

/-- A call for the line of the cascade keeps the mouse's line from the processor. -/
theorem passes_afterMasks_mouse :
    (afterMasks ⟨⟨9, 9, 9, 9, 0, true⟩, ⟨0, 0, 0, 0, 2, false⟩⟩ [(2, 0), (3, 1), (12, 1)]).passes 12 = false :=
  passes_afterMasks _ [(2, 0), (3, 1), (12, 1)] (by decide) (by decide)

end Pics

/-! ## The two chips -/

/-- What the master and the slave serve. -/
def masterIsr : Option ℕ → BitVec 8
  | none => 0
  | some n => if n < 8 then bit n else bit 2

def slaveIsr : Option ℕ → BitVec 8
  | none => 0
  | some n => if n < 8 then 0 else bit (n - 8)

/-- The initialized chips, for the lines that are enabled and raised and the line that is served. -/
structure PicsRefine (p : Pics) (enabled raised : ℕ → Bool) (serving : Option ℕ) : Prop where
  masterReady : p.master.icw = 0
  slaveReady : p.slave.icw = 0
  masterBase : p.master.base = 0x30
  slaveBase : p.slave.base = 0x38
  masterMask : ∀ i < 8, i ≠ 2 → p.master.imr.getLsbD i = !enabled i
  slaveMask : ∀ i < 8, p.slave.imr.getLsbD i = !enabled (8 + i)
  cascade : p.master.imr.getLsbD 2 = decide (p.slave.imr = 0xFF)
  masterRaised : ∀ i < 8, i ≠ 2 → p.master.irr.getLsbD i = raised i
  slaveRaised : ∀ i < 8, p.slave.irr.getLsbD i = raised (8 + i)
  quiet : p.master.irr.getLsbD 2 = false
  masterServes : p.master.isr = masterIsr serving
  slaveServes : p.slave.isr = slaveIsr serving
  line : ∀ n ∈ serving, n < 16 ∧ n ≠ 2

namespace PicsRefine

variable {p : Pics} {enabled raised : ℕ → Bool} {serving : Option ℕ}

/-- A mask is set. -/
theorem setIrqMask (h : PicsRefine p enabled raised serving) {n : UInt32} (hn : n.toNat < 16)
    (h2 : n.toNat ≠ 2) (on : UInt32) : (Pics.picSetIrqMask n on p).2 = .noErr
      ∧ PicsRefine (Pics.picSetIrqMask n on p).1
        (Function.update enabled n.toNat (decide (on ≠ 0))) raised serving := by
  rcases Nat.lt_or_ge n.toNat 8 with hlt | hge
  · rw [Pics.picSetIrqMask_master h.masterReady hlt]
    refine ⟨rfl, { h with masterMask := fun i hi hi2 => ?_, slaveMask := fun i hi => ?_, cascade := ?_ }⟩
    · rw [Pics.getLsbD_newMask hi, Function.update_apply, h.masterMask i hi hi2]
      by_cases heq : n.toNat = i
      · simp [heq]
      · simp [heq, Ne.symm heq]
    · rw [Function.update_of_ne (by omega)]
      exact h.slaveMask i hi
    · rw [Pics.getLsbD_newMask (by decide), if_neg h2]
      exact h.cascade
  · obtain ⟨m, heq, hm⟩ := Pics.picSetIrqMask_slave h.masterReady h.slaveReady hge hn on
    rw [heq]
    refine ⟨rfl, { h with masterMask := fun i hi hi2 => ?_, slaveMask := fun i hi => ?_, cascade := ?_ }⟩
    · rw [hm i hi, if_neg hi2, Function.update_of_ne (by omega)]
      exact h.masterMask i hi hi2
    · rw [Pics.getLsbD_newMask hi, Function.update_apply, h.slaveMask i hi]
      by_cases heq : n.toNat - 8 = i
      · simp [show 8 + i = n.toNat by omega, show n.toNat - 8 = i from heq]
      · simp [heq, show 8 + i ≠ n.toNat by omega]
    · exact (hm 2 (by decide)).trans (if_pos rfl)

/-- No line is enabled any more. -/
theorem disable (h : PicsRefine p enabled raised serving) :
    PicsRefine p.picDisable (fun _ => false) raised serving := by
  unfold Pics.picDisable
  rw [Chip.writeData_mask h.masterReady, Chip.writeData_mask h.slaveReady]
  exact { h with
    masterMask := fun i hi _ => getLsbD_ones i hi
    slaveMask := fun i hi => getLsbD_ones i hi
    cascade := show (0xFF : BitVec 8).getLsbD 2 = decide ((0xFF : BitVec 8) = 0xFF) by decide }

theorem raise (h : PicsRefine p enabled raised serving) {n : ℕ} (hn : n < 16) (h2 : n ≠ 2) :
    PicsRefine (p.raise n) enabled (Function.update raised n true) serving := by
  unfold Pics.raise
  rcases Nat.lt_or_ge n 8 with hlt | hge
  · rw [if_pos hlt]
    refine { h with masterRaised := fun i hi hi2 => ?_, slaveRaised := fun i hi => ?_, quiet := ?_ }
    · rw [getLsbD_or_bit hi, Function.update_apply, h.masterRaised i hi hi2]
      by_cases heq : n = i <;> simp [heq, eq_comm]
    · rw [Function.update_of_ne (by omega)]
      exact h.slaveRaised i hi
    · rw [getLsbD_or_bit (by decide), h.quiet]
      simpa using h2
  · rw [if_neg (Nat.not_lt.2 hge)]
    refine { h with masterRaised := fun i hi hi2 => ?_, slaveRaised := fun i hi => ?_ }
    · rw [Function.update_of_ne (by omega)]
      exact h.masterRaised i hi hi2
    · rw [getLsbD_or_bit hi, Function.update_apply, h.slaveRaised i hi]
      by_cases heq : n - 8 = i
      · simp [heq, show 8 + i = n by omega]
      · simp [heq, show 8 + i ≠ n by omega]

theorem drop (h : PicsRefine p enabled raised serving) {n : ℕ} (hn : n < 16) :
    PicsRefine (p.drop n) enabled (Function.update raised n false) serving := by
  unfold Pics.drop
  rcases Nat.lt_or_ge n 8 with hlt | hge
  · rw [if_pos hlt]
    refine { h with masterRaised := fun i hi hi2 => ?_, slaveRaised := fun i hi => ?_, quiet := ?_ }
    · rw [getLsbD_and_not_bit hi, Function.update_apply, h.masterRaised i hi hi2]
      by_cases heq : n = i <;> simp [heq, eq_comm]
    · rw [Function.update_of_ne (by omega)]
      exact h.slaveRaised i hi
    · rw [getLsbD_and_not_bit (by decide), h.quiet]
      rfl
  · rw [if_neg (Nat.not_lt.2 hge)]
    refine { h with masterRaised := fun i hi hi2 => ?_, slaveRaised := fun i hi => ?_ }
    · rw [Function.update_of_ne (by omega)]
      exact h.masterRaised i hi hi2
    · rw [getLsbD_and_not_bit hi, Function.update_apply, h.slaveRaised i hi]
      by_cases heq : n - 8 = i
      · simp [heq, show 8 + i = n by omega]
      · simp [heq, show 8 + i ≠ n by omega]

/-- The line that is served is acknowledged. -/
theorem setIrqEoi {n : UInt32} (h : PicsRefine p enabled raised (some n.toNat)) :
    (Pics.picSetIrqEoi n p).2 = .noErr ∧ PicsRefine (Pics.picSetIrqEoi n p).1 enabled raised none := by
  obtain ⟨hn, h2⟩ := h.line n.toNat rfl
  have hmaster := h.masterServes
  have hslave := h.slaveServes
  unfold Pics.picSetIrqEoi
  rw [if_neg (Pics.line_lt.2 hn)]
  refine ⟨rfl, ?_⟩
  dsimp only [masterIsr, slaveIsr] at hmaster hslave ⊢
  rcases Nat.lt_or_ge n.toNat 8 with hlt | hge
  · rw [if_pos hlt] at hmaster hslave
    rw [if_neg (Pics.seven_lt.not.2 (Nat.not_le.2 hlt)), Chip.eoi_bit hlt hmaster]
    exact { h with masterServes := rfl, slaveServes := hslave, line := fun _ h => nomatch h }
  · rw [if_neg (Nat.not_lt.2 hge)] at hmaster hslave
    rw [if_pos (Pics.seven_lt.2 hge), Chip.eoi_bit (by decide) hmaster, Chip.eoi_bit (by omega) hslave]
    exact { h with masterServes := rfl, slaveServes := rfl, line := fun _ h => nomatch h }

/-! ### The check for spurious interrupts -/

/-- The interrupt of a line that is served is none. -/
theorem handleSpurious_served {i : UInt32} {n : ℕ} (h : PicsRefine p enabled raised (some n))
    (hi : (i - intPicIrqOffset).toNat = n) : ∃ p', Pics.picHandleSpuriousIrq i p = (p', .regular)
      ∧ PicsRefine p' enabled raised (some n) := by
  obtain ⟨hn, -⟩ := h.line n rfl
  have hmaster := h.masterServes
  have hslave := h.slaveServes
  unfold Pics.picHandleSpuriousIrq
  dsimp only [masterIsr, slaveIsr] at hmaster hslave ⊢
  rw [if_neg (Pics.line_lt.2 (lt_of_eq_of_lt hi hn))]
  rcases Nat.lt_or_ge n 8 with hlt | hge
  · rw [if_neg (Pics.seven_lt.not.2 (by omega))]
    by_cases h7 : i - intPicIrqOffset ≠ 7
    · exact ⟨p, if_pos h7, h⟩
    · have hn7 : n = 7 := by
        rw [← hi, not_not.1 h7]
        rfl
      rw [if_neg h7, Chip.writeComm_readIsr]
      refine ⟨_, if_pos ?_, { h with }⟩
      rw [Chip.readComm, if_pos rfl, hmaster, hn7]
      decide
  · rw [if_pos (Pics.seven_lt.2 (by omega))]
    by_cases h15 : i - intPicIrqOffset ≠ 15
    · exact ⟨p, if_pos h15, h⟩
    · have hn15 : n = 15 := by
        rw [← hi, not_not.1 h15]
        rfl
      rw [if_neg h15, Chip.writeComm_readIsr]
      refine ⟨_, if_pos ?_, { h with }⟩
      rw [Chip.readComm, if_pos rfl, hslave, hn15]
      decide

/-- The master's spurious interrupt. -/
theorem handleSpurious_master (h : PicsRefine p enabled raised none) :
    ∃ p', Pics.picHandleSpuriousIrq 0x37 p = (p', .spurious) ∧ PicsRefine p' enabled raised none := by
  unfold Pics.picHandleSpuriousIrq
  dsimp only
  rw [if_neg (by decide), if_neg (by decide), if_neg (by decide), Chip.writeComm_readIsr]
  refine ⟨_, if_neg ?_, { h with }⟩
  rw [Chip.readComm, if_pos rfl, h.masterServes]
  decide

/-- The slave's: the master has taken the cascade into service, and is told of its end. -/
theorem handleSpurious_slave {m : Chip} (hm : m.isr = bit 2)
    (h : PicsRefine { p with master := { m with isr := 0 } } enabled raised none) :
    ∃ p', Pics.picHandleSpuriousIrq 0x3F { p with master := m } = (p', .spurious)
      ∧ PicsRefine p' enabled raised none := by
  unfold Pics.picHandleSpuriousIrq
  dsimp only
  rw [if_neg (by decide), if_pos (by decide), if_neg (by decide), Chip.writeComm_readIsr]
  refine ⟨_, if_neg ?_, ?_⟩
  · rw [Chip.readComm, if_pos rfl, h.slaveServes]
    decide
  · unfold Pics.picSetIrqEoi
    rw [if_neg (by decide), if_neg (by decide)]
    dsimp only
    rw [Chip.eoi_bit (by decide) hm]
    exact { h with }

/-- No other number is a line's. -/
theorem handleSpurious_other {i : UInt32} (h : picMaxIrqLine < i - intPicIrqOffset) (p : Pics) :
    Pics.picHandleSpuriousIrq i p = (p, .regular) := if_pos h

/-! ### The acknowledge -/

/-- The lines of a chip that are up, with those of the slave for the line of the cascade. -/
theorem find_lines {q : ℕ → Bool} {l : List ℕ} {x : BitVec 8} (hl : ∀ i ∈ l, i < 8)
    (h : ∀ i < 8, x.getLsbD i = q i) : l.find? (fun i => x.getLsbD i) = l.find? q := by
  induction l with
  | nil => rfl
  | cons a l ih =>
    rw [List.find?_cons, List.find?_cons, h a (hl a List.mem_cons_self),
      ih fun i hi => hl i (List.mem_cons_of_mem a hi)]

theorem slave_request (h : PicsRefine p enabled raised none) :
    (p.slave.request p.slave.irr).map (8 + ·)
      = slaveLines.find? fun n => raised n && enabled n := by
  have hbits : ∀ i < 8, (p.slave.irr &&& ~~~p.slave.imr).getLsbD i = (raised (8 + i) && enabled (8 + i)) :=
    fun i hi => by
      rw [BitVec.getLsbD_and, BitVec.getLsbD_not, h.slaveRaised i hi, h.slaveMask i hi]
      simp [hi]
  rw [Chip.request_idle h.slaveServes, Chip.lowest,
    find_lines (q := fun i => raised (8 + i) && enabled (8 + i)) (fun i hi => List.mem_range.1 hi) hbits]
  rw [show slaveLines = (List.range 8).map (8 + ·) by rfl, List.find?_map]
  rfl

/-- The master requests an interrupt for the first line that is up, with its own line for the slave's. -/
theorem master_request (h : PicsRefine p enabled raised none) :
    p.master.request p.masterUp
      = (picPriority.find? fun n => raised n && enabled n).map fun n => if n < 8 then n else 2 := by
  have hslave := h.slave_request
  have hbits : ∀ i < 8, (p.masterUp &&& ~~~p.master.imr).getLsbD i
      = if i = 2 then (slaveLines.find? fun n => raised n && enabled n).isSome
        else raised i && enabled i := fun i hi => by
    rw [BitVec.getLsbD_and, BitVec.getLsbD_not, decide_eq_true hi, Bool.true_and, Pics.masterUp,
      BitVec.getLsbD_or, ← hslave]
    cases hreq : p.slave.request p.slave.irr with
    | none =>
      by_cases h2 : i = 2
      · rw [h2, h.quiet]
        simp
      · simp [h2, h.masterRaised i hi h2, h.masterMask i hi h2]
    | some k =>
      by_cases h2 : i = 2
      · rw [h2, h.quiet, h.cascade, decide_eq_false (Chip.request_unmasked h.slaveServes hreq),
          if_pos Option.isSome_some, getLsbD_bit (by decide)]
        rfl
      · simp [h2, h.masterRaised i hi h2, h.masterMask i hi h2, getLsbD_bit hi, Ne.symm h2]
  have hends (l : List ℕ) (hl : ∀ i ∈ l, i ≠ 2) : l.find? (fun i => if i = 2 then
      (slaveLines.find? fun n => raised n && enabled n).isSome else raised i && enabled i)
      = l.find? fun n => raised n && enabled n := by
    induction l with
    | nil => rfl
    | cons a l ih =>
      rw [List.find?_cons, List.find?_cons, if_neg (hl a List.mem_cons_self),
        ih fun i hi => hl i (List.mem_cons_of_mem a hi)]
  rw [Chip.request_idle h.masterServes, Chip.lowest, find_lines (fun i hi => List.mem_range.1 hi) hbits,
    show List.range 8 = [0, 1] ++ [2] ++ [3, 4, 5, 6, 7] by rfl, picPriority, List.find?_append,
    List.find?_append, List.find?_append, List.find?_append, hends [0, 1] (by decide),
    hends [3, 4, 5, 6, 7] (by decide)]
  have hfirst (l : List ℕ) (hl : ∀ i ∈ l, i < 8) : (l.find? fun n => raised n && enabled n)
      = (l.find? fun n => raised n && enabled n).map fun n => if n < 8 then n else 2 := by
    cases hfind : l.find? fun n => raised n && enabled n with
    | none => rfl
    | some n => exact congrArg some (if_pos (hl n (List.mem_of_find?_eq_some hfind))).symm
  rw [Option.map_or, Option.map_or, ← hfirst [0, 1] (by decide), ← hfirst [3, 4, 5, 6, 7] (by decide)]
  congr 2
  cases hfind : slaveLines.find? fun n => raised n && enabled n with
  | none => rfl
  | some k =>
    have hk : ¬k < 8 := by
      have := List.mem_of_find?_eq_some hfind
      simp only [slaveLines, List.mem_range'_1] at this
      omega
    simp [hk]

theorem mem_slaveLines {n : ℕ} : n ∈ slaveLines ↔ 8 ≤ n ∧ n < 16 := List.mem_range'_1

theorem ne_two_of_mem {n : ℕ} (h : n ∈ picPriority) : n < 16 ∧ n ≠ 2 := by
  revert n
  decide

/-- Nothing is up: the number of the master's line 7. -/
theorem acknowledge_none (h : PicsRefine p enabled raised none) (gone : BitVec 8)
    (hfind : (picPriority.find? fun n => raised n && enabled n) = none) :
    p.acknowledge gone = (p, 0x37) := by
  unfold Pics.acknowledge
  rw [h.master_request, hfind, h.masterBase]
  rfl

/-- A line of the master is taken into service. -/
theorem acknowledge_master (h : PicsRefine p enabled raised none) (gone : BitVec 8) {n : ℕ}
    (hfind : (picPriority.find? fun n => raised n && enabled n) = some n) (hlt : n < 8) :
    ∃ p', p.acknowledge gone = (p', 0x30 + BitVec.ofNat 8 n)
      ∧ PicsRefine p' enabled (Function.update raised n false) (some n) := by
  obtain ⟨hn, h2⟩ := ne_two_of_mem (List.mem_of_find?_eq_some hfind)
  have hdrop := h.drop hn
  unfold Pics.drop at hdrop
  rw [if_pos hlt] at hdrop
  unfold Pics.acknowledge
  rw [h.master_request, hfind, Option.map_some, if_pos hlt]
  dsimp only
  rw [if_neg h2, h.masterBase]
  refine ⟨_, rfl, { hdrop with masterServes := ?_, slaveServes := ?_, line := ?_ }⟩
  · rw [Chip.serve, h.masterServes, masterIsr, masterIsr, if_pos hlt]
    exact BitVec.zero_or
  · rw [slaveIsr, if_pos hlt]
    exact h.slaveServes
  · exact fun _ hk => Option.some_inj.1 hk ▸ ⟨hn, h2⟩

/-- The slave's lines that are taken back. -/
theorem gone (h : PicsRefine p enabled raised none) (gone : BitVec 8) :
    PicsRefine { p with slave := { p.slave with irr := p.slave.irr &&& ~~~gone } } enabled
      (fun n => raised n && (n < 8 || !gone.getLsbD (n - 8))) none :=
  { h with
    masterRaised := fun i hi hi2 => by
      rw [h.masterRaised i hi hi2]
      simp [hi]
    slaveRaised := fun i hi => by
      rw [BitVec.getLsbD_and, BitVec.getLsbD_not, h.slaveRaised i hi]
      simp [hi, show ¬8 + i < 8 by omega] }

/-- The slave's request is taken into service, and a line of the slave, when one is still up. -/
theorem acknowledge_slave (h : PicsRefine p enabled raised none) (gone : BitVec 8) {n : ℕ}
    (hfind : (picPriority.find? fun n => raised n && enabled n) = some n) (hge : 8 ≤ n)
    (raised' : ℕ → Bool) (hraised : raised' = fun n => raised n && (n < 8 || !gone.getLsbD (n - 8))) :
    (∃ k, (slaveLines.find? fun n => raised' n && enabled n) = some k
      ∧ ∃ p', p.acknowledge gone = (p', 0x30 + BitVec.ofNat 8 k)
        ∧ PicsRefine p' enabled (Function.update raised' k false) (some k))
    ∨ ((slaveLines.find? fun n => raised' n && enabled n) = none
      ∧ ∃ (p' : Pics) (m : Chip), p.acknowledge gone = ({ p' with master := m }, 0x3F) ∧ m.isr = bit 2
        ∧ PicsRefine { p' with master := { m with isr := 0 } } enabled raised' none) := by
  subst hraised
  have hgone := h.gone gone
  have hreq := hgone.slave_request
  unfold Pics.acknowledge
  rw [h.master_request, hfind, Option.map_some, if_neg (Nat.not_lt.2 hge)]
  dsimp only at hreq ⊢
  rw [if_pos rfl]
  have hserve : (p.master.serve picCascadingIrq).isr = bit 2 := by
    rw [Chip.serve, h.masterServes]
    exact BitVec.zero_or
  have hirr : p.master.irr &&& ~~~bit 2 = p.master.irr := byte_ext fun i hi => by
    rw [getLsbD_and_not_bit hi]
    by_cases h2 : 2 = i
    · rw [← h2, h.quiet, Bool.false_and]
    · rw [decide_eq_true h2, Bool.and_true]
  cases hfound : Chip.request { p.slave with irr := p.slave.irr &&& ~~~gone } (p.slave.irr &&& ~~~gone) with
  | none =>
    rw [hfound] at hreq
    refine .inr ⟨hreq.symm, { p with slave := { p.slave with irr := p.slave.irr &&& ~~~gone } },
      p.master.serve picCascadingIrq, ?_, hserve, ?_⟩
    · refine Prod.ext rfl ?_
      change p.slave.base + 7 = 0x3F
      rw [h.slaveBase]
      rfl
    · rw [Chip.serve, hirr]
      exact { hgone with masterServes := rfl }
  | some j =>
    rw [hfound] at hreq
    have hk := mem_slaveLines.1 (List.mem_of_find?_eq_some hreq.symm)
    have hdrop := hgone.drop hk.2
    unfold Pics.drop at hdrop
    rw [if_neg (Nat.not_lt.2 hk.1), Nat.add_sub_cancel_left] at hdrop
    refine .inl ⟨8 + j, hreq.symm, ⟨p.master.serve picCascadingIrq,
      Chip.serve { p.slave with irr := p.slave.irr &&& ~~~gone } j⟩, ?_, { hdrop with
      masterRaised := ?_, quiet := ?_, masterServes := ?_, slaveServes := ?_, line := ?_ }⟩
    · refine Prod.ext rfl ?_
      change p.slave.base + BitVec.ofNat 8 j = 0x30 + BitVec.ofNat 8 (8 + j)
      rw [h.slaveBase, BitVec.ofNat_add, ← BitVec.add_assoc]
      rfl
    · rw [Chip.serve, hirr]
      exact hdrop.masterRaised
    · rw [Chip.serve, hirr]
      exact h.quiet
    · rw [masterIsr, if_neg (Nat.not_lt.2 hk.1)]
      exact hserve
    · rw [slaveIsr, if_neg (Nat.not_lt.2 hk.1), Nat.add_sub_cancel_left]
      refine (congrArg (· ||| bit j) h.slaveServes).trans ?_
      exact BitVec.zero_or
    · exact fun _ hk' => Option.some_inj.1 hk' ▸ ⟨hk.2, by omega⟩

end PicsRefine

end RTLKIM
