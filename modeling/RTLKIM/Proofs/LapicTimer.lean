import Mathlib.Tactic.SplitIfs
import RTLKIM.LapicTimer

/-!
# When the timer does not divide by zero

The count of the timer is a quotient of the frequency that was measured, so it is not greater, and the
frequency that is computed back from a count that is not 0 is not 0. A frequency that is represented
leaves a count that is not 0; any other one is an error.
-/

namespace RTLKIM

theorem divide_of_ne {a b : UInt32} (h : b ≠ 0) : divide a b = some (a / b) := if_neg h

theorem divide_zero (a : UInt32) : divide a 0 = none := rfl

theorem div_ne_zero_iff {a b : UInt32} : a / b ≠ 0 ↔ 0 < b ∧ b ≤ a := by
  rw [ne_eq, ← UInt32.toNat_inj, UInt32.toNat_div, UInt32.lt_iff_toNat_lt, UInt32.le_iff_toNat_le]
  exact Nat.div_ne_zero_iff.trans (and_congr_left' Nat.pos_iff_ne_zero.symm)

theorem div_le (a b : UInt32) : a / b ≤ a := by
  rw [UInt32.le_iff_toNat_le, UInt32.toNat_div]
  exact Nat.div_le_self _ _

namespace LapicTimer

/-- The timer is there, and its count is not above the frequency that was measured. -/
structure Inv (s : LapicTimer) : Prop where
  available : s.apicAvailable = true
  count_le : s.globalLapicFreq ≤ s.initLapicTimerFrequency

variable {s s' : LapicTimer}

/-- A frequency that is represented is set. -/
theorem call_setFrequency (h : Inv s) {f : UInt32} (hf : f ≠ 0) : s.call (.setFrequency f)
    = some ({ s with
        globalLapicFreq := s.initLapicTimerFrequency / f
        ticr := s.initLapicTimerFrequency / f }, .noErr) := by
  unfold call lapicTimerSetFrequency
  simp only []
  rw [if_neg (by simp [h.available]), divide_of_ne hf, Option.map_some]

theorem call_setFrequency_zero (h : Inv s) : s.call (.setFrequency 0) = none := by
  unfold call lapicTimerSetFrequency
  simp only []
  rw [if_neg (by simp [h.available]), divide_zero, Option.map_none]

/-- The other calls change nothing. -/
theorem call_of_divides (h : Inv s) {c : Call} (hc : s.Divides c) (hcount : s.globalLapicFreq ≠ 0) :
    s.call c = some (s, .noErr) := by
  have hget : s.lapicTimerGetFrequency = some (s.initLapicTimerFrequency / s.globalLapicFreq) :=
    divide_of_ne hcount
  have hpos : s.initLapicTimerFrequency / s.globalLapicFreq ≠ 0 :=
    div_ne_zero_iff.2 ⟨UInt32.pos_iff_ne_zero.2 hcount, h.count_le⟩
  cases c with
  | setFrequency f => exact hc.elim
  | getFrequency =>
    unfold call
    simp only []
    rw [hget, Option.map_some]
  | getCurrentUptime cpuId =>
    have hmain : s.mainTimer = true := hc
    unfold call timeGetCurrentUptime
    simp only []
    rw [if_neg (by simp [hmain]), hget, Option.bind_some, divide_of_ne hpos]
    rfl

theorem call_of_divides_zero {c : Call} (hc : s.Divides c) (hcount : s.globalLapicFreq = 0) :
    s.call c = none := by
  have hget : s.lapicTimerGetFrequency = none := if_pos hcount
  cases c with
  | setFrequency f => exact hc.elim
  | getFrequency =>
    unfold call
    simp only []
    rw [hget, Option.map_none]
  | getCurrentUptime cpuId =>
    have hmain : s.mainTimer = true := hc
    unfold call timeGetCurrentUptime
    simp only []
    rw [if_neg (by simp [hmain]), hget]
    rfl

/-- Before the time manager is set up the uptime is 0. -/
theorem call_of_not_divides {c : Call} (hc : ¬ s.Divides c) (hset : ∀ f, c ≠ .setFrequency f) :
    s.call c = some (s, .noErr) := by
  cases c with
  | setFrequency f => exact absurd rfl (hset f)
  | getFrequency => exact absurd trivial hc
  | getCurrentUptime cpuId =>
    have hmain : s.mainTimer = false := Bool.eq_false_iff.2 hc
    unfold call timeGetCurrentUptime
    simp only []
    rw [if_pos hmain, Option.map_some]

/-! ## Runs -/

/-- Once a frequency is set, the calls after it divide by its count. -/
theorem setBefore_setFrequency (f : UInt32) (cs pre : List Call) (c : Call) (post : List Call)
    (h : .setFrequency f :: cs = pre ++ c :: post) (hc : s.Divides c) :
    ∃ g, Call.setFrequency g ∈ pre := by
  rcases pre with _ | ⟨d, pre⟩
  · obtain ⟨rfl, -⟩ := List.cons.inj h
    exact hc.elim
  · obtain ⟨rfl, -⟩ := List.cons.inj h
    exact ⟨f, List.mem_cons_self⟩

theorem runFits_setFrequency {f : UInt32} {cs : List Call} {s' : LapicTimer}
    (hinit : s'.initLapicTimerFrequency = s.initLapicTimerFrequency)
    (hcount : s'.globalLapicFreq ≠ 0) (hf : s.Represents f) :
    s.RunFits (.setFrequency f :: cs) ↔ s'.RunFits cs := by
  have hrep (g : UInt32) : s'.Represents g ↔ s.Represents g := by
    unfold Represents
    rw [hinit]
  constructor
  · intro h
    exact ⟨fun g hg => (hrep g).2 (h.1 g (List.mem_cons_of_mem _ hg)), .inl hcount⟩
  · intro h
    refine ⟨fun g hg => ?_, .inr (setBefore_setFrequency f cs)⟩
    rcases List.mem_cons.1 hg with heq | hg
    · exact Call.setFrequency.inj heq ▸ hf
    · exact (hrep g).1 (h.1 g hg)

theorem runFits_cons {c : Call} (hset : ∀ f, c ≠ .setFrequency f) {cs : List Call} :
    s.RunFits (c :: cs) ↔ (s.Divides c → s.globalLapicFreq ≠ 0) ∧ s.RunFits cs := by
  constructor
  · rintro ⟨hrep, hcount⟩
    refine ⟨fun hc => ?_, fun f hf => hrep f (List.mem_cons_of_mem c hf), ?_⟩
    · rcases hcount with hcount | hbefore
      · exact hcount
      · obtain ⟨f, hf⟩ := hbefore [] c cs rfl hc
        exact absurd hf List.not_mem_nil
    · refine hcount.imp_right fun hbefore pre d post hcs hd => ?_
      obtain ⟨f, hf⟩ := hbefore (c :: pre) d post (congrArg (c :: ·) hcs) hd
      exact ⟨f, (List.mem_cons.1 hf).resolve_left (hset f).symm⟩
  · rintro ⟨hc, hrep, hcount⟩
    refine ⟨fun f hf => hrep f ((List.mem_cons.1 hf).resolve_left (hset f).symm), ?_⟩
    by_cases hzero : s.globalLapicFreq = 0
    · refine .inr fun pre d post hcs hd => ?_
      rcases pre with _ | ⟨e, pre⟩
      · obtain ⟨rfl, -⟩ := List.cons.inj hcs
        exact absurd hzero (hc hd)
      · obtain ⟨rfl, hcs'⟩ := List.cons.inj hcs
        obtain ⟨f, hf⟩ := hcount.resolve_left (not_not.2 hzero) pre d post hcs' hd
        exact ⟨f, List.mem_cons_of_mem _ hf⟩
    · exact .inl hzero

/-- A call that sets nothing, before the rest of a run. -/
theorem runRight_cons {c : Call} (h : Inv s) (hset : ∀ f, c ≠ .setFrequency f) {cs : List Call} :
    s.RunRight (c :: cs) ↔ (s.Divides c → s.globalLapicFreq ≠ 0) ∧ s.RunRight cs := by
  have hgo (hcall : s.call c = some (s, .noErr)) : s.RunRight (c :: cs) ↔ s.RunRight cs := by
    constructor
    · rintro ⟨s', err, hs', -, hrest⟩
      rw [hcall] at hs'
      obtain ⟨rfl, -⟩ := Prod.mk.inj (Option.some_inj.1 hs')
      exact hrest
    · exact fun hrest => ⟨s, .noErr, hcall, fun f hf => absurd hf (hset f), hrest⟩
  by_cases hc : s.Divides c
  · by_cases hcount : s.globalLapicFreq = 0
    · refine iff_of_false ?_ fun hr => hr.1 hc hcount
      rintro ⟨s', err, hs', -⟩
      rw [call_of_divides_zero hc hcount] at hs'
      exact absurd hs' (by simp)
    · rw [hgo (call_of_divides h hc hcount), and_iff_right fun _ => hcount]
  · rw [hgo (call_of_not_divides hc hset), and_iff_right fun hd => absurd hd hc]

theorem runRight_iff_fits : ∀ {calls : List Call} {s : LapicTimer}, Inv s →
    (s.RunRight calls ↔ s.RunFits calls)
  | [], s, _ => by
    refine iff_of_true trivial ⟨fun f hf => absurd hf List.not_mem_nil, .inr fun pre c post h => ?_⟩
    exact absurd (congrArg List.length h) (by simp)
  | .setFrequency f :: cs, s, h => by
    by_cases hf : s.Represents f
    · have hcount : s.initLapicTimerFrequency / f ≠ 0 := div_ne_zero_iff.2 hf
      have hcall := call_setFrequency h (UInt32.pos_iff_ne_zero.1 hf.1)
      have hinv : Inv { s with
          globalLapicFreq := s.initLapicTimerFrequency / f
          ticr := s.initLapicTimerFrequency / f } := ⟨h.available, div_le _ _⟩
      have hfits : s.RunFits (.setFrequency f :: cs) ↔ LapicTimer.RunFits { s with
          globalLapicFreq := s.initLapicTimerFrequency / f
          ticr := s.initLapicTimerFrequency / f } cs := runFits_setFrequency rfl hcount hf
      rw [hfits, ← runRight_iff_fits hinv]
      constructor
      · rintro ⟨s', err, hs', -, hrest⟩
        rw [hcall] at hs'
        obtain ⟨rfl, -⟩ := Prod.mk.inj (Option.some_inj.1 hs')
        exact hrest
      · intro hrest
        exact ⟨_, _, hcall, fun g hg hng => absurd (Call.setFrequency.inj hg ▸ hf) hng, hrest⟩
    · refine iff_of_false ?_ fun hfits => hf (hfits.1 f List.mem_cons_self)
      rintro ⟨s', err, hs', hrefused, -⟩
      by_cases hzero : f = 0
      · rw [hzero, call_setFrequency_zero h] at hs'
        exact absurd hs' (by simp)
      · -- the frequency is accepted, with a count of 0
        rw [call_setFrequency h hzero] at hs'
        obtain ⟨-, rfl⟩ := Prod.mk.inj (Option.some_inj.1 hs')
        exact (hrefused f rfl hf).1 rfl
  | .getFrequency :: cs, s, h => by
    rw [runRight_cons h (by simp), runFits_cons (by simp), runRight_iff_fits h]
  | .getCurrentUptime cpuId :: cs, s, h => by
    rw [runRight_cons h (by simp), runFits_cons (by simp), runRight_iff_fits h]

/-- `lapic_timer_init` leaves a measured timer, whatever was in its data. -/
theorem lapicTimerInit_eq (s : LapicTimer) (h : s.apicAvailable = true) (tccr : UInt32) :
    s.lapicTimerInit tccr = some (measured tccr s.mainTimer s.sysTickCount, .noErr) := by
  obtain ⟨available, frequency, count, ticr, mainTimer, sysTickCount⟩ := s
  obtain rfl : available = true := h
  rfl

/-- A run divides by zero nowhere, and refuses what it should, exactly when it sets only frequencies that
are represented and divides by the count only when one was set, or 100 is represented. -/
theorem runRight_iff (tccr : UInt32) (mainTimer : Bool) (sysTickCount : ℕ → UInt64)
    (calls : List Call) :
    (measured tccr mainTimer sysTickCount).RunRight calls ↔
      (∀ f, .setFrequency f ∈ calls → (measured tccr mainTimer sysTickCount).Represents f)
        ∧ ((measured tccr mainTimer sysTickCount).Represents lapicInitFreq
          ∨ ∀ pre c post, calls = pre ++ c :: post →
            (measured tccr mainTimer sysTickCount).Divides c → ∃ f, .setFrequency f ∈ pre) := by
  have hinv : Inv (measured tccr mainTimer sysTickCount) := ⟨rfl, div_le _ _⟩
  rw [runRight_iff_fits hinv]
  exact and_congr_right' (or_congr_left div_ne_zero_iff)

/-- A frequency of 0 on a timer that was measured at 10 MHz. -/
theorem not_runRight : ¬ (measured (0xFFFFFFFF - 100000) true fun _ => 0).RunRight
    [.setFrequency 0] := by
  rintro ⟨s', err, h, -⟩
  exact absurd h (by rw [call_setFrequency_zero ⟨rfl, div_le _ _⟩]; simp)

end LapicTimer

end RTLKIM
