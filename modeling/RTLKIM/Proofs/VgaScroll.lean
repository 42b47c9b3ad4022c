import Mathlib.Tactic.SplitIfs
import RTLKIM.Lib.Loop
import RTLKIM.VgaText

/-!
# What a scroll leaves on the screen

The lines are moved up one at a time, each time with the last line left as it is, and the last line is
cleared once at the end. After `k` moves a line shows what was `k` below it, or the last line.
-/

namespace RTLKIM

namespace VgaText

variable (s : VgaText)

/-- The data after `k` rounds of the scroll. -/
def moved (k : ℕ) : VgaText :=
  { s with
    framebuffer := fun i =>
      if i < 2000 then s.framebuffer (i % 80 + min (i / 80 + k) 24 * 80) else s.framebuffer i
    lastColumns := fun i =>
      if i + k < 25 then s.lastColumns (i + k) else if i < 25 then 0 else s.lastColumns i }

/-- The data in round `k` of the scroll, with `m` lines moved. -/
def moving (k m : ℕ) : VgaText :=
  { s with
    framebuffer := fun i => (s.moved (if i < m * 80 then k + 1 else k)).framebuffer i
    lastColumns := fun i => (s.moved (if i < m then k + 1 else k)).lastColumns i }

theorem moved_zero : s.moved 0 = s := by
  unfold moved
  congr 1
  · funext i
    split_ifs with hi
    · have h : min (i / 80 + 0) 24 = i / 80 := by omega
      rw [h, Nat.mod_add_div' i 80]
    · rfl
  · funext i
    split_ifs with hi hi'
    · rfl
    · omega
    · rfl

theorem moving_zero (k : ℕ) : s.moving k 0 = s.moved k := by
  unfold moving
  simp only [Nat.zero_mul, Nat.not_lt_zero, if_false]
  rfl

theorem vgaGetFramebuffer_of_lt {line column : ℕ} (hl : line < 25) (hc : column < 80) :
    vgaGetFramebuffer line column = column + line * 80 := by
  unfold vgaGetFramebuffer vgaTextScreenLineSize vgaTextScreenColSize
  exact if_neg (by omega)

theorem moveFramebuffer_of_le {dst src n : ℕ} (hd : dst + n ≤ 2000) (hs : src + n ≤ 2000) :
    s.moveFramebuffer dst src n = some { s with framebuffer := fun i =>
      if dst ≤ i ∧ i < dst + n then s.framebuffer (src + (i - dst)) else s.framebuffer i } :=
  if_pos ⟨hd, hs⟩

theorem lastColumn_of_lt {i : ℕ} (hi : i < 25) : s.lastColumn i = some (s.lastColumns i) := if_pos hi

theorem setLastColumn_of_lt {i : ℕ} (hi : i < 25) (v : ℕ) : s.setLastColumn i v
    = some { s with lastColumns := Function.update s.lastColumns i (UInt8.ofNat v) } := if_pos hi

/-- A line of the frame buffer moves up. -/
theorem moved_line (k : ℕ) {i : ℕ} (hi : i < 1920) :
    (s.moved k).framebuffer (i + 80) = (s.moved (k + 1)).framebuffer i := by
  unfold moved
  simp only []
  rw [if_pos (by omega), if_pos (by omega)]
  have hdiv : (i + 80) / 80 + k = i / 80 + (k + 1) := by omega
  rw [hdiv, Nat.add_mod_right]

theorem moved_column (k : ℕ) {i : ℕ} (hi : i < 24) :
    (s.moved k).lastColumns (i + 1) = (s.moved (k + 1)).lastColumns i := by
  unfold moved
  simp only []
  have hik : i + 1 + k = i + (k + 1) := by omega
  rw [hik]
  split_ifs with h h' h''
  · rfl
  · rfl
  · omega
  · omega
  · omega

/-- Past the lines that move up there is the last line, which stays. -/
theorem moved_last (k : ℕ) {i : ℕ} (hi : 1920 ≤ i) :
    (s.moved (k + 1)).framebuffer i = (s.moved k).framebuffer i := by
  unfold moved
  simp only []
  split_ifs with h
  · have hmin : min (i / 80 + (k + 1)) 24 = min (i / 80 + k) 24 := by omega
    rw [hmin]
  · rfl

theorem copyLine_moving (k : ℕ) {m : ℕ} (hm : m < 24) :
    (s.moving k m).copyLine m = some (s.moving k (m + 1)) := by
  unfold copyLine vgaTextScreenColSize
  rw [vgaGetFramebuffer_of_lt (by omega) (by omega), vgaGetFramebuffer_of_lt (by omega) (by omega),
    moveFramebuffer_of_le _ (by omega) (by omega)]
  simp only [Option.bind_eq_bind, Option.bind_some]
  rw [lastColumn_of_lt _ (by omega), Option.bind_some, setLastColumn_of_lt _ (by omega),
    UInt8.ofNat_toNat]
  refine congrArg some ?_
  unfold moving
  congr 1
  · funext i
    simp only []
    by_cases hi : 0 + m * 80 ≤ i ∧ i < 0 + m * 80 + 80
    · rw [if_pos hi, if_neg (by omega), if_pos (by omega)]
      have hsrc : 0 + (m + 1) * 80 + (i - (0 + m * 80)) = i + 80 := by omega
      rw [hsrc]
      exact s.moved_line k (by omega)
    · rw [if_neg hi]
      by_cases h : i < m * 80
      · rw [if_pos h, if_pos (by omega)]
      · rw [if_neg h, if_neg (by omega)]
  · funext i
    simp only []
    by_cases hi : i = m
    · rw [hi, Function.update_self, if_neg (by omega), if_pos (by omega)]
      exact s.moved_column k hm
    · rw [Function.update_of_ne hi]
      by_cases h : i < m
      · rw [if_pos h, if_pos (by omega)]
      · rw [if_neg h, if_neg (by omega)]

theorem moving_last (k : ℕ) {i : ℕ} :
    (s.moving k 24).framebuffer i = (s.moved (k + 1)).framebuffer i := by
  unfold moving
  simp only []
  split_ifs with hi
  · rfl
  · exact (s.moved_last k (by omega)).symm

theorem moving_last_column (k : ℕ) {i : ℕ} (hi : i ≠ 24) :
    (s.moving k 24).lastColumns i = (s.moved (k + 1)).lastColumns i := by
  unfold moving
  simp only []
  split_ifs with h
  · rfl
  · unfold moved
    simp only []
    rw [if_neg (by omega), if_neg (by omega), if_neg (by omega)]

theorem scrollLine_moved (k : ℕ) : (s.moved k).scrollLine = some (s.moved (k + 1)) := by
  have hloop : (List.range 24).foldlM copyLine (s.moved k) = some (s.moving k 24) := by
    rw [← moving_zero]
    exact foldlM_range_eq fun m hm => s.copyLine_moving k hm
  have hlast : (s.moved (k + 1)).lastColumns 24 = 0 := by
    unfold moved
    simp only []
    rw [if_neg (by omega), if_pos (by omega)]
  have hcolumns : Function.update (s.moving k 24).lastColumns 24 (UInt8.ofNat 0)
      = (s.moved (k + 1)).lastColumns := by
    funext i
    by_cases hi : i = 24
    · rw [hi, Function.update_self, hlast]
      rfl
    · rw [Function.update_of_ne hi, s.moving_last_column k hi]
  unfold scrollLine
  simp only [vgaTextScreenLineSize, Nat.reduceSub]
  rw [hloop, Option.bind_eq_bind, Option.bind_some, setLastColumn_of_lt _ (by omega), hcolumns]
  refine congrArg some ?_
  exact congrArg (VgaText.mk · _ _ _ _) (funext fun i => s.moving_last k)

theorem scrollLine_loop (k : ℕ) :
    (List.range k).foldlM (fun s _ => s.scrollLine) s = some (s.moved k) := by
  have h := foldlM_range_eq (n := k) (f := fun (s : VgaText) _ => s.scrollLine) (g := s.moved)
    fun i _ => s.scrollLine_moved i
  rwa [moved_zero] at h

theorem vgaPrintChar_of_lt {line column : ℕ} (hl : line < 25) (hc : column < 80) (c : Int8) :
    s.vgaPrintChar line column c = some ({ s with
      framebuffer := Function.update s.framebuffer (column + line * 80) (cell s.screenScheme c) },
      true) := by
  unfold vgaPrintChar vgaTextScreenLineSize vgaTextScreenColSize
  rw [if_neg (by omega), vgaGetFramebuffer_of_lt hl hc]
  unfold setFramebuffer vgaTextScreenLineSize vgaTextScreenColSize
  rw [if_pos (by omega), Option.map_some]

/-- The data after `m` rounds of the loop that clears the last line. -/
def cleared (m : ℕ) : VgaText :=
  { s with framebuffer := fun i =>
      if 1920 ≤ i ∧ i < 1920 + m then cell s.screenScheme 32 else s.framebuffer i }

theorem cleared_zero : s.cleared 0 = s := by
  unfold cleared
  refine congrArg (VgaText.mk · _ _ _ _) (funext fun i => ?_)
  exact if_neg (by omega)

theorem clearLastLine_eq : s.clearLastLine = some (s.cleared 80) := by
  have h := foldlM_range_eq (n := 80) (g := s.cleared)
    (f := fun s i => (s.vgaPrintChar (vgaTextScreenLineSize - 1) i 32).map Prod.fst) fun i hi => by
      rw [vgaPrintChar_of_lt _ (by decide) hi, Option.map_some]
      refine congrArg some (congrArg (VgaText.mk · _ _ _ _) (funext fun j => ?_))
      by_cases hj : j = i + (vgaTextScreenLineSize - 1) * 80
      · rw [hj, Function.update_self]
        refine (if_pos ?_).symm
        simp only [vgaTextScreenLineSize]
        omega
      · rw [Function.update_of_ne hj]
        simp only [vgaTextScreenLineSize] at hj
        unfold cleared
        simp only []
        split_ifs
        · rfl
        · omega
        · omega
        · rfl
  rwa [cleared_zero] at h

theorem vgaPutCursorAt_of_le {line column : ℕ} (hl : line ≤ 25) (hc : column ≤ 80) :
    s.vgaPutCursorAt line column = ({ s with screenCursor := ⟨column, line⟩ }, true) := by
  unfold vgaPutCursorAt vgaTextScreenLineSize vgaTextScreenColSize
  exact if_neg (by omega)

/-- The data after a scroll by `k` lines. -/
def scrolled (k : ℕ) (lastPrinted : Cursor) : VgaText :=
  { (s.moved k).cleared 80 with
    screenCursor := ⟨0, 25 - k⟩
    lastPrintedCursor := lastPrinted }

theorem vgaScroll_down (n : ℕ) :
    ∃ lastPrinted, s.vgaScroll .down n = some (s.scrolled (min n 25) lastPrinted) := by
  have hmin : (if vgaTextScreenLineSize < n then vgaTextScreenLineSize else n) = min n 25 := by
    simp only [vgaTextScreenLineSize]
    split_ifs <;> omega
  unfold vgaScroll
  rw [hmin, if_pos rfl, scrollLine_loop]
  simp only [Option.bind_eq_bind, Option.bind_some, clearLastLine_eq]
  rw [vgaPutCursorAt_of_le _ (by simp only [vgaTextScreenLineSize]; omega) (by omega)]
  split_ifs
  · exact ⟨_, rfl⟩
  · exact ⟨_, rfl⟩

theorem shown_scrolled {k i j : ℕ} (lastPrinted : Cursor) (hi : i < 24) (hj : j < 80) :
    (s.scrolled k lastPrinted).shown i j = s.shown (min (i + k) 24) j := by
  have hdiv : (j + i * 80) / 80 = i := by omega
  unfold shown scrolled cleared moved vgaTextScreenColSize
  simp only []
  rw [if_neg (by omega), if_pos (by omega), Nat.add_mul_mod_self_right, Nat.mod_eq_of_lt hj, hdiv]

theorem shown_scrolled_last {k j : ℕ} (lastPrinted : Cursor) (hj : j < 80) :
    (s.scrolled k lastPrinted).shown 24 j = cell s.screenScheme 32 := by
  unfold shown scrolled cleared vgaTextScreenColSize
  simp only []
  rw [if_pos (by omega)]
  rfl

theorem lastColumns_scrolled {k i : ℕ} (lastPrinted : Cursor) (hi : i < 25 - k) :
    (s.scrolled k lastPrinted).lastColumns i = s.lastColumns (i + k) := by
  unfold scrolled cleared moved
  simp only []
  rw [if_pos (by omega)]

theorem lastColumns_scrolled_zero {k i : ℕ} (lastPrinted : Cursor) (hi : i < 25) (hk : 25 - k ≤ i) :
    (s.scrolled k lastPrinted).lastColumns i = 0 := by
  unfold scrolled cleared moved
  simp only []
  rw [if_neg (by omega), if_pos hi]

/-- The lines above the last show what the last line showed, when they are past the shift. -/
theorem scrolls_of_blank {n : ℕ} (hn : 1 ≤ n) (hblank : 2 ≤ n → s.Blank 24) : s.Scrolls n := by
  obtain ⟨lastPrinted, h⟩ := s.vgaScroll_down n
  refine ⟨_, h, ?_, ?_, ?_, ?_, ?_⟩
  · intro i (hi : i < 25 - min n 25) j (hj : j < 80)
    rw [shown_scrolled _ _ (by omega) hj]
    have hmin : min (i + min n 25) 24 = i + min n 25 := by omega
    rw [hmin]
  · intro i (hi : i < 25) (hk : 25 - min n 25 ≤ i) j (hj : j < 80)
    by_cases hlast : i = 24
    · rw [hlast]
      exact s.shown_scrolled_last lastPrinted hj
    · rw [shown_scrolled _ _ (by omega) hj]
      have hmin : min (i + min n 25) 24 = 24 := by omega
      rw [hmin]
      exact hblank (by omega) j hj
  · intro i hi
    exact s.lastColumns_scrolled lastPrinted hi
  · intro i hi hk
    exact s.lastColumns_scrolled_zero lastPrinted hi hk
  · unfold OnScreen scrolled vgaTextScreenLineSize vgaTextScreenColSize
    simp only []
    omega

/-- A scroll by no line leaves the cursor under the screen. -/
theorem not_scrolls_zero : ¬ s.Scrolls 0 := by
  rintro ⟨s', h, hs⟩
  obtain ⟨lastPrinted, hs'⟩ := s.vgaScroll_down 0
  rw [hs'] at h
  obtain rfl := Option.some_inj.1 h
  have hy : 25 - min 0 25 < 25 := hs.onScreen.2
  omega

theorem blank_of_scrolls {n : ℕ} (hn : 2 ≤ n) (hs : s.Scrolls n) : s.Blank 24 := by
  obtain ⟨s', h, hs⟩ := hs
  obtain ⟨lastPrinted, hs'⟩ := s.vgaScroll_down n
  rw [hs'] at h
  obtain rfl := Option.some_inj.1 h
  intro j hj
  -- line 23 is among those to be blank, and it shows the last line
  have h23 := hs.blank 23 (by decide) (show 25 - min n 25 ≤ 23 by omega) j hj
  have hmin : min (23 + min n 25) 24 = 24 := by omega
  rw [shown_scrolled _ _ (by omega) hj, hmin] at h23
  exact h23

/-- A scroll down by more than one line is right only when the last line is already blank, and a
scroll by no line is not right. -/
theorem scrolls_iff (n : ℕ) : s.Scrolls n ↔ n = 1 ∨ 2 ≤ n ∧ s.Blank 24 := by
  constructor
  · intro h
    have h0 : n ≠ 0 := by
      rintro rfl
      exact s.not_scrolls_zero h
    by_cases h1 : n = 1
    · exact .inl h1
    · exact .inr ⟨by omega, s.blank_of_scrolls (by omega) h⟩
  · rintro (rfl | ⟨hn, hblank⟩)
    · exact s.scrolls_of_blank le_rfl fun h => absurd h (by omega)
    · exact s.scrolls_of_blank (by omega) fun _ => hblank

/-- Two lines, with a letter in each place of the screen. -/
theorem not_scrolls : ¬ (initial (fun _ => 0x0F41) ⟨0x0F, 0⟩).Scrolls 2 := by
  intro h
  exact absurd (blank_of_scrolls _ le_rfl h 0 (by decide)) (by decide)

end VgaText

end RTLKIM
