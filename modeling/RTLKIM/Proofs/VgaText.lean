import RTLKIM.Proofs.VgaScroll

/-!
# The console stays on the screen, but for its last place

From a cursor on the screen every character but one leads to a cursor on the screen with no index out
of range. A character shown in the last place puts the cursor on line 25, and `last_columns[25]` is
set before the scroll.
-/

namespace RTLKIM

namespace VgaText

variable {s : VgaText}

theorem moveCursor_of_lt {line column : ℕ} (hl : line < 25) (hc : column ≤ 80) :
    s.moveCursor line column = some { s with
      screenCursor := ⟨column, line⟩
      lastColumns := Function.update s.lastColumns line (UInt8.ofNat column) } := by
  unfold moveCursor
  rw [vgaPutCursorAt_of_le s hl.le hc, setLastColumn_of_lt _ hl]

theorem moveCursor_onScreen {line column : ℕ} (hl : line < 25) (hc : column < 80) :
    ∃ s', s.moveCursor line column = some s' ∧ OnScreen s'.screenCursor :=
  ⟨_, moveCursor_of_lt hl hc.le, hc, hl⟩

/-- Line 25 can be moved to, but it has no last column. -/
theorem moveCursor_below : s.moveCursor 25 0 = none := by
  unfold moveCursor
  rw [vgaPutCursorAt_of_le s le_rfl (by omega)]
  exact if_neg (Nat.lt_irrefl 25)

theorem printBlank_onScreen (h : OnScreen s.screenCursor) :
    ∃ s', s.printBlank = some s' ∧ OnScreen s'.screenCursor := by
  unfold printBlank
  rw [vgaPrintChar_of_lt s h.2 h.1, Option.map_some]
  exact ⟨_, rfl, h⟩

theorem scroll_onScreen : ∃ s', s.vgaScroll .down 1 = some s' ∧ OnScreen s'.screenCursor := by
  obtain ⟨lastPrinted, h⟩ := s.vgaScroll_down 1
  exact ⟨_, h, show 0 < 80 by omega, show 24 < 25 by omega⟩

theorem clearPlace_onScreen {i j : ℕ} (hi : i < 25) (hj : j < 80) (h : OnScreen s.screenCursor) :
    ∃ s', s.setFramebuffer (vgaGetFramebuffer i j) (cell s.screenScheme 32) = some s'
      ∧ OnScreen s'.screenCursor := by
  rw [vgaGetFramebuffer_of_lt hi hj]
  refine ⟨_, if_pos ?_, h⟩
  simp only [vgaTextScreenLineSize, vgaTextScreenColSize]
  omega

theorem vgaClearScreen_onScreen (h : OnScreen s.screenCursor) :
    ∃ s', s.vgaClearScreen = some s' ∧ OnScreen s'.screenCursor := by
  refine foldlM_inv (P := fun s : VgaText => OnScreen s.screenCursor) (fun i hi s hs => ?_) h
  have hi' := List.mem_range.1 hi
  obtain ⟨s₁, h₁, hs₁⟩ := foldlM_inv (P := fun s : VgaText => OnScreen s.screenCursor)
    (fun j hj (t : VgaText) ht => clearPlace_onScreen (s := t) hi' (List.mem_range.1 hj) ht) hs
  rw [h₁, Option.bind_eq_bind, Option.bind_some, setLastColumn_of_lt _ hi']
  exact ⟨_, rfl, hs₁⟩

/-- What is in `last_columns` is not relied on: the column is made to fit the line. -/
theorem backspaceLine_onScreen (hy : s.screenCursor.y < 25) :
    ∃ s', s.backspaceLine = some s' ∧ OnScreen s'.screenCursor := by
  have hline : s.screenCursor.y - 1 < 25 := by omega
  unfold backspaceLine
  simp only [lastColumn_of_lt _ hline, setLastColumn_of_lt _ hline, Option.bind_eq_bind,
    Option.bind_some, vgaTextScreenColSize]
  split_ifs with hcol
  · simp only [Function.update_self]
    rw [vgaPutCursorAt_of_le _ hline.le (by decide)]
    exact printBlank_onScreen ⟨show 79 < 80 by omega, hline⟩
  · rw [vgaPutCursorAt_of_le _ hline.le (by omega)]
    exact printBlank_onScreen ⟨not_le.1 hcol, hline⟩

theorem backspace_onScreen (h : OnScreen s.screenCursor) :
    ∃ s', s.backspace = some s' ∧ OnScreen s'.screenCursor := by
  obtain ⟨hx, hy⟩ := h
  have hback : ∃ s', (do
      let s ← s.moveCursor s.screenCursor.y (s.screenCursor.x - 1)
      s.printBlank) = some s' ∧ OnScreen s'.screenCursor := by
    obtain ⟨s₁, h₁, hs₁⟩ := moveCursor_onScreen (s := s) hy
      (show s.screenCursor.x - 1 < 80 from lt_of_le_of_lt (Nat.sub_le _ _) hx)
    rw [h₁]
    exact printBlank_onScreen hs₁
  unfold backspace
  simp only []
  split_ifs with heq hlt hbelow hpos
  · exact hback
  · exact ⟨s, rfl, hx, hy⟩
  · exact hback
  · exact backspaceLine_onScreen hy
  · exact ⟨s, rfl, hx, hy⟩

theorem tab_onScreen (h : OnScreen s.screenCursor) :
    ∃ s', s.tab = some s' ∧ OnScreen s'.screenCursor := by
  obtain ⟨hx, hy⟩ := h
  simp only [vgaTextScreenLineSize, vgaTextScreenColSize] at hx hy
  unfold tab
  simp only [vgaTextScreenColSize]
  split_ifs with hfit
  · exact moveCursor_onScreen hy (by omega)
  · exact moveCursor_onScreen hy (by omega)

theorem lineFeed_onScreen : ∃ s', s.lineFeed = some s' ∧ OnScreen s'.screenCursor := by
  unfold lineFeed
  split_ifs with h
  · simp only [vgaTextScreenLineSize] at h
    exact moveCursor_onScreen (by omega) (by omega)
  · exact scroll_onScreen

theorem showChar_onScreen (c : Int8) (h : OnScreen s.screenCursor)
    (hcorner : s.screenCursor ≠ ⟨79, 24⟩) :
    ∃ s', s.showChar c = some s' ∧ OnScreen s'.screenCursor := by
  obtain ⟨framebuffer, lastColumns, ⟨x, y⟩, lastPrinted, scheme⟩ := s
  obtain ⟨hx, hy⟩ := h
  simp only [vgaTextScreenLineSize, vgaTextScreenColSize] at hx hy
  unfold showChar
  simp only []
  rw [vgaPrintChar_of_lt _ hy hx, Option.bind_eq_bind, Option.bind_some]
  simp only [vgaTextScreenColSize, vgaTextScreenLineSize]
  by_cases hend : x = 79
  · have hnext : y + 1 < 25 := by
      by_contra hlast
      have hy24 : y = 24 := by omega
      exact hcorner (by rw [hend, hy24])
    rw [if_pos (by omega), moveCursor_of_lt hnext (by omega), Option.bind_eq_bind, Option.bind_some]
    simp only []
    rw [if_neg (by omega)]
    exact moveCursor_onScreen hnext (by omega)
  · rw [if_neg (by omega), Option.bind_eq_bind, Option.bind_some]
    simp only []
    rw [if_neg (by omega)]
    exact moveCursor_onScreen hy (by omega)

theorem showChar_corner (c : Int8) (h : s.screenCursor = ⟨79, 24⟩) : s.showChar c = none := by
  unfold showChar
  rw [h]
  simp only []
  rw [vgaPrintChar_of_lt _ (by omega) (by omega), Option.bind_eq_bind, Option.bind_some]
  simp only []
  rw [if_pos (by decide), moveCursor_below]
  rfl

theorem vgaProcessChar_onScreen {c : Int8} (h : OnScreen s.screenCursor)
    (hcorner : ¬ (Printable c ∧ s.screenCursor = ⟨79, 24⟩)) :
    ∃ s', s.vgaProcessChar c = some s' ∧ OnScreen s'.screenCursor := by
  unfold vgaProcessChar
  split_ifs with hp
  · exact showChar_onScreen c h fun hc => hcorner ⟨hp, hc⟩
  · split
    · exact backspace_onScreen h
    · exact tab_onScreen h
    · exact lineFeed_onScreen
    · exact vgaClearScreen_onScreen h
    · exact moveCursor_onScreen h.2 (by omega)
    · exact ⟨s, rfl, h⟩

theorem vgaProcessChar_corner {c : Int8} (hp : Printable c) (h : s.screenCursor = ⟨79, 24⟩) :
    s.vgaProcessChar c = none := by
  unfold vgaProcessChar
  rw [if_pos hp, showChar_corner c h]

/-- One character of a call. -/
theorem write_onScreen {w : Write} (h : OnScreen s.screenCursor) (hcorner : ¬ s.AtCorner w) :
    ∃ s', s.write w = some s' ∧ OnScreen s'.screenCursor := by
  obtain ⟨s', hs', hon⟩ := vgaProcessChar_onScreen h hcorner
  cases w with
  | put c => exact ⟨_, congrArg (Option.map _) hs', hon⟩
  | echo c => exact ⟨s', hs', hon⟩

theorem write_corner {w : Write} (h : s.AtCorner w) : s.write w = none := by
  have hnone := vgaProcessChar_corner h.1 h.2
  cases w with
  | put c => exact congrArg (Option.map _) hnone
  | echo c => exact hnone

/-! ## Runs -/

theorem call_eq (s : VgaText) : ∀ c : Call, s.call c = runEvents write s c.writes
  | .putChar character => by
    unfold Call.writes runEvents runEvents
    exact (Option.bind_fun_some _).symm
  | .putString string => by
    unfold Call.writes
    rw [runEvents_map]
    exact foldlM_eq_runEvents _ _ _
  | .consoleWriteKeyboard string size => by
    unfold Call.writes
    rw [runEvents_map]
    exact foldlM_eq_runEvents _ _ _

/-- The calls do what their characters do. -/
theorem runEvents_call : ∀ (calls : List Call) (s : VgaText),
    runEvents call s calls = runEvents write s (calls.flatMap Call.writes)
  | [], _ => rfl
  | c :: calls, s => by
    rw [List.flatMap_cons, runEvents_append, runEvents, call_eq]
    exact congrArg _ (funext fun s' => runEvents_call calls s')

/-- No character is to be shown in the last place. -/
theorem run_onScreen : ∀ {ws : List Write} {s : VgaText}, OnScreen s.screenCursor →
    (∀ us w, us ++ [w] <+: ws → ∀ t ∈ runEvents write s us, ¬ t.AtCorner w) →
    ∃ s', runEvents write s ws = some s' ∧ OnScreen s'.screenCursor
  | [], s, h, _ => ⟨s, rfl, h⟩
  | w :: ws, s, h, hcorner => by
    obtain ⟨s₁, h₁, hon⟩ := write_onScreen h (hcorner [] w (by simp) s rfl)
    have hrest : ∀ us u, us ++ [u] <+: ws → ∀ t ∈ runEvents write s₁ us, ¬ t.AtCorner u := by
      intro us u hus t ht
      refine hcorner (w :: us) u ((List.prefix_cons_inj w).2 hus) t ?_
      rw [runEvents, h₁]
      exact ht
    obtain ⟨s', hs', hon'⟩ := run_onScreen hon hrest
    refine ⟨s', ?_, hon'⟩
    rw [runEvents, h₁]
    exact hs'

/-- The calls stay in bounds exactly when they show no character in the last place of the screen. -/
theorem inBounds_iff (framebuffer : ℕ → UInt16) (scheme : ColorScheme) (calls : List Call) :
    (initial framebuffer scheme).InBounds calls ↔ ∀ ws w, ws ++ [w] <+: calls.flatMap Call.writes →
      ∀ s ∈ runEvents write (initial framebuffer scheme) ws, ¬ s.AtCorner w := by
  have h0 : OnScreen (initial framebuffer scheme).screenCursor :=
    ⟨show 0 < 80 by omega, show 0 < 25 by omega⟩
  constructor
  · rintro ⟨⟨s', hs'⟩, -⟩ ws w hws s hs hcorner
    rw [runEvents_call] at hs'
    obtain ⟨rest, hrest⟩ := hws
    rw [← hrest, runEvents_append, runEvents_append, Option.mem_def.1 hs, Option.bind_some, runEvents,
      write_corner hcorner] at hs'
    exact absurd hs' (by simp)
  · intro hcorner
    refine ⟨?_, fun ws hws s hs => ?_⟩
    · obtain ⟨s', hs', -⟩ := run_onScreen h0 hcorner
      exact ⟨s', (runEvents_call calls _).trans hs'⟩
    · obtain ⟨s', hs', hon⟩ := run_onScreen h0 fun us w hus => hcorner us w (hus.trans hws)
      rw [Option.mem_def, hs'] at hs
      exact Option.some_inj.1 hs ▸ hon

/-- 24 line feeds and ten tabs lead to the last place. -/
theorem not_inBounds : ¬ (initial (fun _ => 0) ⟨0x0F, 0⟩).InBounds
    [.putString (List.replicate 24 10 ++ List.replicate 10 9 ++ [65])] := by
  rintro ⟨⟨s', hs'⟩, -⟩
  have hnone : (runEvents call (initial (fun _ => 0) ⟨0x0F, 0⟩)
    [.putString (List.replicate 24 10 ++ List.replicate 10 9 ++ [65])]).isSome = false := by
    decide +kernel
  rw [hs'] at hnone
  exact absurd hnone (by simp)

end VgaText

end RTLKIM
