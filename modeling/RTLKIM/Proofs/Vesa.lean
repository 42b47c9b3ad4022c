import Mathlib.Tactic.SplitIfs
import RTLKIM.Vesa

/-!
# When the pixels of a call are right

A pixel is refused when one of its coordinates in 16 bits is greater than the size of the mode, so a
coordinate that is the size, and one that is too great but not in 16 bits, get through. A routine keeps
the pixels it asks for in order, and they are all right exactly when each of them fits.
-/

namespace RTLKIM

namespace Vesa

variable {mode : VesaMode} {s t u : Vesa}

/-- The driver is in a mode. -/
def InMode (mode : VesaMode) (s : Vesa) : Prop :=
  s.vesaSupported = true ∧ s.currentMode = some mode

/-- From `s` pixels were asked for, and they are right exactly when `C`. -/
def Pixels (mode : VesaMode) (s t : Vesa) (C : Prop) : Prop :=
  ∃ ps, t.pixels = s.pixels ++ ps ∧ ((∀ p ∈ ps, p.Right mode) ↔ C)

theorem Pixels.trans {C C' : Prop} (h : Pixels mode s t C) (h' : Pixels mode t u C') :
    Pixels mode s u (C ∧ C') := by
  obtain ⟨ps, hps, hC⟩ := h
  obtain ⟨ps', hps', hC'⟩ := h'
  refine ⟨ps ++ ps', ?_, ?_⟩
  · rw [hps', hps, List.append_assoc]
  · rw [List.forall_mem_append, hC, hC']

theorem pixels_of_eq (h : t.pixels = s.pixels) : Pixels mode s t True :=
  ⟨[], by rw [h, List.append_nil], by simp⟩

/-- The pixels are all that changed, but for the buffers. -/
structure Asked (mode : VesaMode) (s t : Vesa) (C : Prop) : Prop where
  inMode : InMode mode t
  cursor : t.screenCursor = s.screenCursor
  pixels : Pixels mode s t C

theorem Asked.refl (h : InMode mode s) : Asked mode s s True := ⟨h, rfl, pixels_of_eq rfl⟩

theorem Asked.trans {C C' : Prop} (h : Asked mode s t C) (h' : Asked mode t u C') :
    Asked mode s u (C ∧ C') :=
  ⟨h'.inMode, h'.cursor.trans h.cursor, h.pixels.trans h'.pixels⟩

theorem Asked.congr {C C' : Prop} (h : Asked mode s t C) (hC : C ↔ C') : Asked mode s t C' :=
  propext hC ▸ h

/-- A loop asks for the pixels of its rounds. -/
theorem asked_loop {f : Vesa → ℕ → Vesa} {C : ℕ → Prop} (h : InMode mode s) : ∀ {n : ℕ},
    (∀ i < n, ∀ t, InMode mode t → t.screenCursor = s.screenCursor → Asked mode t (f t i) (C i)) →
    Asked mode s ((List.range n).foldl f s) (∀ i < n, C i)
  | 0, _ => (Asked.refl h).congr (by simp)
  | n + 1, hf => by
    have hloop := asked_loop h fun i hi => hf i (Nat.lt_succ_of_lt hi)
    have hlast := hf n (Nat.lt_succ_self n) _ hloop.inMode hloop.cursor
    rw [List.range_succ, List.foldl_append]
    refine (hloop.trans hlast).congr ⟨fun hC i hi => ?_, fun hC => ⟨fun i hi => ?_, ?_⟩⟩
    · rcases Nat.lt_succ_iff_lt_or_eq.1 hi with hlt | rfl
      · exact hC.1 i hlt
      · exact hC.2
    · exact hC i (Nat.lt_succ_of_lt hi)
    · exact hC n (Nat.lt_succ_self n)

/-! ## One pixel -/

theorem place_inMode (h : InMode mode s) (x y : UInt16) : s.place x y
    = if x > mode.width ∨ y > mode.height then .error .outOfBound
      else .ok (mode.width.toNat * y.toNat + x.toNat) := by
  unfold place
  rw [if_neg (by simp [h.1]), h.2]

/-- The test on the coordinates in 16 bits. -/
theorem fits_iff {x y : ℕ} : mode.Fits x y ↔
    (UInt16.ofNat x > mode.width ∨ UInt16.ofNat y > mode.height)
      ∨ x < mode.width.toNat ∧ y < mode.height.toNat := by
  unfold VesaMode.Fits
  rw [gt_iff_lt, gt_iff_lt, UInt16.lt_iff_toNat_lt, UInt16.lt_iff_toNat_lt, UInt16.toNat_ofNat',
    UInt16.toNat_ofNat']
  tauto

theorem place_lt {x y w h : ℕ} (hx : x < w) (hy : y < h) : w * y + x < w * h := by
  calc w * y + x < w * y + w := Nat.add_lt_add_left hx _
    _ = w * (y + 1) := (Nat.mul_succ w y).symm
    _ ≤ w * h := Nat.mul_le_mul_left w hy

/-- A pixel that got through, or was refused, as it is kept. -/
theorem pixel_right_iff {x y : ℕ} {p : VesaPixel} (hx : p.x = x) (hy : p.y = y)
    (h : if UInt16.ofNat x > mode.width ∨ UInt16.ofNat y > mode.height then
        p.err = .outOfBound ∧ p.accesses = [] ∧ p.new = p.old
      else p.err = .noErr ∧ ∀ i ∈ p.accesses,
        i = mode.width.toNat * (UInt16.ofNat y).toNat + (UInt16.ofNat x).toNat) :
    p.Right mode ↔ mode.Fits x y := by
  rw [fits_iff]
  split_ifs at h with hout
  · refine iff_of_true ⟨fun i hi => ?_, fun _ => ⟨h.1, h.2.2⟩⟩ (.inl hout)
    rw [h.2.1] at hi
    exact absurd hi List.not_mem_nil
  · rw [or_iff_right hout]
    constructor
    · intro hp
      by_contra hoff
      have href := (hp.refused (by omega)).1
      rw [h.1] at href
      cases href
    · rintro ⟨hxw, hyh⟩
      have hw := mode.width.toNat_lt
      have hh := mode.height.toNat_lt
      refine ⟨fun i hi => ?_, fun hoff => by omega⟩
      rw [h.2 i hi, UInt16.toNat_ofNat_of_lt' (hxw.trans hw), UInt16.toNat_ofNat_of_lt' (hyh.trans hh)]
      exact place_lt hxw hyh

theorem vesaDrawPixel_out (h : InMode mode s) {x y : UInt16} (c : Argb)
    (hout : x > mode.width ∨ y > mode.height) :
    s.vesaDrawPixel x y c = (s.virtBuffer, .outOfBound, []) := by
  unfold vesaDrawPixel
  rw [place_inMode h, if_pos hout]

theorem vesaDrawPixel_in (h : InMode mode s) {x y : UInt16} (c : Argb)
    (hin : ¬ (x > mode.width ∨ y > mode.height)) : (s.vesaDrawPixel x y c).2.1 = .noErr
      ∧ ∀ i ∈ (s.vesaDrawPixel x y c).2.2, i = mode.width.toNat * y.toNat + x.toNat := by
  unfold vesaDrawPixel
  rw [place_inMode h, if_neg hin]
  simp only []
  split_ifs <;> simp

theorem draw_pixels (s : Vesa) (x y : ℕ) (c : Argb) :
    let d := s.vesaDrawPixel (UInt16.ofNat x) (UInt16.ofNat y) c
    (s.draw x y c).1.pixels = s.pixels ++ [⟨x, y, d.2.1, d.2.2, s.virtBuffer, d.1⟩] := rfl

theorem get_pixels (s : Vesa) (x y : ℕ) :
    let d := s.vesaGetPixel (UInt16.ofNat x) (UInt16.ofNat y) false
    (s.get x y false).1.pixels = s.pixels ++ [⟨x, y, d.2.1, d.2.2, s.virtBuffer, s.virtBuffer⟩] :=
  rfl

theorem asked_draw (h : InMode mode s) (x y : ℕ) (c : Argb) :
    Asked mode s (s.draw x y c).1 (mode.Fits x y) := by
  refine ⟨h, rfl, [_], s.draw_pixels x y c, ?_⟩
  rw [List.forall_mem_singleton]
  refine pixel_right_iff rfl rfl ?_
  by_cases hout : UInt16.ofNat x > mode.width ∨ UInt16.ofNat y > mode.height
  · rw [if_pos hout, vesaDrawPixel_out h c hout]
    exact ⟨rfl, rfl, rfl⟩
  · rw [if_neg hout]
    exact vesaDrawPixel_in h c hout

theorem vesaGetPixel_eq (h : InMode mode s) (x y : UInt16) : s.vesaGetPixel x y false
    = if x > mode.width ∨ y > mode.height then (none, .outOfBound, [])
      else (some { Argb.ofWord (s.virtBuffer (mode.width.toNat * y.toNat + x.toNat)) with
        alpha := 0xFF }, .noErr, [mode.width.toNat * y.toNat + x.toNat]) := by
  unfold vesaGetPixel
  rw [if_neg (by simp), place_inMode h]
  split_ifs <;> rfl

theorem asked_get (h : InMode mode s) (x y : ℕ) :
    Asked mode s (s.get x y false).1 (mode.Fits x y) := by
  refine ⟨h, rfl, [_], s.get_pixels x y, ?_⟩
  rw [List.forall_mem_singleton]
  refine pixel_right_iff rfl rfl ?_
  by_cases hout : UInt16.ofNat x > mode.width ∨ UInt16.ofNat y > mode.height
  · rw [if_pos hout, vesaGetPixel_eq h, if_pos hout]
    exact ⟨rfl, rfl, rfl⟩
  · rw [if_neg hout, vesaGetPixel_eq h, if_neg hout]
    exact ⟨rfl, fun i hi => List.mem_singleton.1 hi⟩

/-! ## The routines -/

/-- Every pixel of a rectangle in the mode is on the screen. -/
theorem asked_vesaDrawRectangle (h : InMode mode s) (x y width height : UInt16) (c : Argb) :
    Asked mode s (s.vesaDrawRectangle x y width height c).1 True := by
  unfold vesaDrawRectangle
  rw [if_neg (by simp [h.1]), h.2]
  simp only []
  split_ifs with hbig
  · exact Asked.refl h
  · refine (asked_loop (C := fun _ => True) h fun i hi t ht _ => ?_).congr (by simp)
    refine (asked_loop ht fun j _ u hu _ => asked_draw hu (x.toNat + j) (y.toNat + i) c).congr ?_
    refine iff_of_true (fun j hj => .inl ?_) trivial
    omega

theorem asked_vesaDrawchar (h : InMode mode s) (font : ℤ → UInt8) (character : UInt8) (x y : ℕ)
    (fgcolor bgcolor : UInt32) : Asked mode s (s.vesaDrawchar font character x y fgcolor bgcolor)
      (∀ cy < 16, ∀ cx < 8, mode.Fits (add32 x (7 - cx)) (add32 y cy)) :=
  asked_loop h fun _ _ _ ht _ => asked_loop ht fun _ _ _ hu _ => asked_draw hu _ _ _

/-- The pixel under the cursor is asked for twice. -/
theorem asked_showCursor (h : InMode mode s) (x y i : ℕ) :
    Asked mode s (s.showCursor x y i) (mode.Fits x y) := by
  have hget := asked_get h x y
  have hsave (saveBuff : ℕ → Argb) : Asked mode s { (s.get x y false).1 with saveBuff := saveBuff }
      (mode.Fits x y) := ⟨hget.inMode, hget.cursor, hget.pixels⟩
  unfold showCursor
  rcases hc : s.get x y false with ⟨t, c, err⟩
  rw [hc] at hget hsave
  rcases c with _ | c
  · exact (hget.trans (asked_draw hget.inMode x y .white)).congr and_self_iff
  · exact ((hsave _).trans (asked_draw (hsave _).inMode x y .white)).congr and_self_iff

theorem asked_hideCursor (h : InMode mode s) :
    Asked mode s ((List.range 16).foldl hideCursorLine s)
      (CursorFits mode s.screenCursor.x s.screenCursor.y) := by
  refine asked_loop h fun i _ t ht hcursor => ?_
  have hleft := asked_draw ht t.screenCursor.x (add32 t.screenCursor.y i) (t.saveBuff (2 * i))
  have hright := asked_draw hleft.inMode (add32 t.screenCursor.x 1) (add32 t.screenCursor.y i)
    ((t.draw t.screenCursor.x (add32 t.screenCursor.y i) (t.saveBuff (2 * i))).1.saveBuff (2 * i + 1))
  rw [← hcursor]
  exact hleft.trans hright

theorem asked_showCursorLines (h : InMode mode s) (line column : ℕ) :
    Asked mode s ((List.range 16).foldl (showCursorLine line column) s)
      (CursorFits mode column line) := by
  refine asked_loop h fun i _ t ht _ => ?_
  have hleft := asked_showCursor ht column (add32 line i) (2 * i)
  exact hleft.trans (asked_showCursor hleft.inMode _ _ _)

/-- `screen_cursor` is set between the two halves. -/
theorem pixels_moveCursor {C C' : Prop} {cursor : Cursor} (h : Pixels mode s t C)
    (h' : Pixels mode { t with screenCursor := cursor } u C') : Pixels mode s u (C ∧ C') :=
  h.trans h'

theorem vesaPutCursorAt_pixels (h : InMode mode s) (line column : ℕ) :
    ∃ r, s.vesaPutCursorAt line column = some r ∧ Pixels mode s r.1
      (CursorFits mode s.screenCursor.x s.screenCursor.y
        ∧ (add32 column 2 < mode.width.toNat → CursorFits mode column line)) := by
  have hhide := asked_hideCursor h
  unfold vesaPutCursorAt
  generalize (List.range 16).foldl hideCursorLine s = t at hhide ⊢
  obtain ⟨supported, currentMode, buffer, cursor, saveBuff, pixels⟩ := t
  obtain rfl : currentMode = some mode := hhide.inMode.2
  have hmoved : InMode mode ⟨supported, some mode, buffer, ⟨column, line⟩, saveBuff, pixels⟩ :=
    ⟨hhide.inMode.1, rfl⟩
  simp only []
  split_ifs with hfit
  · refine ⟨_, rfl, ?_⟩
    rw [imp_iff_right hfit]
    have hshow := (asked_showCursorLines hmoved line column).pixels
    generalize (List.range 16).foldl (showCursorLine line column) _ = u at hshow ⊢
    exact pixels_moveCursor hhide.pixels hshow
  · refine ⟨_, rfl, ?_⟩
    rw [and_iff_left fun hc => absurd hc hfit]
    exact hhide.pixels

theorem call_putCursorAt {line column : ℕ} {r : Vesa × VesaErr}
    (h : s.vesaPutCursorAt line column = some r) :
    s.call (.putCursorAt line column) = some r.1 := by
  unfold call
  simp only []
  rw [h, Option.map_some]

/-- A call is right when all its pixels are. -/
theorem callRight_of_pixels {C : Prop} {c : Call} (h : Pixels mode s t C) (hs : s.pixels = [])
    (hc : s.call c = some t) : CallRight mode s c ↔ C := by
  obtain ⟨ps, hps, hC⟩ := h
  rw [hs, List.nil_append] at hps
  unfold CallRight
  rw [hc, ← hC, ← hps]
  simp

/-- The pixels of a call are right exactly when each one it asks for fits; those of a rectangle always
are. -/
theorem callRight_iff (mode : VesaMode) (virtBuffer : ℕ → UInt32) (cursor : Cursor)
    (saveBuff : ℕ → Argb) (c : Call) :
    CallRight mode (inMode mode virtBuffer cursor saveBuff) c
      ↔ CallFits mode (inMode mode virtBuffer cursor saveBuff) c := by
  have h : InMode mode (inMode mode virtBuffer cursor saveBuff) := ⟨rfl, rfl⟩
  cases c with
  | drawPixel x y c => exact callRight_of_pixels (asked_draw h x.toNat y.toNat c).pixels rfl rfl
  | getPixel x y => exact callRight_of_pixels (asked_get h x.toNat y.toNat).pixels rfl rfl
  | drawRectangle x y width height c =>
    exact callRight_of_pixels (asked_vesaDrawRectangle h x y width height c).pixels rfl rfl
  | drawchar font character x y fgcolor bgcolor =>
    exact callRight_of_pixels (asked_vesaDrawchar h font character x y fgcolor bgcolor).pixels rfl rfl
  | putCursorAt line column =>
    obtain ⟨r, hr, hp⟩ := vesaPutCursorAt_pixels h line column
    exact callRight_of_pixels hp rfl (call_putCursorAt hr)

/-- The pixel past the last one in a mode of 800 by 600, on both axes. -/
theorem not_callRight : ¬ CallRight ⟨800, 600⟩ (inMode ⟨800, 600⟩ (fun _ => 0) ⟨0, 0⟩ fun _ => .white)
    (.drawPixel 800 600 .white) := by
  have h : InMode ⟨800, 600⟩ (inMode ⟨800, 600⟩ (fun _ => 0) ⟨0, 0⟩ fun _ => .white) := ⟨rfl, rfl⟩
  rw [callRight_of_pixels (asked_draw h 800 600 .white).pixels rfl rfl]
  unfold VesaMode.Fits
  decide

end Vesa

end RTLKIM
