import Mathlib.Logic.Function.Basic
import RTLKIM.Lib.Word
import RTLKIM.VgaText

/-!
# The pixels of the VESA driver

The routines that draw and read pixels in the virtual buffer. They ask for pixels with coordinates of
32 bits; those that a pixel is drawn or read with are the low 16 bits. Each pixel that is asked for is
kept with what came of it.
-/

namespace RTLKIM

/-- `vesa_mode_t`, for what is read of it here. -/
structure VesaMode where
  width : UInt16
  height : UInt16

inductive VesaErr
  | noErr
  | nullPointer
  | vesaNotSupported
  | vesaNotInit
  | outOfBound
  deriving DecidableEq

structure Argb where
  alpha : UInt8
  red : UInt8
  green : UInt8
  blue : UInt8

namespace Argb

/-- From the four bytes of a colour in memory. -/
def ofWord (w : UInt32) : Argb :=
  ⟨(w >>> 24).toUInt8, (w >>> 16).toUInt8, (w >>> 8).toUInt8, w.toUInt8⟩

def word (c : Argb) : UInt32 :=
  c.alpha.toUInt32 <<< 24 ||| c.red.toUInt32 <<< 16 ||| c.green.toUInt32 <<< 8 ||| c.blue.toUInt32

/-- `(value * alpha + back * (255 - alpha)) >> 8`. -/
def mix (alpha value back : UInt8) : UInt8 :=
  UInt8.ofNat ((value.toNat * alpha.toNat + back.toNat * (255 - alpha.toNat)) >>> 8)

/-- A colour over that of a pixel. -/
def blend (c back : Argb) : Argb where
  alpha := 0
  red := mix c.alpha c.red back.red
  green := mix c.alpha c.green back.green
  blue := mix c.alpha c.blue back.blue

def white : Argb := ⟨0xFF, 0xFF, 0xFF, 0xFF⟩

end Argb

/-- A pixel that was asked for: the pixels of the buffer that were read or written, and the buffer
before and after. -/
structure VesaPixel where
  x : ℕ
  y : ℕ
  err : VesaErr
  accesses : List ℕ
  old : ℕ → UInt32
  new : ℕ → UInt32

/-- Only pixels of the buffer are accessed, and a pixel off the screen is refused. -/
structure VesaPixel.Right (mode : VesaMode) (p : VesaPixel) : Prop where
  accesses : ∀ i ∈ p.accesses, i < mode.width.toNat * mode.height.toNat
  refused : mode.width.toNat ≤ p.x ∨ mode.height.toNat ≤ p.y → p.err = .outOfBound ∧ p.new = p.old

/-- A pixel is on the screen, or a coordinate is past its edge and the next pixel in 16 bits. -/
def VesaMode.Fits (mode : VesaMode) (x y : ℕ) : Prop :=
  x < mode.width.toNat ∧ y < mode.height.toNat
    ∨ mode.width.toNat < x % 2 ^ 16 ∨ mode.height.toNat < y % 2 ^ 16

/-- The data of `vesa.c` that the routines use. `saveBuff` has the bytes of `save_buff` in fours. -/
structure Vesa where
  vesaSupported : Bool
  currentMode : Option VesaMode
  virtBuffer : ℕ → UInt32
  screenCursor : Cursor
  saveBuff : ℕ → Argb
  pixels : List VesaPixel

namespace Vesa

/-- Why a pixel is refused, and its place in the buffer. The product of two numbers of 16 bits is below
`2 ^ 32`. -/
def place (s : Vesa) (x y : UInt16) : Except VesaErr ℕ :=
  if s.vesaSupported = false then .error .vesaNotSupported
  else match s.currentMode with
  | none => .error .vesaNotInit
  | some mode =>
    if x > mode.width ∨ y > mode.height then .error .outOfBound
    else .ok (mode.width.toNat * y.toNat + x.toNat)

/-- With what is read, the error and the pixels accessed. `null` is whether a pointer of the caller is
NULL. -/
def vesaGetPixel (s : Vesa) (x y : UInt16) (null : Bool) : Option Argb × VesaErr × List ℕ :=
  if null then (none, .nullPointer, [])
  else match s.place x y with
  | .error err => (none, err, [])
  | .ok i => (some { Argb.ofWord (s.virtBuffer i) with alpha := 0xFF }, .noErr, [i])

/-- With the buffer, the error and the pixels accessed. -/
def vesaDrawPixel (s : Vesa) (x y : UInt16) (c : Argb) : (ℕ → UInt32) × VesaErr × List ℕ :=
  match s.place x y with
  | .error err => (s.virtBuffer, err, [])
  | .ok i =>
    if c.alpha = 0xFF then (Function.update s.virtBuffer i { c with alpha := 0 }.word, .noErr, [i])
    else if c.alpha ≠ 0x00 then
      (Function.update s.virtBuffer i (c.blend (Argb.ofWord (s.virtBuffer i))).word, .noErr, [i, i])
    else (s.virtBuffer, .noErr, [])

/-- A call of `vesa_draw_pixel`, with coordinates of 32 bits. -/
def draw (s : Vesa) (x y : ℕ) (c : Argb) : Vesa × VesaErr :=
  let (buffer, err, accesses) := s.vesaDrawPixel (UInt16.ofNat x) (UInt16.ofNat y) c
  ({ s with
    virtBuffer := buffer
    pixels := s.pixels ++ [⟨x, y, err, accesses, s.virtBuffer, buffer⟩] }, err)

/-- A call of `vesa_get_pixel`, with coordinates of 32 bits. -/
def get (s : Vesa) (x y : ℕ) (null : Bool) : Vesa × Option Argb × VesaErr :=
  let (c, err, accesses) := s.vesaGetPixel (UInt16.ofNat x) (UInt16.ofNat y) null
  ({ s with pixels := s.pixels ++ [⟨x, y, err, accesses, s.virtBuffer, s.virtBuffer⟩] }, c, err)

/-- The sums are of `int`, and below the sizes of the mode. -/
def vesaDrawRectangle (s : Vesa) (x y width height : UInt16) (c : Argb) : Vesa × VesaErr :=
  if s.vesaSupported = false then (s, .vesaNotSupported)
  else match s.currentMode with
  | none => (s, .vesaNotInit)
  | some mode =>
    if x.toNat + width.toNat > mode.width.toNat ∨ y.toNat + height.toNat > mode.height.toNat then
      (s, .outOfBound)
    else
      ((List.range height.toNat).foldl (fun s i =>
        (List.range width.toNat).foldl (fun s j => (s.draw (x.toNat + j) (y.toNat + i) c).1) s) s,
        .noErr)

/-- `font` is `font_bitmap`; the first glyph is that of character 31. -/
def vesaDrawchar (s : Vesa) (font : ℤ → UInt8) (character : UInt8) (x y : ℕ)
    (fgcolor bgcolor : UInt32) : Vesa :=
  (List.range 16).foldl (fun s (cy : ℕ) =>
    (List.range 8).foldl (fun s (cx : ℕ) =>
      let row := font (((character.toNat : ℤ) - 31) * 16 + cy)
      let color := if row &&& (1 <<< UInt8.ofNat cx) ≠ 0 then fgcolor else bgcolor
      (s.draw (add32 x (7 - cx)) (add32 y cy) (Argb.ofWord color)).1) s) s

/-- The pixel under the cursor is kept in place `i` of `save_buff`, and made white. -/
def showCursor (s : Vesa) (x y i : ℕ) : Vesa :=
  let (s, c, _) := s.get x y false
  let s := match c with
    | none => s
    | some c => { s with saveBuff := Function.update s.saveBuff i c }
  (s.draw x y .white).1

/-- Line `i` of what is under the cursor comes back. -/
def hideCursorLine (s : Vesa) (i : ℕ) : Vesa :=
  let cursor := s.screenCursor
  let s := (s.draw cursor.x (add32 cursor.y i) (s.saveBuff (2 * i))).1
  (s.draw (add32 cursor.x 1) (add32 cursor.y i) (s.saveBuff (2 * i + 1))).1

def showCursorLine (line column : ℕ) (s : Vesa) (i : ℕ) : Vesa :=
  let s := s.showCursor column (add32 line i) (2 * i)
  s.showCursor (add32 column 1) (add32 line i) (2 * i + 1)

/-- `none` when there is no mode: it is not checked. -/
def vesaPutCursorAt (s : Vesa) (line column : ℕ) : Option (Vesa × VesaErr) :=
  let s := { (List.range 16).foldl hideCursorLine s with screenCursor := ⟨column, line⟩ }
  match s.currentMode with
  | none => none
  | some mode =>
    if add32 column 2 < mode.width.toNat then
      some ((List.range 16).foldl (showCursorLine line column) s, .noErr)
    else some (s, .noErr)

/-! ## What is asked of the pixels -/

inductive Call
  | drawPixel (x y : UInt16) (c : Argb)
  | getPixel (x y : UInt16)
  | drawRectangle (x y width height : UInt16) (c : Argb)
  | drawchar (font : ℤ → UInt8) (character : UInt8) (x y : ℕ) (fgcolor bgcolor : UInt32)
  | putCursorAt (line column : ℕ)

/-- The data after a call. -/
def call (s : Vesa) : Call → Option Vesa
  | .drawPixel x y c => some (s.draw x.toNat y.toNat c).1
  | .getPixel x y => some (s.get x.toNat y.toNat false).1
  | .drawRectangle x y width height c => some (s.vesaDrawRectangle x y width height c).1
  | .drawchar font character x y fgcolor bgcolor =>
    some (s.vesaDrawchar font character x y fgcolor bgcolor)
  | .putCursorAt line column => (s.vesaPutCursorAt line column).map Prod.fst

/-- The data in a mode, with no pixel asked for yet. -/
def inMode (mode : VesaMode) (virtBuffer : ℕ → UInt32) (screenCursor : Cursor) (saveBuff : ℕ → Argb) :
    Vesa := ⟨true, some mode, virtBuffer, screenCursor, saveBuff, []⟩

/-- All pixels of a call are right. -/
def CallRight (mode : VesaMode) (s : Vesa) (c : Call) : Prop :=
  ∃ s', s.call c = some s' ∧ ∀ p ∈ s'.pixels, p.Right mode

/-- The pixels under a cursor. -/
def CursorFits (mode : VesaMode) (x y : ℕ) : Prop :=
  ∀ i < 16, mode.Fits x (add32 y i) ∧ mode.Fits (add32 x 1) (add32 y i)

/-- The pixels that a call asks for. A rectangle is checked as a whole. -/
def CallFits (mode : VesaMode) (s : Vesa) : Call → Prop
  | .drawPixel x y _ => mode.Fits x.toNat y.toNat
  | .getPixel x y => mode.Fits x.toNat y.toNat
  | .drawRectangle _ _ _ _ _ => True
  | .drawchar _ _ x y _ _ => ∀ cy < 16, ∀ cx < 8, mode.Fits (add32 x (7 - cx)) (add32 y cy)
  | .putCursorAt line column =>
    CursorFits mode s.screenCursor.x s.screenCursor.y
      ∧ (add32 column 2 < mode.width.toNat → CursorFits mode column line)

end Vesa

end RTLKIM
