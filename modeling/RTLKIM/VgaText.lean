import Mathlib.Data.List.TakeWhile
import Mathlib.Logic.Function.Basic
import RTLKIM.Lib.Run

/-!
# The VGA text console

The text driver on a screen of 25 lines of 80 characters, `vga_process_char` with the functions it
calls and the writers over it. A function is `none` when it uses an index past the end of the frame
buffer or of `last_columns`. The ports of the hardware cursor are left out.
-/

namespace RTLKIM

abbrev vgaTextScreenColSize : ℕ := 80
abbrev vgaTextScreenLineSize : ℕ := 25

/-- `cursor_t`. -/
structure Cursor where
  x : ℕ
  y : ℕ
  deriving DecidableEq

/-- `colorscheme_t`, but for `vga_color`, which the driver does not read. -/
structure ColorScheme where
  foreground : UInt32
  background : UInt32

inductive ScrollDirection
  | down
  | up
  deriving DecidableEq

/-- The data of `vga_text.c`. -/
structure VgaText where
  framebuffer : ℕ → UInt16
  lastColumns : ℕ → UInt8
  screenCursor : Cursor
  lastPrintedCursor : Cursor
  screenScheme : ColorScheme

namespace VgaText

/-- The character in the low byte, its colours in the high one. -/
def cell (scheme : ColorScheme) (character : Int8) : UInt16 :=
  (character.toInt32.toUInt32 ||| (scheme.background <<< (8 : UInt32)) &&& (0xF000 : UInt32)
    ||| (scheme.foreground <<< (8 : UInt32)) &&& (0x0F00 : UInt32)).toUInt16

/-- `*(vga_framebuffer + i) = v`. -/
def setFramebuffer (s : VgaText) (i : ℕ) (v : UInt16) : Option VgaText :=
  if i < vgaTextScreenLineSize * vgaTextScreenColSize then
    some { s with framebuffer := Function.update s.framebuffer i v }
  else none

/-- `memmove` of `n` cells of the frame buffer. -/
def moveFramebuffer (s : VgaText) (dst src n : ℕ) : Option VgaText :=
  if dst + n ≤ vgaTextScreenLineSize * vgaTextScreenColSize
      ∧ src + n ≤ vgaTextScreenLineSize * vgaTextScreenColSize then
    some { s with framebuffer := fun i =>
      if dst ≤ i ∧ i < dst + n then s.framebuffer (src + (i - dst)) else s.framebuffer i }
  else none

/-- `last_columns[i]`. -/
def lastColumn (s : VgaText) (i : ℕ) : Option UInt8 :=
  if i < vgaTextScreenLineSize then some (s.lastColumns i) else none

/-- `last_columns[i] = v`. -/
def setLastColumn (s : VgaText) (i v : ℕ) : Option VgaText :=
  if i < vgaTextScreenLineSize then
    some { s with lastColumns := Function.update s.lastColumns i (UInt8.ofNat v) }
  else none

/-- The place in the frame buffer. -/
def vgaGetFramebuffer (line column : ℕ) : ℕ :=
  if line > vgaTextScreenLineSize - 1 ∨ column > vgaTextScreenColSize - 1 then 0
  else column + line * vgaTextScreenColSize

/-- With whether it was in bounds. -/
def vgaPrintChar (s : VgaText) (line column : ℕ) (character : Int8) : Option (VgaText × Bool) :=
  if line > vgaTextScreenLineSize - 1 ∨ column > vgaTextScreenColSize - 1 then some (s, false)
  else
    (s.setFramebuffer (vgaGetFramebuffer line column) (cell s.screenScheme character)).map (·, true)

/-- With whether it was in bounds. -/
def vgaPutCursorAt (s : VgaText) (line column : ℕ) : VgaText × Bool :=
  if column > vgaTextScreenColSize ∨ line > vgaTextScreenLineSize then (s, false)
  else ({ s with screenCursor := ⟨column, line⟩ }, true)

def vgaClearScreen (s : VgaText) : Option VgaText :=
  (List.range vgaTextScreenLineSize).foldlM (fun s i => do
    let s ← (List.range vgaTextScreenColSize).foldlM
      (fun s j => s.setFramebuffer (vgaGetFramebuffer i j) (cell s.screenScheme 32)) s
    s.setLastColumn i 0) s

/-- Line `i` becomes the one below it. -/
def copyLine (s : VgaText) (i : ℕ) : Option VgaText := do
  let s ← s.moveFramebuffer (vgaGetFramebuffer i 0) (vgaGetFramebuffer (i + 1) 0)
    vgaTextScreenColSize
  let column ← s.lastColumn (i + 1)
  s.setLastColumn i column.toNat

/-- One line of the scroll. -/
def scrollLine (s : VgaText) : Option VgaText := do
  let s ← (List.range (vgaTextScreenLineSize - 1)).foldlM copyLine s
  s.setLastColumn (vgaTextScreenLineSize - 1) 0

def clearLastLine (s : VgaText) : Option VgaText :=
  (List.range vgaTextScreenColSize).foldlM
    (fun s i => (s.vgaPrintChar (vgaTextScreenLineSize - 1) i 32).map Prod.fst) s

def vgaScroll (s : VgaText) (direction : ScrollDirection) (linesCount : ℕ) : Option VgaText := do
  let toScroll :=
    if vgaTextScreenLineSize < linesCount then vgaTextScreenLineSize else linesCount
  let s ← if direction = .down then do
      let s ← (List.range toScroll).foldlM (fun s _ => s.scrollLine) s
      s.clearLastLine
    else some s
  let s := (s.vgaPutCursorAt (vgaTextScreenLineSize - toScroll) 0).1
  if toScroll ≤ s.lastPrintedCursor.y then
    some { s with lastPrintedCursor.y := s.lastPrintedCursor.y - toScroll }
  else some { s with lastPrintedCursor := ⟨0, 0⟩ }

/-- `vga_put_cursor_at(line, column)`, then `last_columns[screen_cursor.y] = screen_cursor.x`. -/
def moveCursor (s : VgaText) (line column : ℕ) : Option VgaText :=
  let s := (s.vgaPutCursorAt line column).1
  s.setLastColumn s.screenCursor.y s.screenCursor.x

/-- A space at the cursor. -/
def printBlank (s : VgaText) : Option VgaText :=
  (s.vgaPrintChar s.screenCursor.y s.screenCursor.x 32).map Prod.fst

/-- Back from the start of a line to what was the end of the one above. -/
def backspaceLine (s : VgaText) : Option VgaText := do
  let line := s.screenCursor.y - 1
  let column ← s.lastColumn line
  let s ← if column.toNat ≥ vgaTextScreenColSize then s.setLastColumn line (vgaTextScreenColSize - 1)
    else some s
  let column ← s.lastColumn line
  let s := (s.vgaPutCursorAt line column.toNat).1
  s.printBlank

/-- The case `'\b'`. -/
def backspace (s : VgaText) : Option VgaText :=
  let cursor := s.screenCursor
  if s.lastPrintedCursor.y = cursor.y then
    if cursor.x > s.lastPrintedCursor.x then do
      let s ← s.moveCursor cursor.y (cursor.x - 1)
      s.printBlank
    else some s
  else if s.lastPrintedCursor.y < cursor.y then
    if cursor.x > 0 then do
      let s ← s.moveCursor cursor.y (cursor.x - 1)
      s.printBlank
    else s.backspaceLine
  else some s

/-- The case `'\t'`. -/
def tab (s : VgaText) : Option VgaText :=
  let cursor := s.screenCursor
  if cursor.x + 8 < vgaTextScreenColSize - 1 then s.moveCursor cursor.y (cursor.x + (8 - cursor.x % 8))
  else s.moveCursor cursor.y (vgaTextScreenColSize - 1)

/-- The case `'\n'`. -/
def lineFeed (s : VgaText) : Option VgaText :=
  if s.screenCursor.y < vgaTextScreenLineSize - 1 then s.moveCursor (s.screenCursor.y + 1) 0
  else s.vgaScroll .down 1

/-- A normal ASCII character: shown at the cursor, which moves on. -/
def showChar (s : VgaText) (character : Int8) : Option VgaText := do
  let ⟨x, y⟩ := s.screenCursor
  let (s, _) ← { s with screenCursor := ⟨x + 1, y⟩ }.vgaPrintChar y x character
  -- end of line
  let s ← if s.screenCursor.x > vgaTextScreenColSize - 1 then s.moveCursor (s.screenCursor.y + 1) 0
    else some s
  -- end of screen
  if s.screenCursor.y ≥ vgaTextScreenLineSize then s.vgaScroll .down 1
  else s.moveCursor s.screenCursor.y s.screenCursor.x

abbrev Printable (character : Int8) : Prop := 31 < character ∧ character < 127

/-- `vga_process_char`. A byte from 128 on is a negative `char`. -/
def vgaProcessChar (s : VgaText) (character : Int8) : Option VgaText :=
  if Printable character then s.showChar character
  else match character with
  | 8 => s.backspace
  | 9 => s.tab
  | 10 => s.lineFeed
  | 12 => s.vgaClearScreen
  | 13 => s.moveCursor s.screenCursor.y 0
  | _ => some s

def vgaPutChar (s : VgaText) (character : Int8) : Option VgaText :=
  (s.vgaProcessChar character).map fun s => { s with lastPrintedCursor := s.screenCursor }

/-- `string` is what the memory holds from the address on. -/
def vgaPutString (s : VgaText) (string : List Int8) : Option VgaText :=
  (string.takeWhile (· ≠ 0)).foldlM vgaPutChar s

def vgaConsoleWriteKeyboard (s : VgaText) (string : List Int8) (size : ℕ) : Option VgaText :=
  (string.take size).foldlM vgaProcessChar s

/-! ## Scrolling -/

/-- What the screen shows on a line. -/
def shown (s : VgaText) (line column : ℕ) : UInt16 :=
  s.framebuffer (column + line * vgaTextScreenColSize)

/-- The line is of spaces in the colours in use. -/
def Blank (s : VgaText) (line : ℕ) : Prop :=
  ∀ j < vgaTextScreenColSize, s.shown line j = cell s.screenScheme 32

def OnScreen (cursor : Cursor) : Prop :=
  cursor.x < vgaTextScreenColSize ∧ cursor.y < vgaTextScreenLineSize

/-- `s'` is `s` with its lines moved up by `k`. -/
structure Scrolled (s s' : VgaText) (k : ℕ) : Prop where
  shown : ∀ i < vgaTextScreenLineSize - k, ∀ j < vgaTextScreenColSize,
    s'.shown i j = s.shown (i + k) j
  blank : ∀ i < vgaTextScreenLineSize, vgaTextScreenLineSize - k ≤ i → s'.Blank i
  lastColumns : ∀ i < vgaTextScreenLineSize - k, s'.lastColumns i = s.lastColumns (i + k)
  noColumns : ∀ i < vgaTextScreenLineSize, vgaTextScreenLineSize - k ≤ i → s'.lastColumns i = 0
  onScreen : OnScreen s'.screenCursor

/-- `vga_scroll(SCROLL_DOWN, n)` moves the lines up by `n`, or by 25. -/
def Scrolls (s : VgaText) (n : ℕ) : Prop :=
  ∃ s', s.vgaScroll .down n = some s' ∧ Scrolled s s' (min n vgaTextScreenLineSize)

/-! ## Runs -/

/-- The data as they are before anything is written. -/
def initial (framebuffer : ℕ → UInt16) (screenScheme : ColorScheme) : VgaText where
  framebuffer := framebuffer
  lastColumns := fun _ => 0
  screenCursor := ⟨0, 0⟩
  lastPrintedCursor := ⟨0, 0⟩
  screenScheme := screenScheme

/-- A call of a writer. -/
inductive Call
  | putChar (character : Int8)
  | putString (string : List Int8)
  | consoleWriteKeyboard (string : List Int8) (size : ℕ)

def call (s : VgaText) : Call → Option VgaText
  | .putChar character => s.vgaPutChar character
  | .putString string => s.vgaPutString string
  | .consoleWriteKeyboard string size => s.vgaConsoleWriteKeyboard string size

/-- One character of a call: it is put, or it is echoed for the keyboard. -/
inductive Write
  | put (character : Int8)
  | echo (character : Int8)

def Write.character : Write → Int8
  | .put c => c
  | .echo c => c

def write (s : VgaText) : Write → Option VgaText
  | .put c => s.vgaPutChar c
  | .echo c => s.vgaProcessChar c

/-- The characters of a call. -/
def Call.writes : Call → List Write
  | .putChar character => [.put character]
  | .putString string => (string.takeWhile (· ≠ 0)).map .put
  | .consoleWriteKeyboard string size => (string.take size).map .echo

/-- The calls use no index out of range, and the cursor is on the screen after each character. -/
def InBounds (s : VgaText) (calls : List Call) : Prop :=
  (∃ s', runEvents call s calls = some s')
    ∧ ∀ ws, ws <+: calls.flatMap Call.writes →
      ∀ s' ∈ runEvents write s ws, OnScreen s'.screenCursor

/-- A character to be shown in the last place of the screen. -/
def AtCorner (s : VgaText) (w : Write) : Prop :=
  Printable w.character ∧ s.screenCursor = ⟨vgaTextScreenColSize - 1, vgaTextScreenLineSize - 1⟩

end VgaText

end RTLKIM
